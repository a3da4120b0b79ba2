-- The compact text of a document. Doubles are written with the fewest digits that read back,
-- in full between 0.00001 and 10^16 and with an exponent elsewhere.
import ScriptHost.Double.Shortest
import ScriptHost.Json.Basic
import ScriptHost.Text.Digits

namespace ScriptHost

/-! ## Numbers -/

/-- The digits of a whole number, with a sign if it is below zero. -/
def integerText (n : Int) : List Char :=
  if n < 0 then '-' :: Nat.toDigits 10 n.natAbs else Nat.toDigits 10 n.natAbs

/-- A decimal with all its places, and at least one digit after the point. -/
def Decimal.inFull (d : Decimal) : List Char :=
  if d.leading < 0 then
    '0' :: '.' :: List.replicate (-d.leading - 1).toNat '0' ++ d.text
  else
    let whole := d.leading.toNat + 1
    let places := d.text.drop whole
    d.text.take whole ++ List.replicate (whole - d.text.length) '0'
      ++ '.' :: (if places.isEmpty then ['0'] else places)

/-- A decimal with one digit before the point, and with an exponent that always has
its sign. -/
def Decimal.withExponent (d : Decimal) : List Char :=
  let places := d.text.drop 1
  d.text.take 1 ++ (if places.isEmpty then [] else '.' :: places)
    ++ 'e' :: (if d.leading < 0 then integerText d.leading else '+' :: integerText d.leading)

def Decimal.render (d : Decimal) : List Char :=
  if -5 ≤ d.leading ∧ d.leading ≤ 15 then d.inFull else d.withExponent

def Double.render (d : Double) : List Char :=
  let size := if d.magnitude = 0 then ['0', '.', '0'] else d.shortest.render
  if d.isNegative then '-' :: size else size

namespace Json

def Number.render : Number → List Char
  | .int n _ => integerText n
  | .float d _ => d.render

/-! ## Texts -/

/-- A character between quotes. Only quotes, backslashes and control characters are
escaped, the common ones by a letter. -/
def escape (c : Char) : List Char :=
  if c = '"' then ['\\', '"']
  else if c = '\\' then ['\\', '\\']
  else if c = '\n' then ['\\', 'n']
  else if c = '\r' then ['\\', 'r']
  else if c = '\t' then ['\\', 't']
  else if c = '\x08' then ['\\', 'b']
  else if c = '\x0c' then ['\\', 'f']
  else if c.toNat < 0x20 then
    '\\' :: 'u' :: '0' :: '0' :: (if c.toNat < 0x10 then ['0'] else []) ++ Text.hexDigits c.toNat
  else [c]

def quote (s : String) : List Char := '"' :: s.toList.flatMap escape ++ ['"']

/-! ## Documents -/

mutual

def render : Json → List Char
  | null => "null".toList
  | bool b => (if b then "true" else "false").toList
  | num n => n.render
  | str s => quote s
  | arr items => '[' :: renderItems items ++ [']']
  | obj members => '\x7b' :: renderMembers members ++ ['\x7d']

def renderItems : List Json → List Char
  | [] => []
  | [v] => render v
  | v :: rest => render v ++ ',' :: renderItems rest

def renderMembers : List (String × Json) → List Char
  | [] => []
  | [(k, v)] => quote k ++ ':' :: render v
  | (k, v) :: rest => quote k ++ ':' :: render v ++ ',' :: renderMembers rest

end

def text (v : Json) : String := String.ofList v.render

end Json

end ScriptHost
