-- Digits. Decimal digits are read as whole numbers with an optional sign. Whole numbers are
-- written in base sixteen, with or without zeros in front.

namespace ScriptHost.Text

def isDigit (c : Char) : Bool := '0' ≤ c && c ≤ '9'

def digitValue (c : Char) : Nat := c.toNat - '0'.toNat

/-- The number that decimal digits stand for. -/
def digitsValue (ds : List Char) : Nat := ds.foldl (fun n d => 10 * n + digitValue d) 0

/-- The number of at least one digit and nothing else. -/
def natural? (cs : List Char) : Option Nat :=
  if cs ≠ [] ∧ cs.all isDigit then some (digitsValue cs) else none

/-- The number of an optional sign and at least one digit. -/
def integer? : List Char → Option Int
  | '+' :: ds => (natural? ds).map Int.ofNat
  | '-' :: ds => (natural? ds).map fun n => -(n : Int)
  | ds => (natural? ds).map Int.ofNat

/-! ## Base sixteen -/

def hexDigits (n : Nat) : List Char := Nat.toDigits 16 n

/-- A number as `0x` and its digits. -/
def hex (n : Nat) : String := "0x" ++ String.ofList (hexDigits n)

/-- A number as `0x` and at least `width` digits. -/
def hexPadded (width n : Nat) : String :=
  let ds := hexDigits n
  "0x" ++ String.ofList (List.replicate (width - ds.length) '0' ++ ds)

/-- A 64-bit word as `0x` and sixteen digits. -/
def hexWord (w : UInt64) : String := hexPadded 16 w.toNat

def hexValue? (c : Char) : Option Nat :=
  if isDigit c then some (digitValue c)
  else if 'a' ≤ c && c ≤ 'f' then some (c.toNat - 'a'.toNat + 10)
  else if 'A' ≤ c && c ≤ 'F' then some (c.toNat - 'A'.toNat + 10)
  else none

end ScriptHost.Text
