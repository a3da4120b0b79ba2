-- The tokens of a JSON text. Reading works a character at a time and remembers only the token
-- that has begun. Escaped code units are joined to characters when the text is complete, so a
-- surrogate needs its partner in the very next escape.
import ScriptHost.Json.Number
import ScriptHost.Text.Utf16

namespace ScriptHost.Json

inductive Token
  | scalar (v : Json)
  | text (s : String)
  | comma
  | colon
  | beginArray
  | endArray
  | beginObject
  | endObject

/-- A part of a text: a character as it is, or a code unit that was escaped. -/
inductive Piece
  | char (c : Char)
  | unit (u : UInt16)

def joinPieces? : List Piece → Option (List Char)
  | [] => some []
  | .char c :: rest => (joinPieces? rest).map (c :: ·)
  | .unit u :: rest =>
    if Utf16.isSurrogate u then
      match rest with
      | .unit v :: rest =>
        if Utf16.isHigh u && Utf16.isLow v then (joinPieces? rest).map (Utf16.joined u v :: ·)
        else none
      | _ => none
    else (joinPieces? rest).map (Char.ofNat u.toNat :: ·)

/-- A token that has begun, its parts so far in reverse. -/
inductive Begun
  | nothing
  | word (parts : List Char)
  | number (parts : List Char)
  | text (parts : List Piece)
  | escape (parts : List Piece)
  | code (parts : List Piece) (digits : Nat) (value : Nat)

def isBlank (c : Char) : Bool := c == ' ' || c == '\t' || c == '\n' || c == '\r'

def isNumberChar (c : Char) : Bool :=
  Text.isDigit c || c == '-' || c == '+' || c == '.' || c == 'e' || c == 'E'

def isWordChar (c : Char) : Bool := 'a' ≤ c && c ≤ 'z'

def word? (parts : List Char) : Option Token :=
  if parts.reverse = "null".toList then some (.scalar .null)
  else if parts.reverse = "true".toList then some (.scalar (.bool true))
  else if parts.reverse = "false".toList then some (.scalar (.bool false))
  else none

def number? (parts : List Char) : Option Token :=
  (Number.ofChars? parts.reverse).map fun n => .scalar (.num n)

def text? (parts : List Piece) : Option Token :=
  (joinPieces? parts.reverse).map fun cs => .text (String.ofList cs)

def unescape? (c : Char) : Option Char :=
  if c = '"' ∨ c = '\\' ∨ c = '/' then some c
  else if c = 'b' then some '\x08'
  else if c = 'f' then some '\x0c'
  else if c = 'n' then some '\n'
  else if c = 'r' then some '\r'
  else if c = 't' then some '\t'
  else none

/-- A character where no token has begun: the token that it is, if any, and what it
leaves begun. -/
def start? (c : Char) : Option (List Token × Begun) :=
  if isBlank c then some ([], .nothing)
  else if c = ',' then some ([.comma], .nothing)
  else if c = ':' then some ([.colon], .nothing)
  else if c = '[' then some ([.beginArray], .nothing)
  else if c = ']' then some ([.endArray], .nothing)
  else if c = '\x7b' then some ([.beginObject], .nothing)
  else if c = '\x7d' then some ([.endObject], .nothing)
  else if c = '"' then some ([], .text [])
  else if c = '-' || Text.isDigit c then some ([], .number [c])
  else if isWordChar c then some ([], .word [c])
  else none

/-- A character that ends a token and is then looked at afresh. -/
def after? (done : Option Token) (c : Char) : Option (List Token × Begun) := do
  let t ← done
  let (ts, begun) ← start? c
  return (t :: ts, begun)

def step? : Begun → Char → Option (List Token × Begun)
  | .nothing, c => start? c
  | .word parts, c => if isWordChar c then some ([], .word (c :: parts)) else after? (word? parts) c
  | .number parts, c =>
    if isNumberChar c then some ([], .number (c :: parts)) else after? (number? parts) c
  | .text parts, c =>
    if c = '"' then (text? parts).map fun t => ([t], .nothing)
    else if c = '\\' then some ([], .escape parts)
    else if c.toNat < 0x20 then none
    else some ([], .text (.char c :: parts))
  | .escape parts, c =>
    if c = 'u' then some ([], .code parts 0 0)
    else (unescape? c).map fun x => ([], .text (.char x :: parts))
  | .code parts digits value, c =>
    (Text.hexValue? c).map fun h =>
      let value := value * 16 + h
      if digits = 3 then ([], .text (.unit (UInt16.ofNat value) :: parts))
      else ([], .code parts (digits + 1) value)

def finish? : Begun → Option (List Token)
  | .nothing => some []
  | .word parts => (word? parts).map ([·])
  | .number parts => (number? parts).map ([·])
  | _ => none

def tokensFrom? : Begun → List Char → Option (List Token)
  | begun, [] => finish? begun
  | begun, c :: cs =>
    (step? begun c).bind fun (ts, begun) => (tokensFrom? begun cs).map (ts ++ ·)

def tokens? (cs : List Char) : Option (List Token) := tokensFrom? .nothing cs

end ScriptHost.Json
