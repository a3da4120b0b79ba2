-- UTF-8 in both directions. Reading works a byte at a time and remembers only the character
-- that has begun. A byte that cannot follow ends the begun character: that much counts as one
-- bad part, and the byte is then looked at afresh. So each longest beginning of a character
-- that is not completed gives one bad part.

namespace ScriptHost.Utf8

def encode (s : String) : List UInt8 := s.toList.flatMap String.utf8EncodeChar

/-- A character that has begun: its bits so far, how many bytes it still lacks, and
the range in which the next one has to lie. -/
structure Begun where
  value : Nat
  owed : Nat
  low : UInt8
  high : UInt8
  deriving DecidableEq

/-- What a byte adds to the text, a bad part being `none`, and what it leaves begun. -/
abbrev Progress := List (Option Char) × Option Begun

/-- A byte where no character has begun. The ranges keep out long forms, surrogates
and everything past U+10FFFF. -/
def first (b : UInt8) : Progress :=
  if b < 0x80 then ([some (Char.ofNat b.toNat)], none)
  else if b < 0xC2 then ([none], none)
  else if b < 0xE0 then ([], some ⟨b.toNat - 0xC0, 1, 0x80, 0xBF⟩)
  else if b = 0xE0 then ([], some ⟨0, 2, 0xA0, 0xBF⟩)
  else if b = 0xED then ([], some ⟨0xD, 2, 0x80, 0x9F⟩)
  else if b < 0xF0 then ([], some ⟨b.toNat - 0xE0, 2, 0x80, 0xBF⟩)
  else if b = 0xF0 then ([], some ⟨0, 3, 0x90, 0xBF⟩)
  else if b < 0xF4 then ([], some ⟨b.toNat - 0xF0, 3, 0x80, 0xBF⟩)
  else if b = 0xF4 then ([], some ⟨4, 3, 0x80, 0x8F⟩)
  else ([none], none)

def Begun.next (p : Begun) (b : UInt8) : Progress :=
  if p.low ≤ b && b ≤ p.high then
    let value := p.value * 64 + (b.toNat - 0x80)
    if p.owed ≤ 1 then ([some (Char.ofNat value)], none)
    else ([], some ⟨value, p.owed - 1, 0x80, 0xBF⟩)
  else
    let (out, begun) := first b
    (none :: out, begun)

def step : Option Begun → UInt8 → Progress
  | none, b => first b
  | some p, b => p.next b

/-- The characters of some bytes, with one `none` for each bad part. -/
def charsFrom : Option Begun → List UInt8 → List (Option Char)
  | none, [] => []
  | some _, [] => [none]
  | begun, b :: bs => (step begun b).1 ++ charsFrom (step begun b).2 bs

def chars (bytes : List UInt8) : List (Option Char) := charsFrom none bytes

/-- The text, with U+FFFD for each bad part. -/
def decodeLossy (bytes : List UInt8) : String :=
  String.ofList ((chars bytes).map fun c => c.getD '\uFFFD')

def decode? (bytes : List UInt8) : Option String :=
  ((chars bytes).mapM id).map String.ofList

end ScriptHost.Utf8
