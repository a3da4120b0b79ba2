-- UTF-16 in both directions. A character past U+FFFF is a pair of surrogates, the high one
-- first. A surrogate without its partner stands for nothing, so reading fails.

namespace ScriptHost.Utf16

def isHigh (u : UInt16) : Bool := 0xD800 ≤ u && u < 0xDC00

def isLow (u : UInt16) : Bool := 0xDC00 ≤ u && u < 0xE000

def isSurrogate (u : UInt16) : Bool := isHigh u || isLow u

def encodeChar (c : Char) : List UInt16 :=
  let n := c.toNat
  if n < 0x10000 then [UInt16.ofNat n]
  else
    let rest := n - 0x10000
    [UInt16.ofNat (0xD800 + rest / 0x400), UInt16.ofNat (0xDC00 + rest % 0x400)]

def encode (s : String) : List UInt16 := s.toList.flatMap encodeChar

/-- The character of a high and a low surrogate. -/
def joined (hi lo : UInt16) : Char :=
  Char.ofNat (0x10000 + (hi.toNat - 0xD800) * 0x400 + (lo.toNat - 0xDC00))

def chars? : List UInt16 → Option (List Char)
  | [] => some []
  | u :: rest =>
    if isSurrogate u then
      match rest with
      | v :: rest => if isHigh u && isLow v then (chars? rest).map (joined u v :: ·) else none
      | [] => none
    else (chars? rest).map (Char.ofNat u.toNat :: ·)

def decode? (units : List UInt16) : Option String := (chars? units).map String.ofList

end ScriptHost.Utf16
