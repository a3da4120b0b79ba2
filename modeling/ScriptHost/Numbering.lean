-- The two ways in which engines number the tags. The signed numbering puts the counted tags
-- below zero, and leaves three numbers between them free. The compact numbering fits every tag
-- in four bits, and the top one of the four marks a counted tag.
import ScriptHost.Tag

namespace ScriptHost

inductive Numbering
  | negative
  | strict
  deriving DecidableEq

namespace Numbering

def name : Numbering → String
  | negative => "negative"
  | strict => "strict"

def number : Numbering → Tag → Int32
  | negative, .bigDecimal => -11
  | negative, .bigInt => -10
  | negative, .bigFloat => -9
  | negative, .symbol => -8
  | negative, .string => -7
  | negative, .moduleRecord => -3
  | negative, .functionBytecode => -2
  | negative, .object => -1
  | negative, .int => 0
  | negative, .bool => 1
  | negative, .null => 2
  | negative, .undefined => 3
  | negative, .uninitialized => 4
  | negative, .catchOffset => 5
  | negative, .exception => 6
  | negative, .float64 => 7
  | strict, .uninitialized => 0
  | strict, .int => 1
  | strict, .bool => 2
  | strict, .null => 3
  | strict, .undefined => 4
  | strict, .catchOffset => 5
  | strict, .exception => 6
  | strict, .float64 => 7
  | strict, .object => 8
  | strict, .functionBytecode => 9
  | strict, .moduleRecord => 10
  | strict, .string => 11
  | strict, .symbol => 12
  | strict, .bigFloat => 13
  | strict, .bigInt => 14
  | strict, .bigDecimal => 15

/-- The tag with a given number, if the number is in use. -/
def tag? (s : Numbering) (raw : Int32) : Option Tag :=
  Tag.all.find? fun t => s.number t == raw

/-- The lowest number of the signed numbering. -/
def lowest : Int32 := -11

/-- What an engine takes for counted, going by the number alone. The signed
numbering counts every number from the lowest up to -1, in use or not. The
compact one looks at sixteen bits and wants the fourth one set and none above. -/
def isCounted : Numbering → Int32 → Bool
  | negative, raw => lowest ≤ raw && raw < 0
  | strict, raw => raw &&& 0xFFF8 == 8

theorem tag?_number (s : Numbering) (t : Tag) : s.tag? (s.number t) = some t := by
  cases s <;> cases t <;> decide

theorem isCounted_number (s : Numbering) (t : Tag) :
    s.isCounted (s.number t) = t.isCounted := by
  cases s <;> cases t <;> decide

end Numbering

end ScriptHost
