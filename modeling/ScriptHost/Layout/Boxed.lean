-- The boxed layout. A word has a tag number in its upper half and a payload of 32 bits in its
-- lower half. A double is stored less a fixed amount, which moves the quiet NaNs out of the
-- way: their upper halves are the tag numbers of everything else.
import ScriptHost.Double.Basic
import ScriptHost.Numbering

namespace ScriptHost.Boxed

/-- What is taken away from the upper half of a double. -/
def shift : UInt64 := 0x7FF8000C00000000

def make (t : Tag) (payload : UInt32) : UInt64 :=
  (Numbering.negative.number t).toUInt32.toUInt64 <<< 32 ||| payload.toUInt64

def immediate (t : Tag) (n : Int32) : UInt64 := make t n.toUInt32

def ofDouble (d : Double) : UInt64 := d.canonical.bits - shift

def rawTag (w : UInt64) : Int32 := (w >>> 32).toUInt32.toInt32

/-- Whether an upper half belongs to a double: it is none of the numbers from the
lowest one up to the one before the doubles' own. -/
def isFloatTag (raw : Int32) : Bool := !(Numbering.lowest ≤ raw && raw < 7)

/-- The tag number, with one number for all the upper halves of doubles. -/
def tagNumber (w : UInt64) : Int32 := if isFloatTag (rawTag w) then 7 else rawTag w

def int32 (w : UInt64) : Int32 := w.toUInt32.toInt32

def payload (w : UInt64) : UInt64 := w &&& 0xFFFFFFFF

def double (w : UInt64) : Double := ⟨w + shift⟩

end ScriptHost.Boxed
