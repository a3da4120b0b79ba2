-- The wide layout. A word is eight payload bytes beside a tag field of their own, so every
-- address and every double fits as it is.
import ScriptHost.Double.Basic
import ScriptHost.Numbering
import ScriptHost.Text.Digits

namespace ScriptHost

structure Wide where
  payload : UInt64
  tag : Int64
  deriving DecidableEq

namespace Wide

def make (t : Tag) (payload : UInt64) : Wide := ⟨payload, (Numbering.negative.number t).toInt64⟩

/-- An immediate stands in the lower half, under zeros. -/
def immediate (t : Tag) (n : Int32) : Wide := make t n.toUInt32.toUInt64

def ofDouble (d : Double) : Wide := make .float64 d.canonical.bits

/-- The lower half of the tag field; the upper half is not looked at. -/
def rawTag (w : Wide) : Int32 := w.tag.toInt32

def int32 (w : Wide) : Int32 := w.payload.toUInt32.toInt32

def double (w : Wide) : Double := ⟨w.payload⟩

def describe (w : Wide) : String :=
  "StructValue \x7b tag: " ++ toString w.tag.toInt ++ ", payload: " ++ Text.hexWord w.payload
    ++ " \x7d"

end Wide

end ScriptHost
