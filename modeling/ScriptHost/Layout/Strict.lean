-- The strict layout. A word that is no double has twelve zero bits on top, then four bits of
-- tag and a payload of 48 bits. A finite double is stored with every bit turned over, so its
-- twelve top bits are never all zero. A NaN and the two infinities have three words of their
-- own under the tag of the doubles.
import ScriptHost.Double.Basic
import ScriptHost.Numbering

namespace ScriptHost.Strict

/-- The largest word that is no inverted double. -/
def threshold : UInt64 := 0x000FFFFFFFFFFFFF

def payloadMask : UInt64 := 0x0000FFFFFFFFFFFF

def make (t : Tag) (payload : UInt64) : UInt64 :=
  (Numbering.strict.number t).toUInt32.toUInt64 <<< 48 ||| payload

def immediate (t : Tag) (n : Int32) : UInt64 := make t n.toUInt32.toUInt64

def nan : UInt64 := make .float64 1

def negInfinity : UInt64 := make .float64 2

def infinity : UInt64 := make .float64 3

def ofDouble (d : Double) : UInt64 :=
  if d.isNaN then nan
  else if d.isFinite then ~~~d.bits
  else if d.isNegative then negInfinity
  else infinity

def rawTag (w : UInt64) : Int32 := if threshold < w then 7 else (w >>> 48).toUInt32.toInt32

def int32 (w : UInt64) : Int32 := w.toUInt32.toInt32

def payload (w : UInt64) : UInt64 := w &&& payloadMask

/-- The double of a word, whatever its tag. Every word up to the threshold that is
neither infinity reads as a NaN. -/
def double (w : UInt64) : Double :=
  if threshold < w then ⟨~~~w⟩
  else if w = negInfinity then .negInfinity
  else if w = infinity then .infinity
  else .canonicalNaN

end ScriptHost.Strict
