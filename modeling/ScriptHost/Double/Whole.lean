-- Doubles that are 32-bit integers. A double counts as an integer only when the integer has
-- that very pattern, so -0.0 stays a double.
import ScriptHost.Double.Rounding

namespace ScriptHost.Double

/-- The nearest whole number, a half going away from zero. -/
def nearestInt (d : Double) : Int :=
  let m : Nat := (2 * d.num + d.den) / (2 * d.den)
  if d.isNegative then -m else m

/-- The nearest 32-bit integer: numbers past either end of the range go to that end,
and a NaN goes to 0. -/
def nearestInt32 (d : Double) : Int32 :=
  if d.isNaN then 0
  else Int32.ofInt (max Int32.minValue.toInt (min Int32.maxValue.toInt d.nearestInt))

/-- The 32-bit integer whose double is `d`, bit for bit. -/
def asInt32? (d : Double) : Option Int32 :=
  let n := d.nearestInt32
  if ofInt n.toInt = d then some n else none

end ScriptHost.Double

namespace ScriptHost

/-- The 32-bit integer equal to a 64-bit one, if it fits. -/
def narrow? (n : Int64) : Option Int32 :=
  if n.toInt32.toInt64 = n then some n.toInt32 else none

end ScriptHost
