-- Big integers as the host reads them. The digits decide whether an integer fits 64 signed
-- bits, so an integer that does not is never cut down to one that does.
import ScriptHost.Text.Blank
import ScriptHost.Text.Digits

namespace ScriptHost

inductive BigInteger
  | exact (n : Int64)
  /-- The integer needs more than 64 bits. No exception is pending. -/
  | outOfRange
  /-- The engine threw, and its exception is pending. -/
  | threw
  deriving DecidableEq

/-- The integer that a decimal text writes, white space around it left out. A text
that writes none counts as out of range. -/
def BigInteger.ofDecimal (s : String) : BigInteger :=
  match Text.integer? (Text.trim s.toList) with
  | some n =>
    if Int64.minValue.toInt ≤ n ∧ n ≤ Int64.maxValue.toInt then exact (.ofInt n) else outOfRange
  | none => outOfRange

end ScriptHost
