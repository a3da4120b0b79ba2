-- Reading the number of a JSON text. Without a point and an exponent a number is whole if it
-- fits, and a double otherwise. A double is put together in two rounded steps: as many digits
-- as fit 64 bits make a whole number, which is then multiplied or divided by a power of ten.
-- The result may be one place off the nearest double.
import ScriptHost.Double.Rounding
import ScriptHost.Json.Basic
import ScriptHost.Text.Digits

namespace ScriptHost.Json

structure NumberParts where
  negative : Bool
  whole : List Char
  fraction : Option (List Char)
  exponent : Option Int

/-! ## Splitting -/

/-- Digits at the start, at least one, and what follows them. -/
def someDigits? (cs : List Char) : Option (List Char × List Char) :=
  let ds := cs.takeWhile Text.isDigit
  if ds.isEmpty then none else some (ds, cs.dropWhile Text.isDigit)

def splitSign : List Char → Bool × List Char
  | '-' :: cs => (true, cs)
  | cs => (false, cs)

/-- The digits before the point. A zero in front stands alone. -/
def splitWhole? (cs : List Char) : Option (List Char × List Char) :=
  (someDigits? cs).bind fun (ds, rest) =>
    if ds.head? = some '0' ∧ ds.length ≠ 1 then none else some (ds, rest)

def splitFraction? : List Char → Option (Option (List Char) × List Char)
  | '.' :: cs => (someDigits? cs).map fun (ds, rest) => (some ds, rest)
  | cs => some (none, cs)

def splitExponent? (cs : List Char) : Option (Option Int) :=
  match cs with
  | [] => some none
  | c :: cs => if c = 'e' ∨ c = 'E' then (Text.integer? cs).map some else none

def NumberParts.ofChars? (cs : List Char) : Option NumberParts := do
  let (negative, cs) := splitSign cs
  let (whole, cs) ← splitWhole? cs
  let (fraction, cs) ← splitFraction? cs
  let exponent ← splitExponent? cs
  return { negative, whole, fraction, exponent }

/-! ## The value -/

/-- Digits taken into `n` for as long as it stays below 2^64, and how many were not. -/
def absorb (n : Nat) : List Char → Nat × Nat
  | [] => (n, 0)
  | d :: ds =>
    let n' := 10 * n + Text.digitValue d
    if n' < 0x10000000000000000 then absorb n' ds else (n, ds.length + 1)

/-- `d` times a power of ten. The largest power at hand is the 308th, so for a smaller
number that one is taken out first. Nothing comes of a number that is too large. -/
def scaled? (d : Double) (e : Int) : Option Double :=
  if e.natAbs ≤ 308 then
    if 0 ≤ e then
      let r := d.mul (.tenPow e.toNat)
      if r.isFinite then some r else none
    else some (d.div (.tenPow (-e).toNat))
  else if d.magnitude = 0 then some d
  else if 0 < e then none
  else scaled? (d.div (.tenPow 308)) (e + 308)
termination_by e.natAbs
decreasing_by omega

/-- The double of a number: digits of the fraction still go into the whole number
when digits before the point no longer did. -/
def NumberParts.double? (p : NumberParts) : Option Double :=
  let (n, left) := absorb 0 p.whole
  let fraction := p.fraction.getD []
  let (n, unread) := absorb n fraction
  let e : Int := left - (fraction.length - unread : Nat) + p.exponent.getD 0
  (scaled? (.ofRatio false n 1) e).map fun d => if p.negative then d.neg else d

/-- The whole number, if there is no mark and it fits. A negative zero is a double. -/
def NumberParts.int? (p : NumberParts) : Option Number :=
  let n : Int := Text.digitsValue p.whole
  let n := if p.negative then -n else n
  if p.fraction.isSome ∨ p.exponent.isSome ∨ (p.negative ∧ n = 0) then none
  else if fits : Fits n then some (.int n fits)
  else none

def Number.ofChars? (cs : List Char) : Option Number := do
  let p ← NumberParts.ofChars? cs
  match p.int? with
  | some n => return n
  | none => Number.ofDouble? (← p.double?)

end ScriptHost.Json
