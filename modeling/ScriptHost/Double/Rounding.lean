-- The double nearest to a fraction. Of two doubles at the same distance the one with the even
-- fraction is taken. Products, quotients and whole numbers are rounded this way too, each from
-- its exact value.
import ScriptHost.Double.Basic

namespace ScriptHost

/-- The whole number nearest to `num / den`, the even one of two. -/
def roundHalfEven (num den : Nat) : Nat :=
  let q := num / den
  let r := num % den
  if 2 * r < den ∨ (2 * r = den ∧ q % 2 = 0) then q else q + 1

/-- The exponent of the leading binary digit of `num / den`, both above zero. -/
def leadingExponent (num den : Nat) : Int :=
  let e : Int := (num.log2 : Int) - den.log2
  if num * powTwo (-e).toNat < den * powTwo e.toNat then e - 1 else e

namespace Double

/-- The power of two that one unit of the last place stands for near `num / den`. -/
def unitExponent (num den : Nat) : Int := max (leadingExponent num den - 52) (-1074)

/-- The pattern of the double nearest to `num / den`. One unit of the last place
more is the next pattern, also where the exponent changes, so the exponent and the
significand simply add up. Past the largest double comes infinity. -/
def nearestMagnitude (num den : Nat) : UInt64 :=
  if num = 0 then 0
  else
    let q := unitExponent num den
    let m := roundHalfEven (num * powTwo (-q).toNat) (den * powTwo q.toNat)
    UInt64.ofNat (min ((q + 1074).toNat * leadingBit + m) infinityBits.toNat)

/-- The double nearest to `num / den` or to its opposite. -/
def ofRatio (negative : Bool) (num den : Nat) : Double :=
  ofMagnitude negative (nearestMagnitude num den)

def ofInt (n : Int) : Double := ofRatio (n < 0) n.natAbs 1

/-! ## Arithmetic on finite doubles -/

def mul (a b : Double) : Double :=
  ofRatio (a.isNegative != b.isNegative) (a.num * b.num) (a.den * b.den)

/-- The quotient of two finite doubles, the second one not zero. -/
def div (a b : Double) : Double :=
  ofRatio (a.isNegative != b.isNegative) (a.num * b.den) (a.den * b.num)

def neg (d : Double) : Double := ⟨d.bits ^^^ 0x8000000000000000⟩

/-- The double nearest to a power of ten. -/
def tenPow (k : Nat) : Double := ofRatio false (powTen k) 1

end Double

end ScriptHost
