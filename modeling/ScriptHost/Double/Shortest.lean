-- The shortest decimal that reads back as a given double. Every decimal between the midpoints
-- to the two neighbours reads back; the ends themselves do when the significand is even. Of
-- the decimals with the fewest digits the nearest one is taken, and the even one of two that
-- are equally near.
import ScriptHost.Double.Basic

namespace ScriptHost

/-- The number `digits * 10 ^ exponent`. -/
structure Decimal where
  digits : Nat
  exponent : Int

namespace Decimal

/-- The digits that are written, most significant first. -/
def text (d : Decimal) : List Char := Nat.toDigits 10 d.digits

def leading (d : Decimal) : Int := d.exponent + (d.text.length - 1 : Nat)

/-- Zeros at the end moved into the exponent, at most `fuel` of them. -/
def trim : Nat → Decimal → Decimal
  | 0, d => d
  | fuel + 1, d =>
    if d.digits ≠ 0 ∧ d.digits % 10 = 0 then trim fuel ⟨d.digits / 10, d.exponent + 1⟩ else d

end Decimal

/-- The exponent of the first decimal digit of `num / den`, both above zero. -/
def leadingPlace (num den : Nat) : Int :=
  let e : Int := ((Nat.toDigits 10 num).length : Int) - (Nat.toDigits 10 den).length
  if num * powTen (-e).toNat < den * powTen e.toNat then e - 1 else e

namespace Double

/-- The decimals that read back as a double lie between `lowNum / den` and
`highNum / den`, and the double itself is `num / den`. -/
structure Reach where
  lowNum : Nat
  num : Nat
  highNum : Nat
  den : Nat
  closed : Bool

/-- The reach of a finite double above zero. Below a power of two the next double is
only half as far away, except at the lower end of the exponents. -/
def reach (d : Double) : Reach :=
  let narrow := d.fraction = 0 ∧ 1 < d.exponentField
  let unit := powTwo d.scale.toNat
  { lowNum := if narrow then 4 * d.num - unit else 4 * d.num - 2 * unit
    num := 4 * d.num
    highNum := 4 * d.num + 2 * unit
    den := 4 * d.den
    closed := d.significand % 2 = 0 }

namespace Reach

def holds (r : Reach) (c : Nat) (p : Int) : Bool :=
  let value := c * powTen p.toNat * r.den
  let low := r.lowNum * powTen (-p).toNat
  let high := r.highNum * powTen (-p).toNat
  if r.closed then low ≤ value && value ≤ high else low < value && value < high

/-- The nearest decimal that reads back among the two neighbours of the number on
the grid of multiples of `10 ^ p`. -/
def onGrid? (r : Reach) (p : Int) : Option Decimal :=
  let num := r.num * powTen (-p).toNat
  let den := r.den * powTen p.toNat
  let c := num / den
  match r.holds c p, r.holds (c + 1) p with
  | false, false => none
  | true, false => some ⟨c, p⟩
  | false, true => some ⟨c + 1, p⟩
  | true, true =>
    let rest := num % den
    if 2 * rest < den ∨ (2 * rest = den ∧ c % 2 = 0) then some ⟨c, p⟩ else some ⟨c + 1, p⟩

end Reach

/-- The shortest decimal for a finite double above zero. Seventeen digits always
read back. -/
def shortest (d : Double) : Decimal :=
  let r := d.reach
  let place := leadingPlace r.num r.den
  let found := (List.range 17).findSome? fun n : Nat => r.onGrid? (place - n)
  (found.getD ⟨r.num / r.den, 0⟩).trim 20

end Double

end ScriptHost
