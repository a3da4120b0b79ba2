-- The numbers that doubles stand for. Every finite double is a whole number of units of
-- 2 ^ -1074, the size of the smallest double above zero, and the patterns with their signs
-- stand in the order of these numbers.
import Mathlib.Algebra.Order.Field.Rat
import Mathlib.Order.Monotone.Basic
import Mathlib.Algebra.Order.SuccPred
import Mathlib.Tactic.FieldSimp
import Mathlib.Tactic.Linarith
import Mathlib.Tactic.Ring
import ScriptHost.Double.Whole
import ScriptHost.Proofs.Layout.Fields

namespace ScriptHost.Double

/-! ## Units -/

/-- The number of binary places down to the units. -/
@[irreducible]
def unitPlaces : Nat := 1074

theorem unitPlaces_eq : unitPlaces = 1074 := by rw [unitPlaces]

/-- The number of units in one. It is too large a number to be worked out. -/
def perOne : Nat := powTwo unitPlaces

theorem perOne_pos : (0 : ℚ) < perOne := Nat.cast_pos.mpr (powTwo_pos unitPlaces)

theorem powTwo_add (a b : Nat) : powTwo (a + b) = powTwo a * powTwo b := Nat.pow_add 2 a b

/-- The number of units in a pattern below the sign. -/
def unitsOf (m : Nat) : Nat :=
  if m / leadingBit = 0 then m % leadingBit
  else (leadingBit + m % leadingBit) * 2 ^ (m / leadingBit - 1)

/-- A pattern that is put together of a place and of a number there, as rounding does it.
The number may be one too large for the place. -/
theorem unitsOf_place {s k : Nat} (hs : s = 0 ∨ leadingBit ≤ k) (hk : k ≤ 2 * leadingBit) :
    unitsOf (s * leadingBit + k) = k * 2 ^ s := by
  have hpos : 0 < leadingBit := by decide
  unfold unitsOf
  rw [Nat.mul_comm s, Nat.mul_add_div hpos, Nat.mul_add_mod]
  rcases Nat.lt_or_ge k leadingBit with hlow | hhigh
  · obtain rfl : s = 0 := by omega
    simp [Nat.div_eq_of_lt hlow, Nat.mod_eq_of_lt hlow]
  · rcases Nat.lt_or_eq_of_le hk with hk | rfl
    · have hd : k / leadingBit = 1 := Nat.div_eq_of_lt_le (by omega) (by omega)
      have hm : leadingBit + k % leadingBit = k := by
        have := Nat.div_add_mod k leadingBit
        rw [hd] at this
        omega
      simp [hd, hm]
    · rw [Nat.mul_div_cancel _ hpos, Nat.mul_mod_left]
      simp [Nat.pow_succ]
      ring

/-- Every pattern is put together in this way. -/
theorem exists_place (m : Nat) :
    ∃ s k, m = s * leadingBit + k ∧ (s = 0 ∨ leadingBit ≤ k) ∧ k < 2 * leadingBit := by
  have hm := Nat.div_add_mod m leadingBit
  have hr : m % leadingBit < leadingBit := Nat.mod_lt _ (by decide)
  rcases Nat.eq_zero_or_pos (m / leadingBit) with h0 | hpos
  · exact ⟨0, m, by omega, Or.inl rfl, by rw [h0] at hm; omega⟩
  · obtain ⟨s, hs⟩ := Nat.exists_eq_add_of_lt hpos
    refine ⟨s, leadingBit + m % leadingBit, ?_, Or.inr (by omega), by omega⟩
    rw [hs, Nat.mul_comm, Nat.zero_add, Nat.succ_mul] at hm
    omega

theorem unitsOf_lt_succ (m : Nat) : unitsOf m < unitsOf (m + 1) := by
  obtain ⟨s, k, rfl, hs, hk⟩ := exists_place m
  rw [Nat.add_assoc, unitsOf_place hs hk.le, unitsOf_place (by omega) hk]
  exact Nat.mul_lt_mul_of_pos_right (Nat.lt_succ_self k) (Nat.two_pow_pos s)

theorem unitsOf_zero : unitsOf 0 = 0 := by decide

/-- The number of units at a place in the order of the doubles. Zero is at 0, and the
doubles below zero have places below it. -/
def unitsAt (r : Int) : Int := if r < 0 then -unitsOf r.natAbs else unitsOf r.natAbs

theorem unitsAt_natCast (m : Nat) : unitsAt m = unitsOf m := by simp [unitsAt]

theorem unitsAt_neg (r : Int) : unitsAt (-r) = -unitsAt r := by
  unfold unitsAt
  rcases Int.lt_trichotomy r 0 with h | rfl | h
  · simp [h, h.le]
  · simp [unitsOf_zero]
  · simp [h, not_lt_of_gt h]

theorem unitsAt_lt_succ (r : Int) : unitsAt r < unitsAt (r + 1) := by
  rcases lt_or_ge r 0 with h | h
  · obtain ⟨m, rfl⟩ : ∃ m : Nat, r = -((m + 1 : Nat) : Int) := ⟨(-r - 1).toNat, by omega⟩
    have hsucc : -((m + 1 : Nat) : Int) + 1 = -(m : Int) := by omega
    have := unitsOf_lt_succ m
    rw [hsucc, unitsAt_neg, unitsAt_neg, unitsAt_natCast, unitsAt_natCast]
    omega
  · obtain ⟨m, rfl⟩ := Int.eq_ofNat_of_zero_le h
    have := unitsOf_lt_succ m
    have hsucc : (m : Int) + 1 = ((m + 1 : Nat) : Int) := rfl
    rw [hsucc, unitsAt_natCast, unitsAt_natCast]
    omega

theorem unitsAt_lt {a b : Int} (h : a < b) : unitsAt a < unitsAt b :=
  strictMono_int_of_lt_succ unitsAt_lt_succ h

theorem unitsAt_le {a b : Int} (h : a ≤ b) : unitsAt a ≤ unitsAt b :=
  (strictMono_int_of_lt_succ unitsAt_lt_succ).monotone h

theorem unitsAt_inj {a b : Int} : unitsAt a = unitsAt b ↔ a = b :=
  (strictMono_int_of_lt_succ unitsAt_lt_succ).injective.eq_iff

/-! ## Places in the order -/

/-- The place of a double in the order. The two zeros share theirs. -/
def rank (d : Double) : Int := if d.isNegative then -d.magnitude.toNat else d.magnitude.toNat

/-- The number of units in a double. -/
def units (d : Double) : Int := unitsAt d.rank

/-- The number that a finite double stands for. -/
def value (d : Double) : ℚ := if d.isNegative then -(d.num / d.den) else d.num / d.den

theorem num_mul (d : Double) : d.num * perOne = unitsOf d.magnitude.toNat * d.den := by
  have hu : unitsOf d.magnitude.toNat = d.significand * powTwo (max d.exponentField 1 - 1) := by
    change (if d.exponentField = 0 then d.fraction
      else (leadingBit + d.fraction) * powTwo (d.exponentField - 1)) = _
    unfold significand
    split
    · simp [*, powTwo]
    · rw [max_eq_left (by omega)]
  have he : d.scale.toNat + unitPlaces = max d.exponentField 1 - 1 + (-d.scale).toNat := by
    rw [unitPlaces_eq]
    unfold scale
    omega
  rw [num, den, perOne, hu, Nat.mul_assoc, ← powTwo_add, he, powTwo_add, Nat.mul_assoc]

theorem value_eq (d : Double) : d.value = d.units / perOne := by
  have hd : (d.den : ℚ) ≠ 0 := by exact_mod_cast d.den_pos.ne'
  have hn : (d.num : ℚ) * perOne = unitsOf d.magnitude.toNat * d.den := by
    exact_mod_cast d.num_mul
  have hq : (d.num : ℚ) / d.den = unitsOf d.magnitude.toNat / perOne := by
    rw [div_eq_div_iff hd perOne_pos.ne', hn]
  unfold value units rank
  split
  · rw [hq, unitsAt_neg, unitsAt_natCast]
    push_cast
    ring
  · rw [hq, unitsAt_natCast]
    push_cast
    ring

theorem value_inj {d x : Double} : d.value = x.value ↔ d.rank = x.rank := by
  rw [value_eq, value_eq, div_left_inj' perOne_pos.ne', Int.cast_inj]
  exact unitsAt_inj

/-! ## Signs and patterns -/

theorem eq_of_magnitude {d x : Double} (hm : d.magnitude = x.magnitude)
    (hs : d.isNegative = x.isNegative) : d = x := by
  have hd := d.bits.toNat_lt
  have hx := x.bits.toNat_lt
  have hm := congrArg UInt64.toNat hm
  rw [toNat_magnitude, toNat_magnitude] at hm
  rw [Bool.eq_iff_iff, isNegative_iff, isNegative_iff] at hs
  apply eq_of_bits
  omega

theorem natAbs_rank (d : Double) : d.rank.natAbs = d.magnitude.toNat := by
  unfold rank
  split <;> simp

theorem isNegative_of_rank {d : Double} (h : d.rank ≠ 0) : d.isNegative = decide (d.rank < 0) := by
  unfold rank at h ⊢
  cases hs : d.isNegative
  · simp
  · simp only [hs, if_true] at h ⊢
    rw [eq_comm, decide_eq_true_iff]
    omega

/-- A double that is not zero is known from its place. -/
theorem eq_of_rank {d x : Double} (h : d.rank = x.rank) (h0 : d.rank ≠ 0) : d = x := by
  apply eq_of_magnitude
  · apply UInt64.toNat_inj.mp
    rw [← natAbs_rank, ← natAbs_rank, h]
  · rw [isNegative_of_rank h0, isNegative_of_rank (h ▸ h0), h]

theorem isFinite_iff_rank (d : Double) :
    d.isFinite = true ↔ d.rank.natAbs < infinityBits.toNat := by
  rw [natAbs_rank, isFinite, decide_eq_true_iff, UInt64.lt_iff_toNat_lt]

theorem bits_ofMagnitude (negative : Bool) {m : UInt64} (hm : m.toNat < 2 ^ 63) :
    (ofMagnitude negative m).bits.toNat = m.toNat + if negative then 2 ^ 63 else 0 := by
  cases negative
  · rfl
  · change (m ||| 0x8000000000000000).toNat = m.toNat + 2 ^ 63
    rw [UInt64.toNat_or, Nat.or_comm, Nat.add_comm]
    exact (Nat.two_pow_add_eq_or_of_lt hm 1).symm

theorem magnitude_ofMagnitude (negative : Bool) {m : UInt64} (hm : m.toNat < 2 ^ 63) :
    (ofMagnitude negative m).magnitude = m := by
  apply UInt64.toNat_inj.mp
  rw [toNat_magnitude, bits_ofMagnitude negative hm]
  split <;> omega

theorem isNegative_ofMagnitude (negative : Bool) {m : UInt64} (hm : m.toNat < 2 ^ 63) :
    (ofMagnitude negative m).isNegative = negative := by
  rw [Bool.eq_iff_iff, isNegative_iff, bits_ofMagnitude negative hm]
  cases negative
  · simp
    omega
  · simp

theorem rank_ofMagnitude (negative : Bool) {m : UInt64} (hm : m.toNat < 2 ^ 63) :
    (ofMagnitude negative m).rank = if negative then -(m.toNat : Int) else m.toNat := by
  rw [rank, magnitude_ofMagnitude negative hm, isNegative_ofMagnitude negative hm]

/-- There is a finite double at every place up to the infinities. -/
theorem exists_rank {r : Int} (hr : r.natAbs < infinityBits.toNat) :
    ∃ d : Double, d.isFinite = true ∧ d.rank = r := by
  have hlt : infinityBits.toNat < 2 ^ 63 := by decide
  have hn : (UInt64.ofNat r.natAbs).toNat = r.natAbs := UInt64.toNat_ofNat_of_lt' (by
    rw [UInt64.size]
    omega)
  have hrank : (ofMagnitude (decide (r < 0)) (UInt64.ofNat r.natAbs)).rank = r := by
    rw [rank_ofMagnitude _ (by omega), hn]
    simp only [decide_eq_true_eq]
    split <;> omega
  exact ⟨_, by rw [isFinite_iff_rank, hrank]; exact hr, hrank⟩

/-! ## Whole numbers -/

/-- The double is a whole number exactly, and it has the number's sign. So -0.0 holds no
number, for 0 has no sign. -/
structure Holds (d : Double) (n : Int) : Prop where
  finite : d.isFinite = true
  value : d.value = n
  sign : d.isNegative = decide (n < 0)

/-- A whole number has one double at most. -/
theorem Holds.double_unique {d x : Double} {n : Int} (hd : d.Holds n) (hx : x.Holds n) :
    d = x := by
  have hr : d.rank = x.rank := value_inj.mp (hd.value.trans hx.value.symm)
  apply eq_of_magnitude
  · apply UInt64.toNat_inj.mp
    rw [← natAbs_rank, ← natAbs_rank, hr]
  · rw [hd.sign, hx.sign]

/-- A double holds one whole number at most. -/
theorem Holds.unique {d : Double} {n k : Int} (hn : d.Holds n) (hk : d.Holds k) : n = k := by
  have := hn.value.symm.trans hk.value
  exact_mod_cast this

end ScriptHost.Double
