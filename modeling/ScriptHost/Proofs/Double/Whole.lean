-- Doubles and whole numbers. A 32-bit integer is found in its own double and in no other,
-- and what is rounded from outside the range of 32 bits does not come to lie in it.
import ScriptHost.Proofs.Double.Nearest

namespace ScriptHost

namespace Double

/-! ## The double of a whole number -/

theorem isNegative_ofInt (n : Int) : (ofInt n).isNegative = decide (n < 0) :=
  isNegative_ofMagnitude _ (nearestMagnitude_lt_sign _ _)

theorem isFinite_ofInt {n : Int} (hn : n.natAbs < 2 ^ 64) : (ofInt n).isFinite = true := by
  refine (isFinite_ofRatio_iff _ _ _).mpr (nearestMagnitude_lt Nat.one_pos ?_)
  have hlt : (n.natAbs : ℚ) < 2 ^ (64 : Int) := by exact_mod_cast hn
  rw [Nat.cast_one, div_one]
  exact hlt.trans (zpow_lt_zpow_right₀ (by norm_num) (by norm_num))

/-- A whole number is rounded to the double nearest to it. -/
theorem isNearest_ofInt {n : Int} (hn : n.natAbs < 2 ^ 64) : IsNearest n (ofInt n) := by
  have h := isNearest_ofRatio (decide (n < 0)) n.natAbs Nat.one_pos (isFinite_ofInt hn)
  have hq : (if decide (n < 0) = true then -((n.natAbs : ℚ) / (1 : Nat))
      else (n.natAbs : ℚ) / (1 : Nat)) = n := by
    simp only [Nat.cast_one, div_one, decide_eq_true_eq, Nat.cast_natAbs]
    split
    · rename_i hneg
      rw [abs_of_neg hneg]
      push_cast
      ring
    · rename_i hpos
      rw [abs_of_nonneg (not_lt.mp hpos)]
  rw [hq] at h
  exact h

/-- A whole number of at most 53 binary digits is the number of some double. -/
theorem exists_value_natCast {k : Nat} (hpos : 0 < k) (hk : k ≤ 2 ^ 53) :
    ∃ d : Double, d.isFinite = true ∧ d.value = k := by
  have hlow := Nat.log2_self_le hpos.ne'
  have hhigh := Nat.lt_log2_self (n := k)
  -- The digits are moved up until there are 53 of them.
  obtain ⟨e, he⟩ : ∃ e, e = 52 - k.log2 := ⟨_, rfl⟩
  have hleast : leadingBit ≤ k * 2 ^ e := by
    calc leadingBit = 2 ^ 52 := rfl
      _ ≤ 2 ^ (k.log2 + e) := Nat.pow_le_pow_right (by decide) (by omega)
      _ = 2 ^ k.log2 * 2 ^ e := Nat.pow_add ..
      _ ≤ k * 2 ^ e := Nat.mul_le_mul_right _ hlow
  have hmost : k * 2 ^ e ≤ 2 * leadingBit := by
    rcases Nat.lt_or_ge k.log2 53 with hl | hl
    · calc k * 2 ^ e ≤ 2 ^ (k.log2 + 1) * 2 ^ e := Nat.mul_le_mul_right _ hhigh.le
        _ = 2 ^ (k.log2 + 1 + e) := (Nat.pow_add ..).symm
        _ = 2 ^ 53 := by rw [show k.log2 + 1 + e = 53 by omega]
        _ = 2 * leadingBit := rfl
    · rw [he, Nat.sub_eq_zero_of_le (by omega), Nat.pow_zero, Nat.mul_one]
      exact hk
  have hplaces := unitPlaces_eq
  obtain ⟨d, hf, hr⟩ := exists_rank (r := ((unitPlaces - e) * leadingBit + k * 2 ^ e : Nat)) (by
    have hinf : infinityBits.toNat = 2047 * leadingBit := by decide
    rw [Int.natAbs_natCast, hinf]
    unfold leadingBit at *
    omega)
  refine ⟨d, hf, ?_⟩
  have hu : d.units = k * perOne := by
    rw [units, hr, unitsAt_natCast, unitsOf_place (Or.inr hleast) hmost]
    change ((k * powTwo e * powTwo (unitPlaces - e) : Nat) : Int) = k * (powTwo unitPlaces : Nat)
    rw [Nat.mul_assoc, ← powTwo_add, Nat.add_sub_cancel' (by omega)]
    push_cast
    rfl
  rw [value_eq, hu, Int.cast_mul, Int.cast_natCast, Int.cast_natCast,
    mul_div_cancel_right₀ _ perOne_pos.ne']

theorem exists_value {n : Int} (hn : n.natAbs ≤ 2 ^ 53) :
    ∃ d : Double, d.isFinite = true ∧ d.value = n := by
  rcases Int.lt_trichotomy n 0 with h | rfl | h
  · obtain ⟨d, hf, hv⟩ := exists_value_natCast (k := n.natAbs) (by omega) hn
    obtain ⟨x, hxf, hx⟩ := exists_rank (r := -d.rank) (by
      rw [Int.natAbs_neg]
      exact (isFinite_iff_rank d).mp hf)
    refine ⟨x, hxf, ?_⟩
    have hxv : x.value = -d.value := by
      rw [value_eq, value_eq, units, units, hx, unitsAt_neg]
      push_cast
      ring
    rw [hxv, hv, Nat.cast_natAbs, abs_of_neg h]
    push_cast
    ring
  · have hu : zero.units = 0 := by decide
    exact ⟨zero, by decide, by rw [value_eq, hu, Int.cast_zero, zero_div]⟩
  · obtain ⟨d, hf, hv⟩ := exists_value_natCast (k := n.natAbs) (by omega) hn
    exact ⟨d, hf, by rw [hv, Nat.cast_natAbs, abs_of_pos h]⟩

/-- Whole numbers of at most 53 binary digits are not rounded. -/
theorem holds_ofInt {n : Int} (hn : n.natAbs ≤ 2 ^ 53) : (ofInt n).Holds n := by
  have hlt : n.natAbs < 2 ^ 64 := by omega
  obtain ⟨x, hxf, hx⟩ := exists_value hn
  exact ⟨isFinite_ofInt hlt, (isNearest_ofInt hlt).exact hxf hx, isNegative_ofInt n⟩

/-! ## 32-bit integers -/

theorem Holds.num_eq {d : Double} {n : Int} (h : d.Holds n) : d.num = n.natAbs * d.den := by
  have hd : (d.den : ℚ) ≠ 0 := by exact_mod_cast d.den_pos.ne'
  have hq : (d.num / d.den : ℚ) = n.natAbs := by
    have hv := h.value
    simp only [Double.value, h.sign, decide_eq_true_eq] at hv
    rw [Nat.cast_natAbs]
    split at hv
    · rename_i hneg
      rw [abs_of_neg hneg]
      push_cast
      linarith
    · rename_i hpos
      rw [abs_of_nonneg (not_lt.mp hpos)]
      exact hv
  rw [div_eq_iff hd] at hq
  exact_mod_cast hq

theorem Holds.nearestInt {d : Double} {n : Int} (h : d.Holds n) : d.nearestInt = n := by
  have hm : (2 * d.num + d.den) / (2 * d.den) = n.natAbs := by
    rw [h.num_eq, show 2 * (n.natAbs * d.den) + d.den = (2 * n.natAbs + 1) * d.den by ring,
      Nat.mul_div_mul_right _ _ d.den_pos]
    omega
  simp only [Double.nearestInt, h.sign, decide_eq_true_eq, hm]
  split <;> omega

theorem Holds.nearestInt32 {d : Double} {n : Int32} (h : d.Holds n.toInt) :
    d.nearestInt32 = n := by
  have hlow := n.le_toInt
  have hhigh := n.toInt_lt
  rw [Double.nearestInt32, isNaN_of_isFinite h.finite, h.nearestInt, Int32.toInt_minValue,
    Int32.toInt_maxValue]
  rw [min_eq_right (by omega), max_eq_right (by omega)]
  exact Int32.ofInt_toInt n

/-- A double is selected as the 32-bit integer of which it is the double, bit for bit. -/
theorem asInt32?_eq_some_iff (d : Double) (n : Int32) :
    d.asInt32? = some n ↔ d.Holds n.toInt := by
  have hn : n.toInt.natAbs ≤ 2 ^ 53 := by
    have := n.le_toInt
    have := n.toInt_lt
    omega
  unfold asInt32?
  constructor
  · intro h
    simp only [Option.ite_none_right_eq_some, Option.some.injEq] at h
    obtain ⟨hd, rfl⟩ := h
    have h := holds_ofInt hn
    rw [hd] at h
    exact h
  · intro h
    simp only [h.nearestInt32, (holds_ofInt hn).double_unique h, if_pos]

theorem asInt32?_eq_none_iff (d : Double) :
    d.asInt32? = none ↔ ∀ n : Int32, ¬ d.Holds n.toInt := by
  simp only [Option.eq_none_iff_forall_ne_some, ne_eq, asInt32?_eq_some_iff]

/-! ## Out of the range -/

/-- Rounding does not cross a number that is a double. -/
theorem IsNearest.le_value {q : ℚ} {d : Double} {n : Int} (h : IsNearest q d)
    (hn : n.natAbs ≤ 2 ^ 53) (hq : (n : ℚ) ≤ q) : (n : ℚ) ≤ d.value := by
  obtain ⟨x, hxf, hx⟩ := exists_value hn
  have hle := h.least x hxf
  by_contra hlt
  rw [hx, abs_of_nonneg (by linarith), abs_of_nonneg (by linarith)] at hle
  linarith

theorem IsNearest.value_le {q : ℚ} {d : Double} {n : Int} (h : IsNearest q d)
    (hn : n.natAbs ≤ 2 ^ 53) (hq : q ≤ n) : d.value ≤ n := by
  obtain ⟨x, hxf, hx⟩ := exists_value hn
  have hle := h.least x hxf
  by_contra hlt
  rw [hx, abs_of_nonpos (by linarith), abs_of_nonpos (by linarith)] at hle
  linarith

/-- What is rounded from outside the range of 32 bits stays outside of it. -/
theorem IsNearest.outside {d : Double} {n : Int} (h : IsNearest n d)
    (hn : n < -2 ^ 31 ∨ 2 ^ 31 ≤ n) : d.value ≤ (-2 ^ 31 - 1 : Int) ∨ (2 ^ 31 : Int) ≤ d.value :=
  hn.imp (fun hn => h.value_le (by decide) (by exact_mod_cast Int.le_sub_one_of_lt hn))
    fun hn => h.le_value (by decide) (by exact_mod_cast hn)

theorem IsNearest.not_holds {d : Double} {n : Int} (h : IsNearest n d)
    (hn : n < -2 ^ 31 ∨ 2 ^ 31 ≤ n) (k : Int32) : ¬ d.Holds k.toInt := by
  intro hk
  have hlow := k.le_toInt
  have hhigh := k.toInt_lt
  have hout := h.outside hn
  rw [hk.value, Int.cast_le, Int.cast_le] at hout
  omega

theorem IsNearest.value_ne_zero {d : Double} {n : Int} (h : IsNearest n d)
    (hn : n < -2 ^ 31 ∨ 2 ^ 31 ≤ n) : d.value ≠ 0 := by
  intro h0
  have hout := h.outside hn
  rw [h0, ← Int.cast_zero, Int.cast_le, Int.cast_le] at hout
  omega

end Double

/-! ## Narrow integers -/

theorem narrow?_eq_some_iff (n : Int64) (i : Int32) : narrow? n = some i ↔ i.toInt = n.toInt := by
  unfold narrow?
  simp only [Option.ite_none_right_eq_some, Option.some.injEq, ← Int64.toInt_inj,
    Int32.toInt_toInt64]
  constructor
  · rintro ⟨h, rfl⟩
    exact h
  · intro h
    have hi : n.toInt32 = i := by
      have hlow := i.le_toInt
      have hhigh := i.toInt_lt
      apply Int32.toInt_inj.mp
      rw [Int64.toInt_toInt32, ← h]
      exact Int.bmod_eq_of_le (by omega) (by omega)
    exact ⟨by rw [hi, h], hi⟩

theorem narrow?_eq_none_iff (n : Int64) :
    narrow? n = none ↔ n.toInt < -2 ^ 31 ∨ 2 ^ 31 ≤ n.toInt := by
  simp only [Option.eq_none_iff_forall_ne_some, ne_eq, narrow?_eq_some_iff]
  constructor
  · intro h
    by_contra hn
    refine h (Int32.ofInt n.toInt) ?_
    exact Int32.toInt_ofInt_of_le (by omega) (by omega)
  · intro h i hi
    have hlow := i.le_toInt
    have hhigh := i.toInt_lt
    omega

end ScriptHost
