-- Rounding. What is made of a fraction is the double nearest to it, and of two doubles at
-- the same distance the one with the even fraction.
import Mathlib.Algebra.Order.Field.Power
import Mathlib.Tactic.Positivity
import ScriptHost.Proofs.Double.Value

namespace ScriptHost

/-! ## Rounding to whole numbers -/

/-- The nearest whole number is at most a half away, and it is even where it is a half away. -/
theorem roundHalfEven_spec (num : Nat) {den : Nat} (hd : 0 < den) :
    2 * (roundHalfEven num den : ℚ) - 1 ≤ 2 * (num / den) ∧
      2 * (num / den : ℚ) ≤ 2 * roundHalfEven num den + 1 ∧
      (2 * (num / den : ℚ) = 2 * roundHalfEven num den - 1 ∨
        2 * (num / den : ℚ) = 2 * roundHalfEven num den + 1 → roundHalfEven num den % 2 = 0) := by
  have hden : (0 : ℚ) < den := by exact_mod_cast hd
  obtain ⟨f, hf⟩ : ∃ f : ℚ, f = ((num % den : Nat) : ℚ) / den := ⟨_, rfl⟩
  have hnum : (num / den : ℚ) = (num / den : Nat) + f := by
    rw [hf, add_div' _ _ _ hden.ne', div_left_inj' hden.ne', mul_comm]
    exact_mod_cast (Nat.div_add_mod num den).symm
  have h0 : 0 ≤ f := hf ▸ div_nonneg (Nat.cast_nonneg _) hden.le
  have h1 : f < 1 := by
    rw [hf, div_lt_one hden]
    exact_mod_cast Nat.mod_lt num hd
  have hlt : 2 * (num % den) < den ↔ 2 * f < 1 := by
    rw [hf, ← mul_div_assoc, div_lt_one hden]
    norm_cast
  have heq : 2 * (num % den) = den ↔ 2 * f = 1 := by
    rw [hf, ← mul_div_assoc, div_eq_one_iff_eq hden.ne']
    norm_cast
  rw [hnum]
  unfold roundHalfEven
  simp only [hlt, heq]
  split
  · rename_i h
    refine ⟨by linarith, ?_, ?_⟩
    · rcases h with h | h
      · linarith
      · linarith [h.1]
    · rintro (ht | ht)
      · linarith
      · rcases h with h | h
        · linarith
        · exact h.2
  · rename_i h
    push_cast
    have hge : 1 ≤ 2 * f := by
      by_contra hl
      exact h (Or.inl (by linarith))
    refine ⟨by linarith, by linarith, ?_⟩
    rintro (ht | ht)
    · have hodd : ¬ num / den % 2 = 0 := fun he => h (Or.inr ⟨by linarith, he⟩)
      omega
    · linarith

/-! ## The leading digit -/

theorem zpow_eq_powTwo (e : Int) : (2 : ℚ) ^ e = powTwo e.toNat / powTwo (-e).toNat := by
  rcases le_total 0 e with h | h
  · obtain ⟨n, rfl⟩ := Int.eq_ofNat_of_zero_le h
    simp [powTwo]
  · obtain ⟨n, hn⟩ := Int.eq_ofNat_of_zero_le (neg_nonneg.mpr h)
    obtain rfl : e = -(n : Int) := by omega
    simp [powTwo]

/-- A fraction is compared with a power of two without negative powers. -/
theorem lt_zpow_iff {num den : Nat} (hd : 0 < den) (e : Int) :
    num * powTwo (-e).toNat < den * powTwo e.toNat ↔ (num / den : ℚ) < 2 ^ e := by
  have hden : (0 : ℚ) < den := by exact_mod_cast hd
  have hp : (0 : ℚ) < powTwo (-e).toNat := by exact_mod_cast powTwo_pos _
  rw [zpow_eq_powTwo, div_lt_div_iff₀ hden hp, mul_comm (powTwo e.toNat : ℚ)]
  norm_cast

theorem leadingExponent_spec {num den : Nat} (hn : 0 < num) (hd : 0 < den) :
    (2 : ℚ) ^ leadingExponent num den ≤ num / den ∧
      (num / den : ℚ) < 2 ^ (leadingExponent num den + 1) := by
  have hden : (0 : ℚ) < den := by exact_mod_cast hd
  have hnlow : (2 : ℚ) ^ num.log2 ≤ num := by exact_mod_cast Nat.log2_self_le hn.ne'
  have hnhigh : (num : ℚ) < 2 ^ (num.log2 + 1) := by exact_mod_cast Nat.lt_log2_self
  have hdlow : (2 : ℚ) ^ den.log2 ≤ den := by exact_mod_cast Nat.log2_self_le hd.ne'
  have hdhigh : (den : ℚ) < 2 ^ (den.log2 + 1) := by exact_mod_cast Nat.lt_log2_self
  unfold leadingExponent
  simp only [lt_zpow_iff hd]
  split
  · rename_i h
    refine ⟨?_, by simpa using h⟩
    rw [le_div_iff₀ hden]
    calc (2 : ℚ) ^ ((num.log2 : Int) - den.log2 - 1) * den
        ≤ 2 ^ ((num.log2 : Int) - den.log2 - 1) * 2 ^ (den.log2 + 1) := by gcongr
      _ = 2 ^ num.log2 := by
        rw [← zpow_natCast, ← zpow_natCast, ← zpow_add₀ (by norm_num)]
        push_cast
        ring_nf
      _ ≤ num := hnlow
  · rename_i h
    refine ⟨not_lt.mp h, ?_⟩
    rw [div_lt_iff₀ hden]
    calc (num : ℚ) < 2 ^ (num.log2 + 1) := hnhigh
      _ = 2 ^ ((num.log2 : Int) - den.log2 + 1) * 2 ^ den.log2 := by
        rw [← zpow_natCast, ← zpow_natCast, ← zpow_add₀ (by norm_num)]
        push_cast
        ring_nf
      _ ≤ 2 ^ ((num.log2 : Int) - den.log2 + 1) * den := by gcongr

namespace Double

/-! ## Between the middles -/

/-- A number lies between the middles to the two neighbours of a place, and it is a middle
only if the place is even. -/
structure Middles (q : ℚ) (r : Int) : Prop where
  low : (unitsAt (r - 1) + unitsAt r : ℚ) ≤ 2 * (q * perOne)
  high : 2 * (q * perOne) ≤ (unitsAt r + unitsAt (r + 1) : ℚ)
  even : 2 * (q * perOne) = (unitsAt (r - 1) + unitsAt r : ℚ) ∨
    2 * (q * perOne) = (unitsAt r + unitsAt (r + 1) : ℚ) → r % 2 = 0

theorem Middles.neg {q : ℚ} {r : Int} (h : Middles q r) : Middles (-q) (-r) := by
  have hprev : unitsAt (-r - 1) = -unitsAt (r + 1) := by rw [← unitsAt_neg]; ring_nf
  have hnext : unitsAt (-r + 1) = -unitsAt (r - 1) := by rw [← unitsAt_neg]; ring_nf
  have hhere := unitsAt_neg r
  constructor
  · rw [hprev, hhere]
    push_cast
    linarith [h.high]
  · rw [hnext, hhere]
    push_cast
    linarith [h.low]
  · rw [hprev, hnext, hhere]
    push_cast
    rintro (ht | ht)
    · have := h.even (Or.inr (by linarith))
      omega
    · have := h.even (Or.inl (by linarith))
      omega

theorem middles_zero : Middles 0 0 := by
  have h1 : unitsAt 1 = 1 := by decide
  have h0 : unitsAt 0 = 0 := by decide
  have hneg : unitsAt (-1) = -1 := by decide
  constructor <;> simp [h0, h1, hneg]

/-! ## Units of the last place -/

/-- A number above zero is rounded to `m` units of its last place, each of which is `2 ^ s`
of the smallest units. -/
structure RoundsTo (q : ℚ) (s m : Nat) : Prop where
  least : 2 * (m : ℚ) - 1 ≤ 2 * (q * perOne / 2 ^ s)
  most : 2 * (q * perOne / 2 ^ s) ≤ 2 * (m : ℚ) + 1
  even : 2 * (q * perOne / 2 ^ s) = 2 * m - 1 ∨ 2 * (q * perOne / 2 ^ s) = 2 * m + 1 →
    m % 2 = 0
  normal : s = 0 ∨ (leadingBit : ℚ) ≤ q * perOne / 2 ^ s
  short : q * perOne / 2 ^ s < 2 * leadingBit

namespace RoundsTo

variable {q : ℚ} {s m : Nat} (h : RoundsTo q s m)
include h

theorem le_twice : m ≤ 2 * leadingBit := by
  have hl := h.least
  have hs := h.short
  have : 2 * (m : ℚ) < 4 * leadingBit + 1 := by linarith
  norm_cast at this
  omega

theorem leadingBit_le : s = 0 ∨ leadingBit ≤ m := by
  refine h.normal.imp_right fun hn => ?_
  have hm := h.most
  have : 2 * (leadingBit : ℚ) ≤ 2 * m + 1 := by linarith
  norm_cast at this
  omega

theorem unitsAt_eq : (unitsAt (s * leadingBit + m : Nat) : ℚ) = m * 2 ^ s := by
  rw [unitsAt_natCast, unitsOf_place h.leadingBit_le h.le_twice]
  push_cast
  rfl

/-- Where the number lies below, the place before is one unit of the last place away. -/
theorem unitsAt_prev (hpos : 0 < q) (hlt : q * perOne / 2 ^ s < m) :
    (unitsAt ((s * leadingBit + m : Nat) - 1) : ℚ) = (m - 1) * 2 ^ s := by
  have h0 : (0 : ℚ) < q * perOne / 2 ^ s := div_pos (mul_pos hpos perOne_pos) (by positivity)
  have hm : 0 < m := by exact_mod_cast h0.trans hlt
  have hs : s = 0 ∨ leadingBit ≤ m - 1 := by
    refine h.normal.imp_right fun hn => ?_
    have : (leadingBit : ℚ) < m := hn.trans_lt hlt
    norm_cast at this
    omega
  have hle := h.le_twice
  rw [show ((s * leadingBit + m : Nat) : Int) - 1 = (s * leadingBit + (m - 1) : Nat) by omega,
    unitsAt_natCast, unitsOf_place hs (by omega)]
  push_cast [Nat.cast_sub hm]
  rfl

/-- Where the number lies above, the place after is one unit of the last place away. -/
theorem unitsAt_next (hlt : m < q * perOne / 2 ^ s) :
    (unitsAt ((s * leadingBit + m : Nat) + 1) : ℚ) = (m + 1) * 2 ^ s := by
  have hm : m < 2 * leadingBit := by
    have : (m : ℚ) < 2 * leadingBit := hlt.trans h.short
    exact_mod_cast this
  have hs := h.leadingBit_le
  rw [show ((s * leadingBit + m : Nat) : Int) + 1 = (s * leadingBit + (m + 1) : Nat) by omega,
    unitsAt_natCast, unitsOf_place (by omega) (by omega)]
  push_cast
  rfl

/-- The exponent and the significand add up to the place that rounding arrives at. A
neighbour of it counts only where the number lies on its side. -/
theorem middles (hpos : 0 < q) : Middles q (s * leadingBit + m : Nat) := by
  have hp : (0 : ℚ) < 2 ^ s := by positivity
  obtain ⟨y, hy⟩ : ∃ y, y = q * perOne / 2 ^ s := ⟨_, rfl⟩
  have hq : q * perOne = y * 2 ^ s := by rw [hy, div_mul_cancel₀ _ hp.ne']
  have hhere := h.unitsAt_eq
  have hprev : (unitsAt ((s * leadingBit + m : Nat) - 1) : ℚ) < m * 2 ^ s := by
    rw [← hhere]
    exact Int.cast_lt.mpr (unitsAt_lt (sub_one_lt _))
  have hnext : (m * 2 ^ s : ℚ) < unitsAt ((s * leadingBit + m : Nat) + 1) := by
    rw [← hhere]
    exact Int.cast_lt.mpr (unitsAt_lt (lt_add_one _))
  have hparity : ((s * leadingBit + m : Nat) : Int) % 2 = 0 ↔ m % 2 = 0 := by
    unfold leadingBit
    omega
  have hlow := h.least
  have hhigh := h.most
  have heven := h.even
  rw [← hy] at hlow hhigh heven
  rcases lt_trichotomy y m with hlt | heq | hgt
  · have hprev := h.unitsAt_prev hpos (hy ▸ hlt)
    have hlt : y * 2 ^ s < m * 2 ^ s := mul_lt_mul_of_pos_right hlt hp
    have hle : (2 * m - 1) * 2 ^ s ≤ 2 * y * 2 ^ s := mul_le_mul_of_nonneg_right hlow hp.le
    refine ⟨?_, ?_, ?_⟩
    · rw [hq, hhere, hprev]
      linarith
    · rw [hq, hhere]
      linarith
    · rw [hq, hhere, hprev, hparity]
      rintro (ht | ht)
      · exact heven (Or.inl (mul_right_cancel₀ hp.ne' (by linarith)))
      · linarith
  · refine ⟨?_, ?_, ?_⟩
    · rw [hq, hhere, heq]
      linarith
    · rw [hq, hhere, heq]
      linarith
    · rw [hq, hhere, heq]
      rintro (ht | ht) <;> linarith
  · have hnext := h.unitsAt_next (hy ▸ hgt)
    have hgt : m * 2 ^ s < y * 2 ^ s := mul_lt_mul_of_pos_right hgt hp
    have hle : 2 * y * 2 ^ s ≤ (2 * m + 1) * 2 ^ s := mul_le_mul_of_nonneg_right hhigh hp.le
    refine ⟨?_, ?_, ?_⟩
    · rw [hq, hhere]
      linarith
    · rw [hq, hhere, hnext]
      linarith
    · rw [hq, hhere, hnext, hparity]
      rintro (ht | ht)
      · linarith
      · exact heven (Or.inr (mul_right_cancel₀ hp.ne' (by linarith)))

end RoundsTo

theorem perOne_eq : (perOne : ℚ) = 2 ^ (unitPlaces : Int) := by
  rw [zpow_natCast, perOne, powTwo]
  exact Nat.cast_pow 2 unitPlaces

theorem leadingBit_eq : (leadingBit : ℚ) = 2 ^ (52 : Int) := by
  norm_num [leadingBit]

/-- The unit of the last place is chosen so that 53 binary digits are left, or fewer where it
is the smallest one. -/
theorem unitExponent_spec {num den : Nat} (hn : 0 < num) (hd : 0 < den) :
    -1074 ≤ unitExponent num den ∧
      (unitExponent num den = -1074 ∨ (leadingBit : ℚ) ≤ num / den / 2 ^ unitExponent num den) ∧
      (num / den / 2 ^ unitExponent num den : ℚ) < 2 * leadingBit := by
  obtain ⟨hlow, hhigh⟩ := leadingExponent_spec hn hd
  have hpow : (0 : ℚ) < 2 ^ unitExponent num den := by positivity
  have hdigits : (2 * leadingBit : ℚ) = 2 ^ (53 : Int) := by norm_num [leadingBit]
  have hnormal : unitExponent num den = -1074 ∨
      52 + unitExponent num den = leadingExponent num den := by
    unfold unitExponent
    omega
  have hshort : leadingExponent num den + 1 ≤ 53 + unitExponent num den := by
    unfold unitExponent
    omega
  refine ⟨le_max_right _ _, hnormal.imp_right fun h => ?_, ?_⟩
  · rw [leadingBit_eq, le_div_iff₀ hpow, ← zpow_add₀ (by norm_num), h]
    exact hlow
  · rw [hdigits, div_lt_iff₀ hpow, ← zpow_add₀ (by norm_num)]
    exact hhigh.trans_le (zpow_le_zpow_right₀ (by norm_num) hshort)

/-- A unit of the last place is `2 ^ s` of the smallest units. -/
theorem units_div {e : Int} {s : Nat} (hs : e + 1074 = s) (q : ℚ) :
    q * perOne / 2 ^ s = q / 2 ^ e := by
  have hplaces : (2 : ℚ) ^ s = 2 ^ e * 2 ^ (unitPlaces : Int) := by
    rw [← zpow_add₀ (by norm_num), unitPlaces_eq, Nat.cast_ofNat, hs, zpow_natCast]
  rw [hplaces, ← perOne_eq, mul_div_mul_right _ _ perOne_pos.ne']

/-- A pattern is made of a fraction by rounding it, and infinity takes the place of too
large ones. -/
theorem nearestMagnitude_eq {num den : Nat} (hn : 0 < num) (hd : 0 < den) :
    ∃ s m, RoundsTo (num / den) s m ∧
      (nearestMagnitude num den).toNat = min (s * leadingBit + m) infinityBits.toNat := by
  obtain ⟨hleast, hnormal, hshort⟩ := unitExponent_spec hn hd
  unfold nearestMagnitude
  simp only [if_neg hn.ne']
  generalize unitExponent num den = e at *
  obtain ⟨s, hs⟩ := Int.eq_ofNat_of_zero_le (show 0 ≤ e + 1074 by omega)
  have hround := roundHalfEven_spec (num * powTwo (-e).toNat)
    (Nat.mul_pos hd (powTwo_pos e.toNat))
  have hscaled : ((num * powTwo (-e).toNat : Nat) / (den * powTwo e.toNat : Nat) : ℚ) =
      num / den * perOne / 2 ^ s := by
    rw [units_div hs, zpow_eq_powTwo]
    push_cast
    field_simp
  rw [hscaled] at hround
  rw [← units_div hs] at hnormal hshort
  refine ⟨s, _, ⟨hround.1, hround.2.1, hround.2.2, ?_, hshort⟩, ?_⟩
  · exact hnormal.imp_left fun h => by omega
  · rw [hs, Int.toNat_natCast]
    refine UInt64.toNat_ofNat_of_lt' ?_
    have : infinityBits.toNat < UInt64.size := by decide
    omega

/-- The number lies between the middles around the pattern that is made of it, unless that
is infinity. -/
theorem middles_nearestMagnitude (num : Nat) {den : Nat} (hd : 0 < den)
    (hf : (nearestMagnitude num den).toNat < infinityBits.toNat) :
    Middles (num / den) (nearestMagnitude num den).toNat := by
  rcases Nat.eq_zero_or_pos num with rfl | hn
  · simpa [nearestMagnitude] using middles_zero
  · obtain ⟨s, m, h, heq⟩ := nearestMagnitude_eq hn hd
    rw [heq] at hf ⊢
    rw [Nat.min_eq_left (by omega)]
    exact h.middles (by positivity)

/-- Numbers below `2 ^ 1023` are not rounded to infinity. -/
theorem nearestMagnitude_lt {num den : Nat} (hd : 0 < den)
    (hlt : (num / den : ℚ) < 2 ^ (1023 : Int)) :
    (nearestMagnitude num den).toNat < infinityBits.toNat := by
  rcases Nat.eq_zero_or_pos num with rfl | hn
  · simp [nearestMagnitude, infinityBits]
  · obtain ⟨s, m, h, heq⟩ := nearestMagnitude_eq hn hd
    have hs : s ≤ 2044 := by
      rcases h.normal with h0 | hge
      · omega
      · have hp : (0 : ℚ) < 2 ^ s := by positivity
        rw [le_div_iff₀ hp, leadingBit_eq, perOne_eq, ← zpow_natCast,
          ← zpow_add₀ (by norm_num)] at hge
        have hmax := hge.trans_lt (mul_lt_mul_of_pos_right hlt (by positivity))
        rw [← zpow_add₀ (by norm_num), zpow_lt_zpow_iff_right₀ (by norm_num), unitPlaces_eq] at hmax
        omega
    have hm := h.le_twice
    have hinf : infinityBits.toNat = 2047 * leadingBit := by decide
    rw [heq, hinf]
    unfold leadingBit at *
    omega

/-! ## The nearest double -/

/-- No finite double is nearer to the number. If another one is as near, then this one has
the even fraction. -/
structure IsNearest (q : ℚ) (d : Double) : Prop where
  finite : d.isFinite = true
  least : ∀ x : Double, x.isFinite = true → |q - d.value| ≤ |q - x.value|
  even : ∀ x : Double, x.isFinite = true → x.value ≠ d.value → |q - x.value| = |q - d.value| →
    d.fraction % 2 = 0

theorem abs_sub_value (q : ℚ) (d : Double) :
    |q - d.value| * perOne = |q * perOne - d.units| := by
  rw [← abs_of_pos perOne_pos, ← abs_mul, abs_of_pos perOne_pos, sub_mul, value_eq,
    div_mul_cancel₀ _ perOne_pos.ne']

theorem fraction_even_iff (d : Double) : d.fraction % 2 = 0 ↔ d.rank % 2 = 0 := by
  have h := d.natAbs_rank
  unfold fraction leadingBit
  omega

/-- What is on one side is no nearer than the neighbour on that side, and the neighbour is as
near only if the number is a middle. -/
theorem Middles.dist_le {q : ℚ} {r : Int} (h : Middles q r) (b : Int) :
    |q * perOne - unitsAt r| ≤ |q * perOne - unitsAt b| ∧
      (b ≠ r → |q * perOne - unitsAt b| = |q * perOne - unitsAt r| → r % 2 = 0) := by
  have hlow := h.low
  have hhigh := h.high
  rcases lt_trichotomy b r with hb | rfl | hb
  · have hle : (unitsAt b : ℚ) ≤ unitsAt (r - 1) := Int.cast_le.mpr (unitsAt_le (by omega))
    have hlt : (unitsAt (r - 1) : ℚ) < unitsAt r := Int.cast_lt.mpr (unitsAt_lt (by omega))
    refine ⟨(abs_le.mpr ⟨by linarith, by linarith⟩).trans (le_abs_self _), fun _ he => ?_⟩
    rcases abs_eq_abs.mp he with he | he
    · linarith
    · exact h.even (Or.inl (by linarith))
  · exact ⟨le_rfl, fun hne => absurd rfl hne⟩
  · have hle : (unitsAt (r + 1) : ℚ) ≤ unitsAt b := Int.cast_le.mpr (unitsAt_le (by omega))
    have hlt : (unitsAt r : ℚ) < unitsAt (r + 1) := Int.cast_lt.mpr (unitsAt_lt (by omega))
    refine ⟨(abs_le.mpr ⟨by linarith, by linarith⟩).trans (neg_le_abs _), fun _ he => ?_⟩
    rcases abs_eq_abs.mp he with he | he
    · linarith
    · exact h.even (Or.inr (by linarith))

theorem Middles.isNearest {q : ℚ} {d : Double} (hf : d.isFinite = true)
    (h : Middles q d.rank) : IsNearest q d := by
  constructor
  · exact hf
  · intro x _
    rw [← mul_le_mul_iff_left₀ perOne_pos, abs_sub_value, abs_sub_value]
    exact (h.dist_le x.rank).1
  · intro x _ hne heq
    have heq := congrArg (· * (perOne : ℚ)) heq
    simp only [abs_sub_value] at heq
    rw [fraction_even_iff]
    exact (h.dist_le x.rank).2 (mt value_inj.mpr hne) heq

/-- The number of a double is not rounded. -/
theorem IsNearest.exact {q : ℚ} {d x : Double} (h : IsNearest q d) (hx : x.isFinite = true)
    (hv : x.value = q) : d.value = q := by
  have hle := h.least x hx
  rw [hv, sub_self, abs_zero, abs_nonpos_iff, sub_eq_zero] at hle
  exact hle.symm

/-- A number has one nearest double, up to the sign of zero. -/
theorem IsNearest.value_unique {q : ℚ} {d x : Double} (hd : IsNearest q d) (hx : IsNearest q x) :
    d.value = x.value := by
  have hdist : |q - x.value| = |q - d.value| :=
    le_antisymm (hx.least d hd.finite) (hd.least x hx.finite)
  by_contra hne
  have hde := hd.even x hx.finite (Ne.symm hne) hdist
  have hxe := hx.even d hd.finite hne hdist.symm
  rw [fraction_even_iff] at hde hxe
  -- Both places are even, so there is a double between them, and it is nearer.
  wlog hlt : d.rank < x.rank generalizing d x
  · have hr := mt value_inj.mpr hne
    exact this hx hd hdist.symm (Ne.symm hne) hxe hde (by omega)
  · have hxf := (isFinite_iff_rank x).mp hx.finite
    have hdf := (isFinite_iff_rank d).mp hd.finite
    obtain ⟨y, hyf, hy⟩ := exists_rank (r := d.rank + 1) (by omega)
    have hdy : (d.units : ℚ) < y.units := Int.cast_lt.mpr (unitsAt_lt (by omega))
    have hyx : (y.units : ℚ) < x.units := Int.cast_lt.mpr (unitsAt_lt (by omega))
    have hleast := hd.least y hyf
    have hdist := congrArg (· * (perOne : ℚ)) hdist
    rw [← mul_le_mul_iff_left₀ perOne_pos, abs_sub_value, abs_sub_value] at hleast
    simp only [abs_sub_value] at hdist
    rcases abs_eq_abs.mp hdist with he | he
    · linarith
    · have hmid : q * perOne - d.units = (x.units - d.units) / 2 := by linarith
      have hpos : (0 : ℚ) ≤ q * perOne - d.units := by linarith
      rw [abs_of_nonneg hpos, hmid] at hleast
      have : |q * perOne - y.units| < (x.units - d.units : ℚ) / 2 :=
        abs_lt.mpr ⟨by linarith, by linarith⟩
      linarith

/-- A number whose nearest double is not zero has one nearest double. -/
theorem IsNearest.unique {q : ℚ} {d x : Double} (hd : IsNearest q d) (hx : IsNearest q x)
    (h0 : d.value ≠ 0) : d = x := by
  apply eq_of_rank (value_inj.mp (hd.value_unique hx))
  intro hz
  have hu : d.units = 0 := by
    unfold units
    rw [hz]
    decide
  exact h0 (by simp [value_eq, hu])

/-! ## Fractions -/

theorem nearestMagnitude_le (num den : Nat) :
    (nearestMagnitude num den).toNat ≤ infinityBits.toNat := by
  unfold nearestMagnitude
  split
  · exact Nat.zero_le _
  · rw [UInt64.toNat_ofNat']
    exact (Nat.mod_le _ _).trans (Nat.min_le_right _ _)

theorem nearestMagnitude_lt_sign (num den : Nat) : (nearestMagnitude num den).toNat < 2 ^ 63 :=
  (nearestMagnitude_le num den).trans_lt (by decide)

theorem isFinite_ofRatio_iff (negative : Bool) (num den : Nat) :
    (ofRatio negative num den).isFinite = true ↔
      (nearestMagnitude num den).toNat < infinityBits.toNat := by
  rw [isFinite, ofRatio, magnitude_ofMagnitude negative (nearestMagnitude_lt_sign num den),
    decide_eq_true_iff, UInt64.lt_iff_toNat_lt]

/-- What is made of a fraction with a sign is the double nearest to it, if that is finite. -/
theorem isNearest_ofRatio (negative : Bool) (num : Nat) {den : Nat} (hd : 0 < den)
    (hf : (ofRatio negative num den).isFinite = true) :
    IsNearest (if negative then -(num / den) else num / den) (ofRatio negative num den) := by
  have hr := rank_ofMagnitude negative (nearestMagnitude_lt_sign num den)
  have hm := middles_nearestMagnitude num hd ((isFinite_ofRatio_iff negative num den).mp hf)
  apply Middles.isNearest hf
  rw [ofRatio, hr]
  cases negative
  · exact hm
  · exact hm.neg

end Double

end ScriptHost
