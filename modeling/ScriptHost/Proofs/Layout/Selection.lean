-- Which numbers become integer words. A double does if it is a 32-bit integer bit for bit, and a
-- 64-bit integer does if it fits. The double of an integer makes the same word as the integer.
import ScriptHost.Proofs.Double.Whole
import ScriptHost.Proofs.Layout.Canonical

namespace ScriptHost

namespace Double

/-! ## Doubles that are 32-bit integers -/

/-- A whole number is rounded to one double: the nearest one, with the sign of the number. -/
theorem eq_ofInt_iff_isNearest {k : Int} (hk : k.natAbs < 2 ^ 64) (d : Double) :
    d = ofInt k ↔ IsNearest k d ∧ d.isNegative = decide (k < 0) := by
  constructor
  · rintro rfl
    exact ⟨isNearest_ofInt hk, isNegative_ofInt k⟩
  · rintro ⟨hd, hs⟩
    have hr : d.rank = (ofInt k).rank := value_inj.mp (hd.value_unique (isNearest_ofInt hk))
    apply eq_of_magnitude
    · apply UInt64.toNat_inj.mp
      rw [← natAbs_rank, ← natAbs_rank, hr]
    · rw [hs, isNegative_ofInt]

/-- Every 32-bit integer is a double. -/
theorem holds_ofInt32 (n : Int32) : (ofInt n.toInt).Holds n.toInt := by
  have hlow := n.le_toInt
  have hhigh := n.toInt_lt
  exact holds_ofInt (by omega)

theorem eq_ofInt32_iff (d : Double) (n : Int32) : d = ofInt n.toInt ↔ d.Holds n.toInt := by
  constructor
  · rintro rfl
    exact holds_ofInt32 n
  · intro h
    exact h.double_unique (holds_ofInt32 n)

/-- The zero with a sign. -/
def negZero : Double := ⟨0x8000000000000000⟩

theorem value_zero : zero.value = 0 := by
  have hu : zero.units = 0 := by decide
  rw [value_eq, hu, Int.cast_zero, zero_div]

theorem value_negZero : negZero.value = 0 := by
  have hr : negZero.rank = zero.rank := by decide
  rw [value_inj.mpr hr, value_zero]

theorem eq_negZero {d : Double} (hv : d.value = 0) (hs : d.isNegative = true) : d = negZero := by
  have hr : d.rank = 0 := by
    rw [← value_zero, value_inj] at hv
    exact hv.trans (by decide)
  apply eq_of_magnitude
  · apply UInt64.toNat_inj.mp
    rw [← natAbs_rank, hr]
    decide
  · rw [hs]
    decide

/-- A finite double whose number is whole holds that number, but for the zero with a sign. -/
theorem holds_of_value {d : Double} {k : Int} (hf : d.isFinite = true) (hz : d ≠ negZero)
    (hv : d.value = k) : d.Holds k := by
  refine ⟨hf, hv, ?_⟩
  have hnum : (0 : ℚ) ≤ d.num / d.den := by positivity
  cases hs : d.isNegative
  · rw [value, hs, if_neg (by simp)] at hv
    rw [hv, Int.cast_nonneg_iff] at hnum
    exact (decide_eq_false (by omega)).symm
  · have hne : k ≠ 0 := by
      rintro rfl
      exact hz (eq_negZero (hv.trans Int.cast_zero) hs)
    rw [value, hs, if_pos rfl] at hv
    have hle : (k : ℚ) ≤ 0 := by linarith
    rw [Int.cast_nonpos] at hle
    exact (decide_eq_true (by omega)).symm

theorem isFinite_eq_false_iff (d : Double) :
    d.isFinite = false ↔ d.isNaN = true ∨ d = infinity ∨ d = negInfinity := by
  have hb := d.bits.toNat_lt
  rw [← Bool.not_eq_true, isFinite_iff, isNaN_iff, ← bits_inj, ← bits_inj, ← UInt64.toNat_inj,
    ← UInt64.toNat_inj]
  show _ ↔ _ ∨ _ = 0x7FF0000000000000 ∨ _ = 0xFFF0000000000000
  omega

/-- What is no 32-bit integer bit for bit: the zero with a sign, the NaNs, the infinities, the
fractions, and what lies past either end of the range. -/
theorem asInt32?_eq_none_iff_value (d : Double) :
    d.asInt32? = none ↔ d = negZero ∨ d.isNaN = true ∨ d = infinity ∨ d = negInfinity ∨
      (∀ k : Int, d.value ≠ k) ∨ d.value < -2 ^ 31 ∨ 2 ^ 31 - 1 < d.value := by
  rw [asInt32?_eq_none_iff]
  constructor
  · intro hn
    by_contra hd
    simp only [not_or, not_forall, not_not, not_lt] at hd
    obtain ⟨hz, hnan, hinf, hninf, ⟨k, hk⟩, hlow, hhigh⟩ := hd
    have hf : d.isFinite = true := by
      rw [← Bool.not_eq_false, isFinite_eq_false_iff]
      simp [hnan, hinf, hninf]
    have hlow : -2 ^ 31 ≤ k := by
      rw [hk] at hlow
      exact_mod_cast hlow
    have hhigh : k ≤ 2 ^ 31 - 1 := by
      rw [hk] at hhigh
      exact_mod_cast hhigh
    refine hn (Int32.ofInt k) ?_
    rw [Int32.toInt_ofInt_of_le (by omega) (by omega)]
    exact holds_of_value hf hz hk
  · rintro hd n hn
    have hlow := n.le_toInt
    have hhigh := n.toInt_lt
    rcases hd with rfl | hd | hd | hd | hd | hd | hd
    · have hv := hn.value
      have hs := hn.sign
      rw [value_negZero, eq_comm, Int.cast_eq_zero] at hv
      rw [hv] at hs
      exact absurd hs (by decide)
    · exact absurd hn.finite (by simp [(isFinite_eq_false_iff d).mpr (Or.inl hd)])
    · exact absurd hn.finite (by simp [(isFinite_eq_false_iff d).mpr (Or.inr (Or.inl hd))])
    · exact absurd hn.finite (by simp [(isFinite_eq_false_iff d).mpr (Or.inr (Or.inr hd))])
    · exact hd _ hn.value
    · rw [hn.value] at hd
      have hd : n.toInt < -2 ^ 31 := by exact_mod_cast hd
      omega
    · rw [hn.value] at hd
      have hd : 2 ^ 31 - 1 < n.toInt := by exact_mod_cast hd
      omega

end Double

/-! ## The words of numbers -/

namespace Layout

theorem decode_ofInt32 (ℓ : Layout) (n : Int32) :
    ℓ.decode (ℓ.ofInt32 n) = some (.int, .int32 n) := by
  rw [ofInt32, immediate_eq_assemble, ℓ.decode_assemble (by decide) (ℓ.fits_half _)]
  simp [Payload.readAs, Tag.isCounted, Payload.bits]

theorem ofNumber_of_holds (ℓ : Layout) {d : Double} {n : Int32} (h : d.Holds n.toInt) :
    ℓ.ofNumber d = ℓ.ofInt32 n := by
  unfold ofNumber
  rw [(d.asInt32?_eq_some_iff n).mpr h]

theorem ofNumber_of_not_holds (ℓ : Layout) {d : Double} (h : ∀ n : Int32, ¬ d.Holds n.toInt) :
    ℓ.ofNumber d = ℓ.ofDouble d := by
  unfold ofNumber
  rw [d.asInt32?_eq_none_iff.mpr h]

/-- No word of a number points to a block. -/
theorem isCounted_ofNumber (ℓ : Layout) (d : Double) : ℓ.isCounted (ℓ.ofNumber d) = false := by
  unfold ofNumber
  split
  · exact ℓ.isCounted_of_tag? (tag?_of_decode (ℓ.decode_ofInt32 _))
  · exact ℓ.isCounted_of_double (ℓ.tag?_ofDouble d)

/-- A double becomes an integer word exactly when it is a 32-bit integer bit for bit. All other
doubles become double words, and no word of the two kinds is counted. -/
theorem exactly_the_integers_are_selected (ℓ : Layout) (d : Double) :
    (∀ n : Int32, d.asInt32? = some n ↔ d = .ofInt n.toInt) ∧
      (∀ n : Int32, d = .ofInt n.toInt ↔ d.Holds n.toInt) ∧
      (d.asInt32? = none ↔
        d = .negZero ∨ d.isNaN = true ∨ d = .infinity ∨ d = .negInfinity ∨
          (∀ k : Int, d.value ≠ k) ∨ d.value < -2 ^ 31 ∨ 2 ^ 31 - 1 < d.value) ∧
      (∀ n : Int32, d = .ofInt n.toInt → ℓ.decode (ℓ.ofNumber d) = some (.int, .int32 n)) ∧
      ((∀ n : Int32, d ≠ .ofInt n.toInt) →
        ℓ.decode (ℓ.ofNumber d) = some (.float64, .float64 d.canonical)) ∧
      ℓ.isCounted (ℓ.ofNumber d) = false := by
  refine ⟨fun n => ?_, d.eq_ofInt32_iff, d.asInt32?_eq_none_iff_value, fun n hn => ?_,
    fun hn => ?_, ℓ.isCounted_ofNumber d⟩
  · rw [d.asInt32?_eq_some_iff, d.eq_ofInt32_iff]
  · rw [ℓ.ofNumber_of_holds ((d.eq_ofInt32_iff n).mp hn), ℓ.decode_ofInt32]
  · have hd : ∀ n : Int32, ¬ d.Holds n.toInt := fun n h => hn n ((d.eq_ofInt32_iff n).mpr h)
    rw [ℓ.ofNumber_of_not_holds hd, ℓ.decode_ofDouble]

/-! ## The words of 64-bit integers -/

/-- An integer makes the word of the double nearest to it. -/
theorem ofInt64_eq_ofNumber (ℓ : Layout) (n : Int64) :
    ℓ.ofInt64 n = ℓ.ofNumber (.ofInt n.toInt) := by
  have hlow := n.le_toInt
  have hhigh := n.toInt_lt
  unfold ofInt64
  split
  · rename_i i hi
    rw [narrow?_eq_some_iff] at hi
    rw [← hi, ℓ.ofNumber_of_holds (Double.holds_ofInt32 i)]
  · rename_i hi
    rw [narrow?_eq_none_iff] at hi
    rw [ℓ.ofNumber_of_not_holds ((Double.isNearest_ofInt (by omega)).not_holds hi)]

theorem decode_ofInt64_of_narrow (ℓ : Layout) {n : Int64} {i : Int32} (h : i.toInt = n.toInt) :
    ℓ.decode (ℓ.ofInt64 n) = some (.int, .int32 i) := by
  rw [ofInt64, (narrow?_eq_some_iff n i).mpr h, ℓ.decode_ofInt32]

theorem ofInt64_of_wide (ℓ : Layout) {n : Int64} (h : n.toInt < -2 ^ 31 ∨ 2 ^ 31 ≤ n.toInt) :
    ℓ.ofInt64 n = ℓ.ofDouble (.ofInt n.toInt) := by
  rw [ofInt64, (narrow?_eq_none_iff n).mpr h]

/-- A 64-bit integer and the double nearest to it make the same word. It is an integer word if
the integer fits 32 bits. Past them it is the word of that double, which is the integer itself
up to 53 binary digits and is never rounded back into the range of 32 bits. -/
theorem integers_select_as_their_doubles (ℓ : Layout) (n : Int64) :
    (∀ d, d = .ofInt n.toInt ↔
        Double.IsNearest n.toInt d ∧ d.isNegative = decide (n.toInt < 0)) ∧
      ℓ.ofInt64 n = ℓ.ofNumber (.ofInt n.toInt) ∧
      (-2 ^ 31 ≤ n.toInt ∧ n.toInt < 2 ^ 31 →
        ∃ i : Int32, i.toInt = n.toInt ∧ ℓ.decode (ℓ.ofInt64 n) = some (.int, .int32 i)) ∧
      (n.toInt < -2 ^ 31 ∨ 2 ^ 31 ≤ n.toInt →
        ℓ.decode (ℓ.ofInt64 n) = some (.float64, .float64 (.ofInt n.toInt)) ∧
          ℓ.double (ℓ.ofInt64 n) = .ofInt n.toInt ∧
          ((Double.ofInt n.toInt).value < -2 ^ 31 ∨ 2 ^ 31 ≤ (Double.ofInt n.toInt).value)) ∧
      (n.toInt.natAbs ≤ 2 ^ 53 → (Double.ofInt n.toInt).value = n.toInt) := by
  have hlow := n.le_toInt
  have hhigh := n.toInt_lt
  have hnear : Double.IsNearest n.toInt (.ofInt n.toInt) := Double.isNearest_ofInt (by omega)
  have hcanonical : (Double.ofInt n.toInt).canonical = .ofInt n.toInt :=
    (Double.canonical_eq_self_iff _).mpr (Or.inl (Double.isNaN_of_isFinite hnear.finite))
  refine ⟨Double.eq_ofInt_iff_isNearest (by omega), ℓ.ofInt64_eq_ofNumber n, ?_, ?_, ?_⟩
  · rintro ⟨hl, hh⟩
    have hi := Int32.toInt_ofInt_of_le (n := n.toInt) (by omega) (by omega)
    exact ⟨_, hi, ℓ.decode_ofInt64_of_narrow hi⟩
  · intro hn
    rw [ℓ.ofInt64_of_wide hn, ℓ.decode_ofDouble, ℓ.double_ofDouble, hcanonical]
    refine ⟨rfl, rfl, ?_⟩
    rcases hnear.outside hn with hout | hout
    · left
      push_cast at hout
      linarith
    · right
      exact_mod_cast hout
  · intro hn
    exact (Double.holds_ofInt hn).value

end Layout

end ScriptHost
