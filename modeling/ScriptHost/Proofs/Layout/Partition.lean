-- Every word falls into one class. The classifiers look at a word in different ways, and
-- still a word that one of them takes for a double never counts references, whoever built
-- the word.
import ScriptHost.Proofs.Layout.Classes
import ScriptHost.Proofs.Layout.Fields
import ScriptHost.Reference

namespace ScriptHost

/-! ## Numbers that no tag has -/

namespace Numbering

/-- The numbers among the counted ones of the signed numbering that no tag has. -/
def Spare (raw : Int32) : Prop := raw = -6 ∨ raw = -5 ∨ raw = -4

theorem tag?_eq_none_iff (s : Numbering) (raw : Int32) :
    s.tag? raw = none ↔ ∀ t, raw ≠ s.number t := by
  constructor
  · intro h t ht
    rw [ht, s.tag?_number t] at h
    cases h
  · intro h
    cases ht : s.tag? raw with
    | none => rfl
    | some t => exact absurd ((s.tag?_eq_some_iff raw t).mp ht) (h t)

/-- From the lowest number up to the one before the doubles', every number but the spare
ones has a tag. -/
theorem spare_of_tag?_eq_none {raw : Int32} (h : negative.tag? raw = none)
    (hl : -11 ≤ raw.toInt) (hu : raw.toInt < 7) : Spare raw := by
  rw [tag?_eq_none_iff] at h
  have hne : ∀ t, raw.toInt ≠ (negative.number t).toInt := fun t he => h t (Int32.toInt_inj.mp he)
  have hcounted : raw.toInt ≠ -11 ∧ raw.toInt ≠ -10 ∧ raw.toInt ≠ -9 ∧ raw.toInt ≠ -8 ∧
      raw.toInt ≠ -7 ∧ raw.toInt ≠ -3 ∧ raw.toInt ≠ -2 ∧ raw.toInt ≠ -1 :=
    ⟨hne .bigDecimal, hne .bigInt, hne .bigFloat, hne .symbol, hne .string, hne .moduleRecord,
      hne .functionBytecode, hne .object⟩
  have himmediate : raw.toInt ≠ 0 ∧ raw.toInt ≠ 1 ∧ raw.toInt ≠ 2 ∧ raw.toInt ≠ 3 ∧
      raw.toInt ≠ 4 ∧ raw.toInt ≠ 5 ∧ raw.toInt ≠ 6 :=
    ⟨hne .int, hne .bool, hne .null, hne .undefined, hne .uninitialized, hne .catchOffset,
      hne .exception⟩
  unfold Spare
  rw [← Int32.toInt_inj, ← Int32.toInt_inj, ← Int32.toInt_inj]
  show raw.toInt = -6 ∨ raw.toInt = -5 ∨ raw.toInt = -4
  omega

theorem isCounted_negative_iff (raw : Int32) :
    negative.isCounted raw = true ↔ -11 ≤ raw.toInt ∧ raw.toInt < 0 := by
  rw [isCounted, Bool.and_eq_true, decide_eq_true_iff, decide_eq_true_iff, Int32.le_iff_toInt_le,
    Int32.lt_iff_toInt_lt]
  rfl

theorem tag?_of_spare {raw : Int32} (h : Spare raw) : negative.tag? raw = none := by
  rcases h with rfl | rfl | rfl <;> decide

/-- The compact numbering leaves none of the numbers of four bits free. -/
theorem tag?_strict_ne_none : ∀ n < 16, strict.tag? (UInt32.ofNat n).toInt32 ≠ none := by decide

end Numbering

/-! ## Words without a tag -/

theorem Boxed.isFloatTag_iff (raw : Int32) :
    isFloatTag raw = true ↔ ¬ (-11 ≤ raw.toInt ∧ raw.toInt < 7) := by
  rw [isFloatTag, Bool.not_eq_true', ← Bool.not_eq_true, Bool.and_eq_true, decide_eq_true_iff,
    decide_eq_true_iff, Int32.le_iff_toInt_le, Int32.lt_iff_toInt_lt]
  rfl

/-- A boxed word lacks a tag exactly if its upper half is one of the spare numbers. -/
theorem Boxed.tag?_eq_none_iff (w : UInt64) :
    Layout.boxed.tag? w = none ↔ Numbering.Spare (rawTag w) := by
  show Numbering.negative.tag? (tagNumber w) = none ↔ _
  by_cases hf : isFloatTag (rawTag w) = true
  · have hn : tagNumber w = Numbering.negative.number .float64 := if_pos hf
    rw [hn, Numbering.tag?_number]
    refine iff_of_false (by simp) fun hs => ?_
    rcases hs with hs | hs | hs <;> rw [hs] at hf <;> cases hf
  · rw [tagNumber, if_neg hf]
    rw [isFloatTag_iff, Classical.not_not] at hf
    exact ⟨fun h => Numbering.spare_of_tag?_eq_none h hf.1 hf.2, Numbering.tag?_of_spare⟩

/-- Four bits are read for the tag of a strict word that is no double, and all of them are used. -/
theorem Strict.tag?_ne_none (w : UInt64) : Layout.strict.tag? w ≠ none := by
  show Numbering.strict.tag? (rawTag w) ≠ none
  unfold rawTag
  split
  · decide
  · rename_i hw
    rw [threshold_lt_iff] at hw
    have hn := toNat_upper w
    have hu : (w >>> 48).toUInt32 = UInt32.ofNat (w.toNat / 2 ^ 48) := by
      rw [← hn, UInt32.ofNat_toNat]
    rw [hu]
    exact Numbering.tag?_strict_ne_none _ (by omega)

namespace Layout

/-- A word that counts references and still has no tag has one of the spare numbers. -/
theorem spare_of_counted (ℓ : Layout) {w : ℓ.Word} (hc : ℓ.isCounted w = true)
    (ht : ℓ.tag? w = none) : ℓ.numbering = .negative ∧ Numbering.Spare (ℓ.rawTag w) := by
  cases ℓ with
  | wide =>
    have hr := (Numbering.isCounted_negative_iff _).mp hc
    exact ⟨rfl, Numbering.spare_of_tag?_eq_none ht hr.1 (by omega)⟩
  | boxed => exact ⟨rfl, (Boxed.tag?_eq_none_iff w).mp ht⟩
  | strict => exact absurd ht (Strict.tag?_ne_none w)

/-! ## The law -/

/-- What the classifiers say of a word, held against its tag and against each other. -/
structure Classified (ℓ : Layout) (w : ℓ.Word) : Prop where
  float : ℓ.isFloat w = true ↔ ℓ.tag? w = some .float64
  exception : ℓ.isException w = true ↔ ℓ.tag? w = some .exception
  counted : ∀ t, ℓ.tag? w = some t → ℓ.isCounted w = t.isCounted
  stray : ℓ.isCounted w = true → ℓ.tag? w = none →
    ℓ.numbering = .negative ∧ Numbering.Spare (ℓ.rawTag w)
  float_not_exception : ¬ (ℓ.isFloat w = true ∧ ℓ.isException w = true)
  float_not_counted : ¬ (ℓ.isFloat w = true ∧ ℓ.isCounted w = true)
  exception_not_counted : ¬ (ℓ.isException w = true ∧ ℓ.isCounted w = true)
  strict_tagged : ℓ = .strict → ℓ.tag? w ≠ none
  boxed_tagged : ℓ = .boxed → ℓ.tag? w = none → Numbering.Spare (ℓ.rawTag w)

/-- A machine on which a word is left alone: taking or giving back a reference changes nothing,
and there is no count to read. -/
def LeavesAlone {σ : Type} (ℓ : Layout) (m : Machine σ) (w : ℓ.Word) : Prop :=
  m.retain ℓ w = m ∧ m.release ℓ w = m ∧ m.count? ℓ w = none

theorem leavesAlone_of_not_counted {σ : Type} (ℓ : Layout) (m : Machine σ) {w : ℓ.Word}
    (h : ℓ.isCounted w = false) : ℓ.LeavesAlone m w := by
  simp [LeavesAlone, Machine.retain, Machine.release, Machine.count?, h]

/-- The classifiers agree with the tag of every word, well formed or not, and no two of them
claim one word. So a word that is read as a double is never taken for an address. -/
theorem every_word_has_one_class (ℓ : Layout) (w : ℓ.Word) :
    ℓ.Classified w ∧
      ∀ (σ : Type) (m : Machine σ), ℓ.isFloat w = true → ℓ.LeavesAlone m w := by
  have hfloat := ℓ.isFloat_iff w
  have hexception := ℓ.isException_iff w
  have hcounted : ∀ t, ℓ.tag? w = some t → ℓ.isCounted w = t.isCounted := fun t ht =>
    ℓ.isCounted_of_tag? ht
  have hnot : ℓ.isFloat w = true → ℓ.isCounted w = false := fun hf => hcounted _ (hfloat.mp hf)
  refine ⟨⟨hfloat, hexception, hcounted, ℓ.spare_of_counted, ?_, ?_, ?_, ?_, ?_⟩, ?_⟩
  · rintro ⟨hf, he⟩
    rw [hfloat] at hf
    rw [hexception, hf] at he
    cases he
  · rintro ⟨hf, hc⟩
    rw [hnot hf] at hc
    cases hc
  · rintro ⟨he, hc⟩
    rw [hcounted _ (hexception.mp he)] at hc
    cases hc
  · rintro rfl
    exact Strict.tag?_ne_none w
  · rintro rfl ht
    exact (Boxed.tag?_eq_none_iff w).mp ht
  · intro σ m hf
    exact ℓ.leavesAlone_of_not_counted m (hnot hf)

end Layout

end ScriptHost
