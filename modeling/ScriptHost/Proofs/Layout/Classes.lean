-- What a word is taken for. The tag of a word decides whether it counts references,
-- whether it is a double and whether it is an exception, whoever built the word.
import ScriptHost.Layout.Codec

namespace ScriptHost

namespace Numbering

theorem tag?_eq_some_iff (s : Numbering) (raw : Int32) (t : Tag) :
    s.tag? raw = some t ↔ raw = s.number t := by
  constructor
  · intro h
    have hn := List.find?_some (p := fun t => s.number t == raw) h
    exact (beq_iff_eq.mp hn).symm
  · rintro rfl
    exact s.tag?_number t

/-- Two tags never share a number. -/
theorem number_injective (s : Numbering) {t u : Tag} (h : s.number t = s.number u) : t = u := by
  have ht := s.tag?_number t
  rw [h, s.tag?_number u] at ht
  exact (Option.some.inj ht).symm

end Numbering

namespace Boxed

/-- What looks counted is never a double. -/
theorem isCounted_of_isFloatTag {raw : Int32} (h : isFloatTag raw = true) :
    Numbering.negative.isCounted raw = false := by
  rw [isFloatTag, Bool.not_eq_true', Bool.and_eq_false_iff, decide_eq_false_iff_not,
    decide_eq_false_iff_not, Int32.lt_iff_toInt_lt] at h
  rw [Numbering.isCounted, Bool.and_eq_false_iff, decide_eq_false_iff_not,
    decide_eq_false_iff_not, Int32.lt_iff_toInt_lt]
  rw [show (7 : Int32).toInt = 7 from rfl] at h
  rw [show (0 : Int32).toInt = 0 from rfl]
  rcases h with h | h
  · exact Or.inl h
  · exact Or.inr (by omega)

end Boxed

namespace Layout

theorem tag?_eq_some_iff (ℓ : Layout) (w : ℓ.Word) (t : Tag) :
    ℓ.tag? w = some t ↔ ℓ.tagNumber w = ℓ.numbering.number t :=
  ℓ.numbering.tag?_eq_some_iff _ t

theorem isFloat_iff (ℓ : Layout) (w : ℓ.Word) :
    ℓ.isFloat w = true ↔ ℓ.tag? w = some .float64 := by
  rw [isFloat, beq_iff_eq, tag?_eq_some_iff]

/-- The stored number and the number without doubles folded agree, but for a double. -/
theorem rawTag_eq_number (ℓ : Layout) {w : ℓ.Word} {t : Tag} (h : ℓ.tag? w = some t)
    (ht : t ≠ .float64) : ℓ.rawTag w = ℓ.numbering.number t := by
  rw [tag?_eq_some_iff] at h
  cases ℓ with
  | wide => exact h
  | strict => exact h
  | boxed =>
    change Boxed.tagNumber w = Numbering.negative.number t at h
    show Boxed.rawTag w = Numbering.negative.number t
    unfold Boxed.tagNumber at h
    split at h
    · exact absurd (Numbering.negative.number_injective (t := .float64) h).symm ht
    · exact h

theorem isCounted_of_double (ℓ : Layout) {w : ℓ.Word} (h : ℓ.tag? w = some .float64) :
    ℓ.isCounted w = false := by
  rw [tag?_eq_some_iff] at h
  cases ℓ with
  | wide =>
    change Wide.rawTag w = 7 at h
    show Numbering.negative.isCounted (Wide.rawTag w) = false
    rw [h]
    rfl
  | strict =>
    change Strict.rawTag w = 7 at h
    show Numbering.strict.isCounted (Strict.rawTag w) = false
    rw [h]
    rfl
  | boxed =>
    change Boxed.tagNumber w = 7 at h
    show Numbering.negative.isCounted (Boxed.rawTag w) = false
    unfold Boxed.tagNumber at h
    split at h
    · rename_i hf
      exact Boxed.isCounted_of_isFloatTag hf
    · rw [h]
      rfl

/-- The tag of a word tells whether the word is counted. -/
theorem isCounted_of_tag? (ℓ : Layout) {w : ℓ.Word} {t : Tag} (h : ℓ.tag? w = some t) :
    ℓ.isCounted w = t.isCounted := by
  by_cases ht : t = .float64
  · subst ht
    exact ℓ.isCounted_of_double h
  · rw [isCounted, ℓ.rawTag_eq_number h ht, Numbering.isCounted_number]

/-- A word is an exception exactly when that is its tag. -/
theorem isException_iff (ℓ : Layout) (w : ℓ.Word) :
    ℓ.isException w = true ↔ ℓ.tag? w = some .exception := by
  rw [isException, beq_iff_eq]
  constructor
  · intro h
    rw [tag?_eq_some_iff]
    cases ℓ with
    | wide => exact h
    | strict => exact h
    | boxed =>
      change Boxed.rawTag w = Numbering.negative.number .exception at h
      show Boxed.tagNumber w = Numbering.negative.number .exception
      rw [Boxed.tagNumber, h]
      rfl
  · intro h
    exact ℓ.rawTag_eq_number h (by decide)

end Layout

end ScriptHost
