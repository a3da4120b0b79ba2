-- NaNs that the host did not write. The host writes one NaN word, but an engine may hand
-- out others, and what is read from a word is what stands in it.
import ScriptHost.Proofs.Exchange.Sample
import ScriptHost.Proofs.Layout.Canonical

namespace ScriptHost

/-! ## Words that hold another NaN -/

/-- The payload field holds a NaN that is not the canonical one. -/
def Wide.ForeignNaN (w : Wide) : Prop :=
  0x7FF0000000000000 < w.payload.toNat % 2 ^ 63 ∧ w.payload ≠ 0x7FF8000000000000

/-- The word is in one of the two places, the first of them across zero, to which the NaNs of
either sign are moved. -/
def Boxed.ForeignNaN (w : UInt64) : Prop :=
  (w ≤ 0x0007FFF3FFFFFFFF ∨ 0xFFF7FFF400000001 ≤ w ∨
    0x7FF7FFF400000001 ≤ w ∧ w ≤ 0x8007FFF3FFFFFFFF) ∧ w ≠ 0xFFFFFFF400000000

/-- The word has its sign bit set, eleven zeros after it, and does not turn over to an infinity
or to the canonical NaN. -/
def Strict.ForeignNaN (w : UInt64) : Prop :=
  0x8000000000000000 ≤ w ∧ w ≤ 0x800FFFFFFFFFFFFE ∧ w ≠ 0x8007FFFFFFFFFFFF

/-- A word of doubles from which a NaN other than the canonical one is read. -/
def Layout.ForeignNaN : (ℓ : Layout) → ℓ.Word → Prop
  | wide => Wide.ForeignNaN
  | boxed => Boxed.ForeignNaN
  | strict => Strict.ForeignNaN

/-! ## What is read from them -/

theorem Wide.foreignNaN_iff (w : Wide) :
    ForeignNaN w ↔ (double w).isNaN = true ∧ double w ≠ .canonicalNaN := by
  rw [ForeignNaN, Double.isNaN_iff, ne_eq, ne_eq, double, ← Double.bits_inj]
  rfl

theorem Boxed.toNat_double (w : UInt64) :
    (double w).bits.toNat = (w.toNat + 0x7FF8000C00000000) % 2 ^ 64 := UInt64.toNat_add w shift

theorem Boxed.foreignNaN_iff (w : UInt64) :
    ForeignNaN w ↔ (double w).isNaN = true ∧ double w ≠ .canonicalNaN := by
  have hw := w.toNat_lt
  rw [ForeignNaN, Double.isNaN_iff, toNat_double, ne_eq, ne_eq, double_eq_canonicalNaN_iff]
  refine and_congr_left fun _ => ?_
  rw [UInt64.le_iff_toNat_le, UInt64.le_iff_toNat_le, UInt64.le_iff_toNat_le,
    UInt64.le_iff_toNat_le]
  show w.toNat ≤ 0x0007FFF3FFFFFFFF ∨ 0xFFF7FFF400000001 ≤ w.toNat ∨
    0x7FF7FFF400000001 ≤ w.toNat ∧ w.toNat ≤ 0x8007FFF3FFFFFFFF ↔ _
  omega

theorem Strict.foreignNaN_iff (w : UInt64) :
    ForeignNaN w ↔ (double w).isNaN = true ∧ double w ≠ .canonicalNaN := by
  have hw := w.toNat_lt
  unfold double
  split
  · rename_i ht
    rw [threshold_lt_iff] at ht
    have hnot : (Double.mk (~~~w)).bits.toNat = 2 ^ 64 - 1 - w.toNat := UInt64.toNat_not w
    rw [Double.isNaN_iff, hnot, ne_eq, ← Double.bits_inj, ← UInt64.toNat_inj, hnot, ForeignNaN,
      ne_eq, ← UInt64.toNat_inj, UInt64.le_iff_toNat_le, UInt64.le_iff_toNat_le]
    show 0x8000000000000000 ≤ w.toNat ∧ w.toNat ≤ 0x800FFFFFFFFFFFFE ∧
      ¬ w.toNat = 0x8007FFFFFFFFFFFF ↔ _ ∧ ¬ 2 ^ 64 - 1 - w.toNat = 0x7FF8000000000000
    omega
  · rename_i ht
    have hlow : ¬ ForeignNaN w := by
      rintro ⟨hl, -⟩
      rw [threshold_lt_iff] at ht
      rw [UInt64.le_iff_toNat_le] at hl
      exact ht (Nat.le_trans (by decide) hl)
    refine iff_of_false hlow ?_
    split
    · exact fun h => absurd h.1 (by decide)
    · split
      · exact fun h => absurd h.1 (by decide)
      · exact fun h => h.2 rfl

namespace Layout

theorem foreignNaN_iff (ℓ : Layout) (w : ℓ.Word) :
    ℓ.ForeignNaN w ↔ (ℓ.double w).isNaN = true ∧ ℓ.double w ≠ .canonicalNaN := by
  cases ℓ with
  | wide => exact Wide.foreignNaN_iff w
  | boxed => exact Boxed.foreignNaN_iff w
  | strict => exact Strict.foreignNaN_iff w

theorem not_foreignNaN_iff (ℓ : Layout) (w : ℓ.Word) :
    ¬ ℓ.ForeignNaN w ↔ (ℓ.double w).isNaN = false ∨ ℓ.double w = .canonicalNaN := by
  rw [foreignNaN_iff, Classical.not_and_iff_not_or_not, Bool.not_eq_true, Classical.not_not]

/-- The host never writes another NaN than the canonical one. -/
theorem not_foreignNaN_of_encode {ℓ : Layout} {w : ℓ.Word} {p : Payload}
    (h : ℓ.encode .float64 p = .ok w) : ¬ ℓ.ForeignNaN w := by
  cases p with
  | float64 d =>
    rw [encode, if_pos rfl] at h
    cases h
    rw [not_foreignNaN_iff, ℓ.double_ofDouble d, ← Double.canonical_eq_self_iff]
    exact d.canonical_canonical
  | pointer a => cases h
  | int32 n => cases h
  | bool b => cases h
  | raw v => cases h

end Layout

/-! ## The law -/

namespace Host

variable {ℓ : Layout} {σ ε : Type}

/-- A word of doubles goes over to the host as the double that is read from it. That is no NaN
or the canonical one, unless the word holds a NaN that somebody else wrote. -/
theorem nan_is_canonical_unless_foreign (h : Host ℓ σ ε) {w : ℓ.Word}
    (ht : ℓ.tag? w = some .float64) :
    h.project w = (return .ok (.float (ℓ.double w))) ∧
      ((ℓ.double w).isNaN = false ∨ ℓ.double w = .canonicalNaN ↔ ¬ ℓ.ForeignNaN w) ∧
      ((∃ p, ℓ.encode .float64 p = .ok w) → ¬ ℓ.ForeignNaN w) := by
  refine ⟨h.project_alone (by rw [Layout.alone?, ht]), (ℓ.not_foreignNaN_iff w).symm, ?_⟩
  rintro ⟨p, hp⟩
  exact Layout.not_foreignNaN_of_encode hp

/-- The NaN that x86 processors make goes over to the host with its sign bit. -/
theorem nan_with_a_sign_is_foreign :
    Layout.wide.tag? ⟨0xFFF8000000000000, 7⟩ = some .float64 ∧
      (Host.project ⟨Engine.sole .wide, .standard, 0⟩ ⟨0xFFF8000000000000, 7⟩ :
          Exchange .wide Bool Unit _) = (return .ok (.float ⟨0xFFF8000000000000⟩)) ∧
      Layout.wide.ForeignNaN ⟨0xFFF8000000000000, 7⟩ := by
  have ht : Layout.wide.tag? ⟨0xFFF8000000000000, 7⟩ = some .float64 := by decide
  obtain ⟨hp, hc, -⟩ := nan_is_canonical_unless_foreign (ε := Unit)
    ⟨Engine.sole .wide, .standard, 0⟩ ht
  refine ⟨ht, hp, ?_⟩
  rw [← Classical.not_not (a := Layout.wide.ForeignNaN _), ← hc]
  decide

/-- In each layout a word of doubles can hold another NaN than the canonical one. -/
theorem not_every_nan_is_canonical :
    (Layout.wide.tag? ⟨0xFFF8000000000000, 7⟩ = some .float64 ∧
      (Layout.wide.double ⟨0xFFF8000000000000, 7⟩).isNaN = true ∧
      Layout.wide.double ⟨0xFFF8000000000000, 7⟩ ≠ .canonicalNaN) ∧
    (Layout.boxed.tag? (0xFFFFFFF400000001 : UInt64) = some .float64 ∧
      (Layout.boxed.double (0xFFFFFFF400000001 : UInt64)).isNaN = true ∧
      Layout.boxed.double (0xFFFFFFF400000001 : UInt64) ≠ .canonicalNaN) ∧
    (Layout.strict.tag? (0x8000000000000000 : UInt64) = some .float64 ∧
      (Layout.strict.double (0x8000000000000000 : UInt64)).isNaN = true ∧
      Layout.strict.double (0x8000000000000000 : UInt64) ≠ .canonicalNaN) := by
  decide

end Host

end ScriptHost
