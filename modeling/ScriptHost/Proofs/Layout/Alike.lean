-- Words of two layouts that read alike. Whatever the host asks of the one word, it is
-- told the same of the other.
import ScriptHost.Proofs.Layout.RoundTrip

namespace ScriptHost

variable {ℓ₁ ℓ₂ : Layout}

/-! ## Reading alike -/

/-- Two words with the same tag and the same payload, where an address fits every layout. -/
def Alike (w₁ : ℓ₁.Word) (w₂ : ℓ₂.Word) : Prop :=
  ∃ t p, ℓ₁.decode w₁ = some (t, p) ∧ ℓ₂.decode w₂ = some (t, p) ∧
    ∀ a, p = .pointer a → a.toNat < 2 ^ 32

theorem Layout.decode_eq_some_iff {ℓ : Layout} {w : ℓ.Word} {t : Tag} {p : Payload} :
    ℓ.decode w = some (t, p) ↔ ℓ.tag? w = some t ∧ ℓ.select t w = p := by
  constructor
  · intro h
    have ht := Layout.tag?_of_decode h
    rw [decode, ht, Option.map_some] at h
    exact ⟨ht, (Prod.mk.inj (Option.some.inj h)).2⟩
  · rintro ⟨ht, hp⟩
    rw [decode, ht, Option.map_some, hp]

namespace Alike

variable {w₁ : ℓ₁.Word} {w₂ : ℓ₂.Word}

/-- Alike words have one tag, and it selects one payload. -/
theorem select_eq (h : Alike w₁ w₂) :
    ∃ t, ℓ₁.tag? w₁ = some t ∧ ℓ₂.tag? w₂ = some t ∧ ℓ₁.select t w₁ = ℓ₂.select t w₂ := by
  obtain ⟨t, p, h₁, h₂, -⟩ := h
  obtain ⟨ht₁, hp₁⟩ := Layout.decode_eq_some_iff.mp h₁
  obtain ⟨ht₂, hp₂⟩ := Layout.decode_eq_some_iff.mp h₂
  exact ⟨t, ht₁, ht₂, hp₁.trans hp₂.symm⟩

theorem tag?_eq (h : Alike w₁ w₂) : ℓ₁.tag? w₁ = ℓ₂.tag? w₂ := by
  obtain ⟨t, ht₁, ht₂, -⟩ := h.select_eq
  rw [ht₁, ht₂]

theorem select_eq_of_tag? (h : Alike w₁ w₂) {t : Tag} (ht : ℓ₁.tag? w₁ = some t) :
    ℓ₁.select t w₁ = ℓ₂.select t w₂ := by
  obtain ⟨u, hu, -, hs⟩ := h.select_eq
  rw [ht] at hu
  cases hu
  exact hs

theorem isCounted_eq (h : Alike w₁ w₂) : ℓ₁.isCounted w₁ = ℓ₂.isCounted w₂ := by
  obtain ⟨t, ht₁, ht₂, -⟩ := h.select_eq
  rw [ℓ₁.isCounted_of_tag? ht₁, ℓ₂.isCounted_of_tag? ht₂]

theorem isException_eq (h : Alike w₁ w₂) : ℓ₁.isException w₁ = ℓ₂.isException w₂ := by
  rw [Bool.eq_iff_iff, ℓ₁.isException_iff, ℓ₂.isException_iff, h.tag?_eq]

theorem int32_eq (h : Alike w₁ w₂) (ht : ℓ₁.tag? w₁ = some .int) : ℓ₁.int32 w₁ = ℓ₂.int32 w₂ :=
  Payload.int32.inj (h.select_eq_of_tag? ht)

theorem bool_eq (h : Alike w₁ w₂) (ht : ℓ₁.tag? w₁ = some .bool) : ℓ₁.bool w₁ = ℓ₂.bool w₂ :=
  Payload.bool.inj (h.select_eq_of_tag? ht)

theorem double_eq (h : Alike w₁ w₂) (ht : ℓ₁.tag? w₁ = some .float64) :
    ℓ₁.double w₁ = ℓ₂.double w₂ :=
  Payload.float64.inj (h.select_eq_of_tag? ht)

/-- Alike words that are counted point to one block. -/
theorem payload_eq (h : Alike w₁ w₂) (hc : ℓ₁.isCounted w₁ = true) :
    ℓ₁.payload w₁ = ℓ₂.payload w₂ := by
  obtain ⟨t, ht, -, hs⟩ := h.select_eq
  rw [ℓ₁.isCounted_of_tag? ht] at hc
  cases t <;> first | exact Payload.pointer.inj hs | cases hc

end Alike

/-! ## Building alike -/

/-- What is assembled of the same tag and the same half of a word is alike. -/
theorem alike_assemble {t : Tag} (ht : t ≠ .float64) (n : UInt32) :
    Alike (ℓ₁.assemble t n.toUInt64) (ℓ₂.assemble t n.toUInt64) := by
  refine ⟨t, (Payload.raw n.toUInt64).readAs t, ℓ₁.decode_assemble ht (ℓ₁.fits_half n),
    ℓ₂.decode_assemble ht (ℓ₂.fits_half n), ?_⟩
  intro a ha
  dsimp only [Payload.readAs] at ha
  split at ha
  · cases ha
  · split at ha
    · have hn : n.toUInt64 = a := Payload.pointer.inj ha
      rw [← hn, UInt32.toNat_toUInt64]
      exact n.toNat_lt
    · cases ha

theorem alike_immediate {t : Tag} (ht : t ≠ .float64) (n : Int32) :
    Alike (ℓ₁.immediate t n) (ℓ₂.immediate t n) := by
  rw [Layout.immediate_eq_assemble, Layout.immediate_eq_assemble]
  exact alike_assemble ht n.toUInt32

theorem alike_ofDouble (d : Double) : Alike (ℓ₁.ofDouble d) (ℓ₂.ofDouble d) :=
  ⟨.float64, .float64 d.canonical, ℓ₁.decode_ofDouble d, ℓ₂.decode_ofDouble d,
    fun _ h => nomatch h⟩

theorem alike_ofInt64 (n : Int64) : Alike (ℓ₁.ofInt64 n) (ℓ₂.ofInt64 n) := by
  unfold Layout.ofInt64
  split
  · exact alike_immediate (by decide) _
  · exact alike_ofDouble _

theorem alike_ofNumber (d : Double) : Alike (ℓ₁.ofNumber d) (ℓ₂.ofNumber d) := by
  unfold Layout.ofNumber
  split
  · exact alike_immediate (by decide) _
  · exact alike_ofDouble _

end ScriptHost
