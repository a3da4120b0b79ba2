-- Words that are written in the one way in which encoding writes them. Whoever built a
-- word, what it decodes to can be encoded again, and a canonical word comes back as it is.
import ScriptHost.Proofs.Layout.Alike

namespace ScriptHost

/-! ## Canonical words -/

/-- A word of the boxed layout as encoding writes it: any counted word, an immediate with
only 0 or 1 under the tag of truth values, a double that is no NaN, or the one NaN word. -/
inductive Boxed.Canonical (w : UInt64) : Prop
  | counted {t : Tag} : Layout.boxed.tag? w = some t → t.isCounted = true → Canonical w
  | immediate {t : Tag} : Layout.boxed.tag? w = some t → t.isImmediate = true →
    (t = .bool → w.toNat % 2 ^ 32 = 0 ∨ w.toNat % 2 ^ 32 = 1) → Canonical w
  | double : Layout.boxed.tag? w = some .float64 → (Boxed.double w).isNaN = false → Canonical w
  | nan : w = 0xFFFFFFF400000000 → Canonical w

/-- A word of the strict layout as encoding writes it: any counted word, an immediate with
zeros in bits 32 to 47, a finite double turned over, or one of the three special words. -/
inductive Strict.Canonical (w : UInt64) : Prop
  | counted {t : Tag} : Layout.strict.tag? w = some t → t.isCounted = true → Canonical w
  | immediate {t : Tag} : Layout.strict.tag? w = some t → t.isImmediate = true →
    w.toNat / 2 ^ 32 % 2 ^ 16 = 0 →
    (t = .bool → w.toNat % 2 ^ 48 = 0 ∨ w.toNat % 2 ^ 48 = 1) → Canonical w
  | inverted (d : Double) : d.isFinite = true → w = ~~~d.bits → Canonical w
  | special : w = 0x0007000000000001 ∨ w = 0x0007000000000002 ∨ w = 0x0007000000000003 →
    Canonical w

/-- What stands in the payload field of a canonical wide word under a tag: anything if the
tag is counted, half a word under an immediate tag, and no NaN but the one under the tag of
doubles. -/
inductive Wide.CanonicalPayload (payload : UInt64) : Tag → Prop
  | counted {t : Tag} : t.isCounted = true → CanonicalPayload payload t
  | immediate {t : Tag} : t.isImmediate = true → payload.toNat / 2 ^ 32 = 0 →
    (t = .bool → payload.toNat = 0 ∨ payload.toNat = 1) → CanonicalPayload payload t
  | double : (Double.mk payload).isNaN = false → CanonicalPayload payload .float64
  | nan : payload = 0x7FF8000000000000 → CanonicalPayload payload .float64

/-- A word of the wide layout as encoding writes it. The tag field is the number of a tag
with its sign carried on, and the payload is canonical under that tag. -/
def Wide.Canonical (w : Wide) : Prop :=
  ∃ t, w.tag.toInt = (Numbering.negative.number t).toInt ∧ CanonicalPayload w.payload t

/-- A word as encoding writes it. -/
def Layout.Canonical : (ℓ : Layout) → ℓ.Word → Prop
  | wide => Wide.Canonical
  | boxed => Boxed.Canonical
  | strict => Strict.Canonical

/-- A payload with one pattern for all NaNs. -/
def Payload.canonical : Payload → Payload
  | float64 d => float64 d.canonical
  | p => p

/-! ## Doubles -/

namespace Double

theorem bits_inj {a b : Double} : a.bits = b.bits ↔ a = b := by
  cases a
  cases b
  simp

/-- A double stays as it is if it is no NaN or the canonical one. -/
theorem canonical_eq_self_iff (d : Double) :
    d.canonical = d ↔ d.isNaN = false ∨ d = canonicalNaN := by
  unfold canonical
  split
  · rename_i h
    simp [h, eq_comm]
  · rename_i h
    simp [h]

theorem canonical_canonical (d : Double) : d.canonical.canonical = d.canonical := by
  rw [canonical_eq_self_iff, canonical]
  split
  · exact Or.inr rfl
  · rename_i h
    exact Or.inl (Bool.not_eq_true _ ▸ h)

end Double

/-! ## Taking words apart -/

theorem Boxed.eq_make {w : UInt64} {t : Tag} (h : rawTag w = Numbering.negative.number t) :
    w = make t w.toUInt32 := by
  have hu : (w >>> 32).toUInt32 = (Numbering.negative.number t).toUInt32 := by
    rw [← h, rawTag, UInt32.toUInt32_toInt32]
  have hn := toNat_upper w
  rw [hu] at hn
  apply UInt64.toNat_inj.mp
  rw [toNat_make, hn, UInt64.toNat_toUInt32]
  omega

theorem Strict.toNat_payload (w : UInt64) : (payload w).toNat = w.toNat % 2 ^ 48 := by
  rw [payload, UInt64.toNat_and]
  exact Nat.and_two_pow_sub_one_eq_mod w.toNat 48

theorem Strict.eq_make {w : UInt64} {t : Tag} (h : rawTag w = Numbering.strict.number t)
    (ht : t ≠ .float64) : w = make t (payload w) := by
  have hp := toNat_payload w
  unfold rawTag at h
  split at h
  · exact absurd (Numbering.strict.number_injective (t := .float64) h).symm ht
  · have hu : (w >>> 48).toUInt32 = (Numbering.strict.number t).toUInt32 := by
      rw [← h, UInt32.toUInt32_toInt32]
    have hn := toNat_upper w
    rw [hu] at hn
    apply UInt64.toNat_inj.mp
    rw [toNat_make t (by omega), hn, hp]
    omega

theorem Boxed.toNat_payload (w : UInt64) : (payload w).toNat = w.toNat % 2 ^ 32 := by
  rw [payload, UInt64.toNat_and]
  exact Nat.and_two_pow_sub_one_eq_mod w.toNat 32

namespace Layout

/-- Whether the tag field says no more than the tag. Only the wide layout has room for more. -/
def TagAlone : (ℓ : Layout) → ℓ.Word → Tag → Prop
  | wide, w, t => w.tag.toInt = (Numbering.negative.number t).toInt
  | boxed, _, _ => True
  | strict, _, _ => True

theorem fits_payload (ℓ : Layout) (w : ℓ.Word) : ℓ.Fits (ℓ.payload w) := by
  cases ℓ with
  | wide => exact fits_wide _
  | boxed =>
    show (Boxed.payload w).toNat < 2 ^ 32
    rw [Boxed.toNat_payload]
    omega
  | strict =>
    show (Strict.payload w).toNat < 2 ^ 48
    rw [Strict.toNat_payload]
    omega

/-- The integer of a word is the lower half of its payload. -/
theorem int32_eq_payload (ℓ : Layout) (w : ℓ.Word) :
    ℓ.int32 w = (ℓ.payload w).toUInt32.toInt32 := by
  cases ℓ with
  | wide => rfl
  | boxed =>
    refine congrArg UInt32.toInt32 (UInt32.toNat_inj.mp ?_)
    rw [UInt64.toNat_toUInt32, UInt64.toNat_toUInt32]
    show _ = (Boxed.payload w).toNat % 2 ^ 32
    rw [Boxed.toNat_payload]
    omega
  | strict =>
    refine congrArg UInt32.toInt32 (UInt32.toNat_inj.mp ?_)
    rw [UInt64.toNat_toUInt32, UInt64.toNat_toUInt32]
    show _ = (Strict.payload w).toNat % 2 ^ 32
    rw [Strict.toNat_payload]
    omega

/-- A word that is no double is assembled of its tag and its payload. -/
theorem assemble_payload_iff (ℓ : Layout) {w : ℓ.Word} {t : Tag} (h : ℓ.tag? w = some t)
    (ht : t ≠ .float64) : ℓ.assemble t (ℓ.payload w) = w ↔ ℓ.TagAlone w t := by
  have hraw := ℓ.rawTag_eq_number h ht
  cases ℓ with
  | wide =>
    obtain ⟨payload, tag⟩ := w
    simp only [assemble, Wide.make, Layout.payload, TagAlone, Wide.mk.injEq, true_and]
    rw [← Int64.toInt_inj, Int32.toInt_toInt64, eq_comm]
  | boxed =>
    refine iff_of_true ?_ trivial
    have hl : (Boxed.payload w).toUInt32 = UInt64.toUInt32 w := by
      apply UInt32.toNat_inj.mp
      rw [UInt64.toNat_toUInt32, UInt64.toNat_toUInt32, Boxed.toNat_payload]
      omega
    show Boxed.make t (Boxed.payload w).toUInt32 = w
    rw [hl]
    exact (Boxed.eq_make hraw).symm
  | strict => exact iff_of_true (Strict.eq_make hraw ht).symm trivial

/-- A word is assembled of a payload exactly when that is its own payload. -/
theorem assemble_eq_iff (ℓ : Layout) {w : ℓ.Word} {t : Tag} (h : ℓ.tag? w = some t)
    (ht : t ≠ .float64) {p : UInt64} (hp : ℓ.Fits p) :
    ℓ.assemble t p = w ↔ p = ℓ.payload w ∧ ℓ.TagAlone w t := by
  constructor
  · intro hw
    have hpay : p = ℓ.payload w := by rw [← hw, ℓ.payload_assemble t hp]
    rw [hpay, ℓ.assemble_payload_iff h ht] at hw
    exact ⟨hpay, hw⟩
  · rintro ⟨rfl, ha⟩
    exact (ℓ.assemble_payload_iff h ht).mpr ha

end Layout

/-! ## Reading and writing under a tag that is not that of doubles -/

/-- Bits that a tag reads and writes without change. -/
def Tag.Keeps (t : Tag) (bits : UInt64) : Prop :=
  t.isCounted = true ∨
    t.isImmediate = true ∧ bits.toNat < 2 ^ 32 ∧ (t = .bool → bits.toNat = 0 ∨ bits.toNat = 1)

namespace Payload

theorem takes_readAs {t : Tag} (ht : t ≠ .float64) (q : UInt64) : t.Takes ((raw q).readAs t) := by
  simp only [readAs]
  split
  · rename_i hb
    subst hb
    exact ⟨rfl, by decide⟩
  · split
    · assumption
    · rename_i hc
      exact ⟨by simpa using hc, ht⟩

theorem toUInt64_toUInt32_eq_iff (q : UInt64) : q.toUInt32.toUInt64 = q ↔ q.toNat < 2 ^ 32 := by
  rw [← UInt64.toNat_inj, UInt32.toNat_toUInt64, UInt64.toNat_toUInt32]
  omega

/-- The bits of a truth value are all that it was read from, or there was more. -/
theorem bits_bool_eq_iff (q : UInt64) :
    (bool (q.toUInt32 != 0)).bits = q ↔ q.toNat = 0 ∨ q.toNat = 1 := by
  constructor
  · intro h
    rw [← h]
    cases q.toUInt32 != 0
    · exact Or.inl rfl
    · exact Or.inr rfl
  · rintro (h | h)
    · rw [show q = 0 from UInt64.toNat_inj.mp h]
      rfl
    · rw [show q = 1 from UInt64.toNat_inj.mp h]
      rfl

/-- Bits read under a tag are written back as they were exactly if the tag keeps them. -/
theorem bits_readAs_eq_iff {t : Tag} (ht : t ≠ .float64) (q : UInt64) :
    ((raw q).readAs t).bits = q ↔ t.Keeps q := by
  unfold readAs Tag.Keeps
  simp only
  split
  · rename_i hb
    subst hb
    rw [show (raw q).bits = q from rfl, bits_bool_eq_iff]
    constructor
    · intro h
      exact Or.inr ⟨rfl, by omega, fun _ => h⟩
    · rintro (h | ⟨-, -, h⟩)
      · cases h
      · exact h rfl
  · rename_i hb
    split
    · rename_i hc
      exact iff_of_true rfl (Or.inl hc)
    · rename_i hc
      show q.toUInt32.toInt32.toUInt32.toUInt64 = q ↔ _
      rw [UInt32.toUInt32_toInt32, toUInt64_toUInt32_eq_iff]
      simp [hb, hc, ht, Tag.isImmediate]

/-- What is written under a tag after it was read under it is read as before. -/
theorem readAs_readAs (t : Tag) (q : UInt64) :
    ((raw ((raw q).readAs t).bits).readAs t) = (raw q).readAs t := by
  unfold readAs
  simp only
  split
  · rename_i hb
    cases h : (raw q).bits.toUInt32 != 0 <;> rfl
  · split
    · rfl
    · show int32 q.toUInt32.toInt32.toUInt32.toUInt64.toUInt32.toInt32 = _
      rw [UInt32.toUInt32_toInt32, UInt32.toUInt32_toUInt64]
      rfl

theorem canonical_readAs (t : Tag) (q : UInt64) :
    ((raw q).readAs t).canonical = (raw q).readAs t := by
  unfold readAs
  simp only
  split
  · rfl
  · split <;> rfl

theorem fits_readAs (ℓ : Layout) {t : Tag} (ht : t ≠ .float64) {q : UInt64} (hq : ℓ.Fits q) :
    ℓ.Fits ((raw q).readAs t).bits := by
  refine Layout.fits_bits ht (takes_readAs ht q) fun v hv => ?_
  rw [Layout.overflows_iff, Classical.not_not]
  unfold readAs at hv
  simp only at hv
  split at hv
  · cases hv
  · split at hv <;> cases hv
    exact hq

end Payload

namespace Layout

/-- What a tag selects of a word is what it reads of the payload. -/
theorem select_eq_readAs (ℓ : Layout) (w : ℓ.Word) {t : Tag} (ht : t ≠ .float64) :
    ℓ.select t w = (Payload.raw (ℓ.payload w)).readAs t := by
  have hp := ℓ.fits_payload w
  have hw : ℓ.select t w = ℓ.select t (ℓ.assemble t (ℓ.payload w)) := by
    rw [select, select, bool, bool, ℓ.int32_eq_payload w, ℓ.int32_assemble t hp,
      ℓ.payload_assemble t hp, if_neg ht, if_neg ht]
  rw [hw, ℓ.select_assemble ht hp]

/-- A word that is no double is encoded again out of its payload, as the tag keeps it. -/
theorem encode_select (ℓ : Layout) {w : ℓ.Word} {t : Tag} (h : ℓ.tag? w = some t)
    (ht : t ≠ .float64) :
    ∃ w', ℓ.encode t (ℓ.select t w) = .ok w' ∧ ℓ.decode w' = some (t, ℓ.select t w) ∧
      (w' = w ↔ t.Keeps (ℓ.payload w) ∧ ℓ.TagAlone w t) := by
  have hfits := Payload.fits_readAs ℓ ht (ℓ.fits_payload w)
  rw [ℓ.select_eq_readAs w ht]
  refine ⟨_, encode_eq_assemble ht (Payload.takes_readAs ht _) hfits, ?_, ?_⟩
  · rw [ℓ.decode_assemble ht hfits, Payload.readAs_readAs]
  · rw [ℓ.assemble_eq_iff h ht hfits, Payload.bits_readAs_eq_iff ht]

end Layout

/-! ## Canonical words are the ones that are kept -/

namespace Wide

/-- A wide word can be canonical under its own tag only. -/
theorem canonical_iff {w : Wide} {t : Tag} (h : Layout.wide.tag? w = some t) :
    Canonical w ↔ CanonicalPayload w.payload t ∧ Layout.wide.TagAlone w t := by
  constructor
  · rintro ⟨u, hu, hp⟩
    have htag : w.tag = (Numbering.negative.number u).toInt64 := by
      rw [← Int64.toInt_inj, Int32.toInt_toInt64, hu]
    have hraw : rawTag w = Numbering.negative.number u := by
      rw [rawTag, htag, Int32.toInt32_toInt64]
    have hut : Layout.wide.tag? w = some u := (Layout.wide.tag?_eq_some_iff w u).mpr hraw
    rw [h] at hut
    cases hut
    exact ⟨hp, hu⟩
  · rintro ⟨hp, ha⟩
    exact ⟨t, ha, hp⟩

theorem canonicalPayload_iff_keeps {t : Tag} (ht : t ≠ .float64) (q : UInt64) :
    CanonicalPayload q t ↔ t.Keeps q := by
  constructor
  · rintro (hc | ⟨hi, hp, hb⟩ | _ | _)
    · exact Or.inl hc
    · exact Or.inr ⟨hi, by omega, hb⟩
    · exact absurd rfl ht
    · exact absurd rfl ht
  · rintro (hc | ⟨hi, hp, hb⟩)
    · exact .counted hc
    · exact .immediate hi (by omega) hb

theorem canonicalPayload_float64_iff (q : UInt64) :
    CanonicalPayload q .float64 ↔ (Double.mk q).isNaN = false ∨ Double.mk q = .canonicalNaN := by
  constructor
  · rintro (hc | ⟨hi, -, -⟩ | hn | hn)
    · cases hc
    · cases hi
    · exact Or.inl hn
    · exact Or.inr (congrArg Double.mk hn)
  · rintro (hn | hn)
    · exact .double hn
    · exact .nan (congrArg Double.bits hn)

theorem ofDouble_double_iff (w : Wide) :
    ofDouble (double w) = w ↔
      (double w).canonical = double w ∧
        w.tag.toInt = (Numbering.negative.number .float64).toInt := by
  obtain ⟨payload, tag⟩ := w
  rw [← Int32.toInt_toInt64, Int64.toInt_inj, ← Double.bits_inj]
  simp only [ofDouble, make, double, Wide.mk.injEq]
  exact and_congr_right fun _ => eq_comm

end Wide

namespace Boxed

theorem canonical_iff_keeps {w : UInt64} {t : Tag} (h : Layout.boxed.tag? w = some t)
    (ht : t ≠ .float64) : Canonical w ↔ t.Keeps (payload w) := by
  unfold Tag.Keeps
  rw [toNat_payload]
  constructor
  · rintro (⟨hu, hc⟩ | ⟨hu, hi, hb⟩ | ⟨hu, -⟩ | rfl)
    · cases h.symm.trans hu
      exact Or.inl hc
    · cases h.symm.trans hu
      exact Or.inr ⟨hi, by omega, hb⟩
    · cases h.symm.trans hu
      exact absurd rfl ht
    · cases h
      exact absurd rfl ht
  · rintro (hc | ⟨hi, -, hb⟩)
    · exact .counted h hc
    · exact .immediate h hi hb

theorem ofDouble_double_iff (w : UInt64) :
    ofDouble (double w) = w ↔ (double w).canonical = double w := by
  have hb : w + shift = (double w).bits := rfl
  rw [ofDouble, UInt64.sub_eq_iff_eq_add, hb, Double.bits_inj]

theorem double_eq_canonicalNaN_iff (w : UInt64) :
    double w = .canonicalNaN ↔ w = 0xFFFFFFF400000000 := by
  have hw : (0x7FF8000000000000 : UInt64) - shift = 0xFFFFFFF400000000 := by decide
  rw [double, Double.canonicalNaN, Double.mk.injEq, ← UInt64.eq_sub_iff_add_eq, hw]

theorem canonical_iff_ofDouble {w : UInt64} (h : Layout.boxed.tag? w = some .float64) :
    Canonical w ↔ ofDouble (double w) = w := by
  rw [ofDouble_double_iff, Double.canonical_eq_self_iff, double_eq_canonicalNaN_iff]
  constructor
  · rintro (⟨hu, hc⟩ | ⟨hu, hi, -⟩ | ⟨-, hn⟩ | hw)
    · cases h.symm.trans hu
      cases hc
    · cases h.symm.trans hu
      cases hi
    · exact Or.inl hn
    · exact Or.inr hw
  · rintro (hn | hw)
    · exact .double h hn
    · exact .nan hw

end Boxed

namespace Strict

theorem tag?_not_bits {d : Double} (hd : d.isFinite = true) :
    Layout.strict.tag? (~~~d.bits) = some .float64 := by
  rw [Layout.tag?_eq_some_iff]
  exact if_pos (threshold_lt_not hd)

theorem canonical_iff_keeps {w : UInt64} {t : Tag} (h : Layout.strict.tag? w = some t)
    (ht : t ≠ .float64) : Canonical w ↔ t.Keeps (payload w) := by
  unfold Tag.Keeps
  rw [toNat_payload]
  constructor
  · rintro (⟨hu, hc⟩ | ⟨hu, hi, hz, hb⟩ | ⟨d, hd, rfl⟩ | hs)
    · cases h.symm.trans hu
      exact Or.inl hc
    · cases h.symm.trans hu
      exact Or.inr ⟨hi, by omega, hb⟩
    · cases h.symm.trans (tag?_not_bits hd)
      exact absurd rfl ht
    · rcases hs with rfl | rfl | rfl <;> cases h <;> exact absurd rfl ht
  · rintro (hc | ⟨hi, hp, hb⟩)
    · exact .counted h hc
    · exact .immediate h hi (by omega) hb

theorem canonical_of_ofDouble {w : UInt64} {d : Double} (h : ofDouble d = w) : Canonical w := by
  subst h
  unfold ofDouble
  split
  · exact .special (Or.inl rfl)
  · split
    · rename_i hf
      exact .inverted d hf rfl
    · split
      · exact .special (Or.inr (Or.inl rfl))
      · exact .special (Or.inr (Or.inr rfl))

theorem ofDouble_of_finite {d : Double} (h : d.isFinite = true) : ofDouble d = ~~~d.bits := by
  rw [ofDouble, if_neg (by simp [Double.isNaN_of_isFinite h]), if_pos h]

theorem canonical_iff_ofDouble {w : UInt64} (h : Layout.strict.tag? w = some .float64) :
    Canonical w ↔ ofDouble (double w) = w := by
  constructor
  · rintro (⟨hu, hc⟩ | ⟨hu, hi, -, -⟩ | ⟨d, hd, rfl⟩ | hs)
    · cases h.symm.trans hu
      cases hc
    · cases h.symm.trans hu
      cases hi
    · rw [double, if_pos (threshold_lt_not hd), UInt64.not_not, ofDouble_of_finite hd]
    · rcases hs with rfl | rfl | rfl <;> decide
  · exact canonical_of_ofDouble

end Strict

namespace Layout

theorem canonical_iff_keeps (ℓ : Layout) {w : ℓ.Word} {t : Tag} (h : ℓ.tag? w = some t)
    (ht : t ≠ .float64) : ℓ.Canonical w ↔ t.Keeps (ℓ.payload w) ∧ ℓ.TagAlone w t := by
  cases ℓ with
  | wide => rw [← Wide.canonicalPayload_iff_keeps ht]; exact Wide.canonical_iff h
  | boxed => exact (Boxed.canonical_iff_keeps h ht).trans (and_iff_left trivial).symm
  | strict => exact (Strict.canonical_iff_keeps h ht).trans (and_iff_left trivial).symm

theorem canonical_iff_ofDouble (ℓ : Layout) {w : ℓ.Word} (h : ℓ.tag? w = some .float64) :
    ℓ.Canonical w ↔ ℓ.ofDouble (ℓ.double w) = w := by
  cases ℓ with
  | wide =>
    refine (Wide.canonical_iff h).trans (Iff.trans ?_ (Wide.ofDouble_double_iff w).symm)
    rw [Wide.canonicalPayload_float64_iff, ← Double.canonical_eq_self_iff]
    exact Iff.rfl
  | boxed => exact Boxed.canonical_iff_ofDouble h
  | strict => exact Strict.canonical_iff_ofDouble h

/-! ## The law -/

/-- Whoever built a word, the pair that it decodes to can be encoded. The new word decodes to
that pair, with one pattern for all NaNs, and it is the old word exactly if that was canonical. -/
theorem decode_writes_back (ℓ : Layout) {w : ℓ.Word} {t : Tag} {p : Payload}
    (h : ℓ.decode w = some (t, p)) :
    ∃ w', ℓ.encode t p = .ok w' ∧ ℓ.decode w' = some (t, p.canonical) ∧
      (w' = w ↔ ℓ.Canonical w) := by
  obtain ⟨htag, rfl⟩ := decode_eq_some_iff.mp h
  by_cases ht : t = .float64
  · subst ht
    refine ⟨ℓ.ofDouble (ℓ.double w), ?_, ?_, (ℓ.canonical_iff_ofDouble htag).symm⟩
    · rw [select, if_pos rfl, encode, if_pos rfl]
    · rw [ℓ.decode_ofDouble, select, if_pos rfl]
      rfl
  · obtain ⟨w', hw, hd, he⟩ := ℓ.encode_select htag ht
    refine ⟨w', hw, ?_, he.trans (ℓ.canonical_iff_keeps htag ht).symm⟩
    rw [hd, ℓ.select_eq_readAs w ht, Payload.canonical_readAs]

/-- A strict word over the threshold can be a NaN turned over. It is encoded again as the one
NaN word, so it does not come back. -/
theorem inverted_nan_writes_back :
    strict.decode (0x8000000000000000 : UInt64) = some (.float64, .float64 ⟨0x7FFFFFFFFFFFFFFF⟩) ∧
    ∃ w', strict.encode .float64 (.float64 ⟨0x7FFFFFFFFFFFFFFF⟩) = .ok w' ∧
      strict.decode w' = some (.float64, .float64 .canonicalNaN) ∧
      (w' = (0x8000000000000000 : UInt64) ↔ strict.Canonical (0x8000000000000000 : UInt64)) :=
  ⟨by decide, decode_writes_back strict (by decide)⟩

end Layout

end ScriptHost
