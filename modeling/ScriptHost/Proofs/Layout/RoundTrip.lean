-- Encoding and decoding. A tag and a payload either do not go together, or the
-- payload is too wide for the layout, or they make a word that reads back as the
-- pair they came from.
import ScriptHost.Proofs.Layout.Classes
import ScriptHost.Proofs.Layout.Fields

namespace ScriptHost

/-! ## What goes together, and what is read back -/

/-- A tag takes a payload: a double goes under the tag of doubles only, an address
under a counted tag, an integer or a truth value under an immediate one, and a raw
word under any tag but that of doubles. -/
def Tag.Takes (t : Tag) : Payload → Prop
  | .float64 _ => t = .float64
  | .pointer _ => t.isCounted = true
  | .int32 _ => t.isCounted = false ∧ t ≠ .float64
  | .bool _ => t.isCounted = false ∧ t ≠ .float64
  | .raw _ => t ≠ .float64

namespace Payload

/-- The bits that a payload puts into the payload field. -/
def bits : Payload → UInt64
  | int32 n => n.toUInt32.toUInt64
  | bool b => if b then 1 else 0
  | pointer a => a
  | float64 d => d.bits
  | raw w => w

/-- The address or the raw word of a payload, which may be too wide. -/
def wide? : Payload → Option UInt64
  | pointer a => some a
  | raw w => some w
  | _ => none

/-- What a payload reads back as under a tag. A double comes back with one pattern for
all NaNs. Other bits come back as the tag sees them: whole under a counted tag, and by
their lower half under an immediate one. -/
def readAs (t : Tag) : Payload → Payload
  | float64 d => float64 d.canonical
  | p =>
    if t = .bool then bool (p.bits.toUInt32 != 0)
    else if t.isCounted then pointer p.bits
    else int32 p.bits.toUInt32.toInt32

end Payload

/-- An address or a raw word that is too wide: the boxed layout has 32 bits for it and
the strict one 48. -/
def Layout.Overflows : Layout → UInt64 → Prop
  | wide, _ => False
  | boxed, v => 2 ^ 32 ≤ v.toNat
  | strict, v => 2 ^ 48 ≤ v.toNat

/-- The layouts that have too few bits for some payloads, with the bits that they have and the
name that an overflow gives. -/
inductive Layout.Narrow : Layout → Nat → String → Prop
  | boxed : Narrow .boxed 32 "nan-boxing"
  | strict : Narrow .strict 48 "strict-nan-boxing"

namespace Layout

/-! ## Words that are assembled -/

theorem overflows_iff (ℓ : Layout) (v : UInt64) : ℓ.Overflows v ↔ ¬ ℓ.Fits v := by
  cases ℓ with
  | wide => exact ⟨False.elim, fun h => h (fits_wide v)⟩
  | boxed => exact Nat.not_lt.symm
  | strict => exact Nat.not_lt.symm

theorem Overflows.narrow {ℓ : Layout} {v : UInt64} (h : ℓ.Overflows v) :
    ℓ.Narrow ℓ.payloadBits ℓ.name := by
  cases ℓ with
  | wide => exact h.elim
  | boxed => exact .boxed
  | strict => exact .strict

theorem carry_of_fits {ℓ : Layout} (t : Tag) {v : UInt64} (h : ℓ.Fits v) :
    ℓ.carry t v = .ok (ℓ.assemble t v) := if_pos h

theorem carry_of_overflows {ℓ : Layout} (t : Tag) {v : UInt64} (h : ℓ.Overflows v) :
    ℓ.carry t v = .error (.overflow v ℓ.payloadBits ℓ.name) :=
  if_neg ((ℓ.overflows_iff v).mp h)

theorem tag?_assemble (ℓ : Layout) (t : Tag) {p : UInt64} (h : ℓ.Fits p) :
    ℓ.tag? (ℓ.assemble t p) = some t := by
  rw [tag?_eq_some_iff, ℓ.tagNumber_assemble t h]

theorem tag?_ofDouble (ℓ : Layout) (d : Double) : ℓ.tag? (ℓ.ofDouble d) = some .float64 := by
  rw [tag?_eq_some_iff, ℓ.tagNumber_ofDouble d]

theorem tag?_immediate (ℓ : Layout) (t : Tag) (n : Int32) : ℓ.tag? (ℓ.immediate t n) = some t := by
  rw [immediate_eq_assemble, ℓ.tag?_assemble t (ℓ.fits_half _)]

/-- A bit of truth is half a word. -/
theorem bool_bits (b : Bool) :
    (if b then (1 : Int32) else 0).toUInt32.toUInt64 = (Payload.bool b).bits := by
  cases b <;> rfl

/-- A pair that goes together makes the word of its bits, unless it is too wide. -/
theorem encode_eq_assemble {ℓ : Layout} {t : Tag} {p : Payload} (ht : t ≠ .float64)
    (hp : t.Takes p) (hf : ℓ.Fits p.bits) : ℓ.encode t p = .ok (ℓ.assemble t p.bits) := by
  cases p with
  | float64 d => exact absurd hp ht
  | pointer a => exact (if_pos hp).trans (carry_of_fits t hf)
  | raw w => exact (if_neg ht).trans (carry_of_fits t hf)
  | int32 n =>
    have hi : t.isImmediate = true := by simp [Tag.isImmediate, hp.1, hp.2]
    rw [encode, if_pos hi, immediate_eq_assemble, Payload.bits]
  | bool b =>
    have hi : t.isImmediate = true := by simp [Tag.isImmediate, hp.1, hp.2]
    rw [encode, if_pos hi, immediate_eq_assemble, bool_bits]

/-- A pair that does not go together is turned down. -/
theorem encode_of_not_takes {ℓ : Layout} {t : Tag} {p : Payload} (hp : ¬ t.Takes p) :
    ℓ.encode t p = .error (.mismatch t p.kind) := by
  cases p with
  | float64 d => exact if_neg hp
  | pointer a => exact if_neg hp
  | raw w => exact if_pos (Classical.not_not.mp hp)
  | int32 n =>
    refine if_neg fun hi => hp ?_
    simpa [Tag.isImmediate, Tag.Takes] using hi
  | bool b =>
    refine if_neg fun hi => hp ?_
    simpa [Tag.isImmediate, Tag.Takes] using hi

/-- A wide pair that goes together does not fit. -/
theorem encode_of_overflows {ℓ : Layout} {t : Tag} {p : Payload} {v : UInt64}
    (hp : t.Takes p) (hv : p.wide? = some v) (ho : ℓ.Overflows v) :
    ℓ.encode t p = .error (.overflow v ℓ.payloadBits ℓ.name) := by
  cases p with
  | pointer a =>
    cases hv
    exact (if_pos hp).trans (carry_of_overflows t ho)
  | raw w =>
    cases hv
    exact (if_neg hp).trans (carry_of_overflows t ho)
  | float64 d => cases hv
  | int32 n => cases hv
  | bool b => cases hv

theorem fits_bits {ℓ : Layout} {t : Tag} {p : Payload} (ht : t ≠ .float64) (hp : t.Takes p)
    (h : ∀ v, p.wide? = some v → ¬ ℓ.Overflows v) : ℓ.Fits p.bits := by
  cases p with
  | float64 d => exact absurd hp ht
  | pointer a => exact Classical.not_not.mp fun hf => h a rfl ((ℓ.overflows_iff a).mpr hf)
  | raw w => exact Classical.not_not.mp fun hf => h w rfl ((ℓ.overflows_iff w).mpr hf)
  | int32 n => exact ℓ.fits_half _
  | bool b => rw [← bool_bits]; exact ℓ.fits_half _

theorem select_assemble (ℓ : Layout) {t : Tag} (ht : t ≠ .float64) {p : UInt64} (h : ℓ.Fits p) :
    ℓ.select t (ℓ.assemble t p) = (Payload.raw p).readAs t := by
  rw [select, if_neg ht, bool, ℓ.int32_assemble t h, ℓ.payload_assemble t h]
  have hz : (p.toUInt32.toInt32 != 0) = (p.toUInt32 != 0) := by
    rw [Bool.eq_iff_iff, bne_iff_ne, bne_iff_ne]
    exact not_congr ⟨fun hz => congrArg Int32.toUInt32 hz, fun hz => congrArg UInt32.toInt32 hz⟩
  rw [hz]
  rfl

theorem decode_assemble (ℓ : Layout) {t : Tag} (ht : t ≠ .float64) {p : UInt64} (h : ℓ.Fits p) :
    ℓ.decode (ℓ.assemble t p) = some (t, (Payload.raw p).readAs t) := by
  rw [decode, ℓ.tag?_assemble t h, Option.map_some, ℓ.select_assemble ht h]

theorem decode_ofDouble (ℓ : Layout) (d : Double) :
    ℓ.decode (ℓ.ofDouble d) = some (.float64, .float64 d.canonical) := by
  rw [decode, ℓ.tag?_ofDouble d, Option.map_some, select, if_pos rfl, ℓ.double_ofDouble d]

/-- A pair that goes together and is not too wide makes a word that reads back as it. -/
theorem encode_of_fits {ℓ : Layout} {t : Tag} {p : Payload} (hp : t.Takes p)
    (h : ∀ v, p.wide? = some v → ¬ ℓ.Overflows v) :
    ∃ w, ℓ.encode t p = .ok w ∧ ℓ.decode w = some (t, p.readAs t) := by
  by_cases ht : t = .float64
  · subst ht
    cases p with
    | float64 d =>
      refine ⟨ℓ.ofDouble d, ?_, ℓ.decode_ofDouble d⟩
      rw [encode, if_pos rfl]
    | pointer a => exact absurd (show Tag.isCounted .float64 = true from hp) (by decide)
    | raw w => exact absurd rfl hp
    | int32 n => exact absurd rfl hp.2
    | bool b => exact absurd rfl hp.2
  · have hf := fits_bits ht hp h
    refine ⟨_, encode_eq_assemble ht hp hf, ?_⟩
    rw [ℓ.decode_assemble ht hf]
    cases p with
    | float64 d => exact absurd hp ht
    | pointer a => rfl
    | raw w => rfl
    | int32 n => rfl
    | bool b => rfl

theorem tag?_of_decode {ℓ : Layout} {w : ℓ.Word} {t : Tag} {p : Payload}
    (h : ℓ.decode w = some (t, p)) : ℓ.tag? w = some t := by
  rw [decode, Option.map_eq_some_iff] at h
  obtain ⟨u, hu, he⟩ := h
  rw [hu, (Prod.mk.inj he).1]

/-! ## The law -/

/-- What comes of a tag and a payload, in every layout. They are turned down exactly when
the tag does not take the payload. They overflow exactly when it does and the address or
raw word is too wide. Otherwise they make a word that reads back as the pair, and the
classifiers of the word go by the tag. -/
theorem encode_reads_back (ℓ : Layout) (t : Tag) (p : Payload) :
    match ℓ.encode t p with
    | .error (.mismatch tag kind) => ¬ t.Takes p ∧ tag = t ∧ kind = p.kind
    | .error (.overflow value bits layout) =>
      t.Takes p ∧ p.wide? = some value ∧ ℓ.Overflows value ∧ bits = ℓ.payloadBits ∧
        layout = ℓ.name ∧ ℓ.Narrow bits layout
    | .ok w =>
      t.Takes p ∧ (∀ v, p.wide? = some v → ¬ ℓ.Overflows v) ∧
        ℓ.decode w = some (t, p.readAs t) ∧ ℓ.tag? w = some t ∧ ℓ.isCounted w = t.isCounted ∧
        (ℓ.isException w = true ↔ t = .exception) ∧ (ℓ.isFloat w = true ↔ t = .float64) := by
  by_cases hp : t.Takes p
  · by_cases hv : ∃ v, p.wide? = some v ∧ ℓ.Overflows v
    · obtain ⟨v, hv, ho⟩ := hv
      rw [encode_of_overflows hp hv ho]
      exact ⟨hp, hv, ho, rfl, rfl, ho.narrow⟩
    · have hfit : ∀ v, p.wide? = some v → ¬ ℓ.Overflows v := fun v h ho => hv ⟨v, h, ho⟩
      obtain ⟨w, hw, hd⟩ := encode_of_fits hp hfit
      have htag := tag?_of_decode hd
      rw [hw]
      refine ⟨hp, hfit, hd, htag, ℓ.isCounted_of_tag? htag, ?_, ?_⟩
      · rw [isException_iff, htag, Option.some_inj]
      · rw [isFloat_iff, htag, Option.some_inj]
  · rw [encode_of_not_takes hp]
    exact ⟨hp, rfl, rfl⟩

end Layout

end ScriptHost
