-- What each layout reads out of the words that it builds. Words are taken apart
-- as numbers: a tag number above a payload, or a double moved out of the way of
-- the tags.
import Mathlib.Algebra.Group.Int.Defs
import Mathlib.Algebra.Group.Nat.Defs
import ScriptHost.Layout.Codec

namespace ScriptHost

/-! ## Patterns as numbers -/

namespace Double

theorem toNat_magnitude (d : Double) : d.magnitude.toNat = d.bits.toNat % 2 ^ 63 := by
  rw [magnitude, UInt64.toNat_and]
  exact Nat.and_two_pow_sub_one_eq_mod d.bits.toNat 63

theorem isNaN_iff (d : Double) : d.isNaN = true ↔ 0x7FF0000000000000 < d.bits.toNat % 2 ^ 63 := by
  rw [isNaN, decide_eq_true_iff, UInt64.lt_iff_toNat_lt, toNat_magnitude]
  rfl

theorem isFinite_iff (d : Double) :
    d.isFinite = true ↔ d.bits.toNat % 2 ^ 63 < 0x7FF0000000000000 := by
  rw [isFinite, decide_eq_true_iff, UInt64.lt_iff_toNat_lt, toNat_magnitude]
  rfl

theorem isNaN_of_isFinite {d : Double} (h : d.isFinite = true) : d.isNaN = false := by
  rw [isFinite_iff] at h
  rw [← Bool.not_eq_true, isNaN_iff]
  omega

theorem isNegative_iff (d : Double) : d.isNegative = true ↔ 2 ^ 63 ≤ d.bits.toNat := by
  rw [isNegative, decide_eq_true_iff, UInt64.le_iff_toNat_le]
  rfl

theorem eq_of_bits {a b : Double} (h : a.bits.toNat = b.bits.toNat) : a = b := by
  cases a; cases b
  exact congrArg Double.mk (UInt64.toNat_inj.mp h)

/-- A canonical pattern is the canonical NaN or no NaN at all. -/
theorem canonical_bits (d : Double) :
    d.canonical.bits.toNat = 0x7FF8000000000000 ∨
      d.canonical.bits.toNat % 2 ^ 63 ≤ 0x7FF0000000000000 := by
  unfold canonical
  split
  · exact Or.inl rfl
  · rename_i h
    rw [isNaN_iff] at h
    exact Or.inr (by omega)

end Double

/-! ## Halves of words -/

theorem toInt_toInt32 (n : UInt32) :
    n.toInt32.toInt = if n.toNat < 2 ^ 31 then (n.toNat : Int) else n.toNat - 2 ^ 32 := by
  show n.toBitVec.toInt = _
  rw [BitVec.toInt_eq_toNat_cond]
  show (if 2 * n.toNat < 2 ^ 32 then (n.toNat : Int) else n.toNat - 2 ^ 32) = _
  split <;> split <;> omega

/-! ## The boxed layout -/

namespace Boxed

theorem toNat_make (t : Tag) (p : UInt32) :
    (make t p).toNat = (Numbering.negative.number t).toUInt32.toNat * 2 ^ 32 + p.toNat := by
  have h := UInt32.toNat_lt (Numbering.negative.number t).toUInt32
  have hp := p.toNat_lt
  rw [make, UInt64.toNat_or, UInt64.toNat_shiftLeft, UInt32.toNat_toUInt64, UInt32.toNat_toUInt64,
    show (32 : UInt64).toNat % 64 = 32 from rfl,
    Nat.mod_eq_of_lt (by rw [Nat.shiftLeft_eq]; omega), ← Nat.shiftLeft_add_eq_or_of_lt hp,
    Nat.shiftLeft_eq]

theorem toNat_upper (w : UInt64) : (w >>> 32).toUInt32.toNat = w.toNat / 2 ^ 32 := by
  have := w.toNat_lt
  rw [UInt64.toNat_toUInt32, UInt64.toNat_shiftRight, show (32 : UInt64).toNat % 64 = 32 from rfl,
    Nat.shiftRight_eq_div_pow]
  omega

theorem rawTag_make (t : Tag) (p : UInt32) : rawTag (make t p) = Numbering.negative.number t := by
  have hp := p.toNat_lt
  have hu : (make t p >>> 32).toUInt32 = (Numbering.negative.number t).toUInt32 := by
    apply UInt32.toNat_inj.mp
    rw [toNat_upper, toNat_make]
    omega
  rw [rawTag, hu, Int32.toInt32_toUInt32]

theorem tagNumber_make (t : Tag) (p : UInt32) :
    tagNumber (make t p) = Numbering.negative.number t := by
  rw [tagNumber, rawTag_make]
  cases t <;> decide

theorem int32_make (t : Tag) (p : UInt32) : int32 (make t p) = p.toInt32 := by
  have hp := p.toNat_lt
  have hl : (make t p).toUInt32 = p := by
    apply UInt32.toNat_inj.mp
    rw [UInt64.toNat_toUInt32, toNat_make]
    omega
  rw [int32, hl]

theorem payload_make (t : Tag) (p : UInt32) : payload (make t p) = p.toUInt64 := by
  have hp := p.toNat_lt
  apply UInt64.toNat_inj.mp
  rw [payload, UInt64.toNat_and, toNat_make, UInt32.toNat_toUInt64]
  show _ &&& (2 ^ 32 - 1) = _
  rw [Nat.and_two_pow_sub_one_eq_mod]
  omega

/-- The upper half of a double's word lies outside the numbers of the tags. -/
theorem rawTag_ofDouble (d : Double) :
    (rawTag (ofDouble d)).toInt < -11 ∨ 7 ≤ (rawTag (ofDouble d)).toInt := by
  have hb := d.canonical.bits.toNat_lt
  have hn : (ofDouble d).toNat =
      (2 ^ 64 - 0x7FF8000C00000000 + d.canonical.bits.toNat) % 2 ^ 64 := by
    rw [ofDouble, UInt64.toNat_sub]
    rfl
  rw [rawTag, toInt_toInt32, toNat_upper, hn]
  rcases d.canonical_bits with h | h
  · rw [h]
    decide
  · split <;> omega

theorem isFloatTag_ofDouble (d : Double) : isFloatTag (rawTag (ofDouble d)) = true := by
  rw [isFloatTag, Bool.not_eq_true', Bool.and_eq_false_iff, decide_eq_false_iff_not,
    decide_eq_false_iff_not, Int32.le_iff_toInt_le, Int32.lt_iff_toInt_lt]
  rw [show Numbering.lowest.toInt = -11 from rfl, show (7 : Int32).toInt = 7 from rfl]
  have := rawTag_ofDouble d
  omega

theorem double_ofDouble (d : Double) : double (ofDouble d) = d.canonical := by
  rw [double, ofDouble, UInt64.sub_add_cancel]

end Boxed

/-! ## The strict layout -/

namespace Strict

theorem toNat_number (t : Tag) : (Numbering.strict.number t).toUInt32.toNat < 16 := by
  cases t <;> decide

theorem toNat_make (t : Tag) {p : UInt64} (hp : p.toNat < 2 ^ 48) :
    (make t p).toNat = (Numbering.strict.number t).toUInt32.toNat * 2 ^ 48 + p.toNat := by
  have h := toNat_number t
  rw [make, UInt64.toNat_or, UInt64.toNat_shiftLeft, UInt32.toNat_toUInt64,
    show (48 : UInt64).toNat % 64 = 48 from rfl,
    Nat.mod_eq_of_lt (by rw [Nat.shiftLeft_eq]; omega), ← Nat.shiftLeft_add_eq_or_of_lt hp,
    Nat.shiftLeft_eq]

theorem threshold_lt_iff (w : UInt64) : threshold < w ↔ 2 ^ 52 ≤ w.toNat := by
  rw [UInt64.lt_iff_toNat_lt]
  exact Iff.rfl

theorem toNat_upper (w : UInt64) : (w >>> 48).toUInt32.toNat = w.toNat / 2 ^ 48 := by
  have := w.toNat_lt
  rw [UInt64.toNat_toUInt32, UInt64.toNat_shiftRight, show (48 : UInt64).toNat % 64 = 48 from rfl,
    Nat.shiftRight_eq_div_pow]
  omega

theorem rawTag_make (t : Tag) {p : UInt64} (hp : p.toNat < 2 ^ 48) :
    rawTag (make t p) = Numbering.strict.number t := by
  have h := toNat_number t
  have hu : (make t p >>> 48).toUInt32 = (Numbering.strict.number t).toUInt32 := by
    apply UInt32.toNat_inj.mp
    rw [toNat_upper, toNat_make t hp]
    omega
  have hl : ¬ threshold < make t p := by
    rw [threshold_lt_iff, toNat_make t hp]
    omega
  rw [rawTag, if_neg hl, hu, Int32.toInt32_toUInt32]

theorem int32_make (t : Tag) {p : UInt64} (hp : p.toNat < 2 ^ 48) :
    int32 (make t p) = p.toUInt32.toInt32 := by
  have hl : (make t p).toUInt32 = p.toUInt32 := by
    apply UInt32.toNat_inj.mp
    rw [UInt64.toNat_toUInt32, UInt64.toNat_toUInt32, toNat_make t hp]
    omega
  rw [int32, hl]

theorem payload_make (t : Tag) {p : UInt64} (hp : p.toNat < 2 ^ 48) : payload (make t p) = p := by
  apply UInt64.toNat_inj.mp
  rw [payload, UInt64.toNat_and, toNat_make t hp]
  show _ &&& (2 ^ 48 - 1) = _
  rw [Nat.and_two_pow_sub_one_eq_mod]
  omega

/-- A finite double turned over lies above the threshold. -/
theorem threshold_lt_not {d : Double} (h : d.isFinite = true) : threshold < ~~~d.bits := by
  have hb := d.bits.toNat_lt
  rw [Double.isFinite_iff] at h
  rw [threshold_lt_iff, UInt64.toNat_not]
  show 2 ^ 52 ≤ 2 ^ 64 - 1 - d.bits.toNat
  omega

theorem rawTag_ofDouble (d : Double) : rawTag (ofDouble d) = 7 := by
  unfold ofDouble
  split
  · decide
  · split
    · rename_i h
      rw [rawTag, if_pos (threshold_lt_not h)]
    · split <;> decide

theorem double_ofDouble (d : Double) : double (ofDouble d) = d.canonical := by
  unfold ofDouble Double.canonical
  split
  · decide
  · rename_i hn
    split
    · rename_i hf
      rw [double, if_pos (threshold_lt_not hf), UInt64.not_not]
    · rename_i hf
      rw [Double.isNaN_iff] at hn
      rw [Double.isFinite_iff] at hf
      have hb := d.bits.toNat_lt
      split
      · rename_i hs
        rw [Double.isNegative_iff] at hs
        rw [show double negInfinity = Double.negInfinity from by decide]
        apply Double.eq_of_bits
        show 0xFFF0000000000000 = d.bits.toNat
        omega
      · rename_i hs
        rw [Double.isNegative_iff] at hs
        rw [show double infinity = Double.infinity from by decide]
        apply Double.eq_of_bits
        show 0x7FF0000000000000 = d.bits.toNat
        omega

end Strict

/-! ## The wide layout -/

namespace Wide

theorem rawTag_make (t : Tag) (p : UInt64) : rawTag (make t p) = Numbering.negative.number t :=
  Int32.toInt32_toInt64 _

theorem double_ofDouble (d : Double) : double (ofDouble d) = d.canonical := rfl

end Wide

/-! ## All layouts at once -/

namespace Layout

/-- A payload that is not too wide for the payload field. -/
def Fits (ℓ : Layout) (p : UInt64) : Prop := p.toNat < powTwo ℓ.payloadBits

theorem fits_wide (p : UInt64) : Fits wide p := p.toNat_lt

/-- Half a word fits everywhere. -/
theorem fits_half (ℓ : Layout) (n : UInt32) : ℓ.Fits n.toUInt64 := by
  have hn := n.toNat_lt
  unfold Fits
  rw [UInt32.toNat_toUInt64]
  cases ℓ with
  | wide => show n.toNat < 2 ^ 64; omega
  | boxed => exact hn
  | strict => show n.toNat < 2 ^ 48; omega

theorem immediate_eq_assemble (ℓ : Layout) (t : Tag) (n : Int32) :
    ℓ.immediate t n = ℓ.assemble t n.toUInt32.toUInt64 := by
  cases ℓ with
  | wide => rfl
  | boxed =>
    show Boxed.make t n.toUInt32 = Boxed.make t n.toUInt32.toUInt64.toUInt32
    rw [UInt32.toUInt32_toUInt64]
  | strict => rfl

theorem tagNumber_assemble (ℓ : Layout) (t : Tag) {p : UInt64} (h : ℓ.Fits p) :
    ℓ.tagNumber (ℓ.assemble t p) = ℓ.numbering.number t := by
  cases ℓ with
  | wide => exact Wide.rawTag_make t p
  | boxed => exact Boxed.tagNumber_make t p.toUInt32
  | strict => exact Strict.rawTag_make t h

theorem int32_assemble (ℓ : Layout) (t : Tag) {p : UInt64} (h : ℓ.Fits p) :
    ℓ.int32 (ℓ.assemble t p) = p.toUInt32.toInt32 := by
  cases ℓ with
  | wide => rfl
  | boxed => exact Boxed.int32_make t p.toUInt32
  | strict => exact Strict.int32_make t h

theorem payload_assemble (ℓ : Layout) (t : Tag) {p : UInt64} (h : ℓ.Fits p) :
    ℓ.payload (ℓ.assemble t p) = p := by
  cases ℓ with
  | wide => rfl
  | boxed =>
    show Boxed.payload (Boxed.make t p.toUInt32) = p
    rw [Boxed.payload_make]
    apply UInt64.toNat_inj.mp
    rw [UInt32.toNat_toUInt64, UInt64.toNat_toUInt32]
    exact Nat.mod_eq_of_lt h
  | strict => exact Strict.payload_make t h

theorem tagNumber_ofDouble (ℓ : Layout) (d : Double) :
    ℓ.tagNumber (ℓ.ofDouble d) = ℓ.numbering.number .float64 := by
  cases ℓ with
  | wide => exact Wide.rawTag_make .float64 d.canonical.bits
  | boxed =>
    show Boxed.tagNumber (Boxed.ofDouble d) = 7
    rw [Boxed.tagNumber, if_pos (Boxed.isFloatTag_ofDouble d)]
  | strict => exact Strict.rawTag_ofDouble d

theorem double_ofDouble (ℓ : Layout) (d : Double) : ℓ.double (ℓ.ofDouble d) = d.canonical := by
  cases ℓ with
  | wide => exact Wide.double_ofDouble d
  | boxed => exact Boxed.double_ofDouble d
  | strict => exact Strict.double_ofDouble d

end Layout

end ScriptHost
