-- Units written as bytes when surrogates may stand alone among them. Such a surrogate has three
-- bytes of its own, and each of the three is a bad part when the bytes are read.
import ScriptHost.Proofs.Text.Utf16
import ScriptHost.Proofs.Text.WellFormed

namespace ScriptHost.Utf16

/-! ## Generalised UTF-8 -/

/-- The bytes of a piece. A surrogate that stands alone is written by its own number. -/
def Piece.bytes : Piece → List UInt8
  | whole c => String.utf8EncodeChar c
  | alone u _ => Utf8.bytesOf u.toNat

/-- Generalised UTF-8: a pair of surrogates has four bytes, one that stands alone has three. -/
def generalized (us : List UInt16) : List UInt8 := (pieces us).flatMap Piece.bytes

/-- The units with U+FFFD, some number of times over, for each surrogate that stands alone. -/
def mended (times : Nat) (us : List UInt16) : List UInt16 :=
  (marked us).flatMap fun x => if x.2 then List.replicate times 0xFFFD else [x.1]

/-- How many surrogates stand alone. -/
def aloneCount (us : List UInt16) : Nat := (marked us).countP Prod.snd

theorem length_mended (times : Nat) (us : List UInt16) :
    (mended (times + 1) us).length = us.length + times * aloneCount us := by
  have hus : us.length = (marked us).length := by
    calc us.length = ((marked us).map Prod.fst).length := by rw [marked, map_fst_markedAfter]
      _ = (marked us).length := List.length_map _
  rw [hus]
  unfold mended aloneCount
  induction marked us with
  | nil => rfl
  | cons x xs ih =>
    rw [List.flatMap_cons, List.length_append, ih, List.countP_cons, List.length_cons]
    cases x.2
    · simp
      omega
    · simp [Nat.mul_add]
      omega

/-! ## Reading them -/

/-- The second byte of a surrogate is past what may follow its first byte, and neither it nor the
third one can begin a character. -/
theorem charsFrom_alone {u : UInt16} (h : isSurrogate u = true) (rest : List UInt8) :
    Utf8.charsFrom none (Utf8.bytesOf u.toNat ++ rest) =
      none :: none :: none :: Utf8.charsFrom none rest := by
  rw [isSurrogate_iff] at h
  have h₀ := Utf8.toNat_byte (show u.toNat / 4096 % 16 + 224 < 256 by omega)
  have h₁ := Utf8.toNat_byte (show u.toNat / 64 % 64 + 128 < 256 by omega)
  have h₂ := Utf8.toNat_byte (show u.toNat % 64 + 128 < 256 by omega)
  rw [Utf8.bytesOf, if_neg (by omega), if_neg (by omega), if_pos (by omega)]
  generalize UInt8.ofNat (u.toNat / 4096 % 16 + 224) = b at *
  generalize UInt8.ofNat (u.toNat / 64 % 64 + 128) = b₁ at *
  generalize UInt8.ofNat (u.toNat % 64 + 128) = b₂ at *
  have hfirst : Utf8.first b = ([], some ⟨b.toNat - 0xE0, 2, 0x80, 0x9F⟩) := by
    rw [Utf8.first_three (by omega) (by omega), if_neg (by omega), if_pos (by omega)]
  have hbad₁ : Utf8.first b₁ = ([none], none) := Utf8.first_bad (by omega) (by omega)
  have hbad₂ : Utf8.first b₂ = ([none], none) := Utf8.first_bad (by omega) (by omega)
  have hnext : (Utf8.Begun.mk (b.toNat - 0xE0) 2 0x80 0x9F).next b₁ = ([none, none], none) := by
    have hpast : ¬ b₁ ≤ 0x9F := by
      simp only [UInt8.le_iff_toNat_le, UInt8.reduceToNat]
      omega
    simp [Utf8.Begun.next, hpast, hbad₁]
  simp [Utf8.charsFrom, Utf8.step, hfirst, hnext, hbad₂]

/-- What is read of a piece. -/
def Piece.read : Piece → List (Option Char)
  | whole c => [some c]
  | alone _ _ => List.replicate 3 none

theorem chars_generalized (us : List UInt16) :
    Utf8.chars (generalized us) = (pieces us).flatMap Piece.read := by
  unfold Utf8.chars generalized
  induction pieces us with
  | nil => rfl
  | cons p ps ih =>
    rw [List.flatMap_cons, List.flatMap_cons, ← ih]
    cases p with
    | whole c => exact Utf8.charsFrom_encodeChar c _
    | alone u hu => exact charsFrom_alone hu _

/-- What is read of a piece is, in units, the piece with its surrogate replaced. -/
theorem flatMap_read (p : Piece) :
    (p.read.map fun c => c.getD '\uFFFD').flatMap encodeChar =
      p.marks.flatMap fun x => if x.2 then List.replicate 3 0xFFFD else [x.1] := by
  cases p with
  | whole c => simp [Piece.read, Piece.marks, List.flatMap_map]
  | alone u hu => rfl

/-- The bytes are read as a text whose units have three U+FFFD for each surrogate that stood
alone. -/
theorem encode_decodeLossy_generalized (us : List UInt16) :
    encode (Utf8.decodeLossy (generalized us)) = mended 3 us := by
  rw [encode, Utf8.decodeLossy, String.toList_ofList, chars_generalized, mended, marked_eq]
  induction pieces us with
  | nil => rfl
  | cons p ps ih =>
    rw [List.flatMap_cons, List.flatMap_cons, List.map_append, List.flatMap_append,
      List.flatMap_append, ih, flatMap_read]

end ScriptHost.Utf16
