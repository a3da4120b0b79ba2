-- Code units taken apart into characters and surrogates that stand alone. Every unit is in one
-- of the pieces, and the units are read as a text exactly when no surrogate stands alone.
import ScriptHost.Text.Utf16

namespace ScriptHost.Utf16

/-! ## Surrogates that stand alone -/

/-- Whether a unit is a surrogate without its partner, which would stand right after a high one
and right before a low one. -/
def standsAlone (before : Option UInt16) (u : UInt16) (after : Option UInt16) : Bool :=
  isHigh u && !after.any isLow || isLow u && !before.any isHigh

/-- Each unit with whether it stands alone, where another unit may stand before them all. -/
def markedAfter : Option UInt16 → List UInt16 → List (UInt16 × Bool)
  | _, [] => []
  | before, u :: us => (u, standsAlone before u us.head?) :: markedAfter (some u) us

def marked (us : List UInt16) : List (UInt16 × Bool) := markedAfter none us

/-- Units among which no surrogate stands alone. -/
def Paired (us : List UInt16) : Prop := ∀ x ∈ marked us, x.2 = false

instance (us : List UInt16) : Decidable (Paired us) :=
  List.decidableBAll (fun x : UInt16 × Bool => x.2 = false) (marked us)

theorem map_fst_markedAfter (before : Option UInt16) (us : List UInt16) :
    (markedAfter before us).map Prod.fst = us := by
  induction us generalizing before with
  | nil => rfl
  | cons u us ih => rw [markedAfter, List.map_cons, ih]

/-! ## Pieces -/

/-- A character, of one unit or of a pair of them, or a surrogate that stands alone. -/
inductive Piece
  | whole (c : Char)
  | alone (u : UInt16) (surrogate : isSurrogate u = true)

/-- The piece of a unit that is no part of a pair. -/
def Piece.ofUnit (u : UInt16) : Piece :=
  if h : isSurrogate u = true then alone u h else whole (Char.ofNat u.toNat)

def pieces : List UInt16 → List Piece
  | [] => []
  | [u] => [.ofUnit u]
  | u :: v :: us =>
    if isHigh u && isLow v then .whole (joined u v) :: pieces us else .ofUnit u :: pieces (v :: us)

namespace Piece

/-- The units of a piece, each with whether it stands alone. -/
def marks : Piece → List (UInt16 × Bool)
  | whole c => (encodeChar c).map fun u => (u, false)
  | alone u _ => [(u, true)]

end Piece

/-! ## Single characters -/

theorem isHigh_iff (u : UInt16) : isHigh u = true ↔ 0xD800 ≤ u.toNat ∧ u.toNat < 0xDC00 := by
  simp [isHigh, UInt16.le_iff_toNat_le, UInt16.lt_iff_toNat_lt]

theorem isLow_iff (u : UInt16) : isLow u = true ↔ 0xDC00 ≤ u.toNat ∧ u.toNat < 0xE000 := by
  simp [isLow, UInt16.le_iff_toNat_le, UInt16.lt_iff_toNat_lt]

theorem isSurrogate_iff (u : UInt16) :
    isSurrogate u = true ↔ 0xD800 ≤ u.toNat ∧ u.toNat < 0xE000 := by
  rw [isSurrogate, Bool.or_eq_true, isHigh_iff, isLow_iff]
  omega

theorem toNat_ofNat {n : Nat} (h : n.isValidChar) : (Char.ofNat n).toNat = n := by
  rw [Char.ofNat, dif_pos h]
  rfl

/-- A unit that is no surrogate is the only unit of its character. -/
theorem encodeChar_unit {u : UInt16} (h : isSurrogate u = false) :
    encodeChar (Char.ofNat u.toNat) = [u] := by
  have hs : ¬ (0xD800 ≤ u.toNat ∧ u.toNat < 0xE000) := by
    rw [← isSurrogate_iff, h]
    decide
  have hu := u.toNat_lt
  have hn : (Char.ofNat u.toNat).toNat = u.toNat :=
    toNat_ofNat (show u.toNat < 0xD800 ∨ 0xDFFF < u.toNat ∧ u.toNat < 0x110000 by omega)
  simp only [encodeChar, hn]
  rw [if_pos (by omega), UInt16.ofNat_toNat]

theorem encodeChar_joined {u v : UInt16} (hu : isHigh u = true) (hv : isLow v = true) :
    encodeChar (joined u v) = [u, v] := by
  rw [isHigh_iff] at hu
  rw [isLow_iff] at hv
  have hn : (joined u v).toNat = 0x10000 + (u.toNat - 0xD800) * 0x400 + (v.toNat - 0xDC00) :=
    toNat_ofNat (Or.inr (by omega))
  have hhi : 0xD800 + ((joined u v).toNat - 0x10000) / 0x400 = u.toNat := by omega
  have hlo : 0xDC00 + ((joined u v).toNat - 0x10000) % 0x400 = v.toNat := by omega
  simp only [encodeChar, hhi, hlo]
  rw [if_neg (by omega), UInt16.ofNat_toNat, UInt16.ofNat_toNat]

/-! ## Units and their pieces -/

theorem not_isHigh_of_isLow {u : UInt16} (h : isLow u = true) : isHigh u = false := by
  rw [isLow_iff] at h
  rw [← Bool.not_eq_true, isHigh_iff]
  omega

theorem pieces_cons {u : UInt16} {us : List UInt16}
    (h : isHigh u = true → us.head?.any isLow = false) :
    pieces (u :: us) = .ofUnit u :: pieces us := by
  cases us with
  | nil => rfl
  | cons v us =>
    rw [pieces, if_neg]
    rw [Bool.and_eq_true, not_and, Bool.not_eq_true]
    exact h

theorem pieces_pair {u v : UInt16} (hu : isHigh u = true) (hv : isLow v = true)
    (us : List UInt16) : pieces (u :: v :: us) = .whole (joined u v) :: pieces us := by
  rw [pieces, hu, hv]
  rfl

/-- The mark of a unit that is no part of a pair. -/
theorem marks_ofUnit (before : Option UInt16) (u : UInt16) (after : Option UInt16)
    (hb : isLow u = true → before.any isHigh = false)
    (ha : isHigh u = true → after.any isLow = false) :
    (Piece.ofUnit u).marks = [(u, standsAlone before u after)] := by
  unfold Piece.ofUnit
  split
  · rename_i hs
    rw [isSurrogate, Bool.or_eq_true] at hs
    rcases hs with hu | hu
    · simp [Piece.marks, standsAlone, hu, ha hu]
    · simp [Piece.marks, standsAlone, hu, hb hu]
  · rename_i hs
    rw [Bool.not_eq_true] at hs
    have hu := hs
    rw [isSurrogate, Bool.or_eq_false_iff] at hu
    simp [Piece.marks, encodeChar_unit hs, standsAlone, hu]

/-- The units of the pieces, in order, are the units with their marks. What stands before them
must not form a pair with the first of them. -/
theorem markedAfter_eq (before : Option UInt16) (us : List UInt16)
    (hb : us.head?.any isLow = true → before.any isHigh = false) :
    markedAfter before us = (pieces us).flatMap Piece.marks := by
  fun_induction pieces us generalizing before with
  | case1 => rfl
  | case2 u =>
    rw [List.flatMap_singleton, marks_ofUnit before u none hb fun _ => rfl]
    rfl
  | case3 u v us hp ih =>
    -- A low surrogate is never high, so what follows the pair is free to begin with any unit.
    rw [Bool.and_eq_true] at hp
    obtain ⟨hu, hv⟩ := hp
    have hv' := not_isHigh_of_isLow hv
    have hu' : isLow u = false := by
      rw [← Bool.not_eq_true]
      intro hl
      simp [not_isHigh_of_isLow hl] at hu
    rw [List.flatMap_cons, ← ih (some v) fun _ => hv']
    simp [markedAfter, standsAlone, Piece.marks, encodeChar_joined hu hv, hu, hu', hv, hv']
  | case4 u v us hp ih =>
    -- The first unit forms no pair with the second, so it may stand before the rest.
    rw [Bool.and_eq_true, not_and, Bool.not_eq_true] at hp
    have hnext : (v :: us).head?.any isLow = true → (some u).any isHigh = false := by
      intro hv
      rw [← Bool.not_eq_true]
      intro hu
      exact Bool.false_ne_true ((hp hu).symm.trans hv)
    rw [List.flatMap_cons, marks_ofUnit before u (some v) hb hp, ← ih (some u) hnext]
    rfl

theorem marked_eq (us : List UInt16) : marked us = (pieces us).flatMap Piece.marks :=
  markedAfter_eq none us fun _ => rfl

theorem paired_iff (us : List UInt16) : Paired us ↔ ∀ u h, Piece.alone u h ∉ pieces us := by
  simp only [Paired, marked_eq, List.mem_flatMap]
  constructor
  · intro h u _ hu
    have hx := h (u, true) ⟨_, hu, List.mem_singleton_self _⟩
    cases hx
  · rintro h x ⟨p, hp, hx⟩
    cases p with
    | alone u hu => exact absurd hp (h u hu)
    | whole c =>
      obtain ⟨u, -, rfl⟩ := List.mem_map.mp hx
      rfl

/-! ## Reading -/

/-- The units of a character are one piece. -/
theorem pieces_encodeChar (c : Char) (us : List UInt16) :
    pieces (encodeChar c ++ us) = .whole c :: pieces us := by
  have hvalid : c.toNat < 0xD800 ∨ 0xDFFF < c.toNat ∧ c.toNat < 0x110000 := c.valid
  by_cases hc : c.toNat < 0x10000
  · have hu : (UInt16.ofNat c.toNat).toNat = c.toNat := UInt16.toNat_ofNat_of_lt' hc
    have hs : isSurrogate (UInt16.ofNat c.toNat) = false := by
      rw [← Bool.not_eq_true, isSurrogate_iff, hu]
      omega
    have hhigh : isHigh (UInt16.ofNat c.toNat) = false := by
      rw [isSurrogate, Bool.or_eq_false_iff] at hs
      exact hs.1
    have henc : encodeChar c = [UInt16.ofNat c.toNat] := by simp only [encodeChar, if_pos hc]
    rw [henc, List.singleton_append, pieces_cons (by simp [hhigh]), Piece.ofUnit,
      dif_neg (by simp [hs]), hu, Char.ofNat_toNat]
  · have hhi := UInt16.toNat_ofNat_of_lt'
      (show 0xD800 + (c.toNat - 0x10000) / 0x400 < 2 ^ 16 by omega)
    have hlo := UInt16.toNat_ofNat_of_lt'
      (show 0xDC00 + (c.toNat - 0x10000) % 0x400 < 2 ^ 16 by omega)
    have henc : encodeChar c = [UInt16.ofNat (0xD800 + (c.toNat - 0x10000) / 0x400),
        UInt16.ofNat (0xDC00 + (c.toNat - 0x10000) % 0x400)] := by
      simp only [encodeChar, if_neg hc]
    rw [henc]
    generalize UInt16.ofNat (0xD800 + (c.toNat - 0x10000) / 0x400) = u at *
    generalize UInt16.ofNat (0xDC00 + (c.toNat - 0x10000) % 0x400) = v at *
    have hjoined : joined u v = c := by
      rw [joined, show 0x10000 + (u.toNat - 0xD800) * 0x400 + (v.toNat - 0xDC00) = c.toNat by omega,
        Char.ofNat_toNat]
    have hu : isHigh u = true := by
      rw [isHigh_iff]
      omega
    have hv : isLow v = true := by
      rw [isLow_iff]
      omega
    rw [← hjoined]
    exact pieces_pair hu hv us

theorem pieces_encode (s : String) : pieces (encode s) = s.toList.map .whole := by
  unfold encode
  induction s.toList with
  | nil => rfl
  | cons c cs ih => rw [List.flatMap_cons, pieces_encodeChar, ih, List.map_cons]

/-- Units are read if all their pieces are characters, and not if one of them stands alone. -/
theorem chars?_of_pieces (us : List UInt16) :
    (∃ cs, chars? us = some cs ∧ pieces us = cs.map .whole) ∨
      chars? us = none ∧ ∃ u h, .alone u h ∈ pieces us := by
  fun_induction chars? us with
  | case1 => exact Or.inl ⟨[], rfl, rfl⟩
  | case2 u _ v us hp ih =>
    rw [Bool.and_eq_true] at hp
    rw [pieces_pair hp.1 hp.2]
    rcases ih with ⟨cs, hcs, hps⟩ | ⟨hnone, w, h, hw⟩
    · exact Or.inl ⟨joined u v :: cs, by rw [hcs]; rfl, by rw [hps]; rfl⟩
    · exact Or.inr ⟨by rw [hnone]; rfl, w, h, List.mem_cons_of_mem _ hw⟩
  | case3 u hu v us hp =>
    rw [Bool.and_eq_true, not_and, Bool.not_eq_true] at hp
    rw [pieces_cons hp, Piece.ofUnit, dif_pos hu]
    exact Or.inr ⟨rfl, u, hu, List.mem_cons_self⟩
  | case4 u hu =>
    rw [pieces, Piece.ofUnit, dif_pos hu]
    exact Or.inr ⟨rfl, u, hu, List.mem_cons_self⟩
  | case5 u us hu ih =>
    have hhigh : isHigh u = false := by
      rw [Bool.not_eq_true, isSurrogate, Bool.or_eq_false_iff] at hu
      exact hu.1
    rw [pieces_cons (by simp [hhigh]), Piece.ofUnit, dif_neg hu]
    rcases ih with ⟨cs, hcs, hps⟩ | ⟨hnone, w, h, hw⟩
    · exact Or.inl ⟨Char.ofNat u.toNat :: cs, by rw [hcs]; rfl, by rw [hps]; rfl⟩
    · exact Or.inr ⟨by rw [hnone]; rfl, w, h, List.mem_cons_of_mem _ hw⟩

theorem map_fst_marks (c : Char) : (Piece.whole c).marks.map Prod.fst = encodeChar c := by
  rw [Piece.marks, List.map_map]
  exact (encodeChar c).map_id

theorem flatMap_encodeChar {us : List UInt16} {cs : List Char} (h : pieces us = cs.map .whole) :
    cs.flatMap encodeChar = us := by
  calc cs.flatMap encodeChar
      = ((pieces us).flatMap Piece.marks).map Prod.fst := by
        rw [h, List.flatMap_map, List.map_flatMap]
        simp only [map_fst_marks]
    _ = us := by rw [← marked_eq, marked, map_fst_markedAfter]

/-- Units are read as the text that is written as them. -/
theorem decode?_eq_some_iff (us : List UInt16) (s : String) :
    decode? us = some s ↔ encode s = us := by
  constructor
  · intro h
    obtain ⟨cs, hcs, rfl⟩ := Option.map_eq_some_iff.mp h
    rcases chars?_of_pieces us with ⟨cs', hcs', hps⟩ | ⟨hnone, -⟩
    · cases hcs.symm.trans hcs'
      rw [encode, String.toList_ofList, flatMap_encodeChar hps]
    · cases hcs.symm.trans hnone
  · rintro rfl
    have hps := pieces_encode s
    rcases chars?_of_pieces (encode s) with ⟨cs, hcs, hps'⟩ | ⟨-, u, _, hu⟩
    · have heq := (List.map_inj_right fun _ _ => Piece.whole.inj).mp (hps'.symm.trans hps)
      rw [decode?, hcs, Option.map_some, heq, String.ofList_toList]
    · rw [hps] at hu
      obtain ⟨c, -, hc⟩ := List.mem_map.mp hu
      cases hc

theorem decode?_eq_none_iff (us : List UInt16) : decode? us = none ↔ ¬ Paired us := by
  rw [decode?, Option.map_eq_none_iff, paired_iff]
  simp only [Classical.not_forall, Classical.not_not]
  rcases chars?_of_pieces us with ⟨cs, hcs, hps⟩ | ⟨hnone, halone⟩
  · simp [hcs, hps]
  · simp [hnone, halone]

end ScriptHost.Utf16
