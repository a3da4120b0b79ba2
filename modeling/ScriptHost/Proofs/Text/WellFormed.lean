-- Bytes that are a text. Reading without bad parts takes exactly the bytes that are written from
-- a text, since a character that has begun can only go on to one that starts with its bytes.
import Mathlib.Data.List.Basic
import ScriptHost.Proofs.Text.Utf8

namespace ScriptHost.Utf8

/-! ## The bytes of a number -/

/-- The bytes of a code point, which may be a surrogate. -/
def bytesOf (v : Nat) : List UInt8 :=
  if v ≤ 0x7F then [UInt8.ofNat v]
  else if v ≤ 0x7FF then [UInt8.ofNat (v / 64 % 32 + 192), UInt8.ofNat (v % 64 + 128)]
  else if v ≤ 0xFFFF then
    [UInt8.ofNat (v / 4096 % 16 + 224), UInt8.ofNat (v / 64 % 64 + 128), UInt8.ofNat (v % 64 + 128)]
  else
    [UInt8.ofNat (v / 262144 % 8 + 240), UInt8.ofNat (v / 4096 % 64 + 128),
      UInt8.ofNat (v / 64 % 64 + 128), UInt8.ofNat (v % 64 + 128)]

theorem encodeChar_eq (c : Char) : String.utf8EncodeChar c = bytesOf c.toNat := rfl

theorem encodeChar_ofNat {v : Nat} (h : v.isValidChar) :
    String.utf8EncodeChar (Char.ofNat v) = bytesOf v := by
  rw [encodeChar_eq, Char.ofNat, dif_pos h]
  rfl

theorem ofNat_eq {n : Nat} {b : UInt8} (h : n = b.toNat) : UInt8.ofNat n = b := by
  rw [h, UInt8.ofNat_toNat]

/-! ## Characters that have begun -/

/-- The number of a character with the six bits of one more byte. -/
def extend (v : Nat) (b : UInt8) : Nat := b.toNat - 0x80 + v * 64

/-- Bytes with which a character has begun. However it goes on in the ranges that are left, the
bytes are those of the character that is then read. -/
def Begun.Stands (p : Begun) (pre : List UInt8) : Prop :=
  ∀ b bs, p.low ≤ b → b ≤ p.high → (∀ c ∈ bs, 0x80 ≤ c ∧ c ≤ 0xBF) → bs.length + 1 = p.owed →
    ((b :: bs).foldl extend p.value).isValidChar ∧
      bytesOf ((b :: bs).foldl extend p.value) = pre ++ b :: bs

theorem stands_two {b : UInt8} (h : 0xC2 ≤ b.toNat) (h' : b.toNat < 0xE0) :
    (Begun.mk (b.toNat - 0xC0) 1 0x80 0xBF).Stands [b] := by
  intro b₁ bs hlow hhigh _ hlen
  obtain rfl : bs = [] := List.length_eq_zero_iff.mp (by dsimp only at hlen; omega)
  simp only [UInt8.le_iff_toNat_le, UInt8.reduceToNat] at hlow hhigh
  simp only [List.foldl_cons, List.foldl_nil, extend]
  generalize hw : b₁.toNat - 0x80 + (b.toNat - 0xC0) * 64 = w
  refine ⟨Or.inl (by omega), ?_⟩
  have hb : UInt8.ofNat (w / 64 % 32 + 192) = b := ofNat_eq (by omega)
  have hb₁ : UInt8.ofNat (w % 64 + 128) = b₁ := ofNat_eq (by omega)
  rw [bytesOf, if_neg (by omega), if_pos (by omega), hb, hb₁]
  rfl

theorem stands_three {b : UInt8} (h : 0xE0 ≤ b.toNat) (h' : b.toNat < 0xF0) :
    (Begun.mk (b.toNat - 0xE0) 2 (if b.toNat = 0xE0 then 0xA0 else 0x80)
      (if b.toNat = 0xED then 0x9F else 0xBF)).Stands [b] := by
  intro b₁ bs hlow hhigh hbs hlen
  obtain ⟨b₂, rfl⟩ := List.length_eq_one_iff.mp (show bs.length = 1 by dsimp only at hlen; omega)
  have h₂ := hbs b₂ (List.mem_singleton_self b₂)
  simp only [UInt8.le_iff_toNat_le, UInt8.reduceToNat, apply_ite UInt8.toNat] at hlow hhigh h₂
  -- The narrower ranges of the second byte keep out long forms and surrogates.
  have hmin : 0x80 ≤ b₁.toNat ∧ (b.toNat = 0xE0 → 0xA0 ≤ b₁.toNat) := by split at hlow <;> omega
  have hmax : b₁.toNat ≤ 0xBF ∧ (b.toNat = 0xED → b₁.toNat ≤ 0x9F) := by split at hhigh <;> omega
  clear hlow hhigh
  simp only [List.foldl_cons, List.foldl_nil, extend]
  generalize hw : b₂.toNat - 0x80 + (b₁.toNat - 0x80 + (b.toNat - 0xE0) * 64) * 64 = w
  refine ⟨show w < 0xD800 ∨ 0xDFFF < w ∧ w < 0x110000 by omega, ?_⟩
  have hb : UInt8.ofNat (w / 4096 % 16 + 224) = b := ofNat_eq (by omega)
  have hb₁ : UInt8.ofNat (w / 64 % 64 + 128) = b₁ := ofNat_eq (by omega)
  have hb₂ : UInt8.ofNat (w % 64 + 128) = b₂ := ofNat_eq (by omega)
  rw [bytesOf, if_neg (by omega), if_neg (by omega), if_pos (by omega), hb, hb₁, hb₂]
  rfl

theorem stands_four {b : UInt8} (h : 0xF0 ≤ b.toNat) (h' : b.toNat ≤ 0xF4) :
    (Begun.mk (b.toNat - 0xF0) 3 (if b.toNat = 0xF0 then 0x90 else 0x80)
      (if b.toNat = 0xF4 then 0x8F else 0xBF)).Stands [b] := by
  intro b₁ bs hlow hhigh hbs hlen
  obtain ⟨b₂, b₃, rfl⟩ := List.length_eq_two.mp (show bs.length = 2 by dsimp only at hlen; omega)
  have h₂ := hbs b₂ List.mem_cons_self
  have h₃ := hbs b₃ (List.mem_cons_of_mem _ List.mem_cons_self)
  simp only [UInt8.le_iff_toNat_le, UInt8.reduceToNat, apply_ite UInt8.toNat] at hlow hhigh h₂ h₃
  have hmin : 0x80 ≤ b₁.toNat ∧ (b.toNat = 0xF0 → 0x90 ≤ b₁.toNat) := by split at hlow <;> omega
  have hmax : b₁.toNat ≤ 0xBF ∧ (b.toNat = 0xF4 → b₁.toNat ≤ 0x8F) := by split at hhigh <;> omega
  clear hlow hhigh
  simp only [List.foldl_cons, List.foldl_nil, extend]
  generalize hw : b₃.toNat - 0x80 + (b₂.toNat - 0x80 +
    (b₁.toNat - 0x80 + (b.toNat - 0xF0) * 64) * 64) * 64 = w
  refine ⟨show w < 0xD800 ∨ 0xDFFF < w ∧ w < 0x110000 by omega, ?_⟩
  have hb : UInt8.ofNat (w / 262144 % 8 + 240) = b := ofNat_eq (by omega)
  have hb₁ : UInt8.ofNat (w / 4096 % 64 + 128) = b₁ := ofNat_eq (by omega)
  have hb₂ : UInt8.ofNat (w / 64 % 64 + 128) = b₂ := ofNat_eq (by omega)
  have hb₃ : UInt8.ofNat (w % 64 + 128) = b₃ := ofNat_eq (by omega)
  rw [bytesOf, if_neg (by omega), if_neg (by omega), if_neg (by omega), hb, hb₁, hb₂, hb₃]
  rfl

/-! ## Reading without bad parts -/

/-- A byte with which no character begins. -/
theorem first_bad {b : UInt8} (h : 0x80 ≤ b.toNat) (h' : b.toNat < 0xC2 ∨ 0xF4 < b.toNat) :
    first b = ([none], none) := by
  simp only [first, UInt8.lt_iff_toNat_lt, ← UInt8.toNat_inj, UInt8.reduceToNat]
  rw [if_neg (by omega)]
  rcases h' with h' | h'
  · rw [if_pos h']
  · rw [if_neg (by omega), if_neg (by omega), if_neg (by omega), if_neg (by omega),
      if_neg (by omega), if_neg (by omega), if_neg (by omega), if_neg (by omega)]

/-- What a byte adds where no character has begun: a bad part, a character of this byte alone, or
nothing yet. -/
theorem first_cases (b : UInt8) :
    first b = ([none], none) ∨
      (∃ c, first b = ([some c], none) ∧ String.utf8EncodeChar c = [b]) ∨
      ∃ p, first b = ([], some p) ∧ 0 < p.owed ∧ p.Stands [b] := by
  by_cases h₁ : b.toNat < 0x80
  · refine Or.inr (Or.inl ⟨_, first_one h₁, ?_⟩)
    rw [encodeChar_ofNat (Or.inl (by omega)), bytesOf, if_pos (by omega), UInt8.ofNat_toNat]
  by_cases hbad : b.toNat < 0xC2 ∨ 0xF4 < b.toNat
  · exact Or.inl (first_bad (by omega) hbad)
  right; right
  by_cases h₂ : b.toNat < 0xE0
  · exact ⟨_, first_two (by omega) h₂, Nat.succ_pos _, stands_two (by omega) h₂⟩
  by_cases h₃ : b.toNat < 0xF0
  · exact ⟨_, first_three (by omega) h₃, Nat.succ_pos _, stands_three (by omega) h₃⟩
  · exact ⟨_, first_four (by omega) (by omega), Nat.succ_pos _, stands_four (by omega) (by omega)⟩

/-- A character that has begun goes on with a byte in its range, or is a bad part. -/
theorem next_cases {p : Begun} {pre : List UInt8} (ho : 0 < p.owed) (hp : p.Stands pre)
    (b : UInt8) :
    (∃ out begun, p.next b = (none :: out, begun)) ∨
      (∃ c, p.next b = ([some c], none) ∧ String.utf8EncodeChar c = pre ++ [b]) ∨
      ∃ p', p.next b = ([], some p') ∧ 0 < p'.owed ∧ p'.Stands (pre ++ [b]) := by
  by_cases hb : p.low ≤ b ∧ b ≤ p.high
  · right
    have hlow := UInt8.le_iff_toNat_le.mp hb.1
    have hhigh := UInt8.le_iff_toNat_le.mp hb.2
    have hv : p.value * 64 + (b.toNat - 0x80) = extend p.value b := Nat.add_comm _ _
    by_cases hone : p.owed = 1
    · left
      have hlast := next_last hone hlow hhigh
      obtain ⟨hvalid, hbytes⟩ := hp b [] hb.1 hb.2 (by simp) hone.symm
      rw [hv] at hlast
      exact ⟨_, hlast, (encodeChar_ofNat hvalid).trans hbytes⟩
    · right
      have hmore := next_more (show 1 < p.owed by omega) hlow hhigh
      rw [hv] at hmore
      refine ⟨_, hmore, Nat.sub_pos_of_lt (by omega), ?_⟩
      -- Whatever may follow now could have followed together with this byte.
      intro b' bs hb' hb'' hbs hlen
      have htail : ∀ c ∈ b' :: bs, 0x80 ≤ c ∧ c ≤ 0xBF := by
        intro c hc
        rcases List.mem_cons.mp hc with rfl | hc
        · exact ⟨hb', hb''⟩
        · exact hbs c hc
      have hlen' : (b' :: bs).length + 1 = p.owed := by
        dsimp only at hlen
        rw [List.length_cons]
        omega
      have hread := hp b (b' :: bs) hb.1 hb.2 htail hlen'
      rw [List.foldl_cons, List.append_cons] at hread
      exact hread
  · left
    refine ⟨(first b).1, (first b).2, ?_⟩
    rw [Begun.next, if_neg]
    simpa using hb

/-- The bytes that have been read of a character, if one has begun. -/
def Pending : Option Begun → List UInt8 → Prop
  | none, pre => pre = []
  | some p, pre => 0 < p.owed ∧ p.Stands pre

/-- One more byte. It is no bad part, so it ends a character or leaves one begun. -/
theorem step_cases {begun : Option Begun} {pre : List UInt8} (hp : Pending begun pre) (b : UInt8) :
    (∃ out begun', step begun b = (none :: out, begun')) ∨
      (∃ c, step begun b = ([some c], none) ∧ String.utf8EncodeChar c = pre ++ [b]) ∨
      ∃ begun', step begun b = ([], begun') ∧ Pending begun' (pre ++ [b]) := by
  cases begun with
  | none =>
    obtain rfl : pre = [] := hp
    rcases first_cases b with h | ⟨c, h, hc⟩ | ⟨p, h, hp⟩
    · exact Or.inl ⟨_, _, h⟩
    · exact Or.inr (Or.inl ⟨c, h, hc⟩)
    · exact Or.inr (Or.inr ⟨some p, h, hp⟩)
  | some p =>
    rcases next_cases hp.1 hp.2 b with h | h | ⟨p', h, hp'⟩
    · exact Or.inl h
    · exact Or.inr (Or.inl h)
    · exact Or.inr (Or.inr ⟨some p', h, hp'⟩)

/-- Bytes that are read without bad parts are those of the characters that are read. -/
theorem flatMap_encodeChar_of_charsFrom {begun : Option Begun} {pre bytes : List UInt8}
    {cs : List Char} (hp : Pending begun pre) (h : charsFrom begun bytes = cs.map some) :
    cs.flatMap String.utf8EncodeChar = pre ++ bytes := by
  induction bytes generalizing begun pre cs with
  | nil =>
    cases begun with
    | none =>
      obtain rfl := List.map_eq_nil_iff.mp h.symm
      exact (List.append_nil pre).symm ▸ hp.symm
    | some p =>
      cases cs with
      | nil => cases h
      | cons c cs => cases h
  | cons b bytes ih =>
    rw [charsFrom] at h
    -- A bad part is no character, so only the other two cases are left.
    rcases step_cases hp b with ⟨out, begun', hs⟩ | ⟨c, hs, hc⟩ | ⟨begun', hs, hp'⟩
    · rw [hs] at h
      cases cs <;> cases h
    · rw [hs] at h
      cases cs with
      | nil => cases h
      | cons c' cs =>
        obtain ⟨hcc, hrest⟩ := List.cons.inj h
        cases hcc
        have hnone : Pending none [] := rfl
        rw [List.flatMap_cons, hc, ih hnone hrest, List.append_assoc]
        rfl
    · rw [hs] at h
      rw [ih hp' h, List.append_assoc]
      rfl

theorem mapM_id_eq_some_iff {cs : List (Option Char)} {ds : List Char} :
    cs.mapM id = some ds ↔ cs = ds.map some := by
  induction cs generalizing ds with
  | nil => cases ds <;> simp
  | cons c cs ih =>
    cases c with
    | none => cases ds <;> simp
    | some c => cases ds <;> simp [Option.bind_eq_some_iff, ih, and_comm]

/-- Bytes are read as the text that is written as them. -/
theorem decode?_eq_some_iff (bytes : List UInt8) (s : String) :
    decode? bytes = some s ↔ encode s = bytes := by
  rw [decode?, Option.map_eq_some_iff]
  constructor
  · rintro ⟨cs, hcs, rfl⟩
    have hnone : Pending none [] := rfl
    rw [encode, String.toList_ofList]
    exact flatMap_encodeChar_of_charsFrom hnone (mapM_id_eq_some_iff.mp hcs)
  · rintro rfl
    refine ⟨s.toList, mapM_id_eq_some_iff.mpr (chars_encode s.toList), String.ofList_toList⟩

end ScriptHost.Utf8
