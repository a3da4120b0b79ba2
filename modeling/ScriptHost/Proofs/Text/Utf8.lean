-- Reading UTF-8 that was written from a text. The bytes of each character are read as that
-- character, and nothing of them is left begun.
import ScriptHost.Text.Utf8

namespace ScriptHost.Utf8

/-! ## First bytes -/

theorem first_one {b : UInt8} (h : b.toNat < 0x80) :
    first b = ([some (Char.ofNat b.toNat)], none) := by
  have hb : b < 0x80 := UInt8.lt_iff_toNat_lt.mpr h
  simp [first, hb]

theorem first_two {b : UInt8} (h : 0xC2 ≤ b.toNat) (h' : b.toNat < 0xE0) :
    first b = ([], some ⟨b.toNat - 0xC0, 1, 0x80, 0xBF⟩) := by
  simp only [first, UInt8.lt_iff_toNat_lt, UInt8.reduceToNat]
  rw [if_neg (by omega), if_neg (by omega), if_pos h']

/-- A first byte of three. The second byte is kept from long forms and from surrogates. -/
theorem first_three {b : UInt8} (h : 0xE0 ≤ b.toNat) (h' : b.toNat < 0xF0) :
    first b = ([], some ⟨b.toNat - 0xE0, 2, if b.toNat = 0xE0 then 0xA0 else 0x80,
      if b.toNat = 0xED then 0x9F else 0xBF⟩) := by
  simp only [first, UInt8.lt_iff_toNat_lt, ← UInt8.toNat_inj, UInt8.reduceToNat]
  rw [if_neg (by omega), if_neg (by omega), if_neg (by omega)]
  by_cases he : b.toNat = 0xE0
  · simp [he]
  · by_cases hd : b.toNat = 0xED
    · simp [hd]
    · simp [he, hd, h']

/-- A first byte of four. The second byte is kept from long forms and from what is past the
last character. -/
theorem first_four {b : UInt8} (h : 0xF0 ≤ b.toNat) (h' : b.toNat ≤ 0xF4) :
    first b = ([], some ⟨b.toNat - 0xF0, 3, if b.toNat = 0xF0 then 0x90 else 0x80,
      if b.toNat = 0xF4 then 0x8F else 0xBF⟩) := by
  simp only [first, UInt8.lt_iff_toNat_lt, ← UInt8.toNat_inj, UInt8.reduceToNat]
  rw [if_neg (by omega), if_neg (by omega), if_neg (by omega), if_neg (by omega),
    if_neg (by omega), if_neg (by omega)]
  by_cases h0 : b.toNat = 0xF0
  · simp [h0]
  · by_cases h4 : b.toNat = 0xF4
    · simp [h4]
    · simp [h0, h4, show b.toNat < 0xF4 by omega]

/-! ## Later bytes -/

theorem next_last {p : Begun} {b : UInt8} (ho : p.owed = 1) (hlow : p.low.toNat ≤ b.toNat)
    (hhigh : b.toNat ≤ p.high.toNat) :
    p.next b = ([some (Char.ofNat (p.value * 64 + (b.toNat - 0x80)))], none) := by
  simp [Begun.next, UInt8.le_iff_toNat_le, hlow, hhigh, ho]

theorem next_more {p : Begun} {b : UInt8} (ho : 1 < p.owed) (hlow : p.low.toNat ≤ b.toNat)
    (hhigh : b.toNat ≤ p.high.toNat) :
    p.next b = ([], some ⟨p.value * 64 + (b.toNat - 0x80), p.owed - 1, 0x80, 0xBF⟩) := by
  simp [Begun.next, UInt8.le_iff_toNat_le, hlow, hhigh, show ¬ p.owed ≤ 1 by omega]

/-! ## Whole characters -/

theorem toNat_byte {n : Nat} (h : n < 256) : (UInt8.ofNat n).toNat = n :=
  UInt8.toNat_ofNat_of_lt' h

theorem charsFrom_one {v : Nat} (h : v < 0x80) (rest : List UInt8) :
    charsFrom none (UInt8.ofNat v :: rest) = some (Char.ofNat v) :: charsFrom none rest := by
  have hb := toNat_byte (show v < 256 by omega)
  simp [charsFrom, step, first_one (hb ▸ h), hb]

theorem charsFrom_two {v : Nat} (h : 0x80 ≤ v) (h' : v < 0x800) (rest : List UInt8) :
    charsFrom none (UInt8.ofNat (v / 64 % 32 + 192) :: UInt8.ofNat (v % 64 + 128) :: rest) =
      some (Char.ofNat v) :: charsFrom none rest := by
  have h0 := toNat_byte (show v / 64 % 32 + 192 < 256 by omega)
  have h1 := toNat_byte (show v % 64 + 128 < 256 by omega)
  generalize UInt8.ofNat (v / 64 % 32 + 192) = b at *
  generalize UInt8.ofNat (v % 64 + 128) = b₁ at *
  have hv : (b.toNat - 0xC0) * 64 + (b₁.toNat - 0x80) = v := by omega
  have hf := first_two (b := b) (by omega) (by omega)
  have hn := next_last (p := ⟨b.toNat - 0xC0, 1, 0x80, 0xBF⟩) (b := b₁) rfl
    (by simp; omega) (by simp; omega)
  simp [charsFrom, step, hf, hn, hv]

theorem charsFrom_three {v : Nat} (h : 0x800 ≤ v) (h' : v < 0x10000)
    (hs : v < 0xD800 ∨ 0xDFFF < v) (rest : List UInt8) :
    charsFrom none (UInt8.ofNat (v / 4096 % 16 + 224) :: UInt8.ofNat (v / 64 % 64 + 128) ::
      UInt8.ofNat (v % 64 + 128) :: rest) = some (Char.ofNat v) :: charsFrom none rest := by
  have h0 := toNat_byte (show v / 4096 % 16 + 224 < 256 by omega)
  have h1 := toNat_byte (show v / 64 % 64 + 128 < 256 by omega)
  have h2 := toNat_byte (show v % 64 + 128 < 256 by omega)
  generalize UInt8.ofNat (v / 4096 % 16 + 224) = b at *
  generalize UInt8.ofNat (v / 64 % 64 + 128) = b₁ at *
  generalize UInt8.ofNat (v % 64 + 128) = b₂ at *
  have hv : ((b.toNat - 0xE0) * 64 + (b₁.toNat - 0x80)) * 64 + (b₂.toNat - 0x80) = v := by omega
  have hf := first_three (b := b) (by omega) (by omega)
  have hn := next_more (p := ⟨b.toNat - 0xE0, 2, if b.toNat = 0xE0 then 0xA0 else 0x80,
    if b.toNat = 0xED then 0x9F else 0xBF⟩) (b := b₁) (by simp)
    (by dsimp only; split <;> simp <;> omega) (by dsimp only; split <;> simp <;> omega)
  have hl := next_last (p := ⟨(b.toNat - 0xE0) * 64 + (b₁.toNat - 0x80), 1, 0x80, 0xBF⟩)
    (b := b₂) rfl (by simp; omega) (by simp; omega)
  simp [charsFrom, step, hf, hn, hl, hv]

theorem charsFrom_four {v : Nat} (h : 0x10000 ≤ v) (h' : v < 0x110000) (rest : List UInt8) :
    charsFrom none (UInt8.ofNat (v / 262144 % 8 + 240) :: UInt8.ofNat (v / 4096 % 64 + 128) ::
      UInt8.ofNat (v / 64 % 64 + 128) :: UInt8.ofNat (v % 64 + 128) :: rest) =
        some (Char.ofNat v) :: charsFrom none rest := by
  have h0 := toNat_byte (show v / 262144 % 8 + 240 < 256 by omega)
  have h1 := toNat_byte (show v / 4096 % 64 + 128 < 256 by omega)
  have h2 := toNat_byte (show v / 64 % 64 + 128 < 256 by omega)
  have h3 := toNat_byte (show v % 64 + 128 < 256 by omega)
  generalize UInt8.ofNat (v / 262144 % 8 + 240) = b at *
  generalize UInt8.ofNat (v / 4096 % 64 + 128) = b₁ at *
  generalize UInt8.ofNat (v / 64 % 64 + 128) = b₂ at *
  generalize UInt8.ofNat (v % 64 + 128) = b₃ at *
  have hv : (((b.toNat - 0xF0) * 64 + (b₁.toNat - 0x80)) * 64 + (b₂.toNat - 0x80)) * 64 +
      (b₃.toNat - 0x80) = v := by omega
  have hf := first_four (b := b) (by omega) (by omega)
  have hn := next_more (p := ⟨b.toNat - 0xF0, 3, if b.toNat = 0xF0 then 0x90 else 0x80,
    if b.toNat = 0xF4 then 0x8F else 0xBF⟩) (b := b₁) (by simp)
    (by dsimp only; split <;> simp <;> omega) (by dsimp only; split <;> simp <;> omega)
  have hm := next_more (p := ⟨(b.toNat - 0xF0) * 64 + (b₁.toNat - 0x80), 2, 0x80, 0xBF⟩)
    (b := b₂) (by simp) (by simp; omega) (by simp; omega)
  have hl := next_last (p := ⟨((b.toNat - 0xF0) * 64 + (b₁.toNat - 0x80)) * 64 +
    (b₂.toNat - 0x80), 1, 0x80, 0xBF⟩) (b := b₃) rfl (by simp; omega) (by simp; omega)
  simp [charsFrom, step, hf, hn, hm, hl, hv]

/-- The bytes of a character are read as that character. -/
theorem charsFrom_encodeChar (c : Char) (rest : List UInt8) :
    charsFrom none (String.utf8EncodeChar c ++ rest) = some c :: charsFrom none rest := by
  have hvalid : c.toNat < 0xD800 ∨ 0xDFFF < c.toNat ∧ c.toNat < 0x110000 := c.valid
  have hc := Char.ofNat_toNat c
  unfold String.utf8EncodeChar
  change charsFrom none ((if c.toNat ≤ 127 then _ else if c.toNat ≤ 2047 then _
    else if c.toNat ≤ 65535 then _ else _) ++ rest) = _
  split
  · have h := charsFrom_one (v := c.toNat) (by omega) rest
    rw [hc] at h
    exact h
  · split
    · have h := charsFrom_two (v := c.toNat) (by omega) (by omega) rest
      rw [hc] at h
      exact h
    · split
      · have h := charsFrom_three (v := c.toNat) (by omega) (by omega) (by omega) rest
        rw [hc] at h
        exact h
      · have h := charsFrom_four (v := c.toNat) (by omega) (by omega) rest
        rw [hc] at h
        exact h

/-! ## Whole texts -/

theorem chars_encode (cs : List Char) :
    chars (cs.flatMap String.utf8EncodeChar) = cs.map some := by
  unfold chars
  induction cs with
  | nil => rfl
  | cons c cs ih => rw [List.flatMap_cons, charsFrom_encodeChar, ih, List.map_cons]

/-- A text is read back from its bytes as it was. -/
theorem decodeLossy_encode (s : String) : decodeLossy (encode s) = s := by
  rw [decodeLossy, encode, chars_encode, List.map_map]
  simp [Function.comp_def]

end ScriptHost.Utf8
