-- Decimal integers as texts. A text is read as a 64-bit integer exactly when it spells one, with
-- white space around it and zeros in front of it, and an integer that is too large is never
-- read as another one.
import Mathlib.Data.List.TakeWhile
import Mathlib.Data.Nat.Digits.Defs
import ScriptHost.BigInteger

namespace ScriptHost

namespace Text

/-! ## Spelling -/

/-- At least one digit, and the number of the digits: the sum of their values, each ten times
the weight of the next. Zeros may stand in front. -/
inductive Digits : List Char → Nat → Prop
  | places {ps : List Nat} : ps ≠ [] → (∀ p ∈ ps, p < 10) →
    Digits (ps.reverse.map Nat.digitChar) (Nat.ofDigits 10 ps)

/-- Digits with one sign in front of them, or none. -/
inductive Signed : List Char → Int → Prop
  | bare {ds : List Char} {n : Nat} : Digits ds n → Signed ds n
  | plus {ds : List Char} {n : Nat} : Digits ds n → Signed ('+' :: ds) n
  | minus {ds : List Char} {n : Nat} : Digits ds n → Signed ('-' :: ds) (-n)

/-- A decimal integer with white space around it, and nothing else. -/
def Spells (cs : List Char) (z : Int) : Prop :=
  ∃ before body after, cs = before ++ body ++ after ∧
    (∀ c ∈ before, isBlank c = true) ∧ (∀ c ∈ after, isBlank c = true) ∧ Signed body z

/-! ## Digits -/

theorem isDigit_iff (c : Char) : isDigit c = true ↔ 48 ≤ c.toNat ∧ c.toNat ≤ 57 := by
  rw [isDigit, Bool.and_eq_true, decide_eq_true_iff, decide_eq_true_iff]
  exact Iff.rfl

theorem isDigit_digitChar {p : Nat} (hp : p < 10) : isDigit (Nat.digitChar p) = true := by
  rw [isDigit_iff, Nat.toNat_digitChar_of_lt_ten hp]
  omega

theorem digitValue_digitChar {p : Nat} (hp : p < 10) : digitValue (Nat.digitChar p) = p := by
  rw [digitValue, Nat.toNat_digitChar_of_lt_ten hp]
  exact Nat.add_sub_cancel_left 48 p

theorem digitValue_lt {c : Char} (h : isDigit c = true) : digitValue c < 10 := by
  rw [isDigit_iff] at h
  show c.toNat - 48 < 10
  omega

theorem digitChar_digitValue {c : Char} (h : isDigit c = true) :
    Nat.digitChar (digitValue c) = c := by
  apply Char.toNat_inj.mp
  rw [Nat.toNat_digitChar_of_lt_ten (digitValue_lt h)]
  rw [isDigit_iff] at h
  show 48 + (c.toNat - 48) = c.toNat
  omega

theorem digitsValue_places {ps : List Nat} (h : ∀ p ∈ ps, p < 10) :
    digitsValue (ps.reverse.map Nat.digitChar) = Nat.ofDigits 10 ps := by
  induction ps with
  | nil => rfl
  | cons p ps ih =>
    have hp := digitValue_digitChar (h p List.mem_cons_self)
    have ih := ih fun q hq => h q (List.mem_cons_of_mem p hq)
    unfold digitsValue at *
    rw [List.reverse_cons, List.map_append, List.foldl_append, ih, Nat.ofDigits_cons]
    simp only [List.map_cons, List.map_nil, List.foldl_cons, List.foldl_nil, hp]
    omega

theorem natural?_eq_some_iff (ds : List Char) (n : Nat) : natural? ds = some n ↔ Digits ds n := by
  unfold natural?
  rw [Option.ite_none_right_eq_some, Option.some_inj, List.all_eq_true]
  constructor
  · rintro ⟨⟨hne, hall⟩, rfl⟩
    -- The places are the values of the digits, the last one first.
    have hplaces : ∀ p ∈ ds.reverse.map digitValue, p < 10 := by
      intro p hp
      obtain ⟨c, hc, rfl⟩ := List.mem_map.mp hp
      exact digitValue_lt (hall c (List.mem_reverse.mp hc))
    have hds : (ds.reverse.map digitValue).reverse.map Nat.digitChar = ds := by
      rw [← List.map_reverse, List.reverse_reverse, List.map_map]
      exact (List.map_congr_left fun c hc => digitChar_digitValue (hall c hc)).trans ds.map_id
    have hvalue := digitsValue_places hplaces
    rw [hds] at hvalue
    have h := Digits.places (by simpa using hne) hplaces
    rw [hds, ← hvalue] at h
    exact h
  · rintro ⟨hne, hps⟩
    refine ⟨⟨by simpa using hne, ?_⟩, digitsValue_places hps⟩
    intro c hc
    obtain ⟨p, hp, rfl⟩ := List.mem_map.mp hc
    exact isDigit_digitChar (hps p (List.mem_reverse.mp hp))

/-- Digits start with a digit and end with one. -/
theorem Digits.isDigit_of_mem {ds : List Char} {n : Nat} (h : Digits ds n) :
    ds ≠ [] ∧ ∀ c ∈ ds, isDigit c = true := by
  rw [← natural?_eq_some_iff] at h
  unfold natural? at h
  rw [Option.ite_none_right_eq_some, List.all_eq_true] at h
  exact h.1

/-! ## Signs -/

theorem integer?_eq_some_iff (cs : List Char) (z : Int) : integer? cs = some z ↔ Signed cs z := by
  constructor
  · intro h
    unfold integer? at h
    split at h
    · obtain ⟨n, hn, rfl⟩ := Option.map_eq_some_iff.mp h
      exact .plus ((natural?_eq_some_iff _ _).mp hn)
    · obtain ⟨k, hk, rfl⟩ := Option.map_eq_some_iff.mp h
      obtain ⟨n, hn, hk⟩ := Option.bind_eq_some_iff.mp hk
      cases hk
      exact .minus ((natural?_eq_some_iff _ _).mp hn)
    · obtain ⟨n, hn, rfl⟩ := Option.map_eq_some_iff.mp h
      exact .bare ((natural?_eq_some_iff _ _).mp hn)
  · intro h
    cases h with
    | plus hd => rw [integer?, (natural?_eq_some_iff _ _).mpr hd]; rfl
    | minus hd => rw [integer?, (natural?_eq_some_iff _ _).mpr hd]; rfl
    | bare hd =>
      -- No sign is a digit.
      have hmem := hd.isDigit_of_mem.2
      unfold integer?
      split
      · exact absurd (hmem '+' List.mem_cons_self) (by decide)
      · exact absurd (hmem '-' List.mem_cons_self) (by decide)
      · rw [(natural?_eq_some_iff _ _).mpr hd]
        rfl

/-! ## White space -/

theorem isBlank_of_isDigit {c : Char} (h : isDigit c = true) : isBlank c = false := by
  rw [isDigit_iff] at h
  rw [← Bool.not_eq_true, isBlank, List.contains_iff_mem]
  simp only [blanks, List.mem_cons, List.not_mem_nil, or_false]
  omega

/-- No white space stands at either end of a decimal integer. -/
theorem Signed.ends {body : List Char} {z : Int} (h : Signed body z) :
    (∀ c ∈ body.head?, isBlank c = false) ∧ ∀ c ∈ body.getLast?, isBlank c = false := by
  have hlast : ∀ {ds : List Char} {n : Nat}, Digits ds n → ∀ c ∈ ds.getLast?, isBlank c = false :=
    fun hd c hc => isBlank_of_isDigit (hd.isDigit_of_mem.2 c (List.mem_of_getLast? hc))
  cases h with
  | bare hd =>
    refine ⟨fun c hc => ?_, hlast hd⟩
    exact isBlank_of_isDigit (hd.isDigit_of_mem.2 c (List.mem_of_head? hc))
  | plus hd | minus hd =>
    refine ⟨fun c hc => ?_, fun c hc => ?_⟩
    · cases hc
      decide
    · rw [List.getLast?_cons, List.getLast?_eq_some_getLast hd.isDigit_of_mem.1] at hc
      refine hlast hd c ?_
      rw [List.getLast?_eq_some_getLast hd.isDigit_of_mem.1]
      exact hc

theorem trimStart_append {before cs : List Char} (hb : ∀ c ∈ before, isBlank c = true)
    (hc : ∀ c ∈ cs.head?, isBlank c = false) : trimStart (before ++ cs) = cs := by
  rw [trimStart, List.dropWhile_append_of_pos hb]
  cases cs with
  | nil => rfl
  | cons c cs => exact List.dropWhile_cons_of_neg (by simp [hc c rfl])

/-- What has no white space at its ends is what is left when the white space is taken away. -/
theorem trim_append {before body after : List Char} (hb : ∀ c ∈ before, isBlank c = true)
    (ha : ∀ c ∈ after, isBlank c = true) (hhead : ∀ c ∈ body.head?, isBlank c = false)
    (hlast : ∀ c ∈ body.getLast?, isBlank c = false) (hne : body ≠ []) :
    trim (before ++ body ++ after) = body := by
  have hstart : trimStart (before ++ body ++ after) = body ++ after := by
    rw [List.append_assoc]
    refine trimStart_append hb ?_
    cases body with
    | nil => exact absurd rfl hne
    | cons c rest => exact hhead
  rw [trim, hstart, trimEnd, List.reverse_append,
    trimStart_append (fun c hc => ha c (List.mem_reverse.mp hc)), List.reverse_reverse]
  rw [List.head?_reverse]
  exact hlast

theorem exists_trim (cs : List Char) :
    ∃ before after, cs = before ++ trim cs ++ after ∧ (∀ c ∈ before, isBlank c = true) ∧
      ∀ c ∈ after, isBlank c = true := by
  have hsplit : ∀ ds : List Char, ds = ds.takeWhile isBlank ++ trimStart ds := fun ds =>
    List.takeWhile_append_dropWhile.symm
  refine ⟨cs.takeWhile isBlank, ((trimStart cs).reverse.takeWhile isBlank).reverse, ?_, ?_, ?_⟩
  · rw [List.append_assoc, trim, trimEnd, ← List.reverse_append, ← hsplit, List.reverse_reverse,
      ← hsplit]
  · exact fun c hc => List.mem_takeWhile_imp hc
  · exact fun c hc => List.mem_takeWhile_imp (List.mem_reverse.mp hc)

theorem integer?_trim_eq_some_iff (cs : List Char) (z : Int) :
    integer? (trim cs) = some z ↔ Spells cs z := by
  rw [integer?_eq_some_iff]
  constructor
  · intro h
    obtain ⟨before, after, hcs, hb, ha⟩ := exists_trim cs
    exact ⟨before, trim cs, after, hcs, hb, ha, h⟩
  · rintro ⟨before, body, after, rfl, hb, ha, h⟩
    have hne : body ≠ [] := by
      cases h with
      | bare hd => exact hd.isDigit_of_mem.1
      | plus hd | minus hd => simp
    rwa [trim_append hb ha h.ends.1 h.ends.2 hne]

/-- A text spells one integer at most. -/
theorem Spells.unique {cs : List Char} {z z' : Int} (h : Spells cs z) (h' : Spells cs z') :
    z = z' := by
  rw [← integer?_trim_eq_some_iff] at h h'
  rw [h] at h'
  exact Option.some.inj h'

/-! ## The decimal text of an integer -/

theorem digits_toDigits (n : Nat) : Digits (Nat.toDigits 10 n) n := by
  induction n using Nat.strong_induction_on with
  | _ n ih =>
    rw [Nat.toDigits_eq_if (by decide)]
    split
    · rename_i hn
      have hplaces : ∀ p ∈ [n], p < 10 := by simpa using hn
      exact .places (List.cons_ne_nil n []) hplaces
    · rename_i hn
      -- The last digit goes in front of the places of the others.
      have hrest := ih (n / 10) (by omega)
      generalize Nat.toDigits 10 (n / 10) = ds at hrest
      generalize hq : n / 10 = q at hrest
      cases hrest with
      | @places ps hne hps =>
        have hvalue : Nat.ofDigits 10 (n % 10 :: ps) = n := by
          rw [Nat.ofDigits_cons, ← hq]
          exact Nat.mod_add_div n 10
        have hplaces : ∀ p ∈ n % 10 :: ps, p < 10 := by
          intro p hp
          rcases List.mem_cons.mp hp with rfl | hp
          · exact Nat.mod_lt _ (by decide)
          · exact hps p hp
        have h := Digits.places (List.cons_ne_nil _ _) hplaces
        rw [hvalue, List.reverse_cons, List.map_append] at h
        exact h

theorem spells_toString (z : Int) : Spells (toString z).toList z := by
  refine ⟨[], (toString z).toList, [], by simp, by simp, by simp, ?_⟩
  rw [Int.toString_eq_repr, Int.repr_eq_if]
  split
  · rename_i hz
    have h := Signed.bare (digits_toDigits z.toNat)
    rwa [Int.toNat_of_nonneg hz, ← Nat.toList_repr] at h
  · rename_i hz
    have h := Signed.minus (digits_toDigits (-z).toNat)
    rw [Int.toNat_of_nonneg (by omega), Int.neg_neg, ← Nat.toList_repr] at h
    rw [String.toList_append]
    exact h

end Text

/-! ## The law -/

namespace BigInteger

theorem ofDecimal_of_fits {s : String} {z : Int} (h : Text.Spells s.toList z)
    (hz : -2 ^ 63 ≤ z ∧ z ≤ 2 ^ 63 - 1) : ofDecimal s = exact (.ofInt z) := by
  rw [← Text.integer?_trim_eq_some_iff] at h
  simp only [ofDecimal, h, Int64.toInt_minValue, Int64.toInt_maxValue]
  exact if_pos hz

theorem ofDecimal_of_not_fits {s : String} (h : ∀ z, Text.Spells s.toList z →
    ¬ (-2 ^ 63 ≤ z ∧ z ≤ 2 ^ 63 - 1)) : ofDecimal s = outOfRange := by
  unfold ofDecimal
  split
  · rename_i z hz
    rw [Int64.toInt_minValue, Int64.toInt_maxValue]
    exact if_neg (h z ((Text.integer?_trim_eq_some_iff _ _).mp hz))
  · rfl

/-- The decimal text of an integer is read as that integer if it fits. -/
theorem ofDecimal_toString (z : Int) : ofDecimal (toString z) =
    if -2 ^ 63 ≤ z ∧ z ≤ 2 ^ 63 - 1 then exact (.ofInt z) else outOfRange := by
  have hs := Text.spells_toString z
  split
  · rename_i hz
    exact ofDecimal_of_fits hs hz
  · rename_i hz
    refine ofDecimal_of_not_fits fun z' hs' hz' => hz ?_
    rwa [hs'.unique hs] at hz'

theorem exists_exact_iff (s : String) (z : Int) :
    (∃ n : Int64, ofDecimal s = exact n ∧ n.toInt = z) ↔
      Text.Spells s.toList z ∧ -2 ^ 63 ≤ z ∧ z ≤ 2 ^ 63 - 1 := by
  constructor
  · rintro ⟨n, hn, rfl⟩
    by_cases h : ∃ z, Text.Spells s.toList z ∧ -2 ^ 63 ≤ z ∧ z ≤ 2 ^ 63 - 1
    · obtain ⟨z, hs, hz⟩ := h
      rw [ofDecimal_of_fits hs hz] at hn
      cases hn
      rw [Int64.toInt_ofInt_of_le hz.1 (by omega)]
      exact ⟨hs, hz⟩
    · rw [ofDecimal_of_not_fits fun z hs hz => h ⟨z, hs, hz⟩] at hn
      cases hn
  · rintro ⟨hs, hz⟩
    exact ⟨_, ofDecimal_of_fits hs hz, Int64.toInt_ofInt_of_le hz.1 (by omega)⟩

/-- A text is read as an integer exactly when it spells one that fits 64 bits, and every other
text is out of range. So the decimal text of an integer is read as that integer or not at all. -/
theorem only_decimal_integers_are_exact (s : String) :
    (∀ z : Int, (∃ n : Int64, ofDecimal s = exact n ∧ n.toInt = z) ↔
        Text.Spells s.toList z ∧ -2 ^ 63 ≤ z ∧ z ≤ 2 ^ 63 - 1) ∧
      (ofDecimal s = outOfRange ↔
        ∀ z, Text.Spells s.toList z → ¬ (-2 ^ 63 ≤ z ∧ z ≤ 2 ^ 63 - 1)) ∧
      ∀ z : Int, if -2 ^ 63 ≤ z ∧ z ≤ 2 ^ 63 - 1 then
          ∃ n : Int64, ofDecimal (toString z) = exact n ∧ n.toInt = z
        else ofDecimal (toString z) = outOfRange := by
  refine ⟨exists_exact_iff s, ⟨fun h z hs hz => ?_, ofDecimal_of_not_fits⟩, fun z => ?_⟩
  · rw [ofDecimal_of_fits hs hz] at h
    cases h
  · have hs := Text.spells_toString z
    split
    · rename_i hz
      exact (exists_exact_iff _ z).mpr ⟨hs, hz⟩
    · rename_i hz
      apply ofDecimal_of_not_fits
      intro z' hs' hz'
      rw [hs'.unique hs] at hz'
      exact hz hz'

end BigInteger

end ScriptHost
