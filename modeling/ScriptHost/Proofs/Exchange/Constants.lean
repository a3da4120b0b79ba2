-- The check of the seven constants, held against how their words are read. Exactly the words that
-- read as they should pass, and words that pass are projected without the engine and never
-- counted. Words that do not pass are reported by the first fault among them.
import ScriptHost.Proofs.Exchange.Sample
import ScriptHost.Proofs.Layout.Alike
import ScriptHost.Proofs.Layout.Partition
import ScriptHost.Startup

namespace ScriptHost

variable {ℓ : Layout} {σ ε : Type}

/-! ## Words that are not counted -/

/-- A handle that owns nothing: it can be had on the bare word, and neither a clone nor a drop
changes the machine or calls the engine. -/
structure Handle.Idle (h : Host ℓ σ ε) (x : Handle ℓ) : Prop where
  immediate : Handle.immediate? x.word = some x
  clone : ∀ m : Machine σ, (x.clone : Exchange ℓ σ ε (Handle ℓ)) m =
    ⟨.value x, [.retain x.word], m⟩
  drop : ∀ m, x.drop h m = ⟨.value (), [.release x.word none], m⟩

theorem Handle.idle_of_not_counted (h : Host ℓ σ ε) {x : Handle ℓ}
    (hx : ℓ.isCounted x.word = false) : x.Idle h where
  immediate := by simp [immediate?, hx]
  clone m := by
    obtain ⟨hretain, -, -⟩ := ℓ.leavesAlone_of_not_counted m hx
    have hclone : (x.clone : Exchange ℓ σ ε (Handle ℓ)) m =
        ⟨.value x, [.retain x.word], m.retain ℓ x.word⟩ := rfl
    rw [hclone, hretain]
  drop m := by
    obtain ⟨-, hrelease, hcount⟩ := ℓ.leavesAlone_of_not_counted m hx
    have hleft : (Exchange.release x.word : Exchange ℓ σ ε Bool) m =
        ⟨.value false, [.release x.word none], m⟩ := by
      have hout : (Exchange.release x.word : Exchange ℓ σ ε Bool) m =
          ⟨.value ((m.release ℓ x.word).count? ℓ x.word == some 0),
            [.release x.word ((m.release ℓ x.word).count? ℓ x.word)], m.release ℓ x.word⟩ := rfl
      rw [hout, hrelease, hcount]
      rfl
    unfold drop
    simp only [Bind.bind, Action.bind, hleft]
    rfl

namespace Constants

/-! ## How the words should read -/

/-- Seven words that read as what they are meant to be. A word that is no truth value and no
double may have any payload. -/
structure Sound (c : Constants ℓ) : Prop where
  null : ∃ n, ℓ.decode c.null = some (.null, .int32 n)
  undefined : ∃ n, ℓ.decode c.undefined = some (.undefined, .int32 n)
  isTrue : ℓ.decode c.isTrue = some (.bool, .bool true)
  isFalse : ℓ.decode c.isFalse = some (.bool, .bool false)
  exception : ∃ n, ℓ.decode c.exception = some (.exception, .int32 n)
  uninitialized : ∃ n, ℓ.decode c.uninitialized = some (.uninitialized, .int32 n)
  nan : ℓ.decode c.nan = some (.float64, .float64 .canonicalNaN)

/-- The seven words in the order of the check, each with the name that a fault has and with the tag
that is due to it. -/
def due (c : Constants ℓ) : List (String × ℓ.Word × Tag) :=
  [("null", c.null, .null), ("undefined", c.undefined, .undefined), ("true", c.isTrue, .bool),
   ("false", c.isFalse, .bool), ("exception", c.exception, .exception),
   ("uninitialized", c.uninitialized, .uninitialized), ("nan", c.nan, .float64)]

theorem named_eq_due (c : Constants ℓ) : c.named = c.due := rfl

/-- An entry whose word has the tag that is due to it. -/
def IsTagged (entry : String × ℓ.Word × Tag) : Prop := ℓ.tag? entry.2.1 = some entry.2.2

/-- What is wrong with seven words, by the name that tells of it. The tags are looked at first
and in their order, then the truth values, then the NaN. -/
inductive Fault (c : Constants ℓ) : String → Prop
  | tag {before after : List (String × ℓ.Word × Tag)} {name : String} {w : ℓ.Word} {t : Tag} :
    c.due = before ++ (name, w, t) :: after → (∀ entry ∈ before, IsTagged entry) →
    ¬ IsTagged (name, w, t) → Fault c name
  | bool : (∀ entry ∈ c.due, IsTagged entry) →
    ¬ (ℓ.bool c.isTrue = true ∧ ℓ.bool c.isFalse = false) → Fault c "bool"
  | nan : (∀ entry ∈ c.due, IsTagged entry) →
    ℓ.bool c.isTrue = true → ℓ.bool c.isFalse = false → ℓ.double c.nan ≠ .canonicalNaN →
    Fault c "nan"

/-- What seven words are projected to. No engine is called, and nothing changes. -/
structure Projects (h : Host ℓ σ ε) (c : Constants ℓ) : Prop where
  null : h.project c.null = pure (.ok .null)
  undefined : h.project c.undefined = pure (.ok .null)
  isTrue : h.project c.isTrue = pure (.ok (.bool true))
  isFalse : h.project c.isFalse = pure (.ok (.bool false))
  exception : h.project c.exception = pure (.error (.unsupported .exception))
  uninitialized : h.project c.uninitialized = pure (.ok .null)
  nan : h.project c.nan = pure (.ok (.float .canonicalNaN))

/-! ## What the check sees -/

/-- No constant is meant to be counted. -/
theorem isCounted_of_mem_due {c : Constants ℓ} {entry : String × ℓ.Word × Tag}
    (he : entry ∈ c.due) : entry.2.2.isCounted = false := by
  simp only [due, List.mem_cons, List.not_mem_nil, or_false] at he
  rcases he with rfl | rfl | rfl | rfl | rfl | rfl | rfl <;> rfl

/-- A word with its tag is not counted either, so the check for counts finds nothing more. -/
theorem fails_iff {c : Constants ℓ} {entry : String × ℓ.Word × Tag} (he : entry ∈ c.due) :
    (ℓ.tag? entry.2.1 != some entry.2.2 || ℓ.isCounted entry.2.1) = true ↔ ¬ IsTagged entry := by
  unfold IsTagged
  by_cases ht : ℓ.tag? entry.2.1 = some entry.2.2
  · have hc : ℓ.isCounted entry.2.1 = false :=
      (ℓ.isCounted_of_tag? ht).trans (isCounted_of_mem_due he)
    simp [ht, hc]
  · simp [ht]

/-- The entry that the check stops at, if there is one. -/
def stop? (c : Constants ℓ) : Option (String × ℓ.Word × Tag) :=
  c.named.find? fun (_, w, t) => ℓ.tag? w != some t || ℓ.isCounted w

theorem stop?_eq_none_iff (c : Constants ℓ) :
    c.stop? = none ↔ ∀ entry ∈ c.due, IsTagged entry := by
  unfold stop?
  rw [named_eq_due, List.find?_eq_none]
  refine forall₂_congr fun entry he => ?_
  rw [fails_iff he, Classical.not_not]

/-- The check stops at the first word that has not its tag. -/
theorem stop?_eq_some_iff (c : Constants ℓ) (entry : String × ℓ.Word × Tag) :
    c.stop? = some entry ↔ ∃ before after, c.due = before ++ entry :: after ∧
      (∀ e ∈ before, IsTagged e) ∧ ¬ IsTagged entry := by
  have hmem : ∀ {before after}, c.due = before ++ entry :: after →
      ∀ e, e ∈ before ∨ e = entry → e ∈ c.due := by
    rintro before after hc e (he | rfl) <;> simp [*]
  have hbefore : ∀ {before after}, c.due = before ++ entry :: after → ∀ e ∈ before,
      ((!(ℓ.tag? e.2.1 != some e.2.2 || ℓ.isCounted e.2.1)) = true ↔ IsTagged e) := by
    intro before after hc e he
    rw [Bool.not_eq_true', ← Bool.not_eq_true, fails_iff (hmem hc e (Or.inl he)), Classical.not_not]
  unfold stop?
  rw [named_eq_due, List.find?_eq_some_iff_append]
  constructor
  · rintro ⟨hw, before, after, hc, hb⟩
    exact ⟨before, after, hc, fun e he => (hbefore hc e he).mp (hb e he),
      (fails_iff (hmem hc entry (Or.inr rfl))).mp hw⟩
  · rintro ⟨before, after, hc, hb, hw⟩
    exact ⟨(fails_iff (hmem hc entry (Or.inr rfl))).mpr hw, before, after, hc,
      fun e he => (hbefore hc e he).mpr (hb e he)⟩

/-- What the check comes to once every word has its tag. -/
theorem verify_of_tagged {c : Constants ℓ} (hc : ∀ entry ∈ c.due, IsTagged entry) :
    c.verify =
      if ¬ (ℓ.bool c.isTrue = true ∧ ℓ.bool c.isFalse = false) then .error (.constant "bool")
      else if ℓ.double c.nan ≠ .canonicalNaN then .error (.constant "nan")
      else .ok () := by
  have hnone := c.stop?_eq_none_iff.mpr hc
  unfold stop? at hnone
  unfold verify
  rw [hnone]
  cases ℓ.bool c.isTrue <;> cases ℓ.bool c.isFalse <;> simp

theorem verify_of_stop? {c : Constants ℓ} {name : String} {w : ℓ.Word} {t : Tag}
    (hc : c.stop? = some (name, w, t)) : c.verify = .error (.constant name) := by
  unfold stop? at hc
  unfold verify
  rw [hc]

/-- A fault is what the check reports. -/
theorem Fault.verify_eq {c : Constants ℓ} {name : String} (h : c.Fault name) :
    c.verify = .error (.constant name) := by
  cases h with
  | tag hc hb hw => exact verify_of_stop? ((c.stop?_eq_some_iff _).mpr ⟨_, _, hc, hb, hw⟩)
  | bool hc hbool => rw [verify_of_tagged hc, if_pos hbool]
  | nan hc ht hf hnan =>
    rw [verify_of_tagged hc, if_neg (Classical.not_not.mpr ⟨ht, hf⟩), if_pos hnan]

/-- Seven words are sound if each has its tag, the truth values are right and so is the NaN. -/
theorem sound_iff (c : Constants ℓ) :
    c.Sound ↔ (∀ entry ∈ c.due, IsTagged entry) ∧
      (ℓ.bool c.isTrue = true ∧ ℓ.bool c.isFalse = false) ∧ ℓ.double c.nan = .canonicalNaN := by
  constructor
  · rintro ⟨⟨_, hnull⟩, ⟨_, hundefined⟩, htrue, hfalse, ⟨_, hexception⟩, ⟨_, hun⟩, hnan⟩
    rw [Layout.decode_eq_some_iff] at *
    refine ⟨?_, ⟨?_, ?_⟩, ?_⟩
    · simp [due, IsTagged, *]
    · simpa [Layout.select] using htrue.2
    · simpa [Layout.select] using hfalse.2
    · simpa [Layout.select] using hnan.2
  · rintro ⟨htags, ⟨htrue, hfalse⟩, hnan⟩
    simp only [due, IsTagged, List.forall_mem_cons] at htags
    obtain ⟨h₁, h₂, h₃, h₄, h₅, h₆, h₇, -⟩ := htags
    constructor <;> simp [Layout.decode, Layout.select, Tag.isCounted, *]

/-- Seven words are sound and pass, or there is a fault. -/
theorem sound_or_fault (c : Constants ℓ) : c.verify = .ok () ∧ c.Sound ∨ ∃ name, c.Fault name := by
  cases hs : c.stop? with
  | some entry =>
    obtain ⟨before, after, hc, hb, hw⟩ := (c.stop?_eq_some_iff entry).mp hs
    exact Or.inr ⟨entry.1, .tag hc hb hw⟩
  | none =>
    have hc := c.stop?_eq_none_iff.mp hs
    by_cases hbool : ℓ.bool c.isTrue = true ∧ ℓ.bool c.isFalse = false
    · by_cases hnan : ℓ.double c.nan = .canonicalNaN
      · refine Or.inl ⟨?_, c.sound_iff.mpr ⟨hc, hbool, hnan⟩⟩
        rw [verify_of_tagged hc, if_neg (Classical.not_not.mpr hbool),
          if_neg (Classical.not_not.mpr hnan)]
      · exact Or.inr ⟨_, .nan hc hbool.1 hbool.2 hnan⟩
    · exact Or.inr ⟨_, .bool hc hbool⟩

theorem not_sound_of_fault {c : Constants ℓ} {name : String} (h : c.Fault name) : ¬ c.Sound := by
  rw [sound_iff]
  rintro ⟨htags, hbool, hnan⟩
  cases h with
  | tag hc _ hw => exact hw (htags _ (by simp [hc]))
  | bool _ hnot => exact hnot hbool
  | nan _ _ _ hnot => exact hnot hnan

/-! ## What becomes of sound words -/

theorem Sound.projects {c : Constants ℓ} (hc : c.Sound) (h : Host ℓ σ ε) : c.Projects h := by
  obtain ⟨htags, ⟨htrue, hfalse⟩, hnan⟩ := c.sound_iff.mp hc
  simp only [due, IsTagged, List.forall_mem_cons] at htags
  obtain ⟨h₁, h₂, h₃, h₄, h₅, h₆, h₇, -⟩ := htags
  constructor <;> exact h.project_alone (by simp [Layout.alone?, *])

theorem Sound.idle {c : Constants ℓ} (hc : c.Sound) (h : Host ℓ σ ε)
    {entry : String × ℓ.Word × Tag} (he : entry ∈ c.due) : (Handle.mk entry.2.1).Idle h := by
  apply Handle.idle_of_not_counted
  have ht := (c.sound_iff.mp hc).1 entry he
  exact (ℓ.isCounted_of_tag? ht).trans (isCounted_of_mem_due he)

/-! ## The constants of a layout -/

/-- The constants that every layout starts with are sound. -/
theorem sound_build (ℓ : Layout) : (build ℓ).Sound := by
  rw [sound_iff]
  refine ⟨?_, ⟨?_, ?_⟩, ?_⟩
  · simp [due, build, IsTagged, Layout.ofBool, Layout.tag?_immediate, Layout.tag?_ofDouble]
  · cases ℓ <;> decide
  · cases ℓ <;> decide
  · cases ℓ <;> decide

theorem verify_build (ℓ : Layout) : (build ℓ).verify = .ok () := by
  rcases (build ℓ).sound_or_fault with ⟨hok, -⟩ | ⟨name, hf⟩
  · exact hok
  · exact absurd (sound_build ℓ) (not_sound_of_fault hf)

/-! ## The law -/

/-- Seven words pass the check exactly if they read as they should. Otherwise the first fault
among them is named. Words that pass are projected to what they stand for without a call of the
engine, and handles on them own nothing. -/
theorem check_is_exact (c : Constants ℓ) :
    (c.verify = .ok () ↔ c.Sound) ∧
      (∀ e, c.verify = .error e ↔ ∃ name, e = .constant name ∧ c.Fault name) ∧
      (c.verify = .ok () → ∀ {σ ε : Type} (h : Host ℓ σ ε),
        c.Projects h ∧ ∀ entry ∈ c.due, (Handle.mk entry.2.1).Idle h) := by
  rcases c.sound_or_fault with ⟨hok, hc⟩ | ⟨name, hf⟩
  · refine ⟨iff_of_true hok hc, fun e => ?_, fun _ _ _ h => ⟨hc.projects h, fun _ => hc.idle h⟩⟩
    rw [hok]
    refine iff_of_false nofun ?_
    rintro ⟨name, -, hf⟩
    exact not_sound_of_fault hf hc
  · have herror := hf.verify_eq
    refine ⟨?_, fun e => ?_, ?_⟩
    · rw [herror]
      exact iff_of_false nofun (not_sound_of_fault hf)
    · constructor
      · intro he
        rw [herror] at he
        cases he
        exact ⟨name, rfl, hf⟩
      · rintro ⟨name', rfl, hf'⟩
        exact hf'.verify_eq
    · rw [herror]
      nofun

/-- Words of another make than those of `build`. The immediates have payloads, the word for true
is not one, and the NaN is an inverted double. -/
def foreign : Constants .strict where
  null := (0x0003FFFF00000007 : UInt64)
  undefined := (0x0004000000000001 : UInt64)
  isTrue := (0x0002000000000005 : UInt64)
  isFalse := (0x0002FFFF00000000 : UInt64)
  exception := (0x0006000080000000 : UInt64)
  uninitialized := (0x0000000000000009 : UInt64)
  nan := (0x8007FFFFFFFFFFFF : UInt64)

theorem foreign_constants_pass :
    foreign.verify = .ok () ∧ foreign.Sound ∧
      (⟨Engine.sole .strict, .standard, 0⟩ : Host .strict Bool Unit).project foreign.nan =
        pure (.ok (.float .canonicalNaN)) ∧
      (Handle.mk foreign.isFalse).drop
          (⟨Engine.sole .strict, .standard, 0⟩ : Host .strict Bool Unit) Machine.fresh =
        ⟨.value (), [.release foreign.isFalse none], Machine.fresh⟩ := by
  have hlaw := check_is_exact foreign
  have hok : foreign.verify = .ok () := rfl
  obtain ⟨hprojects, hidle⟩ :=
    hlaw.2.2 hok (⟨Engine.sole .strict, .standard, 0⟩ : Host .strict Bool Unit)
  have hmem : ("false", foreign.isFalse, Tag.bool) ∈ foreign.due := by simp [due]
  exact ⟨hok, hlaw.1.mp hok, hprojects.nan, (hidle _ hmem).drop Machine.fresh⟩

-- Of two wrong words the first one is named.
example : ({ build .strict with undefined := (0 : UInt64), nan := (0 : UInt64) } :
    Constants .strict).verify = .error (.constant "undefined") := rfl

end Constants

/-- A first start never fails, for the constants that it builds pass. -/
theorem Installed.first_eq (ℓ : Layout) (settings : Settings) :
    first ℓ settings = .ok ⟨settings, .build ℓ⟩ := by
  have hsize : ℓ.checkSize ℓ.expectedSize = .ok () := by cases ℓ <;> rfl
  unfold first
  simp only [hsize, Constants.verify_build ℓ]
  rfl

end ScriptHost
