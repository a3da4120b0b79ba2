-- Big integers as an instance reads them. The library stores a number beside its return code, and
-- the digits of the value are asked for only when the code is zero. They alone decide what is read.
import ScriptHost.Proofs.Native.Requests
import ScriptHost.Proofs.Text.Decimal
import ScriptHost.Proofs.Text.WellFormed

namespace ScriptHost

/-- What is read from a text is never an exception. -/
theorem BigInteger.ofDecimal_ne_threw (s : String) : ofDecimal s ≠ threw := by
  unfold ofDecimal
  split
  · split <;> simp
  · simp

/-- Nor is what is read from digits that may be no text. -/
theorem BigInteger.elim_ofDecimal_ne_threw (s : Option String) :
    s.elim outOfRange ofDecimal ≠ threw := by
  cases s with
  | none => exact nofun
  | some s => exact ofDecimal_ne_threw s

namespace Native

variable {ℓ : Layout} {σ : Type}

/-! ## What the library says -/

namespace Library

/-- A call as it is seen. -/
def called (lib : Library ℓ σ) (r : Request ℓ) (m : Machine σ) : Event ℓ :=
  .call r m.flags (lib.answer r m).1

variable (lib : Library ℓ σ) (x : Instance) (w : ℓ.Word) (m : Machine σ)

/-- The return code of the coercion. -/
def code : Int32 := (lib.answer (.toBigInteger x.context w) m).1.1

/-- The machine after the coercion. -/
def coerced : Machine σ := (lib.answer (.toBigInteger x.context w) m).2

/-- The digits of the value, as they are given after the coercion. -/
def digits? : Option Buffer := (lib.answer (.toText x.context w false) (lib.coerced x w m)).1

/-- The machine after the digits. -/
def written : Machine σ := (lib.answer (.toText x.context w false) (lib.coerced x w m)).2

/-- The coercion fails, or there are no digits after it. -/
def Throws : Prop := lib.code x w m ≠ 0 ∨ lib.digits? x w m = none

/-- The coercion succeeds, whatever number it stores, and the digits are some bytes. -/
def Gives (bytes : List UInt8) : Prop :=
  lib.code x w m = 0 ∧ ∃ b, lib.digits? x w m = some b ∧ b.bytes = bytes

theorem throws_or_gives : lib.Throws x w m ∨ ∃ bytes, lib.Gives x w m bytes := by
  by_cases hc : lib.code x w m = 0
  · cases hd : lib.digits? x w m with
    | none => exact Or.inl (Or.inr hd)
    | some b => exact Or.inr ⟨_, hc, b, hd, rfl⟩
  · exact Or.inl (Or.inl hc)

variable {lib x w m} in
theorem Gives.not_throws {bytes : List UInt8} (h : lib.Gives x w m bytes) :
    ¬ lib.Throws x w m := by
  obtain ⟨hc, b, hd, -⟩ := h
  rintro (hc' | hd')
  · exact hc' hc
  · rw [hd] at hd'
    cases hd'

variable {lib x w m} in
/-- The digits are some bytes or others, but not both. -/
theorem Gives.unique {bytes bytes' : List UInt8} (h : lib.Gives x w m bytes)
    (h' : lib.Gives x w m bytes') : bytes = bytes' := by
  obtain ⟨-, b, hd, rfl⟩ := h
  obtain ⟨-, b', hd', rfl⟩ := h'
  rw [hd] at hd'
  rw [Option.some.inj hd']

/-- The same library with another number stored in each coercion. -/
def storing (stored : UInt64 → ℓ.Word → Machine σ → Option Int64) : Library ℓ σ where
  answer
    | .toBigInteger context w => fun m =>
      let out := lib.answer (.toBigInteger context w) m
      ((out.1.1, stored context w m), out.2)
    | r => lib.answer r

end Library

/-! ## What the instance reads -/

namespace Instance

section

variable {lib : Library ℓ σ} {x : Instance} {w : ℓ.Word} {m : Machine σ}

theorem ask_coercion (lib : Library ℓ σ) (x : Instance) (w : ℓ.Word) (m : Machine σ) :
    lib.ask (.toBigInteger x.context w) m =
      ⟨.value (lib.code x w m, (lib.answer (.toBigInteger x.context w) m).1.2),
        [lib.called (.toBigInteger x.context w) m], lib.coerced x w m⟩ := rfl

theorem ask_digits {text : Option Buffer} (hd : lib.digits? x w m = text) :
    lib.ask (.toText x.context w false) (lib.coerced x w m) =
      ⟨.value text, [lib.called (.toText x.context w false) (lib.coerced x w m)],
        lib.written x w m⟩ := by
  subst hd
  rfl

/-- A code that is not zero ends the reading. The digits are not asked for. -/
theorem toBigInteger_of_code (hc : lib.code x w m ≠ 0) :
    x.toBigInteger lib w m =
      ⟨.value .threw, [lib.called (.toBigInteger x.context w) m], lib.coerced x w m⟩ := by
  unfold toBigInteger
  rw [Action.bind_of_value (ask_coercion lib x w m)]
  dsimp only
  rw [if_pos hc]
  rfl

theorem toBigInteger_of_no_digits (hc : lib.code x w m = 0) (hd : lib.digits? x w m = none) :
    x.toBigInteger lib w m =
      ⟨.value .threw, [lib.called (.toBigInteger x.context w) m,
        lib.called (.toText x.context w false) (lib.coerced x w m)], lib.written x w m⟩ := by
  unfold toBigInteger
  rw [Action.bind_of_value (ask_coercion lib x w m)]
  dsimp only
  rw [if_neg (not_not.mpr hc), Action.bind_of_value (ask_digits hd)]
  rfl

/-- The buffer of the digits is read and given back. -/
theorem toBigInteger_of_digits {b : Buffer} (hc : lib.code x w m = 0)
    (hd : lib.digits? x w m = some b) :
    x.toBigInteger lib w m =
      ⟨.value ((Utf8.decode? b.bytes).elim .outOfRange .ofDecimal),
        [lib.called (.toBigInteger x.context w) m,
          lib.called (.toText x.context w false) (lib.coerced x w m), .read b,
          lib.called (.freeText x.context b) (lib.written x w m)],
        (lib.answer (.freeText x.context b) (lib.written x w m)).2⟩ := by
  unfold toBigInteger
  rw [Action.bind_of_value (ask_coercion lib x w m)]
  dsimp only
  rw [if_neg (not_not.mpr hc), Action.bind_of_value (ask_digits hd)]
  rfl

end

/-! ## The outcome -/

/-- What comes of reading a big integer: an exception exactly where the library throws one, and
otherwise what the digits say. No exception is taken on the way. -/
structure Reads (lib : Library ℓ σ) (x : Instance) (w : ℓ.Word) (m : Machine σ) (n : BigInteger)
    (events : List (Event ℓ)) : Prop where
  threw : n = .threw ↔ lib.Throws x w m
  unasked : lib.code x w m ≠ 0 → events = [lib.called (.toBigInteger x.context w) m]
  digits : ∀ s, lib.Gives x w m (Utf8.encode s) → n = .ofDecimal s
  malformed : ∀ bytes, lib.Gives x w m bytes → (∀ s, Utf8.encode s ≠ bytes) → n = .outOfRange
  untaken : ∀ context flags reply, .call (.takeException context) flags reply ∉ events

section

variable {lib : Library ℓ σ} {x : Instance} {w : ℓ.Word} {m : Machine σ}

theorem Reads.of_throws (ht : lib.Throws x w m) {events : List (Event ℓ)}
    (hunasked : lib.code x w m ≠ 0 → events = [lib.called (.toBigInteger x.context w) m])
    (huntaken : ∀ context flags reply, .call (.takeException context) flags reply ∉ events) :
    x.Reads lib w m .threw events where
  threw := iff_of_true rfl ht
  unasked := hunasked
  digits _ hg := absurd ht hg.not_throws
  malformed _ hg _ := absurd ht hg.not_throws
  untaken := huntaken

theorem reads_of_throws (ht : lib.Throws x w m) :
    ∃ events m', x.toBigInteger lib w m = ⟨.value .threw, events, m'⟩ ∧
      x.Reads lib w m .threw events := by
  by_cases hc : lib.code x w m = 0
  · have hd := ht.resolve_left (not_not.mpr hc)
    refine ⟨_, _, toBigInteger_of_no_digits hc hd, .of_throws ht (fun hc' => absurd hc hc') ?_⟩
    simp [Library.called]
  · refine ⟨_, _, toBigInteger_of_code hc, .of_throws ht (fun _ => rfl) ?_⟩
    simp [Library.called]

theorem reads_of_gives {bytes : List UInt8} (hg : lib.Gives x w m bytes) :
    ∃ n events m', x.toBigInteger lib w m = ⟨.value n, events, m'⟩ ∧
      x.Reads lib w m n events := by
  obtain ⟨b, hd, hb⟩ := hg.2
  -- The library gives no bytes but these, so whatever text it gives is read from them.
  have hdigits : ∀ s, lib.Gives x w m (Utf8.encode s) → Utf8.decode? b.bytes = some s := by
    intro s hs
    rw [hb, Utf8.decode?_eq_some_iff]
    exact hs.unique hg
  have hmalformed : ∀ bytes', lib.Gives x w m bytes' → (∀ s, Utf8.encode s ≠ bytes') →
      Utf8.decode? b.bytes = none := by
    intro bytes' hg' hnone
    rw [hb, ← hg'.unique hg]
    cases hr : Utf8.decode? bytes' with
    | none => rfl
    | some s => exact absurd ((Utf8.decode?_eq_some_iff _ s).mp hr) (hnone s)
  refine ⟨_, _, _, toBigInteger_of_digits hg.1 hd,
    ⟨iff_of_false (BigInteger.elim_ofDecimal_ne_threw _) hg.not_throws,
      fun hc => absurd hg.1 hc, ?_, ?_, ?_⟩⟩
  · intro s hs
    rw [hdigits s hs]
    rfl
  · intro bytes' hg' hnone
    rw [hmalformed bytes' hg' hnone]
    rfl
  · simp [Library.called]

theorem toBigInteger_reads (lib : Library ℓ σ) (x : Instance) (w : ℓ.Word) (m : Machine σ) :
    ∃ n events m', x.toBigInteger lib w m = ⟨.value n, events, m'⟩ ∧
      x.Reads lib w m n events := by
  rcases lib.throws_or_gives x w m with ht | ⟨bytes, hg⟩
  · exact ⟨_, reads_of_throws ht⟩
  · exact reads_of_gives hg

/-- What the library stores is not looked at. -/
theorem toBigInteger_storing (lib : Library ℓ σ)
    (stored : UInt64 → ℓ.Word → Machine σ → Option Int64) (x : Instance) (w : ℓ.Word)
    (m : Machine σ) :
    (x.toBigInteger (lib.storing stored) w m).ending = (x.toBigInteger lib w m).ending ∧
      (x.toBigInteger (lib.storing stored) w m).state = (x.toBigInteger lib w m).state := by
  by_cases hc : lib.code x w m = 0
  · cases hd : lib.digits? x w m with
    | none =>
      rw [toBigInteger_of_no_digits hc hd,
        toBigInteger_of_no_digits (show (lib.storing stored).code x w m = 0 from hc) hd]
      exact ⟨rfl, rfl⟩
    | some b =>
      rw [toBigInteger_of_digits hc hd,
        toBigInteger_of_digits (show (lib.storing stored).code x w m = 0 from hc) hd]
      exact ⟨rfl, rfl⟩
  · rw [toBigInteger_of_code hc,
      toBigInteger_of_code (show (lib.storing stored).code x w m ≠ 0 from hc)]
    exact ⟨rfl, rfl⟩

end

end Instance

end Native

end ScriptHost
