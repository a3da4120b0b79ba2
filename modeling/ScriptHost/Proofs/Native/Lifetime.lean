-- The life of an instance, from its creation to its end. Whatever the library answers, its
-- functions are called with pointers that are out, and everything that it gave out comes back
-- once: buffers before the operation ends that they came in, the context before its runtime.
import ScriptHost.Proofs.Exchange.Conservation
import ScriptHost.Proofs.Native.Exchanges

namespace ScriptHost

/-! ## Outcomes -/

namespace Outcome

variable {S E α β : Type}

/-- An outcome with a value and `post`, or an abort with `broken`, but no unwinding. -/
def Meets (out : Outcome S E α) (post : α → List E → S → Prop) (broken : List E → Prop) : Prop :=
  match out with
  | ⟨.value a, xs, s⟩ => post a xs s
  | ⟨.unwound, _, _⟩ => False
  | ⟨.aborted, xs, _⟩ => broken xs

variable {post : α → List E → S → Prop} {broken : List E → Prop}

theorem Meets.mono {out : Outcome S E α} {post' : α → List E → S → Prop} {broken' : List E → Prop}
    (h : out.Meets post broken) (hp : ∀ a xs s, post a xs s → post' a xs s)
    (hb : ∀ xs, broken xs → broken' xs) : out.Meets post' broken' := by
  obtain ⟨ending, xs, s⟩ := out
  cases ending with
  | value a => exact hp a xs s h
  | unwound => exact h
  | aborted => exact hb xs h

theorem Meets.weaken {out : Outcome S E α} {broken' : List E → Prop} (h : out.Meets post broken)
    (hb : ∀ xs, broken xs → broken' xs) : out.Meets post broken' :=
  h.mono (fun _ _ _ hp => hp) hb

/-- What an outcome meets holds of its own value, events and state. -/
theorem Meets.self {out : Outcome S E α} (h : out.Meets post broken) :
    out.Meets (fun a xs s => out = ⟨.value a, xs, s⟩ ∧ post a xs s) broken := by
  obtain ⟨ending, xs, s⟩ := out
  cases ending with
  | value a => exact ⟨rfl, h⟩
  | unwound => exact h
  | aborted => exact h

theorem Meets.pure {a : α} {s : S} (h : post a [] s) :
    ((Pure.pure a : Action S E α) s).Meets post broken := h

theorem Meets.bind {body : Action S E α} {f : α → Action S E β} {s : S}
    {post' : β → List E → S → Prop} {broken' : List E → Prop} (h : (body s).Meets post broken)
    (hb : ∀ xs, broken xs → broken' xs)
    (hf : ∀ a xs s', post a xs s' → (f a s').Meets (fun b ys s'' => post' b (xs ++ ys) s'')
      fun ys => broken' (xs ++ ys)) : ((body >>= f) s).Meets post' broken' := by
  show (Action.bind body f s).Meets post' broken'
  unfold Action.bind
  cases ho : body s with
  | mk ending xs s' =>
    rw [ho] at h
    cases ending with
    | value a =>
      have hn := hf a xs s' h
      cases hl : f a s' with
      | mk ending ys s'' =>
        rw [hl] at hn
        simp only [hl]
        cases ending <;> exact hn
    | unwound => exact h
    | aborted => exact hb xs h

theorem Meets.map {body : Action S E α} {s : S} {f : α → β} {post' : β → List E → S → Prop}
    (h : (body s).Meets post broken) (hp : ∀ a xs s', post a xs s' → post' (f a) xs s') :
    ((do return f (← body) : Action S E β) s).Meets post' broken := by
  apply h.bind fun _ hb => hb
  intro a xs s' ha
  apply Meets.pure
  rw [List.append_nil]
  exact hp a xs s' ha

theorem Meets.mapEvents {F : Type} {f : E → F} {body : Action S E α} {s : S}
    {post' : α → List F → S → Prop} {broken' : List F → Prop} (h : (body s).Meets post broken)
    (hp : ∀ a xs s', post a xs s' → post' a (xs.map f) s')
    (hb : ∀ xs, broken xs → broken' (xs.map f)) : (body.mapEvents f s).Meets post' broken' := by
  unfold Action.mapEvents
  cases ho : body s with
  | mk ending xs s' =>
    rw [ho] at h
    cases ending with
    | value a => exact hp a xs s' h
    | unwound => exact h
    | aborted => exact hb xs h

end Outcome

/-- Dropping what is left always ends, with an engine that answers. -/
theorem Operation.closeAll_completes {ℓ : Layout} {σ ε : Type} {h : Host ℓ σ ε}
    (hr : h.engine.Replies) (s : Slots ℓ) : Completes (Operation.closeAll h s) := by
  unfold closeAll
  induction s with
  | nil => exact Completes.pure _
  | cons slot s ih =>
    apply Completes.bind _ fun _ => ih
    cases slot with
    | none => exact Completes.pure _
    | some x => exact Host.drop_completes hr x

end ScriptHost

namespace ScriptHost.Native

variable {ℓ : Layout} {σ α β : Type}

/-! ## Parts of a session -/

/-- What is done with the library in an event of a session. -/
def SessionEvent.uses : SessionEvent ℓ → List (Event ℓ)
  | .function e => [e]
  | .exchange e => Native.uses e

/-- The event of an exchange. -/
def SessionEvent.exchange? : SessionEvent ℓ → Option (ScriptHost.Event ℓ (Event ℓ))
  | .function _ => none
  | .exchange e => some e

def allUses (events : List (SessionEvent ℓ)) : List (Event ℓ) := events.flatMap SessionEvent.uses

def exchanges (events : List (SessionEvent ℓ)) : List (ScriptHost.Event ℓ (Event ℓ)) :=
  events.filterMap SessionEvent.exchange?

theorem allUses_append (xs ys : List (SessionEvent ℓ)) :
    allUses (xs ++ ys) = allUses xs ++ allUses ys := List.flatMap_append

theorem exchanges_append (xs ys : List (SessionEvent ℓ)) :
    exchanges (xs ++ ys) = exchanges xs ++ exchanges ys := List.filterMap_append

@[simp] theorem allUses_function (xs : List (Event ℓ)) : allUses (xs.map .function) = xs := by
  simp [allUses, List.flatMap_map, SessionEvent.uses]

theorem allUses_exchange (xs : List (ScriptHost.Event ℓ (Event ℓ))) :
    allUses (xs.map .exchange) = xs.flatMap uses := by
  simp [allUses, List.flatMap_map, SessionEvent.uses]

theorem exchanges_exchange (xs : List (ScriptHost.Event ℓ (Event ℓ))) :
    exchanges (xs.map .exchange) = xs := by
  simp [exchanges, List.filterMap_map, Function.comp_def, SessionEvent.exchange?]

/-- What a session has done from a state with `s` out, where it aborts in a projection that goes
too deep. -/
structure Broken (depth : Nat) (s : Held) (events : List (SessionEvent ℓ)) : Prop where
  follows : Follows s (allUses events) s
  tooDeep : Operation.TooDeep depth (heard (exchanges events))

theorem Broken.of_later {depth : Nat} {s : Held} {xs ys : List (SessionEvent ℓ)}
    (h : Broken depth s ys) (hx : Follows s (allUses xs) s) : Broken depth s (xs ++ ys) where
  follows := by
    rw [allUses_append]
    exact hx.append h.follows
  tooDeep := by
    rw [exchanges_append, heard_append]
    exact h.tooDeep.of_later _

namespace Session

/-- Steps that were taken one after the other, with what each of them was answered and what was
done with the library in it. -/
inductive Taken (lib : Library ℓ σ) (settings : Settings) (depth : Nat) :
    Session ℓ → Machine σ → List (Step ℓ) → List (Answer ℓ) → List (List (Event ℓ)) →
    Session ℓ → Machine σ → Prop
  | done {s : Session ℓ} {m : Machine σ} : Taken lib settings depth s m [] [] [] s m
  | next {s s' s'' : Session ℓ} {m m' m'' : Machine σ} {step : Step ℓ} {steps : List (Step ℓ)}
    {answer : Answer ℓ} {answers : List (Answer ℓ)} {xs : List (SessionEvent ℓ)}
    {parts : List (List (Event ℓ))} :
    s.perform lib settings depth step m = ⟨.value (answer, s'), xs, m'⟩ →
    Taken lib settings depth s' m' steps answers parts s'' m'' →
    Taken lib settings depth s m (step :: steps) (answer :: answers) (allUses xs :: parts) s'' m''

section

variable {owner : σ → UInt64 → Option UInt64} {s : Held} {m : Machine σ}

theorem withLibrary_meets {u : Use ℓ σ α} {Q : α → Held → Prop} (h : Leads each owner s u Q)
    (hm : Owns owner s m) (broken : List (SessionEvent ℓ) → Prop) :
    (withLibrary u m).Meets (fun a xs m' => ∃ s', Q a s' ∧ Owns owner s' m' ∧
      Follows s (allUses xs) s') broken := by
  have hs : Leads SessionEvent.uses owner s (withLibrary u) Q := h.mapEvents fun _ => rfl
  obtain ⟨a, xs, m', s', hu, hout⟩ := hs m hm
  rw [hu]
  exact ⟨s', hout⟩

theorem mapEvents_meets {part : Exchange ℓ σ (Event ℓ) α}
    {A : List (ScriptHost.Event ℓ (Event ℓ)) → Prop} (hk : (upkeep owner s).Keeps part)
    (he : Ends part A) (hm : Owns owner s m) :
    (part.mapEvents SessionEvent.exchange m).Meets (fun _ xs m' => Owns owner s m' ∧
      Follows s (allUses xs) s) fun xs => Follows s (allUses xs) s ∧ A (heard (exchanges xs)) := by
  have hpart : (part m).Meets (fun _ xs m' => Owns owner s m' ∧ Follows s (xs.flatMap uses) s)
      fun xs => Follows s (xs.flatMap uses) s ∧ A (heard xs) := by
    have hkm := hk m
    have hem := he m
    cases hp : part m with
    | mk ending xs m' =>
      rw [hp] at hkm hem
      cases ending with
      | value a => exact hkm hm
      | unwound => simp at hem
      | aborted => exact ⟨hkm hm, by simpa using hem⟩
  apply hpart.mapEvents
  · intro _ xs m' h
    rw [allUses_exchange]
    exact h
  · intro xs h
    rw [allUses_exchange, exchanges_exchange]
    exact h

end

section

variable {lib : Library ℓ σ} {owner : σ → UInt64 → Option UInt64} {settings : Settings}
  {depth : Nat} {m : Machine σ} (hl : lib.Remembers owner)
include hl

theorem host_heeds (s : Session ℓ) (settings : Settings) (depth : Nat) :
    (upkeep owner s.inst.held).Heeds (s.host lib settings depth) := upkeep_heeds hl rfl

/-- One step. The pointers of the instance stay, and all else that the library gives out in the
step comes back in it. -/
theorem perform_meets {s : Session ℓ} {out : Held} (hs : s.inst.held = out) (step : Step ℓ)
    (hm : Owns owner out m) :
    (s.perform lib settings depth step m).Meets (fun p xs m' => p.2.inst.held = out ∧
      Owns owner out m' ∧ Tidy out (allUses xs)) (Broken depth out) := by
  subst hs
  cases step with
  | operation op =>
    have hk := (host_heeds hl s settings depth).keeps_run s.slots op
    have he := Operation.run_ends (h := s.host lib settings depth)
      (s.inst.engine_replies lib) s.slots op
    apply ((mapEvents_meets hk he hm).weaken fun _ hb => ⟨hb.1, hb.2⟩).map
    rintro ⟨answer, slots⟩ xs m' ⟨hm', hx⟩
    exact ⟨rfl, hm', hx.tidy⟩
  | interrupt flag =>
    have hset := withLibrary_meets (s.inst.setInterrupt_leads hl flag) hm
      (Broken depth s.inst.held)
    have hstep : (s.setInterrupt lib flag m).Meets (fun s' xs m' =>
        s'.inst.held = s.inst.held ∧ Owns owner s.inst.held m' ∧
          Tidy s.inst.held (allUses xs)) (Broken depth s.inst.held) := by
      apply hset.map
      rintro y xs m' ⟨_, ⟨hy, rfl⟩, hm', hx⟩
      exact ⟨hy, hm', hx.tidy⟩
    exact hstep.map fun _ _ _ hp => hp

/-- Steps one after the other. What is done with the library falls into parts, one for each
step, and everything comes back in the part that it was given out in. -/
theorem performAll_meets {s : Session ℓ} {out : Held} (hs : s.inst.held = out)
    (steps : List (Step ℓ)) (hm : Owns owner out m) :
    (s.performAll lib settings depth steps m).Meets (fun p xs m' => p.2.inst.held = out ∧
      Owns owner out m' ∧ ∃ parts, Taken lib settings depth s m steps p.1 parts p.2 m' ∧
        allUses xs = parts.flatten ∧ ∀ part ∈ parts, Tidy out part) (Broken depth out) := by
  induction steps generalizing s m with
  | nil =>
    apply Outcome.Meets.pure
    exact ⟨hs, hm, [], .done, rfl, nofun⟩
  | cons step steps ih =>
    apply (perform_meets hl hs step hm).self.bind fun _ hb => hb
    rintro ⟨answer, s'⟩ xs m' ⟨hstep, hs', hm', hx⟩
    apply ((ih hs' hm').weaken fun ys hb => hb.of_later hx.follows).map
    rintro ⟨answers, s''⟩ ys m'' ⟨hs'', hm'', parts, htaken, hy, hparts⟩
    refine ⟨hs'', hm'', allUses xs :: parts, .next hstep htaken, ?_, ?_⟩
    · rw [allUses_append, hy, List.flatten_cons]
    · exact List.forall_mem_cons.mpr ⟨hx, hparts⟩

/-- The handles that are left are dropped, which always ends. -/
theorem empty_meets {s : Session ℓ} {out : Held} (hs : s.inst.held = out)
    (hm : Owns owner out m) :
    (s.empty lib settings depth m).Meets (fun s' xs m' => s'.inst.held = out ∧
      Owns owner out m' ∧ Tidy out (allUses xs)) fun _ => False := by
  subst hs
  have hk := (host_heeds hl s settings depth).keeps_closeAll s.slots
  have hc := Operation.closeAll_completes (h := s.host lib settings depth)
    (s.inst.engine_replies lib) s.slots
  apply (mapEvents_meets hk (hc.ends fun _ => False) hm).bind fun _ hb => hb.2
  rintro _ xs m' ⟨hm', hx⟩
  apply Outcome.Meets.pure
  rw [List.append_nil]
  exact ⟨rfl, hm', hx.tidy⟩

end

end Session

/-! ## The beginning and the end -/

/-- What the creation of an instance comes to, with what is done with the library in it. -/
inductive Opened : Except StartupError Instance → List (Event ℓ) → Prop
  | noRuntime (flags : Flags) :
    Opened (.error (.engine "runtime")) [.call .newRuntime flags none]
  | noContext (runtime : UInt64) (flags₁ flags₂ flags₃ : Flags) :
    Opened (.error (.engine "context")) [.call .newRuntime flags₁ (some runtime),
      .call (.newContext runtime) flags₂ none, .call (.freeRuntime runtime) flags₃ ()]
  | whole (x : Instance) (flags₁ flags₂ : Flags) :
    Opened (.ok x) [.call .newRuntime flags₁ (some x.runtime),
      .call (.newContext x.runtime) flags₂ (some x.context)]

/-- What is done with the library at the end of an instance. -/
def closing (x : Instance) (flags₁ flags₂ : Flags) : List (Event ℓ) :=
  [.call (.freeContext x.context) flags₁ (), .call (.freeRuntime x.runtime) flags₂ ()]

/-- What is out once an instance was created, or was not. -/
def heldBy : Except StartupError Instance → Held
  | .ok x => x.held
  | .error _ => .nothing

/-- A runtime without contexts is freed. -/
theorem freeRuntime_follows (runtime : UInt64) (flags : Flags) :
    Follows ⟨[runtime], [], []⟩ [(.call (.freeRuntime runtime) flags () : Event ℓ)] .nothing := by
  refine .next ?_ ?_ .done
  · constructor <;> simp [Request.runtime?, Request.context?, Request.buffer?]
  · simp [Held.after, Held.nothing]

theorem Opened.follows {r : Except StartupError Instance} {events : List (Event ℓ)}
    (h : Opened r events) : Follows .nothing events (heldBy r) := by
  have hfirst : Held.nothing.Allows (.newRuntime : Request ℓ) := by
    constructor <;> simp [Request.runtime?, Request.context?, Request.buffer?]
  have hsecond : ∀ runtime, (⟨[runtime], [], []⟩ : Held).Allows
      (.newContext runtime : Request ℓ) := by
    intro runtime
    constructor <;> simp [Request.runtime?, Request.context?, Request.buffer?]
  cases h with
  | noRuntime flags => exact .next hfirst rfl .done
  | noContext runtime flags₁ flags₂ flags₃ =>
    exact .next hfirst rfl (.next (hsecond runtime) rfl (freeRuntime_follows runtime flags₃))
  | whole x flags₁ flags₂ => exact .next hfirst rfl (.next (hsecond x.runtime) rfl .done)

/-- The end of an instance is that of any with the same pointers. -/
theorem closing_eq {x y : Instance} (h : y.held = x.held) (flags₁ flags₂ : Flags) :
    (closing y flags₁ flags₂ : List (Event ℓ)) = closing x flags₁ flags₂ := by
  simp only [Instance.held, Instance.lending, Held.mk.injEq, List.cons.injEq, Prod.mk.injEq] at h
  obtain ⟨⟨hr, -⟩, ⟨⟨hc, -⟩, -⟩, -⟩ := h
  unfold closing
  rw [hr, hc]

theorem closing_follows (x : Instance) (flags₁ flags₂ : Flags) :
    Follows x.held (closing x flags₁ flags₂ : List (Event ℓ)) .nothing := by
  refine .next ?_ ?_ (freeRuntime_follows x.runtime flags₂)
  · constructor <;> simp [Request.runtime?, Request.context?, Request.buffer?, Instance.held,
      Instance.lending]
  · simp [Held.after, Instance.held, Instance.lending]

/-! ## The whole life -/

/-- What a life comes to that begins on a machine and takes some steps, with what is done with the
library in it. An instance that was created does its steps, drops the handles that are left, and
is closed. -/
inductive Lived (lib : Library ℓ σ) (settings : Settings) (depth : Nat) (m : Machine σ)
    (steps : List (Step ℓ)) : Except StartupError (List (Answer ℓ)) → List (Event ℓ) → Prop
  | failed {e : StartupError} {events : List (Event ℓ)} :
    Opened (.error e) events → Lived lib settings depth m steps (.error e) events
  | full {x : Instance} {s s' : Session ℓ} {m₁ m₂ m₃ : Machine σ} {answers : List (Answer ℓ)}
    {opening emptying : List (SessionEvent ℓ)} {parts : List (List (Event ℓ))}
    {flags₁ flags₂ : Flags} :
    Session.create lib m = ⟨.value (.ok ⟨x, []⟩), opening, m₁⟩ → Opened (.ok x) (allUses opening) →
    Session.Taken lib settings depth ⟨x, []⟩ m₁ steps answers parts s m₂ →
    (∀ part ∈ parts, Tidy x.held part) →
    s.empty lib settings depth m₂ = ⟨.value s', emptying, m₃⟩ → Tidy x.held (allUses emptying) →
    Lived lib settings depth m steps (.ok answers)
      (allUses opening ++ (parts.flatten ++ (allUses emptying ++ closing x flags₁ flags₂)))

/-- What is done with the library in a life that aborts, in a projection that goes too deep. -/
def CutShort (depth : Nat) (events : List (SessionEvent ℓ)) : Prop :=
  ∃ x opening rest, allUses events = opening ++ rest ∧ Opened (.ok x) opening ∧
    Tidy x.held rest ∧ Operation.TooDeep depth (heard (exchanges events))

theorem Follows.flatten {s : Held} {parts : List (List (Event ℓ))}
    (h : ∀ part ∈ parts, Follows s part s) : Follows s parts.flatten s := by
  induction parts with
  | nil => exact .done
  | cons part parts ih =>
    have hpart := h part List.mem_cons_self
    exact hpart.append (ih fun p hp => h p (List.mem_cons_of_mem part hp))

/-- After a life nothing is out. -/
theorem Lived.tidy {lib : Library ℓ σ} {settings : Settings} {depth : Nat} {m : Machine σ}
    {steps : List (Step ℓ)} {r : Except StartupError (List (Answer ℓ))} {events : List (Event ℓ)}
    (h : Lived lib settings depth m steps r events) : Tidy .nothing events := by
  apply Follows.tidy
  cases h with
  | failed ho => exact ho.follows
  | full _ ho _ hparts _ hrest =>
    have hmiddle := Follows.flatten fun part hpart => (hparts part hpart).follows
    exact ho.follows.append (hmiddle.append (hrest.follows.append (closing_follows _ _ _)))

namespace Session

section

variable {lib : Library ℓ σ} {owner : σ → UInt64 → Option UInt64} (hl : lib.Remembers owner)
include hl

theorem native_create_meets (m : Machine σ) :
    (Native.create lib m).Meets (fun r xs m' => Opened r xs ∧ Owns owner (heldBy r) m')
      fun _ => False := by
  unfold Native.create
  rw [Action.bind_of_value (lib.ask_eq .newRuntime m)]
  cases hr : (lib.answer .newRuntime m).1 with
  | none => exact ⟨.noRuntime _, nofun⟩
  | some runtime =>
    dsimp only
    rw [Action.bind_of_value (lib.ask_eq (.newContext runtime) _)]
    cases hc : (lib.answer (.newContext runtime) (lib.answer .newRuntime m).2).1 with
    | none => exact ⟨.noContext _ _ _ _, nofun⟩
    | some context =>
      refine ⟨.whole ⟨runtime, context, none⟩ _ _, ?_⟩
      intro c hmem
      cases List.mem_singleton.mp hmem
      exact hl.made _ _ _ hc

theorem create_meets (m : Machine σ) :
    (create lib m).Meets (fun r xs m' => ∃ r', Opened r' (allUses xs) ∧
      Owns owner (heldBy r') m' ∧ r = r'.map fun inst => { inst, slots := [] }) fun _ => False := by
  have hmap : (withLibrary (Native.create lib) m).Meets (fun r xs m' =>
      Opened r (allUses xs) ∧ Owns owner (heldBy r) m') fun _ => False := by
    apply (native_create_meets hl m).mapEvents
    · intro r xs m' h
      rw [allUses_function]
      exact h
    · exact fun _ hf => hf
  apply hmap.map
  intro r xs m' h
  exact ⟨r, h.1, h.2, rfl⟩

end

theorem close_meets (lib : Library ℓ σ) (s : Session ℓ) (m : Machine σ) :
    (s.close lib m).Meets (fun _ xs _ => ∃ flags₁ flags₂,
      allUses xs = closing s.inst flags₁ flags₂) fun _ => False := by
  unfold close withLibrary Instance.close Instance.leave
  cases s.inst.interrupt <;> exact ⟨_, _, rfl⟩

/-- A life never unwinds. It ends with the instance closed, or with none where the library made
no runtime or no context, or it aborts in a projection that goes too deep. Each call on the way
is made with pointers that are out. In each step the buffers come back that came in it, and at
the end everything has come back that the library gave out. -/
theorem everything_given_out_comes_back {lib : Library ℓ σ}
    {owner : σ → UInt64 → Option UInt64} (hl : lib.Remembers owner) (settings : Settings)
    (depth : Nat) (steps : List (Step ℓ)) (m : Machine σ) :
    (life lib settings depth steps m).Meets (fun r events _ =>
      Lived lib settings depth m steps r (allUses events) ∧ Tidy .nothing (allUses events))
      (CutShort depth) := by
  have hlife : (life lib settings depth steps m).Meets
      (fun r events _ => Lived lib settings depth m steps r (allUses events)) (CutShort depth) := by
    apply (create_meets hl m).self.bind fun _ hf => hf.elim
    rintro _ xs m₁ ⟨hcreate, r, hopened, hm₁, rfl⟩
    cases r with
    | error e =>
      apply Outcome.Meets.pure
      rw [List.append_nil]
      exact .failed hopened
    | ok x =>
      apply (performAll_meets (s := ⟨x, []⟩) hl rfl steps hm₁).bind
      · intro ys hb
        refine ⟨x, allUses xs, allUses ys, allUses_append xs ys, hopened, hb.follows.tidy, ?_⟩
        rw [exchanges_append, heard_append]
        exact hb.tooDeep.of_later _
      rintro ⟨answers, s₁⟩ ys m₂ ⟨hs₁, hm₂, parts, htaken, hy, hparts⟩
      apply (empty_meets hl hs₁ hm₂).self.bind fun _ hf => hf.elim
      rintro s₂ zs m₃ ⟨hempty, hs₂, -, hz⟩
      apply ((close_meets lib s₂ m₃).weaken fun _ hf => hf.elim).map
      rintro _ ws - ⟨flags₁, flags₂, hw⟩
      rw [closing_eq hs₂] at hw
      rw [allUses_append, allUses_append, allUses_append, hy, hw]
      exact .full hcreate hopened htaken hparts hempty hz
  exact hlife.mono (fun _ _ _ h => ⟨h, h.tidy⟩) fun _ h => h

end Session

/-! ## A small library -/

/-- The word of the only value. -/
def Library.seven (ℓ : Layout) : ℓ.Word := ℓ.assemble .bigInt 16

/-- A library whose only value is the big integer 7. Every script gives it, and whatever else can
throw does. Its own state tells the runtime of each context. -/
def Library.small (ℓ : Layout) : Library ℓ (List (UInt64 × UInt64)) where
  answer
    | .newRuntime => fun m => (some 0x100, m)
    | .newContext runtime => fun m => (some 0x200, { m with inner := (0x200, runtime) :: m.inner })
    | .freeContext context => fun m => ((), { m with inner := m.inner.eraseP (·.1 == context) })
    | .freeRuntime _ => fun m => ((), m)
    | .runtimeOf context => fun m => ((m.inner.lookup context).getD 0, m)
    | .freeValue _ _ => fun m => ((), m)
    | .toText _ _ _ => fun m => (some ⟨0x300, [55]⟩, m)
    | .freeText _ _ => fun m => ((), m)
    | .stringify _ _ _ _ => fun m => (ℓ.immediate .exception 0, m)
    | .parse _ _ _ _ => fun m => (ℓ.immediate .exception 0, m)
    | .takeException _ => fun m => (ℓ.immediate .undefined 0, m)
    | .toDouble _ _ => fun m => ((-1, none), m)
    | .toBigInteger _ _ => fun m => ((0, some 7), m)
    | .newText _ _ => fun m => (ℓ.immediate .exception 0, m)
    | .eval _ _ _ _ _ => fun m => (seven ℓ, m.retain ℓ (seven ℓ))
    | .setInterruptHandler _ _ _ => fun m => ((), m)

theorem Library.small_remembers (ℓ : Layout) :
    (small ℓ).Remembers fun contexts context => contexts.lookup context where
  made runtime m context h := by
    cases h
    rfl
  kept r m context runtime hr h := by
    cases r with
    | newRuntime => cases hr
    | newContext p => cases hr
    | freeContext p => cases hr
    | freeRuntime p => cases hr
    | eval p source length file flags =>
      show (m.retain ℓ (seven ℓ)).inner.lookup context = some runtime
      rw [Machine.inner_retain]
      exact h
    | _ => exact h
  told m context runtime h := by
    show (m.inner.lookup context).getD 0 = runtime
    rw [h]
    rfl

/-- A machine with one interrupt flag, where the small library has made nothing yet. -/
def Session.smallStart : Machine (List (UInt64 × UInt64)) :=
  ⟨[], fun _ => 0, ⟨0x1F80, 0x37F⟩, [⟨false, 1⟩]⟩

/-- An interrupt handle is handed over, a script is run, and its result is read as a number and
as a text. The value is freed with its handle before the instance ends. -/
def Session.smallLife (ℓ : Layout) : List (Step ℓ) :=
  [.interrupt 0, .operation (.eval "7n" "seven.js"), .operation (.toBigInteger (Library.seven ℓ)),
    .operation (.toText (Library.seven ℓ))]

theorem Session.small_library_gets_everything_back :
    ∃ answers events m',
      life (Library.small .boxed) .standard 0 (smallLife .boxed) smallStart =
        ⟨.value (.ok answers), events, m'⟩ ∧
      Lived (Library.small .boxed) .standard 0 smallStart (smallLife .boxed) (.ok answers)
        (allUses events) ∧
      Tidy .nothing (allUses events) ∧
      timesGiven (.buffer ⟨0x300, [55]⟩) (allUses events) = 2 := by
  have hlaw := everything_given_out_comes_back (Library.small_remembers .boxed) .standard 0
    (smallLife .boxed) smallStart
  exact ⟨_, _, _, rfl, hlaw.1, hlaw.2, rfl⟩

end ScriptHost.Native
