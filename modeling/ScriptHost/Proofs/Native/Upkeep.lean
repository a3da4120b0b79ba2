-- What a library has given out and what has come back to it. A run that keeps to the protocol
-- of the library passes it no pointer that is not out, and gives everything back once. The
-- requests of an engine over the library keep to it.
import ScriptHost.Native.Session
import ScriptHost.Proofs.Exchange.Discipline
import ScriptHost.Proofs.Fpu.Nesting

namespace ScriptHost.Native

variable {ℓ : Layout} {σ E α β : Type}

/-! ## What is out -/

/-- What a library has given out and not got back. -/
structure Held where
  runtimes : List UInt64
  /-- Each context stands with the runtime that it was made on. -/
  contexts : List (UInt64 × UInt64)
  buffers : List Buffer

def Held.nothing : Held := ⟨[], [], []⟩

/-- The runtime that a function is called with. -/
def Request.runtime? : Request ℓ → Option UInt64
  | .newContext runtime => some runtime
  | .freeRuntime runtime => some runtime
  | .freeValue runtime _ => some runtime
  | .setInterruptHandler runtime _ _ => some runtime
  | _ => none

/-- The context that a function is called with. -/
def Request.context? : Request ℓ → Option UInt64
  | .freeContext context => some context
  | .runtimeOf context => some context
  | .toText context _ _ => some context
  | .freeText context _ => some context
  | .stringify context _ _ _ => some context
  | .parse context _ _ _ => some context
  | .takeException context => some context
  | .toDouble context _ => some context
  | .toBigInteger context _ => some context
  | .newText context _ => some context
  | .eval context _ _ _ _ => some context
  | _ => none

/-- The buffer that a function takes back. -/
def Request.buffer? : Request ℓ → Option Buffer
  | .freeText _ b => some b
  | _ => none

/-- Whether a function neither creates nor frees a runtime or a context. -/
def Request.isUse : Request ℓ → Bool
  | .newRuntime => false
  | .newContext _ => false
  | .freeContext _ => false
  | .freeRuntime _ => false
  | _ => true

namespace Held

/-- A call that is in order: its pointers are out, a runtime that it frees has no context any
more, and a buffer that it takes back is out. -/
structure Allows (s : Held) (r : Request ℓ) : Prop where
  runtime : ∀ p, r.runtime? = some p → p ∈ s.runtimes
  context : ∀ p, r.context? = some p → p ∈ s.contexts.map Prod.fst
  contextsFirst : ∀ p, r = .freeRuntime p → p ∉ s.contexts.map Prod.snd
  buffer : ∀ b, r.buffer? = some b → b ∈ s.buffers

/-- What is out after a call. -/
def after (s : Held) : (r : Request ℓ) → r.Reply → Held
  | .newRuntime, some p => { s with runtimes := p :: s.runtimes }
  | .newContext runtime, some p => { s with contexts := (p, runtime) :: s.contexts }
  | .freeContext p, _ => { s with contexts := s.contexts.eraseP fun c => c.1 == p }
  | .freeRuntime p, _ => { s with runtimes := s.runtimes.erase p }
  | .toText _ _ _, some b => { s with buffers := b :: s.buffers }
  | .freeText _ b, _ => { s with buffers := s.buffers.erase b }
  | _, _ => s

theorem contexts_after (s : Held) {r : Request ℓ} (hr : r.isUse = true) (reply : r.Reply) :
    (s.after r reply).contexts = s.contexts := by
  cases r with
  | newRuntime => cases hr
  | newContext p => cases hr
  | freeContext p => cases hr
  | freeRuntime p => cases hr
  | toText p w split => cases reply <;> rfl
  | _ => rfl

end Held

/-- Events in which every call is in order and only buffers that are out are read. -/
inductive Follows : Held → List (Event ℓ) → Held → Prop
  | done {s : Held} : Follows s [] s
  | call {s s' : Held} {r : Request ℓ} {flags : Flags} {reply : r.Reply}
    {events : List (Event ℓ)} :
    s.Allows r → Follows (s.after r reply) events s' →
    Follows s (.call r flags reply :: events) s'
  | read {s s' : Held} {b : Buffer} {events : List (Event ℓ)} :
    b ∈ s.buffers → Follows s events s' → Follows s (.read b :: events) s'

/-- The rule for a call, with what is out afterwards given by an equation. -/
theorem Follows.next {s mid s' : Held} {r : Request ℓ} {flags : Flags} {reply : r.Reply}
    {events : List (Event ℓ)} (ha : s.Allows r) (hmid : s.after r reply = mid)
    (h : Follows mid events s') : Follows s (.call r flags reply :: events) s' := by
  subst hmid
  exact .call ha h

theorem Follows.append {s mid s' : Held} {xs ys : List (Event ℓ)} (h : Follows s xs mid)
    (h' : Follows mid ys s') : Follows s (xs ++ ys) s' := by
  induction h with
  | done => exact h'
  | call ha _ ih => exact .call ha (ih h')
  | read hb _ ih => exact .read hb (ih h')

/-! ### Everything comes back once -/

/-- One thing that a library gives out. -/
inductive Resource
  | runtime (p : UInt64)
  | context (p : UInt64)
  | buffer (b : Buffer)
  deriving DecidableEq

/-- How many times a thing is out. -/
def Held.count (s : Held) : Resource → Nat
  | .runtime p => s.runtimes.count p
  | .context p => (s.contexts.map Prod.fst).count p
  | .buffer b => s.buffers.count b

/-- What the library gives out with an event. -/
def Event.given : Event ℓ → Option Resource
  | .call .newRuntime _ (some p) => some (.runtime p)
  | .call (.newContext _) _ (some p) => some (.context p)
  | .call (.toText _ _ _) _ (some b) => some (.buffer b)
  | _ => none

/-- What the library gets back with an event. -/
def Event.returned : Event ℓ → Option Resource
  | .call (.freeRuntime p) _ _ => some (.runtime p)
  | .call (.freeContext p) _ _ => some (.context p)
  | .call (.freeText _ b) _ _ => some (.buffer b)
  | _ => none

/-- How many times a thing is given out in some events. -/
def timesGiven (x : Resource) (events : List (Event ℓ)) : Nat :=
  events.countP fun e => e.given == some x

/-- How many times a thing comes back in some events. -/
def timesReturned (x : Resource) (events : List (Event ℓ)) : Nat :=
  events.countP fun e => e.returned == some x

theorem count_map_eraseP (l : List (UInt64 × UInt64)) (p q : UInt64)
    (h : p ∈ l.map Prod.fst) :
    (l.map Prod.fst).count q =
      ((l.eraseP fun c => c.1 == p).map Prod.fst).count q + if p = q then 1 else 0 := by
  induction l with
  | nil => simp at h
  | cons c l ih =>
    by_cases hc : c.1 = p
    · rw [List.eraseP_cons_of_pos (by simpa using hc), List.map_cons, List.count_cons, hc]
      simp
    · have hp : p ∈ l.map Prod.fst := by
        rcases List.mem_cons.mp h with hp | hp
        · exact absurd hp.symm hc
        · exact hp
      rw [List.eraseP_cons_of_neg (by simpa using hc), List.map_cons, List.map_cons,
        List.count_cons, List.count_cons, ih hp]
      omega

theorem count_erase {γ : Type} [DecidableEq γ] (l : List γ) (a b : γ) (h : a ∈ l) :
    l.count b = (l.erase a).count b + if a = b then 1 else 0 := by
  by_cases hab : a = b
  · subst hab
    have hpos := List.count_pos_iff.mpr h
    rw [List.count_erase_self, if_pos rfl]
    omega
  · rw [List.count_erase_of_ne (Ne.symm hab), if_neg hab, Nat.add_zero]

/-- One call: what is out afterwards is what was out before and what is given, without what
is returned. -/
theorem Held.count_after {s : Held} {r : Request ℓ} (ha : s.Allows r) (flags : Flags)
    (reply : r.Reply) (x : Resource) :
    s.count x + (if (Event.call r flags reply).given = some x then 1 else 0) =
      (s.after r reply).count x +
        if (Event.call r flags reply).returned = some x then 1 else 0 := by
  cases r with
  | newRuntime =>
    cases reply with
    | none => rfl
    | some p => cases x <;> simp [Event.given, Event.returned, after, Held.count, List.count_cons]
  | newContext runtime =>
    cases reply with
    | none => rfl
    | some p => cases x <;> simp [Event.given, Event.returned, after, Held.count, List.count_cons]
  | toText p w split =>
    cases reply with
    | none => rfl
    | some b => cases x <;> simp [Event.given, Event.returned, after, Held.count, List.count_cons]
  | freeContext p =>
    cases x with
    | context q =>
      have hc := count_map_eraseP s.contexts p q (ha.context p rfl)
      simpa [Event.given, Event.returned, after, Held.count] using hc
    | _ => simp [Event.given, Event.returned, after, Held.count]
  | freeRuntime p =>
    cases x with
    | runtime q =>
      have hc := count_erase s.runtimes p q (ha.runtime p rfl)
      simpa [Event.given, Event.returned, after, Held.count] using hc
    | _ => simp [Event.given, Event.returned, after, Held.count]
  | freeText p b =>
    cases x with
    | buffer b' =>
      have hc := count_erase s.buffers b b' (ha.buffer b rfl)
      simpa [Event.given, Event.returned, after, Held.count] using hc
    | _ => simp [Event.given, Event.returned, after, Held.count]
  | _ => rfl

/-- A thing is out as often as it was, and as often as it was given, less as often as it came
back. -/
theorem Follows.count_eq {s s' : Held} {events : List (Event ℓ)} (h : Follows s events s')
    (x : Resource) :
    s.count x + timesGiven x events = s'.count x + timesReturned x events := by
  induction h with
  | done => rfl
  | @call s s' r flags reply events ha _ ih =>
    have hone := Held.count_after ha flags reply x
    simp only [timesGiven, timesReturned, List.countP_cons, beq_iff_eq] at ih ⊢
    omega
  | read _ _ ih => simpa [timesGiven, timesReturned, Event.given, Event.returned] using ih

/-- Events that keep to the protocol and leave out what was out before, so that each thing comes
back as often as it is given out. -/
structure Tidy (s : Held) (events : List (Event ℓ)) : Prop where
  follows : Follows s events s
  balanced : ∀ x, timesGiven x events = timesReturned x events

theorem Follows.tidy {s : Held} {events : List (Event ℓ)} (h : Follows s events s) :
    Tidy s events where
  follows := h
  balanced x := by
    have hcount := h.count_eq x
    omega

end ScriptHost.Native
