-- What an engine over a library does with the pointers of the library. Every request of the host
-- keeps to the protocol and hands out no more than its reply.
import ScriptHost.Proofs.Exchange.Ending
import ScriptHost.Proofs.Native.Upkeep

namespace ScriptHost.Native

variable {ℓ : Layout} {σ E α β : Type}

/-! ## Contexts and their runtimes -/

/-- A library that knows the runtime of every context that it has made and not freed. `owner`
reads it off the state of the library. -/
structure Library.Remembers (lib : Library ℓ σ) (owner : σ → UInt64 → Option UInt64) : Prop where
  made : ∀ runtime m context, (lib.answer (.newContext runtime) m).1 = some context →
    owner (lib.answer (.newContext runtime) m).2.inner context = some runtime
  kept : ∀ r m context runtime, r.isUse = true → owner m.inner context = some runtime →
    owner (lib.answer r m).2.inner context = some runtime
  told : ∀ m context runtime, owner m.inner context = some runtime →
    (lib.answer (.runtimeOf context) m).1 = runtime

/-- The library knows the runtime of every context that is out. -/
def Owns (owner : σ → UInt64 → Option UInt64) (s : Held) (m : Machine σ) : Prop :=
  ∀ c ∈ s.contexts, owner m.inner c.1 = some c.2

theorem Owns.congr {owner : σ → UInt64 → Option UInt64} {s : Held} {m m' : Machine σ}
    (h : Owns owner s m) (hm : m'.inner = m.inner) : Owns owner s m' := by
  intro c hc
  rw [hm]
  exact h c hc

/-! ## Actions that keep to the protocol -/

/-- An action that always ends with a value, from a library that has given out `s`. It keeps to
the protocol, and `Q` holds of its value and of what is out then. Of each event, `used` tells
what is done with the library in it. -/
def Leads (used : E → List (Event ℓ)) (owner : σ → UInt64 → Option UInt64) (s : Held)
    (body : Action (Machine σ) E α) (Q : α → Held → Prop) : Prop :=
  ∀ m, Owns owner s m → ∃ a events m' s', body m = ⟨.value a, events, m'⟩ ∧ Q a s' ∧
    Owns owner s' m' ∧ Follows s (events.flatMap used) s'

namespace Leads

variable {used : E → List (Event ℓ)} {owner : σ → UInt64 → Option UInt64} {s : Held}
  {body : Action (Machine σ) E α} {Q : α → Held → Prop}

theorem pure {a : α} (h : Q a s) :
    Leads used owner s (Pure.pure a : Action (Machine σ) E α) Q := by
  intro m hm
  exact ⟨a, [], m, s, rfl, h, hm, .done⟩

/-- An action that leaves the library alone. -/
theorem idle (h : ∀ m, ∃ a events m', body m = ⟨.value a, events, m'⟩ ∧
    events.flatMap used = [] ∧ m'.inner = m.inner) :
    Leads used owner s body fun _ s' => s' = s := by
  intro m hm
  obtain ⟨a, events, m', hb, hnone, hinner⟩ := h m
  refine ⟨a, events, m', s, hb, rfl, hm.congr hinner, ?_⟩
  rw [hnone]
  exact .done

theorem mono {R : α → Held → Prop} (h : Leads used owner s body Q)
    (hr : ∀ a s', Q a s' → R a s') : Leads used owner s body R := by
  intro m hm
  obtain ⟨a, xs, m', s', hb, hq, hm', hxs⟩ := h m hm
  exact ⟨a, xs, m', s', hb, hr a s' hq, hm', hxs⟩

theorem bind {f : α → Action (Machine σ) E β} {R : β → Held → Prop}
    (h : Leads used owner s body Q) (hf : ∀ a s', Q a s' → Leads used owner s' (f a) R) :
    Leads used owner s (body >>= f) R := by
  intro m hm
  obtain ⟨a, xs, mid, s', hb, hq, hmid, hxs⟩ := h m hm
  obtain ⟨b, ys, m', s'', hn, hr, hm', hys⟩ := hf a s' hq mid hmid
  refine ⟨b, xs ++ ys, m', s'', ?_, hr, hm', ?_⟩
  · rw [Action.bind_of_value hb, hn]
  · rw [List.flatMap_append]
    exact hxs.append hys

theorem ensuring {cleanup : Action (Machine σ) E Unit} {R : α → Held → Prop}
    (h : Leads used owner s body Q)
    (hc : ∀ a s', Q a s' → Leads used owner s' cleanup fun _ => R a) :
    Leads used owner s (body.ensuring cleanup) R := by
  intro m hm
  obtain ⟨a, xs, mid, s', hb, hq, hmid, hxs⟩ := h m hm
  obtain ⟨u, ys, m', s'', hn, hr, hm', hys⟩ := hc a s' hq mid hmid
  refine ⟨a, xs ++ ys, m', s'', ?_, hr, hm', ?_⟩
  · simp only [Action.ensuring, hb, hn, Ending.map]
  · rw [List.flatMap_append]
    exact hxs.append hys

/-- The same action with its events shown in another way. -/
theorem mapEvents {F : Type} {shown : E → F} {used' : F → List (Event ℓ)}
    (h : Leads used owner s body Q) (hu : ∀ e, used' (shown e) = used e) :
    Leads used' owner s (body.mapEvents shown) Q := by
  intro m hm
  obtain ⟨a, xs, m', s', hb, hq, hm', hxs⟩ := h m hm
  refine ⟨a, xs.map shown, m', s', ?_, hq, hm', ?_⟩
  · simp only [Action.mapEvents, hb]
  · rw [List.flatMap_map]
    simpa only [hu] using hxs

end Leads

/-- What an action does that uses nothing but the library. -/
def each (e : Event ℓ) : List (Event ℓ) := [e]

@[simp] theorem flatMap_each (events : List (Event ℓ)) : events.flatMap each = events :=
  List.flatMap_singleton' events

theorem Library.ask_eq (lib : Library ℓ σ) (r : Request ℓ) (m : Machine σ) :
    lib.ask r m =
      ⟨.value (lib.answer r m).1, [.call r m.flags (lib.answer r m).1], (lib.answer r m).2⟩ := rfl

section

variable {lib : Library ℓ σ} {owner : σ → UInt64 → Option UInt64} {s : Held}

/-- The rule for a call that neither creates nor frees a runtime or a context. -/
theorem Library.Remembers.ask_leads (hl : lib.Remembers owner) {r : Request ℓ}
    (hr : r.isUse = true) (ha : s.Allows r) :
    Leads each owner s (lib.ask r) fun reply s' => s' = s.after r reply := by
  intro m hm
  refine ⟨_, _, _, _, rfl, rfl, ?_, .call ha .done⟩
  intro c hc
  rw [Held.contexts_after s hr] at hc
  exact hl.kept r m c.1 c.2 hr (hm c hc)

theorem read_leads {b : Buffer} (hb : b ∈ s.buffers) :
    Leads each owner s (Action.emit (.read b) : Use ℓ σ Unit) fun _ s' => s' = s := by
  intro m hm
  exact ⟨_, _, _, _, rfl, rfl, hm, .read hb .done⟩

end

/-! ## Instances -/

namespace Instance

/-- What is out while an instance lives: its runtime, its context on it, and some buffers. -/
def lending (x : Instance) (buffers : List Buffer) : Held :=
  ⟨[x.runtime], [(x.context, x.runtime)], buffers⟩

/-- What is out between requests. No buffer is. -/
def held (x : Instance) : Held := x.lending []

/-- What is out after a request, by its reply. A text comes in a buffer. -/
def heldAfter (x : Instance) : (r : ScriptHost.Request ℓ) → r.Reply → Held
  | .toText _, reply => x.lending reply.toList
  | _, _ => x.held

/-- What is out when a request comes. A buffer is taken back that is out. -/
def heldBefore (x : Instance) : ScriptHost.Request ℓ → Held
  | .freeText b => x.lending [b]
  | _ => x.held

variable {x : Instance}

/-- The calls on the context of an instance that are always in order. -/
theorem allows_context {buffers : List Buffer} {r : Request ℓ}
    (hc : r.context? = some x.context) (hr : r.runtime? = none)
    (hb : ∀ b, r.buffer? = some b → b ∈ buffers) : (x.lending buffers).Allows r where
  runtime p hp := by simp [hr] at hp
  context p hp := by
    rw [hc] at hp
    simp [lending, Option.some.inj hp]
  contextsFirst p hp := by simp [hp, Request.runtime?] at hr
  buffer := hb

/-- The calls on the runtime of an instance while it lives. -/
theorem allows_runtime {r : Request ℓ} (hr : r.runtime? = some x.runtime) (hc : r.context? = none)
    (hb : r.buffer? = none) (hu : r.isUse = true) : x.held.Allows r where
  runtime p hp := by
    rw [hr] at hp
    simp [held, lending, Option.some.inj hp]
  context p hp := by simp [hc] at hp
  contextsFirst p hp := by simp [hp, Request.isUse] at hu
  buffer b hp := by simp [hb] at hp

/-- Every request of the host has a reply, whatever the library answers. -/
theorem engine_replies (lib : Library ℓ σ) (x : Instance) : (x.engine lib).Replies := by
  intro r m
  cases r with
  | toBigInteger w =>
    show ∃ n, (x.toBigInteger lib w m).ending = .value n
    unfold toBigInteger
    rw [Action.bind_of_value (lib.ask_eq _ m)]
    dsimp only
    split
    · exact ⟨_, rfl⟩
    rw [Action.bind_of_value (lib.ask_eq _ _)]
    dsimp only
    cases (lib.answer (.toText x.context w false) _).1 <;> exact ⟨_, rfl⟩
  | _ => exact ⟨_, rfl⟩

theorem leave_leads {owner : σ → UInt64 → Option UInt64} {s : Held} (flag : Option Nat) :
    Leads each owner s (leave flag : Use ℓ σ Unit) fun _ s' => s' = s := by
  apply Leads.idle
  intro m
  cases flag <;> exact ⟨_, _, _, rfl, rfl, rfl⟩

section

variable {lib : Library ℓ σ} {owner : σ → UInt64 → Option UInt64} (hl : lib.Remembers owner)
include hl

/-- A call on the context that hands out no buffer and takes none back. -/
theorem context_leads {r : Request ℓ} (hc : r.context? = some x.context)
    (hr : r.runtime? = none) (hb : r.buffer? = none) (hu : r.isUse = true)
    (ha : ∀ reply, x.held.after r reply = x.held) :
    Leads each owner x.held (lib.ask r) fun _ s' => s' = x.held := by
  apply (hl.ask_leads hu (allows_context hc hr (by simp [hb]))).mono
  rintro reply _ rfl
  exact ha reply

theorem toText_leads (w : ℓ.Word) (split : Bool) :
    Leads each owner x.held (lib.ask (.toText x.context w split)) fun text s' =>
      s' = x.lending text.toList := by
  apply (hl.ask_leads rfl (allows_context rfl rfl (by simp [Request.buffer?]))).mono
  rintro text _ rfl
  cases text <;> rfl

theorem freeText_leads (b : Buffer) :
    Leads each owner (x.lending [b]) (lib.ask (.freeText x.context b)) fun _ s' =>
      s' = x.held := by
  apply (hl.ask_leads rfl (allows_context rfl rfl ?_)).mono
  · rintro _ _ rfl
    simp [Held.after, lending, held]
  · simp [Request.buffer?]

theorem runtimeOf_leads :
    Leads each owner x.held (lib.ask (.runtimeOf x.context)) fun runtime s' =>
      runtime = x.runtime ∧ s' = x.held := by
  intro m hm
  have howner := hm (x.context, x.runtime) (List.mem_singleton_self _)
  refine ⟨_, _, _, x.held, rfl, ⟨hl.told m x.context x.runtime howner, rfl⟩, ?_, ?_⟩
  · intro c hc
    exact hl.kept _ m c.1 c.2 rfl (hm c hc)
  · exact .call (allows_context rfl rfl (by simp [Request.buffer?])) .done

/-- A call on the runtime that hands out nothing. -/
theorem runtime_leads {r : Request ℓ} (hr : r.runtime? = some x.runtime)
    (hc : r.context? = none) (hb : r.buffer? = none) (hu : r.isUse = true)
    (ha : ∀ reply, x.held.after r reply = x.held) :
    Leads each owner x.held (lib.ask r) fun _ s' => s' = x.held := by
  apply (hl.ask_leads hu (allows_runtime hr hc hb hu)).mono
  rintro reply _ rfl
  exact ha reply

/-- Each exit gives the buffer back: there is none, or it is read and then taken back. -/
theorem toBigInteger_leads (w : ℓ.Word) :
    Leads each owner x.held (x.toBigInteger lib w) fun _ s' => s' = x.held := by
  unfold toBigInteger
  apply (context_leads hl rfl rfl rfl rfl fun _ => rfl).bind
  rintro ⟨code, stored⟩ _ rfl
  dsimp only
  split
  · exact .pure rfl
  apply (toText_leads hl w false).bind
  rintro text _ rfl
  cases text with
  | none => exact .pure rfl
  | some b =>
    apply (read_leads (List.mem_singleton_self b)).bind
    rintro _ _ rfl
    apply (freeText_leads hl b).bind
    rintro _ _ rfl
    exact .pure rfl

/-- The pointers of an instance stay when it gets another interrupt handle. -/
theorem setInterrupt_leads (flag : Nat) :
    Leads each owner x.held (x.setInterrupt lib flag)
      fun y s' => y.held = x.held ∧ s' = x.held := by
  apply (runtime_leads hl rfl rfl rfl rfl fun _ => rfl).bind
  rintro _ _ rfl
  apply (leave_leads x.interrupt).bind
  rintro _ _ rfl
  exact .pure ⟨rfl, rfl⟩

/-- Every request keeps to the protocol. Only a text is handed out with its buffer, and only a
buffer that is out is taken back. -/
theorem answer_leads (r : ScriptHost.Request ℓ) :
    Leads each owner (x.heldBefore r) (x.answer lib r) fun reply s' =>
      s' = x.heldAfter r reply := by
  cases r with
  | freeValue w =>
    -- A value is freed on the runtime that the library tells.
    apply (runtimeOf_leads hl).bind
    rintro _ _ ⟨rfl, rfl⟩
    exact runtime_leads hl rfl rfl rfl rfl fun _ => rfl
  | toText w => exact toText_leads hl w false
  | freeText b => exact freeText_leads hl b
  | toBigInteger w => exact toBigInteger_leads hl w
  | toDouble w =>
    apply (context_leads hl rfl rfl rfl rfl fun _ => rfl).bind
    rintro _ _ rfl
    exact .pure rfl
  | _ => exact context_leads hl rfl rfl rfl rfl fun _ => rfl

end

end Instance

end ScriptHost.Native
