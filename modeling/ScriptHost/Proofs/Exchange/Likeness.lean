-- When two engines with different layouts are alike, and when an exchange with the one goes
-- as it does with the other. A rule for each way to build an exchange keeps them in lockstep.
import Mathlib.Data.List.Forall2
import ScriptHost.Exchange.Session
import ScriptHost.Proofs.Layout.Alike

namespace ScriptHost

variable {ℓ₁ ℓ₂ : Layout} {σ₁ σ₂ ε₁ ε₂ α₁ α₂ β₁ β₂ : Type}

/-! ## Alike from outside -/

/-- How the states of two engines go together, and the buffers that they hand out. Buffers
that go together hold the same bytes. -/
structure Likeness (σ₁ σ₂ : Type) where
  inner : σ₁ → σ₂ → Prop
  buffers : Buffer → Buffer → Prop
  bytes : ∀ {b₁ b₂ : Buffer}, buffers b₁ b₂ → b₁.bytes = b₂.bytes

/-- Two ends of one kind, whose values go together. -/
inductive Ending.Alike (A : α₁ → α₂ → Prop) : Ending α₁ → Ending α₂ → Prop
  | value {a₁ : α₁} {a₂ : α₂} : A a₁ a₂ → Alike A (.value a₁) (.value a₂)
  | unwound : Alike A .unwound .unwound
  | aborted : Alike A .aborted .aborted

theorem Ending.Alike.map {A : α₁ → α₂ → Prop} {B : β₁ → β₂ → Prop} {end₁ : Ending α₁}
    {end₂ : Ending α₂} (h : Ending.Alike A end₁ end₂) {f₁ : α₁ → β₁} {f₂ : α₂ → β₂}
    (hf : ∀ a₁ a₂, A a₁ a₂ → B (f₁ a₁) (f₂ a₂)) : Ending.Alike B (end₁.map f₁) (end₂.map f₂) := by
  cases h with
  | value ha => exact .value (hf _ _ ha)
  | unwound => exact .unwound
  | aborted => exact .aborted

theorem Ending.Alike.value? {A : α₁ → α₂ → Prop} {end₁ : Ending α₁} {end₂ : Ending α₂}
    (h : Ending.Alike A end₁ end₂) : Option.Rel A end₁.value? end₂.value? := by
  cases h with
  | value ha => exact .some ha
  | unwound => exact .none
  | aborted => exact .none

namespace Likeness

variable (K : Likeness σ₁ σ₂)

/-- Two machines with the same counts and the same control state. -/
structure Machines (m₁ : Machine σ₁) (m₂ : Machine σ₂) : Prop where
  inner : K.inner m₁.inner m₂.inner
  counts : m₁.counts = m₂.counts
  control : m₁.control = m₂.control
  flags : m₁.flags = m₂.flags

/-- Two requests of one kind about alike words, equal texts and buffers that go together. A
block is freed only through a counted word. -/
def Requests : Request ℓ₁ → Request ℓ₂ → Prop
  | .freeValue w₁, .freeValue w₂ => Alike w₁ w₂ ∧ ℓ₁.isCounted w₁ = true
  | .toText w₁, .toText w₂ => Alike w₁ w₂
  | .freeText b₁, .freeText b₂ => K.buffers b₁ b₂
  | .stringify w₁, .stringify w₂ => Alike w₁ w₂
  | .parse text₁, .parse text₂ => text₁ = text₂
  | .takeException, .takeException => True
  | .toDouble w₁, .toDouble w₂ => Alike w₁ w₂
  | .toBigInteger w₁, .toBigInteger w₂ => Alike w₁ w₂
  | .newText text₁, .newText text₂ => text₁ = text₂
  | .eval source₁ file₁, .eval source₂ file₂ => source₁ = source₂ ∧ file₁ = file₂
  | _, _ => False

/-- Two replies to requests of one kind: alike words, equal numbers and buffers that go
together. -/
def Replies : (r₁ : Request ℓ₁) → (r₂ : Request ℓ₂) → r₁.Reply → r₂.Reply → Prop
  | .freeValue _, .freeValue _, _, _ => True
  | .toText _, .toText _, b₁, b₂ => Option.Rel K.buffers b₁ b₂
  | .freeText _, .freeText _, _, _ => True
  | .stringify _, .stringify _, w₁, w₂ => Alike w₁ w₂
  | .parse _, .parse _, w₁, w₂ => Alike w₁ w₂
  | .takeException, .takeException, w₁, w₂ => Alike w₁ w₂
  | .toDouble _, .toDouble _, d₁, d₂ => d₁ = d₂
  | .toBigInteger _, .toBigInteger _, n₁, n₂ => n₁ = n₂
  | .newText _, .newText _, w₁, w₂ => Alike w₁ w₂
  | .eval _ _, .eval _ _, w₁, w₂ => Alike w₁ w₂
  | _, _, _, _ => False

/-- Two engines that answer requests that go together with replies that go together, and
leave the machines so that they do. -/
def Engines (e₁ : Engine ℓ₁ σ₁ ε₁) (e₂ : Engine ℓ₂ σ₂ ε₂) : Prop :=
  ∀ r₁ r₂, K.Requests r₁ r₂ → ∀ m₁ m₂, K.Machines m₁ m₂ →
    Ending.Alike (K.Replies r₁ r₂) (e₁.answer r₁ m₁).ending (e₂.answer r₂ m₂).ending ∧
      K.Machines (e₁.answer r₁ m₁).state (e₂.answer r₂ m₂).state

/-- Two hosts with such engines and the same settings. -/
structure Hosts (h₁ : Host ℓ₁ σ₁ ε₁) (h₂ : Host ℓ₂ σ₂ ε₂) : Prop where
  engines : K.Engines h₁.engine h₂.engine
  settings : h₁.settings = h₂.settings
  depth : h₁.depth = h₂.depth

/-- Two events that look the same but for the layout. -/
inductive Events : Event ℓ₁ ε₁ → Event ℓ₂ ε₂ → Prop
  | call {r₁ : Request ℓ₁} {r₂ : Request ℓ₂} {control : ControlState} {inner₁ : List ε₁}
    {inner₂ : List ε₂} {reply₁ : Option r₁.Reply} {reply₂ : Option r₂.Reply} :
    K.Requests r₁ r₂ → Option.Rel (K.Replies r₁ r₂) reply₁ reply₂ →
    Events (.call ⟨r₁, control, inner₁, reply₁⟩) (.call ⟨r₂, control, inner₂, reply₂⟩)
  | read {b₁ b₂ : Buffer} : K.buffers b₁ b₂ → Events (.read b₁) (.read b₂)
  | install (c : ControlState) : Events (.install c) (.install c)
  | retain {w₁ : ℓ₁.Word} {w₂ : ℓ₂.Word} : Alike w₁ w₂ → Events (.retain w₁) (.retain w₂)
  | release {w₁ : ℓ₁.Word} {w₂ : ℓ₂.Word} (left : Option Int32) : Alike w₁ w₂ →
    Events (.release w₁ left) (.release w₂ left)
  | log (r : Record) : Events (.log r) (.log r)

/-- Two outcomes that look the same but for the layout. -/
structure Outcomes (A : α₁ → α₂ → Prop) (o₁ : Outcome (Machine σ₁) (Event ℓ₁ ε₁) α₁)
    (o₂ : Outcome (Machine σ₂) (Event ℓ₂ ε₂) α₂) : Prop where
  ending : Ending.Alike A o₁.ending o₂.ending
  events : List.Forall₂ K.Events o₁.events o₂.events
  state : K.Machines o₁.state o₂.state

/-- Two exchanges that go alike on machines that go together. -/
def Lockstep (A : α₁ → α₂ → Prop) (body₁ : Exchange ℓ₁ σ₁ ε₁ α₁) (body₂ : Exchange ℓ₂ σ₂ ε₂ α₂) :
    Prop := ∀ m₁ m₂, K.Machines m₁ m₂ → K.Outcomes A (body₁ m₁) (body₂ m₂)

end Likeness

/-! ## Rules -/

namespace Likeness.Lockstep

variable {K : Likeness σ₁ σ₂} {A : α₁ → α₂ → Prop} {B : β₁ → β₂ → Prop}
  {body₁ : Exchange ℓ₁ σ₁ ε₁ α₁} {body₂ : Exchange ℓ₂ σ₂ ε₂ α₂}

theorem pure {a₁ : α₁} {a₂ : α₂} (h : A a₁ a₂) :
    K.Lockstep A (Pure.pure a₁ : Exchange ℓ₁ σ₁ ε₁ α₁) (Pure.pure a₂ : Exchange ℓ₂ σ₂ ε₂ α₂) :=
  fun _ _ hm => ⟨.value h, .nil, hm⟩

theorem bind {f₁ : α₁ → Exchange ℓ₁ σ₁ ε₁ β₁} {f₂ : α₂ → Exchange ℓ₂ σ₂ ε₂ β₂}
    (h : K.Lockstep A body₁ body₂) (hf : ∀ a₁ a₂, A a₁ a₂ → K.Lockstep B (f₁ a₁) (f₂ a₂)) :
    K.Lockstep B (body₁ >>= f₁) (body₂ >>= f₂) := by
  intro m₁ m₂ hm
  show K.Outcomes B (Action.bind body₁ f₁ m₁) (Action.bind body₂ f₂ m₂)
  unfold Action.bind
  have hbody := h m₁ m₂ hm
  generalize body₁ m₁ = o₁ at hbody ⊢
  generalize body₂ m₂ = o₂ at hbody ⊢
  obtain ⟨end₁, xs₁, s₁⟩ := o₁
  obtain ⟨end₂, xs₂, s₂⟩ := o₂
  obtain ⟨hend, hevents, hstate⟩ := hbody
  cases hend with
  | value ha =>
    obtain ⟨hend', hevents', hstate'⟩ := hf _ _ ha s₁ s₂ hstate
    exact ⟨hend', List.rel_append hevents hevents', hstate'⟩
  | unwound => exact ⟨.unwound, hevents, hstate⟩
  | aborted => exact ⟨.aborted, hevents, hstate⟩

theorem map (h : K.Lockstep A body₁ body₂) {f₁ : α₁ → β₁} {f₂ : α₂ → β₂}
    (hf : ∀ a₁ a₂, A a₁ a₂ → B (f₁ a₁) (f₂ a₂)) :
    K.Lockstep B (do return f₁ (← body₁) : Exchange ℓ₁ σ₁ ε₁ β₁)
      (do return f₂ (← body₂) : Exchange ℓ₂ σ₂ ε₂ β₂) :=
  h.bind fun a₁ a₂ ha => pure (hf a₁ a₂ ha)

theorem ensuring {cleanup₁ : Exchange ℓ₁ σ₁ ε₁ Unit} {cleanup₂ : Exchange ℓ₂ σ₂ ε₂ Unit}
    {U : Unit → Unit → Prop} (h : K.Lockstep A body₁ body₂)
    (hc : K.Lockstep U cleanup₁ cleanup₂) :
    K.Lockstep A (body₁.ensuring cleanup₁) (body₂.ensuring cleanup₂) := by
  intro m₁ m₂ hm
  unfold Action.ensuring
  have hbody := h m₁ m₂ hm
  generalize body₁ m₁ = o₁ at hbody ⊢
  generalize body₂ m₂ = o₂ at hbody ⊢
  obtain ⟨end₁, xs₁, s₁⟩ := o₁
  obtain ⟨end₂, xs₂, s₂⟩ := o₂
  obtain ⟨hend, hevents, hstate⟩ := hbody
  have hlast := hc s₁ s₂ hstate
  cases hend with
  | value ha =>
    exact ⟨hlast.ending.map fun _ _ _ => ha, List.rel_append hevents hlast.events, hlast.state⟩
  | unwound =>
    -- Whether this unwinds or aborts, the ends of the two cleanups are of one kind.
    dsimp only
    generalize cleanup₁ s₁ = c₁ at hlast ⊢
    generalize cleanup₂ s₂ = c₂ at hlast ⊢
    obtain ⟨last₁, ys₁, t₁⟩ := c₁
    obtain ⟨last₂, ys₂, t₂⟩ := c₂
    obtain ⟨hlast, hevents', hstate'⟩ := hlast
    cases hlast with
    | value _ => exact ⟨.unwound, List.rel_append hevents hevents', hstate'⟩
    | unwound => exact ⟨.aborted, List.rel_append hevents hevents', hstate'⟩
    | aborted => exact ⟨.aborted, List.rel_append hevents hevents', hstate'⟩
  | aborted => exact ⟨.aborted, hevents, hstate⟩

end Likeness.Lockstep

/-! ## References -/

namespace Likeness

variable {K : Likeness σ₁ σ₂} {m₁ : Machine σ₁} {m₂ : Machine σ₂} {w₁ : ℓ₁.Word} {w₂ : ℓ₂.Word}

theorem Machines.updateCount (hm : K.Machines m₁ m₂) (a : UInt64) (f : Int32 → Int32) :
    K.Machines (m₁.updateCount a f) (m₂.updateCount a f) := by
  refine ⟨hm.inner, ?_, hm.control, hm.flags⟩
  unfold Machine.updateCount
  rw [hm.counts]

theorem Machines.retain (hm : K.Machines m₁ m₂) (hw : Alike w₁ w₂) :
    K.Machines (m₁.retain ℓ₁ w₁) (m₂.retain ℓ₂ w₂) := by
  unfold Machine.retain
  by_cases hc : ℓ₁.isCounted w₁ = true
  · rw [if_pos hc, if_pos (hw.isCounted_eq ▸ hc), hw.payload_eq hc]
    exact hm.updateCount _ _
  · rw [if_neg hc, if_neg (hw.isCounted_eq ▸ hc)]
    exact hm

theorem Machines.release (hm : K.Machines m₁ m₂) (hw : Alike w₁ w₂) :
    K.Machines (m₁.release ℓ₁ w₁) (m₂.release ℓ₂ w₂) := by
  unfold Machine.release
  by_cases hc : ℓ₁.isCounted w₁ = true
  · rw [if_pos hc, if_pos (hw.isCounted_eq ▸ hc), hw.payload_eq hc]
    exact hm.updateCount _ _
  · rw [if_neg hc, if_neg (hw.isCounted_eq ▸ hc)]
    exact hm

theorem Machines.count?_eq (hm : K.Machines m₁ m₂) (hw : Alike w₁ w₂) :
    m₁.count? ℓ₁ w₁ = m₂.count? ℓ₂ w₂ := by
  unfold Machine.count?
  by_cases hc : ℓ₁.isCounted w₁ = true
  · rw [if_pos hc, if_pos (hw.isCounted_eq ▸ hc), hw.payload_eq hc, hm.counts]
  · rw [if_neg hc, if_neg (hw.isCounted_eq ▸ hc)]

theorem retain_lockstep (hw : Alike w₁ w₂) :
    K.Lockstep Alike (Exchange.retain w₁ : Exchange ℓ₁ σ₁ ε₁ _)
      (Exchange.retain w₂ : Exchange ℓ₂ σ₂ ε₂ _) :=
  fun _ _ hm => ⟨.value hw, .cons (.retain hw) .nil, hm.retain hw⟩

/-- Two references given back, where only a counted one is ever the last. -/
theorem release_lockstep (hw : Alike w₁ w₂) :
    K.Lockstep (fun last₁ last₂ => last₁ = last₂ ∧ (last₁ = true → ℓ₁.isCounted w₁ = true))
      (Exchange.release w₁ : Exchange ℓ₁ σ₁ ε₁ _) (Exchange.release w₂ : Exchange ℓ₂ σ₂ ε₂ _) := by
  intro m₁ m₂ hm
  have hr := hm.release hw
  have hcount := hr.count?_eq hw
  refine ⟨.value ⟨congrArg (· == some 0) hcount, fun hlast => ?_⟩, .cons ?_ .nil, hr⟩
  · by_cases hc : ℓ₁.isCounted w₁ = true
    · exact hc
    · rw [Machine.count?, if_neg hc] at hlast
      cases hlast
  · show K.Events (.release w₁ _) (.release w₂ _)
    rw [hcount]
    exact .release _ hw

theorem log_lockstep (level : Level) (text : String) :
    K.Lockstep (fun _ _ => True) (Exchange.log level text : Exchange ℓ₁ σ₁ ε₁ Unit)
      (Exchange.log level text : Exchange ℓ₂ σ₂ ε₂ Unit) :=
  fun _ _ hm => ⟨.value trivial, .cons (.log _) .nil, hm⟩

/-! ## Guards -/

theorem install_lockstep (c : ControlState) :
    K.Lockstep (fun _ _ => True) (Fpu.install c : Exchange ℓ₁ σ₁ ε₁ Unit)
      (Fpu.install c : Exchange ℓ₂ σ₂ ε₂ Unit) :=
  fun _ _ hm => ⟨.value trivial, .cons (.install c) .nil, hm.inner, hm.counts, rfl, hm.flags⟩

theorem withMasked_lockstep {A : α₁ → α₂ → Prop} {body₁ : Exchange ℓ₁ σ₁ ε₁ α₁}
    {body₂ : Exchange ℓ₂ σ₂ ε₂ α₂} (settings : Settings) (h : K.Lockstep A body₁ body₂) :
    K.Lockstep A (Fpu.withMasked settings body₁) (Fpu.withMasked settings body₂) := by
  refine Lockstep.bind (A := Eq) ?_ ?_
  · unfold Fpu.Guard.new
    split
    · refine Lockstep.bind (A := Eq)
        (fun _ _ hm => ⟨.value (congrArg _ hm.control), .nil, hm⟩) ?_
      rintro saved _ rfl
      exact (install_lockstep saved.masked).bind fun _ _ _ => .pure rfl
    · exact .pure rfl
  · rintro g _ rfl
    refine h.ensuring (U := fun _ _ => True) ?_
    unfold Fpu.Guard.close
    split
    · exact install_lockstep _
    · exact .pure trivial

end Likeness

end ScriptHost
