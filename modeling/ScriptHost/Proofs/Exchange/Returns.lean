-- Exchanges that return. The events of an exchange say all that it did to the
-- machine, and a rule for each way to build an exchange says what its events are.
import ScriptHost.Exchange.Session

namespace ScriptHost

variable {ℓ : Layout} {σ ε α β : Type}

/-! ## Paths -/

/-- One event and what it does to the machine. -/
inductive Happens (e : Engine ℓ σ ε) : Machine σ → Event ℓ ε → Machine σ → Prop
  | call (m : Machine σ) (r : Request ℓ) :
    Happens e m (.call ⟨r, m.control, (e.answer r m).events, (e.answer r m).ending.value?⟩)
      (e.answer r m).state
  | read (m : Machine σ) (b : Buffer) : Happens e m (.read b) m
  | install (m : Machine σ) (c : ControlState) : Happens e m (.install c) { m with control := c }
  | retain (m : Machine σ) (w : ℓ.Word) : Happens e m (.retain w) (m.retain ℓ w)
  | release (m : Machine σ) (w : ℓ.Word) :
    Happens e m (.release w ((m.release ℓ w).count? ℓ w)) (m.release ℓ w)
  | log (m : Machine σ) (r : Record) : Happens e m (.log r) m

/-- Events one after the other, from one machine to another. -/
inductive Path (e : Engine ℓ σ ε) : Machine σ → List (Event ℓ ε) → Machine σ → Prop
  | nil (m : Machine σ) : Path e m [] m
  | cons {m mid last : Machine σ} {event : Event ℓ ε} {events : List (Event ℓ ε)} :
    Happens e m event mid → Path e mid events last → Path e m (event :: events) last

theorem Path.append {e : Engine ℓ σ ε} {m mid last : Machine σ} {xs ys : List (Event ℓ ε)}
    (h : Path e m xs mid) (h' : Path e mid ys last) : Path e m (xs ++ ys) last := by
  induction h with
  | nil => exact h'
  | cons hx _ ih => exact .cons hx (ih h')

theorem Path.single {e : Engine ℓ σ ε} {m m' : Machine σ} {event : Event ℓ ε}
    (h : Happens e m event m') : Path e m [event] m' := .cons h (.nil m')

/-! ## What is heard -/

/-- Every event but the writes of the control state. -/
def Event.isHeard : Event ℓ ε → Bool
  | .install _ => false
  | _ => true

/-- The events without the writes of the control state. -/
def heard (events : List (Event ℓ ε)) : List (Event ℓ ε) := events.filter Event.isHeard

theorem heard_append (xs ys : List (Event ℓ ε)) : heard (xs ++ ys) = heard xs ++ heard ys :=
  List.filter_append xs ys

/-! ## Returning -/

/-- Two actions in a row that return have both returned, one after the other. -/
theorem Action.bind_eq_value {S E : Type} {body : Action S E α} {f : α → Action S E β} {m m' : S}
    {b : β} {events : List E} (h : (body >>= f) m = ⟨.value b, events, m'⟩) :
    ∃ a xs s ys, body m = ⟨.value a, xs, s⟩ ∧ f a s = ⟨.value b, ys, m'⟩ ∧ events = xs ++ ys := by
  change Action.bind body f m = _ at h
  unfold Action.bind at h
  split at h
  · rename_i a xs s hb
    cases hn : f a s with
    | mk ending ys s' =>
      rw [hn] at h
      cases h
      exact ⟨a, xs, s, ys, hb, hn, rfl⟩
  · cases h
  · cases h

/-- Where an exchange returns, it has gone along a path, and `Q` holds of its result and
of what is heard of it. -/
def Returns (e : Engine ℓ σ ε) (body : Exchange ℓ σ ε α) (Q : α → List (Event ℓ ε) → Prop) :
    Prop :=
  ∀ m a events m', body m = ⟨.value a, events, m'⟩ → Path e m events m' ∧ Q a (heard events)

namespace Returns

variable {e : Engine ℓ σ ε} {body : Exchange ℓ σ ε α} {P : α → List (Event ℓ ε) → Prop}

theorem mono {Q : α → List (Event ℓ ε) → Prop} (h : Returns e body P)
    (hp : ∀ a xs, P a xs → Q a xs) : Returns e body Q := by
  intro m a events m' hr
  obtain ⟨hpath, hmid⟩ := h m a events m' hr
  exact ⟨hpath, hp _ _ hmid⟩

theorem pure {a : α} {Q : α → List (Event ℓ ε) → Prop} (h : Q a []) :
    Returns e (Pure.pure a : Exchange ℓ σ ε α) Q := by
  intro m b events m' hr
  cases hr
  exact ⟨.nil m, h⟩

theorem bind {f : α → Exchange ℓ σ ε β} {Q : β → List (Event ℓ ε) → Prop}
    (h : Returns e body P)
    (hf : ∀ a xs, P a xs → Returns e (f a) fun b ys => Q b (xs ++ ys)) :
    Returns e (body >>= f) Q := by
  intro m b events m' hr
  obtain ⟨a, xs, s, ys, hb, hn, rfl⟩ := Action.bind_eq_value hr
  obtain ⟨hpath, hp⟩ := h m a xs s hb
  obtain ⟨hpath', hq⟩ := hf a _ hp s b ys m' hn
  refine ⟨hpath.append hpath', ?_⟩
  rw [heard_append]
  exact hq

/-- A cleanup adds its events to those of the body and leaves the result alone. -/
theorem ensuring {cleanup : Exchange ℓ σ ε Unit} {R : Unit → List (Event ℓ ε) → Prop}
    {Q : α → List (Event ℓ ε) → Prop} (h : Returns e body P) (hc : Returns e cleanup R)
    (hp : ∀ a xs ys, P a xs → R () ys → Q a (xs ++ ys)) :
    Returns e (body.ensuring cleanup) Q := by
  intro m b events m' hr
  unfold Action.ensuring at hr
  split at hr
  · rename_i a xs s hb
    obtain ⟨hpath, hmid⟩ := h m a xs s hb
    cases hn : cleanup s with
    | mk ending ys s' =>
      rw [hn] at hr
      cases ending with
      | value u =>
        cases hr
        obtain ⟨hpath', hlast⟩ := hc s u ys s' hn
        refine ⟨hpath.append hpath', ?_⟩
        rw [heard_append]
        exact hp _ _ _ hmid hlast
      | unwound => cases hr
      | aborted => cases hr
  · dsimp only at hr
    split at hr <;> cases hr
  · cases hr

theorem emit {event : Event ℓ ε} {Q : Unit → List (Event ℓ ε) → Prop}
    (hs : ∀ m : Machine σ, Happens e m event m) (h : Q () (heard [event])) :
    Returns e (Action.emit event) Q := by
  intro m u events m' hr
  cases hr
  exact ⟨.single (hs m), h⟩

theorem log {level : Level} {text : String} {Q : Unit → List (Event ℓ ε) → Prop}
    (h : Q () [.log ⟨level, text⟩]) : Returns e (Exchange.log level text) Q :=
  emit (fun m => .log m _) h

end Returns

/-! ## Exchanges of one call -/

/-- Where the exchange returns, it has made one call, and its result stands for the reply. -/
def Hears (e : Engine ℓ σ ε) (body : Exchange ℓ σ ε α) (r : Request ℓ) (f : α → r.Reply) : Prop :=
  Returns e body fun a xs => ∃ control inner, xs = [.call ⟨r, control, inner, some (f a)⟩]

theorem Host.ask_hears (h : Host ℓ σ ε) (r : Request ℓ) : Hears h.engine (h.ask r) r id := by
  intro m v events m' hr
  obtain ⟨hv, rfl, rfl⟩ := Outcome.mk.inj hr
  have hp := Path.single (Happens.call (e := h.engine) m r)
  rw [hv] at hp ⊢
  exact ⟨hp, _, _, rfl⟩

/-- A result that is put into a handle is heard as before. -/
theorem Hears.handle {e : Engine ℓ σ ε} {body : Exchange ℓ σ ε ℓ.Word} {r : Request ℓ}
    {f : ℓ.Word → r.Reply} (h : Hears e body r f) :
    Hears e (do return Handle.mk (← body)) r fun x => f x.word := by
  refine Returns.bind h ?_
  rintro v _ ⟨control, inner, rfl⟩
  exact Returns.pure ⟨control, inner, rfl⟩

/-! ## Guarded calls -/

theorem Fpu.Guard.new_returns (e : Engine ℓ σ ε) (settings : Settings) :
    Returns e (Fpu.Guard.new settings) fun _ xs => xs = [] := by
  unfold Fpu.Guard.new
  split
  · intro m g events m' hr
    obtain ⟨-, rfl, rfl⟩ := Outcome.mk.inj hr
    exact ⟨.single (.install m _), rfl⟩
  · exact Returns.pure rfl

theorem Fpu.Guard.close_returns (e : Engine ℓ σ ε) (g : Fpu.Guard) :
    Returns e g.close fun _ xs => xs = [] := by
  unfold Fpu.Guard.close
  split
  · intro m u events m' hr
    obtain ⟨-, rfl, rfl⟩ := Outcome.mk.inj hr
    exact ⟨.single (.install m _), rfl⟩
  · exact Returns.pure rfl

/-- A guard is not heard, so a guarded call is heard as any other. -/
theorem Host.askMasked_hears (h : Host ℓ σ ε) (r : Request ℓ) :
    Hears h.engine (h.askMasked r) r id := by
  refine Returns.bind (Fpu.Guard.new_returns h.engine h.settings) ?_
  rintro g _ rfl
  refine Returns.ensuring (h.ask_hears r) (g.close_returns h.engine) ?_
  rintro v _ _ ⟨control, inner, rfl⟩ rfl
  exact ⟨control, inner, rfl⟩

/-! ## The calls of the host -/

namespace Host

variable (h : Host ℓ σ ε)

theorem eval_hears (source file : String) :
    Hears h.engine (h.eval source file) (.eval source file) Handle.word :=
  (h.askMasked_hears (.eval source file)).handle

theorem parse_hears (text : String) :
    Hears h.engine (h.parse text) (.parse text) Handle.word :=
  (h.askMasked_hears (.parse text)).handle

theorem stringify_hears (w : ℓ.Word) :
    Hears h.engine (h.stringify w) (.stringify w) Handle.word :=
  (h.askMasked_hears (.stringify w)).handle

theorem newText_hears (text : String) :
    Hears h.engine (h.newText text) (.newText text) Handle.word :=
  (h.ask_hears (.newText text)).handle

theorem takeException_hears : Hears h.engine h.takeException .takeException Handle.word :=
  (h.ask_hears .takeException).handle

end Host

end ScriptHost
