-- The interrupt flag of an instance, among others that hold handles too. From the first handle
-- that is set until the runtime is gone, the library polls a flag that the instance owns, and the
-- flag shows the last write to the group of the handle that was set last.
import ScriptHost.Proofs.Native.Surroundings

namespace ScriptHost

/-! ## Handing over -/

namespace Machine

variable {σ : Type}

/-- The flag of a handle that others can hand over. -/
def offer? (m : Machine (Surroundings σ)) (handle : Nat) : Option Nat :=
  if handle ∈ m.inner.own then none else m.scene.flag? handle

/-- A handle passes to the instance. -/
def receive (handle : Nat) (m : Machine (Surroundings σ)) : Machine (Surroundings σ) :=
  { m with inner := { m.inner with own := handle :: m.inner.own } }

/-- The instance is done with setting a handle. It keeps that one, and others of its own it leaves
to anyone. -/
def keepOnly (handle : Nat) (m : Machine (Surroundings σ)) : Machine (Surroundings σ) :=
  { m with inner := { m.inner with own := [handle], latest := some handle } }

/-- The latest handle is set. The flag of the one before has been given up, and so that handle is
gone. -/
def settle (m : Machine (Surroundings σ)) : Machine (Surroundings σ) :=
  match m.inner.own with
  | [] => m
  | [latest] => (m.keepOnly latest).note
  | latest :: old :: _ =>
    let m := m.keepOnly latest
    { m with
      inner := { m.inner with
        handles := m.inner.handles.set old none
        history := m.inner.history.after (.drop old) } }.note

variable {m : Machine (Surroundings σ)} {handle flag : Nat}

theorem offer?_eq_some_iff :
    m.offer? handle = some flag ↔ handle ∉ m.inner.own ∧ m.scene.flag? handle = some flag := by
  unfold offer?
  by_cases h : handle ∈ m.inner.own <;> simp [h]

theorem Stands.receive (h : m.Stands) (hflag : m.scene.flag? handle = some flag) :
    (m.receive handle).Stands where
  agrees := h.agrees
  held k hk := by
    rcases List.mem_cons.mp hk with rfl | hk
    · exact ⟨flag, hflag⟩
    · exact h.held k hk
  registered := by
    refine ⟨h.registered.unset, fun k hs => ?_⟩
    obtain ⟨hown, hgiven⟩ := h.registered.current k hs
    exact ⟨.tail _ hown, hgiven⟩
  watched := h.watched

theorem Stands.keepOnly (h : m.Stands) (hown : handle ∈ m.inner.own)
    (hstage : m.inner.stage = .set handle) : (m.keepOnly handle).Stands where
  agrees := h.agrees
  held k hk := by
    obtain rfl := List.mem_singleton.mp hk
    exact h.held k hown
  registered := by
    refine ⟨fun hs => ?_, fun k hs => ?_⟩
    · cases hstage.symm.trans hs
    · obtain rfl : handle = k := Stage.set.inj (hstage.symm.trans hs)
      exact ⟨.head _, (h.registered.current handle hs).2⟩
  watched := h.watched

/-- The handle that is replaced goes as any other handle does. -/
theorem settle_eq_take {old : Nat} (hown : m.inner.own = [handle, old]) (hne : old ≠ handle)
    (hflag : m.scene.flag? old = some flag) :
    settle { m with flags := m.flags.leave flag } = (m.keepOnly handle).take (.drop old) := by
  have hbars : ¬ (m.keepOnly handle).inner.Bars (.drop old) := by
    simp [Surroundings.Bars, Machine.keepOnly, hne]
  have hkept : (m.keepOnly handle).scene.flag? old = some flag := hflag
  unfold settle take
  simp only [hown, if_neg hbars, Machine.step, InterruptHandles.step, hkept]
  rfl

end Machine

namespace Native

variable {ℓ : Layout} {σ α β : Type}

/-! ## The story of an instance -/

/-- What happens while an instance lives: a step of others, a handle of theirs that is handed to
the instance, or a request of the host. -/
inductive Turn (ℓ : Layout)
  | others (step : InterruptStep)
  | set (handle : Nat)
  | request (r : ScriptHost.Request ℓ)

namespace Instance

/-- Set a handle. Only one that others hold can be handed over. -/
def handOver (lib : Library ℓ (Surroundings σ)) (x : Instance) (handle : Nat) :
    Use ℓ (Surroundings σ) Instance := do
  let m ← Action.get
  match m.offer? handle with
  | none => return x
  | some flag =>
    Action.modify (Machine.receive handle)
    let y ← x.setInterrupt lib flag
    Action.modify Machine.settle
    return y

def turn (lib : Library ℓ (Surroundings σ)) (x : Instance) :
    Turn ℓ → Use ℓ (Surroundings σ) Instance
  | .others step => do
    Action.modify fun m => m.take step
    return x
  | .set handle => x.handOver lib handle
  | .request r => do
    let _ ← x.answer lib r
    return x

/-- Turns one after the other. -/
def turns (lib : Library ℓ (Surroundings σ)) (x : Instance) :
    List (Turn ℓ) → Use ℓ (Surroundings σ) Instance
  | [] => return x
  | turn :: rest => do (← x.turn lib turn).turns lib rest

end Instance

/-- An instance from its creation to its end. The last moment is the one after the instance has
given up its flag. -/
def story (lib : Library ℓ (Surroundings σ)) (turns : List (Turn ℓ)) :
    Use ℓ (Surroundings σ) (Except StartupError Unit) := do
  match ← create lib with
  | .error e => return .error e
  | .ok x =>
    (← x.turns lib turns).close lib
    Action.modify Machine.note
    return .ok ()

/-! ## Actions on machines that stand -/

/-- An action that ends with a value on one machine. `Q` holds of the value and of the machine
that is left, and the moments that are written down show the events. -/
def Reaches (m : Machine (Surroundings σ)) (body : Use ℓ (Surroundings σ) α)
    (Q : α → Machine (Surroundings σ) → Prop) : Prop :=
  ∃ a events m', body m = ⟨.value a, events, m'⟩ ∧ Q a m' ∧
    (∀ t ∈ m.inner.moments, t ∈ m'.inner.moments) ∧ ∀ e ∈ events, e.ShownIn m'.inner.moments

namespace Reaches

variable {m : Machine (Surroundings σ)} {body : Use ℓ (Surroundings σ) α}
  {Q : α → Machine (Surroundings σ) → Prop}

theorem pure {a : α} (h : Q a m) : Reaches m (Pure.pure a : Use ℓ (Surroundings σ) α) Q :=
  ⟨a, [], m, rfl, h, fun _ ht => ht, by simp⟩

theorem get : Reaches m (Action.get : Use ℓ (Surroundings σ) _) fun a m' => a = m ∧ m' = m :=
  ⟨m, [], m, rfl, ⟨rfl, rfl⟩, fun _ ht => ht, by simp⟩

theorem mono {R : α → Machine (Surroundings σ) → Prop} (h : Reaches m body Q)
    (hr : ∀ a m', Q a m' → R a m') : Reaches m body R := by
  obtain ⟨a, events, m', hb, hq, hmoments, hshown⟩ := h
  exact ⟨a, events, m', hb, hr a m' hq, hmoments, hshown⟩

theorem bind {f : α → Use ℓ (Surroundings σ) β} {R : β → Machine (Surroundings σ) → Prop}
    (h : Reaches m body Q) (hf : ∀ a m', Q a m' → Reaches m' (f a) R) :
    Reaches m (body >>= f) R := by
  obtain ⟨a, xs, mid, hb, hq, hmoments, hshown⟩ := h
  obtain ⟨b, ys, m', hn, hr, hmoments', hshown'⟩ := hf a mid hq
  refine ⟨b, xs ++ ys, m', ?_, hr, fun t ht => hmoments' t (hmoments t ht), fun e he => ?_⟩
  · rw [Action.bind_of_value hb, hn]
  · rcases List.mem_append.mp he with he | he
    · exact (hshown e he).mono hmoments'
    · exact hshown' e he

theorem modify {f : Machine (Surroundings σ) → Machine (Surroundings σ)}
    (hm : ∀ t ∈ m.inner.moments, t ∈ (f m).inner.moments) :
    Reaches m (Action.modify f : Use ℓ (Surroundings σ) Unit) fun _ m' => m' = f m :=
  ⟨(), [], f m, rfl, rfl, hm, by simp⟩

theorem ask (lib : Library ℓ σ) (others : Meanwhile ℓ σ) {r : Request ℓ} (h : m.Stands)
    (hr : m.Hands r) :
    Reaches m ((lib.among others).ask r) fun _ m' => r.Leaves m m' := by
  have hl := lib.among_leaves others h hr
  refine ⟨_, _, _, Library.ask_eq _ _ _, hl, hl.stays.moments, ?_⟩
  intro e he
  obtain rfl := List.mem_singleton.mp he
  exact hl.shown _

end Reaches

/-- An action that leaves every machine standing, with the handles of the instance as they
were. -/
def Calm (body : Use ℓ (Surroundings σ) α) : Prop :=
  ∀ m, m.Stands → Reaches m body fun _ m' => m'.Stands ∧ m.Stays m'

namespace Calm

theorem pure (a : α) : Calm (Pure.pure a : Use ℓ (Surroundings σ) α) :=
  fun m h => .pure ⟨h, .refl m⟩

theorem bind {body : Use ℓ (Surroundings σ) α} {f : α → Use ℓ (Surroundings σ) β}
    (h : Calm body) (hf : ∀ a, Calm (f a)) : Calm (body >>= f) := by
  intro m hm
  apply (h m hm).bind
  rintro a mid ⟨hmid, hstays⟩
  apply (hf a mid hmid).mono
  rintro b m' ⟨hm', hstays'⟩
  exact ⟨hm', hstays.trans hstays'⟩

theorem read (b : Buffer) : Calm (Action.emit (.read b) : Use ℓ (Surroundings σ) Unit) := by
  intro m hm
  refine ⟨(), _, m, rfl, ⟨hm, .refl m⟩, fun _ ht => ht, fun e he => ?_⟩
  obtain rfl := List.mem_singleton.mp he
  trivial

/-- A call that gives the library no flag. -/
theorem ask (lib : Library ℓ σ) (others : Meanwhile ℓ σ) {r : Request ℓ} (hr : r.handed? = none) :
    Calm ((lib.among others).ask r) := by
  intro m hm
  have hands : m.Hands r := by simp [Machine.Hands, hr]
  apply (Reaches.ask lib others hm hands).mono
  intro _ m' hl
  exact ⟨hl.stands, hl.stays⟩

end Calm

namespace Instance

variable (lib : Library ℓ σ) (others : Meanwhile ℓ σ) {x : Instance}
  {m m' : Machine (Surroundings σ)}

theorem toBigInteger_calm (w : ℓ.Word) : Calm (x.toBigInteger (lib.among others) w) := by
  unfold toBigInteger
  apply (Calm.ask lib others rfl).bind
  rintro ⟨code, stored⟩
  dsimp only
  split
  · exact .pure _
  apply (Calm.ask lib others rfl).bind
  intro text
  cases text with
  | none => exact .pure _
  | some b =>
    apply (Calm.read b).bind
    intro _
    apply (Calm.ask lib others rfl).bind
    intro _
    exact .pure _

/-- No request of the host registers a flag. -/
theorem answer_calm (r : ScriptHost.Request ℓ) : Calm (x.answer (lib.among others) r) := by
  cases r with
  | freeValue w =>
    apply (Calm.ask lib others rfl).bind
    intro _
    exact .ask lib others rfl
  | toBigInteger w => exact toBigInteger_calm lib others w
  | toDouble w =>
    apply (Calm.ask lib others rfl).bind
    intro _
    exact .pure _
  | _ => exact .ask lib others rfl

/-! ## Turns -/

/-- The instance holds a handle on the flag that it has to give up, and no other handle. -/
def Holds (x : Instance) (m : Machine (Surroundings σ)) : Prop :=
  match x.interrupt with
  | none => m.inner.own = []
  | some flag => ∃ k, m.inner.own = [k] ∧ m.scene.flag? k = some flag

theorem Holds.stays (h : x.Holds m) (hm : m.Stays m') : x.Holds m' := by
  unfold Holds at h ⊢
  cases hx : x.interrupt with
  | none =>
    rw [hx] at h
    exact hm.own.trans h
  | some flag =>
    rw [hx] at h
    obtain ⟨k, hown, hk⟩ := h
    refine ⟨k, hm.own.trans hown, ?_⟩
    rw [hm.flag k (by simp [hown])]
    exact hk

theorem leave_reaches (flag : Option Nat) :
    Reaches m (leave flag : Use ℓ (Surroundings σ) Unit) fun _ m' =>
      m' = { m with flags := flag.elim m.flags m.flags.leave } := by
  cases flag with
  | none => exact .pure rfl
  | some i => exact .modify fun _ ht => ht

/-- The flag of the old handle is given up on a machine that stands, for by then the library has
been given the new one. -/
theorem setInterrupt_reaches {handle flag : Nat} {rest : List Nat} (hm : m.Stands)
    (hown : m.inner.own = handle :: rest) (hflag : m.scene.flag? handle = some flag) :
    Reaches m (x.setInterrupt (lib.among others) flag) fun y m' =>
      y = { x with interrupt := some flag } ∧ ∃ mid, mid.Stands ∧ m.Stays mid ∧
        mid.inner.stage = .set handle ∧
        m' = { mid with flags := x.interrupt.elim mid.flags mid.flags.leave } := by
  have hands : m.Hands (.setInterruptHandler x.runtime true (some flag) : Request ℓ) := by
    rintro _ ⟨⟩
    exact ⟨handle, rest, hown, hflag.symm⟩
  unfold setInterrupt
  apply (Reaches.ask lib others hm hands).bind
  intro _ mid hl
  apply (leave_reaches x.interrupt).bind
  rintro _ m' rfl
  refine .pure ⟨rfl, mid, hl.stands, hl.stays, ?_, rfl⟩
  rw [hl.stage _ rfl, hown]
  rfl

/-- With the old handle gone, the instance holds the new one. -/
theorem Holds.settle {mid : Machine (Surroundings σ)} {handle flag : Nat} (hx : x.Holds m)
    (hnew : handle ∉ m.inner.own) (hflag : m.scene.flag? handle = some flag) (hmid : mid.Stands)
    (hstays : (m.receive handle).Stays mid) (hstage : mid.inner.stage = .set handle) :
    let left := { mid with flags := x.interrupt.elim mid.flags mid.flags.leave }.settle
    left.Stands ∧ ({ x with interrupt := some flag } : Instance).Holds left ∧
      ∀ t ∈ mid.inner.moments, t ∈ left.inner.moments := by
  have hown : mid.inner.own = handle :: m.inner.own := hstays.own
  have hheld : mid.scene.flag? handle = some flag := (hstays.flag handle (.head _)).trans hflag
  unfold Holds at hx
  cases hi : x.interrupt with
  | none =>
    rw [hi] at hx
    rw [hx] at hown
    have hleft : mid.settle = (mid.keepOnly handle).note := by simp [Machine.settle, hown]
    simp only [Option.elim_none, hleft]
    exact ⟨(hmid.keepOnly (by simp [hown]) hstage).note, ⟨handle, rfl, hheld⟩,
      fun _ ht => .tail _ ht⟩
  | some i =>
    rw [hi] at hx
    obtain ⟨old, hold, holdFlag⟩ := hx
    -- Both handles may be on one flag, so it is the handles that have to differ.
    have hne : old ≠ handle := by
      rintro rfl
      exact hnew (by simp [hold])
    have holdHeld : mid.scene.flag? old = some i :=
      (hstays.flag old (by simp [Machine.receive, hold])).trans holdFlag
    rw [hold] at hown
    simp only [Option.elim_some, Machine.settle_eq_take hown hne holdHeld]
    obtain ⟨hstands, hkept⟩ := (hmid.keepOnly (by simp [hown]) hstage).take (.drop old)
    refine ⟨hstands, ⟨handle, hkept.own, ?_⟩, hkept.moments⟩
    exact (hkept.flag handle (.head _)).trans hheld

/-- A handle is handed over, and the instance holds it and no other. -/
theorem handOver_holds (hm : m.Stands) (hx : x.Holds m) (handle : Nat) :
    Reaches m (x.handOver (lib.among others) handle) fun y m' => m'.Stands ∧ y.Holds m' := by
  unfold handOver
  apply Reaches.get.bind
  rintro _ _ ⟨rfl, rfl⟩
  split
  · exact .pure ⟨hm, hx⟩
  rename_i flag hoffer
  obtain ⟨hnew, hflag⟩ := Machine.offer?_eq_some_iff.mp hoffer
  apply (Reaches.modify fun _ ht => ht).bind
  rintro _ _ rfl
  apply (setInterrupt_reaches lib others (hm.receive hflag) rfl hflag).bind
  rintro y left ⟨rfl, mid, hmid, hstays, hstage, rfl⟩
  obtain ⟨hstands, hholds, hmoments⟩ := hx.settle hnew hflag hmid hstays hstage
  apply (Reaches.modify hmoments).bind
  rintro _ _ rfl
  exact .pure ⟨hstands, hholds⟩

/-- One turn. -/
theorem turn_holds (hm : m.Stands) (hx : x.Holds m) (turn : Turn ℓ) :
    Reaches m (x.turn (lib.among others) turn) fun y m' => m'.Stands ∧ y.Holds m' := by
  cases turn with
  | others step =>
    obtain ⟨hstands, hstays⟩ := hm.take step
    apply (Reaches.modify hstays.moments).bind
    rintro _ _ rfl
    exact .pure ⟨hstands, hx.stays hstays⟩
  | set handle => exact handOver_holds lib others hm hx handle
  | request r =>
    apply (answer_calm lib others r m hm).bind
    rintro _ m' ⟨hstands, hstays⟩
    exact .pure ⟨hstands, hx.stays hstays⟩

theorem turns_hold (hm : m.Stands) (hx : x.Holds m) (turns : List (Turn ℓ)) :
    Reaches m (x.turns (lib.among others) turns) fun y m' => m'.Stands ∧ y.Holds m' := by
  induction turns generalizing x m with
  | nil => exact .pure ⟨hm, hx⟩
  | cons turn rest ih =>
    apply (turn_holds lib others hm hx turn).bind
    rintro y m' ⟨hm', hy⟩
    exact ih hm' hy

/-- The flag is given up last, when the runtime is gone and nothing polls the flag any more. -/
theorem close_reaches (hm : m.Stands) :
    Reaches m (x.close (lib.among others)) fun _ m' =>
      m'.inner.stage = .freed ∧ ∀ t ∈ m'.inner.moments, t.Watched := by
  unfold close
  apply (Calm.ask lib others rfl m hm).bind
  rintro _ m₁ ⟨hm₁, -⟩
  have hands : m₁.Hands (.freeRuntime x.runtime : Request ℓ) := nofun
  apply (Reaches.ask lib others hm₁ hands).bind
  intro _ m₂ hl
  apply (leave_reaches x.interrupt).mono
  rintro _ _ rfl
  exact ⟨hl.freed _ rfl, hl.stands.watched⟩

end Instance

theorem create_reaches (lib : Library ℓ σ) (others : Meanwhile ℓ σ)
    {m : Machine (Surroundings σ)} (hm : m.Stands) (hown : m.inner.own = []) :
    Reaches m (create (lib.among others)) fun made m' =>
      m'.Stands ∧ ∀ x, made = .ok x → x.Holds m' := by
  unfold create
  apply (Calm.ask lib others rfl m hm).bind
  rintro runtime m₁ ⟨hm₁, hstays₁⟩
  cases runtime with
  | none => exact .pure ⟨hm₁, nofun⟩
  | some runtime =>
    apply (Calm.ask lib others rfl m₁ hm₁).bind
    rintro context m₂ ⟨hm₂, hstays₂⟩
    cases context with
    | none =>
      apply (Calm.ask lib others rfl m₂ hm₂).bind
      rintro _ m₃ ⟨hm₃, -⟩
      exact .pure ⟨hm₃, nofun⟩
    | some context =>
      refine .pure ⟨hm₂, ?_⟩
      rintro _ ⟨⟩
      exact (hstays₂.own.trans hstays₁.own).trans hown

/-! ## The law -/

/-- Where the story of an instance begins. There are no handles, and no moment is past. -/
def beginning (inner : σ) (counts : UInt64 → Int32) (control : ControlState) :
    Machine (Surroundings σ) := ⟨.start inner, counts, control, []⟩

theorem beginning_stands (inner : σ) (counts : UInt64 → Int32) (control : ControlState) :
    (beginning inner counts control).Stands where
  agrees := ⟨id, InterruptHandles.empty_agrees⟩
  held := by simp [beginning, Surroundings.start]
  registered := ⟨fun _ => ⟨rfl, rfl⟩, nofun⟩
  watched := by simp [beginning, Surroundings.start]

/-- Whatever handles an instance is given, whatever others do with theirs between its calls and
while the library is called, and whatever the library answers, the story of the instance ends,
and every moment of it was watched, the one after its end too. By then the runtime is gone,
unless there was no instance. The moments that are written down show every call. -/
theorem registered_flag_is_alive_and_current (lib : Library ℓ σ) (others : Meanwhile ℓ σ)
    (turns : List (Turn ℓ)) (inner : σ) (counts : UInt64 → Int32) (control : ControlState) :
    let out := story (lib.among others) turns (beginning inner counts control)
    (∃ made, out.ending = .value made ∧ (made = .ok () → out.state.inner.stage = .freed)) ∧
      (∀ t ∈ out.state.inner.moments, t.Watched) ∧
      ∀ e ∈ out.events, e.ShownIn out.state.inner.moments := by
  have hstory : Reaches (beginning inner counts control) (story (lib.among others) turns)
      fun made m' =>
        (made = .ok () → m'.inner.stage = .freed) ∧ ∀ t ∈ m'.inner.moments, t.Watched := by
    unfold story
    apply (create_reaches lib others (beginning_stands inner counts control) rfl).bind
    rintro made m ⟨hm, hmade⟩
    cases made with
    | error e => exact .pure ⟨nofun, hm.watched⟩
    | ok x =>
      apply (Instance.turns_hold lib others hm (hmade x rfl) turns).bind
      rintro y m₁ ⟨hm₁, -⟩
      apply (Instance.close_reaches lib others hm₁).bind
      rintro _ m₂ ⟨hfreed, hwatched⟩
      apply (Reaches.modify fun _ ht => .tail _ ht).bind
      rintro _ _ rfl
      exact .pure ⟨fun _ => hfreed, List.forall_mem_cons.mpr ⟨.of_freed hfreed, hwatched⟩⟩
  obtain ⟨made, events, m', hrun, ⟨hfreed, hwatched⟩, -, hshown⟩ := hstory
  simp only [hrun]
  exact ⟨⟨made, rfl, hfreed⟩, hwatched, hshown⟩

end Native

end ScriptHost
