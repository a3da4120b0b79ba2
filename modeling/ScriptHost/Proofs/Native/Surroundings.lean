-- A library among other owners of interrupt handles. While it is called, and between two of its
-- calls, they make handles, clone and drop them, and raise and lower the flags. Every moment is
-- written down, and the library finds the flag that it was given last alive and up to date.
import ScriptHost.Proofs.Interrupt.LastWrite
import ScriptHost.Proofs.Native.Requests

namespace ScriptHost

/-! ## Moments -/

/-- How far an instance has come with its handles: it has set none, or this one was the last, or
its runtime is gone. -/
inductive Stage
  | unset
  | set (handle : Nat)
  | freed

/-- A moment of a run. Beside the flags stand the flag that the library was given last, the handle
that the instance was done with setting last, and what the steps so far tell of the handles. -/
structure Moment where
  flags : Flags
  given : Option Nat
  stage : Stage
  latest : Option Nat
  history : Roster

/-- From the first handle that was set until the runtime is gone, the library was given a flag
that has an owner, and a poll of it finds whether the last write to the group of the handle that
was set last was a request. Before that the library was given no flag, and the instance is not
done with setting any handle. -/
structure Moment.Watched (t : Moment) : Prop where
  unset : t.stage = .unset → t.given = none ∧ t.latest = none
  current : ∀ handle, t.stage = .set handle → ∃ g i, t.history.group? handle = some g ∧
    t.given = some i ∧ 0 < t.flags.owners i ∧ t.flags.poll t.given = t.history.requested g

/-- When the runtime is gone, nothing polls the flag. -/
theorem Moment.Watched.of_freed {t : Moment} (h : t.stage = .freed) : t.Watched where
  unset hs := by cases h.symm.trans hs
  current _ hs := by cases h.symm.trans hs

/-! ## Surroundings -/

/-- The state of a library with what stands around it. -/
structure Surroundings (σ : Type) where
  inner : σ
  /-- The flag of each handle that is still held, by the instance or by anyone else. -/
  handles : List (Option Nat)
  /-- The handles that the instance holds, the latest one first. -/
  own : List Nat
  /-- The flag that the library was given last. -/
  given : Option Nat
  stage : Stage
  /-- The handle that was set last, once that is over. -/
  latest : Option Nat
  history : Roster
  moments : List Moment

namespace Surroundings

variable {σ : Type}

/-- What stands around a library that has not been used, where there are no handles. -/
def start (inner : σ) : Surroundings σ :=
  { inner, handles := [], own := [], given := none, stage := .unset, latest := none,
    history := .empty, moments := [] }

/-- Others cannot drop a handle of the instance. They can do everything else with it. -/
def Bars (s : Surroundings σ) : InterruptStep → Prop
  | .drop handle => handle ∈ s.own
  | _ => False

instance (s : Surroundings σ) : (step : InterruptStep) → Decidable (s.Bars step)
  | .drop handle => inferInstanceAs (Decidable (handle ∈ s.own))
  | .new | .clone _ | .request _ | .reset _ | .poll _ => inferInstanceAs (Decidable False)

end Surroundings

namespace Machine

variable {σ : Type}

/-- The flags with the handles on them. -/
def scene (m : Machine (Surroundings σ)) : InterruptHandles := ⟨m.flags, m.inner.handles⟩

def moment (m : Machine (Surroundings σ)) : Moment :=
  ⟨m.flags, m.inner.given, m.inner.stage, m.inner.latest, m.inner.history⟩

/-- Write the moment down. -/
def note (m : Machine (Surroundings σ)) : Machine (Surroundings σ) :=
  { m with inner := { m.inner with moments := m.moment :: m.inner.moments } }

/-- A step on the handles, whoever takes it. -/
def step (m : Machine (Surroundings σ)) (step : InterruptStep) : Machine (Surroundings σ) :=
  let s := (m.scene.step step).2
  { m with
    flags := s.flags
    inner := { m.inner with handles := s.handles, history := m.inner.history.after step } }

/-- A step of others. -/
def take (m : Machine (Surroundings σ)) (step : InterruptStep) : Machine (Surroundings σ) :=
  if m.inner.Bars step then m else (m.step step).note

def takeAll (m : Machine (Surroundings σ)) (steps : List InterruptStep) :
    Machine (Surroundings σ) := steps.foldl take m

/-- What the library sees of a machine. -/
def plain (m : Machine (Surroundings σ)) : Machine σ :=
  ⟨m.inner.inner, m.counts, m.control, m.flags⟩

/-- What a library leaves. It polls flags and never writes to one. -/
def leftBy (m : Machine (Surroundings σ)) (out : Machine σ) : Machine (Surroundings σ) :=
  { m with
    inner := { m.inner with inner := out.inner }, counts := out.counts, control := out.control }

end Machine

namespace Native

variable {ℓ : Layout} {σ : Type}

/-- The flag that a call gives to the library. Without the callback the library polls nothing. -/
def Request.handed? : Request ℓ → Option (Option Nat)
  | .setInterruptHandler _ callback flag => some (if callback then flag else none)
  | _ => none

/-- The effect of a call on what the library polls. -/
def Request.effect (r : Request ℓ) (m : Machine (Surroundings σ)) : Machine (Surroundings σ) :=
  match r.handed? with
  | some flag =>
    { m with inner := { m.inner with given := flag, stage := m.inner.own.head?.elim .unset .set } }
  | none => m

/-- A call has returned. The runtime may be gone by then. -/
def Request.finish (r : Request ℓ) (m : Machine (Surroundings σ)) : Machine (Surroundings σ) :=
  match r with
  | .freeRuntime _ => { m with inner := { m.inner with stage := .freed } }
  | _ => m

/-- What others do while a call is served, before its effect and after it. It may depend on
everything that there is. -/
structure Meanwhile (ℓ : Layout) (σ : Type) where
  before : Request ℓ → Machine (Surroundings σ) → List InterruptStep
  after : Request ℓ → Machine (Surroundings σ) → List InterruptStep

/-- A library that is called among others. -/
def Library.among (lib : Library ℓ σ) (others : Meanwhile ℓ σ) : Library ℓ (Surroundings σ) where
  answer r m :=
    let begun := m.note.takeAll (others.before r m)
    let out := lib.answer r begun.plain
    let served := (r.effect (begun.leftBy out.2)).note
    (out.1, (r.finish (served.takeAll (others.after r served))).note)

end Native

/-! ## Between two steps -/

namespace InterruptHandles

/-- A handle keeps its flag while it is not dropped. -/
theorem flag?_step {s : InterruptHandles} {handle i : Nat} {step : InterruptStep}
    (hi : s.flag? handle = some i) (hs : step ≠ .drop handle) :
    (s.step step).2.flag? handle = some i := by
  have happend : ∀ flags j, (mk flags (s.handles ++ [some j])).flag? handle = some i := by
    intro flags j
    unfold flag? at hi ⊢
    rw [List.getElem?_append_left, hi]
    obtain ⟨hlt, -⟩ := List.getElem?_eq_some_iff.mp (Option.join_eq_some_iff.mp hi)
    exact hlt
  cases step with
  | new => exact happend _ _
  | clone origin =>
    simp only [InterruptHandles.step]
    cases s.flag? origin with
    | none => exact hi
    | some j => exact happend _ j
  | drop other =>
    simp only [InterruptHandles.step]
    cases s.flag? other with
    | none => exact hi
    | some j =>
      have hne : other ≠ handle := by
        rintro rfl
        exact hs rfl
      simp only [flag?, List.getElem?_set_ne hne]
      exact hi
  | request other | reset other =>
    simp only [InterruptHandles.step]
    cases s.flag? other <;> exact hi
  | poll _ => exact hi

end InterruptHandles

namespace Machine

variable {σ : Type} {m m' m'' : Machine (Surroundings σ)}

/-- The library was given the flag of the handle that was set last, and the instance holds that
handle. -/
structure Registered (m : Machine (Surroundings σ)) : Prop where
  unset : m.inner.stage = .unset → m.inner.given = none ∧ m.inner.latest = none
  current : ∀ handle, m.inner.stage = .set handle →
    handle ∈ m.inner.own ∧ m.inner.given = m.scene.flag? handle

/-- A machine between two steps. The handles stand as their history tells, and every moment so
far was watched. -/
structure Stands (m : Machine (Surroundings σ)) : Prop where
  agrees : ∃ place, m.scene.Agrees m.inner.history place
  held : ∀ k ∈ m.inner.own, ∃ i, m.scene.flag? k = some i
  registered : m.Registered
  watched : ∀ t ∈ m.inner.moments, t.Watched

/-- The handles of the instance are as they were, and no moment is forgotten. -/
structure Stays (m m' : Machine (Surroundings σ)) : Prop where
  own : m'.inner.own = m.inner.own
  latest : m'.inner.latest = m.inner.latest
  flag : ∀ k ∈ m.inner.own, m'.scene.flag? k = m.scene.flag? k
  moments : ∀ t ∈ m.inner.moments, t ∈ m'.inner.moments

theorem Stays.refl (m : Machine (Surroundings σ)) : m.Stays m :=
  ⟨rfl, rfl, fun _ _ => rfl, fun _ h => h⟩

theorem Stays.trans (h : m.Stays m') (h' : m'.Stays m'') : m.Stays m'' where
  own := h'.own.trans h.own
  latest := h'.latest.trans h.latest
  flag k hk := by
    have hk' : k ∈ m'.inner.own := by rwa [h.own]
    rw [h'.flag k hk', h.flag k hk]
  moments t ht := h'.moments t (h.moments t ht)

theorem stays_note (m : Machine (Surroundings σ)) : m.Stays m.note :=
  ⟨rfl, rfl, fun _ _ => rfl, fun _ ht => .tail _ ht⟩

/-- A registration lasts while the handles of the instance stay. -/
theorem Registered.stays (h : m.Registered) (hm : m.Stays m')
    (hstage : m'.inner.stage = m.inner.stage) (hgiven : m'.inner.given = m.inner.given) :
    m'.Registered where
  unset hs := by
    rw [hgiven, hm.latest]
    exact h.unset (hstage.symm.trans hs)
  current handle hs := by
    obtain ⟨hown, hflag⟩ := h.current handle (hstage.symm.trans hs)
    refine ⟨?_, ?_⟩
    · rwa [hm.own]
    · rw [hgiven, hflag, hm.flag handle hown]

@[simp] theorem stage_note (m : Machine (Surroundings σ)) :
    m.note.inner.stage = m.inner.stage := rfl

@[simp] theorem stage_take (m : Machine (Surroundings σ)) (step : InterruptStep) :
    (m.take step).inner.stage = m.inner.stage := by
  unfold take
  split <;> rfl

@[simp] theorem stage_takeAll (m : Machine (Surroundings σ)) (steps : List InterruptStep) :
    (m.takeAll steps).inner.stage = m.inner.stage := by
  induction steps generalizing m with
  | nil => rfl
  | cons step steps ih => exact (ih _).trans (m.stage_take step)

/-- The group of the registered handle has a flag to itself. The instance owns that flag, and it
shows the last write. -/
theorem Stands.moment_watched (h : m.Stands) : m.moment.Watched where
  unset := h.registered.unset
  current handle hs := by
    obtain ⟨hown, hgiven⟩ := h.registered.current handle hs
    obtain ⟨place, hagrees⟩ := h.agrees
    obtain ⟨i, hi⟩ := h.held handle hown
    have hplace := hagrees.flag?_eq handle
    rw [hi] at hplace hgiven
    obtain ⟨g, hg, rfl⟩ := Option.map_eq_some_iff.mp hplace.symm
    have hmem := Roster.mem_of_group? hg
    refine ⟨g, place g, hg, hgiven, ?_, ?_⟩
    · have howned : m.flags.owners (place g) = _ := hagrees.owned g hmem
      simp only [moment, howned]
      exact List.count_pos_iff.mpr hmem
    · simp only [moment, hgiven]
      exact hagrees.shows g hmem

theorem Stands.note (h : m.Stands) : m.note.Stands where
  agrees := h.agrees
  held := h.held
  registered := h.registered.stays (stays_note m) rfl rfl
  watched := List.forall_mem_cons.mpr ⟨h.moment_watched, h.watched⟩

/-! ## Steps of others -/

theorem Stands.step (h : m.Stands) {step : InterruptStep} (hb : ¬ m.inner.Bars step) :
    (m.step step).Stands ∧ m.Stays (m.step step) := by
  have hflag : ∀ k ∈ m.inner.own, (m.step step).scene.flag? k = m.scene.flag? k := by
    intro k hk
    obtain ⟨i, hi⟩ := h.held k hk
    have hne : step ≠ .drop k := by
      rintro rfl
      exact hb hk
    rw [hi]
    exact InterruptHandles.flag?_step hi hne
  have hstays : m.Stays (m.step step) := ⟨rfl, rfl, hflag, fun _ ht => ht⟩
  obtain ⟨place, hagrees⟩ := h.agrees
  refine ⟨⟨(hagrees.step step).2, ?_, ?_, h.watched⟩, hstays⟩
  · intro k hk
    rw [hflag k hk]
    exact h.held k hk
  · exact h.registered.stays hstays rfl rfl

theorem Stands.take (h : m.Stands) (step : InterruptStep) :
    (m.take step).Stands ∧ m.Stays (m.take step) := by
  unfold Machine.take
  split
  · exact ⟨h, .refl m⟩
  · rename_i hb
    obtain ⟨hstands, hstays⟩ := h.step hb
    exact ⟨hstands.note, hstays.trans (stays_note _)⟩

theorem Stands.takeAll (h : m.Stands) (steps : List InterruptStep) :
    (m.takeAll steps).Stands ∧ m.Stays (m.takeAll steps) := by
  induction steps generalizing m with
  | nil => exact ⟨h, .refl m⟩
  | cons step steps ih =>
    obtain ⟨hstands, hstays⟩ := h.take step
    obtain ⟨hstands', hstays'⟩ := ih hstands
    exact ⟨hstands', hstays.trans hstays'⟩

/-! ## Calls -/

/-- A call gives the library no flag but the one of the handle that came to the instance last. -/
def Hands {ℓ : Layout} (m : Machine (Surroundings σ)) (r : Native.Request ℓ) : Prop :=
  ∀ flag, r.handed? = some flag → ∃ k rest, m.inner.own = k :: rest ∧ flag = m.scene.flag? k

theorem stays_leftBy (m : Machine (Surroundings σ)) (out : Machine σ) : m.Stays (m.leftBy out) :=
  ⟨rfl, rfl, fun _ _ => rfl, fun _ h => h⟩

theorem Stands.leftBy (h : m.Stands) (out : Machine σ) : (m.leftBy out).Stands :=
  ⟨h.agrees, h.held, h.registered.stays (m.stays_leftBy out) rfl rfl, h.watched⟩

theorem Hands.stays {ℓ : Layout} {r : Native.Request ℓ} (h : m.Hands r) (hm : m.Stays m') :
    m'.Hands r := by
  intro flag hf
  obtain ⟨k, rest, hown, hk⟩ := h flag hf
  refine ⟨k, rest, hm.own.trans hown, ?_⟩
  rw [hm.flag k (by simp [hown])]
  exact hk

end Machine

namespace Native

variable {ℓ : Layout} {σ : Type} {r : Request ℓ} {m : Machine (Surroundings σ)}

theorem Request.effect_stays (r : Request ℓ) (m : Machine (Surroundings σ)) :
    m.Stays (r.effect m) := by
  unfold effect
  split <;> exact ⟨rfl, rfl, fun _ _ => rfl, fun _ h => h⟩

theorem Request.finish_stays (r : Request ℓ) (m : Machine (Surroundings σ)) :
    m.Stays (r.finish m) := by
  unfold finish
  split <;> exact ⟨rfl, rfl, fun _ _ => rfl, fun _ h => h⟩

theorem Request.effect_stands (h : m.Stands) (hr : m.Hands r) : (r.effect m).Stands := by
  unfold effect
  cases hf : r.handed? with
  | none => exact h
  | some flag =>
    obtain ⟨k, rest, hown, hk⟩ := hr flag hf
    refine ⟨h.agrees, h.held, ⟨?_, ?_⟩, h.watched⟩
    · simp [hown]
    · simp only [hown, List.head?_cons, Option.elim_some]
      rintro _ ⟨⟩
      exact ⟨.head _, hk⟩

theorem Request.finish_stands (h : m.Stands) : (r.finish m).Stands := by
  unfold finish
  split
  · exact ⟨h.agrees, h.held, ⟨nofun, nofun⟩, h.watched⟩
  · exact h

theorem Request.finish_of_handed {flag : Option Nat} (h : r.handed? = some flag) :
    r.finish m = m := by
  cases r with
  | freeRuntime runtime => cases h
  | _ => rfl

/-- The moments show an event. One of them has the flags that a call begins with, and in one the
library has been given what the call gives it. -/
def Event.ShownIn (moments : List Moment) : Event ℓ → Prop
  | .call r flags _ => (∃ t ∈ moments, t.flags = flags) ∧
      ∀ flag, r.handed? = some flag → ∃ t ∈ moments, t.given = flag ∧ ∃ k, t.stage = .set k
  | .read _ => True

theorem Event.ShownIn.mono {moments moments' : List Moment} {e : Event ℓ} (h : e.ShownIn moments)
    (hm : ∀ t ∈ moments, t ∈ moments') : e.ShownIn moments' := by
  cases e with
  | read b => trivial
  | call r flags reply =>
    obtain ⟨⟨t, ht, hflags⟩, hgiven⟩ := h
    refine ⟨⟨t, hm t ht, hflags⟩, fun flag hf => ?_⟩
    obtain ⟨u, hu, hg⟩ := hgiven flag hf
    exact ⟨u, hm u hu, hg⟩

/-- What a call leaves, seen from the machine that it began on. -/
structure Request.Leaves (r : Request ℓ) (m m' : Machine (Surroundings σ)) : Prop where
  stands : m'.Stands
  stays : m.Stays m'
  stage : ∀ flag, r.handed? = some flag → m'.inner.stage = m.inner.own.head?.elim .unset .set
  freed : ∀ runtime, r = .freeRuntime runtime → m'.inner.stage = .freed
  shown : ∀ reply, (Event.call r m.flags reply).ShownIn m'.inner.moments

/-- Whatever the library answers and whatever others do while it is called, the machine stands
afterwards, and the instance holds the handles that it held. -/
theorem Library.among_leaves (lib : Library ℓ σ) (others : Meanwhile ℓ σ) (h : m.Stands)
    (hr : m.Hands r) : r.Leaves m ((lib.among others).answer r m).2 := by
  simp only [among]
  -- Others come first, and then the library, which touches neither flags nor handles.
  obtain ⟨hbegun, hbefore⟩ := h.note.takeAll (others.before r m)
  generalize m.note.takeAll (others.before r m) = begun at hbegun hbefore ⊢
  have hleft := hbegun.leftBy (lib.answer r begun.plain).2
  have hleave := hbefore.trans (begun.stays_leftBy (lib.answer r begun.plain).2)
  generalize begun.leftBy (lib.answer r begun.plain).2 = left at hleft hleave ⊢
  have hstart := (Machine.stays_note m).trans hleave
  -- The flag that is registered is one that the instance holds by now.
  have hserved := (Request.effect_stands hleft (hr.stays hstart)).note
  have hserve := (Request.effect_stays r left).trans (Machine.stays_note _)
  obtain ⟨hafter, hrest⟩ := hserved.takeAll (others.after r (r.effect left).note)
  have hlast := (Request.finish_stands (r := r) hafter).note
  have hend := (hrest.trans (Request.finish_stays r _)).trans (Machine.stays_note _)
  refine ⟨hlast, hstart.trans (hserve.trans hend), fun flag hf => ?_, ?_, fun _ => ⟨?_, ?_⟩⟩
  · rw [Machine.stage_note, Request.finish_of_handed hf, Machine.stage_takeAll, Machine.stage_note]
    simp [Request.effect, hf, hstart.own]
  · rintro runtime rfl
    rfl
  · exact ⟨m.moment, hend.moments _ (hserve.moments _ (hleave.moments _ (.head _))), rfl⟩
  · intro flag hf
    obtain ⟨k, rest, hown, hk⟩ := hr flag hf
    refine ⟨(r.effect left).moment, hend.moments _ (.head _), ?_, k, ?_⟩ <;>
      simp [Machine.moment, Request.effect, hf, hstart.own, hown]

end Native

end ScriptHost
