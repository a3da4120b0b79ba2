-- The control state around calls into the engine. Where the settings say so, every call that
-- may run a script or calculate begins with all traps masked, and what the engine does to the
-- control state in such a call is undone. Where they do not, the host writes nothing.
import ScriptHost.Proofs.Exchange.Discipline
import ScriptHost.Proofs.Fpu.Nesting
import Mathlib.Logic.Relation

namespace ScriptHost

variable {ℓ : Layout} {σ ε α : Type}

theorem Machine.control_retain (m : Machine σ) (w : ℓ.Word) :
    (m.retain ℓ w).control = m.control := by
  unfold retain
  split <;> rfl

theorem Machine.control_release (m : Machine σ) (w : ℓ.Word) :
    (m.release ℓ w).control = m.control := by
  unfold release
  split <;> rfl

/-! ## Calls that need a shield -/

/-- Whether a request may run a script or calculate. -/
def Request.runsCode : Request ℓ → Bool
  | .eval _ _ => true
  | .parse _ => true
  | .stringify _ => true
  | .toDouble _ => true
  | .toBigInteger _ => true
  | .toText _ => true
  | .freeValue _ => false
  | .freeText _ => false
  | .takeException => false
  | .newText _ => false

/-- Every call that may run a script or calculate begins with all traps masked. -/
def Masked (events : List (Event ℓ ε)) : Prop :=
  ∀ c : Call ℓ ε, .call c ∈ events → c.request.runsCode = true → c.control.allTrapsMasked = true

/-- The host writes no control state. -/
def Untouched (events : List (Event ℓ ε)) : Prop := ∀ c, .install c ∉ events

namespace Engine

/-- What the engine makes of the control state in some call. -/
def Moves (e : Engine ℓ σ ε) (c c' : ControlState) : Prop :=
  ∃ r m, m.control = c ∧ (e.answer r m).state.control = c'

/-- What the engine makes of the control state in a call that needs no shield. The bits that
report do not count. -/
def Drifts (e : Engine ℓ σ ε) (c c' : ControlState) : Prop :=
  ∃ r m, r.runsCode = false ∧ m.control.snapshot = c ∧ (e.answer r m).state.control.snapshot = c'

/-- An engine that changes the control state only where it may run a script or calculate. -/
def Steady (e : Engine ℓ σ ε) : Prop :=
  ∀ r m, r.runsCode = false → (e.answer r m).state.control.snapshot = m.control.snapshot

theorem Steady.drifts_eq {e : Engine ℓ σ ε} (he : e.Steady) {c c' : ControlState}
    (h : Relation.ReflTransGen e.Drifts c c') : c' = c := by
  induction h with
  | refl => rfl
  | tail _ hstep ih =>
    obtain ⟨r, m, hr, rfl, rfl⟩ := hstep
    rw [he r m hr, ih]

end Engine

theorem Masked.append {xs ys : List (Event ℓ ε)} (h : Masked xs) (h' : Masked ys) :
    Masked (xs ++ ys) := by
  intro c hc
  rcases List.mem_append.mp hc with hc | hc
  · exact h c hc
  · exact h' c hc

theorem Untouched.append {xs ys : List (Event ℓ ε)} (h : Untouched xs) (h' : Untouched ys) :
    Untouched (xs ++ ys) := by
  intro c hc
  rcases List.mem_append.mp hc with hc | hc
  · exact h c hc
  · exact h' c hc

namespace Fpu

/-! ## With the guard -/

/-- What a guard is there for: calls are masked, and of what the engine does to the control
state no more is left than it did in calls that need no shield. -/
def shield (e : Engine ℓ σ ε) : Discipline ℓ σ ε where
  whole m xs m' :=
    Masked xs ∧ Relation.ReflTransGen e.Drifts m.control.snapshot m'.control.snapshot
  cut _ xs := Masked xs
  nil _ := ⟨by simp [Masked], .refl⟩
  append h h' := ⟨h.1.append h'.1, h.2.trans h'.2⟩
  append_cut h h' := h.1.append h'
  cut_of_whole h := h.1

theorem ask_shielded (h : Host ℓ σ ε) {r : Request ℓ} (hr : r.runsCode = false) :
    (shield h.engine).Keeps (h.ask r) := by
  apply Discipline.Keeps.of_whole
  intro m
  refine ⟨?_, .single ⟨r, m, hr, rfl, rfl⟩⟩
  intro c hc hrun
  cases List.mem_singleton.mp hc
  rw [hr] at hrun
  cases hrun

/-- Whatever the engine does in a call with a guard, the guard puts the control state back. -/
theorem askMasked_shielded {h : Host ℓ σ ε} (hg : h.settings.fpuGuard = true) (r : Request ℓ) :
    (shield h.engine).Keeps (h.askMasked r) := by
  intro m
  have ho : (Opening.following h.settings).masks = true := hg
  have hask : h.askMasked r m = (Opening.following h.settings).around (h.ask r) m := rfl
  rw [hask, around_of_masks ho]
  have hmasked : Masked (h.ask r { m with control := m.control.snapshot.masked }).events := by
    intro c hc _
    cases List.mem_singleton.mp hc
    exact ControlState.allTrapsMasked_masked _
  have hinstall : ∀ c, Masked [(.install c : Event ℓ ε)] := by
    intro c
    simp [Masked]
  have hback : Relation.ReflTransGen h.engine.Drifts m.control.snapshot
      m.control.snapshot.snapshot := by
    rw [ControlState.snapshot_snapshot]
  cases hb : h.ask r { m with control := m.control.snapshot.masked } with
  | mk ending xs m' =>
    rw [hb] at hmasked
    have hall := (hinstall m.control.snapshot.masked).append
      (hmasked.append (hinstall m.control.snapshot))
    cases ending with
    | value a => exact ⟨hall, hback⟩
    | unwound => exact ⟨hall, hback⟩
    | aborted => exact (hinstall m.control.snapshot.masked).append hmasked

theorem shield_heeds {h : Host ℓ σ ε} (hg : h.settings.fpuGuard = true) :
    (shield h.engine).Heeds h where
  retain m w := by
    refine ⟨by simp [Masked], ?_⟩
    rw [Machine.control_retain]
  release m w := by
    refine ⟨by simp [Masked], ?_⟩
    rw [Machine.control_release]
  log m r := ⟨by simp [Masked], .refl⟩
  freeValue w := ask_shielded h rfl
  takeException := ask_shielded h rfl
  newText text := ask_shielded h rfl
  coerceText? w := .coerceText? (askMasked_shielded hg _) (fun m b => ⟨by simp [Masked], .refl⟩)
    fun b => ask_shielded h rfl
  eval source file := askMasked_shielded hg _
  parse text := askMasked_shielded hg _
  stringify w := askMasked_shielded hg _
  toDouble w := askMasked_shielded hg _
  toBigInteger w := askMasked_shielded hg _

/-! ## Without the guard -/

/-- What is left to the engine alone: only its own calls change the control state. -/
def handsOff (e : Engine ℓ σ ε) : Discipline ℓ σ ε where
  whole m xs m' := Untouched xs ∧ Relation.ReflTransGen e.Moves m.control m'.control
  cut _ xs := Untouched xs
  nil _ := ⟨by simp [Untouched], .refl⟩
  append h h' := ⟨h.1.append h'.1, h.2.trans h'.2⟩
  append_cut h h' := h.1.append h'
  cut_of_whole h := h.1

theorem ask_untouched (h : Host ℓ σ ε) (r : Request ℓ) :
    (handsOff h.engine).Keeps (h.ask r) := by
  apply Discipline.Keeps.of_whole
  intro m
  refine ⟨?_, .single ⟨r, m, rfl, rfl⟩⟩
  intro c hc
  cases List.mem_singleton.mp hc

theorem askMasked_untouched {h : Host ℓ σ ε} (hg : h.settings.fpuGuard = false) (r : Request ℓ) :
    (handsOff h.engine).Keeps (h.askMasked r) := by
  have ho : (Opening.following h.settings).masks = false := hg
  have hask : h.askMasked r = h.ask r := around_of_not_masks ho (h.ask r)
  rw [hask]
  exact ask_untouched h r

theorem handsOff_heeds {h : Host ℓ σ ε} (hg : h.settings.fpuGuard = false) :
    (handsOff h.engine).Heeds h where
  retain m w := by
    refine ⟨by simp [Untouched], ?_⟩
    rw [Machine.control_retain]
  release m w := by
    refine ⟨by simp [Untouched], ?_⟩
    rw [Machine.control_release]
  log m r := ⟨by simp [Untouched], .refl⟩
  freeValue w := ask_untouched h _
  takeException := ask_untouched h _
  newText text := ask_untouched h _
  coerceText? w := .coerceText? (askMasked_untouched hg _)
    (fun m b => ⟨by simp [Untouched], .refl⟩) fun b => ask_untouched h _
  eval source file := askMasked_untouched hg _
  parse text := askMasked_untouched hg _
  stringify w := askMasked_untouched hg _
  toDouble w := askMasked_untouched hg _
  toBigInteger w := askMasked_untouched hg _

end Fpu

/-! ## The law -/

/-- An exchange that shields the control state, if the settings say so. Its calls are masked,
and after it, unless it aborts, the control state is what it was before, but for the bits that
report and for what the engine did to it in calls that need no shield. If the settings say
otherwise, the control state is the engine's alone. -/
structure Host.Shields (h : Host ℓ σ ε) (body : Exchange ℓ σ ε α) : Prop where
  masked : h.settings.fpuGuard = true → ∀ m, Masked (body m).events
  drifted : h.settings.fpuGuard = true → ∀ m, (body m).ending ≠ .aborted →
    Relation.ReflTransGen h.engine.Drifts m.control.snapshot (body m).state.control.snapshot
  restored : h.settings.fpuGuard = true → h.engine.Steady → ∀ m, (body m).ending ≠ .aborted →
    (body m).state.control.snapshot = m.control.snapshot
  untouched : h.settings.fpuGuard = false → ∀ m, Untouched (body m).events
  moved : h.settings.fpuGuard = false → ∀ m, (body m).ending ≠ .aborted →
    Relation.ReflTransGen h.engine.Moves m.control (body m).state.control

theorem Host.shields_of {h : Host ℓ σ ε} {body : Exchange ℓ σ ε α}
    (hb : ∀ d : Discipline ℓ σ ε, d.Heeds h → d.Keeps body) : h.Shields body where
  masked hg m := (hb _ (Fpu.shield_heeds hg) m).cut
  drifted hg m hend := ((hb _ (Fpu.shield_heeds hg) m).whole hend).2
  restored hg he m hend := he.drifts_eq ((hb _ (Fpu.shield_heeds hg) m).whole hend).2
  untouched hg m := (hb _ (Fpu.handsOff_heeds hg) m).cut
  moved hg m hend := ((hb _ (Fpu.handsOff_heeds hg) m).whole hend).2

/-- Sessions of any length shield the control state. -/
theorem sessions_are_shielded (h : Host ℓ σ ε) (s : Slots ℓ) (ops : List (Operation ℓ)) :
    h.Shields (Operation.runAll h s ops) := Host.shields_of fun _ hd => hd.keeps_runAll s ops

/-- Whatever the engine answers, and however an operation ends, the control state is shielded:
in the calls themselves, in texts, in projections and in embeddings. -/
theorem every_call_is_shielded (h : Host ℓ σ ε) :
    (∀ source file, h.Shields (h.eval source file)) ∧
      (∀ text, h.Shields (h.parse text)) ∧
      (∀ w, h.Shields (h.stringify w)) ∧
      (∀ w, h.Shields (h.toDouble w)) ∧
      (∀ w, h.Shields (h.toBigInteger w)) ∧
      (∀ w, h.Shields (h.toText w)) ∧
      (∀ w, h.Shields (h.toUnits w)) ∧
      (∀ w, h.Shields (h.project w)) ∧
      (∀ x, h.Shields (h.projectOwned x)) ∧
      ∀ v, h.Shields (h.embed v) := by
  refine ⟨fun source file => ?_, fun text => ?_, fun w => ?_, fun w => ?_, fun w => ?_,
    fun w => ?_, fun w => ?_, fun w => ?_, fun x => ?_, fun v => ?_⟩
  · exact Host.shields_of fun _ hd => hd.keeps_eval source file
  · exact Host.shields_of fun _ hd => hd.keeps_parse text
  · exact Host.shields_of fun _ hd => hd.keeps_stringify w
  · exact Host.shields_of fun _ hd => hd.toDouble w
  · exact Host.shields_of fun _ hd => hd.toBigInteger w
  · exact Host.shields_of fun _ hd => hd.keeps_toText w
  · exact Host.shields_of fun _ hd => hd.keeps_toUnits w
  · exact Host.shields_of fun _ hd => hd.keeps_project w
  · exact Host.shields_of fun _ hd => hd.keeps_projectOwned x
  · exact Host.shields_of fun _ hd => hd.keeps_embed v

/-- An engine that unmasks everything in every call that needs a shield, and never returns. -/
def Engine.rude (ℓ : Layout) : Engine ℓ Unit ε where
  answer r m := ⟨.unwound, [], if r.runsCode then { m with control := ⟨0, 0⟩ } else m⟩

theorem Engine.rude_steady : (Engine.rude ℓ : Engine ℓ Unit ε).Steady := by
  intro r m hr
  simp [Engine.rude, hr]

/-- A script is evaluated with division by zero unmasked and rounding to another side. The engine
unwinds in a control state of its own, and the host has its own again. -/
theorem rude_engine_is_shielded :
    ∃ events m',
      (Host.eval ⟨Engine.rude .wide, .standard, 0⟩ "" "" : Exchange .wide Unit Unit _)
        ⟨(), fun _ => 0, ⟨0x5DA1, 0x27B⟩, []⟩ = ⟨.unwound, events, m'⟩ ∧
      Masked events ∧
      events = [.install ⟨0x5F80, 0x27F⟩, .call ⟨.eval "" "", ⟨0x5F80, 0x27F⟩, [], none⟩,
        .install ⟨0x5D80, 0x27B⟩] ∧
      m'.control.snapshot = ⟨0x5D80, 0x27B⟩ := by
  have hlaw := (every_call_is_shielded (ε := Unit)
    ⟨Engine.rude .wide, .standard, 0⟩).1 "" ""
  have hback := hlaw.restored rfl Engine.rude_steady ⟨(), fun _ => 0, ⟨0x5DA1, 0x27B⟩, []⟩ nofun
  exact ⟨_, _, rfl, hlaw.masked rfl _, rfl, hback⟩

end ScriptHost
