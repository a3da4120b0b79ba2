-- Scopes with a guard, one inside the other and one after the other. Each scope masks the
-- traps on the way in and puts back on the way out what was in force before, whatever its
-- body does and however it ends.
import ScriptHost.Fpu.Guard

namespace ScriptHost

variable {ℓ : Layout} {σ ε α : Type}

theorem Action.pure_eq {S E : Type} (a : α) (s : S) :
    (Pure.pure a : Action S E α) s = ⟨.value a, [], s⟩ := rfl

theorem Action.bind_of_value {S E β : Type} {body : Action S E α} {f : α → Action S E β}
    {s s' : S} {a : α} {xs : List E} (h : body s = ⟨.value a, xs, s'⟩) :
    (body >>= f) s = ⟨(f a s').ending, xs ++ (f a s').events, (f a s').state⟩ := by
  show Action.bind body f s = _
  unfold Action.bind
  rw [h]

/-- The same where only the ending of the first action is known. -/
theorem Action.bind_of_ending {S E β : Type} {body : Action S E α} {f : α → Action S E β} {s : S}
    {a : α} (h : (body s).ending = .value a) :
    (body >>= f) s = ⟨(f a (body s).state).ending, (body s).events ++ (f a (body s).state).events,
      (f a (body s).state).state⟩ := by
  cases hb : body s with
  | mk ending events s' =>
    rw [hb] at h
    cases h
    exact bind_of_value hb

theorem Ending.map_map {β γ : Type} (e : Ending α) (f : α → β) (g : β → γ) :
    (e.map f).map g = e.map (g ∘ f) := by
  cases e <;> rfl

/-- An action whose value is only changed afterwards. -/
theorem Action.bind_pure_eq {S E β : Type} (body : Action S E α) (f : α → β) (s : S) :
    (body >>= fun a => Pure.pure (f a)) s =
      ⟨(body s).ending.map f, (body s).events, (body s).state⟩ := by
  show Action.bind body _ s = _
  unfold Action.bind
  cases body s with
  | mk ending events s' =>
    cases ending with
    | value a => simp [Pure.pure, Action.pure, Ending.map]
    | unwound => rfl
    | aborted => rfl

/-! ## Bits of the control state -/

namespace ControlState

/-- The control bits that mask nothing: rounding, flushing to zero and precision. -/
def others (c : ControlState) : ControlState :=
  ⟨c.mxcsr &&& ~~~vectorMasks &&& ~~~stickyFlags, c.x87 &&& ~~~wordMasks⟩

/-- The bits of the vector register that mask, from bit 7 to bit 12. -/
theorem getLsbD_vectorMasks {i : Nat} (hi : i < 32) :
    vectorMasks.toBitVec.getLsbD i = true ↔ 7 ≤ i ∧ i ≤ 12 := by
  revert hi
  revert i
  decide

/-- The bits of the control word that mask, which are the low six. -/
theorem getLsbD_wordMasks {i : Nat} (hi : i < 16) :
    wordMasks.toBitVec.getLsbD i = true ↔ i ≤ 5 := by
  revert hi
  revert i
  decide

theorem and_eq_right_iff {w : Nat} (x y : BitVec w) :
    x &&& y = y ↔ ∀ i < w, y.getLsbD i = true → x.getLsbD i = true := by
  constructor
  · intro h i _ hy
    rw [← h, BitVec.getLsbD_and, Bool.and_eq_true] at hy
    exact hy.1
  · intro h
    ext i hi
    have hbit := h i hi
    rw [BitVec.getLsbD_eq_getElem hi, BitVec.getLsbD_eq_getElem hi] at hbit
    cases hy : y[i] <;> simp_all

/-- All traps are masked where each of the twelve mask bits is set. -/
theorem allTrapsMasked_iff (c : ControlState) :
    c.allTrapsMasked = true ↔
      (∀ i, 7 ≤ i → i ≤ 12 → c.mxcsr.toBitVec.getLsbD i = true) ∧
        ∀ i ≤ 5, c.x87.toBitVec.getLsbD i = true := by
  unfold allTrapsMasked
  rw [Bool.and_eq_true, beq_iff_eq, beq_iff_eq, ← UInt32.toBitVec_inj, ← UInt16.toBitVec_inj,
    UInt32.toBitVec_and, UInt16.toBitVec_and, and_eq_right_iff, and_eq_right_iff]
  refine and_congr ⟨fun h i h₇ h₁₂ => ?_, fun h i hi hm => ?_⟩
    ⟨fun h i h₅ => ?_, fun h i hi hm => ?_⟩
  · exact h i (by omega) ((getLsbD_vectorMasks (by omega)).mpr ⟨h₇, h₁₂⟩)
  · obtain ⟨h₇, h₁₂⟩ := (getLsbD_vectorMasks hi).mp hm
    exact h i h₇ h₁₂
  · exact h i (by omega) ((getLsbD_wordMasks (by omega)).mpr h₅)
  · exact h i ((getLsbD_wordMasks hi).mp hm)

theorem or_and_not_right {w : Nat} (x y : BitVec w) : (x ||| y) &&& ~~~y = x &&& ~~~y := by
  ext i hi
  cases hy : y[i] <;> simp [hy]

@[simp] theorem allTrapsMasked_masked (c : ControlState) : c.masked.allTrapsMasked = true := by
  rw [allTrapsMasked_iff]
  refine ⟨fun i h₇ h₁₂ => ?_, fun i h₅ => ?_⟩
  · have hm := (getLsbD_vectorMasks (by omega)).mpr ⟨h₇, h₁₂⟩
    simp [masked, hm]
  · have hm := (getLsbD_wordMasks (by omega)).mpr h₅
    simp [masked, hm]

@[simp] theorem others_masked (c : ControlState) : c.masked.others = c.others := by
  have hv : (c.mxcsr ||| vectorMasks) &&& ~~~vectorMasks = c.mxcsr &&& ~~~vectorMasks :=
    UInt32.eq_of_toBitVec_eq (or_and_not_right _ _)
  have hw : (c.x87 ||| wordMasks) &&& ~~~wordMasks = c.x87 &&& ~~~wordMasks :=
    UInt16.eq_of_toBitVec_eq (or_and_not_right _ _)
  simp only [others, masked, hv, hw]

@[simp] theorem others_snapshot (c : ControlState) : c.snapshot.others = c.others := by
  simp only [others, snapshot]
  rw [UInt32.and_assoc c.mxcsr, UInt32.and_comm (~~~stickyFlags), ← UInt32.and_assoc,
    UInt32.and_assoc _ (~~~stickyFlags), UInt32.and_self]

@[simp] theorem snapshot_snapshot (c : ControlState) : c.snapshot.snapshot = c.snapshot := by
  simp only [snapshot, UInt32.and_assoc, UInt32.and_self]

end ControlState

namespace Fpu

/-! ## One scope -/

/-- How a scope is opened: with a guard that masks in any case, or with one that follows
the settings. -/
inductive Opening
  | masking
  | following (settings : Settings)

namespace Opening

def guard : Opening → Exchange ℓ σ ε Guard
  | masking => Guard.masking
  | following settings => Guard.new settings

/-- A body in the scope. -/
def around : Opening → Exchange ℓ σ ε α → Exchange ℓ σ ε α
  | masking, body => withMasking body
  | following settings, body => withMasked settings body

/-- Whether the guard masks anything. -/
def masks : Opening → Bool
  | masking => true
  | following settings => settings.fpuGuard

/-- The control state that the opening leaves. -/
def entering (o : Opening) (c : ControlState) : ControlState :=
  if o.masks then c.snapshot.masked else c

/-- A scope is its guard opened, the body, and the guard closed. -/
theorem around_eq (o : Opening) (body : Exchange ℓ σ ε α) : o.around body = scope o.guard body := by
  cases o <;> rfl

theorem guard_of_masks {o : Opening} (ho : o.masks = true) :
    (o.guard : Exchange ℓ σ ε Guard) = Guard.masking := by
  cases o with
  | masking => rfl
  | following settings =>
    unfold guard Guard.new
    exact if_pos ho

theorem guard_of_not_masks {o : Opening} (ho : o.masks = false) :
    (o.guard : Exchange ℓ σ ε Guard) = Pure.pure ⟨none⟩ := by
  cases o with
  | masking => cases ho
  | following settings =>
    unfold guard Guard.new
    exact if_neg (by simpa [masks] using ho)

theorem state_guard (o : Opening) (m : Machine σ) :
    ((o.guard : Exchange ℓ σ ε Guard) m).state = { m with control := o.entering m.control } := by
  unfold entering
  cases ho : o.masks with
  | true =>
    rw [guard_of_masks ho]
    rfl
  | false =>
    rw [guard_of_not_masks ho]
    rfl

end Opening

theorem Guard.masking_eq (m : Machine σ) :
    (Guard.masking : Exchange ℓ σ ε Guard) m =
      ⟨.value ⟨some m.control.snapshot⟩, [.install m.control.snapshot.masked],
        { m with control := m.control.snapshot.masked }⟩ := rfl

/-- A scope that masks, step by step: one write, the body, and one more write unless the body
aborts. -/
theorem around_of_masks {o : Opening} (ho : o.masks = true) (body : Exchange ℓ σ ε α)
    (m : Machine σ) :
    o.around body m =
      match body { m with control := m.control.snapshot.masked } with
      | ⟨.aborted, events, m'⟩ =>
        ⟨.aborted, .install m.control.snapshot.masked :: events, m'⟩
      | ⟨ending, events, m'⟩ =>
        ⟨ending, .install m.control.snapshot.masked :: (events ++ [.install m.control.snapshot]),
          { m' with control := m.control.snapshot }⟩ := by
  rw [o.around_eq]
  unfold scope
  rw [Opening.guard_of_masks ho, Action.bind_of_value (Guard.masking_eq m)]
  unfold Action.ensuring
  cases hb : body { m with control := m.control.snapshot.masked } with
  | mk ending events m' => cases ending <;> rfl

/-- A scope that does not mask is its body. -/
theorem around_of_not_masks {o : Opening} (ho : o.masks = false) (body : Exchange ℓ σ ε α) :
    o.around body = body := by
  funext m
  rw [o.around_eq]
  unfold scope
  rw [Opening.guard_of_not_masks ho, Action.bind_of_value (Action.pure_eq _ m)]
  unfold Action.ensuring
  cases hb : body m with
  | mk ending events m' =>
    cases ending with
    | value a => simp [Guard.close, Pure.pure, Action.pure, Ending.map]
    | unwound => simp [Guard.close, Pure.pure, Action.pure]
    | aborted => simp

/-! ## Scopes in scopes -/

/-- A program made of scopes. Between them it may do anything, as well to the control state,
and it may unwind at any place and go on where that is caught. -/
inductive Scopes (ℓ : Layout) (σ ε : Type)
  | act (body : Exchange ℓ σ ε Unit)
  | andThen (first second : Scopes ℓ σ ε)
  | scope (opening : Opening) (body : Scopes ℓ σ ε)
  | catching (body : Scopes ℓ σ ε)

/-- One scope that a program comes to: the machine just before it and as its body begins,
and what the body and the scope as a whole come to. -/
structure Visit (ℓ : Layout) (σ ε : Type) where
  opening : Opening
  before : Machine σ
  inside : Machine σ
  body : Outcome (Machine σ) (Event ℓ ε) Unit
  whole : Outcome (Machine σ) (Event ℓ ε) Unit

namespace Scopes

def run : Scopes ℓ σ ε → Exchange ℓ σ ε Unit
  | act body => body
  | andThen first second => do
    first.run
    second.run
  | scope opening body => opening.around body.run
  | catching body => do
    let _ ← body.run.attempt
    return ()

/-- The scopes that a program comes to on a machine, the outer ones first. -/
def visits : Scopes ℓ σ ε → Machine σ → List (Visit ℓ σ ε)
  | act _, _ => []
  | andThen first second, m =>
    first.visits m ++
      match first.run m with
      | ⟨.value _, _, m'⟩ => second.visits m'
      | _ => []
  | scope opening body, m =>
    let inside := ((opening.guard : Exchange ℓ σ ε Guard) m).state
    { opening, before := m, inside, body := body.run inside
      whole := opening.around body.run m } :: body.visits inside
  | catching body, m => body.visits m

end Scopes

/-- A scope that keeps to its own. If it masks, its body begins with every trap masked and with
every other control bit as it was, and after it the control state is again what it was, but for
the six bits that report. If it does not mask, there is nothing to see of it. -/
structure Visit.Nests (v : Visit ℓ σ ε) : Prop where
  masked : v.opening.masks = true → v.inside.control.allTrapsMasked = true
  others : v.opening.masks = true → v.inside.control.others = v.before.control.others
  restored : v.opening.masks = true → v.whole.ending ≠ .aborted →
    v.whole.state.control.mxcsr = v.before.control.mxcsr &&& ~~~0x3F ∧
      v.whole.state.control.x87 = v.before.control.x87
  ending : v.whole.ending = v.body.ending
  silent : v.opening.masks = false → v.inside = v.before ∧ v.whole = v.body

/-- The law for one scope, with any body. -/
theorem scope_nests (o : Opening) (body : Exchange ℓ σ ε Unit) (m : Machine σ) :
    let inside := ((o.guard : Exchange ℓ σ ε Guard) m).state
    Visit.Nests ⟨o, m, inside, body inside, o.around body m⟩ := by
  intro inside
  have hi : inside = { m with control := o.entering m.control } := o.state_guard m
  rw [hi]
  cases ho : o.masks with
  | true =>
    have he : o.entering m.control = m.control.snapshot.masked := by simp [Opening.entering, ho]
    rw [he, around_of_masks ho]
    refine ⟨fun _ => ?_, fun _ => ?_, fun _ hend => ?_, ?_, fun h => ?_⟩
    · exact ControlState.allTrapsMasked_masked _
    · simp
    · cases hb : body { m with control := m.control.snapshot.masked } with
      | mk ending events m' =>
        cases ending with
        | value a => exact ⟨rfl, rfl⟩
        | unwound => exact ⟨rfl, rfl⟩
        | aborted =>
          rw [hb] at hend
          exact absurd rfl hend
    · cases hb : body { m with control := m.control.snapshot.masked } with
      | mk ending events m' => cases ending <;> rfl
    · rw [ho] at h
      cases h
  | false =>
    have he : o.entering m.control = m.control := by simp [Opening.entering, ho]
    rw [he, around_of_not_masks ho]
    have hmasks : ¬ o.masks = true := by simp [ho]
    exact ⟨fun h => absurd h hmasks, fun h => absurd h hmasks, fun h => absurd h hmasks, rfl,
      fun _ => ⟨rfl, rfl⟩⟩

/-- However scopes are put together, each one that a program comes to keeps to its own. -/
theorem every_scope_restores_what_it_masked (t : Scopes ℓ σ ε) (m : Machine σ) :
    ∀ v ∈ t.visits m, v.Nests := by
  induction t generalizing m with
  | act body => simp [Scopes.visits]
  | andThen first second ih ih' =>
    intro v hv
    rcases List.mem_append.mp hv with hv | hv
    · exact ih m v hv
    · split at hv
      · exact ih' _ v hv
      · cases hv
  | scope o body ih =>
    intro v hv
    rcases List.mem_cons.mp hv with rfl | hv
    · exact scope_nests o body.run m
    · exact ih _ v hv
  | catching body ih => exact ih m

/-- A scope with two more inside it. The first of them unwinds in a control state of its own and
is caught, and the second does not mask. -/
def Scopes.sample : Scopes .wide Unit Unit :=
  .scope .masking (.andThen
    (.catching (.scope (.following .standard) (.act fun m =>
      ⟨.unwound, [], { m with control := ⟨0, 0⟩ }⟩)))
    (.scope (.following { Settings.standard with fpuGuard := false }) (.act fun m =>
      ⟨.value (), [], m⟩)))

theorem scope_that_unwinds_restores_what_it_masked :
    ∃ outer inner last, Scopes.sample.visits ⟨(), fun _ => 0, ⟨0x5DBF, 0x27B⟩, []⟩ =
        [outer, inner, last] ∧
      outer.Nests ∧ inner.Nests ∧ last.Nests ∧ inner.whole.ending = .unwound ∧
      inner.whole.state.control = ⟨0x5F80, 0x27F⟩ ∧
      outer.whole.state.control = ⟨0x5D80, 0x27B⟩ := by
  have hlaw := every_scope_restores_what_it_masked Scopes.sample
    ⟨(), fun _ => 0, ⟨0x5DBF, 0x27B⟩, []⟩
  refine ⟨_, _, _, rfl, hlaw _ ?_, hlaw _ ?_, hlaw _ ?_, rfl, ?_, ?_⟩
  · exact .head _
  · exact .tail _ (.head _)
  · exact .tail _ (.tail _ (.head _))
  · decide
  · decide

end Fpu

end ScriptHost
