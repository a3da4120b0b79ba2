-- Interrupt handles against their history. Handles are grouped by their origin, and a group
-- sees an interrupt exactly when the last write through any of its handles was a request.
import ScriptHost.Interrupt.Handles
import Mathlib.Logic.Function.Basic

namespace ScriptHost

/-! ## Flags -/

namespace Flags

/-- How many owners a flag has. -/
def owners (fs : Flags) (i : Nat) : Nat := (fs[i]?).elim 0 Flag.owners

theorem isRequested_make (fs : Flags) (i : Nat) : fs.make.2.isRequested i = fs.isRequested i := by
  unfold make isRequested
  by_cases hi : i < fs.length
  · rw [List.getElem?_append_left hi]
  · rw [List.getElem?_append_right (by omega), List.getElem?_eq_none (l := fs) (by omega)]
    cases i - fs.length <;> simp

theorem owners_make (fs : Flags) {i : Nat} (hi : i < fs.length) :
    fs.make.2.owners i = fs.owners i := by
  unfold make owners
  rw [List.getElem?_append_left hi]

theorem owners_make_new (fs : Flags) : fs.make.2.owners fs.length = 1 := by
  simp [make, owners]

theorem lt_length_of_owners {fs : Flags} {i : Nat} (h : 0 < fs.owners i) : i < fs.length := by
  by_cases hi : i < fs.length
  · exact hi
  · simp [owners, List.getElem?_eq_none (l := fs) (Nat.le_of_not_lt hi)] at h

/-- What a change of one flag does to what is read of any flag. -/
theorem elim_modify {α : Type} (fs : Flags) (i j : Nat) (f : Flag → Flag) (d : α) (p : Flag → α) :
    ((fs.modify i f)[j]?).elim d p = (fs[j]?).elim d fun x => p (if i = j then f x else x) := by
  rw [List.getElem?_modify]
  cases fs[j]? with
  | none => simp
  | some x => by_cases h : i = j <;> simp [h]

theorem isRequested_eq_elim (fs : Flags) (i : Nat) :
    fs.isRequested i = (fs[i]?).elim false Flag.requested := by
  unfold isRequested
  cases fs[i]? <;> rfl

@[simp] theorem isRequested_share (fs : Flags) (i j : Nat) :
    (fs.share i).isRequested j = fs.isRequested j := by
  simp only [isRequested_eq_elim, share, elim_modify, apply_ite Flag.requested, ite_self]

@[simp] theorem isRequested_leave (fs : Flags) (i j : Nat) :
    (fs.leave i).isRequested j = fs.isRequested j := by
  simp only [isRequested_eq_elim, leave, elim_modify, apply_ite Flag.requested, ite_self]

@[simp] theorem owners_set (fs : Flags) (i j : Nat) (b : Bool) :
    (fs.set i b).owners j = fs.owners j := by
  simp only [owners, set, elim_modify, apply_ite Flag.owners, ite_self]

theorem isRequested_set_same {fs : Flags} {i : Nat} (hi : i < fs.length) (b : Bool) :
    (fs.set i b).isRequested i = b := by
  simp [isRequested_eq_elim, set, hi]

theorem isRequested_set_other (fs : Flags) {i j : Nat} (h : i ≠ j) (b : Bool) :
    (fs.set i b).isRequested j = fs.isRequested j := by
  simp only [isRequested_eq_elim, set, elim_modify, if_neg h]

theorem owners_share_same {fs : Flags} {i : Nat} (hi : i < fs.length) :
    (fs.share i).owners i = fs.owners i + 1 := by
  simp [owners, share, hi]

theorem owners_share_other (fs : Flags) {i j : Nat} (h : i ≠ j) :
    (fs.share i).owners j = fs.owners j := by
  simp only [owners, share, elim_modify, if_neg h]

theorem owners_leave_same (fs : Flags) (i : Nat) : (fs.leave i).owners i = fs.owners i - 1 := by
  unfold owners leave
  rw [elim_modify]
  cases fs[i]? <;> simp

theorem owners_leave_other (fs : Flags) {i j : Nat} (h : i ≠ j) :
    (fs.leave i).owners j = fs.owners j := by
  simp only [owners, leave, elim_modify, if_neg h]

end Flags

/-! ## The history -/

/-- What the steps so far tell of the handles: the group of each handle that is still held, in
the order of making, and every write, the latest one first. A group is known by the place of
the handle that it began with. -/
structure Roster where
  groups : List (Option Nat)
  writes : List (Nat × Bool)

namespace Roster

def empty : Roster := ⟨[], []⟩

/-- The group of a handle that is still held. -/
def group? (r : Roster) (handle : Nat) : Option Nat := (r.groups[handle]?).join

/-- Whether the last write to a group was a request. -/
def requested (r : Roster) (g : Nat) : Bool := (r.writes.find? fun w => w.1 == g).any Prod.snd

/-- The write that a step makes: the group, and whether it is a request. -/
def write? (r : Roster) : InterruptStep → Option (Nat × Bool)
  | .request h => (r.group? h).map (·, true)
  | .reset h => (r.group? h).map (·, false)
  | _ => none

/-- A new handle begins a group, and a clone joins the group of its origin. -/
def groupsAfter (r : Roster) : InterruptStep → List (Option Nat)
  | .new => r.groups ++ [some r.groups.length]
  | .clone h => r.groups ++ (r.group? h).toList.map some
  | .drop h => r.groups.set h none
  | _ => r.groups

def after (r : Roster) (step : InterruptStep) : Roster :=
  ⟨r.groupsAfter step, (r.write? step).toList ++ r.writes⟩

def afterAll (r : Roster) (steps : List InterruptStep) : Roster := steps.foldl after r

/-- What a step gives, by the history alone. -/
def answer (r : Roster) : InterruptStep → InterruptAnswer
  | .new => .handle r.groups.length
  | .clone h => (r.group? h).elim .nothing fun _ => .handle r.groups.length
  | .poll h => .polled ((h.bind r.group?).any r.requested)
  | _ => .nothing

/-- What every handle sees, by the history alone. -/
def view (r : Roster) : List (Option Bool) := r.groups.map fun g => g.map r.requested

/-- What steps give one after the other, and what every handle sees after each. -/
def tell : Roster → List InterruptStep → List (InterruptAnswer × List (Option Bool))
  | _, [] => []
  | r, step :: steps => (r.answer step, (r.after step).view) :: (r.after step).tell steps

theorem mem_of_group? {r : Roster} {h g : Nat} (hg : r.group? h = some g) :
    some g ∈ r.groups := by
  unfold group? at hg
  rw [Option.join_eq_some_iff] at hg
  exact List.mem_of_getElem? hg

theorem after_eq_self {r : Roster} {step : InterruptStep} (hw : r.write? step = none)
    (hg : r.groupsAfter step = r.groups) : r.after step = r := by
  simp [after, hw, hg]

theorem set_of_not_held {r : Roster} {x : Nat} (hx : r.group? x = none) :
    r.groups.set x none = r.groups := by
  apply List.ext_getElem?
  intro i
  rw [List.getElem?_set]
  split
  · rename_i hi
    subst hi
    unfold group? at hx
    cases hg : r.groups[x]? with
    | none => simp [List.getElem?_eq_none_iff.mp hg]
    | some g =>
      rw [hg] at hx
      cases hx
      simp [(List.getElem?_eq_some_iff.mp hg).1]
  · rfl

/-- A write settles what its own group sees. -/
theorem requested_after_of_write {r : Roster} {step : InterruptStep} {g : Nat} {b : Bool}
    (h : r.write? step = some (g, b)) : (r.after step).requested g = b := by
  simp [requested, after, h]

/-- A step that makes no write to a group changes nothing for it. -/
theorem requested_after_of_no_write {r : Roster} {step : InterruptStep} {g : Nat}
    (h : ∀ b, r.write? step ≠ some (g, b)) : (r.after step).requested g = r.requested g := by
  unfold requested after
  cases hw : r.write? step with
  | none => rfl
  | some w =>
    obtain ⟨g', b⟩ := w
    have hne : g' ≠ g := by
      rintro rfl
      exact h b hw
    simp [hne]

/-- A group that was never written to sees no interrupt. -/
theorem requested_of_not_written {r : Roster} {g : Nat} (h : ∀ w ∈ r.writes, w.1 ≠ g) :
    r.requested g = false := by
  unfold requested
  rw [List.find?_eq_none.mpr (by simpa using h)]
  rfl

end Roster

/-! ## Flags and history -/

namespace InterruptHandles

/-- Handles that stand as their history tells. Each group that has a handle has a flag to
itself, which shows the last write, and every handle of the group owns it. -/
structure Agrees (s : InterruptHandles) (r : Roster) (place : Nat → Nat) : Prop where
  handles : s.handles = r.groups.map (Option.map place)
  earlier : ∀ g, some g ∈ r.groups → g < r.groups.length
  written : ∀ w ∈ r.writes, w.1 < r.groups.length
  apart : ∀ g g', some g ∈ r.groups → some g' ∈ r.groups → place g = place g' → g = g'
  shows : ∀ g, some g ∈ r.groups → s.flags.isRequested (place g) = r.requested g
  owned : ∀ g, some g ∈ r.groups → s.flags.owners (place g) = r.groups.count (some g)

namespace Agrees

variable {s : InterruptHandles} {r : Roster} {place : Nat → Nat}

theorem flag?_eq (h : s.Agrees r place) (x : Nat) : s.flag? x = (r.group? x).map place := by
  unfold flag? Roster.group?
  rw [h.handles, List.getElem?_map]
  cases r.groups[x]? with
  | none => rfl
  | some g => rfl

theorem made (h : s.Agrees r place) {g : Nat} (hg : some g ∈ r.groups) :
    place g < s.flags.length := by
  apply Flags.lt_length_of_owners
  rw [h.owned g hg]
  exact List.count_pos_iff.mpr hg

theorem view_eq (h : s.Agrees r place) : s.view = r.view := by
  unfold view Roster.view
  rw [h.handles, List.map_map, List.map_inj_left]
  intro g hg
  cases g with
  | none => rfl
  | some g => exact congrArg some (h.shows g hg)

theorem poll_eq (h : s.Agrees r place) (x : Option Nat) :
    s.flags.poll (x.bind s.flag?) = (x.bind r.group?).any r.requested := by
  cases x with
  | none => rfl
  | some x =>
    rw [Option.bind_some, Option.bind_some, h.flag?_eq]
    cases hg : r.group? x with
    | none => rfl
    | some g => exact h.shows g (Roster.mem_of_group? hg)

/-- A new group takes the next flag. -/
theorem new (h : s.Agrees r place) :
    (s.step .new).2.Agrees (r.after .new)
      (Function.update place r.groups.length s.flags.length) := by
  have hold : ∀ g, some g ∈ r.groups →
      Function.update place r.groups.length s.flags.length g = place g := fun g hg =>
    Function.update_of_ne (Nat.ne_of_lt (h.earlier g hg)) _ _
  have hnew : some r.groups.length ∉ r.groups := fun hm => Nat.lt_irrefl _ (h.earlier _ hm)
  have hgroups : ∀ g, some g ∈ (r.after .new).groups → some g ∈ r.groups ∨ g = r.groups.length := by
    intro g hg
    simpa [Roster.after, Roster.groupsAfter] using hg
  have hlen : (r.after .new).groups.length = r.groups.length + 1 := List.length_append
  refine ⟨?_, ?_, ?_, ?_, ?_, ?_⟩
  · show s.handles ++ [some s.flags.length] = (r.groups ++ [some r.groups.length]).map _
    rw [List.map_append, h.handles]
    congr 1
    · rw [List.map_inj_left]
      intro g hg
      cases g with
      | none => rfl
      | some g => exact congrArg some (hold g hg).symm
    · simp
  · intro g hg
    rw [hlen]
    rcases hgroups g hg with hg | rfl
    · exact Nat.lt_succ_of_lt (h.earlier g hg)
    · exact Nat.lt_succ_self _
  · intro w hw
    rw [hlen]
    exact Nat.lt_succ_of_lt (h.written w hw)
  · intro g g' hg hg' he
    rcases hgroups g hg with hg | rfl <;> rcases hgroups g' hg' with hg' | rfl
    · rw [hold g hg, hold g' hg'] at he
      exact h.apart g g' hg hg' he
    · rw [hold g hg, Function.update_self] at he
      exact absurd he (Nat.ne_of_lt (h.made hg))
    · rw [hold g' hg', Function.update_self] at he
      exact absurd he.symm (Nat.ne_of_lt (h.made hg'))
    · rfl
  · intro g hg
    show s.flags.make.2.isRequested _ = r.requested g
    rw [Flags.isRequested_make]
    rcases hgroups g hg with hg | rfl
    · rw [hold g hg]
      exact h.shows g hg
    · rw [Function.update_self, Roster.requested_of_not_written fun w hw =>
        Nat.ne_of_lt (h.written w hw)]
      simp [Flags.isRequested]
  · intro g hg
    show s.flags.make.2.owners _ = (r.groups ++ [some r.groups.length]).count (some g)
    rw [List.count_append]
    rcases hgroups g hg with hg | rfl
    · have hne : r.groups.length ≠ g := Nat.ne_of_gt (h.earlier g hg)
      rw [hold g hg, Flags.owners_make _ (h.made hg), h.owned g hg]
      simp [hne]
    · rw [Function.update_self, Flags.owners_make_new, List.count_eq_zero_of_not_mem hnew]
      simp

theorem place_ne (h : s.Agrees r place) {g g' : Nat} (hg : some g ∈ r.groups)
    (hg' : some g' ∈ r.groups) (hne : g ≠ g') : place g ≠ place g' :=
  fun he => hne (h.apart g g' hg hg' he)

/-- Handles may come and go in the groups that there are, if the owners are told. -/
theorem regroup (h : s.Agrees r place) {groups : List (Option Nat)} {flags : Flags}
    (hsub : ∀ g, some g ∈ groups → some g ∈ r.groups) (hlen : r.groups.length ≤ groups.length)
    (hshown : ∀ i, flags.isRequested i = s.flags.isRequested i)
    (howned : ∀ g, some g ∈ groups → flags.owners (place g) = groups.count (some g)) :
    (InterruptHandles.mk flags (groups.map (Option.map place))).Agrees ⟨groups, r.writes⟩
      place where
  handles := rfl
  earlier := fun g hg => Nat.lt_of_lt_of_le (h.earlier g (hsub g hg)) hlen
  written := fun w hw => Nat.lt_of_lt_of_le (h.written w hw) hlen
  apart := fun g g' hg hg' => h.apart g g' (hsub g hg) (hsub g' hg')
  shows := fun g hg => (hshown _).trans (h.shows g (hsub g hg))
  owned := howned

/-- A clone shares the flag of its origin. -/
theorem clone (h : s.Agrees r place) (x : Nat) :
    (s.step (.clone x)).2.Agrees (r.after (.clone x)) place := by
  simp only [InterruptHandles.step, h.flag?_eq]
  cases hx : r.group? x with
  | none =>
    rw [Roster.after_eq_self rfl (by simp [Roster.groupsAfter, hx])]
    exact h
  | some g₀ =>
    have hg₀ : some g₀ ∈ r.groups := Roster.mem_of_group? hx
    have hsub : ∀ g, some g ∈ r.groups ++ [some g₀] → some g ∈ r.groups := by
      intro g hg
      rcases List.mem_append.mp hg with hg | hg
      · exact hg
      · rw [List.mem_singleton.mp hg]
        exact hg₀
    have hr : r.after (.clone x) = ⟨r.groups ++ [some g₀], r.writes⟩ := by
      simp [Roster.after, Roster.groupsAfter, Roster.write?, hx]
    have hs : s.handles ++ [some (place g₀)] = (r.groups ++ [some g₀]).map (Option.map place) := by
      simp [h.handles]
    simp only [Option.map_some, hr, hs]
    apply h.regroup hsub
    · simp
    · intro i
      exact Flags.isRequested_share _ _ _
    · intro g hg
      rw [List.count_append, ← h.owned g (hsub g hg)]
      by_cases he : g₀ = g
      · subst he
        rw [Flags.owners_share_same (h.made hg₀)]
        simp
      · rw [Flags.owners_share_other _ (h.place_ne hg₀ (hsub g hg) he)]
        simp [he]

theorem drop (h : s.Agrees r place) (x : Nat) :
    (s.step (.drop x)).2.Agrees (r.after (.drop x)) place := by
  simp only [InterruptHandles.step, h.flag?_eq]
  cases hx : r.group? x with
  | none =>
    have hr : r.after (.drop x) = r := Roster.after_eq_self rfl (Roster.set_of_not_held hx)
    rw [hr]
    exact h
  | some g₀ =>
    have hg₀ : some g₀ ∈ r.groups := Roster.mem_of_group? hx
    obtain ⟨hlt, hget⟩ := List.getElem?_eq_some_iff.mp (Option.join_eq_some_iff.mp hx)
    have hsub : ∀ g, some g ∈ r.groups.set x none → some g ∈ r.groups := by
      intro g hg
      rcases List.mem_or_eq_of_mem_set hg with hg | hg
      · exact hg
      · cases hg
    have hs : s.handles.set x none = (r.groups.set x none).map (Option.map place) := by
      rw [List.map_set, h.handles]
      rfl
    simp only [Option.map_some, hs]
    apply h.regroup hsub
    · simp
    · intro i
      exact Flags.isRequested_leave _ _ _
    · intro g hg
      rw [List.count_set hlt, hget, ← h.owned g (hsub g hg)]
      by_cases he : g₀ = g
      · subst he
        rw [Flags.owners_leave_same]
        simp
      · rw [Flags.owners_leave_other _ (h.place_ne hg₀ (hsub g hg) he)]
        simp [he]

/-- A write shows on the flag of its group and on no other. -/
theorem write (h : s.Agrees r place) {step : InterruptStep} {g₀ : Nat} {b : Bool}
    (hg₀ : some g₀ ∈ r.groups) (hw : r.write? step = some (g₀, b))
    (hg : r.groupsAfter step = r.groups) :
    (InterruptHandles.mk (s.flags.set (place g₀) b) s.handles).Agrees (r.after step) place := by
  have hr : r.after step = ⟨r.groups, (g₀, b) :: r.writes⟩ := by simp [Roster.after, hg, hw]
  have hsame := Roster.requested_after_of_write hw
  have hother : ∀ g, g₀ ≠ g → (r.after step).requested g = r.requested g := by
    intro g hne
    apply Roster.requested_after_of_no_write
    rw [hw]
    rintro b' ⟨⟩
    exact hne rfl
  rw [hr] at hsame hother ⊢
  refine ⟨h.handles, h.earlier, ?_, h.apart, ?_, ?_⟩
  · intro w hw
    rcases List.mem_cons.mp hw with rfl | hw
    · exact h.earlier g₀ hg₀
    · exact h.written w hw
  · intro g hg
    by_cases he : g₀ = g
    · subst he
      rw [hsame]
      exact Flags.isRequested_set_same (h.made hg₀) b
    · rw [hother g he]
      exact (Flags.isRequested_set_other _ (h.place_ne hg₀ hg he) b).trans (h.shows g hg)
  · intro g hg
    exact (Flags.owners_set _ _ _ _).trans (h.owned g hg)

/-- What a step gives is what the history tells, and the history goes on. -/
theorem step (h : s.Agrees r place) (step : InterruptStep) :
    (s.step step).1 = r.answer step ∧
      ∃ place', (s.step step).2.Agrees (r.after step) place' := by
  have hlen : s.handles.length = r.groups.length := by rw [h.handles, List.length_map]
  cases step with
  | new => exact ⟨congrArg InterruptAnswer.handle hlen, _, h.new⟩
  | clone x =>
    refine ⟨?_, place, h.clone x⟩
    simp only [InterruptHandles.step, Roster.answer, h.flag?_eq]
    cases r.group? x with
    | none => rfl
    | some g => exact congrArg InterruptAnswer.handle hlen
  | drop x =>
    refine ⟨?_, place, h.drop x⟩
    simp only [InterruptHandles.step]
    split <;> rfl
  | request x | reset x =>
    simp only [InterruptHandles.step, h.flag?_eq]
    cases hx : r.group? x with
    | none =>
      rw [Roster.after_eq_self (by simp [Roster.write?, hx]) rfl]
      exact ⟨rfl, place, h⟩
    | some g =>
      refine ⟨rfl, place, h.write (Roster.mem_of_group? hx) ?_ rfl⟩
      simp [Roster.write?, hx]
  | poll x => exact ⟨congrArg InterruptAnswer.polled (h.poll_eq x), place, h⟩

theorem run (h : s.Agrees r place) (steps : List InterruptStep) :
    (s.run steps).1 = r.tell steps ∧
      ∃ place', (s.run steps).2.Agrees (r.afterAll steps) place' := by
  induction steps generalizing s r place with
  | nil => exact ⟨rfl, place, h⟩
  | cons step steps ih =>
    obtain ⟨ha, place', h'⟩ := h.step step
    obtain ⟨hrest, hlast⟩ := ih h'
    refine ⟨?_, hlast⟩
    show ((s.step step).1, (s.step step).2.view) :: ((s.step step).2.run steps).1 = _
    rw [ha, h'.view_eq, hrest]
    rfl

end Agrees

theorem empty_agrees : empty.Agrees Roster.empty id where
  handles := rfl
  earlier := by simp [Roster.empty]
  written := by simp [Roster.empty]
  apart := by simp [Roster.empty]
  shows := by simp [Roster.empty]
  owned := by simp [Roster.empty]

/-! ## The law -/

/-- Whatever steps are taken in whatever order, all that they give and all that the handles see
is told by the last write of each group. A poll through a handle finds the flag raised exactly
when that write was a request, a flag is owned by as many as hold a handle of its group, and
a step that writes to another group or to none changes nothing that a handle sees. -/
theorem handles_follow_the_last_write (steps : List InterruptStep) :
    let s := (empty.run steps).2
    let r := Roster.empty.afterAll steps
    (empty.run steps).1 = Roster.empty.tell steps ∧
      (∀ h g, r.group? h = some g →
        s.isRequested? h = some (r.requested g) ∧
        s.step (.poll (some h)) = (.polled (r.requested g), s) ∧
        ((s.flag? h).map s.flags.owners = some (r.groups.count (some g)))) ∧
      s.step (.poll none) = (.polled false, s) ∧
      (∀ step h g, r.group? h = some g → (r.after step).group? h = some g →
        (∀ b, r.write? step ≠ some (g, b)) →
        (s.step step).2.isRequested? h = s.isRequested? h) := by
  intro s r
  obtain ⟨htell, place, h⟩ := empty_agrees.run steps
  have hsees : ∀ {s : InterruptHandles} {r : Roster} {place : Nat → Nat} {x g : Nat},
      s.Agrees r place → r.group? x = some g → s.isRequested? x = some (r.requested g) := by
    intro s r place x g h hx
    unfold isRequested?
    rw [h.flag?_eq, hx]
    exact congrArg some (h.shows g (Roster.mem_of_group? hx))
  refine ⟨htell, fun x g hx => ⟨hsees h hx, ?_, ?_⟩, rfl, ?_⟩
  · have hpoll := h.poll_eq (some x)
    rw [Option.bind_some, Option.bind_some, hx] at hpoll
    exact congrArg (fun b => (InterruptAnswer.polled b, s)) hpoll
  · rw [h.flag?_eq, hx]
    exact congrArg some (h.owned g (Roster.mem_of_group? hx))
  · intro step x g hx hx' hw
    obtain ⟨-, place', h'⟩ := h.step step
    rw [hsees h' hx', hsees h hx, Roster.requested_after_of_no_write hw]

-- A clone raises the flag and is dropped, and the other handle still finds the flag raised.
example :
    (empty.run [.new, .clone 0, .request 1, .drop 1, .poll (some 0)]).1.getLast? =
      some (.polled true, [some true, none]) := by
  decide

end InterruptHandles

end ScriptHost
