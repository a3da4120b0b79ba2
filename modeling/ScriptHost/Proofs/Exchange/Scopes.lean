-- Handles in the scopes of each other. What has happened already may be taken out of a
-- scope, and in the end the handles are given back from the inside out.
import ScriptHost.Proofs.Exchange.Ending

namespace ScriptHost

variable {ℓ : Layout} {σ ε α β S E : Type}

/-! ## Actions that have begun -/

/-- An outcome with events that came before. -/
def Outcome.after (xs : List E) (out : Outcome S E α) : Outcome S E α :=
  { out with events := xs ++ out.events }

theorem Outcome.after_after (xs ys : List E) (out : Outcome S E α) :
    (out.after ys).after xs = out.after (xs ++ ys) := by
  unfold after
  rw [List.append_assoc]

theorem Outcome.after_eq_value {xs events : List E} {out : Outcome S E α} {a : α} {last : S}
    (h : out.after xs = ⟨.value a, events, last⟩) :
    ∃ ys, out = ⟨.value a, ys, last⟩ ∧ events = xs ++ ys := by
  obtain ⟨ending, ys, s⟩ := out
  cases h
  exact ⟨ys, rfl, rfl⟩

namespace Action

variable {body : Action S E α} {cleanup : Action S E Unit} {s mid : S} {xs : List E}

theorem bind_eq_after {f : α → Action S E β} {a : α} (h : body s = ⟨.value a, xs, mid⟩) :
    (body >>= f) s = (f a mid).after xs := by
  change Action.bind body f s = _
  unfold Action.bind
  rw [h]
  rfl

theorem ensuring_eq_after {rest : Action S E α} (h : body s = (rest mid).after xs) :
    body.ensuring cleanup s = (rest.ensuring cleanup mid).after xs := by
  unfold ensuring
  rw [h]
  obtain ⟨ending, ys, last⟩ := rest mid
  cases ending with
  | value a => simp only [Outcome.after, List.append_assoc]
  | unwound =>
    simp only [Outcome.after, List.append_assoc]
    split <;> rfl
  | aborted => rfl

/-- An action and its cleanup that have returned have done so one after the other. -/
theorem ensuring_eq_value {a : α} {events : List E} {last : S}
    (h : body.ensuring cleanup s = ⟨.value a, events, last⟩) :
    ∃ xs mid u ys, body s = ⟨.value a, xs, mid⟩ ∧ cleanup mid = ⟨.value u, ys, last⟩ ∧
      events = xs ++ ys := by
  unfold ensuring at h
  split at h
  · rename_i b xs mid hb
    cases hc : cleanup mid with
    | mk ending ys s' =>
      rw [hc] at h
      cases ending with
      | value u =>
        cases h
        exact ⟨xs, mid, u, ys, hb, hc, rfl⟩
      | unwound => cases h
      | aborted => cases h
  · dsimp only at h
    split at h <;> cases h
  · cases h

theorem ensuring_aborted (h : (body s).ending = .aborted) :
    (body.ensuring cleanup s).ending = .aborted := by
  unfold ensuring
  cases hb : body s with
  | mk ending xs mid =>
    rw [hb] at h
    cases h
    rfl

theorem map_eq (body : Action S E α) (f : α → β) (s : S) :
    (do return f (← body) : Action S E β) s =
      ⟨(body s).ending.map f, (body s).events, (body s).state⟩ := by
  change Action.bind body (fun a => Action.pure (f a)) s = _
  unfold Action.bind
  cases hb : body s with
  | mk ending xs mid =>
    cases ending with
    | value a => simp only [Action.pure, Ending.map, List.append_nil]
    | unwound => rfl
    | aborted => rfl

/-- It does not matter whether a result is changed before the cleanup or after it. -/
theorem map_ensuring (body : Action S E α) (cleanup : Action S E Unit) (f : α → β) :
    (do return f (← body.ensuring cleanup) : Action S E β) =
      (do return f (← body) : Action S E β).ensuring cleanup := by
  funext s
  rw [map_eq]
  unfold ensuring
  rw [map_eq]
  cases body s with
  | mk ending xs mid =>
    cases ending with
    | value a => cases hc : (cleanup mid).ending <;> simp only [hc, Ending.map]
    | unwound => cases hc : (cleanup mid).ending <;> simp only [hc, Ending.map]
    | aborted => rfl

/-- A change that leaves every result as it is. -/
theorem map_eq_self {f : α → α} (h : ∀ a xs mid, body s = ⟨.value a, xs, mid⟩ → f a = a) :
    (do return f (← body) : Action S E α) s = body s := by
  rw [map_eq]
  cases hb : body s with
  | mk ending xs mid =>
    cases ending with
    | value a => simp only [Ending.map, h a xs mid hb]
    | unwound => rfl
    | aborted => rfl

end Action

/-! ## What is given back -/

def Event.released? : Event ℓ ε → Option ℓ.Word
  | .release w _ => some w
  | _ => none

/-- The words that are given back, in order. -/
def released (events : List (Event ℓ ε)) : List ℓ.Word := events.filterMap Event.released?

theorem released_append (xs ys : List (Event ℓ ε)) :
    released (xs ++ ys) = released xs ++ released ys := List.filterMap_append

/-- Words dropped one after the other. -/
inductive Droppings : List ℓ.Word → List (Event ℓ ε) → Prop
  | done : Droppings [] []
  | next {w : ℓ.Word} {ws : List ℓ.Word} {xs ys : List (Event ℓ ε)} :
    Dropping ⟨w⟩ xs → Droppings ws ys → Droppings (w :: ws) (xs ++ ys)

theorem Droppings.concat {ws : List ℓ.Word} {w : ℓ.Word} {xs ys : List (Event ℓ ε)}
    (h : Droppings ws xs) (hw : Dropping ⟨w⟩ ys) : Droppings (ws ++ [w]) (xs ++ ys) := by
  induction h with
  | done =>
    have hone := Droppings.next hw .done
    rwa [List.append_nil] at hone
  | next hx _ ih =>
    rw [List.append_assoc]
    exact .next hx ih

namespace Handle

/-- A body inside the scopes of several handles, the first one outermost. -/
def withinAll (h : Host ℓ σ ε) : List ℓ.Word → Exchange ℓ σ ε α → Exchange ℓ σ ε α
  | [], body => body
  | v :: vs, body => (Handle.mk v).within h (withinAll h vs body)

variable {h : Host ℓ σ ε} {body : Exchange ℓ σ ε α}

theorem withinAll_completes (hr : h.engine.Replies) (hb : Completes body) (vs : List ℓ.Word) :
    Completes (withinAll h vs body) := by
  induction vs with
  | nil => exact hb
  | cons v vs ih => exact Host.within_completes hr ⟨v⟩ ih

/-- Where a body in the scopes of handles returns, the handles are dropped after it, the
innermost one first. -/
theorem withinAll_eq_value {vs : List ℓ.Word} {m last : Machine σ} {a : α}
    {events : List (Event ℓ ε)} (hr : withinAll h vs body m = ⟨.value a, events, last⟩) :
    ∃ xs mid ys, body m = ⟨.value a, xs, mid⟩ ∧ events = xs ++ ys ∧
      Droppings vs.reverse (heard ys) := by
  induction vs generalizing events last with
  | nil => exact ⟨events, last, [], hr, (List.append_nil _).symm, .done⟩
  | cons v vs ih =>
    obtain ⟨xs, mid, u, zs, hx, hz, rfl⟩ := Action.ensuring_eq_value hr
    obtain ⟨xs, mid', ys, hb, rfl, hd⟩ := ih hx
    have hv := (Handle.drop_returns h ⟨v⟩ mid u zs last hz).2
    refine ⟨xs, mid', ys ++ zs, hb, List.append_assoc _ _ _, ?_⟩
    rw [heard_append, List.reverse_cons]
    exact hd.concat hv

theorem released_drop (x : Handle ℓ) (m : Machine σ) : released (x.drop h m).events = [x.word] := by
  have hr : (Exchange.release x.word : Exchange ℓ σ ε Bool) m =
      ⟨.value _, [.release x.word _], m.release ℓ x.word⟩ := rfl
  unfold drop
  rw [Action.bind_eq_after hr]
  split <;> rfl

/-- A handle is given back last, also where its body unwinds. -/
theorem released_within {x : Handle ℓ} (hm : (x.within h body m).ending ≠ .aborted) :
    (body m).ending ≠ .aborted ∧
      released (x.within h body m).events = released (body m).events ++ [x.word] := by
  unfold within Action.ensuring at hm ⊢
  cases hb : body m with
  | mk ending xs mid =>
    rw [hb] at hm
    cases ending with
    | value a =>
      refine ⟨nofun, ?_⟩
      change released (xs ++ _) = _
      rw [released_append, x.released_drop mid]
    | unwound =>
      refine ⟨nofun, ?_⟩
      dsimp only at hm ⊢
      split at hm
      · change released (xs ++ _) = _
        rw [released_append, x.released_drop mid]
      · exact absurd rfl hm
    | aborted => exact absurd rfl hm

theorem released_withinAll {vs : List ℓ.Word} (hm : (withinAll h vs body m).ending ≠ .aborted) :
    released (withinAll h vs body m).events = released (body m).events ++ vs.reverse := by
  induction vs with
  | nil => exact (List.append_nil _).symm
  | cons v vs ih =>
    obtain ⟨hne, hv⟩ := released_within hm
    rw [withinAll, hv, ih hne, List.reverse_cons, List.append_assoc]

end Handle

end ScriptHost
