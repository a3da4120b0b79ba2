-- Conservation of references over whole sessions. Whatever the engine answers, the
-- count of a block is the number of the references to it that somebody holds.
import ScriptHost.Proofs.Exchange.Ledger
import ScriptHost.Proofs.Exchange.Sample

namespace ScriptHost

variable {ℓ : Layout} {σ ε : Type}

/-! ## What a session holds -/

namespace Slots

/-- The handles on the block at an address. -/
def refs : Slots ℓ → UInt64 → Nat
  | [], _ => 0
  | none :: s, a => refs s a
  | some x :: s, a => ℓ.refs x.word a + refs s a

theorem refs_concat (s : Slots ℓ) (x : Handle ℓ) (a : UInt64) :
    refs (s ++ [some x]) a = s.refs a + ℓ.refs x.word a := by
  induction s with
  | nil => simp [refs]
  | cons slot s ih =>
    cases slot with
    | none => simp [refs, ih]
    | some y => simp [refs, ih, Nat.add_assoc]

/-- A place that is emptied takes one reference with it. -/
theorem refs_empty {s : Slots ℓ} {slot : Nat} {x : Handle ℓ} (h : s.handle? slot = some x)
    (a : UInt64) : s.refs a = (s.empty slot).refs a + ℓ.refs x.word a := by
  induction s generalizing slot with
  | nil => simp [handle?] at h
  | cons y s ih =>
    cases slot with
    | zero =>
      have hy : y = some x := by simpa [handle?] using h
      subst hy
      simp [refs, empty, Nat.add_comm]
    | succ slot =>
      have hslot : handle? s slot = some x := by simpa [handle?] using h
      have hs := ih hslot
      cases y with
      | none => simpa [refs, empty] using hs
      | some y =>
        unfold empty at hs
        simp [refs, empty, hs, Nat.add_assoc]

end Slots

/-- The references outside the engine: the handles and the bare ones. -/
def outside (s : Slots ℓ) (bare : UInt64 → Nat) (a : UInt64) : Nat := s.refs a + bare a

theorem outside_concat (s : Slots ℓ) (bare : UInt64 → Nat) (x : Handle ℓ) (a : UInt64) :
    outside (s ++ [some x]) bare a = outside s bare a + ℓ.refs x.word a := by
  simp only [outside, Slots.refs_concat]
  omega

theorem outside_empty {s : Slots ℓ} {slot : Nat} {x : Handle ℓ} (h : s.handle? slot = some x)
    (bare : UInt64 → Nat) (a : UInt64) :
    outside s bare a = outside (s.empty slot) bare a + ℓ.refs x.word a := by
  simp only [outside, Slots.refs_empty h]
  omega

/-- A reference may be moved to or from the bare ones. -/
theorem outside_bare (s : Slots ℓ) {bare more : UInt64 → Nat} {n : Nat} {a : UInt64}
    (h : more a = bare a + n) : outside s more a = outside s bare a + n := by
  simp only [outside, h]
  omega

namespace Operation

/-- What a session may do with the bare references that it holds. It owns only a reference
that it has, and gives back none but through a handle. -/
def Lawful (bare : UInt64 → Nat) : Operation ℓ → Prop
  | own w => ∀ a, ℓ.refs w a ≤ bare a
  | release _ => False
  | _ => True

/-- The bare references after an operation. -/
def bareAfter (bare : UInt64 → Nat) : Operation ℓ → Answer ℓ → UInt64 → Nat
  | own w, _, a => bare a - ℓ.refs w a
  | intoWord _, .word w, a => bare a + ℓ.refs w a
  | retain w, _, a => bare a + ℓ.refs w a
  | _, _, a => bare a

/-- The bare references after some operations. -/
def bareAfterAll : List (Operation ℓ) → List (Answer ℓ) → (UInt64 → Nat) → UInt64 → Nat
  | op :: ops, answer :: answers, bare => bareAfterAll ops answers (op.bareAfter bare answer)
  | _, _, bare => bare

/-- Operations that keep the law, each with what the session holds when it comes. -/
def AllLawful (h : Host ℓ σ ε) : List (Operation ℓ) → Slots ℓ → (UInt64 → Nat) → Machine σ → Prop
  | [], _, _, _ => True
  | op :: ops, s, bare, m => op.Lawful bare ∧
    ∀ answer s' events m', op.run h s m = ⟨.value (answer, s'), events, m'⟩ →
      AllLawful h ops s' (op.bareAfter bare answer) m'

/-! ## One operation -/

section

variable {h : Host ℓ σ ε} {s : Slots ℓ} {bare : UInt64 → Nat}

/-- What an operation that leaves the bare references alone is heard to do. -/
def Keeps (s : Slots ℓ) (bare : UInt64 → Nat) (p : Answer ℓ × Slots ℓ)
    (xs : List (Event ℓ ε)) : Prop := Settles (outside s bare) xs (outside p.2 bare)

/-- A new handle is accounted for by the reference that was handed out. -/
theorem settles_add {xs : List (Event ℓ ε)} {x : Handle ℓ}
    (hx : ∀ owed : UInt64 → Nat, Settles owed xs fun a => owed a + ℓ.refs x.word a) :
    Keeps s bare (s.add x) xs := by
  exact (hx (outside s bare)).congr (fun _ => rfl) fun a => outside_concat s bare x a

/-- An exchange that hands out a handle, and the handle put in a place. -/
theorem add_returns {body : Exchange ℓ σ ε (Handle ℓ)} {r : Request ℓ} {f : Handle ℓ → r.Reply}
    (hb : Hears h.engine body r f) (hf : ∀ x, r.handed (f x) = some x.word) :
    Returns h.engine (do return s.add (← body)) (Keeps s bare) := by
  refine Returns.bind hb ?_
  rintro x _ ⟨control, inner, rfl⟩
  exact Returns.pure (settles_add fun owed => .handed (hf x) (fun _ => rfl) .done)

/-- An exchange that gives back all that it was handed, and its result as an answer. -/
theorem answer_returns {α : Type} {body : Exchange ℓ σ ε α} {P : α → List (Event ℓ ε) → Prop}
    (hb : Returns h.engine body P) (hp : ∀ a xs, P a xs → ∀ owed, Settles owed xs owed)
    (f : α → Answer ℓ) : Returns h.engine (do return (f (← body), s)) (Keeps s bare) := by
  refine Returns.bind hb ?_
  intro a xs hx
  refine Returns.pure ?_
  rw [List.append_nil]
  exact hp a xs hx _

theorem onHandle_returns {slot : Nat} {f : Handle ℓ → Exchange ℓ σ ε (Answer ℓ × Slots ℓ)}
    {Q : Answer ℓ × Slots ℓ → List (Event ℓ ε) → Prop}
    (hf : ∀ x, s.handle? slot = some x → Returns h.engine (f x) Q) (hn : Q (.noHandle, s) []) :
    Returns h.engine (onHandle s slot f) Q := by
  unfold onHandle
  split
  · rename_i x hx
    exact hf x hx
  · exact Returns.pure hn

/-- A handle that is dropped and its place emptied. -/
theorem settles_empty {slot : Nat} {x : Handle ℓ} (hx : s.handle? slot = some x)
    {xs : List (Event ℓ ε)}
    (hs : ∀ owed : UInt64 → Nat, Settles (fun a => owed a + ℓ.refs x.word a) xs owed)
    (answer : Answer ℓ) : Keeps s bare (answer, s.empty slot) xs := by
  exact (hs (outside (s.empty slot) bare)).congr (outside_empty hx bare) fun _ => rfl

/-- An operation settles what the session holds. -/
theorem run_settles (h : Host ℓ σ ε) (s : Slots ℓ) {bare : UInt64 → Nat} {op : Operation ℓ}
    (hl : op.Lawful bare) :
    Returns h.engine (op.run h s) fun p xs =>
      Settles (outside s bare) xs (outside p.2 (op.bareAfter bare p.1)) := by
  cases op with
  | own w =>
    refine Returns.pure (Settles.done.congr (fun _ => rfl) fun a => ?_)
    have hless : bare a = bare a - ℓ.refs w a + ℓ.refs w a := (Nat.sub_add_cancel (hl a)).symm
    exact (outside_concat s _ ⟨w⟩ a).trans (outside_bare s hless).symm
  | immediate w =>
    refine Returns.pure ?_
    unfold Handle.immediate?
    split
    · exact .done
    · rename_i hw
      refine settles_add fun owed => Settles.done.congr (fun _ => rfl) fun a => ?_
      rw [Layout.refs_of_not_counted (by simpa using hw), Nat.add_zero]
  | clone slot =>
    refine onHandle_returns (fun x _ => ?_) .done
    refine Returns.bind (P := fun y xs => y = x ∧ xs = [.retain x.word]) ?_ ?_
    · refine Returns.bind (Exchange.retain_returns h.engine x.word) ?_
      rintro _ _ ⟨rfl, rfl⟩
      exact Returns.pure ⟨rfl, rfl⟩
    · rintro _ _ ⟨rfl, rfl⟩
      exact Returns.pure (settles_add fun owed => .retain (fun _ => rfl) .done)
  | drop slot =>
    refine onHandle_returns (fun x hx => ?_) .done
    refine Returns.bind (x.drop_returns h) ?_
    intro _ xs hd
    refine Returns.pure ?_
    rw [List.append_nil]
    exact settles_empty hx hd.settles .nothing
  | intoWord slot =>
    refine onHandle_returns (fun x hx => Returns.pure ?_) .done
    refine Settles.done.congr (fun _ => rfl) fun a => ?_
    exact (outside_bare (s.empty slot) rfl).trans (outside_empty hx bare a).symm
  | inspect slot =>
    refine onHandle_returns (fun x _ => ?_) .done
    intro m p events m' hr
    cases hr
    exact ⟨.nil m, .done⟩
  | retain w =>
    refine Returns.bind (Exchange.retain_returns h.engine w) ?_
    rintro _ _ ⟨rfl, rfl⟩
    refine Returns.pure (.retain (fun _ => rfl) (Settles.done.congr (fun _ => rfl) fun a => ?_))
    exact outside_bare s rfl
  | release w => exact hl.elim
  | count w =>
    intro m p events m' hr
    cases hr
    exact ⟨.nil m, .done⟩
  | project w => exact answer_returns (h.project_returns w) (fun _ _ hx => hx.settles) _
  | projectOwned slot =>
    refine onHandle_returns (fun x hx => ?_) .done
    refine Returns.bind (Handle.within_returns (Q := fun _ zs => ∀ owed : UInt64 → Nat,
      Settles (fun a => owed a + ℓ.refs x.word a) zs owed) (h.project_returns x.word) ?_) ?_
    · intro r xs ys hx hy owed
      exact (hx.settles _).append (hy.settles owed)
    · intro r xs hs
      refine Returns.pure ?_
      rw [List.append_nil]
      exact settles_empty hx hs _
  | embed v =>
    refine Returns.bind (h.embed_returns v) ?_
    intro r xs hx
    refine Returns.pure ?_
    rw [List.append_nil]
    cases r with
    | ok x => exact settles_add hx.settles
    | error cause => exact hx.settles _
  | toText w => exact answer_returns (h.toText_returns w) (fun _ _ hx => hx.settles) _
  | toUnits w =>
    refine answer_returns (h.toUnits_returns w) ?_ _
    rintro _ _ ⟨r, hx, -⟩
    exact hx.settles
  | newText text => exact add_returns (h.newText_hears text) fun _ => rfl
  | newUnits units =>
    show Returns h.engine (do return s.addResult (← h.newUnits units)) (Keeps s bare)
    unfold Host.newUnits
    split
    · rename_i text _
      refine Returns.bind (P := fun r xs => ∃ x, r = .ok x ∧ ∃ control inner, xs =
        [.call ⟨.newText text, control, inner, some x.word⟩]) ?_ ?_
      · refine Returns.bind (h.newText_hears text) ?_
        rintro x _ ⟨control, inner, rfl⟩
        exact Returns.pure ⟨x, rfl, control, inner, rfl⟩
      · rintro _ _ ⟨x, rfl, control, inner, rfl⟩
        exact Returns.pure (settles_add fun owed => .handed rfl (fun _ => rfl) .done)
    · exact Returns.pure .done
  | eval source file => exact add_returns (h.eval_hears source file) fun _ => rfl
  | parse text => exact add_returns (h.parse_hears text) fun _ => rfl
  | stringify w => exact add_returns (h.stringify_hears w) fun _ => rfl
  | takeException => exact add_returns h.takeException_hears fun _ => rfl
  | toDouble w =>
    refine answer_returns (h.askMasked_hears (.toDouble w)) ?_ _
    rintro d _ ⟨control, inner, rfl⟩ owed
    exact .plain rfl .done
  | toBigInteger w =>
    refine answer_returns (h.askMasked_hears (.toBigInteger w)) ?_ _
    rintro n _ ⟨control, inner, rfl⟩ owed
    exact .plain rfl .done

end

/-! ## Whole sessions -/

/-- What is heard of a session that ends in a projection that goes too deep. -/
def TooDeep (depth : Nat) (events : List (Event ℓ ε)) : Prop :=
  ∃ earlier w inner, events = earlier ++ inner ∧ Nested depth w inner

theorem TooDeep.of_later {depth : Nat} {ys : List (Event ℓ ε)} (h : TooDeep depth ys)
    (xs : List (Event ℓ ε)) : TooDeep depth (xs ++ ys) := by
  obtain ⟨earlier, w, inner, rfl, hn⟩ := h
  exact ⟨xs ++ earlier, w, inner, (List.append_assoc _ _ _).symm, hn⟩

theorem TooDeep.of_nested {depth : Nat} {w : ℓ.Word} {xs : List (Event ℓ ε)}
    (h : Nested depth w xs) : TooDeep depth xs := ⟨[], w, xs, rfl, h⟩

section

variable {h : Host ℓ σ ε}

theorem onHandle_ends {s : Slots ℓ} {slot : Nat}
    {f : Handle ℓ → Exchange ℓ σ ε (Answer ℓ × Slots ℓ)} {A : List (Event ℓ ε) → Prop}
    (hf : ∀ x, Ends (f x) A) : Ends (onHandle s slot f) A := by
  unfold onHandle
  split
  · exact hf _
  · exact (Completes.pure _).ends A

/-- With an engine that answers, an operation returns or goes too deep. -/
theorem run_ends (hr : h.engine.Replies) (s : Slots ℓ) (op : Operation ℓ) :
    Ends (op.run h s) (TooDeep h.depth) := by
  cases op with
  | own w => exact (Completes.pure _).ends _
  | immediate w => exact (Completes.pure _).ends _
  | clone slot => exact onHandle_ends fun x => Completes.ends (fun _ => ⟨_, rfl⟩) _
  | drop slot => exact onHandle_ends fun x => ((Host.drop_completes hr x).map _).ends _
  | intoWord slot => exact onHandle_ends fun x => (Completes.pure _).ends _
  | inspect slot => exact onHandle_ends fun x => Completes.ends (fun _ => ⟨_, rfl⟩) _
  | retain w => exact Completes.ends (fun _ => ⟨_, rfl⟩) _
  | release w => exact Completes.ends (fun _ => ⟨_, rfl⟩) _
  | count w => exact Completes.ends (fun _ => ⟨_, rfl⟩) _
  | project w =>
    exact ((Host.project_ends hr w).mono fun _ hn => TooDeep.of_nested hn).map _
  | projectOwned slot =>
    refine onHandle_ends fun x => ?_
    exact ((Host.projectOwned_ends hr x).mono fun _ hn => TooDeep.of_nested hn).map _
  | embed v => exact ((Host.embed_completes hr v).map _).ends _
  | toText w => exact ((Host.toText_completes hr w).map _).ends _
  | toUnits w => exact ((Host.toUnits_completes hr w).map _).ends _
  | newText text => exact ((Host.newText_completes hr text).map _).ends _
  | newUnits units =>
    refine Completes.ends (Completes.map ?_ _) _
    unfold Host.newUnits
    split
    · exact (Host.newText_completes hr _).map _
    · exact Completes.pure _
  | eval source file => exact Completes.ends (((Host.askMasked_completes hr _).map _).map _) _
  | parse text => exact ((Host.parse_completes hr text).map _).ends _
  | stringify w => exact Completes.ends (((Host.askMasked_completes hr _).map _).map _) _
  | takeException => exact ((Host.takeException_completes hr).map _).ends _
  | toDouble w => exact ((Host.askMasked_completes hr _).map _).ends _
  | toBigInteger w => exact ((Host.askMasked_completes hr _).map _).ends _

/-- With an engine that answers, a session returns or goes too deep in one operation. -/
theorem runAll_ends (hr : h.engine.Replies) (s : Slots ℓ) (ops : List (Operation ℓ)) :
    Ends (runAll h s ops) (TooDeep h.depth) := by
  induction ops generalizing s with
  | nil => exact Ends.pure _
  | cons op ops ih =>
    refine (run_ends hr s op).bind_any fun p xs => ?_
    have hl : Ends (runAll h p.2 ops) fun ys => TooDeep h.depth (xs ++ ys) :=
      (ih p.2).mono fun _ ht => ht.of_later xs
    exact hl.map _

/-- A session that returns has gone along a path and settled what it holds. -/
theorem runAll_settles (h : Host ℓ σ ε) {ops : List (Operation ℓ)} {s s' : Slots ℓ}
    {bare : UInt64 → Nat} {m m' : Machine σ} {answers : List (Answer ℓ)} {events : List (Event ℓ ε)}
    (hl : AllLawful h ops s bare m)
    (hrun : runAll h s ops m = ⟨.value (answers, s'), events, m'⟩) :
    Path h.engine m events m' ∧
      Settles (outside s bare) (heard events) (outside s' (bareAfterAll ops answers bare)) := by
  -- What is outside after one operation is what the others start with.
  induction ops generalizing s bare m answers events with
  | nil =>
    cases hrun
    exact ⟨.nil _, .done⟩
  | cons op ops ih =>
    obtain ⟨⟨answer, s₁⟩, xs, m₁, rest, hop, hrest, rfl⟩ := Action.bind_eq_value hrun
    obtain ⟨⟨answers, s₂⟩, ys, m₂, zs, hall, hend, rfl⟩ := Action.bind_eq_value hrest
    cases hend
    obtain ⟨hlaw, hnext⟩ := hl
    obtain ⟨hpath, hsettles⟩ := run_settles h s hlaw m _ xs m₁ hop
    obtain ⟨hpath', hsettles'⟩ := ih (hnext _ _ _ _ hop) hall
    rw [List.append_nil, heard_append]
    exact ⟨hpath.append hpath', hsettles.append hsettles'⟩

/-! ## The law -/

/-- The references to a block: those outside the engine and those that it holds itself. -/
def total (held : σ → UInt64 → Nat) (s : Slots ℓ) (bare : UInt64 → Nat) (m : Machine σ)
    (a : UInt64) : Nat := outside s bare a + held m.inner a

/-- The count of every block is the number of the references to it, exactly so while they
are no more than a count can tell. -/
def CountsAgree (blocks : UInt64 → Prop) (held : σ → UInt64 → Nat) (s : Slots ℓ)
    (bare : UInt64 → Nat) (m : Machine σ) : Prop :=
  ∀ a, blocks a → m.counts a = Int32.ofNat (total held s bare m a) ∧
    (total held s bare m a ≤ Int32.maxValue.toInt.toNat →
      (m.counts a).toInt = total held s bare m a)

theorem countsAgree_of_eq {blocks : UInt64 → Prop} {held : σ → UInt64 → Nat} {s : Slots ℓ}
    {bare : UInt64 → Nat} {m : Machine σ}
    (h : ∀ a, blocks a → m.counts a = Int32.ofNat (total held s bare m a)) :
    CountsAgree blocks held s bare m := by
  intro a ha
  refine ⟨h a ha, fun hle => ?_⟩
  rw [h a ha, Int32.toInt_ofNat_of_lt (Nat.lt_succ_of_le hle)]

/-- What is settled outside the engine shows in the counts. -/
theorem countsAgree_of_settles {blocks : UInt64 → Prop} {held : σ → UInt64 → Nat}
    (he : h.engine.Accountable blocks held) {s s' : Slots ℓ} {bare bare' : UInt64 → Nat}
    {m m' : Machine σ} {events : List (Event ℓ ε)} (hpath : Path h.engine m events m')
    (hs : Settles (outside s bare) (heard events) (outside s' bare'))
    (hm : CountsAgree blocks held s bare m) : CountsAgree blocks held s' bare' m' := by
  refine countsAgree_of_eq fun a ha => ?_
  have hnet := hs.net_eq a
  rw [net_heard] at hnet
  rw [hpath.counts_eq he ha, (hm a ha).1, ← Int32.ofInt_eq_ofNat, ← Int32.ofInt_add,
    ← Int32.ofInt_eq_ofNat]
  congr 1
  unfold total
  omega

/-- Whatever an engine that keeps account answers, a session returns or goes too deep. Where
it returns, every reference that it was handed is given back or still held, the counts say
so, a block was freed exactly where its count came to zero, and every buffer went back. -/
theorem every_reference_is_accounted_for (h : Host ℓ σ ε) {blocks : UInt64 → Prop}
    {held : σ → UInt64 → Nat} (he : h.engine.Accountable blocks held) (ops : List (Operation ℓ))
    (s : Slots ℓ) (bare : UInt64 → Nat) (m : Machine σ) (hl : AllLawful h ops s bare m)
    (hm : CountsAgree blocks held s bare m) :
    match runAll h s ops m with
    | ⟨.value (answers, s'), events, m'⟩ =>
      Path h.engine m events m' ∧
        Settles (outside s bare) (heard events) (outside s' (bareAfterAll ops answers bare)) ∧
        CountsAgree blocks held s' (bareAfterAll ops answers bare) m'
    | ⟨.unwound, _, _⟩ => False
    | ⟨.aborted, events, _⟩ => TooDeep h.depth (heard events) := by
  have hend := runAll_ends he.replies s ops m
  cases hrun : runAll h s ops m with
  | mk ending events m' =>
    rw [hrun] at hend
    cases ending with
    | value p =>
      obtain ⟨answers, s'⟩ := p
      obtain ⟨hpath, hs⟩ := runAll_settles h hl hrun
      exact ⟨hpath, hs, countsAgree_of_settles he hpath hs hm⟩
    | unwound => simp at hend
    | aborted => simpa using hend

end

section

variable {ε : Type}

theorem sole_accountable (ℓ : Layout) (blocks : UInt64 → Prop) :
    (Engine.sole ℓ : Engine ℓ Bool ε).Accountable blocks fun _ _ => 0 where
  replies := Engine.sole_replies ℓ
  counts := by
    intro r m v hv a _
    have himm : ∀ t : Tag, t.isCounted = false → ℓ.refs (ℓ.immediate t 0) a = 0 := by
      intro t ht
      apply Layout.refs_of_not_counted
      rw [ℓ.isCounted_of_tag? (ℓ.tag?_immediate t 0), ht]
    have hthrown := himm .exception rfl
    have hundefined := himm .undefined rfl
    have hnull := himm .null rfl
    cases r with
    | eval source file =>
      cases hv
      exact (m.counts_retain ℓ.sole a).trans (by simp [Request.handed])
    | _ => cases hv; simp [Engine.sole, Request.handed, hthrown, hundefined, hnull]

theorem soleSession_lawful :
    AllLawful (ε := Unit) ⟨Engine.sole .boxed, .standard, 0⟩ (soleSession .boxed) [] (fun _ => 0)
      Machine.fresh := by
  refine ⟨trivial, ?_⟩
  rintro _ _ _ _ ⟨⟩
  refine ⟨trivial, ?_⟩
  rintro _ _ _ _ ⟨⟩
  refine ⟨trivial, ?_⟩
  rintro _ _ _ _ ⟨⟩
  refine ⟨trivial, ?_⟩
  rintro _ _ _ _ ⟨⟩
  refine ⟨fun a => Nat.le_add_left _ _, ?_⟩
  rintro _ _ _ _ ⟨⟩
  refine ⟨trivial, ?_⟩
  rintro _ _ _ _ ⟨⟩
  exact ⟨trivial, fun _ _ _ _ _ => trivial⟩

theorem every_reference_to_sole_is_accounted_for :
    ∃ answers s' events m',
      runAll (ε := Unit) ⟨Engine.sole .boxed, .standard, 0⟩ [] (soleSession .boxed) .fresh =
        ⟨.value (answers, s'), events, m'⟩ ∧
      Path (Engine.sole .boxed) .fresh events m' ∧
      Settles (outside (ℓ := .boxed) [] fun _ => 0) (heard events)
        (outside s' (bareAfterAll (soleSession .boxed) answers fun _ => 0)) ∧
      CountsAgree (fun _ => True) (fun _ _ => 0) s'
        (bareAfterAll (soleSession .boxed) answers fun _ => 0) m' ∧ m'.counts 16 = 0 := by
  have hlaw := every_reference_is_accounted_for _ (sole_accountable .boxed fun _ => True)
    (soleSession .boxed) [] (fun _ => 0) Machine.fresh soleSession_lawful
    (countsAgree_of_eq fun a _ => rfl)
  exact ⟨_, _, _, _, rfl, hlaw.1, hlaw.2.1, hlaw.2.2, rfl⟩

end

end Operation

end ScriptHost
