-- How an exchange ends with an engine that answers every call. It returns, but for
-- objects whose JSON text is an object again and again, deeper than the host can go.
import ScriptHost.Proofs.Exchange.Trace

namespace ScriptHost

variable {ℓ : Layout} {σ ε α β : Type}

/-- An engine that never unwinds and never aborts. -/
def Engine.Replies (e : Engine ℓ σ ε) : Prop :=
  ∀ r m, ∃ v, (e.answer r m).ending = .value v

/-- An exchange that returns, or else aborts with `A` of what is heard of it. -/
def Ends (body : Exchange ℓ σ ε α) (A : List (Event ℓ ε) → Prop) : Prop :=
  ∀ m, (∃ a, (body m).ending = .value a) ∨
    (body m).ending = .aborted ∧ A (heard (body m).events)

/-- An exchange that always returns. -/
def Completes (body : Exchange ℓ σ ε α) : Prop := ∀ m, ∃ a, (body m).ending = .value a

theorem Completes.ends {body : Exchange ℓ σ ε α} (h : Completes body)
    (A : List (Event ℓ ε) → Prop) : Ends body A := fun m => Or.inl (h m)

namespace Ends

variable {e : Engine ℓ σ ε} {body : Exchange ℓ σ ε α} {A : List (Event ℓ ε) → Prop}

theorem mono {B : List (Event ℓ ε) → Prop} (h : Ends body A) (hA : ∀ xs, A xs → B xs) :
    Ends body B := fun m => (h m).imp_right fun ⟨ha, hx⟩ => ⟨ha, hA _ hx⟩

theorem bind_of {f : α → Exchange ℓ σ ε β} {P : α → List (Event ℓ ε) → Prop} (h : Ends body A)
    (hr : ∀ m a xs s, body m = ⟨.value a, xs, s⟩ → P a (heard xs))
    (hf : ∀ a xs, P a xs → Ends (f a) fun ys => A (xs ++ ys)) : Ends (body >>= f) A := by
  intro m
  show (∃ a, (Action.bind body f m).ending = _) ∨ (Action.bind body f m).ending = _ ∧
    A (heard (Action.bind body f m).events)
  unfold Action.bind
  have hm := h m
  cases hb : body m with
  | mk ending xs s =>
    rw [hb] at hm
    rcases hm with ⟨a, ha⟩ | ⟨ha, hx⟩
    · cases ha
      have hn := hf a _ (hr m a xs s hb) s
      simpa only [heard_append] using hn
    · cases ha
      exact Or.inr ⟨rfl, hx⟩

theorem bind {f : α → Exchange ℓ σ ε β} {P : α → List (Event ℓ ε) → Prop} (h : Ends body A)
    (hr : Returns e body P) (hf : ∀ a xs, P a xs → Ends (f a) fun ys => A (xs ++ ys)) :
    Ends (body >>= f) A := h.bind_of (fun m a xs s hb => (hr m a xs s hb).2) hf

/-- The rule for a body of which nothing is known but how it ends. -/
theorem bind_any {f : α → Exchange ℓ σ ε β} (h : Ends body A)
    (hf : ∀ a xs, Ends (f a) fun ys => A (xs ++ ys)) : Ends (body >>= f) A :=
  h.bind_of (P := fun _ _ => True) (fun _ _ _ _ _ => trivial) fun a xs _ => hf a xs

theorem pure (a : α) : Ends (Pure.pure a : Exchange ℓ σ ε α) A := fun _ => Or.inl ⟨a, rfl⟩

theorem map (h : Ends body A) (f : α → β) :
    Ends (do return f (← body) : Exchange ℓ σ ε β) A := h.bind_any fun a _ => pure (f a)

theorem ensuring {cleanup : Exchange ℓ σ ε Unit} (h : Ends body A) (hc : Completes cleanup) :
    Ends (body.ensuring cleanup) A := by
  intro m
  unfold Action.ensuring
  have hm := h m
  cases hb : body m with
  | mk ending xs s =>
    rw [hb] at hm
    rcases hm with ⟨a, ha⟩ | ⟨ha, hx⟩
    · cases ha
      obtain ⟨u, hu⟩ := hc s
      exact Or.inl ⟨a, by simp only [hu, Ending.map]⟩
    · cases ha
      exact Or.inr ⟨rfl, hx⟩

end Ends

namespace Completes

variable {body : Exchange ℓ σ ε α}

theorem of_ends (h : Ends body fun _ => False) : Completes body := by
  intro m
  rcases h m with ha | ⟨-, hf⟩
  · exact ha
  · exact hf.elim

theorem pure (a : α) : Completes (Pure.pure a : Exchange ℓ σ ε α) := fun _ => ⟨a, rfl⟩

theorem bind {f : α → Exchange ℓ σ ε β} (h : Completes body) (hf : ∀ a, Completes (f a)) :
    Completes (body >>= f) := by
  intro m
  show ∃ b, (Action.bind body f m).ending = _
  unfold Action.bind
  obtain ⟨a, ha⟩ := h m
  cases hb : body m with
  | mk ending xs s =>
    rw [hb] at ha
    cases ha
    exact hf a s

theorem map (h : Completes body) (f : α → β) :
    Completes (do return f (← body) : Exchange ℓ σ ε β) := h.bind fun a => pure (f a)

theorem ensuring {cleanup : Exchange ℓ σ ε Unit} (h : Completes body) (hc : Completes cleanup) :
    Completes (body.ensuring cleanup) := of_ends ((h.ends _).ensuring hc)

end Completes

/-! ## What always returns -/

section

variable {h : Host ℓ σ ε}

theorem Exchange.log_completes (level : Level) (text : String) :
    Completes (Exchange.log level text : Exchange ℓ σ ε Unit) := fun _ => ⟨(), rfl⟩

theorem Fpu.withMasked_completes (settings : Settings) {body : Exchange ℓ σ ε α}
    (hb : Completes body) : Completes (Fpu.withMasked settings body) := by
  refine Completes.bind ?_ fun g => Completes.ensuring hb ?_
  · unfold Fpu.Guard.new
    split
    · exact fun _ => ⟨_, rfl⟩
    · exact Completes.pure _
  · unfold Fpu.Guard.close
    split
    · exact fun _ => ⟨_, rfl⟩
    · exact Completes.pure _

namespace Host

variable (hr : h.engine.Replies)
include hr

theorem ask_completes (r : Request ℓ) : Completes (h.ask r) := fun m => hr r m

theorem askMasked_completes (r : Request ℓ) : Completes (h.askMasked r) :=
  Fpu.withMasked_completes h.settings (ask_completes hr r)

theorem drop_completes (x : Handle ℓ) : Completes (x.drop h) := by
  refine Completes.bind (fun m => ⟨_, rfl⟩) fun last => ?_
  split
  · exact (Exchange.log_completes _ _).bind fun _ => ask_completes hr _
  · exact Completes.pure _

theorem within_completes (x : Handle ℓ) {body : Exchange ℓ σ ε α} (hb : Completes body) :
    Completes (x.within h body) := hb.ensuring (drop_completes hr x)

theorem takeException_completes : Completes h.takeException :=
  (ask_completes hr _).map _

theorem coerceText?_completes (w : ℓ.Word) : Completes (h.coerceText? w) := by
  refine (askMasked_completes hr (.toText w)).bind ?_
  rintro (_ | b)
  · exact Completes.pure _
  · refine Completes.bind (Completes.ensuring ?_ (ask_completes hr _)) fun _ => Completes.pure _
    exact fun _ => ⟨_, rfl⟩

theorem discardException_completes (during : String) : Completes (h.discardException during) := by
  refine (takeException_completes hr).bind fun thrown => within_completes hr thrown ?_
  refine (coerceText?_completes hr thrown.word).bind ?_
  rintro (_ | s)
  · refine (takeException_completes hr).bind fun second => ?_
    exact (drop_completes hr second).bind fun _ => Exchange.log_completes _ _
  · exact Exchange.log_completes _ _

theorem fail_completes (during : String) (cause : ProjectionError) :
    Completes (h.fail (α := α) during cause) :=
  (discardException_completes hr during).map _

theorem toText_completes (w : ℓ.Word) : Completes (h.toText w) := by
  refine (coerceText?_completes hr w).bind ?_
  rintro (_ | s)
  · exact (discardException_completes hr _).map _
  · exact Completes.pure _

theorem toUnits_completes (w : ℓ.Word) : Completes (h.toUnits w) :=
  (toText_completes hr w).map _

theorem newText_completes (text : String) : Completes (h.newText text) :=
  (ask_completes hr _).map _

theorem parse_completes (text : String) : Completes (h.parse text) :=
  (askMasked_completes hr _).map _

theorem checked_completes (during : String) (x : Handle ℓ) : Completes (h.checked during x) := by
  unfold checked
  split
  · exact within_completes hr x (fail_completes hr _ _)
  · exact Completes.pure _

theorem embed_completes (v : HostValue) : Completes (h.embed v) := by
  cases v with
  | text s => exact (newText_completes hr s).bind fun x => checked_completes hr _ x
  | json v => exact (parse_completes hr v.text).bind fun x => checked_completes hr _ x
  | _ => exact Completes.pure _

end Host

end

/-! ## What goes too deep -/

/-- What is heard of a projection that starts at an object and finds objects only, as many
more of them as the number says. -/
inductive Nested : Nat → ℓ.Word → List (Event ℓ ε) → Prop
  | last {w : ℓ.Word} : ℓ.tag? w = some .object → Nested 0 w []
  | inner {depth : Nat} {w v : ℓ.Word} {control : ControlState} {inner : List ε}
    {events : List (Event ℓ ε)} :
    ℓ.tag? w = some .object → Nested depth v events →
    Nested (depth + 1) w (.call ⟨.stringify w, control, inner, some v⟩ :: events)

namespace Host

variable {h : Host ℓ σ ε}

theorem projectWith_ends (hr : h.engine.Replies)
    {object : ℓ.Word → Exchange ℓ σ ε (Except ProjectionError HostValue)} (w : ℓ.Word)
    {A : List (Event ℓ ε) → Prop} (ho : ℓ.tag? w = some .object → Ends (object w) A) :
    Ends (h.projectWith object w) A := by
  unfold projectWith
  split
  · rename_i t ht
    cases t with
    | string =>
      exact ((toText_completes hr w).map _).ends A
    | bigFloat | bigDecimal =>
      refine Completes.ends ((askMasked_completes hr _).bind ?_) A
      rintro (_ | d)
      · exact fail_completes hr _ _
      · exact Completes.pure _
    | bigInt =>
      refine Completes.ends ((askMasked_completes hr _).bind ?_) A
      rintro (n | _ | _)
      · exact Completes.pure _
      · exact Completes.pure _
      · exact fail_completes hr _ _
    | object => exact ho ht
    | _ => exact (Completes.pure _).ends A
  · exact (Completes.pure _).ends A

/-- A projection returns unless it finds one object more than it can go down to. -/
theorem projectWithin_ends (hr : h.engine.Replies) (depth : Nat) (w : ℓ.Word) :
    Ends (h.projectWithin depth w) (Nested depth w) := by
  induction depth generalizing w with
  | zero => exact projectWith_ends hr w fun ht m => Or.inr ⟨rfl, .last ht⟩
  | succ depth ih =>
    refine projectWith_ends hr w fun ht => ?_
    refine Ends.bind (((askMasked_completes hr _).map _).ends _)
      (h.stringify_hears w) ?_
    rintro ⟨v⟩ _ ⟨control, inner, rfl⟩
    split
    · exact (within_completes hr _ (fail_completes hr _ _)).ends _
    · have hi : Ends (Handle.within h ⟨v⟩ (h.projectWithin depth v)) fun ys =>
          Nested (depth + 1) w (.call ⟨.stringify w, control, inner, some v⟩ :: ys) :=
        Ends.ensuring (fun m => (ih v m).imp_right fun ⟨ha, hx⟩ => ⟨ha, .inner ht hx⟩)
          (drop_completes hr _)
      exact hi.bind (Handle.within_returns (Q := fun _ _ => True)
        (h.projectWithin_returns depth v) fun _ _ _ _ _ => trivial) fun r xs _ =>
        (Completes.pure _).ends _

theorem project_ends (hr : h.engine.Replies) (w : ℓ.Word) :
    Ends (h.project w) (Nested h.depth w) := projectWithin_ends hr h.depth w

theorem projectOwned_ends (hr : h.engine.Replies) (x : Handle ℓ) :
    Ends (h.projectOwned x) (Nested h.depth x.word) :=
  (project_ends hr x.word).ensuring (drop_completes hr x)

end Host

end ScriptHost
