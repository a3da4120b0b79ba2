-- What becomes of exceptions. One that the engine throws is taken by the very next call
-- and given back, a record quotes it, and none is left pending behind an operation.
import ScriptHost.Proofs.Exchange.Ledger
import ScriptHost.Proofs.Exchange.Sample

namespace ScriptHost

variable {ℓ : Layout} {σ ε α β : Type}

/-! ## What is thrown and what is taken -/

/-- Whether the reply to a call says that the engine threw. -/
def Call.isThrown : Call ℓ ε → Bool
  | ⟨.toText _, _, _, some text⟩ => text.isNone
  | ⟨.toDouble _, _, _, some d⟩ => d.isNone
  | ⟨.toBigInteger _, _, _, some n⟩ => n == .threw
  | ⟨.stringify _, _, _, some w⟩ => ℓ.tag? w == some .exception
  | ⟨.parse _, _, _, some w⟩ => ℓ.tag? w == some .exception
  | ⟨.newText _, _, _, some w⟩ => ℓ.tag? w == some .exception
  | _ => false

/-- What the host does in a request that may throw, as a record puts it. -/
def Request.occasion? : Request ℓ → Option String
  | .toText _ => some "string coercion"
  | .toDouble _ => some "numeric coercion"
  | .toBigInteger _ => some "numeric coercion"
  | .stringify _ => some "JSON.stringify"
  | .parse _ => some "JSON.parse"
  | .newText _ => some "string construction"
  | _ => none

/-- The occasion on which the engine threw, if the reply to a call says that it did. -/
def Call.throws? (c : Call ℓ ε) : Option String := if c.isThrown then c.request.occasion? else none

/-- Whether a call takes the pending exception. -/
def Call.takes : Call ℓ ε → Bool
  | ⟨.takeException, _, _, _⟩ => true
  | _ => false

def calls : List (Event ℓ ε) → List (Call ℓ ε)
  | [] => []
  | .call c :: events => c :: calls events
  | _ :: events => calls events

/-- Calls that take an exception right after one is thrown and nowhere else. The flag tells
whether one has been thrown before. -/
def Answered : Bool → List (Call ℓ ε) → Prop
  | owing, [] => owing = false
  | owing, c :: cs => c.takes = owing ∧ Answered c.isThrown cs

/-- The texts of the records that warn. -/
def warnings : List (Event ℓ ε) → List String
  | [] => []
  | .log ⟨.warn, text⟩ :: events => text :: warnings events
  | _ :: events => warnings events

def thrown (events : List (Event ℓ ε)) : Bool := (calls events).any Call.isThrown

/-- Words that come from the engine and words that are given back. Each word that is
given back is the latest one that came and is still there. -/
inductive HandsBack : List ℓ.Word → List (Event ℓ ε) → List ℓ.Word → Prop
  | done {ws : List ℓ.Word} : HandsBack ws [] ws
  | call {ws left : List ℓ.Word} {c : Call ℓ ε} {events : List (Event ℓ ε)} :
    HandsBack (c.handed.toList ++ ws) events left → HandsBack ws (.call c :: events) left
  | release {ws left : List ℓ.Word} {w : ℓ.Word} {count : Option Int32}
    {events : List (Event ℓ ε)} :
    HandsBack ws events left → HandsBack (w :: ws) (.release w count :: events) left
  | read {ws left : List ℓ.Word} {b : Buffer} {events : List (Event ℓ ε)} :
    HandsBack ws events left → HandsBack ws (.read b :: events) left
  | log {ws left : List ℓ.Word} {r : Record} {events : List (Event ℓ ε)} :
    HandsBack ws events left → HandsBack ws (.log r :: events) left

/-- One record warns, and it quotes the first exception that is taken: what was done when the
engine threw it, and its text, with U+FFFD for what is no text, or that it has none. `owing` is
the occasion of an exception that has been thrown before. -/
def Quotes (owing : Option String) (events : List (Event ℓ ε)) : Prop :=
  ∃ (before after : List (Call ℓ ε)) (control control' : ControlState) (inner inner' : List ε)
    (e : ℓ.Word) (text : Option Buffer) (during : String),
    calls events = before ++ ⟨.takeException, control, inner, some e⟩ ::
      ⟨.toText e, control', inner', some text⟩ :: after ∧
    (∀ c ∈ before, c.takes = false) ∧
    (owing <|> before.findSome? Call.throws?) = some during ∧
    warnings events = ["engine raised an exception during " ++ during ++ ": " ++
      text.elim "<unprintable>" fun b => Utf8.decodeLossy b.bytes]

/-- Events in which every exception is taken as it comes. With them stand the words held
before and after, and whether the operation succeeds. -/
structure Orderly (owing : Option String) (held left : List ℓ.Word) (ok : Bool)
    (events : List (Event ℓ ε)) : Prop where
  answered : Answered owing.isSome (calls events)
  handsBack : HandsBack held events left
  failed : (owing.isSome || thrown events) = true → ok = false ∧ Quotes owing events
  quiet : (owing.isSome || thrown events) = false → warnings events = []

/-! ## Events in a row -/

theorem calls_append (xs ys : List (Event ℓ ε)) : calls (xs ++ ys) = calls xs ++ calls ys := by
  induction xs with
  | nil => rfl
  | cons event xs ih =>
    cases event with
    | call c => exact congrArg (c :: ·) ih
    | _ => exact ih

theorem warnings_cons (event : Event ℓ ε) (events : List (Event ℓ ε)) :
    warnings (event :: events) = warnings [event] ++ warnings events := by
  cases event with
  | log r =>
    obtain ⟨level, text⟩ := r
    cases level <;> rfl
  | _ => rfl

theorem warnings_append (xs ys : List (Event ℓ ε)) :
    warnings (xs ++ ys) = warnings xs ++ warnings ys := by
  induction xs with
  | nil => rfl
  | cons event xs ih => rw [List.cons_append, warnings_cons, ih, warnings_cons event xs,
      List.append_assoc]

theorem thrown_append (xs ys : List (Event ℓ ε)) :
    thrown (xs ++ ys) = (thrown xs || thrown ys) := by
  unfold thrown
  rw [calls_append, List.any_append]

theorem Answered.append {owing : Bool} {cs ds : List (Call ℓ ε)} (h : Answered owing cs)
    (h' : Answered false ds) : Answered owing (cs ++ ds) := by
  induction cs generalizing owing with
  | nil =>
    have ho : owing = false := h
    subst ho
    exact h'
  | cons c cs ih => exact ⟨h.1, ih h.2⟩

theorem HandsBack.append {ws mid left : List ℓ.Word} {xs ys : List (Event ℓ ε)}
    (h : HandsBack ws xs mid) (h' : HandsBack mid ys left) : HandsBack ws (xs ++ ys) left := by
  induction h with
  | done => exact h'
  | call _ ih => exact .call (ih h')
  | release _ ih => exact .release (ih h')
  | read _ ih => exact .read (ih h')
  | log _ ih => exact .log (ih h')

theorem Call.throws?_of_thrown {c : Call ℓ ε} (h : c.isThrown = true) :
    c.throws? = c.request.occasion? := if_pos h

theorem Call.throws?_of_not_thrown {c : Call ℓ ε} (h : c.isThrown = false) : c.throws? = none :=
  if_neg (by simp [h])

/-- Only a request that has an occasion throws. -/
theorem Call.isSome_throws? (c : Call ℓ ε) : c.throws?.isSome = c.isThrown := by
  cases ht : c.isThrown with
  | false => rw [throws?_of_not_thrown ht, Option.isSome_none]
  | true =>
    rw [throws?_of_thrown ht]
    obtain ⟨r, control, inner, reply⟩ := c
    cases r with
    | freeValue | freeText | takeException | eval => cases ht
    | _ => rfl

theorem Quotes.append {owing : Option String} {xs ys : List (Event ℓ ε)} (h : Quotes owing xs)
    (hy : warnings ys = []) : Quotes owing (xs ++ ys) := by
  obtain ⟨before, after, control, control', inner, inner', e, text, during, hc, hb, hd, hw⟩ := h
  refine ⟨before, after ++ calls ys, control, control', inner, inner', e, text, during, ?_, hb, hd,
    ?_⟩
  · rw [calls_append, hc, List.append_assoc]
    rfl
  · rw [warnings_append, hw, hy, List.append_nil]

/-- Where a call throws, what is owed from then on is what it threw. -/
theorem Quotes.call {c : Call ℓ ε} {events : List (Event ℓ ε)} (h : Quotes c.throws? events)
    (hc : c.takes = false) : Quotes none (.call c :: events) := by
  obtain ⟨before, after, control, control', inner, inner', e, text, during, hcalls, hb, hd, hw⟩ := h
  refine ⟨c :: before, after, control, control', inner, inner', e, text, during, ?_, ?_, ?_, hw⟩
  · exact congrArg (c :: ·) hcalls
  · intro d hd
    rcases List.mem_cons.mp hd with rfl | hd
    · exact hc
    · exact hb d hd
  · rw [List.findSome?_cons]
    cases ht : c.throws? with
    | none => rwa [ht] at hd
    | some during' => rwa [ht] at hd

namespace Orderly

variable {owing : Option String} {ok : Bool} {held mid left : List ℓ.Word}
  {xs ys : List (Event ℓ ε)}

theorem done : Orderly none held held ok ([] : List (Event ℓ ε)) :=
  ⟨rfl, .done, (nomatch ·), fun _ => rfl⟩

/-- What goes well in the events may still go wrong for another reason. -/
theorem weaken (h : Orderly owing held left true xs) (ok : Bool) :
    Orderly owing held left ok xs :=
  ⟨h.answered, h.handsBack, fun ht => (nomatch (h.failed ht).1), h.quiet⟩

theorem call {c : Call ℓ ε} (hc : c.takes = false)
    (h : Orderly c.throws? (c.handed.toList ++ held) left ok xs) :
    Orderly none held left ok (.call c :: xs) := by
  obtain ⟨hanswered, hback, hfailed, hquiet⟩ := h
  rw [c.isSome_throws?] at hanswered hfailed hquiet
  refine ⟨⟨hc, hanswered⟩, .call hback, fun ht => ?_, hquiet⟩
  obtain ⟨hok, hq⟩ := hfailed ht
  exact ⟨hok, hq.call hc⟩

theorem thrown_eq (h : Orderly none held left true xs) : thrown xs = false := by
  by_cases ht : thrown xs = true
  · exact nomatch (h.failed ht).1
  · simpa using ht

theorem warnings_eq (h : Orderly none held left true xs) : warnings xs = [] :=
  h.quiet h.thrown_eq

/-- Events and then others in which nothing is thrown. -/
theorem append (h : Orderly owing held mid ok xs) (h' : Orderly none mid left true ys) :
    Orderly owing held left ok (xs ++ ys) := by
  have hy := h'.thrown_eq
  refine ⟨?_, h.handsBack.append h'.handsBack, ?_, ?_⟩
  · rw [calls_append]
    exact h.answered.append h'.answered
  · intro ht
    rw [thrown_append, hy, Bool.or_false] at ht
    obtain ⟨hok, hq⟩ := h.failed ht
    exact ⟨hok, hq.append h'.warnings_eq⟩
  · intro ht
    rw [thrown_append, hy, Bool.or_false] at ht
    rw [warnings_append, h.quiet ht, h'.warnings_eq, List.append_nil]

end Orderly

/-! ## Every course is orderly -/

theorem Dropping.orderly {x : Handle ℓ} {xs : List (Event ℓ ε)} (h : Dropping x xs)
    (held : List ℓ.Word) : Orderly none (x.word :: held) held true xs := by
  cases h with
  | kept hl => exact ⟨rfl, .release .done, (nomatch ·), fun _ => rfl⟩
  | last => exact ⟨⟨rfl, rfl⟩, .release (.log (.call .done)), (nomatch ·), fun _ => rfl⟩

theorem Coercion.orderly {w : ℓ.Word} {s : String} {xs : List (Event ℓ ε)}
    (h : Coercion w (some s) xs) (held : List ℓ.Word) : Orderly none held held true xs := by
  cases h with
  | read b => exact ⟨⟨rfl, rfl, rfl⟩, .call (.read (.call .done)), (nomatch ·), fun _ => rfl⟩

theorem Report.orderly {during : String} {xs : List (Event ℓ ε)} (h : Report during xs)
    (held : List ℓ.Word) : Orderly (some during) held held false xs := by
  cases h with
  | printed hx hy =>
    have hd := hy.orderly held
    cases hx with
    | read b =>
      refine ⟨⟨rfl, rfl, rfl, hd.answered⟩, .call (.call (.read (.call (.log hd.handsBack)))),
        fun _ => ⟨rfl, ?_⟩, (nomatch ·)⟩
      refine ⟨[], _, _, _, _, _, _, some b, during, rfl, by simp, rfl, ?_⟩
      exact congrArg (_ :: ·) hd.warnings_eq
  | @unprintable _ _ _ _ e second xs ys zs hx hy hz =>
    -- Two exceptions are held, and the second one goes back first.
    have hd := hy.orderly (e :: held)
    have hd' := hz.orderly held
    have hcalls : calls (ys ++ .log ⟨.warn, Host.discarded during none⟩ :: zs) =
        calls ys ++ calls zs := calls_append _ _
    have hwarnings : warnings (ys ++ .log ⟨.warn, Host.discarded during none⟩ :: zs) =
        [Host.discarded during none] := by
      rw [warnings_append, hd.warnings_eq]
      exact congrArg (_ :: ·) hd'.warnings_eq
    cases hx with
    | thrown =>
      refine ⟨⟨rfl, rfl, rfl, ?_⟩, .call (.call (.call (hd.handsBack.append (.log hd'.handsBack)))),
        fun _ => ⟨rfl, ?_⟩, (nomatch ·)⟩
      · rw [hcalls]
        exact hd.answered.append hd'.answered
      · exact ⟨[], _, _, _, _, _, _, none, during, rfl, by simp, rfl, hwarnings⟩

/-- A call that throws and hands out nothing, and what is reported of it. -/
theorem Report.orderly_throw {during : String} {c : Call ℓ ε} {xs : List (Event ℓ ε)}
    (h : Report during xs) (hc : c.takes = false) (ht : c.isThrown = true)
    (ho : c.request.occasion? = some during) (hh : c.handed = none)
    (held : List ℓ.Word) : Orderly none held held false (.call c :: xs) := by
  refine Orderly.call hc ?_
  rw [Call.throws?_of_thrown ht, ho, hh]
  exact h.orderly held

/-- A call that throws by handing out a word, which is dropped after the report. -/
theorem Report.orderly_throw_word {during : String} {c : Call ℓ ε} {w : ℓ.Word}
    {xs ys : List (Event ℓ ε)} (h : Report during xs) (hy : Dropping ⟨w⟩ ys)
    (hc : c.takes = false) (ht : c.isThrown = true)
    (ho : c.request.occasion? = some during) (hh : c.handed = some w)
    (held : List ℓ.Word) : Orderly none held held false (.call c :: (xs ++ ys)) := by
  refine Orderly.call hc ?_
  rw [Call.throws?_of_thrown ht, ho, hh]
  exact (h.orderly (w :: held)).append (hy.orderly held)

theorem Texting.orderly {w : ℓ.Word} {r : Except ProjectionError String}
    {xs : List (Event ℓ ε)} (h : Texting w r xs) (held : List ℓ.Word) :
    Orderly none held held r.isOk xs := by
  cases h with
  | text hx => exact hx.orderly held
  | thrown hx hy =>
    cases hx with
    | thrown => exact hy.orderly_throw rfl rfl rfl rfl held

theorem isOk_map (r : Except ProjectionError α) (f : α → β) : (r.map f).isOk = r.isOk := by
  cases r <;> rfl

/-- A call that does not throw, and nothing after it. -/
theorem Orderly.single {c : Call ℓ ε} {ok : Bool} {held left : List ℓ.Word}
    (hc : c.takes = false) (ht : c.isThrown = false) (hl : c.handed.toList ++ held = left) :
    Orderly none held left ok [.call c] := by
  subst hl
  refine Orderly.call hc ?_
  rw [Call.throws?_of_not_thrown ht]
  exact .done

theorem Layout.tag?_beq_exception (w : ℓ.Word) :
    (ℓ.tag? w == some .exception) = ℓ.isException w := by
  rw [Bool.eq_iff_iff, ℓ.isException_iff]
  exact beq_iff_eq

theorem Projection.orderly {w : ℓ.Word} {r : Except ProjectionError HostValue}
    {xs : List (Event ℓ ε)} (h : Projection w r xs) (held : List ℓ.Word) :
    Orderly none held held r.isOk xs := by
  induction h generalizing held with
  | alone _ => exact .done
  | text _ hx =>
    rw [isOk_map]
    exact hx.orderly held
  | double _ _ => exact .single rfl rfl rfl
  | doubleThrown _ _ hx => exact hx.orderly_throw rfl rfl rfl rfl held
  | exact _ => exact .single rfl rfl rfl
  | outOfRange _ => exact .single rfl rfl rfl
  | integerThrown _ hx => exact hx.orderly_throw rfl rfl rfl rfl held
  | @object w v r control inner xs ys _ hv _ hy ih =>
    have hquiet : (⟨.stringify w, control, inner, some v⟩ : Call ℓ ε).isThrown = false :=
      (Layout.tag?_beq_exception v).trans hv
    refine Orderly.call rfl (Orderly.append ?_ (hy.orderly held))
    rw [Call.throws?_of_not_thrown hquiet]
    cases r with
    | ok a => exact (ih (v :: held)).weaken _
    | error cause => exact ih (v :: held)
  | @objectThrown w v _ _ _ _ _ hv hx hy =>
    refine hx.orderly_throw_word hy rfl ?_ rfl rfl held
    exact (Layout.tag?_beq_exception v).trans hv

/-- What is held after an embedding: what was held before, and the word of the result if
it came from the engine. -/
def Kept (r : Except ProjectionError (Handle ℓ)) (held left : List ℓ.Word) : Prop :=
  left = held ∨ ∃ x, r = .ok x ∧ left = x.word :: held

theorem Embedding.orderly {v : HostValue} {r : Except ProjectionError (Handle ℓ)}
    {xs : List (Event ℓ ε)} (h : Embedding v r xs) (held : List ℓ.Word) :
    ∃ left, Kept r held left ∧ Orderly none held left r.isOk xs := by
  cases h with
  | plain _ => exact ⟨held, Or.inl rfl, .done⟩
  | @text s w _ _ hw | @document s w _ _ hw =>
    refine ⟨w :: held, Or.inr ⟨⟨w⟩, rfl, rfl⟩, .single rfl ?_ rfl⟩
    exact (Layout.tag?_beq_exception w).trans hw
  | @textThrown s w _ _ _ _ hw hx hy | @documentThrown s w _ _ _ _ hw hx hy =>
    refine ⟨held, Or.inl rfl, hx.orderly_throw_word hy rfl ?_ rfl rfl held⟩
    exact (Layout.tag?_beq_exception w).trans hw

/-! ## The pending exception -/

/-- Whether an exception is pending after a call. -/
def Call.leavesPending (c : Call ℓ ε) (pending : Bool) : Bool :=
  !c.takes && (c.isThrown || pending)

/-- An engine that has an exception pending from a reply that throws until it is taken. -/
def Engine.Minds (e : Engine ℓ σ ε) (pending : σ → Bool) : Prop :=
  ∀ r m, pending (e.answer r m).state.inner =
    Call.leavesPending ⟨r, m.control, (e.answer r m).events, (e.answer r m).ending.value?⟩
      (pending m.inner)

/-- The same of one request. -/
def Engine.MindsAt (e : Engine ℓ σ ε) (pending : σ → Bool) (r : Request ℓ) : Prop :=
  ∀ m, pending (e.answer r m).state.inner =
    Call.leavesPending ⟨r, m.control, (e.answer r m).events, (e.answer r m).ending.value?⟩
      (pending m.inner)

theorem calls_heard (events : List (Event ℓ ε)) : calls (heard events) = calls events := by
  induction events with
  | nil => rfl
  | cons event events ih =>
    cases event with
    | call c => exact congrArg (c :: ·) ih
    | _ => exact ih

theorem Happens.pending_eq {e : Engine ℓ σ ε} {pending : σ → Bool} {m m' : Machine σ}
    {event : Event ℓ ε} (h : Happens e m event m')
    (he : ∀ c ∈ calls [event], e.MindsAt pending c.request) :
    pending m'.inner = (calls [event]).foldl (fun p c => c.leavesPending p) (pending m.inner) := by
  cases h with
  | call r => exact he _ (List.mem_singleton_self _) m
  | retain w => rw [Machine.inner_retain]; rfl
  | release w => rw [Machine.inner_release]; rfl
  | _ => rfl

/-- What is pending after some events, where the engine minds all that it is asked in them. -/
theorem Path.pending_eq {e : Engine ℓ σ ε} {pending : σ → Bool} {m m' : Machine σ}
    {events : List (Event ℓ ε)} (h : Path e m events m')
    (he : ∀ c ∈ calls events, e.MindsAt pending c.request) :
    pending m'.inner = (calls events).foldl (fun p c => c.leavesPending p) (pending m.inner) := by
  induction h with
  | nil => rfl
  | @cons _ _ _ event events hx _ ih =>
    have hcalls : calls (event :: events) = calls [event] ++ calls events :=
      calls_append [event] events
    rw [hcalls] at he ⊢
    rw [ih fun c hc => he c (List.mem_append_right _ hc),
      hx.pending_eq fun c hc => he c (List.mem_append_left _ hc), ← List.foldl_append]

/-- Where every exception is taken as it comes, one that was pending before stays so only if
none is thrown. -/
theorem Answered.pending_eq {owing : Bool} {cs : List (Call ℓ ε)} (h : Answered owing cs)
    (pending : Bool) : cs.foldl (fun p c => c.leavesPending p) pending =
      (pending && !(owing || cs.any Call.isThrown)) := by
  -- While a call is owed it does not matter what is pending, for that call takes it.
  induction cs generalizing owing pending with
  | nil =>
    have ho : owing = false := h
    simp [ho]
  | cons c cs ih =>
    obtain ⟨hc, hcs⟩ := h
    rw [List.foldl_cons, ih hcs, List.any_cons, Call.leavesPending, hc]
    by_cases ho : owing = true
    · simp [ho]
    · cases hthrown : c.isThrown <;> simp [ho]

/-! ## The law -/

/-- An operation that minds exceptions. It comes to an end, it takes every exception as it
comes, and it leaves none of them pending. -/
structure Host.Attentive (h : Host ℓ σ ε) (body : Exchange ℓ σ ε (Except ProjectionError α))
    (held : List ℓ.Word) (left : Except ProjectionError α → List ℓ.Word → Prop)
    (deep : List (Event ℓ ε) → Prop) : Prop where
  ends : h.engine.Replies → Ends body deep
  orderly : ∀ m r events m', body m = ⟨.value r, events, m'⟩ →
    ∃ ws, left r ws ∧ Orderly none held ws r.isOk (heard events)
  pending : ∀ m r events m', body m = ⟨.value r, events, m'⟩ →
    ∀ pending : σ → Bool, h.engine.Minds pending →
      pending m'.inner = (pending m.inner && !thrown events)

theorem Host.attentive_of {h : Host ℓ σ ε} {body : Exchange ℓ σ ε (Except ProjectionError α)}
    {held : List ℓ.Word} {left : Except ProjectionError α → List ℓ.Word → Prop}
    {deep : List (Event ℓ ε) → Prop} {P : Except ProjectionError α → List (Event ℓ ε) → Prop}
    (hends : h.engine.Replies → Ends body deep) (hb : Returns h.engine body P)
    (hp : ∀ r xs, P r xs → ∃ ws, left r ws ∧ Orderly none held ws r.isOk xs) :
    h.Attentive body held left deep where
  ends := hends
  orderly := by
    intro m r events m' hr
    exact hp r _ (hb m r events m' hr).2
  pending := by
    intro m r events m' hr pending he
    obtain ⟨hpath, hx⟩ := hb m r events m' hr
    obtain ⟨ws, -, ho⟩ := hp r _ hx
    have ha := ho.answered.pending_eq (pending m.inner)
    rw [calls_heard] at ha
    rw [hpath.pending_eq fun c _ => he c.request, ha]
    rfl

/-- Whatever is thrown on the way over is taken by the next call, quoted in one record and
given back, and the operation fails. Where nothing is thrown, nothing is taken or warned of. -/
theorem every_exception_is_taken_as_it_comes (h : Host ℓ σ ε) :
    (∀ w, h.Attentive (h.project w) [] (fun _ ws => ws = []) (Nested h.depth w)) ∧
    (∀ x, h.Attentive (h.projectOwned x) [x.word] (fun _ ws => ws = []) (Nested h.depth x.word)) ∧
    (∀ w, h.Attentive (h.toText w) [] (fun _ ws => ws = []) fun _ => False) ∧
    (∀ w, h.Attentive (h.toUnits w) [] (fun _ ws => ws = []) fun _ => False) ∧
    (∀ v, h.Attentive (h.embed v) [] (Kept · []) fun _ => False) := by
  refine ⟨fun w => ?_, fun x => ?_, fun w => ?_, fun w => ?_, fun v => ?_⟩
  · refine Host.attentive_of (fun hr => Host.project_ends hr w) (h.project_returns w) ?_
    intro r xs hx
    exact ⟨[], rfl, hx.orderly []⟩
  · refine Host.attentive_of (fun hr => Host.projectOwned_ends hr x)
      (P := fun r zs => Orderly none [x.word] [] r.isOk zs)
      (Handle.within_returns (h.project_returns x.word) ?_) fun r xs hx => ⟨[], rfl, hx⟩
    intro r xs ys hx hy
    exact (hx.orderly [x.word]).append (hy.orderly [])
  · refine Host.attentive_of (fun hr => (Host.toText_completes hr w).ends _) (h.toText_returns w) ?_
    intro r xs hx
    exact ⟨[], rfl, hx.orderly []⟩
  · refine Host.attentive_of (fun hr => (Host.toUnits_completes hr w).ends _)
      (h.toUnits_returns w) ?_
    rintro r xs ⟨s, hx, rfl⟩
    rw [isOk_map]
    exact ⟨[], rfl, hx.orderly []⟩
  · refine Host.attentive_of (fun hr => (Host.embed_completes hr v).ends _) (h.embed_returns v) ?_
    intro r xs hx
    exact hx.orderly []

/-- The engine with one object has an exception pending as its own state tells. -/
theorem sole_minds (ℓ : Layout) : (Engine.sole ℓ : Engine ℓ Bool ε).Minds id := by
  intro r m
  cases r with
  | eval source file => exact m.inner_retain ℓ.sole
  | _ => simp [Engine.sole, Call.leavesPending, Call.takes, Call.isThrown, Ending.value?,
      Layout.tag?_immediate]

/-- No text can be made of the only object, nor of the exception that this throws. Both are
taken, and the record says that there was nothing to print. -/
theorem exceptions_of_sole_are_taken :
    ∃ events m',
      (Host.toText ⟨Engine.sole .boxed, .standard, 0⟩ (Layout.sole .boxed) :
          Exchange .boxed Bool Unit _) .fresh =
        ⟨.value (.error .stringConversion), events, m'⟩ ∧
      thrown events = true ∧ Orderly none [] [] false (heard events) ∧
      warnings events =
        ["engine raised an exception during string coercion: <unprintable>"] ∧
      m'.inner = false := by
  have hlaw := (every_exception_is_taken_as_it_comes (ε := Unit)
    ⟨Engine.sole .boxed, .standard, 0⟩).2.2.1 (Layout.sole .boxed)
  obtain ⟨ws, rfl, ho⟩ := hlaw.orderly .fresh _ _ _ rfl
  have hp := hlaw.pending .fresh _ _ _ rfl id (sole_minds .boxed)
  exact ⟨_, _, rfl, rfl, ho, rfl, hp⟩

end ScriptHost
