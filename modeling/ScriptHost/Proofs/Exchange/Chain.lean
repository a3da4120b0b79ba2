-- Objects whose JSON text is an object in its turn. The projection follows them down to the
-- first word that is no object. What this word comes to is all that is left of them, and
-- every word on the way is given back.
import Mathlib.Data.List.Chain
import ScriptHost.Proofs.Exchange.Exceptions
import ScriptHost.Proofs.Exchange.Scopes

namespace ScriptHost

variable {ℓ : Layout} {σ ε : Type}

/-! ## One object -/

namespace Host

variable {h : Host ℓ σ ε} {w v : ℓ.Word}

/-- What comes of a word that is written for an object. -/
def resolve (h : Host ℓ σ ε) (depth : Nat) (v : ℓ.Word) :
    Exchange ℓ σ ε (Except ProjectionError HostValue) :=
  if ℓ.isException v then h.fail "JSON.stringify" (.exception "JSON.stringify")
  else do return (← h.projectWithin depth v).bind document

theorem resolve_of_exception (hv : ℓ.tag? v = some .exception) (depth : Nat) :
    h.resolve depth v = h.fail "JSON.stringify" (.exception "JSON.stringify") := by
  unfold resolve
  rw [if_pos ((ℓ.isException_iff v).mpr hv)]

theorem resolve_of_not_exception (hv : ℓ.tag? v ≠ some .exception) (depth : Nat) :
    h.resolve depth v = (do return (← h.projectWithin depth v).bind document) := by
  unfold resolve
  rw [if_neg fun hx => hv ((ℓ.isException_iff v).mp hx)]

/-- An object goes over as the word that is written for it, and this word is dropped. -/
theorem projectWithin_eq_after {m mid : Machine σ} {xs : List (Event ℓ ε)} {depth : Nat}
    (hw : ℓ.tag? w = some .object) (hs : h.stringify w m = ⟨.value ⟨v⟩, xs, mid⟩) :
    h.projectWithin (depth + 1) w m =
      (Handle.within h ⟨v⟩ (h.resolve depth v) mid).after xs := by
  have hobject : h.projectWithin (depth + 1) w = h.projectObject (h.projectWithin depth) w := by
    rw [projectWithin, projectWith, hw]
    rfl
  rw [hobject, projectObject, Action.bind_eq_after hs]
  congr 1
  unfold resolve
  by_cases hv : ℓ.isException v = true
  · rw [if_pos hv, if_pos (show (Handle.mk v).isException = true from hv)]
  · rw [if_neg hv, if_neg (show ¬ (Handle.mk v).isException = true from hv)]
    exact congrFun (Action.map_ensuring _ _ _) mid

/-- Only an object looks at how objects are projected. -/
theorem projectWith_congr (hw : ℓ.tag? w ≠ some .object)
    (f g : ℓ.Word → Exchange ℓ σ ε (Except ProjectionError HostValue)) :
    h.projectWith f w = h.projectWith g w := by
  unfold projectWith
  cases ht : ℓ.tag? w with
  | none => rfl
  | some t =>
    cases t with
    | object => exact absurd ht hw
    | _ => rfl

theorem projectWithin_depth (hw : ℓ.tag? w ≠ some .object) (depth depth' : Nat) :
    h.projectWithin depth w = h.projectWithin depth' w := by
  cases depth <;> cases depth' <;> exact projectWith_congr hw _ _

theorem resolve_depth (hw : ℓ.tag? w ≠ some .object) (depth depth' : Nat) :
    h.resolve depth w = h.resolve depth' w := by
  unfold resolve
  rw [projectWithin_depth hw depth depth']

theorem document_ne_text (a : HostValue) (s : String) : document a ≠ .ok (.text s) := by
  cases a with
  | text t =>
    change (Json.parse? t).elim _ _ ≠ _
    cases Json.parse? t <;> exact nofun
  | _ => exact nofun

theorem document_eq_self {a : HostValue} (ha : ∀ s, a ≠ .text s) : document a = .ok a := by
  cases a with
  | text s => exact absurd rfl (ha s)
  | _ => rfl

theorem bind_document_eq_self {r : Except ProjectionError HostValue}
    (hr : ∀ s, r ≠ .ok (.text s)) : r.bind document = r := by
  cases r with
  | error cause => rfl
  | ok a => exact document_eq_self fun s ha => hr s (ha ▸ rfl)

end Host

/-- A text goes over as a text, and nothing else does. -/
theorem Projection.ne_text {w : ℓ.Word} {r : Except ProjectionError HostValue}
    {xs : List (Event ℓ ε)} (h : Projection w r xs) (hw : ℓ.tag? w ≠ some .string) (s : String) :
    r ≠ .ok (.text s) := by
  cases h with
  | alone ha =>
    unfold Layout.alone? at ha
    split at ha <;> cases ha <;> simp
  | text ht => exact absurd ht hw
  | @object _ _ r _ _ _ _ _ _ _ _ =>
    cases r with
    | error cause => exact nofun
    | ok a => exact Host.document_ne_text a s
  | _ => exact nofun

namespace Host

variable {h : Host ℓ σ ε} {w v : ℓ.Word}

/-- What comes of an object that is written for another one is what comes of the object by
itself. A document is not read a second time. -/
theorem resolve_of_object (hw : ℓ.tag? w = some .object) (depth : Nat) :
    h.resolve depth w = h.projectWithin depth w := by
  rw [resolve_of_not_exception (by simp [hw])]
  funext m
  refine Action.map_eq_self fun r xs mid hr => bind_document_eq_self ?_
  exact (h.projectWithin_returns depth w m r xs mid hr).2.ne_text (by simp [hw])

end Host

/-! ## Chains -/

/-- A chain of words, each of them written for the object before it, from the machine on which
the first object is met to the one on which the last word is. This one is no object. -/
inductive Chain (h : Host ℓ σ ε) :
    Machine σ → ℓ.Word → List ℓ.Word → ℓ.Word → Machine σ → Prop
  | last {m : Machine σ} {w : ℓ.Word} : ℓ.tag? w ≠ some .object → Chain h m w [] w m
  | next {m mid m' : Machine σ} {w v z : ℓ.Word} {vs : List ℓ.Word} {xs : List (Event ℓ ε)} :
    ℓ.tag? w = some .object → h.stringify w m = ⟨.value ⟨v⟩, xs, mid⟩ →
    Chain h mid v vs z m' → Chain h m w (v :: vs) z m'

theorem Chain.last_ne_object {h : Host ℓ σ ε} {m m' : Machine σ} {w z : ℓ.Word} {vs : List ℓ.Word}
    (hc : Chain h m w vs z m') : ℓ.tag? z ≠ some .object := by
  induction hc with
  | last hw => exact hw
  | next _ _ _ ih => exact ih

/-- A guarded call has the reply that the engine always gives to it. -/
theorem Host.askMasked_returns_of {h : Host ℓ σ ε} {r : Request ℓ} {v : r.Reply}
    (hv : ∀ m, (h.engine.answer r m).ending = .value v) :
    Returns h.engine (h.askMasked r) fun a _ => a = v := by
  refine Returns.bind (Fpu.Guard.new_returns h.engine h.settings) fun g _ _ => ?_
  refine Returns.ensuring (P := fun a _ => a = v) ?_ (g.close_returns h.engine)
    fun _ _ _ ha _ => ha
  intro m a events m' hr
  refine ⟨(h.ask_hears r m a events m' hr).1, ?_⟩
  obtain ⟨ha, -, -⟩ := Outcome.mk.inj hr
  exact (Ending.value.inj ((hv m).symm.trans ha)).symm

theorem Host.stringify_eq_value {h : Host ℓ σ ε} {w v : ℓ.Word}
    (hv : ∀ m, (h.engine.answer (.stringify w) m).ending = .value v) (m : Machine σ) :
    ∃ xs mid, h.stringify w m = ⟨.value ⟨v⟩, xs, mid⟩ := by
  have hends : Completes (h.askMasked (.stringify w)) :=
    Fpu.withMasked_completes h.settings fun m => ⟨v, hv m⟩
  obtain ⟨a, ha⟩ := hends m
  cases hm : h.askMasked (.stringify w) m with
  | mk ending xs mid =>
    rw [hm] at ha
    cases ha
    obtain ⟨-, rfl⟩ := Host.askMasked_returns_of hv m a xs mid hm
    refine ⟨xs, mid, (Action.map_eq _ _ m).trans ?_⟩
    rw [hm]
    rfl

/-- An engine that writes each word of a list as the next one, whenever it is asked, makes a
chain of them on any machine. -/
theorem exists_chain {h : Host ℓ σ ε} {w z : ℓ.Word} {vs : List ℓ.Word}
    (hnext : (w :: vs).IsChain fun v v' => ℓ.tag? v = some .object ∧
      ∀ m, (h.engine.answer (.stringify v) m).ending = .value v')
    (hlast : (w :: vs).getLast? = some z) (hz : ℓ.tag? z ≠ some .object) (m : Machine σ) :
    ∃ m', Chain h m w vs z m' := by
  induction vs generalizing w m with
  | nil =>
    cases hlast
    exact ⟨m, .last hz⟩
  | cons v vs ih =>
    obtain ⟨⟨hw, hv⟩, hrest⟩ := List.isChain_cons_cons.mp hnext
    rw [List.getLast?_cons_cons] at hlast
    obtain ⟨xs, mid, hs⟩ := Host.stringify_eq_value hv m
    obtain ⟨m', hc⟩ := ih hrest hlast mid
    exact ⟨m', .next hw hs hc⟩

/-! ## What is written -/

/-- The word that a call writes. -/
def Event.written? : Event ℓ ε → Option ℓ.Word
  | .call ⟨.stringify w, _, _, _⟩ => some w
  | _ => none

/-- The words that are written, in order. -/
def written (events : List (Event ℓ ε)) : List ℓ.Word := events.filterMap Event.written?

theorem written_append (xs ys : List (Event ℓ ε)) : written (xs ++ ys) = written xs ++ written ys :=
  List.filterMap_append

theorem written_heard (events : List (Event ℓ ε)) : written (heard events) = written events := by
  unfold written heard
  rw [List.filterMap_filter]
  congr 1
  funext event
  cases event <;> rfl

/-- Calls that write one object after the other, each of them the word that the call before
gave. -/
inductive Writing : ℓ.Word → List ℓ.Word → List (Event ℓ ε) → Prop
  | done {w : ℓ.Word} : Writing w [] []
  | next {w v : ℓ.Word} {vs : List ℓ.Word} {control : ControlState} {inner : List ε}
    {xs : List (Event ℓ ε)} :
    Writing v vs xs → Writing w (v :: vs) (.call ⟨.stringify w, control, inner, some v⟩ :: xs)

theorem Writing.written_eq {w : ℓ.Word} {vs : List ℓ.Word} {xs : List (Event ℓ ε)}
    (h : Writing w vs xs) : written xs = (w :: vs).dropLast := by
  induction h with
  | done => rfl
  | next _ ih => exact congrArg (_ :: ·) ih

theorem Dropping.written_eq {x : Handle ℓ} {xs : List (Event ℓ ε)} (h : Dropping x xs) :
    written xs = [] := by
  cases h <;> rfl

theorem Droppings.written_eq {ws : List ℓ.Word} {xs : List (Event ℓ ε)} (h : Droppings ws xs) :
    written xs = [] := by
  induction h with
  | done => rfl
  | next hx _ ih => rw [written_append, hx.written_eq, ih, List.append_nil]

theorem Report.written_eq {during : String} {xs : List (Event ℓ ε)} (h : Report during xs) :
    written xs = [] := by
  cases h with
  | printed hx hy =>
    cases hx with
    | read b => exact hy.written_eq
  | @unprintable _ _ _ _ _ _ _ ys zs hx hy hz =>
    cases hx with
    | thrown =>
      change written (ys ++ .log _ :: zs) = []
      rw [written_append, hy.written_eq]
      exact hz.written_eq

theorem Texting.written_eq {w : ℓ.Word} {r : Except ProjectionError String}
    {xs : List (Event ℓ ε)} (h : Texting w r xs) : written xs = [] := by
  cases h with
  | text hx =>
    cases hx with
    | read b => rfl
  | thrown hx hy =>
    cases hx with
    | thrown => exact hy.written_eq

/-- Only for an object is anything written. -/
theorem Projection.written_eq {w : ℓ.Word} {r : Except ProjectionError HostValue}
    {xs : List (Event ℓ ε)} (h : Projection w r xs) (hw : ℓ.tag? w ≠ some .object) :
    written xs = [] := by
  cases h with
  | alone _ | double _ _ | exact _ | outOfRange _ => rfl
  | text _ hx => exact hx.written_eq
  | doubleThrown _ _ hx | integerThrown _ hx => exact hx.written_eq
  | object ht _ _ _ | objectThrown ht _ _ _ => exact absurd ht hw

/-! ## The word at the end -/

/-- What the word at the end of a chain comes to. A text is read as a document. An exception is
discarded. Any other word, or a text that cannot be made, comes to what it is by itself. -/
inductive Concludes (h : Host ℓ σ ε) (z : ℓ.Word) (m : Machine σ) :
    Except ProjectionError HostValue → List (Event ℓ ε) → Prop
  | document {s : String} {xs : List (Event ℓ ε)} {m' : Machine σ} :
    ℓ.tag? z = some .string → h.toText z m = ⟨.value (.ok s), xs, m'⟩ →
    Concludes h z m ((Json.parse? s).elim (.error .json) fun d => .ok (.json d)) xs
  | exception {xs : List (Event ℓ ε)} {m' : Machine σ} :
    ℓ.tag? z = some .exception → h.discardException "JSON.stringify" m = ⟨.value (), xs, m'⟩ →
    Concludes h z m (.error (.exception "JSON.stringify")) xs
  | other {r : Except ProjectionError HostValue} {xs : List (Event ℓ ε)} {m' : Machine σ} :
    ℓ.tag? z ≠ some .exception → (∀ s, r ≠ .ok (.text s)) →
    h.project z m = ⟨.value r, xs, m'⟩ → Concludes h z m r xs

namespace Host

variable {h : Host ℓ σ ε} {z : ℓ.Word} {m m' : Machine σ}
  {r : Except ProjectionError HostValue} {xs : List (Event ℓ ε)}

theorem project_of_string (hz : ℓ.tag? z = some .string) :
    h.project z = (do return (← h.toText z).map .text) := by
  have hwith : ∀ object, h.projectWith object z = (do return (← h.toText z).map .text) := by
    intro object
    rw [projectWith, hz]
    rfl
  unfold project
  cases h.depth <;> exact hwith _

theorem resolve_concludes {depth : Nat} (hz : ℓ.tag? z ≠ some .object)
    (hr : h.resolve depth z m = ⟨.value r, xs, m'⟩) : Concludes h z m r xs := by
  by_cases hx : ℓ.tag? z = some .exception
  · rw [resolve_of_exception hx] at hr
    obtain ⟨u, ys, mid, zs, hd, he, rfl⟩ := Action.bind_eq_value hr
    cases he
    rw [List.append_nil]
    exact .exception hx hd
  · rw [resolve_of_not_exception hx, projectWithin_depth hz depth h.depth] at hr
    obtain ⟨a, ys, mid, zs, hp, he, rfl⟩ := Action.bind_eq_value hr
    cases he
    rw [List.append_nil]
    change h.project z m = _ at hp
    by_cases hs : ℓ.tag? z = some .string
    · -- The text is made first. Where this fails, the failure is what the word comes to.
      have ht := hp
      rw [project_of_string hs] at ht
      obtain ⟨t, us, mid', vs, ht, he, rfl⟩ := Action.bind_eq_value ht
      cases he
      cases t with
      | ok s =>
        rw [List.append_nil]
        exact .document hs ht
      | error cause => exact .other hx nofun hp
    · have hne := (h.project_returns z m a ys _ hp).2.ne_text hs
      rw [bind_document_eq_self hne]
      exact .other hx hne hp

end Host

namespace Concludes

variable {h : Host ℓ σ ε} {z : ℓ.Word} {m : Machine σ} {r : Except ProjectionError HostValue}
  {xs : List (Event ℓ ε)}

/-- Nothing is written for the last word. What the engine hands out for it is given back. -/
theorem keeps_to_itself (hc : Concludes h z m r xs) (hz : ℓ.tag? z ≠ some .object) :
    written xs = [] ∧ HandsBack [] (heard xs) [] := by
  rw [← written_heard]
  cases hc with
  | document _ ht =>
    have hx := (h.toText_returns z m _ xs _ ht).2
    exact ⟨hx.written_eq, (hx.orderly []).handsBack⟩
  | exception _ hd =>
    have hx := (h.discardException_returns _ m _ xs _ hd).2
    exact ⟨hx.written_eq, (hx.orderly []).handsBack⟩
  | other _ _ hp =>
    have hx := (h.project_returns z m r xs _ hp).2
    exact ⟨hx.written_eq hz, (hx.orderly []).handsBack⟩

theorem resolve_eq (hc : Concludes h z m r xs) :
    ∃ m', h.resolve h.depth z m = ⟨.value r, xs, m'⟩ := by
  cases hc with
  | @document s _ m' hz ht =>
    rw [Host.resolve_of_not_exception (by simp [hz])]
    refine ⟨m', (Action.map_eq (h.project z) _ m).trans ?_⟩
    rw [Host.project_of_string hz, Action.map_eq, ht]
    rfl
  | @exception _ m' hz hd =>
    rw [Host.resolve_of_exception hz]
    refine ⟨m', (Action.bind_eq_after hd).trans ?_⟩
    exact congrArg (Outcome.mk _ · m') (List.append_nil xs)
  | @other _ _ m' hz hne hp =>
    rw [Host.resolve_of_not_exception hz]
    refine ⟨m', (Action.map_eq_self fun a ys mid ha => ?_).trans hp⟩
    cases (show h.project z m = _ from ha).symm.trans hp
    exact Host.bind_document_eq_self hne

/-- The last word alone decides, together with the machine on which it is met. -/
theorem unique {r' : Except ProjectionError HostValue} {xs' : List (Event ℓ ε)}
    (hc : Concludes h z m r xs) (hc' : Concludes h z m r' xs') : r' = r ∧ xs' = xs := by
  obtain ⟨_, hr⟩ := hc.resolve_eq
  obtain ⟨_, hr'⟩ := hc'.resolve_eq
  cases hr.symm.trans hr'
  exact ⟨rfl, rfl⟩

theorem of_undefined (hc : Concludes h z m r xs) (hz : ℓ.tag? z = some .undefined) :
    r = .ok .null := by
  cases hc with
  | document ht _ | exception ht _ => exact nomatch hz.symm.trans ht
  | other _ _ hp =>
    rw [h.project_alone (by rw [Layout.alone?, hz])] at hp
    cases hp
    rfl

end Concludes

/-! ## Along a chain -/

/-- What is written along a chain comes first. What comes of its first word is then what
comes of the last one, in the scopes of all those in between. -/
theorem Chain.resolve_eq_after {h : Host ℓ σ ε} {m m' : Machine σ} {w z : ℓ.Word}
    {vs : List ℓ.Word} (hc : Chain h m w vs z m') {depth : Nat} (hd : vs.length ≤ depth) :
    ∃ xs, Writing w vs (heard xs) ∧ h.resolve depth w m =
      (Handle.withinAll h vs (h.resolve h.depth z) m').after xs := by
  -- Each object takes one off the depth, and the last word does not look at what is left of it.
  induction hc generalizing depth with
  | @last m w hw =>
    rw [Host.resolve_depth hw depth h.depth]
    exact ⟨[], .done, rfl⟩
  | @next m mid m' w v z vs ys hw hs hrest ih =>
    obtain ⟨_, ⟨control, inner, hy⟩⟩ := h.stringify_hears w m ⟨v⟩ ys mid hs
    cases depth with
    | zero => exact absurd hd (Nat.not_succ_le_zero _)
    | succ depth =>
      obtain ⟨xs, hx, he⟩ := ih (Nat.le_of_succ_le_succ hd)
      refine ⟨ys ++ xs, ?_, ?_⟩
      · rw [heard_append, hy]
        exact .next hx
      · rw [Host.resolve_of_object hw, Host.projectWithin_eq_after hw hs, Handle.within,
          Action.ensuring_eq_after he, Outcome.after_after]
        rfl

/-- A chain that is longer than the projection can go down ends nowhere. -/
theorem Chain.resolve_aborts {h : Host ℓ σ ε} {m m' : Machine σ} {w z : ℓ.Word}
    {vs : List ℓ.Word} (hc : Chain h m w vs z m') {depth : Nat} (hd : depth < vs.length) :
    (h.resolve depth w m).ending = .aborted := by
  induction hc generalizing depth with
  | last _ => exact absurd hd (Nat.not_lt_zero _)
  | next hw hs _ ih =>
    rw [Host.resolve_of_object hw]
    cases depth with
    | zero =>
      rw [Host.projectWithin, Host.projectWith, hw]
      rfl
    | succ depth =>
      rw [Host.projectWithin_eq_after hw hs]
      exact Action.ensuring_aborted (ih (Nat.lt_of_succ_lt_succ hd))

/-- The host aborts where more objects are written for each other than it can go down to. -/
theorem Chain.project_aborts {h : Host ℓ σ ε} {m m' : Machine σ} {w z : ℓ.Word}
    {vs : List ℓ.Word} (hc : Chain h m w vs z m') (hw : ℓ.tag? w = some .object)
    (hd : h.depth < vs.length) : (h.project w m).ending = .aborted := by
  have ha := hc.resolve_aborts hd
  rwa [Host.resolve_of_object hw] at ha

/-! ## Parcels -/

/-- The word of a parcel with so many parcels in each other and a text in the innermost one. -/
def Layout.parcel (ℓ : Layout) : Nat → ℓ.Word
  | 0 => ℓ.assemble .string 16
  | n + 1 => ℓ.assemble .object (UInt64.ofNat (16 * (n + 2)))

/-- An engine that writes each parcel as the one inside it. The innermost text is JSON. -/
def Engine.parcels (ℓ : Layout) : Engine ℓ σ ε where
  answer
    | .stringify w => fun m =>
      let v := ℓ.parcel ((ℓ.payload w).toNat / 16 - 2)
      ⟨.value v, [], m.retain ℓ v⟩
    | .toText w => fun m => ⟨.value (some ⟨ℓ.payload w, Utf8.encode "true"⟩), [], m⟩
    | .freeText _ => fun m => ⟨.value (), [], m⟩
    | .freeValue _ => fun m => ⟨.value (), [], m⟩
    | .takeException => fun m => ⟨.value (ℓ.immediate .undefined 0), [], m⟩
    | .parse _ => fun m => ⟨.value (ℓ.immediate .null 0), [], m⟩
    | .newText _ => fun m => ⟨.value (ℓ.immediate .null 0), [], m⟩
    | .eval _ _ => fun m => ⟨.value (ℓ.immediate .null 0), [], m⟩
    | .toDouble _ => fun m => ⟨.value none, [], m⟩
    | .toBigInteger _ => fun m => ⟨.value .outOfRange, [], m⟩

/-! ## The law -/

namespace Host

variable {h : Host ℓ σ ε}

theorem resolve_completes (hr : h.engine.Replies) {z : ℓ.Word} (hz : ℓ.tag? z ≠ some .object)
    (depth : Nat) : Completes (h.resolve depth z) := by
  have hproject : Completes (h.projectWithin depth z) := by
    rw [projectWithin_depth hz depth 0]
    exact .of_ends (projectWith_ends hr z fun ht => absurd ht hz)
  unfold resolve
  split
  · exact fail_completes hr _ _
  · exact hproject.map _

/-- However many objects are written for each other, if the host can go down so far, the first of
them goes over as what the word at the end comes to, and how many there are makes no difference to
that. Each object is written once, in order. The words that are written for them are given back in
the opposite order, also where the engine unwinds. Nothing else is given back but what the engine
hands out for the last word. -/
theorem objects_project_as_the_end_of_their_chain {m m' : Machine σ} {w z : ℓ.Word}
    {vs : List ℓ.Word} (hc : Chain h m w vs z m') (hw : ℓ.tag? w = some .object)
    (hd : vs.length ≤ h.depth) :
    (h.engine.Replies → ∃ r, (h.project w m).ending = .value r) ∧
    ((h.project w m).ending ≠ .aborted → vs.reverse <:+ released (h.project w m).events) ∧
    ∀ r events last, h.project w m = ⟨.value r, events, last⟩ →
      Path h.engine m events last ∧ written events = (w :: vs).dropLast ∧
      (ℓ.tag? z = some .undefined → r = .ok .null) ∧
      ∃ writing middle closing, events = writing ++ middle ++ closing ∧
        Writing w vs (heard writing) ∧
        Concludes h z m' r middle ∧
        (∀ r' middle', Concludes h z m' r' middle' → r' = r ∧ middle' = middle) ∧
        HandsBack [] (heard middle) [] ∧ Droppings vs.reverse (heard closing) := by
  have hz := hc.last_ne_object
  obtain ⟨writing, hwriting, heq⟩ := hc.resolve_eq_after hd
  rw [resolve_of_object hw] at heq
  change h.project w m = _ at heq
  refine ⟨fun hr => ?_, fun hne => ?_, fun r events last hr => ?_⟩
  · obtain ⟨r, hr⟩ := Handle.withinAll_completes hr (resolve_completes hr hz h.depth) vs m'
    exact ⟨r, by rw [heq]; exact hr⟩
  · rw [heq] at hne ⊢
    change _ <:+ released (writing ++ _)
    rw [released_append, Handle.released_withinAll hne, ← List.append_assoc]
    exact List.suffix_append _ _
  · have hpath := (h.project_returns w m r events last hr).1
    rw [heq] at hr
    obtain ⟨rest, hrest, rfl⟩ := Outcome.after_eq_value hr
    obtain ⟨middle, mid, closing, hm, rfl, hclosing⟩ := Handle.withinAll_eq_value hrest
    have hconcludes := resolve_concludes hz hm
    obtain ⟨hwritten, hback⟩ := hconcludes.keeps_to_itself hz
    refine ⟨hpath, ?_, hconcludes.of_undefined, writing, middle, closing,
      (List.append_assoc _ _ _).symm, hwriting, hconcludes, fun _ _ => hconcludes.unique, hback,
      hclosing⟩
    rw [written_append, written_append, hwritten, ← written_heard writing,
      ← written_heard closing, hwriting.written_eq, hclosing.written_eq, List.append_nil,
      List.append_nil]

end Host

/-- A parcel in a parcel goes over as the document that the text in it is. The text and the
inner parcel are given back. -/
theorem parcels_project_as_their_text :
    ∃ events last writing middle closing,
      (Host.project ⟨Engine.parcels .boxed, .standard, 2⟩ (Layout.boxed.parcel 2) :
          Exchange .boxed Bool Unit _) .fresh =
        ⟨.value (.ok (.json (.bool true))), events, last⟩ ∧
      written events = [Layout.boxed.parcel 2, Layout.boxed.parcel 1] ∧
      events = writing ++ middle ++ closing ∧
      Droppings [Layout.boxed.parcel 0, Layout.boxed.parcel 1] (heard closing) := by
  obtain ⟨m', hc⟩ : ∃ m', Chain ⟨Engine.parcels .boxed, .standard, 2⟩ .fresh
      (Layout.boxed.parcel 2) [Layout.boxed.parcel 1, Layout.boxed.parcel 0]
      (Layout.boxed.parcel 0) m' :=
    exists_chain (.cons_cons ⟨rfl, fun _ => rfl⟩ (.cons_cons ⟨rfl, fun _ => rfl⟩ (.singleton _)))
      rfl (by decide) .fresh
  obtain ⟨-, -, hrun⟩ :=
    Host.objects_project_as_the_end_of_their_chain (ε := Unit) hc rfl (by decide)
  obtain ⟨-, hwritten, -, writing, middle, closing, he, -, -, -, -, hd⟩ := hrun _ _ _ rfl
  exact ⟨_, _, writing, middle, closing, rfl, hwritten, he, hd⟩

end ScriptHost
