-- Disciplines: what can be said of the events of an exchange however it ends, be it that it
-- returns, unwinds or aborts. What holds of every single thing that a host does, and of things
-- in a row, holds of every exchange and of every session.
import ScriptHost.Exchange.Session

namespace ScriptHost

variable {ℓ : Layout} {σ ε α β : Type}

/-! ## Disciplines -/

/-- A property of what is done to a machine. `whole` is about an exchange after which the host
goes on, and `cut` about one that aborts. -/
structure Discipline (ℓ : Layout) (σ ε : Type) where
  whole : Machine σ → List (Event ℓ ε) → Machine σ → Prop
  cut : Machine σ → List (Event ℓ ε) → Prop
  nil : ∀ m, whole m [] m
  append : ∀ {m mid last xs ys}, whole m xs mid → whole mid ys last → whole m (xs ++ ys) last
  append_cut : ∀ {m mid xs ys}, whole m xs mid → cut mid ys → cut m (xs ++ ys)
  cut_of_whole : ∀ {m m' xs}, whole m xs m' → cut m xs

namespace Discipline

variable {d : Discipline ℓ σ ε}

/-- What an exchange has come to, seen from where it began. -/
def Admits (d : Discipline ℓ σ ε) (m : Machine σ) : Outcome (Machine σ) (Event ℓ ε) α → Prop
  | ⟨.value _, xs, m'⟩ => d.whole m xs m'
  | ⟨.unwound, xs, m'⟩ => d.whole m xs m'
  | ⟨.aborted, xs, _⟩ => d.cut m xs

/-- An exchange that keeps to the discipline from every machine. -/
def Keeps (d : Discipline ℓ σ ε) (body : Exchange ℓ σ ε α) : Prop := ∀ m, d.Admits m (body m)

theorem Admits.cut {m : Machine σ} {out : Outcome (Machine σ) (Event ℓ ε) α}
    (h : d.Admits m out) : d.cut m out.events := by
  obtain ⟨ending, xs, m'⟩ := out
  cases ending with
  | value a => exact d.cut_of_whole h
  | unwound => exact d.cut_of_whole h
  | aborted => exact h

theorem Admits.whole {m : Machine σ} {out : Outcome (Machine σ) (Event ℓ ε) α}
    (h : d.Admits m out) (hend : out.ending ≠ .aborted) : d.whole m out.events out.state := by
  obtain ⟨ending, xs, m'⟩ := out
  cases ending with
  | value a => exact h
  | unwound => exact h
  | aborted => exact absurd rfl hend

/-- What goes before an outcome is put in front of its events. -/
theorem Admits.prepend {m mid : Machine σ} {xs : List (Event ℓ ε)}
    {out : Outcome (Machine σ) (Event ℓ ε) α} (hx : d.whole m xs mid) (h : d.Admits mid out) :
    d.Admits m ⟨out.ending, xs ++ out.events, out.state⟩ := by
  obtain ⟨ending, ys, m'⟩ := out
  cases ending with
  | value a => exact d.append hx h
  | unwound => exact d.append hx h
  | aborted => exact d.append_cut hx h

namespace Keeps

variable {body : Exchange ℓ σ ε α}

/-- An exchange that is whole however it ends. -/
theorem of_whole (h : ∀ m, d.whole m (body m).events (body m).state) : d.Keeps body := by
  intro m
  have hm := h m
  cases hb : body m with
  | mk ending xs m' =>
    rw [hb] at hm
    cases ending with
    | value a => exact hm
    | unwound => exact hm
    | aborted => exact d.cut_of_whole hm

theorem pure (a : α) : d.Keeps (Pure.pure a : Exchange ℓ σ ε α) := fun m => d.nil m

theorem abort : d.Keeps (Action.abort : Exchange ℓ σ ε α) := fun m => d.cut_of_whole (d.nil m)

theorem bind {f : α → Exchange ℓ σ ε β} (h : d.Keeps body) (hf : ∀ a, d.Keeps (f a)) :
    d.Keeps (body >>= f) := by
  intro m
  show d.Admits m (Action.bind body f m)
  unfold Action.bind
  have hm := h m
  cases hb : body m with
  | mk ending xs m' =>
    rw [hb] at hm
    cases ending with
    | value a => exact Admits.prepend hm (hf a m')
    | unwound => exact hm
    | aborted => exact hm

theorem map (h : d.Keeps body) (f : α → β) :
    d.Keeps (do return f (← body) : Exchange ℓ σ ε β) := h.bind fun _ => pure _

/-- A cleanup runs after a body that goes on. Where both unwind, the whole aborts. -/
theorem ensuring {cleanup : Exchange ℓ σ ε Unit} (h : d.Keeps body) (hc : d.Keeps cleanup) :
    d.Keeps (body.ensuring cleanup) := by
  intro m
  unfold Action.ensuring
  have hm := h m
  cases hb : body m with
  | mk ending xs m' =>
    rw [hb] at hm
    cases ending with
    | value a =>
      have hlast := Admits.prepend hm (hc m')
      cases hn : cleanup m' with
      | mk ending ys m'' =>
        rw [hn] at hlast
        simp only [hn]
        cases ending <;> exact hlast
    | unwound =>
      have hlast := Admits.prepend hm (hc m')
      cases hn : cleanup m' with
      | mk ending ys m'' =>
        rw [hn] at hlast
        simp only [hn]
        cases ending with
        | value u => exact hlast
        | unwound => exact hlast.cut
        | aborted => exact hlast
    | aborted => exact hm

theorem count? (w : ℓ.Word) : d.Keeps (Exchange.count? w) := fun m => d.nil m

theorem onHandle {s : Slots ℓ} {slot : Nat}
    {f : Handle ℓ → Exchange ℓ σ ε (Answer ℓ × Slots ℓ)} (hf : ∀ x, d.Keeps (f x)) :
    d.Keeps (Operation.onHandle s slot f) := by
  unfold Operation.onHandle
  split
  · exact hf _
  · exact pure _

/-- A text coerced, where each of the three steps keeps to the discipline by itself. -/
theorem coerceText? {h : Host ℓ σ ε} {w : ℓ.Word} (ht : d.Keeps (h.askMasked (.toText w)))
    (hread : ∀ m b, d.whole m [.read b] m) (hfree : ∀ b, d.Keeps (h.ask (.freeText b))) :
    d.Keeps (h.coerceText? w) := by
  apply ht.bind
  intro text
  cases text with
  | none => exact pure _
  | some b =>
    have hb : d.Keeps (Action.emit (.read b) : Exchange ℓ σ ε Unit) := fun m => hread m b
    exact ((hb.map _).ensuring (hfree b)).map _

end Keeps

/-- A host each of whose doings is in order: the references that it takes and gives back, its
records, its calls, and the texts that it reads from buffers of the engine. -/
structure Heeds (d : Discipline ℓ σ ε) (h : Host ℓ σ ε) : Prop where
  retain : ∀ m (w : ℓ.Word), d.whole m [.retain w] (m.retain ℓ w)
  release : ∀ m (w : ℓ.Word),
    d.whole m [.release w ((m.release ℓ w).count? ℓ w)] (m.release ℓ w)
  log : ∀ m r, d.whole m [.log r] m
  freeValue : ∀ w, d.Keeps (h.ask (.freeValue w))
  takeException : d.Keeps (h.ask .takeException)
  newText : ∀ text, d.Keeps (h.ask (.newText text))
  coerceText? : ∀ w, d.Keeps (h.coerceText? w)
  eval : ∀ source file, d.Keeps (h.askMasked (.eval source file))
  parse : ∀ text, d.Keeps (h.askMasked (.parse text))
  stringify : ∀ w, d.Keeps (h.askMasked (.stringify w))
  toDouble : ∀ w, d.Keeps (h.askMasked (.toDouble w))
  toBigInteger : ∀ w, d.Keeps (h.askMasked (.toBigInteger w))

/-! ## Every exchange of such a host -/

namespace Heeds

variable {h : Host ℓ σ ε} (hd : d.Heeds h)
include hd

theorem keeps_log (level : Level) (text : String) : d.Keeps (Exchange.log level text) :=
  fun m => hd.log m _

theorem keeps_retain (w : ℓ.Word) : d.Keeps (Exchange.retain w) := fun m => hd.retain m w

theorem keeps_release (w : ℓ.Word) : d.Keeps (Exchange.release w) := fun m => hd.release m w

theorem keeps_drop (x : Handle ℓ) : d.Keeps (x.drop h) := by
  apply (hd.keeps_release x.word).bind
  intro last
  split
  · exact (hd.keeps_log _ _).bind fun _ => hd.freeValue x.word
  · exact Keeps.pure _

theorem keeps_within (x : Handle ℓ) {body : Exchange ℓ σ ε α} (hb : d.Keeps body) :
    d.Keeps (x.within h body) := hb.ensuring (hd.keeps_drop x)

/-! ### Texts and exceptions -/

theorem keeps_takeException : d.Keeps h.takeException := hd.takeException.map _

theorem keeps_discardException (during : String) : d.Keeps (h.discardException during) := by
  apply hd.keeps_takeException.bind
  intro thrown
  apply hd.keeps_within
  apply (hd.coerceText? thrown.word).bind
  intro message
  cases message with
  | none =>
    apply hd.keeps_takeException.bind
    intro second
    exact (hd.keeps_drop second).bind fun _ => hd.keeps_log _ _
  | some s => exact hd.keeps_log _ _

theorem keeps_fail (during : String) (cause : ProjectionError) :
    d.Keeps (h.fail (α := α) during cause) := (hd.keeps_discardException during).map _

theorem keeps_toText (w : ℓ.Word) : d.Keeps (h.toText w) := by
  apply (hd.coerceText? w).bind
  intro text
  cases text with
  | none => exact (hd.keeps_discardException _).map _
  | some s => exact Keeps.pure _

theorem keeps_toUnits (w : ℓ.Word) : d.Keeps (h.toUnits w) := (hd.keeps_toText w).map _

theorem keeps_newText (text : String) : d.Keeps (h.newText text) := (hd.newText text).map _

theorem keeps_newUnits (units : List UInt16) : d.Keeps (h.newUnits units) := by
  unfold Host.newUnits
  split
  · exact (hd.keeps_newText _).map _
  · exact Keeps.pure _

/-! ### Calls -/

theorem keeps_eval (source file : String) : d.Keeps (h.eval source file) :=
  (hd.eval source file).map _

theorem keeps_parse (text : String) : d.Keeps (h.parse text) := (hd.parse text).map _

theorem keeps_stringify (w : ℓ.Word) : d.Keeps (h.stringify w) := (hd.stringify w).map _

/-! ### Projections -/

theorem keeps_projectDouble (t : Tag) (w : ℓ.Word) : d.Keeps (h.projectDouble t w) := by
  apply Keeps.bind (hd.toDouble w)
  intro number
  cases number with
  | none => exact hd.keeps_fail _ _
  | some n => exact Keeps.pure _

theorem keeps_projectBigInteger (t : Tag) (w : ℓ.Word) : d.Keeps (h.projectBigInteger t w) := by
  apply Keeps.bind (hd.toBigInteger w)
  intro number
  cases number with
  | exact n => exact Keeps.pure _
  | outOfRange => exact Keeps.pure _
  | threw => exact hd.keeps_fail _ _

theorem keeps_projectObject
    {inner : ℓ.Word → Exchange ℓ σ ε (Except ProjectionError HostValue)}
    (hi : ∀ v, d.Keeps (inner v)) (w : ℓ.Word) : d.Keeps (h.projectObject inner w) := by
  apply (hd.keeps_stringify w).bind
  intro written
  split
  · exact hd.keeps_within written (hd.keeps_fail _ _)
  · exact (hd.keeps_within written (hi written.word)).map _

theorem keeps_projectWith
    {object : ℓ.Word → Exchange ℓ σ ε (Except ProjectionError HostValue)}
    (ho : ∀ v, d.Keeps (object v)) (w : ℓ.Word) : d.Keeps (h.projectWith object w) := by
  unfold Host.projectWith
  split
  · rename_i t _
    cases t with
    | string => exact (hd.keeps_toText w).map _
    | bigFloat => exact hd.keeps_projectDouble _ w
    | bigDecimal => exact hd.keeps_projectDouble _ w
    | bigInt => exact hd.keeps_projectBigInteger _ w
    | object => exact ho w
    | _ => exact Keeps.pure _
  · exact Keeps.pure _

theorem keeps_projectWithin (depth : Nat) (w : ℓ.Word) : d.Keeps (h.projectWithin depth w) := by
  induction depth generalizing w with
  | zero => exact hd.keeps_projectWith (fun _ => Keeps.abort) w
  | succ depth ih => exact hd.keeps_projectWith (hd.keeps_projectObject ih) w

theorem keeps_project (w : ℓ.Word) : d.Keeps (h.project w) := hd.keeps_projectWithin h.depth w

theorem keeps_projectOwned (x : Handle ℓ) : d.Keeps (h.projectOwned x) :=
  hd.keeps_within x (hd.keeps_project x.word)

theorem keeps_checked (during : String) (x : Handle ℓ) : d.Keeps (h.checked during x) := by
  unfold Host.checked
  split
  · exact hd.keeps_within x (hd.keeps_fail _ _)
  · exact Keeps.pure _

theorem keeps_embed (v : HostValue) : d.Keeps (h.embed v) := by
  cases v with
  | text s => exact (hd.keeps_newText s).bind fun x => hd.keeps_checked _ x
  | json v => exact (hd.keeps_parse v.text).bind fun x => hd.keeps_checked _ x
  | _ => exact Keeps.pure _

/-! ### Sessions -/

theorem keeps_run (s : Slots ℓ) (op : Operation ℓ) : d.Keeps (op.run h s) := by
  cases op with
  | own w => exact Keeps.pure _
  | immediate w => exact Keeps.pure _
  | clone slot => exact Keeps.onHandle fun x => ((hd.keeps_retain x.word).map _).map _
  | drop slot => exact Keeps.onHandle fun x => (hd.keeps_drop x).map _
  | intoWord slot => exact Keeps.onHandle fun x => Keeps.pure _
  | inspect slot => exact Keeps.onHandle fun x => ((Keeps.count? x.word).map _).map _
  | retain w => exact (hd.keeps_retain w).map _
  | release w => exact (hd.keeps_release w).map _
  | count w => exact (Keeps.count? w).map _
  | project w => exact (hd.keeps_project w).map _
  | projectOwned slot => exact Keeps.onHandle fun x => (hd.keeps_projectOwned x).map _
  | embed v => exact (hd.keeps_embed v).map _
  | toText w => exact (hd.keeps_toText w).map _
  | toUnits w => exact (hd.keeps_toUnits w).map _
  | newText text => exact (hd.keeps_newText text).map _
  | newUnits units => exact (hd.keeps_newUnits units).map _
  | eval source file => exact (hd.keeps_eval source file).map _
  | parse text => exact (hd.keeps_parse text).map _
  | stringify w => exact (hd.keeps_stringify w).map _
  | takeException => exact hd.keeps_takeException.map _
  | toDouble w => exact (hd.toDouble w).map _
  | toBigInteger w => exact (hd.toBigInteger w).map _

theorem keeps_runAll (s : Slots ℓ) (ops : List (Operation ℓ)) :
    d.Keeps (Operation.runAll h s ops) := by
  induction ops generalizing s with
  | nil => exact Keeps.pure _
  | cons op ops ih => exact (hd.keeps_run s op).bind fun p => (ih p.2).map _

theorem keeps_closeAll (s : Slots ℓ) : d.Keeps (Operation.closeAll h s) := by
  unfold Operation.closeAll
  induction s with
  | nil => exact Keeps.pure _
  | cons slot s ih =>
    apply Keeps.bind _ fun _ => ih
    cases slot with
    | none => exact Keeps.pure _
    | some x => exact hd.keeps_drop x

end Heeds

end Discipline

end ScriptHost
