-- Two hosts in lockstep. Their engines use different layouts and answer alike, and then
-- every exchange with the one goes as it does with the other.
import ScriptHost.Proofs.Exchange.Likeness

namespace ScriptHost

variable {ℓ₁ ℓ₂ : Layout} {σ₁ σ₂ ε₁ ε₂ α₁ α₂ : Type}

/-- Two results of one kind: handles on alike words, or equal errors. -/
inductive Embedded : Except ProjectionError (Handle ℓ₁) → Except ProjectionError (Handle ℓ₂) → Prop
  | ok {x₁ : Handle ℓ₁} {x₂ : Handle ℓ₂} : Alike x₁.word x₂.word → Embedded (.ok x₁) (.ok x₂)
  | error (cause : ProjectionError) : Embedded (.error cause) (.error cause)

/-! ## Exchanges with an engine -/

namespace Likeness.Hosts

variable {K : Likeness σ₁ σ₂} {h₁ : Host ℓ₁ σ₁ ε₁} {h₂ : Host ℓ₂ σ₂ ε₂} (hh : K.Hosts h₁ h₂)
include hh

theorem ask (r₁ : Request ℓ₁) (r₂ : Request ℓ₂) (hr : K.Requests r₁ r₂) :
    K.Lockstep (K.Replies r₁ r₂) (h₁.ask r₁) (h₂.ask r₂) := by
  intro m₁ m₂ hm
  obtain ⟨hend, hstate⟩ := hh.engines r₁ r₂ hr m₁ m₂ hm
  refine ⟨hend, .cons ?_ .nil, hstate⟩
  show K.Events (.call ⟨r₁, m₁.control, _, _⟩) (.call ⟨r₂, m₂.control, _, _⟩)
  rw [hm.control]
  exact .call hr hend.value?

theorem askMasked (r₁ : Request ℓ₁) (r₂ : Request ℓ₂) (hr : K.Requests r₁ r₂) :
    K.Lockstep (K.Replies r₁ r₂) (h₁.askMasked r₁) (h₂.askMasked r₂) := by
  unfold Host.askMasked
  rw [hh.settings]
  exact withMasked_lockstep h₂.settings (hh.ask r₁ r₂ hr)

/-- Two handles on alike words, dropped. -/
theorem drop {x₁ : Handle ℓ₁} {x₂ : Handle ℓ₂} (hx : Alike x₁.word x₂.word) :
    K.Lockstep (fun _ _ => True) (x₁.drop h₁) (x₂.drop h₂) := by
  refine (release_lockstep hx).bind ?_
  rintro last _ ⟨rfl, hc⟩
  by_cases hlast : last = true
  · have htext : x₁.freeing = x₂.freeing := by
      unfold Handle.freeing Handle.tag?
      rw [hx.tag?_eq, hx.payload_eq (hc hlast)]
    rw [if_pos hlast, if_pos hlast, htext]
    exact (log_lockstep .trace x₂.freeing).bind fun _ _ _ =>
      hh.ask (.freeValue x₁.word) (.freeValue x₂.word) ⟨hx, hc hlast⟩
  · rw [if_neg hlast, if_neg hlast]
    exact .pure trivial

theorem within {A : α₁ → α₂ → Prop} {x₁ : Handle ℓ₁} {x₂ : Handle ℓ₂}
    {body₁ : Exchange ℓ₁ σ₁ ε₁ α₁} {body₂ : Exchange ℓ₂ σ₂ ε₂ α₂}
    (hx : Alike x₁.word x₂.word) (h : K.Lockstep A body₁ body₂) :
    K.Lockstep A (x₁.within h₁ body₁) (x₂.within h₂ body₂) := h.ensuring (hh.drop hx)

/-! ## Texts and exceptions -/

theorem readBuffer {b₁ b₂ : Buffer} (hb : K.buffers b₁ b₂) :
    K.Lockstep Eq (h₁.readBuffer b₁) (h₂.readBuffer b₂) := by
  refine Lockstep.ensuring (U := fun _ _ => True) ?_
    (hh.ask (.freeText b₁) (.freeText b₂) hb)
  refine Lockstep.bind (A := fun _ _ => True)
    (fun _ _ hm => ⟨.value trivial, .cons (.read hb) .nil, hm⟩) fun _ _ _ => .pure ?_
  rw [K.bytes hb]

theorem coerceText? {w₁ : ℓ₁.Word} {w₂ : ℓ₂.Word} (hw : Alike w₁ w₂) :
    K.Lockstep Eq (h₁.coerceText? w₁) (h₂.coerceText? w₂) := by
  refine (hh.askMasked (.toText w₁) (.toText w₂) hw).bind ?_
  intro b₁ b₂ hb
  cases hb with
  | none => exact .pure rfl
  | some hb => exact (hh.readBuffer hb).map fun _ _ => congrArg some

theorem takeException :
    K.Lockstep (fun x₁ x₂ => Alike x₁.word x₂.word) h₁.takeException h₂.takeException :=
  (hh.ask .takeException .takeException trivial).map fun _ _ hw => hw

theorem discardException (during : String) :
    K.Lockstep (fun _ _ => True) (h₁.discardException during) (h₂.discardException during) := by
  refine hh.takeException.bind fun x₁ x₂ hx => hh.within hx ?_
  refine (hh.coerceText? hx).bind ?_
  rintro message _ rfl
  cases message with
  | none =>
    refine hh.takeException.bind fun y₁ y₂ hy => (hh.drop hy).bind fun _ _ _ => ?_
    exact log_lockstep _ _
  | some s => exact log_lockstep _ _

theorem fail {A : Except ProjectionError α₁ → Except ProjectionError α₂ → Prop} (during : String)
    {cause : ProjectionError} (ha : A (.error cause) (.error cause)) :
    K.Lockstep A (h₁.fail during cause) (h₂.fail during cause) :=
  (hh.discardException during).map fun _ _ _ => ha

theorem toText {w₁ : ℓ₁.Word} {w₂ : ℓ₂.Word} (hw : Alike w₁ w₂) :
    K.Lockstep Eq (h₁.toText w₁) (h₂.toText w₂) := by
  refine (hh.coerceText? hw).bind ?_
  rintro text _ rfl
  cases text with
  | none => exact (hh.discardException _).map fun _ _ _ => rfl
  | some s => exact .pure rfl

theorem toUnits {w₁ : ℓ₁.Word} {w₂ : ℓ₂.Word} (hw : Alike w₁ w₂) :
    K.Lockstep Eq (h₁.toUnits w₁) (h₂.toUnits w₂) :=
  (hh.toText hw).map fun _ _ => congrArg _

/-! ## Projections -/

theorem stringify {w₁ : ℓ₁.Word} {w₂ : ℓ₂.Word} (hw : Alike w₁ w₂) :
    K.Lockstep (fun x₁ x₂ => Alike x₁.word x₂.word) (h₁.stringify w₁) (h₂.stringify w₂) :=
  (hh.askMasked (.stringify w₁) (.stringify w₂) hw).map fun _ _ hv => hv

theorem projectDouble (t : Tag) {w₁ : ℓ₁.Word} {w₂ : ℓ₂.Word} (hw : Alike w₁ w₂) :
    K.Lockstep Eq (h₁.projectDouble t w₁) (h₂.projectDouble t w₂) := by
  refine (hh.askMasked (.toDouble w₁) (.toDouble w₂) hw).bind ?_
  rintro d _ rfl
  cases d with
  | none => exact hh.fail _ rfl
  | some d => exact .pure rfl

theorem projectBigInteger (t : Tag) {w₁ : ℓ₁.Word} {w₂ : ℓ₂.Word} (hw : Alike w₁ w₂) :
    K.Lockstep Eq (h₁.projectBigInteger t w₁) (h₂.projectBigInteger t w₂) := by
  refine (hh.askMasked (.toBigInteger w₁) (.toBigInteger w₂) hw).bind ?_
  rintro n _ rfl
  cases n with
  | exact n => exact .pure rfl
  | outOfRange => exact .pure rfl
  | threw => exact hh.fail _ rfl

theorem projectObject {inner₁ : ℓ₁.Word → Exchange ℓ₁ σ₁ ε₁ (Except ProjectionError HostValue)}
    {inner₂ : ℓ₂.Word → Exchange ℓ₂ σ₂ ε₂ (Except ProjectionError HostValue)}
    (hi : ∀ v₁ v₂, Alike v₁ v₂ → K.Lockstep Eq (inner₁ v₁) (inner₂ v₂)) {w₁ : ℓ₁.Word}
    {w₂ : ℓ₂.Word} (hw : Alike w₁ w₂) :
    K.Lockstep Eq (h₁.projectObject inner₁ w₁) (h₂.projectObject inner₂ w₂) := by
  refine (hh.stringify hw).bind fun x₁ x₂ hx => ?_
  have he : x₁.isException = x₂.isException := hx.isException_eq
  rw [he]
  split
  · exact hh.within hx (hh.fail _ rfl)
  · exact (hh.within hx (hi _ _ hx)).map fun _ _ hr => congrArg (Except.bind · Host.document) hr

/-- Alike words are projected alike, if objects are. -/
theorem projectWith {object₁ : ℓ₁.Word → Exchange ℓ₁ σ₁ ε₁ (Except ProjectionError HostValue)}
    {object₂ : ℓ₂.Word → Exchange ℓ₂ σ₂ ε₂ (Except ProjectionError HostValue)} {w₁ : ℓ₁.Word}
    {w₂ : ℓ₂.Word} (ho : K.Lockstep Eq (object₁ w₁) (object₂ w₂)) (hw : Alike w₁ w₂) :
    K.Lockstep Eq (h₁.projectWith object₁ w₁) (h₂.projectWith object₂ w₂) := by
  obtain ⟨t, ht₁, ht₂, -⟩ := hw.select_eq
  unfold Host.projectWith
  rw [ht₁, ht₂]
  cases t with
  | string => exact (hh.toText hw).map fun _ _ => congrArg _
  | int => exact .pure (by rw [hw.int32_eq ht₁])
  | bool => exact .pure (by rw [hw.bool_eq ht₁])
  | float64 => exact .pure (by rw [hw.double_eq ht₁])
  | bigFloat => exact hh.projectDouble _ hw
  | bigDecimal => exact hh.projectDouble _ hw
  | bigInt => exact hh.projectBigInteger _ hw
  | object => exact ho
  | _ => exact .pure rfl

theorem projectWithin (depth : Nat) {w₁ : ℓ₁.Word} {w₂ : ℓ₂.Word} (hw : Alike w₁ w₂) :
    K.Lockstep Eq (h₁.projectWithin depth w₁) (h₂.projectWithin depth w₂) := by
  induction depth generalizing w₁ w₂ with
  | zero => exact hh.projectWith (fun _ _ hm => ⟨.aborted, .nil, hm⟩) hw
  | succ depth ih => exact hh.projectWith (hh.projectObject (fun _ _ hv => ih hv) hw) hw

theorem project {w₁ : ℓ₁.Word} {w₂ : ℓ₂.Word} (hw : Alike w₁ w₂) :
    K.Lockstep Eq (h₁.project w₁) (h₂.project w₂) := by
  unfold Host.project
  rw [hh.depth]
  exact hh.projectWithin h₂.depth hw

theorem projectOwned {x₁ : Handle ℓ₁} {x₂ : Handle ℓ₂} (hx : Alike x₁.word x₂.word) :
    K.Lockstep Eq (h₁.projectOwned x₁) (h₂.projectOwned x₂) := hh.within hx (hh.project hx)

/-! ## Embeddings -/

theorem newText (text : String) :
    K.Lockstep (fun x₁ x₂ => Alike x₁.word x₂.word) (h₁.newText text) (h₂.newText text) :=
  (hh.ask (.newText text) (.newText text) rfl).map fun _ _ hw => hw

theorem parse (text : String) :
    K.Lockstep (fun x₁ x₂ => Alike x₁.word x₂.word) (h₁.parse text) (h₂.parse text) :=
  (hh.askMasked (.parse text) (.parse text) rfl).map fun _ _ hw => hw

theorem eval (source file : String) :
    K.Lockstep (fun x₁ x₂ => Alike x₁.word x₂.word) (h₁.eval source file)
      (h₂.eval source file) :=
  (hh.askMasked (.eval source file) (.eval source file) ⟨rfl, rfl⟩).map
    fun _ _ hw => hw

theorem checked (during : String) {x₁ : Handle ℓ₁} {x₂ : Handle ℓ₂}
    (hx : Alike x₁.word x₂.word) :
    K.Lockstep Embedded (h₁.checked during x₁) (h₂.checked during x₂) := by
  have he : x₁.isException = x₂.isException := hx.isException_eq
  unfold Host.checked
  rw [he]
  split
  · exact hh.within hx (hh.fail _ (.error _))
  · exact .pure (.ok hx)

theorem embed (v : HostValue) : K.Lockstep Embedded (h₁.embed v) (h₂.embed v) := by
  cases v with
  | null => exact .pure (.ok (alike_immediate (by decide) 0))
  | bool b => exact .pure (.ok (alike_immediate (by decide) _))
  | int n => exact .pure (.ok (alike_ofInt64 n))
  | float d => exact .pure (.ok (alike_ofNumber d))
  | text s => exact (hh.newText s).bind fun _ _ hx => hh.checked _ hx
  | json v => exact (hh.parse v.text).bind fun _ _ hx => hh.checked _ hx

end Likeness.Hosts

end ScriptHost
