-- The three layouts give way to each other. A session goes the same way with any of
-- them, as long as the engines answer alike.
import ScriptHost.Proofs.Exchange.Lockstep
import ScriptHost.Proofs.Exchange.Sample

namespace ScriptHost

variable {ℓ₁ ℓ₂ : Layout} {σ₁ σ₂ ε₁ ε₂ : Type}

/-! ## Sessions that go together -/

/-- The same places with handles on alike words. -/
def Slots.Alike (s₁ : Slots ℓ₁) (s₂ : Slots ℓ₂) : Prop :=
  List.Forall₂ (Option.Rel fun x₁ x₂ => ScriptHost.Alike x₁.word x₂.word) s₁ s₂

/-- Two operations of one kind on alike words, the same places and equal values. Looking at
a handle is left out, for that shows the layout. -/
inductive Operation.Alike : Operation ℓ₁ → Operation ℓ₂ → Prop
  | own {w₁ : ℓ₁.Word} {w₂ : ℓ₂.Word} : ScriptHost.Alike w₁ w₂ → Alike (.own w₁) (.own w₂)
  | immediate {w₁ : ℓ₁.Word} {w₂ : ℓ₂.Word} :
    ScriptHost.Alike w₁ w₂ → Alike (.immediate w₁) (.immediate w₂)
  | clone (slot : Nat) : Alike (.clone slot) (.clone slot)
  | drop (slot : Nat) : Alike (.drop slot) (.drop slot)
  | intoWord (slot : Nat) : Alike (.intoWord slot) (.intoWord slot)
  | retain {w₁ : ℓ₁.Word} {w₂ : ℓ₂.Word} : ScriptHost.Alike w₁ w₂ → Alike (.retain w₁) (.retain w₂)
  | release {w₁ : ℓ₁.Word} {w₂ : ℓ₂.Word} :
    ScriptHost.Alike w₁ w₂ → Alike (.release w₁) (.release w₂)
  | count {w₁ : ℓ₁.Word} {w₂ : ℓ₂.Word} : ScriptHost.Alike w₁ w₂ → Alike (.count w₁) (.count w₂)
  | project {w₁ : ℓ₁.Word} {w₂ : ℓ₂.Word} :
    ScriptHost.Alike w₁ w₂ → Alike (.project w₁) (.project w₂)
  | projectOwned (slot : Nat) : Alike (.projectOwned slot) (.projectOwned slot)
  | embed (v : HostValue) : Alike (.embed v) (.embed v)
  | toText {w₁ : ℓ₁.Word} {w₂ : ℓ₂.Word} : ScriptHost.Alike w₁ w₂ → Alike (.toText w₁) (.toText w₂)
  | toUnits {w₁ : ℓ₁.Word} {w₂ : ℓ₂.Word} :
    ScriptHost.Alike w₁ w₂ → Alike (.toUnits w₁) (.toUnits w₂)
  | newText (text : String) : Alike (.newText text) (.newText text)
  | newUnits (units : List UInt16) : Alike (.newUnits units) (.newUnits units)
  | eval (source file : String) : Alike (.eval source file) (.eval source file)
  | parse (text : String) : Alike (.parse text) (.parse text)
  | stringify {w₁ : ℓ₁.Word} {w₂ : ℓ₂.Word} :
    ScriptHost.Alike w₁ w₂ → Alike (.stringify w₁) (.stringify w₂)
  | takeException : Alike .takeException .takeException
  | toDouble {w₁ : ℓ₁.Word} {w₂ : ℓ₂.Word} :
    ScriptHost.Alike w₁ w₂ → Alike (.toDouble w₁) (.toDouble w₂)
  | toBigInteger {w₁ : ℓ₁.Word} {w₂ : ℓ₂.Word} :
    ScriptHost.Alike w₁ w₂ → Alike (.toBigInteger w₁) (.toBigInteger w₂)

/-- Two answers of one kind: alike words, and everything else equal. -/
inductive Answer.Alike : Answer ℓ₁ → Answer ℓ₂ → Prop
  | nothing : Alike .nothing .nothing
  | slot {w₁ : ℓ₁.Word} {w₂ : ℓ₂.Word} (place : Nat) :
    ScriptHost.Alike w₁ w₂ → Alike (.slot place w₁) (.slot place w₂)
  | word {w₁ : ℓ₁.Word} {w₂ : ℓ₂.Word} : ScriptHost.Alike w₁ w₂ → Alike (.word w₁) (.word w₂)
  | truth (b : Bool) : Alike (.truth b) (.truth b)
  | count (n : Option Int32) : Alike (.count n) (.count n)
  | value (v : HostValue) : Alike (.value v) (.value v)
  | text (s : String) : Alike (.text s) (.text s)
  | units (us : List UInt16) : Alike (.units us) (.units us)
  | double (d : Option Double) : Alike (.double d) (.double d)
  | bigInteger (n : BigInteger) : Alike (.bigInteger n) (.bigInteger n)
  | failed (e : ProjectionError) : Alike (.failed e) (.failed e)
  | noHandle : Alike .noHandle .noHandle

/-- Two results of an operation that go together. -/
def Operation.Results (p₁ : Answer ℓ₁ × Slots ℓ₁) (p₂ : Answer ℓ₂ × Slots ℓ₂) : Prop :=
  p₁.1.Alike p₂.1 ∧ Slots.Alike p₁.2 p₂.2

namespace Slots

variable {s₁ : Slots ℓ₁} {s₂ : Slots ℓ₂}

theorem Alike.add (hs : Slots.Alike s₁ s₂) {x₁ : Handle ℓ₁} {x₂ : Handle ℓ₂}
    (hx : ScriptHost.Alike x₁.word x₂.word) : Operation.Results (s₁.add x₁) (s₂.add x₂) := by
  refine ⟨?_, List.rel_append hs (.cons (.some hx) .nil)⟩
  have hlen : s₁.length = s₂.length := List.Forall₂.length_eq hs
  show Answer.Alike (.slot s₁.length x₁.word) (.slot s₂.length x₂.word)
  rw [hlen]
  exact .slot _ hx

theorem Alike.addResult (hs : Slots.Alike s₁ s₂) {r₁ : Except ProjectionError (Handle ℓ₁)}
    {r₂ : Except ProjectionError (Handle ℓ₂)} (hr : Embedded r₁ r₂) :
    Operation.Results (s₁.addResult r₁) (s₂.addResult r₂) := by
  cases hr with
  | ok hx => exact hs.add hx
  | error cause => exact ⟨.failed cause, hs⟩

theorem Alike.empty (hs : Slots.Alike s₁ s₂) (slot : Nat) :
    Slots.Alike (s₁.empty slot) (s₂.empty slot) := by
  unfold Slots.empty
  induction hs generalizing slot with
  | nil => exact .nil
  | cons hx _ ih =>
    cases slot with
    | zero => exact .cons .none ‹_›
    | succ slot => exact .cons hx (ih slot)

theorem Alike.handle? (hs : Slots.Alike s₁ s₂) (slot : Nat) :
    Option.Rel (fun x₁ x₂ => ScriptHost.Alike x₁.word x₂.word) (s₁.handle? slot)
      (s₂.handle? slot) := by
  induction hs generalizing slot with
  | nil => exact .none
  | cons hx _ ih =>
    cases slot with
    | zero => exact hx
    | succ slot => exact ih slot

end Slots

/-! ## Sessions in lockstep -/

namespace Likeness.Hosts

variable {K : Likeness σ₁ σ₂} {h₁ : Host ℓ₁ σ₁ ε₁} {h₂ : Host ℓ₂ σ₂ ε₂} (hh : K.Hosts h₁ h₂)
  {s₁ : Slots ℓ₁} {s₂ : Slots ℓ₂} (hs : Slots.Alike s₁ s₂)
include hs

omit hh in
theorem onHandle {slot : Nat} {f₁ : Handle ℓ₁ → Exchange ℓ₁ σ₁ ε₁ (Answer ℓ₁ × Slots ℓ₁)}
    {f₂ : Handle ℓ₂ → Exchange ℓ₂ σ₂ ε₂ (Answer ℓ₂ × Slots ℓ₂)}
    (hf : ∀ x₁ x₂, Alike x₁.word x₂.word → K.Lockstep Operation.Results (f₁ x₁) (f₂ x₂)) :
    K.Lockstep Operation.Results (Operation.onHandle s₁ slot f₁)
      (Operation.onHandle s₂ slot f₂) := by
  unfold Operation.onHandle
  have hx := hs.handle? slot
  generalize s₁.handle? slot = x₁ at hx ⊢
  generalize s₂.handle? slot = x₂ at hx ⊢
  cases hx with
  | none => exact .pure ⟨.noHandle, hs⟩
  | some hx => exact hf _ _ hx

theorem answerOf {α : Type} {f₁ : α → Answer ℓ₁} {f₂ : α → Answer ℓ₂}
    (hf : ∀ a, (f₁ a).Alike (f₂ a)) (r : Except ProjectionError α) :
    Operation.Results (Operation.answerOf f₁ r, s₁) (Operation.answerOf f₂ r, s₂) := by
  cases r with
  | ok a => exact ⟨hf a, hs⟩
  | error cause => exact ⟨.failed cause, hs⟩

include hh

theorem run {op₁ : Operation ℓ₁} {op₂ : Operation ℓ₂} (ho : op₁.Alike op₂) :
    K.Lockstep Operation.Results (op₁.run h₁ s₁) (op₂.run h₂ s₂) := by
  cases ho with
  | own hw => exact .pure (hs.add hw)
  | @immediate w₁ w₂ hw =>
    refine .pure ?_
    unfold Handle.immediate?
    rw [hw.isCounted_eq]
    split
    · exact ⟨.nothing, hs⟩
    · exact hs.add hw
  | clone slot =>
    refine onHandle hs fun x₁ x₂ hx => ?_
    have hc : K.Lockstep (fun y₁ y₂ => Alike y₁.word y₂.word)
        (x₁.clone : Exchange ℓ₁ σ₁ ε₁ _) (x₂.clone : Exchange ℓ₂ σ₂ ε₂ _) :=
      (retain_lockstep hx).map fun _ _ hv => hv
    exact hc.map fun _ _ hy => hs.add hy
  | drop slot =>
    exact onHandle hs fun x₁ x₂ hx => (hh.drop hx).bind fun _ _ _ => .pure ⟨.nothing, hs.empty slot⟩
  | intoWord slot => exact onHandle hs fun x₁ x₂ hx => .pure ⟨.word hx, hs.empty slot⟩
  | retain hw => exact (retain_lockstep hw).map fun _ _ hv => ⟨.word hv, hs⟩
  | release hw =>
    refine (release_lockstep hw).map ?_
    rintro last _ ⟨rfl, -⟩
    exact ⟨.truth last, hs⟩
  | @count w₁ w₂ hw =>
    have hc : K.Lockstep Eq (Exchange.count? w₁ : Exchange ℓ₁ σ₁ ε₁ _)
        (Exchange.count? w₂ : Exchange ℓ₂ σ₂ ε₂ _) :=
      fun _ _ hm => ⟨.value (hm.count?_eq hw), .nil, hm⟩
    refine hc.map ?_
    rintro n _ rfl
    exact ⟨.count n, hs⟩
  | project hw =>
    refine (hh.project hw).map ?_
    rintro r _ rfl
    exact answerOf hs .value r
  | projectOwned slot =>
    refine onHandle hs fun x₁ x₂ hx => (hh.projectOwned hx).map ?_
    rintro r _ rfl
    exact answerOf (hs.empty slot) .value r
  | embed v => exact (hh.embed v).map fun _ _ hr => hs.addResult hr
  | toText hw =>
    refine (hh.toText hw).map ?_
    rintro r _ rfl
    exact answerOf hs .text r
  | toUnits hw =>
    refine (hh.toUnits hw).map ?_
    rintro r _ rfl
    exact answerOf hs .units r
  | newText text => exact (hh.newText text).map fun _ _ hx => hs.add hx
  | newUnits units =>
    refine Lockstep.map (A := Embedded) ?_ fun _ _ hr => hs.addResult hr
    unfold Host.newUnits
    split
    · exact (hh.newText _).map fun _ _ hx => .ok hx
    · exact .pure (.error .utf16)
  | eval source file => exact (hh.eval source file).map fun _ _ hx => hs.add hx
  | parse text => exact (hh.parse text).map fun _ _ hx => hs.add hx
  | stringify hw => exact (hh.stringify hw).map fun _ _ hx => hs.add hx
  | takeException => exact hh.takeException.map fun _ _ hx => hs.add hx
  | @toDouble w₁ w₂ hw =>
    refine (hh.askMasked (.toDouble w₁) (.toDouble w₂) hw).map ?_
    rintro d _ rfl
    exact ⟨.double d, hs⟩
  | @toBigInteger w₁ w₂ hw =>
    refine (hh.askMasked (.toBigInteger w₁) (.toBigInteger w₂) hw).map ?_
    rintro n _ rfl
    exact ⟨.bigInteger n, hs⟩

/-- Sessions of operations that go together. -/
theorem runAll {ops₁ : List (Operation ℓ₁)} {ops₂ : List (Operation ℓ₂)}
    (ho : List.Forall₂ Operation.Alike ops₁ ops₂) :
    K.Lockstep
      (fun p₁ p₂ => List.Forall₂ Answer.Alike p₁.1 p₂.1 ∧ Slots.Alike p₁.2 p₂.2)
      (Operation.runAll h₁ s₁ ops₁) (Operation.runAll h₂ s₂ ops₂) := by
  induction ho generalizing s₁ s₂ with
  | nil => exact .pure ⟨.nil, hs⟩
  | cons hop _ ih =>
    refine (run hh hs hop).bind fun p₁ p₂ hp => (ih hp.2).bind fun q₁ q₂ hq => ?_
    exact .pure ⟨.cons hp.1 hq.1, hq.2⟩

end Likeness.Hosts

/-! ## The law -/

/-- The addresses of the blocks that are freed, in order. -/
def freed {ℓ : Layout} {ε : Type} : List (Event ℓ ε) → List UInt64
  | [] => []
  | .call ⟨.freeValue w, _, _, _⟩ :: events => ℓ.payload w :: freed events
  | _ :: events => freed events

theorem Likeness.freed_eq {K : Likeness σ₁ σ₂} {xs : List (Event ℓ₁ ε₁)} {ys : List (Event ℓ₂ ε₂)}
    (h : List.Forall₂ K.Events xs ys) : freed xs = freed ys := by
  induction h with
  | nil => rfl
  | cons hx _ ih =>
    cases hx with
    | @call r₁ r₂ _ _ _ _ _ hr _ =>
      cases r₁ with
      | freeValue w₁ =>
        cases r₂ with
        | freeValue w₂ => exact congrArg₂ List.cons (hr.1.payload_eq hr.2) ih
        | _ => exact hr.elim
      | _ => cases r₂ <;> first | exact hr.elim | exact ih
    | _ => exact ih

/-- Whatever the layouts, hosts whose engines answer alike go through sessions of the same
operations alike. The answers, the calls and the records are the same but for the words, which
read alike, the counts are the same after every operation, and the same blocks are freed in
the same order. -/
theorem layouts_are_interchangeable (K : Likeness σ₁ σ₂) {h₁ : Host ℓ₁ σ₁ ε₁}
    {h₂ : Host ℓ₂ σ₂ ε₂} (hh : K.Hosts h₁ h₂) {ops₁ : List (Operation ℓ₁)}
    {ops₂ : List (Operation ℓ₂)} (ho : List.Forall₂ Operation.Alike ops₁ ops₂) {s₁ : Slots ℓ₁}
    {s₂ : Slots ℓ₂} (hs : Slots.Alike s₁ s₂) {m₁ : Machine σ₁} {m₂ : Machine σ₂}
    (hm : K.Machines m₁ m₂) :
    K.Outcomes (fun p₁ p₂ => List.Forall₂ Answer.Alike p₁.1 p₂.1 ∧ Slots.Alike p₁.2 p₂.2)
      (Operation.runAll h₁ s₁ ops₁ m₁) (Operation.runAll h₂ s₂ ops₂ m₂) ∧
    (∀ n, (Operation.runAll h₁ s₁ (ops₁.take n) m₁).state.counts =
      (Operation.runAll h₂ s₂ (ops₂.take n) m₂).state.counts) ∧
    freed (Operation.runAll h₁ s₁ ops₁ m₁).events =
      freed (Operation.runAll h₂ s₂ ops₂ m₂).events := by
  have hall := hh.runAll hs ho m₁ m₂ hm
  refine ⟨hall, fun n => ?_, Likeness.freed_eq hall.events⟩
  exact (hh.runAll hs (List.forall₂_take n ho) m₁ m₂ hm).state.counts

/-- The engines with one object are alike in all layouts. -/
def Likeness.ofSole : Likeness Bool Bool := ⟨Eq, Eq, fun h => by rw [h]⟩

theorem alike_sole : Alike ℓ₁.sole ℓ₂.sole := alike_assemble (by decide) 16

theorem sole_engines (ℓ₁ ℓ₂ : Layout) : Likeness.ofSole.Engines (Engine.sole ℓ₁ : Engine ℓ₁ Bool ε₁)
    (Engine.sole ℓ₂ : Engine ℓ₂ Bool ε₂) := by
  intro r₁ r₂ hr m₁ m₂ hm
  have hset : ∀ b, Likeness.ofSole.Machines { m₁ with inner := b } { m₂ with inner := b } :=
    fun b => ⟨rfl, hm.counts, hm.control, hm.flags⟩
  have hthrown : Alike (ℓ₁.immediate .exception 0) (ℓ₂.immediate .exception 0) :=
    alike_immediate (by decide) 0
  cases r₁ <;> cases r₂ <;> try exact hr.elim
  case freeValue => exact ⟨.value trivial, hm⟩
  case toText => exact ⟨.value .none, hset true⟩
  case freeText => exact ⟨.value trivial, hm⟩
  case stringify => exact ⟨.value hthrown, hset true⟩
  case parse => exact ⟨.value hthrown, hset true⟩
  case takeException => exact ⟨.value (alike_immediate (by decide) 0), hset false⟩
  case toDouble => exact ⟨.value rfl, hset true⟩
  case toBigInteger => exact ⟨.value rfl, hset true⟩
  case newText => exact ⟨.value (alike_immediate (by decide) 0), hm⟩
  case eval => exact ⟨.value alike_sole, hm.retain alike_sole⟩

theorem sole_hosts (ℓ₁ ℓ₂ : Layout) :
    Likeness.ofSole.Hosts (⟨Engine.sole ℓ₁, .standard, 0⟩ : Host ℓ₁ Bool Unit)
      (⟨Engine.sole ℓ₂, .standard, 0⟩ : Host ℓ₂ Bool Unit) := ⟨sole_engines ℓ₁ ℓ₂, rfl, rfl⟩

theorem soleSession_alike :
    List.Forall₂ Operation.Alike (Operation.soleSession ℓ₁) (Operation.soleSession ℓ₂) :=
  .cons (.eval "" "") (.cons (.clone 0) (.cons (.intoWord 1) (.cons (.toText alike_sole)
    (.cons (.own alike_sole) (.cons (.drop 0) (.cons (.drop 2) .nil))))))

/-- The only object is freed once in each of two layouts, at the end of the same session. -/
theorem sessions_of_sole_are_interchangeable :
    Likeness.ofSole.Outcomes
      (fun p₁ p₂ => List.Forall₂ Answer.Alike p₁.1 p₂.1 ∧ Slots.Alike p₁.2 p₂.2)
      (Operation.runAll (ε := Unit) ⟨Engine.sole .wide, .standard, 0⟩ []
        (Operation.soleSession .wide) .fresh)
      (Operation.runAll (ε := Unit) ⟨Engine.sole .strict, .standard, 0⟩ []
        (Operation.soleSession .strict) .fresh) ∧
    freed (Operation.runAll (ε := Unit) ⟨Engine.sole .strict, .standard, 0⟩ []
      (Operation.soleSession .strict) .fresh).events = [16] := by
  have hm : Likeness.ofSole.Machines .fresh .fresh := ⟨rfl, rfl, rfl, rfl⟩
  have hlaw := layouts_are_interchangeable Likeness.ofSole (sole_hosts .wide .strict)
    soleSession_alike .nil hm
  exact ⟨hlaw.1, hlaw.2.2.symm.trans rfl⟩

end ScriptHost
