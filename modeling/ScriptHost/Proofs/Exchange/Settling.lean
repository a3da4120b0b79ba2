-- The references outside the engine, as the events of an exchange change them. A
-- reference that is handed out is given back or kept, a block is freed where its
-- last reference is given back and nowhere else, and every buffer goes back.
import ScriptHost.Proofs.Exchange.Trace
import ScriptHost.Proofs.Layout.RoundTrip

namespace ScriptHost

variable {ℓ : Layout} {σ ε : Type}

/-! ## References -/

/-- The references to the block at an address that a word stands for: one if the word
is counted and points there. -/
def Layout.refs (ℓ : Layout) (w : ℓ.Word) (a : UInt64) : Nat :=
  if ℓ.isCounted w = true ∧ ℓ.payload w = a then 1 else 0

theorem Layout.refs_of_not_counted {w : ℓ.Word} (h : ℓ.isCounted w = false) (a : UInt64) :
    ℓ.refs w a = 0 := by
  rw [refs, if_neg (by simp [h])]

/-- The word that a reply hands to the host. -/
def Request.handed : (r : Request ℓ) → r.Reply → Option ℓ.Word
  | .stringify _, w => some w
  | .parse _, w => some w
  | .takeException, w => some w
  | .newText _, w => some w
  | .eval _ _, w => some w
  | .freeValue _, _ => none
  | .toText _, _ => none
  | .freeText _, _ => none
  | .toDouble _, _ => none
  | .toBigInteger _, _ => none

def Call.handed (c : Call ℓ ε) : Option ℓ.Word := c.reply.bind c.request.handed

/-- A call that moves neither a reference nor a buffer. -/
def Call.isPlain : Call ℓ ε → Bool
  | ⟨.toText _, _, _, some none⟩ => true
  | ⟨.toDouble _, _, _, some _⟩ => true
  | ⟨.toBigInteger _, _, _, some _⟩ => true
  | _ => false

/-- Events that take the references outside the engine, by address, from one state to
another. A block is freed where its count comes to zero and nowhere else. A buffer that
is handed out is read and given back at once, and nothing else is read or given back. -/
inductive Settles : (UInt64 → Nat) → List (Event ℓ ε) → (UInt64 → Nat) → Prop
  | done {owed : UInt64 → Nat} : Settles owed [] owed
  | handed {owed more rest : UInt64 → Nat} {c : Call ℓ ε} {w : ℓ.Word}
    {events : List (Event ℓ ε)} :
    c.handed = some w → (∀ a, more a = owed a + ℓ.refs w a) → Settles more events rest →
    Settles owed (.call c :: events) rest
  | retain {owed more rest : UInt64 → Nat} {w : ℓ.Word} {events : List (Event ℓ ε)} :
    (∀ a, more a = owed a + ℓ.refs w a) → Settles more events rest →
    Settles owed (.retain w :: events) rest
  | kept {owed less rest : UInt64 → Nat} {w : ℓ.Word} {left : Option Int32}
    {events : List (Event ℓ ε)} :
    left ≠ some 0 → (∀ a, owed a = less a + ℓ.refs w a) → Settles less events rest →
    Settles owed (.release w left :: events) rest
  | freed {owed less rest : UInt64 → Nat} {w : ℓ.Word} {control : ControlState}
    {inner : List ε} {events : List (Event ℓ ε)} :
    (∀ a, owed a = less a + ℓ.refs w a) → Settles less events rest →
    Settles owed (.release w (some 0) :: .log ⟨.trace, (Handle.mk w).freeing⟩ ::
      .call ⟨.freeValue w, control, inner, some ()⟩ :: events) rest
  | text {owed rest : UInt64 → Nat} {w : ℓ.Word} {b : Buffer}
    {control control' : ControlState} {inner inner' : List ε} {events : List (Event ℓ ε)} :
    Settles owed events rest →
    Settles owed (.call ⟨.toText w, control, inner, some (some b)⟩ :: .read b ::
      .call ⟨.freeText b, control', inner', some ()⟩ :: events) rest
  | plain {owed rest : UInt64 → Nat} {c : Call ℓ ε} {events : List (Event ℓ ε)} :
    c.isPlain = true → Settles owed events rest → Settles owed (.call c :: events) rest
  | log {owed rest : UInt64 → Nat} {r : Record} {events : List (Event ℓ ε)} :
    Settles owed events rest → Settles owed (.log r :: events) rest

namespace Settles

variable {owed mid rest : UInt64 → Nat} {xs ys : List (Event ℓ ε)}

theorem append (h : Settles owed xs mid) (h' : Settles mid ys rest) :
    Settles owed (xs ++ ys) rest := by
  induction h with
  | done => exact h'
  | handed hc hm _ ih => exact .handed hc hm (ih h')
  | retain hm _ ih => exact .retain hm (ih h')
  | kept hl hm _ ih => exact .kept hl hm (ih h')
  | freed hm _ ih => exact .freed hm (ih h')
  | text _ ih => exact .text (ih h')
  | plain hc _ ih => exact .plain hc (ih h')
  | log _ ih => exact .log (ih h')

theorem congr {owed' rest' : UInt64 → Nat} (h : Settles owed xs rest)
    (ho : ∀ a, owed' a = owed a) (hr : ∀ a, rest' a = rest a) : Settles owed' xs rest' := by
  rw [funext ho, funext hr]
  exact h

end Settles

/-! ## Every course settles -/

theorem Dropping.settles {x : Handle ℓ} {xs : List (Event ℓ ε)} (h : Dropping x xs)
    (owed : UInt64 → Nat) : Settles (fun a => owed a + ℓ.refs x.word a) xs owed := by
  cases h with
  | kept hl => exact .kept hl (fun _ => rfl) .done
  | last => exact .freed (fun _ => rfl) .done

theorem Coercion.settles {w : ℓ.Word} {s : Option String} {xs : List (Event ℓ ε)}
    (h : Coercion w s xs) (owed : UInt64 → Nat) : Settles owed xs owed := by
  cases h with
  | thrown => exact .plain rfl .done
  | read b => exact .text .done

theorem Report.settles {during : String} {xs : List (Event ℓ ε)} (h : Report during xs)
    (owed : UInt64 → Nat) : Settles owed xs owed := by
  cases h with
  | printed hx hy =>
    refine .handed rfl (fun _ => rfl) ((hx.settles _).append (.log (hy.settles owed)))
  | unprintable hx hy hz =>
    refine .handed rfl (fun _ => rfl) ((hx.settles _).append ?_)
    exact .handed rfl (fun _ => rfl) ((hy.settles _).append (.log (hz.settles owed)))

theorem Texting.settles {w : ℓ.Word} {r : Except ProjectionError String}
    {xs : List (Event ℓ ε)} (h : Texting w r xs) (owed : UInt64 → Nat) :
    Settles owed xs owed := by
  cases h with
  | text hx => exact hx.settles owed
  | thrown hx hy => exact (hx.settles owed).append (hy.settles owed)

theorem Projection.settles {w : ℓ.Word} {r : Except ProjectionError HostValue}
    {xs : List (Event ℓ ε)} (h : Projection w r xs) (owed : UInt64 → Nat) :
    Settles owed xs owed := by
  induction h generalizing owed with
  | alone _ => exact .done
  | text _ hx => exact hx.settles owed
  | double _ _ => exact .plain rfl .done
  | doubleThrown _ _ hx => exact .plain rfl (hx.settles owed)
  | exact _ => exact .plain rfl .done
  | outOfRange _ => exact .plain rfl .done
  | integerThrown _ hx => exact .plain rfl (hx.settles owed)
  | object _ _ _ hy ih => exact .handed rfl (fun _ => rfl) ((ih _).append (hy.settles owed))
  | objectThrown _ _ hx hy =>
    exact .handed rfl (fun _ => rfl) ((hx.settles _).append (hy.settles owed))

/-- The word of a plain host value is not counted. -/
theorem Layout.isCounted_of_plain? {v : HostValue} {w : ℓ.Word} (h : ℓ.plain? v = some w) :
    ℓ.isCounted w = false := by
  have himm : ∀ (t : Tag) (n : Int32), t.isCounted = false →
      ℓ.isCounted (ℓ.immediate t n) = false := by
    intro t n ht
    rw [ℓ.isCounted_of_tag? (ℓ.tag?_immediate t n), ht]
  have hdouble : ∀ d, ℓ.isCounted (ℓ.ofDouble d) = false := fun d =>
    ℓ.isCounted_of_double (ℓ.tag?_ofDouble d)
  cases v with
  | null => cases h; exact himm .null 0 rfl
  | bool b => cases h; exact himm .bool _ rfl
  | int n =>
    cases h
    unfold ofInt64
    split
    · exact himm .int _ rfl
    · exact hdouble _
  | float d =>
    cases h
    unfold ofNumber
    split
    · exact himm .int _ rfl
    · exact hdouble _
  | text s => cases h
  | json v => cases h

/-- The references that a result brings. -/
def refsOf : Except ProjectionError (Handle ℓ) → UInt64 → Nat
  | .ok x, a => ℓ.refs x.word a
  | .error _, _ => 0

theorem Embedding.settles {v : HostValue} {r : Except ProjectionError (Handle ℓ)}
    {xs : List (Event ℓ ε)} (h : Embedding v r xs) (owed : UInt64 → Nat) :
    Settles owed xs fun a => owed a + refsOf r a := by
  cases h with
  | plain hw =>
    refine Settles.done.congr (fun _ => rfl) fun a => ?_
    rw [refsOf, Layout.refs_of_not_counted (Layout.isCounted_of_plain? hw), Nat.add_zero]
  | text _ => exact .handed rfl (fun _ => rfl) .done
  | document _ => exact .handed rfl (fun _ => rfl) .done
  | textThrown _ hx hy =>
    exact .handed rfl (fun _ => rfl) ((hx.settles _).append (hy.settles owed))
  | documentThrown _ hx hy =>
    exact .handed rfl (fun _ => rfl) ((hx.settles _).append (hy.settles owed))

end ScriptHost
