-- The exception that a library has pending. A reply that throws leaves one behind, and taking it
-- clears it. Through an instance the host sees the same, but for scripts: what they throw is
-- handed on to whoever ran them.
import ScriptHost.Proofs.Exchange.Exceptions
import ScriptHost.Proofs.Native.BigIntegers

namespace ScriptHost

variable {ℓ : Layout} {σ ε : Type}

/-! ## No script is run on the way over -/

/-- Whether a request runs a script. -/
def Request.isEval : Request ℓ → Bool
  | .eval _ _ => true
  | _ => false

/-- No call among some events runs a script. -/
def Passive (events : List (Event ℓ ε)) : Prop := ∀ c ∈ calls events, c.request.isEval = false

namespace Passive

variable {xs ys : List (Event ℓ ε)}

theorem nil : Passive ([] : List (Event ℓ ε)) := fun _ hc => nomatch hc

theorem append (h : Passive xs) (h' : Passive ys) : Passive (xs ++ ys) := by
  intro c hc
  rw [calls_append] at hc
  rcases List.mem_append.mp hc with hc | hc
  · exact h c hc
  · exact h' c hc

theorem cons {event : Event ℓ ε} (he : Passive [event]) (h : Passive xs) :
    Passive (event :: xs) := append he h

theorem call {c : Call ℓ ε} (hc : c.request.isEval = false) : Passive [.call c] := by
  intro d hd
  obtain rfl := List.mem_singleton.mp hd
  exact hc

theorem log (r : Record) : Passive ([.log r] : List (Event ℓ ε)) := nil

end Passive

theorem Dropping.passive {x : Handle ℓ} {xs : List (Event ℓ ε)} (h : Dropping x xs) :
    Passive xs := by
  cases h with
  | kept _ => exact .nil
  | last => exact .call rfl

theorem Coercion.passive {w : ℓ.Word} {s : Option String} {xs : List (Event ℓ ε)}
    (h : Coercion w s xs) : Passive xs := by
  cases h with
  | thrown => exact .call rfl
  | read b => exact .cons (.call rfl) (.call rfl)

theorem Report.passive {during : String} {xs : List (Event ℓ ε)} (h : Report during xs) :
    Passive xs := by
  cases h with
  | printed hx hy => exact .cons (.call rfl) (hx.passive.append (.cons (.log _) hy.passive))
  | unprintable hx hy hz =>
    exact .cons (.call rfl) (hx.passive.append
      (.cons (.call rfl) (hy.passive.append (.cons (.log _) hz.passive))))

theorem Texting.passive {w : ℓ.Word} {r : Except ProjectionError String} {xs : List (Event ℓ ε)}
    (h : Texting w r xs) : Passive xs := by
  cases h with
  | text hx => exact hx.passive
  | thrown hx hy => exact hx.passive.append hy.passive

theorem Projection.passive {w : ℓ.Word} {r : Except ProjectionError HostValue}
    {xs : List (Event ℓ ε)} (h : Projection w r xs) : Passive xs := by
  induction h with
  | alone _ => exact .nil
  | text _ hx => exact hx.passive
  | double _ _ => exact .call rfl
  | doubleThrown _ _ hx => exact .cons (.call rfl) hx.passive
  | exact _ => exact .call rfl
  | outOfRange _ => exact .call rfl
  | integerThrown _ hx => exact .cons (.call rfl) hx.passive
  | object _ _ _ hy ih => exact .cons (.call rfl) (ih.append hy.passive)
  | objectThrown _ _ hx hy => exact .cons (.call rfl) (hx.passive.append hy.passive)

namespace Native

/-! ## What a library throws -/

/-- Whether a reply of the library says that it threw. -/
def Request.isThrown : (r : Request ℓ) → r.Reply → Bool
  | .toText _ _ _, text => text.isNone
  | .toDouble _ _, reply => reply.1 != 0
  | .toBigInteger _ _, reply => reply.1 != 0
  | .stringify _ _ _ _, w => ℓ.tag? w == some .exception
  | .parse _ _ _ _, w => ℓ.tag? w == some .exception
  | .newText _ _, w => ℓ.tag? w == some .exception
  | .eval _ _ _ _ _, w => ℓ.tag? w == some .exception
  | _, _ => false

/-- Whether a function takes the pending exception. -/
def Request.takes : Request ℓ → Bool
  | .takeException _ => true
  | _ => false

/-- A library that has an exception of a context pending from a reply that throws until it is
taken. -/
def Library.Minds (lib : Library ℓ σ) (context : UInt64) (pending : σ → Bool) : Prop :=
  ∀ r m, r.isUse = true → (∀ c, r.context? = some c → c = context) →
    pending (lib.answer r m).2.inner =
      (!r.takes && (r.isThrown (lib.answer r m).1 || pending m.inner))

namespace Instance

variable {lib : Library ℓ σ} {x : Instance} {pending : σ → Bool}

/-- The first thing that is thrown ends the reading of a big integer, so what is pending after it
is what the last call left. -/
theorem toBigInteger_minds (hl : lib.Minds x.context pending) (w : ℓ.Word) :
    (x.engine lib).MindsAt pending (.toBigInteger w) := by
  intro m
  rw [show (x.engine lib).answer (.toBigInteger w) m = x.toBigInteger lib w m from rfl]
  have hcoerced : pending (lib.coerced x w m).inner =
      (lib.code x w m != 0 || pending m.inner) :=
    hl (.toBigInteger x.context w) m rfl fun _ h => (Option.some.inj h).symm
  have hwritten : pending (lib.written x w m).inner =
      ((lib.digits? x w m).isNone || pending (lib.coerced x w m).inner) :=
    hl (.toText x.context w false) _ rfl fun _ h => (Option.some.inj h).symm
  by_cases hc : lib.code x w m = 0
  · rw [hc] at hcoerced
    cases hd : lib.digits? x w m with
    | none =>
      rw [toBigInteger_of_no_digits hc hd]
      rw [hd] at hwritten
      exact hwritten
    | some b =>
      have hfreed : pending (lib.answer (.freeText x.context b) (lib.written x w m)).2.inner =
          pending (lib.written x w m).inner :=
        hl (.freeText x.context b) _ rfl fun _ h => (Option.some.inj h).symm
      rw [hd, hcoerced] at hwritten
      rw [toBigInteger_of_digits hc hd]
      have hn := BigInteger.elim_ofDecimal_ne_threw (Utf8.decode? b.bytes)
      simp [hfreed, hwritten, Call.leavesPending, Call.takes, Call.isThrown, Ending.value?, hn]
  · rw [toBigInteger_of_code hc]
    have hthrown : (lib.code x w m != 0) = true := by simpa using hc
    rw [hthrown] at hcoerced
    exact hcoerced

theorem toDouble_minds (hl : lib.Minds x.context pending) (w : ℓ.Word) :
    (x.engine lib).MindsAt pending (.toDouble w) := by
  intro m
  have hcoerced : pending (lib.answer (.toDouble x.context w) m).2.inner =
      ((lib.answer (.toDouble x.context w) m).1.1 != 0 || pending m.inner) :=
    hl (.toDouble x.context w) m rfl fun _ h => (Option.some.inj h).symm
  have hread : (x.engine lib).answer (.toDouble w) m =
      ⟨.value (if (lib.answer (.toDouble x.context w) m).1.1 = 0 then
          some ((lib.answer (.toDouble x.context w) m).1.2.getD .zero) else none),
        [lib.called (.toDouble x.context w) m], (lib.answer (.toDouble x.context w) m).2⟩ := rfl
  rw [hread]
  by_cases hc : (lib.answer (.toDouble x.context w) m).1.1 = 0
  · simp [hcoerced, hc, Call.leavesPending, Call.takes, Call.isThrown, Ending.value?]
  · simp [hcoerced, hc, Call.leavesPending, Call.takes, Call.isThrown, Ending.value?]

/-- The instance minds whatever it is asked that is no script. -/
theorem engine_minds (hl : lib.Minds x.context pending) {r : ScriptHost.Request ℓ}
    (hr : r.isEval = false) : (x.engine lib).MindsAt pending r := by
  have hcontext : ∀ c, some x.context = some c → c = x.context :=
    fun _ h => (Option.some.inj h).symm
  intro m
  cases r with
  | freeValue w =>
    -- Two calls: the runtime is asked for, and the value is freed on it.
    have hruntime := hl (.runtimeOf x.context) m rfl hcontext
    have hfreed := hl (.freeValue (lib.answer (.runtimeOf x.context) m).1 w)
      (lib.answer (.runtimeOf x.context) m).2 rfl nofun
    exact hfreed.trans hruntime
  | toText w => exact hl (.toText x.context w false) m rfl hcontext
  | freeText b => exact hl (.freeText x.context b) m rfl hcontext
  | stringify w => exact hl (.stringify x.context w _ _) m rfl hcontext
  | parse text => exact hl (.parse x.context _ _ _) m rfl hcontext
  | takeException => exact hl (.takeException x.context) m rfl hcontext
  | toDouble w => exact toDouble_minds hl w m
  | toBigInteger w => exact toBigInteger_minds hl w m
  | newText text => exact hl (.newText x.context _) m rfl hcontext
  | eval source file => cases hr

/-- Behind a projection there is still pending what was pending before it, unless something was
thrown on the way. -/
theorem project_pending {h : Host ℓ σ (Event ℓ)} (he : h.engine = x.engine lib)
    (hl : lib.Minds x.context pending) {w : ℓ.Word} {m m' : Machine σ}
    {r : Except ProjectionError HostValue} {events : List (ScriptHost.Event ℓ (Event ℓ))}
    (hr : h.project w m = ⟨.value r, events, m'⟩) :
    pending m'.inner = (pending m.inner && !thrown events) := by
  obtain ⟨hpath, hx⟩ := h.project_returns w m r events m' hr
  have hpassive := hx.passive
  have hanswered := (hx.orderly []).answered.pending_eq (pending m.inner)
  unfold Passive at hpassive
  rw [calls_heard] at hpassive hanswered
  have hminds : ∀ c ∈ calls events, h.engine.MindsAt pending c.request := by
    intro c hc
    rw [he]
    exact engine_minds hl (hpassive c hc)
  rw [hpath.pending_eq hminds, hanswered]
  rfl

end Instance

end Native

end ScriptHost
