-- Calls under a guard, as the engine finds the machine and as the host finds it again. The guard
-- changes nothing but the control state, and the call itself is the only one that is made.
import ScriptHost.Exchange.Host
import ScriptHost.Proofs.Fpu.Nesting

namespace ScriptHost

variable {ℓ : Layout} {σ ε α : Type}

namespace Fpu

namespace Opening

/-- The machine that the closing leaves, from the one that the body left. -/
def leaving (o : Opening) (before after : Machine σ) : Machine σ :=
  if o.masks then { after with control := before.control.snapshot } else after

/-- What is seen of the opening. -/
def opened (o : Opening) (before : Machine σ) : List (Event ℓ ε) :=
  if o.masks then [.install before.control.snapshot.masked] else []

/-- What is seen of the closing. -/
def closed (o : Opening) (before : Machine σ) : List (Event ℓ ε) :=
  if o.masks then [.install before.control.snapshot] else []

end Opening

/-- A scope whose body ends with a value. -/
theorem around_of_value {o : Opening} {body : Exchange ℓ σ ε α} {m m' : Machine σ} {a : α}
    {events : List (Event ℓ ε)}
    (hb : body { m with control := o.entering m.control } = ⟨.value a, events, m'⟩) :
    o.around body m = ⟨.value a, o.opened m ++ events ++ o.closed m, o.leaving m m'⟩ := by
  unfold Opening.entering at hb
  unfold Opening.opened Opening.closed Opening.leaving
  cases ho : o.masks with
  | true =>
    rw [ho] at hb
    rw [around_of_masks ho]
    simp only [if_true] at hb
    rw [hb]
    rfl
  | false =>
    rw [ho] at hb
    rw [around_of_not_masks ho]
    simpa using hb

end Fpu

namespace Host

/-- The guard with which the host makes calls that may run a script. -/
def opening (h : Host ℓ σ ε) : Fpu.Opening := .following h.settings

/-- The machine as the engine finds it in a call under the guard. -/
def guarded (h : Host ℓ σ ε) (m : Machine σ) : Machine σ :=
  { m with control := h.opening.entering m.control }

theorem askMasked_of_value {h : Host ℓ σ ε} {r : Request ℓ} {m m' : Machine σ} {a : r.Reply}
    {inner : List ε} (ha : h.engine.answer r (h.guarded m) = ⟨.value a, inner, m'⟩) :
    h.askMasked r m =
      ⟨.value a, h.opening.opened m ++ [.call ⟨r, (h.guarded m).control, inner, some a⟩] ++
        h.opening.closed m, h.opening.leaving m m'⟩ := by
  have hask : h.ask r (h.guarded m) =
      ⟨.value a, [.call ⟨r, (h.guarded m).control, inner, some a⟩], m'⟩ := by
    unfold ask
    rw [ha]
    rfl
  exact Fpu.around_of_value hask

end Host

end ScriptHost
