-- Guards for the floating-point control state. A guard masks every trap and keeps the state
-- from before, which it puts back when it is closed. A scope closes its guard however its body
-- ends.
import ScriptHost.Engine
import ScriptHost.Settings

namespace ScriptHost.Fpu

variable {ℓ : Layout} {σ ε α : Type}

def current : Exchange ℓ σ ε ControlState := fun m => ⟨.value m.control.snapshot, [], m⟩

def install (c : ControlState) : Exchange ℓ σ ε Unit :=
  fun m => ⟨.value (), [.install c], { m with control := c }⟩

/-- An open guard, with the state that it puts back. A guard that has changed nothing
has none. -/
structure Guard where
  saved : Option ControlState
  deriving DecidableEq

namespace Guard

def masking : Exchange ℓ σ ε Guard := do
  let saved ← current
  install saved.masked
  return ⟨some saved⟩

/-- A guard that masks every trap if the settings say so. -/
def new (settings : Settings) : Exchange ℓ σ ε Guard :=
  if settings.fpuGuard then masking else return ⟨none⟩

def close (g : Guard) : Exchange ℓ σ ε Unit :=
  match g.saved with
  | some c => install c
  | none => return ()

end Guard

/-- A body between the opening and the closing of a guard. -/
def scope (opening : Exchange ℓ σ ε Guard) (body : Exchange ℓ σ ε α) : Exchange ℓ σ ε α := do
  let g ← opening
  body.ensuring g.close

def withMasking (body : Exchange ℓ σ ε α) : Exchange ℓ σ ε α := scope Guard.masking body

/-- A body with every trap masked, if the settings say so. -/
def withMasked (settings : Settings) (body : Exchange ℓ σ ε α) : Exchange ℓ σ ε α :=
  scope (Guard.new settings) body

end ScriptHost.Fpu
