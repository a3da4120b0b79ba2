-- Guards held in a list, so that they can be opened and closed in any order, and states saved
-- beside them.
import ScriptHost.Fpu.Guard

namespace ScriptHost.Fpu

structure Bench where
  guards : List (Option Guard)
  saved : List ControlState

inductive BenchStep
  | new
  | masking
  | drop (guard : Nat)
  | withMasked
  /-- Look at the state in a scope inside a scope, and after the inner one. -/
  | nested
  /-- Look at the state inside a scope and leave it by unwinding. -/
  | unwinding
  | save
  | mask (saved : Nat)
  | install (saved : Nat)
  | same (a b : Nat)

inductive BenchAnswer
  | nothing
  | opened (saved : Option ControlState)
  | seen (c : ControlState)
  | seenTwice (inner outer : ControlState)
  | masked (c : ControlState)
  | truth (b : Bool)

namespace Bench

variable {ℓ : Layout} {σ ε : Type}

def empty : Bench := ⟨[], []⟩

def addGuard (b : Bench) (g : Guard) : BenchAnswer × Bench :=
  (.opened g.saved, { b with guards := b.guards ++ [some g] })

/-- A guard closed, if it is still open. -/
def close (b : Bench) (guard : Nat) : Exchange ℓ σ ε Bench := do
  match (b.guards[guard]?).join with
  | some g =>
    g.close
    return { b with guards := b.guards.set guard none }
  | none => return b

def step (settings : Settings) (b : Bench) : BenchStep → Exchange ℓ σ ε (BenchAnswer × Bench)
  | .new => do return b.addGuard (← Guard.new settings)
  | .masking => do return b.addGuard (← Guard.masking)
  | .drop guard => do return (.nothing, ← b.close guard)
  | .withMasked => do return (.seen (← Fpu.withMasked settings current), b)
  | .nested => do
    let seen ← Fpu.withMasked settings do
      let inner ← Fpu.withMasked settings current
      return .seenTwice inner (← current)
    return (seen, b)
  | .unwinding => do
    let g ← Guard.masking
    let seen ← current
    let _ ← (Action.unwind.ensuring g.close : Exchange ℓ σ ε Unit).attempt
    return (.seen seen, b)
  | .save => do return (.nothing, { b with saved := b.saved ++ [← current] })
  | .mask saved =>
    match b.saved[saved]? with
    | some c => return (.masked c.masked, { b with saved := b.saved ++ [c.masked] })
    | none => return (.nothing, b)
  | .install saved => do
    match b.saved[saved]? with
    | some c => Fpu.install c
    | none => return (.nothing, b)
    return (.nothing, b)
  | .same x y => return (.truth (b.saved[x]? == b.saved[y]?), b)

/-- The guards that are still open closed, in the order in which they were opened. -/
def closeAll (b : Bench) : Exchange ℓ σ ε Bench :=
  (List.range b.guards.length).foldlM close b

end Bench

end ScriptHost.Fpu
