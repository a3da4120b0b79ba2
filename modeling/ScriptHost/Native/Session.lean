-- Sessions with a library, from the creation of an instance to its end. Between the two the
-- session sets interrupt handles and does the operations of any session.
import ScriptHost.Exchange.Session
import ScriptHost.Native.Engine

namespace ScriptHost.Native

/-- What shows of such a session. Some functions are called outside any exchange. -/
inductive SessionEvent (ℓ : Layout)
  | function (e : Event ℓ)
  | exchange (e : ScriptHost.Event ℓ (Event ℓ))

abbrev Run (ℓ : Layout) (σ α : Type) : Type := Action (Machine σ) (SessionEvent ℓ) α

structure Session (ℓ : Layout) where
  inst : Instance
  slots : Slots ℓ

/-- What can be done with an instance while it lives. -/
inductive Step (ℓ : Layout)
  | operation (op : Operation ℓ)
  /-- Hand over an interrupt handle on a flag. -/
  | interrupt (flag : Nat)

namespace Session

variable {ℓ : Layout} {σ α : Type}

/-- The use of a library as a part of a session. -/
def withLibrary (u : Use ℓ σ α) : Run ℓ σ α := u.mapEvents .function

/-- The host whose engine is the instance. -/
def host (lib : Library ℓ σ) (settings : Settings) (depth : Nat) (s : Session ℓ) :
    Host ℓ σ (Event ℓ) :=
  { engine := s.inst.engine lib, settings, depth }

def create (lib : Library ℓ σ) : Run ℓ σ (Except StartupError (Session ℓ)) := do
  return (← withLibrary (Native.create lib)).map fun inst => { inst, slots := [] }

def setInterrupt (lib : Library ℓ σ) (s : Session ℓ) (flag : Nat) : Run ℓ σ (Session ℓ) := do
  return { s with inst := ← withLibrary (s.inst.setInterrupt lib flag) }

def exchange (s : Session ℓ) (part : Exchange ℓ σ (Event ℓ) (α × Slots ℓ)) :
    Run ℓ σ (α × Session ℓ) := do
  let (a, slots) ← part.mapEvents .exchange
  return (a, { s with slots })

def empty (lib : Library ℓ σ) (settings : Settings) (depth : Nat) (s : Session ℓ) :
    Run ℓ σ (Session ℓ) := do
  (Operation.closeAll (s.host lib settings depth) s.slots).mapEvents .exchange
  return { s with slots := [] }

def close (lib : Library ℓ σ) (s : Session ℓ) : Run ℓ σ Unit := withLibrary (s.inst.close lib)

def perform (lib : Library ℓ σ) (settings : Settings) (depth : Nat) (s : Session ℓ) :
    Step ℓ → Run ℓ σ (Answer ℓ × Session ℓ)
  | .operation op => s.exchange (op.run (s.host lib settings depth) s.slots)
  | .interrupt flag => do return (.nothing, ← s.setInterrupt lib flag)

/-- Steps one after the other, with what each gives. -/
def performAll (lib : Library ℓ σ) (settings : Settings) (depth : Nat) (s : Session ℓ) :
    List (Step ℓ) → Run ℓ σ (List (Answer ℓ) × Session ℓ)
  | [] => return ([], s)
  | step :: steps => do
    let (answer, s) ← s.perform lib settings depth step
    let (rest, s) ← performAll lib settings depth s steps
    return (answer :: rest, s)

/-- A session from its creation to its end. -/
def life (lib : Library ℓ σ) (settings : Settings) (depth : Nat) (steps : List (Step ℓ)) :
    Run ℓ σ (Except StartupError (List (Answer ℓ))) := do
  match ← create lib with
  | .error e => return .error e
  | .ok s =>
    let (answers, s) ← s.performAll lib settings depth steps
    (← s.empty lib settings depth).close lib
    return .ok answers

end Session

end ScriptHost.Native
