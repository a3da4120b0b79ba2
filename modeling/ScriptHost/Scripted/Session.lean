-- Sessions with the stand-in engine. Beside the operations of a session there are steps that
-- prepare a reply or a pending exception. Each step comes with its events and with what the
-- engine holds after it.
import ScriptHost.Exchange.Session
import ScriptHost.Scripted.Engine

namespace ScriptHost.Scripted

variable {ℓ : Layout} {ε : Type}

/-- A word that is lent: that of a value, or that of a handle. -/
inductive Operand (ℓ : Layout)
  | value (v : Value ℓ)
  | slot (n : Nat)

inductive Step (ℓ : Layout)
  | reply (c : Cue) (r : Reply ℓ)
  /-- Make a value the pending exception. -/
  | pend (v : Value ℓ)
  | own (v : Value ℓ)
  /-- Embed a host value; there is none where a text that should be JSON is not. -/
  | embed (v : Option HostValue)
  /-- An operation on a word that is lent to it. -/
  | lend (o : Operand ℓ) (op : ℓ.Word → Operation ℓ)
  | plain (op : Operation ℓ)

/-- What the engine holds. -/
structure View (ℓ : Layout) where
  counts : List Int32
  freed : List Nat
  pending : Option ℓ.Word
  openTexts : Int

def view (m : Machine (State ℓ)) : View ℓ :=
  { counts := counts m, freed := m.inner.freed.mergeSort, pending := m.inner.pending,
    openTexts := m.inner.openTexts }

structure Entry (ℓ : Layout) (ε : Type) where
  ending : Ending (Answer ℓ)
  events : List (Event ℓ ε)
  view : View ℓ

namespace Operand

/-- The word that is lent, if there is one. -/
def word? (m : Machine (State ℓ)) (s : Slots ℓ) : Operand ℓ → Option ℓ.Word
  | .value v => m.inner.word? v
  | .slot n => (s.handle? n).map Handle.word

end Operand

def turned {α : Type} (t : Turn ℓ α) : Exchange ℓ (State ℓ) ε α := fun m =>
  let (a, m) := t m
  ⟨.value a, [], m⟩

def Step.run (h : Host ℓ (State ℓ) ε) (s : Slots ℓ) :
    Step ℓ → Exchange ℓ (State ℓ) ε (Answer ℓ × Slots ℓ)
  | .reply c r => do
    Action.modify fun m => { m with inner := m.inner.enqueue c r }
    return (.nothing, s)
  | .pend v => do
    Action.modify (Scripted.pend v)
    return (.nothing, s)
  | .own v => do (Operation.own (← turned (newReference v))).run h s
  | .embed v =>
    match v with
    | some v => (Operation.embed v).run h s
    | none => return (.failed .json, s)
  | .lend o op => do
    match o.word? (← Action.get) s with
    | some w => (op w).run h s
    | none => return (.noHandle, s)
  | .plain op => op.run h s

/-- The end of a session: every handle that is left is dropped. -/
def finish (h : Host ℓ (State ℓ) ε) (s : Slots ℓ) :
    Exchange ℓ (State ℓ) ε (Answer ℓ × Slots ℓ) := do
  Operation.closeAll h s
  return (.nothing, [])

/-- The entry of one step, with the slots after it if it ended with a value. -/
def entry (step : Exchange ℓ (State ℓ) ε (Answer ℓ × Slots ℓ)) (m : Machine (State ℓ)) :
    Entry ℓ ε × Option (Slots ℓ) × Machine (State ℓ) :=
  let out := step.run m
  ({ ending := out.ending.map Prod.fst, events := out.events, view := view out.state },
   out.ending.value?.map Prod.snd, out.state)

/-- The entries of some steps, and of the end. A step that does not end with a value
is the last one. -/
def entries (h : Host ℓ (State ℓ) ε) (s : Slots ℓ) (m : Machine (State ℓ)) :
    List (Step ℓ) → List (Entry ℓ ε)
  | [] => [(entry (finish h s) m).1]
  | step :: steps =>
    match entry (step.run h s) m with
    | (e, some s, m) => e :: entries h s m steps
    | (e, none, _) => [e]

/-- The control state of a new thread. -/
def initialControl : ControlState := ⟨0x1F80, 0x37F⟩

def machine (s : State ℓ) : Machine (State ℓ) :=
  { inner := s, counts := fun _ => 0, control := initialControl, flags := [] }

/-- How many objects may be projected inside each other. -/
def stackDepth : Nat := 10000

/-- A session with the stand-in as an engine. -/
def session (ℓ : Layout) (settings : Settings) (steps : List (Step ℓ)) : List (Entry ℓ Empty) :=
  let h : Host ℓ (State ℓ) Empty := { engine := engine ℓ, settings, depth := stackDepth }
  entries h [] (machine (State.empty ℓ)) steps

end ScriptHost.Scripted
