-- Actions: computations that change a state, leave a trace of events and end in one of three
-- ways. An action ends with a value, or it unwinds and the cleanups around it still run, or it
-- aborts and nothing runs any more.

namespace ScriptHost

inductive Ending (α : Type)
  | value (a : α)
  | unwound
  | aborted

namespace Ending

def map {α β : Type} (f : α → β) : Ending α → Ending β
  | value a => value (f a)
  | unwound => unwound
  | aborted => aborted

def value? {α : Type} : Ending α → Option α
  | value a => some a
  | _ => none

end Ending

/-- What an action comes to: how it ended, its events in order, and the state it left. -/
structure Outcome (S E α : Type) where
  ending : Ending α
  events : List E
  state : S

def Action (S E α : Type) : Type := S → Outcome S E α

namespace Action

variable {S E α β : Type}

def run (m : Action S E α) (s : S) : Outcome S E α := m s

def pure (a : α) : Action S E α := fun s => ⟨.value a, [], s⟩

/-- One action and then another. The second one does not start unless the first ends
with a value. -/
def bind (m : Action S E α) (f : α → Action S E β) : Action S E β := fun s =>
  match m s with
  | ⟨.value a, events, s⟩ =>
    let next := f a s
    ⟨next.ending, events ++ next.events, next.state⟩
  | ⟨.unwound, events, s⟩ => ⟨.unwound, events, s⟩
  | ⟨.aborted, events, s⟩ => ⟨.aborted, events, s⟩

instance : Monad (Action S E) where
  pure := pure
  bind := bind

def get : Action S E S := fun s => ⟨.value s, [], s⟩

def modify (f : S → S) : Action S E Unit := fun s => ⟨.value (), [], f s⟩

def emit (e : E) : Action S E Unit := fun s => ⟨.value (), [e], s⟩

def unwind : Action S E α := fun s => ⟨.unwound, [], s⟩

def abort : Action S E α := fun s => ⟨.aborted, [], s⟩

/-- An action with a cleanup that runs when the action ends with a value and also
when it unwinds. A cleanup that unwinds while its action does aborts everything. -/
def ensuring (body : Action S E α) (cleanup : Action S E Unit) : Action S E α := fun s =>
  match body s with
  | ⟨.value a, events, s⟩ =>
    let last := cleanup s
    ⟨last.ending.map fun _ => a, events ++ last.events, last.state⟩
  | ⟨.unwound, events, s⟩ =>
    let last := cleanup s
    match last.ending with
    | .value _ => ⟨.unwound, events ++ last.events, last.state⟩
    | _ => ⟨.aborted, events ++ last.events, last.state⟩
  | ⟨.aborted, events, s⟩ => ⟨.aborted, events, s⟩

/-- An action that gives nothing where the body unwinds. -/
def attempt (body : Action S E α) : Action S E (Option α) := fun s =>
  match body s with
  | ⟨.value a, events, s⟩ => ⟨.value (some a), events, s⟩
  | ⟨.unwound, events, s⟩ => ⟨.value none, events, s⟩
  | ⟨.aborted, events, s⟩ => ⟨.aborted, events, s⟩

/-- The same action with its events shown in another way. -/
def mapEvents {F : Type} (f : E → F) (body : Action S E α) : Action S F α := fun s =>
  let out := body s
  ⟨out.ending, out.events.map f, out.state⟩

end Action

end ScriptHost
