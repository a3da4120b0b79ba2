-- Sessions with the stand-in library. An instance is created, interrupt handles are set on it,
-- the steps are run, and the instance is closed.
import ScriptHost.Native.Session
import ScriptHost.Scripted.Session

namespace ScriptHost.Scripted

variable {ℓ : Layout}

inductive NativeStep (ℓ : Layout)
  | step (s : Step ℓ)
  | poll
  /-- Raise or lower the flag of a handle, or else that of the instance. -/
  | setFlag (handle : Option Nat) (requested : Bool)

inductive NativeAnswer (ℓ : Layout)
  | answer (a : Answer ℓ)
  | created (x : Native.Instance)
  | failed (e : StartupError)
  | interrupt (isSet : Bool)
  /-- What the callback returned, if there is one. -/
  | polled (stop : Option Bool)
  /-- Whether an interrupt is requested on each handle. -/
  | flags (requested : List Bool)

structure NativeEntry (ℓ : Layout) where
  ending : Ending (NativeAnswer ℓ)
  events : List (Native.SessionEvent ℓ)
  view : View ℓ

/-- A session, and the flags of the handles that its user holds. -/
structure NativeScene (ℓ : Layout) where
  session : Native.Session ℓ
  handles : List Nat

abbrev NativeRun (ℓ : Layout) (α : Type) : Type := Native.Run ℓ (State ℓ) α

namespace NativeScene

def makeHandles : Nat → NativeRun ℓ (List Nat)
  | 0 => return []
  | n + 1 => do
    let (i, flags) := (← Action.get).flags.make
    Action.modify fun m => { m with flags }
    return i :: (← makeHandles n)

def create (handles : Nat) : NativeRun ℓ (NativeAnswer ℓ × Option (NativeScene ℓ)) := do
  match ← Native.Session.create (library ℓ) with
  | .ok session =>
    let handles ← makeHandles handles
    return (.created session.inst, some { session, handles })
  | .error e => return (.failed e, none)

/-- Set a clone of a handle on the instance. -/
def setInterrupt (handle : Nat) (s : NativeScene ℓ) :
    NativeRun ℓ (NativeAnswer ℓ × NativeScene ℓ) := do
  match s.handles[handle]? with
  | some i =>
    Action.modify fun m => { m with flags := m.flags.share i }
    let session ← s.session.setInterrupt (library ℓ) i
    return (.interrupt session.inst.interrupt.isSome, { s with session })
  | none => return (.interrupt s.session.inst.interrupt.isSome, s)

def run (settings : Settings) (step : NativeStep ℓ) (s : NativeScene ℓ) :
    NativeRun ℓ (NativeAnswer ℓ × NativeScene ℓ) := do
  match step with
  | .step step =>
    let host := s.session.host (library ℓ) settings stackDepth
    let (a, session) ← s.session.exchange (step.run host s.session.slots)
    return (.answer a, { s with session })
  | .poll =>
    let m ← Action.get
    return (.polled (m.inner.interrupt.map m.flags.poll), s)
  | .setFlag handle requested =>
    if let some i := handle.elim s.session.inst.interrupt fun h => s.handles[h]? then
      Action.modify fun m => { m with flags := m.flags.set i requested }
    let m ← Action.get
    return (.flags (s.handles.map m.flags.isRequested), s)

def finish (settings : Settings) (s : NativeScene ℓ) :
    NativeRun ℓ (NativeAnswer ℓ × NativeScene ℓ) := do
  return (.answer .nothing, { s with session := ← s.session.empty (library ℓ) settings stackDepth })

def close (s : NativeScene ℓ) : NativeRun ℓ (NativeAnswer ℓ × NativeScene ℓ) := do
  s.session.close (library ℓ)
  return (.answer .nothing, s)

end NativeScene

def nativeEntry {α : Type} (part : NativeRun ℓ (NativeAnswer ℓ × α)) (m : Machine (State ℓ)) :
    NativeEntry ℓ × Option α × Machine (State ℓ) :=
  let out := part.run m
  ({ ending := out.ending.map Prod.fst, events := out.events, view := view out.state },
   out.ending.value?.map Prod.snd, out.state)

def nativeEntries (s : NativeScene ℓ) (m : Machine (State ℓ)) :
    List (NativeScene ℓ → NativeRun ℓ (NativeAnswer ℓ × NativeScene ℓ)) → List (NativeEntry ℓ)
  | [] => []
  | part :: parts =>
    match nativeEntry (part s) m with
    | (e, some s, m) => e :: nativeEntries s m parts
    | (e, none, _) => [e]

/-- A session with the stand-in as a library. The library may be one that makes no
runtime or no context; the session then ends at once. -/
def nativeSession (ℓ : Layout) (settings : Settings) (runtime context : Bool) (handles : Nat)
    (interrupts : List Nat) (steps : List (NativeStep ℓ)) : List (NativeEntry ℓ) :=
  let m := machine { State.empty ℓ with runtime, context }
  match nativeEntry (NativeScene.create handles) m with
  | (e, some (some s), m) =>
    let parts := interrupts.map NativeScene.setInterrupt
      ++ steps.map (NativeScene.run settings) ++ [NativeScene.finish settings, NativeScene.close]
    e :: nativeEntries s m parts
  | (e, _, _) => [e]

end ScriptHost.Scripted
