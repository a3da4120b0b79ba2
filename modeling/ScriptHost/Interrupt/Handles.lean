-- Handles on interrupt flags, known by the order in which they were made. A clone of a handle
-- is a handle on the same flag. A handle that was dropped keeps its place.
import ScriptHost.Interrupt.Flags

namespace ScriptHost

/-- The flags, and the flag of each handle that is still held. -/
structure InterruptHandles where
  flags : Flags
  handles : List (Option Nat)

/-- What can be done with handles. A poll comes from the engine, which may have been
given no handle at all. -/
inductive InterruptStep
  | new
  | clone (handle : Nat)
  | drop (handle : Nat)
  | request (handle : Nat)
  | reset (handle : Nat)
  | poll (handle : Option Nat)

/-- What a step gives: the place of a new handle, what a poll saw, or nothing. -/
inductive InterruptAnswer
  | handle (place : Nat)
  | polled (stop : Bool)
  | nothing
  deriving DecidableEq

namespace InterruptHandles

def empty : InterruptHandles := ⟨[], []⟩

/-- The flag of a handle that is still held. -/
def flag? (s : InterruptHandles) (handle : Nat) : Option Nat := (s.handles[handle]?).join

/-- Whether a handle sees an interrupt requested, if it is still held. -/
def isRequested? (s : InterruptHandles) (handle : Nat) : Option Bool :=
  (s.flag? handle).map s.flags.isRequested

def view (s : InterruptHandles) : List (Option Bool) :=
  s.handles.map fun h => h.map s.flags.isRequested

/-- A step. On a handle that is no longer held it does nothing. -/
def step (s : InterruptHandles) : InterruptStep → InterruptAnswer × InterruptHandles
  | .new =>
    let (i, flags) := s.flags.make
    (.handle s.handles.length, ⟨flags, s.handles ++ [some i]⟩)
  | .clone h =>
    match s.flag? h with
    | some i => (.handle s.handles.length, ⟨s.flags.share i, s.handles ++ [some i]⟩)
    | none => (.nothing, s)
  | .drop h =>
    match s.flag? h with
    | some i => (.nothing, ⟨s.flags.leave i, s.handles.set h none⟩)
    | none => (.nothing, s)
  | .request h =>
    match s.flag? h with
    | some i => (.nothing, { s with flags := s.flags.request i })
    | none => (.nothing, s)
  | .reset h =>
    match s.flag? h with
    | some i => (.nothing, { s with flags := s.flags.reset i })
    | none => (.nothing, s)
  | .poll h => (.polled (s.flags.poll (h.bind s.flag?)), s)

/-- Steps one after the other, with what every handle sees after each. -/
def run (s : InterruptHandles) :
    List InterruptStep → List (InterruptAnswer × List (Option Bool)) × InterruptHandles
  | [] => ([], s)
  | step :: steps =>
    let (answer, s) := s.step step
    let (rest, last) := s.run steps
    ((answer, s.view) :: rest, last)

end InterruptHandles

end ScriptHost
