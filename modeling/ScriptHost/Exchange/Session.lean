-- Sessions: operations on an engine, one after the other, by a program that keeps its handles
-- in a list. A handle that is gone leaves its place empty for good.
import ScriptHost.Exchange.Projection

namespace ScriptHost

abbrev Slots (ℓ : Layout) := List (Option (Handle ℓ))

/-- What a session can do. Handles are named by their places; words are only lent,
but for the one that is owned from then on. -/
inductive Operation (ℓ : Layout)
  /-- Own a reference that the session holds in a bare word. -/
  | own (w : ℓ.Word)
  | immediate (w : ℓ.Word)
  | clone (slot : Nat)
  | drop (slot : Nat)
  /-- Turn a handle back into a bare word. -/
  | intoWord (slot : Nat)
  | inspect (slot : Nat)
  | retain (w : ℓ.Word)
  | release (w : ℓ.Word)
  | count (w : ℓ.Word)
  | project (w : ℓ.Word)
  | projectOwned (slot : Nat)
  | embed (v : HostValue)
  | toText (w : ℓ.Word)
  | toUnits (w : ℓ.Word)
  | newText (text : String)
  | newUnits (units : List UInt16)
  | eval (source file : String)
  | parse (text : String)
  | stringify (w : ℓ.Word)
  | takeException
  | toDouble (w : ℓ.Word)
  | toBigInteger (w : ℓ.Word)

structure Inspection (ℓ : Layout) where
  word : ℓ.Word
  tag : Option Tag
  tagNumber : Int32
  isException : Bool
  isCounted : Bool
  count : Option Int32
  text : String

inductive Answer (ℓ : Layout)
  | nothing
  | slot (place : Nat) (w : ℓ.Word)
  | word (w : ℓ.Word)
  | inspection (i : Inspection ℓ)
  | truth (b : Bool)
  | count (n : Option Int32)
  | value (v : HostValue)
  | text (s : String)
  | units (us : List UInt16)
  | double (d : Option Double)
  | bigInteger (n : BigInteger)
  | failed (e : ProjectionError)
  | noHandle

namespace Slots

variable {ℓ : Layout} {σ ε : Type}

def handle? (s : Slots ℓ) (slot : Nat) : Option (Handle ℓ) := (s[slot]?).join

def add (s : Slots ℓ) (x : Handle ℓ) : Answer ℓ × Slots ℓ :=
  (.slot s.length x.word, s ++ [some x])

def addResult (s : Slots ℓ) : Except ProjectionError (Handle ℓ) → Answer ℓ × Slots ℓ
  | .ok x => s.add x
  | .error e => (.failed e, s)

def empty (s : Slots ℓ) (slot : Nat) : Slots ℓ := s.set slot none

end Slots

def Handle.inspect {ℓ : Layout} {σ ε : Type} (x : Handle ℓ) : Exchange ℓ σ ε (Inspection ℓ) := do
  return { word := x.word, tag := x.tag?, tagNumber := x.tagNumber, isException := x.isException,
           isCounted := x.isCounted, count := ← Exchange.count? x.word, text := x.describe }

namespace Operation

variable {ℓ : Layout} {σ ε : Type}

/-- What became of a value that has no place of its own. -/
def answerOf {α : Type} (f : α → Answer ℓ) : Except ProjectionError α → Answer ℓ
  | .ok a => f a
  | .error e => .failed e

def onHandle (s : Slots ℓ) (slot : Nat)
    (f : Handle ℓ → Exchange ℓ σ ε (Answer ℓ × Slots ℓ)) : Exchange ℓ σ ε (Answer ℓ × Slots ℓ) :=
  match s.handle? slot with
  | some x => f x
  | none => return (.noHandle, s)

def run (h : Host ℓ σ ε) (s : Slots ℓ) : Operation ℓ → Exchange ℓ σ ε (Answer ℓ × Slots ℓ)
  | own w => return s.add ⟨w⟩
  | immediate w => return (Handle.immediate? w).elim (.nothing, s) s.add
  | clone slot => onHandle s slot fun x => do return s.add (← x.clone)
  | drop slot => onHandle s slot fun x => do
    x.drop h
    return (.nothing, s.empty slot)
  | intoWord slot => onHandle s slot fun x => return (.word x.word, s.empty slot)
  | inspect slot => onHandle s slot fun x => do return (.inspection (← x.inspect), s)
  | retain w => do return (.word (← Exchange.retain w), s)
  | release w => do return (.truth (← Exchange.release w), s)
  | count w => do return (.count (← Exchange.count? w), s)
  | project w => do return (answerOf .value (← h.project w), s)
  | projectOwned slot => onHandle s slot fun x => do
    return (answerOf .value (← h.projectOwned x), s.empty slot)
  | embed v => do return s.addResult (← h.embed v)
  | toText w => do return (answerOf .text (← h.toText w), s)
  | toUnits w => do return (answerOf .units (← h.toUnits w), s)
  | newText text => do return s.add (← h.newText text)
  | newUnits units => do return s.addResult (← h.newUnits units)
  | eval source file => do return s.add (← h.eval source file)
  | parse text => do return s.add (← h.parse text)
  | stringify w => do return s.add (← h.stringify w)
  | takeException => do return s.add (← h.takeException)
  | toDouble w => do return (.double (← h.toDouble w), s)
  | toBigInteger w => do return (.bigInteger (← h.toBigInteger w), s)

/-- Operations one after the other, with what each gives. -/
def runAll (h : Host ℓ σ ε) (s : Slots ℓ) :
    List (Operation ℓ) → Exchange ℓ σ ε (List (Answer ℓ) × Slots ℓ)
  | [] => return ([], s)
  | op :: ops => do
    let (answer, s) ← op.run h s
    let (rest, s) ← runAll h s ops
    return (answer :: rest, s)

/-- Every handle that is left dropped, in the order of the places. -/
def closeAll (h : Host ℓ σ ε) (s : Slots ℓ) : Exchange ℓ σ ε Unit :=
  s.forM fun slot => slot.forM (Handle.drop h)

end Operation

end ScriptHost
