-- The heap of a stand-in engine, its pending exception and its queues. Blocks are never moved
-- and never used again, and one that was freed can still be looked at.
import ScriptHost.Constants
import ScriptHost.Engine
import ScriptHost.Reference
import ScriptHost.Scripted.Script
import ScriptHost.Text.Utf8

namespace ScriptHost.Scripted

structure State (ℓ : Layout) where
  /-- The blocks in the order in which they were made. -/
  blocks : List (Block ℓ)
  freed : List Nat
  pending : Option ℓ.Word
  /-- The buffers that are handed out. -/
  openTexts : Int
  queues : Cue → List (Reply ℓ)
  /-- The flag that the interrupt callback was given, if there is a callback. -/
  interrupt : Option (Option Nat)
  /-- Whether a runtime and a context can be made. -/
  runtime : Bool
  context : Bool

namespace State

variable {ℓ : Layout}

def empty (ℓ : Layout) : State ℓ :=
  { blocks := [], freed := [], pending := none, openTexts := 0, queues := fun _ => [],
    interrupt := none, runtime := true, context := true }

def address (n : Nat) : UInt64 := 0x10000000 + 16 * UInt64.ofNat n

def blockAt? (s : State ℓ) (a : UInt64) : Option Nat :=
  let n := (a.toNat - 0x10000000) / 16
  if n < s.blocks.length ∧ address n = a then some n else none

/-- The block that a word points to. -/
def blockOf? (s : State ℓ) (w : ℓ.Word) : Option Nat :=
  if ℓ.isCounted w then s.blockAt? (ℓ.payload w) else none

def wordOf? (s : State ℓ) (n : Nat) : Option ℓ.Word :=
  (s.blocks[n]?).bind fun b => (ℓ.carry b.tag (address n)).toOption

/-- The word of a value that needs no new block. -/
def word? (s : State ℓ) : Value ℓ → Option ℓ.Word
  | .block n => s.wordOf? n
  | .tagged t n => some (ℓ.immediate t n)
  | .double d => some (ℓ.ofDouble d)
  | .word w => some w
  | .constant name => (Constants.build ℓ).get? name
  | .new _ => none

def enqueue (s : State ℓ) (c : Cue) (r : Reply ℓ) : State ℓ :=
  { s with queues := fun c' => if c' = c then s.queues c ++ [r] else s.queues c' }

def dequeue (s : State ℓ) (c : Cue) : Option (Reply ℓ) × State ℓ :=
  match s.queues c with
  | r :: rest => (some r, { s with queues := fun c' => if c' = c then rest else s.queues c' })
  | [] => (none, s)

end State

/-! ## References -/

variable {ℓ : Layout}

/-- The counts of the blocks, in the order in which they were made. -/
def counts (m : Machine (State ℓ)) : List Int32 :=
  (List.range m.inner.blocks.length).map fun n => m.counts (State.address n)

def allocate (b : Block ℓ) (m : Machine (State ℓ)) : ℓ.Word × Machine (State ℓ) :=
  let n := m.inner.blocks.length
  let s := { m.inner with blocks := m.inner.blocks ++ [b] }
  let m := { m with inner := s }.updateCount (State.address n) fun _ => 1
  ((s.wordOf? n).getD (Constants.build ℓ).undefined, m)

/-- A new reference to a value. A value that names nothing is undefined. -/
def newReference (v : Value ℓ) (m : Machine (State ℓ)) : ℓ.Word × Machine (State ℓ) :=
  match v with
  | .new b => allocate b m
  | v =>
    let w := (m.inner.word? v).getD (Constants.build ℓ).undefined
    (w, m.retain ℓ w)

/-- Make a new reference the pending exception, in the place of an earlier one. -/
def pend (v : Value ℓ) (m : Machine (State ℓ)) : Machine (State ℓ) :=
  let (w, m) := newReference v m
  { m with inner := { m.inner with pending := some w } }

end ScriptHost.Scripted
