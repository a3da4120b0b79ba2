-- The host's side of one engine, and the handles that it holds. A handle owns one reference:
-- it takes another one when it is cloned and gives its own back when it is dropped. The handle
-- that gives back the last one has the block freed.
import ScriptHost.Fpu.Guard
import ScriptHost.Reference

namespace ScriptHost

structure Host (ℓ : Layout) (σ ε : Type) where
  engine : Engine ℓ σ ε
  settings : Settings
  /-- How many objects may be projected inside each other before the stack is full. -/
  depth : Nat

namespace Host

variable {ℓ : Layout} {σ ε : Type}

def ask (h : Host ℓ σ ε) (r : Request ℓ) : Exchange ℓ σ ε r.Reply := fun m =>
  let out := h.engine.answer r m
  ⟨out.ending, [.call ⟨r, m.control, out.events, out.ending.value?⟩], out.state⟩

/-- One call into the engine with floating-point traps masked. -/
def askMasked (h : Host ℓ σ ε) (r : Request ℓ) : Exchange ℓ σ ε r.Reply :=
  Fpu.withMasked h.settings (h.ask r)

end Host

/-! ## References -/

namespace Exchange

variable {ℓ : Layout} {σ ε : Type}

def log (level : Level) (text : String) : Exchange ℓ σ ε Unit := .emit (.log ⟨level, text⟩)

def retain (w : ℓ.Word) : Exchange ℓ σ ε ℓ.Word := do
  Action.modify fun m => m.retain ℓ w
  Action.emit (.retain w)
  return w

/-- Give back a reference. Tells whether this brought the count to zero exactly. -/
def release (w : ℓ.Word) : Exchange ℓ σ ε Bool := do
  Action.modify fun m => m.release ℓ w
  let left := (← Action.get).count? ℓ w
  Action.emit (.release w left)
  return left == some 0

def count? (w : ℓ.Word) : Exchange ℓ σ ε (Option Int32) := do
  return (← Action.get).count? ℓ w

end Exchange

/-! ## Handles -/

/-- One reference that the host owns. -/
structure Handle (ℓ : Layout) where
  word : ℓ.Word

namespace Handle

variable {ℓ : Layout} {σ ε : Type}

/-- A handle on a word that is not counted, so that there is nothing to own. -/
def immediate? (w : ℓ.Word) : Option (Handle ℓ) := if ℓ.isCounted w then none else some ⟨w⟩

def tag? (x : Handle ℓ) : Option Tag := ℓ.tag? x.word

def tagNumber (x : Handle ℓ) : Int32 := ℓ.tagNumber x.word

def isException (x : Handle ℓ) : Bool := ℓ.isException x.word

def isCounted (x : Handle ℓ) : Bool := ℓ.isCounted x.word

def clone (x : Handle ℓ) : Exchange ℓ σ ε (Handle ℓ) := do
  return ⟨← Exchange.retain x.word⟩

/-- The record of a block that is freed. -/
def freeing (x : Handle ℓ) : String :=
  "freeing " ++ (x.tag?.elim "unknown" Tag.name) ++ " value at "
    ++ Text.hex (ℓ.payload x.word).toNat

def drop (h : Host ℓ σ ε) (x : Handle ℓ) : Exchange ℓ σ ε Unit := do
  if ← Exchange.release x.word then
    Exchange.log .trace x.freeing
    h.ask (.freeValue x.word)

/-- A body that has a handle, which is dropped however the body ends. -/
def within {α : Type} (h : Host ℓ σ ε) (x : Handle ℓ) (body : Exchange ℓ σ ε α) :
    Exchange ℓ σ ε α := body.ensuring (x.drop h)

def describe (x : Handle ℓ) : String :=
  "OwnedValue \x7b tag: " ++ (x.tag?.elim "None" fun t => "Some(" ++ t.label ++ ")")
    ++ ", raw: " ++ ℓ.describe x.word ++ " \x7d"

end Handle

end ScriptHost
