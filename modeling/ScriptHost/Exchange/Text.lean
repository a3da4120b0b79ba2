-- Texts in both directions, and what becomes of an exception. A buffer of the engine is read
-- once and then given back. When the engine throws, the pending exception is taken and its
-- text is logged, so none is left behind.
import ScriptHost.Exchange.Calls
import ScriptHost.Text.Utf16
import ScriptHost.Text.Utf8

namespace ScriptHost.Host

variable {ℓ : Layout} {σ ε : Type}

def readBuffer (h : Host ℓ σ ε) (b : Buffer) : Exchange ℓ σ ε String :=
  (do
    Action.emit (.read b)
    return Utf8.decodeLossy b.bytes : Exchange ℓ σ ε String).ensuring (h.ask (.freeText b))

/-- The text of a value, unless making it throws. The exception is left pending. -/
def coerceText? (h : Host ℓ σ ε) (w : ℓ.Word) : Exchange ℓ σ ε (Option String) := do
  match ← h.askMasked (.toText w) with
  | some b => return some (← h.readBuffer b)
  | none => return none

/-- The record of an exception that was discarded. One whose text throws in its turn
has none. -/
def discarded (during : String) (message : Option String) : String :=
  "engine raised an exception during " ++ during ++ ": " ++ message.getD "<unprintable>"

/-- Take the pending exception and log it. -/
def discardException (h : Host ℓ σ ε) (during : String) : Exchange ℓ σ ε Unit := do
  let thrown ← h.takeException
  thrown.within h do
    let message ← h.coerceText? thrown.word
    if message.isNone then (← h.takeException).drop h
    Exchange.log .warn (discarded during message)

def toText (h : Host ℓ σ ε) (w : ℓ.Word) : Exchange ℓ σ ε (Except ProjectionError String) := do
  match ← h.coerceText? w with
  | some s => return .ok s
  | none =>
    h.discardException "string coercion"
    return .error .stringConversion

def toUnits (h : Host ℓ σ ε) (w : ℓ.Word) :
    Exchange ℓ σ ε (Except ProjectionError (List UInt16)) := do
  return (← h.toText w).map Utf16.encode

/-- Make a text value of code units, if every surrogate has its partner. -/
def newUnits (h : Host ℓ σ ε) (units : List UInt16) :
    Exchange ℓ σ ε (Except ProjectionError (Handle ℓ)) :=
  match Utf16.decode? units with
  | some s => return .ok (← h.newText s)
  | none => return .error .utf16

end ScriptHost.Host
