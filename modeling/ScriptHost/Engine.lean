-- The engine as the host meets it: ten requests and their replies. A word in a reply brings
-- one reference with it, and a word in a request is only lent. A word may be an exception;
-- what was thrown is then pending until it is taken.
import ScriptHost.Action
import ScriptHost.BigInteger
import ScriptHost.Layout.Basic
import ScriptHost.Log
import ScriptHost.Machine

namespace ScriptHost

/-- A text that an engine has handed out and still owns. -/
structure Buffer where
  address : UInt64
  bytes : List UInt8
  deriving DecidableEq

/-- What the host asks of an engine. A text or a double is not to be had where making it throws. -/
inductive Request (ℓ : Layout)
  | freeValue (w : ℓ.Word)
  | toText (w : ℓ.Word)
  | freeText (buffer : Buffer)
  | stringify (w : ℓ.Word)
  | parse (text : String)
  /-- The pending exception, which is then pending no more. -/
  | takeException
  | toDouble (w : ℓ.Word)
  | toBigInteger (w : ℓ.Word)
  | newText (text : String)
  | eval (source file : String)

@[reducible]
def Request.Reply {ℓ : Layout} : Request ℓ → Type
  | freeValue _ => Unit
  | toText _ => Option Buffer
  | freeText _ => Unit
  | stringify _ => ℓ.Word
  | parse _ => ℓ.Word
  | takeException => ℓ.Word
  | toDouble _ => Option Double
  | toBigInteger _ => BigInteger
  | newText _ => ℓ.Word
  | eval _ _ => ℓ.Word

/-- An engine answers requests. It may change anything that it shares with the host,
it may unwind, and it leaves events of its own. -/
structure Engine (ℓ : Layout) (σ ε : Type) where
  answer : (r : Request ℓ) → Action (Machine σ) ε r.Reply

/-- One call into an engine, with the control state that it began with. There is no
reply where the engine did not return. -/
structure Call (ℓ : Layout) (ε : Type) where
  request : Request ℓ
  control : ControlState
  inner : List ε
  reply : Option request.Reply

/-- What shows of an exchange from outside. -/
inductive Event (ℓ : Layout) (ε : Type)
  | call (c : Call ℓ ε)
  | read (buffer : Buffer)
  /-- The host writes the control state. -/
  | install (c : ControlState)
  | retain (w : ℓ.Word)
  /-- The host gives a reference to a word back. With it stands the count that is left. -/
  | release (w : ℓ.Word) (left : Option Int32)
  | log (r : Record)

/-- What the host does with an engine of some kind. -/
abbrev Exchange (ℓ : Layout) (σ ε α : Type) : Type := Action (Machine σ) (Event ℓ ε) α

end ScriptHost
