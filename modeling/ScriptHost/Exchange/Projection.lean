-- Script values to host values and back. Texts, numbers, truth values and nothing go over as
-- they are. An object goes over as its JSON text, and comes back as a document. Other kinds
-- have no host form. Whatever the engine throws on the way is discarded and the projection
-- fails.
import ScriptHost.Exchange.Text
import ScriptHost.HostValue
import ScriptHost.Json.Parser
import ScriptHost.Constants

namespace ScriptHost.Host

variable {ℓ : Layout} {σ ε : Type}

/-! ## From the script -/

/-- A failed projection whose exception is still pending. -/
def fail {α : Type} (h : Host ℓ σ ε) (during : String) (e : ProjectionError) :
    Exchange ℓ σ ε (Except ProjectionError α) := do
  h.discardException during
  return .error e

def projectDouble (h : Host ℓ σ ε) (t : Tag) (w : ℓ.Word) :
    Exchange ℓ σ ε (Except ProjectionError HostValue) := do
  match ← h.toDouble w with
  | some d => return .ok (.float d)
  | none => h.fail "numeric coercion" (.coercion t)

def projectBigInteger (h : Host ℓ σ ε) (t : Tag) (w : ℓ.Word) :
    Exchange ℓ σ ε (Except ProjectionError HostValue) := do
  match ← h.toBigInteger w with
  | .exact n => return .ok (.int n)
  | .outOfRange => return .error (.outOfRange t)
  | .threw => h.fail "numeric coercion" (.coercion t)

/-- The document of an object's JSON text. A text in its place is read as JSON; any
other value is taken as it is. -/
def document : HostValue → Except ProjectionError HostValue
  | .text s => (Json.parse? s).elim (.error .json) fun v => .ok (.json v)
  | v => .ok v

/-- The host value of an object, given how its JSON text is projected. -/
def projectObject (h : Host ℓ σ ε)
    (inner : ℓ.Word → Exchange ℓ σ ε (Except ProjectionError HostValue)) (w : ℓ.Word) :
    Exchange ℓ σ ε (Except ProjectionError HostValue) := do
  let written ← h.stringify w
  if written.isException then
    written.within h (h.fail "JSON.stringify" (.exception "JSON.stringify"))
  else
    return (← written.within h (inner written.word)).bind document

/-- The host value of a word under its tag, given how an object is projected. -/
def projectTagged (h : Host ℓ σ ε)
    (object : ℓ.Word → Exchange ℓ σ ε (Except ProjectionError HostValue)) (t : Tag)
    (w : ℓ.Word) : Exchange ℓ σ ε (Except ProjectionError HostValue) :=
  match t with
  | .string => return (← h.toText w).map .text
  | .int => return .ok (.int (ℓ.int32 w).toInt64)
  | .bool => return .ok (.bool (ℓ.bool w))
  | .null | .undefined | .uninitialized => return .ok .null
  | .float64 => return .ok (.float (ℓ.double w))
  | .bigFloat | .bigDecimal => h.projectDouble t w
  | .bigInt => h.projectBigInteger t w
  | .object => object w
  | .symbol | .catchOffset | .exception | .functionBytecode | .moduleRecord =>
    return .error (.unsupported t)

def projectWith (h : Host ℓ σ ε)
    (object : ℓ.Word → Exchange ℓ σ ε (Except ProjectionError HostValue)) (w : ℓ.Word) :
    Exchange ℓ σ ε (Except ProjectionError HostValue) :=
  match ℓ.tag? w with
  | some t => h.projectTagged object t w
  | none => return .error (.unknownTag (ℓ.tagNumber w))

/-- The host value of a word. An engine may write an object as an object again, any
number of times, so the projection goes only so deep. Past that it aborts. -/
def projectWithin (h : Host ℓ σ ε) :
    Nat → ℓ.Word → Exchange ℓ σ ε (Except ProjectionError HostValue)
  | 0 => h.projectWith fun _ => Action.abort
  | depth + 1 => h.projectWith (h.projectObject (h.projectWithin depth))

/-- The host value of a word that is only lent. -/
def project (h : Host ℓ σ ε) (w : ℓ.Word) :
    Exchange ℓ σ ε (Except ProjectionError HostValue) := h.projectWithin h.depth w

/-- The host value of a handle, which is dropped however this ends. -/
def projectOwned (h : Host ℓ σ ε) (x : Handle ℓ) :
    Exchange ℓ σ ε (Except ProjectionError HostValue) := x.within h (h.project x.word)

/-! ## To the script -/

/-- A result that must not be an exception. -/
def checked (h : Host ℓ σ ε) (during : String) (x : Handle ℓ) :
    Exchange ℓ σ ε (Except ProjectionError (Handle ℓ)) :=
  if x.isException then x.within h (h.fail during (.exception during)) else return .ok x

/-- A handle on the word of a host value. Only texts and documents need the engine. -/
def embed (h : Host ℓ σ ε) : HostValue → Exchange ℓ σ ε (Except ProjectionError (Handle ℓ))
  | .null => return .ok ⟨(Constants.build ℓ).null⟩
  | .bool b => return .ok ⟨ℓ.ofBool b⟩
  | .int n => return .ok ⟨ℓ.ofInt64 n⟩
  | .float d => return .ok ⟨ℓ.ofNumber d⟩
  | .text s => do h.checked "string construction" (← h.newText s)
  | .json v => do h.checked "JSON.parse" (← h.parse v.text)

end ScriptHost.Host
