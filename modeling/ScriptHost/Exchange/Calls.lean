-- The calls that the host makes for its users, each with its result in a handle. Calls that
-- may run a script or calculate are made with floating-point traps masked.
import ScriptHost.Exchange.Host

namespace ScriptHost.Host

variable {ℓ : Layout} {σ ε : Type}

/-- Run a script. The result may be an exception. -/
def eval (h : Host ℓ σ ε) (source file : String) : Exchange ℓ σ ε (Handle ℓ) := do
  return ⟨← h.askMasked (.eval source file)⟩

def parse (h : Host ℓ σ ε) (text : String) : Exchange ℓ σ ε (Handle ℓ) := do
  return ⟨← h.askMasked (.parse text)⟩

/-- Make a JSON text of a value. The result may be an exception, or undefined. -/
def stringify (h : Host ℓ σ ε) (w : ℓ.Word) : Exchange ℓ σ ε (Handle ℓ) := do
  return ⟨← h.askMasked (.stringify w)⟩

def toDouble (h : Host ℓ σ ε) (w : ℓ.Word) : Exchange ℓ σ ε (Option Double) :=
  h.askMasked (.toDouble w)

def toBigInteger (h : Host ℓ σ ε) (w : ℓ.Word) : Exchange ℓ σ ε BigInteger :=
  h.askMasked (.toBigInteger w)

def takeException (h : Host ℓ σ ε) : Exchange ℓ σ ε (Handle ℓ) := do
  return ⟨← h.ask .takeException⟩

def newText (h : Host ℓ σ ε) (text : String) : Exchange ℓ σ ε (Handle ℓ) := do
  return ⟨← h.ask (.newText text)⟩

end ScriptHost.Host
