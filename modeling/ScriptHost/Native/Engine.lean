-- An engine over the functions of a library: one runtime with one context. The context is
-- freed before the runtime, and the interrupt handle is kept until both are gone, so the
-- library never polls a flag that has no owner.
import ScriptHost.Constants
import ScriptHost.Error
import ScriptHost.Native.Library
import ScriptHost.Text.Utf8

namespace ScriptHost.Native

/-- A runtime with its context, and the flag of the interrupt handle that was set. -/
structure Instance where
  runtime : UInt64
  context : UInt64
  interrupt : Option Nat
  deriving DecidableEq

variable {ℓ : Layout} {σ : Type}

/-! ## Sources -/

/-- The bytes of a source with a zero byte after them. -/
def terminated (text : String) : List UInt8 := Utf8.encode text ++ [0]

/-- A file name without zero characters. A name that has one is replaced. -/
def fileName (file : String) : String := if file.toList.contains '\x00' then "<input>" else file

/-! ## The life of an instance -/

/-- Create a runtime and a context. A runtime that gets no context is freed again. -/
def create (lib : Library ℓ σ) : Use ℓ σ (Except StartupError Instance) := do
  match ← lib.ask .newRuntime with
  | none => return .error (.engine "runtime")
  | some runtime =>
    match ← lib.ask (.newContext runtime) with
    | none =>
      lib.ask (.freeRuntime runtime)
      return .error (.engine "context")
    | some context => return .ok { runtime, context, interrupt := none }

namespace Instance

def leave (flag : Option Nat) : Use ℓ σ Unit :=
  match flag with
  | some i => Action.modify fun m => { m with flags := m.flags.leave i }
  | none => return ()

/-- Have a flag stop scripts. The instance owns the handle on the flag from then on,
and gives up the one that it had. -/
def setInterrupt (lib : Library ℓ σ) (x : Instance) (flag : Nat) : Use ℓ σ Instance := do
  lib.ask (.setInterruptHandler x.runtime true (some flag))
  leave x.interrupt
  return { x with interrupt := some flag }

def close (lib : Library ℓ σ) (x : Instance) : Use ℓ σ Unit := do
  lib.ask (.freeContext x.context)
  lib.ask (.freeRuntime x.runtime)
  leave x.interrupt

/-! ## Requests -/

/-- A number that was stored with a return code, if the code is zero. A place where
nothing was stored holds zero. -/
def toDouble (lib : Library ℓ σ) (x : Instance) (w : ℓ.Word) : Use ℓ σ (Option Double) := do
  let (code, stored) ← lib.ask (.toDouble x.context w)
  return if code = 0 then some (stored.getD .zero) else none

/-- A big integer, read from its digits: the number that the library stores is cut
down to 64 bits. -/
def toBigInteger (lib : Library ℓ σ) (x : Instance) (w : ℓ.Word) : Use ℓ σ BigInteger := do
  let (code, _) ← lib.ask (.toBigInteger x.context w)
  if code ≠ 0 then return .threw
  match ← lib.ask (.toText x.context w false) with
  | none => return .threw
  | some buffer =>
    Action.emit (.read buffer)
    let n := (Utf8.decode? buffer.bytes).elim BigInteger.outOfRange BigInteger.ofDecimal
    lib.ask (.freeText x.context buffer)
    return n

def answer (lib : Library ℓ σ) (x : Instance) : (r : ScriptHost.Request ℓ) → Use ℓ σ r.Reply
  | .freeValue w => do
    let runtime ← lib.ask (.runtimeOf x.context)
    lib.ask (.freeValue runtime w)
  | .toText w => lib.ask (.toText x.context w false)
  | .freeText buffer => lib.ask (.freeText x.context buffer)
  | .stringify w =>
    let undefined := (Constants.build ℓ).undefined
    lib.ask (.stringify x.context w undefined undefined)
  | .parse text =>
    lib.ask (.parse x.context (terminated text) (Utf8.encode text).length (fileName "<json>"))
  | .takeException => lib.ask (.takeException x.context)
  | .toDouble w => x.toDouble lib w
  | .toBigInteger w => x.toBigInteger lib w
  | .newText text => lib.ask (.newText x.context (Utf8.encode text))
  | .eval source file =>
    lib.ask (.eval x.context (terminated source) (Utf8.encode source).length (fileName file) 0)

def engine (lib : Library ℓ σ) (x : Instance) : Engine ℓ σ (Event ℓ) := ⟨x.answer lib⟩

end Instance

end ScriptHost.Native
