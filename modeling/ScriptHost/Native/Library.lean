-- The functions of an engine library. They work on pointers to runtimes and contexts, a null
-- pointer being `none` here. Numbers come back through a place that the caller gives, beside a
-- return code that is zero on success.
import ScriptHost.Engine

namespace ScriptHost.Native

inductive Request (ℓ : Layout)
  | newRuntime
  | newContext (runtime : UInt64)
  | freeContext (context : UInt64)
  | freeRuntime (runtime : UInt64)
  | runtimeOf (context : UInt64)
  | freeValue (runtime : UInt64) (w : ℓ.Word)
  /-- The buffer of a text, in standard UTF-8 unless pairs of surrogates stay apart. -/
  | toText (context : UInt64) (w : ℓ.Word) (splitPairs : Bool)
  | freeText (context : UInt64) (buffer : Buffer)
  | stringify (context : UInt64) (w replacer space : ℓ.Word)
  /-- A source is a number of bytes; the library also looks at the byte after them. -/
  | parse (context : UInt64) (source : List UInt8) (length : Nat) (file : String)
  | takeException (context : UInt64)
  | toDouble (context : UInt64) (w : ℓ.Word)
  | toBigInteger (context : UInt64) (w : ℓ.Word)
  | newText (context : UInt64) (bytes : List UInt8)
  | eval (context : UInt64) (source : List UInt8) (length : Nat) (file : String) (flags : Nat)
  /-- Have the library poll a flag from then on. -/
  | setInterruptHandler (runtime : UInt64) (callback : Bool) (flag : Option Nat)

/-- The kind of reply of a function. What a function stores may be nothing. -/
@[reducible]
def Request.Reply {ℓ : Layout} : Request ℓ → Type
  | newRuntime => Option UInt64
  | newContext _ => Option UInt64
  | freeContext _ => Unit
  | freeRuntime _ => Unit
  | runtimeOf _ => UInt64
  | freeValue _ _ => Unit
  | toText _ _ _ => Option Buffer
  | freeText _ _ => Unit
  | stringify _ _ _ _ => ℓ.Word
  | parse _ _ _ _ => ℓ.Word
  | takeException _ => ℓ.Word
  | toDouble _ _ => Int32 × Option Double
  | toBigInteger _ _ => Int32 × Option Int64
  | newText _ _ => ℓ.Word
  | eval _ _ _ _ _ => ℓ.Word
  | setInterruptHandler _ _ _ => Unit

/-- A library answers every call, and may change whatever it shares with the host. -/
structure Library (ℓ : Layout) (σ : Type) where
  answer : (r : Request ℓ) → Machine σ → r.Reply × Machine σ

/-- What shows of the library from outside. A call comes with the interrupt flags as
they are when it begins. -/
inductive Event (ℓ : Layout)
  | call (r : Request ℓ) (flags : Flags) (reply : r.Reply)
  | read (buffer : Buffer)

abbrev Use (ℓ : Layout) (σ α : Type) : Type := Action (Machine σ) (Event ℓ) α

def Library.ask {ℓ : Layout} {σ : Type} (lib : Library ℓ σ) (r : Request ℓ) : Use ℓ σ r.Reply :=
  fun m =>
    let out := lib.answer r m
    ⟨.value out.1, [.call r m.flags out.1], out.2⟩

end ScriptHost.Native
