-- The stand-in engine. It can be met as an engine, and as a library of functions with one
-- runtime and one context; both follow the same script.
import ScriptHost.Native.Engine
import ScriptHost.Scripted.State

namespace ScriptHost.Scripted

variable {ℓ : Layout}

/-- A step of the stand-in: a reply and what is left. -/
abbrev Turn (ℓ : Layout) (α : Type) : Type := Machine (State ℓ) → α × Machine (State ℓ)

/-! ## Replies -/

/-- The reply to a call on a value: the next one of the queue, or that of its block. -/
def replyOn (c : Cue) (w : ℓ.Word) : Turn ℓ (Reply ℓ) := fun m =>
  match m.inner.dequeue c with
  | (some r, s) => (r, { m with inner := s })
  | (none, s) =>
    let block := (s.blockOf? w).bind fun n => s.blocks[n]?
    (block.elim .nothing fun b => b.reply c, m)

/-- What a failed call throws, if anything. -/
def thrown (r : Reply ℓ) (m : Machine (State ℓ)) : Machine (State ℓ) :=
  match r with
  | .throw v => pend v m
  | _ => m

/-- A word as a reply; a call that fails replies with the exception. -/
def wordReply (r : Reply ℓ) : Turn ℓ ℓ.Word := fun m =>
  match r with
  | .value v => newReference v m
  | r => ((Constants.build ℓ).exception, thrown r m)

/-- The reply to a call that is made on no value, with a value for an empty queue. -/
def replyOr (c : Cue) (standard : Value ℓ) : Turn ℓ ℓ.Word := fun m =>
  match m.inner.dequeue c with
  | (some r, s) => wordReply r { m with inner := s }
  | (none, _) => newReference standard m

/-- The bytes of a text reply. A value without a count is written as its tag. -/
def textBytes? (r : Reply ℓ) (w : ℓ.Word) : Option (List UInt8) :=
  match r with
  | .text s => some (Utf8.encode s)
  | .bytes bs => some bs
  | .nothing => if ℓ.isCounted w then none else (ℓ.tag? w).map fun t => Utf8.encode t.name
  | _ => none

/-! ## Calls -/

def toText (w : ℓ.Word) : Turn ℓ (Option Buffer) := fun m =>
  let (r, m) := replyOn .toText w m
  match textBytes? r w with
  | some bytes =>
    let s := { m.inner with openTexts := m.inner.openTexts + 1 }
    (some ⟨0x30000000, bytes⟩, { m with inner := s })
  | none => (none, thrown r m)

def freeText : Turn ℓ Unit := fun m =>
  ((), { m with inner := { m.inner with openTexts := m.inner.openTexts - 1 } })

def freeValue (w : ℓ.Word) : Turn ℓ Unit := fun m =>
  match m.inner.blockOf? w with
  | some n => ((), { m with inner := { m.inner with freed := m.inner.freed.insert n } })
  | none => ((), m)

def stringify (w : ℓ.Word) : Turn ℓ ℓ.Word := fun m =>
  let (r, m) := replyOn .stringify w m
  wordReply r m

def parse (text : String) : Turn ℓ ℓ.Word := replyOr .parse (.new (.ofJson text))

def newText (text : String) : Turn ℓ ℓ.Word := replyOr .newText (.new (.ofText text))

def eval : Turn ℓ ℓ.Word := replyOr .eval (.constant "undefined")

def takeException : Turn ℓ ℓ.Word := fun m =>
  let w := m.inner.pending.getD (Constants.build ℓ).null
  (w, { m with inner := { m.inner with pending := none } })

/-! ## As an engine -/

def toDouble (w : ℓ.Word) : Turn ℓ (Option Double) := fun m =>
  match replyOn .toDouble w m with
  | (.double d, m) => (some d, m)
  | (r, m) => (none, thrown r m)

def toBigInteger (w : ℓ.Word) : Turn ℓ BigInteger := fun m =>
  match replyOn .toBigInteger w m with
  | (.digits s, m) => (.ofDecimal s, m)
  | (r, m) => (.threw, thrown r m)

def turn : (r : Request ℓ) → Turn ℓ r.Reply
  | .freeValue w => freeValue w
  | .toText w => toText w
  | .freeText _ => freeText
  | .stringify w => stringify w
  | .parse text => parse text
  | .takeException => takeException
  | .toDouble w => toDouble w
  | .toBigInteger w => toBigInteger w
  | .newText text => newText text
  | .eval _ _ => eval

def engine (ℓ : Layout) : Engine ℓ (State ℓ) Empty where
  answer r := fun m =>
    let (reply, m) := turn r m
    ⟨.value reply, [], m⟩

/-! ## As a library -/

def runtimeAddress : UInt64 := 0x20000000

def contextAddress : UInt64 := 0x20000100

def storeDouble (w : ℓ.Word) : Turn ℓ (Int32 × Option Double) := fun m =>
  match replyOn .toDouble w m with
  | (.double d, m) => ((0, some d), m)
  | (.code n, m) => ((n, none), m)
  | (r, m) => ((-1, none), thrown r m)

/-- A big integer is stored cut down to 64 bits. -/
def storeBigInteger (w : ℓ.Word) : Turn ℓ (Int32 × Option Int64) := fun m =>
  match replyOn .toBigInteger w m with
  | (.digits s, m) => ((0, (Text.integer? s.toList).map Int64.ofInt), m)
  | (.code n, m) => ((n, none), m)
  | (r, m) => ((-1, none), thrown r m)

def functionTurn : (r : Native.Request ℓ) → Turn ℓ r.Reply
  | .newRuntime => fun m => (if m.inner.runtime then some runtimeAddress else none, m)
  | .newContext _ => fun m => (if m.inner.context then some contextAddress else none, m)
  | .freeContext _ => fun m => ((), m)
  | .freeRuntime _ => fun m => ((), m)
  | .runtimeOf _ => fun m => (runtimeAddress, m)
  | .freeValue _ w => freeValue w
  | .toText _ w _ => toText w
  | .freeText _ _ => freeText
  | .stringify _ w _ _ => stringify w
  | .parse _ source length _ => parse (Utf8.decodeLossy (source.take length))
  | .takeException _ => takeException
  | .toDouble _ w => storeDouble w
  | .toBigInteger _ w => storeBigInteger w
  | .newText _ bytes => newText (Utf8.decodeLossy bytes)
  | .eval _ _ _ _ _ => eval
  | .setInterruptHandler _ callback flag => fun m =>
    ((), { m with inner := { m.inner with interrupt := if callback then some flag else none } })

def library (ℓ : Layout) : Native.Library ℓ (State ℓ) := ⟨functionTurn⟩

end ScriptHost.Scripted
