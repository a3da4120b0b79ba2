-- Scripts for a stand-in engine: what it answers to which call. Replies belong to a block,
-- which gives its reply every time, or wait in a queue, where each is given once.
import ScriptHost.Layout.Basic

namespace ScriptHost.Scripted

/-- The calls that a script has replies for. -/
inductive Cue
  | toText
  | toDouble
  | toBigInteger
  | stringify
  | parse
  | newText
  | eval
  deriving DecidableEq

mutual

/-- A value that a script names. -/
inductive Value (ℓ : Layout)
  /-- The word of a block that was made before. -/
  | block (n : Nat)
  | tagged (t : Tag) (n : Int32)
  | double (d : Double)
  | word (w : ℓ.Word)
  | constant (name : String)
  /-- The word of a block that is made for it. -/
  | new (block : Block ℓ)

/-- A block: its tag, and its replies to the calls that are made on it. -/
inductive Block (ℓ : Layout)
  | mk (tag : Tag) (toText toDouble toBigInteger stringify : Reply ℓ)

inductive Reply (ℓ : Layout)
  /-- The call fails, but for the text of a value that is not counted. -/
  | nothing
  | failure
  /-- The call fails and throws. -/
  | throw (v : Value ℓ)
  | text (s : String)
  | bytes (bs : List UInt8)
  | double (d : Double)
  | digits (s : String)
  | code (n : Int32)
  | value (v : Value ℓ)

end

namespace Block

variable {ℓ : Layout}

def tag : Block ℓ → Tag
  | mk t _ _ _ _ => t

/-- The reply of a block. Only calls that are made on a value have one. -/
def reply : Block ℓ → Cue → Reply ℓ
  | mk _ r _ _ _, .toText => r
  | mk _ _ r _ _, .toDouble => r
  | mk _ _ _ r _, .toBigInteger => r
  | mk _ _ _ _ r, .stringify => r
  | _, _ => .nothing

def ofText (s : String) : Block ℓ := mk .string (.text s) .nothing .nothing .nothing

/-- An object block that is written as a given JSON text. -/
def ofJson (s : String) : Block ℓ :=
  mk .object .nothing .nothing .nothing (.value (.new (ofText s)))

end Block

end ScriptHost.Scripted
