-- The three layouts of a word, side by side. Each says how a tag and a payload are put into a
-- word and how they are read back. Reading with the accessor of another tag is not an error:
-- it gives whatever bits stand there.
import ScriptHost.Layout.Wide
import ScriptHost.Layout.Boxed
import ScriptHost.Layout.Strict
import ScriptHost.Error

namespace ScriptHost

/-- How words are laid out. An engine is built for one of the layouts. -/
inductive Layout
  | wide
  | boxed
  | strict
  deriving DecidableEq

namespace Layout

@[reducible]
def Word : Layout → Type
  | wide => Wide
  | boxed => UInt64
  | strict => UInt64

instance : (ℓ : Layout) → DecidableEq ℓ.Word
  | wide => inferInstanceAs (DecidableEq Wide)
  | boxed => inferInstanceAs (DecidableEq UInt64)
  | strict => inferInstanceAs (DecidableEq UInt64)

def name : Layout → String
  | wide => "struct"
  | boxed => "nan-boxing"
  | strict => "strict-nan-boxing"

def numbering : Layout → Numbering
  | wide => .negative
  | boxed => .negative
  | strict => .strict

/-- The width of an address or a raw word. -/
def payloadBits : Layout → Nat
  | wide => 64
  | boxed => 32
  | strict => 48

/-! ## Building words -/

/-- A word for an immediate. It is assembled in the same way under any other tag. -/
def immediate : (ℓ : Layout) → Tag → Int32 → ℓ.Word
  | wide => Wide.immediate
  | boxed => Boxed.immediate
  | strict => Strict.immediate

/-- A word for a double. All NaNs get the same word. -/
def ofDouble : (ℓ : Layout) → Double → ℓ.Word
  | wide => Wide.ofDouble
  | boxed => Boxed.ofDouble
  | strict => Strict.ofDouble

/-- A word for a tag and a payload that is known to fit. -/
def assemble : (ℓ : Layout) → Tag → UInt64 → ℓ.Word
  | wide => Wide.make
  | boxed => fun t payload => Boxed.make t payload.toUInt32
  | strict => Strict.make

/-- A word for an address or a raw word, if it fits. -/
def carry (ℓ : Layout) (t : Tag) (payload : UInt64) : Except CodecError ℓ.Word :=
  if payload.toNat < powTwo ℓ.payloadBits then .ok (ℓ.assemble t payload)
  else .error (.overflow payload ℓ.payloadBits ℓ.name)

/-! ## Reading words -/

/-- The tag number as it is stored. In the boxed layout that of a double says nothing. -/
def rawTag : (ℓ : Layout) → ℓ.Word → Int32
  | wide => Wide.rawTag
  | boxed => Boxed.rawTag
  | strict => Strict.rawTag

/-- The tag number, the same one for all doubles. -/
def tagNumber : (ℓ : Layout) → ℓ.Word → Int32
  | wide => Wide.rawTag
  | boxed => Boxed.tagNumber
  | strict => Strict.rawTag

def int32 : (ℓ : Layout) → ℓ.Word → Int32
  | wide => Wide.int32
  | boxed => Boxed.int32
  | strict => Strict.int32

/-- The payload bits: the address of a counted word. -/
def payload : (ℓ : Layout) → ℓ.Word → UInt64
  | wide => Wide.payload
  | boxed => Boxed.payload
  | strict => Strict.payload

def double : (ℓ : Layout) → ℓ.Word → Double
  | wide => Wide.double
  | boxed => Boxed.double
  | strict => Strict.double

def bool (ℓ : Layout) (w : ℓ.Word) : Bool := ℓ.int32 w != 0

/-- The tag of a word, if its number is in use. -/
def tag? (ℓ : Layout) (w : ℓ.Word) : Option Tag := ℓ.numbering.tag? (ℓ.tagNumber w)

/-- Whether a word points to a block that counts its references. -/
def isCounted (ℓ : Layout) (w : ℓ.Word) : Bool := ℓ.numbering.isCounted (ℓ.rawTag w)

def isFloat (ℓ : Layout) (w : ℓ.Word) : Bool := ℓ.tagNumber w == ℓ.numbering.number .float64

def isException (ℓ : Layout) (w : ℓ.Word) : Bool := ℓ.rawTag w == ℓ.numbering.number .exception

def describe : (ℓ : Layout) → ℓ.Word → String
  | wide, w => Wide.describe w
  | boxed, w => toString (w : UInt64).toNat
  | strict, w => toString (w : UInt64).toNat

/-! ## The size of a word -/

def wordSize : Layout → Nat
  | wide => 16
  | boxed => 8
  | strict => 8

/-- The bytes that an engine expects a word to take, with 8 bytes in a pointer. -/
def expectedSize : Layout → Nat
  | wide => 2 * 8
  | boxed => 8
  | strict => 8

def sizeOf : Layout → String
  | wide => "JSValue (two pointer widths)"
  | boxed => "JSValue (one double)"
  | strict => "JSValue (one double)"

/-- The size of a word held against an expected one. -/
def checkSize (ℓ : Layout) (expected : Nat) : Except StartupError Unit :=
  if ℓ.wordSize = expected then .ok () else .error (.size ℓ.name ℓ.sizeOf expected ℓ.wordSize)

end Layout

end ScriptHost
