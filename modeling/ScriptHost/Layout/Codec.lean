-- From a tag and a payload to a word and back, and the words for plain host values. A number
-- becomes an integer word when a 32-bit integer is that very number, and a double word
-- otherwise.
import ScriptHost.Layout.Basic
import ScriptHost.Payload
import ScriptHost.Double.Whole

namespace ScriptHost.Layout

/-! ## Host values -/

def ofBool (ℓ : Layout) (b : Bool) : ℓ.Word := ℓ.immediate .bool (if b then 1 else 0)

def ofInt32 (ℓ : Layout) (n : Int32) : ℓ.Word := ℓ.immediate .int n

def ofInt64 (ℓ : Layout) (n : Int64) : ℓ.Word :=
  match narrow? n with
  | some i => ℓ.ofInt32 i
  | none => ℓ.ofDouble (.ofInt n.toInt)

def ofNumber (ℓ : Layout) (d : Double) : ℓ.Word :=
  match d.asInt32? with
  | some i => ℓ.ofInt32 i
  | none => ℓ.ofDouble d

/-! ## Tagged payloads -/

/-- The word of a tag and a payload. A double goes under the tag of doubles only, an
address under a counted tag, an integer or a truth value under an immediate one, and
a raw word anywhere but under the tag of doubles. -/
def encode (ℓ : Layout) (t : Tag) : Payload → Except CodecError ℓ.Word
  | .float64 d => if t = .float64 then .ok (ℓ.ofDouble d) else .error (.mismatch t "float64")
  | .pointer a => if t.isCounted then ℓ.carry t a else .error (.mismatch t "pointer")
  | .int32 n => if t.isImmediate then .ok (ℓ.immediate t n) else .error (.mismatch t "int32")
  | .bool b =>
    if t.isImmediate then .ok (ℓ.immediate t (if b then 1 else 0)) else .error (.mismatch t "bool")
  | .raw w => if t = .float64 then .error (.mismatch t "raw") else ℓ.carry t w

def select (ℓ : Layout) (t : Tag) (w : ℓ.Word) : Payload :=
  if t = .float64 then .float64 (ℓ.double w)
  else if t = .bool then .bool (ℓ.bool w)
  else if t.isCounted then .pointer (ℓ.payload w)
  else .int32 (ℓ.int32 w)

/-- The tag of a word and the payload that it selects, if the tag is in use. -/
def decode (ℓ : Layout) (w : ℓ.Word) : Option (Tag × Payload) :=
  (ℓ.tag? w).map fun t => (t, ℓ.select t w)

end ScriptHost.Layout
