-- The seven constant words that every layout needs, and the check that seven words are fit to
-- be them.
import ScriptHost.Layout.Codec

namespace ScriptHost

structure Constants (ℓ : Layout) where
  null : ℓ.Word
  undefined : ℓ.Word
  isTrue : ℓ.Word
  isFalse : ℓ.Word
  exception : ℓ.Word
  uninitialized : ℓ.Word
  nan : ℓ.Word

namespace Constants

def build (ℓ : Layout) : Constants ℓ where
  null := ℓ.immediate .null 0
  undefined := ℓ.immediate .undefined 0
  isTrue := ℓ.ofBool true
  isFalse := ℓ.ofBool false
  exception := ℓ.immediate .exception 0
  uninitialized := ℓ.immediate .uninitialized 0
  nan := ℓ.ofDouble .canonicalNaN

/-- The constants with their names and the tags that they have to have. -/
def named {ℓ : Layout} (c : Constants ℓ) : List (String × ℓ.Word × Tag) :=
  [("null", c.null, .null), ("undefined", c.undefined, .undefined), ("true", c.isTrue, .bool),
   ("false", c.isFalse, .bool), ("exception", c.exception, .exception),
   ("uninitialized", c.uninitialized, .uninitialized), ("nan", c.nan, .float64)]

def get? {ℓ : Layout} (c : Constants ℓ) (name : String) : Option ℓ.Word :=
  (c.named.find? fun entry => entry.1 == name).map fun entry => entry.2.1

/-- Every constant has its tag and no count, the truth values differ as they should,
and the NaN is the canonical one. The first constant that fails is named. -/
def verify {ℓ : Layout} (c : Constants ℓ) : Except StartupError Unit :=
  match c.named.find? fun (_, w, t) => ℓ.tag? w != some t || ℓ.isCounted w with
  | some (name, _, _) => .error (.constant name)
  | none =>
    if !ℓ.bool c.isTrue || ℓ.bool c.isFalse then .error (.constant "bool")
    else if ℓ.double c.nan ≠ .canonicalNaN then .error (.constant "nan")
    else .ok ()

end Constants

end ScriptHost
