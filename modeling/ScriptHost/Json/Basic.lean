-- JSON documents. A number is a whole number in the range of 64 bits, signed or not, or a
-- finite double; the two never mix. The members of an object stand in the order of their keys,
-- and each key stands once.
import ScriptHost.Double.Basic

namespace ScriptHost

/-- Whether 64 bits hold a whole number, with a sign or without. -/
def Json.Fits (n : Int) : Prop := -0x8000000000000000 ≤ n ∧ n < 0x10000000000000000

instance (n : Int) : Decidable (Json.Fits n) := inferInstanceAs (Decidable (_ ∧ _))

inductive Json.Number
  | int (n : Int) (fits : Json.Fits n)
  | float (d : Double) (finite : d.isFinite = true)
  deriving DecidableEq

inductive Json
  | null
  | bool (b : Bool)
  | num (n : Json.Number)
  | str (s : String)
  | arr (items : List Json)
  | obj (members : List (String × Json))

namespace Json

def Number.ofDouble? (d : Double) : Option Number :=
  if h : d.isFinite = true then some (.float d h) else none

def ofInt64 (n : Int64) : Json :=
  .num (.int n.toInt (by
    have := n.le_toInt
    have := n.toInt_lt
    simp only [Fits]
    omega))

/-- A double as a document. One that is not finite becomes null. -/
def ofDouble (d : Double) : Json := (Number.ofDouble? d).elim .null .num

/-! ## Members -/

/-- A member put in its place. It takes the place of an earlier one with its key. -/
def insert (key : String) (value : Json) : List (String × Json) → List (String × Json)
  | [] => [(key, value)]
  | (k, v) :: rest =>
    if key < k then (key, value) :: (k, v) :: rest
    else if key = k then (key, value) :: rest
    else (k, v) :: insert key value rest

/-! ## Equality -/

/-- Equality of numbers of one kind. Doubles compare as numbers, so the two zeros are
equal. -/
def Number.equals : Number → Number → Bool
  | .int a _, .int b _ => a == b
  | .float a _, .float b _ => a.equals b
  | _, _ => false

mutual

def equals : Json → Json → Bool
  | null, null => true
  | bool a, bool b => a == b
  | num a, num b => a.equals b
  | str a, str b => a == b
  | arr a, arr b => itemsEqual a b
  | obj a, obj b => membersEqual a b
  | _, _ => false

def itemsEqual : List Json → List Json → Bool
  | [], [] => true
  | a :: as, b :: bs => equals a b && itemsEqual as bs
  | _, _ => false

def membersEqual : List (String × Json) → List (String × Json) → Bool
  | [], [] => true
  | (k, a) :: as, (l, b) :: bs => k == l && equals a b && membersEqual as bs
  | _, _ => false

end

end Json

end ScriptHost
