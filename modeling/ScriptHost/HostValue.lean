-- Script values as the host sees them. Scalars have a kind of their own, so integers and
-- doubles stay apart. Arrays and objects come as JSON documents.
import ScriptHost.Double.Rounding
import ScriptHost.Json.Printer

namespace ScriptHost

inductive HostValue
  | null
  | bool (b : Bool)
  | int (n : Int64)
  | float (d : Double)
  | text (s : String)
  | json (v : Json)

namespace HostValue

/-! ## Views -/

def isNull : HostValue → Bool
  | null => true
  | _ => false

def asBool? : HostValue → Option Bool
  | bool b => some b
  | _ => none

def asInt? : HostValue → Option Int64
  | int n => some n
  | _ => none

def asDouble? : HostValue → Option Double
  | int n => some (.ofInt n.toInt)
  | float d => some d
  | _ => none

def asText? : HostValue → Option String
  | text s => some s
  | _ => none

def asJson? : HostValue → Option Json
  | json v => some v
  | _ => none

/-! ## Documents -/

/-- A number of a document: an integer if it fits 64 signed bits, a double otherwise. -/
def ofNumber : Json.Number → HostValue
  | .int n _ => if n ≤ Int64.maxValue.toInt then int (.ofInt n) else float (.ofInt n)
  | .float d _ => float d

/-- A document as a value. Only arrays and objects stay documents. -/
def ofJson : Json → HostValue
  | .null => null
  | .bool b => bool b
  | .num n => ofNumber n
  | .str s => text s
  | .arr items => json (.arr items)
  | .obj members => json (.obj members)

def toJson : HostValue → Json
  | null => .null
  | bool b => .bool b
  | int n => .ofInt64 n
  | float d => .ofDouble d
  | text s => .str s
  | json v => v

/-- The JSON text of a value, written without making a document of it. -/
def serialize : HostValue → String
  | null => "null"
  | bool b => if b then "true" else "false"
  | int n => String.ofList (integerText n.toInt)
  | float d => if d.isFinite then String.ofList d.render else "null"
  | text s => String.ofList (Json.quote s)
  | json v => v.text

/-! ## Equality -/

/-- Equality of values of one kind. Doubles compare as numbers. -/
def equals : HostValue → HostValue → Bool
  | null, null => true
  | bool a, bool b => a == b
  | int a, int b => a == b
  | float a, float b => a.equals b
  | text a, text b => a == b
  | json a, json b => a.equals b
  | _, _ => false

end HostValue

end ScriptHost
