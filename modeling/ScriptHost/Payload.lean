-- What a word carries beside its tag. Two payloads are equal when they are of one kind and
-- hold the same bits.
import ScriptHost.Double.Basic

namespace ScriptHost

inductive Payload
  | int32 (n : Int32)
  | bool (b : Bool)
  | pointer (address : UInt64)
  | float64 (d : Double)
  | raw (w : UInt64)
  deriving DecidableEq

/-- The name of the kind of a payload in messages. -/
def Payload.kind : Payload → String
  | int32 _ => "int32"
  | bool _ => "bool"
  | pointer _ => "pointer"
  | float64 _ => "float64"
  | raw _ => "raw"

end ScriptHost
