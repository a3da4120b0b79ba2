-- The settings of the exchange. There is one: whether floating-point traps are masked around
-- calls into the engine. A variable of the environment can switch it off.
import ScriptHost.Text.Blank
import ScriptHost.Text.Utf8

namespace ScriptHost

structure Settings where
  fpuGuard : Bool
  deriving DecidableEq

namespace Settings

def standard : Settings := ⟨true⟩

/-- The values that switch the guard off, in lower case. -/
def offWords : List String := ["0", "false", "off", "no"]

/-- A value without the white space around it and in lower case, ASCII letters only. -/
def folded (v : String) : String := String.ofList ((Text.trim v.toList).map Char.toLower)

/-- The settings that a value of the variable asks for. The guard stays on unless the
value is one of the words that switch it off. -/
def ofValue : Option String → Settings
  | some v => ⟨!offWords.contains (folded v)⟩
  | none => standard

/-- The settings that the bytes of the variable ask for. Bytes that are no text count
as no value. -/
def ofBytes (bytes : Option (List UInt8)) : Settings := ofValue (bytes.bind Utf8.decode?)

def withFpuGuard (s : Settings) (enabled : Bool) : Settings := { s with fpuGuard := enabled }

def describe (s : Settings) : String :=
  "BridgeConfig \x7b fpu_guard: " ++ (if s.fpuGuard then "true" else "false") ++ " \x7d"

end Settings

end ScriptHost
