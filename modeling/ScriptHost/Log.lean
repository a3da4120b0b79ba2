-- Log records.

namespace ScriptHost

inductive Level
  | trace
  | debug
  | warn
  deriving DecidableEq

def Level.name : Level → String
  | trace => "trace"
  | debug => "debug"
  | warn => "warn"

structure Record where
  level : Level
  text : String
  deriving DecidableEq

end ScriptHost
