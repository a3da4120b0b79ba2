-- What can go wrong, and how each failure is worded. A failure to build a word, a failure to
-- move a value between script and host, and a failure to start are three kinds of their own.
import ScriptHost.Tag
import ScriptHost.Text.Digits

namespace ScriptHost

/-- Why a tag and a payload make no word. -/
inductive CodecError
  | overflow (value : UInt64) (bits : Nat) (layout : String)
  | mismatch (tag : Tag) (payload : String)
  deriving DecidableEq

def CodecError.message : CodecError → String
  | overflow value bits layout =>
    "payload " ++ Text.hex value.toNat
      ++ s!" exceeds the {bits}-bit payload range of the {layout} layout"
  | mismatch tag payload => s!"{payload} payload cannot be stored under tag " ++ tag.name

/-- Why a value does not pass between script and host. -/
inductive ProjectionError
  /-- The kind has no host form. -/
  | unsupported (tag : Tag)
  /-- The engine threw while it made a number of the value. -/
  | coercion (tag : Tag)
  | outOfRange (tag : Tag)
  | unknownTag (raw : Int32)
  /-- The engine returned an exception instead of a result. -/
  | exception (during : String)
  /-- The engine threw while it made a text of the value. -/
  | stringConversion
  | json
  | utf16
  | codec (error : CodecError)
  deriving DecidableEq

def ProjectionError.message : ProjectionError → String
  | unsupported tag => s!"values tagged {tag.name} have no host representation"
  | coercion tag => s!"engine could not coerce a {tag.name} value to a host number"
  | outOfRange tag => s!"{tag.name} value does not fit in a 64-bit integer"
  | unknownTag raw => "unknown raw tag " ++ toString raw.toInt
  | exception during => s!"engine raised an exception during {during}"
  | stringConversion => "engine could not convert the value to a string"
  | json => "engine produced invalid JSON"
  | utf16 => "text is not valid UTF-16: invalid utf-16: lone surrogate found"
  | codec error => error.message

/-- Why nothing can be exchanged at all. -/
inductive StartupError
  | size (layout what : String) (expected actual : Nat)
  /-- A constant does not read back as itself. -/
  | constant (name : String)
  /-- The engine library gave out no runtime or no context. -/
  | engine (what : String)
  deriving DecidableEq

def StartupError.message : StartupError → String
  | size layout what expected actual =>
    s!"{layout} layout expects {what} to be {expected} bytes, found {actual}"
  | constant name => s!"sentinel {name} does not decode to its own tag"
  | engine what => s!"engine failed to create a {what}"

end ScriptHost
