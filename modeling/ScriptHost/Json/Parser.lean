-- Documents from tokens. The arrays and objects around the current place are held in a list,
-- the innermost first, so reading goes once through the tokens. At most 127 of them may be
-- open at a time.
import ScriptHost.Json.Token

namespace ScriptHost.Json

/-- An array or object that a value is being read for, with what it holds so far. -/
inductive Frame
  | items (done : List Json)
  | members (done : List (String × Json)) (key : String)

inductive Stage
  | value
  | firstItem
  | key (done : List (String × Json)) (mayEnd : Bool)
  | colon (done : List (String × Json)) (key : String)
  | complete (v : Json)

def maxDepth : Nat := 127

def beginValue? (frames : List Frame) : Token → Option (Stage × List Frame)
  | .scalar v => some (.complete v, frames)
  | .text s => some (.complete (.str s), frames)
  | .beginArray => if frames.length < maxDepth then some (.firstItem, .items [] :: frames) else none
  | .beginObject => if frames.length < maxDepth then some (.key [] true, frames) else none
  | _ => none

def afterValue? (v : Json) (frames : List Frame) (t : Token) : Option (Stage × List Frame) :=
  match frames, t with
  | .items done :: rest, .comma => some (.value, .items (v :: done) :: rest)
  | .items done :: rest, .endArray => some (.complete (.arr (v :: done).reverse), rest)
  | .members done key :: rest, .comma => some (.key (insert key v done) false, rest)
  | .members done key :: rest, .endObject => some (.complete (.obj (insert key v done)), rest)
  | _, _ => none

def advance? : Stage → List Frame → Token → Option (Stage × List Frame)
  | .value, frames, t => beginValue? frames t
  | .firstItem, .items _ :: rest, .endArray => some (.complete (.arr []), rest)
  | .firstItem, frames, t => beginValue? frames t
  | .key done _, frames, .text k => some (.colon done k, frames)
  | .key done true, frames, .endObject => some (.complete (.obj done), frames)
  | .colon done k, frames, .colon => some (.value, .members done k :: frames)
  | .complete v, frames, t => afterValue? v frames t
  | _, _, _ => none

def parseFrom? : Stage → List Frame → List Token → Option Json
  | .complete v, [], [] => some v
  | _, _, [] => none
  | stage, frames, t :: ts =>
    (advance? stage frames t).bind fun (stage, frames) => parseFrom? stage frames ts

def parse? (s : String) : Option Json := (tokens? s.toList).bind (parseFrom? .value [])

end ScriptHost.Json
