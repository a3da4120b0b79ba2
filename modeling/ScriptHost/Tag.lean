-- The tags of script values. A tag says what kind of value a word holds. Eight of the sixteen
-- kinds live in a heap block that counts its references; the other eight fit in the word
-- itself.

namespace ScriptHost

/-- The kinds of script values, the ones without a heap block first. -/
inductive Tag
  | int
  | bool
  | null
  | undefined
  | uninitialized
  | catchOffset
  | exception
  | float64
  | object
  | functionBytecode
  | moduleRecord
  | string
  | symbol
  | bigFloat
  | bigInt
  | bigDecimal
  deriving DecidableEq

namespace Tag

/-- Every tag, in the order in which tags compare. -/
def all : List Tag :=
  [int, bool, null, undefined, uninitialized, catchOffset, exception, float64,
   object, functionBytecode, moduleRecord, string, symbol, bigFloat, bigInt, bigDecimal]

/-- The place of a tag in `all`. -/
def rank (t : Tag) : Nat := all.idxOf t

instance : Ord Tag := ⟨fun a b => compare a.rank b.rank⟩

/-- A counted tag names a kind whose payload is the address of a heap block. -/
def isCounted : Tag → Bool
  | object | functionBytecode | moduleRecord | string
  | symbol | bigFloat | bigInt | bigDecimal => true
  | _ => false

/-- An immediate tag names a kind that is neither counted nor a double. -/
def isImmediate (t : Tag) : Bool := !t.isCounted && t != float64

def name : Tag → String
  | int => "int"
  | bool => "bool"
  | null => "null"
  | undefined => "undefined"
  | uninitialized => "uninitialized"
  | catchOffset => "catch_offset"
  | exception => "exception"
  | float64 => "float64"
  | object => "object"
  | functionBytecode => "function_bytecode"
  | moduleRecord => "module"
  | string => "string"
  | symbol => "symbol"
  | bigFloat => "big_float"
  | bigInt => "big_int"
  | bigDecimal => "big_decimal"

/-- The name of the kind in the description of a handle. -/
def label : Tag → String
  | int => "Int32"
  | bool => "Bool"
  | null => "Null"
  | undefined => "Undefined"
  | uninitialized => "Uninitialized"
  | catchOffset => "CatchOffset"
  | exception => "Exception"
  | float64 => "Float64"
  | object => "Object"
  | functionBytecode => "FunctionBytecode"
  | moduleRecord => "Module"
  | string => "String"
  | symbol => "Symbol"
  | bigFloat => "BigFloat"
  | bigInt => "BigInt"
  | bigDecimal => "BigDecimal"

def ofName? (s : String) : Option Tag := all.find? fun t => t.name == s

end Tag

end ScriptHost
