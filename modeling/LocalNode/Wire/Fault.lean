import LocalNode.Codec.Error
import LocalNode.Json.Printer
import LocalNode.Text.Position

/-!
Why a JSON value is not the wire form of a value of some type.

The text of a fault may end in words of whoever wrote the value. If these look like a position, they
are taken for the place of the fault.
-/

namespace LocalNode.Wire

/-- What a decoder asked for. -/
inductive Expected where
  | string
  | boolean
  | sequence
  | unsigned64
  | tagOrMap
  | unit
  | singleKeyMap
  /-- A record, by its name. -/
  | record (name : String)
  /-- A record given by all its members in order. -/
  | recordOf (name : String) (count : Nat)
  /-- A list of parameters. -/
  | tuple (count : Nat)
  /-- An array that ends earlier. -/
  | fewerItems
  deriving DecidableEq, Repr

/-- The wording of what was asked for. -/
def Expected.message : Expected → String
  | .string => "a string"
  | .boolean => "a boolean"
  | .sequence => "a sequence"
  | .unsigned64 => "u64"
  | .tagOrMap => "string or map"
  | .unit => "unit"
  | .singleKeyMap => "map with a single key"
  | .record name => "struct " ++ name
  | .recordOf name count => "struct " ++ name ++ " with " ++ toString count ++ " elements"
  | .tuple count => "a tuple of size " ++ toString count
  | .fewerItems => "fewer elements in array"

/-- What a decoder was given instead. -/
def foundText : Json → String
  | .null => "null"
  | .bool value => "boolean `" ++ (if value then "true" else "false") ++ "`"
  | .num (.int value) => "integer `" ++ toString value ++ "`"
  | .num (.float bits) => "floating point `" ++ Json.Number.writeFloat bits ++ "`"
  | .str value => "string " ++ Text.quote value
  | .arr _ => "sequence"
  | .obj _ => "map"

/-- Why a value could not be decoded. -/
inductive Fault where
  /-- The value is of another kind. -/
  | wrongType (found : Json) (expected : Expected)
  /-- The value is of the right kind but out of range. -/
  | wrongValue (found : Json) (expected : Expected)
  /-- An array has the wrong number of items. -/
  | wrongLength (count : Nat) (expected : Expected)
  /-- A string is not the wire form it should be. -/
  | badText (error : CodecError)
  /-- A member is not there. -/
  | missing (name : String)
  /-- A string is no block tag. -/
  | unknownTag (name : String)
  /-- None of the forms of a union fits. -/
  | noForm (union : String)

/-- What is wrong, in words. -/
def Fault.reason : Fault → String
  | .wrongType found expected =>
    "invalid type: " ++ foundText found ++ ", expected " ++ expected.message
  | .wrongValue found expected =>
    "invalid value: " ++ foundText found ++ ", expected " ++ expected.message
  | .wrongLength count expected =>
    "invalid length " ++ toString count ++ ", expected " ++ expected.message
  | .badText error => error.message
  | .missing name => "missing field `" ++ name ++ "`"
  | .unknownTag name =>
    "unknown variant `" ++ name ++ "`, expected one of `earliest`, `latest`, `pending`"
  | .noForm union => "data did not match any variant of untagged enum " ++ union

/-- The wording of a fault: what is wrong, and where if the words end in a position. -/
def Fault.message (f : Fault) : String :=
  Text.Position.settle f.reason

end LocalNode.Wire
