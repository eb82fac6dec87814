import LocalNode.Rpc.Error
import LocalNode.Wire.Fault

/-!
Why the provider has no answer.
-/

namespace LocalNode.Provider

/-- What is wrong with the value of a field. -/
inductive Reason where
  /-- A number is negative, too large or a double. -/
  | notUnsigned (n : Json.Number)
  /-- A string does not start with the marker `0x`. -/
  | notHex (text : String)
  /-- A string has no digit behind its marker. -/
  | emptyQuantity
  /-- A string is not the wire form it should be. -/
  | codec (e : CodecError)
  /-- An object does not hold a number. -/
  | notBigNumber
  /-- A value of this kind has no meaning here. -/
  | unexpected (v : Json)
  /-- An item of an array is not a byte. -/
  | notByte (v : Json)
  /-- The parameters are not an object. -/
  | paramsNotObject
  /-- A transaction is not an object. -/
  | notObject (v : Json)
  /-- A value is not a truth value. -/
  | notBoolean
  /-- A log filter cannot be read. -/
  | badFilter (fault : Wire.Fault)
  /-- Something else, in the words of whoever found it. -/
  | other (text : String)

/-- The wording of a reason. -/
def Reason.message : Reason → String
  | .notUnsigned n => n.write ++ " is not an unsigned integer"
  | .notHex text => Text.quote text ++ " is not hex"
  | .emptyQuantity => "empty quantity"
  | .codec e => e.message
  | .notBigNumber => "object is not a BigNumber"
  | .unexpected v => "unexpected " ++ v.kind
  | .notByte v => v.write ++ " is not a byte"
  | .paramsNotObject => "expected an object"
  | .notObject v => "expected object, got " ++ v.kind
  | .notBoolean => "expected a boolean"
  | .badFilter fault => fault.message
  | .other text => text

/-- Why a call to the provider has no answer. -/
inductive Error where
  /-- A field is not there. -/
  | missingField (name : String)
  /-- A field has a value that does not fit. -/
  | invalidField (field : String) (reason : Reason)
  /-- The node has no answer. -/
  | rpc (e : Rpc.Error)
  /-- The fallback has no answer. -/
  | fallback (text : String)
  /-- Nobody knows the method. -/
  | notImplemented (method : String)

/-- The wording of an error. -/
def Error.message : Error → String
  | .missingField name => "missing field `" ++ name ++ "`"
  | .invalidField field reason => "invalid field `" ++ field ++ "`: " ++ reason.message
  | .rpc e => e.message
  | .fallback text => "fallback provider error: " ++ text
  | .notImplemented method => "method not implemented: " ++ method

end LocalNode.Provider
