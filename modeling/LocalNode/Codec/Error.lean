import LocalNode.Text.Hex

/-!
Why a text is not the wire form of a value, and why a value has none.
-/

namespace LocalNode

/-- Why a text is not the wire form of a quantity or of a byte string. -/
inductive CodecError where
  /-- The text does not start with the marker `0x`. -/
  | unmarked (text : String)
  /-- A quantity has no digit after the marker. -/
  | emptyQuantity
  /-- A quantity of several digits starts with zero. -/
  | leadingZero (text : String)
  /-- What follows the marker is not hexadecimal. -/
  | invalidHex (fault : Text.Hex.Fault)
  /-- A quantity has more digits than a word holds. -/
  | tooManyDigits (count : Nat)
  /-- A byte string of fixed length has another length. -/
  | wrongLength (expected got : Nat)
  /-- A byte string has an odd number of digits. -/
  | oddLength (count : Nat)
  deriving DecidableEq, Repr

/-- The wording of a codec error. -/
def CodecError.message : CodecError → String
  | .unmarked text => "missing 0x prefix: " ++ Text.quote text
  | .emptyQuantity => "empty quantity"
  | .leadingZero text => "quantity has leading zero digits: " ++ text
  | .invalidHex fault => "invalid hex string: " ++ fault.message
  | .tooManyDigits count => "quantity too large: " ++ toString count ++ " hex digits (max 64)"
  | .wrongLength expected got =>
    "invalid length: expected " ++ toString expected ++ " bytes, got " ++ toString got
  | .oddLength count => "odd number of hex digits: " ++ toString count

/-- Why a number has no wire form. -/
inductive EncodeError where
  /-- Quantities are not negative. -/
  | negative (value : Int)
  deriving DecidableEq, Repr

/-- The wording of an encoding error. -/
def EncodeError.message : EncodeError → String
  | .negative value => "cannot encode negative integer " ++ toString value ++ " as a quantity"

/-- The characters behind the marker `0x`, if the text starts with it. -/
def unmark : List Char → Option (List Char)
  | '0' :: 'x' :: rest => some rest
  | _ => none

/-- The marker followed by the given characters. -/
def mark (cs : List Char) : String :=
  String.ofList ('0' :: 'x' :: cs)

end LocalNode
