import LocalNode.Codec.Error
import LocalNode.Word

/-!
Quantities: words on the wire.

A quantity is the marker `0x` and the shortest hexadecimal form of its value. Zero is `0x0`, and no
other quantity starts with a zero digit, so every word has one form in lower case. Reading takes
digits of either case.
-/

namespace LocalNode.Quantity

/-- The most digits a word needs. -/
def maxDigits : Nat := 64

/-- The wire form of a word. -/
def encode (w : Word) : String :=
  mark (Text.hexDigits w.toNat)

/-- The wire form of an integer, which must not be negative. -/
def encodeInt (i : Int) : Except EncodeError String :=
  if i < 0 then .error (.negative i) else .ok (encode (Word.ofNat i.toNat))

/-- Quantities are ordered as the numbers they stand for. -/
def order (a b : Word) : Ordering :=
  compare a.toNat b.toNat

/-- Reads a wire form. The faults are looked for in a fixed order: the marker, a first digit, a
leading zero, a character that is no digit, the number of digits. -/
def decode (s : String) : Except CodecError Word :=
  match unmark s.toList with
  | none => .error (.unmarked s)
  | some [] => .error .emptyQuantity
  | some (first :: rest) =>
    if first = '0' ∧ rest ≠ [] then .error (.leadingZero s)
    else if !(first :: rest).all Text.Hex.isDigit then .error (.invalidHex (.notNumber s))
    else if maxDigits < (first :: rest).length then
      .error (.tooManyDigits (first :: rest).length)
    else .ok (Word.ofNat (Text.Hex.toNat (first :: rest)))

end LocalNode.Quantity
