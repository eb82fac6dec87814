import LocalNode.Text.Quoted

/-!
Hexadecimal digits and byte strings.

Bytes are written as two lower-case digits each, high half first. Reading takes digits of either
case and works from left to right. It first asks for an even number of UTF-8 bytes, then stops at
the first character that is no digit. Every character before that one is a digit, hence a single
byte, so its position counts bytes and characters alike.
-/

namespace LocalNode.Text.Hex

/-- The lower-case digit of a value below sixteen. -/
def digit (n : Nat) : Char :=
  if n < 10 then Char.ofNat (48 + n) else Char.ofNat (87 + n)

/-- The value of a digit of either case. -/
def value? (c : Char) : Option Nat :=
  if '0' ≤ c ∧ c ≤ '9' then some (c.toNat - 48)
  else if 'a' ≤ c ∧ c ≤ 'f' then some (c.toNat - 87)
  else if 'A' ≤ c ∧ c ≤ 'F' then some (c.toNat - 55)
  else none

/-- Whether a character is a digit of either case. -/
def isDigit (c : Char) : Bool :=
  (value? c).isSome

/-- The two digits of a byte. -/
def byteDigits (b : UInt8) : List Char :=
  [digit (b.toNat / 16), digit (b.toNat % 16)]

/-- The digits of a byte string. -/
def ofBytes (bytes : List UInt8) : List Char :=
  bytes.flatMap byteDigits

/-- Why a text is not the hexadecimal form of bytes or of a number. -/
inductive Fault where
  /-- The text has an odd number of bytes. -/
  | oddDigits
  /-- The byte at this position, read as the character of that code, is no digit. -/
  | badCharacter (char : Char) (position : Nat)
  /-- The whole text is not a number in hexadecimal. -/
  | notNumber (text : String)
  deriving DecidableEq, Repr

/-- The wording of a fault. -/
def Fault.message : Fault → String
  | .oddDigits => "Odd number of digits"
  | .badCharacter char position =>
    "Invalid character " ++ quoteChar char ++ " at position " ++ toString position
  | .notNumber text => text

/-- The first byte of the UTF-8 form of a character, read as a character itself. -/
def leadByte (c : Char) : Char :=
  Char.ofNat ((String.utf8EncodeChar c).headD 0).toNat

/-- The number of bytes in the UTF-8 form of a list of characters. -/
def byteCount : List Char → Nat
  | [] => 0
  | c :: cs => c.utf8Size + byteCount cs

/-- Reads digits in pairs, where `position` digits have been read before. -/
def readPairs (position : Nat) : List Char → Except Fault (List UInt8)
  | [] => .ok []
  | [c] => .error (if isDigit c then .oddDigits else .badCharacter (leadByte c) position)
  | hi :: lo :: rest =>
    match value? hi, value? lo with
    | some h, some l => do
      let bytes ← readPairs (position + 2) rest
      return UInt8.ofNat (16 * h + l) :: bytes
    | none, _ => .error (.badCharacter (leadByte hi) position)
    | some _, none => .error (.badCharacter (leadByte lo) (position + 1))

/-- Reads the bytes that a text of digits stands for. -/
def toBytes (cs : List Char) : Except Fault (List UInt8) :=
  if byteCount cs % 2 ≠ 0 then .error .oddDigits else readPairs 0 cs

/-- The number that a list of digits stands for, the first digit weighing most. A character that is
no digit counts as zero. -/
def toNat (cs : List Char) : Nat :=
  cs.foldl (fun acc c => 16 * acc + (value? c).getD 0) 0

end LocalNode.Text.Hex
