import LocalNode.Codec.Error
import LocalNode.Word

/-!
Byte strings on the wire: data of any length, and addresses and hashes of a fixed one.

All are the marker `0x` and two digits a byte. Data report an odd number of digits themselves;
byte strings of fixed length leave that to the reader of digits, and compare lengths last.
-/

namespace LocalNode

/-- A byte string of any length. -/
structure Data where
  bytes : List UInt8
  deriving DecidableEq

/-- A byte string of `n` bytes. -/
structure FixedBytes (n : Nat) where
  bytes : List UInt8
  length_eq : bytes.length = n
  deriving DecidableEq

/-- An account address. -/
abbrev Address := FixedBytes 20

/-- The hash of a block or a transaction. -/
abbrev Hash := FixedBytes 32

namespace Data

/-- The empty byte string. -/
def empty : Data := ⟨[]⟩

/-- The wire form of data. -/
def encode (d : Data) : String :=
  mark (Text.Hex.ofBytes d.bytes)

/-- Reads the wire form of data. -/
def decode (s : String) : Except CodecError Data :=
  match unmark s.toList with
  | none => .error (.unmarked s)
  | some digits =>
    if Text.Hex.byteCount digits % 2 ≠ 0 then .error (.oddLength (Text.Hex.byteCount digits))
    else
      match Text.Hex.toBytes digits with
      | .ok bytes => .ok ⟨bytes⟩
      | .error fault => .error (.invalidHex fault)

end Data

namespace FixedBytes

variable {n : Nat}

/-- The byte string of `n` zeros. -/
def zero : FixedBytes n := ⟨List.replicate n 0, List.length_replicate⟩

/-- A byte string of the right length. -/
def ofBytes (bytes : List UInt8) : Except CodecError (FixedBytes n) :=
  if h : bytes.length = n then .ok ⟨bytes, h⟩ else .error (.wrongLength n bytes.length)

/-- The wire form of a byte string of fixed length. -/
def encode (b : FixedBytes n) : String :=
  mark (Text.Hex.ofBytes b.bytes)

/-- Reads the wire form of a byte string of fixed length. -/
def decode (s : String) : Except CodecError (FixedBytes n) :=
  match unmark s.toList with
  | none => .error (.unmarked s)
  | some digits =>
    match Text.Hex.toBytes digits with
    | .ok bytes => ofBytes bytes
    | .error fault => .error (.invalidHex fault)

/-- Byte strings are ordered by their first differing byte. -/
instance : Ord (FixedBytes n) where
  compare a b := compare a.bytes b.bytes

/-- The word that has the given bytes as its last ones. -/
def toWord (b : FixedBytes n) : Word :=
  Word.ofNat (natOfBytes b.bytes)

end FixedBytes

end LocalNode
