import LocalNode.Ledger.Transaction
import LocalNode.Provider.Error

/-!
Loosely written values.

Callers of the provider may write a quantity as a number, as a hexadecimal string with leading zeros
or as an object that holds such a string, and data as an array of bytes. A field that is `null` or
the empty string counts as not written at all; an explicit zero and the empty byte string `0x` do
not.
-/

namespace LocalNode.Provider

/-- The value of a field, if it counts as written. -/
def present? (members : List (String × Json)) (name : String) : Option Json :=
  match Json.member? members name with
  | none | some .null => none
  | some (.str s) => if s.isEmpty then none else some (.str s)
  | some v => some v

/-- The hexadecimal string that an object holds in place of a number. -/
def bigNumberHex? (members : List (String × Json)) : Option Json :=
  match Json.member? members "type" with
  | some (.str "BigNumber") => Json.member? members "hex"
  | _ => Json.member? members "_hex"

/-- What an object holds in place of a number is smaller than the object. -/
theorem sizeOf_lt_of_bigNumberHex? {members : List (String × Json)} {v : Json}
    (h : bigNumberHex? members = some v) : sizeOf v < sizeOf (Json.obj members) := by
  unfold bigNumberHex? at h
  split at h <;> exact Json.sizeOf_lt_of_member? h

/-- Reads a hexadecimal string, whose leading zeros do not count. -/
def quantityOfText (field : String) (s : String) : Except Error Word :=
  match unmark s.toList with
  | none => .error (.invalidField field (.notHex s))
  | some [] => .error (.invalidField field .emptyQuantity)
  | some digits =>
    let trimmed := digits.dropWhile (· = '0')
    let canonical := if trimmed.isEmpty then ['0'] else trimmed
    match Quantity.decode (mark canonical) with
    | .ok w => .ok w
    | .error e => .error (.invalidField field (.codec e))

/-- Reads a quantity in any of its forms. -/
def toQuantity (field : String) (v : Json) : Except Error Word :=
  match v with
  | .num n =>
    match n.toUInt64? with
    | some n => .ok (Word.ofNat n.toNat)
    | none => .error (.invalidField field (.notUnsigned n))
  | .str s => quantityOfText field s
  | .obj members =>
    match _h : bigNumberHex? members with
    | some hex => toQuantity field hex
    | none => .error (.invalidField field .notBigNumber)
  | v => .error (.invalidField field (.unexpected v))
termination_by sizeOf v
decreasing_by exact sizeOf_lt_of_bigNumberHex? _h

/-- Reads a string that is the wire form of a byte string of fixed length. -/
def toFixed {n : Nat} (field : String) : Json → Except Error (FixedBytes n)
  | .str s =>
    match FixedBytes.decode s with
    | .ok b => .ok b
    | .error e => .error (.invalidField field (.codec e))
  | v => .error (.invalidField field (.unexpected v))

/-- The byte that an item of an array stands for. -/
def toByte? (v : Json) : Option UInt8 :=
  match v.toUInt64? with
  | some n => if n.toNat < 256 then some (UInt8.ofNat n.toNat) else none
  | none => none

/-- Reads the items of an array of bytes. -/
def toBytes (field : String) : List Json → Except Error (List UInt8)
  | [] => .ok []
  | item :: rest =>
    match toByte? item with
    | some b => (toBytes field rest).map (b :: ·)
    | none => .error (.invalidField field (.notByte item))

/-- Reads data from their wire form or from an array of bytes. -/
def toData (field : String) : Json → Except Error Data
  | .str s =>
    match Data.decode s with
    | .ok d => .ok d
    | .error e => .error (.invalidField field (.codec e))
  | .arr items => (toBytes field items).map Data.mk
  | v => .error (.invalidField field (.unexpected v))

/-- Reads a field if it counts as written. -/
def optionalField {α : Type} (members : List (String × Json)) (name path : String)
    (read : String → Json → Except Error α) : Except Error (Option α) :=
  match present? members name with
  | some v => (read path v).map some
  | none => .ok none

/-- Reads a transaction. The gas may be given under either of two names, of which `gasLimit` comes
first. -/
def toCallRequest (field : String) : Json → Except Error CallRequest
  | .obj members => do
    let at? {α : Type} (name : String) (read : String → Json → Except Error α) :=
      optionalField members name (field ++ "." ++ name) read
    let gas ←
      match ← at? "gasLimit" toQuantity with
      | some gas => pure (some gas)
      | none => at? "gas" toQuantity
    let sender ← at? "from" toFixed
    let recipient ← at? "to" toFixed
    let gasPrice ← at? "gasPrice" toQuantity
    let nonce ← at? "nonce" toQuantity
    let value ← at? "value" toQuantity
    let data ← at? "data" toData
    return { sender, recipient, gas, gasPrice, nonce, value, data }
  | v => .error (.invalidField field (.notObject v))

end LocalNode.Provider
