import LocalNode.Wire.Fault
import LocalNode.Wire.Schema

/-!
Types with a JSON form.

A codec writes values of a type as JSON and reads them back. A wire type has a schema besides, which
tells in advance what its codec reads. Options read `null` as nothing, and lists read every item in
turn.
-/

namespace LocalNode

/-- A type whose values are written as JSON and read back. -/
class Codec (α : Type) where
  encode : α → Json
  decode : Json → Except Wire.Fault α

/-- A type with a codec and a schema for its JSON form. -/
class Wire (α : Type) extends Codec α where
  schema : Schema

export Codec (encode decode)

namespace Wire

/-! ### Values that are written as strings -/

/-- Reads a string and then what the string stands for. -/
def decodeText {α : Type} (read : String → Except CodecError α) : Json → Except Fault α
  | .str s =>
    match read s with
    | .ok a => .ok a
    | .error e => .error (.badText e)
  | v => .error (.wrongType v .string)

instance : Wire Word where
  encode w := .str (Quantity.encode w)
  decode := decodeText Quantity.decode
  schema := .quantity

instance : Wire Address where
  encode a := .str a.encode
  decode := decodeText FixedBytes.decode
  schema := .address

instance : Wire Hash where
  encode h := .str h.encode
  decode := decodeText FixedBytes.decode
  schema := .hash

instance : Wire Data where
  encode d := .str d.encode
  decode := decodeText Data.decode
  schema := .data

instance : Wire String where
  encode s := .str s
  decode := decodeText .ok
  schema := .string

/-! ### Truth values, options and lists -/

instance : Wire Bool where
  encode b := .bool b
  decode
    | .bool b => .ok b
    | v => .error (.wrongType v .boolean)
  schema := .bool

/-- Writes nothing as `null`. -/
def encodeOption {α : Type} (encode : α → Json) : Option α → Json
  | none => .null
  | some a => encode a

/-- Reads `null` as nothing. -/
def decodeOption {α : Type} (decode : Json → Except Fault α) : Json → Except Fault (Option α)
  | .null => .ok none
  | v => (decode v).map some

/-- Reads items one after another. -/
def decodeItems {α : Type} (decode : Json → Except Fault α) : List Json → Except Fault (List α)
  | [] => .ok []
  | v :: rest => do
    let a ← decode v
    let as ← decodeItems decode rest
    return a :: as

/-- Reads an array item by item. -/
def decodeList {α : Type} (decode : Json → Except Fault α) : Json → Except Fault (List α)
  | .arr items => decodeItems decode items
  | v => .error (.wrongType v .sequence)

/-- The wire form of a value or nothing. -/
@[reducible]
def option {α : Type} (w : Wire α) : Wire (Option α) where
  encode := encodeOption w.encode
  decode := decodeOption w.decode
  schema := .nullable w.schema

/-- The wire form of a list. -/
@[reducible]
def list {α : Type} (w : Wire α) : Wire (List α) where
  encode as := .arr (as.map w.encode)
  decode := decodeList w.decode
  schema := .array w.schema

instance {α : Type} [w : Wire α] : Wire (Option α) := w.option

instance {α : Type} [w : Wire α] : Wire (List α) := w.list

/-! ### Values without a schema -/

instance : Codec Json where
  encode v := v
  decode v := .ok v

instance : Codec UInt64 where
  encode n := Json.nat n.toNat
  decode
    | .num (.int value) =>
      match (Json.Number.int value).toUInt64? with
      | some n => .ok n
      | none => .error (.wrongValue (.num (.int value)) .unsigned64)
    | v => .error (.wrongType v .unsigned64)

end Wire

end LocalNode
