import LocalNode.Wire.Record

/-!
Tuples: JSON arrays with one item for each of several values.

The items of a tuple are described like the members of a record. Their names play no part in the
array.
-/

namespace LocalNode.Wire.Members

/-- Reads a tuple from an array. -/
def readTuple {C : Type → Type} [HasCodec C] {α : Type} (ms : Members C α) : Json → Except Fault α
  | .arr items => ms.readArray (fun n => .wrongLength n (.tuple ms.length)) items
  | v => .error (.wrongType v (.tuple ms.length))

/-- The wire form of a tuple. -/
@[reducible]
def tuple {α : Type} (ms : Members Wire α) : Wire α where
  encode as := .arr (ms.encodeAll as)
  decode := ms.readTuple
  schema := .tuple (ms.schemas.map (·.2))

end LocalNode.Wire.Members
