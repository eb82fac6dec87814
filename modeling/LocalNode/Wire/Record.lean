import LocalNode.Wire.Basic

/-!
Records: JSON objects with named members.

A record is described by the list of its members, from which its writer, its readers and its schema
are derived. Reading accepts an object or an array. In an object the members are read by name, those
given in the order of their names first, and then what is missing is looked for in the order of
declaration. In an array the members stand in the order of declaration.
-/

namespace LocalNode.Wire

/-- One member of a record. -/
structure Member (α : Type) where
  name : String
  /-- The value of a member that an object does not have, if it may be left out there. -/
  absent : Option α
  /-- The value of a member before which an array ends, if it may be left out there. -/
  ended : Option α
  /-- Which values are left out when the record is written. -/
  omits : α → Bool

namespace Member

/-- A member that must be there. -/
def required {α : Type} (name : String) : Member α :=
  ⟨name, none, none, fun _ => false⟩

/-- A member that objects may leave out, and that is written as `null` if there is nothing. -/
def nullable {α : Type} (name : String) : Member (Option α) :=
  ⟨name, some none, none, fun _ => false⟩

/-- A member that may be left out, and that is left out if there is nothing. -/
def optional {α : Type} (name : String) : Member (Option α) :=
  ⟨name, some none, some none, Option.isNone⟩

/-- A member that has a default value. -/
def withDefault {α : Type} (name : String) (default : α) : Member α :=
  ⟨name, some default, some default, fun _ => false⟩

end Member

/-- The members of a record whose values together have the type `α`. The dictionary `C` of each
member tells how its values are written and read. -/
inductive Members (C : Type → Type) : Type → Type 1 where
  | nil : Members C Unit
  | cons {α β : Type} (dict : C α) (member : Member α) (rest : Members C β) : Members C (α × β)

/-- Dictionaries that contain a codec. -/
class HasCodec (C : Type → Type) where
  codec : {α : Type} → C α → Codec α

instance : HasCodec Codec where
  codec c := c

instance : HasCodec Wire where
  codec w := w.toCodec

namespace Members

variable {C : Type → Type}

/-- A member that must be there, in front of others. -/
def required (α : Type) {β : Type} [dict : Wire α] (name : String) (rest : Members Wire β) :
    Members Wire (α × β) :=
  .cons dict (.required name) rest

/-- A member that may be `null`, in front of others. -/
def nullable (α : Type) {β : Type} [Wire α] (name : String) (rest : Members Wire β) :
    Members Wire (Option α × β) :=
  .cons inferInstance (.nullable name) rest

/-- A member that may be left out, in front of others. -/
def optional (α : Type) {β : Type} [Wire α] (name : String) (rest : Members Wire β) :
    Members Wire (Option α × β) :=
  .cons inferInstance (.optional name) rest

/-- A member of a record without a schema, in front of others. -/
def coded (α : Type) {β : Type} [dict : Codec α] (member : Member α) (rest : Members Codec β) :
    Members Codec (α × β) :=
  .cons dict member rest

/-- The number of members. -/
def length {α : Type} : Members C α → Nat
  | .nil => 0
  | .cons _ _ rest => rest.length + 1

/-- The names and schemas of the members. -/
def schemas {α : Type} : Members Wire α → List (String × Schema)
  | .nil => []
  | .cons (α := α) dict member rest => (member.name, dict.schema) :: rest.schemas

section Codec

variable [HasCodec C]

/-- The members that are written. -/
def encode {α : Type} : Members C α → α → List (String × Json)
  | .nil, () => []
  | .cons dict member rest, (a, as) =>
    if member.omits a then rest.encode as
    else (member.name, (HasCodec.codec dict).encode a) :: rest.encode as

/-- The values of all members, written or not. -/
def encodeAll {α : Type} : Members C α → α → List Json
  | .nil, () => []
  | .cons dict _ rest, (a, as) => (HasCodec.codec dict).encode a :: rest.encodeAll as

/-- The fault of reading, if it failed. -/
def faultOf {α : Type} : Except Fault α → Option Fault
  | .ok _ => none
  | .error fault => some fault

/-- For each member its name and the fault of a value given for it. -/
def faults {α : Type} : Members C α → List (String × (Json → Option Fault))
  | .nil => []
  | .cons dict member rest =>
    (member.name, fun v => faultOf ((HasCodec.codec dict).decode v)) :: rest.faults

/-- The first fault among the members that an object gives, in the order of their names. -/
def firstFault {α : Type} (ms : Members C α) (given : List (String × Json)) : Option Fault :=
  (Json.sortByName ms.faults).findSome? fun (name, fault) =>
    (Json.member? given name).bind fault

/-- Reads a member from what an object has for it, if anything. -/
def readMember {α : Type} (dict : C α) (member : Member α) (found : Option Json) :
    Except Fault α :=
  match found, member.absent with
  | some v, _ => (HasCodec.codec dict).decode v
  | none, some a => .ok a
  | none, none => .error (.missing member.name)

/-- Reads the members of an object in the order of declaration. -/
def readObject {α : Type} : Members C α → List (String × Json) → Except Fault α
  | .nil, _ => .ok ()
  | .cons dict member rest, given => do
    let a ← readMember dict member (Json.member? given member.name)
    let as ← rest.readObject given
    return (a, as)

/-- Reads members from an array, where `i` items have been read before, and returns the items that
are left. Where the array ends too early the fault is `short`, given the number of members read. -/
def readItems {α : Type} (short : Nat → Fault) : Members C α → (i : Nat) → List Json →
    Except Fault (α × List Json)
  | .nil, _, items => .ok ((), items)
  | .cons dict _ rest, i, v :: items => do
    let a ← (HasCodec.codec dict).decode v
    let (as, left) ← rest.readItems short (i + 1) items
    return ((a, as), left)
  | .cons _ member rest, i, [] =>
    match member.ended with
    | some a => do
      let (as, left) ← rest.readItems short (i + 1) []
      return ((a, as), left)
    | none => .error (short i)

/-- Reads members from an array that has nothing else. -/
def readArray {α : Type} (short : Nat → Fault) (ms : Members C α) (items : List Json) :
    Except Fault α := do
  let (as, left) ← ms.readItems short 0 items
  if left.isEmpty then return as else throw (.wrongLength items.length .fewerItems)

end Codec

end Members

/-- A record type: its name in messages, its members, and how it is built from their values. -/
structure Record (C : Type → Type) (R : Type) where
  name : String
  {Values : Type}
  members : Members C Values
  build : Values → R
  values : R → Values

namespace Record

variable {C : Type → Type} {R : Type} [HasCodec C]

/-- Writes a record as an object. -/
def encode (r : Record C R) (x : R) : Json :=
  .obj (r.members.encode (r.values x))

/-- Reads a record from an object or from an array. -/
def decode (r : Record C R) : Json → Except Fault R
  | .obj given =>
    match r.members.firstFault given with
    | some fault => .error fault
    | none => (r.members.readObject given).map r.build
  | .arr items =>
    let short n := Fault.wrongLength n (.recordOf r.name r.members.length)
    (r.members.readArray short items).map r.build
  | v => .error (.wrongType v (.record r.name))

/-- The codec of a record type. -/
@[reducible]
def codec (r : Record C R) : Codec R where
  encode := r.encode
  decode := r.decode

/-- The wire form of a record type. -/
@[reducible]
def wire (r : Record Wire R) : Wire R where
  encode := r.encode
  decode := r.decode
  schema := .record r.members.schemas

end Record

end LocalNode.Wire
