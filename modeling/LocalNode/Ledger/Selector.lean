import LocalNode.Wire.Union

/-!
Which block a request is about.
-/

namespace LocalNode

/-- A block known by name. -/
inductive BlockTag where
  /-- The first block. -/
  | earliest
  /-- The last block. -/
  | latest
  /-- The block that is being put together. -/
  | pending
  deriving DecidableEq, Repr

/-- A block by its height or by name. -/
inductive BlockSelector where
  | number (height : Word)
  | tag (name : BlockTag)
  deriving DecidableEq

namespace BlockTag

/-- The name of a tag. -/
def render : BlockTag → String
  | .earliest => "earliest"
  | .latest => "latest"
  | .pending => "pending"

/-- The tag of a name. -/
def ofName? (s : String) : Option BlockTag :=
  if s = "earliest" then some .earliest
  else if s = "latest" then some .latest
  else if s = "pending" then some .pending
  else none

/-- The tag of a name, or the fault of a name that no tag has. -/
def ofName (s : String) : Except Wire.Fault BlockTag :=
  match ofName? s with
  | some tag => .ok tag
  | none => .error (.unknownTag s)

/-- Reads a tag: its name, or an object whose only member has that name and the value `null`. -/
def read : Json → Except Wire.Fault BlockTag
  | .str s => ofName s
  | .obj [(name, payload)] => do
    let tag ← ofName name
    match payload with
    | .null => return tag
    | v => throw (.wrongType v .unit)
  | .obj members => .error (.wrongValue (.obj members) .singleKeyMap)
  | v => .error (.wrongType v .tagOrMap)

instance : Wire BlockTag where
  encode tag := .str tag.render
  decode := read
  schema := .tag

end BlockTag

namespace BlockSelector

/-- The block that is meant where none is named. -/
def latest : BlockSelector := .tag .latest

/-- The text of a selector. -/
def render : BlockSelector → String
  | .number height => Quantity.encode height
  | .tag name => name.render

instance : Wire BlockSelector where
  encode
    | .number height => encode height
    | .tag name => encode name
  decode v :=
    Wire.firstForm "BlockSelector" v
      [fun v => (decode v).map .number, fun v => (decode v).map .tag]
  schema := .block

end BlockSelector

end LocalNode
