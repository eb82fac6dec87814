import LocalNode.Codec.Bytes
import LocalNode.Codec.Quantity
import LocalNode.Json.Basic

/-!
Shapes of JSON values.

A schema says which values may cross the border of the node. Checking a value goes through it in the
order of declaration and stops at the first part that does not conform; what it reports is the way
to that part, the schema there and the value there. A member of a record may be absent, which is a
case of its own beside `null`.
-/

namespace LocalNode

/-- The shape of a JSON value. -/
inductive Schema where
  /-- The wire form of a quantity. -/
  | quantity
  /-- The wire form of an address. -/
  | address
  /-- The wire form of a hash. -/
  | hash
  /-- The wire form of data. -/
  | data
  /-- The name of a block tag. -/
  | tag
  /-- A block tag or a quantity. -/
  | block
  /-- A truth value. -/
  | bool
  /-- Any string. -/
  | string
  /-- The inner shape, `null`, or nothing. -/
  | nullable (inner : Schema)
  /-- An array whose items all have the inner shape. -/
  | array (inner : Schema)
  /-- An object with the named members; it may have others. -/
  | record (fields : List (String × Schema))
  /-- An array of fixed length, each item with its own shape. -/
  | tuple (items : List Schema)
  /-- Nothing, `null` or the empty array. -/
  | noParams
  /-- Any of several shapes. -/
  | oneOf (options : List Schema)

namespace Schema

/-- The names of the block tags. -/
def blockTags : List String := ["earliest", "latest", "pending"]

/-! ### The text of a schema -/

mutual

/-- The text of a schema in messages. -/
def render : Schema → String
  | .quantity => "quantity"
  | .address => "address"
  | .hash => "hash"
  | .data => "hex data"
  | .tag => "block tag"
  | .block => "quantity or block tag"
  | .bool => "boolean"
  | .string => "string"
  | .nullable inner => render inner ++ " or null"
  | .array inner => "array of " ++ render inner
  | .record _ => "object"
  | .tuple items => "array of " ++ toString items.length
  | .noParams => "no parameters"
  | .oneOf options => String.intercalate " | " (renderAll options)

/-- The texts of several schemas. -/
def renderAll : List Schema → List String
  | [] => []
  | s :: rest => render s :: renderAll rest

end

/-! ### The way to a part of a value -/

/-- A step from a value to one of its parts. -/
inductive Step where
  | field (name : String)
  | index (i : Nat)
  deriving DecidableEq, Repr

/-- The text of a step. -/
def Step.render : Step → String
  | .field name => "." ++ name
  | .index i => "[" ++ toString i ++ "]"

/-- The text of a way that starts at a named root. -/
def renderPath (root : String) (path : List Step) : String :=
  path.foldl (fun text step => text ++ step.render) root

/-! ### Checking -/

/-- A part of a value that does not conform. -/
structure Mismatch where
  /-- The steps from the whole value to the part. -/
  path : List Step
  /-- The shape that the part should have. -/
  expected : Schema
  /-- The part, if it is there. -/
  found : Option Json

/-- Whether there is a string and it satisfies a test. -/
def isText (accept : String → Bool) : Option Json → Bool
  | some (.str s) => accept s
  | _ => false

/-- Whether decoding succeeded. -/
def succeeds {ε α : Type} : Except ε α → Bool
  | .ok _ => true
  | .error _ => false

/-- Whether a string names a block tag. -/
def isTag (s : String) : Bool :=
  blockTags.contains s

/-- A mismatch at the value itself unless the test holds. -/
def require (s : Schema) (found : Option Json) (ok : Bool) : Except Mismatch Unit :=
  if ok then .ok () else .error ⟨[], s, found⟩

/-- The result of checking a part, seen from the value one step above. -/
def atStep (step : Step) : Except Mismatch Unit → Except Mismatch Unit
  | .ok () => .ok ()
  | .error m => .error { m with path := step :: m.path }

/-- Checks items one after another, where `i` items have been checked before. -/
def checkItems (check : Option Json → Except Mismatch Unit) : (i : Nat) → List Json →
    Except Mismatch Unit
  | _, [] => .ok ()
  | i, item :: rest => do
    atStep (.index i) (check (some item))
    checkItems check (i + 1) rest

mutual

/-- Checks a value that may be absent. -/
def check : Schema → Option Json → Except Mismatch Unit
  | .nullable inner, found =>
    match found with
    | none | some .null => .ok ()
    | some v => check inner (some v)
  | .noParams, found =>
    match found with
    | none | some .null | some (.arr []) => .ok ()
    | some v => require .noParams (some v) false
  | .quantity, found =>
    require .quantity found (isText (fun s => succeeds (Quantity.decode s)) found)
  | .address, found =>
    require .address found (isText (fun s => succeeds (FixedBytes.decode (n := 20) s)) found)
  | .hash, found =>
    require .hash found (isText (fun s => succeeds (FixedBytes.decode (n := 32) s)) found)
  | .data, found => require .data found (isText (fun s => succeeds (Data.decode s)) found)
  | .tag, found => require .tag found (isText isTag found)
  | .block, found =>
    require .block found (isText (fun s => isTag s || succeeds (Quantity.decode s)) found)
  | .bool, found =>
    match found with
    | some (.bool _) => .ok ()
    | _ => require .bool found false
  | .string, found => require .string found (isText (fun _ => true) found)
  | .array inner, found =>
    match found with
    | some (.arr items) => checkItems (check inner) 0 items
    | _ => require (.array inner) found false
  | .record fields, found =>
    match found with
    | some (.obj members) => checkFields fields members
    | _ => require (.record fields) found false
  | .tuple items, found =>
    match found with
    | some (.arr values) =>
      if values.length = items.length then checkTuple items 0 values
      else require (.tuple items) found false
    | _ => require (.tuple items) found false
  | .oneOf options, found => require (.oneOf options) found (anyAccepts options found)

/-- Checks the named members of an object, in the order of the names given. -/
def checkFields : List (String × Schema) → List (String × Json) → Except Mismatch Unit
  | [], _ => .ok ()
  | (name, s) :: rest, members => do
    atStep (.field name) (check s (Json.member? members name))
    checkFields rest members

/-- Checks items against schemas, one against one, where `i` items have been checked before. -/
def checkTuple : List Schema → (i : Nat) → List Json → Except Mismatch Unit
  | s :: schemas, i, value :: values => do
    atStep (.index i) (check s (some value))
    checkTuple schemas (i + 1) values
  | _, _, _ => .ok ()

/-- Whether any of several schemas accepts a value. -/
def anyAccepts : List Schema → Option Json → Bool
  | [], _ => false
  | s :: rest, found => succeeds (check s found) || anyAccepts rest found

end

/-- Whether a value conforms to a schema. -/
def accepts (s : Schema) (v : Json) : Bool :=
  succeeds (s.check (some v))

end Schema

end LocalNode
