import LocalNode.Json.Basic
import LocalNode.Text.Hex

/-!
The compact text of a JSON value: no blanks, members sorted by name, characters beyond ASCII as they
are.
-/

namespace LocalNode.Json

/-- A character inside a string literal. -/
def escapedChar (c : Char) : List Char :=
  if c = '"' || c = '\\' then ['\\', c]
  else if c = '\n' then ['\\', 'n']
  else if c = '\r' then ['\\', 'r']
  else if c = '\t' then ['\\', 't']
  else if c.toNat = 8 then ['\\', 'b']
  else if c.toNat = 12 then ['\\', 'f']
  else if c.toNat < 32 then
    ['\\', 'u', '0', '0', Text.Hex.digit (c.toNat / 16), Text.Hex.digit (c.toNat % 16)]
  else [c]

/-- A string literal. -/
def writeString (s : String) : String :=
  String.ofList ('"' :: s.toList.flatMap escapedChar ++ ['"'])

/-- Members in the order of their names. -/
def sortByName {α : Type} (members : List (String × α)) : List (String × α) :=
  members.mergeSort fun a b => a.1 ≤ b.1

/-- Texts between brackets, with commas between them. -/
def bracketed (left right : String) (texts : List String) : String :=
  left ++ String.intercalate "," texts ++ right

mutual

/-- The text of a value. -/
def write : Json → String
  | .null => "null"
  | .bool value => if value then "true" else "false"
  | .num value => value.write
  | .str value => writeString value
  | .arr items => bracketed "[" "]" (writeItems items)
  | .obj members =>
    bracketed "\x7b" "\x7d"
      ((sortByName (writeMembers members)).map fun (name, text) => writeString name ++ ":" ++ text)

/-- The texts of the items of an array. -/
def writeItems : List Json → List String
  | [] => []
  | item :: rest => write item :: writeItems rest

/-- The texts of the values of an object, each with its name. -/
def writeMembers : List (String × Json) → List (String × String)
  | [] => []
  | (name, value) :: rest => (name, write value) :: writeMembers rest

end

end LocalNode.Json
