import LocalNode.Json.Printer
import LocalNode.Wire.Schema

/-!
Mismatches as the caller of a method sees them.

The part that does not conform is described in a few words. A string is shown quoted, and a long one
only up to its last whole character within the first eighty bytes.
-/

namespace LocalNode

/-- The most bytes of a string that are shown. -/
def shownBytes : Nat := 80

/-- The longest front part of a text, made of whole characters, that has at most the given number of
bytes. -/
def takeBytes : (limit : Nat) → List Char → List Char
  | _, [] => []
  | limit, c :: cs =>
    if c.utf8Size ≤ limit then c :: takeBytes (limit - c.utf8Size) cs else []

/-- A string in a few words. -/
def describeString (s : String) : String :=
  if shownBytes < s.utf8ByteSize then
    Text.quote (String.ofList (takeBytes shownBytes s.toList)) ++ "..."
  else Text.quote s

/-- A value that may be absent in a few words. -/
def describe : Option Json → String
  | none => "nothing"
  | some .null => "null"
  | some (.bool value) => if value then "true" else "false"
  | some (.num value) => value.write
  | some (.str value) => describeString value
  | some (.arr items) => "array of " ++ toString items.length
  | some (.obj _) => "object"

/-- A value that does not conform to the schema of a method. -/
structure Validation where
  /-- The method whose schema it is. -/
  method : String
  /-- Where the offending part stands. -/
  path : String
  /-- The shape it should have. -/
  expected : String
  /-- What was found instead. -/
  actual : String
  deriving DecidableEq, Repr

/-- The wording of a validation error. -/
def Validation.message (v : Validation) : String :=
  v.method ++ ": " ++ v.path ++ " expected " ++ v.expected ++ ", got " ++ v.actual

/-- A mismatch in the words of a method and of the name of the whole value. -/
def Schema.Mismatch.toValidation (m : Mismatch) (method root : String) : Validation where
  method := method
  path := renderPath root m.path
  expected := m.expected.render
  actual := describe m.found

/-- Checks a value for a method. -/
def Schema.validate (s : Schema) (method root : String) (v : Json) : Except Validation Unit :=
  match s.check (some v) with
  | .ok () => .ok ()
  | .error m => .error (m.toValidation method root)

end LocalNode
