import LocalNode.Json.Number

/-!
JSON values.

An object maps names to values. It is kept as a list of members of which the first one with a name
counts, and every reader asks for members by name. The order of the members therefore carries no
meaning.
-/

namespace LocalNode

/-- A JSON value. -/
inductive Json where
  | null
  | bool (value : Bool)
  | num (value : Json.Number)
  | str (value : String)
  | arr (items : List Json)
  | obj (members : List (String × Json))
  deriving Inhabited

namespace Json

/-- The value of the member with the given name. -/
def member? (members : List (String × Json)) (name : String) : Option Json :=
  members.lookup name

/-- A member of an object is smaller than the object, so recursion may go into it. -/
theorem sizeOf_lt_of_member? {members : List (String × Json)} {name : String} {v : Json}
    (h : member? members name = some v) : sizeOf v < sizeOf (Json.obj members) := by
  unfold member? at h
  induction members with
  | nil => simp at h
  | cons m rest ih =>
    obtain ⟨other, w⟩ := m
    rw [List.lookup_cons] at h
    split at h
    · cases h
      simp
      omega
    · have := ih h
      simp at this ⊢
      omega

/-- Sets a member, in place if the name is there already. -/
def setMember (name : String) (value : Json) : List (String × Json) → List (String × Json)
  | [] => [(name, value)]
  | (other, old) :: rest =>
    if other = name then (name, value) :: rest else (other, old) :: setMember name value rest

/-- The integer of a natural number. -/
def nat (n : Nat) : Json :=
  .num (.int n)

/-- The value as an unsigned 64-bit integer. -/
def toUInt64? : Json → Option UInt64
  | .num n => n.toUInt64?
  | _ => none

/-- The word for the kind of a value. -/
def kind : Json → String
  | .null => "null"
  | .bool _ => "boolean"
  | .num _ => "number"
  | .str _ => "string"
  | .arr _ => "array"
  | .obj _ => "object"

end Json

end LocalNode
