import LocalNode.Wire.Basic

/-!
Unions: values with several JSON forms, told apart only by their shape.
-/

namespace LocalNode.Wire

/-- Reads a value in the first of several forms that fits. -/
def firstForm {α : Type} (union : String) (v : Json) : List (Json → Except Fault α) →
    Except Fault α
  | [] => .error (.noForm union)
  | form :: rest =>
    match form v with
    | .ok a => .ok a
    | .error _ => firstForm union v rest

end LocalNode.Wire
