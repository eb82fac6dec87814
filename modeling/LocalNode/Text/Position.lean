/-!
Positions at the end of a message.

A message may end in the place it speaks of, as in `no value at line 3 column 7`. Such an ending is
read as a position and written again in its plain form: without leading zeros, and not at all if the
line is zero, which stands for no place. An ending that only looks like a position, because a number
is missing, does not fit 64 bits or has something behind it, is part of the message and stays.

No position contains another one, so a message ends in at most one.
-/

namespace LocalNode.Text

/-- A place in a text. Line zero stands for no place. -/
structure Position where
  line : UInt64
  column : UInt64
  deriving DecidableEq, Repr

namespace Position

/-- The ending that tells a position. -/
def render (p : Position) : String :=
  if p.line = 0 then ""
  else " at line " ++ toString p.line.toNat ++ " column " ++ toString p.column.toNat

/-- What follows the given characters, if a text starts with them. -/
def after? (front : String) (cs : List Char) : Option (List Char) :=
  if front.toList.isPrefixOf cs then some (cs.drop front.toList.length) else none

/-- The number of 64 bits that a text starts with, and what follows its digits. -/
def number? (cs : List Char) : Option (UInt64 × List Char) :=
  let digits := cs.takeWhile Char.isDigit
  let value := digits.foldl (fun acc d => 10 * acc + (d.toNat - 48)) 0
  if digits.isEmpty || UInt64.size ≤ value then none
  else some (UInt64.ofNat value, cs.dropWhile Char.isDigit)

/-- The position that a whole text stands for. -/
def read? (cs : List Char) : Option Position := do
  let (line, cs) ← number? (← after? " at line " cs)
  let (column, cs) ← number? (← after? " column " cs)
  if cs.isEmpty then some ⟨line, column⟩ else none

/-- A text without the position it ends in, and that position. -/
def splitEnd : List Char → List Char × Option Position
  | [] => ([], none)
  | c :: cs =>
    match read? (c :: cs) with
    | some p => ([], some p)
    | none =>
      let (front, p) := splitEnd cs
      (c :: front, p)

/-- A message with the position it ends in, if any, in its plain form. -/
def settle (message : String) : String :=
  match splitEnd message.toList with
  | (front, some p) => String.ofList front ++ p.render
  | (_, none) => message

end Position

end LocalNode.Text
