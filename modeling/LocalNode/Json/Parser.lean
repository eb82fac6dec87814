import LocalNode.Json.Basic
import LocalNode.Text.Hex

/-!
Reading the text of a JSON value.

The readers work on lists of characters and return what they leave unread. Values nest, so their
reader counts down from the length of the text, of which each nesting step consumes at least one
character.
-/

namespace LocalNode.Json

/-- Drops blanks. -/
def skipBlanks : List Char → List Char
  | c :: cs => if c = ' ' || c = '\n' || c = '\r' || c = '\t' then skipBlanks cs else c :: cs
  | [] => []

/-- The code unit of four digits. -/
def codeUnit? (a b c d : Char) : Option Nat :=
  if [a, b, c, d].all Text.Hex.isDigit then some (Text.Hex.toNat [a, b, c, d]) else none

/-- The character that an escape of one letter stands for. -/
def shortEscape? : Char → Option Char
  | '"' => some '"'
  | '\\' => some '\\'
  | '/' => some '/'
  | 'b' => some (Char.ofNat 8)
  | 'f' => some (Char.ofNat 12)
  | 'n' => some '\n'
  | 'r' => some '\r'
  | 't' => some '\t'
  | _ => none

/-- The character of two surrogate code units. -/
def surrogatePair? (high low : Nat) : Option Char :=
  if 0xd800 ≤ high ∧ high < 0xdc00 ∧ 0xdc00 ≤ low ∧ low < 0xe000 then
    some (Char.ofNat (0x10000 + (high - 0xd800) * 0x400 + (low - 0xdc00)))
  else none

/-- Reads the inside of a string literal up to its closing quote. The characters read so far are
kept in reverse. -/
def readString (acc : List Char) : List Char → Option (String × List Char)
  | '"' :: rest => some (String.ofList acc.reverse, rest)
  | '\\' :: 'u' :: a :: b :: c :: d :: '\\' :: 'u' :: e :: f :: g :: h :: rest =>
    match codeUnit? a b c d with
    | none => none
    | some unit =>
      if 0xd800 ≤ unit ∧ unit < 0xe000 then
        match (codeUnit? e f g h).bind (surrogatePair? unit) with
        | some char => readString (char :: acc) rest
        | none => none
      else readString (Char.ofNat unit :: acc) ('\\' :: 'u' :: e :: f :: g :: h :: rest)
  | '\\' :: 'u' :: a :: b :: c :: d :: rest =>
    match codeUnit? a b c d with
    | none => none
    | some unit =>
      if 0xd800 ≤ unit ∧ unit < 0xe000 then none else readString (Char.ofNat unit :: acc) rest
  | '\\' :: c :: rest =>
    match shortEscape? c with
    | some char => readString (char :: acc) rest
    | none => none
  | c :: rest => if c.toNat < 32 then none else readString (c :: acc) rest
  | [] => none

/-- The values of the decimal digits at the front of a text, and the rest. -/
def readDigits (cs : List Char) : List Nat × List Char :=
  ((cs.takeWhile Char.isDigit).map fun c => c.toNat - 48, cs.dropWhile Char.isDigit)

/-- Reads the power of ten of a number literal, if there is one. -/
def readPower : List Char → Option (Option Int × List Char)
  | mark :: rest =>
    if mark = 'e' || mark = 'E' then
      let (negative, rest) :=
        match rest with
        | '-' :: rest => (true, rest)
        | '+' :: rest => (false, rest)
        | _ => (false, rest)
      match readDigits rest with
      | ([], _) => none
      | (digits, rest) =>
        let power : Nat := digits.foldl (fun acc d => 10 * acc + d) 0
        some (some (if negative then -(power : Int) else power), rest)
    else some (none, mark :: rest)
  | [] => some (none, [])

/-- Reads a number literal. Its first digit is zero only if it is the only one before the point. -/
def readNumber (cs : List Char) : Option (Number × List Char) := do
  let (negative, cs) :=
    match cs with
    | '-' :: rest => (true, rest)
    | _ => (false, cs)
  let (whole, cs) := readDigits cs
  if whole.isEmpty || (1 < whole.length && whole.head? == some 0) then none
  let (fraction, cs) ←
    match cs with
    | '.' :: rest =>
      match readDigits rest with
      | ([], _) => none
      | (digits, rest) => some (some digits, rest)
    | _ => some (none, cs)
  let (power, cs) ← readPower cs
  let number ← Number.ofLiteral ⟨negative, whole, fraction, power⟩
  return (number, cs)

mutual

/-- Reads a value. -/
def readValue : (fuel : Nat) → List Char → Option (Json × List Char)
  | 0, _ => none
  | fuel + 1, cs =>
    match skipBlanks cs with
    | 'n' :: 'u' :: 'l' :: 'l' :: rest => some (.null, rest)
    | 't' :: 'r' :: 'u' :: 'e' :: rest => some (.bool true, rest)
    | 'f' :: 'a' :: 'l' :: 's' :: 'e' :: rest => some (.bool false, rest)
    | '"' :: rest => (readString [] rest).map fun (s, rest) => (.str s, rest)
    | '[' :: rest =>
      match skipBlanks rest with
      | ']' :: rest => some (.arr [], rest)
      | rest => (readItems fuel rest).map fun (items, rest) => (.arr items, rest)
    | '\x7b' :: rest =>
      match skipBlanks rest with
      | '\x7d' :: rest => some (.obj [], rest)
      | rest => (readMembers fuel [] rest).map fun (members, rest) => (.obj members, rest)
    | rest => (readNumber rest).map fun (n, rest) => (.num n, rest)

/-- Reads the items of an array up to its closing bracket. -/
def readItems : (fuel : Nat) → List Char → Option (List Json × List Char)
  | 0, _ => none
  | fuel + 1, cs => do
    let (item, rest) ← readValue fuel cs
    match skipBlanks rest with
    | ']' :: rest => return ([item], rest)
    | ',' :: rest =>
      let (items, rest) ← readItems fuel rest
      return (item :: items, rest)
    | _ => none

/-- Reads the members of an object up to its closing brace. A name that comes again replaces the
value it had. -/
def readMembers : (fuel : Nat) → List (String × Json) → List Char →
    Option (List (String × Json) × List Char)
  | 0, _, _ => none
  | fuel + 1, acc, cs =>
    match skipBlanks cs with
    | '"' :: rest => do
      let (name, rest) ← readString [] rest
      match skipBlanks rest with
      | ':' :: rest =>
        let (value, rest) ← readValue fuel rest
        let acc := setMember name value acc
        match skipBlanks rest with
        | '\x7d' :: rest => return (acc, rest)
        | ',' :: rest => readMembers fuel acc rest
        | _ => none
      | _ => none
    | _ => none

end

/-- The value that a text stands for, if the text is one. -/
def parse? (s : String) : Option Json :=
  let cs := s.toList
  match readValue (2 * cs.length + 2) cs with
  | some (value, rest) => if (skipBlanks rest).isEmpty then some value else none
  | none => none

end LocalNode.Json
