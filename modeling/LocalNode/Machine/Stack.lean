import LocalNode.Machine.Fault
import LocalNode.Word

/-!
The operand stack: an array of at most 1024 words, the topmost last.

An operation gives a value or a fault, and the stack it leaves behind. Depths are counted from the
top, so they are turned into positions from the number of words.
-/

namespace LocalNode.Machine

/-- A stack of words. -/
structure Stack where
  /-- The words, the topmost last. -/
  data : Array Word
  deriving DecidableEq

namespace Stack

/-- The most words a stack may hold. -/
def limit : Nat := 1024

/-- The stack without words. -/
def empty : Stack := ⟨#[]⟩

/-- The number of words. -/
def depth (s : Stack) : Nat :=
  s.data.size

/-- The words, the topmost first. -/
def words (s : Stack) : List Word :=
  s.data.toList.reverse

/-- Puts a word on top. -/
@[inline]
def push (w : Word) (s : Stack) : Except Fault Unit × Stack :=
  if limit ≤ s.data.size then (.error .stackOverflow, s) else (.ok (), ⟨s.data.push w⟩)

/-- Takes the topmost word. -/
@[inline]
def pop (s : Stack) : Except Fault Word × Stack :=
  match s.data.back? with
  | some w => (.ok w, ⟨s.data.pop⟩)
  | none => (.error .stackUnderflow, s)

/-- Takes `n` words one after another, the topmost first. -/
def popEach : (n : Nat) → Stack → Except Fault (Vector Word n) × Stack
  | 0, s => (.ok #v[], s)
  | n + 1, s =>
    match popEach n s with
    | (.ok ws, s) =>
      match s.pop with
      | (.ok w, s) => (.ok (ws.push w), s)
      | (.error fault, s) => (.error fault, s)
    | (.error fault, s) => (.error fault, s)

/-- Takes the `n` topmost words, the topmost first, or none at all. -/
@[inline]
def popN (n : Nat) (s : Stack) : Except Fault (Vector Word n) × Stack :=
  if s.data.size < n then (.error .stackUnderflow, s) else s.popEach n

/-- The topmost word. -/
def peek (s : Stack) : Except Fault Word :=
  match s.data.back? with
  | some w => .ok w
  | none => .error .stackUnderflow

/-- The word at a depth, where the topmost word has depth zero. -/
def peekAt (d : Nat) (s : Stack) : Except Fault Word :=
  if h : s.data.size ≤ d then .error .stackUnderflow
  else .ok s.data[s.data.size - 1 - d]

/-- Exchanges the topmost word with the one at a depth, which must not be the topmost itself. -/
@[inline]
def swap (d : Nat) (s : Stack) : Except Fault Unit × Stack :=
  if h : d = 0 ∨ s.data.size ≤ d then (.error .stackUnderflow, s)
  else (.ok (), ⟨s.data.swap (s.data.size - 1) (s.data.size - 1 - d)⟩)

/-- Copies the word at a place, counting from one, to the top. A missing word is reported before a
missing room. -/
@[inline]
def dup (place : Nat) (s : Stack) : Except Fault Unit × Stack :=
  if h : place = 0 ∨ s.data.size < place then (.error .stackUnderflow, s)
  else if limit ≤ s.data.size then (.error .stackOverflow, s)
  else (.ok (), ⟨s.data.push s.data[s.data.size - place]⟩)

end Stack

end LocalNode.Machine
