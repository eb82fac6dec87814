import LocalNode.Bytes
import LocalNode.Machine.Instr

/-!
Code and where it may be entered.

Reading code from its start, each instruction owns the immediate bytes behind it. A jump may go only
to a landing mark that is an instruction, not to an immediate byte that looks like one. The marks
are found once, by a scan that counts down the immediate bytes still to be skipped.
-/

namespace LocalNode.Machine

/-- The byte of a landing mark. -/
def jumpDestByte : UInt8 := 0x5b

/-- Marks the bytes of code at which it may be entered. The first `skip` bytes are immediate
ones. -/
def landingMarks : (code : List UInt8) → (skip : Nat) → (marks : Array Bool) → Array Bool
  | [], _, marks => marks
  | b :: code, 0, marks => landingMarks code (immediateSizeOf b) (marks.push (b == jumpDestByte))
  | _ :: code, skip + 1, marks => landingMarks code skip (marks.push false)

/-- Code together with its landing marks, one for each byte. -/
structure Program where
  code : ByteArray
  marks : Array Bool

namespace Program

/-- The program of a byte string. -/
def ofCode (code : ByteArray) : Program :=
  ⟨code, landingMarks code.data.toList 0 #[]⟩

/-- The byte at an offset, if the code reaches that far. -/
def byte? (p : Program) (offset : Nat) : Option UInt8 :=
  if h : offset < p.code.size then some p.code[offset] else none

/-- Whether code may be entered at an offset. -/
def isJumpDest (p : Program) (offset : Nat) : Bool :=
  p.marks[offset]?.getD false

/-- The word of the `width` bytes from an offset on, at most 32 of them. The bytes that the code has
are put in their places among 32 bytes, and the others stay zero. -/
def immediate (p : Program) (offset width : Nat) : Word :=
  let start := min offset p.code.size
  let stop := min (offset + width) p.code.size
  Bytes.toWord (Bytes.overwrite (Bytes.zeros 32) (32 - width) (p.code.extract start stop))

end Program

end LocalNode.Machine
