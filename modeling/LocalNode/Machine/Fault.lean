import LocalNode.Machine.Instr
import LocalNode.Text.Hex

/-!
Why an execution fails.
-/

namespace LocalNode.Machine

/-- Why an instruction, or a whole execution, failed. -/
inductive Fault where
  /-- The byte is no instruction. -/
  | invalidOpcode (byte : UInt8)
  /-- The instruction exists to fail. -/
  | unreachable
  /-- The instruction needs a host. -/
  | unsupported (byte : UInt8)
  /-- The execution had ended before. -/
  | alreadyHalted
  /-- The stack holds too few words. -/
  | stackUnderflow
  /-- The stack holds as many words as it may. -/
  | stackOverflow
  /-- Code must not be entered at this offset. -/
  | invalidJump (dest : Nat)
  /-- A memory range ends beyond the capacity. -/
  | invalidMemoryAccess
  /-- A range of returned data ends beyond them. -/
  | returnDataOutOfBounds
  /-- The code is longer than the limit. -/
  | codeTooLarge (size limit : Nat)
  /-- The execution took as many steps as it may. -/
  | stepLimit (limit : Nat)
  /-- The program asked to fail and left these data. -/
  | reverted (data : ByteArray)

namespace Fault

/-- A byte as two digits behind the marker. -/
def byteText (b : UInt8) : String :=
  "0x" ++ String.ofList (Text.Hex.byteDigits b)

/-- The wording of a fault. -/
def message : Fault → String
  | .invalidOpcode byte => "invalid opcode: " ++ byteText byte
  | .unreachable => "unreachable instruction executed"
  | .unsupported byte =>
    match Instr.ofByte byte with
    | some i => "unsupported instruction: " ++ i.name ++ " (" ++ byteText byte ++ ")"
    | none => "unsupported instruction: " ++ byteText byte
  | .alreadyHalted => "execution context already halted"
  | .stackUnderflow => "stack underflow"
  | .stackOverflow => "stack overflow (max 1024)"
  | .invalidJump dest => "invalid jump destination: " ++ toString dest
  | .invalidMemoryAccess => "invalid memory access"
  | .returnDataOutOfBounds => "return data out of bounds"
  | .codeTooLarge size limit =>
    "code size " ++ toString size ++ " exceeds limit " ++ toString limit
  | .stepLimit limit => "step limit of " ++ toString limit ++ " exceeded"
  | .reverted _ => "execution reverted"

/-- Whether the byte itself is at fault, whatever the state of the machine. -/
def isOpcodeFault : Fault → Bool
  | .invalidOpcode _ | .unreachable | .unsupported _ => true
  | _ => false

end Fault

end LocalNode.Machine
