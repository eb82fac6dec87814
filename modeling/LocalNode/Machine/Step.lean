import LocalNode.Keccak
import LocalNode.Machine.Arith
import LocalNode.Machine.State

/-!
What one instruction does.

An instruction first takes its operands from the stack, all of them or none. Then it checks what
else can fail, and only then it changes the rest of the state. A failure is kept in the status, so
a step is a function from states to states.
-/

namespace LocalNode.Machine

namespace State

/-! ### Operands and results -/

/-- Continues with what an operation on the stack gives, unless it fails. -/
@[inline]
def withStack {α : Type} (s : State) (change : Stack → Except Fault α × Stack)
    (k : α → State → State) : State :=
  match change s.stack with
  | (.ok value, stack) => k value { s with stack }
  | (.error fault, stack) => { s with stack }.fail fault

/-- Continues with the topmost word taken from the stack. -/
@[inline]
def withOne (s : State) (k : Word → State → State) : State :=
  s.withStack Stack.pop k

/-- Continues with the two topmost words taken from the stack. -/
@[inline]
def withTwo (s : State) (k : Word → Word → State → State) : State :=
  s.withStack (Stack.popN 2) fun ws s => k ws[0] ws[1] s

/-- Continues with the three topmost words taken from the stack. -/
@[inline]
def withThree (s : State) (k : Word → Word → Word → State → State) : State :=
  s.withStack (Stack.popN 3) fun ws s => k ws[0] ws[1] ws[2] s

/-- Puts a word on the stack. -/
@[inline]
def pushWord (s : State) (w : Word) : State :=
  s.withStack (Stack.push w) fun _ s => s

/-! ### Memory -/

/-- Continues with what an operation on memory gives, unless it fails. -/
@[inline]
def withMemory {α : Type} (s : State) (change : Memory → Except Fault α × Memory)
    (k : α → State → State) : State :=
  match change s.memory with
  | (.ok value, memory) => k value { s with memory }
  | (.error fault, memory) => { s with memory }.fail fault

/-- Continues with the offset in memory that a word tells. -/
@[inline]
def withOffset (s : State) (offset : Word) (k : Nat → State → State) : State :=
  match offset.toIndex? with
  | some offset => k offset s
  | none => s.fail .invalidMemoryAccess

/-- Continues with the range of memory that two words tell. -/
@[inline]
def withRange (s : State) (offset count : Word) (k : Nat → Nat → State → State) : State :=
  match Memory.range? offset count with
  | some (offset, count) => k offset count s
  | none => s.fail .invalidMemoryAccess

/-- Copies a part of a source to memory, with zeros behind the end of the source. Memory is made to
cover the range before the bytes are collected, so that no more of them are than memory may hold. -/
def copyFrom (s : State) (source : ByteArray) (dest offset count : Word) : State :=
  s.withRange dest count fun dest count s =>
    s.withMemory (·.expand dest count) fun _ s =>
      s.withMemory (·.storeSlice dest (Bytes.padded source offset count)) fun _ s => s

/-- Copies a part of a source to memory that must lie wholly inside the source. -/
def copyWithin (s : State) (source : ByteArray) (dest offset count : Word) : State :=
  match Bytes.startWithin? source offset count with
  | some start =>
    s.withRange dest count fun dest count s =>
      s.withMemory (·.storeSlice dest (source.extract start (start + count))) fun _ s => s
  | none => s.fail .returnDataOutOfBounds

/-! ### Answers and jumps -/

/-- The answer to a query. The program counter has already moved past the instruction that asks. -/
def answer (s : State) : Query → Word
  | .address => s.env.address.toWord
  | .origin => s.env.origin.toWord
  | .caller => s.env.caller.toWord
  | .callValue => s.env.callValue
  | .callDataSize => Word.ofNat s.env.callData.size
  | .codeSize => Word.ofNat s.program.code.size
  | .gasPrice => s.env.gasPrice
  | .returnDataSize => Word.ofNat s.returnData.size
  | .coinbase => s.env.coinbase.toWord
  | .timestamp => Word.ofNat s.env.timestamp.toNat
  | .number => Word.ofNat s.env.number.toNat
  | .prevRandao => s.env.prevRandao.toWord
  | .gasLimit => Word.ofNat s.env.gasLimit.toNat
  | .chainId => Word.ofNat s.env.chainId.toNat
  | .baseFee => s.env.baseFee
  | .pc => Word.ofNat (s.pc - 1)
  | .memorySize => Word.ofNat s.memory.size

/-- The largest destination that a failed jump reports: the last one of 64 bits. -/
def maxReportedDest : Nat := 18446744073709551615

/-- Goes to an offset at which code may be entered. -/
def jumpTo (s : State) (dest : Nat) : State :=
  if s.program.isJumpDest dest then { s with pc := dest }
  else s.fail (.invalidJump (min dest maxReportedDest))

/-! ### Instructions -/

/-- Carries out an instruction. The program counter has already moved past its byte `b`. -/
def exec (b : UInt8) (i : Instr) (s : State) : State :=
  match i with
  | .stop => s.halt .stop
  | .unary op => s.withOne fun a s => s.pushWord (op.apply a)
  | .binary op => s.withTwo fun a b s => s.pushWord (op.apply a b)
  | .ternary op => s.withThree fun a b c s => s.pushWord (op.apply a b c)
  | .query q => s.pushWord (s.answer q)
  | .keccak256 =>
    s.withTwo fun offset count s =>
      s.withRange offset count fun offset count s =>
        s.withMemory (·.loadSlice offset count) fun bytes s =>
          s.pushWord (Keccak.hash bytes).toWord
  | .callDataLoad =>
    s.withOne fun offset s => s.pushWord (Bytes.toWord (Bytes.padded s.env.callData offset 32))
  | .callDataCopy =>
    s.withThree fun dest offset count s => s.copyFrom s.env.callData dest offset count
  | .codeCopy =>
    s.withThree fun dest offset count s => s.copyFrom s.program.code dest offset count
  | .returnDataCopy =>
    s.withThree fun dest offset count s => s.copyWithin s.returnData dest offset count
  | .pop => s.withOne fun _ s => s
  | .mload =>
    s.withOne fun offset s =>
      s.withOffset offset fun offset s => s.withMemory (·.load offset) fun w s => s.pushWord w
  | .mstore =>
    s.withTwo fun offset w s =>
      s.withOffset offset fun offset s => s.withMemory (·.store offset w) fun _ s => s
  | .mstore8 =>
    s.withTwo fun offset w s =>
      s.withOffset offset fun offset s =>
        s.withMemory (·.store8 offset (UInt8.ofNat w.toNat)) fun _ s => s
  | .mcopy =>
    s.withThree fun dest source count s =>
      s.withRange dest count fun dest length s =>
        s.withRange source count fun source _ s =>
          s.withMemory (·.copy dest source length) fun _ s => s
  | .jump => s.withOne fun dest s => s.jumpTo dest.toNat
  | .jumpIf => s.withTwo fun dest condition s => if condition = 0 then s else s.jumpTo dest.toNat
  | .jumpDest => s
  | .push width =>
    s.withStack (Stack.push (s.program.immediate s.pc width)) fun _ s =>
      { s with pc := s.pc + width }
  | .dup depth => s.withStack (Stack.dup (depth + 1)) fun _ s => s
  | .swap depth => s.withStack (Stack.swap (depth + 1)) fun _ s => s
  | .ret =>
    s.withTwo fun offset count s =>
      s.withRange offset count fun offset count s =>
        s.withMemory (·.loadSlice offset count) fun bytes s => { s with output := bytes }.halt .ret
  | .revert =>
    s.withTwo fun offset count s =>
      s.withRange offset count fun offset count s =>
        s.withMemory (·.loadSlice offset count) fun bytes s =>
          { s with output := bytes }.fail (.reverted bytes)
  | .invalid => s.fail .unreachable
  | .host _ => s.fail (.unsupported b)

/-- Carries out the instruction of a byte, as if it stood at the program counter. -/
def execByte (b : UInt8) (s : State) : State :=
  let s := { s with pc := s.pc + 1 }
  match Instr.ofByte b with
  | some i => exec b i s
  | none => s.fail (.invalidOpcode b)

/-- Carries out the instruction at the program counter. Past the last byte of code there is none,
and the execution ends. -/
def step (s : State) : State :=
  match s.program.byte? s.pc with
  | some b => s.execByte b
  | none => s.halt .endOfCode

/-! ### Guarded steps -/

/-- Applies a step to an execution that goes on, and reports how it went. One that has ended stays
as it is. -/
@[inline]
def guarded (s : State) (f : State → State) : Except Fault Unit × State :=
  if s.isRunning then
    let s := f s
    (s.status.outcome, s)
  else (.error .alreadyHalted, s)

/-- Carries out the instruction at the program counter, if the execution goes on. -/
def dispatch (s : State) : Except Fault Unit × State :=
  s.guarded step

/-- Carries out the instruction of a given byte, if the execution goes on. -/
def dispatchByte (b : UInt8) (s : State) : Except Fault Unit × State :=
  s.guarded (execByte b)

end State

end LocalNode.Machine
