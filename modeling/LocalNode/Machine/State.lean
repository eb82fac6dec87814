import LocalNode.Machine.Env
import LocalNode.Machine.Memory
import LocalNode.Machine.Program
import LocalNode.Machine.Stack

/-!
The state of one execution.
-/

namespace LocalNode.Machine

/-- How an execution ends without failing. -/
inductive Halt where
  /-- The program stopped. -/
  | stop
  /-- The program returned data. -/
  | ret
  /-- The program ran past its last byte. -/
  | endOfCode
  deriving DecidableEq, Repr

/-- Where an execution stands. -/
inductive Status where
  | running
  | halted (reason : Halt)
  | failed (fault : Fault)

namespace Status

/-- Whether the execution goes on. -/
def isRunning : Status → Bool
  | .running => true
  | _ => false

/-- What the step that led to this status reports. -/
def outcome : Status → Except Fault Unit
  | .failed fault => .error fault
  | _ => .ok ()

end Status

/-- The state of one execution. -/
structure State where
  program : Program
  env : Env
  /-- The offset of the next instruction. -/
  pc : Nat
  stack : Stack
  memory : Memory
  /-- The data returned by the last call. Calls need a host, so there are none. -/
  returnData : ByteArray
  /-- The data that the execution returned or reverted with. -/
  output : ByteArray
  status : Status

namespace State

/-- The state in which the execution of code starts. -/
def fresh (code : ByteArray) (env : Env) : State where
  program := .ofCode code
  env := env
  pc := 0
  stack := .empty
  memory := .empty
  returnData := .empty
  output := .empty
  status := .running

/-- Whether the execution goes on. -/
def isRunning (s : State) : Bool :=
  s.status.isRunning

/-- The state after an ordinary end. -/
def halt (s : State) (reason : Halt) : State :=
  { s with status := .halted reason }

/-- The state after a failure. -/
def fail (s : State) (fault : Fault) : State :=
  { s with status := .failed fault }

end State

end LocalNode.Machine
