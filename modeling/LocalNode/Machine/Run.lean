import LocalNode.Machine.Step

/-!
Whole executions under limits.
-/

namespace LocalNode.Machine

/-- What an execution may use. -/
structure Limits where
  /-- The most bytes of code. -/
  codeSize : Nat := 24576
  /-- The most steps. -/
  steps : Nat := 10000000

/-- How an execution ended. -/
structure Outcome where
  status : Status
  output : ByteArray
  steps : Nat

namespace State

/-- Takes steps until the execution ends, where `left` of the `limit` steps are left. Needing one
step more is a failure. The answer holds the number of steps taken. -/
def runFrom (limit : Nat) : (left : Nat) → State → State × Nat
  | 0, s => (if s.isRunning then s.fail (.stepLimit limit) else s, limit)
  | left + 1, s =>
    if s.isRunning then runFrom limit left s.step else (s, limit - (left + 1))

/-- Takes steps until the execution ends, and counts them. -/
def execute (limit : Nat) (s : State) : State × Nat :=
  s.runFrom limit limit

end State

/-- Runs code from the start. Code that is too long is refused. -/
def run (limits : Limits) (code : ByteArray) (env : Env) : Except Fault Outcome :=
  if limits.codeSize < code.size then .error (.codeTooLarge code.size limits.codeSize)
  else
    let (s, steps) := (State.fresh code env).execute limits.steps
    .ok ⟨s.status, s.output, steps⟩

end LocalNode.Machine
