import LocalNode.Rpc.Command

/-!
Carrying out commands on any chain.

A chain is known only by what it answers to each command. Answers are typed by the command, so what
a chain answers always has the form that the method declares.
-/

namespace LocalNode.Rpc

/-- A chain whose states are of type `σ`: it answers each command and goes to a new state. -/
structure Executor (σ : Type) where
  answer : (c : Command) → σ → Except ChainError c.Answer × σ

namespace Command

variable {σ : Type}

/-- The JSON form of an answer, compared with the schema of the method if `check` says so. -/
def writeAnswer (c : Command) (check : Bool) (answer : c.Answer) : Except Error Json :=
  let v := c.method.encodeAnswer answer
  if check then
    match c.method.validateAnswer v with
    | .ok () => .ok v
    | .error e => .error (.validation e)
  else .ok v

/-- Carries out a command on a chain and writes the answer. -/
def run (c : Command) (chain : Executor σ) (check : Bool) (s : σ) : Except Error Json × σ :=
  match chain.answer c s with
  | (.ok answer, s) => (c.writeAnswer check answer, s)
  | (.error e, s) => (.error (.chain e), s)

end Command

end LocalNode.Rpc
