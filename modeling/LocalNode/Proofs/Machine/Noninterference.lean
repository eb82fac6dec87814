import LocalNode.Proofs.Machine.Boundary

/-!
What an execution can know of its environment.

A program learns of its environment only through the instructions that ask for it, and each of them
asks for one field. So an execution cannot tell two environments apart that agree on all fields its
code asks for. The argument runs both executions side by side, in states that are equal but for the
environment: `Ignores` says of a step that it keeps them so. It is shown for the forms that
instructions are built from, then for instructions and for runs.

What the code asks for is read off its boundaries, not off its bytes: a byte that would ask, hidden
in the immediate bytes of a push, is never carried out.
-/

namespace LocalNode.Machine

/-! ### Fields and their readers -/

/-- The fields of an environment. -/
inductive Env.Field where
  | address
  | origin
  | caller
  | callValue
  | callData
  | gasPrice
  | coinbase
  | timestamp
  | number
  | prevRandao
  | gasLimit
  | chainId
  | baseFee
  deriving DecidableEq

namespace Env.Field

/-- What a field holds. -/
def Value : Field → Type
  | .address | .origin | .caller | .coinbase => Address
  | .callValue | .gasPrice | .baseFee => Word
  | .callData => ByteArray
  | .timestamp | .number | .gasLimit | .chainId => UInt64
  | .prevRandao => Hash

/-- The value of a field in an environment. -/
def value (env : Env) : (f : Field) → f.Value
  | .address => env.address
  | .origin => env.origin
  | .caller => env.caller
  | .callValue => env.callValue
  | .callData => env.callData
  | .gasPrice => env.gasPrice
  | .coinbase => env.coinbase
  | .timestamp => env.timestamp
  | .number => env.number
  | .prevRandao => env.prevRandao
  | .gasLimit => env.gasLimit
  | .chainId => env.chainId
  | .baseFee => env.baseFee

/-- The bytes whose instructions ask for a field. -/
def readers : Field → List UInt8
  | .address => [0x30]
  | .origin => [0x32]
  | .caller => [0x33]
  | .callValue => [0x34]
  | .callData => [0x35, 0x36, 0x37]
  | .gasPrice => [0x3a]
  | .coinbase => [0x41]
  | .timestamp => [0x42]
  | .number => [0x43]
  | .prevRandao => [0x44]
  | .gasLimit => [0x45]
  | .chainId => [0x46]
  | .baseFee => [0x48]

/-- Some instruction of the code asks for the field. -/
def AskedBy (f : Field) (code : ByteArray) : Prop :=
  ∃ (p : Nat) (_ : p < code.size), Boundary code p ∧ code[p] ∈ f.readers

end Env.Field

/-- The field that a query asks for. Some queries are about the machine itself. -/
def Query.field? : Query → Option Env.Field
  | .address => some .address
  | .origin => some .origin
  | .caller => some .caller
  | .callValue => some .callValue
  | .callDataSize => some .callData
  | .gasPrice => some .gasPrice
  | .coinbase => some .coinbase
  | .timestamp => some .timestamp
  | .number => some .number
  | .prevRandao => some .prevRandao
  | .gasLimit => some .gasLimit
  | .chainId => some .chainId
  | .baseFee => some .baseFee
  | .codeSize | .returnDataSize | .pc | .memorySize => none

/-- The field that an instruction asks for. -/
def Instr.field? : Instr → Option Env.Field
  | .query q => q.field?
  | .callDataLoad | .callDataCopy => some .callData
  | _ => none

/-- An instruction that asks for a field stands behind a byte that is listed for it. -/
theorem Env.Field.mem_readers : ∀ b : UInt8, ∀ f ∈ (Instr.ofByte b).bind Instr.field?,
    b ∈ f.readers :=
  forall_byte (by decide +kernel)

/-- Two environments have the same to say to an instruction. -/
def Instr.Agree (i : Instr) (env env' : Env) : Prop :=
  ∀ f, i.field? = some f → f.value env = f.value env'

namespace State

/-! ### Steps that do not look

The forms that instructions are built from pass a state on. A form ignores the environment if what
it passes the state on to does, so an instruction is treated form by form, from the outside in.
-/

/-- The state in another environment. -/
def inEnv (s : State) (env : Env) : State :=
  { s with env }

@[simp]
theorem stack_inEnv (s : State) (env : Env) : (s.inEnv env).stack = s.stack :=
  rfl

@[simp]
theorem memory_inEnv (s : State) (env : Env) : (s.inEnv env).memory = s.memory :=
  rfl

@[simp]
theorem returnData_inEnv (s : State) (env : Env) : (s.inEnv env).returnData = s.returnData :=
  rfl

@[simp]
theorem program_inEnv (s : State) (env : Env) : (s.inEnv env).program = s.program :=
  rfl

@[simp]
theorem pc_inEnv (s : State) (env : Env) : (s.inEnv env).pc = s.pc :=
  rfl

@[simp]
theorem isRunning_inEnv (s : State) (env : Env) : (s.inEnv env).isRunning = s.isRunning :=
  rfl

/-- A step does the same in any two environments that are related, and changes neither. -/
def Ignores (related : Env → Env → Prop) (f : State → State) : Prop :=
  ∀ s env, related s.env env → f (s.inEnv env) = (f s).inEnv env

namespace Ignores

variable {related : Env → Env → Prop}

/-- What is read may depend on the environment, as long as both give the same. -/
theorem reading {α : Type} (read : State → α) (k : α → State → State)
    (hread : ∀ s env, related s.env env → read (s.inEnv env) = read s)
    (hk : ∀ value, Ignores related (k value)) : Ignores related fun s => k (read s) s := by
  intro s env hrelated
  simp only [hread s env hrelated]
  exact hk _ s env hrelated

theorem withStack {α : Type} {change : Stack → Except Fault α × Stack} {k : α → State → State}
    (h : ∀ value, Ignores related (k value)) : Ignores related (·.withStack change k) := by
  intro s env hrelated
  simp only [State.withStack, stack_inEnv]
  split
  · exact h _ { s with stack := _ } env hrelated
  · rfl

theorem withOne {k : Word → State → State} (h : ∀ a, Ignores related (k a)) :
    Ignores related (·.withOne k) :=
  withStack h

theorem withTwo {k : Word → Word → State → State} (h : ∀ a b, Ignores related (k a b)) :
    Ignores related (·.withTwo k) :=
  withStack fun _ => h _ _

theorem withThree {k : Word → Word → Word → State → State}
    (h : ∀ a b c, Ignores related (k a b c)) : Ignores related (·.withThree k) :=
  withStack fun _ => h _ _ _

/-- A word is put that both environments give. -/
theorem push {w : State → Word} {k : Unit → State → State}
    (hw : ∀ s env, related s.env env → w (s.inEnv env) = w s) (hk : ∀ u, Ignores related (k u)) :
    Ignores related fun s => s.withStack (Stack.push (w s)) k :=
  reading w (fun w s => s.withStack (Stack.push w) k) hw fun _ => withStack hk

theorem pushWord {w : State → Word} (h : ∀ s env, related s.env env → w (s.inEnv env) = w s) :
    Ignores related fun s => s.pushWord (w s) :=
  push h fun _ _ _ _ => rfl

theorem withMemory {α : Type} {change : Memory → Except Fault α × Memory} {k : α → State → State}
    (h : ∀ value, Ignores related (k value)) : Ignores related (·.withMemory change k) := by
  intro s env hrelated
  simp only [State.withMemory, memory_inEnv]
  split
  · exact h _ { s with memory := _ } env hrelated
  · rfl

theorem withOffset {offset : Word} {k : Nat → State → State} (h : ∀ o, Ignores related (k o)) :
    Ignores related (·.withOffset offset k) := by
  intro s env hrelated
  simp only [State.withOffset]
  split
  · exact h _ s env hrelated
  · rfl

theorem withRange {offset count : Word} {k : Nat → Nat → State → State}
    (h : ∀ o c, Ignores related (k o c)) : Ignores related (·.withRange offset count k) := by
  intro s env hrelated
  simp only [State.withRange]
  split
  · exact h _ _ s env hrelated
  · rfl

/-- The source of a copy is one that both environments give. -/
theorem copyFrom {source : State → ByteArray} {dest offset count : Word}
    (h : ∀ s env, related s.env env → source (s.inEnv env) = source s) :
    Ignores related fun s => s.copyFrom (source s) dest offset count :=
  reading source (fun a s => s.copyFrom a dest offset count) h fun _ =>
    withRange fun _ _ => withMemory fun _ => withMemory fun _ _ _ _ => rfl

theorem copyWithin {dest offset count : Word} :
    Ignores related fun s => s.copyWithin s.returnData dest offset count := by
  intro s env hrelated
  simp only [State.copyWithin, returnData_inEnv]
  split
  · exact withRange (fun _ _ => withMemory fun _ _ _ _ => rfl) s env hrelated
  · rfl

/-- The step is chosen by what both environments leave alone. -/
theorem ite {c : State → Prop} [∀ s, Decidable (c s)] {f g : State → State}
    (hc : ∀ s env, c (s.inEnv env) ↔ c s) (hf : Ignores related f) (hg : Ignores related g) :
    Ignores related fun s => if c s then f s else g s := by
  intro s env hrelated
  by_cases h : c s
  · simp only [if_pos h, if_pos ((hc s env).mpr h)]
    exact hf s env hrelated
  · simp only [if_neg h, if_neg (mt (hc s env).mp h)]
    exact hg s env hrelated

theorem jumpTo {dest : Nat} : Ignores related (·.jumpTo dest) :=
  .ite (fun _ _ => Iff.rfl) (fun _ _ _ => rfl) (fun _ _ _ => rfl)

end Ignores

/-! ### Instructions -/

theorem answer_inEnv {q : Query} {s : State} {env : Env} (h : (Instr.query q).Agree s.env env) :
    (s.inEnv env).answer q = s.answer q := by
  cases q with
  | codeSize | returnDataSize | pc | memorySize => rfl
  | callValue | gasPrice | baseFee => exact (h _ rfl).symm
  | address | origin | caller | coinbase | prevRandao =>
      exact congrArg FixedBytes.toWord (h _ rfl).symm
  | callDataSize => exact congrArg (fun data => Word.ofNat (ByteArray.size data)) (h _ rfl).symm
  | timestamp | number | gasLimit | chainId =>
      exact congrArg (fun n => Word.ofNat (UInt64.toNat n)) (h _ rfl).symm

/-- **An instruction does the same in any two environments that agree on what it asks for.** -/
theorem exec_ignores (b : UInt8) (i : Instr) : Ignores i.Agree (exec b i) := by
  unfold exec
  cases i with
  | stop | jumpDest | invalid | host => exact fun _ _ _ => rfl
  | unary op => exact .withOne fun a => .pushWord fun _ _ _ => rfl
  | binary op => exact .withTwo fun a b => .pushWord fun _ _ _ => rfl
  | ternary op => exact .withThree fun a b c => .pushWord fun _ _ _ => rfl
  | query q => exact .pushWord fun _ _ => answer_inEnv
  | keccak256 =>
      exact .withTwo fun offset count =>
        .withRange fun o c => .withMemory fun bytes => .pushWord fun _ _ _ => rfl
  | callDataLoad =>
      refine .withOne fun offset => .pushWord fun s env hagree => ?_
      have hdata : s.env.callData = env.callData := hagree .callData rfl
      simp only [inEnv, hdata]
  | callDataCopy =>
      refine .withThree fun dest offset count => .copyFrom fun s env hagree => ?_
      exact (hagree .callData rfl).symm
  | codeCopy => exact .withThree fun dest offset count => .copyFrom fun _ _ _ => rfl
  | returnDataCopy => exact .withThree fun dest offset count => .copyWithin
  | pop => exact .withOne fun a _ _ _ => rfl
  | mload =>
      exact .withOne fun offset =>
        .withOffset fun o => .withMemory fun w => .pushWord fun _ _ _ => rfl
  | mstore | mstore8 =>
      exact .withTwo fun offset w => .withOffset fun o => .withMemory fun _ _ _ _ => rfl
  | mcopy =>
      exact .withThree fun dest source count =>
        .withRange fun d c => .withRange fun o c => .withMemory fun _ _ _ _ => rfl
  | jump => exact .withOne fun dest => .jumpTo
  | jumpIf =>
      exact .withTwo fun dest condition => .ite (fun _ _ => Iff.rfl) (fun _ _ _ => rfl) .jumpTo
  | push width => exact .push (fun _ _ _ => rfl) fun _ _ _ _ => rfl
  | dup depth | swap depth => exact .withStack fun _ _ _ _ => rfl
  | ret | revert =>
      exact .withTwo fun offset count => .withRange fun o c => .withMemory fun bytes _ _ _ => rfl

/-! ### Runs

The two executions differ in nothing but the environment, so they are always at the same boundary of
the code. The instruction there is one that the code holds, and it looks only at what agrees.
-/

section Runs

variable {code : ByteArray} {env env' : Env} {s : State}

theorem execByte_inEnv {b : UInt8} (hagree : ∀ i, Instr.ofByte b = some i → i.Agree s.env env') :
    (s.inEnv env').execByte b = (s.execByte b).inEnv env' := by
  unfold execByte
  cases hbyte : Instr.ofByte b with
  | none => rfl
  | some i => exact exec_ignores b i { s with pc := s.pc + 1 } env' (hagree i hbyte)

/-- The next instruction does the same in both environments: it starts at a boundary, so its field
is one that the code asks for. -/
theorem step_inEnv (hsame : ∀ f : Env.Field, f.AskedBy code → f.value env = f.value env')
    (h : Sound code env s) (hb : Boundary code s.pc) :
    (s.inEnv env').step = s.step.inEnv env' := by
  simp only [step, program_inEnv, pc_inEnv]
  split
  · rename_i b hbyte
    obtain ⟨hlt, hcode⟩ := byte?_eq_some h hbyte
    refine execByte_inEnv ?_
    intro i hi f hf
    have hreader : b ∈ f.readers := by
      apply Env.Field.mem_readers b f
      rw [hi]
      exact hf
    rw [h.env]
    exact hsame f ⟨s.pc, hlt, hb, by rw [hcode]; exact hreader⟩
  · rfl

/-- Two runs stay side by side: the induction is on the steps left. -/
theorem runFrom_inEnv (hsame : ∀ f : Env.Field, f.AskedBy code → f.value env = f.value env')
    (limit : Nat) : ∀ (left : Nat) (s : State), Sound code env s → AtBoundary code s →
    (s.inEnv env').runFrom limit left =
      ((s.runFrom limit left).1.inEnv env', (s.runFrom limit left).2) := by
  intro left
  induction left with
  | zero =>
      intro s _ _
      rw [runFrom, runFrom, isRunning_inEnv]
      split <;> rfl
  | succ left ih =>
      intro s h hb
      rw [runFrom, runFrom, isRunning_inEnv]
      split
      · rename_i hrunning
        have hrun := isRunning_iff.mp hrunning
        rw [step_inEnv hsame h (hb hrun)]
        exact ih s.step (h.step hrun) (step_atBoundary h (hb hrun))
      · rfl

end Runs

end State

/-- **What code does not ask for makes no difference to it.** Two environments that differ in one
field only lead to the same end, output and number of steps, if no instruction of the code asks for
that field. -/
theorem run_eq_of_not_asked (limits : Limits) (code : ByteArray) (f : Env.Field) (env env' : Env)
    (hsame : ∀ g : Env.Field, g ≠ f → g.value env = g.value env') (hnot : ¬ f.AskedBy code) :
    run limits code env = run limits code env' := by
  have hasked : ∀ g : Env.Field, g.AskedBy code → g.value env = g.value env' := by
    intro g hg
    apply hsame
    rintro rfl
    exact hnot hg
  have hrun : (State.fresh code env').execute limits.steps = _ :=
    State.runFrom_inEnv hasked limits.steps limits.steps (.fresh code env)
      (State.Sound.fresh code env) fun _ => .start
  unfold run
  rw [hrun]
  rfl

/-- The code pushes the byte that would ask for the value of the call, and returns as many zeros.
It does the same whatever that value is. -/
theorem run_eq_of_not_asked_immediate :
    ¬ Env.Field.callValue.AskedBy ⟨#[0x60, 0x34, 0x5f, 0xf3]⟩ ∧
      run {} ⟨#[0x60, 0x34, 0x5f, 0xf3]⟩ {} =
        run {} ⟨#[0x60, 0x34, 0x5f, 0xf3]⟩ { callValue := 7 } := by
  have hnot : ¬ Env.Field.callValue.AskedBy ⟨#[0x60, 0x34, 0x5f, 0xf3]⟩ := by
    rintro ⟨p, hp, hb, hmem⟩
    have hbyte := List.mem_singleton.mp hmem
    rcases p with _ | _ | _ | _ | p
    · exact absurd hbyte (by decide : (0x60 : UInt8) ≠ 0x34)
    · exact hb.not_immediate ⟨0, by decide, .start, by decide, by decide⟩
    · exact absurd hbyte (by decide : (0x5f : UInt8) ≠ 0x34)
    · exact absurd hbyte (by decide : (0xf3 : UInt8) ≠ 0x34)
    · exact absurd hp (Nat.not_lt.mpr (Nat.le_add_left 4 p))
  refine ⟨hnot, run_eq_of_not_asked _ _ .callValue _ _ ?_ hnot⟩
  intro g hg
  cases g with
  | callValue => exact absurd rfl hg
  | _ => rfl

end LocalNode.Machine
