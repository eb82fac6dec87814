import LocalNode.Machine.Run
import LocalNode.Proofs.Machine.Effect

/-!
What every reachable state of an execution satisfies.

From outside an execution can be moved in three ways: by the instruction at the program counter, by
the instruction of any given byte, and by running it under a limit. `Sound` is the invariant of all
three. It bounds stack and memory, fixes what an execution never changes, and says when there is an
output. That it survives an instruction is read off the list of effects, that it survives a run is
an induction on the steps left, and the rest follows by induction on the operations.

An execution that has ended is `Frozen`: no operation changes anything of it any more.
-/

namespace LocalNode.Machine

/-- A way to move an execution from outside. -/
inductive Operation where
  /-- The instruction at the program counter. -/
  | dispatch
  /-- The instruction of a byte. -/
  | dispatchByte (b : UInt8)
  /-- A run under limits. -/
  | execute (limits : Limits)

/-- The state after an operation. -/
def Operation.perform : Operation → State → State
  | .dispatch, s => s.dispatch.2
  | .dispatchByte b, s => (s.dispatchByte b).2
  | .execute limits, s => (s.execute limits.steps).1

namespace State

/-- The state after some operations, one after another. -/
def after (s : State) (ops : List Operation) : State :=
  ops.foldl (fun s op => op.perform s) s

@[simp]
theorem after_cons (s : State) (op : Operation) (ops : List Operation) :
    s.after (op :: ops) = (op.perform s).after ops :=
  rfl

theorem isRunning_iff {s : State} : s.isRunning = true ↔ s.status = .running := by
  unfold isRunning Status.isRunning
  cases s.status <;> simp

/-! ### The invariant

The output is part of the invariant because a fault may carry it. Failing keeps the invariant for
all faults but that one, and a program that reverts sets both at once.
-/

/-- What holds of every state that the execution of code in an environment can reach. -/
structure Sound (code : ByteArray) (env : Env) (s : State) : Prop where
  /-- The stack never holds more words than it may. -/
  depth : s.stack.depth ≤ 1024
  /-- Memory covers whole units of 32 bytes. -/
  units : 32 ∣ s.memory.size
  /-- Memory covers no more than 32 mebibytes. -/
  capacity : s.memory.size ≤ 32 * 1024 * 1024
  /-- Code and landing marks are those of the start. -/
  program : s.program = (fresh code env).program
  /-- The environment is that of the start. -/
  env : s.env = env
  /-- No call was made, so none returned data. -/
  returnData : s.returnData = .empty
  /-- Only a program that returned or reverted has an output. -/
  output : s.output = .empty ∨ s.status = .halted .ret ∨
    ∃ data, s.status = .failed (.reverted data)
  /-- A program that reverted has the output that its fault carries. -/
  reverted : ∀ data, s.status = .failed (.reverted data) → s.output = data

namespace Sound

variable {code : ByteArray} {env : Env} {s : State}

theorem fresh (code : ByteArray) (env : Env) : Sound code env (fresh code env) where
  depth := Nat.zero_le _
  units := ⟨0, rfl⟩
  capacity := Nat.zero_le _
  program := rfl
  env := rfl
  returnData := rfl
  output := .inl rfl
  reverted := fun _ h => nomatch h

theorem wellSized (h : Sound code env s) : s.memory.WellSized :=
  ⟨h.units, h.capacity⟩

/-- While the execution goes on there is no output yet. -/
theorem output_empty (h : Sound code env s) (hrun : s.status = .running) : s.output = .empty := by
  rcases h.output with hempty | hret | ⟨data, hreverted⟩
  · exact hempty
  · rw [hrun] at hret
    cases hret
  · rw [hrun] at hreverted
    cases hreverted

/-- The invariant does not look at the program counter. -/
theorem setPc (h : Sound code env s) (pc : Nat) : Sound code env { s with pc } :=
  ⟨h.depth, h.units, h.capacity, h.program, h.env, h.returnData, h.output, h.reverted⟩

/-- Ending without data keeps the invariant. -/
theorem halt (h : Sound code env s) (hrun : s.status = .running) (reason : Halt) :
    Sound code env (s.halt reason) :=
  ⟨h.depth, h.units, h.capacity, h.program, h.env, h.returnData, .inl (h.output_empty hrun),
    fun _ hstatus => nomatch hstatus⟩

/-- Failing keeps the invariant, unless the fault carries data. -/
theorem fail (h : Sound code env s) (hrun : s.status = .running) {fault : Fault}
    (hplain : ∀ data, fault ≠ .reverted data) : Sound code env (s.fail fault) := by
  refine ⟨h.depth, h.units, h.capacity, h.program, h.env, h.returnData,
    .inl (h.output_empty hrun), ?_⟩
  intro data hstatus
  cases hstatus
  exact absurd rfl (hplain data)

/-- Taking words from the stack keeps the invariant. -/
theorem dropWords (h : Sound code env s) (n : Nat) :
    Sound code env { s with stack := s.stack.drop n } := by
  have hdepth : (s.stack.drop n).depth ≤ s.stack.depth := by
    rw [Stack.depth_drop]
    exact Nat.sub_le ..
  exact ⟨Nat.le_trans hdepth h.depth, h.units, h.capacity, h.program, h.env, h.returnData,
    h.output, h.reverted⟩

/-- **No effect of an instruction breaks the invariant.** -/
theorem effect (h : Sound code env s) (hrun : s.status = .running) {i : Instr} {s' : State}
    (he : Effect i s s') : Sound code env s' := by
  cases he with
  | goesOn memory pc enough depth room below touched next =>
      have hmemory := h.wellSized.touches touched
      exact ⟨room, hmemory.units, hmemory.bounded, h.program, h.env, h.returnData, h.output,
        h.reverted⟩
  | stops isStop => exact h.halt hrun .stop
  | returns isRet enough touched =>
      have hmemory := h.wellSized.touches touched
      exact ⟨(h.dropWords 2).depth, hmemory.units, hmemory.bounded, h.program, h.env,
        h.returnData, .inr (.inl rfl), fun _ hstatus => nomatch hstatus⟩
  | reverts isRevert enough touched =>
      have hmemory := h.wellSized.touches touched
      refine ⟨(h.dropWords 2).depth, hmemory.units, hmemory.bounded, h.program, h.env,
        h.returnData, .inr (.inr ⟨_, rfl⟩), ?_⟩
      intro data hstatus
      cases hstatus
      rfl
  | refuses refused =>
      refine h.fail hrun ?_
      rintro data rfl
      exact refused
  | interrupts interrupted enough =>
      refine (h.dropWords _).fail hrun ?_
      rintro data rfl
      exact interrupted

theorem execByte (h : Sound code env s) (hrun : s.status = .running) (b : UInt8) :
    Sound code env (s.execByte b) := by
  have hnext := h.setPc (s.pc + 1)
  rcases execByte_effect b s h.depth with ⟨i, -, he⟩ | ⟨-, hfail⟩
  · exact hnext.effect hrun he
  · rw [hfail]
    exact hnext.fail hrun (by simp)

theorem step (h : Sound code env s) (hrun : s.status = .running) : Sound code env s.step := by
  unfold State.step
  split
  · exact h.execByte hrun _
  · exact h.halt hrun .endOfCode

theorem guarded (h : Sound code env s) {f : State → State}
    (hf : s.status = .running → Sound code env (f s)) : Sound code env (s.guarded f).2 := by
  unfold State.guarded
  split
  · rename_i hrun
    exact hf (isRunning_iff.mp hrun)
  · exact h

/-- A run keeps the invariant: the induction is on the steps left, and the fault of a spent limit
carries no data. -/
theorem runFrom (limit : Nat) : ∀ (left : Nat) (s : State), Sound code env s →
    Sound code env (s.runFrom limit left).1 := by
  intro left
  induction left with
  | zero =>
      intro s h
      rw [State.runFrom]
      split
      · rename_i hrun
        exact h.fail (isRunning_iff.mp hrun) (by simp)
      · exact h
  | succ left ih =>
      intro s h
      rw [State.runFrom]
      split
      · rename_i hrun
        exact ih _ (h.step (isRunning_iff.mp hrun))
      · exact h

theorem perform (h : Sound code env s) (op : Operation) : Sound code env (op.perform s) := by
  cases op with
  | dispatch => exact h.guarded fun hrun => h.step hrun
  | dispatchByte b => exact h.guarded fun hrun => h.execByte hrun b
  | execute limits => exact runFrom limits.steps limits.steps s h

theorem after (ops : List Operation) : ∀ {s : State}, Sound code env s →
    Sound code env (s.after ops) := by
  induction ops with
  | nil => intro s h; exact h
  | cons op ops ih => intro s h; exact ih (h.perform op)

end Sound

/-! ### Ended executions -/

/-- Every operation finds the execution ended and leaves it as it is. -/
structure Frozen (s : State) : Prop where
  dispatch : s.dispatch = (.error .alreadyHalted, s)
  dispatchByte : ∀ b, s.dispatchByte b = (.error .alreadyHalted, s)
  execute : ∀ limits : Limits, s.execute limits.steps = (s, 0)

theorem guarded_of_ended {s : State} (h : s.isRunning = false) (f : State → State) :
    s.guarded f = (.error .alreadyHalted, s) := by
  simp [guarded, h]

theorem frozen_of_ended {s : State} (h : s.isRunning = false) : s.Frozen := by
  refine ⟨guarded_of_ended h _, fun b => guarded_of_ended h _, ?_⟩
  intro limits
  unfold execute
  cases hsteps : limits.steps with
  | zero => simp [runFrom, h]
  | succ left => simp [runFrom, h]

theorem Frozen.after {s : State} (h : s.Frozen) (ops : List Operation) : s.after ops = s := by
  induction ops with
  | nil => rfl
  | cons op ops ih =>
      have hop : op.perform s = s := by
        cases op with
        | dispatch => rw [Operation.perform, h.dispatch]
        | dispatchByte b => rw [Operation.perform, h.dispatchByte b]
        | execute limits => rw [Operation.perform, h.execute limits]
      rw [after_cons, hop, ih]

/-- **Every reachable state satisfies the invariant, and one that has ended stays as it is**,
whatever operations follow. -/
theorem after_fresh_sound (code : ByteArray) (env : Env) (ops : List Operation) :
    Sound code env ((fresh code env).after ops) ∧
      (((fresh code env).after ops).isRunning = false → ∀ later,
        (((fresh code env).after ops).after later).Frozen ∧
          ((fresh code env).after ops).after later = (fresh code env).after ops) := by
  refine ⟨(Sound.fresh code env).after ops, ?_⟩
  intro hended later
  have hfrozen := frozen_of_ended hended
  rw [hfrozen.after later]
  exact ⟨hfrozen, rfl⟩

/-- A program that pushes a range and reverts with it has ended after its first instruction and a
run, and then nothing moves it. -/
theorem after_fresh_sound_reverted :
    ((fresh ⟨#[0x60, 0x21, 0x60, 0x00, 0xfd]⟩ {}).after [.dispatch, .execute {}]).isRunning =
        false ∧
      ((fresh ⟨#[0x60, 0x21, 0x60, 0x00, 0xfd]⟩ {}).after [.dispatch, .execute {}]).after
          [.dispatchByte 0x00, .dispatch] =
        (fresh ⟨#[0x60, 0x21, 0x60, 0x00, 0xfd]⟩ {}).after [.dispatch, .execute {}] :=
  ⟨by decide, ((after_fresh_sound _ _ _).2 (by decide) _).2⟩

end State

end LocalNode.Machine
