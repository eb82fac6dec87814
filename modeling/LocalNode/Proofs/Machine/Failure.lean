import LocalNode.Proofs.Machine.Verdict

/-!
What an instruction that fails leaves behind.

A failure is found either before any operand is taken or after all of them are, and nothing else has
been written by then. So of the state before only three things can have changed: the status, the
program counter, which is behind the byte, and the operands, which may be gone. Reverting is the one
failure that is asked for. It reads memory like any other instruction, and what it read is the
output.

Which of these happened is read off the list of effects. What the operands of a byte are is said by
the table of bytes, and that a reverted execution carries the bytes of the right range is part of
the verdict.
-/

namespace LocalNode.Machine

/-- The faults that are found before any operand is taken are those of the byte itself and those of
the depth of the stack. -/
theorem Fault.refuses_iff {fault : Fault} :
    fault.Refuses ↔
      fault.isOpcodeFault = true ∨ fault = .stackUnderflow ∨ fault = .stackOverflow := by
  cases fault <;> simp [Refuses, isOpcodeFault]

/-- The faults that are found after the operands were taken are neither. -/
theorem Fault.not_refuses_of_interrupts {fault : Fault} (h : fault.Interrupts) :
    ¬ fault.Refuses := by
  cases fault <;> simp [Interrupts, Refuses] at h ⊢

/-- Reverting leaves the bytes of the range that the operands tell, with zeros beyond what memory
covers. -/
theorem Demand.verdict_reverted {d : Demand} {s : State} {data : ByteArray}
    (h : d.verdict s = .error (.reverted data)) :
    data = Memory.Tape.slice s.memory.byteAt (s.stack.operand 0) (s.stack.operand 1) := by
  unfold verdict late at h
  repeat' split at h
  all_goals cases h
  rfl

namespace State

/-- What a byte that fails leaves behind. -/
structure Abandons (b : UInt8) (s : State) (fault : Fault) (s' : State) : Prop where
  /-- The fault is kept in the status. -/
  status : s'.status = .failed fault
  /-- The program counter is behind the byte. -/
  pc : s'.pc = s.pc + 1
  program : s'.program = s.program
  env : s'.env = s.env
  returnData : s'.returnData = s.returnData
  /-- Memory and output are as they were, unless the program reverted. -/
  kept : (∀ data, fault ≠ .reverted data) → s'.memory = s.memory ∧ s'.output = s.output
  /-- A fault of the byte itself or of the depth of the stack leaves the stack as it was. -/
  refused : fault.isOpcodeFault = true ∨ fault = .stackUnderflow ∨ fault = .stackOverflow →
    s'.stack = s.stack
  /-- Any other fault leaves the stack without the operands of the byte, which were there. -/
  taken : ¬ (fault.isOpcodeFault = true ∨ fault = .stackUnderflow ∨ fault = .stackOverflow) →
    ∃ d, Role.ofByte b = .executable d ∧ d.operands ≤ s.stack.depth ∧
      s'.stack = s.stack.drop d.operands
  /-- A program that reverted leaves the bytes of the range it asked for, as they were before and
  with zeros beyond what memory covered. -/
  reverted : ∀ data, fault = .reverted data → s'.output = data ∧
    data = Memory.Tape.slice s.memory.byteAt (s.stack.operand 0) (s.stack.operand 1)

section Endings

variable {b : UInt8} {d : Demand} {s : State} {fault : Fault}

theorem abandons_of_refuses (h : fault.Refuses) :
    Abandons b s fault ({ s with pc := s.pc + 1 }.fail fault) where
  status := rfl
  pc := rfl
  program := rfl
  env := rfl
  returnData := rfl
  kept := fun _ => ⟨rfl, rfl⟩
  refused := fun _ => rfl
  taken := fun hlate => absurd (Fault.refuses_iff.mp h) hlate
  reverted := by
    rintro data rfl
    exact absurd h id

theorem abandons_of_interrupts (h : fault.Interrupts) (hrole : Role.ofByte b = .executable d)
    (henough : d.operands ≤ s.stack.depth) :
    Abandons b s fault
      ({ s with pc := s.pc + 1, stack := s.stack.drop d.operands }.fail fault) where
  status := rfl
  pc := rfl
  program := rfl
  env := rfl
  returnData := rfl
  kept := fun _ => ⟨rfl, rfl⟩
  refused := fun hearly => absurd (Fault.refuses_iff.mpr hearly) (Fault.not_refuses_of_interrupts h)
  taken := fun _ => ⟨d, hrole, henough, rfl⟩
  reverted := by
    rintro data rfl
    exact absurd h id

theorem abandons_of_reverts {memory : Memory} {bytes : ByteArray}
    (hrole : Role.ofByte b = .executable d) (henough : d.operands ≤ s.stack.depth)
    (hbytes : bytes = Memory.Tape.slice s.memory.byteAt (s.stack.operand 0) (s.stack.operand 1)) :
    Abandons b s (.reverted bytes)
      ({ s with pc := s.pc + 1, stack := s.stack.drop d.operands, memory, output := bytes }.fail
        (.reverted bytes)) where
  status := rfl
  pc := rfl
  program := rfl
  env := rfl
  returnData := rfl
  kept := fun hplain => absurd rfl (hplain bytes)
  refused := fun hearly => absurd (Fault.refuses_iff.mpr hearly) id
  taken := fun _ => ⟨d, hrole, henough, rfl⟩
  reverted := by
    rintro data ⟨⟩
    exact ⟨rfl, hbytes⟩

end Endings

/-- A fault that is found after the operands were taken is one of an executable byte. -/
theorem exists_executable {b : UInt8} {s : State} {fault : Fault}
    (h : (Role.ofByte b).verdict b s = .error fault) (hlate : ¬ fault.Refuses) :
    ∃ d, Role.ofByte b = .executable d := by
  cases hrole : Role.ofByte b with
  | executable d => exact ⟨d, rfl⟩
  | unassigned | abort | hostRequired =>
      rw [hrole] at h
      cases h
      exact absurd trivial hlate

/-- The states that fail among those to which an instruction can lead. -/
theorem abandons_of_effect {b : UInt8} {i : Instr} {s s' : State} {fault : Fault}
    (hrun : s.status = .running) (he : Effect i { s with pc := s.pc + 1 } s')
    (h : s'.report = .error fault) (hverdict : (Role.ofByte b).verdict b s = .error fault)
    (hdemand : ∀ d, Role.ofByte b = .executable d → d = i.demand) : Abandons b s fault s' := by
  cases he with
  | goesOn memory pc enough depth room below touched next =>
      have hok : Except.error fault = .ok () := h.symm.trans (report_of_running hrun)
      cases hok
  | stops isStop => cases h
  | returns isRet enough touched => cases h
  | refuses refused =>
      cases h
      exact abandons_of_refuses refused
  | interrupts interrupted enough =>
      cases h
      obtain ⟨d, hrole⟩ := exists_executable hverdict
        (Fault.not_refuses_of_interrupts interrupted)
      obtain rfl := hdemand d hrole
      exact abandons_of_interrupts interrupted hrole enough
  | reverts isRevert enough touched =>
      cases h
      subst isRevert
      obtain ⟨d, hrole⟩ := exists_executable hverdict id
      obtain rfl := hdemand d hrole
      rw [hrole] at hverdict
      exact abandons_of_reverts hrole enough (Demand.verdict_reverted hverdict)

theorem execByte_abandons {b : UInt8} {s : State} {fault : Fault} (hrun : s.status = .running)
    (hdata : s.returnData = .empty) (hdepth : s.stack.depth ≤ Stack.limit)
    (h : (s.execByte b).report = .error fault) : Abandons b s fault (s.execByte b) := by
  have hverdict : (Role.ofByte b).verdict b s = .error fault := by
    rw [← execByte_report b hrun hdata hdepth, h]
  rcases execByte_effect b s hdepth with ⟨i, hbyte, he⟩ | ⟨-, hfail⟩
  · refine abandons_of_effect hrun he h hverdict ?_
    intro d hrole
    rw [Role.ofByte_eq, hbyte] at hrole
    exact Instr.demand_of_role hrole
  · rw [hfail] at h ⊢
    cases h
    exact abandons_of_refuses trivial

/-- **A byte that fails changes the status, the program counter and at most its operands**, in every
state that the execution of some code can reach and in which it goes on. Only a program that reverts
also leaves data. -/
theorem dispatchByte_abandons (code : ByteArray) (env : Env) (ops : List Operation) (b : UInt8)
    (fault : Fault) (hrun : ((fresh code env).after ops).status = .running)
    (hfail : (((fresh code env).after ops).dispatchByte b).1 = .error fault) :
    Abandons b ((fresh code env).after ops) fault
      (((fresh code env).after ops).dispatchByte b).2 := by
  have hsound := (Sound.fresh code env).after ops
  rw [dispatchByte_of_running b hrun] at hfail ⊢
  exact execByte_abandons hrun hsound.returnData hsound.depth hfail

/-- With the words 33 and 2 on the stack, jumping to 33 takes one of them and leaves memory alone,
copying from call data finds too few and takes none, and reverting leaves two zeros. -/
theorem dispatchByte_abandons_two_words :
    let s := (fresh ⟨#[0x60, 0x02, 0x60, 0x21]⟩ {}).after [.dispatch, .dispatch]
    (s.dispatchByte 0x56).2.stack.words = [2] ∧ (s.dispatchByte 0x56).2.memory = s.memory ∧
      (s.dispatchByte 0x37).2.stack = s.stack ∧
      (s.dispatchByte 0xfd).2.output = ⟨#[0, 0]⟩ := by
  intro s
  have hrun : s.status = .running := rfl
  have hjump := dispatchByte_abandons ⟨#[0x60, 0x02, 0x60, 0x21]⟩ {} [.dispatch, .dispatch] 0x56
    (.invalidJump 33) hrun rfl
  have hcopy := dispatchByte_abandons ⟨#[0x60, 0x02, 0x60, 0x21]⟩ {} [.dispatch, .dispatch] 0x37
    .stackUnderflow hrun rfl
  have hrevert := dispatchByte_abandons ⟨#[0x60, 0x02, 0x60, 0x21]⟩ {} [.dispatch, .dispatch] 0xfd
    (.reverted ⟨#[0, 0]⟩) hrun rfl
  refine ⟨?_, (hjump.kept nofun).1, hcopy.refused (.inr (.inl rfl)), (hrevert.reverted _ rfl).1⟩
  obtain ⟨d, hrole, -, hstack⟩ := hjump.taken (by simp [Fault.isOpcodeFault])
  have hd : Role.executable ⟨1, 0, [], .jump⟩ = .executable d := hrole
  cases hd
  exact (congrArg Stack.words hstack).trans rfl

end State

end LocalNode.Machine
