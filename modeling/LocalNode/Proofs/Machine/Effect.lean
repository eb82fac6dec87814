import LocalNode.Proofs.Machine.Ranges
import LocalNode.Proofs.Machine.Stack

/-!
What one instruction can do to a state.

`Effect` lists the ways in which carrying out an instruction can end, each with the state it leads
to, and `exec_effect` says that there are no others. Every statement about whole executions is
derived from this list, so that the instructions are gone through once.

The instructions are built from a few forms: taking words, putting a word, using memory, jumping.
Each form has a rule here that says in which cases it ends and what is known in each of them. The
argument for an instruction is then a chain of such rules.
-/

namespace LocalNode.Machine

/-- What holds of the first 256 numbers holds of every byte. This is how the table of instructions
is compared with other tables. -/
theorem forall_byte {P : UInt8 → Prop} (h : ∀ n : Fin 256, P (UInt8.ofNat n)) (b : UInt8) :
    P b := by
  have hb := h ⟨b.toNat, b.toNat_lt⟩
  rwa [UInt8.ofNat_toNat] at hb

namespace Instr

/-- The number of topmost words that an instruction looks at or takes. -/
def operands : Instr → Nat
  | .unary _ | .callDataLoad | .pop | .mload | .jump => 1
  | .binary _ | .keccak256 | .mstore | .mstore8 | .jumpIf | .ret | .revert => 2
  | .ternary _ | .callDataCopy | .codeCopy | .returnDataCopy | .mcopy => 3
  | .dup depth => depth + 1
  | .swap depth => depth + 2
  | .stop | .query _ | .jumpDest | .push _ | .invalid | .host _ => 0

/-- The number of words that an instruction leaves in their place. -/
def results : Instr → Nat
  | .unary _ | .binary _ | .ternary _ | .query _ | .keccak256 | .callDataLoad | .mload => 1
  | .push _ => 1
  | .dup depth => depth + 2
  | .swap depth => depth + 2
  | _ => 0

end Instr

namespace Fault

/-- The faults that are found before any operand is taken. -/
def Refuses : Fault → Prop
  | .invalidOpcode _ | .unreachable | .unsupported _ | .stackUnderflow | .stackOverflow => True
  | _ => False

/-- The faults that are found after the operands have been taken, where nothing else has happened
yet. -/
def Interrupts : Fault → Prop
  | .invalidJump _ | .invalidMemoryAccess | .returnDataOutOfBounds => True
  | _ => False

end Fault

namespace State

/-! ### The ways in which an instruction ends

The list says nothing about what is computed. It says which parts of the state may be different
afterwards, and how much of the stack an instruction took before it failed.
-/

/-- The states to which carrying out an instruction can lead. -/
inductive Effect (i : Instr) (s : State) : State → Prop
  /-- The execution goes on. The operands have made way for the results, memory may cover more, and
  the next instruction is the one behind or, for a jump, one at which code may be entered. -/
  | goesOn {stack : Stack} (memory : Memory) (pc : Nat)
      (enough : i.operands ≤ s.stack.depth)
      (depth : stack.depth = s.stack.depth - i.operands + i.results)
      (room : stack.depth ≤ Stack.limit)
      (below : stack.words.drop i.results = s.stack.words.drop i.operands)
      (touched : s.memory.Touches memory)
      (next : pc = s.pc + i.immediateSize ∨
        (i = .jump ∨ i = .jumpIf) ∧ s.program.isJumpDest pc = true) :
      Effect i s { s with stack, memory, pc }
  /-- The program stops. -/
  | stops (isStop : i = .stop) : Effect i s (s.halt .stop)
  /-- The program returns data. -/
  | returns {memory : Memory} {bytes : ByteArray} (isRet : i = .ret) (enough : 2 ≤ s.stack.depth)
      (touched : s.memory.Touches memory) :
      Effect i s ({ s with stack := s.stack.drop 2, memory, output := bytes }.halt .ret)
  /-- The program fails and leaves data. -/
  | reverts {memory : Memory} {bytes : ByteArray} (isRevert : i = .revert)
      (enough : 2 ≤ s.stack.depth) (touched : s.memory.Touches memory) :
      Effect i s
        ({ s with stack := s.stack.drop 2, memory, output := bytes }.fail (.reverted bytes))
  /-- The instruction is not even begun. -/
  | refuses {fault : Fault} (refused : fault.Refuses) : Effect i s (s.fail fault)
  /-- The operands are taken, and then the instruction fails. -/
  | interrupts {fault : Fault} (interrupted : fault.Interrupts)
      (enough : i.operands ≤ s.stack.depth) :
      Effect i s ({ s with stack := s.stack.drop i.operands }.fail fault)

/-! ### Rules for the forms that instructions are built from

A rule proves any property of the state that a form leads to, with one premise for each way through
the form. So a proof about an instruction applies one rule after another.
-/

section Rules

variable {P : State → Prop} {s : State}

theorem withStack_of_ok {α : Type} {change : Stack → Except Fault α × Stack} {k : α → State → State}
    {value : α} {stack : Stack} (h : change s.stack = (.ok value, stack)) :
    s.withStack change k = k value { s with stack } := by
  rw [withStack, h]

/-- A failure that leaves the stack as it was leaves everything else as it was. -/
theorem withStack_of_error {α : Type} {change : Stack → Except Fault α × Stack}
    {k : α → State → State} {fault : Fault} (h : change s.stack = (.error fault, s.stack)) :
    s.withStack change k = s.fail fault := by
  rw [withStack, h]

theorem withOne_rule {k : Word → State → State}
    (short : s.stack.depth < 1 → P (s.fail .stackUnderflow))
    (taken : ∀ a, 1 ≤ s.stack.depth → P (k a { s with stack := s.stack.drop 1 })) :
    P (s.withOne k) := by
  by_cases hshort : s.stack.depth < 1
  · rw [withOne, withStack_of_error (Stack.pop_of_short hshort)]
    exact short hshort
  · have henough := Nat.le_of_not_lt hshort
    obtain ⟨a, hpop, -⟩ := Stack.pop_of_enough henough
    rw [withOne, withStack_of_ok hpop]
    exact taken a henough

/-- All words that are asked for are taken, or none. -/
theorem popN_rule {n : Nat} {k : Vector Word n → State → State}
    (short : s.stack.depth < n → P (s.fail .stackUnderflow))
    (taken : ∀ ws, n ≤ s.stack.depth → P (k ws { s with stack := s.stack.drop n })) :
    P (s.withStack (Stack.popN n) k) := by
  by_cases hshort : s.stack.depth < n
  · rw [withStack_of_error (Stack.popN_of_short hshort)]
    exact short hshort
  · have henough := Nat.le_of_not_lt hshort
    obtain ⟨ws, hpops, -⟩ := Stack.popN_of_enough henough
    rw [withStack_of_ok hpops]
    exact taken ws henough

theorem withTwo_rule {k : Word → Word → State → State}
    (short : s.stack.depth < 2 → P (s.fail .stackUnderflow))
    (taken : ∀ a b, 2 ≤ s.stack.depth → P (k a b { s with stack := s.stack.drop 2 })) :
    P (s.withTwo k) :=
  popN_rule short fun _ henough => taken _ _ henough

theorem withThree_rule {k : Word → Word → Word → State → State}
    (short : s.stack.depth < 3 → P (s.fail .stackUnderflow))
    (taken : ∀ a b c, 3 ≤ s.stack.depth → P (k a b c { s with stack := s.stack.drop 3 })) :
    P (s.withThree k) :=
  popN_rule short fun _ henough => taken _ _ _ henough

theorem push_rule {w : Word} {k : Unit → State → State}
    (full : Stack.limit ≤ s.stack.depth → P (s.fail .stackOverflow))
    (room : s.stack.depth < Stack.limit → P (k () { s with stack := s.stack.cons w })) :
    P (s.withStack (Stack.push w) k) := by
  by_cases hroom : s.stack.depth < Stack.limit
  · rw [withStack_of_ok (Stack.push_of_room w hroom)]
    exact room hroom
  · have hfull := Nat.le_of_not_lt hroom
    rw [withStack_of_error (Stack.push_of_full w hfull)]
    exact full hfull

theorem pushWord_rule {w : Word}
    (full : Stack.limit ≤ s.stack.depth → P (s.fail .stackOverflow))
    (room : s.stack.depth < Stack.limit → P { s with stack := s.stack.cons w }) :
    P (s.pushWord w) :=
  push_rule full room

/-- Memory refuses a range, or covers it and gives a value. -/
theorem withMemory_rule {α : Type} {change : Memory → Except Fault α × Memory}
    {k : α → State → State} {offset count : Nat}
    (guarded : s.memory.Guarded offset count (change s.memory))
    (refused : Memory.admits offset count = false → P (s.fail .invalidMemoryAccess))
    (done : ∀ value memory, change s.memory = (.ok value, memory) →
      s.memory.Covers memory offset count → P (k value { s with memory })) :
    P (s.withMemory change k) := by
  generalize hchange : change s.memory = r at guarded
  cases guarded with
  | refused beyond =>
      rw [withMemory_of_refused hchange]
      exact refused beyond
  | done covers =>
      rw [withMemory_of_ok hchange]
      exact done _ _ hchange covers

theorem jumpTo_rule {dest : Nat}
    (failed : ∀ reported, P (s.fail (.invalidJump reported)))
    (entered : s.program.isJumpDest dest = true → P { s with pc := dest }) :
    P (s.jumpTo dest) := by
  unfold jumpTo
  split
  · rename_i hdest
    exact entered hdest
  · exact failed _

end Rules

/-! ### The effect of each form

The rules lead from the state before to the states that `Effect` lists, for any instruction with
matching numbers of operands and results.
-/

section Forms

variable {i : Instr} {s : State}

theorem effect_one {k : Word → State → State}
    (htaken : ∀ a, 1 ≤ s.stack.depth → Effect i s (k a { s with stack := s.stack.drop 1 })) :
    Effect i s (s.withOne k) :=
  withOne_rule (fun _ => .refuses trivial) htaken

theorem effect_two {k : Word → Word → State → State}
    (htaken : ∀ a b, 2 ≤ s.stack.depth → Effect i s (k a b { s with stack := s.stack.drop 2 })) :
    Effect i s (s.withTwo k) :=
  withTwo_rule (fun _ => .refuses trivial) htaken

theorem effect_three {k : Word → Word → Word → State → State}
    (htaken : ∀ a b c, 3 ≤ s.stack.depth →
      Effect i s (k a b c { s with stack := s.stack.drop 3 })) :
    Effect i s (s.withThree k) :=
  withThree_rule (fun _ => .refuses trivial) htaken

/-- Operands are taken and memory is used, unless the range is refused. -/
theorem effect_memory {α : Type} {change : Memory → Except Fault α × Memory}
    {k : α → State → State} {offset count : Nat} (henough : i.operands ≤ s.stack.depth)
    (hguarded : s.memory.Guarded offset count (change s.memory))
    (hdone : ∀ value memory, s.memory.Touches memory →
      Effect i s (k value { s with stack := s.stack.drop i.operands, memory })) :
    Effect i s ({ s with stack := s.stack.drop i.operands }.withMemory change k) :=
  withMemory_rule (s := { s with stack := s.stack.drop i.operands }) hguarded
    (fun _ => .interrupts trivial henough) fun _ _ _ covers => hdone _ _ covers.touches

/-- Operands are taken, nothing is left in their place, and the execution goes on where it may. -/
theorem effect_taken {memory : Memory} {pc : Nat} (hroom : s.stack.depth ≤ Stack.limit)
    (henough : i.operands ≤ s.stack.depth) (hresults : i.results = 0)
    (htouched : s.memory.Touches memory)
    (hnext : pc = s.pc + i.immediateSize ∨
      (i = .jump ∨ i = .jumpIf) ∧ s.program.isJumpDest pc = true) :
    Effect i s { s with stack := s.stack.drop i.operands, memory, pc } := by
  refine .goesOn memory pc henough ?_ ?_ ?_ htouched hnext
  · rw [hresults, Stack.depth_drop, Nat.add_zero]
  · rw [Stack.depth_drop]
    exact Nat.le_trans (Nat.sub_le ..) hroom
  · rw [hresults, Stack.words_drop, List.drop_zero]

/-- Operands are taken and nothing is left in their place. -/
theorem effect_consume {memory : Memory} (hroom : s.stack.depth ≤ Stack.limit)
    (henough : i.operands ≤ s.stack.depth) (hresults : i.results = 0)
    (hplain : i.immediateSize = 0) (htouched : s.memory.Touches memory) :
    Effect i s { s with stack := s.stack.drop i.operands, memory } := by
  have hnext : s.pc = s.pc + i.immediateSize := by rw [hplain, Nat.add_zero]
  exact effect_taken hroom henough hresults htouched (.inl hnext)

/-- Operands are taken and one word is left in their place. There is room for it where an operand
was. -/
theorem effect_result {memory : Memory} (w : Word) (hroom : s.stack.depth ≤ Stack.limit)
    (henough : i.operands ≤ s.stack.depth) (htakes : 1 ≤ i.operands) (hresults : i.results = 1)
    (hplain : i.immediateSize = 0) (htouched : s.memory.Touches memory) :
    Effect i s ({ s with stack := s.stack.drop i.operands, memory }.pushWord w) := by
  refine pushWord_rule ?_ ?_
  · intro hfull
    simp only [Stack.depth_drop] at hfull
    omega
  · intro hless
    simp only [Stack.depth_drop] at hless
    refine .goesOn _ s.pc henough ?_ ?_ ?_ htouched (.inl ?_)
    · rw [hresults, Stack.depth_cons, Stack.depth_drop]
    · rw [Stack.depth_cons, Stack.depth_drop]
      omega
    · rw [hresults, Stack.words_cons, Stack.words_drop, List.drop_one, List.tail_cons]
    · rw [hplain, Nat.add_zero]

/-- Without operands there may be no room for the result. -/
theorem effect_supply (w : Word) (width : Nat) (hoperands : i.operands = 0)
    (hresults : i.results = 1) (hwidth : i.immediateSize = width)
    (hroom : s.stack.depth < Stack.limit) :
    Effect i s { s with stack := s.stack.cons w, pc := s.pc + width } := by
  refine .goesOn s.memory _ ?_ ?_ ?_ ?_ (.refl _) (.inl ?_)
  · rw [hoperands]
    exact Nat.zero_le _
  · rw [hoperands, hresults, Stack.depth_cons, Nat.sub_zero]
  · rw [Stack.depth_cons]
    exact hroom
  · rw [hoperands, hresults, Stack.words_cons, List.drop_one, List.tail_cons, List.drop_zero]
  · rw [hwidth]

/-- Operands are taken and memory changes, unless the range is refused. -/
theorem effect_store {change : Memory → Except Fault Unit × Memory} {offset count : Nat}
    (hroom : s.stack.depth ≤ Stack.limit) (henough : i.operands ≤ s.stack.depth)
    (hresults : i.results = 0) (hplain : i.immediateSize = 0)
    (hguarded : s.memory.Guarded offset count (change s.memory)) :
    Effect i s ({ s with stack := s.stack.drop i.operands }.withMemory change fun _ s => s) :=
  effect_memory henough hguarded fun _ _ htouched =>
    effect_consume hroom henough hresults hplain htouched

/-- Operands are taken and code is entered elsewhere, unless it must not be. -/
theorem effect_jump {dest : Nat} (hroom : s.stack.depth ≤ Stack.limit)
    (henough : i.operands ≤ s.stack.depth) (hresults : i.results = 0)
    (hjump : i = .jump ∨ i = .jumpIf) :
    Effect i s ({ s with stack := s.stack.drop i.operands }.jumpTo dest) := by
  refine jumpTo_rule ?_ ?_
  · intro reported
    exact .interrupts trivial henough
  · intro hdest
    exact effect_taken hroom henough hresults (.refl _) (.inr ⟨hjump, hdest⟩)

theorem effect_dup (depth : Fin 16) :
    Effect (.dup depth) s (s.withStack (Stack.dup (depth + 1)) fun _ s => s) := by
  by_cases hshort : s.stack.depth < depth + 1
  · rw [withStack_of_error (Stack.dup_of_short (.inr hshort))]
    exact .refuses trivial
  have hfound : depth + 1 ≤ s.stack.depth := Nat.le_of_not_lt hshort
  by_cases hroom : s.stack.depth < Stack.limit
  · obtain ⟨w, hdup⟩ := Stack.dup_of_enough hfound hroom
    rw [withStack_of_ok hdup]
    refine .goesOn s.memory s.pc hfound ?_ ?_ ?_ (.refl _) (.inl rfl)
    · simp only [Stack.depth_cons, Instr.operands, Instr.results]
      omega
    · rw [Stack.depth_cons]
      exact hroom
    · simp only [Stack.words_cons, Instr.operands, Instr.results, List.drop_succ_cons]
  · rw [withStack_of_error (Stack.dup_of_full ⟨Nat.succ_pos _, hfound⟩ (Nat.le_of_not_lt hroom))]
    exact .refuses trivial

theorem effect_swap (depth : Fin 16) (hroom : s.stack.depth ≤ Stack.limit) :
    Effect (.swap depth) s (s.withStack (Stack.swap (depth + 1)) fun _ s => s) := by
  by_cases henough : depth + 1 < s.stack.depth
  · obtain ⟨stack, hswap, hdepth, hbelow⟩ := Stack.swap_of_enough henough
    rw [withStack_of_ok hswap]
    refine .goesOn s.memory s.pc henough ?_ ?_ hbelow (.refl _) (.inl rfl)
    · simp only [Instr.operands, Instr.results]
      omega
    · rw [hdepth]
      exact hroom
  · rw [withStack_of_error (Stack.swap_of_short (.inr (Nat.le_of_not_lt henough)))]
    exact .refuses trivial

end Forms

/-! ### Every instruction -/

/-- **Carrying out an instruction leads to one of the states that `Effect` lists.** The stack must
not be deeper than allowed, which is what every instruction sees to. -/
theorem exec_effect (b : UInt8) (i : Instr) (s : State) (hroom : s.stack.depth ≤ Stack.limit) :
    Effect i s (exec b i s) := by
  cases i with
  | stop => exact .stops rfl
  | unary op =>
      rw [exec]
      refine effect_one fun a henough => ?_
      exact effect_result _ hroom henough (Nat.succ_pos _) rfl rfl (.refl _)
  | binary op =>
      rw [exec]
      refine effect_two fun a b henough => ?_
      exact effect_result _ hroom henough (Nat.succ_pos _) rfl rfl (.refl _)
  | ternary op =>
      rw [exec]
      refine effect_three fun a b c henough => ?_
      exact effect_result _ hroom henough (Nat.succ_pos _) rfl rfl (.refl _)
  | query q =>
      rw [exec]
      refine pushWord_rule (P := Effect _ s) (fun _ => .refuses trivial) fun hless => ?_
      exact effect_supply _ 0 rfl rfl rfl hless
  | keccak256 =>
      rw [exec]
      refine effect_two fun offset count henough => ?_
      rw [withRange_loadSlice]
      refine effect_memory henough (Memory.loadSlice_guarded ..) fun bytes memory htouched => ?_
      exact effect_result _ hroom henough (Nat.succ_pos _) rfl rfl htouched
  | callDataLoad =>
      rw [exec]
      refine effect_one fun offset henough => ?_
      exact effect_result _ hroom henough (Nat.succ_pos _) rfl rfl (.refl _)
  | callDataCopy | codeCopy =>
      rw [exec]
      refine effect_three fun dest offset count henough => ?_
      rw [copyFrom_eq]
      exact effect_store hroom henough rfl rfl (Memory.storeSlice_guarded ..)
  | returnDataCopy =>
      rw [exec]
      refine effect_three fun dest offset count henough => ?_
      cases hstart : Bytes.startWithin? s.returnData offset count with
      | none =>
          rw [copyWithin_of_none hstart]
          exact .interrupts trivial henough
      | some start =>
          rw [copyWithin_of_some hstart]
          exact effect_store hroom henough rfl rfl (Memory.storeSlice_guarded ..)
  | pop =>
      rw [exec]
      refine effect_one fun a henough => ?_
      exact effect_consume hroom henough rfl rfl (.refl _)
  | mload =>
      rw [exec]
      refine effect_one fun offset henough => ?_
      rw [withOffset_load]
      refine effect_memory henough (Memory.load_guarded ..) fun w memory htouched => ?_
      exact effect_result _ hroom henough (Nat.succ_pos _) rfl rfl htouched
  | mstore =>
      rw [exec]
      refine effect_two fun offset w henough => ?_
      rw [withOffset_store]
      exact effect_store hroom henough rfl rfl (Memory.store_guarded ..)
  | mstore8 =>
      rw [exec]
      refine effect_two fun offset w henough => ?_
      rw [withOffset_store8]
      exact effect_store hroom henough rfl rfl (Memory.store8_guarded ..)
  | mcopy =>
      rw [exec]
      refine effect_three fun dest source count henough => ?_
      rw [withRange_copy]
      exact effect_store hroom henough rfl rfl (Memory.copy_guarded ..)
  | jump =>
      rw [exec]
      refine effect_one fun dest henough => ?_
      exact effect_jump hroom henough rfl (.inl rfl)
  | jumpIf =>
      rw [exec]
      refine effect_two fun dest condition henough => ?_
      split
      · exact effect_consume hroom henough rfl rfl (.refl _)
      · exact effect_jump hroom henough rfl (.inr rfl)
  | jumpDest =>
      refine .goesOn s.memory s.pc (Nat.zero_le _) ?_ hroom rfl (.refl _) (.inl rfl)
      simp only [Instr.operands, Instr.results, Nat.sub_zero, Nat.add_zero]
  | push width =>
      rw [exec]
      refine push_rule (P := Effect _ s) (fun _ => .refuses trivial) fun hless => ?_
      exact effect_supply _ _ rfl rfl rfl hless
  | dup depth => exact effect_dup depth
  | swap depth => exact effect_swap depth hroom
  | ret =>
      rw [exec]
      refine effect_two fun offset count henough => ?_
      rw [withRange_loadSlice]
      refine effect_memory henough (Memory.loadSlice_guarded ..) fun bytes memory htouched => ?_
      exact .returns rfl henough htouched
  | revert =>
      rw [exec]
      refine effect_two fun offset count henough => ?_
      rw [withRange_loadSlice]
      refine effect_memory henough (Memory.loadSlice_guarded ..) fun bytes memory htouched => ?_
      exact .reverts rfl henough htouched
  | invalid => exact .refuses trivial
  | host op => exact .refuses trivial

theorem execByte_of_instr {b : UInt8} {i : Instr} (h : Instr.ofByte b = some i) (s : State) :
    s.execByte b = exec b i { s with pc := s.pc + 1 } := by
  simp only [execByte, h]

/-- A byte is carried out as its instruction, with the program counter behind the byte, or refused
if it has none. -/
theorem execByte_effect (b : UInt8) (s : State) (hroom : s.stack.depth ≤ Stack.limit) :
    (∃ i, Instr.ofByte b = some i ∧ Effect i { s with pc := s.pc + 1 } (s.execByte b)) ∨
      Instr.ofByte b = none ∧
        s.execByte b = { s with pc := s.pc + 1 }.fail (.invalidOpcode b) := by
  cases hbyte : Instr.ofByte b with
  | none =>
      refine .inr ⟨rfl, ?_⟩
      simp only [execByte, hbyte]
  | some i =>
      refine .inl ⟨i, rfl, ?_⟩
      rw [execByte_of_instr hbyte]
      exact exec_effect b i { s with pc := s.pc + 1 } hroom

end State

end LocalNode.Machine
