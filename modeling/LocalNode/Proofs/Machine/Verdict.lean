import LocalNode.Proofs.Machine.Contents
import LocalNode.Proofs.Machine.Reachable

/-!
What carrying out a byte reports.

Whether a byte can be carried out is decided by a small part of the state: by the depth of the
stack, by the operands on top of it, by where code may be entered and by the capacity of memory.
`Role.ofByte` is a table of all bytes that says which of these matter for a byte, and
`Demand.verdict` goes through them in the order in which they are checked. The main statement is
that this is what the machine reports, for every byte in every state that an execution can reach.

The table speaks of bytes and knows nothing of instructions. That it fits the instructions is found
by going through all bytes. What is left is to go through the instructions once.
-/

namespace LocalNode.Machine

/-! ### What the table says of a byte

The table is written down apart from the instructions and in other terms, with places of operands
and lengths in place of programs, so that comparing the two says something.
-/

/-- How long a range of memory is: as long as the instruction says, or as one of the operands says,
where the topmost operand has place zero. -/
inductive Extent where
  | fixed (count : Nat)
  | operand (place : Nat)
  deriving DecidableEq

/-- What is special about an instruction, besides the words and the memory that it uses. -/
inductive Manner where
  | plain
  | jump
  | jumpIf
  | returnDataCopy
  | revert
  deriving DecidableEq

/-- What an instruction demands of the state it is carried out in. -/
structure Demand where
  /-- The number of words that are looked at or taken. -/
  operands : Nat
  /-- The number of words that are left in their place. -/
  results : Nat
  /-- The ranges of memory that are touched: the place of the operand that says where each starts,
  and how long it is. -/
  ranges : List (Nat × Extent)
  manner : Manner
  deriving DecidableEq

/-- How the machine deals with a byte. -/
inductive Role where
  | unassigned
  | abort
  | hostRequired
  | executable (demand : Demand)
  deriving DecidableEq

/-- The table of bytes. -/
def Role.ofByte (b : UInt8) : Role :=
  match b.toNat with
  | 0xfe => .abort
  | 0x31 | 0x3b | 0x3c | 0x3f | 0x40 | 0x47 | 0x54 | 0x55 | 0x5a | 0x5c | 0x5d | 0xa0 | 0xa1 | 0xa2
  | 0xa3 | 0xa4 | 0xf0 | 0xf1 | 0xf2 | 0xf4 | 0xf5 | 0xfa | 0xff => .hostRequired
  | 0x00 | 0x5b => .executable ⟨0, 0, [], .plain⟩
  | 0x50 => .executable ⟨1, 0, [], .plain⟩
  | 0x56 => .executable ⟨1, 0, [], .jump⟩
  | 0x57 => .executable ⟨2, 0, [], .jumpIf⟩
  | 0x15 | 0x19 | 0x35 => .executable ⟨1, 1, [], .plain⟩
  | 0x08 | 0x09 => .executable ⟨3, 1, [], .plain⟩
  | 0x20 => .executable ⟨2, 1, [(0, .operand 1)], .plain⟩
  | 0x51 => .executable ⟨1, 1, [(0, .fixed 32)], .plain⟩
  | 0x52 => .executable ⟨2, 0, [(0, .fixed 32)], .plain⟩
  | 0x53 => .executable ⟨2, 0, [(0, .fixed 1)], .plain⟩
  | 0x37 | 0x39 => .executable ⟨3, 0, [(0, .operand 2)], .plain⟩
  | 0x3e => .executable ⟨3, 0, [(0, .operand 2)], .returnDataCopy⟩
  | 0x5e => .executable ⟨3, 0, [(0, .operand 2), (1, .operand 2)], .plain⟩
  | 0xf3 => .executable ⟨2, 0, [(0, .operand 1)], .plain⟩
  | 0xfd => .executable ⟨2, 0, [(0, .operand 1)], .revert⟩
  | n =>
    if n ≤ 0x0b ∨ 0x10 ≤ n ∧ n ≤ 0x1d then .executable ⟨2, 1, [], .plain⟩
    else if 0x30 ≤ n ∧ n ≤ 0x48 ∨ 0x58 ≤ n ∧ n ≤ 0x7f then .executable ⟨0, 1, [], .plain⟩
    else if 0x80 ≤ n ∧ n ≤ 0x8f then .executable ⟨n - 0x7f, n - 0x7f + 1, [], .plain⟩
    else if 0x90 ≤ n ∧ n ≤ 0x9f then .executable ⟨n - 0x8f + 1, n - 0x8f + 1, [], .plain⟩
    else .unassigned

namespace Instr

/-- The ranges of memory that an instruction touches. -/
def ranges : Instr → List (Nat × Extent)
  | .mload | .mstore => [(0, .fixed 32)]
  | .mstore8 => [(0, .fixed 1)]
  | .keccak256 | .ret | .revert => [(0, .operand 1)]
  | .callDataCopy | .codeCopy | .returnDataCopy => [(0, .operand 2)]
  | .mcopy => [(0, .operand 2), (1, .operand 2)]
  | _ => []

/-- What is special about an instruction. -/
def manner : Instr → Manner
  | .jump => .jump
  | .jumpIf => .jumpIf
  | .returnDataCopy => .returnDataCopy
  | .revert => .revert
  | _ => .plain

/-- What an instruction demands of the state. -/
def demand (i : Instr) : Demand :=
  ⟨i.operands, i.results, i.ranges, i.manner⟩

/-- How the machine deals with an instruction. -/
def role : Instr → Role
  | .host _ => .hostRequired
  | .invalid => .abort
  | i => .executable i.demand

end Instr

/-- The table fits the instructions. -/
theorem Role.ofByte_eq : ∀ b : UInt8,
    Role.ofByte b = (Instr.ofByte b).elim .unassigned Instr.role :=
  forall_byte (by decide +kernel)

/-! ### The verdict

The order of the conditions is part of what is said. Several may be met at once, and then the first
of them is the one that is reported.
-/

namespace Stack

/-- The word at a place, where the topmost word has place zero. -/
def wordAt (s : Stack) (place : Nat) : Word :=
  s.words.getD place 0

/-- The number that the operand at a place stands for. -/
def operand (s : Stack) (place : Nat) : Nat :=
  (s.wordAt place).toNat

end Stack

/-- The length of a range. -/
def Extent.count (s : Stack) : Extent → Nat
  | .fixed count => count
  | .operand place => s.operand place

namespace Demand

/-- A jump that is taken leads to where code must not be entered. -/
def JumpsAstray (d : Demand) (s : State) : Prop :=
  (d.manner = .jump ∨ d.manner = .jumpIf ∧ s.stack.operand 1 ≠ 0) ∧
    s.program.isJumpDest (s.stack.operand 0) = false

/-- Returned data are asked for, of which there are none. -/
def AsksForData (d : Demand) (s : State) : Prop :=
  d.manner = .returnDataCopy ∧ (s.stack.operand 1 ≠ 0 ∨ s.stack.operand 2 ≠ 0)

/-- A range that is not empty ends beyond 32 mebibytes. -/
def ReachesBeyond (d : Demand) (s : State) : Prop :=
  ∃ r ∈ d.ranges, r.2.count s.stack ≠ 0 ∧
    32 * 1024 * 1024 < s.stack.operand r.1 + r.2.count s.stack

instance (d : Demand) (s : State) : Decidable (d.JumpsAstray s) :=
  inferInstanceAs (Decidable (_ ∧ _))

instance (d : Demand) (s : State) : Decidable (d.AsksForData s) :=
  inferInstanceAs (Decidable (_ ∧ _))

instance (d : Demand) (s : State) : Decidable (d.ReachesBeyond s) :=
  inferInstanceAs (Decidable (∃ r ∈ d.ranges, _))

/-- What is reported of an instruction that finds its operands and room for its results. -/
def late (d : Demand) (s : State) : Except Fault Unit :=
  if d.JumpsAstray s then
    .error (.invalidJump (min (s.stack.operand 0) State.maxReportedDest))
  else if d.AsksForData s then .error .returnDataOutOfBounds
  else if d.ReachesBeyond s then .error .invalidMemoryAccess
  else if d.manner = .revert then
    .error (.reverted (Memory.Tape.slice s.memory.byteAt (s.stack.operand 0) (s.stack.operand 1)))
  else .ok ()

/-- What is reported of an instruction. -/
def verdict (d : Demand) (s : State) : Except Fault Unit :=
  if s.stack.depth < d.operands then .error .stackUnderflow
  else if 1024 < s.stack.depth - d.operands + d.results then .error .stackOverflow
  else d.late s

end Demand

/-- What is reported of a byte. -/
def Role.verdict (b : UInt8) (s : State) : Role → Except Fault Unit
  | .unassigned => .error (.invalidOpcode b)
  | .abort => .error .unreachable
  | .hostRequired => .error (.unsupported b)
  | .executable d => d.verdict s

/-! ### Operands -/

namespace Stack

variable {s : Stack} {d : Nat}

theorem wordAt_of_getElem? {w : Word} (h : s.words[d]? = some w) : s.wordAt d = w := by
  rw [wordAt, List.getD_eq_getElem?_getD, h, Option.getD_some]

/-- Words that are taken from the stack are the ones at the topmost places. -/
theorem getElem_of_take {n : Nat} {ws : Vector Word n} (hws : ws.toList = s.words.take n)
    (hd : d < n) : ws[d] = s.wordAt d := by
  have htaken : ws.toList[d]? = some ws[d] := by simp
  rw [hws, List.getElem?_take_of_lt hd] at htaken
  exact (wordAt_of_getElem? htaken).symm

end Stack

namespace State

section Operands

variable {s : State}

theorem withOne_of_lt {k : Word → State → State} (h : s.stack.depth < 1) :
    s.withOne k = s.fail .stackUnderflow :=
  withOne_rule (P := (· = _)) (fun _ => rfl) fun _ hle => absurd h (Nat.not_lt.mpr hle)

theorem withTwo_of_lt {k : Word → Word → State → State} (h : s.stack.depth < 2) :
    s.withTwo k = s.fail .stackUnderflow :=
  withTwo_rule (P := (· = _)) (fun _ => rfl) fun _ _ hle => absurd h (Nat.not_lt.mpr hle)

theorem withThree_of_lt {k : Word → Word → Word → State → State} (h : s.stack.depth < 3) :
    s.withThree k = s.fail .stackUnderflow :=
  withThree_rule (P := (· = _)) (fun _ => rfl) fun _ _ _ hle => absurd h (Nat.not_lt.mpr hle)

theorem withOne_of_le {k : Word → State → State} (h : 1 ≤ s.stack.depth) :
    s.withOne k = k (s.stack.wordAt 0) { s with stack := s.stack.drop 1 } := by
  obtain ⟨w, hpop, htop⟩ := Stack.pop_of_enough h
  rw [withOne, withStack_of_ok hpop, Stack.wordAt_of_getElem? htop]

theorem withTwo_of_le {k : Word → Word → State → State} (h : 2 ≤ s.stack.depth) :
    s.withTwo k =
      k (s.stack.wordAt 0) (s.stack.wordAt 1) { s with stack := s.stack.drop 2 } := by
  obtain ⟨ws, hpops, hws⟩ := Stack.popN_of_enough h
  rw [withTwo, withStack_of_ok hpops, Stack.getElem_of_take hws, Stack.getElem_of_take hws]

theorem withThree_of_le {k : Word → Word → Word → State → State} (h : 3 ≤ s.stack.depth) :
    s.withThree k =
      k (s.stack.wordAt 0) (s.stack.wordAt 1) (s.stack.wordAt 2)
        { s with stack := s.stack.drop 3 } := by
  obtain ⟨ws, hpops, hws⟩ := Stack.popN_of_enough h
  rw [withThree, withStack_of_ok hpops, Stack.getElem_of_take hws, Stack.getElem_of_take hws,
    Stack.getElem_of_take hws]

end Operands

/-! ### What is reported by the forms that instructions are built from -/

section Reports

variable {s : State}

/-- What a state reports of the step that led to it. -/
def report (s : State) : Except Fault Unit :=
  s.status.outcome

@[simp]
theorem report_fail (s : State) (fault : Fault) : (s.fail fault).report = .error fault :=
  rfl

theorem report_of_running (h : s.status = .running) : s.report = .ok () := by
  rw [report, h]
  rfl

theorem report_pushWord {w : Word} (hrun : s.status = .running)
    (hroom : s.stack.depth < Stack.limit) : (s.pushWord w).report = .ok () := by
  rw [pushWord, withStack_of_ok (Stack.push_of_room w hroom)]
  exact report_of_running hrun

/-- The same for a word that is put in the place of operands. -/
theorem report_result {w : Word} {n : Nat} (hrun : s.status = .running)
    (hroom : s.stack.depth - n + 1 ≤ Stack.limit) :
    ({ s with stack := s.stack.drop n }.pushWord w).report = .ok () := by
  refine report_pushWord hrun ?_
  rw [Stack.depth_drop]
  exact hroom

theorem report_jumpTo {dest : Nat} (hrun : s.status = .running) :
    (s.jumpTo dest).report =
      if s.program.isJumpDest dest = false then .error (.invalidJump (min dest maxReportedDest))
      else .ok () := by
  unfold jumpTo
  cases s.program.isJumpDest dest with
  | true => exact report_of_running hrun
  | false => rfl

theorem report_withMemory {α : Type} {change : Memory → Except Fault α × Memory}
    {k : α → State → State} {offset count : Nat} {r : Except Fault Unit}
    (hguarded : s.memory.Guarded offset count (change s.memory))
    (hdone : ∀ value memory, change s.memory = (.ok value, memory) →
      s.memory.Covers memory offset count → (k value { s with memory }).report = r) :
    (s.withMemory change k).report =
      if Memory.admits offset count = false then .error .invalidMemoryAccess else r := by
  refine withMemory_rule (P := fun s' => s'.report = _) hguarded ?_ ?_
  · intro hbeyond
    rw [if_pos hbeyond, report_fail]
  · intro value memory hchange hcovers
    have hadmitted : ¬ Memory.admits offset count = false := by
      rw [hcovers.admitted]
      decide
    rw [if_neg hadmitted]
    exact hdone value memory hchange hcovers

end Reports

/-! ### Too few words, too many words

Every instruction takes its operands before it does anything else. One that takes at least as many
words as it puts never lacks room.
-/

theorem exec_of_short (b : UInt8) {i : Instr} {s : State} (h : s.stack.depth < i.operands) :
    exec b i s = s.fail .stackUnderflow := by
  cases i with
  | stop | query | jumpDest | push | invalid | host => exact absurd h (Nat.not_lt_zero _)
  | unary | callDataLoad | pop | mload | jump =>
      rw [exec]
      exact withOne_of_lt h
  | binary | keccak256 | mstore | mstore8 | jumpIf | ret | revert =>
      rw [exec]
      exact withTwo_of_lt h
  | ternary | callDataCopy | codeCopy | returnDataCopy | mcopy =>
      rw [exec]
      exact withThree_of_lt h
  | dup depth =>
      rw [exec]
      exact withStack_of_error (Stack.dup_of_short (.inr h))
  | swap depth =>
      rw [exec]
      exact withStack_of_error (Stack.swap_of_short (.inr (Nat.le_of_lt_succ h)))

/-- Only what supplies a word without taking one can lack room. -/
theorem exec_of_full (b : UInt8) {i : Instr} {s : State} (hdepth : s.stack.depth ≤ Stack.limit)
    (henough : i.operands ≤ s.stack.depth)
    (hfull : Stack.limit < s.stack.depth - i.operands + i.results) :
    exec b i s = s.fail .stackOverflow := by
  have hmore : i.operands < i.results := by omega
  cases i with
  | query q | push width =>
      rw [exec]
      exact withStack_of_error (Stack.push_of_full _ (Nat.le_of_lt_succ hfull))
  | dup depth =>
      have hnone : Stack.limit ≤ s.stack.depth := by
        simp only [Instr.operands, Instr.results] at hfull henough
        omega
      rw [exec]
      exact withStack_of_error (Stack.dup_of_full ⟨Nat.succ_pos _, henough⟩ hnone)
  | unary | binary | ternary | callDataLoad | mload | keccak256 | swap =>
      simp [Instr.operands, Instr.results] at hmore
  | _ => exact absurd hmore (Nat.not_lt_zero _)

end State

/-! ### What is found later

With enough words and enough room, each kind of instruction has one or two conditions left. The
verdict is brought into the form of that kind and then compared with the instruction.
-/

theorem Memory.not_admits_iff {offset count : Nat} :
    admits offset count = false ↔ count ≠ 0 ∧ 32 * 1024 * 1024 < offset + count := by
  rw [← Bool.not_eq_true, admits_iff, capacity]
  omega

namespace Demand

variable {d : Demand} {s : State}

/-- Where nothing is special about an instruction, only memory can lack room. -/
theorem late_plain (hmanner : d.manner = .plain) :
    d.late s = if d.ReachesBeyond s then .error .invalidMemoryAccess else .ok () := by
  have hjump : ¬ d.JumpsAstray s := by simp [JumpsAstray, hmanner]
  have hdata : ¬ d.AsksForData s := by simp [AsksForData, hmanner]
  have hrevert : ¬ d.manner = .revert := by simp [hmanner]
  rw [late, if_neg hjump, if_neg hdata, if_neg hrevert]

theorem late_still (hmanner : d.manner = .plain) (hranges : d.ranges = []) :
    d.late s = .ok () := by
  have hmemory : ¬ d.ReachesBeyond s := by simp [ReachesBeyond, hranges]
  rw [late_plain hmanner, if_neg hmemory]

theorem late_memory {admitted : Bool} (hmanner : d.manner = .plain)
    (hbeyond : d.ReachesBeyond s ↔ admitted = false) :
    d.late s = if admitted = false then .error .invalidMemoryAccess else .ok () := by
  simp only [late_plain hmanner, hbeyond]

/-- A jump fails only for where it leads to. -/
theorem late_jump (hmanner : d.manner = .jump) (hranges : d.ranges = []) :
    d.late s =
      if s.program.isJumpDest (s.stack.operand 0) = false then
        .error (.invalidJump (min (s.stack.operand 0) State.maxReportedDest))
      else .ok () := by
  simp [late, JumpsAstray, AsksForData, ReachesBeyond, hmanner, hranges]

theorem late_jumpIf (hmanner : d.manner = .jumpIf) (hranges : d.ranges = []) :
    d.late s =
      if s.stack.operand 1 = 0 then .ok ()
      else if s.program.isJumpDest (s.stack.operand 0) = false then
        .error (.invalidJump (min (s.stack.operand 0) State.maxReportedDest))
      else .ok () := by
  by_cases hzero : s.stack.operand 1 = 0
  · simp [late, JumpsAstray, AsksForData, ReachesBeyond, hmanner, hranges, hzero]
  · simp [late, JumpsAstray, AsksForData, ReachesBeyond, hmanner, hranges, hzero]

theorem late_returnDataCopy {admitted : Bool} (hmanner : d.manner = .returnDataCopy)
    (hbeyond : d.ReachesBeyond s ↔ admitted = false) :
    d.late s =
      if s.stack.operand 1 = 0 ∧ s.stack.operand 2 = 0 then
        if admitted = false then .error .invalidMemoryAccess else .ok ()
      else .error .returnDataOutOfBounds := by
  by_cases hzero : s.stack.operand 1 = 0 ∧ s.stack.operand 2 = 0
  · simp [late, JumpsAstray, AsksForData, hmanner, hbeyond, hzero]
  · have hdata : d.AsksForData s := ⟨hmanner, by omega⟩
    simp [late, JumpsAstray, hmanner, hdata, hzero]

theorem late_revert {admitted : Bool} (hmanner : d.manner = .revert)
    (hbeyond : d.ReachesBeyond s ↔ admitted = false) :
    d.late s =
      if admitted = false then .error .invalidMemoryAccess
      else
        .error (.reverted
          (Memory.Tape.slice s.memory.byteAt (s.stack.operand 0) (s.stack.operand 1))) := by
  simp [late, JumpsAstray, AsksForData, hmanner, hbeyond]

theorem reachesBeyond_iff {place : Nat} {extent : Extent} (hranges : d.ranges = [(place, extent)]) :
    d.ReachesBeyond s ↔
      Memory.admits (s.stack.operand place) (extent.count s.stack) = false := by
  rw [Memory.not_admits_iff]
  simp [ReachesBeyond, hranges]

/-- Of two ranges of one length, the one that starts later decides. -/
theorem reachesBeyond_pair_iff {place place' : Nat} {extent : Extent}
    (hranges : d.ranges = [(place, extent), (place', extent)]) :
    d.ReachesBeyond s ↔
      Memory.admits (max (s.stack.operand place) (s.stack.operand place'))
        (extent.count s.stack) = false := by
  rw [Memory.not_admits_iff]
  simp only [ReachesBeyond, hranges, List.mem_cons, List.not_mem_nil, or_false, exists_eq_or_imp,
    exists_eq_left]
  omega

end Demand

namespace State

/-- An instruction that finds its operands and room for its results reports what is found later. -/
theorem exec_of_room (b : UInt8) {i : Instr} {s : State} (hrun : s.status = .running)
    (hdata : s.returnData = .empty) (hrole : i.role = .executable i.demand)
    (henough : i.operands ≤ s.stack.depth)
    (hroom : s.stack.depth - i.operands + i.results ≤ Stack.limit) :
    (exec b i s).report = i.demand.late s := by
  cases i with
  | stop => exact (Demand.late_still rfl rfl).symm
  | unary op =>
      rw [exec, withOne_of_le henough, Demand.late_still rfl rfl]
      exact report_result hrun hroom
  | binary op =>
      rw [exec, withTwo_of_le henough, Demand.late_still rfl rfl]
      exact report_result hrun hroom
  | ternary op =>
      rw [exec, withThree_of_le henough, Demand.late_still rfl rfl]
      exact report_result hrun hroom
  | query q =>
      rw [exec, Demand.late_still rfl rfl]
      exact report_pushWord hrun hroom
  | keccak256 =>
      rw [exec, withTwo_of_le henough, withRange_loadSlice,
        Demand.late_memory rfl (Demand.reachesBeyond_iff rfl)]
      exact report_withMemory (Memory.loadSlice_guarded ..) fun bytes memory _ _ =>
        report_result (s := { s with memory }) hrun hroom
  | callDataLoad =>
      rw [exec, withOne_of_le henough, Demand.late_still rfl rfl]
      exact report_result hrun hroom
  | callDataCopy | codeCopy =>
      rw [exec, withThree_of_le henough, copyFrom_eq,
        Demand.late_memory rfl (Demand.reachesBeyond_iff rfl)]
      exact report_withMemory (Memory.storePadded_guarded ..) fun _ _ _ _ => report_of_running hrun
  | returnDataCopy =>
      have hstart := Bytes.startWithin?_empty (s.stack.wordAt 1) (s.stack.wordAt 2)
      rw [← hdata] at hstart
      rw [exec, withThree_of_le henough,
        Demand.late_returnDataCopy rfl (Demand.reachesBeyond_iff rfl)]
      by_cases hempty : s.stack.operand 1 = 0 ∧ s.stack.operand 2 = 0
      · have hguarded := s.memory.storeSlice_guarded (s.stack.operand 0)
          (s.returnData.extract 0 (0 + s.stack.operand 2))
        have hsize : (s.returnData.extract 0 (0 + s.stack.operand 2)).size = s.stack.operand 2 := by
          rw [ByteArray.size_extract, hempty.2]
          rfl
        rw [hsize] at hguarded
        rw [if_pos hempty, copyWithin_of_some (hstart.trans (if_pos hempty))]
        exact report_withMemory hguarded fun _ _ _ _ => report_of_running hrun
      · rw [if_neg hempty, copyWithin_of_none (hstart.trans (if_neg hempty)), report_fail]
  | pop =>
      rw [exec, withOne_of_le henough, Demand.late_still rfl rfl]
      exact report_of_running hrun
  | mload =>
      rw [exec, withOne_of_le henough, withOffset_load,
        Demand.late_memory rfl (Demand.reachesBeyond_iff rfl)]
      exact report_withMemory (Memory.load_guarded ..) fun w memory _ _ =>
        report_result (s := { s with memory }) hrun hroom
  | mstore =>
      rw [exec, withTwo_of_le henough, withOffset_store,
        Demand.late_memory rfl (Demand.reachesBeyond_iff rfl)]
      exact report_withMemory (Memory.store_guarded ..) fun _ _ _ _ => report_of_running hrun
  | mstore8 =>
      rw [exec, withTwo_of_le henough, withOffset_store8,
        Demand.late_memory rfl (Demand.reachesBeyond_iff rfl)]
      exact report_withMemory (Memory.store8_guarded ..) fun _ _ _ _ => report_of_running hrun
  | mcopy =>
      rw [exec, withThree_of_le henough, withRange_copy,
        Demand.late_memory rfl (Demand.reachesBeyond_pair_iff rfl)]
      exact report_withMemory (Memory.copy_guarded ..) fun _ _ _ _ => report_of_running hrun
  | jump =>
      rw [exec, withOne_of_le henough, Demand.late_jump rfl rfl]
      exact report_jumpTo hrun
  | jumpIf =>
      rw [exec, withTwo_of_le henough, Demand.late_jumpIf rfl rfl]
      by_cases hzero : s.stack.wordAt 1 = 0
      · have hoperand : s.stack.operand 1 = 0 := by rw [Stack.operand, hzero]; rfl
        rw [if_pos hzero, if_pos hoperand]
        exact report_of_running hrun
      · have hoperand : ¬ s.stack.operand 1 = 0 := fun h => hzero (BitVec.eq_of_toNat_eq h)
        rw [if_neg hzero, if_neg hoperand]
        exact report_jumpTo hrun
  | jumpDest =>
      rw [exec, Demand.late_still rfl rfl]
      exact report_of_running hrun
  | push width =>
      rw [exec, withStack_of_ok (Stack.push_of_room _ hroom), Demand.late_still rfl rfl]
      exact report_of_running hrun
  | dup depth =>
      have hless : s.stack.depth < Stack.limit := by
        simp only [Instr.operands, Instr.results] at henough hroom
        omega
      obtain ⟨w, hdup⟩ := Stack.dup_of_enough henough hless
      rw [exec, withStack_of_ok hdup, Demand.late_still rfl rfl]
      exact report_of_running hrun
  | swap depth =>
      obtain ⟨stack, hswap, -⟩ := Stack.swap_of_enough henough
      rw [exec, withStack_of_ok hswap, Demand.late_still rfl rfl]
      exact report_of_running hrun
  | ret =>
      rw [exec, withTwo_of_le henough, withRange_loadSlice,
        Demand.late_memory rfl (Demand.reachesBeyond_iff rfl)]
      exact report_withMemory (Memory.loadSlice_guarded ..) fun _ _ _ _ => rfl
  | revert =>
      rw [exec, withTwo_of_le henough, withRange_loadSlice,
        Demand.late_revert rfl (Demand.reachesBeyond_iff rfl)]
      refine report_withMemory (Memory.loadSlice_guarded ..) fun bytes memory hload hcovers => ?_
      have hbytes := hload.symm.trans (Memory.loadSlice_of_admits hcovers.admitted)
      cases hbytes
      rfl
  | invalid | host => cases hrole

/-- **What an instruction reports is what its role says.** -/
theorem exec_report (b : UInt8) (i : Instr) {s : State} (hrun : s.status = .running)
    (hdata : s.returnData = .empty) (hdepth : s.stack.depth ≤ Stack.limit) :
    (exec b i s).report = i.role.verdict b s := by
  by_cases hrole : i.role = .executable i.demand
  · rw [hrole, Role.verdict, Demand.verdict]
    by_cases hshort : s.stack.depth < i.demand.operands
    · rw [if_pos hshort, exec_of_short b hshort, report_fail]
    · have henough := Nat.le_of_not_lt hshort
      rw [if_neg hshort]
      by_cases hfull : 1024 < s.stack.depth - i.demand.operands + i.demand.results
      · rw [if_pos hfull, exec_of_full b hdepth henough hfull, report_fail]
      · rw [if_neg hfull, exec_of_room b hrun hdata hrole henough (Nat.le_of_not_lt hfull)]
  · cases i with
    | invalid | host => rfl
    | _ => exact absurd rfl hrole

/-! ### Every byte -/

/-- The verdict does not look at the program counter. -/
theorem verdict_setPc (b : UInt8) (s : State) (pc : Nat) (r : Role) :
    r.verdict b { s with pc } = r.verdict b s := by
  cases r with
  | executable d => rfl
  | _ => rfl

theorem execByte_report (b : UInt8) {s : State} (hrun : s.status = .running)
    (hdata : s.returnData = .empty) (hdepth : s.stack.depth ≤ Stack.limit) :
    (s.execByte b).report = (Role.ofByte b).verdict b s := by
  rw [Role.ofByte_eq, execByte, ← verdict_setPc b s (s.pc + 1)]
  cases Instr.ofByte b with
  | none => rfl
  | some i => exact exec_report b i hrun hdata hdepth

theorem dispatchByte_of_running (b : UInt8) {s : State} (hrun : s.status = .running) :
    s.dispatchByte b = ((s.execByte b).report, s.execByte b) :=
  if_pos (isRunning_iff.mpr hrun)

/-- What is reported as success leaves the results in the place of the operands, and all words
below as they are. -/
theorem Effect.stack_of_ok {i : Instr} {s s' : State} (he : Effect i s s')
    (hok : s'.report = .ok ()) :
    s'.stack.depth = s.stack.depth - i.operands + i.results ∧
      s'.stack.words.drop i.results = s.stack.words.drop i.operands := by
  cases he with
  | goesOn memory pc enough depth room below touched next => exact ⟨depth, below⟩
  | stops isStop =>
      subst isStop
      exact ⟨rfl, rfl⟩
  | returns isRet enough touched =>
      subst isRet
      exact ⟨Stack.depth_drop 2 s.stack, Stack.words_drop 2 s.stack⟩
  | reverts | refuses | interrupts => cases hok

end State

theorem Instr.demand_of_role {i : Instr} {d : Demand} (h : i.role = .executable d) :
    d = i.demand := by
  cases i with
  | invalid | host => cases h
  | _ =>
      cases h
      rfl

/-- No demand is refused for the byte itself. -/
theorem Demand.verdict_error {d : Demand} {s : State} {fault : Fault}
    (h : d.verdict s = .error fault) : fault.isOpcodeFault = false := by
  unfold verdict late at h
  repeat' split at h
  all_goals cases h <;> rfl

/-- The byte itself is blamed if it is not executable, and only then. -/
theorem Role.verdict_error {b : UInt8} {r : Role} {s : State} {fault : Fault}
    (h : r.verdict b s = .error fault) :
    fault.isOpcodeFault = true ↔ ∀ d, r ≠ .executable d := by
  cases r with
  | executable d => simp [Demand.verdict_error h]
  | unassigned | abort | hostRequired =>
      cases h
      simp [Fault.isOpcodeFault]

namespace State

/-- What is known of carrying out a byte. -/
structure Judged (b : UInt8) (s : State) : Prop where
  /-- The verdict is what is reported. -/
  reports : (s.dispatchByte b).1 = (Role.ofByte b).verdict b s
  /-- The byte itself is blamed only if it is not executable, and then nothing else is. -/
  blames : ∀ fault, (s.dispatchByte b).1 = .error fault →
    (fault.isOpcodeFault = true ↔ ∀ d, Role.ofByte b ≠ .executable d)
  /-- Success makes the stack as deep as the table says and keeps all words below the operands. -/
  leaves : ∀ d, Role.ofByte b = .executable d → (s.dispatchByte b).1 = .ok () →
    (s.dispatchByte b).2.stack.depth = s.stack.depth - d.operands + d.results ∧
      (s.dispatchByte b).2.stack.words.drop d.results = s.stack.words.drop d.operands

theorem execByte_leaves {b : UInt8} {d : Demand} {s : State} (hdepth : s.stack.depth ≤ Stack.limit)
    (hrole : Role.ofByte b = .executable d) (hok : (s.execByte b).report = .ok ()) :
    (s.execByte b).stack.depth = s.stack.depth - d.operands + d.results ∧
      (s.execByte b).stack.words.drop d.results = s.stack.words.drop d.operands := by
  rw [Role.ofByte_eq] at hrole
  rcases execByte_effect b s hdepth with ⟨i, hbyte, he⟩ | ⟨hbyte, -⟩
  · rw [hbyte] at hrole
    rw [Instr.demand_of_role hrole]
    exact he.stack_of_ok hok
  · rw [hbyte] at hrole
    cases hrole

/-- **What a byte reports in a reachable state is the verdict of the table.** The state is one that
the execution of some code can reach and in which it goes on. -/
theorem dispatchByte_judged (code : ByteArray) (env : Env) (ops : List Operation) (b : UInt8)
    (hrun : ((fresh code env).after ops).status = .running) :
    Judged b ((fresh code env).after ops) := by
  have hsound := (Sound.fresh code env).after ops
  have hreport := execByte_report b hrun hsound.returnData hsound.depth
  constructor
  · rw [dispatchByte_of_running b hrun, hreport]
  · intro fault hfault
    rw [dispatchByte_of_running b hrun, hreport] at hfault
    exact Role.verdict_error hfault
  · intro d hrole hok
    rw [dispatchByte_of_running b hrun] at hok ⊢
    exact execByte_leaves hsound.depth hrole hok

/-- With the words 33 and 0 on the stack, reverting leaves 33 zeros, and swapping the words leaves
both. -/
theorem dispatchByte_judged_two_words :
    ((fresh ⟨#[0x60, 0x21, 0x60, 0x00]⟩ {}).after [.dispatch, .dispatch]).status = .running ∧
      (((fresh ⟨#[0x60, 0x21, 0x60, 0x00]⟩ {}).after [.dispatch, .dispatch]).dispatchByte 0xfd).1 =
        .error (.reverted ⟨Array.replicate 33 0⟩) ∧
      (((fresh ⟨#[0x60, 0x21, 0x60, 0x00]⟩ {}).after
        [.dispatch, .dispatch]).dispatchByte 0x90).2.stack.depth = 2 :=
  ⟨rfl, (dispatchByte_judged _ _ _ 0xfd rfl).reports.trans rfl,
    ((dispatchByte_judged _ _ _ 0x90 rfl).leaves _ rfl rfl).1⟩

end State

end LocalNode.Machine
