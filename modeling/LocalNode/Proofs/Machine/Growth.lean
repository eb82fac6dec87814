import LocalNode.Proofs.Machine.Verdict

/-!
How instructions make memory grow.

An instruction uses memory at most once. `Instr.access` says which operation it carries out there,
with its range read from the operands as they stand on the stack, and `exec_memory` says that
memory after the instruction is memory after that operation. What remains is about operations alone:
one that is not refused makes memory cover its range and nothing else.

The main statement puts this in terms of the table of bytes, for every byte in every state that an
execution can reach. A range that ends too far away is refused and memory stays as it is. Otherwise
memory grows to the end of the furthest range, in whole units, if it did not cover it before. An
empty range does nothing, wherever it starts, and no other byte changes memory.
-/

namespace LocalNode.Machine

/-! ### Growth by one operation

Memory is extended if a range ends beyond its size, to the next whole unit. That this is the larger
of both sizes is true only of memory that had whole units before.
-/

namespace Memory

theorem wordCeil_max (a b : Nat) : wordCeil (max a b) = max (wordCeil a) (wordCeil b) := by
  unfold wordCeil
  omega

namespace Access

/-- An empty range leaves memory as it is. -/
theorem perform_of_empty {a : Access} (h : a.count = 0) (m : Memory) : (a.perform m).2 = m := by
  obtain ⟨reply, hperform⟩ := (a.orderly m).empty h
  rw [hperform]

/-- An operation that is not refused makes memory reach to the end of its range, in whole units. -/
theorem size_perform {a : Access} (h : ¬ a.Refused) {m : Memory} (hunits : 32 ∣ m.size) :
    (a.perform m).2.size = if a.count = 0 then m.size else max m.size (wordCeil a.reach) := by
  by_cases hcount : a.count = 0
  · rw [if_pos hcount, perform_of_empty hcount]
  · have hguarded := a.guarded m
    generalize a.perform m = r at hguarded
    cases hguarded with
    | refused beyond => exact absurd (admits_iff.mpr h) (by rw [beyond]; decide)
    | done covers => rw [if_neg hcount, covers.size, size_cover hunits a.start hcount, reach_eq]

end Access

end Memory

/-! ### What an instruction does to memory

An instruction uses memory at most once. A copy asks for the range first and then writes to it, and
the two requests together do what one operation does.
-/

/-- The operation that an instruction carries out on memory, if it gets there. -/
def Instr.access (s : State) : Instr → Option Memory.Access
  | .keccak256 | .ret | .revert => some (.loadSlice (s.stack.operand 0) (s.stack.operand 1))
  | .callDataCopy =>
    some (.storeSlice (s.stack.operand 0)
      (Bytes.padded s.env.callData (s.stack.wordAt 1) (s.stack.operand 2)))
  | .codeCopy =>
    some (.storeSlice (s.stack.operand 0)
      (Bytes.padded s.program.code (s.stack.wordAt 1) (s.stack.operand 2)))
  | .returnDataCopy =>
    (Bytes.startWithin? s.returnData (s.stack.wordAt 1) (s.stack.wordAt 2)).map fun start =>
      .storeSlice (s.stack.operand 0)
        (s.returnData.extract start (start + s.stack.operand 2))
  | .mload => some (.load (s.stack.operand 0))
  | .mstore => some (.store (s.stack.operand 0) (s.stack.wordAt 1))
  | .mstore8 => some (.store8 (s.stack.operand 0) (UInt8.ofNat (s.stack.operand 1)))
  | .mcopy => some (.copy (s.stack.operand 0) (s.stack.operand 1) (s.stack.operand 2))
  | _ => none

/-- Memory after the operation that an instruction carries out on it. -/
def Instr.memoryAfter (i : Instr) (s : State) : Memory :=
  (i.access s).elim s.memory fun a => (a.perform s.memory).2

namespace State

section Forms

variable {s : State}

theorem memory_withStack {α : Type} {change : Stack → Except Fault α × Stack}
    {k : α → State → State} (hk : ∀ value s', (k value s').memory = s'.memory) :
    (s.withStack change k).memory = s.memory := by
  unfold withStack
  split
  · exact hk _ _
  · rfl

theorem memory_pushWord (s : State) (w : Word) : (s.pushWord w).memory = s.memory :=
  memory_withStack fun _ _ => rfl

theorem memory_jumpTo (s : State) (dest : Nat) : (s.jumpTo dest).memory = s.memory :=
  jumpTo_rule (P := fun s' => s'.memory = s.memory) (fun _ => rfl) fun _ => rfl

/-- Memory is used by an operation, provided that what follows leaves memory alone. -/
theorem memory_withMemory {α : Type} {change : Memory → Except Fault α × Memory}
    {k : α → State → State} (a : Memory.Access) (reply : α → Memory.Reply)
    (h : a.perform s.memory = (change s.memory).map (Except.map reply) id)
    (hk : ∀ value s', (k value s').memory = s'.memory) :
    (s.withMemory change k).memory = (a.perform s.memory).2 := by
  rw [h]
  unfold withMemory
  split
  · rename_i value memory hchange
    rw [hk, hchange]
    rfl
  · rename_i fault memory hchange
    rw [hchange]
    rfl

end Forms

/-- **Memory after an instruction is memory after the one operation that it carries out there.** -/
theorem exec_memory (b : UInt8) {i : Instr} {s : State} (henough : i.operands ≤ s.stack.depth) :
    (exec b i s).memory = i.memoryAfter s := by
  cases i with
  | stop | jumpDest | invalid | host => rfl
  | unary op =>
      rw [exec, withOne_of_le henough]
      exact memory_pushWord ..
  | binary op =>
      rw [exec, withTwo_of_le henough]
      exact memory_pushWord ..
  | ternary op =>
      rw [exec, withThree_of_le henough]
      exact memory_pushWord ..
  | query q => exact memory_pushWord ..
  | keccak256 =>
      rw [exec, withTwo_of_le henough, withRange_loadSlice]
      exact memory_withMemory (.loadSlice _ _) .bytes rfl fun _ _ => memory_pushWord ..
  | callDataLoad =>
      rw [exec, withOne_of_le henough]
      exact memory_pushWord ..
  | callDataCopy | codeCopy =>
      rw [exec, withThree_of_le henough, copyFrom_eq]
      exact memory_withMemory (.storeSlice _ _) (fun _ => .done) rfl fun _ _ => rfl
  | returnDataCopy =>
      rw [exec, withThree_of_le henough, Instr.memoryAfter, Instr.access]
      cases hstart : Bytes.startWithin? s.returnData (s.stack.wordAt 1) (s.stack.wordAt 2) with
      | none =>
          rw [copyWithin_of_none hstart]
          rfl
      | some start =>
          rw [copyWithin_of_some hstart]
          exact memory_withMemory (.storeSlice _ _) (fun _ => .done) rfl fun _ _ => rfl
  | pop =>
      rw [exec, withOne_of_le henough]
      rfl
  | mload =>
      rw [exec, withOne_of_le henough, withOffset_load]
      exact memory_withMemory (.load _) .word rfl fun _ _ => memory_pushWord ..
  | mstore =>
      rw [exec, withTwo_of_le henough, withOffset_store]
      exact memory_withMemory (.store _ _) (fun _ => .done) rfl fun _ _ => rfl
  | mstore8 =>
      rw [exec, withTwo_of_le henough, withOffset_store8]
      exact memory_withMemory (.store8 _ _) (fun _ => .done) rfl fun _ _ => rfl
  | mcopy =>
      rw [exec, withThree_of_le henough, withRange_copy]
      exact memory_withMemory (.copy _ _ _) (fun _ => .done) rfl fun _ _ => rfl
  | jump =>
      rw [exec, withOne_of_le henough]
      exact memory_jumpTo ..
  | jumpIf =>
      rw [exec, withTwo_of_le henough]
      split
      · rfl
      · exact memory_jumpTo ..
  | push width | dup depth | swap depth => exact memory_withStack fun _ _ => rfl
  | ret | revert =>
      rw [exec, withTwo_of_le henough, withRange_loadSlice]
      exact memory_withMemory (.loadSlice _ _) .bytes rfl fun _ _ => rfl

end State

/-! ### What the table says of growth

The table gives ranges, and an instruction carries out an operation. `Demand.Asks` relates the two:
they are refused together, and otherwise lead to the same size.
-/

/-- The bytes that use memory: those of the hash, of the copies from call data, from code and inside
memory, of loads and stores, and of the two ways to end with data. -/
def memoryBytes : List UInt8 :=
  [0x20, 0x37, 0x39, 0x51, 0x52, 0x53, 0x5e, 0xf3, 0xfd]

/-- The size to which the ranges that are not empty make memory grow: the largest of the old size
and of their ends, each rounded up to whole units. -/
def Demand.sizeAfter (d : Demand) (s : State) : Nat :=
  ((d.ranges.filter fun r => r.2.count s.stack ≠ 0).map fun r =>
    Memory.wordCeil (s.stack.operand r.1 + r.2.count s.stack)).foldl max s.memory.size

/-- Whether an instruction uses memory. -/
def Instr.usesMemory : Instr → Bool
  | .keccak256 | .callDataCopy | .codeCopy | .mload | .mstore | .mstore8 | .mcopy => true
  | .ret | .revert => true
  | _ => false

theorem mem_memoryBytes : ∀ b : UInt8,
    b ∈ memoryBytes ↔ (Instr.ofByte b).any Instr.usesMemory = true :=
  forall_byte (by decide +kernel)

theorem exists_instr_of_mem {b : UInt8} (h : b ∈ memoryBytes) :
    ∃ i, Instr.ofByte b = some i ∧ i.usesMemory = true := by
  rw [mem_memoryBytes] at h
  cases hbyte : Instr.ofByte b with
  | none =>
      rw [hbyte] at h
      cases h
  | some i =>
      rw [hbyte] at h
      exact ⟨i, rfl, h⟩

namespace Demand

variable {d : Demand} {s : State}

/-- What is demanded of memory is what an operation demands. -/
structure Asks (d : Demand) (s : State) (a : Memory.Access) : Prop where
  reachesBeyond : d.ReachesBeyond s ↔ a.Refused
  empty : (∀ r ∈ d.ranges, r.2.count s.stack = 0) → a.count = 0
  sizeAfter : d.sizeAfter s =
    if a.count = 0 then s.memory.size else max s.memory.size (Memory.wordCeil a.reach)

theorem asks_one {place : Nat} {extent : Extent} {a : Memory.Access}
    (hranges : d.ranges = [(place, extent)]) (hcount : a.count = extent.count s.stack)
    (hreach : a.reach = s.stack.operand place + extent.count s.stack) : d.Asks s a := by
  refine ⟨?_, ?_, ?_⟩
  · simp only [ReachesBeyond, Memory.Access.Refused, hranges, hcount, hreach, List.mem_singleton,
      exists_eq_left]
  · intro hempty
    rw [hcount]
    exact hempty (place, extent) (by simp [hranges])
  · rw [sizeAfter, hranges, hcount, hreach]
    by_cases hzero : extent.count s.stack = 0
    · simp [hzero]
    · simp [hzero]

/-- Of two ranges of one length, the one that ends later decides. -/
theorem asks_pair {place place' : Nat} {extent : Extent} {a : Memory.Access}
    (hranges : d.ranges = [(place, extent), (place', extent)])
    (hcount : a.count = extent.count s.stack)
    (hreach : a.reach = max (s.stack.operand place + extent.count s.stack)
      (s.stack.operand place' + extent.count s.stack)) : d.Asks s a := by
  refine ⟨?_, ?_, ?_⟩
  · simp only [ReachesBeyond, Memory.Access.Refused, hranges, hcount, hreach, List.mem_cons,
      List.not_mem_nil, or_false, exists_eq_or_imp, exists_eq_left]
    omega
  · intro hempty
    rw [hcount]
    exact hempty (place, extent) (by simp [hranges])
  · rw [sizeAfter, hranges, hcount, hreach]
    by_cases hzero : extent.count s.stack = 0
    · simp [hzero]
    · rw [if_neg hzero, Memory.wordCeil_max, ← Nat.max_assoc]
      simp [hzero]

end Demand

/-- An instruction that uses memory demands what its operation demands. -/
theorem Instr.exists_access {i : Instr} (h : i.usesMemory = true) (s : State) :
    ∃ a, i.access s = some a ∧ i.demand.Asks s a := by
  cases i with
  | keccak256 | mload | mstore | mstore8 | ret | revert =>
      exact ⟨_, rfl, Demand.asks_one rfl rfl rfl⟩
  | callDataCopy | codeCopy =>
      refine ⟨_, rfl, Demand.asks_one rfl (Bytes.size_padded ..) ?_⟩
      exact congrArg (s.stack.operand 0 + ·) (Bytes.size_padded ..)
  | mcopy => exact ⟨_, rfl, Demand.asks_pair rfl rfl rfl⟩
  | _ => cases h

/-- Other instructions leave memory alone, as long as no data were returned. -/
theorem Instr.memoryAfter_of_not_uses {i : Instr} {s : State} (h : i.usesMemory = false)
    (hdata : s.returnData = .empty) : i.memoryAfter s = s.memory := by
  cases i with
  | keccak256 | callDataCopy | codeCopy | mload | mstore | mstore8 | mcopy | ret | revert => cases h
  | returnDataCopy =>
      rw [memoryAfter, access]
      cases hstart : Bytes.startWithin? s.returnData (s.stack.wordAt 1) (s.stack.wordAt 2) with
      | none => rfl
      | some start =>
          -- Nothing was returned, so the bytes that are stored are none.
          have hcount : (s.returnData.extract start (start + s.stack.operand 2)).size = 0 := by
            rw [ByteArray.size_extract, hdata, ByteArray.size_empty]
            omega
          exact Memory.Access.perform_of_empty (a := .storeSlice _ _) hcount s.memory
  | _ => rfl

/-- What the instructions that use memory have in common: they are executable, leave no more words
than they take, and nothing is special about them but that one reverts. -/
theorem Instr.usesMemory_spec {i : Instr} (h : i.usesMemory = true) :
    i.role = .executable i.demand ∧ i.results ≤ i.operands ∧
      (i.demand.manner = .plain ∨ i.demand.manner = .revert) := by
  cases i with
  | revert => exact ⟨rfl, by decide, .inr rfl⟩
  | keccak256 | callDataCopy | codeCopy | mload | mstore | mstore8 | mcopy | ret =>
      exact ⟨rfl, by decide, .inl rfl⟩
  | _ => cases h

theorem Demand.late_of_manner {d : Demand} {s : State}
    (h : d.manner = .plain ∨ d.manner = .revert) :
    d.late s =
      if d.ReachesBeyond s then .error .invalidMemoryAccess
      else if d.manner = .revert then
        .error (.reverted
          (Memory.Tape.slice s.memory.byteAt (s.stack.operand 0) (s.stack.operand 1)))
      else .ok () := by
  rcases h with hmanner | hmanner
  · simp [late, JumpsAstray, AsksForData, hmanner]
  · simp [late, JumpsAstray, AsksForData, hmanner]

/-- An instruction that uses memory and finds its operands also finds room for its results. -/
theorem Instr.verdict_of_usesMemory {i : Instr} {s : State} (h : i.usesMemory = true)
    (hdepth : s.stack.depth ≤ 1024) (henough : i.operands ≤ s.stack.depth) :
    i.demand.verdict s = i.demand.late s := by
  obtain ⟨-, hresults, -⟩ := usesMemory_spec h
  have hfound : ¬ s.stack.depth < i.demand.operands := Nat.not_lt.mpr henough
  have hroom : ¬ 1024 < s.stack.depth - i.demand.operands + i.demand.results := by
    simp only [Instr.demand]
    omega
  rw [Demand.verdict, if_neg hfound, if_neg hroom]

namespace State

variable {s : State}

/-- The byte is carried out to its end: it succeeds, or it is the byte that reverts and does so. -/
def Completes (b : UInt8) (s : State) : Prop :=
  (s.dispatchByte b).1 = .ok () ∨
    b = 0xfd ∧ ∃ data, (s.dispatchByte b).1 = .error (.reverted data)

/-- What is known of memory after a byte that uses it and finds its operands. -/
structure Grows (b : UInt8) (d : Demand) (s : State) : Prop where
  /-- If a range that is not empty ends beyond 32 mebibytes, the byte fails and memory stays as it
  is. -/
  refused : d.ReachesBeyond s →
    (s.dispatchByte b).1 = .error .invalidMemoryAccess ∧ (s.dispatchByte b).2.memory = s.memory
  /-- Otherwise memory grows to the end of the furthest range. -/
  grown : ¬ d.ReachesBeyond s →
    Completes b s ∧ (s.dispatchByte b).2.memory.size = d.sizeAfter s
  /-- Ranges that are all empty change nothing, wherever they start. -/
  empty : (∀ r ∈ d.ranges, r.2.count s.stack = 0) →
    Completes b s ∧ (s.dispatchByte b).2.memory = s.memory

theorem execByte_memory {b : UInt8} {i : Instr} (hbyte : Instr.ofByte b = some i)
    (henough : i.operands ≤ s.stack.depth) : (s.execByte b).memory = i.memoryAfter s := by
  rw [execByte_of_instr hbyte]
  exact exec_memory b henough

/-- A byte that does not use memory leaves it as it is, also where it fails. -/
theorem execByte_memory_of_not_uses {b : UInt8} (hdata : s.returnData = .empty)
    (h : b ∉ memoryBytes) : (s.execByte b).memory = s.memory := by
  cases hbyte : Instr.ofByte b with
  | none => simp only [execByte, hbyte, fail]
  | some i =>
      have huses : i.usesMemory = false := by
        rw [mem_memoryBytes, hbyte] at h
        simpa using h
      by_cases henough : i.operands ≤ s.stack.depth
      · rw [execByte_memory hbyte henough, Instr.memoryAfter_of_not_uses huses hdata]
      · have hshort : s.stack.depth < i.operands := Nat.lt_of_not_le henough
        rw [execByte_of_instr hbyte, exec_of_short b (s := { s with pc := s.pc + 1 }) hshort]
        rfl

/-- There is one instruction that reverts, and one byte for it. -/
theorem eq_of_reverts {b : UInt8} {i : Instr} (hbyte : Instr.ofByte b = some i)
    (hmanner : i.demand.manner = .revert) : b = 0xfd := by
  have hall : ∀ b : UInt8, Instr.ofByte b = some .revert → b = 0xfd :=
    forall_byte (by decide +kernel)
  cases i with
  | revert => exact hall b hbyte
  | _ => cases hmanner

theorem dispatchByte_memory {b : UInt8} {i : Instr} {a : Memory.Access} (hrun : s.status = .running)
    (hbyte : Instr.ofByte b = some i) (henough : i.operands ≤ s.stack.depth)
    (haccess : i.access s = some a) : (s.dispatchByte b).2.memory = (a.perform s.memory).2 := by
  rw [dispatchByte_of_running b hrun, execByte_memory hbyte henough, Instr.memoryAfter, haccess]
  rfl

theorem role_of_usesMemory {b : UInt8} {i : Instr} (hbyte : Instr.ofByte b = some i)
    (huses : i.usesMemory = true) : Role.ofByte b = .executable i.demand := by
  rw [Role.ofByte_eq, hbyte]
  exact (Instr.usesMemory_spec huses).1

theorem dispatchByte_late {b : UInt8} {i : Instr} (hrun : s.status = .running)
    (hdata : s.returnData = .empty) (hdepth : s.stack.depth ≤ 1024)
    (hbyte : Instr.ofByte b = some i) (huses : i.usesMemory = true)
    (henough : i.operands ≤ s.stack.depth) : (s.dispatchByte b).1 = i.demand.late s := by
  rw [dispatchByte_of_running b hrun, execByte_report b hrun hdata hdepth,
    role_of_usesMemory hbyte huses]
  exact Instr.verdict_of_usesMemory huses hdepth henough

/-- An instruction that uses memory does to it what its operation does, and reports accordingly. -/
theorem grows_of_usesMemory {b : UInt8} {i : Instr} (hrun : s.status = .running)
    (hdata : s.returnData = .empty) (hdepth : s.stack.depth ≤ 1024) (hunits : 32 ∣ s.memory.size)
    (hbyte : Instr.ofByte b = some i) (huses : i.usesMemory = true)
    (henough : i.operands ≤ s.stack.depth) : Grows b i.demand s := by
  obtain ⟨a, haccess, hasks⟩ := Instr.exists_access huses s
  obtain ⟨-, -, hmanner⟩ := Instr.usesMemory_spec huses
  have hmemory := dispatchByte_memory hrun hbyte henough haccess
  have hreport := dispatchByte_late hrun hdata hdepth hbyte huses henough
  rw [Demand.late_of_manner hmanner] at hreport
  have hcompletes : ¬ i.demand.ReachesBeyond s → Completes b s := by
    intro hwithin
    rw [if_neg hwithin] at hreport
    by_cases hreverts : i.demand.manner = .revert
    · rw [if_pos hreverts] at hreport
      exact .inr ⟨eq_of_reverts hbyte hreverts, _, hreport⟩
    · rw [if_neg hreverts] at hreport
      exact .inl hreport
  refine ⟨?_, ?_, ?_⟩
  · intro hbeyond
    rw [if_pos hbeyond] at hreport
    rw [hmemory, Memory.Access.perform_of_refused (hasks.reachesBeyond.mp hbeyond)]
    exact ⟨hreport, rfl⟩
  · intro hwithin
    have haccepted : ¬ a.Refused := fun hrefused => hwithin (hasks.reachesBeyond.mpr hrefused)
    rw [hmemory, Memory.Access.size_perform haccepted hunits, hasks.sizeAfter]
    exact ⟨hcompletes hwithin, rfl⟩
  · intro hempty
    have hwithin : ¬ i.demand.ReachesBeyond s := fun ⟨r, hr, hcount, _⟩ => hcount (hempty r hr)
    rw [hmemory, Memory.Access.perform_of_empty (hasks.empty hempty)]
    exact ⟨hcompletes hwithin, rfl⟩

/-- **Memory grows by exactly what the operands say.** In a state that the execution of some code
can reach and in which it goes on, each byte that uses memory and finds its operands makes memory
grow as `Grows` says, and no other byte changes memory. -/
theorem dispatchByte_grows (code : ByteArray) (env : Env) (ops : List Operation) (b : UInt8)
    (hrun : ((fresh code env).after ops).status = .running) :
    (b ∈ memoryBytes → ∃ d, Role.ofByte b = .executable d ∧
      (d.operands ≤ ((fresh code env).after ops).stack.depth →
        Grows b d ((fresh code env).after ops))) ∧
      (b ∉ memoryBytes → (((fresh code env).after ops).dispatchByte b).2.memory =
        ((fresh code env).after ops).memory) := by
  have hsound := (Sound.fresh code env).after ops
  refine ⟨?_, ?_⟩
  · intro hmem
    obtain ⟨i, hbyte, huses⟩ := exists_instr_of_mem hmem
    refine ⟨i.demand, role_of_usesMemory hbyte huses, ?_⟩
    intro henough
    exact grows_of_usesMemory hrun hsound.returnData hsound.depth hsound.units hbyte huses henough
  · intro hmem
    rw [dispatchByte_of_running b hrun]
    exact execByte_memory_of_not_uses hsound.returnData hmem

/-- With the words 33 and 7 on top of the stack, storing makes memory grow to three units. With the
largest word and 0 there, storing is refused, and hashing succeeds and leaves memory empty. -/
theorem dispatchByte_grows_two_words :
    let s := (fresh ⟨#[0x60, 0x07, 0x60, 0x21]⟩ {}).after [.dispatch, .dispatch]
    let s' := (fresh ⟨#[0x5f, 0x5f, 0x19]⟩ {}).after [.dispatch, .dispatch, .dispatch]
    (s.dispatchByte 0x52).2.memory.size = 96 ∧
      (s'.dispatchByte 0x52).1 = .error .invalidMemoryAccess ∧
      Completes 0x20 s' ∧ (s'.dispatchByte 0x20).2.memory = .empty := by
  intro s s'
  obtain ⟨d, hrole, hgrows⟩ := (dispatchByte_grows ⟨#[0x60, 0x07, 0x60, 0x21]⟩ {}
    [.dispatch, .dispatch] 0x52 rfl).1 (by decide)
  obtain ⟨d₁, hrole₁, hgrows₁⟩ := (dispatchByte_grows ⟨#[0x5f, 0x5f, 0x19]⟩ {}
    [.dispatch, .dispatch, .dispatch] 0x52 rfl).1 (by decide)
  obtain ⟨d₂, hrole₂, hgrows₂⟩ := (dispatchByte_grows ⟨#[0x5f, 0x5f, 0x19]⟩ {}
    [.dispatch, .dispatch, .dispatch] 0x20 rfl).1 (by decide)
  have hd : Role.executable ⟨2, 0, [(0, .fixed 32)], .plain⟩ = .executable d := hrole
  have hd₁ : Role.executable ⟨2, 0, [(0, .fixed 32)], .plain⟩ = .executable d₁ := hrole₁
  have hd₂ : Role.executable ⟨2, 1, [(0, .operand 1)], .plain⟩ = .executable d₂ := hrole₂
  cases hd
  cases hd₁
  cases hd₂
  refine ⟨?_, ?_, ?_⟩
  · exact ((hgrows (by decide)).grown (by decide)).2.trans rfl
  · exact ((hgrows₁ (by decide)).refused (by decide)).1
  · exact (hgrows₂ (by decide)).empty (by decide)

end State

end LocalNode.Machine
