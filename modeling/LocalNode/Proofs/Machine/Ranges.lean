import LocalNode.Machine.Step
import LocalNode.Proofs.Machine.Memory

/-!
Ranges of memory that are told by words.

Operands are words, and memory is addressed by numbers of 64 bits. An operand that does not fit is
refused before memory is asked, and an empty range is asked for at the start of memory, wherever the
operands place it. This cannot be told from asking with the operands as natural numbers: memory
refuses what does not fit, since its capacity is far below, and it leaves an empty range alone.

From here on instructions are spoken of in this simpler form. A copy from a source asks memory
twice, once to make room and once to store, and is the same as storing alone.
-/

namespace LocalNode

namespace Bytes

/-- A range inside an array starts where the operand says. -/
theorem startWithin?_eq_some {source : ByteArray} {offset count : Word} {start : Nat}
    (h : startWithin? source offset count = some start) :
    start = offset.toNat ∧ offset.toNat + count.toNat ≤ source.size := by
  simp only [startWithin?, Word.toIndex?_eq, Index.checkedAdd, Option.bind_eq_bind,
    Option.bind_eq_some_iff, Option.ite_none_right_eq_some, Option.some.injEq] at h
  obtain ⟨o, ⟨-, rfl⟩, c, ⟨-, rfl⟩, stop, ⟨-, rfl⟩, hwithin, rfl⟩ := h
  exact ⟨rfl, hwithin⟩

/-- Of no data there is only the empty range at the start. -/
theorem startWithin?_empty (offset count : Word) :
    startWithin? .empty offset count =
      if offset.toNat = 0 ∧ count.toNat = 0 then some 0 else none := by
  split
  · rename_i hzero
    simp [startWithin?, Word.toIndex?_eq, Index.checkedAdd, hzero.1, hzero.2]
  · rename_i hmore
    cases hstart : startWithin? .empty offset count with
    | none => rfl
    | some start =>
        have hwithin := (startWithin?_eq_some hstart).2
        rw [ByteArray.size_empty] at hwithin
        omega

end Bytes

namespace Machine

/-! ### Operands that do not fit

An operand is refused if it does not fit 64 bits. The capacity of memory is far smaller, so it would
be refused by memory too, with the same fault.
-/

namespace Memory

theorem range?_eq (offset count : Word) :
    range? offset count =
      if count = 0 then some (0, 0)
      else if offset.toNat < UInt64.size ∧ count.toNat < UInt64.size then
        some (offset.toNat, count.toNat)
      else none := by
  simp only [range?, Word.toIndex?_eq]
  by_cases hcount : count = 0
  · rw [if_pos hcount, if_pos hcount]
  · rw [if_neg hcount, if_neg hcount]
    by_cases hoffset : offset.toNat < UInt64.size
    · by_cases hfits : count.toNat < UInt64.size
      · simp [hoffset, hfits]
      · simp [hoffset, hfits]
    · simp [hoffset]

/-- What does not fit 64 bits ends beyond the capacity. -/
theorem not_admits_of_not_fits {offset count : Nat} (hcount : count ≠ 0)
    (h : ¬ (offset < UInt64.size ∧ count < UInt64.size)) : admits offset count = false := by
  rw [← Bool.not_eq_true, admits_iff]
  unfold capacity
  simp only [UInt64.size] at h
  omega

theorem eq_of_guarded {α : Type} {m : Memory} {offset count : Nat} {r : Except Fault α × Memory}
    (h : m.Guarded offset count r) (hadmits : admits offset count = false) :
    r = (.error .invalidMemoryAccess, m) := by
  cases h with
  | refused beyond => rfl
  | done covers => exact absurd covers.admitted (by rw [hadmits]; decide)

end Memory

namespace State

section Forms

variable {s : State} {α : Type} {k : α → State → State}

theorem withMemory_of_ok {change : Memory → Except Fault α × Memory} {value : α} {memory : Memory}
    (h : change s.memory = (.ok value, memory)) :
    s.withMemory change k = k value { s with memory } := by
  rw [withMemory, h]

theorem withMemory_of_refused {change : Memory → Except Fault α × Memory}
    (h : change s.memory = (.error .invalidMemoryAccess, s.memory)) :
    s.withMemory change k = s.fail .invalidMemoryAccess := by
  rw [withMemory, h]

/-- Only what an operation does to the memory at hand matters. -/
theorem withMemory_congr {change change' : Memory → Except Fault α × Memory}
    (h : change s.memory = change' s.memory) : s.withMemory change k = s.withMemory change' k := by
  rw [withMemory, withMemory, h]

/-- An operation at an offset, which is refused where the offset does not fit. -/
theorem withOffset_eq {op : Nat → Memory → Except Fault α × Memory} {offset : Word} {count : Nat}
    (hcount : count ≠ 0) (hop : s.memory.Guarded offset.toNat count (op offset.toNat s.memory)) :
    s.withOffset offset (fun offset s => s.withMemory (op offset) k) =
      s.withMemory (op offset.toNat) k := by
  rw [withOffset, Word.toIndex?_eq]
  by_cases hfits : offset.toNat < UInt64.size
  · rw [if_pos hfits]
  · have hrefused := Memory.not_admits_of_not_fits hcount (fun h => hfits h.1)
    rw [if_neg hfits, withMemory_of_refused (Memory.eq_of_guarded hop hrefused)]

/-- An operation on a range, which is refused where an operand does not fit, and which does not look
where an empty range starts. -/
theorem withRange_eq {op : Nat → Nat → Memory → Except Fault α × Memory} {offset count : Word}
    (hempty : count = 0 → op 0 0 s.memory = op offset.toNat count.toNat s.memory)
    (hop : s.memory.Guarded offset.toNat count.toNat (op offset.toNat count.toNat s.memory)) :
    s.withRange offset count (fun offset count s => s.withMemory (op offset count) k) =
      s.withMemory (op offset.toNat count.toNat) k := by
  rw [withRange, Memory.range?_eq]
  by_cases hcount : count = 0
  · rw [if_pos hcount]
    exact withMemory_congr (hempty hcount)
  · rw [if_neg hcount]
    by_cases hfits : offset.toNat < UInt64.size ∧ count.toNat < UInt64.size
    · rw [if_pos hfits]
    · have hpos : count.toNat ≠ 0 := fun hzero => hcount (BitVec.eq_of_toNat_eq hzero)
      have hrefused := Memory.not_admits_of_not_fits hpos hfits
      rw [if_neg hfits, withMemory_of_refused (Memory.eq_of_guarded hop hrefused)]

end Forms

/-! ### The operations of instructions

Each operation is refused where its range is not admitted, and does nothing on an empty range. This
is all that is needed to leave out the conversion of its operands.
-/

section Operations

variable {s : State} {offset count : Word}

theorem withOffset_load {k : Word → State → State} :
    s.withOffset offset (fun offset s => s.withMemory (·.load offset) k) =
      s.withMemory (·.load offset.toNat) k :=
  withOffset_eq (by decide) (Memory.load_guarded ..)

theorem withOffset_store {k : Unit → State → State} {w : Word} :
    s.withOffset offset (fun offset s => s.withMemory (·.store offset w) k) =
      s.withMemory (·.store offset.toNat w) k :=
  withOffset_eq (by decide) (Memory.store_guarded ..)

theorem withOffset_store8 {k : Unit → State → State} {b : UInt8} :
    s.withOffset offset (fun offset s => s.withMemory (·.store8 offset b) k) =
      s.withMemory (·.store8 offset.toNat b) k :=
  withOffset_eq (by decide) (Memory.store8_guarded ..)

theorem withRange_loadSlice {k : ByteArray → State → State} :
    s.withRange offset count (fun offset count s => s.withMemory (·.loadSlice offset count) k) =
      s.withMemory (·.loadSlice offset.toNat count.toNat) k := by
  refine withRange_eq ?_ (Memory.loadSlice_guarded ..)
  rintro rfl
  rfl

/-- Storing bytes of which there are as many as the range is long. -/
theorem withRange_storeSlice (bytes : Nat → ByteArray) {k : Unit → State → State}
    (h : (bytes count.toNat).size = count.toNat) :
    s.withRange offset count
        (fun offset count s => s.withMemory (·.storeSlice offset (bytes count)) k) =
      s.withMemory (·.storeSlice offset.toNat (bytes count.toNat)) k := by
  have hguarded := Memory.storeSlice_guarded s.memory offset.toNat (bytes count.toNat)
  rw [h] at hguarded
  refine withRange_eq ?_ hguarded
  rintro rfl
  have hnone : (bytes 0).size = 0 := h
  exact (if_pos hnone).trans (if_pos h).symm

/-- The ranges of a copy inside memory are told by three words, of which one tells the length of
both. -/
theorem withRange_copy {source : Word} {k : Unit → State → State} :
    s.withRange offset count (fun offset length s =>
        s.withRange source count fun source _ s => s.withMemory (·.copy offset source length) k) =
      s.withMemory (·.copy offset.toNat source.toNat count.toNat) k := by
  simp only [withRange, Memory.range?_eq]
  by_cases hcount : count = 0
  · have hnone : count.toNat = 0 := congrArg BitVec.toNat hcount
    simp only [if_pos hcount]
    exact withMemory_congr ((if_pos rfl).trans (if_pos hnone).symm)
  · have hpos : count.toNat ≠ 0 := fun hzero => hcount (BitVec.eq_of_toNat_eq hzero)
    have hrefused (h : ¬ (max offset.toNat source.toNat < UInt64.size ∧
        count.toNat < UInt64.size)) : s.fail .invalidMemoryAccess =
          s.withMemory (·.copy offset.toNat source.toNat count.toNat) k :=
      (withMemory_of_refused (Memory.eq_of_guarded (Memory.copy_guarded ..)
        (Memory.not_admits_of_not_fits hpos h))).symm
    simp only [if_neg hcount]
    by_cases hoffset : offset.toNat < UInt64.size ∧ count.toNat < UInt64.size
    · rw [if_pos hoffset]
      by_cases hsource : source.toNat < UInt64.size ∧ count.toNat < UInt64.size
      · rw [if_pos hsource]
      · rw [if_neg hsource]
        exact hrefused (by omega)
    · rw [if_neg hoffset]
      exact hrefused (by omega)

/-- Making room before storing makes no difference: what was refused is refused before, and what was
not cannot fail any more. -/
theorem withMemory_expand_storeSlice (s : State) (place : Nat) (bytes : ByteArray)
    (k : Unit → State → State) :
    s.withMemory (·.expand place bytes.size)
        (fun _ s => s.withMemory (·.storeSlice place bytes) k) =
      s.withMemory (·.storeSlice place bytes) k := by
  have hguarded := Memory.expand_guarded s.memory place bytes.size
  generalize hexpand : s.memory.expand place bytes.size = r at hguarded
  cases hguarded with
  | refused beyond =>
      have hstore := Memory.eq_of_guarded (Memory.storeSlice_guarded s.memory place bytes) beyond
      rw [withMemory_of_refused hexpand, withMemory_of_refused hstore]
  | done covers =>
      have hstore := (Memory.storeSlice_of_expand hexpand).1
      rw [withMemory_of_ok hexpand]
      simp only [withMemory, hstore]

/-- A copy from a source stores the bytes of the source, with zeros behind its end. -/
theorem copyFrom_eq (source : ByteArray) (dest : Word) :
    s.copyFrom source dest offset count =
      s.withMemory (·.storeSlice dest.toNat (Bytes.padded source offset count.toNat))
        fun _ s => s := by
  have hroom (dest count : Nat) (s : State) :
      s.withMemory (·.expand dest count) (fun _ s =>
          s.withMemory (·.storeSlice dest (Bytes.padded source offset count)) fun _ s => s) =
        s.withMemory (·.storeSlice dest (Bytes.padded source offset count)) fun _ s => s := by
    have hstore := withMemory_expand_storeSlice s dest (Bytes.padded source offset count)
      fun _ s => s
    rwa [Bytes.size_padded] at hstore
  simp only [copyFrom, hroom]
  exact withRange_storeSlice (Bytes.padded source offset) (Bytes.size_padded ..)

/-- A copy from inside a source stores the bytes of the source. -/
theorem copyWithin_of_some {source : ByteArray} {dest : Word} {start : Nat}
    (h : Bytes.startWithin? source offset count = some start) :
    s.copyWithin source dest offset count =
      s.withMemory (·.storeSlice dest.toNat (source.extract start (start + count.toNat)))
        fun _ s => s := by
  have hwithin := (Bytes.startWithin?_eq_some h)
  simp only [copyWithin, h]
  refine withRange_storeSlice (fun count => source.extract start (start + count)) ?_
  rw [ByteArray.size_extract]
  omega

theorem copyWithin_of_none {source : ByteArray} {dest : Word}
    (h : Bytes.startWithin? source offset count = none) :
    s.copyWithin source dest offset count = s.fail .returnDataOutOfBounds := by
  rw [copyWithin, h]

end Operations

end State

end Machine

end LocalNode
