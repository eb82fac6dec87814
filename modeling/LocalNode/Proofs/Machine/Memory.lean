import LocalNode.Machine.Memory

/-!
How much memory covers.

Every operation touches one range first. If the range is refused it stops there and has changed
nothing, and otherwise it at most writes inside the range that memory then covers. So of the size of
memory there is one thing to know, namely what covering a range does to it: `Guarded` says this of
an operation, and whole units and the capacity follow from that alone.
-/

namespace LocalNode

namespace Bytes

@[simp]
theorem size_pushZeros (count : Nat) (a : ByteArray) :
    (pushZeros count a).size = a.size + count := by
  induction count generalizing a with
  | zero => rfl
  | succ count ih =>
      rw [pushZeros, ih, ByteArray.size_push]
      omega

@[simp]
theorem size_zeros (count : Nat) : (zeros count).size = count := by
  rw [zeros, size_pushZeros, ByteArray.size_empty, Nat.zero_add]

/-- Replacing bytes inside an array leaves its size as it is. -/
theorem size_overwrite {a source : ByteArray} {offset : Nat}
    (h : offset + source.size ≤ a.size) : (overwrite a offset source).size = a.size := by
  unfold overwrite
  rw [ByteArray.copySlice_eq_append]
  simp only [ByteArray.size_append, ByteArray.size_extract, ByteArray.size_data]
  omega

theorem size_pushNat (a : ByteArray) (count n : Nat) :
    (pushNat a count n).size = a.size + count := by
  induction count generalizing n with
  | zero => rfl
  | succ count ih =>
      rw [pushNat, ByteArray.size_push, ih]
      omega

@[simp]
theorem size_ofNat (count n : Nat) : (ofNat count n).size = count := by
  rw [ofNat, size_pushNat, ByteArray.size_empty, Nat.zero_add]

/-- No more bytes are copied over the zeros than there are zeros. -/
@[simp]
theorem size_padded (source : ByteArray) (offset : Word) (count : Nat) :
    (padded source offset count).size = count := by
  unfold padded
  cases offset.below? source.size with
  | none => exact size_zeros count
  | some start =>
      rw [size_overwrite, size_zeros]
      rw [size_zeros, ByteArray.size_extract, Index.saturatingAdd]
      omega

end Bytes

namespace Machine.Memory

/-! ### Covering a range

The end of a range is compared with the size before it is rounded up. Where the size is a whole
number of units, this is the same as comparing after rounding.
-/

/-- Whether a range may be touched. -/
def admits (offset count : Nat) : Bool :=
  count = 0 || offset + count ≤ capacity

/-- Memory that covers a range besides what it covered before. -/
def cover (m : Memory) (offset count : Nat) : Memory :=
  if count = 0 then m else m.extendTo (offset + count)

theorem admits_iff {offset count : Nat} :
    admits offset count = true ↔ count = 0 ∨ offset + count ≤ capacity := by
  simp [admits]

theorem le_wordCeil (n : Nat) : n ≤ wordCeil n := by
  unfold wordCeil
  omega

theorem dvd_wordCeil (n : Nat) : 32 ∣ wordCeil n :=
  ⟨(n + 31) / 32, Nat.mul_comm ..⟩

/-- The capacity is a whole number of units, so rounding up never leaves it. -/
theorem wordCeil_le_capacity {n : Nat} (h : n ≤ capacity) : wordCeil n ≤ capacity := by
  unfold wordCeil capacity at *
  omega

/-- What memory that covers whole units covers is also covered after rounding up. -/
theorem wordCeil_le_of_dvd {n size : Nat} (hunits : 32 ∣ size) (h : n ≤ size) :
    wordCeil n ≤ size := by
  unfold wordCeil
  omega

theorem le_size_extendTo (m : Memory) (stop : Nat) : stop ≤ (m.extendTo stop).size := by
  have hceil := le_wordCeil stop
  unfold extendTo
  split
  · simp only [size, Bytes.size_pushZeros]
    omega
  · rename_i hcovered
    exact Nat.le_of_not_lt hcovered

theorem size_extendTo {m : Memory} (h : 32 ∣ m.size) (stop : Nat) :
    (m.extendTo stop).size = max m.size (wordCeil stop) := by
  have hceil := le_wordCeil stop
  unfold extendTo
  split
  · simp only [size, Bytes.size_pushZeros]
    omega
  · rename_i hcovered
    rw [Nat.max_eq_left (wordCeil_le_of_dvd h (Nat.le_of_not_lt hcovered))]

theorem extendTo_of_le {m : Memory} {stop : Nat} (h : stop ≤ m.size) : m.extendTo stop = m :=
  if_neg (Nat.not_lt.mpr h)

@[simp]
theorem cover_zero (m : Memory) (offset : Nat) : m.cover offset 0 = m :=
  rfl

theorem size_cover {m : Memory} (h : 32 ∣ m.size) (offset : Nat) {count : Nat}
    (hcount : count ≠ 0) :
    (m.cover offset count).size = max m.size (wordCeil (offset + count)) := by
  rw [cover, if_neg hcount, size_extendTo h]

theorem end_le_size_cover (m : Memory) (offset : Nat) {count : Nat} (h : count ≠ 0) :
    offset + count ≤ (m.cover offset count).size := by
  rw [cover, if_neg h]
  exact le_size_extendTo m _

/-- What is covered is not covered once more. -/
theorem cover_cover (m : Memory) (offset count : Nat) :
    (m.cover offset count).cover offset count = m.cover offset count := by
  by_cases hcount : count = 0
  · rw [hcount, cover_zero, cover_zero]
  · have hend := end_le_size_cover m offset hcount
    rw [cover, if_neg hcount, extendTo_of_le hend]

/-! ### Touching a range

The end of a range is computed with a check that it fits 64 bits, and then compared with the
capacity. The capacity is far below that, so the comparison alone decides.
-/

theorem filter_checkedAdd (offset count : Nat) :
    (Index.checkedAdd offset count).filter (· ≤ capacity) =
      if offset + count ≤ capacity then some (offset + count) else none := by
  unfold Index.checkedAdd
  by_cases hwithin : offset + count ≤ capacity
  · have hfits : offset + count < UInt64.size := Nat.lt_of_le_of_lt hwithin (by decide)
    simp [hfits, hwithin]
  · have hbeyond := Nat.lt_of_not_le hwithin
    split <;> simp [hbeyond]

theorem expand_eq (m : Memory) (offset count : Nat) :
    m.expand offset count =
      if admits offset count then (.ok (), m.cover offset count)
      else (.error .invalidMemoryAccess, m) := by
  rw [expand, filter_checkedAdd]
  by_cases hcount : count = 0
  · simp [admits, hcount]
  · by_cases hwithin : offset + count ≤ capacity
    · simp [admits, cover, hcount, hwithin]
    · simp [admits, hcount, hwithin]

theorem expanding_eq {α : Type} (m : Memory) (offset count : Nat)
    (k : Memory → Except Fault α × Memory) :
    m.expanding offset count k =
      if admits offset count then k (m.cover offset count)
      else (.error .invalidMemoryAccess, m) := by
  rw [expanding, expand_eq]
  cases admits offset count <;> rfl

theorem expanding_of_admits {α : Type} {m : Memory} {offset count : Nat}
    {k : Memory → Except Fault α × Memory} (h : admits offset count = true) :
    m.expanding offset count k = k (m.cover offset count) := by
  rw [expanding_eq, if_pos h]

/-- What was touched can be stored to: of two operations on one range the second does not fail where
the first one did not, and it finds nothing left to cover. -/
theorem storeSlice_of_expand {m m' : Memory} {offset : Nat} {bytes : ByteArray}
    (h : m.expand offset bytes.size = (.ok (), m')) :
    m'.storeSlice offset bytes = m.storeSlice offset bytes ∧
      (m'.storeSlice offset bytes).1 = .ok () := by
  rw [expand_eq] at h
  split at h
  · rename_i hadmits
    obtain rfl : m.cover offset bytes.size = m' := congrArg Prod.snd h
    unfold storeSlice
    by_cases hempty : bytes.size = 0
    · simp [hempty]
    · simp only [if_neg hempty, expanding_eq, if_pos hadmits, cover_cover, and_self]
  · cases h

/-! ### Operations

Every operation is refused without a change or covers its range first and stays inside it from then
on. What bytes it reads or writes has no influence on the size.
-/

/-- The size of memory after an operation is the one that covering some admitted range leads to. -/
def Touches (m m' : Memory) : Prop :=
  ∃ offset count, admits offset count = true ∧ m'.size = (m.cover offset count).size

theorem Touches.refl (m : Memory) : m.Touches m :=
  ⟨0, 0, rfl, rfl⟩

/-- The size of memory after an operation is the one that covering this admitted range leads to. -/
structure Covers (m m' : Memory) (offset count : Nat) : Prop where
  admitted : admits offset count = true
  size : m'.size = (m.cover offset count).size

theorem Covers.touches {m m' : Memory} {offset count : Nat} (h : m.Covers m' offset count) :
    m.Touches m' :=
  ⟨offset, count, h.admitted, h.size⟩

/-- How an operation on a range can end: refused, with memory as it was, or done, with the range
covered. -/
inductive Guarded {α : Type} (m : Memory) (offset count : Nat) : Except Fault α × Memory → Prop
  | refused (beyond : admits offset count = false) :
      Guarded m offset count (.error .invalidMemoryAccess, m)
  | done {value : α} {m' : Memory} (covers : m.Covers m' offset count) :
      Guarded m offset count (.ok value, m')

/-- An operation that touches a range and then succeeds without a change of the size. -/
theorem guarded_expanding {α : Type} {m m' : Memory} {offset count : Nat} {value : α}
    {k : Memory → Except Fault α × Memory} (hk : k (m.cover offset count) = (.ok value, m'))
    (hsize : m'.size = (m.cover offset count).size) :
    m.Guarded offset count (m.expanding offset count k) := by
  rw [expanding_eq]
  cases hadmits : admits offset count with
  | false => exact .refused hadmits
  | true =>
      rw [if_pos rfl, hk]
      exact .done ⟨hadmits, hsize⟩

/-- An empty range is admitted wherever it starts, and nothing has to be covered. -/
theorem guarded_of_empty {α : Type} (m : Memory) (offset : Nat) (value : α) :
    m.Guarded offset 0 (.ok value, m) :=
  .done ⟨rfl, rfl⟩

/-- Writing where memory covers everything already leaves the size as it is. -/
theorem size_write {m : Memory} {offset : Nat} {bytes : ByteArray}
    (h : offset + bytes.size ≤ m.size) : (m.write offset bytes).size = m.size :=
  Bytes.size_overwrite h

theorem size_write_cover (m : Memory) {offset count place : Nat} {bytes : ByteArray}
    (hcount : count ≠ 0) (h : place + bytes.size ≤ offset + count) :
    ((m.cover offset count).write place bytes).size = (m.cover offset count).size :=
  size_write (Nat.le_trans h (end_le_size_cover m offset hcount))

theorem expand_guarded (m : Memory) (offset count : Nat) :
    m.Guarded offset count (m.expand offset count) := by
  rw [expand_eq]
  cases hadmits : admits offset count with
  | false => exact .refused hadmits
  | true => exact .done ⟨hadmits, rfl⟩

theorem load_guarded (m : Memory) (offset : Nat) : m.Guarded offset 32 (m.load offset) :=
  guarded_expanding rfl rfl

theorem store_guarded (m : Memory) (offset : Nat) (w : Word) :
    m.Guarded offset 32 (m.store offset w) :=
  guarded_expanding rfl (size_write_cover m (by decide) (by simp))

theorem store8_guarded (m : Memory) (offset : Nat) (b : UInt8) :
    m.Guarded offset 1 (m.store8 offset b) :=
  guarded_expanding rfl (ByteArray.size_set! ..)

theorem loadSlice_guarded (m : Memory) (offset count : Nat) :
    m.Guarded offset count (m.loadSlice offset count) := by
  unfold loadSlice
  split
  · rename_i hempty
    rw [hempty]
    exact guarded_of_empty m offset _
  · exact guarded_expanding rfl rfl

theorem storeSlice_guarded (m : Memory) (offset : Nat) (bytes : ByteArray) :
    m.Guarded offset bytes.size (m.storeSlice offset bytes) := by
  unfold storeSlice
  split
  · rename_i hempty
    rw [hempty]
    exact guarded_of_empty m offset _
  · rename_i hsize
    exact guarded_expanding rfl (size_write_cover m hsize (Nat.le_refl _))

theorem storePadded_guarded (m : Memory) (dest : Nat) (source : ByteArray) (offset : Word)
    (count : Nat) :
    m.Guarded dest count (m.storeSlice dest (Bytes.padded source offset count)) := by
  have hguarded := m.storeSlice_guarded dest (Bytes.padded source offset count)
  rwa [Bytes.size_padded] at hguarded

/-- Of the two ranges of a copy the one that ends later is covered, and the bytes go into one of
them. -/
theorem copy_guarded (m : Memory) (dest source count : Nat) :
    m.Guarded (max dest source) count (m.copy dest source count) := by
  unfold copy
  split
  · rename_i hempty
    rw [hempty]
    exact guarded_of_empty m _ _
  · rename_i hcount
    refine guarded_expanding rfl (size_write_cover m hcount ?_)
    rw [ByteArray.size_extract]
    omega

/-! ### Whole units within the capacity -/

/-- Memory covers whole units and no more than its capacity. -/
structure WellSized (m : Memory) : Prop where
  units : 32 ∣ m.size
  bounded : m.size ≤ capacity

theorem WellSized.cover {m : Memory} (h : m.WellSized) {offset count : Nat}
    (hadmits : admits offset count = true) : (m.cover offset count).WellSized := by
  by_cases hcount : count = 0
  · rw [hcount, cover_zero]
    exact h
  · have hend : offset + count ≤ capacity := (admits_iff.mp hadmits).resolve_left hcount
    have hceil : wordCeil (offset + count) ≤ capacity := wordCeil_le_capacity hend
    have hsize := size_cover h.units offset hcount
    refine ⟨?_, ?_⟩
    · rw [hsize]
      rcases Nat.le_total m.size (wordCeil (offset + count)) with hle | hle
      · rw [Nat.max_eq_right hle]
        exact dvd_wordCeil _
      · rw [Nat.max_eq_left hle]
        exact h.units
    · rw [hsize]
      exact Nat.max_le.mpr ⟨h.bounded, hceil⟩

/-- **Operations keep memory at whole units within the capacity.** -/
theorem WellSized.touches {m m' : Memory} (h : m.WellSized) (ht : m.Touches m') :
    m'.WellSized := by
  obtain ⟨offset, count, hadmits, hsize⟩ := ht
  have hcover := h.cover hadmits
  exact ⟨by rw [hsize]; exact hcover.units, by rw [hsize]; exact hcover.bounded⟩

end Machine.Memory

end LocalNode
