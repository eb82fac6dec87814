import LocalNode.Proofs.Machine.Memory

/-!
What memory holds.

Memory is an array of bytes that grows as it is used. From outside it cannot be told from an
infinite array, a `Tape`, that holds zeros at first. Its size shows only in what is refused: a range
that is not empty and ends beyond the capacity.

For this every operation is compared with what it should do to a tape. An operation covers a range
and then at most overwrites a part of it. Covering appends zeros, and those are what the tape holds
there anyway, so the comparison comes down to one lemma about each byte of an array that is
overwritten. Whole sequences of operations follow by induction, for any memory to start from.
-/

namespace LocalNode

/-- The bytes of a word, the first one weighing most. -/
def Word.bigEndian (w : Word) (i : Nat) : UInt8 :=
  UInt8.ofNat (w.toNat >>> (8 * (31 - i)))

/-! ### Single bytes of byte arrays -/

namespace Bytes

theorem byteAt_eq_getD (a : ByteArray) (i : Nat) : byteAt a i = a.data[i]?.getD 0 := by
  unfold byteAt
  split
  · rename_i hlt
    rw [Array.getElem?_eq_getElem hlt]
    rfl
  · rename_i hge
    rw [Array.getElem?_eq_none (Nat.le_of_not_lt hge)]
    rfl

theorem byteAt_of_size_le {a : ByteArray} {i : Nat} (h : a.size ≤ i) : byteAt a i = 0 := by
  rw [byteAt, dif_neg (Nat.not_lt.mpr h)]

/-- Arrays of one size are equal if they have the same bytes. -/
theorem ext_byteAt {a b : ByteArray} (hsize : a.size = b.size)
    (h : ∀ i, i < a.size → byteAt a i = byteAt b i) : a = b := by
  apply ByteArray.ext
  apply Array.ext
  · exact hsize
  · intro i ha hb
    have hbyte := h i ha
    rw [byteAt_eq_getD, byteAt_eq_getD, Array.getElem?_eq_getElem ha,
      Array.getElem?_eq_getElem hb] at hbyte
    exact hbyte

theorem byteAt_push (a : ByteArray) (b : UInt8) (i : Nat) :
    byteAt (a.push b) i = if i = a.size then b else byteAt a i := by
  rw [byteAt_eq_getD, byteAt_eq_getD, ByteArray.data_push, Array.getElem?_push,
    ByteArray.size_data]
  split <;> rfl

theorem byteAt_append (a b : ByteArray) (i : Nat) :
    byteAt (a ++ b) i = if i < a.size then byteAt a i else byteAt b (i - a.size) := by
  rw [byteAt_eq_getD, byteAt_eq_getD, byteAt_eq_getD, ByteArray.data_append,
    Array.getElem?_append, ByteArray.size_data]
  split <;> rfl

theorem byteAt_extract (a : ByteArray) (start stop i : Nat) :
    byteAt (a.extract start stop) i = if start + i < stop then byteAt a (start + i) else 0 := by
  have hsize := ByteArray.size_extract (a := a) (b := start) (e := stop)
  by_cases hin : i < (a.extract start stop).size
  · rw [if_pos (by omega), byteAt_eq_getD, byteAt_eq_getD, ByteArray.data_extract,
      Array.getElem?_extract, ByteArray.size_data, if_pos (by omega)]
  · rw [byteAt_of_size_le (Nat.le_of_not_lt hin)]
    by_cases hstop : start + i < stop
    · rw [if_pos hstop, byteAt_of_size_le (by omega)]
    · rw [if_neg hstop]

theorem byteAt_set! {a : ByteArray} {k : Nat} (h : k < a.size) (b : UInt8) (i : Nat) :
    byteAt (a.set! k b) i = if i = k then b else byteAt a i := by
  have hdata : (a.set! k b).data = a.data.set! k b := rfl
  rw [byteAt_eq_getD, byteAt_eq_getD, hdata, Array.set!_eq_setIfInBounds,
    Array.getElem?_setIfInBounds, ByteArray.size_data]
  by_cases hik : i = k
  · rw [if_pos hik.symm, if_pos hik, if_pos h]
    rfl
  · rw [if_neg (Ne.symm hik), if_neg hik]

@[simp]
theorem byteAt_pushZeros (count : Nat) (a : ByteArray) (i : Nat) :
    byteAt (pushZeros count a) i = byteAt a i := by
  induction count generalizing a with
  | zero => rfl
  | succ count ih =>
      rw [pushZeros, ih, byteAt_push]
      by_cases hlast : i = a.size
      · rw [if_pos hlast, byteAt_of_size_le (Nat.le_of_eq hlast.symm)]
      · rw [if_neg hlast]

@[simp]
theorem byteAt_zeros (count i : Nat) : byteAt (zeros count) i = 0 := by
  rw [zeros, byteAt_pushZeros]
  exact byteAt_of_size_le (Nat.zero_le i)

/-- Exactly the bytes of the range are replaced. -/
theorem byteAt_overwrite {a source : ByteArray} {offset : Nat}
    (h : offset + source.size ≤ a.size) (i : Nat) :
    byteAt (overwrite a offset source) i =
      if offset ≤ i ∧ i < offset + source.size then byteAt source (i - offset)
      else byteAt a i := by
  have hfront : (a.extract 0 offset).size = offset := by
    rw [ByteArray.size_extract]
    omega
  unfold overwrite
  rw [ByteArray.copySlice_eq_append, ByteArray.size_data, ByteArray.size_data, Nat.zero_add,
    ByteArray.extract_zero_size, Nat.sub_zero, Nat.min_self, byteAt_append, byteAt_append,
    ByteArray.size_append, hfront, byteAt_extract, byteAt_extract]
  -- The array falls into three parts: before the range, the range, and behind it.
  by_cases hbefore : i < offset
  · rw [if_pos (by omega), if_pos hbefore, if_pos (by omega), if_neg (by omega), Nat.zero_add]
  · by_cases hbehind : i < offset + source.size
    · rw [if_pos hbehind, if_neg hbefore, if_pos ⟨Nat.le_of_not_lt hbefore, hbehind⟩]
    · have hplace : offset + source.size + (i - (offset + source.size)) = i := by omega
      rw [if_neg hbehind, hplace, if_neg (c := offset ≤ i ∧ _) fun hin => hbehind hin.2]
      by_cases hin : i < a.size
      · rw [if_pos hin]
      · rw [if_neg hin, byteAt_of_size_le (Nat.le_of_not_lt hin)]

/-- The bytes of a number are what is left of it after shifting the later ones out. -/
theorem byteAt_ofNat (n : Nat) {count i : Nat} (h : i < count) :
    byteAt (ofNat count n) i = UInt8.ofNat (n >>> (8 * (count - 1 - i))) := by
  induction count generalizing n with
  | zero => omega
  | succ count ih =>
      have hsize := size_ofNat count (n / 256)
      rw [ofNat, pushNat, ← ofNat, byteAt_push, hsize]
      by_cases hlast : i = count
      · subst hlast
        rw [if_pos rfl, Nat.add_sub_cancel, Nat.sub_self, Nat.mul_zero, Nat.shiftRight_zero]
        exact UInt8.ofNat_mod_size
      · have hshift : 8 * (count + 1 - 1 - i) = 8 + 8 * (count - 1 - i) := by omega
        rw [if_neg hlast, ih (n / 256) (by omega), hshift, Nat.shiftRight_add,
          Nat.shiftRight_eq_div_pow n 8]

end Bytes

/-! ### Tapes

A tape has no size. Operations on it are never refused, and nothing has to be covered before it is
read or written, so each of them is said in one line.
-/

namespace Machine.Memory

/-- An infinite array of bytes. -/
abbrev Tape := Nat → UInt8

namespace Tape

/-- The tape that holds nothing but zeros. -/
def zeros : Tape :=
  fun _ => 0

/-- The tape with `count` other bytes from an offset on. -/
def write (t : Tape) (offset count : Nat) (bytes : Nat → UInt8) : Tape :=
  fun i => if offset ≤ i ∧ i < offset + count then bytes (i - offset) else t i

/-- The `count` bytes from an offset on. -/
def slice (t : Tape) (offset count : Nat) : ByteArray :=
  ⟨Array.ofFn fun i : Fin count => t (offset + i)⟩

/-- The number that 32 bytes from an offset stand for, the first byte weighing most. -/
def word (t : Tape) (offset : Nat) : Word :=
  Word.ofNat (natOfBytes ((List.range 32).map fun i => t (offset + i)))

theorem size_slice (t : Tape) (offset count : Nat) : (t.slice offset count).size = count :=
  Array.size_ofFn

theorem byteAt_slice (t : Tape) (offset : Nat) {count i : Nat} (h : i < count) :
    Bytes.byteAt (t.slice offset count) i = t (offset + i) := by
  rw [Bytes.byteAt_eq_getD, slice, Array.getElem?_ofFn, dif_pos h]
  rfl

/-- Reading a number byte by byte gives what the list of its bytes stands for. -/
theorem readNat_eq (a : ByteArray) (offset count : Nat) :
    Bytes.readNat a offset count =
      natOfBytes ((List.range count).map fun i => Bytes.byteAt a (offset + i)) := by
  induction count with
  | zero => rfl
  | succ count ih =>
      rw [Bytes.readNat, ih, List.range_succ, List.map_append]
      simp only [natOfBytes, List.foldl_append, List.map_cons, List.map_nil, List.foldl_cons,
        List.foldl_nil]

/-- The first bytes of a word stand for what is left of it after shifting the others out. -/
theorem natOfBytes_bigEndian (w : Word) {count : Nat} (h : count ≤ 32) :
    natOfBytes ((List.range count).map w.bigEndian) = w.toNat >>> (8 * (32 - count)) := by
  induction count with
  | zero =>
      have hzero : w.toNat >>> 256 = 0 := by
        rw [Nat.shiftRight_eq_div_pow]
        exact Nat.div_eq_of_lt w.isLt
      exact hzero.symm
  | succ count ih =>
      have hshift : 8 * (32 - count) = 8 * (31 - count) + 8 := by omega
      have hrest : 32 - (count + 1) = 31 - count := by omega
      rw [hrest, List.range_succ, List.map_append]
      simp only [natOfBytes, List.foldl_append, List.map_cons, List.map_nil, List.foldl_cons,
        List.foldl_nil] at ih ⊢
      rw [ih (by omega), hshift, Nat.shiftRight_add, Nat.shiftRight_eq_div_pow _ 8,
        Word.bigEndian, UInt8.toNat_ofNat']
      exact Nat.div_add_mod _ 256

/-- What was written as a word is read as that word. -/
theorem word_write (t : Tape) (offset : Nat) (w : Word) :
    (t.write offset 32 w.bigEndian).word offset = w := by
  have hbytes : ((List.range 32).map fun i => t.write offset 32 w.bigEndian (offset + i)) =
      (List.range 32).map w.bigEndian := by
    apply List.map_congr_left
    intro i hi
    have hlt := List.mem_range.mp hi
    rw [write, if_pos ⟨Nat.le_add_right .., Nat.add_lt_add_left hlt offset⟩,
      Nat.add_sub_cancel_left]
  rw [word, hbytes, natOfBytes_bigEndian w (Nat.le_refl 32)]
  exact BitVec.ofNat_toNat ..

end Tape

/-! ### Operations on memory and on tapes -/

/-- A way to use memory. -/
inductive Access where
  | expand (offset count : Nat)
  | load (offset : Nat)
  | store (offset : Nat) (w : Word)
  | store8 (offset : Nat) (b : UInt8)
  | loadSlice (offset count : Nat)
  | storeSlice (offset : Nat) (bytes : ByteArray)
  | copy (dest source count : Nat)

/-- What an operation that succeeds replies. -/
inductive Reply where
  | done
  | word (w : Word)
  | bytes (bytes : ByteArray)

namespace Access

/-- What an operation replies, and the memory that it leaves behind. -/
def perform (m : Memory) : Access → Except Fault Reply × Memory
  | .expand offset count => (m.expand offset count).map (.map fun _ => .done) id
  | .load offset => (m.load offset).map (.map .word) id
  | .store offset w => (m.store offset w).map (.map fun _ => .done) id
  | .store8 offset b => (m.store8 offset b).map (.map fun _ => .done) id
  | .loadSlice offset count => (m.loadSlice offset count).map (.map .bytes) id
  | .storeSlice offset bytes => (m.storeSlice offset bytes).map (.map fun _ => .done) id
  | .copy dest source count => (m.copy dest source count).map (.map fun _ => .done) id

/-- The number of bytes in the range that is used. -/
def count : Access → Nat
  | .expand _ count | .loadSlice _ count | .copy _ _ count => count
  | .load _ | .store _ _ => 32
  | .store8 _ _ => 1
  | .storeSlice _ bytes => bytes.size

/-- Where the range that is used ends. A copy uses two ranges, of which the later end counts. -/
def reach : Access → Nat
  | .expand offset count | .loadSlice offset count => offset + count
  | .load offset | .store offset _ => offset + 32
  | .store8 offset _ => offset + 1
  | .storeSlice offset bytes => offset + bytes.size
  | .copy dest source count => max (dest + count) (source + count)

/-- What a tape replies. -/
def reply (t : Tape) : Access → Reply
  | .load offset => .word (t.word offset)
  | .loadSlice offset count => .bytes (t.slice offset count)
  | _ => .done

/-- What a tape holds afterwards. A copy takes all bytes as they were before. -/
def written (t : Tape) : Access → Tape
  | .store offset w => t.write offset 32 w.bigEndian
  | .store8 offset b => t.write offset 1 fun _ => b
  | .storeSlice offset bytes => t.write offset bytes.size (Bytes.byteAt bytes)
  | .copy dest source count => t.write dest count fun i => t (source + i)
  | .expand _ _ | .load _ | .loadSlice _ _ => t

/-- A range that is not empty and ends beyond 32 mebibytes is refused. -/
def Refused (a : Access) : Prop :=
  a.count ≠ 0 ∧ 32 * 1024 * 1024 < a.reach

instance (a : Access) : Decidable a.Refused :=
  inferInstanceAs (Decidable (_ ∧ _))

/-- Carries out an operation on a tape. -/
def performOn (a : Access) (t : Tape) : Except Fault Reply × Tape :=
  if a.Refused then (.error .invalidMemoryAccess, t) else (.ok (a.reply t), a.written t)

end Access

/-! ### One operation

Covering a range appends zeros at most, which a tape holds there anyway. What is read from the range
is therefore what the tape holds, and what is written there is written to the tape.
-/

theorem byteAt_cover (m : Memory) (offset count : Nat) :
    (m.cover offset count).byteAt = m.byteAt := by
  funext i
  unfold cover extendTo
  split
  · rfl
  · split
    · exact Bytes.byteAt_pushZeros ..
    · rfl

/-- Writing into a range that memory covers does to its bytes what writing does to a tape. -/
theorem byteAt_write {m : Memory} {offset count : Nat} {bytes : ByteArray}
    (hsize : bytes.size = count) (h : offset + count ≤ m.size) :
    (m.write offset bytes).byteAt = Tape.write m.byteAt offset count (Bytes.byteAt bytes) := by
  subst hsize
  funext i
  exact Bytes.byteAt_overwrite h i

/-- Of what is written only the bytes inside the range count. -/
theorem Tape.write_congr {t : Tape} {offset count : Nat} {bytes bytes' : Nat → UInt8}
    (h : ∀ i, i < count → bytes i = bytes' i) :
    t.write offset count bytes = t.write offset count bytes' := by
  funext i
  unfold write
  split
  · rename_i hin
    exact h _ (by omega)
  · rfl

theorem Tape.write_zero (t : Tape) (offset : Nat) (bytes : Nat → UInt8) :
    t.write offset 0 bytes = t := by
  funext i
  rw [write, if_neg (by omega)]

/-- Writing into a range after another one that ends no earlier has been covered. -/
theorem byteAt_write_cover (m : Memory) {offset start count : Nat} {bytes : ByteArray}
    (hcount : count ≠ 0) (hstart : start ≤ offset) (hsize : bytes.size = count) :
    ((m.cover offset count).write start bytes).byteAt =
      Tape.write m.byteAt start count (Bytes.byteAt bytes) := by
  have hend := end_le_size_cover m offset hcount
  rw [byteAt_write hsize (by omega), byteAt_cover]

/-- What is taken from inside memory that covers it is what a tape holds there. -/
theorem extract_cover (m : Memory) {offset start count : Nat} (hcount : count ≠ 0)
    (hstart : start ≤ offset) :
    (m.cover offset count).bytes.extract start (start + count) =
      Tape.slice m.byteAt start count := by
  have hend := end_le_size_cover m offset hcount
  have hsize : ((m.cover offset count).bytes.extract start (start + count)).size = count := by
    rw [ByteArray.size_extract]
    unfold size at hend
    omega
  apply Bytes.ext_byteAt
  · rw [hsize, Tape.size_slice]
  · intro i hi
    rw [hsize] at hi
    rw [Bytes.byteAt_extract, if_pos (by omega), Tape.byteAt_slice _ _ hi]
    exact congrFun (byteAt_cover m offset count) (start + i)

/-- The word of 32 bytes of a tape is the number that they stand for. -/
theorem toWord_slice (t : Tape) (offset : Nat) :
    Bytes.toWord (t.slice offset 32) = t.word offset := by
  have hbytes : ((List.range 32).map fun i => Bytes.byteAt (t.slice offset 32) (0 + i)) =
      (List.range 32).map fun i => t (offset + i) := by
    apply List.map_congr_left
    intro i hi
    rw [Nat.zero_add, Tape.byteAt_slice t offset (List.mem_range.mp hi)]
  rw [Bytes.toWord, Bytes.readLong_eq, Tape.size_slice, Tape.readNat_eq, hbytes]
  rfl

section Admitted

variable {m : Memory}

theorem load_of_admits {offset : Nat} (h : admits offset 32 = true) :
    m.load offset = (.ok (Tape.word m.byteAt offset), m.cover offset 32) := by
  rw [load, expanding_of_admits h, extract_cover m (by decide) (Nat.le_refl _), toWord_slice]

theorem loadSlice_of_admits {offset count : Nat} (h : admits offset count = true) :
    m.loadSlice offset count = (.ok (Tape.slice m.byteAt offset count), m.cover offset count) := by
  unfold loadSlice
  split
  · rename_i hcount
    have hempty : Tape.slice m.byteAt offset count = ByteArray.empty := by
      rw [← ByteArray.size_eq_zero_iff, Tape.size_slice, hcount]
    rw [hempty, hcount, cover_zero]
  · rename_i hcount
    rw [expanding_of_admits h, extract_cover m hcount (Nat.le_refl _)]

theorem storeSlice_of_admits {offset : Nat} {bytes : ByteArray}
    (h : admits offset bytes.size = true) :
    m.storeSlice offset bytes =
      (.ok (), if bytes.size = 0 then m else (m.cover offset bytes.size).write offset bytes) := by
  unfold storeSlice
  split
  · rfl
  · rw [expanding_of_admits h]

theorem copy_of_admits {dest source count : Nat} (h : admits (max dest source) count = true) :
    m.copy dest source count =
      (.ok (), if count = 0 then m
        else (m.cover (max dest source) count).write dest (Tape.slice m.byteAt source count)) := by
  unfold copy
  split
  · rfl
  · rename_i hcount
    rw [expanding_of_admits h, extract_cover m hcount (Nat.le_max_right ..)]

/-- Replacing a range by some bytes, if there are any. -/
theorem byteAt_write_unless (m : Memory) {offset place : Nat} (hplace : place ≤ offset)
    (bytes : ByteArray) :
    (if bytes.size = 0 then m else (m.cover offset bytes.size).write place bytes).byteAt =
      Tape.write m.byteAt place bytes.size (Bytes.byteAt bytes) := by
  by_cases hcount : bytes.size = 0
  · rw [if_pos hcount, hcount, Tape.write_zero]
  · rw [if_neg hcount, byteAt_write_cover m hcount hplace rfl]

end Admitted

namespace Access

/-- Where the range that is covered starts. -/
def start : Access → Nat
  | .expand offset _ | .loadSlice offset _ => offset
  | .load offset | .store offset _ | .store8 offset _ | .storeSlice offset _ => offset
  | .copy dest source _ => max dest source

theorem reach_eq (a : Access) : a.reach = a.start + a.count := by
  cases a with
  | copy dest source count => exact Nat.add_max_add_right ..
  | _ => rfl

theorem admits_iff {a : Access} : admits a.start a.count = true ↔ ¬ a.Refused := by
  unfold Refused
  rw [Memory.admits_iff, reach_eq, capacity]
  omega

theorem guarded_map {α β : Type} {m : Memory} {offset count : Nat} {r : Except Fault α × Memory}
    (h : m.Guarded offset count r) (f : α → β) :
    m.Guarded offset count (r.map (Except.map f) id) := by
  cases h with
  | refused beyond => exact .refused beyond
  | done covers => exact .done covers

/-- All operations are guarded in the same way. -/
theorem guarded (a : Access) (m : Memory) : m.Guarded a.start a.count (a.perform m) := by
  cases a with
  | expand offset count => exact guarded_map (expand_guarded ..) _
  | load offset => exact guarded_map (load_guarded ..) _
  | store offset w => exact guarded_map (store_guarded ..) _
  | store8 offset b => exact guarded_map (store8_guarded ..) _
  | loadSlice offset count => exact guarded_map (loadSlice_guarded ..) _
  | storeSlice offset bytes => exact guarded_map (storeSlice_guarded ..) _
  | copy dest source count => exact guarded_map (copy_guarded ..) _

theorem perform_of_refused {a : Access} (h : a.Refused) (m : Memory) :
    a.perform m = (.error .invalidMemoryAccess, m) := by
  have hguarded := a.guarded m
  generalize a.perform m = r at hguarded
  cases hguarded with
  | refused beyond => rfl
  | done covers => exact absurd h (admits_iff.mp covers.admitted)

/-- What an operation that is not refused does is what it does to a tape. An empty range is left
alone. -/
theorem perform_of_not_refused {a : Access} (h : ¬ a.Refused) (m : Memory) :
    ∃ m', a.perform m = (.ok (a.reply m.byteAt), m') ∧ m'.byteAt = a.written m.byteAt ∧
      (a.count = 0 → m' = m) := by
  cases a with
  | expand offset count =>
      have hadmits : admits offset count = true := admits_iff.mpr h
      refine ⟨m.cover offset count, ?_, byteAt_cover m offset count, fun hcount => if_pos hcount⟩
      rw [perform, expand_eq, if_pos hadmits]
      rfl
  | load offset =>
      have hadmits : admits offset 32 = true := admits_iff.mpr h
      refine ⟨m.cover offset 32, ?_, byteAt_cover m offset 32, nofun⟩
      rw [perform, load_of_admits hadmits]
      rfl
  | store offset w =>
      have hadmits : admits offset 32 = true := admits_iff.mpr h
      refine ⟨_, congrArg (Prod.map _ id) (expanding_of_admits hadmits), ?_, nofun⟩
      rw [Bytes.ofLong_eq, id, written,
        byteAt_write_cover m (by decide) (Nat.le_refl _) (Bytes.size_ofNat 32 w.toNat)]
      exact Tape.write_congr fun i hi => Bytes.byteAt_ofNat w.toNat hi
  | store8 offset b =>
      have hadmits : admits offset 1 = true := admits_iff.mpr h
      refine ⟨_, congrArg (Prod.map _ id) (expanding_of_admits hadmits), ?_, nofun⟩
      have hend : offset + 1 ≤ (m.cover offset 1).size := end_le_size_cover m offset (by decide)
      funext i
      have hrange : (offset ≤ i ∧ i < offset + 1) = (i = offset) := propext (by omega)
      calc
        _ = if i = offset then b else (m.cover offset 1).byteAt i := Bytes.byteAt_set! hend b i
        _ = if i = offset then b else m.byteAt i := by rw [byteAt_cover]
        _ = written m.byteAt (.store8 offset b) i := by simp only [written, Tape.write, hrange]
  | loadSlice offset count =>
      have hadmits : admits offset count = true := admits_iff.mpr h
      refine ⟨m.cover offset count, ?_, byteAt_cover m offset count, fun hcount => if_pos hcount⟩
      rw [perform, loadSlice_of_admits hadmits]
      rfl
  | storeSlice offset bytes =>
      have hadmits : admits offset bytes.size = true := admits_iff.mpr h
      refine ⟨_, congrArg (Prod.map _ id) (storeSlice_of_admits hadmits), ?_,
        fun hcount => if_pos hcount⟩
      exact byteAt_write_unless m (Nat.le_refl _) bytes
  | copy dest source count =>
      have hadmits : admits (max dest source) count = true := admits_iff.mpr h
      refine ⟨_, congrArg (Prod.map _ id) (copy_of_admits hadmits), ?_,
        fun hcount => if_pos hcount⟩
      have hsize : (Tape.slice m.byteAt source count).size = count := Tape.size_slice ..
      have hwritten := byteAt_write_unless m (Nat.le_max_left dest source)
        (Tape.slice m.byteAt source count)
      rw [hsize] at hwritten
      exact hwritten.trans (Tape.write_congr fun i hi => Tape.byteAt_slice _ _ hi)

/-- An operation does to memory what it does to a tape with the same bytes. -/
theorem perform_performOn (a : Access) (m : Memory) :
    (a.perform m).1 = (a.performOn m.byteAt).1 ∧
      (a.perform m).2.byteAt = (a.performOn m.byteAt).2 := by
  unfold performOn
  by_cases h : a.Refused
  · rw [if_pos h, perform_of_refused h]
    exact ⟨rfl, rfl⟩
  · obtain ⟨m', hperform, hbytes, -⟩ := perform_of_not_refused h m
    rw [if_neg h, hperform]
    exact ⟨rfl, hbytes⟩

end Access

/-! ### Many operations -/

/-- The replies to operations that are carried out one after another, and memory after them. -/
def performAll : List Access → Memory → List (Except Fault Reply) × Memory
  | [], m => ([], m)
  | a :: rest, m =>
    ((a.perform m).1 :: (performAll rest (a.perform m).2).1, (performAll rest (a.perform m).2).2)

/-- The replies to operations that are carried out on a tape one after another, and the tape after
them. -/
def performAllOn : List Access → Tape → List (Except Fault Reply) × Tape
  | [], t => ([], t)
  | a :: rest, t =>
    ((a.performOn t).1 :: (performAllOn rest (a.performOn t).2).1,
      (performAllOn rest (a.performOn t).2).2)

/-- Operations on memory and on a tape with the same bytes get the same replies and lead to the same
bytes. -/
theorem performAll_performAllOn (accesses : List Access) (m : Memory) :
    (performAll accesses m).1 = (performAllOn accesses m.byteAt).1 ∧
      (performAll accesses m).2.byteAt = (performAllOn accesses m.byteAt).2 := by
  induction accesses generalizing m with
  | nil => exact ⟨rfl, rfl⟩
  | cons a rest ih =>
      obtain ⟨hreply, hbytes⟩ := a.perform_performOn m
      obtain ⟨hreplies, hlast⟩ := ih (a.perform m).2
      rw [hbytes] at hreplies hlast
      rw [performAll, performAllOn]
      exact ⟨by rw [hreply, hreplies], hlast⟩

/-- What an operation does to memory. -/
structure Access.Orderly (a : Access) (m : Memory) : Prop where
  /-- It replies what a tape with the same bytes replies. -/
  reply : (a.perform m).1 = (a.performOn m.byteAt).1
  /-- It leaves the bytes that it leaves on a tape. -/
  bytes : (a.perform m).2.byteAt = (a.performOn m.byteAt).2
  /-- It fails exactly if its range is not empty and ends beyond 32 mebibytes. -/
  fails_iff : (∃ fault, (a.perform m).1 = .error fault) ↔
    a.count ≠ 0 ∧ 32 * 1024 * 1024 < a.reach
  /-- A failure leaves memory as it was, its size included. -/
  failed : ∀ fault, (a.perform m).1 = .error fault → (a.perform m).2 = m
  /-- With an empty range it succeeds and leaves memory as it was. -/
  empty : a.count = 0 → ∃ reply, a.perform m = (.ok reply, m)

theorem Access.orderly (a : Access) (m : Memory) : a.Orderly m := by
  obtain ⟨hreply, hbytes⟩ := a.perform_performOn m
  by_cases h : a.Refused
  · have hperform := perform_of_refused h m
    refine ⟨hreply, hbytes, ⟨fun _ => h, fun _ => ⟨_, by rw [hperform]⟩⟩, ?_, ?_⟩
    · intro _ _
      rw [hperform]
    · intro hcount
      exact absurd hcount h.1
  · obtain ⟨m', hperform, -, hempty⟩ := perform_of_not_refused h m
    have hok : ∀ fault, (a.perform m).1 ≠ .error fault := by
      intro fault
      rw [hperform]
      exact nofun
    refine ⟨hreply, hbytes, ⟨?_, fun hrefused => absurd hrefused h⟩, ?_, ?_⟩
    · rintro ⟨fault, hfault⟩
      exact absurd hfault (hok fault)
    · intro fault hfault
      exact absurd hfault (hok fault)
    · intro hcount
      rw [hperform, hempty hcount]
      exact ⟨_, rfl⟩

/-- A word that was stored is what is loaded from its place. -/
theorem load_of_store {m m' : Memory} {offset : Nat} {w : Word} {reply : Reply}
    (h : (Access.store offset w).perform m = (.ok reply, m')) :
    ((Access.load offset).perform m').1 = .ok (.word w) := by
  have hstored : ¬ (Access.store offset w).Refused := by
    intro hrefused
    rw [Access.perform_of_refused hrefused] at h
    cases h
  have hbytes : m'.byteAt = Tape.write m.byteAt offset 32 w.bigEndian := by
    have hstore := (Access.perform_performOn (.store offset w) m).2
    rw [h, Access.performOn, if_neg hstored] at hstore
    exact hstore
  -- Loading uses the range that storing used.
  have hloaded : ¬ (Access.load offset).Refused := hstored
  rw [(Access.perform_performOn (.load offset) m').1, Access.performOn, if_neg hloaded, hbytes]
  exact congrArg (fun w => Except.ok (Reply.word w)) (Tape.word_write m.byteAt offset w)

/-- **Memory cannot be told from an infinite array of bytes that holds zeros at first.** Whatever
operations are carried out from the start, the replies are those of the array, and memory holds what
the array holds. Wherever they lead, the next operation does what it does to the array, fails only
for want of capacity, and changes nothing if it fails or if its range is empty; and a word that is
stored is what is loaded from its place. -/
theorem performAll_refines_zeros (accesses : List Access) :
    (performAll accesses .empty).1 = (performAllOn accesses .zeros).1 ∧
      (performAll accesses .empty).2.byteAt = (performAllOn accesses .zeros).2 ∧
      (∀ a : Access, a.Orderly (performAll accesses .empty).2) ∧
      ∀ offset w reply m,
        (Access.store offset w).perform (performAll accesses .empty).2 = (.ok reply, m) →
          ((Access.load offset).perform m).1 = .ok (.word w) := by
  have hzeros : Memory.byteAt .empty = Tape.zeros := by
    funext i
    exact Bytes.byteAt_of_size_le (Nat.zero_le i)
  have hruns := performAll_performAllOn accesses .empty
  rw [hzeros] at hruns
  exact ⟨hruns.1, hruns.2, fun a => a.orderly _, fun _ _ _ _ => load_of_store⟩

/-- Bytes that are copied onto themselves, one place further on, are taken as they were before. A
word that is then stored behind everything else is loaded again. -/
theorem performAll_refines_zeros_overlapping :
    let accesses : List Access := [.storeSlice 0 ⟨#[1, 2, 3, 4]⟩, .copy 1 0 4, .loadSlice 0 6]
    (performAll accesses .empty).1 =
        [.ok .done, .ok .done, .ok (.bytes ⟨#[1, 1, 2, 3, 4, 0]⟩)] ∧
      ∃ reply m, (Access.store 40 7).perform (performAll accesses .empty).2 = (.ok reply, m) ∧
        ((Access.load 40).perform m).1 = .ok (.word 7) := by
  intro accesses
  obtain ⟨hreplies, -, -, hload⟩ := performAll_refines_zeros accesses
  exact ⟨hreplies.trans rfl, .done, _, rfl, hload 40 7 .done _ rfl⟩

end Machine.Memory

end LocalNode
