import LocalNode.Word

/-!
Reading and writing byte arrays.

What an array holds is said byte by byte, as if infinitely many zeros followed its last byte. Parts
of an array are taken with the bounds that it has, and where more bytes are asked for than it holds,
those that exist are copied into an array of zeros.

Numbers are read and written byte by byte, which says what they are, and seven bytes at a time,
which is what runs. Seven bytes fit a machine integer, so only the joints between groups need
arithmetic on large numbers. The two ways are equal, and later statements speak of single bytes.
-/

namespace LocalNode.Bytes

/-- The byte at an offset. -/
def byteAt (a : ByteArray) (i : Nat) : UInt8 :=
  if h : i < a.size then a[i] else 0

/-- The number that `count` bytes from an offset stand for, the first byte weighing most. -/
def readNat (a : ByteArray) (offset : Nat) : (count : Nat) → Nat
  | 0 => 0
  | count + 1 => 256 * readNat a offset count + (byteAt a (offset + count)).toNat

/-- The number that `head` bytes from an offset and then some groups of seven bytes stand for. -/
def readGroups (a : ByteArray) (offset head : Nat) : (groups : Nat) → Nat
  | 0 => readNat a offset head
  | groups + 1 =>
    72057594037927936 * readGroups a offset head groups +
      readNat a (offset + (head + 7 * groups)) 7

/-- The number that `count` bytes from an offset stand for, read in groups. -/
def readLong (a : ByteArray) (offset count : Nat) : Nat :=
  readGroups a offset (count % 7) (count / 7)

/-- Seven bytes more shift what was read before by seven bytes. -/
theorem readNat_add_seven (a : ByteArray) (offset count : Nat) :
    readNat a offset (count + 7) =
      72057594037927936 * readNat a offset count + readNat a (offset + count) 7 := by
  simp only [readNat, Nat.add_assoc, Nat.add_zero]
  omega

/-- Reading in groups reads the same bytes. -/
theorem readGroups_eq (a : ByteArray) (offset head groups : Nat) :
    readGroups a offset head groups = readNat a offset (head + 7 * groups) := by
  induction groups with
  | zero => rfl
  | succ groups ih =>
    have step := readNat_add_seven a offset (head + 7 * groups)
    rw [readGroups, ih, ← step, Nat.mul_succ, Nat.add_assoc]

/-- Reading in groups gives the number that the bytes stand for one by one. -/
@[simp]
theorem readLong_eq (a : ByteArray) (offset count : Nat) :
    readLong a offset count = readNat a offset count := by
  rw [readLong, readGroups_eq, Nat.mod_add_div]

/-- Appends zeros. -/
def pushZeros : (count : Nat) → ByteArray → ByteArray
  | 0, a => a
  | count + 1, a => pushZeros count (a.push 0)

/-- An array of zeros. -/
def zeros (count : Nat) : ByteArray :=
  pushZeros count ByteArray.empty

/-- Replaces the bytes from an offset by those of another array, where the range lies inside. -/
def overwrite (a : ByteArray) (offset : Nat) (source : ByteArray) : ByteArray :=
  source.copySlice 0 a offset source.size

/-- The `count` bytes of an array from an offset on. Those that the array has are copied over
zeros. -/
def padded (source : ByteArray) (offset : Word) (count : Nat) : ByteArray :=
  let out := zeros count
  match offset.below? source.size with
  | some start =>
    let stop := min (Index.saturatingAdd start count) source.size
    overwrite out 0 (source.extract start stop)
  | none => out

/-- Where a range of an array starts, if all of it lies inside. -/
def startWithin? (source : ByteArray) (offset count : Word) : Option Nat := do
  let start ← offset.toIndex?
  let length ← count.toIndex?
  let stop ← Index.checkedAdd start length
  if stop ≤ source.size then some start else none

/-- The word that the bytes of an array stand for. -/
def toWord (a : ByteArray) : Word :=
  Word.ofNat (readLong a 0 a.size)

/-- Appends the last `count` bytes of a number, the first byte weighing most. -/
def pushNat (a : ByteArray) : (count : Nat) → Nat → ByteArray
  | 0, _ => a
  | count + 1, n => (pushNat a count (n / 256)).push (UInt8.ofNat (n % 256))

/-- The last `count` bytes of a number, the first byte weighing most. -/
def ofNat (count n : Nat) : ByteArray :=
  pushNat ByteArray.empty count n

/-- The last bytes of a number: `head` bytes and then some groups of seven bytes. -/
def ofGroups (head : Nat) : (groups : Nat) → Nat → ByteArray
  | 0, n => ofNat head n
  | groups + 1, n =>
    pushNat (ofGroups head groups (n / 72057594037927936)) 7 (n % 72057594037927936)

/-- The last `count` bytes of a number, written in groups. -/
def ofLong (count n : Nat) : ByteArray :=
  ofGroups (count % 7) (count / 7) n

/-- The last seven bytes of a number depend on its last seven bytes only, and those before them on
the rest. -/
theorem pushNat_add_seven (a : ByteArray) (count n : Nat) :
    pushNat a (count + 7) n =
      pushNat (pushNat a count (n / 72057594037927936)) 7 (n % 72057594037927936) := by
  have digit (k : Nat) (h : k ∣ 281474976710656) :
      n % 72057594037927936 / k % 256 = n / k % 256 := by
    obtain ⟨m, hm⟩ := h
    have whole : 72057594037927936 = k * (m * 256) := by
      rw [← Nat.mul_assoc, ← hm]
    rw [whole, Nat.mod_mul_right_div_self, Nat.mod_mul_left_mod]
  simp only [pushNat, Nat.div_div_eq_div_mul, Nat.reduceMul]
  rw [digit 256 (by decide), digit 65536 (by decide), digit 16777216 (by decide),
    digit 4294967296 (by decide), digit 1099511627776 (by decide),
    digit 281474976710656 (by decide), Nat.mod_mod_of_dvd n (by decide)]

/-- Writing in groups writes the same bytes. -/
theorem ofGroups_eq (head groups n : Nat) :
    ofGroups head groups n = ofNat (head + 7 * groups) n := by
  induction groups generalizing n with
  | zero => rfl
  | succ groups ih =>
    rw [ofGroups, ih, ofNat, ofNat, ← pushNat_add_seven, Nat.mul_succ, Nat.add_assoc]

/-- Writing in groups gives the bytes that are written one by one. -/
@[simp]
theorem ofLong_eq (count n : Nat) : ofLong count n = ofNat count n := by
  rw [ofLong, ofGroups_eq, Nat.mod_add_div]

/-- The array of a list of bytes. -/
def ofList (bytes : List UInt8) : ByteArray :=
  bytes.foldl ByteArray.push ByteArray.empty

end LocalNode.Bytes
