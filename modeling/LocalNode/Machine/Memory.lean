import LocalNode.Bytes
import LocalNode.Machine.Fault

/-!
Byte memory that grows on demand, in units of 32 bytes, up to a fixed capacity.

An operation gives a value or a fault, and the memory it leaves behind. It first touches a range,
which makes memory cover it with zeros where nothing was written yet, and then reads or writes
inside the range. An empty range touches nothing, whatever its offset. A range that ends beyond the
capacity is refused, and so is one whose end is no number of 64 bits.
-/

namespace LocalNode.Machine

/-- The bytes that memory covers so far. -/
structure Memory where
  bytes : ByteArray

namespace Memory

/-- The most bytes that memory may cover: the twenty-fifth power of two. -/
def capacity : Nat := 33554432

/-- Memory that covers nothing yet. -/
def empty : Memory := ⟨ByteArray.empty⟩

/-- The number of bytes covered. -/
def size (m : Memory) : Nat :=
  m.bytes.size

/-- The byte at an offset, zero beyond what is covered. -/
def byteAt (m : Memory) (i : Nat) : UInt8 :=
  Bytes.byteAt m.bytes i

/-- The next multiple of 32. -/
def wordCeil (n : Nat) : Nat :=
  (n + 31) / 32 * 32

/-- Memory that covers at least so many bytes. It grows in whole units, if at all. -/
@[inline]
def extendTo (m : Memory) (stop : Nat) : Memory :=
  if m.size < stop then ⟨Bytes.pushZeros (wordCeil stop - m.size) m.bytes⟩ else m

/-- Memory with other bytes from an offset on, where the range is covered. -/
@[inline]
def write (m : Memory) (offset : Nat) (bytes : ByteArray) : Memory :=
  ⟨Bytes.overwrite m.bytes offset bytes⟩

/-- Touches a range. -/
@[inline]
def expand (m : Memory) (offset count : Nat) : Except Fault Unit × Memory :=
  if count = 0 then (.ok (), m)
  else
    match (Index.checkedAdd offset count).filter (· ≤ capacity) with
    | some stop => (.ok (), m.extendTo stop)
    | none => (.error .invalidMemoryAccess, m)

/-- Touches a range and goes on with the memory that covers it. -/
@[inline]
def expanding {α : Type} (m : Memory) (offset count : Nat) (k : Memory → Except Fault α × Memory) :
    Except Fault α × Memory :=
  match m.expand offset count with
  | (.ok (), m) => k m
  | (.error fault, m) => (.error fault, m)

/-- The word at an offset. -/
@[inline]
def load (m : Memory) (offset : Nat) : Except Fault Word × Memory :=
  m.expanding offset 32 fun m => (.ok (Bytes.toWord (m.bytes.extract offset (offset + 32))), m)

/-- Replaces the word at an offset. -/
@[inline]
def store (m : Memory) (offset : Nat) (w : Word) : Except Fault Unit × Memory :=
  m.expanding offset 32 fun m => (.ok (), m.write offset (Bytes.ofLong 32 w.toNat))

/-- Replaces the byte at an offset. -/
@[inline]
def store8 (m : Memory) (offset : Nat) (b : UInt8) : Except Fault Unit × Memory :=
  m.expanding offset 1 fun m => (.ok (), ⟨m.bytes.set! offset b⟩)

/-- The bytes of a range. -/
@[inline]
def loadSlice (m : Memory) (offset count : Nat) : Except Fault ByteArray × Memory :=
  if count = 0 then (.ok ByteArray.empty, m)
  else m.expanding offset count fun m => (.ok (m.bytes.extract offset (offset + count)), m)

/-- Replaces a range by the given bytes. -/
@[inline]
def storeSlice (m : Memory) (offset : Nat) (bytes : ByteArray) : Except Fault Unit × Memory :=
  if bytes.size = 0 then (.ok (), m)
  else m.expanding offset bytes.size fun m => (.ok (), m.write offset bytes)

/-- Replaces a range by a copy of another one, both taken as they were before. -/
@[inline]
def copy (m : Memory) (dest source count : Nat) : Except Fault Unit × Memory :=
  if count = 0 then (.ok (), m)
  else
    m.expanding (max dest source) count fun m =>
      (.ok (), m.write dest (m.bytes.extract source (source + count)))

/-- The range that two words tell. An empty one may be told by any offset, and is taken to be at the
start. -/
def range? (offset count : Word) : Option (Nat × Nat) :=
  if count = 0 then some (0, 0)
  else do
    let offset ← offset.toIndex?
    let count ← count.toIndex?
    return (offset, count)

end Memory

end LocalNode.Machine
