import LocalNode.Bytes
import LocalNode.Codec.Bytes

/-!
The Keccak hash of 256 bits.

The state is five rows of five lanes. A round mixes the columns, rotates every lane and moves it to
its new place, combines each lane with the next two of its row, and adds a round constant to the
first lane. A message is padded to whole blocks of 136 bytes, which are absorbed one after another,
and the digest is the first 32 bytes of the final state. Lanes hold their first byte in the lowest
place.
-/

namespace LocalNode.Keccak

/-- Five lanes. -/
structure Row where
  l0 : UInt64
  l1 : UInt64
  l2 : UInt64
  l3 : UInt64
  l4 : UInt64

/-- Five rows. -/
structure State where
  r0 : Row
  r1 : Row
  r2 : Row
  r3 : Row
  r4 : Row

/-- The row of zeros. -/
def Row.zero : Row := ⟨0, 0, 0, 0, 0⟩

/-- The state of zeros. -/
def State.zero : State := ⟨.zero, .zero, .zero, .zero, .zero⟩

/-- The lane-wise exclusive or of two rows. -/
@[inline]
def Row.xor (a b : Row) : Row :=
  ⟨a.l0 ^^^ b.l0, a.l1 ^^^ b.l1, a.l2 ^^^ b.l2, a.l3 ^^^ b.l3, a.l4 ^^^ b.l4⟩

/-- Rotates a lane to the left by an amount between 1 and 63. -/
@[inline]
def rotate (lane amount : UInt64) : UInt64 :=
  (lane <<< amount) ||| (lane >>> (64 - amount))

/-- Adds to every lane the parities of the column before it and of the column after it, the latter
rotated by one. -/
@[inline]
def State.mixColumns (s : State) : State :=
  let c := (((s.r0.xor s.r1).xor s.r2).xor s.r3).xor s.r4
  let d : Row :=
    ⟨c.l4 ^^^ rotate c.l1 1, c.l0 ^^^ rotate c.l2 1, c.l1 ^^^ rotate c.l3 1,
      c.l2 ^^^ rotate c.l4 1, c.l3 ^^^ rotate c.l0 1⟩
  ⟨s.r0.xor d, s.r1.xor d, s.r2.xor d, s.r3.xor d, s.r4.xor d⟩

/-- Rotates every lane by its own amount and moves it to its new place. -/
@[inline]
def State.moveLanes (s : State) : State :=
  ⟨⟨s.r0.l0, rotate s.r1.l1 44, rotate s.r2.l2 43, rotate s.r3.l3 21, rotate s.r4.l4 14⟩,
    ⟨rotate s.r0.l3 28, rotate s.r1.l4 20, rotate s.r2.l0 3, rotate s.r3.l1 45,
      rotate s.r4.l2 61⟩,
    ⟨rotate s.r0.l1 1, rotate s.r1.l2 6, rotate s.r2.l3 25, rotate s.r3.l4 8, rotate s.r4.l0 18⟩,
    ⟨rotate s.r0.l4 27, rotate s.r1.l0 36, rotate s.r2.l1 10, rotate s.r3.l2 15,
      rotate s.r4.l3 56⟩,
    ⟨rotate s.r0.l2 62, rotate s.r1.l3 55, rotate s.r2.l4 39, rotate s.r3.l0 41,
      rotate s.r4.l1 2⟩⟩

/-- Combines each lane of a row with the next two. -/
@[inline]
def Row.combine (r : Row) : Row :=
  ⟨r.l0 ^^^ (~~~r.l1 &&& r.l2), r.l1 ^^^ (~~~r.l2 &&& r.l3), r.l2 ^^^ (~~~r.l3 &&& r.l4),
    r.l3 ^^^ (~~~r.l4 &&& r.l0), r.l4 ^^^ (~~~r.l0 &&& r.l1)⟩

/-- One round with its constant. -/
def State.round (s : State) (constant : UInt64) : State :=
  let s := s.mixColumns.moveLanes
  let first := s.r0.combine
  ⟨⟨first.l0 ^^^ constant, first.l1, first.l2, first.l3, first.l4⟩,
    s.r1.combine, s.r2.combine, s.r3.combine, s.r4.combine⟩

/-- The constants of the 24 rounds. -/
def roundConstants : List UInt64 :=
  [0x0000000000000001, 0x0000000000008082, 0x800000000000808a, 0x8000000080008000,
    0x000000000000808b, 0x0000000080000001, 0x8000000080008081, 0x8000000000008009,
    0x000000000000008a, 0x0000000000000088, 0x0000000080008009, 0x000000008000000a,
    0x000000008000808b, 0x800000000000008b, 0x8000000000008089, 0x8000000000008003,
    0x8000000000008002, 0x8000000000000080, 0x000000000000800a, 0x800000008000000a,
    0x8000000080008081, 0x8000000000008080, 0x0000000080000001, 0x8000000080008008]

/-- All rounds. -/
def State.permute (s : State) : State :=
  roundConstants.foldl State.round s

/-- The number of bytes absorbed at a time. -/
def blockSize : Nat := 136

/-- The lane of eight bytes from an offset. -/
def laneAt (message : ByteArray) (offset : Nat) : UInt64 :=
  let byte := fun i : Nat => (Bytes.byteAt message (offset + i)).toUInt64
  byte 0 ||| byte 1 <<< 8 ||| byte 2 <<< 16 ||| byte 3 <<< 24 |||
    byte 4 <<< 32 ||| byte 5 <<< 40 ||| byte 6 <<< 48 ||| byte 7 <<< 56

/-- The row of the lanes from an offset. -/
def rowAt (message : ByteArray) (offset : Nat) : Row :=
  ⟨laneAt message offset, laneAt message (offset + 8), laneAt message (offset + 16),
    laneAt message (offset + 24), laneAt message (offset + 32)⟩

/-- Absorbs the block that starts at an offset. -/
def State.absorb (s : State) (message : ByteArray) (offset : Nat) : State :=
  let last : Row := ⟨laneAt message (offset + 120), laneAt message (offset + 128), 0, 0, 0⟩
  State.permute
    ⟨s.r0.xor (rowAt message offset), s.r1.xor (rowAt message (offset + 40)),
      s.r2.xor (rowAt message (offset + 80)), s.r3.xor last, s.r4⟩

/-- Absorbs the given number of blocks from an offset on. -/
def State.absorbFrom (message : ByteArray) : (blocks offset : Nat) → State → State
  | 0, _, s => s
  | blocks + 1, offset, s =>
    absorbFrom message blocks (offset + blockSize) (s.absorb message offset)

/-- The message filled up to whole blocks: a one, zeros, and the top bit of the last byte. -/
def pad (message : ByteArray) : ByteArray :=
  let missing := blockSize - message.size % blockSize
  if missing = 1 then message.push 0x81
  else (Bytes.pushZeros (missing - 2) (message.push 0x01)).push 0x80

/-- The eight bytes of a lane, the lowest first. -/
def laneBytes (lane : UInt64) : List UInt8 :=
  [lane.toUInt8, (lane >>> 8).toUInt8, (lane >>> 16).toUInt8, (lane >>> 24).toUInt8,
    (lane >>> 32).toUInt8, (lane >>> 40).toUInt8, (lane >>> 48).toUInt8, (lane >>> 56).toUInt8]

/-- The first 32 bytes of a state. -/
def State.digest (s : State) : Hash :=
  ⟨laneBytes s.r0.l0 ++ laneBytes s.r0.l1 ++ laneBytes s.r0.l2 ++ laneBytes s.r0.l3, rfl⟩

/-- The hash of a message. -/
def hash (message : ByteArray) : Hash :=
  let padded := pad message
  (State.absorbFrom padded (padded.size / blockSize) 0 .zero).digest

end LocalNode.Keccak
