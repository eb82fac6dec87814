/-!
The machine word, its big-endian byte form, and the numbers of 64 bits that offsets and lengths are.
-/

namespace LocalNode

/-- A word of 256 bits. -/
abbrev Word := BitVec 256

namespace Word

/-- A number reduced to a word. -/
def ofNat (n : Nat) : Word :=
  BitVec.ofNat 256 n

/-- The word of a truth value: one for true, zero for false. -/
def ofBool (b : Bool) : Word :=
  if b then 1 else 0

/-- The value of a word as an unsigned 64-bit number, if it fits. -/
def toUInt64? (w : Word) : Option UInt64 :=
  if w.toNat < UInt64.size then some (UInt64.ofNat w.toNat) else none

/-- The value of a word as an offset, a length or an amount, which must fit 64 bits. -/
def toIndex? (w : Word) : Option Nat :=
  w.toUInt64?.map UInt64.toNat

/-- The value of a word below a bound, if it is one. -/
def below? (bound : Nat) (w : Word) : Option Nat :=
  w.toIndex?.filter (· < bound)

/-- A number that fits 64 bits is not reduced. -/
theorem toNat_ofNat {n : Nat} (h : n < UInt64.size) : (ofNat n).toNat = n := by
  rw [ofNat, BitVec.toNat_ofNat]
  exact Nat.mod_eq_of_lt (Nat.lt_trans h (by decide))

theorem toUInt64?_ofNat {n : Nat} (h : n < UInt64.size) :
    (ofNat n).toUInt64? = some (UInt64.ofNat n) := by
  rw [toUInt64?, toNat_ofNat h, if_pos h]

theorem toIndex?_eq (w : Word) :
    w.toIndex? = if w.toNat < UInt64.size then some w.toNat else none := by
  unfold toIndex? toUInt64?
  split
  · rename_i hfits
    exact congrArg some (UInt64.toNat_ofNat_of_lt hfits)
  · rfl

/-- Words that do not fit 64 bits are beyond every bound that does. -/
theorem below?_eq {bound : Nat} (hbound : bound ≤ UInt64.size) (w : Word) :
    w.below? bound = if w.toNat < bound then some w.toNat else none := by
  rw [below?, toIndex?_eq]
  by_cases hfits : w.toNat < UInt64.size
  · rw [if_pos hfits, Option.filter_some]
    by_cases h : w.toNat < bound <;> simp [h]
  · have hbeyond : ¬ w.toNat < bound := fun h => hfits (Nat.lt_of_lt_of_le h hbound)
    rw [if_neg hfits, if_neg hbeyond, Option.filter_none]

end Word

namespace Index

/-- The sum of two offsets or lengths, if it fits 64 bits as well. -/
def checkedAdd (a b : Nat) : Option Nat :=
  if a + b < UInt64.size then some (a + b) else none

/-- The sum of two offsets or lengths, cut off at the largest number of 64 bits. -/
def saturatingAdd (a b : Nat) : Nat :=
  min (a + b) (UInt64.size - 1)

end Index

/-- The number that a byte string stands for, the first byte weighing most. -/
def natOfBytes (bytes : List UInt8) : Nat :=
  bytes.foldl (fun acc b => 256 * acc + b.toNat) 0

end LocalNode
