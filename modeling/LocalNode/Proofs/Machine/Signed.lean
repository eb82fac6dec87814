import LocalNode.Proofs.Machine.Operators

/-!
Operators on signed words.

A word stands for a signed number in two's complement: `BitVec.toInt` reads the lower half of all
words as they are and the upper half as the negative numbers. The main statement says what the
signed operators do to these numbers. Numbers outside the range wrap around, and `Int.bmod` is the
number in the range that is left of one. Among the signed operators only a quotient can leave the
range, and only in one case, that of the lowest number divided by minus one.

Shifting to the right rounds down, whatever the sign and however far the shift goes, and extending
the sign of a byte reads the bytes up to it as a signed number on their own.

The operators are not computed from signed numbers. A division divides magnitudes and puts the sign
back, an order looks at both signs first, a shift of a negative word shifts its complement, and a
sign is extended by a mask. That this comes to the same is shown first.
-/

namespace LocalNode

namespace Word

/-! ### Operators on bits

The machine computes the signed operators by unsigned ones, on magnitudes, complements and masks.
Each of them is shown to be a function on words whose signed value is known.
-/

theorem isNegative_eq_msb (w : Word) : isNegative w = w.msb := by
  rw [BitVec.msb_eq_getLsbD_last]
  rfl

theorem negate_eq_neg (w : Word) : negate w = -w :=
  (BitVec.neg_eq_not_add w).symm

theorem magnitude_eq (w : Word) : magnitude w = if w.msb then -w else w := by
  rw [magnitude, isNegative_eq_msb, negate_eq_neg]

/-- The four cases of the signs are those of the signed division. -/
theorem signedQuotient_eq_sdiv (a b : Word) : signedQuotient a b = a.sdiv b := by
  unfold signedQuotient
  split
  · rename_i hzero
    rw [hzero]
    exact BitVec.sdiv_zero.symm
  · simp only [isNegative_eq_msb, negate_eq_neg, magnitude_eq]
    rw [BitVec.sdiv_eq]
    cases a.msb <;> cases b.msb <;> rfl

theorem signedRemainder_eq_srem {a b : Word} (h : b ≠ 0) : signedRemainder a b = a.srem b := by
  rw [signedRemainder, if_neg h]
  simp only [isNegative_eq_msb, negate_eq_neg, magnitude_eq]
  rw [BitVec.srem_eq]
  cases a.msb <;> cases b.msb <;> rfl

/-- Words of one sign are ordered as they are, and of words of two signs the negative one is
less. -/
theorem signedLess_eq_slt (a b : Word) : signedLess a b = a.slt b := by
  rw [signedLess, isNegative_eq_msb, isNegative_eq_msb, BitVec.slt_eq_ult]
  by_cases hsign : a.msb = b.msb
  · rw [hsign]
    cases b.msb <;> simp
  · rw [BitVec.ult_eq_msb_of_msb_neq hsign]
    revert hsign
    cases a.msb <;> cases b.msb <;> simp

/-- Shifting the complement of a negative word fills up with ones, also beyond the width. -/
theorem arithmeticShiftRight_eq_sshiftRight (shift value : Word) :
    arithmeticShiftRight shift value = value.sshiftRight shift.toNat := by
  rw [arithmeticShiftRight, below?_eq (by decide), isNegative_eq_msb]
  by_cases hfits : shift.toNat < 256
  · rw [if_pos hfits]
    cases hsign : value.msb with
    | false => exact (BitVec.sshiftRight_eq_of_msb_false hsign).symm
    | true => exact (BitVec.sshiftRight_eq_of_msb_true hsign).symm
  · have hzero (w : Word) : w >>> shift.toNat = 0 :=
      BitVec.ushiftRight_eq_zero (Nat.le_of_not_lt hfits)
    rw [if_neg hfits]
    cases hsign : value.msb with
    | false =>
      rw [BitVec.sshiftRight_eq_of_msb_false hsign, hzero]
      rfl
    | true =>
      rw [BitVec.sshiftRight_eq_of_msb_true hsign, hzero]
      rfl

theorem getLsbD_lowBits (n : Nat) {i : Nat} (hi : i < 256) :
    (lowBits n).getLsbD i = decide (i < n) := by
  -- one less than a power of two is the complement of all bits from that power on
  have hnot : lowBits n = ~~~(BitVec.allOnes 256 <<< n) := by
    rw [← BitVec.neg_one_eq_allOnes, BitVec.shiftLeft_neg, BitVec.not_neg]
    rfl
  rw [hnot, BitVec.getLsbD_not, BitVec.getLsbD_shiftLeft, BitVec.getLsbD_allOnes]
  by_cases h : i < n
  · simp [hi, h]
  · have hless : i - n < 256 := by omega
    simp [hi, h, hless]

/-- Clearing or setting the bits above a place by a mask spreads the bit at that place over them. -/
theorem spread_eq_signExtend (value : Word) (bit : Nat) :
    (if value.getLsbD bit then value ||| ~~~lowBits (bit + 1) else value &&& lowBits (bit + 1)) =
      (value.setWidth (bit + 1)).signExtend 256 := by
  have hsign : (value.setWidth (bit + 1)).msb = value.getLsbD bit := by
    simp [BitVec.msb_setWidth]
  apply BitVec.eq_of_getLsbD_eq
  intro i hi
  rw [BitVec.getLsbD_signExtend, hsign, BitVec.getLsbD_setWidth]
  by_cases hlow : i < bit + 1 <;> cases value.getLsbD bit <;>
    simp [hi, hlow, getLsbD_lowBits, -BitVec.getLsbD_eq_getElem]

theorem signExtend_eq {k : Word} (value : Word) (h : k.toNat < 31) :
    signExtend k value = (value.setWidth (8 * (k.toNat + 1))).signExtend 256 := by
  have hplace : (k.setWidth 64).toNat = k.toNat := by
    rw [BitVec.toNat_setWidth]
    omega
  rw [signExtend, if_neg (Nat.not_le.mpr h), hplace]
  exact spread_eq_signExtend value (8 * k.toNat + 7)

/-! ### Division

There is one quotient outside the range of signed words, that of the smallest word by minus one. The
statements keep the reduction to the range, so they have no exception for it.
-/

theorem toInt_signedQuotient (a b : Word) :
    (signedQuotient a b).toInt = (a.toInt.tdiv b.toInt).bmod (2 ^ 256) := by
  rw [signedQuotient_eq_sdiv, BitVec.toInt_sdiv]

/-- A quotient is cut toward zero and wraps. -/
theorem signedQuotient_eq_ofInt (a b : Word) :
    signedQuotient a b = BitVec.ofInt 256 (a.toInt.tdiv b.toInt) := by
  apply BitVec.eq_of_toInt_eq
  rw [toInt_signedQuotient, BitVec.toInt_ofInt]

/-- A remainder has the sign of the dividend. -/
theorem toInt_signedRemainder {a b : Word} (h : b ≠ 0) :
    (signedRemainder a b).toInt = a.toInt.tmod b.toInt := by
  rw [signedRemainder_eq_srem h, BitVec.toInt_srem]

theorem signedRemainder_eq_ofInt {a b : Word} (h : b ≠ 0) :
    signedRemainder a b = BitVec.ofInt 256 (a.toInt.tmod b.toInt) := by
  rw [← toInt_signedRemainder h, BitVec.ofInt_toInt]

/-- Quotient and remainder make up the dividend, also where the quotient wraps. -/
theorem signedQuotient_mul_add_signedRemainder {a b : Word} (h : b ≠ 0) :
    signedQuotient a b * b + signedRemainder a b = a := by
  have hwhole : a.toInt.tdiv b.toInt * b.toInt + a.toInt.tmod b.toInt = a.toInt := by
    rw [Int.mul_comm, Int.mul_tdiv_add_tmod]
  calc signedQuotient a b * b + signedRemainder a b
      = BitVec.ofInt 256 (a.toInt.tdiv b.toInt) * BitVec.ofInt 256 b.toInt +
          BitVec.ofInt 256 (a.toInt.tmod b.toInt) := by
        rw [signedQuotient_eq_ofInt, signedRemainder_eq_ofInt h, BitVec.ofInt_toInt]
    _ = BitVec.ofInt 256 (a.toInt.tdiv b.toInt * b.toInt + a.toInt.tmod b.toInt) := by
        rw [BitVec.ofInt_add, BitVec.ofInt_mul]
    _ = a := by rw [hwhole, BitVec.ofInt_toInt]

/-! ### Order -/

theorem ofBool_signedLess (a b : Word) :
    ofBool (signedLess a b) = if a.toInt < b.toInt then 1 else 0 := by
  rw [signedLess_eq_slt]
  by_cases h : a.toInt < b.toInt
  · rw [if_pos h, BitVec.slt_iff_toInt_lt.mpr h]
    rfl
  · have hslt : a.slt b = false := by
      rw [← Bool.not_eq_true, BitVec.slt_iff_toInt_lt]
      exact h
    rw [if_neg h, hslt]
    rfl

/-! ### Shifts -/

/-- Shifting to the right divides by a power of two and rounds down. -/
theorem toInt_arithmeticShiftRight (shift value : Word) :
    (arithmeticShiftRight shift value).toInt = value.toInt.fdiv (2 ^ shift.toNat) := by
  have hpos : (0 : Int) < 2 ^ shift.toNat := Int.pow_pos (by decide)
  rw [Int.fdiv_eq_ediv_of_nonneg _ (Int.le_of_lt hpos), arithmeticShiftRight_eq_sshiftRight,
    BitVec.toInt_sshiftRight, Int.shiftRight_eq_div_pow, Int.natCast_pow]
  rfl

/-! ### Extending the sign of a byte

The low bits are read as a signed number of their own width. Extending that number to a whole word
does not change it, and so extending it twice does nothing more.
-/

/-- What the low bits of a word are after their sign was spread over the others. -/
theorem setWidth_signExtend {n : Nat} (x : BitVec n) (h : n ≤ 256) :
    (x.signExtend 256).setWidth n = x := by
  apply BitVec.eq_of_toInt_eq
  rw [← BitVec.signExtend_eq_setWidth_of_le _ h, BitVec.toInt_signExtend,
    BitVec.toInt_signExtend_of_le h, Nat.min_eq_left h, BitVec.toInt_bmod_cancel]

/-- The sign of a byte makes its word stand for what the bytes up to it stand for. -/
theorem toInt_signExtend {k : Word} (value : Word) (h : k.toNat < 31) :
    (signExtend k value).toInt = (value.toNat : Int).bmod (2 ^ (8 * (k.toNat + 1))) := by
  have hwidth : 8 * (k.toNat + 1) ≤ 256 := by omega
  rw [signExtend_eq value h, BitVec.toInt_signExtend_of_le hwidth, BitVec.toInt_setWidth]

/-- From the highest byte on there is nothing to extend. -/
theorem signExtend_of_le {k : Word} (value : Word) (h : 31 ≤ k.toNat) :
    signExtend k value = value := by
  rw [signExtend, if_pos h]

theorem signExtend_signExtend (k value : Word) :
    signExtend k (signExtend k value) = signExtend k value := by
  by_cases h : k.toNat < 31
  · have hwidth : 8 * (k.toNat + 1) ≤ 256 := by omega
    rw [signExtend_eq _ h, signExtend_eq value h, setWidth_signExtend _ hwidth]
  · rw [signExtend_of_le _ (Nat.le_of_not_lt h)]

end Word

namespace Machine

/-! ### Signed operators -/

/-- What is known of a signed quotient and a signed remainder. -/
structure SignedDivision (a b q r : Word) : Prop where
  by_zero : b = 0 → q = 0 ∧ r = 0
  /-- The quotient is cut toward zero, and wraps. -/
  quotient : b ≠ 0 → q.toInt = (a.toInt.tdiv b.toInt).bmod (2 ^ 256)
  /-- The one quotient that leaves the range. -/
  wraps : a.toInt = -2 ^ 255 → b.toInt = -1 → q.toInt = -2 ^ 255
  /-- The remainder has the sign of the dividend. -/
  remainder : b ≠ 0 → r.toInt = a.toInt.tmod b.toInt
  /-- Quotient and remainder make up the dividend, in arithmetic that wraps. -/
  whole : b ≠ 0 → a = q * b + r

/-- What is known of a word after the sign of one of its bytes was extended. -/
structure SignExtended (k value w : Word) : Prop where
  /-- From the highest byte on there is nothing to extend. -/
  high : 31 ≤ k.toNat → w = value
  /-- The bytes up to the one at position `k` are read as a signed number. -/
  low : k.toNat < 31 → w.toInt = (value.toNat : Int).bmod (2 ^ (8 * (k.toNat + 1)))

/-- What is known of the operators on signed words. -/
structure Signed (a b : Word) : Prop where
  division : ∃ q r, Yields 0x05 [a, b] q ∧ Yields 0x07 [a, b] r ∧ SignedDivision a b q r
  slt : Yields 0x12 [a, b] (if a.toInt < b.toInt then 1 else 0)
  sgt : Yields 0x13 [a, b] (if b.toInt < a.toInt then 1 else 0)
  /-- The second word is shifted by the first one, which divides it and rounds down. -/
  sar : ∃ w, Yields 0x1d [a, b] w ∧ w.toInt = b.toInt.fdiv (2 ^ a.toNat)
  /-- The sign of a byte of the second word is extended, and doing so again changes nothing. -/
  signExtend : ∃ w, Yields 0x0b [a, b] w ∧ SignExtended a b w ∧ Yields 0x0b [a, w] w

theorem signedDivision (a b : Word) :
    SignedDivision a b (Word.signedQuotient a b) (Word.signedRemainder a b) where
  by_zero := by
    intro hzero
    exact ⟨if_pos hzero, if_pos hzero⟩
  quotient := fun _ => Word.toInt_signedQuotient a b
  wraps := by
    intro ha hb
    rw [Word.toInt_signedQuotient, ha, hb]
    decide
  remainder := fun h => Word.toInt_signedRemainder h
  whole := fun h => (Word.signedQuotient_mul_add_signedRemainder h).symm

theorem signExtended (k value : Word) : SignExtended k value (Word.signExtend k value) where
  high := fun h => Word.signExtend_of_le value h
  low := fun h => Word.toInt_signExtend value h

/-- **Operators on signed words are arithmetic in two's complement.** -/
theorem operators_signed (a b : Word) : Signed a b where
  division := ⟨_, _, .binary .sdiv rfl a b, .binary .smod rfl a b, signedDivision a b⟩
  slt := by
    rw [← Word.ofBool_signedLess]
    exact .binary .slt rfl a b
  sgt := by
    rw [← Word.ofBool_signedLess]
    exact .binary .sgt rfl a b
  sar := ⟨_, .binary .sar rfl a b, Word.toInt_arithmeticShiftRight a b⟩
  signExtend := by
    have hagain : Yields 0x0b [a, Word.signExtend a b] (Word.signExtend a (Word.signExtend a b)) :=
      .binary .signExtend rfl a _
    rw [Word.signExtend_signExtend] at hagain
    exact ⟨_, .binary .signExtend rfl a b, signExtended a b, hagain⟩

end Machine

end LocalNode
