import Mathlib.Data.Nat.ModEq
import LocalNode.Proofs.Machine.Verdict

/-!
Operators on unsigned words.

Words wrap around, and operators on them are compared with arithmetic on natural numbers, which does
not. `Yields` says what an operator does to a whole state: it puts one word in the place of its
operands, moves on to the next byte and leaves everything else alone. The main statement gives the
number of that word for the operators whose value is not the wrapped result of one operation: sums
and products by a modulus, powers, shifts and single bytes.

Sums and products by a modulus are formed at twice the width of a word, where they do not wrap, and
their remainder is below the modulus and fits a word again. A power is computed by squaring, and the argument follows the halved exponent. Amounts of
shifts and positions of bytes may be any word. Beyond the width of a word the power of two is larger
than every word, which is what makes the result zero.
-/

namespace LocalNode

namespace Word

/-! ### Values as natural numbers

Amounts of shifts and positions of bytes come to be numbers of 64 bits only if they fit. Those that
do not fit are far beyond the width of a word, so the result is the one for all large amounts.
-/

theorem toNat_ofNat_of_lt {n : Nat} (h : n < 2 ^ 256) : (ofNat n).toNat = n := by
  rw [ofNat, BitVec.toNat_ofNat]
  exact Nat.mod_eq_of_lt h

theorem toNat_pos_of_ne_zero {w : Word} (h : w ≠ 0) : 0 < w.toNat := by
  rw [Nat.pos_iff_ne_zero]
  intro hzero
  exact h (BitVec.eq_of_toNat_eq hzero)

theorem toNat_widen (w : Word) : (widen w).toNat = w.toNat :=
  BitVec.toNat_setWidth_of_le (by decide)

/-- One bit more is room enough for a sum. -/
theorem toNat_setWidth_add {n m : Nat} (h : n + 1 ≤ m) (a b : BitVec n) :
    (a.setWidth m + b.setWidth m).toNat = a.toNat + b.toNat := by
  have hroom : 2 ^ n + 2 ^ n ≤ 2 ^ m := by
    rw [← Nat.two_pow_succ]
    exact Nat.pow_le_pow_right (by decide) h
  have hless : a.toNat + b.toNat < 2 ^ m :=
    Nat.lt_of_lt_of_le (Nat.add_lt_add a.isLt b.isLt) hroom
  rw [BitVec.toNat_add, BitVec.toNat_setWidth_of_le (by omega),
    BitVec.toNat_setWidth_of_le (by omega), Nat.mod_eq_of_lt hless]

/-- Twice the width is room enough for a product. -/
theorem toNat_setWidth_mul {n m : Nat} (h : n + n ≤ m) (a b : BitVec n) :
    (a.setWidth m * b.setWidth m).toNat = a.toNat * b.toNat := by
  have hroom : 2 ^ n * 2 ^ n ≤ 2 ^ m := by
    rw [← Nat.pow_add]
    exact Nat.pow_le_pow_right (by decide) h
  have hless : a.toNat * b.toNat < 2 ^ m :=
    Nat.lt_of_lt_of_le (Nat.mul_lt_mul'' a.isLt b.isLt) hroom
  rw [BitVec.toNat_mul, BitVec.toNat_setWidth_of_le (by omega),
    BitVec.toNat_setWidth_of_le (by omega), Nat.mod_eq_of_lt hless]

/-- A remainder by a word fits a word. -/
theorem toNat_narrow_mod (x : BitVec 512) {n : Word} (h : n ≠ 0) :
    (narrow (x % widen n)).toNat = x.toNat % n.toNat := by
  rw [narrow, BitVec.toNat_setWidth, BitVec.toNat_umod, toNat_widen]
  exact Nat.mod_eq_of_lt (Nat.lt_trans (Nat.mod_lt _ (toNat_pos_of_ne_zero h)) n.isLt)

theorem toNat_addMod (a b n : Word) :
    (addMod a b n).toNat = if n = 0 then 0 else (a.toNat + b.toNat) % n.toNat := by
  unfold addMod
  split
  · rfl
  · rename_i hn
    rw [toNat_narrow_mod _ hn, widen, widen, toNat_setWidth_add (by decide)]

theorem toNat_mulMod (a b n : Word) :
    (mulMod a b n).toNat = if n = 0 then 0 else a.toNat * b.toNat % n.toNat := by
  unfold mulMod
  split
  · rfl
  · rename_i hn
    rw [toNat_narrow_mod _ hn, widen, widen, toNat_setWidth_mul (by decide)]

/-- Wrapping the factors does not matter to a product that wraps. -/
theorem toNat_mul_of_mod {a b : Word} {m n : Nat} (ha : a.toNat = m % 2 ^ 256)
    (hb : b.toNat = n % 2 ^ 256) : (a * b).toNat = m * n % 2 ^ 256 := by
  rw [BitVec.toNat_mul, ha, hb, ← Nat.mul_mod]

/-- Powers by squaring are powers. The induction is on the exponent, as it is halved. -/
theorem toNat_power (base : Word) (exponent : Nat) :
    (power base exponent).toNat = base.toNat ^ exponent % 2 ^ 256 := by
  fun_induction power base exponent with
  | case1 => rfl
  | case2 exponent hne half heven ih =>
      have hsquare := toNat_mul_of_mod ih ih
      have hexponent : exponent / 2 + exponent / 2 = exponent := by omega
      rwa [← Nat.pow_add, hexponent] at hsquare
  | case3 exponent hne half hodd ih =>
      have hbase : base.toNat = base.toNat % 2 ^ 256 := (Nat.mod_eq_of_lt base.isLt).symm
      have hproduct := toNat_mul_of_mod hbase (toNat_mul_of_mod ih ih)
      have hexponent : (exponent / 2 + exponent / 2).succ = exponent := by omega
      rwa [← Nat.pow_add, ← Nat.pow_succ', hexponent] at hproduct

/-- A shift by the width of a word or more leaves nothing of a word, on either side. -/
theorem two_pow_le_of_not_lt {k : Nat} (h : ¬ k < 256) : 2 ^ 256 ≤ 2 ^ k :=
  Nat.pow_le_pow_right (Nat.succ_pos 1) (Nat.le_of_not_lt h)

theorem toNat_shiftLeft (shift value : Word) :
    (shiftLeft shift value).toNat = value.toNat * 2 ^ shift.toNat % 2 ^ 256 := by
  rw [shiftLeft, below?_eq (by decide)]
  by_cases hfits : shift.toNat < 256
  · rw [if_pos hfits, BitVec.toNat_shiftLeft, Nat.shiftLeft_eq]
  · have hdvd : 2 ^ 256 ∣ value.toNat * 2 ^ shift.toNat :=
      Nat.dvd_mul_left_of_dvd (Nat.pow_dvd_pow 2 (Nat.le_of_not_lt hfits)) _
    rw [if_neg hfits, Nat.mod_eq_zero_of_dvd hdvd]
    rfl

theorem toNat_shiftRight (shift value : Word) :
    (shiftRight shift value).toNat = value.toNat / 2 ^ shift.toNat := by
  rw [shiftRight, below?_eq (by decide)]
  by_cases hfits : shift.toNat < 256
  · rw [if_pos hfits, BitVec.toNat_ushiftRight, Nat.shiftRight_eq_div_pow]
  · have hless : value.toNat < 2 ^ shift.toNat :=
      Nat.lt_of_lt_of_le value.isLt (two_pow_le_of_not_lt hfits)
    rw [if_neg hfits, Nat.div_eq_of_lt hless]
    rfl

theorem toNat_byte (i value : Word) :
    (byte i value).toNat =
      if i.toNat < 32 then value.toNat / 256 ^ (31 - i.toNat) % 256 else 0 := by
  rw [byte, below?_eq (by decide)]
  by_cases hinside : i.toNat < 32
  · have hmask (n : Nat) : n &&& 255 = n % 256 := Nat.and_two_pow_sub_one_eq_mod n 8
    have hbase : 2 ^ (8 * (31 - i.toNat)) = 256 ^ (31 - i.toNat) := Nat.pow_mul 2 8 _
    rw [if_pos hinside, if_pos hinside, BitVec.toNat_and, BitVec.toNat_ushiftRight,
      Nat.shiftRight_eq_div_pow, hbase]
    exact hmask _
  · rw [if_neg hinside, if_neg hinside]
    rfl

end Word

namespace Machine

/-! ### What an operator does to a state

An operator takes its words before it puts one, so there is room for the result on any stack. The
only thing that can be wrong is that words are missing.
-/

/-- Carrying out the byte with the given words on top of the stack, the topmost first, succeeds,
puts one word in their place, moves on to the next byte and changes nothing else. -/
def Yields (b : UInt8) (args : List Word) (w : Word) : Prop :=
  ∀ (s : State) (rest : List Word), s.status = .running → s.stack.depth ≤ 1024 →
    s.stack.words = args ++ rest →
      s.dispatchByte b = (.ok (), { s with pc := s.pc + 1, stack := .ofWords (w :: rest) })

/-- Carrying out the byte on the given words gives the word of a number. -/
def YieldsNat (b : UInt8) (args : List Word) (n : Nat) : Prop :=
  ∃ w : Word, w.toNat = n ∧ Yields b args w

/-- Words that are given to be on top are there. -/
theorem Stack.length_le_depth {s : Stack} {args rest : List Word} (h : s.words = args ++ rest) :
    args.length ≤ s.depth := by
  rw [depth_eq, h, List.length_append]
  exact Nat.le_add_right ..

/-- A byte that puts one word in the place of its operands finds room for it there. -/
theorem State.dispatchByte_of_pushWord {s : State} {b : UInt8} {first : Word}
    {others rest : List Word} {w : Word} (hrun : s.status = .running)
    (hdepth : s.stack.depth ≤ 1024) (hwords : s.stack.words = first :: others ++ rest)
    (h : s.execByte b =
      ({ s with
          pc := s.pc + 1, stack := s.stack.drop (first :: others).length } : State).pushWord w) :
    s.dispatchByte b = (.ok (), { s with pc := s.pc + 1, stack := .ofWords (w :: rest) }) := by
  have hlength : s.stack.depth = others.length + 1 + rest.length := by
    rw [s.stack.depth_eq, hwords, List.length_append, List.length_cons]
  have hroom : (s.stack.drop (first :: others).length).depth < Stack.limit := by
    simp only [Stack.depth_drop, List.length_cons, Stack.limit]
    omega
  have hstack : (s.stack.drop (first :: others).length).cons w = .ofWords (w :: rest) := by
    rw [Stack.cons, Stack.words_drop, hwords, List.drop_left]
  rw [dispatchByte_of_running b hrun, h, pushWord, withStack_of_ok (Stack.push_of_room w hroom),
    hstack]
  exact Prod.ext (report_of_running hrun) rfl

namespace Yields

variable {byte : UInt8}

theorem of_execByte {first : Word} {others : List Word} {w : Word}
    (h : ∀ (s : State) (rest : List Word), s.stack.words = first :: others ++ rest →
      s.execByte byte =
        ({ s with
            pc := s.pc + 1, stack := s.stack.drop (first :: others).length } : State).pushWord w) :
    Yields byte (first :: others) w := by
  intro s rest hrun hdepth hwords
  exact State.dispatchByte_of_pushWord hrun hdepth hwords (h s rest hwords)

theorem binary (op : BinaryOp) (h : Instr.ofByte byte = some (.binary op)) (a b : Word) :
    Yields byte [a, b] (op.apply a b) := by
  apply of_execByte
  intro s rest hwords
  have henough : 2 ≤ s.stack.depth := Stack.length_le_depth hwords
  rw [State.execByte_of_instr h, State.exec,
    State.withTwo_of_le (s := { s with pc := s.pc + 1 }) henough]
  simp only [Stack.wordAt, hwords]
  rfl

theorem ternary (op : TernaryOp) (h : Instr.ofByte byte = some (.ternary op)) (a b c : Word) :
    Yields byte [a, b, c] (op.apply a b c) := by
  apply of_execByte
  intro s rest hwords
  have henough : 3 ≤ s.stack.depth := Stack.length_le_depth hwords
  rw [State.execByte_of_instr h, State.exec,
    State.withThree_of_le (s := { s with pc := s.pc + 1 }) henough]
  simp only [Stack.wordAt, hwords]
  rfl

end Yields

/-! ### Unsigned operators -/

/-- What is known of the operators on unsigned words. -/
structure Unsigned (a b n : Word) : Prop where
  /-- The sum does not wrap before the remainder is taken. -/
  addMod : YieldsNat 0x08 [a, b, n] (if n = 0 then 0 else (a.toNat + b.toNat) % n.toNat)
  /-- The product does not wrap before the remainder is taken. -/
  mulMod : YieldsNat 0x09 [a, b, n] (if n = 0 then 0 else a.toNat * b.toNat % n.toNat)
  /-- The power of the first word to the second one wraps. -/
  exp : YieldsNat 0x0a [a, b] (a.toNat ^ b.toNat % 2 ^ 256)
  /-- Every word to the power of zero is one, zero included. -/
  exp_zero : YieldsNat 0x0a [a, 0] 1
  /-- The second word is shifted to the left by the first one. -/
  shl : YieldsNat 0x1b [a, b] (b.toNat * 2 ^ a.toNat % 2 ^ 256)
  /-- The second word is shifted to the right by the first one. -/
  shr : YieldsNat 0x1c [a, b] (b.toNat / 2 ^ a.toNat)
  /-- The first word says which byte of the second one is taken, counted from the highest. -/
  byte : YieldsNat 0x1a [a, b]
    (if a.toNat < 32 then b.toNat / 256 ^ (31 - a.toNat) % 256 else 0)

/-- **Operators on unsigned words are exact**: they give the number that arithmetic on natural
numbers gives, wrapped only where it is said. -/
theorem operators_unsigned (a b n : Word) : Unsigned a b n where
  addMod := ⟨_, Word.toNat_addMod a b n, .ternary .addMod rfl a b n⟩
  mulMod := ⟨_, Word.toNat_mulMod a b n, .ternary .mulMod rfl a b n⟩
  exp := ⟨_, Word.toNat_power a b.toNat, .binary .exp rfl a b⟩
  exp_zero := ⟨_, Word.toNat_power a 0, .binary .exp rfl a 0⟩
  shl := ⟨_, Word.toNat_shiftLeft a b, .binary .shl rfl a b⟩
  shr := ⟨_, Word.toNat_shiftRight a b, .binary .shr rfl a b⟩
  byte := ⟨_, Word.toNat_byte a b, .binary .byte rfl a b⟩

end Machine

end LocalNode
