import LocalNode.Codec.Bytes
import LocalNode.Codec.Quantity

/-!
What is written as text reads back as what it was.

Everything rests on single digits: the digit of a value below sixteen has that value again. Byte
strings are read back pair by pair, so the induction is on the bytes. The shortest form of a number
grows at its end, one digit for each division by sixteen, so there the induction is on the number.
-/

namespace LocalNode

namespace Text.Hex

/-! ### Single digits -/

theorem value?_digit {n : Nat} (h : n < 16) : value? (digit n) = some n := by
  have hall : ∀ n < 16, value? (digit n) = some n := by decide
  exact hall n h

theorem isDigit_digit {n : Nat} (h : n < 16) : isDigit (digit n) = true := by
  rw [isDigit, value?_digit h]
  rfl

theorem utf8Size_digit {n : Nat} (h : n < 16) : (digit n).utf8Size = 1 := by
  have hall : ∀ n < 16, (digit n).utf8Size = 1 := by decide
  exact hall n h

theorem digitChar_eq_digit {n : Nat} (h : n < 16) : n.digitChar = digit n := by
  have hall : ∀ n < 16, n.digitChar = digit n := by decide
  exact hall n h

/-! ### Byte strings -/

theorem ofBytes_cons (b : UInt8) (bytes : List UInt8) :
    ofBytes (b :: bytes) = digit (b.toNat / 16) :: digit (b.toNat % 16) :: ofBytes bytes := rfl

theorem high_lt (b : UInt8) : b.toNat / 16 < 16 := by
  have := b.toNat_lt
  omega

theorem low_lt (b : UInt8) : b.toNat % 16 < 16 :=
  Nat.mod_lt _ (by decide)

theorem byteCount_ofBytes (bytes : List UInt8) :
    byteCount (ofBytes bytes) = 2 * bytes.length := by
  induction bytes with
  | nil => rfl
  | cons b bytes ih =>
      rw [ofBytes_cons, byteCount, byteCount, ih, utf8Size_digit (high_lt b),
        utf8Size_digit (low_lt b), List.length_cons]
      omega

theorem readPairs_ofBytes (bytes : List UInt8) :
    ∀ position, readPairs position (ofBytes bytes) = .ok bytes := by
  induction bytes with
  | nil => intro position; rfl
  | cons b bytes ih =>
      intro position
      have hbyte : UInt8.ofNat (16 * (b.toNat / 16) + b.toNat % 16) = b := by
        rw [Nat.div_add_mod, UInt8.ofNat_toNat]
      rw [ofBytes_cons, readPairs, value?_digit (high_lt b), value?_digit (low_lt b)]
      simp only [ih, hbyte]
      rfl

theorem toBytes_ofBytes (bytes : List UInt8) : toBytes (ofBytes bytes) = .ok bytes := by
  rw [toBytes, byteCount_ofBytes, if_neg (by omega), readPairs_ofBytes]

/-! ### Numbers

A number is written by splitting off its last digit, and digits are read from the first one on. Both
sides have an equation for one more digit at the end, where the two meet.
-/

theorem hexDigits_of_lt {n : Nat} (h : n < 16) : hexDigits n = [digit n] := by
  rw [hexDigits, Nat.toDigits_of_lt_base h, digitChar_eq_digit h]

theorem hexDigits_of_le {n : Nat} (h : 16 ≤ n) :
    hexDigits n = hexDigits (n / 16) ++ [digit (n % 16)] := by
  rw [hexDigits, Nat.toDigits_of_base_le (by decide) h,
    digitChar_eq_digit (Nat.mod_lt _ (by decide))]
  rfl

theorem toNat_append_digit (cs : List Char) {d : Nat} (h : d < 16) :
    toNat (cs ++ [digit d]) = 16 * toNat cs + d := by
  simp [toNat, value?_digit h]

theorem toNat_hexDigits (n : Nat) : toNat (hexDigits n) = n := by
  induction n using Nat.strongRecOn with
  | ind n ih =>
      by_cases h : n < 16
      · rw [hexDigits_of_lt h]
        exact (toNat_append_digit [] h).trans (Nat.zero_add n)
      · rw [hexDigits_of_le (Nat.le_of_not_lt h), toNat_append_digit _ (Nat.mod_lt _ (by decide)),
          ih (n / 16) (by omega), Nat.div_add_mod]

theorem all_isDigit_hexDigits (n : Nat) : (hexDigits n).all isDigit = true := by
  induction n using Nat.strongRecOn with
  | ind n ih =>
      by_cases h : n < 16
      · rw [hexDigits_of_lt h, List.all_cons, isDigit_digit h]
        rfl
      · rw [hexDigits_of_le (Nat.le_of_not_lt h), List.all_append, ih (n / 16) (by omega),
          List.all_cons, isDigit_digit (Nat.mod_lt _ (by decide))]
        rfl

/-- Only zero starts with a zero digit. -/
theorem hexDigits_eq_cons (n : Nat) :
    ∃ first rest, hexDigits n = first :: rest ∧ (first = '0' → n = 0 ∧ rest = []) := by
  induction n using Nat.strongRecOn with
  | ind n ih =>
      by_cases h : n < 16
      · refine ⟨digit n, [], hexDigits_of_lt h, ?_⟩
        intro hzero
        have hvalue := value?_digit h
        rw [hzero] at hvalue
        exact ⟨(Option.some.inj hvalue).symm, rfl⟩
      · obtain ⟨first, rest, heq, hfirst⟩ := ih (n / 16) (by omega)
        refine ⟨first, rest ++ [digit (n % 16)], ?_, ?_⟩
        · rw [hexDigits_of_le (Nat.le_of_not_lt h), heq]
          rfl
        · intro hzero
          have := (hfirst hzero).1
          omega

end Text.Hex

/-! ### The codecs -/

theorem unmark_mark (cs : List Char) : unmark (mark cs).toList = some cs := by
  rw [mark, String.toList_ofList]
  rfl

theorem mark_injective {cs cs' : List Char} (h : mark cs = mark cs') : cs = cs' := by
  have hunmark := congrArg (fun s => unmark s.toList) h
  simpa only [unmark_mark, Option.some.injEq] using hunmark

theorem eq_mark_of_unmark {s : String} {cs : List Char} (h : unmark s.toList = some cs) :
    s = mark cs := by
  unfold unmark at h
  split at h
  · rename_i rest hs
    cases h
    rw [mark, ← hs, String.ofList_toList]
  · cases h

theorem ne_mark_of_unmark {s : String} (h : unmark s.toList = none) (cs : List Char) :
    s ≠ mark cs := by
  rintro rfl
  rw [unmark_mark] at h
  cases h

theorem Data.decode_encode (d : Data) : Data.decode d.encode = .ok d := by
  rw [Data.decode, Data.encode, unmark_mark]
  simp only [Text.Hex.byteCount_ofBytes, Text.Hex.toBytes_ofBytes]
  rw [if_neg (by omega)]

theorem FixedBytes.decode_encode {n : Nat} (b : FixedBytes n) :
    FixedBytes.decode b.encode = .ok b := by
  rw [FixedBytes.decode, FixedBytes.encode, unmark_mark]
  simp only [Text.Hex.toBytes_ofBytes]
  rw [FixedBytes.ofBytes, dif_pos b.length_eq]

theorem Quantity.decode_encode (w : Word) : Quantity.decode (Quantity.encode w) = .ok w := by
  obtain ⟨first, rest, hdigits, hfirst⟩ := Text.Hex.hexDigits_eq_cons w.toNat
  have hall := Text.Hex.all_isDigit_hexDigits w.toNat
  have hvalue := Text.Hex.toNat_hexDigits w.toNat
  have hlength : (Text.hexDigits w.toNat).length ≤ maxDigits :=
    (Nat.length_toDigits_le_iff (by decide) (by decide)).mpr w.isLt
  rw [hdigits] at hall hvalue hlength
  rw [Quantity.decode, Quantity.encode, unmark_mark, hdigits]
  show (if first = '0' ∧ rest ≠ [] then _ else _) = _
  rw [if_neg (fun h => h.2 (hfirst h.1).2), hall, if_neg (by decide),
    if_neg (Nat.not_lt.mpr hlength), hvalue, Word.ofNat, BitVec.ofNat_toNat, BitVec.setWidth_eq]

end LocalNode
