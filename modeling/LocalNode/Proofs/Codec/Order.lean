import LocalNode.Proofs.Codec.ByteStrings
import LocalNode.Proofs.Codec.Quantities

/-!
The wire forms keep the order of the values.

Bytes, 64-bit parts of a word and hexadecimal digits are all digits to some base, the first one
weighing most. Comparing two such lists of the same length from the front is comparing the numbers
that they stand for, whatever the base. The induction goes along both lists with the numbers read so
far: these decide if they differ, and otherwise the rest does.

So byte strings, their numbers and their texts are ordered alike. Quantities have texts of different
lengths. As they have no zeros in front, the longer one is the larger number.
-/

namespace LocalNode

/-! ### Digits to any base -/

/-- Of two numbers with one more digit, the last digits decide only if the rest is the same. -/
theorem compare_append_digit {base : Nat} (n m : Nat) {d e : Nat} (hd : d < base) (he : e < base) :
    compare (base * n + d) (base * m + e) = (compare n m).then (compare d e) := by
  rcases Nat.lt_trichotomy n m with h | rfl | h
  · have hle : base * (n + 1) ≤ base * m := Nat.mul_le_mul_left base h
    rw [Nat.mul_add_one] at hle
    rw [Nat.compare_eq_lt.mpr h, Nat.compare_eq_lt.mpr (by omega)]
    rfl
  · rw [Nat.compare_eq_eq.mpr rfl, Ordering.eq_then]
    rcases Nat.lt_trichotomy d e with h | rfl | h
    · rw [Nat.compare_eq_lt.mpr h, Nat.compare_eq_lt.mpr (by omega)]
    · rw [Nat.compare_eq_eq.mpr rfl, Nat.compare_eq_eq.mpr rfl]
    · rw [Nat.compare_eq_gt.mpr h, Nat.compare_eq_gt.mpr (by omega)]
  · have hle : base * (m + 1) ≤ base * n := Nat.mul_le_mul_left base h
    rw [Nat.mul_add_one] at hle
    rw [Nat.compare_eq_gt.mpr h, Nat.compare_eq_gt.mpr (by omega)]
    rfl

/-- What satisfies `P` are digits to a base, ordered by their values. -/
structure OrderedDigits {α : Type} [Ord α] (base : Nat) (value : α → Nat) (P : α → Prop) :
    Prop where
  lt : ∀ a, P a → value a < base
  compare_eq : ∀ a b, P a → P b → compare a b = compare (value a) (value b)

namespace OrderedDigits

variable {α : Type} [Ord α] {base : Nat} {value : α → Nat} {P : α → Prop}

/-- The numbers read so far decide if they differ, and otherwise the digits still to be read do. -/
theorem compare_foldl (h : OrderedDigits base value P) {l l' : List α}
    (hlength : l.length = l'.length) (hl : ∀ a ∈ l, P a) (hl' : ∀ a ∈ l', P a) (n m : Nat) :
    compare (l.foldl (fun acc a => base * acc + value a) n)
        (l'.foldl (fun acc a => base * acc + value a) m) =
      (compare n m).then (compare l l') := by
  induction l generalizing l' n m with
  | nil =>
      rw [List.eq_nil_of_length_eq_zero hlength.symm]
      exact Ordering.then_eq.symm
  | cons a l ih =>
      cases l' with
      | nil => cases hlength
      | cons b l' =>
          obtain ⟨ha, hl⟩ := List.forall_mem_cons.mp hl
          obtain ⟨hb, hl'⟩ := List.forall_mem_cons.mp hl'
          rw [List.foldl_cons, List.foldl_cons, ih (Nat.succ.inj hlength) hl hl',
            compare_append_digit n m (h.lt a ha) (h.lt b hb), Ordering.then_assoc,
            List.compare_cons_cons, h.compare_eq a b ha hb]

/-- Lists of digits of the same length are ordered as the numbers that they stand for. -/
theorem compare_number (h : OrderedDigits base value P) {l l' : List α}
    (hlength : l.length = l'.length) (hl : ∀ a ∈ l, P a) (hl' : ∀ a ∈ l', P a) :
    compare l l' = compare (l.foldl (fun acc a => base * acc + value a) 0)
      (l'.foldl (fun acc a => base * acc + value a) 0) := by
  rw [h.compare_foldl hlength hl hl']
  rfl

end OrderedDigits

/-- Comparing is the same on two types whose elements correspond. -/
theorem compareOfLessAndEq_congr {α β : Type} [LT α] [LT β] {a b : α} {a' b' : β}
    [Decidable (a < b)] [Decidable (a' < b')] [DecidableEq α] [DecidableEq β]
    (hlt : a < b ↔ a' < b') (heq : a = b ↔ a' = b') :
    compareOfLessAndEq a b = compareOfLessAndEq a' b' := by
  simp only [compareOfLessAndEq, hlt, heq]

/-! ### Bytes -/

theorem orderedDigits_bytes : OrderedDigits 256 UInt8.toNat fun _ => True where
  lt b _ := b.toNat_lt
  compare_eq _ _ _ _ := compareOfLessAndEq_congr UInt8.lt_iff_toNat_lt UInt8.toNat_inj.symm

theorem compare_bytes {bytes bytes' : List UInt8} (h : bytes.length = bytes'.length) :
    compare bytes bytes' = compare (natOfBytes bytes) (natOfBytes bytes') :=
  orderedDigits_bytes.compare_number h (fun _ _ => trivial) fun _ _ => trivial

/-! ### Texts

Among all characters the digits of upper case come before those of lower case, so texts are ordered
as their numbers are only if they are compared in the case in which they are written.
-/

namespace Text.Hex

/-- The digits that are written. -/
def IsLowerDigit (c : Char) : Prop :=
  ∃ n < 16, c = digit n

theorem orderedDigits_lower : OrderedDigits 16 (fun c => (value? c).getD 0) IsLowerDigit where
  lt := by
    intro c hc
    obtain ⟨n, hn, rfl⟩ := hc
    rw [value?_digit hn]
    exact hn
  compare_eq := by
    intro c c' hc hc'
    obtain ⟨n, hn, rfl⟩ := hc
    obtain ⟨n', hn', rfl⟩ := hc'
    have hall : ∀ n < 16, ∀ n' < 16, compare (digit n) (digit n') = compare n n' := by decide
    rw [value?_digit hn, value?_digit hn', hall n hn n' hn']
    rfl

theorem isLowerDigit_of_mem_ofBytes {bytes : List UInt8} {c : Char} (h : c ∈ ofBytes bytes) :
    IsLowerDigit c := by
  obtain ⟨b, -, hc⟩ := List.mem_flatMap.mp h
  rw [byteDigits, List.mem_cons, List.mem_singleton] at hc
  rcases hc with hc | hc
  · exact ⟨_, high_lt b, hc⟩
  · exact ⟨_, low_lt b, hc⟩

theorem isLowerDigit_of_mem_hexDigits {n : Nat} {c : Char} (h : c ∈ hexDigits n) :
    IsLowerDigit c := by
  induction n using Nat.strongRecOn with
  | ind n ih =>
      by_cases hn : n < 16
      · rw [hexDigits_of_lt hn, List.mem_singleton] at h
        exact ⟨n, hn, h⟩
      · rw [hexDigits_of_le (Nat.le_of_not_lt hn), List.mem_append, List.mem_singleton] at h
        rcases h with h | h
        · exact ih (n / 16) (by omega) h
        · exact ⟨_, Nat.mod_lt _ (by decide), h⟩

/-- The two digits of a byte count as much as the byte. -/
theorem toNat_ofBytes (bytes : List UInt8) : toNat (ofBytes bytes) = natOfBytes bytes := by
  have hread : ∀ acc, (ofBytes bytes).foldl (fun acc c => 16 * acc + (value? c).getD 0) acc =
      bytes.foldl (fun acc b => 256 * acc + b.toNat) acc := by
    induction bytes with
    | nil => intro acc; rfl
    | cons b bytes ih =>
        intro acc
        have hbyte : 16 * (16 * acc + b.toNat / 16) + b.toNat % 16 = 256 * acc + b.toNat := by omega
        rw [ofBytes_cons, List.foldl_cons, List.foldl_cons, List.foldl_cons,
          value?_digit (high_lt b), value?_digit (low_lt b), Option.getD_some, Option.getD_some,
          hbyte, ih]
  exact hread 0

theorem compare_ofBytes {bytes bytes' : List UInt8} (h : bytes.length = bytes'.length) :
    compare (ofBytes bytes) (ofBytes bytes') = compare (natOfBytes bytes) (natOfBytes bytes') := by
  rw [← toNat_ofBytes, ← toNat_ofBytes]
  refine orderedDigits_lower.compare_number ?_ (fun _ => isLowerDigit_of_mem_ofBytes)
    fun _ => isLowerDigit_of_mem_ofBytes
  rw [length_ofBytes, length_ofBytes, h]

/-- Without zeros in front, a smaller number does not have more digits. -/
theorem length_hexDigits_le {n m : Nat} (h : n ≤ m) :
    (hexDigits n).length ≤ (hexDigits m).length := by
  have hpos : 0 < (hexDigits m).length := by
    obtain ⟨first, rest, hdigits, -⟩ := hexDigits_eq_cons m
    rw [hdigits]
    exact Nat.succ_pos _
  have hm := (Nat.length_toDigits_le_iff (by decide) hpos).mp (Nat.le_refl (hexDigits m).length)
  exact (Nat.length_toDigits_le_iff (by decide) hpos).mpr (Nat.lt_of_le_of_lt h hm)

/-- Shortest forms are ordered by their lengths, and among those of one length as texts. -/
theorem compare_hexDigits (n m : Nat) :
    compare n m = (compare (hexDigits n).length (hexDigits m).length).then
      (compare (hexDigits n) (hexDigits m)) := by
  rcases Nat.lt_trichotomy (hexDigits n).length (hexDigits m).length with h | h | h
  · have hlt : n < m := Nat.lt_of_not_le fun hle => Nat.not_le.mpr h (length_hexDigits_le hle)
    rw [Nat.compare_eq_lt.mpr h, Nat.compare_eq_lt.mpr hlt]
    rfl
  · have hnumber : compare (hexDigits n) (hexDigits m) =
        compare (toNat (hexDigits n)) (toNat (hexDigits m)) :=
      orderedDigits_lower.compare_number h (fun _ => isLowerDigit_of_mem_hexDigits)
        fun _ => isLowerDigit_of_mem_hexDigits
    rw [Nat.compare_eq_eq.mpr h, Ordering.eq_then, hnumber, toNat_hexDigits, toNat_hexDigits]
  · have hgt : m < n := Nat.lt_of_not_le fun hle => Nat.not_le.mpr h (length_hexDigits_le hle)
    rw [Nat.compare_eq_gt.mpr h, Nat.compare_eq_gt.mpr hgt]
    rfl

end Text.Hex

/-- Lists of characters are compared from the front. -/
theorem compareOfLessAndEq_chars (cs cs' : List Char) :
    compareOfLessAndEq cs cs' = compare cs cs' := by
  induction cs generalizing cs' with
  | nil => cases cs' <;> rfl
  | cons c cs ih =>
      cases cs' with
      | nil => rfl
      | cons c' cs' =>
          rw [List.compare_cons_cons, ← ih]
          show _ = (compareOfLessAndEq c c').then _
          simp only [compareOfLessAndEq, List.cons_lt_cons_iff, List.cons.injEq]
          by_cases hlt : c < c'
          · simp [hlt]
          by_cases heq : c = c'
          · simp [heq]
          · simp [hlt, heq]

theorem compare_mark (cs cs' : List Char) : compare (mark cs) (mark cs') = compare cs cs' := by
  have hchars : compare (mark cs) (mark cs') =
      compareOfLessAndEq ('0' :: 'x' :: cs) ('0' :: 'x' :: cs') := by
    refine compareOfLessAndEq_congr ?_ ?_
    · show (mark cs).toList < (mark cs').toList ↔ _
      rw [mark, mark, String.toList_ofList, String.toList_ofList]
    · exact String.ofList_inj
  rw [hchars, compareOfLessAndEq_chars, List.compare_cons_cons, List.compare_cons_cons,
    Std.compare_self, Std.compare_self, Ordering.eq_then, Ordering.eq_then]

theorem toLower_mark (digits : List Char) :
    (mark digits).toLower = mark (digits.map Char.toLower) := by
  show String.map Char.toLower (mark digits) = _
  rw [← String.toList_inj, String.toList_map, mark, mark, String.toList_ofList,
    String.toList_ofList]
  rfl

/-! ### Words

A word is compared by four parts of 64 bits. These are digits too, to a much larger base, so the
order is one more case of the general one.
-/

/-- The four 64-bit parts of a word, the first one weighing most. -/
def Word.limbs (w : Word) : List UInt64 :=
  [UInt64.ofNat (w.toNat >>> 192), UInt64.ofNat (w.toNat >>> 128), UInt64.ofNat (w.toNat >>> 64),
    UInt64.ofNat w.toNat]

theorem orderedDigits_limbs : OrderedDigits UInt64.size UInt64.toNat fun _ => True where
  lt n _ := n.toNat_lt
  compare_eq _ _ _ _ := compareOfLessAndEq_congr UInt64.lt_iff_toNat_lt UInt64.toNat_inj.symm

theorem Word.foldl_limbs (w : Word) :
    w.limbs.foldl (fun acc n => UInt64.size * acc + n.toNat) 0 = w.toNat := by
  have hw := w.isLt
  simp only [limbs, List.foldl_cons, List.foldl_nil, UInt64.toNat_ofNat', UInt64.size,
    Nat.shiftRight_eq_div_pow]
  omega

theorem Word.compare_limbs (w w' : Word) :
    compare w.limbs w'.limbs = compare w.toNat w'.toNat := by
  have hfour : ∀ w : Word, w.limbs.length = 4 := fun _ => rfl
  have hlength := (hfour w).trans (hfour w').symm
  rw [orderedDigits_limbs.compare_number hlength (fun _ _ => trivial) fun _ _ => trivial,
    foldl_limbs, foldl_limbs]

/-! ### Orders of wire forms -/

/-- Reading and writing texts keeps the order of values: what is read is ordered as the numbers of
the values are, and as the texts are in lower case. -/
structure KeepsOrder {α : Type} (decode : String → Except CodecError α) (encode : α → String)
    (order : α → α → Ordering) (number : α → Nat) (textOrder : String → String → Ordering) :
    Prop where
  /-- What was read is written as the same text in lower case. -/
  lower : ∀ s a, decode s = .ok a → encode a = s.toLower
  number : ∀ s s' a a', decode s = .ok a → decode s' = .ok a' →
    order a a' = compare (number a) (number a')
  text : ∀ s s' a a', decode s = .ok a → decode s' = .ok a' →
    order a a' = textOrder (encode a) (encode a')
  /-- Only values with the same text are the same in this order. -/
  equal : ∀ s s' a a', decode s = .ok a → decode s' = .ok a' →
    (order a a' = .eq ↔ encode a = encode a')

/-- Texts ordered by their lengths, and among those of one length as texts. -/
def byLength (s s' : String) : Ordering :=
  (compare s.length s'.length).then (compare s s')

theorem byLength_eq_eq {s s' : String} : byLength s s' = .eq ↔ s = s' := by
  rw [byLength, Ordering.then_eq_eq, Std.compare_eq_iff_eq, Std.compare_eq_iff_eq]
  exact ⟨And.right, fun h => ⟨congrArg String.length h, h⟩⟩

theorem FixedBytes.compare_encode {n : Nat} (b b' : FixedBytes n) :
    compare b b' = compare b.encode b'.encode := by
  have hlength : b.bytes.length = b'.bytes.length := b.length_eq.trans b'.length_eq.symm
  rw [encode, encode, compare_mark, Text.Hex.compare_ofBytes hlength]
  exact compare_bytes hlength

theorem FixedBytes.keepsOrder (n : Nat) :
    KeepsOrder (FixedBytes.decode (n := n)) encode compare (fun b => natOfBytes b.bytes)
      compare where
  lower := by
    intro s b hb
    obtain ⟨digits, rfl, -⟩ := ((wire_exact n).reads_iff s).mp ⟨b, hb⟩
    rw [toLower_mark]
    exact (wire_exact n).writes digits b hb
  number _ _ b b' _ _ := compare_bytes (b.length_eq.trans b'.length_eq.symm)
  text _ _ b b' _ _ := compare_encode b b'
  equal := by
    intro _ _ b b' _ _
    rw [compare_encode, Std.compare_eq_iff_eq]

theorem Quantity.order_encode (w w' : Word) : order w w' = byLength (encode w) (encode w') := by
  have hlength : ∀ cs cs', compare (mark cs).length (mark cs').length =
      compare cs.length cs'.length := by
    intro cs cs'
    rw [mark, mark, String.length_ofList, String.length_ofList]
    exact compareOfLessAndEq_congr (by simp) (by simp)
  rw [order, Text.Hex.compare_hexDigits, byLength, encode, encode, compare_mark, hlength]

theorem Quantity.keepsOrder :
    KeepsOrder decode encode order BitVec.toNat byLength where
  lower := by
    intro s w hw
    obtain ⟨digits, rfl, hcanonical⟩ := canonical_of_decode hw
    obtain ⟨w', hw', -, hencode⟩ := hcanonical.exists_word
    rw [hw] at hw'
    cases hw'
    rw [toLower_mark, hencode]
  number _ _ _ _ _ _ := rfl
  text _ _ w w' _ _ := order_encode w w'
  equal := by
    intro _ _ w w' _ _
    rw [order_encode, byLength_eq_eq]

/-- **The wire forms keep the order of the values.** Byte strings of every fixed length, of which
addresses and hashes are two, are ordered by their first differing byte, as the numbers that their
bytes stand for and as their texts. Quantities are ordered by their first differing part of 64 bits,
as numbers, and as their texts by length first. -/
theorem wire_forms_keep_order :
    (∀ n, KeepsOrder (FixedBytes.decode (n := n)) FixedBytes.encode compare
      (fun b => natOfBytes b.bytes) compare) ∧
    KeepsOrder Quantity.decode Quantity.encode Quantity.order BitVec.toNat byLength ∧
    ∀ w w', Quantity.order w w' = compare (Word.limbs w) (Word.limbs w') :=
  ⟨FixedBytes.keepsOrder, Quantity.keepsOrder, fun w w' => (Word.compare_limbs w w').symm⟩

end LocalNode
