import Mathlib.Data.Nat.Digits.Defs
import LocalNode.Proofs.Codec.RoundTrip

/-!
What hexadecimal digits stand for.

The reader of digits compares characters with the ends of three ranges and computes as it goes along
the text. Here it is compared with a description that does neither. A digit is one of twenty-two
characters, its value is its place among the sixteen of lower case, and a list of digits stands for
a number in base sixteen.

The shortest form of the number that some digits stand for is these digits in lower case, unless
zeros stand in front. The induction goes along the digits with the number read so far: as long as
that is not zero, each further digit appends itself to the shortest form.
-/

namespace LocalNode.Text.Hex

/-! ### Single digits

The digits can be gone through, while there are too many characters for that. Of these only the
first 128 are looked at, and the reader refuses all later ones for the same reason.
-/

/-- A digit of either case. -/
def IsHexDigit (c : Char) : Prop :=
  c ∈ "0123456789abcdefABCDEF".toList

instance : DecidablePred IsHexDigit := fun c =>
  inferInstanceAs (Decidable (c ∈ "0123456789abcdefABCDEF".toList))

/-- The value of a digit: its place among the digits of lower case. -/
def digitValue (c : Char) : Nat :=
  "0123456789abcdef".toList.idxOf c.toLower

/-- What is found by going through the digits holds of each of them. -/
theorem IsHexDigit.of_all {p : Char → Bool} (h : "0123456789abcdefABCDEF".toList.all p = true)
    {c : Char} (hc : IsHexDigit c) : p c = true :=
  List.all_eq_true.mp h c hc

/-- What holds of the first 128 characters and of all later ones holds of every character. -/
theorem forall_char {P : Char → Prop} (hfirst : ∀ n : Fin 128, P (Char.ofNat n))
    (hlater : ∀ c : Char, 128 ≤ c.toNat → P c) (c : Char) : P c := by
  by_cases h : c.toNat < 128
  · have hc := hfirst ⟨c.toNat, h⟩
    rwa [Char.ofNat_toNat] at hc
  · exact hlater c (Nat.le_of_not_lt h)

/-- The reader takes exactly the digits, and gives their values. -/
theorem value?_eq : ∀ c : Char,
    value? c = if IsHexDigit c then some (digitValue c) else none := by
  apply forall_char
  · decide +kernel
  · intro c hc
    have hbeyond : ∀ d : Char, d.toNat < 128 → ¬ c ≤ d := by
      intro d hd hle
      rw [Char.le_def, UInt32.le_iff_toNat_le] at hle
      exact absurd (Nat.le_trans hc hle) (Nat.not_le.mpr hd)
    have hnot : ¬ IsHexDigit c := by
      intro hdigit
      have hlt := hdigit.of_all (p := fun c => c.toNat < 128) (by decide)
      exact absurd (of_decide_eq_true hlt) (Nat.not_lt.mpr hc)
    rw [if_neg hnot, value?, if_neg fun h => hbeyond '9' (by decide) h.2,
      if_neg fun h => hbeyond 'f' (by decide) h.2, if_neg fun h => hbeyond 'F' (by decide) h.2]

theorem isDigit_iff {c : Char} : isDigit c = true ↔ IsHexDigit c := by
  rw [isDigit, value?_eq]
  split <;> simp_all

theorem all_isDigit_iff {cs : List Char} :
    cs.all isDigit = true ↔ ∀ c ∈ cs, IsHexDigit c := by
  simp only [List.all_eq_true, isDigit_iff]

namespace IsHexDigit

variable {c : Char}

theorem value?_eq_some (h : IsHexDigit c) : value? c = some (digitValue c) := by
  rw [value?_eq, if_pos h]

theorem digitValue_lt (h : IsHexDigit c) : digitValue c < 16 :=
  of_decide_eq_true (h.of_all (p := fun c => digitValue c < 16) (by decide))

/-- Writing the value of a digit gives the digit in lower case. -/
theorem digit_digitValue (h : IsHexDigit c) : digit (digitValue c) = c.toLower :=
  of_decide_eq_true (h.of_all (p := fun c => digit (digitValue c) = c.toLower) (by decide))

theorem digitValue_pos (h : IsHexDigit c) (hzero : c ≠ '0') : 0 < digitValue c :=
  of_decide_eq_true (h.of_all (p := fun c => c ≠ '0' → 0 < digitValue c) (by decide)) hzero

theorem utf8Size (h : IsHexDigit c) : c.utf8Size = 1 :=
  of_decide_eq_true (h.of_all (p := fun c => c.utf8Size = 1) (by decide))

end IsHexDigit

/-! ### Bytes of a text -/

theorem byteCount_eq (cs : List Char) : byteCount cs = (String.ofList cs).utf8ByteSize := by
  induction cs with
  | nil => rfl
  | cons c cs ih =>
      rw [byteCount, ih, String.ofList_cons, String.utf8ByteSize_append,
        String.utf8ByteSize_singleton]

theorem byteCount_of_digits {cs : List Char} (h : ∀ c ∈ cs, IsHexDigit c) :
    byteCount cs = cs.length := by
  induction cs with
  | nil => rfl
  | cons c cs ih =>
      obtain ⟨hc, hcs⟩ := List.forall_mem_cons.mp h
      rw [byteCount, hc.utf8Size, ih hcs, List.length_cons, Nat.add_comm]

/-! ### Numbers -/

/-- The number that digits stand for in base sixteen, the first digit weighing most. -/
def numberOf (digits : List Char) : Nat :=
  Nat.ofDigits 16 (digits.reverse.map digitValue)

theorem toNat_eq_numberOf {cs : List Char} (h : ∀ c ∈ cs, IsHexDigit c) :
    toNat cs = numberOf cs := by
  have hread : ∀ acc, cs.foldl (fun acc c => 16 * acc + (value? c).getD 0) acc =
      cs.foldl (fun acc c => digitValue c + 16 * acc) acc := by
    induction cs with
    | nil => intro acc; rfl
    | cons c cs ih =>
        intro acc
        obtain ⟨hc, hcs⟩ := List.forall_mem_cons.mp h
        rw [List.foldl_cons, List.foldl_cons, ih hcs, hc.value?_eq_some, Option.getD_some,
          Nat.add_comm]
  rw [toNat, hread, numberOf, Nat.ofDigits_eq_foldr, List.foldr_map, List.foldr_reverse]
  rfl

/-- A digit behind a number that is not zero appends itself to the shortest form. -/
theorem hexDigits_append {n d : Nat} (hn : 0 < n) (hd : d < 16) :
    hexDigits (16 * n + d) = hexDigits n ++ [digit d] := by
  have hhead : (16 * n + d) / 16 = n := by omega
  have hlast : (16 * n + d) % 16 = d := by omega
  rw [hexDigits_of_le (by omega), hhead, hlast]

/-- The induction is on the digits that are still to be read, for any number read so far. -/
theorem hexDigits_foldl {cs : List Char} (h : ∀ c ∈ cs, IsHexDigit c) : ∀ {n : Nat}, 0 < n →
    hexDigits (cs.foldl (fun acc c => 16 * acc + (value? c).getD 0) n) =
      hexDigits n ++ cs.map Char.toLower := by
  induction cs with
  | nil =>
      intro n _
      exact (List.append_nil _).symm
  | cons c cs ih =>
      intro n hn
      obtain ⟨hc, hcs⟩ := List.forall_mem_cons.mp h
      rw [List.foldl_cons, hc.value?_eq_some, Option.getD_some, ih hcs (by omega),
        hexDigits_append hn hc.digitValue_lt, hc.digit_digitValue, List.append_assoc]
      rfl

/-- Without zeros in front, the shortest form of a number is the digits that it was read from, in
lower case. -/
theorem hexDigits_toNat {first : Char} {rest : List Char}
    (h : ∀ c ∈ first :: rest, IsHexDigit c) (hminimal : first = '0' → rest = []) :
    hexDigits (toNat (first :: rest)) = (first :: rest).map Char.toLower := by
  obtain ⟨hfirst, hrest⟩ := List.forall_mem_cons.mp h
  have hsingle : hexDigits (digitValue first) = [first.toLower] := by
    rw [hexDigits_of_lt hfirst.digitValue_lt, hfirst.digit_digitValue]
  have hread : toNat (first :: rest) =
      rest.foldl (fun acc c => 16 * acc + (value? c).getD 0) (digitValue first) := by
    rw [toNat, List.foldl_cons, hfirst.value?_eq_some, Option.getD_some, Nat.mul_zero, Nat.zero_add]
  rw [hread, List.map_cons]
  by_cases hzero : first = '0'
  · rw [hminimal hzero]
    exact hsingle
  · rw [hexDigits_foldl hrest (hfirst.digitValue_pos hzero), hsingle]
    rfl

end LocalNode.Text.Hex
