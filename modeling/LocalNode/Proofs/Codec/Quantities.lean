import LocalNode.Proofs.Codec.Digits

/-!
Which texts are quantities, and why the others are not.

A text is either the marker and a canonical list of digits, or there is one reason to refuse it:
`Refuses` lists the reasons as rules, each of which leaves no room for those before it. That every
text falls on one of the two sides is seen by following the checks in their order. What the reader
does is known on each side, so both descriptions are exact.

A canonical list of digits is, in lower case, the shortest form of its number. So writing what was
read only changes the case, and the number of digits bounds the number: 64 digits always fit a word,
and reading them cannot fail any more.
-/

namespace LocalNode.Quantity

open Text.Hex

/-- Zero is the only list of digits that starts with a zero digit. -/
def Minimal (digits : List Char) : Prop :=
  digits.head? = some '0' → digits.length = 1

/-- The digits of a quantity. -/
structure Canonical (digits : List Char) : Prop where
  hex : ∀ c ∈ digits, IsHexDigit c
  nonempty : 1 ≤ digits.length
  few : digits.length ≤ 64
  minimal : Minimal digits

/-- The reasons to refuse a text. Each of them is given only where none before it is. -/
inductive Refuses : String → CodecError → Prop
  | unmarked {s : String} (unmarked : ∀ digits, s ≠ mark digits) : Refuses s (.unmarked s)
  | empty : Refuses (mark []) .emptyQuantity
  | leadingZero {digits : List Char} (notMinimal : ¬ Minimal digits) :
      Refuses (mark digits) (.leadingZero (mark digits))
  | invalidHex {digits : List Char} (nonempty : digits ≠ []) (minimal : Minimal digits)
      (notHex : ∃ c ∈ digits, ¬ IsHexDigit c) :
      Refuses (mark digits) (.invalidHex (.notNumber (mark digits)))
  /-- The digits are counted by the bytes of their text. -/
  | tooManyDigits {digits : List Char} (minimal : Minimal digits)
      (hex : ∀ c ∈ digits, IsHexDigit c) (many : 64 < (String.ofList digits).utf8ByteSize) :
      Refuses (mark digits) (.tooManyDigits (String.ofList digits).utf8ByteSize)

theorem minimal_cons {first : Char} {rest : List Char} :
    Minimal (first :: rest) ↔ ¬ (first = '0' ∧ rest ≠ []) := by
  simp [Minimal]

/-- The checks behind the marker. -/
theorem decode_mark_cons (first : Char) (rest : List Char) :
    decode (mark (first :: rest)) =
      if first = '0' ∧ rest ≠ [] then .error (.leadingZero (mark (first :: rest)))
      else if !(first :: rest).all isDigit then
        .error (.invalidHex (.notNumber (mark (first :: rest))))
      else if maxDigits < (first :: rest).length then
        .error (.tooManyDigits (first :: rest).length)
      else .ok (Word.ofNat (toNat (first :: rest))) := by
  rw [decode, unmark_mark]

/-- What is canonical is read as its number. -/
theorem Canonical.decode {digits : List Char} (h : Canonical digits) :
    decode (mark digits) = .ok (Word.ofNat (toNat digits)) := by
  cases digits with
  | nil => exact absurd h.nonempty (by decide)
  | cons first rest =>
      have hfew : ¬ maxDigits < (first :: rest).length := Nat.not_lt.mpr h.few
      rw [decode_mark_cons, if_neg (minimal_cons.mp h.minimal), all_isDigit_iff.mpr h.hex,
        if_neg (by decide), if_neg hfew]

/-- What there is a reason to refuse is refused for that reason. -/
theorem Refuses.decode {s : String} {e : CodecError} (h : Refuses s e) : decode s = .error e := by
  cases h with
  | unmarked hunmarked =>
      cases hs : unmark s.toList with
      | none => rw [Quantity.decode, hs]
      | some digits => exact absurd (eq_mark_of_unmark hs) (hunmarked digits)
  | empty => rfl
  | @leadingZero digits notMinimal =>
      cases digits with
      | nil => exact absurd (by simp [Minimal]) notMinimal
      | cons first rest =>
          rw [minimal_cons, Decidable.not_not] at notMinimal
          rw [decode_mark_cons, if_pos notMinimal]
  | @invalidHex digits nonempty minimal notHex =>
      cases digits with
      | nil => exact absurd rfl nonempty
      | cons first rest =>
          have hbad : (!(first :: rest).all isDigit) = true := by
            rw [Bool.not_eq_true', ← Bool.not_eq_true, all_isDigit_iff]
            intro hall
            obtain ⟨c, hc, hnot⟩ := notHex
            exact hnot (hall c hc)
          rw [decode_mark_cons, if_neg (minimal_cons.mp minimal), if_pos hbad]
  | @tooManyDigits digits minimal hex many =>
      rw [← byteCount_eq, byteCount_of_digits hex] at many ⊢
      cases digits with
      | nil => exact absurd many (by decide)
      | cons first rest =>
          have hmany : maxDigits < (first :: rest).length := many
          rw [decode_mark_cons, if_neg (minimal_cons.mp minimal), all_isDigit_iff.mpr hex,
            if_neg (by decide), if_pos hmany]

/-- Every text is canonical or there is a reason to refuse it. -/
theorem refuses_or_canonical (s : String) :
    (∃ e, Refuses s e) ∨ ∃ digits, s = mark digits ∧ Canonical digits := by
  cases hs : unmark s.toList with
  | none => exact .inl ⟨_, .unmarked (ne_mark_of_unmark hs)⟩
  | some digits =>
      obtain rfl := eq_mark_of_unmark hs
      -- From here on the cases are the checks, in their order.
      by_cases hnonempty : digits = []
      · subst hnonempty
        exact .inl ⟨_, .empty⟩
      by_cases hminimal : Minimal digits
      · by_cases hhex : ∀ c ∈ digits, IsHexDigit c
        · have hbytes : (String.ofList digits).utf8ByteSize = digits.length := by
            rw [← byteCount_eq, byteCount_of_digits hhex]
          by_cases hmany : 64 < digits.length
          · exact .inl ⟨_, .tooManyDigits hminimal hhex (hbytes ▸ hmany)⟩
          · have hsome : 1 ≤ digits.length := List.length_pos_iff.mpr hnonempty
            exact .inr ⟨_, rfl, hhex, hsome, Nat.le_of_not_lt hmany, hminimal⟩
        · simp only [Classical.not_forall] at hhex
          obtain ⟨c, hc, hnot⟩ := hhex
          exact .inl ⟨_, .invalidHex hnonempty hminimal ⟨c, hc, hnot⟩⟩
      · exact .inl ⟨_, .leadingZero hminimal⟩

/-- In lower case, canonical digits are the shortest form of their number. -/
theorem Canonical.hexDigits_toNat {digits : List Char} (h : Canonical digits) :
    Text.hexDigits (toNat digits) = digits.map Char.toLower := by
  cases digits with
  | nil => exact absurd h.nonempty (by decide)
  | cons first rest =>
      refine Text.Hex.hexDigits_toNat h.hex fun hzero => ?_
      have hminimal := minimal_cons.mp h.minimal
      exact Decidable.not_not.mp fun hrest => hminimal ⟨hzero, hrest⟩

/-- Canonical digits are few enough for their number to fit a word. -/
theorem Canonical.toNat_lt {digits : List Char} (h : Canonical digits) :
    toNat digits < 2 ^ 256 := by
  have hlength : (Text.hexDigits (toNat digits)).length ≤ 64 := by
    rw [h.hexDigits_toNat, List.length_map]
    exact h.few
  have hlt := (Nat.length_toDigits_le_iff (by decide) (by decide)).mp hlength
  exact Nat.lt_of_lt_of_eq hlt (by decide)

/-- Only canonical texts are read. -/
theorem canonical_of_decode {s : String} {w : Word} (h : decode s = .ok w) :
    ∃ digits, s = mark digits ∧ Canonical digits := by
  rcases refuses_or_canonical s with ⟨e, hrefuses⟩ | hcanonical
  · rw [hrefuses.decode] at h
    cases h
  · exact hcanonical

theorem refuses_of_decode {s : String} {e : CodecError} (h : decode s = .error e) :
    Refuses s e := by
  rcases refuses_or_canonical s with ⟨e', hrefuses⟩ | ⟨digits, rfl, hcanonical⟩
  · rw [hrefuses.decode] at h
    cases h
    exact hrefuses
  · rw [hcanonical.decode] at h
    cases h

/-- What is read is the number that the digits stand for, and writing it only changes the case. -/
theorem Canonical.exists_word {digits : List Char} (h : Canonical digits) :
    ∃ w : Word, Quantity.decode (mark digits) = .ok w ∧ w.toNat = numberOf digits ∧
      encode w = mark (digits.map Char.toLower) := by
  have hvalue : (Word.ofNat (toNat digits)).toNat = toNat digits := by
    rw [Word.ofNat, BitVec.toNat_ofNat]
    exact Nat.mod_eq_of_lt h.toNat_lt
  refine ⟨_, h.decode, ?_, ?_⟩
  · rw [hvalue, toNat_eq_numberOf h.hex]
  · rw [encode, hvalue, h.hexDigits_toNat]

theorem map_toLower_eq_self_iff {cs : List Char} :
    cs.map Char.toLower = cs ↔ ∀ c ∈ cs, c.toLower = c := by
  have hmap := List.map_inj_left (l := cs) (f := Char.toLower) (g := id)
  rwa [List.map_id] at hmap

/-- What is known of quantities and their wire form. -/
structure Exact : Prop where
  /-- The marker and canonical digits are read, and nothing else is. -/
  reads_iff : ∀ s : String, (∃ w, decode s = .ok w) ↔ ∃ digits, s = mark digits ∧ Canonical digits
  /-- What is read is the number that the digits stand for in base sixteen. Writing it gives the
  same text in lower case. -/
  reads : ∀ digits, Canonical digits → ∃ w : Word, decode (mark digits) = .ok w ∧
    w.toNat = numberOf digits ∧ encode w = mark (digits.map Char.toLower)
  /-- Canonical digits stand for a number that fits a word, so nothing can fail behind the
  checks. -/
  fits : ∀ digits, Canonical digits → numberOf digits < 2 ^ 256
  /-- What was written is read back. -/
  returns : ∀ w, decode (encode w) = .ok w
  /-- Different words have different wire forms. -/
  injective : ∀ w w', encode w = encode w' → w = w'
  /-- Reading and writing gives the same text exactly if its digits are canonical and of lower
  case. -/
  fixed_iff : ∀ s : String, (∃ w, decode s = .ok w ∧ encode w = s) ↔
    ∃ digits, s = mark digits ∧ Canonical digits ∧ ∀ c ∈ digits, c.toLower = c
  /-- A text is refused for the first reason that applies. -/
  refuses_iff : ∀ s e, decode s = .error e ↔ Refuses s e

/-- **The wire form of quantities is exact**: the texts that are read, the numbers that they stand
for and the reasons for which others are refused are those of the grammar. -/
theorem reads_canonical_forms : Exact where
  reads_iff := by
    intro s
    constructor
    · rintro ⟨w, hdecode⟩
      exact canonical_of_decode hdecode
    · rintro ⟨digits, rfl, hcanonical⟩
      exact ⟨_, hcanonical.decode⟩
  reads := fun digits h => h.exists_word
  fits := fun digits h => toNat_eq_numberOf h.hex ▸ h.toNat_lt
  returns := decode_encode
  injective := by
    intro w w' h
    have hread := decode_encode w
    rw [h, decode_encode w'] at hread
    exact (Except.ok.inj hread).symm
  fixed_iff := by
    intro s
    constructor
    · rintro ⟨w, hdecode, hencode⟩
      obtain ⟨digits, rfl, hcanonical⟩ := canonical_of_decode hdecode
      obtain ⟨w', hdecode', -, hencode'⟩ := hcanonical.exists_word
      rw [hdecode] at hdecode'
      cases hdecode'
      have hlower := mark_injective (hencode'.symm.trans hencode)
      exact ⟨digits, rfl, hcanonical, map_toLower_eq_self_iff.mp hlower⟩
    · rintro ⟨digits, rfl, hcanonical, hlower⟩
      obtain ⟨w, hdecode, -, hencode⟩ := hcanonical.exists_word
      rw [map_toLower_eq_self_iff.mpr hlower] at hencode
      exact ⟨w, hdecode, hencode⟩
  refuses_iff := fun s e => ⟨refuses_of_decode, Refuses.decode⟩

end LocalNode.Quantity
