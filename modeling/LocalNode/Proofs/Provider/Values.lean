import LocalNode.Proofs.Codec.Quantities
import LocalNode.Proofs.Provider.Reading

/-!
The many forms of one value.

A caller may write a quantity as a number, as digits with zeros in front, or wrapped in objects, and
data as an array of bytes. Whatever the form, what is read is the value that the strict form of it
stands for.

Text is read by dropping the zeros in front and leaving the rest to the strict reader. Dropping them
neither changes the number nor makes room for a larger one: behind the zeros there may be as many
digits as a word needs, and no more. Objects are opened from the outside to the inside, so there the
induction is on how a value is wrapped.
-/

namespace LocalNode.Provider

open Text.Hex

variable {field : String}

/-! ### Digits with zeros in front -/

/-- Zeros and then at most as many digits as a word needs, at least one digit in all. -/
def Padded (digits : List Char) : Prop :=
  ∃ zeros rest, digits = List.replicate zeros '0' ++ rest ∧ 1 ≤ zeros + rest.length ∧
    rest.length ≤ 64 ∧ ∀ c ∈ rest, IsHexDigit c

/-- The digits that are left without the zeros in front; one zero stays if there is nothing else. -/
def stripped (digits : List Char) : List Char :=
  if (digits.dropWhile (· = '0')).isEmpty then ['0'] else digits.dropWhile (· = '0')

theorem stripped_cases (digits : List Char) :
    digits.dropWhile (· = '0') = [] ∧ stripped digits = ['0'] ∨
      digits.dropWhile (· = '0') ≠ [] ∧ stripped digits = digits.dropWhile (· = '0') := by
  by_cases hempty : digits.dropWhile (· = '0') = []
  · exact .inl ⟨hempty, by rw [stripped, hempty]; rfl⟩
  · exact .inr ⟨hempty, by rw [stripped, if_neg (by rwa [List.isEmpty_iff])]⟩

theorem dropWhile_zeros (n : Nat) (digits : List Char) :
    (List.replicate n '0' ++ digits).dropWhile (· = '0') = digits.dropWhile (· = '0') := by
  induction n with
  | zero => rfl
  | succ n ih =>
      rw [List.replicate_succ, List.cons_append, List.dropWhile_cons_of_pos (by decide), ih]

theorem stripped_zeros (n : Nat) (digits : List Char) :
    stripped (List.replicate n '0' ++ digits) = stripped digits := by
  rw [stripped, dropWhile_zeros, stripped]

theorem exists_zeros (digits : List Char) :
    ∃ n, digits = List.replicate n '0' ++ digits.dropWhile (· = '0') := by
  induction digits with
  | nil => exact ⟨0, rfl⟩
  | cons c rest ih =>
      by_cases hzero : c = '0'
      · obtain ⟨n, hn⟩ := ih
        refine ⟨n + 1, ?_⟩
        rw [hzero, List.dropWhile_cons_of_pos (by decide), List.replicate_succ, List.cons_append,
          ← hn]
      · exact ⟨0, by simp [hzero]⟩

/-- Zeros in front have no weight. -/
theorem numberOf_zeros (n : Nat) (digits : List Char) :
    numberOf (List.replicate n '0' ++ digits) = numberOf digits := by
  have hzero : digitValue '0' = 0 := by decide
  simp [numberOf, hzero, Nat.ofDigits_append_replicate_zero]

theorem numberOf_stripped (digits : List Char) : numberOf (stripped digits) = numberOf digits := by
  obtain ⟨n, hn⟩ := exists_zeros digits
  have hrest : numberOf digits = numberOf (digits.dropWhile (· = '0')) := by
    conv_lhs => rw [hn, numberOf_zeros]
  rcases stripped_cases digits with ⟨hempty, hstripped⟩ | ⟨-, hstripped⟩
  · rw [hrest, hstripped, hempty]
    decide
  · rw [hrest, hstripped]

theorem stripped_minimal (digits : List Char) : Quantity.Minimal (stripped digits) := by
  intro hhead
  rcases stripped_cases digits with ⟨-, hstripped⟩ | ⟨-, hstripped⟩
  · rw [hstripped]
    rfl
  · -- What is left starts with another digit.
    have hfirst := List.head?_dropWhile_not (· = '0') digits
    rw [← hstripped, hhead] at hfirst
    simp at hfirst

/-- Digits may have zeros in front exactly if they are those of a quantity without them. -/
theorem padded_iff {digits : List Char} :
    Padded digits ↔ digits ≠ [] ∧ Quantity.Canonical (stripped digits) := by
  constructor
  · rintro ⟨n, rest, rfl, hsome, hfew, hhex⟩
    have hlength : 0 < (List.replicate n '0' ++ rest).length := by
      rw [List.length_append, List.length_replicate]
      exact hsome
    refine ⟨List.length_pos_iff.mp hlength, ?_⟩
    rw [stripped_zeros]
    have hsublist := List.dropWhile_sublist (· = '0') (l := rest)
    have hminimal := stripped_minimal rest
    rcases stripped_cases rest with ⟨-, hstripped⟩ | ⟨hleft, hstripped⟩
    · rw [hstripped] at hminimal ⊢
      exact ⟨List.forall_mem_singleton.mpr (by decide), by decide, by decide, hminimal⟩
    · rw [hstripped] at hminimal ⊢
      exact ⟨fun c hc => hhex c (hsublist.subset hc), List.length_pos_iff.mpr hleft,
        Nat.le_trans hsublist.length_le hfew, hminimal⟩
  · rintro ⟨hnonempty, hcanonical⟩
    obtain ⟨n, hn⟩ := exists_zeros digits
    refine ⟨n, _, hn, ?_, ?_⟩
    · have hlength := congrArg List.length hn
      have hpos := List.length_pos_iff.mpr hnonempty
      simp only [List.length_append, List.length_replicate] at hlength
      omega
    · rcases stripped_cases digits with ⟨hempty, -⟩ | ⟨-, hstripped⟩
      · simp [hempty]
      · rw [hstripped] at hcanonical
        exact ⟨hcanonical.few, hcanonical.hex⟩

/-! ### Text -/

/-- Behind the marker, the strict reader gets the digits without the zeros in front. -/
theorem quantityOfText_mark {digits : List Char} (h : digits ≠ []) :
    quantityOfText field (mark digits) =
      (Quantity.decode (mark (stripped digits))).mapError
        fun e => .invalidField field (.codec e) := by
  cases digits with
  | nil => exact absurd rfl h
  | cons first rest =>
      rw [quantityOfText, unmark_mark]
      cases hdecode : Quantity.decode (mark (stripped (first :: rest))) with
      | ok w =>
          rw [stripped] at hdecode
          simp only [hdecode]
          rfl
      | error e =>
          rw [stripped] at hdecode
          simp only [hdecode]
          rfl

theorem quantityOfText_of_padded {digits : List Char} (h : Padded digits) :
    ∃ w : Word, quantityOfText field (mark digits) = .ok w ∧ w.toNat = numberOf digits := by
  obtain ⟨hnonempty, hcanonical⟩ := padded_iff.mp h
  obtain ⟨w, hdecode, hvalue, -⟩ := hcanonical.exists_word
  refine ⟨w, ?_, hvalue.trans (numberOf_stripped digits)⟩
  rw [quantityOfText_mark hnonempty, hdecode]
  rfl

theorem padded_of_quantityOfText {s : String} {w : Word} (h : quantityOfText field s = .ok w) :
    ∃ digits, s = mark digits ∧ Padded digits := by
  cases hs : unmark s.toList with
  | none =>
      rw [quantityOfText, hs] at h
      cases h
  | some digits =>
      obtain rfl := eq_mark_of_unmark hs
      refine ⟨digits, rfl, ?_⟩
      by_cases hnonempty : digits = []
      · subst hnonempty
        cases h
      · rw [quantityOfText_mark hnonempty] at h
        cases hdecode : Quantity.decode (mark (stripped digits)) with
        | error e =>
            rw [hdecode] at h
            cases h
        | ok w' =>
            obtain ⟨digits', hmark, hcanonical⟩ := Quantity.canonical_of_decode hdecode
            rw [← mark_injective hmark] at hcanonical
            exact padded_iff.mpr ⟨hnonempty, hcanonical⟩

theorem quantityOfText_zeros (n : Nat) {digits : List Char} (h : digits ≠ []) :
    quantityOfText field (mark (List.replicate n '0' ++ digits)) =
      quantityOfText field (mark digits) := by
  rw [quantityOfText_mark h, quantityOfText_mark (List.append_ne_nil_of_right_ne_nil _ h),
    stripped_zeros]

/-! ### Numbers

Numbers are told apart by how they are given and not by their value. One with a fraction or an
exponent is not taken, even where it is equal to one that is.
-/

/-- A number is read as an integer of 64 bits exactly if it is that integer. -/
theorem toUInt64?_eq_some_iff {number : Json.Number} {m : UInt64} :
    number.toUInt64? = some m ↔ number = .int m.toNat := by
  cases number with
  | float bits => simp [Json.Number.toUInt64?]
  | int value =>
      rw [Json.Number.toUInt64?]
      constructor
      · intro h
        split at h
        · rename_i hfits
          cases h
          have hlt : value.toNat < UInt64.size := by omega
          rw [UInt64.toNat_ofNat_of_lt' hlt, Int.toNat_of_nonneg hfits.1]
        · cases h
      · intro h
        cases h
        have hfits : (0 : Int) ≤ m.toNat ∧ (m.toNat : Int) < UInt64.size :=
          ⟨Int.natCast_nonneg _, by exact_mod_cast m.toNat_lt⟩
        rw [if_pos hfits, Int.toNat_natCast, UInt64.ofNat_toNat]

theorem toQuantity_nat {n : Nat} (h : n < 2 ^ 64) :
    toQuantity field (.num (.int n)) = .ok (Word.ofNat n) := by
  have hvalue : (UInt64.ofNat n).toNat = n := UInt64.toNat_ofNat_of_lt' h
  have hnumber : (Json.Number.int n).toUInt64? = some (UInt64.ofNat n) :=
    toUInt64?_eq_some_iff.mpr (by rw [hvalue])
  rw [toQuantity, hnumber]
  simp only [hvalue]

/-- A number that is not one of 64 bits without sign is no quantity, whatever its value. -/
theorem toQuantity_other {number : Json.Number} (h : ∀ n : Nat, n < 2 ^ 64 → number ≠ .int n) :
    toQuantity field (.num number) = .error (.invalidField field (.notUnsigned number)) := by
  have hnumber : number.toUInt64? = none := by
    cases hsome : number.toUInt64? with
    | none => rfl
    | some m => exact absurd (toUInt64?_eq_some_iff.mp hsome) (h m.toNat m.toNat_lt)
  rw [toQuantity, hnumber]

/-! ### Objects -/

/-- A value is the given one, or an object that wraps it. An object that names its type as a number
has the wrapped value under `hex`, any other under `_hex`. -/
inductive Wraps (inner : Json) : Json → Prop
  | bare : Wraps inner inner
  | typed {members : List (String × Json)} {v : Json}
      (type : Json.member? members "type" = some (.str "BigNumber"))
      (hex : Json.member? members "hex" = some v) (wraps : Wraps inner v) :
      Wraps inner (.obj members)
  | untyped {members : List (String × Json)} {v : Json}
      (type : Json.member? members "type" ≠ some (.str "BigNumber"))
      (hex : Json.member? members "_hex" = some v) (wraps : Wraps inner v) :
      Wraps inner (.obj members)

theorem bigNumberHex?_of_typed {members : List (String × Json)}
    (h : Json.member? members "type" = some (.str "BigNumber")) :
    bigNumberHex? members = Json.member? members "hex" := by
  simp only [bigNumberHex?, h]

theorem bigNumberHex?_of_untyped {members : List (String × Json)}
    (h : Json.member? members "type" ≠ some (.str "BigNumber")) :
    bigNumberHex? members = Json.member? members "_hex" := by
  unfold bigNumberHex?
  split
  · rename_i htype
    exact absurd htype h
  · rfl

theorem toQuantity_obj {members : List (String × Json)} {v : Json}
    (h : bigNumberHex? members = some v) :
    toQuantity field (.obj members) = toQuantity field v := by
  rw [toQuantity]
  split
  · rename_i hex hhex
    rw [h] at hhex
    cases hhex
    rfl
  · rename_i hnone
    rw [h] at hnone
    cases hnone

/-- What is wrapped is read in place of what wraps it. -/
theorem Wraps.toQuantity_eq {inner v : Json} (h : Wraps inner v) :
    toQuantity field v = toQuantity field inner := by
  induction h with
  | bare => rfl
  | typed type hex wraps ih =>
      rw [toQuantity_obj ((bigNumberHex?_of_typed type).trans hex), ih]
  | untyped type hex wraps ih =>
      rw [toQuantity_obj ((bigNumberHex?_of_untyped type).trans hex), ih]

/-! ### Arrays of bytes

The items are read from the left, and the first that is no byte ends the reading. So the error names
the first such item, whatever follows it.
-/

/-- An integer from 0 to 255. -/
def IsByte (v : Json) : Prop :=
  ∃ n : Nat, n ≤ 255 ∧ v = .num (.int n)

/-- The array that lists bytes as integers. -/
def byteArray (bytes : List UInt8) : Json :=
  .arr (bytes.map fun b => .num (.int b.toNat))

theorem toByte?_eq_some_iff {v : Json} {b : UInt8} :
    toByte? v = some b ↔ v = .num (.int b.toNat) := by
  constructor
  · intro h
    unfold toByte? at h
    split at h
    · rename_i m hm
      cases v with
      | num number =>
          rw [toUInt64?_eq_some_iff.mp hm]
          split at h
          · rename_i hlt
            cases h
            rw [UInt8.toNat_ofNat_of_lt' hlt]
          · cases h
      | _ => cases hm
    · cases h
  · rintro rfl
    have hlt := b.toNat_lt
    have hvalue : (UInt64.ofNat b.toNat).toNat = b.toNat :=
      UInt64.toNat_ofNat_of_lt' (Nat.lt_trans hlt (by decide))
    have hnumber : (Json.Number.int b.toNat).toUInt64? = some (UInt64.ofNat b.toNat) :=
      toUInt64?_eq_some_iff.mpr (by rw [hvalue])
    rw [toByte?, Json.toUInt64?, hnumber]
    simp only [hvalue, UInt8.ofNat_toNat]
    exact if_pos hlt

theorem isByte_iff {v : Json} : IsByte v ↔ ∃ b : UInt8, v = .num (.int b.toNat) := by
  constructor
  · rintro ⟨n, hn, rfl⟩
    exact ⟨UInt8.ofNat n, by rw [UInt8.toNat_ofNat_of_lt' (Nat.lt_succ_of_le hn)]⟩
  · rintro ⟨b, rfl⟩
    exact ⟨b.toNat, Nat.le_of_lt_succ b.toNat_lt, rfl⟩

theorem toByte?_of_isByte {v : Json} (h : IsByte v) : ∃ b, toByte? v = some b := by
  obtain ⟨b, hb⟩ := isByte_iff.mp h
  exact ⟨b, toByte?_eq_some_iff.mpr hb⟩

theorem toByte?_of_not_isByte {v : Json} (h : ¬ IsByte v) : toByte? v = none := by
  cases hv : toByte? v with
  | none => rfl
  | some b => exact absurd (isByte_iff.mpr ⟨b, toByte?_eq_some_iff.mp hv⟩) h

theorem toBytes_integers (bytes : List UInt8) :
    toBytes field (bytes.map fun b => .num (.int b.toNat)) = .ok bytes := by
  induction bytes with
  | nil => rfl
  | cons b bytes ih =>
      rw [List.map_cons, toBytes, toByte?_eq_some_iff.mpr rfl, ih]
      rfl

theorem toBytes_of_first {before after : List Json} {item : Json} (hbefore : ∀ v ∈ before, IsByte v)
    (hitem : ¬ IsByte item) :
    toBytes field (before ++ item :: after) = .error (.invalidField field (.notByte item)) := by
  induction before with
  | nil => rw [List.nil_append, toBytes, toByte?_of_not_isByte hitem]
  | cons first before ih =>
      obtain ⟨hfirst, hbefore⟩ := List.forall_mem_cons.mp hbefore
      obtain ⟨b, hb⟩ := toByte?_of_isByte hfirst
      rw [List.cons_append, toBytes, hb, ih hbefore]
      rfl

theorem toBytes_of_all {items : List Json} (h : ∀ v ∈ items, IsByte v) :
    ∃ bytes, toBytes field items = .ok bytes := by
  induction items with
  | nil => exact ⟨[], rfl⟩
  | cons first rest ih =>
      obtain ⟨hfirst, hrest⟩ := List.forall_mem_cons.mp h
      obtain ⟨b, hb⟩ := toByte?_of_isByte hfirst
      obtain ⟨bytes, hbytes⟩ := ih hrest
      exact ⟨b :: bytes, by rw [toBytes, hb, hbytes]; rfl⟩

theorem toData_byteArray (bytes : List UInt8) : toData field (byteArray bytes) = .ok ⟨bytes⟩ := by
  rw [byteArray, toData, toBytes_integers]
  rfl

/-- What is reported of an array is its first item that is no byte. -/
theorem toData_arr_eq_error_iff {items : List Json} {e : Error} :
    toData field (.arr items) = .error e ↔
      ∃ before item after, items = before ++ item :: after ∧ (∀ v ∈ before, IsByte v) ∧
        ¬ IsByte item ∧ e = .invalidField field (.notByte item) := by
  constructor
  · intro he
    rw [toData] at he
    rcases all_or_first IsByte items with hall | ⟨before, item, after, rfl, hbefore, hitem⟩
    · obtain ⟨bytes, hbytes⟩ := toBytes_of_all hall
      rw [hbytes] at he
      cases he
    · rw [toBytes_of_first hbefore hitem] at he
      cases he
      exact ⟨before, item, after, rfl, hbefore, hitem, rfl⟩
  · rintro ⟨before, item, after, rfl, hbefore, hitem, rfl⟩
    rw [toData, toBytes_of_first hbefore hitem]
    rfl

theorem toData_arr_fails_iff {items : List Json} :
    (∃ e, toData field (.arr items) = .error e) ↔ ∃ v ∈ items, ¬ IsByte v := by
  constructor
  · rintro ⟨e, he⟩
    obtain ⟨before, item, after, rfl, -, hitem, -⟩ := toData_arr_eq_error_iff.mp he
    exact ⟨item, by simp, hitem⟩
  · rintro ⟨v, hv, hnot⟩
    rcases all_or_first IsByte items with hall | ⟨before, item, after, heq, hbefore, hitem⟩
    · exact absurd (hall v hv) hnot
    · exact ⟨_, toData_arr_eq_error_iff.mpr ⟨before, item, after, heq, hbefore, hitem, rfl⟩⟩

/-! ### All forms -/

/-- What is known of quantities that are written loosely. -/
structure QuantityForms (field : String) : Prop where
  /-- The marker and digits with any number of zeros in front are read, and no other text is. -/
  reads_iff : ∀ s : String,
    (∃ w, toQuantity field (.str s) = .ok w) ↔ ∃ digits, s = mark digits ∧ Padded digits
  /-- What is read is the number that the digits stand for in base sixteen. -/
  reads : ∀ digits, Padded digits →
    ∃ w : Word, toQuantity field (.str (mark digits)) = .ok w ∧ w.toNat = numberOf digits
  /-- Whatever is a quantity in the strict sense is read as the same one. -/
  agrees : ∀ s w, Quantity.decode s = .ok w → toQuantity field (.str s) = .ok w
  /-- Zeros in front make no difference, not even to what is wrong with the text. -/
  zeros : ∀ n digits, digits ≠ [] →
    toQuantity field (.str (mark (List.replicate n '0' ++ digits))) =
      toQuantity field (.str (mark digits))
  /-- An integer of 64 bits is the quantity that its wire form is. -/
  integer : ∀ n : Nat, n < 2 ^ 64 → ∃ w : Word, w.toNat = n ∧
    toQuantity field (.num (.int n)) = .ok w ∧ toQuantity field (.str (Quantity.encode w)) = .ok w
  /-- No other number is a quantity. -/
  otherNumber : ∀ number : Json.Number, (∀ n : Nat, n < 2 ^ 64 → number ≠ .int n) →
    toQuantity field (.num number) = .error (.invalidField field (.notUnsigned number))
  /-- However deeply a value is wrapped, reading it ends as reading the bare value does. -/
  wrapped : ∀ inner v, Wraps inner v → toQuantity field v = toQuantity field inner

theorem quantityForms (field : String) : QuantityForms field where
  reads_iff := by
    intro s
    rw [toQuantity]
    constructor
    · rintro ⟨w, hread⟩
      exact padded_of_quantityOfText hread
    · rintro ⟨digits, rfl, hpadded⟩
      obtain ⟨w, hread, -⟩ := quantityOfText_of_padded hpadded
      exact ⟨w, hread⟩
  reads := by
    intro digits hpadded
    rw [toQuantity]
    exact quantityOfText_of_padded hpadded
  agrees := by
    intro s w hdecode
    rw [toQuantity]
    exact quantityOfText_of_decode hdecode field
  zeros := by
    intro n digits hnonempty
    rw [toQuantity, toQuantity]
    exact quantityOfText_zeros n hnonempty
  integer := by
    intro n hn
    refine ⟨Word.ofNat n, Word.toNat_ofNat hn, toQuantity_nat hn, ?_⟩
    rw [toQuantity]
    exact quantityOfText_of_decode (Quantity.decode_encode _) field
  otherNumber := fun number h => toQuantity_other h
  wrapped := fun inner v h => h.toQuantity_eq

/-- What is known of data that are written loosely. -/
structure DataForms (field : String) : Prop where
  /-- The array of some bytes and their wire form are both read as these bytes. -/
  bytes : ∀ bytes : List UInt8, toData field (byteArray bytes) = .ok ⟨bytes⟩ ∧
    toData field (.str (Data.encode ⟨bytes⟩)) = .ok ⟨bytes⟩
  /-- An array is refused exactly if it has an item that is no byte. -/
  refuses_iff : ∀ items, (∃ e, toData field (.arr items) = .error e) ↔ ∃ v ∈ items, ¬ IsByte v
  /-- What is reported is the first such item. -/
  reports_iff : ∀ items e, toData field (.arr items) = .error e ↔
    ∃ before item after, items = before ++ item :: after ∧ (∀ v ∈ before, IsByte v) ∧
      ¬ IsByte item ∧ e = .invalidField field (.notByte item)

theorem dataForms (field : String) : DataForms field where
  bytes := by
    intro bytes
    refine ⟨toData_byteArray bytes, ?_⟩
    rw [toData, Data.decode_encode]
  refuses_iff := fun items => toData_arr_fails_iff
  reports_iff := fun items e => toData_arr_eq_error_iff

/-- **A value means the same in every form in which it may be written**, and what is refused is
refused for its field. -/
theorem loose_forms_agree (field : String) : QuantityForms field ∧ DataForms field :=
  ⟨quantityForms field, dataForms field⟩

end LocalNode.Provider
