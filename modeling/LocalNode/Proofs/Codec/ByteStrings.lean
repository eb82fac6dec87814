import LocalNode.Proofs.Codec.Digits

/-!
Which texts are byte strings, and how the readers of byte strings agree.

There are two readers. The one of data counts the digits itself before it reads them, the one of
byte strings of fixed length leaves counting to the reader of digits and compares lengths last. Both
read the same digits, and `Readings` says in which ways the two can end on one text. Everything else
follows from this list and from what is known of the digits.

Digits are read pair by pair, so the inductions here follow the reader: two digits at a time, with
one digit left over at the end or none.
-/

namespace LocalNode

namespace Text.Hex

/-! ### Pairs of digits -/

theorem length_ofBytes (bytes : List UInt8) : (ofBytes bytes).length = 2 * bytes.length := by
  induction bytes with
  | nil => rfl
  | cons b bytes ih =>
      rw [ofBytes_cons, List.length_cons, List.length_cons, ih, List.length_cons]
      omega

/-- The byte of two digits is written as these digits in lower case. -/
theorem byteDigits_pair {hi lo : Char} (hhi : IsHexDigit hi) (hlo : IsHexDigit lo) :
    byteDigits (UInt8.ofNat (16 * digitValue hi + digitValue lo)) = [hi.toLower, lo.toLower] := by
  have hhiLt := hhi.digitValue_lt
  have hloLt := hlo.digitValue_lt
  have hvalue : (UInt8.ofNat (16 * digitValue hi + digitValue lo)).toNat =
      16 * digitValue hi + digitValue lo := by
    apply UInt8.toNat_ofNat_of_lt'
    show _ < 256
    omega
  have hhigh : (16 * digitValue hi + digitValue lo) / 16 = digitValue hi := by omega
  have hlow : (16 * digitValue hi + digitValue lo) % 16 = digitValue lo := by omega
  rw [byteDigits, hvalue, hhigh, hlow, hhi.digit_digitValue, hlo.digit_digitValue]

theorem of_value?_eq_some {c : Char} {v : Nat} (h : value? c = some v) :
    IsHexDigit c ∧ v = digitValue c := by
  rw [value?_eq] at h
  split at h
  · rename_i hc
    exact ⟨hc, (Option.some.inj h).symm⟩
  · cases h

/-- What is read are digits, and writing what was read gives them in lower case. -/
theorem of_readPairs {position : Nat} {cs : List Char} {bytes : List UInt8}
    (h : readPairs position cs = .ok bytes) :
    (∀ c ∈ cs, IsHexDigit c) ∧ ofBytes bytes = cs.map Char.toLower := by
  fun_induction readPairs position cs generalizing bytes with
  | case1 position =>
      cases h
      exact ⟨nofun, rfl⟩
  | case3 position hi lo rest high low hlow hhigh ih =>
      obtain ⟨hhi, rfl⟩ := of_value?_eq_some hhigh
      obtain ⟨hlo, rfl⟩ := of_value?_eq_some hlow
      cases hrest : readPairs (position + 2) rest with
      | error fault =>
          rw [hrest] at h
          cases h
      | ok others =>
          obtain ⟨hhex, hwritten⟩ := ih hrest
          rw [hrest] at h
          cases h
          refine ⟨List.forall_mem_cons.mpr ⟨hhi, List.forall_mem_cons.mpr ⟨hlo, hhex⟩⟩, ?_⟩
          rw [ofBytes, List.flatMap_cons, byteDigits_pair hhi hlo, ← ofBytes, hwritten]
          rfl
  | case2 | case4 | case5 => cases h

/-- Pairs of digits are read without a fault. -/
theorem exists_readPairs {position : Nat} {cs : List Char} (hhex : ∀ c ∈ cs, IsHexDigit c)
    (heven : cs.length % 2 = 0) : ∃ bytes, readPairs position cs = .ok bytes := by
  fun_induction readPairs position cs with
  | case1 position => exact ⟨_, rfl⟩
  | case2 position c => cases heven
  | case3 position hi lo rest high low hlow hhigh ih =>
      obtain ⟨-, hothers⟩ := List.forall_mem_cons.mp hhex
      obtain ⟨-, hrest⟩ := List.forall_mem_cons.mp hothers
      have hrestEven : rest.length % 2 = 0 := by
        simp only [List.length_cons] at heven
        omega
      obtain ⟨bytes, hbytes⟩ := ih hrest hrestEven
      rw [hbytes]
      exact ⟨_, rfl⟩
  | case4 position hi lo rest hhigh =>
      rw [(hhex hi (by simp)).value?_eq_some] at hhigh
      cases hhigh
  | case5 position hi lo rest high hlow hhigh =>
      rw [(hhex lo (by simp)).value?_eq_some] at hlow
      cases hlow

theorem of_toBytes {cs : List Char} {bytes : List UInt8} (h : toBytes cs = .ok bytes) :
    (∀ c ∈ cs, IsHexDigit c) ∧ ofBytes bytes = cs.map Char.toLower ∧
      cs.length = 2 * bytes.length := by
  unfold toBytes at h
  split at h
  · cases h
  · obtain ⟨hhex, hwritten⟩ := of_readPairs h
    have hlength := congrArg List.length hwritten
    rw [length_ofBytes, List.length_map] at hlength
    exact ⟨hhex, hwritten, hlength.symm⟩

theorem exists_toBytes {cs : List Char} (hhex : ∀ c ∈ cs, IsHexDigit c)
    (heven : cs.length % 2 = 0) : ∃ bytes, toBytes cs = .ok bytes := by
  have hcount : ¬ byteCount cs % 2 ≠ 0 := by
    rw [byteCount_of_digits hhex]
    exact not_not_intro heven
  rw [toBytes, if_neg hcount]
  exact exists_readPairs hhex heven

end Text.Hex

open Text.Hex

/-! ### The two readers side by side

The readers differ in when they count the digits. So an odd number of digits is reported by each of
them in its own way, and in all other cases they end alike.
-/

/-- The ways in which the two readers can end on one text. -/
inductive Readings (s : String) : Prop
  /-- Both miss the marker. -/
  | unmarked (unmarked : ∀ digits, s ≠ mark digits) (data : Data.decode s = .error (.unmarked s))
      (fixed : ∀ n, FixedBytes.decode (n := n) s = .error (.unmarked s))
  /-- Both read the same bytes, and then lengths are compared. -/
  | read {digits : List Char} {bytes : List UInt8} (text : s = mark digits)
      (bytes_eq : toBytes digits = .ok bytes) (data : Data.decode s = .ok ⟨bytes⟩)
      (fixed : ∀ n, FixedBytes.decode (n := n) s = FixedBytes.ofBytes bytes)
  /-- Both fail on the digits, and only an odd number of them is reported differently. -/
  | faulty {digits : List Char} {fault : Fault} {e : CodecError} (text : s = mark digits)
      (fault_eq : toBytes digits = .error fault) (data : Data.decode s = .error e)
      (reported : e = .invalidHex fault ∨ fault = .oddDigits ∧ ∃ count, e = .oddLength count)
      (fixed : ∀ n, FixedBytes.decode (n := n) s = .error (.invalidHex fault))

theorem readings (s : String) : Readings s := by
  cases hs : unmark s.toList with
  | none =>
      refine .unmarked (ne_mark_of_unmark hs) ?_ fun n => ?_
      · rw [Data.decode, hs]
      · rw [FixedBytes.decode, hs]
  | some digits =>
      have htext := eq_mark_of_unmark hs
      by_cases hodd : byteCount digits % 2 ≠ 0
      · -- The reader of digits counts as well, so both readers end here.
        have hfault : toBytes digits = .error .oddDigits := if_pos hodd
        refine .faulty htext hfault ?_ (.inr ⟨rfl, byteCount digits, rfl⟩) fun n => ?_
        · simp only [Data.decode, hs]
          exact if_pos hodd
        · simp only [FixedBytes.decode, hs, hfault]
      · cases hbytes : toBytes digits with
        | ok bytes =>
            refine .read htext hbytes ?_ fun n => ?_
            · simp only [Data.decode, hs, hbytes]
              exact if_neg hodd
            · simp only [FixedBytes.decode, hs, hbytes]
        | error fault =>
            refine .faulty htext hbytes ?_ (.inl rfl) fun n => ?_
            · simp only [Data.decode, hs, hbytes]
              exact if_neg hodd
            · simp only [FixedBytes.decode, hs, hbytes]

/-! ### Data -/

namespace Data

theorem decode_eq_ok_iff {s : String} {d : Data} :
    decode s = .ok d ↔ ∃ digits, s = mark digits ∧ toBytes digits = .ok d.bytes := by
  cases readings s with
  | unmarked unmarked data fixed =>
      rw [data]
      constructor
      · nofun
      · rintro ⟨digits, htext, -⟩
        exact absurd htext (unmarked digits)
  | read text bytes_eq data fixed =>
      subst text
      rw [data]
      constructor
      · intro h
        cases h
        exact ⟨_, rfl, bytes_eq⟩
      · rintro ⟨digits, htext, hbytes⟩
        rw [← mark_injective htext, bytes_eq] at hbytes
        cases hbytes
        rfl
  | faulty text fault_eq data reported fixed =>
      subst text
      rw [data]
      constructor
      · nofun
      · rintro ⟨digits, htext, hbytes⟩
        rw [← mark_injective htext, fault_eq] at hbytes
        cases hbytes

/-- What is known of data and their wire form. -/
structure Exact : Prop where
  /-- The marker and an even number of digits are read, and nothing else is. -/
  reads_iff : ∀ s : String, (∃ d, decode s = .ok d) ↔
    ∃ digits, s = mark digits ∧ (∀ c ∈ digits, IsHexDigit c) ∧ digits.length % 2 = 0
  /-- Writing what was read gives the same text in lower case. -/
  writes : ∀ digits d, decode (mark digits) = .ok d → encode d = mark (digits.map Char.toLower)
  /-- What was written is read back. -/
  returns : ∀ d, decode (encode d) = .ok d

theorem wire_exact : Exact where
  reads_iff := by
    intro s
    constructor
    · rintro ⟨d, hdecode⟩
      obtain ⟨digits, htext, hbytes⟩ := decode_eq_ok_iff.mp hdecode
      obtain ⟨hhex, -, hlength⟩ := of_toBytes hbytes
      exact ⟨digits, htext, hhex, by omega⟩
    · rintro ⟨digits, htext, hhex, heven⟩
      obtain ⟨bytes, hbytes⟩ := exists_toBytes hhex heven
      exact ⟨⟨bytes⟩, decode_eq_ok_iff.mpr ⟨digits, htext, hbytes⟩⟩
  writes := by
    intro digits d hdecode
    obtain ⟨digits', htext, hbytes⟩ := decode_eq_ok_iff.mp hdecode
    obtain ⟨-, hwritten, -⟩ := of_toBytes hbytes
    rw [mark_injective htext, encode, hwritten]
  returns := decode_encode

end Data

/-! ### Byte strings of fixed length -/

namespace FixedBytes

variable {n : Nat}

theorem ofBytes_eq_ok_iff {bytes : List UInt8} {b : FixedBytes n} :
    ofBytes bytes = .ok b ↔ bytes = b.bytes := by
  unfold ofBytes
  constructor
  · intro h
    split at h
    · cases h
      rfl
    · cases h
  · rintro rfl
    rw [dif_pos b.length_eq]

theorem decode_eq_ok_iff {s : String} {b : FixedBytes n} :
    decode s = .ok b ↔ Data.decode s = .ok ⟨b.bytes⟩ := by
  cases readings s with
  | unmarked unmarked data fixed =>
      rw [data, fixed]
      exact ⟨nofun, nofun⟩
  | read text bytes_eq data fixed =>
      rw [data, fixed, ofBytes_eq_ok_iff, Except.ok.injEq, Data.mk.injEq]
  | faulty text fault_eq data reported fixed =>
      rw [data, fixed]
      exact ⟨nofun, nofun⟩

/-- What is known of byte strings of `n` bytes and their wire form. -/
structure Exact (n : Nat) : Prop where
  /-- The marker and two digits a byte are read, and nothing else is. -/
  reads_iff : ∀ s : String, (∃ b : FixedBytes n, decode s = .ok b) ↔
    ∃ digits, s = mark digits ∧ (∀ c ∈ digits, IsHexDigit c) ∧ digits.length = 2 * n
  /-- Writing what was read gives the same text in lower case. -/
  writes : ∀ digits (b : FixedBytes n), decode (mark digits) = .ok b →
    encode b = mark (digits.map Char.toLower)
  /-- What was written is read back. -/
  returns : ∀ b : FixedBytes n, decode (encode b) = .ok b
  /-- What is read is what is read as data, if that has the right length. -/
  ok_iff : ∀ (s : String) (b : FixedBytes n), decode s = .ok b ↔ Data.decode s = .ok ⟨b.bytes⟩
  /-- Data of another length are refused for their length. -/
  wrongLength : ∀ (s : String) (d : Data), Data.decode s = .ok d → d.bytes.length ≠ n →
    decode (n := n) s = .error (.wrongLength n d.bytes.length)
  /-- The marker is missed where it is missed in data. -/
  unmarked_iff : ∀ s t : String,
    decode (n := n) s = .error (.unmarked t) ↔ Data.decode s = .error (.unmarked t)
  /-- What else cannot be read as data is refused for its digits, with the same fault unless their
  number is odd. -/
  invalidHex : ∀ (s : String) (e : CodecError), Data.decode s = .error e →
    (∀ t, e ≠ .unmarked t) → ∃ fault, decode (n := n) s = .error (.invalidHex fault) ∧
      (e = .invalidHex fault ∨ fault = .oddDigits ∧ ∃ count, e = .oddLength count)

theorem wire_exact (n : Nat) : Exact n where
  reads_iff := by
    intro s
    constructor
    · rintro ⟨b, hdecode⟩
      obtain ⟨digits, htext, hbytes⟩ := Data.decode_eq_ok_iff.mp (decode_eq_ok_iff.mp hdecode)
      obtain ⟨hhex, -, hlength⟩ := of_toBytes hbytes
      rw [b.length_eq] at hlength
      exact ⟨digits, htext, hhex, hlength⟩
    · rintro ⟨digits, htext, hhex, hlength⟩
      obtain ⟨bytes, hbytes⟩ := exists_toBytes hhex (by omega)
      obtain ⟨-, -, hcount⟩ := of_toBytes hbytes
      have hdata : Data.decode s = .ok ⟨bytes⟩ := Data.decode_eq_ok_iff.mpr ⟨digits, htext, hbytes⟩
      exact ⟨⟨bytes, by omega⟩, decode_eq_ok_iff.mpr hdata⟩
  writes := by
    intro digits b hdecode
    exact Data.wire_exact.writes digits ⟨b.bytes⟩ (decode_eq_ok_iff.mp hdecode)
  returns := decode_encode
  ok_iff := fun s b => decode_eq_ok_iff
  wrongLength := by
    intro s d hdata hlength
    cases readings s with
    | unmarked unmarked data fixed =>
        rw [data] at hdata
        cases hdata
    | read text bytes_eq data fixed =>
        rw [data] at hdata
        cases hdata
        rw [fixed, ofBytes, dif_neg hlength]
    | faulty text fault_eq data reported fixed =>
        rw [data] at hdata
        cases hdata
  unmarked_iff := by
    intro s t
    cases readings s with
    | unmarked unmarked data fixed =>
        rw [data, fixed, Except.error.injEq, Except.error.injEq]
    | read text bytes_eq data fixed =>
        rw [data, fixed, ofBytes]
        split <;> simp
    | faulty text fault_eq data reported fixed =>
        rw [data, fixed]
        rcases reported with rfl | ⟨-, count, rfl⟩
        · simp
        · simp
  invalidHex := by
    intro s e hdata hmarked
    cases readings s with
    | unmarked unmarked data fixed =>
        rw [data] at hdata
        cases hdata
        exact absurd rfl (hmarked s)
    | read text bytes_eq data fixed =>
        rw [data] at hdata
        cases hdata
    | faulty text fault_eq data reported fixed =>
        rw [data] at hdata
        cases hdata
        exact ⟨_, fixed n, reported⟩

end FixedBytes

/-- **The wire form of byte strings is exact**, for data and for byte strings of every fixed length:
addresses have 20 bytes and hashes 32. The texts that are read are those of the grammar, what is
read is written as the same text in lower case, and the two readers agree. -/
theorem reads_byte_strings : Data.Exact ∧ ∀ n, FixedBytes.Exact n :=
  ⟨Data.wire_exact, FixedBytes.wire_exact⟩

end LocalNode
