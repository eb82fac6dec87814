import Mathlib.Data.List.Nodup
import Mathlib.Logic.Relation
import LocalNode.Proofs.Codec.ByteStrings
import LocalNode.Proofs.Codec.Quantities
import LocalNode.Wire.Schema

/-!
The spellings of a value.

A value may be spelled in many ways. Hexadecimal digits have two cases, an object may have members
that its record does not know, and a member that may be `null` may as well be left out. A schema
tells where in a value each of these is so. `Schema.Respelled` is a change of spelling at one place,
and two values are alike if a chain of such changes, in either direction, leads from one to the
other.

That two arrays or two objects are alike follows from their parts. The parts are changed one after
another, so what is proved by induction is about values of which some parts have been changed and
the others not.
-/

namespace LocalNode

/-! ### Chains of changes -/

/-- A chain of changes to a part is a chain of changes to the whole. -/
theorem eqvGen_lift {α β : Type} {r : α → α → Prop} {r' : β → β → Prop} (f : α → β)
    (h : ∀ a b, r a b → Relation.EqvGen r' (f a) (f b)) {a b : α} (hab : Relation.EqvGen r a b) :
    Relation.EqvGen r' (f a) (f b) := by
  induction hab with
  | rel a b hstep => exact h a b hstep
  | refl a => exact .refl _
  | symm a b _ ih => exact .symm _ _ ih
  | trans a b c _ _ ihab ihbc => exact .trans _ _ _ ihab ihbc

/-! ### The cases of digits

What was read is written in lower case. So a text is read as a value exactly if it is what is
written for the value, up to the cases of its digits.
-/

namespace Text.Hex

theorem toLower_of_not_ascii {c : Char} (h : 128 ≤ c.toNat) : c.toLower = c := by
  have hbeyond : ¬ (c.val ≥ 'A'.val ∧ c.val ≤ 'Z'.val) := by
    rintro ⟨-, hle⟩
    rw [UInt32.le_iff_toNat_le] at hle
    exact absurd (Nat.le_trans h hle) (by decide)
  exact dif_neg hbeyond

theorem isHexDigit_toLower : ∀ c : Char, IsHexDigit c.toLower ↔ IsHexDigit c := by
  apply forall_char
  · decide +kernel
  · intro c hc
    rw [toLower_of_not_ascii hc]

theorem toLower_eq_zero : ∀ c : Char, c.toLower = '0' ↔ c = '0' := by
  apply forall_char
  · decide +kernel
  · intro c hc
    rw [toLower_of_not_ascii hc]

theorem forall_isHexDigit_toLower {cs : List Char} :
    (∀ c ∈ cs.map Char.toLower, IsHexDigit c) ↔ ∀ c ∈ cs, IsHexDigit c := by
  simp only [List.forall_mem_map, isHexDigit_toLower]

end Text.Hex

open Text.Hex

theorem Quantity.minimal_toLower {cs : List Char} :
    Minimal (cs.map Char.toLower) ↔ Minimal cs := by
  cases cs with
  | nil => rfl
  | cons first rest => simp [Minimal, toLower_eq_zero]

theorem Quantity.Canonical.of_toLower {cs : List Char} (h : Canonical (cs.map Char.toLower)) :
    Canonical cs where
  hex := forall_isHexDigit_toLower.mp h.hex
  nonempty := by simpa using h.nonempty
  few := by simpa using h.few
  minimal := minimal_toLower.mp h.minimal

/-- A text is read as a value if it is marked digits and the value is written as these digits in
lower case. -/
def ReadsEitherCase {α : Type} (read : String → Except CodecError α) (write : α → String) : Prop :=
  ∀ s a, read s = .ok a ↔ ∃ cs, s = mark cs ∧ write a = mark (cs.map Char.toLower)

/-- Digits are read in either case if whether they can be read at all does not depend on it. -/
theorem ReadsEitherCase.of_lower {α : Type} {read : String → Except CodecError α}
    {write : α → String} {P : List Char → Prop}
    (hreads : ∀ s, (∃ a, read s = .ok a) ↔ ∃ cs, s = mark cs ∧ P cs)
    (hlower : ∀ cs, P (cs.map Char.toLower) → P cs)
    (hwrites : ∀ cs a, read (mark cs) = .ok a → write a = mark (cs.map Char.toLower))
    (hreturns : ∀ a, read (write a) = .ok a) : ReadsEitherCase read write := by
  intro s a
  constructor
  · intro hread
    obtain ⟨cs, rfl, -⟩ := (hreads s).mp ⟨a, hread⟩
    exact ⟨cs, rfl, hwrites cs a hread⟩
  · rintro ⟨cs, rfl, hwritten⟩
    obtain ⟨cs', hmark, hfit⟩ := (hreads (write a)).mp ⟨a, hreturns a⟩
    rw [mark_injective (hmark.symm.trans hwritten)] at hfit
    obtain ⟨a', hread⟩ := (hreads (mark cs)).mpr ⟨cs, rfl, hlower cs hfit⟩
    -- The two values are written alike, so they are one.
    have hsame := hreturns a'
    rw [hwrites cs a' hread, ← hwritten, hreturns a] at hsame
    rw [hread, Except.ok.inj hsame]

theorem Quantity.readsEitherCase : ReadsEitherCase Quantity.decode Quantity.encode := by
  refine .of_lower (P := Canonical) ?_ (fun _ => Canonical.of_toLower) ?_ Quantity.decode_encode
  · intro s
    constructor
    · rintro ⟨w, hw⟩
      exact canonical_of_decode hw
    · rintro ⟨cs, rfl, hcs⟩
      exact ⟨_, hcs.decode⟩
  · intro cs w hw
    obtain ⟨cs', hmark, hcs⟩ := canonical_of_decode hw
    rw [← mark_injective hmark] at hcs
    obtain ⟨w', hw', -, hwritten⟩ := hcs.exists_word
    rw [hw] at hw'
    rw [Except.ok.inj hw', hwritten]

theorem FixedBytes.readsEitherCase (n : Nat) :
    ReadsEitherCase (FixedBytes.decode (n := n)) FixedBytes.encode := by
  refine .of_lower (wire_exact n).reads_iff ?_ (wire_exact n).writes (wire_exact n).returns
  rintro cs ⟨hhex, hlength⟩
  exact ⟨forall_isHexDigit_toLower.mp hhex, by simpa using hlength⟩

theorem Data.readsEitherCase : ReadsEitherCase Data.decode Data.encode := by
  refine .of_lower wire_exact.reads_iff ?_ wire_exact.writes wire_exact.returns
  rintro cs ⟨hhex, hlength⟩
  exact ⟨forall_isHexDigit_toLower.mp hhex, by simpa using hlength⟩

/-! ### Changes of spelling -/

namespace Schema

/-- Whether the values of a schema are digits behind a marker, all of them or some. -/
def hasDigits : Schema → Bool
  | .quantity | .address | .hash | .data | .block => true
  | _ => false

/-- A value of a schema is another one with its spelling changed at one place. -/
inductive Respelled : Schema → Json → Json → Prop
  /-- The digits behind the marker change their case. -/
  | digits {s : Schema} {cs cs' : List Char} (hs : s.hasDigits = true)
      (same : cs.map Char.toLower = cs'.map Char.toLower) :
      Respelled s (.str (mark cs)) (.str (mark cs'))
  /-- A value that may be `null` and is not. -/
  | nullable {s : Schema} {v v' : Json} (h : Respelled s v v') : Respelled (.nullable s) v v'
  /-- One item of an array. -/
  | item {s : Schema} {before after : List Json} {v v' : Json} (h : Respelled s v v') :
      Respelled (.array s) (.arr (before ++ v :: after)) (.arr (before ++ v' :: after))
  /-- One item of a tuple. -/
  | part {first last : List Schema} {s : Schema} {before after : List Json} {v v' : Json}
      (place : before.length = first.length) (h : Respelled s v v') :
      Respelled (.tuple (first ++ s :: last)) (.arr (before ++ v :: after))
        (.arr (before ++ v' :: after))
  /-- A value in one of several forms. -/
  | form {options : List Schema} {s : Schema} {v v' : Json} (hs : s ∈ options)
      (h : Respelled s v v') : Respelled (.oneOf options) v v'
  /-- One member of an object. -/
  | member {fields : List (String × Schema)} {given given' : List (String × Json)} {name : String}
      {v v' : Json} (others : ∀ other ≠ name, Json.member? given' other = Json.member? given other)
      (found : Json.member? given name = some v) (found' : Json.member? given' name = some v')
      (h : ∀ s, (name, s) ∈ fields → Respelled s v v') :
      Respelled (.record fields) (.obj given) (.obj given')
  /-- A member that may be `null` is left out in one object and is `null` in the other. -/
  | leftOut {fields : List (String × Schema)} {given given' : List (String × Json)} {name : String}
      (others : ∀ other ≠ name, Json.member? given' other = Json.member? given other)
      (absent : Json.member? given name = none) (null : Json.member? given' name = some .null)
      (h : ∀ s, (name, s) ∈ fields → ∃ inner, s = .nullable inner) :
      Respelled (.record fields) (.obj given) (.obj given')
  /-- Members that the record does not know are added, taken away or changed. -/
  | unknown {fields : List (String × Schema)} {given given' : List (String × Json)}
      (known : ∀ f ∈ fields, Json.member? given' f.1 = Json.member? given f.1) :
      Respelled (.record fields) (.obj given) (.obj given')

/-- Two values of a schema are the same but for their spelling. -/
abbrev Alike (s : Schema) : Json → Json → Prop :=
  Relation.EqvGen s.Respelled

variable {s : Schema} {v v' : Json}

theorem respelled_digits (hs : s.hasDigits = true) :
    s.Respelled v v' ↔ ∃ cs cs', v = .str (mark cs) ∧ v' = .str (mark cs') ∧
      cs.map Char.toLower = cs'.map Char.toLower := by
  constructor
  · intro h
    cases h with
    | digits _ same => exact ⟨_, _, rfl, rfl, same⟩
    | _ => cases hs
  · rintro ⟨cs, cs', rfl, rfl, same⟩
    exact .digits hs same

/-- Nothing is respelled as `null`, and `null` has no other spelling. -/
theorem Respelled.ne_null (h : s.Respelled v v') : v ≠ .null ∧ v' ≠ .null := by
  induction h with
  | digits | item | part | member | leftOut | unknown => exact ⟨nofun, nofun⟩
  | nullable _ ih => exact ih
  | form _ _ ih => exact ih

theorem Alike.nullable (h : s.Alike v v') : (Schema.nullable s).Alike v v' :=
  h.mono (fun _ _ => .nullable) _ _

/-- Arrays whose items are alike one by one are alike. Their items are changed from the left to the
right, and `before` are those that have been. -/
theorem alike_array {items items' : List Json} (h : List.Forall₂ s.Alike items items') :
    ∀ before, (array s).Alike (.arr (before ++ items)) (.arr (before ++ items')) := by
  induction h with
  | nil => exact fun _ => .refl _
  | @cons v v' rest rest' hitem _ ih =>
      intro before
      have hfirst : (array s).Alike (.arr (before ++ v :: rest)) (.arr (before ++ v' :: rest)) :=
        eqvGen_lift (fun v => Json.arr (before ++ v :: rest))
          (fun _ _ hstep => .rel _ _ (.item hstep)) hitem
      have hrest := ih (before ++ [v'])
      rw [← List.append_cons, ← List.append_cons] at hrest
      exact hfirst.trans _ _ _ hrest

/-! ### Changes to the members of an object

Of several members with one name only the first is found. An object is therefore compared by what is
found in it, and never as a list of members.
-/

/-- What an object has for a member, before and after a change of spelling. -/
inductive RespelledMember (s : Schema) : Option Json → Option Json → Prop
  | unchanged (found : Option Json) : RespelledMember s found found
  | value {v v' : Json} (h : s.Respelled v v') : RespelledMember s (some v) (some v')
  | leftOut {inner : Schema} (h : s = .nullable inner) : RespelledMember s none (some .null)

/-- What two objects have for a member is the same but for its spelling. -/
abbrev AlikeMember (s : Schema) : Option Json → Option Json → Prop :=
  Relation.EqvGen s.RespelledMember

theorem Alike.member (h : s.Alike v v') : s.AlikeMember (some v) (some v') :=
  eqvGen_lift some (fun _ _ hstep => .rel _ _ (.value hstep)) h

variable {fields : List (String × Schema)}

/-- An object is respelled by respelling what it has for the members of the record. -/
theorem Respelled.exists_members (h : (record fields).Respelled v v') :
    ∃ given given', v = .obj given ∧ v' = .obj given' ∧ ∀ f ∈ fields,
      f.2.RespelledMember (Json.member? given f.1) (Json.member? given' f.1) := by
  cases h with
  | digits hs => cases hs
  | @member _ given given' name v v' others found found' h =>
      refine ⟨given, given', rfl, rfl, ?_⟩
      rintro ⟨other, s⟩ hf
      by_cases hname : other = name
      · subst hname
        dsimp only
        rw [found, found']
        exact .value (h s hf)
      · dsimp only
        rw [others other hname]
        exact .unchanged _
  | @leftOut _ given given' name others absent null h =>
      refine ⟨given, given', rfl, rfl, ?_⟩
      rintro ⟨other, s⟩ hf
      by_cases hname : other = name
      · subst hname
        obtain ⟨inner, hinner⟩ := h s hf
        dsimp only
        rw [absent, null]
        exact .leftOut hinner
      · dsimp only
        rw [others other hname]
        exact .unchanged _
  | @unknown _ given given' known =>
      refine ⟨given, given', rfl, rfl, ?_⟩
      intro f hf
      rw [known f hf]
      exact .unchanged _

end Schema

/-- An object with what is given for one member put in the place of what it had. -/
def Json.withMember (given : List (String × Json)) (name : String) (found : Option Json) :
    List (String × Json) :=
  (found.map (name, ·)).toList ++ given.filter fun m => m.1 ≠ name

namespace Json

variable {given : List (String × Json)} {name other : String}

theorem member?_filter (h : other ≠ name) :
    member? (given.filter fun m => m.1 ≠ name) other = member? given other := by
  induction given with
  | nil => rfl
  | cons m given ih =>
      obtain ⟨first, v⟩ := m
      unfold member? at ih ⊢
      by_cases hfirst : first = name
      · subst hfirst
        simpa [List.lookup_cons, beq_eq_false_iff_ne.mpr h] using ih
      · simp only [List.filter_cons, decide_eq_true hfirst, if_true, List.lookup_cons, ih]

theorem member?_filter_self : member? (given.filter fun m => m.1 ≠ name) name = none := by
  rw [member?, List.lookup_eq_none_iff]
  intro m hm
  have hne := of_decide_eq_true (List.mem_filter.mp hm).2
  exact bne_iff_ne.mpr hne.symm

theorem member?_withMember_self (found : Option Json) :
    member? (withMember given name found) name = found := by
  cases found with
  | none => exact member?_filter_self
  | some v => simp [withMember, member?]

theorem member?_withMember_of_ne (h : other ≠ name) (found : Option Json) :
    member? (withMember given name found) other = member? given other := by
  have hfilter : member? (given.filter fun m => m.1 ≠ name) other = member? given other :=
    member?_filter h
  cases found with
  | none => exact hfilter
  | some v =>
      have hne : (other == name) = false := beq_eq_false_iff_ne.mpr h
      rw [← hfilter]
      simp only [withMember, member?, Option.map_some, Option.toList_some, List.cons_append,
        List.nil_append, List.lookup_cons, hne]

theorem member?_withMember_member? :
    member? (withMember given name (member? given name)) other = member? given other := by
  by_cases h : other = name
  · rw [h, member?_withMember_self]
  · exact member?_withMember_of_ne h _

end Json

namespace Schema

open Json

variable {fields : List (String × Schema)} {given given' : List (String × Json)}

theorem AlikeMember.withMember {name : String} {s : Schema} {found found' : Option Json}
    (hs : ∀ s', (name, s') ∈ fields → s' = s) (h : s.AlikeMember found found') :
    (record fields).Alike (.obj (withMember given name found))
      (.obj (withMember given name found')) := by
  refine eqvGen_lift (fun found => Json.obj (Json.withMember given name found)) ?_ h
  intro found found' hstep
  have hothers : ∀ other ≠ name, member? (Json.withMember given name found') other =
      member? (Json.withMember given name found) other := by
    intro other hother
    rw [member?_withMember_of_ne hother, member?_withMember_of_ne hother]
  cases hstep with
  | unchanged => exact .refl _
  | value hvalue =>
      refine .rel _ _ (.member hothers (member?_withMember_self _) (member?_withMember_self _) ?_)
      intro s' hs'
      rw [hs s' hs']
      exact hvalue
  | @leftOut inner hinner =>
      refine .rel _ _ (.leftOut hothers (member?_withMember_self _) (member?_withMember_self _) ?_)
      intro s' hs'
      exact ⟨inner, (hs s' hs').trans hinner⟩

/-- Objects that have alike values for the members of a record are alike. The members are changed
one by one, and `todo` are those that have not been. -/
theorem alike_record (hdistinct : (fields.map (·.1)).Nodup) :
    ∀ (todo : List (String × Schema)) (given : List (String × Json)), todo ⊆ fields →
      (∀ f ∈ todo, f.2.AlikeMember (member? given f.1) (member? given' f.1)) →
      (∀ f ∈ fields, f ∉ todo → member? given' f.1 = member? given f.1) →
      (record fields).Alike (.obj given) (.obj given') := by
  intro todo
  induction todo with
  | nil =>
      intro given _ _ hdone
      exact .rel _ _ (.unknown fun f hf => hdone f hf List.not_mem_nil)
  | cons next todo ih =>
      intro given hsub halike hdone
      obtain ⟨hnext, htodo⟩ := List.forall_mem_cons.mp halike
      obtain ⟨hmem, hsub⟩ := List.cons_subset.mp hsub
      have hsame : (record fields).Alike (.obj given)
          (.obj (withMember given next.1 (member? given next.1))) :=
        .rel _ _ (.unknown fun _ _ => member?_withMember_member?)
      have hchange : (record fields).Alike (.obj (withMember given next.1 (member? given next.1)))
          (.obj (withMember given next.1 (member? given' next.1))) := by
        refine AlikeMember.withMember ?_ hnext
        intro s' hs'
        exact congrArg Prod.snd (List.inj_on_of_nodup_map hdistinct hs' hmem rfl)
      refine (hsame.trans _ _ _ hchange).trans _ _ _ (ih _ hsub ?_ ?_)
      · intro f hf
        by_cases hname : f.1 = next.1
        · rw [hname, member?_withMember_self]
          exact .refl _
        · rw [member?_withMember_of_ne hname]
          exact htodo f hf
      · intro f hf hnot
        by_cases hname : f.1 = next.1
        · rw [hname, member?_withMember_self]
        · rw [member?_withMember_of_ne hname]
          refine hdone f hf ?_
          rw [List.mem_cons, not_or]
          exact ⟨fun heq => hname (congrArg Prod.fst heq), hnot⟩

end Schema

end LocalNode
