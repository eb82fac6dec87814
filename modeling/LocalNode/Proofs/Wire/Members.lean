import LocalNode.Proofs.Wire.Laws
import LocalNode.Wire.Tuple

/-!
Records and tuples obey the laws that their members obey.

A record is written as an object and read back by the names of its members. That no member takes the
value of another rests on the names being distinct. Reading goes through the list of members and
looks at the same object all the way, so what is proved by induction on the list is about any object
that agrees with the written one on the names still to come.

A tuple is written as an array, where the items are told apart by their positions.
-/

namespace LocalNode.Wire

open Schema

/-! ### Single members

Leaving a member out is for readers and for writers. A reader needs a value for that case, and a
writer may do it for no other value.
-/

namespace Member

variable {α : Type} {w : Wire α} {settle : α → α} {member : Member α}

/-- What is written for a member, if anything. -/
def written (member : Member α) (w : Wire α) (a : α) : Option Json :=
  if member.omits a then none else some (w.encode a)

/-- Leaving a member out is allowed by its schema only if there is a value for that case, and values
are left out only if they are that value. -/
structure Fits (member : Member α) (w : Wire α) (settle : α → α) : Prop where
  absent_isSome : w.schema.Conforms none → ∃ a, member.absent = some a
  omitted : ∀ a, member.omits a = true → w.schema.Conforms none ∧ member.absent = some (settle a)
  omits_settle : ∀ a, member.omits (settle a) = member.omits a

theorem required_fits {name : String} (h : Solid w) : (required name).Fits w settle where
  absent_isSome := fun habsent => (h.not_absent habsent).elim
  omitted := nofun
  omits_settle := fun _ => rfl

theorem nullable_fits {name : String} : (nullable name).Fits w.option id where
  absent_isSome := fun _ => ⟨none, rfl⟩
  omitted := nofun
  omits_settle := fun _ => rfl

theorem optional_fits {name : String} : (optional name).Fits w.option id where
  absent_isSome := fun _ => ⟨none, rfl⟩
  omitted := by
    intro o homits
    rw [Option.isNone_iff_eq_none.mp homits]
    exact ⟨conforms_nullable.mpr (.inl rfl), rfl⟩
  omits_settle := fun _ => rfl

theorem readMember_absent {a : α} (h : member.absent = some a) :
    Members.readMember w member none = .ok a := by
  unfold Members.readMember
  rw [h]

theorem Fits.readable (h : member.Fits w settle) (hreadable : Readable w) {found : Option Json}
    (hfound : w.schema.Conforms found) : ∃ a, Members.readMember w member found = .ok a := by
  cases found with
  | none =>
      obtain ⟨a, ha⟩ := h.absent_isSome hfound
      exact ⟨a, readMember_absent ha⟩
  | some v => exact hreadable v hfound

theorem Fits.conforms (h : member.Fits w settle) (hround : RoundTrips w settle) (a : α) :
    w.schema.Conforms (member.written w a) := by
  unfold written
  split
  · rename_i homits
    exact (h.omitted a homits).1
  · exact hround.conforms a

theorem Fits.readMember_written (h : member.Fits w settle) (hround : RoundTrips w settle) (a : α) :
    Members.readMember w member (member.written w a) = .ok (settle a) := by
  unfold written
  split
  · rename_i homits
    exact readMember_absent (h.omitted a homits).2
  · exact hround.decode_encode a

end Member

namespace Members

variable {α β : Type}

/-! ### Members one by one -/

/-- The names of the members. -/
def names {α : Type} : Members Wire α → List String
  | .nil => []
  | .cons _ member rest => member.name :: rest.names

/-- Every member obeys the laws. -/
inductive Lawful : {α : Type} → Members Wire α → (α → α) → Prop
  | nil : Lawful .nil id
  | cons {α β : Type} {dict : Wire α} {member : Member α} {rest : Members Wire β} {f : α → α}
      {g : β → β} (readable : Readable dict) (roundTrips : RoundTrips dict f)
      (fits : member.Fits dict f) (others : Lawful rest g) :
      Lawful (.cons dict member rest) (Prod.map f g)

section Front

variable [w : Wire α] {rest : Members Wire β} {f : α → α} {g : β → β} {name : String}

theorem Lawful.required (h : Wire.Lawful w f) (hrest : rest.Lawful g) :
    (Members.required α name rest).Lawful (Prod.map f g) :=
  .cons h.readable h.roundTrips (Member.required_fits h.solid) hrest

theorem Lawful.required_id (h : Wire.Lawful w id) (hrest : rest.Lawful id) :
    (Members.required α name rest).Lawful id := by
  have hboth : (Members.required α name rest).Lawful (Prod.map id id) := .required h hrest
  rwa [Prod.map_id] at hboth

theorem Lawful.nullable (h : Wire.Lawful w id) (hrest : rest.Lawful g) :
    (Members.nullable α name rest).Lawful (Prod.map id g) :=
  .cons h.readable.option h.option_roundTrips Member.nullable_fits hrest

theorem Lawful.optional (h : Wire.Lawful w id) (hrest : rest.Lawful g) :
    (Members.optional α name rest).Lawful (Prod.map id g) :=
  .cons h.readable.option h.option_roundTrips Member.optional_fits hrest

end Front

variable {dict : Wire α} {member : Member α} {rest : Members Wire β}

/-! ### Reading an object -/

theorem readObject_cons_eq_ok {given : List (String × Json)} {p : α × β} :
    (cons dict member rest).readObject given = .ok p ↔
      readMember dict member (Json.member? given member.name) = .ok p.1 ∧
        rest.readObject given = .ok p.2 := by
  rw [readObject, bind_eq_ok]
  constructor
  · rintro ⟨a, ha, h⟩
    obtain ⟨as, has, h⟩ := bind_eq_ok.mp h
    cases h
    exact ⟨ha, has⟩
  · rintro ⟨ha, has⟩
    exact ⟨p.1, ha, bind_eq_ok.mpr ⟨p.2, has, rfl⟩⟩

theorem Lawful.readObject {ms : Members Wire α} {settle : α → α} (h : ms.Lawful settle)
    {given : List (String × Json)}
    (hgiven : ∀ f ∈ ms.schemas, f.2.Conforms (Json.member? given f.1)) :
    ∃ as, ms.readObject given = .ok as := by
  induction h with
  | nil => exact ⟨(), rfl⟩
  | cons readable roundTrips fits others ih =>
      rw [schemas, List.forall_mem_cons] at hgiven
      obtain ⟨a, ha⟩ := fits.readable readable hgiven.1
      obtain ⟨as, has⟩ := ih hgiven.2
      exact ⟨(a, as), readObject_cons_eq_ok.mpr ⟨ha, has⟩⟩

/-- An object that can be read has no fault in any of the values that it gives. -/
theorem faults_eq_none {ms : Members Wire α} {given : List (String × Json)} {as : α}
    (h : ms.readObject given = .ok as) :
    ∀ p ∈ ms.faults, (Json.member? given p.1).bind p.2 = none := by
  induction ms with
  | nil => simp [faults]
  | cons dict member rest ih =>
      obtain ⟨ha, has⟩ := readObject_cons_eq_ok.mp h
      rw [faults, List.forall_mem_cons]
      refine ⟨?_, ih has⟩
      cases hfound : Json.member? given member.name with
      | none => rfl
      | some v =>
          rw [hfound] at ha
          show faultOf (dict.decode v) = none
          rw [show dict.decode v = _ from ha]
          rfl

theorem firstFault_eq_none {ms : Members Wire α} {given : List (String × Json)} {as : α}
    (h : ms.readObject given = .ok as) : ms.firstFault given = none := by
  rw [firstFault, List.findSome?_eq_none_iff]
  intro p hp
  exact faults_eq_none h p (List.mem_mergeSort.mp hp)

/-! ### Reading what was written

The object has all its members, while the induction goes on with those that are left. So the
statement is about any object that has the right values for these.
-/

theorem encode_cons (a : α) (as : β) :
    (cons dict member rest).encode (a, as) =
      ((member.written dict a).map (member.name, ·)).toList ++ rest.encode as := by
  rw [encode, Member.written]
  split <;> rfl

theorem member?_encode_of_ne {name : String} (h : name ≠ member.name) (a : α) (as : β) :
    Json.member? ((cons dict member rest).encode (a, as)) name =
      Json.member? (rest.encode as) name := by
  have hne : (name == member.name) = false := beq_eq_false_iff_ne.mpr h
  rw [encode_cons]
  cases member.written dict a with
  | none => rfl
  | some v => simp [Json.member?, List.lookup_cons, hne]

theorem member?_encode_of_not_mem {ms : Members Wire α} {name : String} (h : name ∉ ms.names) :
    ∀ as, Json.member? (ms.encode as) name = none := by
  induction ms with
  | nil => intro as; rfl
  | cons dict member rest ih =>
      rintro ⟨a, as⟩
      rw [names, List.mem_cons, not_or] at h
      rw [member?_encode_of_ne h.1, ih h.2]

theorem member?_encode_self (h : member.name ∉ rest.names) (a : α) (as : β) :
    Json.member? ((cons dict member rest).encode (a, as)) member.name =
      member.written dict a := by
  rw [encode_cons]
  cases member.written dict a with
  | none => exact member?_encode_of_not_mem h as
  | some v => simp [Json.member?]

/-- An object with the written members has values that conform and are read back, whatever else it
has. -/
theorem Lawful.readObject_encode {ms : Members Wire α} {settle : α → α} (h : ms.Lawful settle)
    (hdistinct : ms.names.Nodup) : ∀ (as : α) (given : List (String × Json)),
    (∀ name ∈ ms.names, Json.member? given name = Json.member? (ms.encode as) name) →
      (∀ f ∈ ms.schemas, f.2.Conforms (Json.member? given f.1)) ∧
        ms.readObject given = .ok (settle as) := by
  induction h with
  | nil => intro as given _; exact ⟨nofun, rfl⟩
  | cons readable roundTrips fits others ih =>
      rintro ⟨a, as⟩ given hgiven
      rw [names, List.nodup_cons] at hdistinct
      rw [names, List.forall_mem_cons, member?_encode_self hdistinct.1] at hgiven
      obtain ⟨hhead, htail⟩ := hgiven
      have hrest := ih hdistinct.2 as given ?_
      · rw [schemas, List.forall_mem_cons, readObject_cons_eq_ok]
        show (_ ∧ _) ∧ _ ∧ _
        rw [hhead]
        exact ⟨⟨fits.conforms roundTrips a, hrest.1⟩, fits.readMember_written roundTrips a,
          hrest.2⟩
      · intro name hname
        rw [htail name hname, member?_encode_of_ne]
        rintro rfl
        exact hdistinct.1 hname

theorem Lawful.encode_settle {ms : Members Wire α} {settle : α → α} (h : ms.Lawful settle) :
    ∀ as, ms.encode (settle as) = ms.encode as := by
  induction h with
  | nil => intro as; rfl
  | cons readable roundTrips fits others ih =>
      rintro ⟨a, as⟩
      show encode _ (_, _) = _
      rw [encode_cons, encode_cons, ih as, Member.written, Member.written, fits.omits_settle,
        roundTrips.encode_settle]

end Members

/-! ### Records -/

namespace Record

variable {R : Type} {r : Record Wire R} {f : r.Values → r.Values} {settle : R → R}

theorem decode_obj {given : List (String × Json)} {as : r.Values}
    (h : r.members.readObject given = .ok as) : r.decode (.obj given) = .ok (r.build as) := by
  rw [decode, Members.firstFault_eq_none h, h]
  rfl

/-- **A record obeys the laws if its members do**, their names are distinct, and it is rebuilt from
the values of its members. -/
theorem lawful (h : r.members.Lawful f) (hdistinct : r.members.names.Nodup)
    (hbuild : ∀ x, r.build (f (r.values x)) = settle x)
    (hvalues : ∀ x, r.values (settle x) = f (r.values x)) : Lawful r.wire settle where
  readable := by
    intro v hv
    obtain ⟨given, heq, hgiven⟩ := conforms_record.mp hv
    cases heq
    obtain ⟨as, has⟩ := h.readObject hgiven
    exact ⟨r.build as, decode_obj has⟩
  roundTrips :=
    { conforms := by
        intro x
        exact conforms_record.mpr
          ⟨_, rfl, (h.readObject_encode hdistinct (r.values x) _ fun _ _ => rfl).1⟩
      decode_encode := by
        intro x
        have hread := (h.readObject_encode hdistinct (r.values x) _ fun _ _ => rfl).2
        rw [← hbuild x]
        exact decode_obj hread
      encode_settle := by
        intro x
        show r.encode (settle x) = r.encode x
        rw [encode, encode, hvalues, h.encode_settle] }
  solid :=
    { encode_ne_null := fun _ => nofun
      not_absent := by
        intro habsent
        obtain ⟨given, heq, -⟩ := conforms_record.mp habsent
        cases heq }

end Record

/-! ### Tuples -/

namespace Members

variable {α : Type} {ms : Members Wire α}

/-- Every item is readable. -/
def EachReadable {α : Type} : Members Wire α → Prop
  | .nil => True
  | .cons dict _ rest => Readable dict ∧ rest.EachReadable

/-- Every item round-trips. -/
inductive EachRoundTrips : {α : Type} → Members Wire α → (α → α) → Prop
  | nil : EachRoundTrips .nil id
  | cons {α β : Type} {dict : Wire α} {member : Member α} {rest : Members Wire β} {f : α → α}
      {g : β → β} (roundTrips : RoundTrips dict f) (others : EachRoundTrips rest g) :
      EachRoundTrips (.cons dict member rest) (Prod.map f g)

theorem Lawful.eachReadable {settle : α → α} (h : ms.Lawful settle) : ms.EachReadable := by
  induction h with
  | nil => trivial
  | cons readable roundTrips fits others ih => exact ⟨readable, ih⟩

theorem readArray_eq_ok {short : Nat → Fault} {items : List Json} {as : α}
    (h : ms.readItems short 0 items = .ok (as, [])) : ms.readArray short items = .ok as := by
  rw [readArray, h]
  rfl

theorem EachReadable.readItems {short : Nat → Fault} : ∀ {α : Type} {ms : Members Wire α},
    ms.EachReadable → ∀ (i : Nat) (values : List Json),
    values.length = (ms.schemas.map (·.2)).length →
    (∀ p ∈ (ms.schemas.map (·.2)).zip values, p.1.Conforms (some p.2)) →
      ∃ as, ms.readItems short i values = .ok (as, []) := by
  intro α ms
  induction ms with
  | nil =>
      intro _ i values hlength _
      rw [List.eq_nil_of_length_eq_zero hlength]
      exact ⟨(), rfl⟩
  | cons dict member rest ih =>
      intro h i values hlength hall
      cases values with
      | nil => cases hlength
      | cons v values =>
          rw [schemas, List.map_cons, List.zip_cons_cons, List.forall_mem_cons] at hall
          obtain ⟨a, ha⟩ := h.1 v hall.1
          obtain ⟨as, has⟩ := ih h.2 (i + 1) values (Nat.succ.inj hlength) hall.2
          refine ⟨(a, as), ?_⟩
          rw [Members.readItems, show (HasCodec.codec dict).decode v = _ from ha, has]
          rfl

theorem EachReadable.tuple (h : ms.EachReadable) : Readable ms.tuple := by
  intro v hv
  obtain ⟨values, heq, hlength, hall⟩ := conforms_tuple.mp hv
  cases heq
  obtain ⟨as, has⟩ := h.readItems 0 values hlength hall
  exact ⟨as, readArray_eq_ok has⟩

theorem EachRoundTrips.conforms {settle : α → α} (h : ms.EachRoundTrips settle) : ∀ as,
    (ms.encodeAll as).length = (ms.schemas.map (·.2)).length ∧
      ∀ p ∈ (ms.schemas.map (·.2)).zip (ms.encodeAll as), p.1.Conforms (some p.2) := by
  induction h with
  | nil => intro as; exact ⟨rfl, nofun⟩
  | cons roundTrips others ih =>
      rintro ⟨a, as⟩
      obtain ⟨hlength, hall⟩ := ih as
      rw [encodeAll, schemas, List.map_cons, List.zip_cons_cons, List.forall_mem_cons]
      exact ⟨congrArg Nat.succ hlength, roundTrips.conforms a, hall⟩

theorem EachRoundTrips.readItems_encodeAll {settle : α → α} (h : ms.EachRoundTrips settle)
    {short : Nat → Fault} : ∀ (as : α) (i : Nat),
    ms.readItems short i (ms.encodeAll as) = .ok (settle as, []) := by
  induction h with
  | nil => intro as i; rfl
  | @cons _ _ dict _ _ _ _ roundTrips others ih =>
      rintro ⟨a, as⟩ i
      rw [encodeAll, readItems,
        show (HasCodec.codec dict).decode _ = _ from roundTrips.decode_encode a, ih as (i + 1)]
      rfl

theorem EachRoundTrips.encodeAll_settle {settle : α → α} (h : ms.EachRoundTrips settle) :
    ∀ as, ms.encodeAll (settle as) = ms.encodeAll as := by
  induction h with
  | nil => intro as; rfl
  | @cons _ _ dict _ _ _ _ roundTrips others ih =>
      rintro ⟨a, as⟩
      show encodeAll _ (_, _) = _
      rw [encodeAll, encodeAll, ih as,
        show (HasCodec.codec dict).encode _ = _ from roundTrips.encode_settle a]

theorem EachRoundTrips.tuple {settle : α → α} (h : ms.EachRoundTrips settle) :
    RoundTrips ms.tuple settle where
  conforms := fun as => conforms_tuple.mpr ⟨_, rfl, h.conforms as⟩
  decode_encode := fun as => readArray_eq_ok (h.readItems_encodeAll as 0)
  encode_settle := fun as => congrArg Json.arr (h.encodeAll_settle as)

theorem solid_tuple (ms : Members Wire α) : Solid ms.tuple where
  encode_ne_null := fun _ => nofun
  not_absent := by
    intro h
    obtain ⟨values, heq, -⟩ := conforms_tuple.mp h
    cases heq

end Members

end LocalNode.Wire
