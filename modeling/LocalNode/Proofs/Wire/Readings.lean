import LocalNode.Proofs.Wire.Members
import LocalNode.Proofs.Wire.Spelling

/-!
What reading forgets of a value.

A type is read up to spelling if a change of spelling makes no difference to whether a value is
accepted and what it is read as, and if conversely all that is read as one value is the same but for
changes of spelling. The second half says that the changes are all there are. Checking and reading
are two programs, and they have to forget the same things, so the law speaks of both at once.
-/

namespace LocalNode

namespace Wire

open Schema

variable {α : Type}

/-! ### Values that are read up to spelling -/

/-- A value is accepted by the schema of a type and read as one of its values. -/
def Reads (w : Wire α) (v : Json) (a : α) : Prop :=
  w.schema.Conforms (some v) ∧ w.decode v = .ok a

/-- Whether a value is accepted and what it is read as does not depend on its spelling, and depends
on everything else. -/
structure UpToSpelling (w : Wire α) : Prop where
  reads_iff : ∀ {v v'}, w.schema.Respelled v v' → ∀ a, Reads w v a ↔ Reads w v' a
  alike : ∀ {v v' a}, Reads w v a → Reads w v' a → w.schema.Alike v v'

/-! ### Texts and truth values -/

section Text

variable {w : Wire α} {read : String → Except CodecError α} {write : α → String}

theorem reads_text (hdecode : w.decode = decodeText read)
    (hschema : ∀ found, w.schema.Conforms found ↔
      ∃ s, found = some (.str s) ∧ ∃ a, read s = .ok a)
    (hcase : ReadsEitherCase read write) {v : Json} {a : α} :
    Reads w v a ↔ ∃ cs, v = .str (mark cs) ∧ write a = mark (cs.map Char.toLower) := by
  rw [Reads, hschema, hdecode]
  constructor
  · rintro ⟨⟨s, heq, a', hread⟩, hdecode⟩
    cases heq
    rw [decodeText, hread] at hdecode
    cases hdecode
    obtain ⟨cs, rfl, hwritten⟩ := (hcase s a).mp hread
    exact ⟨cs, rfl, hwritten⟩
  · rintro ⟨cs, rfl, hwritten⟩
    have hread := (hcase (mark cs) a).mpr ⟨cs, rfl, hwritten⟩
    refine ⟨⟨_, rfl, a, hread⟩, ?_⟩
    rw [decodeText, hread]

theorem upToSpelling_text (hdigits : w.schema.hasDigits = true)
    (hreads : ∀ {v a}, Reads w v a ↔
      ∃ cs, v = .str (mark cs) ∧ write a = mark (cs.map Char.toLower)) : UpToSpelling w where
  reads_iff := by
    intro v v' h a
    obtain ⟨cs, cs', rfl, rfl, hsame⟩ := (respelled_digits hdigits).mp h
    have hmark : ∀ cs : List Char,
        Reads w (.str (mark cs)) a ↔ write a = mark (cs.map Char.toLower) := by
      intro cs
      rw [hreads]
      constructor
      · rintro ⟨cs', heq, hwritten⟩
        rw [mark_injective (Json.str.inj heq), hwritten]
      · exact fun hwritten => ⟨cs, rfl, hwritten⟩
    rw [hmark, hmark, hsame]
  alike := by
    intro v v' a hv hv'
    obtain ⟨cs, rfl, hwritten⟩ := hreads.mp hv
    obtain ⟨cs', rfl, hwritten'⟩ := hreads.mp hv'
    exact .rel _ _ (.digits hdigits (mark_injective (hwritten.symm.trans hwritten')))

end Text

theorem reads_word {v : Json} {a : Word} : Reads inferInstance v a ↔
    ∃ cs, v = .str (mark cs) ∧ Quantity.encode a = mark (cs.map Char.toLower) :=
  reads_text rfl (fun _ => conforms_quantity) Quantity.readsEitherCase

theorem upToSpelling_word : UpToSpelling (inferInstance : Wire Word) :=
  upToSpelling_text rfl reads_word

theorem upToSpelling_address : UpToSpelling (inferInstance : Wire Address) :=
  upToSpelling_text rfl
    (reads_text rfl (fun _ => conforms_address) (FixedBytes.readsEitherCase 20))

theorem upToSpelling_hash : UpToSpelling (inferInstance : Wire Hash) :=
  upToSpelling_text rfl (reads_text rfl (fun _ => conforms_hash) (FixedBytes.readsEitherCase 32))

theorem upToSpelling_data : UpToSpelling (inferInstance : Wire Data) :=
  upToSpelling_text rfl (reads_text rfl (fun _ => conforms_data) Data.readsEitherCase)

theorem upToSpelling_bool : UpToSpelling (inferInstance : Wire Bool) where
  reads_iff := by
    intro v v' h
    cases h with
    | digits hs => cases hs
  alike := by
    rintro v v' a ⟨hv, hread⟩ ⟨hv', hread'⟩
    obtain ⟨b, hb⟩ := conforms_bool.mp hv
    obtain ⟨b', hb'⟩ := conforms_bool.mp hv'
    cases hb
    cases hb'
    cases hread
    cases hread'
    exact .refl _

/-! ### Options

No other value is a spelling of `null`, so a change of spelling stays on one side: it is a change to
what the option holds, or it is none.
-/

variable {w : Wire α}

theorem reads_option {v : Json} {o : Option α} :
    Reads w.option v o ↔ v = .null ∧ o = none ∨ v ≠ .null ∧ ∃ a, o = some a ∧ Reads w v a := by
  by_cases hnull : v = .null
  · subst hnull
    constructor
    · rintro ⟨-, hread⟩
      cases hread
      exact .inl ⟨rfl, rfl⟩
    · rintro (⟨-, rfl⟩ | ⟨hne, -⟩)
      · exact ⟨rfl, rfl⟩
      · exact (hne rfl).elim
  · have hconforms : w.option.schema.Conforms (some v) ↔ w.schema.Conforms (some v) := by
      rw [show w.option.schema = .nullable w.schema from rfl, conforms_nullable]
      simp [hnull]
    rw [Reads, hconforms, decode_option hnull]
    constructor
    · rintro ⟨hv, hread⟩
      cases hdecode : w.decode v with
      | error fault =>
          rw [hdecode] at hread
          cases hread
      | ok a =>
          rw [hdecode] at hread
          cases hread
          exact .inr ⟨hnull, a, rfl, hv, hdecode⟩
    · rintro (⟨rfl, -⟩ | ⟨-, a, rfl, hv, hread⟩)
      · exact (hnull rfl).elim
      · rw [hread]
        exact ⟨hv, rfl⟩

theorem UpToSpelling.option (h : UpToSpelling w) : UpToSpelling w.option where
  reads_iff := by
    intro v v' hrespelled o
    cases hrespelled with
    | digits hs => cases hs
    | nullable hrespelled =>
        obtain ⟨hv, hv'⟩ := hrespelled.ne_null
        simp [reads_option, hv, hv', h.reads_iff hrespelled]
  alike := by
    intro v v' o hv hv'
    rcases reads_option.mp hv with ⟨rfl, rfl⟩ | ⟨-, a, rfl, hread⟩
    · rcases reads_option.mp hv' with ⟨rfl, -⟩ | ⟨-, a, hsome, -⟩
      · exact .refl _
      · cases hsome
    · rcases reads_option.mp hv' with ⟨-, hnone⟩ | ⟨-, a', hsome, hread'⟩
      · cases hnone
      · cases hsome
        exact (h.alike hread hread').nullable

/-! ### Lists -/

theorem decodeItems_eq_ok {decode : Json → Except Fault α} {items : List Json} :
    ∀ {as : List α},
      decodeItems decode items = .ok as ↔ List.Forall₂ (decode · = .ok ·) items as := by
  induction items with
  | nil =>
      intro as
      rw [List.forall₂_nil_left_iff]
      exact ⟨fun h => (Except.ok.inj h).symm, fun h => congrArg Except.ok h.symm⟩
  | cons v items ih =>
      intro as
      rw [decodeItems, bind_eq_ok, List.forall₂_cons_left_iff]
      constructor
      · rintro ⟨a, ha, hrest⟩
        obtain ⟨as', has, heq⟩ := bind_eq_ok.mp hrest
        cases heq
        exact ⟨a, as', ha, ih.mp has, rfl⟩
      · rintro ⟨a, as', ha, hrest, rfl⟩
        exact ⟨a, ha, bind_eq_ok.mpr ⟨as', ih.mpr hrest, rfl⟩⟩

theorem reads_list {v : Json} {as : List α} :
    Reads w.list v as ↔ ∃ items, v = .arr items ∧ List.Forall₂ (Reads w) items as := by
  rw [Reads, show w.list.schema = .array w.schema from rfl, conforms_array]
  constructor
  · rintro ⟨⟨items, heq, hall⟩, hread⟩
    cases heq
    exact ⟨items, rfl, (List.forall₂_and_left _ _).mpr ⟨hall, decodeItems_eq_ok.mp hread⟩⟩
  · rintro ⟨items, rfl, hitems⟩
    obtain ⟨hall, hread⟩ := (List.forall₂_and_left _ _).mp hitems
    exact ⟨⟨items, rfl, hall⟩, decodeItems_eq_ok.mpr hread⟩

/-- Exchanging an item for one that stands in the same relations. -/
theorem forall₂_exchange {R : Json → α → Prop} {v v' : Json} (h : ∀ a, R v a ↔ R v' a)
    {before after : List Json} : ∀ {as : List α},
    List.Forall₂ R (before ++ v :: after) as ↔ List.Forall₂ R (before ++ v' :: after) as := by
  induction before with
  | nil =>
      intro as
      simp only [List.nil_append, List.forall₂_cons_left_iff, h]
  | cons first before ih =>
      intro as
      simp only [List.cons_append, List.forall₂_cons_left_iff, ih]

theorem UpToSpelling.list (h : UpToSpelling w) : UpToSpelling w.list where
  reads_iff := by
    intro v v' hrespelled as
    cases hrespelled with
    | digits hs => cases hs
    | item hitem =>
        rw [reads_list, reads_list]
        simp only [Json.arr.injEq, exists_eq_left', forall₂_exchange (h.reads_iff hitem)]
  alike := by
    intro v v' as hv hv'
    obtain ⟨items, rfl, hitems⟩ := reads_list.mp hv
    obtain ⟨items', rfl, hitems'⟩ := reads_list.mp hv'
    have halike : List.Forall₂ w.schema.Alike items items' := by
      clear hv hv'
      induction hitems generalizing items' with
      | nil =>
          cases hitems'
          exact .nil
      | cons hitem _ ih =>
          cases hitems' with
          | cons hitem' hrest' => exact .cons (h.alike hitem hitem') (ih _ hrest')
    exact alike_array halike []

/-! ### Records

Every member of such a record may be left out, and to leave it out is to spell it `null`. So the
objects are compared by what they have for each name.
-/

namespace Members

variable {β : Type}

/-- What an object has for a member, if anything, is accepted and read as a value. -/
def ReadsMember (dict : Wire α) (member : Member α) (found : Option Json) (a : α) : Prop :=
  dict.schema.Conforms found ∧ readMember dict member found = .ok a

/-- An object has something for each member that is accepted and read as its value. -/
def ReadsObject (ms : Members Wire α) (given : List (String × Json)) (as : α) : Prop :=
  (∀ f ∈ ms.schemas, f.2.Conforms (Json.member? given f.1)) ∧ ms.readObject given = .ok as

theorem readsObject_cons {dict : Wire α} {member : Member α} {rest : Members Wire β}
    {given : List (String × Json)} {p : α × β} :
    (cons dict member rest).ReadsObject given p ↔
      ReadsMember dict member (Json.member? given member.name) p.1 ∧
        rest.ReadsObject given p.2 := by
  rw [ReadsObject, schemas, List.forall_mem_cons, readObject_cons_eq_ok]
  exact and_and_and_comm

/-- A member that may be left out is read as if it were `null` then. -/
theorem readsMember_optional {name : String} {found : Option Json} {o : Option α} :
    ReadsMember w.option (.optional name) found o ↔ Reads w.option (found.getD .null) o := by
  cases found with
  | some v => exact .rfl
  | none =>
      constructor
      · rintro ⟨-, hread⟩
        exact ⟨rfl, hread⟩
      · rintro ⟨-, hread⟩
        exact ⟨rfl, hread⟩

theorem alikeMember_getD {s : Schema} (found : Option Json) :
    (Schema.nullable s).AlikeMember found (some (found.getD .null)) := by
  cases found with
  | some v => exact .refl _
  | none => exact .rel _ _ (.leftOut rfl)

/-- All members may be left out, and their values are read up to spelling. -/
inductive OptionalUpToSpelling : {α : Type} → Members Wire α → Prop
  | nil : OptionalUpToSpelling .nil
  | cons {α β : Type} {w : Wire α} {name : String} {rest : Members Wire β} (value : UpToSpelling w)
      (others : OptionalUpToSpelling rest) :
      OptionalUpToSpelling (.cons w.option (.optional name) rest)

variable {ms : Members Wire α} {given given' : List (String × Json)}

theorem OptionalUpToSpelling.readsObject_iff (h : ms.OptionalUpToSpelling)
    (hrespelled : ∀ f ∈ ms.schemas,
      f.2.RespelledMember (Json.member? given f.1) (Json.member? given' f.1)) :
    ∀ as, ms.ReadsObject given as ↔ ms.ReadsObject given' as := by
  induction h with
  | nil => exact fun _ => ⟨fun _ => ⟨nofun, rfl⟩, fun _ => ⟨nofun, rfl⟩⟩
  | @cons _ _ w name rest value others ih =>
      rintro ⟨o, as⟩
      rw [schemas, List.forall_mem_cons] at hrespelled
      have hfirst : w.option.schema.RespelledMember (Json.member? given name)
        (Json.member? given' name) := hrespelled.1
      rw [readsObject_cons, readsObject_cons, ih hrespelled.2, readsMember_optional,
        readsMember_optional]
      refine and_congr_left' ?_
      show Reads w.option ((Json.member? given name).getD .null) o ↔
        Reads w.option ((Json.member? given' name).getD .null) o
      generalize Json.member? given name = found, Json.member? given' name = found' at hfirst ⊢
      cases hfirst with
      | unchanged => rfl
      | value hvalue => exact value.option.reads_iff hvalue o
      | leftOut => rfl

theorem OptionalUpToSpelling.alikeMember (h : ms.OptionalUpToSpelling) :
    ∀ {as : α}, ms.ReadsObject given as → ms.ReadsObject given' as →
      ∀ f ∈ ms.schemas, f.2.AlikeMember (Json.member? given f.1) (Json.member? given' f.1) := by
  induction h with
  | nil => exact fun _ _ => nofun
  | @cons _ _ w name rest value others ih =>
      rintro ⟨o, as⟩ hgiven hgiven'
      obtain ⟨hfirst, hrest⟩ := readsObject_cons.mp hgiven
      obtain ⟨hfirst', hrest'⟩ := readsObject_cons.mp hgiven'
      rw [schemas, List.forall_mem_cons]
      refine ⟨?_, ih hrest hrest'⟩
      have halike := value.option.alike (readsMember_optional.mp hfirst)
        (readsMember_optional.mp hfirst')
      exact ((alikeMember_getD _).trans _ _ _ halike.member).trans _ _ _
        ((alikeMember_getD _).symm _ _)

theorem map_fst_schemas (ms : Members Wire α) : ms.schemas.map (·.1) = ms.names := by
  induction ms with
  | nil => rfl
  | cons dict member rest ih => rw [schemas, List.map_cons, ih, names]

end Members

namespace Record

variable {R : Type} {r : Record Wire R}

theorem reads_record {v : Json} {x : R} :
    Reads r.wire v x ↔
      ∃ given as, v = .obj given ∧ r.members.ReadsObject given as ∧ r.build as = x := by
  rw [Reads, show r.wire.schema = .record r.members.schemas from rfl, conforms_record]
  constructor
  · rintro ⟨⟨given, heq, hall⟩, hread⟩
    cases heq
    change r.decode (.obj given) = .ok x at hread
    rw [decode] at hread
    split at hread
    · cases hread
    · cases hobject : r.members.readObject given with
      | error fault =>
          rw [hobject] at hread
          cases hread
      | ok as =>
          rw [hobject] at hread
          exact ⟨given, as, rfl, ⟨hall, hobject⟩, Except.ok.inj hread⟩
  · rintro ⟨given, as, rfl, ⟨hall, hread⟩, rfl⟩
    exact ⟨⟨given, rfl, hall⟩, decode_obj hread⟩

/-- **A record whose members may all be left out is read up to spelling if their values are.** -/
theorem upToSpelling (h : r.members.OptionalUpToSpelling) (hdistinct : r.members.names.Nodup)
    (hvalues : ∀ as, r.values (r.build as) = as) : UpToSpelling r.wire where
  reads_iff := by
    intro v v' hrespelled x
    obtain ⟨given, given', rfl, rfl, hmembers⟩ := hrespelled.exists_members
    rw [reads_record, reads_record]
    simp only [Json.obj.injEq, exists_and_left, exists_eq_left', h.readsObject_iff hmembers]
  alike := by
    intro v v' x hv hv'
    obtain ⟨given, as, rfl, hgiven, rfl⟩ := reads_record.mp hv
    obtain ⟨given', as', rfl, hgiven', hbuild⟩ := reads_record.mp hv'
    have hsame : as' = as := by
      rw [← hvalues as', hbuild, hvalues]
    subst hsame
    refine alike_record ?_ r.members.schemas given (List.Subset.refl _)
      (h.alikeMember hgiven hgiven') (fun f hf hnot => absurd hf hnot)
    rw [Members.map_fst_schemas]
    exact hdistinct

end Record

end Wire

end LocalNode
