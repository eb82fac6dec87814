import LocalNode.Proofs.Wire.Conformance
import LocalNode.Wire.Validation

/-!
What a mismatch tells about a value.

`Allows` says which values have the shape of a schema, by recursion on the schema and without an
order of checks. A value that does not have it has a culprit: a part that its own schema refuses
whatever the parts of that part are, reached by steps through the value and the schema, such that
everything that comes before it on the way is allowed. Every value is allowed or has a culprit. This
is proved by induction on the schema, where a list of parts is split at the first one that is not
allowed.

What checking does is known on both sides, so a mismatch is reported exactly if there is a culprit,
and it is the culprit that is reported.
-/

namespace LocalNode.Schema

/-! ### Shapes -/

mutual

/-- A value, or the absence of one, has the shape of a schema. -/
def Allows : Schema → Option Json → Prop
  | .quantity, found => ∃ s, found = some (.str s) ∧ ∃ w, Quantity.decode s = .ok w
  | .address, found => ∃ s, found = some (.str s) ∧ ∃ a : Address, FixedBytes.decode s = .ok a
  | .hash, found => ∃ s, found = some (.str s) ∧ ∃ h : Hash, FixedBytes.decode s = .ok h
  | .data, found => ∃ s, found = some (.str s) ∧ ∃ d, Data.decode s = .ok d
  | .tag, found => ∃ s, found = some (.str s) ∧ s ∈ blockTags
  | .block, found =>
    ∃ s, found = some (.str s) ∧ (s ∈ blockTags ∨ ∃ w, Quantity.decode s = .ok w)
  | .bool, found => ∃ b, found = some (.bool b)
  | .string, found => ∃ s, found = some (.str s)
  | .nullable inner, found => found = none ∨ found = some .null ∨ inner.Allows found
  | .array inner, found => ∃ items, found = some (.arr items) ∧ ∀ v ∈ items, inner.Allows (some v)
  | .record fields, found => ∃ members, found = some (.obj members) ∧ AllowsFields fields members
  | .tuple schemas, found => ∃ values, found = some (.arr values) ∧ AllowsEach schemas values
  | .noParams, found => found = none ∨ found = some .null ∨ found = some (.arr [])
  | .oneOf options, found => AllowsAny options found

/-- The named members of an object have the shapes given for them. -/
def AllowsFields : List (String × Schema) → List (String × Json) → Prop
  | [], _ => True
  | (name, s) :: rest, members => s.Allows (Json.member? members name) ∧ AllowsFields rest members

/-- There are as many values as shapes, and each value has its own. -/
def AllowsEach : List Schema → List Json → Prop
  | [], [] => True
  | s :: schemas, v :: values => s.Allows (some v) ∧ AllowsEach schemas values
  | _, _ => False

/-- A value, or the absence of one, has one of several shapes. -/
def AllowsAny : List Schema → Option Json → Prop
  | [], _ => False
  | s :: rest, found => s.Allows found ∨ AllowsAny rest found

end

theorem allowsFields_iff {fields : List (String × Schema)} {members : List (String × Json)} :
    AllowsFields fields members ↔ ∀ f ∈ fields, f.2.Allows (Json.member? members f.1) := by
  induction fields with
  | nil => simp [AllowsFields]
  | cons f rest ih => simp [AllowsFields, ih]

theorem allowsEach_iff {schemas : List Schema} : ∀ {values : List Json},
    AllowsEach schemas values ↔
      values.length = schemas.length ∧ ∀ p ∈ schemas.zip values, p.1.Allows (some p.2) := by
  induction schemas with
  | nil =>
      intro values
      cases values <;> simp [AllowsEach]
  | cons s schemas ih =>
      intro values
      cases values with
      | nil => simp [AllowsEach]
      | cons v values => simp [AllowsEach, ih, and_left_comm]

theorem allowsAny_iff {options : List Schema} {found : Option Json} :
    AllowsAny options found ↔ ∃ s ∈ options, s.Allows found := by
  induction options with
  | nil => simp [AllowsAny]
  | cons s rest ih => simp [AllowsAny, ih]

/-! ### Induction on schemas

Schemas contain lists of schemas, which the induction that comes with the type treats as a type of
its own. The principle here gives the parts of a schema at once.
-/

/-- The schemas that a schema is put together from. -/
def parts : Schema → List Schema
  | .nullable inner | .array inner => [inner]
  | .record fields => fields.map (·.2)
  | .tuple schemas => schemas
  | .oneOf options => options
  | _ => []

theorem sizeOf_lt_of_mem_parts {s part : Schema} (h : part ∈ s.parts) : sizeOf part < sizeOf s := by
  cases s with
  | nullable inner | array inner =>
      have heq : part = inner := List.mem_singleton.mp h
      simp [heq]
  | record fields =>
      obtain ⟨f, hf, rfl⟩ := List.mem_map.mp h
      have hfields := List.sizeOf_lt_of_mem hf
      obtain ⟨name, s⟩ := f
      simp only [Prod.mk.sizeOf_spec, Schema.record.sizeOf_spec] at hfields ⊢
      omega
  | tuple schemas | oneOf schemas =>
      have hmem : part ∈ schemas := h
      have hschemas := List.sizeOf_lt_of_mem hmem
      simp only [Schema.tuple.sizeOf_spec, Schema.oneOf.sizeOf_spec]
      omega
  | _ => cases h

/-- What holds of a schema whenever it holds of its parts holds of every schema. -/
theorem induction_parts {P : Schema → Prop} (h : ∀ s, (∀ part ∈ s.parts, P part) → P s)
    (s : Schema) : P s :=
  h s fun part _hpart => induction_parts h part
termination_by sizeOf s
decreasing_by exact sizeOf_lt_of_mem_parts _hpart

/-! ### Checking what is allowed -/

/-- Checking finds nothing exactly if the value has the shape. -/
theorem conforms_iff_allows (s : Schema) : ∀ found, s.Conforms found ↔ s.Allows found := by
  induction s using induction_parts with
  | h s ih =>
      intro found
      cases s with
      | quantity => exact conforms_quantity
      | address => exact conforms_address
      | hash => exact conforms_hash
      | data => exact conforms_data
      | tag => exact conforms_tag
      | block => exact conforms_block
      | bool => exact conforms_bool
      | string => exact conforms_string
      | noParams => exact conforms_noParams
      | nullable inner =>
          have hinner := ih inner (List.mem_singleton_self inner)
          rw [conforms_nullable, Allows]
          cases found with
          | none => simp
          | some v => simp [hinner]
      | array inner =>
          have hinner := ih inner (List.mem_singleton_self inner)
          rw [conforms_array, Allows]
          simp only [hinner]
      | record fields =>
          rw [conforms_record, Allows]
          simp only [allowsFields_iff]
          refine exists_congr fun members => and_congr_right fun _ => ?_
          exact forall₂_congr fun f hf => ih f.2 (List.mem_map_of_mem hf) _
      | tuple schemas =>
          rw [conforms_tuple, Allows]
          simp only [allowsEach_iff]
          refine exists_congr fun values => and_congr_right fun _ => and_congr_right fun _ => ?_
          exact forall₂_congr fun p hp => ih p.1 (List.of_mem_zip hp).1 _
      | oneOf options =>
          rw [conforms_oneOf, Allows, allowsAny_iff]
          exact exists_congr fun s => and_congr_right fun hs => ih s hs found

/-! ### Culprits -/

/-- A schema refuses a value, or the absence of one, whatever the parts of the value are: it is of
the wrong kind, an array of the wrong length, a text with another meaning, or fits no option. -/
def RefusesItself : Schema → Option Json → Prop
  | .nullable _, _ => False
  | .array _, found => ∀ items, found ≠ some (.arr items)
  | .record _, found => ∀ members, found ≠ some (.obj members)
  | .tuple schemas, found => ∀ values, found = some (.arr values) → values.length ≠ schemas.length
  | .oneOf options, found => ∀ s ∈ options, ¬ s.Allows found
  | s, found => ¬ s.Allows found

/-- Steps lead from a value and its schema to a part of the value and the schema of that part.
Whatever is checked before that part is allowed. -/
inductive Leads : Schema → Option Json → List Step → Schema → Option Json → Prop
  | here {s : Schema} {found : Option Json} : Leads s found [] s found
  /-- What may be `null` but is not must have the inner shape. -/
  | nullable {inner : Schema} {v : Json} {path : List Step} {part : Schema} {x : Option Json}
      (notNull : v ≠ .null) (leads : Leads inner (some v) path part x) :
      Leads (.nullable inner) (some v) path part x
  /-- A step to an item of an array. The items before it are allowed. -/
  | item {inner : Schema} {before after : List Json} {v : Json} {path : List Step} {part : Schema}
      {x : Option Json} (earlier : ∀ u ∈ before, inner.Allows (some u))
      (leads : Leads inner (some v) path part x) :
      Leads (.array inner) (some (.arr (before ++ v :: after))) (.index before.length :: path)
        part x
  /-- A step to a member of an object, which may be absent. The members that the schema names before
  it are allowed. -/
  | field {before after : List (String × Schema)} {name : String} {s : Schema}
      {members : List (String × Json)} {path : List Step} {part : Schema} {x : Option Json}
      (earlier : ∀ f ∈ before, f.2.Allows (Json.member? members f.1))
      (leads : Leads s (Json.member? members name) path part x) :
      Leads (.record (before ++ (name, s) :: after)) (some (.obj members)) (.field name :: path)
        part x
  /-- A step to an item of an array that has a shape for each item. The items before it are
  allowed. -/
  | position {schemas : List Schema} {values : List Json} {before after : List (Schema × Json)}
      {s : Schema} {v : Json} {path : List Step} {part : Schema} {x : Option Json}
      (length : values.length = schemas.length)
      (split : schemas.zip values = before ++ (s, v) :: after)
      (earlier : ∀ p ∈ before, p.1.Allows (some p.2)) (leads : Leads s (some v) path part x) :
      Leads (.tuple schemas) (some (.arr values)) (.index before.length :: path) part x

/-- A part of a value that is to blame for it not having the shape of a schema. -/
structure Culprit (s : Schema) (found : Option Json) (path : List Step) (part : Schema)
    (x : Option Json) : Prop where
  leads : Leads s found path part x
  notNullable : ∀ inner, part ≠ .nullable inner
  notAllowed : ¬ part.Allows x
  refusesItself : part.RefusesItself x

/-- What a schema itself refuses is its own culprit. -/
theorem RefusesItself.culprit {s : Schema} {found : Option Json} (h : s.RefusesItself found) :
    Culprit s found [] s found where
  leads := .here
  notNullable := by
    intro inner hs
    subst hs
    exact h
  notAllowed := by
    intro hallows
    cases s with
    | nullable inner => exact h
    | array inner =>
        obtain ⟨items, hfound, -⟩ := hallows
        exact h items hfound
    | record fields =>
        obtain ⟨members, hfound, -⟩ := hallows
        exact h members hfound
    | tuple schemas =>
        obtain ⟨values, hfound, heach⟩ := hallows
        exact h values hfound (allowsEach_iff.mp heach).1
    | oneOf options =>
        obtain ⟨s, hs, hallows⟩ := allowsAny_iff.mp hallows
        exact h s hs hallows
    | _ => exact h hallows
  refusesItself := h

/-- The culprit of a part is the culprit of the whole, some steps further away. -/
theorem Culprit.of_leads {s s' part : Schema} {found found' x : Option Json}
    {path path' : List Step} (h : Culprit s found path part x)
    (hleads : Leads s found path part x → Leads s' found' path' part x) :
    Culprit s' found' path' part x :=
  { h with leads := hleads h.leads }

/-- **Every value has the shape of a schema or a culprit.** -/
theorem allows_or_culprit (s : Schema) :
    ∀ found, s.Allows found ∨ ∃ path part x, Culprit s found path part x := by
  induction s using induction_parts with
  | h s ih =>
      intro found
      cases s with
      | nullable inner =>
          cases found with
          | none => exact .inl (Or.inl rfl)
          | some v =>
              by_cases hnull : v = .null
              · exact .inl (Or.inr (Or.inl (congrArg some hnull)))
              · rcases ih inner (List.mem_singleton_self inner) (some v) with
                  hallows | ⟨path, part, x, hculprit⟩
                · exact .inl (Or.inr (Or.inr hallows))
                · exact .inr ⟨path, part, x, hculprit.of_leads (.nullable hnull)⟩
      | array inner =>
          by_cases hkind : ∃ items, found = some (.arr items)
          · obtain ⟨items, rfl⟩ := hkind
            rcases all_or_first (fun v => inner.Allows (some v)) items with
              hall | ⟨before, v, after, rfl, hbefore, hv⟩
            · exact .inl ⟨items, rfl, hall⟩
            · obtain ⟨path, part, x, hculprit⟩ :=
                (ih inner (List.mem_singleton_self inner) (some v)).resolve_left hv
              exact .inr ⟨_, part, x, hculprit.of_leads (.item hbefore)⟩
          · have hrefuses : RefusesItself (.array inner) found :=
              fun items hfound => hkind ⟨items, hfound⟩
            exact .inr ⟨_, _, _, hrefuses.culprit⟩
      | record fields =>
          by_cases hkind : ∃ members, found = some (.obj members)
          · obtain ⟨members, rfl⟩ := hkind
            rcases all_or_first (fun f => f.2.Allows (Json.member? members f.1)) fields with
              hall | ⟨before, ⟨name, s⟩, after, rfl, hbefore, hf⟩
            · exact .inl ⟨members, rfl, allowsFields_iff.mpr hall⟩
            · have hs : s ∈ parts (.record (before ++ (name, s) :: after)) := by simp [parts]
              obtain ⟨path, part, x, hculprit⟩ := (ih s hs _).resolve_left hf
              exact .inr ⟨_, part, x, hculprit.of_leads (.field hbefore)⟩
          · have hrefuses : RefusesItself (.record fields) found :=
              fun members hfound => hkind ⟨members, hfound⟩
            exact .inr ⟨_, _, _, hrefuses.culprit⟩
      | tuple schemas =>
          by_cases hkind : ∃ values, found = some (.arr values) ∧ values.length = schemas.length
          · obtain ⟨values, rfl, hlength⟩ := hkind
            rcases all_or_first (fun p => p.1.Allows (some p.2)) (schemas.zip values) with
              hall | ⟨before, ⟨s, v⟩, after, hsplit, hbefore, hp⟩
            · exact .inl ⟨values, rfl, allowsEach_iff.mpr ⟨hlength, hall⟩⟩
            · have hs : (s, v) ∈ schemas.zip values := by simp [hsplit]
              obtain ⟨path, part, x, hculprit⟩ :=
                (ih s (List.of_mem_zip hs).1 (some v)).resolve_left hp
              exact .inr ⟨_, part, x, hculprit.of_leads (.position hlength hsplit hbefore)⟩
          · have hrefuses : RefusesItself (.tuple schemas) found :=
              fun values hfound hlength => hkind ⟨values, hfound, hlength⟩
            exact .inr ⟨_, _, _, hrefuses.culprit⟩
      | oneOf options =>
          by_cases hany : ∃ s ∈ options, s.Allows found
          · exact .inl (allowsAny_iff.mpr hany)
          · have hrefuses : RefusesItself (.oneOf options) found :=
              fun s hs hallows => hany ⟨s, hs, hallows⟩
            exact .inr ⟨_, _, _, hrefuses.culprit⟩
      | _ =>
          -- The schemas without parts refuse themselves whatever they do not allow.
          refine Classical.or_iff_not_imp_left.mpr fun hnot => ?_
          exact ⟨_, _, _, RefusesItself.culprit hnot⟩

/-! ### Checking what has a culprit

Checking stops at the first thing that is wrong. All that comes before a culprit is allowed, so
checking passes it and stops at the culprit.
-/

theorem checkItems_of_first {check : Option Json → Except Mismatch Unit} {before after : List Json}
    {v : Json} {m : Mismatch} (hbefore : ∀ u ∈ before, check (some u) = .ok ())
    (hv : check (some v) = .error m) : ∀ i,
    checkItems check i (before ++ v :: after) =
      .error { m with path := .index (i + before.length) :: m.path } := by
  induction before with
  | nil =>
      intro i
      rw [List.nil_append, checkItems, hv]
      rfl
  | cons u before ih =>
      intro i
      obtain ⟨hu, hbefore⟩ := List.forall_mem_cons.mp hbefore
      rw [List.cons_append, checkItems, hu, List.length_cons, Nat.add_comm before.length,
        ← Nat.add_assoc, ← ih hbefore]
      rfl

theorem checkFields_of_first {before after : List (String × Schema)} {name : String} {s : Schema}
    {members : List (String × Json)} {m : Mismatch}
    (hbefore : ∀ f ∈ before, f.2.Conforms (Json.member? members f.1))
    (hs : s.check (Json.member? members name) = .error m) :
    checkFields (before ++ (name, s) :: after) members =
      .error { m with path := .field name :: m.path } := by
  induction before with
  | nil =>
      show (do
        atStep (.field name) (s.check (Json.member? members name))
        checkFields after members) = _
      rw [hs]
      rfl
  | cons f before ih =>
      obtain ⟨hf, hbefore⟩ := List.forall_mem_cons.mp hbefore
      show (do
        atStep (.field f.1) (f.2.check (Json.member? members f.1))
        checkFields (before ++ (name, s) :: after) members) = _
      rw [show f.2.check _ = _ from hf, ih hbefore]
      rfl

theorem checkTuple_of_first {before after : List (Schema × Json)} {s : Schema} {v : Json}
    {m : Mismatch} (hbefore : ∀ p ∈ before, p.1.Conforms (some p.2))
    (hs : s.check (some v) = .error m) : ∀ {schemas : List Schema} {values : List Json} (i : Nat),
    schemas.zip values = before ++ (s, v) :: after →
      checkTuple schemas i values =
        .error { m with path := .index (i + before.length) :: m.path } := by
  induction before with
  | nil =>
      intro schemas values i hsplit
      cases schemas with
      | nil => cases hsplit
      | cons s' schemas =>
          cases values with
          | nil => cases hsplit
          | cons v' values =>
              cases hsplit
              show (do
                atStep (.index i) (s.check (some v))
                checkTuple schemas (i + 1) values) = _
              rw [hs]
              rfl
  | cons p before ih =>
      intro schemas values i hsplit
      obtain ⟨hp, hrest⟩ := List.forall_mem_cons.mp hbefore
      cases schemas with
      | nil => cases hsplit
      | cons s' schemas =>
          cases values with
          | nil => cases hsplit
          | cons v' values =>
              obtain ⟨rfl, htail⟩ := List.cons.inj hsplit
              show (do
                atStep (.index i) (s'.check (some v'))
                checkTuple schemas (i + 1) values) = _
              rw [show s'.check (some v') = _ from hp, List.length_cons,
                Nat.add_comm before.length, ← Nat.add_assoc, ← ih hrest (i + 1) htail]
              rfl

theorem check_of_require {s : Schema} {found : Option Json} {ok : Bool}
    (h : s.check found = require s found ok) (hnot : ¬ s.Allows found) :
    s.check found = .error ⟨[], s, found⟩ := by
  have hok : ok = false := by
    rw [← Bool.not_eq_true]
    intro hok
    exact hnot ((conforms_iff_allows s found).mp (h.trans (require_eq_ok.mpr hok)))
  rw [h, hok]
  rfl

/-- What a schema itself refuses is reported where it stands. -/
theorem check_of_refusesItself {s : Schema} {found : Option Json} (h : s.RefusesItself found) :
    s.check found = .error ⟨[], s, found⟩ := by
  have hnot := h.culprit.notAllowed
  cases s with
  | nullable inner => exact h.elim
  | quantity | address | hash | data | tag | block | string | oneOf =>
      exact check_of_require rfl hnot
  | bool =>
      cases found with
      | none => rfl
      | some v =>
          cases v with
          | bool b => exact absurd ⟨b, rfl⟩ hnot
          | _ => rfl
  | noParams =>
      cases found with
      | none => exact absurd (Or.inl rfl) hnot
      | some v =>
          cases v with
          | null => exact absurd (Or.inr (Or.inl rfl)) hnot
          | arr items =>
              cases items with
              | nil => exact absurd (Or.inr (Or.inr rfl)) hnot
              | cons item items => rfl
          | _ => rfl
  | array inner =>
      cases found with
      | none => rfl
      | some v =>
          cases v with
          | arr items => exact absurd rfl (h items)
          | _ => rfl
  | record fields =>
      cases found with
      | none => rfl
      | some v =>
          cases v with
          | obj members => exact absurd rfl (h members)
          | _ => rfl
  | tuple schemas =>
      cases found with
      | none => rfl
      | some v =>
          cases v with
          | arr values =>
              rw [check_tuple, if_neg (h values rfl)]
              rfl
          | _ => rfl

/-- What is reported at the end of the way is reported for the whole, with the steps of the way. -/
theorem Leads.check {s part : Schema} {found x : Option Json} {path : List Step}
    (h : Leads s found path part x) (hpart : part.check x = .error ⟨[], part, x⟩) :
    s.check found = .error ⟨path, part, x⟩ := by
  induction h with
  | here => exact hpart
  | @nullable inner v path part x notNull leads ih =>
      rw [← ih hpart]
      cases v with
      | null => exact absurd rfl notNull
      | _ => rfl
  | @item inner before after v path part x earlier leads ih =>
      have hbefore := fun u hu => (conforms_iff_allows inner _).mpr (earlier u hu)
      rw [← Nat.zero_add before.length]
      exact checkItems_of_first hbefore (ih hpart) 0
  | field earlier leads ih =>
      have hbefore := fun f hf => (conforms_iff_allows _ _).mpr (earlier f hf)
      exact checkFields_of_first hbefore (ih hpart)
  | @position schemas values before after s v path part x length split earlier leads ih =>
      have hbefore := fun p hp => (conforms_iff_allows _ _).mpr (earlier p hp)
      rw [check_tuple, if_pos length, ← Nat.zero_add before.length]
      exact checkTuple_of_first hbefore (ih hpart) 0 split

theorem Culprit.check {s part : Schema} {found x : Option Json} {path : List Step}
    (h : Culprit s found path part x) : s.check found = .error ⟨path, part, x⟩ :=
  h.leads.check (check_of_refusesItself h.refusesItself)

/-- **What is reported is the culprit**, and there is no other one. -/
theorem check_eq_error_iff {s : Schema} {found : Option Json} {m : Mismatch} :
    s.check found = .error m ↔ Culprit s found m.path m.expected m.found := by
  constructor
  · intro hcheck
    rcases allows_or_culprit s found with hallows | ⟨path, part, x, hculprit⟩
    · have hok : s.check found = .ok () := (conforms_iff_allows s found).mpr hallows
      rw [hok] at hcheck
      cases hcheck
    · rw [hculprit.check] at hcheck
      cases hcheck
      exact hculprit
  · intro hculprit
    exact hculprit.check

/-! ### What callers are told -/

theorem validate_eq_error_iff {s : Schema} {method root : String} {v : Json} {e : Validation} :
    s.validate method root v = .error e ↔
      ∃ m, s.check (some v) = .error m ∧ e = m.toValidation method root := by
  rw [validate]
  cases s.check (some v) with
  | ok _ => simp
  | error m => simp [eq_comm]

end LocalNode.Schema
