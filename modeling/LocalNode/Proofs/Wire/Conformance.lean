import LocalNode.Wire.Schema

/-!
What it means for a value to conform to a schema.

Checking reports the first part that does not fit, and so it is a program with an order. Whether it
finds any such part is a plain statement about the value, given here for each form of schema in
terms of its parts. What follows about schemas is proved from these statements and does not look at
the checking again.
-/

namespace LocalNode

/-- A computation in two parts succeeds exactly if both parts do. -/
theorem bind_eq_ok {ε α β : Type} {r : Except ε α} {next : α → Except ε β} {b : β} :
    (r >>= next) = .ok b ↔ ∃ a, r = .ok a ∧ next a = .ok b := by
  cases r with
  | ok a => exact ⟨fun h => ⟨a, rfl, h⟩, fun ⟨_, ha, h⟩ => by cases ha; exact h⟩
  | error e => exact ⟨fun h => (nomatch h), fun ⟨_, ha, _⟩ => (nomatch ha)⟩

/-- Either all items of a list pass, or there is a first one that does not. -/
theorem all_or_first {α : Type} (P : α → Prop) (items : List α) :
    (∀ a ∈ items, P a) ∨
      ∃ before a after, items = before ++ a :: after ∧ (∀ b ∈ before, P b) ∧ ¬ P a := by
  induction items with
  | nil => exact .inl nofun
  | cons first rest ih =>
      by_cases hfirst : P first
      · rcases ih with hall | ⟨before, a, after, rfl, hbefore, ha⟩
        · exact .inl (List.forall_mem_cons.mpr ⟨hfirst, hall⟩)
        · exact .inr ⟨first :: before, a, after, rfl,
            List.forall_mem_cons.mpr ⟨hfirst, hbefore⟩, ha⟩
      · exact .inr ⟨[], first, rest, rfl, nofun, hfirst⟩

namespace Schema

/-- A value, or the absence of one, has nothing that a schema forbids. -/
def Conforms (s : Schema) (found : Option Json) : Prop :=
  s.check found = .ok ()

theorem succeeds_iff {ε α : Type} {r : Except ε α} : succeeds r = true ↔ ∃ a, r = .ok a := by
  cases r with
  | ok a => exact ⟨fun _ => ⟨a, rfl⟩, fun _ => rfl⟩
  | error e => exact ⟨fun h => (nomatch h), fun ⟨_, h⟩ => (nomatch h)⟩

theorem succeeds_check {s : Schema} {found : Option Json} :
    succeeds (s.check found) = true ↔ s.Conforms found := by
  rw [succeeds_iff]
  exact ⟨fun ⟨(), h⟩ => h, fun h => ⟨(), h⟩⟩

theorem accepts_iff {s : Schema} {v : Json} : s.accepts v = true ↔ s.Conforms (some v) :=
  succeeds_check

/-! ### The steps of checking -/

theorem require_eq_ok {s : Schema} {found : Option Json} {ok : Bool} :
    require s found ok = .ok () ↔ ok = true := by
  cases ok <;> simp [require]

theorem atStep_eq_ok {step : Step} {r : Except Mismatch Unit} :
    atStep step r = .ok () ↔ r = .ok () := by
  cases r <;> simp [atStep]

theorem isText_iff {accept : String → Bool} {found : Option Json} :
    isText accept found = true ↔ ∃ s, found = some (.str s) ∧ accept s = true := by
  unfold isText
  split
  · rename_i s
    exact ⟨fun h => ⟨s, rfl, h⟩, fun ⟨_, h, hs⟩ => by cases h; exact hs⟩
  · rename_i hother
    exact ⟨fun h => (nomatch h), fun ⟨s, h, _⟩ => (hother s h).elim⟩

theorem isTag_iff {s : String} : isTag s = true ↔ s ∈ blockTags :=
  List.contains_iff_mem

/-- One check after another finds nothing exactly if neither does. -/
theorem andThen_eq_ok {first second : Except Mismatch Unit} :
    (do first; second) = .ok () ↔ first = .ok () ∧ second = .ok () := by
  rw [bind_eq_ok]
  exact ⟨fun ⟨(), h⟩ => h, fun h => ⟨(), h⟩⟩

theorem checkItems_eq_ok {check : Option Json → Except Mismatch Unit} {items : List Json} :
    ∀ {i}, checkItems check i items = .ok () ↔ ∀ v ∈ items, check (some v) = .ok () := by
  induction items with
  | nil => simp [checkItems]
  | cons item rest ih =>
      intro i
      rw [checkItems, andThen_eq_ok, atStep_eq_ok, ih, List.forall_mem_cons]

theorem checkFields_eq_ok {fields : List (String × Schema)} {members : List (String × Json)} :
    checkFields fields members = .ok () ↔
      ∀ f ∈ fields, f.2.Conforms (Json.member? members f.1) := by
  induction fields with
  | nil => exact ⟨fun _ => nofun, fun _ => rfl⟩
  | cons f rest ih =>
      show (do atStep (.field f.1) (check f.2 (Json.member? members f.1)); checkFields rest members)
        = .ok () ↔ _
      rw [andThen_eq_ok, atStep_eq_ok, ih, List.forall_mem_cons]
      rfl

theorem checkTuple_eq_ok {schemas : List Schema} :
    ∀ {i} {values : List Json}, checkTuple schemas i values = .ok () ↔
      ∀ p ∈ schemas.zip values, p.1.Conforms (some p.2) := by
  induction schemas with
  | nil => exact ⟨fun _ => nofun, fun _ => rfl⟩
  | cons s rest ih =>
      intro i values
      cases values with
      | nil => exact ⟨fun _ => nofun, fun _ => rfl⟩
      | cons v values =>
          show (do atStep (.index i) (check s (some v)); checkTuple rest (i + 1) values)
            = .ok () ↔ _
          rw [andThen_eq_ok, atStep_eq_ok, ih, List.zip_cons_cons, List.forall_mem_cons]
          rfl

theorem anyAccepts_iff {options : List Schema} {found : Option Json} :
    anyAccepts options found = true ↔ ∃ s ∈ options, s.Conforms found := by
  induction options with
  | nil => exact ⟨fun h => (nomatch h), nofun⟩
  | cons s rest ih =>
      show (succeeds (check s found) || anyAccepts rest found) = true ↔ _
      rw [Bool.or_eq_true, ih, succeeds_check]
      simp only [List.mem_cons, exists_eq_or_imp]

/-! ### The forms of schemas -/

variable {found : Option Json}

/-- A schema for strings asks that there is one and that it passes a test. -/
theorem conforms_text {s : Schema} {test : String → Bool}
    (h : s.check found = require s found (isText test found)) :
    s.Conforms found ↔ ∃ text, found = some (.str text) ∧ test text = true := by
  rw [Conforms, h, require_eq_ok, isText_iff]

theorem conforms_quantity :
    Conforms .quantity found ↔ ∃ s, found = some (.str s) ∧ ∃ w, Quantity.decode s = .ok w := by
  rw [conforms_text (s := .quantity) rfl]
  simp only [succeeds_iff]

theorem conforms_address :
    Conforms .address found ↔
      ∃ s, found = some (.str s) ∧ ∃ a, FixedBytes.decode (n := 20) s = .ok a := by
  rw [conforms_text (s := .address) rfl]
  simp only [succeeds_iff]

theorem conforms_hash :
    Conforms .hash found ↔
      ∃ s, found = some (.str s) ∧ ∃ h, FixedBytes.decode (n := 32) s = .ok h := by
  rw [conforms_text (s := .hash) rfl]
  simp only [succeeds_iff]

theorem conforms_data :
    Conforms .data found ↔ ∃ s, found = some (.str s) ∧ ∃ d, Data.decode s = .ok d := by
  rw [conforms_text (s := .data) rfl]
  simp only [succeeds_iff]

theorem conforms_tag :
    Conforms .tag found ↔ ∃ s, found = some (.str s) ∧ s ∈ blockTags := by
  rw [conforms_text (s := .tag) rfl]
  simp only [isTag_iff]

theorem conforms_block :
    Conforms .block found ↔
      ∃ s, found = some (.str s) ∧ (s ∈ blockTags ∨ ∃ w, Quantity.decode s = .ok w) := by
  rw [conforms_text (s := .block) rfl]
  simp only [Bool.or_eq_true, isTag_iff, succeeds_iff]

theorem conforms_string : Conforms .string found ↔ ∃ s, found = some (.str s) := by
  rw [conforms_text (s := .string) rfl]
  simp only [and_true]

/-- Where nothing but a mismatch can come of checking, nothing conforms. -/
theorem not_conforms {s : Schema} (h : s.check found = require s found false) :
    ¬ s.Conforms found := by
  rw [Conforms, h, require_eq_ok]
  decide

theorem conforms_bool : Conforms .bool found ↔ ∃ b, found = some (.bool b) := by
  constructor
  · intro h
    cases found with
    | none => exact (not_conforms rfl h).elim
    | some v =>
        cases v with
        | bool b => exact ⟨b, rfl⟩
        | _ => exact (not_conforms rfl h).elim
  · rintro ⟨b, rfl⟩
    rfl

/-- An absent value conforms, and so does `null`. -/
theorem conforms_nullable {inner : Schema} :
    Conforms (.nullable inner) found ↔
      found = none ∨ found = some .null ∨ ∃ v, found = some v ∧ inner.Conforms (some v) := by
  constructor
  · intro h
    cases found with
    | none => exact .inl rfl
    | some v =>
        cases v with
        | null => exact .inr (.inl rfl)
        | _ => exact .inr (.inr ⟨_, rfl, h⟩)
  · rintro (rfl | rfl | ⟨v, rfl, h⟩)
    · rfl
    · rfl
    · cases v with
      | null => rfl
      | _ => exact h

theorem conforms_noParams :
    Conforms .noParams found ↔ found = none ∨ found = some .null ∨ found = some (.arr []) := by
  constructor
  · intro h
    cases found with
    | none => exact .inl rfl
    | some v =>
        cases v with
        | null => exact .inr (.inl rfl)
        | arr items =>
            cases items with
            | nil => exact .inr (.inr rfl)
            | cons item items => exact (not_conforms rfl h).elim
        | _ => exact (not_conforms rfl h).elim
  · rintro (rfl | rfl | rfl) <;> rfl

theorem conforms_array {inner : Schema} :
    Conforms (.array inner) found ↔
      ∃ items, found = some (.arr items) ∧ ∀ v ∈ items, inner.Conforms (some v) := by
  constructor
  · intro h
    cases found with
    | none => exact (not_conforms rfl h).elim
    | some v =>
        cases v with
        | arr items => exact ⟨items, rfl, checkItems_eq_ok.mp h⟩
        | _ => exact (not_conforms rfl h).elim
  · rintro ⟨items, rfl, hall⟩
    exact checkItems_eq_ok.mpr hall

/-- An object may have members that the record does not name. -/
theorem conforms_record {fields : List (String × Schema)} :
    Conforms (.record fields) found ↔
      ∃ members, found = some (.obj members) ∧
        ∀ f ∈ fields, f.2.Conforms (Json.member? members f.1) := by
  constructor
  · intro h
    cases found with
    | none => exact (not_conforms rfl h).elim
    | some v =>
        cases v with
        | obj members => exact ⟨members, rfl, checkFields_eq_ok.mp h⟩
        | _ => exact (not_conforms rfl h).elim
  · rintro ⟨members, rfl, hall⟩
    exact checkFields_eq_ok.mpr hall

theorem check_tuple {items : List Schema} {values : List Json} :
    check (.tuple items) (some (.arr values)) =
      if values.length = items.length then checkTuple items 0 values
      else require (.tuple items) (some (.arr values)) false :=
  rfl

theorem conforms_tuple {items : List Schema} :
    Conforms (.tuple items) found ↔
      ∃ values, found = some (.arr values) ∧ values.length = items.length ∧
        ∀ p ∈ items.zip values, p.1.Conforms (some p.2) := by
  constructor
  · intro h
    cases found with
    | none => exact (not_conforms rfl h).elim
    | some v =>
        cases v with
        | arr values =>
            by_cases hlength : values.length = items.length
            · rw [Conforms, check_tuple, if_pos hlength, checkTuple_eq_ok] at h
              exact ⟨values, rfl, hlength, h⟩
            · exact (not_conforms (by rw [check_tuple, if_neg hlength]) h).elim
        | _ => exact (not_conforms rfl h).elim
  · rintro ⟨values, rfl, hlength, hall⟩
    rw [Conforms, check_tuple, if_pos hlength, checkTuple_eq_ok]
    exact hall

theorem conforms_oneOf {options : List Schema} :
    Conforms (.oneOf options) found ↔ ∃ s ∈ options, s.Conforms found := by
  show require (.oneOf options) found (anyAccepts options found) = .ok () ↔ _
  rw [require_eq_ok, anyAccepts_iff]

end Schema

end LocalNode
