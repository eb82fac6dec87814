/-!
Finite tables: each key has at most one value.
-/

namespace LocalNode

/-- A table from keys to values, in the order in which the keys came. -/
structure Table (κ ν : Type) where
  entries : List (κ × ν)

namespace Table

variable {κ ν : Type} [DecidableEq κ]

/-- The table without entries. -/
def empty : Table κ ν := ⟨[]⟩

/-- The value of a key. -/
def get? (t : Table κ ν) (k : κ) : Option ν :=
  t.entries.lookup k

/-- Whether a key has a value. -/
def contains (t : Table κ ν) (k : κ) : Bool :=
  (t.get? k).isSome

/-- Gives a key a value, in the place of the old one if there is one. -/
def insertEntry (k : κ) (v : ν) : List (κ × ν) → List (κ × ν)
  | [] => [(k, v)]
  | (k', v') :: rest =>
    if k' = k then (k, v) :: rest else (k', v') :: insertEntry k v rest

/-- Gives a key a value. -/
def insert (t : Table κ ν) (k : κ) (v : ν) : Table κ ν :=
  ⟨insertEntry k v t.entries⟩

theorem get?_empty (k : κ) : (empty : Table κ ν).get? k = none :=
  rfl

theorem lookup_cons (k key : κ) (value : ν) (rest : List (κ × ν)) :
    ((key, value) :: rest).lookup k = if k = key then some value else rest.lookup k := by
  by_cases h : k = key
  · rw [h, List.lookup_cons_self, if_pos rfl]
  · rw [List.lookup_cons, beq_false_of_ne h, if_neg h]

theorem lookup_insertEntry (k : κ) (v : ν) (k' : κ) (entries : List (κ × ν)) :
    (insertEntry k v entries).lookup k' = if k' = k then some v else entries.lookup k' := by
  induction entries with
  | nil => rw [insertEntry, lookup_cons]
  | cons entry rest ih =>
    obtain ⟨key, value⟩ := entry
    by_cases hkey : key = k
    · -- The entry of the key is replaced, and the entries behind it are not looked at.
      rw [insertEntry, if_pos hkey, lookup_cons, lookup_cons, hkey]
      by_cases h : k' = k <;> simp only [h, if_true, if_false]
    · rw [insertEntry, if_neg hkey, lookup_cons, lookup_cons, ih]
      by_cases h : k' = key
      · have hne : k' ≠ k := fun heq => hkey (h.symm.trans heq)
        rw [if_pos h, if_neg hne, if_pos h]
      · rw [if_neg h, if_neg h]

/-- Giving a key a value changes what that key has, and nothing else. -/
theorem get?_insert (t : Table κ ν) (k : κ) (v : ν) (k' : κ) :
    (t.insert k v).get? k' = if k' = k then some v else t.get? k' :=
  lookup_insertEntry k v k' t.entries

theorem get?_insert_self (t : Table κ ν) (k : κ) (v : ν) : (t.insert k v).get? k = some v := by
  rw [get?_insert, if_pos rfl]

theorem get?_insert_of_ne (t : Table κ ν) {k k' : κ} (h : k' ≠ k) (v : ν) :
    (t.insert k v).get? k' = t.get? k' := by
  rw [get?_insert, if_neg h]

/-- A value for a key that had none leaves what the other keys have. -/
theorem get?_insert_of_unknown {t : Table κ ν} {k k' : κ} {v v' : ν} (hunknown : t.get? k = none)
    (hv : t.get? k' = some v') : (t.insert k v).get? k' = some v' := by
  have hne : k' ≠ k := by
    rintro rfl
    rw [hunknown] at hv
    cases hv
  rw [get?_insert_of_ne t hne]
  exact hv

/-- The values, in the order of their keys. -/
def values (t : Table κ ν) : List ν :=
  t.entries.map (·.2)

end Table

end LocalNode
