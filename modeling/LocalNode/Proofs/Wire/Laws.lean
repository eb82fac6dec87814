import LocalNode.Proofs.Codec.RoundTrip
import LocalNode.Proofs.Wire.Conformance
import LocalNode.Wire.Basic

/-!
The laws that tie the schema of a wire type to its codec.

Two laws are of interest. A type is readable if its codec reads whatever its schema accepts; the
checker and the reader then cannot drift apart. A type round-trips if what it writes conforms and
reads back. Reading back need not give the same value, since two values may be written alike, so the
law names a function that settles which of them is read.

An option adds the value `null` to those of its inner type, and an object may leave it out. This is
sound only if the inner type has neither, which is the third law.
-/

namespace LocalNode.Wire

open Schema

variable {α : Type}

/-- Whatever the schema of a type accepts, its codec reads. -/
def Readable (w : Wire α) : Prop :=
  ∀ v, w.schema.Conforms (some v) → ∃ a, w.decode v = .ok a

/-- What a codec writes conforms to the schema and reads back as a value that is written alike. -/
structure RoundTrips (w : Wire α) (settle : α → α) : Prop where
  conforms : ∀ a, w.schema.Conforms (some (w.encode a))
  decode_encode : ∀ a, w.decode (w.encode a) = .ok (settle a)
  encode_settle : ∀ a, w.encode (settle a) = w.encode a

/-- No value is written as `null`, and no value may be left out. -/
structure Solid (w : Wire α) : Prop where
  encode_ne_null : ∀ a, w.encode a ≠ .null
  not_absent : ¬ w.schema.Conforms none

/-- A type that obeys all the laws. -/
structure Lawful (w : Wire α) (settle : α → α) : Prop where
  readable : Readable w
  roundTrips : RoundTrips w settle
  solid : Solid w

/-! ### Values that are written as strings -/

/-- All types of text obey the laws for one reason: the schema asks exactly that the text can be
read. -/
theorem lawful_text {w : Wire α} {read : String → Except CodecError α} {write : α → String}
    (hencode : ∀ a, w.encode a = .str (write a)) (hdecode : w.decode = decodeText read)
    (hschema : ∀ found, w.schema.Conforms found ↔
      ∃ s, found = some (.str s) ∧ ∃ a, read s = .ok a)
    (hread : ∀ a, read (write a) = .ok a) : Lawful w id where
  readable := by
    intro v hv
    obtain ⟨s, hs, a, ha⟩ := (hschema _).mp hv
    cases hs
    refine ⟨a, ?_⟩
    rw [hdecode, decodeText, ha]
  roundTrips :=
    { conforms := by
        intro a
        rw [hencode]
        exact (hschema _).mpr ⟨write a, rfl, a, hread a⟩
      decode_encode := by
        intro a
        rw [hencode, hdecode, decodeText, hread]
        rfl
      encode_settle := fun _ => rfl }
  solid :=
    { encode_ne_null := by
        intro a
        rw [hencode]
        exact nofun
      not_absent := by
        intro h
        obtain ⟨s, hs, -⟩ := (hschema _).mp h
        cases hs }

theorem lawful_word : Lawful (inferInstance : Wire Word) id :=
  lawful_text (fun _ => rfl) rfl (fun _ => conforms_quantity) Quantity.decode_encode

theorem lawful_address : Lawful (inferInstance : Wire Address) id :=
  lawful_text (fun _ => rfl) rfl (fun _ => conforms_address) FixedBytes.decode_encode

theorem lawful_hash : Lawful (inferInstance : Wire Hash) id :=
  lawful_text (fun _ => rfl) rfl (fun _ => conforms_hash) FixedBytes.decode_encode

theorem lawful_data : Lawful (inferInstance : Wire Data) id :=
  lawful_text (fun _ => rfl) rfl (fun _ => conforms_data) Data.decode_encode

theorem lawful_string : Lawful (inferInstance : Wire String) id := by
  refine lawful_text (fun _ => rfl) rfl ?_ (fun _ => rfl)
  intro found
  rw [show Wire.schema String = .string from rfl, conforms_string]
  exact ⟨fun ⟨s, h⟩ => ⟨s, h, s, rfl⟩, fun ⟨s, h, _⟩ => ⟨s, h⟩⟩

/-! ### Truth values -/

theorem lawful_bool : Lawful (inferInstance : Wire Bool) id where
  readable := by
    intro v hv
    obtain ⟨b, hb⟩ := conforms_bool.mp hv
    cases hb
    exact ⟨b, rfl⟩
  roundTrips := ⟨fun b => conforms_bool.mpr ⟨b, rfl⟩, fun _ => rfl, fun _ => rfl⟩
  solid := ⟨fun _ => nofun, fun h => nomatch (conforms_bool.mp h).choose_spec⟩

/-! ### Options -/

variable {w : Wire α} {settle : α → α}

theorem decode_option {v : Json} (hv : v ≠ .null) : w.option.decode v = (w.decode v).map some := by
  show decodeOption w.decode v = _
  unfold decodeOption
  split
  · exact (hv rfl).elim
  · rfl

theorem Readable.option (h : Readable w) : Readable w.option := by
  intro v hv
  by_cases hnull : v = .null
  · subst hnull
    exact ⟨none, rfl⟩
  · rcases conforms_nullable.mp hv with hnone | hnull' | ⟨v', heq, hconforms⟩
    · cases hnone
    · exact (hnull (Option.some.inj hnull')).elim
    · cases heq
      obtain ⟨a, ha⟩ := h v hconforms
      refine ⟨some a, ?_⟩
      rw [decode_option hnull, ha]
      rfl

theorem RoundTrips.option (h : RoundTrips w settle) (hsolid : Solid w) :
    RoundTrips w.option (Option.map settle) where
  conforms := by
    intro o
    cases o with
    | none => exact conforms_nullable.mpr (.inr (.inl rfl))
    | some a => exact conforms_nullable.mpr (.inr (.inr ⟨_, rfl, h.conforms a⟩))
  decode_encode := by
    intro o
    cases o with
    | none => rfl
    | some a =>
        show w.option.decode (w.encode a) = _
        rw [decode_option (hsolid.encode_ne_null a), h.decode_encode]
        rfl
  encode_settle := by
    intro o
    cases o with
    | none => rfl
    | some a => exact h.encode_settle a

theorem Lawful.option_roundTrips (h : Lawful w id) : RoundTrips w.option id := by
  have hoption := h.roundTrips.option h.solid
  rwa [Option.map_id] at hoption

/-! ### Lists -/

theorem Readable.decodeItems (h : Readable w) {items : List Json}
    (hall : ∀ v ∈ items, w.schema.Conforms (some v)) :
    ∃ as, decodeItems w.decode items = .ok as := by
  induction items with
  | nil => exact ⟨[], rfl⟩
  | cons v items ih =>
      rw [List.forall_mem_cons] at hall
      obtain ⟨a, ha⟩ := h v hall.1
      obtain ⟨as, has⟩ := ih hall.2
      refine ⟨a :: as, ?_⟩
      rw [Wire.decodeItems, ha, has]
      rfl

theorem Readable.list (h : Readable w) : Readable w.list := by
  intro v hv
  obtain ⟨items, heq, hall⟩ := conforms_array.mp hv
  cases heq
  exact h.decodeItems hall

theorem decodeItems_map_encode (h : RoundTrips w settle) (as : List α) :
    decodeItems w.decode (as.map w.encode) = .ok (as.map settle) := by
  induction as with
  | nil => rfl
  | cons a as ih =>
      rw [List.map_cons, decodeItems, h.decode_encode, ih]
      rfl

theorem RoundTrips.list (h : RoundTrips w settle) : RoundTrips w.list (List.map settle) where
  conforms := by
    intro as
    refine conforms_array.mpr ⟨as.map w.encode, rfl, ?_⟩
    intro v hv
    obtain ⟨a, -, rfl⟩ := List.mem_map.mp hv
    exact h.conforms a
  decode_encode := decodeItems_map_encode h
  encode_settle := by
    intro as
    show Json.arr ((as.map settle).map w.encode) = .arr (as.map w.encode)
    rw [List.map_map]
    exact congrArg Json.arr (List.map_congr_left fun a _ => h.encode_settle a)

theorem solid_list (w : Wire α) : Solid w.list where
  encode_ne_null := fun _ => nofun
  not_absent := by
    intro h
    obtain ⟨items, heq, -⟩ := conforms_array.mp h
    cases heq

theorem lawful_list (hreadable : Readable w) (hround : RoundTrips w id) : Lawful w.list id := by
  refine ⟨hreadable.list, ?_, solid_list w⟩
  have hlist := hround.list
  rwa [List.map_id_fun] at hlist

end LocalNode.Wire
