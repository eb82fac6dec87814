import LocalNode.Ledger.Block
import LocalNode.Ledger.Receipt
import LocalNode.Proofs.Wire.Members

/-!
The types of the ledger obey the laws of wire types.

For records this follows from their members. For unions there is more to it, since the forms are
told apart only by their shape. What is written in a later form must not be read in an earlier one,
and there is one case where it is: a block that lists no transactions is written as the empty array
whichever form its list has, and the empty array is read as a list of hashes.
-/

namespace LocalNode

open Schema Wire

/-! ### Unions -/

section Union

variable {α β γ : Type} {union : String} {v : Json}

theorem firstForm_map_ok {read : Json → Except Fault β} {f : β → α}
    {forms : List (Json → Except Fault α)} {b : β} (h : read v = .ok b) :
    firstForm union v ((fun v => (read v).map f) :: forms) = .ok (f b) := by
  rw [firstForm, h]
  rfl

theorem firstForm_map_error {read : Json → Except Fault β} {f : β → α}
    {forms : List (Json → Except Fault α)} {fault : Fault} (h : read v = .error fault) :
    firstForm union v ((fun v => (read v).map f) :: forms) = firstForm union v forms := by
  rw [firstForm, h]
  rfl

variable {u : Wire α} {w₁ : Wire β} {w₂ : Wire γ} {f : β → α} {g : γ → α}

/-- A union of two forms is readable if both are, since its schema asks for one of them. -/
theorem readable_union
    (hdecode : ∀ v, u.decode v =
      firstForm union v [fun v => (w₁.decode v).map f, fun v => (w₂.decode v).map g])
    (hschema : ∀ v, u.schema.Conforms (some v) →
      w₁.schema.Conforms (some v) ∨ w₂.schema.Conforms (some v))
    (h₁ : Readable w₁) (h₂ : Readable w₂) : Readable u := by
  intro v hv
  rw [hdecode]
  cases hfirst : w₁.decode v with
  | ok b => exact ⟨f b, firstForm_map_ok hfirst⟩
  | error fault =>
      rw [firstForm_map_error hfirst]
      rcases hschema v hv with hconforms | hconforms
      · obtain ⟨b, hb⟩ := h₁ v hconforms
        rw [hfirst] at hb
        cases hb
      · obtain ⟨c, hc⟩ := h₂ v hconforms
        exact ⟨g c, firstForm_map_ok hc⟩

/-- A union of two lawful forms is lawful if what is written in either form is read back. -/
theorem lawful_union {settle₁ : β → β} {settle₂ : γ → γ} {settle : α → α}
    (hdecode : ∀ v, u.decode v =
      firstForm union v [fun v => (w₁.decode v).map f, fun v => (w₂.decode v).map g])
    (hschema : ∀ found, u.schema.Conforms found ↔
      w₁.schema.Conforms found ∨ w₂.schema.Conforms found)
    (hencode : ∀ a, (∃ b, u.encode a = w₁.encode b) ∨ ∃ c, u.encode a = w₂.encode c)
    (h₁ : Lawful w₁ settle₁) (h₂ : Lawful w₂ settle₂)
    (hround : ∀ a, u.decode (u.encode a) = .ok (settle a))
    (hsettle : ∀ a, u.encode (settle a) = u.encode a) : Lawful u settle where
  readable := readable_union hdecode (fun _ => (hschema _).mp) h₁.readable h₂.readable
  roundTrips :=
    { conforms := by
        intro a
        rcases hencode a with ⟨b, hb⟩ | ⟨c, hc⟩
        · rw [hb]
          exact (hschema _).mpr (.inl (h₁.roundTrips.conforms b))
        · rw [hc]
          exact (hschema _).mpr (.inr (h₂.roundTrips.conforms c))
      decode_encode := hround
      encode_settle := hsettle }
  solid :=
    { encode_ne_null := by
        intro a
        rcases hencode a with ⟨b, hb⟩ | ⟨c, hc⟩
        · rw [hb]
          exact h₁.solid.encode_ne_null b
        · rw [hc]
          exact h₂.solid.encode_ne_null c
      not_absent := fun habsent =>
        ((hschema none).mp habsent).elim h₁.solid.not_absent h₂.solid.not_absent }

theorem conforms_oneOf_pair {s₁ s₂ : Schema} {found : Option Json} :
    Conforms (.oneOf [s₁, s₂]) found ↔ s₁.Conforms found ∨ s₂.Conforms found := by
  rw [conforms_oneOf]
  simp only [List.mem_cons, List.not_mem_nil, or_false, exists_eq_or_imp, exists_eq_left]

end Union

/-! ### Selectors

Heights and tags are both written as strings. They are told apart because tags do not begin with the
marker of a quantity.
-/

namespace BlockTag

theorem ofName_of_mem {s : String} (h : s ∈ blockTags) : ∃ tag, ofName s = .ok tag := by
  simp only [blockTags, List.mem_cons, List.not_mem_nil, or_false] at h
  rcases h with rfl | rfl | rfl
  · exact ⟨.earliest, rfl⟩
  · exact ⟨.latest, rfl⟩
  · exact ⟨.pending, rfl⟩

theorem render_mem (tag : BlockTag) : tag.render ∈ blockTags := by
  cases tag <;> decide

theorem lawful : Lawful (inferInstance : Wire BlockTag) id where
  readable := by
    intro v hv
    obtain ⟨s, heq, hs⟩ := conforms_tag.mp hv
    cases heq
    exact ofName_of_mem hs
  roundTrips :=
    { conforms := fun tag => conforms_tag.mpr ⟨tag.render, rfl, tag.render_mem⟩
      decode_encode := by
        intro tag
        cases tag <;> rfl
      encode_settle := fun _ => rfl }
  solid :=
    { encode_ne_null := fun _ => nofun
      not_absent := by
        intro h
        obtain ⟨s, heq, -⟩ := conforms_tag.mp h
        cases heq }

end BlockTag

namespace BlockSelector

/-- No tag has the form of a quantity. -/
theorem decode_render (tag : BlockTag) :
    ∃ fault, decode (α := Word) (.str tag.render) = .error fault := by
  cases tag <;> exact ⟨_, rfl⟩

theorem decode_encode (selector : BlockSelector) :
    decode (α := BlockSelector) (encode selector) = .ok selector := by
  cases selector with
  | number height => exact firstForm_map_ok (lawful_word.roundTrips.decode_encode height)
  | tag name =>
      obtain ⟨fault, hfault⟩ := decode_render name
      exact (firstForm_map_error hfault).trans
        (firstForm_map_ok (BlockTag.lawful.roundTrips.decode_encode name))

/-- The schema of selectors accepts what the schemas of quantities and of tags accept. -/
theorem conforms_iff {found : Option Json} :
    Conforms .block found ↔ Conforms .quantity found ∨ Conforms .tag found := by
  rw [conforms_block, conforms_quantity, conforms_tag]
  constructor
  · rintro ⟨s, heq, hs⟩
    exact hs.symm.imp (fun h => ⟨s, heq, h⟩) (fun h => ⟨s, heq, h⟩)
  · rintro (⟨s, heq, h⟩ | ⟨s, heq, h⟩)
    · exact ⟨s, heq, .inr h⟩
    · exact ⟨s, heq, .inl h⟩

theorem lawful : Lawful (inferInstance : Wire BlockSelector) id := by
  refine lawful_union (fun _ => rfl) (fun _ => conforms_iff) ?_ lawful_word BlockTag.lawful
    decode_encode (fun _ => rfl)
  intro selector
  cases selector with
  | number height => exact .inl ⟨height, rfl⟩
  | tag name => exact .inr ⟨name, rfl⟩

end BlockSelector

/-! ### Records -/

theorem CallRequest.lawful : Lawful (inferInstance : Wire CallRequest) id :=
  Record.lawful (r := CallRequest.record)
    (.optional lawful_address <| .optional lawful_address <| .optional lawful_word <|
      .optional lawful_word <| .optional lawful_word <| .optional lawful_word <|
      .optional lawful_data .nil)
    (by decide) (fun _ => rfl) (fun _ => rfl)

theorem Transaction.lawful : Lawful (inferInstance : Wire Transaction) id :=
  Record.lawful (r := Transaction.record)
    (.required lawful_hash <| .required lawful_word <| .nullable lawful_hash <|
      .nullable lawful_word <| .nullable lawful_word <| .required lawful_address <|
      .nullable lawful_address <| .required lawful_word <| .required lawful_word <|
      .required lawful_word <| .required lawful_data <| .required lawful_word <|
      .required lawful_word <| .required lawful_word .nil)
    (by decide) (fun _ => rfl) (fun _ => rfl)

/-- The wire form of a list of hashes. -/
theorem lawful_hashes : Lawful (inferInstance : Wire (List Hash)) id :=
  lawful_list lawful_hash.readable lawful_hash.roundTrips

theorem Log.lawful : Lawful (inferInstance : Wire Log) id :=
  Record.lawful (r := Log.record)
    (.required lawful_address <| .required lawful_hashes <| .required lawful_data <|
      .required lawful_hash <| .required lawful_word <| .required lawful_hash <|
      .required lawful_word <| .required lawful_word <| .required lawful_bool .nil)
    (by decide) (fun _ => rfl) (fun _ => rfl)

theorem Receipt.lawful : Lawful (inferInstance : Wire Receipt) id :=
  Record.lawful (r := Receipt.record)
    (.required lawful_hash <| .required lawful_word <| .required lawful_hash <|
      .required lawful_word <| .required lawful_address <| .nullable lawful_address <|
      .required lawful_word <| .required lawful_word <| .nullable lawful_address <|
      .required (lawful_list Log.lawful.readable Log.lawful.roundTrips) <|
      .required lawful_data <| .required lawful_word .nil)
    (by decide) (fun _ => rfl) (fun _ => rfl)

/-! ### Filters -/

namespace TopicFilter

theorem decode_encode (filter : TopicFilter) :
    decode (α := TopicFilter) (encode filter) = .ok filter := by
  cases filter with
  | exact topic => exact firstForm_map_ok (lawful_hash.roundTrips.decode_encode topic)
  | anyOf topics =>
      -- An array is not read as a single topic.
      exact (firstForm_map_error rfl).trans
        (firstForm_map_ok (lawful_hashes.roundTrips.decode_encode topics))

theorem lawful : Lawful (inferInstance : Wire TopicFilter) id := by
  refine lawful_union (fun _ => rfl) (fun _ => conforms_oneOf_pair) ?_ lawful_hash lawful_hashes
    decode_encode (fun _ => rfl)
  intro filter
  cases filter with
  | exact topic => exact .inl ⟨topic, rfl⟩
  | anyOf topics => exact .inr ⟨topics, rfl⟩

end TopicFilter

theorem LogFilter.lawful : Lawful (inferInstance : Wire LogFilter) id :=
  Record.lawful (r := LogFilter.record)
    (.optional BlockSelector.lawful <| .optional BlockSelector.lawful <|
      .optional lawful_address <|
      .optional (lawful_list TopicFilter.lawful.readable.option
        TopicFilter.lawful.option_roundTrips) <|
      .optional lawful_hash .nil)
    (by decide) (fun _ => rfl) (fun _ => rfl)

/-! ### Blocks -/

namespace BlockTransactions

/-- The empty list is a list of hashes once it has been written and read. -/
def settle : BlockTransactions → BlockTransactions
  | .full [] => .hashes []
  | other => other

theorem lawful_transactions : Lawful (inferInstance : Wire (List Transaction)) id :=
  lawful_list Transaction.lawful.readable Transaction.lawful.roundTrips

theorem decode_encode (transactions : BlockTransactions) :
    decode (α := BlockTransactions) (encode transactions) = .ok transactions.settle := by
  cases transactions with
  | hashes list => exact firstForm_map_ok (lawful_hashes.roundTrips.decode_encode list)
  | full list =>
      cases list with
      | nil => exact firstForm_map_ok (lawful_hashes.roundTrips.decode_encode [])
      | cons t list =>
          -- The first item is an object, which is no hash.
          exact (firstForm_map_error rfl).trans
            (firstForm_map_ok (lawful_transactions.roundTrips.decode_encode (t :: list)))

theorem encode_settle (transactions : BlockTransactions) :
    encode transactions.settle = encode transactions := by
  unfold settle
  split <;> rfl

theorem lawful : Lawful (inferInstance : Wire BlockTransactions) settle := by
  refine lawful_union (fun _ => rfl) (fun _ => conforms_oneOf_pair) ?_ lawful_hashes
    lawful_transactions decode_encode encode_settle
  intro transactions
  cases transactions with
  | hashes list => exact .inl ⟨list, rfl⟩
  | full list => exact .inr ⟨list, rfl⟩

end BlockTransactions

/-- A block whose list of transactions has been written and read. -/
def Block.settle (b : Block) : Block :=
  { b with transactions := b.transactions.settle }

theorem Block.lawful : Lawful (inferInstance : Wire Block) Block.settle :=
  Record.lawful (r := Block.record)
    (.required lawful_word <| .required lawful_hash <| .required lawful_hash <|
      .required lawful_data <| .required lawful_hash <| .required lawful_data <|
      .required lawful_hash <| .required lawful_hash <| .required lawful_hash <|
      .required lawful_address <| .required lawful_word <| .required lawful_word <|
      .required lawful_data <| .required lawful_word <| .required lawful_word <|
      .required lawful_word <| .required lawful_word <|
      .required BlockTransactions.lawful <| .required lawful_hashes .nil)
    (by decide) (fun _ => rfl) (fun _ => rfl)

end LocalNode
