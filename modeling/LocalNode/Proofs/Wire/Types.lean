import LocalNode.Proofs.Ledger.Laws

/-!
All the types that cross the border of the node.

A wire type is one of the types of the ledger and of the values in it, or an option, a list or a
tuple of wire types. Both laws are proved here for every wire type at once, by induction on how it
is built. Reading what the schema accepts needs no condition. Reading back what was written does: an
option directly inside an option has two ways to be nothing, and both are written as `null`. A wire
type without such options is called regular.
-/

namespace LocalNode.Wire

/-! ### The types -/

/-- The types that are not built from others. With each goes the value that is read where a value
was written, which differs only for empty lists of transactions. -/
inductive Basic : {α : Type} → Wire α → (α → α) → Prop
  | word : Basic (inferInstance : Wire Word) id
  | address : Basic (inferInstance : Wire Address) id
  | hash : Basic (inferInstance : Wire Hash) id
  | data : Basic (inferInstance : Wire Data) id
  | bool : Basic (inferInstance : Wire Bool) id
  | string : Basic (inferInstance : Wire String) id
  | blockTag : Basic (inferInstance : Wire BlockTag) id
  | blockSelector : Basic (inferInstance : Wire BlockSelector) id
  | callRequest : Basic (inferInstance : Wire CallRequest) id
  | transaction : Basic (inferInstance : Wire Transaction) id
  | log : Basic (inferInstance : Wire Log) id
  | receipt : Basic (inferInstance : Wire Receipt) id
  | topicFilter : Basic (inferInstance : Wire TopicFilter) id
  | logFilter : Basic (inferInstance : Wire LogFilter) id
  | blockTransactions : Basic (inferInstance : Wire BlockTransactions) BlockTransactions.settle
  | block : Basic (inferInstance : Wire Block) Block.settle

mutual

/-- The wire types. -/
inductive IsWireType : {α : Type} → Wire α → Prop
  | basic {α : Type} {w : Wire α} {settle : α → α} (h : Basic w settle) : IsWireType w
  | option {α : Type} {w : Wire α} (h : IsWireType w) : IsWireType w.option
  | list {α : Type} {w : Wire α} (h : IsWireType w) : IsWireType w.list
  | tuple {α : Type} {ms : Members Wire α} (h : AreWireTypes ms) : IsWireType ms.tuple

/-- The items of a tuple, of which there is at least one, have wire types. -/
inductive AreWireTypes : {α : Type} → Members Wire α → Prop
  | last {α : Type} {w : Wire α} {name : String} (h : IsWireType w) :
      AreWireTypes (.cons w (.required name) .nil)
  | cons {α β : Type} {w : Wire α} {name : String} {rest : Members Wire β} (h : IsWireType w)
      (hrest : AreWireTypes rest) : AreWireTypes (.cons w (.required name) rest)

end

mutual

/-- The regular wire types, with the value that is read where a value was written. -/
inductive Regular : {α : Type} → Wire α → (α → α) → Prop
  | plain {α : Type} {w : Wire α} {settle : α → α} (h : Plain w settle) : Regular w settle
  | option {α : Type} {w : Wire α} {settle : α → α} (h : Plain w settle) :
      Regular w.option (Option.map settle)

/-- The regular wire types other than options. -/
inductive Plain : {α : Type} → Wire α → (α → α) → Prop
  | basic {α : Type} {w : Wire α} {settle : α → α} (h : Basic w settle) : Plain w settle
  | list {α : Type} {w : Wire α} {settle : α → α} (h : Regular w settle) :
      Plain w.list (List.map settle)
  | tuple {α : Type} {ms : Members Wire α} {settle : α → α} (h : AreRegular ms settle) :
      Plain ms.tuple settle

/-- The items of a tuple, of which there is at least one, have regular wire types. -/
inductive AreRegular : {α : Type} → Members Wire α → (α → α) → Prop
  | last {α : Type} {w : Wire α} {name : String} {f : α → α} (h : Regular w f) :
      AreRegular (.cons w (.required name) .nil) (Prod.map f id)
  | cons {α β : Type} {w : Wire α} {name : String} {rest : Members Wire β} {f : α → α}
      {g : β → β} (h : Regular w f) (hrest : AreRegular rest g) :
      AreRegular (.cons w (.required name) rest) (Prod.map f g)

end

/-! ### The laws

Types contain lists of members and these contain types, so the laws of both are proved together, by
recursion on how a type is built.
-/

theorem Basic.lawful {α : Type} {w : Wire α} {settle : α → α} (h : Basic w settle) :
    Lawful w settle := by
  cases h with
  | word => exact lawful_word
  | address => exact lawful_address
  | hash => exact lawful_hash
  | data => exact lawful_data
  | bool => exact lawful_bool
  | string => exact lawful_string
  | blockTag => exact BlockTag.lawful
  | blockSelector => exact BlockSelector.lawful
  | callRequest => exact CallRequest.lawful
  | transaction => exact Transaction.lawful
  | log => exact Log.lawful
  | receipt => exact Receipt.lawful
  | topicFilter => exact TopicFilter.lawful
  | logFilter => exact LogFilter.lawful
  | blockTransactions => exact BlockTransactions.lawful
  | block => exact Block.lawful

mutual

theorem IsWireType.readable : {α : Type} → {w : Wire α} → IsWireType w → Readable w
  | _, _, .basic h => h.lawful.readable
  | _, _, .option h => h.readable.option
  | _, _, .list h => h.readable.list
  | _, _, .tuple h => h.eachReadable.tuple

theorem AreWireTypes.eachReadable : {α : Type} → {ms : Members Wire α} → AreWireTypes ms →
    ms.EachReadable
  | _, _, .last h => ⟨h.readable, trivial⟩
  | _, _, .cons h hrest => ⟨h.readable, hrest.eachReadable⟩

end

theorem Plain.solid {α : Type} {w : Wire α} {settle : α → α} (h : Plain w settle) :
    Solid w := by
  cases h with
  | basic h => exact h.lawful.solid
  | list h => exact solid_list _
  | tuple h => exact Members.solid_tuple _

mutual

theorem Regular.roundTrips : {α : Type} → {w : Wire α} → {settle : α → α} → Regular w settle →
    RoundTrips w settle
  | _, _, _, .plain h => h.roundTrips
  | _, _, _, .option h => h.roundTrips.option h.solid

theorem Plain.roundTrips : {α : Type} → {w : Wire α} → {settle : α → α} → Plain w settle →
    RoundTrips w settle
  | _, _, _, .basic h => h.lawful.roundTrips
  | _, _, _, .list h => h.roundTrips.list
  | _, _, _, .tuple h => h.eachRoundTrips.tuple

theorem AreRegular.eachRoundTrips : {α : Type} → {ms : Members Wire α} → {settle : α → α} →
    AreRegular ms settle → ms.EachRoundTrips settle
  | _, _, _, .last h => .cons h.roundTrips .nil
  | _, _, _, .cons h hrest => .cons h.roundTrips hrest.eachRoundTrips

end

/-- **What a wire type writes conforms and reads back.** Every value is read back as it was, but for
empty lists of transactions. So whatever form a value was read from, writing it again gives a form
that the schema accepts and that does not change any more. -/
theorem Regular.writes_stable_forms {α : Type} {w : Wire α} {settle : α → α}
    (h : Regular w settle) :
    (∀ x, w.schema.accepts (w.encode x) = true ∧ w.decode (w.encode x) = .ok (settle x)) ∧
    ∀ v x, w.decode v = .ok x →
      w.schema.accepts (w.encode x) = true ∧
        ∃ y, w.decode (w.encode x) = .ok y ∧ w.encode y = w.encode x := by
  have hround := h.roundTrips
  constructor
  · intro x
    exact ⟨Schema.accepts_iff.mpr (hround.conforms x), hround.decode_encode x⟩
  · intro v x _
    exact ⟨Schema.accepts_iff.mpr (hround.conforms x), settle x, hround.decode_encode x,
      hround.encode_settle x⟩

/-- A list with a tag in an object, which the schema refuses, and with digits in upper case is read
all the same and then written in a form that the schema accepts. -/
theorem writes_stable_forms_lenient :
    decode (.arr [.null, .obj [("latest", .null)], .str "0xAB"]) =
        .ok [none, some (BlockSelector.tag .latest), some (BlockSelector.number 0xab)] ∧
      (Wire.schema (List (Option BlockSelector))).accepts
        (encode [none, some (BlockSelector.tag .latest), some (BlockSelector.number 0xab)]) =
          true := by
  have hregular := Regular.plain (.list (.option (.basic .blockSelector)))
  exact ⟨rfl, (hregular.writes_stable_forms.2
    (.arr [.null, .obj [("latest", .null)], .str "0xAB"]) _ rfl).1⟩

end LocalNode.Wire
