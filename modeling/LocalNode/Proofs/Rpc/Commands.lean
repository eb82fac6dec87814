import LocalNode.Proofs.Rpc.Requests

/-!
Commands as they stand in requests.

A command is written as the array of the values of its parameters. A request with that array is
understood as the same command, since the parameters of every method are lawful: what is written
conforms, and what is read back is what it was. A command without parameters may have `null` in
place of the empty array.

The other way round, a request that is understood has parameters that conform and are read one by
one. `ReadAs` says this of an array, item by item, so that a proof about a method of two parameters
gets the two items and the two values.
-/

namespace LocalNode

open Schema Wire

/-! ### Arrays of parameters -/

namespace Wire.Members

variable {α β : Type}

theorem Lawful.eachRoundTrips {ms : Members Wire α} {settle : α → α} (h : ms.Lawful settle) :
    ms.EachRoundTrips settle := by
  induction h with
  | nil => exact .nil
  | cons readable roundTrips fits others ih => exact .cons roundTrips ih

theorem encodeAll_eq_nil {ms : Members Wire α} (h : ms.length = 0) (as : α) :
    ms.encodeAll as = [] := by
  cases ms with
  | nil => rfl
  | cons dict member rest => cases h

theorem encodeAll_ne_nil {ms : Members Wire α} (h : ms.length ≠ 0) (as : α) :
    ms.encodeAll as ≠ [] := by
  cases ms with
  | nil => exact (h rfl).elim
  | cons dict member rest => exact List.cons_ne_nil _ _

/-- The items of an array conform to members and are read as their values, one by one. -/
def ReadAs {α : Type} : Members Wire α → List Json → α → Prop
  | .nil, items, () => items = []
  | .cons dict _ rest, items, (a, as) =>
    ∃ v left, items = v :: left ∧ dict.schema.Conforms (some v) ∧ dict.decode v = .ok a ∧
      rest.ReadAs left as

theorem readAs_of_length_eq_zero {ms : Members Wire α} (h : ms.length = 0) (as : α) :
    ms.ReadAs [] as := by
  cases ms with
  | nil => rfl
  | cons dict member rest => cases h

theorem readItems_cons_eq_ok {dict : Wire α} {member : Member α} {rest : Members Wire β}
    {short : Nat → Fault} {i : Nat} {v : Json} {items left : List Json} {p : α × β} :
    (cons dict member rest).readItems short i (v :: items) = .ok (p, left) ↔
      dict.decode v = .ok p.1 ∧ rest.readItems short (i + 1) items = .ok (p.2, left) := by
  rw [readItems, bind_eq_ok]
  constructor
  · rintro ⟨a, ha, h⟩
    obtain ⟨⟨as, left'⟩, has, h⟩ := bind_eq_ok.mp h
    cases h
    exact ⟨ha, has⟩
  · rintro ⟨ha, has⟩
    exact ⟨p.1, ha, bind_eq_ok.mpr ⟨(p.2, left), has, rfl⟩⟩

theorem readAs_of_readItems {short : Nat → Fault} : ∀ {α : Type} {ms : Members Wire α} {i : Nat}
    {items left : List Json} {as : α},
    items.length = (ms.schemas.map (·.2)).length →
    (∀ p ∈ (ms.schemas.map (·.2)).zip items, p.1.Conforms (some p.2)) →
    ms.readItems short i items = .ok (as, left) → ms.ReadAs items as := by
  intro α ms
  induction ms with
  | nil =>
      intro i items left as hlength _ _
      exact List.eq_nil_of_length_eq_zero hlength
  | cons dict member rest ih =>
      intro i items left as hlength hall hread
      cases items with
      | nil => cases hlength
      | cons v items =>
          rw [schemas, List.map_cons, List.zip_cons_cons, List.forall_mem_cons] at hall
          obtain ⟨ha, has⟩ := readItems_cons_eq_ok.mp hread
          exact ⟨v, items, rfl, hall.1, ha, ih (Nat.succ.inj hlength) hall.2 has⟩

theorem readAs_of_readArray {ms : Members Wire α} {short : Nat → Fault} {items : List Json}
    {as : α} (hconforms : ms.tuple.schema.Conforms (some (.arr items)))
    (h : ms.readArray short items = .ok as) : ms.ReadAs items as := by
  obtain ⟨values, heq, hlength, hall⟩ := conforms_tuple.mp hconforms
  cases heq
  rw [readArray, bind_eq_ok] at h
  obtain ⟨⟨as', left⟩, hread, h⟩ := h
  dsimp only at h
  split at h
  · cases h
    exact readAs_of_readItems hlength hall hread
  · cases h

end Wire.Members

/-- The items of an array, and none of any other value. -/
def Json.items : Json → List Json
  | .arr items => items
  | _ => []

namespace Rpc

namespace Method

theorem paramsSchema_eq_noParams {m : Method} (h : m.signature.params.length = 0) :
    m.paramsSchema = .noParams :=
  if_pos h

theorem paramsSchema_eq_tuple {m : Method} (h : m.signature.params.length ≠ 0) :
    m.paramsSchema = m.signature.params.tuple.schema :=
  if_neg h

theorem decodeArgs_arr {m : Method} {items : List Json} (h : items ≠ []) :
    m.decodeArgs (.arr items) =
      if m.signature.params.length = 0 then .error (.wrongType (.arr items) .unit)
      else m.signature.params.readTuple (.arr items) := by
  cases items with
  | nil => exact (h rfl).elim
  | cons v items => rfl

/-- Parameters that conform are read item by item. -/
theorem readAs_of_decodeArgs {m : Method} {params : Json} {args : m.Args}
    (hconforms : m.paramsSchema.Conforms (some params)) (h : m.decodeArgs params = .ok args) :
    m.signature.params.ReadAs params.items args := by
  by_cases hlength : m.signature.params.length = 0
  · rw [paramsSchema_eq_noParams hlength] at hconforms
    rcases conforms_noParams.mp hconforms with hnone | hnull | hempty
    · cases hnone
    · cases hnull
      exact Members.readAs_of_length_eq_zero hlength args
    · cases hempty
      exact Members.readAs_of_length_eq_zero hlength args
  · rw [paramsSchema_eq_tuple hlength] at hconforms
    obtain ⟨items, heq, hitems, -⟩ := conforms_tuple.mp hconforms
    cases heq
    rw [List.length_map, Members.length_schemas] at hitems
    have hne : items ≠ [] := by
      rintro rfl
      exact hlength hitems.symm
    rw [decodeArgs_arr hne, if_neg hlength] at h
    exact Members.readAs_of_readArray hconforms h

/-! ### What is written for the parameters of a method -/

variable (m : Method) (args : m.Args)

theorem conforms_encodeAll :
    m.paramsSchema.Conforms (some (.arr (m.signature.params.encodeAll args))) := by
  by_cases hlength : m.signature.params.length = 0
  · rw [paramsSchema_eq_noParams hlength, Members.encodeAll_eq_nil hlength]
    rfl
  · rw [paramsSchema_eq_tuple hlength]
    exact m.params_lawful.eachRoundTrips.tuple.conforms args

theorem decodeArgs_nil {m : Method} (h : m.signature.params.length = 0) (args : m.Args) :
    m.decodeArgs .null = .ok args ∧ m.decodeArgs (.arr []) = .ok args := by
  have hread : m.signature.params.readArray (fun n => .wrongLength n .unit) [] = .ok args := by
    have hround : m.signature.params.readItems (fun n => .wrongLength n .unit) 0
        (m.signature.params.encodeAll args) = .ok (args, []) :=
      m.params_lawful.eachRoundTrips.readItems_encodeAll args 0
    rw [Members.encodeAll_eq_nil h] at hround
    exact Members.readArray_eq_ok hround
  unfold decodeArgs
  simp only [if_pos h]
  exact ⟨hread, hread⟩

theorem decodeArgs_encodeAll :
    m.decodeArgs (.arr (m.signature.params.encodeAll args)) = .ok args := by
  by_cases hlength : m.signature.params.length = 0
  · rw [Members.encodeAll_eq_nil hlength]
    exact (decodeArgs_nil hlength args).2
  · rw [decodeArgs_arr (Members.encodeAll_ne_nil hlength args), if_neg hlength]
    exact m.params_lawful.eachRoundTrips.tuple.decode_encode args

end Method

/-! ### Requests for commands -/

namespace Command

theorem ofArgs_args (c : Command) : ofArgs c.method c.args = c := by
  cases c <;> rfl

/-- A request that is understood has parameters that conform and are read as those of the
command. -/
theorem ofRequest_ok {m : Method} {params : Json} {c : Command}
    (h : ofRequest m.name params = .ok c) :
    ∃ args, m.paramsSchema.Conforms (some params) ∧ m.decodeArgs params = .ok args ∧
      c = ofArgs m args := by
  rw [ofRequest, m.ofName?_name] at h
  dsimp only at h
  split at h
  · cases h
  · rename_i hvalidate
    split at h
    · cases h
    · rename_i args hargs
      cases h
      exact ⟨args, Method.validateParams_eq_ok.mp hvalidate, hargs, rfl⟩

/-- A request is understood as a command of the method that it names. -/
theorem method_of_ofRequest {name : String} {params : Json} {c : Command}
    (h : ofRequest name params = .ok c) : c.method.name = name := by
  by_cases hknown : ∃ m : Method, m.name = name
  · obtain ⟨m, rfl⟩ := hknown
    obtain ⟨args, -, -, rfl⟩ := ofRequest_ok h
    rw [method_ofArgs]
  · rw [ofRequest_unknown fun m hm => hknown ⟨m, hm⟩] at h
    cases h

theorem ofRequest_params (c : Command) : ofRequest c.method.name c.params = .ok c := by
  rw [params, ofRequest_eq_ok (c.method.conforms_encodeAll c.args)
    (c.method.decodeArgs_encodeAll c.args), ofArgs_args]

theorem ofRequest_null {c : Command} (h : c.method.signature.params.length = 0) :
    ofRequest c.method.name .null = .ok c := by
  have hconforms : c.method.paramsSchema.Conforms (some .null) := by
    rw [Method.paramsSchema_eq_noParams h]
    rfl
  rw [ofRequest_eq_ok hconforms (Method.decodeArgs_nil h c.args).1, ofArgs_args]

/-- What may stand in a request as the parameters of a command: the array of their values, or
`null` if there are none. -/
inductive WrittenAs : Command → Json → Prop
  | array (c : Command) : WrittenAs c c.params
  | null {c : Command} (h : c.method.signature.params.length = 0) : WrittenAs c .null

/-- **Reading a command undoes writing it.** Whatever the values of its parameters, a request with
the parameters of a command as they are written is understood as that command. -/
theorem ofRequest_writtenAs {c : Command} {params : Json} (h : c.WrittenAs params) :
    ofRequest c.method.name params = .ok c := by
  cases h with
  | array => exact ofRequest_params c
  | null hnone => exact ofRequest_null hnone

/-- The first topic is free, the second may be anything, and the third is one of two. -/
theorem ofRequest_writtenAs_topics :
    ofRequest "eth_getLogs" (.arr [.obj [("fromBlock", .str "0x0"),
        ("topics", .arr [.null, .arr [], .arr [encode (.zero : Hash), encode (.zero : Hash)]])]]) =
      .ok (.getLogs
        { fromBlock := some (.number 0)
          topics := some [none, some (.anyOf []), some (.anyOf [.zero, .zero])] }) ∧
    ofRequest "evm_mine" .null = .ok .mine := by
  constructor
  · exact ofRequest_writtenAs (.array (.getLogs
      { fromBlock := some (.number 0)
        topics := some [none, some (.anyOf []), some (.anyOf [.zero, .zero])] }))
  · exact ofRequest_writtenAs (c := .mine) (.null rfl)

end Command

end Rpc

end LocalNode
