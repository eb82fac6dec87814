import LocalNode.Proofs.Wire.Types
import LocalNode.Rpc.Command

/-!
How requests are understood.

Parameters are checked before they are read, by two programs that know nothing of each other. The
parameters of every method have wire types, so reading never fails where checking found nothing, and
the error for that case is never seen.
-/

namespace LocalNode

open Schema Wire

theorem Wire.Members.length_schemas {α : Type} (ms : Members Wire α) :
    ms.schemas.length = ms.length := by
  induction ms with
  | nil => rfl
  | cons dict member rest ih => rw [Members.schemas, List.length_cons, ih, Members.length]

theorem Wire.Members.readArray_nil {α : Type} {ms : Members Wire α} (h : ms.length = 0)
    (short : Nat → Fault) : ∃ as, ms.readArray short [] = .ok as := by
  cases ms with
  | nil => exact ⟨(), rfl⟩
  | cons dict member rest => cases h

namespace Rpc

namespace Method

/-! ### The parameters of a method

The schema of a method is the tuple of its parameters, except that a method without parameters has a
schema of its own, which takes `null` as well as the empty array.
-/

theorem ofName?_name (m : Method) : ofName? m.name = some m := by
  cases m <;> simp [ofName?, all, name]

theorem ofName?_eq_none {name : String} (h : ∀ m : Method, m.name ≠ name) :
    ofName? name = none := by
  rw [ofName?, List.find?_eq_none]
  intro m _
  simpa using h m

/-- The parameters of every method obey the laws, and they are read back as they were. -/
theorem params_lawful (m : Method) : m.signature.params.Lawful id := by
  cases m with
  | clientVersion | netVersion | chainId | gasPrice | blockNumber | mine => exact .nil
  | getBalance | getTransactionCount | getCode =>
      exact .required_id lawful_address <| .required_id BlockSelector.lawful .nil
  | getStorageAt =>
      exact .required_id lawful_address <| .required_id lawful_word <|
        .required_id BlockSelector.lawful .nil
  | sendRawTransaction => exact .required_id lawful_data .nil
  | call => exact .required_id CallRequest.lawful <| .required_id BlockSelector.lawful .nil
  | estimateGas => exact .required_id CallRequest.lawful .nil
  | getBlockByNumber => exact .required_id BlockSelector.lawful <| .required_id lawful_bool .nil
  | getBlockByHash => exact .required_id lawful_hash <| .required_id lawful_bool .nil
  | getTransactionByHash | getTransactionReceipt => exact .required_id lawful_hash .nil
  | getLogs => exact .required_id LogFilter.lawful .nil

/-- Reading never fails where checking finds nothing. A method without parameters is the case of its
own: `null` and the empty array conform, and both are read as nothing. -/
theorem decodeArgs_of_conforms {m : Method} {params : Json}
    (h : m.paramsSchema.Conforms (some params)) : ∃ args, m.decodeArgs params = .ok args := by
  unfold paramsSchema at h
  unfold decodeArgs
  by_cases hlength : m.signature.params.length = 0
  · rw [if_pos hlength] at h
    simp only [if_pos hlength]
    rcases conforms_noParams.mp h with hnone | hnull | hempty
    · cases hnone
    · cases hnull
      exact Members.readArray_nil hlength _
    · cases hempty
      exact Members.readArray_nil hlength _
  · rw [if_neg hlength] at h
    simp only [if_neg hlength]
    split
    · -- The empty array is too short for parameters that there are.
      obtain ⟨values, heq, hvalues, -⟩ := conforms_tuple.mp h
      cases heq
      rw [List.length_map, Members.length_schemas] at hvalues
      exact (hlength hvalues.symm).elim
    · exact m.params_lawful.eachReadable.tuple params h

theorem validateParams_eq_ok {m : Method} {params : Json} :
    m.validateParams params = .ok () ↔ m.paramsSchema.Conforms (some params) := by
  unfold validateParams validate Conforms
  split <;> simp_all

end Method

/-! ### Requests -/

namespace Command

theorem method_ofArgs (m : Method) (args : m.Args) : (ofArgs m args).method = m := by
  cases m <;> rfl

theorem ofRequest_unknown {name : String} (h : ∀ m : Method, m.name ≠ name) (params : Json) :
    ofRequest name params = .error (.unknownMethod name) := by
  rw [ofRequest, Method.ofName?_eq_none h]

theorem ofRequest_refused {m : Method} {params : Json}
    (h : m.paramsSchema.accepts params = false) :
    ∃ v, m.validateParams params = .error v ∧
      ofRequest m.name params = .error (.validation v) := by
  cases hvalidate : m.validateParams params with
  | ok u =>
      have hconforms := accepts_iff.mpr (Method.validateParams_eq_ok.mp hvalidate)
      rw [h] at hconforms
      cases hconforms
  | error v =>
      refine ⟨v, rfl, ?_⟩
      rw [ofRequest, m.ofName?_name]
      simp only [hvalidate]

theorem ofRequest_eq_ok {m : Method} {params : Json} {args : m.Args}
    (hconforms : m.paramsSchema.Conforms (some params)) (h : m.decodeArgs params = .ok args) :
    ofRequest m.name params = .ok (ofArgs m args) := by
  rw [ofRequest, m.ofName?_name]
  simp only [Method.validateParams_eq_ok.mpr hconforms, h]

theorem ofRequest_understood {m : Method} {params : Json}
    (h : m.paramsSchema.accepts params = true) :
    ∃ c, ofRequest m.name params = .ok c ∧ c.method = m := by
  have hconforms := accepts_iff.mp h
  obtain ⟨args, hargs⟩ := Method.decodeArgs_of_conforms hconforms
  exact ⟨ofArgs m args, ofRequest_eq_ok hconforms hargs, method_ofArgs m args⟩

/-- **Checking and reading agree.** What the schema of a wire type accepts can be read. So a request
is either for a method that there is not, or is refused by the schema of its parameters, or is
understood as a command for its method; that its parameters cannot be read is never the answer. -/
theorem ofRequest_complete :
    (∀ {α : Type} (w : Wire α), IsWireType w → ∀ v, w.schema.accepts v = true →
      ∃ x, w.decode v = .ok x) ∧
    ∀ (name : String) (params : Json),
      ((∀ m : Method, m.name ≠ name) →
        ofRequest name params = .error (.unknownMethod name)) ∧
      (∀ m : Method, m.name = name → m.paramsSchema.accepts params = false →
        ∃ v, m.validateParams params = .error v ∧
          ofRequest name params = .error (.validation v)) ∧
      (∀ m : Method, m.name = name → m.paramsSchema.accepts params = true →
        ∃ c, ofRequest name params = .ok c ∧ c.method = m) ∧
      ∀ method message, ofRequest name params ≠ .error (.decoding method message) := by
  refine ⟨fun w hw v hv => hw.readable v (accepts_iff.mp hv), ?_⟩
  intro name params
  refine ⟨fun h => ofRequest_unknown h params, ?_, ?_, ?_⟩
  · rintro m rfl h
    exact ofRequest_refused h
  · rintro m rfl h
    exact ofRequest_understood h
  · intro method message hdecoding
    by_cases hknown : ∃ m : Method, m.name = name
    · obtain ⟨m, rfl⟩ := hknown
      cases haccepts : m.paramsSchema.accepts params with
      | false =>
          obtain ⟨v, -, hv⟩ := ofRequest_refused haccepts
          rw [hv] at hdecoding
          cases hdecoding
      | true =>
          obtain ⟨c, hc, -⟩ := ofRequest_understood haccepts
          rw [hc] at hdecoding
          cases hdecoding
    · rw [ofRequest_unknown (fun m hm => hknown ⟨m, hm⟩)] at hdecoding
      cases hdecoding

/-- The answers to requests for a block: a selector and a truth value can be read, a name that no
method has is unknown, a missing parameter is refused, and both parameters are understood. -/
theorem ofRequest_complete_getBlock :
    (∃ x, (Members.required BlockSelector "block" <| .required Bool "full" .nil).tuple.decode
      (.arr [.str "latest", .bool true]) = .ok x) ∧
    ofRequest "eth_getBlock" .null = .error (.unknownMethod "eth_getBlock") ∧
    (∃ v, ofRequest "eth_getBlockByNumber" (.arr [.str "latest"]) = .error (.validation v)) ∧
    ∃ c, ofRequest "eth_getBlockByNumber" (.arr [.str "latest", .bool true]) = .ok c ∧
      c.method = .getBlockByNumber := by
  refine ⟨?_, ?_, ?_, ?_⟩
  · exact ofRequest_complete.1 _
      (.tuple (.cons (.basic .blockSelector) (.last (.basic .bool)))) _ rfl
  · exact (ofRequest_complete.2 _ _).1 (fun m => by cases m <;> decide)
  · obtain ⟨v, -, hv⟩ := (ofRequest_complete.2 "eth_getBlockByNumber" (.arr [.str "latest"])).2.1
      .getBlockByNumber rfl rfl
    exact ⟨v, hv⟩
  · exact (ofRequest_complete.2 _ _).2.2.1 .getBlockByNumber rfl rfl

end Command

end Rpc

end LocalNode
