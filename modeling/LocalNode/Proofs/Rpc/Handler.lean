import LocalNode.Chain.Executor
import LocalNode.Proofs.Rpc.Commands
import LocalNode.Rpc.Handler

/-!
How requests are answered.

A request is judged before the chain is asked for anything: by its version, by its method and by its
parameters. Whichever of these is found wrong, the chain is not given any command. Otherwise it is
given exactly one, the one that the request asks for. To say so of a chain that may do anything, the
chain is watched: `recording` keeps the list of the commands that the chain was given.

What the chain answers is compared with the schema of the method, after the chain may have changed.
This is harmless only because the comparison never fails. The answers of every method are written in
a form that conforms, so it makes no difference whether they are compared.
-/

namespace LocalNode.Rpc

open Schema Wire

variable {σ : Type}

/-! ### Answers -/

/-- What any chain answers to a method is written in a form that the method allows. -/
theorem Method.conforms_encodeAnswer (m : Method) (answer : m.Answer) :
    m.answerSchema.Conforms (some (m.encodeAnswer answer)) := by
  cases m with
  | clientVersion | netVersion => exact lawful_string.roundTrips.conforms answer
  | chainId | gasPrice | blockNumber | getBalance | getTransactionCount | estimateGas | mine =>
      exact lawful_word.roundTrips.conforms answer
  | getCode | getStorageAt | call => exact lawful_data.roundTrips.conforms answer
  | sendRawTransaction => exact lawful_hash.roundTrips.conforms answer
  | getBlockByNumber | getBlockByHash => exact Block.lawful.roundTrips.conforms answer
  | getTransactionByHash => exact Transaction.lawful.roundTrips.conforms answer
  | getTransactionReceipt => exact Receipt.lawful.roundTrips.conforms answer
  | getLogs =>
      exact (lawful_list Log.lawful.readable Log.lawful.roundTrips).roundTrips.conforms answer

theorem Method.validateAnswer_encodeAnswer (m : Method) (answer : m.Answer) :
    m.validateAnswer (m.encodeAnswer answer) = .ok () := by
  have hconforms : m.answerSchema.check (some (m.encodeAnswer answer)) = .ok () :=
    m.conforms_encodeAnswer answer
  rw [validateAnswer, validate, hconforms]

namespace Command

/-- What becomes of the answer of a chain: it is written, or it is an error of the chain. -/
def outcome (c : Command) : Except ChainError c.Answer → Except Error Json
  | .ok answer => .ok (c.method.encodeAnswer answer)
  | .error e => .error (.chain e)

theorem writeAnswer_eq (c : Command) (check : Bool) (answer : c.Answer) :
    c.writeAnswer check answer = .ok (c.method.encodeAnswer answer) := by
  unfold writeAnswer
  cases check with
  | false => rfl
  | true => simp only [Method.validateAnswer_encodeAnswer, if_true]

/-- Carrying out a command asks the chain once, and never complains about the answer. -/
theorem run_eq (c : Command) (chain : Executor σ) (check : Bool) (s : σ) :
    c.run chain check s = (c.outcome (chain.answer c s).1, (chain.answer c s).2) := by
  unfold run
  rcases chain.answer c s with ⟨answer | e, after⟩
  · rfl
  · exact congrArg (·, after) (c.writeAnswer_eq check _)

end Command

/-! ### What becomes of a request

The tests of a request come one after another, and the first that fails decides on the response.
`Handled` lists the ways through them, so that nothing below looks into the handler again.
-/

theorem Method.name_injective {m m' : Method} (h : m.name = m'.name) : m = m' := by
  have heq := m.ofName?_name
  rw [h, m'.ofName?_name] at heq
  exact (Option.some.inj heq).symm

section Handle

variable (chain : Executor σ) (config : HandlerConfig) (r : Request) (s : σ)

/-- The response to a request and the state after it, in each way that a request can go. -/
inductive Handled (chain : Executor σ) (r : Request) (s : σ) : Response × σ → Prop
  | wrongVersion (h : r.version ≠ version) :
      Handled chain r s (⟨r.id, .error (.invalidRequest "invalid JSON-RPC version")⟩, s)
  | unknownMethod (hversion : r.version = version) (h : ∀ m : Method, m.name ≠ r.method) :
      Handled chain r s (.ofOutcome r.id (.error (.unknownMethod r.method)), s)
  | refused (hversion : r.version = version) {m : Method} (hm : m.name = r.method)
      (h : m.paramsSchema.accepts r.params = false) {v : Validation}
      (hv : m.validateParams r.params = .error v) :
      Handled chain r s (.ofOutcome r.id (.error (.validation v)), s)
  | carriedOut (hversion : r.version = version) {m : Method} (hm : m.name = r.method)
      (h : m.paramsSchema.accepts r.params = true) {args : m.Args}
      (hargs : m.decodeArgs r.params = .ok args) {c : Command} (hc : c = .ofArgs m args) :
      Handled chain r s
        (.ofOutcome r.id (c.outcome (chain.answer c s).1), (chain.answer c s).2)

variable {r}

theorem handle_of_error (hversion : r.version = version) {e : Error}
    (h : Command.ofRequest r.method r.params = .error e) :
    handle chain config r s = (.ofOutcome r.id (.error e), s) := by
  rw [handle, if_neg (not_not_intro hversion), h]

/-- A request that is understood is answered by what the chain answers to its command. -/
theorem handle_of_command (hversion : r.version = version) {c : Command}
    (h : Command.ofRequest r.method r.params = .ok c) :
    handle chain config r s =
      (.ofOutcome r.id (c.outcome (chain.answer c s).1), (chain.answer c s).2) := by
  rw [handle, if_neg (not_not_intro hversion), h]
  simp only [c.run_eq]

theorem handled : Handled chain r s (handle chain config r s) := by
  by_cases hversion : r.version = version
  · by_cases hknown : ∃ m : Method, m.name = r.method
    · obtain ⟨m, hm⟩ := hknown
      cases haccepts : m.paramsSchema.accepts r.params with
      | false =>
          obtain ⟨v, hv, he⟩ := Command.ofRequest_refused haccepts
          rw [hm] at he
          rw [handle_of_error chain config s hversion he]
          exact .refused hversion hm haccepts hv
      | true =>
          have hconforms := accepts_iff.mp haccepts
          obtain ⟨args, hargs⟩ := Method.decodeArgs_of_conforms hconforms
          have hc := Command.ofRequest_eq_ok hconforms hargs
          rw [hm] at hc
          rw [handle_of_command chain config s hversion hc]
          exact .carriedOut hversion hm haccepts hargs rfl
    · have hunknown : ∀ m : Method, m.name ≠ r.method := fun m hm => hknown ⟨m, hm⟩
      rw [handle_of_error chain config s hversion (Command.ofRequest_unknown hunknown r.params)]
      exact .unknownMethod hversion hunknown
  · rw [handle, if_pos hversion]
    exact .wrongVersion hversion

end Handle

/-! ### Responses

A response shows a code and not the reason behind it. The codes for requests that never reach the
chain are not among the codes of the chain, so the code alone says which test has failed.
-/

/-- The code under which callers see an error of the chain. -/
def ChainError.code : ChainError → Int
  | .notFound _ => -32001
  | .rejected _ => -32003
  | .execution _ => 3
  | .internal _ => -32603

namespace Response

/-- The code of the error that a response reports, if it reports one. -/
def errorCode? (response : Response) : Option Int :=
  match response.outcome with
  | .ok _ => none
  | .error e => some e.code

/-- The JSON form of a response has the version, the given identifier, and either a result or an
error but not both. -/
def Answers (response : Response) (id : RequestId) : Prop :=
  ∃ members, response.toJson = .obj members ∧
    Json.member? members "jsonrpc" = some (.str "2.0") ∧
    Json.member? members "id" = some (encode id) ∧
    (Json.member? members "result").isSome ≠ (Json.member? members "error").isSome

theorem answers_id (response : Response) : response.Answers response.id := by
  obtain ⟨id, outcome⟩ := response
  cases outcome with
  | ok v => exact ⟨_, rfl, rfl, rfl, show true ≠ false by decide⟩
  | error e => exact ⟨_, rfl, rfl, rfl, show false ≠ true by decide⟩

variable {id : RequestId}

theorem errorCode?_outcome_error (c : Command) (e : ChainError) :
    (ofOutcome id (c.outcome (.error e))).errorCode? = some e.code := by
  cases e <;> rfl

/-- The chain does not report an error under any of the codes for requests that never reach it. -/
theorem errorCode?_outcome_mem {c : Command} {answer : Except ChainError c.Answer} {code : Int}
    (h : (ofOutcome id (c.outcome answer)).errorCode? = some code) :
    code ∈ [-32001, -32003, 3, -32603] := by
  cases answer with
  | ok a => cases h
  | error e =>
      rw [errorCode?_outcome_error] at h
      cases h
      cases e <;> simp [ChainError.code]

end Response

namespace Handled

variable {chain : Executor σ} {r : Request} {s : σ} {result : Response × σ}

theorem answers (h : Handled chain r s result) : result.1.Answers r.id := by
  have hid : result.1.id = r.id := by
    cases h with
    | wrongVersion | unknownMethod | refused => rfl
    | @carriedOut _ _ _ _ _ _ c =>
        generalize c.outcome (chain.answer c s).1 = outcome
        cases outcome <;> rfl
  rw [← hid]
  exact result.1.answers_id

theorem errorCode?_invalidRequest (h : Handled chain r s result) :
    result.1.errorCode? = some (-32600) ↔ r.version ≠ version := by
  cases h with
  | wrongVersion h => exact ⟨fun _ => h, fun _ => rfl⟩
  | unknownMethod hversion => exact ⟨nofun, fun hne => (hne hversion).elim⟩
  | refused hversion => exact ⟨nofun, fun hne => (hne hversion).elim⟩
  | carriedOut hversion =>
      refine ⟨fun hcode => ?_, fun hne => (hne hversion).elim⟩
      exact absurd (Response.errorCode?_outcome_mem hcode) (by decide)

theorem errorCode?_methodNotFound (h : Handled chain r s result) (hversion : r.version = version) :
    result.1.errorCode? = some (-32601) ↔ ∀ m : Method, m.name ≠ r.method := by
  cases h with
  | wrongVersion hne => exact (hne hversion).elim
  | unknownMethod _ hunknown => exact ⟨fun _ => hunknown, fun _ => rfl⟩
  | refused _ hm => exact ⟨nofun, fun hunknown => (hunknown _ hm).elim⟩
  | carriedOut _ hm =>
      refine ⟨fun hcode => ?_, fun hunknown => (hunknown _ hm).elim⟩
      exact absurd (Response.errorCode?_outcome_mem hcode) (by decide)

theorem errorCode?_invalidParams (h : Handled chain r s result) (hversion : r.version = version)
    {m : Method} (hm : m.name = r.method) :
    result.1.errorCode? = some (-32602) ↔ m.paramsSchema.accepts r.params = false := by
  cases h with
  | wrongVersion hne => exact (hne hversion).elim
  | unknownMethod _ hunknown => exact (hunknown m hm).elim
  | refused _ hm' haccepts =>
      cases Method.name_injective (hm.trans hm'.symm)
      exact ⟨fun _ => haccepts, fun _ => rfl⟩
  | carriedOut _ hm' haccepts =>
      cases Method.name_injective (hm.trans hm'.symm)
      rw [haccepts]
      refine ⟨fun hcode => ?_, nofun⟩
      exact absurd (Response.errorCode?_outcome_mem hcode) (by decide)

/-- A request that is not understood leaves the chain alone. -/
theorem unchanged (h : Handled chain r s result)
    (hunfit : r.version ≠ version ∨ (∀ m : Method, m.name ≠ r.method) ∨
      ∃ m : Method, m.name = r.method ∧ m.paramsSchema.accepts r.params = false) :
    result.2 = s := by
  cases h with
  | wrongVersion | unknownMethod | refused => rfl
  | carriedOut hversion hm haccepts =>
      rcases hunfit with hne | hunknown | ⟨m, hm', hrefused⟩
      · exact (hne hversion).elim
      · exact (hunknown _ hm).elim
      · cases Method.name_injective (hm.trans hm'.symm)
        rw [haccepts] at hrefused
        cases hrefused

end Handled

/-! ### Watching the chain

That the state is unchanged does not say that the chain was not asked, since a query changes nothing
either. So the commands themselves are written down beside the state.
-/

/-- A chain together with the list of the commands it was given, the first one first. -/
def Executor.recording (chain : Executor σ) : Executor (σ × List Command) where
  answer c s := ((chain.answer c s.1).1, (chain.answer c s.1).2, s.2 ++ [c])

/-- The commands that a chain is given while a request is handled. -/
def commandsGiven (chain : Executor σ) (config : HandlerConfig) (r : Request) (s : σ) :
    List Command :=
  (handle chain.recording config r (s, [])).2.2

theorem commandsGiven_of_command (chain : Executor σ) (config : HandlerConfig) {r : Request} (s : σ)
    (hversion : r.version = version) {c : Command}
    (h : Command.ofRequest r.method r.params = .ok c) : commandsGiven chain config r s = [c] := by
  rw [commandsGiven, handle_of_command chain.recording config (s, []) hversion h]
  rfl

/-- **Every request is answered, and the answer tells what happened.** The codes of the response say
whether the version, the method or the parameters were found wrong, and then the chain was not given
any command. Otherwise it was given one, with the parameters as they were read, and the response is
its answer or its error. Comparing answers with their schema makes no difference. -/
theorem handle_classifies (chain : Executor σ) (config : HandlerConfig) (r : Request) (s : σ) :
    let response := (handle chain config r s).1
    let after := (handle chain config r s).2
    let given := commandsGiven chain config r s
    response.Answers r.id ∧
    (response.errorCode? = some (-32600) ↔ r.version ≠ "2.0") ∧
    (r.version = "2.0" →
      (response.errorCode? = some (-32601) ↔ ∀ m : Method, m.name ≠ r.method)) ∧
    (r.version = "2.0" → ∀ m : Method, m.name = r.method →
      (response.errorCode? = some (-32602) ↔ m.paramsSchema.accepts r.params = false)) ∧
    ((r.version ≠ "2.0" ∨ (∀ m : Method, m.name ≠ r.method) ∨
        ∃ m : Method, m.name = r.method ∧ m.paramsSchema.accepts r.params = false) →
      given = [] ∧ after = s) ∧
    (r.version = "2.0" → ∀ m : Method, m.name = r.method →
      m.paramsSchema.accepts r.params = true →
        ∃ args c, m.decodeArgs r.params = .ok args ∧ c = .ofArgs m args ∧ c.method = m ∧
          given = [c] ∧ after = (chain.answer c s).2 ∧
          (∀ answer, (chain.answer c s).1 = .ok answer →
            response.outcome = .ok (c.method.encodeAnswer answer)) ∧
          ∀ e, (chain.answer c s).1 = .error e →
            response.outcome = .error (.ofError (.chain e)) ∧ response.errorCode? = some e.code) ∧
    (∀ config', handle chain config' r s = handle chain config r s) ∧
    ∀ c : Command, c.run chain true s = c.run chain false s := by
  intro response after given
  have hresult : Handled chain r s (response, after) := handled chain config s
  refine ⟨hresult.answers, hresult.errorCode?_invalidRequest, ?_, ?_, ?_, ?_, ?_, ?_⟩
  · intro hversion
    exact hresult.errorCode?_methodNotFound hversion
  · intro hversion m hm
    exact hresult.errorCode?_invalidParams hversion hm
  · intro hunfit
    have hrecorded := (handled chain.recording config (s, [])).unchanged hunfit
    exact ⟨congrArg Prod.snd hrecorded, hresult.unchanged hunfit⟩
  · intro hversion m hm haccepts
    have hconforms := accepts_iff.mp haccepts
    obtain ⟨args, hargs⟩ := Method.decodeArgs_of_conforms hconforms
    have hc := Command.ofRequest_eq_ok hconforms hargs
    rw [hm] at hc
    have hhandle := handle_of_command chain config s hversion hc
    refine ⟨args, .ofArgs m args, hargs, rfl, Command.method_ofArgs m args,
      commandsGiven_of_command chain config s hversion hc, congrArg Prod.snd hhandle, ?_, ?_⟩
    · intro answer hanswer
      show (handle chain config r s).1.outcome = _
      rw [hhandle, hanswer]
      rfl
    · intro e he
      show (handle chain config r s).1.outcome = _ ∧ (handle chain config r s).1.errorCode? = _
      rw [hhandle, he]
      exact ⟨rfl, Response.errorCode?_outcome_error (.ofArgs m args) e⟩
  · intro config'
    simp only [handle, Command.run_eq]
  · intro c
    rw [c.run_eq, c.run_eq]

/-- A transaction without data reaches the chain once and is refused there. -/
theorem handle_classifies_rejected :
    let r : Request := .new (.number 1) "eth_sendRawTransaction" (.arr [.str "0x"])
    let chain : Chain := { chainId := 1, gasPrice := 0 }
    commandsGiven Chain.executor {} r chain = [.sendRawTransaction .empty] ∧
      (handle Chain.executor {} r chain).1.errorCode? = some (-32003) := by
  intro r chain
  obtain ⟨args, c, hargs, hc, -, hgiven, -, -, herror⟩ :=
    (handle_classifies Chain.executor {} r chain).2.2.2.2.2.1 rfl .sendRawTransaction rfl rfl
  obtain rfl : (.empty, ()) = args := Except.ok.inj hargs
  subst hc
  exact ⟨hgiven, (herror _ rfl).2⟩

end LocalNode.Rpc
