import Mathlib.Data.List.Forall2
import LocalNode.Proofs.Provider.Reading
import LocalNode.Proofs.Rpc.Handler
import LocalNode.Provider.Perform

/-!
The provider and the handler of requests, side by side.

A call to the provider is refused while it is read, or it becomes a command. A refused call gets an
error about one of its fields, and nothing else happens. A call that becomes a command does what a
request for that command does. So a run of calls is a run of requests, one for each call that is not
refused: the chain goes through the same states and gives the same answers.

The induction is on the calls, for any state of the chain. A refused call leaves the requests as
they are, any other takes the first of them.
-/

namespace LocalNode

variable {σ τ : Type}

/-! ### Requests for commands -/

namespace Rpc

/-- A request asks for a command: it has the right version, the method of the command, and its
parameters as they are written. -/
structure Request.Asks (r : Request) (c : Command) : Prop where
  version : r.version = "2.0"
  method : r.method = c.method.name
  params : c.WrittenAs r.params

/-- The responses to requests that are handled one after another, each with the state of the chain
after it. -/
def handleAll (chain : Executor σ) (config : HandlerConfig) : List Request → σ →
    List (Response × σ)
  | [], _ => []
  | r :: rest, s =>
    handle chain config r s :: handleAll chain config rest (handle chain config r s).2

theorem Request.Asks.ofRequest {r : Request} {c : Command} (h : r.Asks c) :
    Command.ofRequest r.method r.params = .ok c := by
  obtain ⟨version, id, method, params⟩ := r
  obtain ⟨-, rfl, hparams⟩ := h
  cases hparams with
  | array => exact c.ofRequest_params
  | null hnone => exact Command.ofRequest_null hnone

theorem Request.Asks.handle {r : Request} {c : Command} (h : r.Asks c) (chain : Executor σ)
    (config : HandlerConfig) (s : σ) :
    handle chain config r s =
      (.ofOutcome r.id (c.outcome (chain.answer c s).1), (chain.answer c s).2) :=
  handle_of_command chain config s h.version h.ofRequest

end Rpc

namespace Provider

open Rpc (Command Executor HandlerConfig Request Response handleAll)

/-! ### Calls -/

/-- A call to the provider. -/
structure Call where
  method : String
  params : Json

namespace Call

/-- Where a call is answered. -/
def route (call : Call) (config : Config) : Except Error Route :=
  Provider.route call.method call.params config.defaultBlock

/-- The command that a call is carried out as, if it is. -/
def command? (call : Call) (config : Config) : Option Command :=
  match call.route config with
  | .ok (.command _ c) => some c
  | _ => none

/-- The answer to a call, with the states of the chain and of the fallback after it. -/
def perform (call : Call) (chain : Executor σ) (fallback : Fallback τ) (config : Config) (s : σ)
    (t : τ) : Except Error Json × σ × τ :=
  Provider.perform chain fallback config call.method call.params s t

end Call

/-- The answers to calls that are made one after another, each with the states of the chain and of
the fallback after it. -/
def performAll (chain : Executor σ) (fallback : Fallback τ) (config : Config) : List Call → σ → τ →
    List (Except Error Json × σ × τ)
  | [], _, _ => []
  | call :: rest, s, t =>
    let answered := call.perform chain fallback config s t
    answered :: performAll chain fallback config rest answered.2.1 answered.2.2

/-- What the node has for an answer of the provider: the same result, or the object of its error. An
error that is not of the node has no counterpart there. -/
def nodeOutcome? : Except Error Json → Option (Except Rpc.ErrorObject Json)
  | .ok v => some (.ok v)
  | .error (.rpc e) => some (.error (.ofError e))
  | .error _ => none

theorem nodeOutcome?_of_isField {e : Error} (h : e.IsField) : nodeOutcome? (.error e) = none := by
  cases h <;> rfl

theorem nodeOutcome?_runCommand (chain : Executor σ) (c : Command) (s : σ)
    (id : Rpc.RequestId) :
    nodeOutcome? (runCommand chain c s).1 =
        some (Response.ofOutcome id (c.outcome (chain.answer c s).1)).outcome ∧
      (runCommand chain c s).2 = (chain.answer c s).2 := by
  unfold runCommand
  rw [c.run_eq]
  cases c.outcome (chain.answer c s).1 with
  | ok v => exact ⟨rfl, rfl⟩
  | error e => exact ⟨rfl, rfl⟩

/-! ### One call -/

namespace Call

variable {call : Call} {config : Config} (chain : Executor σ) (fallback : Fallback τ)

/-- A call to a method of the provider is refused or becomes a command. -/
theorem route_cases (h : ∃ m : Method, m.name = call.method) :
    (∃ e, call.route config = .error e ∧ e.IsField) ∨
      ∃ m c, call.route config = .ok (.command m c) := by
  obtain ⟨m, hm⟩ := h
  unfold route
  rw [← hm]
  cases hroute : Provider.route m.name call.params config.defaultBlock with
  | error e => exact .inl ⟨e, rfl, route_failsOnFields m _ _ e hroute⟩
  | ok place =>
      rw [route_name, bind_eq_ok] at hroute
      obtain ⟨bag, -, hroute⟩ := hroute
      obtain ⟨c, -, hroute⟩ := bind_eq_ok.mp hroute
      cases hroute
      exact .inr ⟨m, c, rfl⟩

theorem perform_of_refused {e : Error} (h : call.route config = .error e) (s : σ) (t : τ) :
    call.perform chain fallback config s t = (.error e, s, t) := by
  unfold perform Provider.perform
  rw [show Provider.route call.method call.params config.defaultBlock = _ from h]

theorem perform_of_command {m : Method} {c : Command}
    (h : call.route config = .ok (.command m c)) (s : σ) (t : τ) :
    call.perform chain fallback config s t =
      ((runCommand chain c s).1, (runCommand chain c s).2, t) := by
  unfold perform Provider.perform
  rw [show Provider.route call.method call.params config.defaultBlock = _ from h]

/-- A call that the provider has no command for is the fallback's, and the chain is not asked. -/
theorem perform_of_forward {method : String} {params : Json}
    (h : call.route config = .ok (.forward method params)) (s : σ) (t : τ) :
    call.perform chain fallback config s t =
      ((fallback method params t).1, s, (fallback method params t).2) := by
  unfold perform Provider.perform
  rw [show Provider.route call.method call.params config.defaultBlock = _ from h]

end Call

/-! ### Runs -/

theorem handleAll_eq_performAll (chain : Executor σ) (fallback : Fallback τ) (config : Config)
    (handlerConfig : HandlerConfig) {calls : List Call}
    (hknown : ∀ call ∈ calls, ∃ m : Method, m.name = call.method) :
    ∀ {requests : List Request} (s : σ) (t : τ),
    List.Forall₂ Request.Asks requests (calls.filterMap (·.command? config)) →
      (handleAll chain handlerConfig requests s).map (fun p => (p.1.outcome, p.2)) =
        (performAll chain fallback config calls s t).filterMap
          (fun p => (nodeOutcome? p.1).map (·, p.2.1)) := by
  induction calls with
  | nil =>
      intro requests s t hrequests
      cases hrequests
      rfl
  | cons call calls ih =>
      intro requests s t hrequests
      rw [List.forall_mem_cons] at hknown
      rw [performAll]
      rcases Call.route_cases hknown.1 with ⟨e, hroute, hfield⟩ | ⟨m, c, hroute⟩
      · -- The call is refused, and there is no request for it.
        have hcommand : call.command? config = none := by rw [Call.command?, hroute]
        simp only [List.filterMap_cons, hcommand] at hrequests
        rw [call.perform_of_refused chain fallback hroute]
        simp only [List.filterMap_cons, nodeOutcome?_of_isField hfield, Option.map_none]
        exact ih hknown.2 s t hrequests
      · have hcommand : call.command? config = some c := by rw [Call.command?, hroute]
        simp only [List.filterMap_cons, hcommand] at hrequests
        obtain ⟨r, rest, hasks, hrest, rfl⟩ := List.forall₂_cons_right_iff.mp hrequests
        obtain ⟨hanswer, hafter⟩ := nodeOutcome?_runCommand chain c s r.id
        rw [call.perform_of_command chain fallback hroute, handleAll, hasks.handle, List.map_cons]
        simp only [List.filterMap_cons, hanswer, hafter, Option.map_some]
        exact congrArg _ (ih hknown.2 _ t hrest)

/-- **Calls and requests are two ways to the same chain.** Take any calls to methods of the
provider, and for each that is not refused a request for its command. The chain goes through the
same states either way. Each result of the provider is the result of the handler, and each error of
the node is the object of that error. A call that is refused gets an error about one of its fields
and leaves the chain as it was. -/
theorem performAll_agrees (chain : Executor σ) (fallback : Fallback τ) (config : Config)
    (handlerConfig : HandlerConfig) {calls : List Call} {requests : List Request} (s : σ) (t : τ)
    (hknown : ∀ call ∈ calls, ∃ m : Method, m.name = call.method)
    (hrequests : List.Forall₂ Request.Asks requests (calls.filterMap (·.command? config))) :
    (handleAll chain handlerConfig requests s).map (fun p => (p.1.outcome, p.2)) =
      (performAll chain fallback config calls s t).filterMap
        (fun p => (nodeOutcome? p.1).map (·, p.2.1)) ∧
    ∀ call ∈ calls, ∀ e, call.route config = .error e →
      e.IsField ∧ ∀ s t, call.perform chain fallback config s t = (.error e, s, t) := by
  refine ⟨handleAll_eq_performAll chain fallback config handlerConfig hknown s t hrequests, ?_⟩
  intro call hcall e hroute
  refine ⟨?_, call.perform_of_refused chain fallback hroute⟩
  rcases Call.route_cases (hknown call hcall) with ⟨e', hroute', hfield⟩ | ⟨m, c, hroute'⟩
  · rw [hroute] at hroute'
    cases hroute'
    exact hfield
  · rw [hroute] at hroute'
    cases hroute'

/-- A block is added, a balance is asked for with an address that is too short, and the height is
asked for. The handler gets two requests for these three calls, and the second call is refused. -/
theorem performAll_agrees_mine :
    let calls : List Call :=
      [⟨"mineBlock", .null⟩, ⟨"getBalance", .obj [("address", .str "0x12")]⟩,
        ⟨"getBlockNumber", .null⟩]
    let requests : List Request :=
      [.new (.number 1) "evm_mine" .null, .new (.text "height") "eth_blockNumber" (.arr [])]
    (handleAll Chain.executor {} requests (.new 1337)).map (fun p => (p.1.outcome, p.2)) =
        (performAll Chain.executor unsupported {} calls (.new 1337) ()).filterMap
          (fun p => (nodeOutcome? p.1).map (·, p.2.1)) ∧
      (Error.invalidField "address" (.codec (.wrongLength 20 1))).IsField := by
  intro calls requests
  have hknown : ∀ call ∈ calls, ∃ m : Method, m.name = call.method := by
    simp only [calls, List.forall_mem_cons, List.not_mem_nil, false_imp_iff, implies_true, and_true]
    exact ⟨⟨.mineBlock, rfl⟩, ⟨.getBalance, rfl⟩, ⟨.getBlockNumber, rfl⟩⟩
  have hrequests : List.Forall₂ Request.Asks requests [.mine, .blockNumber] :=
    .cons ⟨rfl, rfl, .null rfl⟩ (.cons ⟨rfl, rfl, .array .blockNumber⟩ .nil)
  obtain ⟨hruns, hrefused⟩ :=
    performAll_agrees Chain.executor unsupported {} {} (.new 1337) () hknown hrequests
  exact ⟨hruns, (hrefused _ (.tail _ (.head _)) _ rfl).1⟩

end Provider

end LocalNode
