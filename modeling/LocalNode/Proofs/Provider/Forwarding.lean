import LocalNode.Proofs.Provider.Runs

/-!
Who answers a call.

A call to one of the methods of the provider is between the caller and the chain: it is refused, or
it becomes a command, and the fallback does not hear of it either way. Any other call is between the
caller and the fallback, and the chain does not hear of it. So a run of calls falls apart into two
runs that know nothing of each other.

To say what a fallback is asked that may do anything, it is watched: `Fallback.recording` keeps the
list of the calls that the fallback got.

The induction is on the calls, for any states of the chain and of the fallback. There are two cases
for a call, and in each of them one of the two states stays as it is.
-/

namespace LocalNode.Provider

open Rpc (Command Executor)

variable {σ τ : Type}

/-! ### Whose a call is -/

/-- The names of the methods that the provider answers itself. -/
def recognizedNames : List String :=
  ["getChainId", "getBlockNumber", "getGasPrice", "getBalance", "getTransactionCount", "getCode",
    "getStorageAt", "sendTransaction", "call", "estimateGas", "getBlock", "getTransaction",
    "getTransactionReceipt", "getLogs", "mineBlock"]

theorem mem_recognizedNames {name : String} :
    name ∈ recognizedNames ↔ ∃ m : Method, m.name = name := by
  constructor
  · intro hname
    have hmethods : ∀ name ∈ recognizedNames,
        ∃ m ∈ Method.plain ++ Method.reading, m.name = name := by decide
    obtain ⟨m, -, hm⟩ := hmethods name hname
    exact ⟨m, hm⟩
  · rintro ⟨m, rfl⟩
    cases m <;> decide

/-- An error that says that there is no such method, or that parameters which conform to their
schema cannot be read. -/
def Error.BlamesRequest : Error → Prop
  | .rpc (.unknownMethod _) | .rpc (.decoding _ _) => True
  | _ => False

/-- What the chain cannot do is never put down to the request. -/
theorem runCommand_not_blames {chain : Executor σ} {c : Command} {s : σ} {e : Error}
    (h : (runCommand chain c s).1 = .error e) : ¬ e.BlamesRequest := by
  unfold runCommand at h
  rw [c.run_eq] at h
  cases hanswer : (chain.answer c s).1 with
  | ok answer =>
      rw [hanswer] at h
      cases h
  | error failure =>
      rw [hanswer] at h
      cases h
      exact not_false

namespace Call

variable {call : Call}

/-- The provider answers the call itself. -/
def isRecognized (call : Call) : Bool :=
  recognizedNames.contains call.method

/-- The call is left to the fallback. -/
def isForwarded (call : Call) : Bool :=
  !call.isRecognized

theorem isRecognized_iff : call.isRecognized = true ↔ ∃ m : Method, m.name = call.method := by
  rw [isRecognized, List.contains_iff_mem, mem_recognizedNames]

/-! ### One call -/

/-- A recognized call is answered without the fallback, whatever that is, and the answer does not
blame the request. -/
theorem perform_of_recognized (chain : Executor σ) (config : Config) (s : σ)
    (h : call.isRecognized = true) :
    ∃ answer after, (∀ e, answer = .error e → ¬ e.BlamesRequest) ∧
      ∀ {τ : Type} (fallback : Fallback τ) (t : τ),
        call.perform chain fallback config s t = (answer, after, t) := by
  rcases route_cases (isRecognized_iff.mp h) with ⟨e, hroute, hfield⟩ | ⟨m, c, hroute⟩
  · refine ⟨.error e, s, ?_, fun fallback t => call.perform_of_refused chain fallback hroute s t⟩
    rintro _ ⟨⟩
    cases hfield <;> exact not_false
  · exact ⟨_, _, fun e => runCommand_not_blames,
      fun fallback t => call.perform_of_command chain fallback hroute s t⟩

/-- Any other call is answered by the fallback, as it stands. -/
theorem perform_of_forwarded (chain : Executor σ) (fallback : Fallback τ) (config : Config) (s : σ)
    (t : τ) (h : call.isRecognized = false) :
    call.perform chain fallback config s t =
      ((fallback call.method call.params t).1, s, (fallback call.method call.params t).2) := by
  have hunknown : ∀ m : Method, m.name ≠ call.method := by
    intro m hm
    rw [isRecognized_iff.mpr ⟨m, hm⟩] at h
    cases h
  exact call.perform_of_forward chain fallback (route_of_unknown hunknown _ _) s t

end Call

/-! ### Runs -/

namespace Fallback

/-- A fallback together with the list of the calls it got, the first one first. -/
def recording (fallback : Fallback τ) : Fallback (τ × List Call) :=
  fun method params t =>
    ((fallback method params t.1).1, (fallback method params t.1).2, t.2 ++ [⟨method, params⟩])

/-- Calls that a fallback gets one after another, each with its answer. -/
def transcript (fallback : Fallback τ) : List Call → τ → List (Call × Except Error Json)
  | [], _ => []
  | call :: rest, t =>
    (call, (fallback call.method call.params t).1) ::
      transcript fallback rest (fallback call.method call.params t).2

end Fallback

/-- Calls that are made one after another, each with its answer. -/
def transcript (chain : Executor σ) (fallback : Fallback τ) (config : Config) (calls : List Call)
    (s : σ) (t : τ) : List (Call × Except Error Json) :=
  calls.zip ((performAll chain fallback config calls s t).map (·.1))

/-- The states of the chain and of the fallback after some calls. -/
def afterAll (chain : Executor σ) (fallback : Fallback τ) (config : Config) : List Call → σ → τ →
    σ × τ
  | [], s, t => (s, t)
  | call :: rest, s, t =>
    let answered := call.perform chain fallback config s t
    afterAll chain fallback config rest answered.2.1 answered.2.2

section Cons

variable (chain : Executor σ) (fallback : Fallback τ) (config : Config) (call : Call)
  (calls : List Call) (s : σ) (t : τ)

theorem transcript_cons :
    transcript chain fallback config (call :: calls) s t =
      (call, (call.perform chain fallback config s t).1) ::
        transcript chain fallback config calls (call.perform chain fallback config s t).2.1
          (call.perform chain fallback config s t).2.2 :=
  rfl

theorem afterAll_cons :
    afterAll chain fallback config (call :: calls) s t =
      afterAll chain fallback config calls (call.perform chain fallback config s t).2.1
        (call.perform chain fallback config s t).2.2 :=
  rfl

end Cons

/-- What is known of a run of calls. -/
structure Divided (chain : Executor σ) (fallback : Fallback τ) (config : Config) (calls : List Call)
    (s : σ) (t : τ) : Prop where
  /-- Watching the fallback changes no answer. -/
  watched : ∀ log, transcript chain fallback.recording config calls s (t, log) =
    transcript chain fallback config calls s t
  /-- The fallback gets the calls that are not recognized, as they stand. -/
  received : ∀ log, (afterAll chain fallback.recording config calls s (t, log)).2.2 =
    log ++ calls.filter (·.isForwarded)
  /-- What the fallback answers is passed on. -/
  passedOn : (transcript chain fallback config calls s t).filter (·.1.isForwarded) =
    fallback.transcript (calls.filter (·.isForwarded)) t
  /-- The chain is where the recognized calls alone bring it, whatever the fallback. -/
  chainAfter : ∀ {τ' : Type} (other : Fallback τ') (t' : τ'),
    (afterAll chain fallback config calls s t).1 =
      (afterAll chain other config (calls.filter (·.isRecognized)) s t').1
  /-- An error that blames the request is an answer of the fallback. -/
  blames : ∀ call e, (call, .error e) ∈ transcript chain fallback config calls s t →
    e.BlamesRequest → (call, .error e) ∈ fallback.transcript (calls.filter (·.isForwarded)) t

namespace Divided

variable {chain : Executor σ} {fallback : Fallback τ} {config : Config} {call : Call}
  {calls : List Call} {s : σ} {t : τ}

/-- A recognized call comes before the others. The fallback stays where it is. -/
theorem recognized (hcall : call.isRecognized = true)
    (hrest : ∀ s t, Divided chain fallback config calls s t) :
    Divided chain fallback config (call :: calls) s t := by
  have hforwarded : call.isForwarded = false := by rw [Call.isForwarded, hcall]; rfl
  obtain ⟨answer, after, hplain, hperform⟩ := call.perform_of_recognized chain config s hcall
  have hrest := hrest after t
  constructor
  · intro log
    simp only [transcript_cons, hperform, hrest.watched]
  · intro log
    rw [List.filter_cons_of_neg (ne_true_of_eq_false hforwarded)]
    simp only [afterAll_cons, hperform, hrest.received]
  · simp [transcript_cons, hperform, hforwarded, hrest.passedOn]
  · intro τ' other t'
    rw [List.filter_cons_of_pos hcall]
    simp only [afterAll_cons, hperform]
    exact hrest.chainAfter other t'
  · intro call' e hmem hblames
    simp only [transcript_cons, hperform] at hmem
    rw [List.filter_cons_of_neg (ne_true_of_eq_false hforwarded)]
    rcases List.mem_cons.mp hmem with hhere | hthere
    · cases hhere
      exact absurd hblames (hplain e rfl)
    · exact hrest.blames call' e hthere hblames

/-- A call for the fallback comes before the others. The chain stays where it is. -/
theorem forwarded (hcall : call.isRecognized = false)
    (hrest : ∀ s t, Divided chain fallback config calls s t) :
    Divided chain fallback config (call :: calls) s t := by
  have hforwarded : call.isForwarded = true := by rw [Call.isForwarded, hcall]; rfl
  have hperform := call.perform_of_forwarded chain fallback config s t hcall
  have hwatched := fun log =>
    call.perform_of_forwarded chain fallback.recording config s (t, log) hcall
  have hrest := hrest s (fallback call.method call.params t).2
  constructor
  · intro log
    rw [transcript_cons, transcript_cons, hperform, hwatched log]
    exact congrArg _ (hrest.watched (log ++ [call]))
  · intro log
    rw [List.filter_cons_of_pos hforwarded, afterAll_cons, hwatched log, ← List.singleton_append,
      ← List.append_assoc]
    exact hrest.received (log ++ [call])
  · simp [transcript_cons, hperform, hforwarded, hrest.passedOn, Fallback.transcript]
  · intro τ' other t'
    rw [List.filter_cons_of_neg (ne_true_of_eq_false hcall), afterAll_cons, hperform]
    exact hrest.chainAfter other t'
  · intro call' e hmem hblames
    rw [transcript_cons, hperform] at hmem
    rw [List.filter_cons_of_pos hforwarded, Fallback.transcript]
    rcases List.mem_cons.mp hmem with hhere | hthere
    · exact List.mem_cons.mpr (.inl hhere)
    · exact List.mem_cons_of_mem _ (hrest.blames call' e hthere hblames)

end Divided

/-- **Calls fall apart into those of the chain and those of the fallback.** The fallback gets
exactly the calls to methods that the provider does not know, as they stand and in their order, and
its answers are passed on. The chain goes where the other calls alone bring it. Only the fallback
can answer that there is no such method, or that parameters cannot be read. -/
theorem performAll_divided (chain : Executor σ) (fallback : Fallback τ) (config : Config)
    (calls : List Call) (s : σ) (t : τ) : Divided chain fallback config calls s t := by
  induction calls generalizing s t with
  | nil => exact ⟨fun _ => rfl, fun log => (List.append_nil log).symm, rfl, fun _ _ => rfl, nofun⟩
  | cons call calls ih =>
      cases hcall : call.isRecognized with
      | true => exact .recognized hcall ih
      | false => exact .forwarded hcall ih

/-- The names that the node has for its methods are not among those of the provider. -/
example : Call.isForwarded ⟨"eth_getBalance", .obj []⟩ = true := by decide

end LocalNode.Provider
