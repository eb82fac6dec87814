import LocalNode.Proofs.Chain.Consistency
import LocalNode.Proofs.Provider.Runs

/-!
What requests and calls to the provider do to a chain.

Whoever is told of an error can rely on the chain being as it was. Four commands change it if they
succeed, and `Changes` says exactly how. Nothing that a chain has is ever taken away or replaced by
a request: `Keeps` says so of everything at once.

An error can come from the reading of the request, from the chain, or from the comparison of the
answer with its schema, which happens when the chain has already changed. The last of these never
fails, and the chain reports errors only where it has changed nothing, so it is enough to look at
how a command is answered. That an accepted transaction replaces no receipt needs the invariant: the
chain looks for its hash among the transactions only.
-/

namespace LocalNode

open Rpc (ChainError Command HandlerConfig Request Response)

/-- What a command makes of a chain if it succeeds. -/
def Rpc.Command.Changes [HashFunction] : Command → Chain → Chain → Prop
  | .call request _, c, c' => c' = { c with requests := c.requests ++ [request] }
  | .estimateGas request, c, c' => c' = { c with requests := c.requests ++ [request] }
  | .mine, c, c' =>
    ∃ b : Block, b.transactions = .hashes [] ∧ c' = { c with blocks := c.blocks ++ [b] }
  | .sendRawTransaction data, c, c' =>
    ∃ (h : Hash) (b : Block) (t : Transaction) (r : Receipt),
      h = HashFunction.hash (Bytes.ofList data.bytes) ∧
      c.transactions.get? h = none ∧ c.receipts.get? h = none ∧
      b.transactions = .hashes [h] ∧ t.hash = h ∧ r.transactionHash = h ∧
      c' = { c with
        blocks := c.blocks ++ [b]
        transactions := c.transactions.insert h t
        receipts := c.receipts.insert h r }
  | _, c, c' => c' = c

namespace Chain

variable {c c' : Chain}

/-- Everything that a chain has, another one has as well. -/
structure Keeps (c c' : Chain) : Prop where
  settings : c'.chainId = c.chainId ∧ c'.gasPrice = c.gasPrice ∧ c'.callResult = c.callResult
  accounts : c'.balances = c.balances ∧ c'.nonces = c.nonces ∧ c'.code = c.code ∧
    c'.storage = c.storage
  blocks : c.blocks <+: c'.blocks
  transactions : ∀ h t, c.transactions.get? h = some t → c'.transactions.get? h = some t
  receipts : ∀ h r, c.receipts.get? h = some r → c'.receipts.get? h = some r
  requests : c.requests <+: c'.requests

theorem Keeps.refl (c : Chain) : c.Keeps c where
  settings := ⟨rfl, rfl, rfl⟩
  accounts := ⟨rfl, rfl, rfl, rfl⟩
  blocks := List.prefix_refl _
  transactions _ _ h := h
  receipts _ _ h := h
  requests := List.prefix_refl _

theorem keeps_of_noted {request : CallRequest}
    (h : c' = { c with requests := c.requests ++ [request] }) : c.Keeps c' := by
  subst h
  exact { Keeps.refl c with requests := List.prefix_append _ _ }

section AnyHash

variable [HashFunction]

/-- No command that succeeds takes anything from a chain. -/
theorem keeps_of_changes {cmd : Command} (h : cmd.Changes c c') : c.Keeps c' := by
  cases cmd with
  | call request block => exact keeps_of_noted h
  | estimateGas request => exact keeps_of_noted h
  | mine =>
      obtain ⟨b, -, rfl⟩ := h
      exact { Keeps.refl c with blocks := List.prefix_append _ _ }
  | sendRawTransaction data =>
      obtain ⟨hash, b, t, r, -, htransaction, hreceipt, -, -, -, rfl⟩ := h
      exact
        { Keeps.refl c with
          blocks := List.prefix_append _ _
          transactions := fun _ _ => Table.get?_insert_of_unknown htransaction
          receipts := fun _ _ => Table.get?_insert_of_unknown hreceipt }
  | clientVersion | netVersion | chainId | gasPrice | blockNumber | getBalance
  | getTransactionCount | getCode | getStorageAt | getBlockByNumber | getBlockByHash
  | getTransactionByHash | getTransactionReceipt | getLogs =>
      cases h
      exact Keeps.refl c

/-! ### Commands -/

namespace Answered

variable {cmd : Command} {result : Except ChainError cmd.Answer × Chain}

/-- The chain reports an error only where it has changed nothing. -/
theorem unchanged (h : Answered c cmd result) {e : ChainError} (he : result.1 = .error e) :
    result.2 = c := by
  cases h with
  | failed => rfl
  | told | sent | called | estimated | mined => cases he

theorem changes (h : Answered c cmd result) (hc : Consistent c) {answer : cmd.Answer}
    (hanswer : result.1 = .ok answer) : cmd.Changes c result.2 := by
  cases h with
  | failed => cases hanswer
  | told isQuery =>
      cases cmd with
      | sendRawTransaction | call | estimateGas | mine => cases isQuery
      | clientVersion | netVersion | chainId | gasPrice | blockNumber | getBalance
      | getTransactionCount | getCode | getStorageAt | getBlockByNumber | getBlockByHash
      | getTransactionByHash | getTransactionReceipt | getLogs => rfl
  | sent unknown =>
      exact ⟨_, _, _, _, rfl, unknown, hc.receipts_get?_eq_none unknown, rfl, rfl, rfl, rfl⟩
  | called | estimated => rfl
  | mined => exact ⟨_, rfl, rfl⟩

end Answered

/-! ### Requests and calls -/

/-- How the chain after a request or a call has to do with its outcome and with the command that it
was carried out as, if it was. -/
structure Accounts {ε : Type} (cmd? : Option Command) (outcome : Except ε Json) (c c' : Chain) :
    Prop where
  /-- An error means that nothing has happened. -/
  failed : ∀ e, outcome = .error e → c' = c
  /-- A result means that the command has done what it does. -/
  succeeded : ∀ v cmd, outcome = .ok v → cmd? = some cmd → cmd.Changes c c'
  /-- Without a command nothing happens. -/
  other : cmd? = none → c' = c
  keeps : c.Keeps c'

section Accounts

variable {ε : Type}

theorem accounts_unchanged (cmd? : Option Command) (e : ε) : Accounts cmd? (.error e) c c where
  failed _ _ := rfl
  succeeded _ _ h := nomatch h
  other _ := rfl
  keeps := Keeps.refl c

theorem accounts_other (outcome : Except ε Json) : Accounts none outcome c c where
  failed _ _ := rfl
  succeeded _ _ _ h := nomatch h
  other _ := rfl
  keeps := Keeps.refl c

/-- An error that is passed on from the chain. -/
theorem accounts_failed {cmd : Command} {e : ChainError}
    (h : (executor.answer cmd c).1 = .error e) (e' : ε) :
    Accounts (some cmd) (.error e') c (executor.answer cmd c).2 := by
  have hsame : (executor.answer cmd c).2 = c := (answered cmd c).unchanged h
  rw [hsame]
  exact accounts_unchanged _ e'

/-- An answer that is passed on from the chain. -/
theorem accounts_answered (hc : Consistent c) {cmd : Command} {a : cmd.Answer}
    (h : (executor.answer cmd c).1 = .ok a) (v : Json) :
    Accounts (some cmd) (.ok v : Except ε Json) c (executor.answer cmd c).2 := by
  have hchanges : cmd.Changes c (executor.answer cmd c).2 := (answered cmd c).changes hc h
  exact
    { failed := fun _ h => nomatch h
      succeeded := fun _ _ _ heq => Option.some.inj heq ▸ hchanges
      other := fun h => nomatch h
      keeps := keeps_of_changes hchanges }

theorem accounts_handle (hc : Consistent c) (config : HandlerConfig) (r : Request) :
    Accounts (Command.ofRequest r.method r.params).toOption
      (Rpc.handle executor config r c).1.outcome c (Rpc.handle executor config r c).2 := by
  by_cases hversion : r.version = Rpc.version
  · cases hcmd : Command.ofRequest r.method r.params with
    | error e =>
        rw [Rpc.handle_of_error executor config c hversion hcmd]
        exact accounts_unchanged _ _
    | ok cmd =>
        rw [Rpc.handle_of_command executor config c hversion hcmd]
        cases hresult : (executor.answer cmd c).1 with
        | error e => exact accounts_failed hresult _
        | ok a => exact accounts_answered hc hresult _
  · rw [Rpc.handle, if_pos hversion]
    exact accounts_unchanged _ _

theorem accounts_perform {τ : Type} (hc : Consistent c) (fallback : Provider.Fallback τ)
    (config : Provider.Config) (call : Provider.Call) (t : τ) :
    Accounts (call.command? config) (call.perform executor fallback config c t).1 c
      (call.perform executor fallback config c t).2.1 := by
  unfold Provider.Call.command?
  cases hroute : call.route config with
  | error e =>
      rw [call.perform_of_refused executor fallback hroute]
      exact accounts_unchanged _ e
  | ok place =>
      cases place with
      | command m cmd =>
          rw [call.perform_of_command executor fallback hroute, Provider.runCommand, cmd.run_eq]
          cases hresult : (executor.answer cmd c).1 with
          | error e => exact accounts_failed hresult _
          | ok a => exact accounts_answered hc hresult _
      | forward method params =>
          rw [call.perform_of_forward executor fallback hroute]
          exact accounts_other _

end Accounts

/-- **Requests and calls change a chain exactly as their outcome says.** After an error the chain is
as it was. After a result it has one call request more, one block more, or one block, one
transaction and one receipt more, as the command has it, and after any other command nothing is
different. The command of a request is one of the method that it names. Whatever the chain had
before it still has. -/
theorem requests_change_as_told {c : Chain} (h : Reachable c) :
    (∀ (config : HandlerConfig) (r : Request),
      Accounts (Command.ofRequest r.method r.params).toOption
        (Rpc.handle executor config r c).1.outcome c (Rpc.handle executor config r c).2 ∧
      ∀ cmd, Command.ofRequest r.method r.params = .ok cmd → cmd.method.name = r.method) ∧
    ∀ (τ : Type) (fallback : Provider.Fallback τ) (config : Provider.Config)
      (call : Provider.Call) (t : τ),
      Accounts (call.command? config) (call.perform executor fallback config c t).1 c
        (call.perform executor fallback config c t).2.1 := by
  have hc := h.consistent
  refine ⟨?_, ?_⟩
  · intro config r
    exact ⟨accounts_handle hc config r, fun cmd => Command.method_of_ofRequest⟩
  · intro τ fallback config call t
    exact accounts_perform hc fallback config call t

end AnyHash

/-- After a block was added, a request for an estimate is noted, and a call with an address that is
too short leaves the chain alone. -/
theorem requests_change_as_told_estimate :
    let c := (new 1337).after [.command .mine]
    let r : Request := .new (.number 1) "eth_estimateGas" (.arr [.obj [("data", .str "0x01")]])
    let call : Provider.Call := ⟨"getBalance", .obj [("address", .str "0x12")]⟩
    Reachable c ∧
      (Rpc.handle executor {} r c).2 = { c with requests := [{ data := some ⟨[1]⟩ }] } ∧
      (call.perform executor Provider.unsupported {} c ()).2.1 = c := by
  intro c r call
  have hreachable : Reachable c := ⟨1337, [.command .mine], rfl⟩
  obtain ⟨hrequests, hcalls⟩ := requests_change_as_told hreachable
  have hcmd : Command.ofRequest r.method r.params = .ok (.estimateGas { data := some ⟨[1]⟩ }) :=
    Command.ofRequest_params (.estimateGas { data := some ⟨[1]⟩ })
  refine ⟨hreachable, ?_, (hcalls Unit Provider.unsupported {} call ()).failed _ rfl⟩
  refine (hrequests {} r).1.succeeded (encode (estimate { data := some ⟨[1]⟩ })) _ ?_
    (congrArg Except.toOption hcmd)
  rw [Rpc.handle_of_command executor {} c (r := r) rfl hcmd]
  rfl

end Chain

end LocalNode
