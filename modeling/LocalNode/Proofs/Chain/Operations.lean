import LocalNode.Chain.Executor

/-!
What can happen to a chain.

`Answered` lists the ways in which a command can be answered, each with the chain after it, and
`Effect` does the same for everything that can be done to a chain from outside: carry out a command,
change a setting, append logs to a receipt. `answered` and `perform_effect` say that there are no
other ways. Statements about the chain are derived from these lists, so that the commands are gone
through once.

A transaction that is accepted changes two tables and then adds a block. The state in between has a
name here, since the new block reads the gas it states from the new receipt.
-/

namespace LocalNode

/-- Whether a command only asks: it neither adds blocks nor is it noted. -/
def Rpc.Command.isQuery : Rpc.Command → Bool
  | .sendRawTransaction _ | .call _ _ | .estimateGas _ | .mine => false
  | _ => true

namespace Chain

open Rpc (ChainError Command)

variable [HashFunction]

/-! ### Sent transactions -/

/-- The hash under which data are known as a transaction. -/
def hashOf (data : Data) : Hash :=
  HashFunction.hash (Bytes.ofList data.bytes)

/-- The transaction that data become if they are accepted next. -/
def sentTransaction (c : Chain) (data : Data) : Transaction where
  hash := hashOf data
  blockHash := some (blockHash (c.head + 1))
  blockNumber := some (Word.ofNat (c.head + 1))
  index := some 0
  gasPrice := c.gasPrice
  gas := Word.ofNat (transactionGas data.bytes.length)
  input := data

/-- The receipt of that transaction. -/
def sentReceipt (c : Chain) (data : Data) : Receipt where
  transactionHash := hashOf data
  blockHash := blockHash (c.head + 1)
  blockNumber := Word.ofNat (c.head + 1)
  cumulativeGasUsed := Word.ofNat (transactionGas data.bytes.length)
  gasUsed := Word.ofNat (transactionGas data.bytes.length)
  logsBloom := ⟨List.replicate 256 0⟩
  status := 1

/-- The chain that knows a transaction and its receipt, before there is a block for them. -/
def enter (c : Chain) (data : Data) : Chain :=
  { c with
    transactions := c.transactions.insert (hashOf data) (c.sentTransaction data)
    receipts := c.receipts.insert (hashOf data) (c.sentReceipt data) }

/-- The chain that has accepted a transaction. -/
def accept (c : Chain) (data : Data) : Chain :=
  (c.enter data).pushBlock [hashOf data]

/-- A transaction is rejected and nothing changes, or it was not known and is accepted. -/
theorem send_cases (c : Chain) (data : Data) :
    (∃ text, c.send data = (.error (.rejected text), c)) ∨
      c.transactions.get? (hashOf data) = none ∧
        c.send data = (.ok (hashOf data), c.accept data) := by
  unfold send
  split
  · exact .inl ⟨_, rfl⟩
  · dsimp only
    split
    · exact .inl ⟨_, rfl⟩
    · rename_i hunknown
      refine .inr ⟨?_, rfl⟩
      exact Option.not_isSome_iff_eq_none.mp hunknown

/-! ### Commands -/

/-- The answers to a command, each with the chain after it. -/
inductive Answered (c : Chain) : (cmd : Command) → Except ChainError cmd.Answer × Chain → Prop
  /-- There is no answer, and nothing has changed. -/
  | failed {cmd : Command} (e : ChainError) : Answered c cmd (.error e, c)
  /-- A query is answered, and nothing has changed. -/
  | told {cmd : Command} (isQuery : cmd.isQuery = true) (answer : cmd.Answer) :
      Answered c cmd (.ok answer, c)
  /-- A transaction is accepted. -/
  | sent {data : Data} (unknown : c.transactions.get? (hashOf data) = none) :
      Answered c (.sendRawTransaction data) (.ok (hashOf data), c.accept data)
  /-- A call is noted. -/
  | called (request : CallRequest) (block : BlockSelector) :
      Answered c (.call request block) (.ok c.callResult, c.note request)
  /-- A call whose gas is estimated is noted as well. -/
  | estimated (request : CallRequest) :
      Answered c (.estimateGas request) (.ok (estimate request), c.note request)
  /-- A block without transactions is added. -/
  | mined : Answered c .mine (.ok (Word.ofNat c.blocks.length), c.pushBlock [])

theorem answered_query (c : Chain) {cmd : Command} (h : cmd.isQuery = true)
    (result : Except ChainError cmd.Answer) : Answered c cmd (result, c) := by
  cases result with
  | error e => exact .failed e
  | ok answer => exact .told h answer

/-- **Every command is answered in one of these ways.** -/
theorem answered (cmd : Command) (c : Chain) : Answered c cmd (answer cmd c) := by
  cases cmd with
  | sendRawTransaction data =>
      rw [answer]
      rcases c.send_cases data with ⟨text, hsend⟩ | ⟨hunknown, hsend⟩
      · rw [hsend]
        exact .failed _
      · rw [hsend]
        exact .sent hunknown
  | call request block =>
      rw [answer]
      split
      · exact .called request block
      · exact .failed _
  | estimateGas request => exact .estimated request
  | mine => exact .mined
  | clientVersion | netVersion | chainId | gasPrice | blockNumber => exact .told rfl _
  | getBalance | getTransactionCount | getCode | getStorageAt | getBlockByNumber | getBlockByHash
  | getTransactionByHash | getTransactionReceipt | getLogs => exact answered_query c rfl _

/-! ### Operations -/

/-- Something that is done to a chain from outside. -/
inductive Operation where
  | command (cmd : Command)
  | setBalance (address : Address) (balance : Word)
  | setNonce (address : Address) (nonce : UInt64)
  | setCode (address : Address) (code : Data)
  | setStorage (address : Address) (slot : Word) (value : Hash)
  | setGasPrice (price : Word)
  | setCallResult (data : Data)
  | addLogs (transaction : Hash) (logs : List Log)

/-- The chain after an operation. -/
def Operation.perform : Operation → Chain → Chain
  | .command cmd, c => (answer cmd c).2
  | .setBalance address balance, c => c.setBalance address balance
  | .setNonce address nonce, c => c.setNonce address nonce
  | .setCode address code, c => c.setCode address code
  | .setStorage address slot value, c => c.setStorage address slot value
  | .setGasPrice price, c => c.setGasPrice price
  | .setCallResult data, c => c.setCallResult data
  | .addLogs transaction logs, c => (c.addLogs transaction logs).2

/-- The chain after some operations, one after another. -/
def after (c : Chain) (ops : List Operation) : Chain :=
  ops.foldl (fun c op => op.perform c) c

@[simp]
theorem after_cons (c : Chain) (op : Operation) (ops : List Operation) :
    c.after (op :: ops) = (op.perform c).after ops :=
  rfl

/-- A chain that some operations lead to from the start. -/
def Reachable (c : Chain) : Prop :=
  ∃ chainId ops, c = (new chainId).after ops

/-- The chains to which an operation can lead, as far as blocks, transactions and receipts are
concerned. -/
inductive Effect (op : Operation) (c : Chain) : Chain → Prop
  /-- Only something else has changed, if anything. -/
  | elsewhere {c' : Chain} (blocks : c'.blocks = c.blocks)
      (transactions : c'.transactions = c.transactions) (receipts : c'.receipts = c.receipts) :
      Effect op c c'
  /-- A block without transactions is added. -/
  | mined : Effect op c (c.pushBlock [])
  /-- A transaction is accepted. -/
  | accepted {data : Data} (isSend : op = .command (.sendRawTransaction data))
      (unknown : c.transactions.get? (hashOf data) = none) : Effect op c (c.accept data)
  /-- A receipt has more logs. -/
  | logged {hash : Hash} {receipt : Receipt} (found : c.receipts.get? hash = some receipt)
      (logs : List Log) :
      Effect op c
        { c with receipts := c.receipts.insert hash { receipt with logs := receipt.logs ++ logs } }

theorem Answered.effect {c : Chain} {cmd : Command} {result : Except ChainError cmd.Answer × Chain}
    (h : Answered c cmd result) : Effect (.command cmd) c result.2 := by
  cases h with
  | failed | told | called | estimated => exact .elsewhere rfl rfl rfl
  | sent unknown => exact .accepted rfl unknown
  | mined => exact .mined

/-- **Every operation leads to one of the chains that `Effect` lists.** -/
theorem perform_effect (op : Operation) (c : Chain) : Effect op c (op.perform c) := by
  cases op with
  | command cmd => exact (answered cmd c).effect
  | setBalance | setNonce | setCode | setStorage | setGasPrice | setCallResult =>
      exact .elsewhere rfl rfl rfl
  | addLogs transaction logs =>
      rw [Operation.perform, addLogs]
      split
      · exact .elsewhere rfl rfl rfl
      · rename_i receipt hfound
        exact .logged hfound logs

end Chain

end LocalNode
