import LocalNode.Chain.Logs
import LocalNode.Rpc.Executor

/-!
What a chain held in memory answers to each command.
-/

namespace LocalNode.Chain

open Rpc (ChainError Command Executor)

variable [HashFunction]

/-- An answer that needs the block of a selector to be there. -/
def atBlock {α : Type} (c : Chain) (block : BlockSelector) (answer : α) : Except ChainError α :=
  (c.resolve block).map fun _ => answer

/-- An answer that must be there. -/
def orNotFound {α : Type} (what : String) : Option α → Except ChainError α
  | some a => .ok a
  | none => .error (.notFound what)

/-- The height of the first block with a hash. -/
def heightOf (c : Chain) (hash : Hash) : Except ChainError Nat :=
  orNotFound ("block " ++ hash.encode) (c.blocks.findIdx? fun b => b.hash = hash)

/-- Notes a call request. -/
def note (c : Chain) (request : CallRequest) : Chain :=
  { c with requests := c.requests ++ [request] }

/-- The gas that a call request is estimated to use. -/
def estimate (request : CallRequest) : Word :=
  Word.ofNat (transactionGas ((request.data.map (·.bytes.length)).getD 0))

/-- The answer to a command, and the chain after it. -/
def answer : (cmd : Command) → Chain → Except ChainError cmd.Answer × Chain
  | .clientVersion, c => (.ok clientVersion, c)
  | .netVersion, c => (.ok (toString c.chainId.toNat), c)
  | .chainId, c => (.ok (Word.ofNat c.chainId.toNat), c)
  | .gasPrice, c => (.ok c.gasPrice, c)
  | .blockNumber, c => (.ok (Word.ofNat c.head), c)
  | .getBalance address block, c => (c.atBlock block ((c.balances.get? address).getD 0), c)
  | .getTransactionCount address block, c =>
    (c.atBlock block (Word.ofNat ((c.nonces.get? address).getD 0).toNat), c)
  | .getCode address block, c => (c.atBlock block ((c.code.get? address).getD .empty), c)
  | .getStorageAt address position block, c =>
    (c.atBlock block ⟨((c.storage.get? (address, position)).getD .zero).bytes⟩, c)
  | .sendRawTransaction data, c => c.send data
  | .call request block, c =>
    match c.resolve block with
    | .ok _ => (.ok c.callResult, c.note request)
    | .error e => (.error e, c)
  | .estimateGas request, c => (.ok (estimate request), c.note request)
  | .getBlockByNumber block full, c => (do c.block (← c.resolve block) full, c)
  | .getBlockByHash hash full, c => (do c.block (← c.heightOf hash) full, c)
  | .getTransactionByHash hash, c =>
    (orNotFound ("transaction " ++ hash.encode) (c.transactions.get? hash), c)
  | .getTransactionReceipt hash, c =>
    (orNotFound ("receipt " ++ hash.encode) (c.receipts.get? hash), c)
  | .getLogs filter, c => (c.logs filter, c)
  | .mine, c => (.ok (Word.ofNat c.blocks.length), c.pushBlock [])

/-- The chain held in memory as a chain that carries out commands. -/
def executor : Executor Chain where
  answer := answer

end LocalNode.Chain
