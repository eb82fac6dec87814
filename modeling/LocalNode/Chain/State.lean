import LocalNode.Chain.Table
import LocalNode.Keccak
import LocalNode.Ledger.Block
import LocalNode.Ledger.Receipt
import LocalNode.Rpc.Error

/-!
A chain held in memory.

The chain starts with one block. Every transaction that is sent gets a block of its own at once, and
blocks without transactions can be added on demand. Blocks are never changed or taken back.

Blocks and transactions are known by hashes. Nothing depends on how these are computed, so the
function is left open here. The node uses Keccak.
-/

namespace LocalNode

/-- The function that gives blocks and transactions their hashes. -/
class HashFunction where
  hash : ByteArray → Hash

instance : HashFunction where
  hash := Keccak.hash

/-- The state of a chain. -/
structure Chain where
  chainId : UInt64
  gasPrice : Word
  balances : Table Address Word := .empty
  nonces : Table Address UInt64 := .empty
  code : Table Address Data := .empty
  storage : Table (Address × Word) Hash := .empty
  /-- The blocks, the first one first. -/
  blocks : List Block := []
  transactions : Table Hash Transaction := .empty
  receipts : Table Hash Receipt := .empty
  /-- The data that every call returns. -/
  callResult : Data := .empty
  /-- The call requests received so far, the first one first. -/
  requests : List CallRequest := []

namespace Chain

variable [HashFunction]

/-! ### Constants -/

/-- The name and version of the node. -/
def clientVersion : String := "devchain/v0.1.0"

/-- The identifier of a chain for which none is given. -/
def defaultChainId : UInt64 := 1337

/-- The price of gas at the start. -/
def defaultGasPrice : Word := 1000000000

/-- The gas limit of every block. -/
def blockGasLimit : Word := 30000000

/-- The gas of a transaction with `length` bytes of data. -/
def transactionGas (length : Nat) : Nat :=
  21000 + 16 * length

/-! ### Blocks -/

/-- The hash of the block at a height. -/
def blockHash (height : Nat) : Hash :=
  HashFunction.hash (Bytes.ofNat 8 height)

/-- The height of the last block. -/
def head (c : Chain) : Nat :=
  c.blocks.length - 1

/-- The height that a selector stands for, if there is a block at it. -/
def resolve (c : Chain) : BlockSelector → Except Rpc.ChainError Nat
  | .tag .earliest => .ok 0
  | .tag _ => .ok c.head
  | .number height =>
    if height.toNat ≤ c.head then .ok height.toNat
    else .error (.notFound ("block " ++ Quantity.encode height))

/-- The gas that the given transactions used. -/
def gasUsed (c : Chain) (transactions : List Hash) : Nat :=
  (transactions.filterMap fun hash =>
    (c.receipts.get? hash).bind fun r => (Word.toUInt64? r.gasUsed).map UInt64.toNat).foldl
      (· + ·) 0

/-- The block that comes next and lists the given transactions. -/
def nextBlock (c : Chain) (transactions : List Hash) : Block where
  number := Word.ofNat c.blocks.length
  hash := blockHash c.blocks.length
  parentHash := (c.blocks.getLast?.map (·.hash)).getD .zero
  nonce := ⟨List.replicate 8 0⟩
  logsBloom := ⟨List.replicate 256 0⟩
  gasLimit := blockGasLimit
  gasUsed := Word.ofNat (c.gasUsed transactions)
  timestamp := Word.ofNat c.blocks.length
  transactions := .hashes transactions

/-- The chain with one block more, which lists the given transactions. -/
def pushBlock (c : Chain) (transactions : List Hash) : Chain :=
  { c with blocks := c.blocks ++ [c.nextBlock transactions] }

/-- A chain that has only its first block. -/
def new (chainId : UInt64) : Chain :=
  pushBlock { chainId, gasPrice := defaultGasPrice } []

/-- A block with its transactions in place of their hashes. -/
def expandBlock (c : Chain) (b : Block) : Block :=
  match b.transactions with
  | .hashes list => { b with transactions := .full (list.filterMap c.transactions.get?) }
  | .full _ => b

/-- The block at a height, with its transactions if `full` says so. -/
def block (c : Chain) (height : Nat) (full : Bool) : Except Rpc.ChainError Block :=
  match c.blocks[height]? with
  | some b => .ok (if full then c.expandBlock b else b)
  | none => .error (.notFound ("block " ++ toString height))

/-! ### Transactions -/

/-- Sends a transaction: it gets a hash, a receipt and a block of its own. Empty transactions and
those that were sent before are refused. -/
def send (c : Chain) (data : Data) : Except Rpc.ChainError Hash × Chain :=
  if data.bytes.isEmpty then (.error (.rejected "empty transaction"), c)
  else
    let hash := HashFunction.hash (Bytes.ofList data.bytes)
    if c.transactions.contains hash then
      (.error (.rejected ("known transaction " ++ hash.encode)), c)
    else
      let height := c.head + 1
      let gas := Word.ofNat (transactionGas data.bytes.length)
      let transaction : Transaction :=
        { hash
          blockHash := some (blockHash height)
          blockNumber := some (Word.ofNat height)
          index := some 0
          gasPrice := c.gasPrice
          gas
          input := data }
      let receipt : Receipt :=
        { transactionHash := hash
          blockHash := blockHash height
          blockNumber := Word.ofNat height
          cumulativeGasUsed := gas
          gasUsed := gas
          logsBloom := ⟨List.replicate 256 0⟩
          status := 1 }
      let c :=
        { c with
          transactions := c.transactions.insert hash transaction
          receipts := c.receipts.insert hash receipt }
      (.ok hash, c.pushBlock [hash])

/-! ### Settings -/

/-- Sets the balance of an account. -/
def setBalance (c : Chain) (address : Address) (balance : Word) : Chain :=
  { c with balances := c.balances.insert address balance }

/-- Sets the nonce of an account. -/
def setNonce (c : Chain) (address : Address) (nonce : UInt64) : Chain :=
  { c with nonces := c.nonces.insert address nonce }

/-- Sets the code of an account. -/
def setCode (c : Chain) (address : Address) (code : Data) : Chain :=
  { c with code := c.code.insert address code }

/-- Sets a storage slot of an account. -/
def setStorage (c : Chain) (address : Address) (slot : Word) (value : Hash) : Chain :=
  { c with storage := c.storage.insert (address, slot) value }

/-- Sets the price of gas. -/
def setGasPrice (c : Chain) (price : Word) : Chain :=
  { c with gasPrice := price }

/-- Sets the data that calls return. -/
def setCallResult (c : Chain) (data : Data) : Chain :=
  { c with callResult := data }

/-- Appends logs to the receipt of a transaction. -/
def addLogs (c : Chain) (transaction : Hash) (logs : List Log) :
    Except Rpc.ChainError Unit × Chain :=
  match c.receipts.get? transaction with
  | none => (.error (.notFound ("receipt " ++ transaction.encode)), c)
  | some receipt =>
    let receipt := { receipt with logs := receipt.logs ++ logs }
    (.ok (), { c with receipts := c.receipts.insert transaction receipt })

end Chain

end LocalNode
