import LocalNode.Ledger.Transaction
import LocalNode.Wire.Union

/-!
Blocks, with their transactions or only with the hashes of these.
-/

namespace LocalNode

/-- The transactions of a block. -/
inductive BlockTransactions where
  | hashes (list : List Hash)
  | full (list : List Transaction)
  deriving DecidableEq

/-- A block. -/
structure Block where
  number : Word := 0
  hash : Hash := .zero
  parentHash : Hash := .zero
  nonce : Data := .empty
  unclesHash : Hash := .zero
  logsBloom : Data := .empty
  transactionsRoot : Hash := .zero
  stateRoot : Hash := .zero
  receiptsRoot : Hash := .zero
  miner : Address := .zero
  difficulty : Word := 0
  totalDifficulty : Word := 0
  extraData : Data := .empty
  size : Word := 0
  gasLimit : Word := 0
  gasUsed : Word := 0
  timestamp : Word := 0
  transactions : BlockTransactions := .hashes []
  uncles : List Hash := []
  deriving DecidableEq

namespace BlockTransactions

/-- The number of transactions. -/
def length : BlockTransactions → Nat
  | .hashes list => list.length
  | .full list => list.length

/-- Whether the transactions themselves are there, not only their hashes. -/
def isFull : BlockTransactions → Bool
  | .hashes _ => false
  | .full _ => true

instance : Wire BlockTransactions where
  encode
    | .hashes list => encode list
    | .full list => encode list
  decode v :=
    Wire.firstForm "BlockTransactions" v
      [fun v => (decode v).map .hashes, fun v => (decode v).map .full]
  schema := .oneOf [Wire.schema (List Hash), Wire.schema (List Transaction)]

end BlockTransactions

/-- The wire form of a block. -/
def Block.record : Wire.Record Wire Block where
  name := "BlockInfo"
  members :=
    .required Word "number" <|
    .required Hash "hash" <|
    .required Hash "parentHash" <|
    .required Data "nonce" <|
    .required Hash "sha3Uncles" <|
    .required Data "logsBloom" <|
    .required Hash "transactionsRoot" <|
    .required Hash "stateRoot" <|
    .required Hash "receiptsRoot" <|
    .required Address "miner" <|
    .required Word "difficulty" <|
    .required Word "totalDifficulty" <|
    .required Data "extraData" <|
    .required Word "size" <|
    .required Word "gasLimit" <|
    .required Word "gasUsed" <|
    .required Word "timestamp" <|
    .required BlockTransactions "transactions" <|
    .required (List Hash) "uncles" <| .nil
  build :=
    fun (number, hash, parentHash, nonce, unclesHash, logsBloom, transactionsRoot, stateRoot,
      receiptsRoot, miner, difficulty, totalDifficulty, extraData, size, gasLimit, gasUsed,
      timestamp, transactions, uncles, ()) =>
    { number, hash, parentHash, nonce, unclesHash, logsBloom, transactionsRoot, stateRoot,
      receiptsRoot, miner, difficulty, totalDifficulty, extraData, size, gasLimit, gasUsed,
      timestamp, transactions, uncles }
  values b :=
    (b.number, b.hash, b.parentHash, b.nonce, b.unclesHash, b.logsBloom, b.transactionsRoot,
      b.stateRoot, b.receiptsRoot, b.miner, b.difficulty, b.totalDifficulty, b.extraData, b.size,
      b.gasLimit, b.gasUsed, b.timestamp, b.transactions, b.uncles, ())

instance : Wire Block := Block.record.wire

end LocalNode
