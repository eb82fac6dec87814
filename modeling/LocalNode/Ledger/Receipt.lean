import LocalNode.Ledger.Log

/-!
Receipts: what became of a transaction.
-/

namespace LocalNode

/-- The receipt of a transaction. -/
structure Receipt where
  transactionHash : Hash := .zero
  transactionIndex : Word := 0
  blockHash : Hash := .zero
  blockNumber : Word := 0
  sender : Address := .zero
  recipient : Option Address := none
  cumulativeGasUsed : Word := 0
  gasUsed : Word := 0
  contractAddress : Option Address := none
  logs : List Log := []
  logsBloom : Data := .empty
  /-- One if the transaction succeeded. -/
  status : Word := 0
  deriving DecidableEq

/-- The wire form of a receipt. -/
def Receipt.record : Wire.Record Wire Receipt where
  name := "ReceiptInfo"
  members :=
    .required Hash "transactionHash" <|
    .required Word "transactionIndex" <|
    .required Hash "blockHash" <|
    .required Word "blockNumber" <|
    .required Address "from" <|
    .nullable Address "to" <|
    .required Word "cumulativeGasUsed" <|
    .required Word "gasUsed" <|
    .nullable Address "contractAddress" <|
    .required (List Log) "logs" <|
    .required Data "logsBloom" <|
    .required Word "status" <| .nil
  build :=
    fun (transactionHash, transactionIndex, blockHash, blockNumber, sender, recipient,
      cumulativeGasUsed, gasUsed, contractAddress, logs, logsBloom, status, ()) =>
    { transactionHash, transactionIndex, blockHash, blockNumber, sender, recipient,
      cumulativeGasUsed, gasUsed, contractAddress, logs, logsBloom, status }
  values r :=
    (r.transactionHash, r.transactionIndex, r.blockHash, r.blockNumber, r.sender, r.recipient,
      r.cumulativeGasUsed, r.gasUsed, r.contractAddress, r.logs, r.logsBloom, r.status, ())

instance : Wire Receipt := Receipt.record.wire

end LocalNode
