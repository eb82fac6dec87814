import LocalNode.Wire.Record

/-!
Transactions: as they are asked for, and as they stand in a block.
-/

namespace LocalNode

/-- The fields of a transaction that is tried out but not sent. What is left out is not written
either. -/
structure CallRequest where
  sender : Option Address := none
  recipient : Option Address := none
  gas : Option Word := none
  gasPrice : Option Word := none
  nonce : Option Word := none
  value : Option Word := none
  data : Option Data := none
  deriving DecidableEq

/-- A transaction. While it is pending it has no block. -/
structure Transaction where
  hash : Hash := .zero
  nonce : Word := 0
  blockHash : Option Hash := none
  blockNumber : Option Word := none
  index : Option Word := none
  sender : Address := .zero
  recipient : Option Address := none
  value : Word := 0
  gasPrice : Word := 0
  gas : Word := 0
  input : Data := .empty
  v : Word := 0
  r : Word := 0
  s : Word := 0
  deriving DecidableEq

/-- The wire form of a call request. -/
def CallRequest.record : Wire.Record Wire CallRequest where
  name := "TransactionRequest"
  members :=
    .optional Address "from" <|
    .optional Address "to" <|
    .optional Word "gas" <|
    .optional Word "gasPrice" <|
    .optional Word "nonce" <|
    .optional Word "value" <|
    .optional Data "data" <| .nil
  build := fun (sender, recipient, gas, gasPrice, nonce, value, data, ()) =>
    { sender, recipient, gas, gasPrice, nonce, value, data }
  values t := (t.sender, t.recipient, t.gas, t.gasPrice, t.nonce, t.value, t.data, ())

instance : Wire CallRequest := CallRequest.record.wire

/-- The wire form of a transaction. -/
def Transaction.record : Wire.Record Wire Transaction where
  name := "TransactionInfo"
  members :=
    .required Hash "hash" <|
    .required Word "nonce" <|
    .nullable Hash "blockHash" <|
    .nullable Word "blockNumber" <|
    .nullable Word "transactionIndex" <|
    .required Address "from" <|
    .nullable Address "to" <|
    .required Word "value" <|
    .required Word "gasPrice" <|
    .required Word "gas" <|
    .required Data "input" <|
    .required Word "v" <|
    .required Word "r" <|
    .required Word "s" <| .nil
  build :=
    fun (hash, nonce, blockHash, blockNumber, index, sender, recipient, value, gasPrice, gas,
      input, v, r, s, ()) =>
    { hash, nonce, blockHash, blockNumber, index, sender, recipient, value, gasPrice, gas, input,
      v, r, s }
  values t :=
    (t.hash, t.nonce, t.blockHash, t.blockNumber, t.index, t.sender, t.recipient, t.value,
      t.gasPrice, t.gas, t.input, t.v, t.r, t.s, ())

instance : Wire Transaction := Transaction.record.wire

end LocalNode
