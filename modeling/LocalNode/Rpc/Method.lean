import LocalNode.Ledger.Block
import LocalNode.Ledger.Receipt
import LocalNode.Wire.Tuple
import LocalNode.Wire.Validation

/-!
The methods of the node.

Each method is declared once, by its name, its named parameters and the type of its answer. Schemas,
decoding and encoding all follow from that declaration, so they cannot disagree.
-/

namespace LocalNode.Rpc

/-- A method of the node. -/
inductive Method where
  | clientVersion
  | netVersion
  | chainId
  | gasPrice
  | blockNumber
  | getBalance
  | getTransactionCount
  | getCode
  | getStorageAt
  | sendRawTransaction
  | call
  | estimateGas
  | getBlockByNumber
  | getBlockByHash
  | getTransactionByHash
  | getTransactionReceipt
  | getLogs
  | mine
  deriving DecidableEq, Repr

/-- The parameters and the answer of a method. -/
structure Signature where
  {Args : Type}
  params : Wire.Members Wire Args
  Answer : Type
  answer : Wire Answer

namespace Method

/-- All methods, in the order of their declaration. -/
def all : List Method :=
  [.clientVersion, .netVersion, .chainId, .gasPrice, .blockNumber, .getBalance,
    .getTransactionCount, .getCode, .getStorageAt, .sendRawTransaction, .call, .estimateGas,
    .getBlockByNumber, .getBlockByHash, .getTransactionByHash, .getTransactionReceipt, .getLogs,
    .mine]

/-- The name of a method on the wire. -/
def name : Method → String
  | .clientVersion => "web3_clientVersion"
  | .netVersion => "net_version"
  | .chainId => "eth_chainId"
  | .gasPrice => "eth_gasPrice"
  | .blockNumber => "eth_blockNumber"
  | .getBalance => "eth_getBalance"
  | .getTransactionCount => "eth_getTransactionCount"
  | .getCode => "eth_getCode"
  | .getStorageAt => "eth_getStorageAt"
  | .sendRawTransaction => "eth_sendRawTransaction"
  | .call => "eth_call"
  | .estimateGas => "eth_estimateGas"
  | .getBlockByNumber => "eth_getBlockByNumber"
  | .getBlockByHash => "eth_getBlockByHash"
  | .getTransactionByHash => "eth_getTransactionByHash"
  | .getTransactionReceipt => "eth_getTransactionReceipt"
  | .getLogs => "eth_getLogs"
  | .mine => "evm_mine"

/-- The method of a name. -/
def ofName? (name : String) : Option Method :=
  all.find? fun m => m.name = name

/-- The declaration of a method. -/
@[reducible]
def signature : Method → Signature
  | .clientVersion => ⟨.nil, String, inferInstance⟩
  | .netVersion => ⟨.nil, String, inferInstance⟩
  | .chainId => ⟨.nil, Word, inferInstance⟩
  | .gasPrice => ⟨.nil, Word, inferInstance⟩
  | .blockNumber => ⟨.nil, Word, inferInstance⟩
  | .getBalance =>
    ⟨.required Address "address" <| .required BlockSelector "block" .nil, Word, inferInstance⟩
  | .getTransactionCount =>
    ⟨.required Address "address" <| .required BlockSelector "block" .nil, Word, inferInstance⟩
  | .getCode =>
    ⟨.required Address "address" <| .required BlockSelector "block" .nil, Data, inferInstance⟩
  | .getStorageAt =>
    ⟨.required Address "address" <| .required Word "position" <|
      .required BlockSelector "block" .nil, Data, inferInstance⟩
  | .sendRawTransaction => ⟨.required Data "data" .nil, Hash, inferInstance⟩
  | .call =>
    ⟨.required CallRequest "request" <| .required BlockSelector "block" .nil, Data, inferInstance⟩
  | .estimateGas => ⟨.required CallRequest "request" .nil, Word, inferInstance⟩
  | .getBlockByNumber =>
    ⟨.required BlockSelector "block" <| .required Bool "full" .nil, Block, inferInstance⟩
  | .getBlockByHash =>
    ⟨.required Hash "hash" <| .required Bool "full" .nil, Block, inferInstance⟩
  | .getTransactionByHash => ⟨.required Hash "hash" .nil, Transaction, inferInstance⟩
  | .getTransactionReceipt => ⟨.required Hash "hash" .nil, Receipt, inferInstance⟩
  | .getLogs => ⟨.required LogFilter "filter" .nil, List Log, inferInstance⟩
  | .mine => ⟨.nil, Word, inferInstance⟩

/-- The values of the parameters of a method. -/
abbrev Args (m : Method) : Type := m.signature.Args

/-- The answers of a method. -/
abbrev Answer (m : Method) : Type := m.signature.Answer

/-- The schema of the parameters of a method. -/
def paramsSchema (m : Method) : Schema :=
  if m.signature.params.length = 0 then .noParams else m.signature.params.tuple.schema

/-- The schema of the answer of a method. -/
def answerSchema (m : Method) : Schema :=
  m.signature.answer.schema

/-- Writes an answer of a method. -/
def encodeAnswer (m : Method) (answer : m.Answer) : Json :=
  m.signature.answer.encode answer

/-- Checks parameters. -/
def validateParams (m : Method) (params : Json) : Except Validation Unit :=
  m.paramsSchema.validate m.name "params" params

/-- Checks an answer. -/
def validateAnswer (m : Method) (answer : Json) : Except Validation Unit :=
  m.answerSchema.validate m.name "result" answer

/-- Reads the parameters of a method from an array. The empty array is taken for `null`, which is
what a method without parameters reads. -/
def decodeArgs (m : Method) (params : Json) : Except Wire.Fault m.Args :=
  let params :=
    match params with
    | .arr [] => .null
    | v => v
  if m.signature.params.length = 0 then
    match params with
    | .null => m.signature.params.readArray (fun n => .wrongLength n .unit) []
    | v => .error (.wrongType v .unit)
  else m.signature.params.readTuple params

end Method

end LocalNode.Rpc
