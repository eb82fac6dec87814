import LocalNode.Provider.Loose
import LocalNode.Rpc.Command

/-!
From a call to the provider to a command of the node.

A call names one of the methods of the provider and passes its parameters by name. Each such call
becomes one command. A call to any other method is left to the fallback as it stands.

A name is looked up twice: once to decide whether the parameters have to be a bag of fields, and
once to decide which fields are read from it.
-/

namespace LocalNode.Provider

open Rpc (Command)

/-- A method of the provider. -/
inductive Method where
  | getChainId
  | getBlockNumber
  | getGasPrice
  | getBalance
  | getTransactionCount
  | getCode
  | getStorageAt
  | sendTransaction
  | call
  | estimateGas
  | getBlock
  | getTransaction
  | getTransactionReceipt
  | getLogs
  | mineBlock
  deriving DecidableEq, Repr

namespace Method

/-- The name of a method. -/
def name : Method → String
  | .getChainId => "getChainId"
  | .getBlockNumber => "getBlockNumber"
  | .getGasPrice => "getGasPrice"
  | .getBalance => "getBalance"
  | .getTransactionCount => "getTransactionCount"
  | .getCode => "getCode"
  | .getStorageAt => "getStorageAt"
  | .sendTransaction => "sendTransaction"
  | .call => "call"
  | .estimateGas => "estimateGas"
  | .getBlock => "getBlock"
  | .getTransaction => "getTransaction"
  | .getTransactionReceipt => "getTransactionReceipt"
  | .getLogs => "getLogs"
  | .mineBlock => "mineBlock"

/-- The methods whose parameters are not looked at. -/
def plain : List Method :=
  [.getChainId, .getBlockNumber, .getGasPrice, .mineBlock]

/-- The methods that read their parameters. -/
def reading : List Method :=
  [.getBalance, .getTransactionCount, .getCode, .getStorageAt, .sendTransaction, .call,
    .estimateGas, .getBlock, .getTransaction, .getTransactionReceipt, .getLogs]

/-- The method of a name among some methods. -/
def named? (methods : List Method) (name : String) : Option Method :=
  methods.find? fun m => m.name = name

/-- The names of calls whose parameters have to be given by name. -/
def bagNames : List String :=
  ["getBalance", "getTransactionCount", "getCode", "getStorageAt", "sendTransaction", "call",
    "estimateGas", "getBlock", "getTransaction", "getTransactionReceipt", "getLogs"]

end Method

/-! ### Fields -/

/-- The named parameters of a call. -/
abbrev Bag := List (String × Json)

/-- Reads a field that must be written. -/
def Bag.required {α : Type} (bag : Bag) (name : String)
    (read : String → Json → Except Error α) : Except Error α :=
  match present? bag name with
  | some v => read name v
  | none => .error (.missingField name)

/-- The block that the field `blockTag` names, if it is written: a tag, or a quantity in any of its
forms. -/
def Bag.blockTag? (bag : Bag) : Except Error (Option BlockSelector) :=
  match present? bag "blockTag" with
  | none => .ok none
  | some v =>
    let tag? :=
      match v with
      | .str s => BlockTag.ofName? s
      | _ => none
    match tag? with
    | some tag => .ok (some (.tag tag))
    | none => (toQuantity "blockTag" v).map fun n => some (.number n)

/-- The block that the field `blockTag` names, or else a given one. -/
def Bag.block (bag : Bag) (default : BlockSelector) : Except Error BlockSelector :=
  bag.blockTag?.map (·.getD default)

/-- Whether the transactions of a block are asked for. -/
def Bag.includeTransactions (bag : Bag) : Except Error Bool :=
  match present? bag "includeTransactions" with
  | none => .ok false
  | some (.bool b) => .ok b
  | some _ => .error (.invalidField "includeTransactions" .notBoolean)

/-- The log filter, which asks for nothing in particular if it is not written. -/
def Bag.filter (bag : Bag) : Except Error LogFilter :=
  match present? bag "filter" with
  | none => .ok {}
  | some v =>
    match decode v with
    | .ok f => .ok f
    | .error fault => .error (.invalidField "filter" (.badFilter fault))

/-! ### Commands -/

/-- The command for a block: by `blockTag` if that is written, else by `blockHash` if that is
written, else the given block. -/
def blockCommand (bag : Bag) (default : BlockSelector) : Except Error Command := do
  match ← bag.blockTag? with
  | some block => return .getBlockByNumber block (← bag.includeTransactions)
  | none =>
    match ← optionalField bag "blockHash" "blockHash" toFixed with
    | some hash => return .getBlockByHash hash (← bag.includeTransactions)
    | none => return .getBlockByNumber default (← bag.includeTransactions)

/-- The command of a method with the given parameters, where `default` is the block that is meant if
none is named. -/
def commandOf (bag : Bag) (default : BlockSelector) : Method → Except Error Command
  | .getChainId => .ok .chainId
  | .getBlockNumber => .ok .blockNumber
  | .getGasPrice => .ok .gasPrice
  | .mineBlock => .ok .mine
  | .getBalance => do
    return .getBalance (← bag.required "address" toFixed) (← bag.block default)
  | .getTransactionCount => do
    return .getTransactionCount (← bag.required "address" toFixed) (← bag.block default)
  | .getCode => do
    return .getCode (← bag.required "address" toFixed) (← bag.block default)
  | .getStorageAt => do
    return .getStorageAt (← bag.required "address" toFixed) (← bag.required "position" toQuantity)
      (← bag.block default)
  | .sendTransaction => do
    return .sendRawTransaction (← bag.required "signedTransaction" toData)
  | .call => do
    return .call (← bag.required "transaction" toCallRequest) (← bag.block default)
  | .estimateGas => do
    return .estimateGas (← bag.required "transaction" toCallRequest)
  | .getBlock => blockCommand bag default
  | .getTransaction => do
    return .getTransactionByHash (← bag.required "transactionHash" toFixed)
  | .getTransactionReceipt => do
    return .getTransactionReceipt (← bag.required "transactionHash" toFixed)
  | .getLogs => do
    return .getLogs (← bag.filter)

/-! ### Calls -/

/-- The named parameters of a call: none for `null`. -/
def bagOf (params : Json) : Except Error Bag :=
  match params with
  | .obj members => .ok members
  | .null => .ok []
  | _ => .error (.invalidField "params" .paramsNotObject)

/-- Where a call is answered. -/
inductive Route where
  /-- By the node, as the command of a method. -/
  | command (m : Method) (c : Command)
  /-- By the fallback, as it stands. -/
  | forward (method : String) (params : Json)

/-- Decides where a call with named parameters is answered. -/
def routeBag (method : String) (bag : Bag) (default : BlockSelector) : Except Error Route :=
  match Method.named? Method.reading method with
  | some m => return .command m (← commandOf bag default m)
  | none => .ok (.forward method (.obj bag))

/-- Decides where a call is answered. -/
def route (method : String) (params : Json) (default : BlockSelector) : Except Error Route :=
  match Method.named? Method.plain method with
  | some m => return .command m (← commandOf [] default m)
  | none =>
    if method ∈ Method.bagNames then do
      let bag ← bagOf params
      routeBag method bag default
    else .ok (.forward method params)

end LocalNode.Provider
