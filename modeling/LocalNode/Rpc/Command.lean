import LocalNode.Rpc.Error
import LocalNode.Rpc.Method

/-!
Commands: methods together with the values of their parameters.
-/

namespace LocalNode.Rpc

/-- A request to the chain that has been understood. -/
inductive Command where
  | clientVersion
  | netVersion
  | chainId
  | gasPrice
  | blockNumber
  | getBalance (address : Address) (block : BlockSelector)
  | getTransactionCount (address : Address) (block : BlockSelector)
  | getCode (address : Address) (block : BlockSelector)
  | getStorageAt (address : Address) (position : Word) (block : BlockSelector)
  | sendRawTransaction (data : Data)
  | call (request : CallRequest) (block : BlockSelector)
  | estimateGas (request : CallRequest)
  | getBlockByNumber (block : BlockSelector) (full : Bool)
  | getBlockByHash (hash : Hash) (full : Bool)
  | getTransactionByHash (hash : Hash)
  | getTransactionReceipt (hash : Hash)
  | getLogs (filter : LogFilter)
  | mine
  deriving DecidableEq

namespace Command

/-- The method of a command. -/
@[reducible]
def method : Command → Method
  | .clientVersion => .clientVersion
  | .netVersion => .netVersion
  | .chainId => .chainId
  | .gasPrice => .gasPrice
  | .blockNumber => .blockNumber
  | .getBalance _ _ => .getBalance
  | .getTransactionCount _ _ => .getTransactionCount
  | .getCode _ _ => .getCode
  | .getStorageAt _ _ _ => .getStorageAt
  | .sendRawTransaction _ => .sendRawTransaction
  | .call _ _ => .call
  | .estimateGas _ => .estimateGas
  | .getBlockByNumber _ _ => .getBlockByNumber
  | .getBlockByHash _ _ => .getBlockByHash
  | .getTransactionByHash _ => .getTransactionByHash
  | .getTransactionReceipt _ => .getTransactionReceipt
  | .getLogs _ => .getLogs
  | .mine => .mine

/-- The values of the parameters of a command. -/
def args : (c : Command) → c.method.Args
  | .clientVersion => ()
  | .netVersion => ()
  | .chainId => ()
  | .gasPrice => ()
  | .blockNumber => ()
  | .getBalance address block => (address, block, ())
  | .getTransactionCount address block => (address, block, ())
  | .getCode address block => (address, block, ())
  | .getStorageAt address position block => (address, position, block, ())
  | .sendRawTransaction data => (data, ())
  | .call request block => (request, block, ())
  | .estimateGas request => (request, ())
  | .getBlockByNumber block full => (block, full, ())
  | .getBlockByHash hash full => (hash, full, ())
  | .getTransactionByHash hash => (hash, ())
  | .getTransactionReceipt hash => (hash, ())
  | .getLogs filter => (filter, ())
  | .mine => ()

/-- The command of a method and the values of its parameters. -/
def ofArgs : (m : Method) → m.Args → Command
  | .clientVersion, () => .clientVersion
  | .netVersion, () => .netVersion
  | .chainId, () => .chainId
  | .gasPrice, () => .gasPrice
  | .blockNumber, () => .blockNumber
  | .getBalance, (address, block, ()) => .getBalance address block
  | .getTransactionCount, (address, block, ()) => .getTransactionCount address block
  | .getCode, (address, block, ()) => .getCode address block
  | .getStorageAt, (address, position, block, ()) => .getStorageAt address position block
  | .sendRawTransaction, (data, ()) => .sendRawTransaction data
  | .call, (request, block, ()) => .call request block
  | .estimateGas, (request, ()) => .estimateGas request
  | .getBlockByNumber, (block, full, ()) => .getBlockByNumber block full
  | .getBlockByHash, (hash, full, ()) => .getBlockByHash hash full
  | .getTransactionByHash, (hash, ()) => .getTransactionByHash hash
  | .getTransactionReceipt, (hash, ()) => .getTransactionReceipt hash
  | .getLogs, (filter, ()) => .getLogs filter
  | .mine, () => .mine

/-- The answers of a command. -/
abbrev Answer (c : Command) : Type := c.method.Answer

/-- The parameters of a command as an object of named values. -/
def namedParams (c : Command) : Json :=
  .obj (c.method.signature.params.encode c.args)

/-- The parameters of a command as they stand in a request. -/
def params (c : Command) : Json :=
  .arr (c.method.signature.params.encodeAll c.args)

/-- Understands a request. The parameters are checked before they are read. -/
def ofRequest (name : String) (params : Json) : Except Error Command :=
  match Method.ofName? name with
  | none => .error (.unknownMethod name)
  | some m =>
    match m.validateParams params with
    | .error v => .error (.validation v)
    | .ok () =>
      match m.decodeArgs params with
      | .error fault => .error (.decoding m.name fault.message)
      | .ok args => .ok (ofArgs m args)

end Command

end LocalNode.Rpc
