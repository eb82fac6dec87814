import LocalNode.Rpc.Executor
import LocalNode.Wire.Union

/-!
Requests and responses, and the handler between them.

Every response carries the identifier of its request, and either a result or an error. A request of
the wrong version, for an unknown method or with parameters that do not conform never reaches the
chain.
-/

namespace LocalNode.Rpc

/-- The identifier of a request. -/
inductive RequestId where
  | number (n : UInt64)
  | text (s : String)
  | null
  deriving DecidableEq, Repr

instance : Codec RequestId where
  encode
    | .number n => encode n
    | .text s => encode s
    | .null => .null
  decode v :=
    Wire.firstForm "JsonRpcId" v
      [fun v => (decode v).map .number, fun v => (decode v).map .text,
        fun
        | .null => .ok .null
        | v => .error (.wrongType v .unit)]

/-- The version that requests must have. -/
def version : String := "2.0"

/-- A request. -/
structure Request where
  version : String
  id : RequestId
  method : String
  params : Json

namespace Request

/-- A request of the right version. -/
def new (id : RequestId) (method : String) (params : Json) : Request :=
  ⟨Rpc.version, id, method, params⟩

/-- The JSON form of a request. -/
def record : Wire.Record Codec Request where
  name := "JsonRpcRequest"
  members :=
    .coded String (.required "jsonrpc") <|
    .coded RequestId (.withDefault "id" .null) <|
    .coded String (.required "method") <|
    .coded Json (.withDefault "params" .null) <| .nil
  build := fun (version, id, method, params, ()) => { version, id, method, params }
  values r := (r.version, r.id, r.method, r.params, ())

instance : Codec Request := record.codec

end Request

/-- A response: the identifier of the request, and what came of it. -/
structure Response where
  id : RequestId
  outcome : Except ErrorObject Json

namespace Response

/-- The response of an outcome. -/
def ofOutcome (id : RequestId) : Except Error Json → Response
  | .ok v => ⟨id, .ok v⟩
  | .error e => ⟨id, .error (.ofError e)⟩

/-- The JSON form of a response. -/
def toJson (r : Response) : Json :=
  let outcome :=
    match r.outcome with
    | .ok v => ("result", v)
    | .error e => ("error", e.toJson)
  .obj [("jsonrpc", .str version), ("id", encode r.id), outcome]

end Response

/-- How requests are handled. -/
structure HandlerConfig where
  /-- Whether answers are compared with their schema. -/
  validateResults : Bool := true
  deriving DecidableEq, Repr

/-- The JSON form of a handler configuration. -/
def HandlerConfig.record : Wire.Record Codec HandlerConfig where
  name := "RpcHandlerConfig"
  members := .coded Bool (.withDefault "validate_results" true) .nil
  build := fun (validateResults, ()) => { validateResults }
  values c := (c.validateResults, ())

instance : Codec HandlerConfig := HandlerConfig.record.codec

/-- Handles a request on a chain. -/
def handle {σ : Type} (chain : Executor σ) (config : HandlerConfig) (r : Request) (s : σ) :
    Response × σ :=
  if r.version ≠ version then
    (⟨r.id, .error (.invalidRequest "invalid JSON-RPC version")⟩, s)
  else
    match Command.ofRequest r.method r.params with
    | .error e => (.ofOutcome r.id (.error e), s)
    | .ok c =>
      let (outcome, s) := c.run chain config.validateResults s
      (.ofOutcome r.id outcome, s)

end LocalNode.Rpc
