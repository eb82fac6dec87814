import LocalNode.Wire.Validation

/-!
Errors of the node and the codes under which callers see them.
-/

namespace LocalNode.Rpc

/-- Why the chain could not carry out a command. -/
inductive ChainError where
  /-- There is no such block, transaction or receipt. -/
  | notFound (what : String)
  /-- The transaction is refused. -/
  | rejected (reason : String)
  /-- The execution failed. -/
  | execution (reason : String)
  /-- Something else went wrong. -/
  | internal (reason : String)
  deriving DecidableEq, Repr

/-- The wording of a chain error. -/
def ChainError.message : ChainError → String
  | .notFound what => what ++ " not found"
  | .rejected reason => "transaction rejected: " ++ reason
  | .execution reason => "execution error: " ++ reason
  | .internal reason => "internal executor error: " ++ reason

/-- Why a request has no answer. -/
inductive Error where
  /-- There is no method of that name. -/
  | unknownMethod (name : String)
  /-- Parameters or an answer do not conform to their schema. -/
  | validation (v : Validation)
  /-- Parameters conform to their schema and still cannot be read. -/
  | decoding (method message : String)
  /-- The chain could not carry out the command. -/
  | chain (e : ChainError)
  /-- An answer cannot be written. -/
  | encoding (method message : String)
  deriving DecidableEq, Repr

namespace Error

/-- The wording of an error. -/
def message : Error → String
  | .unknownMethod name => "method not found: " ++ name
  | .validation v => "invalid value: " ++ v.message
  | .decoding method message => "cannot decode " ++ method ++ " parameters: " ++ message
  | .chain e => e.message
  | .encoding method message => "cannot encode " ++ method ++ " result: " ++ message

/-- The code of an error. -/
def code : Error → Int
  | .unknownMethod _ => -32601
  | .validation _ | .decoding _ _ => -32602
  | .chain (.notFound _) => -32001
  | .chain (.rejected _) => -32003
  | .chain (.execution _) => 3
  | .chain (.internal _) | .encoding _ _ => -32603

end Error

/-- An error as it stands in a response. -/
structure ErrorObject where
  code : Int
  message : String
  data : Option Json := none

namespace ErrorObject

/-- The code of a request that is not of the expected version. -/
def invalidRequestCode : Int := -32600

/-- A request that is not of the expected version. -/
def invalidRequest (message : String) : ErrorObject :=
  { code := invalidRequestCode, message }

/-- The object of an error. A validation error tells its parts besides. -/
def ofError (e : Error) : ErrorObject where
  code := e.code
  message := e.message
  data :=
    match e with
    | .validation v =>
      some (.obj [("path", .str v.path), ("expected", .str v.expected), ("actual", .str v.actual)])
    | _ => none

/-- The JSON form of an error object. -/
def toJson (e : ErrorObject) : Json :=
  .obj ([("code", .num (.int e.code)), ("message", .str e.message)] ++
    e.data.toList.map fun d => ("data", d))

end ErrorObject

end LocalNode.Rpc
