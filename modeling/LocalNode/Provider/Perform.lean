import LocalNode.Provider.Route
import LocalNode.Rpc.Executor

/-!
The provider: answers calls by a chain, and by a fallback what the chain has no command for.
-/

namespace LocalNode.Provider

/-- How a provider presents itself, and the block it means where a call names none. -/
structure Config where
  name : String := "devchain"
  chainId : UInt64 := 1337
  defaultBlockTag : BlockTag := .latest
  deriving DecidableEq, Repr

/-- The JSON form of a configuration. Whatever is left out has its default value. -/
def Config.record : Wire.Record Codec Config where
  name := "ProviderConfig"
  members :=
    .coded String (.withDefault "name" "devchain") <|
    .coded UInt64 (.withDefault "chainId" 1337) <|
    .coded BlockTag (.withDefault "defaultBlockTag" .latest) <| .nil
  build := fun (name, chainId, defaultBlockTag, ()) => { name, chainId, defaultBlockTag }
  values c := (c.name, c.chainId, c.defaultBlockTag, ())

instance : Codec Config := Config.record.codec

/-- The block that is meant where a call names none. -/
def Config.defaultBlock (c : Config) : BlockSelector :=
  .tag c.defaultBlockTag

/-- The network of a provider. -/
structure Network where
  name : String
  chainId : UInt64
  deriving DecidableEq, Repr

/-- The JSON form of a network. -/
def Network.record : Wire.Record Codec Network where
  name := "Network"
  members := .coded String (.required "name") <| .coded UInt64 (.required "chainId") <| .nil
  build := fun (name, chainId, ()) => { name, chainId }
  values n := (n.name, n.chainId, ())

instance : Codec Network := Network.record.codec

/-- The network that a configuration names. -/
def Config.network (c : Config) : Network :=
  ⟨c.name, c.chainId⟩

/-- What answers the calls that the provider has no command for: given a method, its parameters and
a state of type `τ`, it gives an answer and goes to a new state. -/
abbrev Fallback (τ : Type) := String → Json → τ → Except Error Json × τ

/-- The fallback that knows no method. -/
def unsupported {τ : Type} : Fallback τ :=
  fun method _ t => (.error (.notImplemented method), t)

/-- Carries out a command on a chain. Answers are always compared with their schema. -/
def runCommand {σ : Type} (chain : Rpc.Executor σ) (c : Rpc.Command) (s : σ) :
    Except Error Json × σ :=
  match c.run chain true s with
  | (.ok v, s) => (.ok v, s)
  | (.error e, s) => (.error (.rpc e), s)

/-- Answers a call. -/
def perform {σ τ : Type} (chain : Rpc.Executor σ) (fallback : Fallback τ) (config : Config)
    (method : String) (params : Json) (s : σ) (t : τ) : Except Error Json × σ × τ :=
  match route method params config.defaultBlock with
  | .error e => (.error e, s, t)
  | .ok (.command _ c) =>
    let (answer, s) := runCommand chain c s
    (answer, s, t)
  | .ok (.forward method params) =>
    let (answer, t) := fallback method params t
    (answer, s, t)

/-- Adds a block without transactions. -/
def mineBlock {σ : Type} (chain : Rpc.Executor σ) (s : σ) : Except Error Json × σ :=
  runCommand chain .mine s

end LocalNode.Provider
