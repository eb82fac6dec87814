import LocalNode.Ledger.Selector
import LocalNode.Wire.Record

/-!
Logs that transactions leave, and filters for them.
-/

namespace LocalNode

/-- A log entry. -/
structure Log where
  address : Address := .zero
  topics : List Hash := []
  data : Data := .empty
  blockHash : Hash := .zero
  blockNumber : Word := 0
  transactionHash : Hash := .zero
  transactionIndex : Word := 0
  index : Word := 0
  removed : Bool := false
  deriving DecidableEq

/-- What is asked of the topic at one position. -/
inductive TopicFilter where
  /-- Exactly this topic. -/
  | exact (topic : Hash)
  /-- One of these topics, or anything at all if there are none. -/
  | anyOf (topics : List Hash)
  deriving DecidableEq

/-- Which logs are asked for. -/
structure LogFilter where
  fromBlock : Option BlockSelector := none
  toBlock : Option BlockSelector := none
  address : Option Address := none
  /-- A filter for each position, where nothing matches anything. -/
  topics : Option (List (Option TopicFilter)) := none
  blockHash : Option Hash := none
  deriving DecidableEq

/-- The wire form of a log entry. -/
def Log.record : Wire.Record Wire Log where
  name := "LogInfo"
  members :=
    .required Address "address" <|
    .required (List Hash) "topics" <|
    .required Data "data" <|
    .required Hash "blockHash" <|
    .required Word "blockNumber" <|
    .required Hash "transactionHash" <|
    .required Word "transactionIndex" <|
    .required Word "logIndex" <|
    .required Bool "removed" <| .nil
  build :=
    fun (address, topics, data, blockHash, blockNumber, transactionHash, transactionIndex, index,
      removed, ()) =>
    { address, topics, data, blockHash, blockNumber, transactionHash, transactionIndex, index,
      removed }
  values l :=
    (l.address, l.topics, l.data, l.blockHash, l.blockNumber, l.transactionHash,
      l.transactionIndex, l.index, l.removed, ())

instance : Wire Log := Log.record.wire

namespace TopicFilter

/-- Whether the topic that a log has at a position, if any, passes. -/
def matches? (f : TopicFilter) (topic : Option Hash) : Bool :=
  match f with
  | .exact expected => topic == some expected
  | .anyOf topics =>
    topics.isEmpty ||
      match topic with
      | some t => topics.contains t
      | none => false

instance : Wire TopicFilter where
  encode
    | .exact topic => encode topic
    | .anyOf topics => encode topics
  decode v :=
    Wire.firstForm "TopicFilter" v
      [fun v => (decode v).map .exact, fun v => (decode v).map .anyOf]
  schema := .oneOf [Wire.schema Hash, Wire.schema (List Hash)]

end TopicFilter

/-- The wire form of a log filter. -/
def LogFilter.record : Wire.Record Wire LogFilter where
  name := "LogFilter"
  members :=
    .optional BlockSelector "fromBlock" <|
    .optional BlockSelector "toBlock" <|
    .optional Address "address" <|
    .optional (List (Option TopicFilter)) "topics" <|
    .optional Hash "blockHash" <| .nil
  build := fun (fromBlock, toBlock, address, topics, blockHash, ()) =>
    { fromBlock, toBlock, address, topics, blockHash }
  values f := (f.fromBlock, f.toBlock, f.address, f.topics, f.blockHash, ())

instance : Wire LogFilter := LogFilter.record.wire

end LocalNode
