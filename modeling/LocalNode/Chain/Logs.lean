import LocalNode.Chain.State

/-!
Looking for logs.

A filter either names one block by its hash or a range of heights, both ends included, of which each
defaults to the last block. The logs found are sorted by height and by their place in the block;
logs with the same height and place keep the order of their receipts.
-/

namespace LocalNode

namespace LogFilter

/-- Whether a log stands in the block or in the heights `first` to `last` that the filter asks
for. -/
def passesBlock (f : LogFilter) (first last : Nat) (l : Log) : Bool :=
  match f.blockHash with
  | some hash => l.blockHash = hash
  | none =>
    match Word.toUInt64? l.blockNumber with
    | some n => first ≤ n.toNat && n.toNat ≤ last
    | none => false

/-- Whether a log comes from the account that the filter asks for. -/
def passesAddress (f : LogFilter) (l : Log) : Bool :=
  match f.address with
  | some address => l.address = address
  | none => true

/-- Whether topics pass the filters of their positions. Filters may go on where topics end. -/
def topicsPass : List (Option TopicFilter) → List Hash → Bool
  | [], _ => true
  | filter :: filters, topics =>
    (match filter with
      | some filter => filter.matches? topics.head?
      | none => true) && topicsPass filters topics.tail

/-- Whether the topics of a log pass. -/
def passesTopics (f : LogFilter) (l : Log) : Bool :=
  match f.topics with
  | some filters => topicsPass filters l.topics
  | none => true

/-- Whether a log passes a filter with the given heights. -/
def passes (f : LogFilter) (first last : Nat) (l : Log) : Bool :=
  f.passesBlock first last l && f.passesAddress l && f.passesTopics l

end LogFilter

/-- Whether a log comes before another one or has the same height and place. -/
def Log.le (a b : Log) : Bool :=
  a.blockNumber.toNat < b.blockNumber.toNat ||
    (a.blockNumber = b.blockNumber && a.index.toNat ≤ b.index.toNat)

namespace Chain

/-- The height of a given selector, or of the last block. -/
def resolveOrHead (c : Chain) : Option BlockSelector → Except Rpc.ChainError Nat
  | some block => c.resolve block
  | none => .ok c.head

/-- The logs of receipts that pass a filter, sorted. -/
def selectLogs (f : LogFilter) (first last : Nat) (receipts : List Receipt) : List Log :=
  ((receipts.flatMap (·.logs)).filter (f.passes first last)).mergeSort Log.le

/-- The logs that pass a filter. -/
def logs (c : Chain) (f : LogFilter) : Except Rpc.ChainError (List Log) := do
  let first ← c.resolveOrHead f.fromBlock
  let last ← c.resolveOrHead f.toBlock
  return selectLogs f first last c.receipts.values

end Chain

end LocalNode
