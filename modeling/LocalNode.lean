import LocalNode.Chain.Executor
import LocalNode.Json.Parser
import LocalNode.Json.Printer
import LocalNode.Machine.Run
import LocalNode.Proofs.Machine.Boundary
import LocalNode.Proofs.Machine.Contents
import LocalNode.Proofs.Machine.Verdict
import LocalNode.Proofs.Rpc.Handler
import LocalNode.Proofs.Codec.ByteStrings
import LocalNode.Proofs.Codec.Quantities
import LocalNode.Provider.Perform
import LocalNode.Rpc.Handler
import LocalNode.Proofs.Provider.Reading
import LocalNode.Proofs.Provider.Values
import LocalNode.Proofs.Provider.Counterparts
import LocalNode.Proofs.Provider.Transactions
import LocalNode.Proofs.Provider.Runs
import LocalNode.Proofs.Provider.Forwarding
import LocalNode.Proofs.Chain.Operations
import LocalNode.Proofs.Machine.Limits
import LocalNode.Proofs.Machine.Noninterference
import LocalNode.Proofs.Machine.Growth
import LocalNode.Proofs.Machine.Failure
import LocalNode.Proofs.Machine.Operators
import LocalNode.Proofs.Machine.Signed
import LocalNode.Proofs.Machine.Sources
import LocalNode.Proofs.Machine.Straight
import LocalNode.Proofs.Chain.Consistency
import LocalNode.Proofs.Chain.Changes
import LocalNode.Proofs.Chain.History
import LocalNode.Proofs.Chain.Queries
import LocalNode.Proofs.Wire.Mismatches
import LocalNode.Proofs.Wire.Descriptions
import LocalNode.Proofs.Chain.Paging
import LocalNode.Proofs.Codec.Order
import LocalNode.Proofs.Machine.Stack
import LocalNode.Proofs.Rpc.Spelling
import LocalNode.Proofs.Machine.Ranges
