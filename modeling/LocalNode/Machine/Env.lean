import LocalNode.Codec.Bytes

/-!
What a program can learn about the call it runs in.
-/

namespace LocalNode.Machine

/-- The call, the transaction and the block that a program runs in. -/
structure Env where
  /-- The account whose code runs. -/
  address : Address := .zero
  /-- The account that called it. -/
  caller : Address := .zero
  /-- The account that sent the transaction. -/
  origin : Address := .zero
  /-- The value sent with the call. -/
  callValue : Word := 0
  /-- The data sent with the call. -/
  callData : ByteArray := .empty
  /-- The price of gas in the transaction. -/
  gasPrice : Word := 0
  /-- The account that the block pays. -/
  coinbase : Address := .zero
  /-- The height of the block. -/
  number : UInt64 := 0
  /-- The time of the block. -/
  timestamp : UInt64 := 0
  /-- The gas limit of the block. -/
  gasLimit : UInt64 := 30000000
  /-- The randomness of the block. -/
  prevRandao : Hash := .zero
  /-- The chain. -/
  chainId : UInt64 := 1337
  /-- The base fee of the block. -/
  baseFee : Word := 0

end LocalNode.Machine
