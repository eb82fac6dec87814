/-!
The instruction set.

Instructions fall into families whose members differ only in the value they compute: operators on
one, two or three words, queries that push a single word, pushes, duplications and exchanges. The
rest stand alone. Instructions that ask the host for accounts, storage, gas, logs or further calls
are known by name only. A byte outside the table is no instruction.
-/

namespace LocalNode.Machine

/-- Operators on the topmost word. -/
inductive UnaryOp where
  | isZero
  | not
  deriving DecidableEq, Repr

/-- Operators on the two topmost words. -/
inductive BinaryOp where
  | add
  | mul
  | sub
  | div
  | sdiv
  | mod
  | smod
  | exp
  | signExtend
  | lt
  | gt
  | slt
  | sgt
  | eq
  | and
  | or
  | xor
  | byte
  | shl
  | shr
  | sar
  deriving DecidableEq, Repr

/-- Operators on the three topmost words. -/
inductive TernaryOp where
  | addMod
  | mulMod
  deriving DecidableEq, Repr

/-- What can be asked of the machine and its environment: the answer is one word. -/
inductive Query where
  | address
  | origin
  | caller
  | callValue
  | callDataSize
  | codeSize
  | gasPrice
  | returnDataSize
  | coinbase
  | timestamp
  | number
  | prevRandao
  | gasLimit
  | chainId
  | baseFee
  | pc
  | memorySize
  deriving DecidableEq, Repr

/-- What only a host could answer or do. -/
inductive HostOp where
  | balance
  | extCodeSize
  | extCodeCopy
  | extCodeHash
  | blockHash
  | selfBalance
  | sload
  | sstore
  | gas
  | tload
  | tstore
  | log (topics : Fin 5)
  | create
  | call
  | callCode
  | delegateCall
  | create2
  | staticCall
  | selfDestruct
  deriving DecidableEq, Repr

/-- An instruction. The numbers of `push`, `dup` and `swap` are the count of immediate bytes and
the depth of the word that is copied or exchanged, where the topmost word has depth zero. -/
inductive Instr where
  | stop
  | unary (op : UnaryOp)
  | binary (op : BinaryOp)
  | ternary (op : TernaryOp)
  | query (q : Query)
  | keccak256
  | callDataLoad
  | callDataCopy
  | codeCopy
  | returnDataCopy
  | pop
  | mload
  | mstore
  | mstore8
  | mcopy
  | jump
  | jumpIf
  | jumpDest
  | push (width : Fin 33)
  | dup (depth : Fin 16)
  | swap (depth : Fin 16)
  | ret
  | revert
  | invalid
  | host (op : HostOp)
  deriving DecidableEq, Repr

/-- Who carries an instruction out. -/
inductive Kind where
  /-- The machine alone. -/
  | executable
  /-- A host, which this machine does not have. -/
  | hostRequired
  /-- Nobody: the instruction exists to fail. -/
  | abort
  deriving DecidableEq, Repr

namespace Instr

/-! ### The table, a row of sixteen bytes at a time -/

/-- The bytes `0x00` to `0x0b`. -/
def arithmeticRow : Array Instr :=
  #[.stop, .binary .add, .binary .mul, .binary .sub, .binary .div, .binary .sdiv, .binary .mod,
    .binary .smod, .ternary .addMod, .ternary .mulMod, .binary .exp, .binary .signExtend]

/-- The bytes `0x10` to `0x1d`. -/
def comparisonRow : Array Instr :=
  #[.binary .lt, .binary .gt, .binary .slt, .binary .sgt, .binary .eq, .unary .isZero,
    .binary .and, .binary .or, .binary .xor, .unary .not, .binary .byte, .binary .shl,
    .binary .shr, .binary .sar]

/-- The byte `0x20`. -/
def hashRow : Array Instr :=
  #[.keccak256]

/-- The bytes `0x30` to `0x3f`. -/
def callRow : Array Instr :=
  #[.query .address, .host .balance, .query .origin, .query .caller, .query .callValue,
    .callDataLoad, .query .callDataSize, .callDataCopy, .query .codeSize, .codeCopy,
    .query .gasPrice, .host .extCodeSize, .host .extCodeCopy, .query .returnDataSize,
    .returnDataCopy, .host .extCodeHash]

/-- The bytes `0x40` to `0x48`. -/
def blockRow : Array Instr :=
  #[.host .blockHash, .query .coinbase, .query .timestamp, .query .number, .query .prevRandao,
    .query .gasLimit, .query .chainId, .host .selfBalance, .query .baseFee]

/-- The bytes `0x50` to `0x5f`. -/
def flowRow : Array Instr :=
  #[.pop, .mload, .mstore, .mstore8, .host .sload, .host .sstore, .jump, .jumpIf, .query .pc,
    .query .memorySize, .host .gas, .jumpDest, .host .tload, .host .tstore, .mcopy, .push 0]

/-- The bytes `0xa0` to `0xa4`. -/
def logRow : Array Instr :=
  #[.host (.log 0), .host (.log 1), .host (.log 2), .host (.log 3), .host (.log 4)]

/-- The bytes `0xf0` to `0xff`. -/
def systemRow : Array (Option Instr) :=
  #[some (.host .create), some (.host .call), some (.host .callCode), some .ret,
    some (.host .delegateCall), some (.host .create2), none, none, none, none,
    some (.host .staticCall), none, none, some .revert, some .invalid, some (.host .selfDestruct)]

/-- The instruction of a byte, if it has one. -/
def ofByte (b : UInt8) : Option Instr :=
  let column : Fin 16 := Fin.ofNat 16 b.toNat
  match b.toNat / 16 with
  | 0x0 => arithmeticRow[column.val]?
  | 0x1 => comparisonRow[column.val]?
  | 0x2 => hashRow[column.val]?
  | 0x3 => callRow[column.val]?
  | 0x4 => blockRow[column.val]?
  | 0x5 => flowRow[column.val]?
  | 0x6 => some (.push ⟨column.val + 1, by omega⟩)
  | 0x7 => some (.push ⟨column.val + 17, by omega⟩)
  | 0x8 => some (.dup column)
  | 0x9 => some (.swap column)
  | 0xa => logRow[column.val]?
  | 0xf => systemRow[column.val]?.join
  | _ => none

/-! ### What is known of an instruction without running it -/

/-- Who carries the instruction out. -/
def kind : Instr → Kind
  | .host _ => .hostRequired
  | .invalid => .abort
  | _ => .executable

/-- The number of bytes of code that belong to the instruction and follow its byte. -/
def immediateSize : Instr → Nat
  | .push width => width
  | _ => 0

/-- Counting from one, the place of the word that is copied; zero for other instructions. -/
def dupPlace : Instr → Nat
  | .dup depth => depth + 1
  | _ => 0

/-- The depth of the word that is exchanged with the topmost one; zero for other instructions. -/
def swapDepth : Instr → Nat
  | .swap depth => depth + 1
  | _ => 0

end Instr

/-- The number of immediate bytes after a byte of code: none after a byte that is no instruction. -/
def immediateSizeOf (b : UInt8) : Nat :=
  match Instr.ofByte b with
  | some i => i.immediateSize
  | none => 0

/-! ### Names -/

/-- The name of an operator on one word. -/
def UnaryOp.name : UnaryOp → String
  | .isZero => "ISZERO"
  | .not => "NOT"

/-- The name of an operator on two words. -/
def BinaryOp.name : BinaryOp → String
  | .add => "ADD"
  | .mul => "MUL"
  | .sub => "SUB"
  | .div => "DIV"
  | .sdiv => "SDIV"
  | .mod => "MOD"
  | .smod => "SMOD"
  | .exp => "EXP"
  | .signExtend => "SIGNEXTEND"
  | .lt => "LT"
  | .gt => "GT"
  | .slt => "SLT"
  | .sgt => "SGT"
  | .eq => "EQ"
  | .and => "AND"
  | .or => "OR"
  | .xor => "XOR"
  | .byte => "BYTE"
  | .shl => "SHL"
  | .shr => "SHR"
  | .sar => "SAR"

/-- The name of an operator on three words. -/
def TernaryOp.name : TernaryOp → String
  | .addMod => "ADDMOD"
  | .mulMod => "MULMOD"

/-- The name of a query. -/
def Query.name : Query → String
  | .address => "ADDRESS"
  | .origin => "ORIGIN"
  | .caller => "CALLER"
  | .callValue => "CALLVALUE"
  | .callDataSize => "CALLDATASIZE"
  | .codeSize => "CODESIZE"
  | .gasPrice => "GASPRICE"
  | .returnDataSize => "RETURNDATASIZE"
  | .coinbase => "COINBASE"
  | .timestamp => "TIMESTAMP"
  | .number => "NUMBER"
  | .prevRandao => "PREVRANDAO"
  | .gasLimit => "GASLIMIT"
  | .chainId => "CHAINID"
  | .baseFee => "BASEFEE"
  | .pc => "PC"
  | .memorySize => "MSIZE"

/-- The name of a host instruction. -/
def HostOp.name : HostOp → String
  | .balance => "BALANCE"
  | .extCodeSize => "EXTCODESIZE"
  | .extCodeCopy => "EXTCODECOPY"
  | .extCodeHash => "EXTCODEHASH"
  | .blockHash => "BLOCKHASH"
  | .selfBalance => "SELFBALANCE"
  | .sload => "SLOAD"
  | .sstore => "SSTORE"
  | .gas => "GAS"
  | .tload => "TLOAD"
  | .tstore => "TSTORE"
  | .log topics => "LOG" ++ toString topics.val
  | .create => "CREATE"
  | .call => "CALL"
  | .callCode => "CALLCODE"
  | .delegateCall => "DELEGATECALL"
  | .create2 => "CREATE2"
  | .staticCall => "STATICCALL"
  | .selfDestruct => "SELFDESTRUCT"

/-- The name of an instruction. -/
def Instr.name : Instr → String
  | .stop => "STOP"
  | .unary op => op.name
  | .binary op => op.name
  | .ternary op => op.name
  | .query q => q.name
  | .keccak256 => "KECCAK256"
  | .callDataLoad => "CALLDATALOAD"
  | .callDataCopy => "CALLDATACOPY"
  | .codeCopy => "CODECOPY"
  | .returnDataCopy => "RETURNDATACOPY"
  | .pop => "POP"
  | .mload => "MLOAD"
  | .mstore => "MSTORE"
  | .mstore8 => "MSTORE8"
  | .mcopy => "MCOPY"
  | .jump => "JUMP"
  | .jumpIf => "JUMPI"
  | .jumpDest => "JUMPDEST"
  | .push width => "PUSH" ++ toString width.val
  | .dup depth => "DUP" ++ toString (depth.val + 1)
  | .swap depth => "SWAP" ++ toString (depth.val + 1)
  | .ret => "RETURN"
  | .revert => "REVERT"
  | .invalid => "INVALID"
  | .host op => op.name

end LocalNode.Machine
