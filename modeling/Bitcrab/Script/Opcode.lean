import Bitcrab.Script.Basic

/-!
# Opcodes (`script/opcode.rs`)

An opcode is a byte. What the interpreter does with a byte above `OP_PUSHDATA4` is given by the
operation it stands for; every byte without one is a bad opcode.
-/

namespace Bitcrab

/-- The opcodes of one arm of the interpreter that take a number from the stack. -/
inductive UnaryOp where
  | add1
  | sub1
  | negate
  | abs
  | not
  | notEqual0
  deriving Repr, DecidableEq

/-- The opcodes of one arm of the interpreter that take two numbers from the stack. -/
inductive BinaryOp where
  | add
  | sub
  | boolAnd
  | boolOr
  | numEqual
  | numEqualVerify
  | numNotEqual
  | lessThan
  | greaterThan
  | lessThanOrEqual
  | greaterThanOrEqual
  | min
  | max
  deriving Repr, DecidableEq

/-- The opcodes that hash the top of the stack. -/
inductive HashOp where
  | ripemd160
  | sha1
  | sha256
  | hash160
  | hash256
  deriving Repr, DecidableEq

/-- The operations on the main stack alone. A pair of opcodes that share an arm of the interpreter
is one constructor. -/
inductive StackOp where
  /-- `OP_1NEGATE`, `OP_1` to `OP_16`. -/
  | pushN (value : Int)
  | verify
  | drop2
  | dup2
  | dup3
  | over2
  | rot2
  | swap2
  | ifDup
  | depth
  | drop
  | dup
  | nip
  | over
  /-- `OP_PICK`, `OP_ROLL`. -/
  | pick (roll : Bool)
  | rot
  | swap
  | tuck
  | size
  /-- `OP_EQUAL`, `OP_EQUALVERIFY`. -/
  | equal (verify : Bool)
  | unary (op : UnaryOp)
  | binary (op : BinaryOp)
  | within
  | hash (op : HashOp)
  deriving Repr, DecidableEq

/-- The operations of the interpreter. -/
inductive Op where
  | stack (op : StackOp)
  | nop
  | checkLockTimeVerify
  | checkSequenceVerify
  /-- `OP_NOP1`, `OP_NOP4` to `OP_NOP10`. -/
  | upgradableNop
  /-- `OP_IF`, `OP_NOTIF`. -/
  | ifOp (negated : Bool)
  | elseOp
  | endif
  | returnOp
  | toAltStack
  | fromAltStack
  | codeSeparator
  /-- `OP_CHECKSIG`, `OP_CHECKSIGVERIFY`. -/
  | checkSig (verify : Bool)
  | checkSigAdd
  /-- `OP_CHECKMULTISIG`, `OP_CHECKMULTISIGVERIFY`. -/
  | checkMultisig (verify : Bool)
  | bad
  deriving Repr, DecidableEq

namespace Opcode

/-- `OP_PUSHDATA4`, the last opcode that carries data. -/
def opPushdata4 : UInt8 := 0x4e

/-- `Opcode::is_push`: up to `OP_16`. -/
def isPush (opcode : UInt8) : Bool := opcode ≤ 0x60

/-- `Opcode::counts_towards_op_limit`. -/
def countsTowardsOpLimit (opcode : UInt8) : Bool := opcode > 0x60

/-- `Opcode::is_disabled`. -/
def isDisabled (opcode : UInt8) : Bool :=
  opcode ∈ [0x7e, 0x7f, 0x80, 0x81, 0x83, 0x84, 0x85, 0x86, 0x8d, 0x8e, 0x95, 0x96, 0x97, 0x98,
    0x99]

/-- `OP_IF` to `OP_ENDIF`, which are looked at in a branch that is not taken, too. -/
def isConditional (opcode : UInt8) : Bool := 0x63 ≤ opcode ∧ opcode ≤ 0x68

/-- `OP_CODESEPARATOR`. -/
def opCodeseparator : UInt8 := 0xab

/-- The arm of the interpreter that an opcode above `OP_PUSHDATA4` selects. -/
def toOp (opcode : UInt8) : Op :=
  if 0x51 ≤ opcode ∧ opcode ≤ 0x60 then .stack (.pushN (opcode.toNat - 0x50))
  else if 0xb3 ≤ opcode ∧ opcode ≤ 0xb9 then .upgradableNop
  else
    match opcode.toNat with
    | 0x4f => .stack (.pushN (-1))
    | 0x61 => .nop
    | 0x63 => .ifOp false
    | 0x64 => .ifOp true
    | 0x67 => .elseOp
    | 0x68 => .endif
    | 0x69 => .stack .verify
    | 0x6a => .returnOp
    | 0x6b => .toAltStack
    | 0x6c => .fromAltStack
    | 0x6d => .stack .drop2
    | 0x6e => .stack .dup2
    | 0x6f => .stack .dup3
    | 0x70 => .stack .over2
    | 0x71 => .stack .rot2
    | 0x72 => .stack .swap2
    | 0x73 => .stack .ifDup
    | 0x74 => .stack .depth
    | 0x75 => .stack .drop
    | 0x76 => .stack .dup
    | 0x77 => .stack .nip
    | 0x78 => .stack .over
    | 0x79 => .stack (.pick false)
    | 0x7a => .stack (.pick true)
    | 0x7b => .stack .rot
    | 0x7c => .stack .swap
    | 0x7d => .stack .tuck
    | 0x82 => .stack .size
    | 0x87 => .stack (.equal false)
    | 0x88 => .stack (.equal true)
    | 0x8b => .stack (.unary .add1)
    | 0x8c => .stack (.unary .sub1)
    | 0x8f => .stack (.unary .negate)
    | 0x90 => .stack (.unary .abs)
    | 0x91 => .stack (.unary .not)
    | 0x92 => .stack (.unary .notEqual0)
    | 0x93 => .stack (.binary .add)
    | 0x94 => .stack (.binary .sub)
    | 0x9a => .stack (.binary .boolAnd)
    | 0x9b => .stack (.binary .boolOr)
    | 0x9c => .stack (.binary .numEqual)
    | 0x9d => .stack (.binary .numEqualVerify)
    | 0x9e => .stack (.binary .numNotEqual)
    | 0x9f => .stack (.binary .lessThan)
    | 0xa0 => .stack (.binary .greaterThan)
    | 0xa1 => .stack (.binary .lessThanOrEqual)
    | 0xa2 => .stack (.binary .greaterThanOrEqual)
    | 0xa3 => .stack (.binary .min)
    | 0xa4 => .stack (.binary .max)
    | 0xa5 => .stack .within
    | 0xa6 => .stack (.hash .ripemd160)
    | 0xa7 => .stack (.hash .sha1)
    | 0xa8 => .stack (.hash .sha256)
    | 0xa9 => .stack (.hash .hash160)
    | 0xaa => .stack (.hash .hash256)
    | 0xab => .codeSeparator
    | 0xac => .checkSig false
    | 0xad => .checkSig true
    | 0xae => .checkMultisig false
    | 0xaf => .checkMultisig true
    | 0xb0 => .upgradableNop
    | 0xb1 => .checkLockTimeVerify
    | 0xb2 => .checkSequenceVerify
    | 0xba => .checkSigAdd
    | _ => .bad

end Opcode

end Bitcrab
