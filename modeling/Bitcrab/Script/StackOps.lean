import Bitcrab.Script.Checker

/-!
# Operations on the main stack (`script/interpreter.rs`)

A stack is a `Vec`: its top is the last element. The arms of the interpreter that only read and
write the main stack are one function here.
-/

namespace Bitcrab

open Outcome

/-- `Stack`. -/
abbrev Stack := List (List UInt8)

/-- `ripemd160` and `sha1`, from the crates of the same names. -/
class LegacyHash where
  ripemd160 : List UInt8 → List.Vector UInt8 20
  sha1 : List UInt8 → List.Vector UInt8 20

/-- `hash160`. -/
def hash160 [Sha2] [LegacyHash] (data : List UInt8) : List.Vector UInt8 20 :=
  LegacyHash.ripemd160 (sha256 data).toList

/-! ### Stack helpers -/

/-- `pop`. -/
def pop (stack : Stack) : Outcome ScriptError (List UInt8 × Stack) := do
  let top ← okOr .invalidStackOperation stack.getLast?
  return (top, stack.dropLast)

/-- `require_depth`. -/
def requireDepth (stack : Stack) (depth : Nat) : Outcome ScriptError Unit :=
  rejectIf (stack.length < depth) .invalidStackOperation

/-- `stack[stack.len() - depth]`. -/
def fromTop (stack : Stack) (depth : Nat) : Outcome ScriptError (List UInt8) := do
  index stack (← sub stack.length depth)

/-- `stack_top`. -/
def stackTop (stack : Stack) (depth : Nat) : Outcome ScriptError (List UInt8) := do
  rejectIf (stack.length < depth) .invalidStackOperation
  fromTop stack depth

/-- `ScriptNum::decode` of the popped top, with the default size limit. -/
def popNum (stack : Stack) (requireMinimal : Bool) : Outcome ScriptError (Int × Stack) := do
  let (top, stack) ← pop stack
  let value ← scriptNumDecode top requireMinimal defaultMaxNumSize
  return (value, stack)

/-- The element a truth value is pushed as. -/
def boolElement (b : Bool) : List UInt8 := if b then [1] else []

/-- `b as i64`. -/
def boolNum (b : Bool) : Int := if b then 1 else 0

/-! ### The operations -/

/-- The results of the unary arm. -/
def evalUnary (op : UnaryOp) (value : Int) : Outcome ScriptError Int :=
  match op with
  | .add1 => i64 (value + 1)
  | .sub1 => i64 (value - 1)
  | .negate => i64 (-value)
  | .abs => i64 |value|
  | .not => .ok (boolNum (value = 0))
  | .notEqual0 => .ok (boolNum (value ≠ 0))

/-- The results of the binary arm. -/
def evalBinary (op : BinaryOp) (a b : Int) : Outcome ScriptError Int :=
  match op with
  | .add => i64 (a + b)
  | .sub => i64 (a - b)
  | .boolAnd => .ok (boolNum (a ≠ 0 ∧ b ≠ 0))
  | .boolOr => .ok (boolNum (a ≠ 0 ∨ b ≠ 0))
  | .numEqual | .numEqualVerify => .ok (boolNum (a = b))
  | .numNotEqual => .ok (boolNum (a ≠ b))
  | .lessThan => .ok (boolNum (a < b))
  | .greaterThan => .ok (boolNum (a > b))
  | .lessThanOrEqual => .ok (boolNum (a ≤ b))
  | .greaterThanOrEqual => .ok (boolNum (a ≥ b))
  | .min => .ok (min a b)
  | .max => .ok (max a b)

section Hash

variable [Sha2] [LegacyHash]

/-- The digests of the hash arm. -/
def evalHash (op : HashOp) (data : List UInt8) : List UInt8 :=
  match op with
  | .ripemd160 => (LegacyHash.ripemd160 data).toList
  | .sha1 => (LegacyHash.sha1 data).toList
  | .sha256 => (sha256 data).toList
  | .hash160 => (hash160 data).toList
  | .hash256 => (hash256 data).toList

/-- One operation on the main stack. -/
def execStackOp (requireMinimal : Bool) (stack : Stack) : StackOp → Outcome ScriptError Stack
  | .pushN value => return stack ++ [scriptNumEncode value]
  | .verify => do
    let (top, stack) ← pop stack
    rejectIf (castToBool top = false) .verify
    return stack
  | .drop2 => do
    requireDepth stack 2
    return stack.dropLast.dropLast
  | .dup2 => do
    requireDepth stack 2
    let a ← fromTop stack 2
    let b ← fromTop stack 1
    return stack ++ [a, b]
  | .dup3 => do
    requireDepth stack 3
    let a ← fromTop stack 3
    let b ← fromTop stack 2
    let c ← fromTop stack 1
    return stack ++ [a, b, c]
  | .over2 => do
    requireDepth stack 4
    let a ← fromTop stack 4
    let b ← fromTop stack 3
    return stack ++ [a, b]
  | .rot2 => do
    requireDepth stack 6
    let len := stack.length
    let (a, stack) ← remove stack (← sub len 6)
    let (b, stack) ← remove stack (← sub len 6)
    return stack ++ [a, b]
  | .swap2 => do
    requireDepth stack 4
    let len := stack.length
    let stack ← Outcome.swap stack (← sub len 4) (← sub len 2)
    Outcome.swap stack (← sub len 3) (← sub len 1)
  | .ifDup => do
    let top ← stackTop stack 1
    return if castToBool top then stack ++ [top] else stack
  | .depth => return stack ++ [scriptNumEncode stack.length]
  | .drop => do
    let (_, stack) ← pop stack
    return stack
  | .dup => do
    let top ← stackTop stack 1
    return stack ++ [top]
  | .nip => do
    requireDepth stack 2
    let (_, stack) ← remove stack (← sub stack.length 2)
    return stack
  | .over => do
    let item ← stackTop stack 2
    return stack ++ [item]
  | .pick roll => do
    requireDepth stack 2
    let (n, stack) ← popNum stack requireMinimal
    rejectIf (n < 0 ∨ n ≥ stack.length) .invalidStackOperation
    let i ← sub (← sub stack.length 1) n.toNat
    if roll then
      let (item, stack) ← remove stack i
      return stack ++ [item]
    else
      let item ← index stack i
      return stack ++ [item]
  | .rot => do
    requireDepth stack 3
    let len := stack.length
    let stack ← Outcome.swap stack (← sub len 3) (← sub len 2)
    Outcome.swap stack (← sub len 2) (← sub len 1)
  | .swap => do
    requireDepth stack 2
    let len := stack.length
    Outcome.swap stack (← sub len 2) (← sub len 1)
  | .tuck => do
    requireDepth stack 2
    let top ← fromTop stack 1
    Outcome.insert stack (← sub stack.length 2) top
  | .size => do
    let top ← stackTop stack 1
    return stack ++ [scriptNumEncode top.length]
  | .equal verify => do
    requireDepth stack 2
    let (b, stack) ← pop stack
    let (a, stack) ← pop stack
    if verify then
      rejectIf (a ≠ b) .equalVerify
      return stack
    else
      return stack ++ [boolElement (a = b)]
  | .unary op => do
    let (value, stack) ← popNum stack requireMinimal
    let result ← evalUnary op value
    return stack ++ [scriptNumEncode result]
  | .binary op => do
    requireDepth stack 2
    let (b, stack) ← popNum stack requireMinimal
    let (a, stack) ← popNum stack requireMinimal
    let result ← evalBinary op a b
    if op = .numEqualVerify then
      rejectIf (result = 0) .numEqualVerify
      return stack
    else
      return stack ++ [scriptNumEncode result]
  | .within => do
    requireDepth stack 3
    let (max, stack) ← popNum stack requireMinimal
    let (min, stack) ← popNum stack requireMinimal
    let (value, stack) ← popNum stack requireMinimal
    return stack ++ [boolElement (min ≤ value ∧ value < max)]
  | .hash op => do
    let (data, stack) ← pop stack
    return stack ++ [evalHash op data]

end Hash

end Bitcrab
