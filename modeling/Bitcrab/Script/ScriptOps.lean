import Bitcrab.Lib.Outcome
import Bitcrab.Script.Opcode

/-!
# Script parsing and numbers (`script/script_ops.rs`, `script/num.rs`)

The functions are given with the operations that can panic. `Instructions::next` is called only
while there are bytes left, and each call moves forward, so the list of what the iterator yields
has at most one item for each byte of the script; running out of that many steps counts as a panic.
-/

namespace Bitcrab

open Bytes Outcome

/-! ### Instructions -/

/-- `Instruction`. -/
structure Instruction where
  offset : Nat
  opcode : UInt8
  data : List UInt8
  next : Nat
  deriving Repr, DecidableEq

namespace Instructions

/-- The length of a push and the offset of its payload, read at the byte after the opcode. -/
def pushLength (script : List UInt8) (opcode : UInt8) (cursor : Nat) :
    Outcome ScriptError (Nat × Nat) := do
  if opcode < 0x4c then
    return (opcode.toNat, cursor)
  else
    let sizeLen := if opcode = 0x4c then 1 else if opcode = 0x4d then 2 else 4
    let left ← sub script.length cursor
    rejectIf (left < sizeLen) .badOpcode
    let bytes ← slice script cursor (cursor + sizeLen)
    return (ofLeBytes bytes, cursor + sizeLen)

/-- The payload of an instruction: its length and its offset. -/
def payload (script : List UInt8) (opcode : UInt8) (cursor : Nat) :
    Outcome ScriptError (Nat × Nat) := do
  if opcode ≤ Opcode.opPushdata4 then
    let (len, cursor) ← pushLength script opcode cursor
    let left ← sub script.length cursor
    rejectIf (left < len) .badOpcode
    return (len, cursor)
  else
    return (0, cursor)

/-- `Instructions::next` at a position inside the script. -/
def next (script : List UInt8) (pos : Nat) : Outcome ScriptError Instruction := do
  let opcode ← index script pos
  let (len, cursor) ← payload script opcode (pos + 1)
  let data ← slice script cursor (cursor + len)
  return ⟨pos, opcode, data, cursor + len⟩

end Instructions

/-- What the iterator yields from a position on. It ends after an error, which moves the position
to the end of the script. -/
def instructionsFrom (script : List UInt8) : Nat → Nat → List (Outcome ScriptError Instruction)
  | 0, pos => if pos ≥ script.length then [] else [.error .panic]
  | fuel + 1, pos =>
    if pos ≥ script.length then []
    else
      match Instructions.next script pos with
      | .ok i => .ok i :: instructionsFrom script fuel i.next
      | .error e => [.error e]

/-- `Instructions::new`. -/
def instructions (script : List UInt8) : List (Outcome ScriptError Instruction) :=
  instructionsFrom script script.length 0

/-! ### Structural predicates -/

/-- The loop of `is_push_only`. -/
def allPushes : List (Outcome ScriptError Instruction) → Outcome ScriptError Bool
  | [] => .ok true
  | .ok i :: items => if Opcode.isPush i.opcode then allPushes items else .ok false
  | .error (.error _) :: _ => .ok false
  | .error .panic :: _ => .error .panic

/-- `is_push_only`. -/
def isPushOnly (script : List UInt8) : Outcome ScriptError Bool := allPushes (instructions script)

/-- `is_pay_to_script_hash`. -/
def isPayToScriptHash (script : List UInt8) : Outcome ScriptError Bool := do
  if script.length = 23 then
    return (← index script 0) = 0xa9 && (← index script 1) = 0x14 && (← index script 22) = 0x87
  else
    return false

/-- The loop of `contains_codeseparator`. -/
def anyCodeseparator : List (Outcome ScriptError Instruction) → Outcome ScriptError Bool
  | [] => .ok false
  | .ok i :: items => if i.opcode = Opcode.opCodeseparator then .ok true else anyCodeseparator items
  | .error (.error _) :: items => anyCodeseparator items
  | .error .panic :: _ => .error .panic

/-- `contains_codeseparator`. -/
def containsCodeseparator (script : List UInt8) : Outcome ScriptError Bool :=
  anyCodeseparator (instructions script)

/-- The state of the loop of `find_and_delete`. -/
structure FindState where
  result : List UInt8
  found : Nat
  lastKept : Nat
  pos : Nat

/-- The loop of `find_and_delete`; every round moves `pos` forward. -/
def findAndDeleteLoop (script push : List UInt8) :
    Nat → FindState → Outcome ScriptError FindState
  | 0, s => if s.pos + push.length ≤ script.length then .error .panic else .ok s
  | fuel + 1, s =>
    if s.pos + push.length ≤ script.length then do
      let candidate ← slice script s.pos (s.pos + push.length)
      if candidate = push then
        let kept ← slice script s.lastKept s.pos
        let pos := s.pos + push.length
        findAndDeleteLoop script push fuel ⟨s.result ++ kept, s.found + 1, pos, pos⟩
      else
        let rest ← slice script s.pos script.length
        if rest.length = 0 then
          return s
        else
          match Instructions.next rest 0 with
          | .ok i => findAndDeleteLoop script push fuel { s with pos := s.pos + i.next }
          | .error (.error _) => return s
          | .error .panic => .error .panic
    else .ok s

/-- `find_and_delete`. -/
def findAndDelete (script push : List UInt8) : Outcome ScriptError (List UInt8 × Nat) := do
  if push.length = 0 ∨ script.length < push.length then
    return (script, 0)
  else
    let s ← findAndDeleteLoop script push (script.length + 1) ⟨[], 0, 0, 0⟩
    let rest ← slice script s.lastKept script.length
    return (s.result ++ rest, s.found)

/-- `check_minimal_push`. The sum `OP_1 + data[0] - 1` stays below 256. -/
def checkMinimalPush (data : List UInt8) (op : UInt8) : Outcome ScriptError Bool := do
  if data.isEmpty then
    return op = 0x00
  else
    let first ← index data 0
    if data.length = 1 ∧ 1 ≤ first ∧ first ≤ 16 then
      return op = 0x51 + first - 1
    else if data.length = 1 ∧ first = 0x81 then
      return op = 0x4f
    else if data.length ≤ 75 then
      return op.toNat = data.length
    else if data.length ≤ 255 then
      return op = 0x4c
    else if data.length ≤ 65535 then
      return op = 0x4d
    else
      return true

/-! ### Numbers -/

/-- `DEFAULT_MAX_NUM_SIZE`. -/
def defaultMaxNumSize : Nat := 4

/-- `is_minimally_encoded`. -/
def isMinimallyEncoded (data : List UInt8) : Outcome ScriptError Bool :=
  match data.getLast? with
  | none => .ok true
  | some last =>
    if last &&& 0x7f = 0 then
      if data.length > 1 then do
        let below ← index data (← sub data.length 2)
        return below &&& 0x80 ≠ 0
      else .ok false
    else .ok true

/-- `x << n` on 64 bits, which panics when the shift is too long. -/
def shl64 (x n : Nat) : Outcome ScriptError Nat :=
  if n < 64 then .ok (x <<< n % 2 ^ 64) else .error .panic

/-- An `i64` from its 64 bits. -/
def i64OfBits (n : Nat) : Int := if n < 2 ^ 63 then n else n - 2 ^ 64

/-- The loop of `decode_unchecked`, from byte `i` on; the result as its 64 bits. -/
def decodeBits : Nat → Nat → List UInt8 → Outcome ScriptError Nat
  | _, result, [] => .ok result
  | i, result, byte :: bytes => do
    let shifted ← shl64 byte.toNat (8 * i)
    decodeBits (i + 1) (result ||| shifted) bytes

/-- `decode_unchecked`. -/
def decodeUnchecked (data : List UInt8) : Outcome ScriptError Int :=
  match data.getLast? with
  | none => .ok 0
  | some last => do
    let result ← decodeBits 0 0 data
    if last &&& 0x80 ≠ 0 then
      let sign ← shl64 0x80 (8 * (← sub data.length 1))
      i64 (-i64OfBits (result &&& (2 ^ 64 - 1 - sign)))
    else
      return i64OfBits result

/-- `ScriptNum::decode`. -/
def scriptNumDecode (data : List UInt8) (requireMinimal : Bool) (maxSize : Nat) :
    Outcome ScriptError Int := do
  rejectIf (data.length > maxSize) .unknownError
  rejectUnless requireMinimal (isMinimallyEncoded data) .minimalData
  decodeUnchecked data

/-- `cast_to_bool`. -/
def castToBool : List UInt8 → Bool
  | [] => false
  | [byte] => byte ≠ 0 && byte ≠ 0x80
  | byte :: bytes => if byte ≠ 0 then true else castToBool bytes

end Bitcrab
