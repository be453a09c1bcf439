import Bitcrab.Types.Params

/-!
# Proof of work and difficulty (`consensus/pow.rs`)

The 256-bit arithmetic is done byte by byte, or on 32-bit limbs, as in the source; lists stand for
the arrays, least significant first. Sums and products of `u32` values wrap, as they do in the
release profile, which does not enable overflow checks.
-/

namespace Bitcrab

open Bytes

/-! ### Chain work -/

/-- The carry loop that adds `carry` to a number. -/
def addCarry : List UInt8 → UInt16 → List UInt8
  | [], _ => []
  | b :: bs, carry =>
    let sum := b.toUInt16 + carry
    (sum &&& 0xFF).toUInt8 :: addCarry bs (sum >>> 8)

/-- The loop of `add_chain_work`. -/
def addBytes : List UInt8 → List UInt8 → UInt16 → List UInt8
  | a :: as, b :: bs, carry =>
    let sum := a.toUInt16 + b.toUInt16 + carry
    (sum &&& 0xFF).toUInt8 :: addBytes as bs (sum >>> 8)
  | _, _, _ => []

/-- `add_chain_work`. -/
def addChainWork (a b : Hash256) : Hash256 :=
  ⟨toBytes32 (addBytes a.bytes.toList b.bytes.toList 0)⟩

/-- The loop of `calculate_block_work` that shifts the remainder left by one bit. -/
def shiftLeft1 : List UInt8 → UInt8 → List UInt8
  | [], _ => []
  | b :: bs, c => (b <<< 1 ||| c) :: shiftLeft1 bs (b >>> 7)

/-- The comparison loop of `calculate_block_work`, from the most significant byte. -/
def geBytes : List UInt8 → List UInt8 → Bool
  | r :: rs, d :: ds => if r < d then false else if r > d then true else geBytes rs ds
  | _, _ => true

/-- The subtraction loop of `calculate_block_work`; `borrow` is 0 or 1. -/
def subBytes : List UInt8 → List UInt8 → Nat → List UInt8
  | r :: rs, d :: ds, borrow =>
    if r.toNat < d.toNat + borrow then
      UInt8.ofNat (r.toNat + 256 - d.toNat - borrow) :: subBytes rs ds 1
    else UInt8.ofNat (r.toNat - d.toNat - borrow) :: subBytes rs ds 0
  | _, _, _ => []

/-- One round of the shift-subtract division, for bit `i` of the numerator. -/
def divideBit (numerator denominator : List UInt8) (i : Nat)
    (quotient remainder : List UInt8) : List UInt8 × List UInt8 :=
  let bit := (numerator.getD (i / 8) 0 >>> UInt8.ofNat (i % 8)) &&& 1
  let shifted := shiftLeft1 remainder 0
  let remainder := shifted.set 0 (shifted.getD 0 0 ||| bit)
  if geBytes remainder.reverse denominator.reverse then
    (quotient.set (i / 8) (quotient.getD (i / 8) 0 ||| 1 <<< UInt8.ofNat (i % 8)),
      subBytes remainder denominator 0)
  else (quotient, remainder)

/-- The rounds for bits `i - 1` down to 0. -/
def divideBits (numerator denominator : List UInt8) :
    Nat → List UInt8 → List UInt8 → List UInt8
  | 0, quotient, _ => quotient
  | i + 1, quotient, remainder =>
    let (quotient, remainder) := divideBit numerator denominator i quotient remainder
    divideBits numerator denominator i quotient remainder

/-- `calculate_block_work`. -/
def calculateBlockWork (bits : UInt32) : Hash256 :=
  let target := BlockHeader.bitsToTarget bits
  if target.isZero then Digest.zero
  else
    let numerator := target.bytes.toList.map fun b => ~~~b
    let denominator := addCarry target.bytes.toList 1
    let zeros := List.replicate 32 0
    let quotient := divideBits numerator denominator 256 zeros zeros
    ⟨toBytes32 (addCarry quotient 1)⟩

/-! ### Retargeting -/

/-- The 32-bit limbs of a byte string. -/
def limbs : List UInt8 → List Nat
  | a :: b :: c :: d :: bs => ofLeBytes [a, b, c, d] :: limbs bs
  | _ => []

/-- The multiplication loop of `multiply_and_divide`; its `u128` values do not overflow. -/
def mulLimbs (mul : Nat) : List Nat → Nat → List Nat
  | [], _ => []
  | x :: xs, carry =>
    let val := x * mul + carry
    val % 2 ^ 32 :: mulLimbs mul xs (val / 2 ^ 32)

/-- The division loop of `multiply_and_divide`, on the limbs from the most significant one. -/
def divLimbs (div : Nat) : List Nat → Nat → List Nat
  | [], _ => []
  | x :: xs, remainder =>
    let val := x + remainder * 2 ^ 32
    (val / div) % 2 ^ 32 :: divLimbs div xs (val % div)

/-- `multiply_and_divide`. -/
def multiplyAndDivide (target : Hash256) (mul div : UInt64) : Hash256 :=
  let expanded := limbs target.bytes.toList ++ List.replicate 8 0
  let product := mulLimbs mul.toNat expanded 0
  let quotient := (divLimbs div.toNat product.reverse 0).reverse
  if (quotient.drop 8).any (· != 0) then ⟨List.Vector.replicate 32 0xFF⟩
  else ⟨toBytes32 ((quotient.take 8).flatMap (leBytes 4))⟩

/-- The timespan of `calculate_next_work_required`, clamped to a quarter and to four times the
target timespan. The product wraps, and all three are compared as `i64` values. -/
def clampedTimespan (time firstBlockTime : UInt32) (powTargetTimespan : UInt64) : UInt64 :=
  let actualTimespan := (UInt64.ofNat (time.toNat - firstBlockTime.toNat)).toInt64
  let minTimespan := (powTargetTimespan / 4).toInt64
  let maxTimespan := (powTargetTimespan * 4).toInt64
  let actualTimespan := if actualTimespan < minTimespan then minTimespan else actualTimespan
  let actualTimespan := if actualTimespan > maxTimespan then maxTimespan else actualTimespan
  actualTimespan.toUInt64

/-- `calculate_next_work_required`. -/
def calculateNextWorkRequired (indexPrev : BlockIndex) (firstBlockTime : UInt32)
    (params : ConsensusParams) : UInt32 :=
  if params.powNoRetargeting then indexPrev.header.bits
  else
    let target := multiplyAndDivide (BlockHeader.bitsToTarget indexPrev.header.bits)
      (clampedTimespan indexPrev.header.time firstBlockTime params.powTargetTimespan)
      params.powTargetTimespan
    let target := if target.gt params.powLimit then params.powLimit else target
    BlockHeader.targetToBits target

/-- `BlockIndexProvider`: the block index at a height. -/
abbrev BlockIndexProvider := UInt32 → Option BlockIndex

/-- `get_next_work_required`. -/
def getNextWorkRequired (indexPrev : BlockIndex) (header : BlockHeader)
    (params : ConsensusParams) (provider : BlockIndexProvider) : UInt32 :=
  if params.powNoRetargeting then indexPrev.header.bits
  else if params.fPowAllowMinDifficultyBlocks then
    if header.time > indexPrev.header.time + params.powTargetSpacing.toUInt32 * 2 then
      BlockHeader.targetToBits params.powLimit
    else indexPrev.header.bits
  else
    let nextHeight := indexPrev.height + 1
    let interval := (params.powTargetTimespan / params.powTargetSpacing).toUInt32
    if nextHeight % interval ≠ 0 then indexPrev.header.bits
    else
      let firstHeight := UInt32.ofNat (indexPrev.height.toNat - (interval - 1).toNat)
      match provider firstHeight with
      | none => indexPrev.header.bits
      | some indexFirst => calculateNextWorkRequired indexPrev indexFirst.header.time params

end Bitcrab
