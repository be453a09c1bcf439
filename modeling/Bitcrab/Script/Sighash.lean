import Bitcrab.Script.Sig

/-!
# Signature hashes and taproot primitives (`script/sighash.rs`, `script/taproot.rs`)

An `i64` amount is encoded as the eight bytes of the `u64` it was converted from. The elliptic
curve operations of the `secp256k1` crate are a parameter, all of them total.
-/

namespace Bitcrab

open Bytes Outcome

/-! ### Taproot (BIP 341 and BIP 342) -/

/-- `Parity` of the `secp256k1` crate. -/
inductive Parity where
  | even
  | odd
  deriving Repr, DecidableEq

/-- The operations of the `secp256k1` crate that the script engine calls. -/
class Secp256k1 where
  PublicKey : Type
  Signature : Type
  XOnlyPublicKey : Type
  SchnorrSignature : Type
  Scalar : Type
  publicKeyFromSlice : List UInt8 → Option PublicKey
  signatureFromDerLax : List UInt8 → Option Signature
  verifyEcdsa : Bytes32 → Signature → PublicKey → Bool
  xOnlyFromSlice : List UInt8 → Option XOnlyPublicKey
  schnorrFromSlice : List UInt8 → Option SchnorrSignature
  verifySchnorr : SchnorrSignature → Bytes32 → XOnlyPublicKey → Bool
  scalarFromBeBytes : Bytes32 → Option Scalar
  tweakAddCheck : XOnlyPublicKey → XOnlyPublicKey → Parity → Scalar → Bool

/-- `ScriptExecutionData`. -/
structure ScriptExecutionData where
  tapleafHash : Option Bytes32
  annexHash : Option Bytes32
  codeseparatorPos : UInt32
  validationWeightLeft : Int
  deriving DecidableEq

/-- `ScriptExecutionData::new`. -/
def ScriptExecutionData.new : ScriptExecutionData := ⟨none, none, 0xFFFFFFFF, 0⟩

/-- `ControlBlock`. -/
structure ControlBlock where
  leafVersion : UInt8
  outputKeyParity : Parity
  internalKey : Bytes32
  merklePath : List Bytes32

/-- `TAPROOT_CONTROL_BASE_SIZE`. -/
def taprootControlBaseSize : Nat := 33

/-- `TAPROOT_CONTROL_NODE_SIZE`. -/
def taprootControlNodeSize : Nat := 32

/-- `TAPROOT_CONTROL_MAX_SIZE`. -/
def taprootControlMaxSize : Nat := taprootControlBaseSize + taprootControlNodeSize * 128

/-- `TAPROOT_LEAF_MASK`. -/
def taprootLeafMask : UInt8 := 0xfe

/-- The nodes of a merkle path: `chunks_exact` of the bytes after the internal key. -/
def controlNodes (control : List UInt8) (count : Nat) : Outcome ScriptError (List Bytes32) :=
  (List.range count).mapM fun k => do
    let start := taprootControlBaseSize + taprootControlNodeSize * k
    return toBytes32 (← slice control start (start + taprootControlNodeSize))

/-- `parse_control_block`. -/
def parseControlBlock (control : List UInt8) : Outcome ScriptError (Option ControlBlock) := do
  if control.length < taprootControlBaseSize ∨ control.length > taprootControlMaxSize ∨
      (control.length - taprootControlBaseSize) % taprootControlNodeSize ≠ 0 then
    return none
  else
    let first ← index control 0
    let internalKey := toBytes32 (← slice control 1 33)
    let size ← sub control.length taprootControlBaseSize
    let merklePath ← controlNodes control (size / taprootControlNodeSize)
    let parity := if first &&& 1 = 1 then Parity.odd else Parity.even
    return some ⟨first &&& taprootLeafMask, parity, internalKey, merklePath⟩

/-- `write_compact_size`: the bytes it appends. -/
def writeCompactSize (value : UInt64) : List UInt8 :=
  if value < 0xfd then [value.toUInt8]
  else if value ≤ 0xffff then 0xfd :: leBytes 2 value.toNat
  else if value ≤ 0xffffffff then 0xfe :: leBytes 4 value.toNat
  else 0xff :: leBytes 8 value.toNat

section Taproot

variable [Sha2]

/-- `tagged_hash`, for a tag of ASCII characters. -/
def taggedHash (tag : String) (data : List UInt8) : Bytes32 :=
  let tagHash := (sha256 (tag.toList.map fun c => UInt8.ofNat c.toNat)).toList
  sha256 (tagHash ++ tagHash ++ data)

/-- `compute_tapleaf_hash`. -/
def computeTapleafHash (leafVersion : UInt8) (script : List UInt8) : Bytes32 :=
  taggedHash "TapLeaf" (leafVersion :: writeCompactSize (UInt64.ofNat script.length) ++ script)

/-- `compute_taproot_merkle_root`. -/
def computeTaprootMerkleRoot (control : ControlBlock) (tapleafHash : Bytes32) : Bytes32 :=
  control.merklePath.foldl (fun node sibling =>
    taggedHash "TapBranch"
      (if bytesLe node.toList sibling.toList then node.toList ++ sibling.toList
        else sibling.toList ++ node.toList)) tapleafHash

/-- `verify_taproot_commitment`. -/
def verifyTaprootCommitment [Secp256k1] (control : ControlBlock) (program : List UInt8)
    (tapleafHash : Bytes32) : Bool :=
  match Secp256k1.xOnlyFromSlice program, Secp256k1.xOnlyFromSlice control.internalKey.toList with
  | some outputKey, some internalKey =>
    let merkleRoot := computeTaprootMerkleRoot control tapleafHash
    let tweak := taggedHash "TapTweak" (control.internalKey.toList ++ merkleRoot.toList)
    match Secp256k1.scalarFromBeBytes tweak with
    | some tweak => Secp256k1.tweakAddCheck internalKey outputKey control.outputKeyParity tweak
    | none => false
  | _, _ => false

end Taproot

/-- `is_op_success`. -/
def isOpSuccess (opcode : UInt8) : Bool :=
  opcode = 80 ∨ opcode = 98 ∨ (126 ≤ opcode ∧ opcode ≤ 129) ∨ (131 ≤ opcode ∧ opcode ≤ 134) ∨
    (137 ≤ opcode ∧ opcode ≤ 138) ∨ (141 ≤ opcode ∧ opcode ≤ 142) ∨
    (149 ≤ opcode ∧ opcode ≤ 153) ∨ (187 ≤ opcode ∧ opcode ≤ 254)

/-! ### Signature hashes -/

/-- `SIGHASH_SINGLE_BUG`. -/
def sighashSingleBug : Bytes32 := ⟨1 :: List.replicate 31 0, rfl⟩

/-- An output as the signature hashes commit to it. -/
def encodeOutput (output : TxOut) : List UInt8 :=
  encode output.value.sat ++ encodeVarBytes output.scriptPubkey.bytes

section Sighash

variable [Sha2] (tx : Transaction) (inputIndex : Nat)

/-- One input of `legacy_signature_hash`. -/
def legacyInput (scriptCode : List UInt8) (baseType : UInt8) (i : Nat) :
    Outcome ScriptError (List UInt8) := do
  let input ← index tx.inputs i
  let script := if i = inputIndex then scriptCode else []
  let sequence :=
    if i ≠ inputIndex ∧ (baseType = sighashNone ∨ baseType = sighashSingle) then 0
    else input.sequence
  return encode input.previousOutput ++ encodeVarBytes script ++ encode sequence

/-- One output of `legacy_signature_hash` under `SIGHASH_SINGLE`: those before the input's own are
null outputs, of value `-1`. -/
def legacySingleOutput (i : Nat) : Outcome ScriptError (List UInt8) := do
  if i < inputIndex then
    return leBytes 8 (2 ^ 64 - 1) ++ encodeVarBytes []
  else
    return encodeOutput (← index tx.outputs i)

/-- The outputs `legacy_signature_hash` commits to. -/
def legacyOutputs (baseType : UInt8) : Outcome ScriptError (List UInt8) := do
  if baseType = sighashNone then
    return encode (VarInt.mk 0)
  else if baseType = sighashSingle then
    let outputs ← (List.range (inputIndex + 1)).mapM (legacySingleOutput tx inputIndex)
    return encode (VarInt.mk (UInt64.ofNat (inputIndex + 1))) ++ outputs.flatten
  else
    return encode (VarInt.mk (UInt64.ofNat tx.outputs.length)) ++ tx.outputs.flatMap encodeOutput

/-- `legacy_signature_hash`. -/
def legacySignatureHash (scriptCode : List UInt8) (hashType : UInt32) :
    Outcome ScriptError Bytes32 := do
  let baseType := (hashType &&& 0x1f).toUInt8
  let anyoneCanPay := hashType.toUInt8 &&& sighashAnyonecanpay ≠ 0
  if inputIndex ≥ tx.inputs.length then
    return sighashSingleBug
  else if baseType = sighashSingle ∧ inputIndex ≥ tx.outputs.length then
    return sighashSingleBug
  else
    let signedInputs := if anyoneCanPay then [inputIndex] else List.range tx.inputs.length
    let inputs ← signedInputs.mapM (legacyInput tx inputIndex scriptCode baseType)
    let outputs ← legacyOutputs tx inputIndex baseType
    return hash256 (encode tx.version ++ encode (VarInt.mk (UInt64.ofNat signedInputs.length)) ++
      inputs.flatten ++ outputs ++ encode tx.lockTime ++ encode hashType)

/-- `Bip143Cache`. -/
structure Bip143Cache where
  hashPrevouts : Bytes32
  hashSequence : Bytes32
  hashOutputs : Bytes32

/-- `Bip143Cache::new`. -/
def Bip143Cache.new : Bip143Cache where
  hashPrevouts := hash256 (tx.inputs.flatMap fun i => encode i.previousOutput)
  hashSequence := hash256 (tx.inputs.flatMap fun i => encode i.sequence)
  hashOutputs := hash256 (tx.outputs.flatMap encodeOutput)

/-- The outputs `witness_v0_signature_hash` commits to. -/
def witnessV0Outputs (baseType : UInt8) (cache : Bip143Cache) : Outcome ScriptError Bytes32 := do
  if baseType ≠ sighashSingle ∧ baseType ≠ sighashNone then
    return cache.hashOutputs
  else if baseType = sighashSingle ∧ inputIndex < tx.outputs.length then
    return hash256 (encodeOutput (← index tx.outputs inputIndex))
  else
    return List.Vector.replicate 32 0

/-- `witness_v0_signature_hash`. -/
def witnessV0SignatureHash (scriptCode : List UInt8) (amountSat : UInt64) (hashType : UInt32)
    (cache : Bip143Cache) : Outcome ScriptError Bytes32 := do
  let baseType := (hashType &&& 0x1f).toUInt8
  let anyoneCanPay := hashType.toUInt8 &&& sighashAnyonecanpay ≠ 0
  let zero : Bytes32 := List.Vector.replicate 32 0
  let hashPrevouts := if anyoneCanPay then zero else cache.hashPrevouts
  let hashSequence :=
    if anyoneCanPay ∨ baseType = sighashSingle ∨ baseType = sighashNone then zero
    else cache.hashSequence
  let hashOutputs ← witnessV0Outputs tx inputIndex baseType cache
  let input ← index tx.inputs inputIndex
  return hash256 (encode tx.version ++ encode hashPrevouts ++ encode hashSequence ++
    encode input.previousOutput ++ encodeVarBytes scriptCode ++ encode amountSat ++
    encode input.sequence ++ encode hashOutputs ++ encode tx.lockTime ++ encode hashType)

/-- `SIGHASH_DEFAULT`. -/
def sighashDefault : UInt8 := 0

/-- `TaprootCache`. -/
structure TaprootCache where
  shaPrevouts : Bytes32
  shaAmounts : Bytes32
  shaScriptpubkeys : Bytes32
  shaSequences : Bytes32
  shaOutputs : Bytes32

/-- `TaprootCache::new`. -/
def TaprootCache.new (spentOutputs : List TxOut) : TaprootCache where
  shaPrevouts := sha256 (tx.inputs.flatMap fun i => encode i.previousOutput)
  shaAmounts := sha256 (spentOutputs.flatMap fun o => encode o.value.sat)
  shaScriptpubkeys := sha256 (spentOutputs.flatMap fun o => encodeVarBytes o.scriptPubkey.bytes)
  shaSequences := sha256 (tx.inputs.flatMap fun i => encode i.sequence)
  shaOutputs := sha256 (tx.outputs.flatMap encodeOutput)

/-- The part of the taproot message about the input itself. -/
def taprootInput (spentOutputs : List TxOut) (anyoneCanPay : Bool) :
    Outcome ScriptError (List UInt8) := do
  if anyoneCanPay then
    let input ← index tx.inputs inputIndex
    let spent ← index spentOutputs inputIndex
    return encode input.previousOutput ++ encode spent.value.sat ++
      encodeVarBytes spent.scriptPubkey.bytes ++ encode input.sequence
  else
    return leBytes 4 inputIndex

/-- The output `taproot_signature_hash` commits to under `SIGHASH_SINGLE`. -/
def taprootSingleOutput (outputType : UInt8) : Outcome ScriptError (List UInt8) := do
  if outputType = sighashSingle then
    return (sha256 (encodeOutput (← index tx.outputs inputIndex))).toList
  else
    return []

/-- `taproot_signature_hash`. -/
def taprootSignatureHash (spentOutputs : List TxOut) (hashType extFlag : UInt8)
    (execData : ScriptExecutionData) (cache : TaprootCache) :
    Outcome ScriptError (Option Bytes32) := do
  let outputType := if hashType = sighashDefault then sighashAll else hashType &&& 3
  let anyoneCanPay := hashType &&& sighashAnyonecanpay = sighashAnyonecanpay
  if inputIndex ≥ tx.inputs.length ∨ spentOutputs.length ≠ tx.inputs.length then
    return none
  else if outputType = sighashSingle ∧ inputIndex ≥ tx.outputs.length then
    return none
  else
    let prevouts :=
      if anyoneCanPay then []
      else cache.shaPrevouts.toList ++ cache.shaAmounts.toList ++ cache.shaScriptpubkeys.toList ++
        cache.shaSequences.toList
    let outputs := if outputType = sighashAll then cache.shaOutputs.toList else []
    let spendType := extFlag <<< 1 ||| if execData.annexHash.isSome then 1 else 0
    let input ← taprootInput tx inputIndex spentOutputs anyoneCanPay
    let annex := (execData.annexHash.map (·.toList)).getD []
    let single ← taprootSingleOutput tx inputIndex outputType
    let msg := [0x00, hashType] ++ encode tx.version ++ encode tx.lockTime ++ prevouts ++ outputs ++
      [spendType] ++ input ++ annex ++ single
    if extFlag = 1 then
      match execData.tapleafHash with
      | none => return none
      | some tapleafHash =>
        return some (taggedHash "TapSighash"
          (msg ++ tapleafHash.toList ++ [0x00] ++ encode execData.codeseparatorPos))
    else
      return some (taggedHash "TapSighash" msg)

end Sighash

end Bitcrab
