import Bitcrab.Script.SighashMessages

/-!
# The signature hash of a transaction (`common/types/transaction.rs`)

`Transaction::signature_hash` clears the scripts of a copy of the transaction, writes the script of
the signed input and serializes the copy. For the hash types that commit to all inputs and outputs
it hashes the same bytes as `legacy_signature_hash`, which never makes a copy.
-/

namespace Bitcrab

open Outcome

/-- The copy of the inputs that `Transaction::signature_hash` serializes. -/
def signedInputs (inputs : List TxIn) (inputIndex : ℕ) (scriptPubkey : ScriptBuf) : List TxIn :=
  (inputs.map fun input => { input with scriptSig := ⟨[]⟩ }).modify inputIndex
    fun input => { input with scriptSig := scriptPubkey }

/-- `Transaction::signature_hash`. For an input that does not exist it spells out the value that
`legacy_signature_hash` calls `SIGHASH_SINGLE_BUG`. -/
def Transaction.signatureHash [Sha2] (tx : Transaction) (inputIndex : ℕ) (scriptPubkey : ScriptBuf)
    (sighashType : UInt32) : Bytes32 :=
  if inputIndex ≥ tx.inputs.length then sighashSingleBug
  else
    hash256 (encode tx.version ++ encodeVarList (signedInputs tx.inputs inputIndex scriptPubkey) ++
      encodeVarList tx.outputs ++ encode tx.lockTime ++ encode sighashType)

section AllCommitted

variable {hashType : UInt32}

/-- The low five bits survive the truncation to a byte. -/
lemma toUInt8_and_eq_iff (hashType : UInt32) {base : UInt32} (hbase : base.toNat < 32) :
    (hashType &&& 0x1f).toUInt8 = base.toUInt8 ↔ hashType &&& 0x1f = base := by
  have hlt : (hashType &&& 0x1f).toNat < 32 := by
    rw [UInt32.toNat_and]
    exact Nat.and_lt_two_pow _ (show 0x1f < 2 ^ 5 by decide)
  rw [← UInt8.toNat_inj, UInt32.toNat_toUInt8, UInt32.toNat_toUInt8, ← UInt32.toNat_inj]
  omega

lemma toUInt8_and_anyonecanpay (h : hashType &&& 0x80 = 0) :
    hashType.toUInt8 &&& sighashAnyonecanpay = 0 := by
  have hand : (hashType &&& 0x80).toUInt8 = hashType.toUInt8 &&& sighashAnyonecanpay :=
    UInt32.toUInt8_and hashType 0x80
  rw [← hand, h]
  rfl

/-- Only the signed input has a script. -/
lemma getElem?_signedInputs (inputs : List TxIn) (inputIndex : ℕ) (scriptPubkey : ScriptBuf)
    (i : ℕ) :
    (signedInputs inputs inputIndex scriptPubkey)[i]? = inputs[i]?.map fun input =>
      { input with scriptSig := if i = inputIndex then scriptPubkey else ⟨[]⟩ } := by
  rw [signedInputs, List.getElem?_modify, List.getElem?_map]
  cases inputs[i]? with
  | none => rfl
  | some input =>
    rw [Option.map_some, Option.map_some, Option.map_eq_map, Option.map_some]
    by_cases hindex : i = inputIndex
    · rw [if_pos hindex.symm, if_pos hindex]
    · rw [if_neg (Ne.symm hindex), if_neg hindex]

/-- The inputs of the copy are those that are written one by one. -/
lemma map_encode_signedInputs {baseType : UInt8} (hnone : baseType ≠ sighashNone)
    (hsingle : baseType ≠ sighashSingle) (inputs : List TxIn) (inputIndex : ℕ)
    (scriptPubkey : ScriptBuf) :
    (signedInputs inputs inputIndex scriptPubkey).map encode =
      inputs.mapIdx (legacyInputBytes inputIndex scriptPubkey.bytes baseType) := by
  have hsequence : ¬ (baseType = sighashNone ∨ baseType = sighashSingle) :=
    not_or.mpr ⟨hnone, hsingle⟩
  apply List.ext_getElem?
  intro i
  rw [List.getElem?_map, getElem?_signedInputs, List.getElem?_mapIdx, Option.map_map]
  congr
  funext input
  have hscript : encodeVarBytes (if i = inputIndex then scriptPubkey.bytes else []) =
      encode (if i = inputIndex then scriptPubkey else ⟨[]⟩) := by
    split_ifs <;> rfl
  have hkept : (if i ≠ inputIndex ∧ (baseType = sighashNone ∨ baseType = sighashSingle) then 0
      else input.sequence) = input.sequence := if_neg fun h => hsequence h.2
  rw [legacyInputBytes, hscript, hkept]
  rfl

lemma encodeVarList_signedInputs {baseType : UInt8} (hnone : baseType ≠ sighashNone)
    (hsingle : baseType ≠ sighashSingle) (inputs : List TxIn) (inputIndex : ℕ)
    (scriptPubkey : ScriptBuf) :
    encodeVarList (signedInputs inputs inputIndex scriptPubkey) =
      encode (VarInt.mk (UInt64.ofNat inputs.length)) ++
        (inputs.mapIdx (legacyInputBytes inputIndex scriptPubkey.bytes baseType)).flatten := by
  rw [encodeVarList, ← map_encode_signedInputs hnone hsingle, List.flatMap_def]
  congr 4
  simp [signedInputs]

/-- Both functions hash the same bytes, or give the same constant. -/
theorem legacySignatureHash_eq_signatureHash [Sha2] (tx : Transaction) (inputIndex : ℕ)
    (script : ScriptBuf) (hnone : hashType &&& 0x1f ≠ 2) (hsingle : hashType &&& 0x1f ≠ 3)
    (hanyone : hashType &&& 0x80 = 0) :
    legacySignatureHash tx inputIndex script.bytes hashType =
      .ok (tx.signatureHash inputIndex script hashType) := by
  have hnone' : (hashType &&& 0x1f).toUInt8 ≠ sighashNone :=
    fun h => hnone ((toUInt8_and_eq_iff hashType (show (2 : UInt32).toNat < 32 by decide)).mp h)
  have hsingle' : (hashType &&& 0x1f).toUInt8 ≠ sighashSingle :=
    fun h => hsingle ((toUInt8_and_eq_iff hashType (show (3 : UInt32).toNat < 32 by decide)).mp h)
  rw [Transaction.signatureHash]
  by_cases hin : inputIndex ≥ tx.inputs.length
  · rw [if_pos hin]
    exact legacySignatureHash_of_outOfRange (.inl hin) _
  · rw [if_neg hin]
    have hrange : ¬ LegacyOutOfRange tx inputIndex hashType :=
      not_or.mpr ⟨hin, fun h => hsingle' h.1⟩
    apply legacySignatureHash_of_inRange hrange
    simp only [legacyMessage, toUInt8_and_anyonecanpay hanyone, ne_eq, not_true_eq_false,
      if_false, List.length_range]
    rw [mapM_legacyInput, Result.ok_bind, legacyOutputs, if_neg hnone', if_neg hsingle',
      encodeVarList_signedInputs hnone' hsingle']
    simp only [← List.append_assoc]
    rfl

end AllCommitted

namespace Sample

/-- A transaction that moves two outputs into one. -/
def mergeTx : Transaction where
  version := 2
  inputs := [⟨⟨Digest.zero, 0⟩, ⟨[0x51]⟩, 0xfffffffe, []⟩, ⟨⟨Digest.zero, 1⟩, ⟨[]⟩, 7, [[0x01]]⟩]
  outputs := [⟨Amount.zero, ⟨[0x51, 0x52]⟩⟩]
  lockTime := 500000

theorem legacySignatureHash_mergeTx :
    legacySignatureHash mergeTx 1 [0x76, 0xa9] 1 = .ok (mergeTx.signatureHash 1 ⟨[0x76, 0xa9]⟩ 1) ∧
      legacySignatureHash mergeTx 2 [] 0x41 = .ok sighashSingleBug :=
  ⟨legacySignatureHash_eq_signatureHash mergeTx 1 ⟨[0x76, 0xa9]⟩ (by decide) (by decide)
    (by decide),
   legacySignatureHash_eq_signatureHash mergeTx 2 ⟨[]⟩ (by decide) (by decide) (by decide)⟩

end Sample

end Bitcrab
