import Bitcrab.Script.ParseSafety

/-!
# Signature checks do not panic

A checker for an input of a transaction indexes its inputs and its outputs, and the outputs it
spends. All the indices are the one of the input, or are counted up to a length.
-/

namespace Bitcrab

open Outcome

/-- No answer of the checker is a panic, unless `P`. -/
structure SignatureChecker.Safe (P : Prop) (checker : SignatureChecker) : Prop where
  ecdsa : ∀ sig pubkey scriptCode sigVersion,
    Holds P (checker.checkEcdsaSignature sig pubkey scriptCode sigVersion) fun _ => True
  schnorr : ∀ sig pubkey sigVersion execData,
    Holds P (checker.checkSchnorrSignature sig pubkey sigVersion execData) fun _ => True
  lockTime : ∀ lockTime, Holds P (checker.checkLockTime lockTime) fun _ => True
  sequence : ∀ sequence, Holds P (checker.checkSequence sequence) fun _ => True

section Sighash

variable [Sha2] {P : Prop} {tx : Transaction} {inputIndex : Nat}

omit [Sha2] in
lemma holds_legacyInput (scriptCode : List UInt8) (baseType : UInt8) {i : Nat}
    (hi : i < tx.inputs.length) :
    Holds P (legacyInput tx inputIndex scriptCode baseType i) fun _ => True := by
  rw [legacyInput, index_of_lt hi]
  trivial

omit [Sha2] in
lemma holds_legacyOutputs {baseType : UInt8}
    (h : baseType = sighashSingle → inputIndex < tx.outputs.length) :
    Holds P (legacyOutputs tx inputIndex baseType) fun _ => True := by
  unfold legacyOutputs
  split_ifs with _ hsingle
  · trivial
  · rw [holds_bind]
    refine (holds_mapM _ fun i hi => ?_).mono fun _ _ => trivial
    have hle := List.mem_range.mp hi
    have hlt := h hsingle
    unfold legacySingleOutput
    split_ifs
    · trivial
    · rw [index_of_lt (by omega)]
      trivial
  · trivial

lemma holds_legacySignatureHash (scriptCode : List UInt8) (hashType : UInt32) :
    Holds P (legacySignatureHash tx inputIndex scriptCode hashType) fun _ => True := by
  unfold legacySignatureHash
  dsimp only
  split_ifs with hin hsingle hacp
  · trivial
  · trivial
  · rw [holds_bind]
    refine (holds_mapM _ fun i hi => holds_legacyInput _ _ ?_).mono fun _ _ => ?_
    · rw [List.mem_singleton.mp hi]
      exact not_le.mp hin
    · rw [holds_bind]
      exact (holds_legacyOutputs fun hs => not_le.mp fun hle => hsingle ⟨hs, hle⟩).mono
        fun _ _ => trivial
  · rw [holds_bind]
    refine (holds_mapM _ fun i hi => holds_legacyInput _ _ (List.mem_range.mp hi)).mono
      fun _ _ => ?_
    rw [holds_bind]
    exact (holds_legacyOutputs fun hs => not_le.mp fun hle => hsingle ⟨hs, hle⟩).mono
      fun _ _ => trivial

lemma holds_witnessV0Outputs (baseType : UInt8) (cache : Bip143Cache) :
    Holds P (witnessV0Outputs tx inputIndex baseType cache) fun _ => True := by
  unfold witnessV0Outputs
  split_ifs with _ hsingle
  · trivial
  · rw [index_of_lt hsingle.2]
    trivial
  · trivial

lemma holds_witnessV0SignatureHash (h : inputIndex < tx.inputs.length) (scriptCode : List UInt8)
    (amountSat : UInt64) (hashType : UInt32) (cache : Bip143Cache) :
    Holds P (witnessV0SignatureHash tx inputIndex scriptCode amountSat hashType cache)
      fun _ => True := by
  simp only [witnessV0SignatureHash, holds_bind]
  refine (holds_witnessV0Outputs _ cache).mono fun _ _ => ?_
  rw [index_of_lt h]
  trivial

omit [Sha2] in
lemma holds_taprootInput {spentOutputs : List TxOut} (h : inputIndex < tx.inputs.length)
    (hspent : spentOutputs.length = tx.inputs.length) (anyoneCanPay : Bool) :
    Holds P (taprootInput tx inputIndex spentOutputs anyoneCanPay) fun _ => True := by
  unfold taprootInput
  split_ifs
  · rw [index_of_lt h, Result.ok_bind, index_of_lt (by omega)]
    trivial
  · trivial

lemma holds_taprootSingleOutput {outputType : UInt8}
    (h : outputType = sighashSingle → inputIndex < tx.outputs.length) :
    Holds P (taprootSingleOutput tx inputIndex outputType) fun _ => True := by
  unfold taprootSingleOutput
  split_ifs with hsingle
  · rw [index_of_lt (h hsingle)]
    trivial
  · trivial

lemma holds_taprootSignatureHash (spentOutputs : List TxOut) (hashType extFlag : UInt8)
    (execData : ScriptExecutionData) (cache : TaprootCache) :
    Holds P (taprootSignatureHash tx inputIndex spentOutputs hashType extFlag execData cache)
      fun _ => True := by
  simp only [taprootSignatureHash, holds_ite (Q := fun _ => True), holds_bind]
  refine ⟨fun _ => trivial, fun hin => ⟨fun _ => trivial, fun hsingle => ?_⟩⟩
  simp only [not_or, not_le, not_not, ge_iff_le] at hin
  refine (holds_taprootInput hin.1 hin.2 _).mono fun _ _ => ?_
  refine (holds_taprootSingleOutput fun hs => not_le.mp fun hle => hsingle ⟨hs, hle⟩).mono
    fun _ _ => ?_
  refine ⟨fun _ => ?_, fun _ => trivial⟩
  split <;> trivial

end Sighash

namespace TransactionSignatureChecker

variable {P : Prop} {c : TransactionSignatureChecker}

lemma holds_checkLockTime (h : c.inputIndex < c.tx.inputs.length) (lockTime : Int) :
    Holds P (c.checkLockTime lockTime) fun _ => True := by
  simp only [checkLockTime, holds_ite, holds_bind]
  refine ⟨fun _ => trivial, fun _ => ⟨fun _ => trivial, fun _ => ?_⟩⟩
  rw [index_of_lt h]
  trivial

lemma holds_checkSequence (h : c.inputIndex < c.tx.inputs.length) (sequence : Int) :
    Holds P (c.checkSequence sequence) fun _ => True := by
  rw [checkSequence, index_of_lt h, Result.ok_bind]
  simp only [holds_ite, holds_pure, implies_true, and_self]

lemma holds_splitSchnorr (sig : List UInt8) : Holds P (splitSchnorr sig) fun _ => True := by
  unfold splitSchnorr
  split_ifs with _ hlen
  · trivial
  · simp only [holds_bind]
    rw [index_of_lt (by omega), holds_ok, holds_rejectIf]
    intro _
    rw [slice_of_le (by omega) (by omega)]
    trivial
  · trivial

variable [Sha2] [Secp256k1]

lemma holds_checkEcdsaSignature (h : c.inputIndex < c.tx.inputs.length)
    (sig pubkey scriptCode : List UInt8) (sigVersion : SigVersion) :
    Holds P (c.checkEcdsaSignature sig pubkey scriptCode sigVersion) fun _ => True := by
  unfold checkEcdsaSignature
  split
  · trivial
  · dsimp only
    split_ifs
    · trivial
    · split
      · cases sigVersion with
        | base =>
          simp only [holds_bind]
          exact (holds_legacySignatureHash scriptCode _).mono fun _ _ => trivial
        | witnessV0 =>
          simp only [holds_bind]
          exact (holds_witnessV0SignatureHash h scriptCode _ _ _).mono fun _ _ => trivial
        | taproot => trivial
        | tapscript => trivial
      · trivial

lemma holds_checkSchnorrSignature (sig pubkey : List UInt8) (sigVersion : SigVersion)
    (execData : ScriptExecutionData) :
    Holds P (c.checkSchnorrSignature sig pubkey sigVersion execData) fun _ => True := by
  simp only [checkSchnorrSignature, holds_bind]
  refine (holds_splitSchnorr sig).mono fun r _ => ?_
  have hflag : Holds P (schnorrExtFlag sigVersion) fun _ => True := by
    cases sigVersion <;> trivial
  refine hflag.mono fun extFlag _ => ?_
  simp only [holds_okOr, holds_rejectIf]
  intro key _ signature _
  exact (holds_taprootSignatureHash _ _ _ _ _).mono fun _ _ _ _ _ => trivial

/-- The checker of an input of a transaction never panics. -/
lemma safe_toChecker (h : c.inputIndex < c.tx.inputs.length) : c.toChecker.Safe P :=
  ⟨fun sig pubkey scriptCode sigVersion =>
      holds_checkEcdsaSignature h sig pubkey scriptCode sigVersion,
    fun sig pubkey sigVersion execData =>
      holds_checkSchnorrSignature sig pubkey sigVersion execData,
    fun lockTime => holds_checkLockTime h lockTime, fun sequence => holds_checkSequence h sequence⟩

end TransactionSignatureChecker

end Bitcrab
