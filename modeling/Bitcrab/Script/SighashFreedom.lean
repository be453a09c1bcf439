import Bitcrab.Script.SighashMessages

/-!
# What the hash types leave free

Two transactions that agree on what a hash type selects have the same digests, whatever the rest of
them is: the midstates that are computed from a whole transaction do not get into a digest that
frees a part of it.
-/

namespace Bitcrab

open Bytes Outcome

/-! ### What is selected -/

/-- What a signature commits to of an input: the coin it spends and its sequence number. -/
def TxIn.commitment (input : TxIn) : OutPoint × UInt32 := (input.previousOutput, input.sequence)

/-- The two transactions agree, for the input at `i`, on everything that is selected: by
`outputType` among the outputs, by `allInputs` and `allSequences` among the other inputs and their
sequence numbers. -/
structure AgreeOnSelected (outputType : UInt8) (allInputs allSequences : Prop) (i : Nat)
    (tx tx' : Transaction) : Prop where
  version : tx.version = tx'.version
  lockTime : tx.lockTime = tx'.lockTime
  input : tx.inputs[i]?.map TxIn.commitment = tx'.inputs[i]?.map TxIn.commitment
  outpoints : allInputs →
    tx.inputs.map (·.previousOutput) = tx'.inputs.map (·.previousOutput)
  sequences : allInputs → allSequences →
    tx.inputs.map (·.sequence) = tx'.inputs.map (·.sequence)
  single : outputType = sighashSingle → tx.outputs[i]? = tx'.outputs[i]?
  outputs : outputType ≠ sighashNone → outputType ≠ sighashSingle → tx.outputs = tx'.outputs

/-- The outputs that a hash type selects, in the legacy scheme and in that of BIP 143. -/
def baseType (hashType : UInt32) : UInt8 := (hashType &&& 0x1f).toUInt8

/-- A hash type selects every input, in the legacy scheme and in that of BIP 143. -/
def SelectsInputs (hashType : UInt32) : Prop := hashType.toUInt8 &&& sighashAnyonecanpay = 0

instance : DecidablePred SelectsInputs := fun _ => inferInstanceAs (Decidable (_ = _))

/-- A hash type selects the sequence numbers of the other inputs, where it selects these. -/
def SelectsSequences (hashType : UInt32) : Prop :=
  baseType hashType ≠ sighashNone ∧ baseType hashType ≠ sighashSingle

/-- Agreement in the legacy scheme and in that of BIP 143. -/
def AgreeFor (hashType : UInt32) : Nat → Transaction → Transaction → Prop :=
  AgreeOnSelected (baseType hashType) (SelectsInputs hashType) (SelectsSequences hashType)

/-- Agreement in the scheme of BIP 341, on the coins that are spent too. -/
structure AgreeForTaproot (hashType : UInt8) (i : Nat) (tx tx' : Transaction)
    (spentOutputs spentOutputs' : List TxOut) : Prop where
  selected : AgreeOnSelected (taprootOutputType hashType)
    (hashType &&& sighashAnyonecanpay ≠ sighashAnyonecanpay) True i tx tx'
  coin : spentOutputs[i]? = spentOutputs'[i]?
  coins : hashType &&& sighashAnyonecanpay ≠ sighashAnyonecanpay → spentOutputs = spentOutputs'
  length : spentOutputs.length = tx.inputs.length
  length' : spentOutputs'.length = tx'.inputs.length

namespace AgreeOnSelected

variable {outputType : UInt8} {allInputs allSequences : Prop} {i : Nat} {tx tx' : Transaction}

/-- The input is there in both or in neither. -/
lemma length_le_iff (h : AgreeOnSelected outputType allInputs allSequences i tx tx') :
    i ≥ tx.inputs.length ↔ i ≥ tx'.inputs.length := by
  have hinput : tx.inputs[i]? = none ↔ tx'.inputs[i]? = none := by
    rw [← Option.map_eq_none_iff, h.input, Option.map_eq_none_iff]
  rwa [List.getElem?_eq_none_iff, List.getElem?_eq_none_iff] at hinput

/-- Under `SIGHASH_SINGLE`, the output is there in both or in neither. -/
lemma length_outputs_le_iff (h : AgreeOnSelected outputType allInputs allSequences i tx tx')
    (hsingle : outputType = sighashSingle) :
    i ≥ tx.outputs.length ↔ i ≥ tx'.outputs.length := by
  rw [ge_iff_le, ge_iff_le, ← List.getElem?_eq_none_iff, ← List.getElem?_eq_none_iff,
    h.single hsingle]

lemma flatMap_outpoints (h : AgreeOnSelected outputType allInputs allSequences i tx tx')
    (hall : allInputs) :
    (tx.inputs.flatMap fun input => encode input.previousOutput) =
      tx'.inputs.flatMap fun input => encode input.previousOutput := by
  have hflat := congrArg (List.flatMap (encode (α := OutPoint))) (h.outpoints hall)
  simpa only [List.flatMap_map] using hflat

lemma flatMap_sequences (h : AgreeOnSelected outputType allInputs allSequences i tx tx')
    (hall : allInputs) (hsequences : allSequences) :
    (tx.inputs.flatMap fun input => encode input.sequence) =
      tx'.inputs.flatMap fun input => encode input.sequence := by
  have hflat := congrArg (List.flatMap (encode (α := UInt32))) (h.sequences hall hsequences)
  simpa only [List.flatMap_map] using hflat

/-- The input is absent from both, or it has the same commitment in both. -/
lemma input_cases (h : AgreeOnSelected outputType allInputs allSequences i tx tx') :
    (tx.inputs[i]? = none ∧ tx'.inputs[i]? = none) ∨
      ∃ input input', tx.inputs[i]? = some input ∧ tx'.inputs[i]? = some input' ∧
        input.previousOutput = input'.previousOutput ∧ input.sequence = input'.sequence := by
  have hinput := h.input
  cases hget : tx.inputs[i]? with
  | none =>
    rw [hget, Option.map_none] at hinput
    exact .inl ⟨rfl, Option.map_eq_none_iff.mp hinput.symm⟩
  | some input =>
    rw [hget, Option.map_some] at hinput
    obtain ⟨input', hget', heq⟩ := Option.map_eq_some_iff.mp hinput.symm
    simp only [TxIn.commitment, Prod.mk.injEq] at heq
    exact .inr ⟨input, input', rfl, hget', heq.1.symm, heq.2.symm⟩

end AgreeOnSelected

/-! ### Legacy -/

section Legacy

variable {hashType : UInt32} {i : Nat} {tx tx' : Transaction}

lemma legacyInput_of_agree (h : AgreeFor hashType i tx tx') (scriptCode : List UInt8) :
    legacyInput tx i scriptCode (baseType hashType) i =
      legacyInput tx' i scriptCode (baseType hashType) i := by
  unfold legacyInput index
  rcases h.input_cases with ⟨hnone, hnone'⟩ | ⟨input, input', hget, hget', hprev, hseq⟩
  · rw [hnone, hnone']
  · rw [hget, hget']
    simp only [unwrap, Result.ok_bind, hprev, hseq]

/-- Without `ANYONECANPAY`, all inputs are the same in the message. -/
lemma mapIdx_legacyInputBytes_of_agree (h : AgreeFor hashType i tx tx')
    (hall : SelectsInputs hashType) (scriptCode : List UInt8) :
    tx.inputs.mapIdx (legacyInputBytes i scriptCode (baseType hashType)) =
      tx'.inputs.mapIdx (legacyInputBytes i scriptCode (baseType hashType)) := by
  have hprevs (k : Nat) := congrArg (·[k]?) (h.outpoints hall)
  simp only [List.getElem?_map] at hprevs
  refine List.ext_getElem? fun k => ?_
  rw [List.getElem?_mapIdx, List.getElem?_mapIdx]
  cases hget : tx.inputs[k]? with
  | none =>
    have hprev := hprevs k
    rw [hget, Option.map_none] at hprev
    rw [Option.map_eq_none_iff.mp hprev.symm]
  | some input =>
    have hprev := hprevs k
    rw [hget, Option.map_some] at hprev
    obtain ⟨input', hget', hprev⟩ := Option.map_eq_some_iff.mp hprev.symm
    rw [hget', Option.map_some, Option.map_some, Option.some.injEq]
    -- the sequence number is selected, blanked, or that of the signed input
    have hseq : (if k ≠ i ∧ (baseType hashType = sighashNone ∨ baseType hashType = sighashSingle)
          then 0 else input.sequence) =
        if k ≠ i ∧ (baseType hashType = sighashNone ∨ baseType hashType = sighashSingle)
          then 0 else input'.sequence := by
      by_cases hki : k = i
      · subst hki
        rcases h.input_cases with ⟨hnone, _⟩ | ⟨_, _, hsome, hsome', _, hseq⟩
        · cases hget.symm.trans hnone
        · cases hget.symm.trans hsome
          cases hget'.symm.trans hsome'
          simp [hseq]
      · by_cases hfree : baseType hashType = sighashNone ∨ baseType hashType = sighashSingle
        · rw [if_pos ⟨hki, hfree⟩, if_pos ⟨hki, hfree⟩]
        · have hseqs := congrArg (·[k]?) (h.sequences hall (not_or.mp hfree))
          simp only [List.getElem?_map, hget, hget', Option.map_some, Option.some.injEq] at hseqs
          rw [hseqs]
    simp only [legacyInputBytes, hprev, hseq]

lemma mapM_congr {ε α β : Type} {f g : α → Outcome ε β} {l : List α}
    (h : ∀ a ∈ l, f a = g a) : l.mapM f = l.mapM g := by
  induction l with
  | nil => rfl
  | cons a l ih =>
    rw [List.mapM_cons, List.mapM_cons, h a List.mem_cons_self,
      ih fun b hb => h b (List.mem_cons_of_mem a hb)]

lemma legacySingleOutput_of_agree (h : AgreeFor hashType i tx tx')
    (hsingle : baseType hashType = sighashSingle) {k : Nat} (hk : k ∈ List.range (i + 1)) :
    legacySingleOutput tx i k = legacySingleOutput tx' i k := by
  unfold legacySingleOutput
  by_cases hki : k < i
  · rw [if_pos hki, if_pos hki]
  · have hle := List.mem_range.mp hk
    obtain rfl : k = i := by omega
    rw [if_neg hki, if_neg hki, index, index, h.single hsingle]

lemma legacyOutputs_of_agree (h : AgreeFor hashType i tx tx') :
    legacyOutputs tx i (baseType hashType) = legacyOutputs tx' i (baseType hashType) := by
  unfold legacyOutputs
  by_cases hnone : baseType hashType = sighashNone
  · rw [if_pos hnone, if_pos hnone]
  by_cases hsingle : baseType hashType = sighashSingle
  · have hmapM : (List.range (i + 1)).mapM (legacySingleOutput tx i) =
        (List.range (i + 1)).mapM (legacySingleOutput tx' i) :=
      mapM_congr fun k hk => legacySingleOutput_of_agree h hsingle hk
    rw [if_neg hnone, if_neg hnone, if_pos hsingle, if_pos hsingle, hmapM]
  · rw [if_neg hnone, if_neg hnone, if_neg hsingle, if_neg hsingle, h.outputs hnone hsingle]

lemma legacyMessage_of_agree (h : AgreeFor hashType i tx tx') (scriptCode : List UInt8) :
    legacyMessage tx i scriptCode hashType = legacyMessage tx' i scriptCode hashType := by
  have houtputs := legacyOutputs_of_agree h
  unfold legacyMessage
  dsimp only
  by_cases hall : hashType.toUInt8 &&& sighashAnyonecanpay = 0
  · have hlen := congrArg List.length (h.outpoints hall)
    rw [List.length_map, List.length_map] at hlen
    have hinputs := mapIdx_legacyInputBytes_of_agree h hall scriptCode
    rw [if_neg (not_not.mpr hall), if_neg (not_not.mpr hall)]
    have hmapM : (List.range tx.inputs.length).mapM (legacyInput tx i scriptCode
        (baseType hashType)) = .ok (tx.inputs.mapIdx (legacyInputBytes i scriptCode
        (baseType hashType))) := mapM_legacyInput scriptCode _
    have hmapM' : (List.range tx'.inputs.length).mapM (legacyInput tx' i scriptCode
        (baseType hashType)) = .ok (tx'.inputs.mapIdx (legacyInputBytes i scriptCode
        (baseType hashType))) := mapM_legacyInput scriptCode _
    unfold baseType at hmapM hmapM' hinputs houtputs
    rw [hmapM, hmapM', hinputs, houtputs, h.version, h.lockTime, hlen]
  · have hinput := legacyInput_of_agree h scriptCode
    rw [if_pos hall, if_pos hall]
    unfold baseType at hinput houtputs
    simp only [List.mapM_cons, List.mapM_nil, hinput, houtputs, h.version, h.lockTime]

/-- The message is there in both transactions or in neither. -/
lemma legacyOutOfRange_iff_of_agree (h : AgreeFor hashType i tx tx') :
    LegacyOutOfRange tx i hashType ↔ LegacyOutOfRange tx' i hashType := by
  refine or_congr h.length_le_iff (and_congr_right fun hsingle => ?_)
  exact h.length_outputs_le_iff hsingle

lemma legacySignatureHash_of_agree [Sha2] (h : AgreeFor hashType i tx tx')
    (scriptCode : List UInt8) :
    legacySignatureHash tx i scriptCode hashType =
      legacySignatureHash tx' i scriptCode hashType := by
  by_cases hout : LegacyOutOfRange tx i hashType
  · rw [legacySignatureHash_of_outOfRange hout,
      legacySignatureHash_of_outOfRange ((legacyOutOfRange_iff_of_agree h).mp hout)]
  · obtain ⟨before, after, hmessage⟩ := exists_legacyMessage hout
    have hout' : ¬ LegacyOutOfRange tx' i hashType := by
      rwa [← legacyOutOfRange_iff_of_agree h]
    have hmessage' := (legacyMessage_of_agree h scriptCode).symm.trans (hmessage scriptCode)
    rw [legacySignatureHash_of_inRange hout (hmessage scriptCode),
      legacySignatureHash_of_inRange hout' hmessage']

end Legacy

/-! ### BIP 143 -/

section WitnessV0

variable [Sha2] {hashType : UInt32} {i : Nat} {tx tx' : Transaction}

/-- The output hash of an input under `SIGHASH_SINGLE`, and the midstate under `SIGHASH_ALL`. -/
lemma witnessV0Outputs_of_agree (h : AgreeFor hashType i tx tx') :
    witnessV0Outputs tx i (baseType hashType) (Bip143Cache.new tx) =
      witnessV0Outputs tx' i (baseType hashType) (Bip143Cache.new tx') := by
  unfold witnessV0Outputs
  by_cases hall : baseType hashType ≠ sighashSingle ∧ baseType hashType ≠ sighashNone
  · rw [if_pos hall, if_pos hall, Bip143Cache.new, Bip143Cache.new, h.outputs hall.2 hall.1]
  by_cases hsingle : baseType hashType = sighashSingle
  · have hlen : i < tx.outputs.length ↔ i < tx'.outputs.length := by
      have hle := h.length_outputs_le_iff hsingle
      omega
    simp only [if_neg hall, hlen, index, h.single hsingle]
  · rw [if_neg hall, if_neg hall, if_neg fun hs => hsingle hs.1, if_neg fun hs => hsingle hs.1]

lemma hashPrevouts_of_agree (h : AgreeFor hashType i tx tx') :
    (if hashType.toUInt8 &&& sighashAnyonecanpay ≠ 0 then List.Vector.replicate 32 0
      else (Bip143Cache.new tx).hashPrevouts) =
      if hashType.toUInt8 &&& sighashAnyonecanpay ≠ 0 then List.Vector.replicate 32 0
      else (Bip143Cache.new tx').hashPrevouts := by
  by_cases hall : hashType.toUInt8 &&& sighashAnyonecanpay = 0
  · simp only [Bip143Cache.new, h.flatMap_outpoints hall]
  · rw [if_pos hall, if_pos hall]

lemma hashSequence_of_agree (h : AgreeFor hashType i tx tx') :
    (if hashType.toUInt8 &&& sighashAnyonecanpay ≠ 0 ∨ baseType hashType = sighashSingle ∨
        baseType hashType = sighashNone then List.Vector.replicate 32 0
      else (Bip143Cache.new tx).hashSequence) =
      if hashType.toUInt8 &&& sighashAnyonecanpay ≠ 0 ∨ baseType hashType = sighashSingle ∨
        baseType hashType = sighashNone then List.Vector.replicate 32 0
      else (Bip143Cache.new tx').hashSequence := by
  by_cases hfree : hashType.toUInt8 &&& sighashAnyonecanpay ≠ 0 ∨
      baseType hashType = sighashSingle ∨ baseType hashType = sighashNone
  · rw [if_pos hfree, if_pos hfree]
  · simp only [not_or, not_not] at hfree
    obtain ⟨hall, hsingle, hnone⟩ := hfree
    simp only [Bip143Cache.new, h.flatMap_sequences hall ⟨hnone, hsingle⟩]

lemma witnessV0SignatureHash_of_agree (h : AgreeFor hashType i tx tx') (scriptCode : List UInt8)
    (amountSat : UInt64) :
    witnessV0SignatureHash tx i scriptCode amountSat hashType (Bip143Cache.new tx) =
      witnessV0SignatureHash tx' i scriptCode amountSat hashType (Bip143Cache.new tx') := by
  have hprevouts := hashPrevouts_of_agree h
  have hsequence := hashSequence_of_agree h
  have houtputs := witnessV0Outputs_of_agree h
  unfold baseType at hsequence houtputs
  unfold witnessV0SignatureHash
  dsimp only
  rw [hprevouts, hsequence, houtputs, index, index]
  rcases h.input_cases with ⟨hnone, hnone'⟩ | ⟨input, input', hget, hget', hprev, hseq⟩
  · rw [hnone, hnone']
    rfl
  · rw [hget, hget', unwrap, unwrap]
    simp only [Result.ok_bind, hprev, hseq, h.version, h.lockTime]

end WitnessV0

/-! ### BIP 341 -/

section Taproot

variable [Sha2] {hashType : UInt8} {i : Nat} {tx tx' : Transaction}
  {spentOutputs spentOutputs' : List TxOut}

omit [Sha2] in
lemma taprootInRange_iff_of_agree
    (h : AgreeForTaproot hashType i tx tx' spentOutputs spentOutputs') :
    TaprootInRange tx i spentOutputs hashType ↔ TaprootInRange tx' i spentOutputs' hashType := by
  have hin := h.selected.length_le_iff
  constructor
  · intro hrange
    refine ⟨by have := hrange.input; omega, h.length', fun hsingle => ?_⟩
    have hout := h.selected.length_outputs_le_iff hsingle
    have hlt := hrange.single hsingle
    omega
  · intro hrange
    refine ⟨by have := hrange.input; omega, h.length, fun hsingle => ?_⟩
    have hout := h.selected.length_outputs_le_iff hsingle
    have hlt := hrange.single hsingle
    omega

omit [Sha2] in
/-- With `ANYONECANPAY`, the input and its coin are all there is of the inputs. -/
lemma taprootInput_of_agree (h : AgreeForTaproot hashType i tx tx' spentOutputs spentOutputs')
    (anyoneCanPay : Bool) :
    taprootInput tx i spentOutputs anyoneCanPay =
      taprootInput tx' i spentOutputs' anyoneCanPay := by
  unfold taprootInput index
  rw [h.coin]
  rcases h.selected.input_cases with ⟨hnone, hnone'⟩ | ⟨input, input', hget, hget', hprev, hseq⟩
  · rw [hnone, hnone']
  · rw [hget, hget', unwrap, unwrap]
    simp only [Result.ok_bind, hprev, hseq]

lemma taprootHead_of_agree (h : AgreeForTaproot hashType i tx tx' spentOutputs spentOutputs') :
    taprootHead tx hashType (TaprootCache.new tx spentOutputs) =
      taprootHead tx' hashType (TaprootCache.new tx' spentOutputs') := by
  unfold taprootHead
  rw [h.selected.version, h.selected.lockTime]
  by_cases hacp : hashType &&& sighashAnyonecanpay = sighashAnyonecanpay
  · rw [if_pos hacp, if_pos hacp]
  · rw [if_neg hacp, if_neg hacp]
    simp only [TaprootCache.new, h.selected.flatMap_outpoints hacp,
      h.selected.flatMap_sequences hacp trivial, h.coins hacp]

lemma taprootSignatureHash_of_agree
    (h : AgreeForTaproot hashType i tx tx' spentOutputs spentOutputs') (extFlag : UInt8)
    (execData : ScriptExecutionData) :
    taprootSignatureHash tx i spentOutputs hashType extFlag execData
        (TaprootCache.new tx spentOutputs) =
      taprootSignatureHash tx' i spentOutputs' hashType extFlag execData
        (TaprootCache.new tx' spentOutputs') := by
  by_cases hrange : TaprootInRange tx i spentOutputs hashType
  · have hrange' := (taprootInRange_iff_of_agree h).mp hrange
    have hsingle : taprootSingleOutput tx i (taprootOutputType hashType) =
        taprootSingleOutput tx' i (taprootOutputType hashType) := by
      unfold taprootSingleOutput
      by_cases hs : taprootOutputType hashType = sighashSingle
      · rw [if_pos hs, if_pos hs, index, index, h.selected.single hs]
      · rw [if_neg hs, if_neg hs]
    have houtputs : (if taprootOutputType hashType = sighashAll then
          (TaprootCache.new tx spentOutputs).shaOutputs.toList else []) =
        if taprootOutputType hashType = sighashAll then
          (TaprootCache.new tx' spentOutputs').shaOutputs.toList else [] := by
      by_cases hall : taprootOutputType hashType = sighashAll
      · have hnone : taprootOutputType hashType ≠ sighashNone := by
          rw [hall]
          decide
        have hnot : taprootOutputType hashType ≠ sighashSingle := by
          rw [hall]
          decide
        simp only [TaprootCache.new, h.selected.outputs hnone hnot]
      · rw [if_neg hall, if_neg hall]
    rw [taprootSignatureHash_of_inRange hrange, taprootSignatureHash_of_inRange hrange',
      taprootMessage, taprootMessage, taprootInput_of_agree h, hsingle, houtputs,
      taprootHead_of_agree h]
  · rw [taprootSignatureHash_of_outOfRange hrange, taprootSignatureHash_of_outOfRange fun hr =>
      hrange ((taprootInRange_iff_of_agree h).mpr hr)]

end Taproot

/-! ### All schemes -/

/-- Two transactions that agree on what a hash type selects have the same digest. -/
theorem digests_of_agree [Sha2] (i : Nat) (tx tx' : Transaction) :
    (∀ hashType, AgreeFor hashType i tx tx' → ∀ scriptCode,
      legacySignatureHash tx i scriptCode hashType =
        legacySignatureHash tx' i scriptCode hashType) ∧
    (∀ hashType, AgreeFor hashType i tx tx' → ∀ scriptCode amountSat,
      witnessV0SignatureHash tx i scriptCode amountSat hashType (Bip143Cache.new tx) =
        witnessV0SignatureHash tx' i scriptCode amountSat hashType (Bip143Cache.new tx')) ∧
    ∀ hashType spentOutputs spentOutputs',
      AgreeForTaproot hashType i tx tx' spentOutputs spentOutputs' → ∀ extFlag execData,
        taprootSignatureHash tx i spentOutputs hashType extFlag execData
            (TaprootCache.new tx spentOutputs) =
          taprootSignatureHash tx' i spentOutputs' hashType extFlag execData
            (TaprootCache.new tx' spentOutputs') := by
  refine ⟨fun hashType h scriptCode => ?_, fun hashType h scriptCode amountSat => ?_,
    fun hashType spentOutputs spentOutputs' h extFlag execData => ?_⟩
  · exact legacySignatureHash_of_agree h scriptCode
  · exact witnessV0SignatureHash_of_agree h scriptCode amountSat
  · exact taprootSignatureHash_of_agree h extFlag execData

namespace Sample

/-- A transaction with an input that is signed, one more input and one more output. -/
def fundedTx : Transaction where
  version := 2
  inputs := [⟨⟨Digest.zero, 7⟩, ⟨[0x51]⟩, 5, []⟩, ⟨⟨Digest.zero, 8⟩, ⟨[]⟩, 6, []⟩]
  outputs := [⟨⟨1000⟩, ⟨[0x51]⟩⟩, ⟨⟨2000⟩, ⟨[0x52]⟩⟩]
  lockTime := 0

/-- The same input and output alone. -/
def bareTx : Transaction where
  version := 2
  inputs := [⟨⟨Digest.zero, 7⟩, ⟨[]⟩, 5, [[1]]⟩]
  outputs := [⟨⟨1000⟩, ⟨[0x51]⟩⟩]
  lockTime := 0

/-- The two agree under `SIGHASH_SINGLE | SIGHASH_ANYONECANPAY`. -/
lemma agreeFor_bareTx : AgreeFor 0x83 0 fundedTx bareTx where
  version := rfl
  lockTime := rfl
  input := rfl
  outpoints hall := absurd hall (by decide)
  sequences hall := absurd hall (by decide)
  single _ := rfl
  outputs _ hsingle := absurd rfl hsingle

lemma agreeForTaproot_bareTx :
    AgreeForTaproot 0x83 0 fundedTx bareTx [⟨⟨3⟩, ⟨[]⟩⟩, ⟨⟨4⟩, ⟨[]⟩⟩] [⟨⟨3⟩, ⟨[]⟩⟩] where
  selected :=
    { version := rfl
      lockTime := rfl
      input := rfl
      outpoints := fun hall => absurd rfl hall
      sequences := fun hall => absurd rfl hall
      single := fun _ => rfl
      outputs := fun _ hsingle => absurd rfl hsingle }
  coin := rfl
  coins hall := absurd rfl hall
  length := rfl
  length' := rfl

theorem digests_of_agree_bareTx :
    fundedTx.inputs.length ≠ bareTx.inputs.length ∧ fundedTx.outputs ≠ bareTx.outputs ∧
    legacySignatureHash fundedTx 0 [0x51] 0x83 = legacySignatureHash bareTx 0 [0x51] 0x83 ∧
    witnessV0SignatureHash fundedTx 0 [0x51] 3 0x83 (Bip143Cache.new fundedTx) =
      witnessV0SignatureHash bareTx 0 [0x51] 3 0x83 (Bip143Cache.new bareTx) ∧
    taprootSignatureHash fundedTx 0 [⟨⟨3⟩, ⟨[]⟩⟩, ⟨⟨4⟩, ⟨[]⟩⟩] 0x83 0 .new
        (TaprootCache.new fundedTx [⟨⟨3⟩, ⟨[]⟩⟩, ⟨⟨4⟩, ⟨[]⟩⟩]) =
      taprootSignatureHash bareTx 0 [⟨⟨3⟩, ⟨[]⟩⟩] 0x83 0 .new
        (TaprootCache.new bareTx [⟨⟨3⟩, ⟨[]⟩⟩]) := by
  refine ⟨by decide, by decide, ?_, ?_, ?_⟩
  · exact (digests_of_agree 0 fundedTx bareTx).1 _ agreeFor_bareTx _
  · exact (digests_of_agree 0 fundedTx bareTx).2.1 _ agreeFor_bareTx _ _
  · exact (digests_of_agree 0 fundedTx bareTx).2.2 _ _ _ agreeForTaproot_bareTx _ _

end Sample

end Bitcrab
