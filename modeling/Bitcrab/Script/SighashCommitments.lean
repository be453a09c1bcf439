import Bitcrab.Script.SighashMessages
import Bitcrab.Types.Codec

/-!
# What the signature hashes commit to

Two spends with the same digest, under the hash type that signs everything, are spends of the same
coins to the same outputs. The messages are prefix codes of their fields, also where a field is the
hash of a list without its count; so nothing is lost but by a collision.
-/

namespace Bitcrab

open Bytes Outcome PrefixCode

/-- The lengths that the messages count fit their types, which are as wide as an address. -/
structure Transaction.Addressable (tx : Transaction) : Prop where
  inputs : tx.inputs.length < 2 ^ 64
  outputs : tx.outputs.length < 2 ^ 64
  scripts : ∀ o ∈ tx.outputs, o.Addressable

/-- Two transactions agree on everything but scriptSigs and witnesses. -/
structure SameCommitments (tx tx' : Transaction) : Prop where
  version : tx.version = tx'.version
  lockTime : tx.lockTime = tx'.lockTime
  outpoints : tx.inputs.map (·.previousOutput) = tx'.inputs.map (·.previousOutput)
  sequences : tx.inputs.map (·.sequence) = tx'.inputs.map (·.sequence)
  outputs : tx.outputs = tx'.outputs

/-! ### Legacy -/

section Legacy

/-- What the message has of an input. -/
abbrev LegacyInput := OutPoint × List UInt8 × UInt32

def encodeLegacyInput (input : LegacyInput) : List UInt8 :=
  encode input.1 ++ (encodeVarBytes input.2.1 ++ encode input.2.2)

lemma prefixFree_legacyInput :
    PrefixFree (fun input : LegacyInput => True ∧ input.2.1.length < 2 ^ 64 ∧ True)
      encodeLegacyInput :=
  prefixFree_outPoint.append (prefixFree_varBytes.append prefixFree_uint32)

/-- The inputs of the message, where only the signed one has a script. -/
def legacyInputs (tx : Transaction) (inputIndex : Nat) (scriptCode : List UInt8) :
    List LegacyInput :=
  tx.inputs.mapIdx fun k input =>
    (input.previousOutput, if k = inputIndex then scriptCode else [], input.sequence)

lemma getElem?_legacyInputs (tx : Transaction) (inputIndex : Nat) (scriptCode : List UInt8)
    (k : Nat) :
    (legacyInputs tx inputIndex scriptCode)[k]? = tx.inputs[k]?.map fun input =>
      (input.previousOutput, if k = inputIndex then scriptCode else [], input.sequence) := by
  simp [legacyInputs]

variable {tx tx' : Transaction} {i i' : Nat} {scriptCode scriptCode' : List UInt8}

lemma length_lt_of_mem_legacyInputs (hlen : scriptCode.length < 2 ^ 64) {input : LegacyInput}
    (hmem : input ∈ legacyInputs tx i scriptCode) :
    True ∧ input.2.1.length < 2 ^ 64 ∧ True := by
  refine ⟨trivial, ?_, trivial⟩
  obtain ⟨k, hk, rfl⟩ := List.mem_mapIdx.mp hmem
  dsimp only
  split_ifs
  · exact hlen
  · simp

lemma map_fst_legacyInputs :
    (legacyInputs tx i scriptCode).map (·.1) = tx.inputs.map (·.previousOutput) := by
  refine List.ext_getElem? fun k => ?_
  simp [legacyInputs]
  rfl

lemma map_sequence_legacyInputs :
    (legacyInputs tx i scriptCode).map (·.2.2) = tx.inputs.map (·.sequence) := by
  refine List.ext_getElem? fun k => ?_
  simp [legacyInputs]
  rfl

/-- The place of the script is the signed input. -/
lemma eq_of_legacyInputs (hin : i < tx.inputs.length) (hne : scriptCode ≠ [])
    (heq : legacyInputs tx i scriptCode = legacyInputs tx' i' scriptCode') :
    i = i' ∧ scriptCode = scriptCode' := by
  have hat := congrArg (·[i]?) heq
  simp only [getElem?_legacyInputs, List.getElem?_eq_getElem hin, Option.map_some, if_true] at hat
  obtain ⟨input, _, hinput⟩ := Option.map_eq_some_iff.mp hat.symm
  have hscript : (if i = i' then scriptCode' else []) = scriptCode :=
    congrArg (·.2.1) hinput
  split_ifs at hscript with hi
  · exact ⟨hi, hscript.symm⟩
  · exact absurd hscript.symm hne

lemma legacyMessage_all :
    legacyMessage tx i scriptCode 1 =
      .ok (encode tx.version ++ (encode (VarInt.mk (UInt64.ofNat tx.inputs.length)) ++
        ((legacyInputs tx i scriptCode).flatMap encodeLegacyInput ++
        (encode (VarInt.mk (UInt64.ofNat tx.outputs.length)) ++
        (tx.outputs.flatMap encodeOutput ++ (encode tx.lockTime ++ encode (1 : UInt32))))))) := by
  have hall : ((1 : UInt32) &&& 0x1f).toUInt8 = 1 := rfl
  have hinputs : tx.inputs.mapIdx (legacyInputBytes i scriptCode ((1 : UInt32) &&& 0x1f).toUInt8) =
      (legacyInputs tx i scriptCode).map encodeLegacyInput := by
    refine List.ext_getElem? fun k => ?_
    rw [List.getElem?_map, getElem?_legacyInputs, List.getElem?_mapIdx]
    cases tx.inputs[k]? with
    | none => rfl
    | some input => simp [legacyInputBytes, encodeLegacyInput, hall, sighashNone, sighashSingle]
  have houtputs : legacyOutputs tx i ((1 : UInt32) &&& 0x1f).toUInt8 =
    .ok (encode (VarInt.mk (UInt64.ofNat tx.outputs.length)) ++ tx.outputs.flatMap encodeOutput) :=
      rfl
  have hacp : ¬ (1 : UInt32).toUInt8 &&& sighashAnyonecanpay ≠ 0 := by decide
  rw [legacyMessage]
  simp only [if_neg hacp, mapM_legacyInput, Result.ok_bind, houtputs, hinputs, List.length_range,
    List.flatMap_def, List.append_assoc, Result.pure_eq_ok]

/-- Equal legacy digests. -/
lemma commits_of_legacy (htx : tx.Addressable) (htx' : tx'.Addressable)
    (hin : i < tx.inputs.length) (hin' : i' < tx'.inputs.length) (hne : scriptCode ≠ [])
    (hlen : scriptCode.length < 2 ^ 64) (hlen' : scriptCode'.length < 2 ^ 64) [Sha2]
    {digest : Bytes32}
    (hfree : CollisionFree hash256 (legacyHashed tx i scriptCode 1 ++
      legacyHashed tx' i' scriptCode' 1))
    (h : legacySignatureHash tx i scriptCode 1 = .ok digest)
    (h' : legacySignatureHash tx' i' scriptCode' 1 = .ok digest) :
    SameCommitments tx tx' ∧ i = i' ∧ scriptCode = scriptCode' := by
  have hrange : ∀ {tx : Transaction} {i : Nat}, i < tx.inputs.length →
      ¬ LegacyOutOfRange tx i 1 := by
    rintro tx i hin (hle | ⟨hsingle, _⟩)
    · exact absurd hin (not_lt.mpr hle)
    · exact absurd hsingle (by decide)
  rw [legacySignatureHash_of_inRange (hrange hin) legacyMessage_all] at h
  rw [legacySignatureHash_of_inRange (hrange hin') legacyMessage_all] at h'
  have heq := hfree _ (by simp [legacyHashed, legacyMessage_all]) _
    (by simp [legacyHashed, legacyMessage_all]) (Except.ok.inj (h.trans h'.symm))
  obtain ⟨hversion, heq⟩ := prefixFree_uint32 _ _ trivial trivial _ _ heq
  obtain ⟨hcount, heq⟩ := eq_of_encode_count htx.inputs htx'.inputs heq
  obtain ⟨hinputs, heq⟩ := prefixFree_legacyInput.flatMap (by simpa [legacyInputs] using hcount)
    (fun _ => length_lt_of_mem_legacyInputs hlen) (fun _ => length_lt_of_mem_legacyInputs hlen') heq
  obtain ⟨hcount', heq⟩ := eq_of_encode_count htx.outputs htx'.outputs heq
  obtain ⟨houtputs, heq⟩ := prefixFree_output.flatMap hcount' htx.scripts htx'.scripts heq
  obtain ⟨hlockTime, _⟩ := prefixFree_uint32 _ _ trivial trivial _ _ heq
  refine ⟨⟨hversion, hlockTime, ?_, ?_, houtputs⟩, eq_of_legacyInputs hin hne hinputs⟩
  · rw [← map_fst_legacyInputs, hinputs, map_fst_legacyInputs]
  · rw [← map_sequence_legacyInputs, hinputs, map_sequence_legacyInputs]

end Legacy

/-! ### Hashes of lists -/

section Lists

variable {tx tx' : Transaction} {spentOutputs spentOutputs' : List TxOut}

lemma outpoints_of_flatMap (heq : (tx.inputs.flatMap fun i => encode i.previousOutput) =
    tx'.inputs.flatMap fun i => encode i.previousOutput) :
    tx.inputs.map (·.previousOutput) = tx'.inputs.map (·.previousOutput) := by
  refine prefixFree_outPoint.map_eq_of_flatMap ?_ (fun _ _ => trivial) (fun _ _ => trivial) heq
  intro o h
  have hlen := congrArg List.length h
  simp [encode] at hlen

lemma sequences_of_flatMap (heq : (tx.inputs.flatMap fun i => encode i.sequence) =
    tx'.inputs.flatMap fun i => encode i.sequence) :
    tx.inputs.map (·.sequence) = tx'.inputs.map (·.sequence) := by
  refine prefixFree_uint32.map_eq_of_flatMap ?_ (fun _ _ => trivial) (fun _ _ => trivial) heq
  simp [encode, leBytes]

lemma outputs_of_flatMap (htx : tx.Addressable) (htx' : tx'.Addressable)
    (heq : tx.outputs.flatMap encodeOutput = tx'.outputs.flatMap encodeOutput) :
    tx.outputs = tx'.outputs :=
  prefixFree_output.flatMap_injective encodeOutput_ne_nil htx.scripts htx'.scripts heq

lemma spentOutputs_of_flatMap (hscripts : ∀ o ∈ spentOutputs, o.Addressable)
    (hscripts' : ∀ o ∈ spentOutputs', o.Addressable)
    (hamount : (spentOutputs.flatMap fun o => encode o.value.sat) =
      spentOutputs'.flatMap fun o => encode o.value.sat)
    (hscript : (spentOutputs.flatMap fun o => encodeVarBytes o.scriptPubkey.bytes) =
      spentOutputs'.flatMap fun o => encodeVarBytes o.scriptPubkey.bytes) :
    spentOutputs = spentOutputs' := by
  have hvalues : spentOutputs.map (·.value) = spentOutputs'.map (·.value) := by
    refine prefixFree_amount.map_eq_of_flatMap ?_ (fun _ _ => trivial) (fun _ _ => trivial) hamount
    simp [encode, leBytes]
  have hscripts : spentOutputs.map (·.scriptPubkey) = spentOutputs'.map (·.scriptPubkey) := by
    refine prefixFree_scriptPubkey.map_eq_of_flatMap ?_ hscripts hscripts' hscript
    intro s h
    exact encode_varInt_ne_nil _ (List.append_eq_nil_iff.mp h).1
  have hzip : ∀ os : List TxOut,
      os = List.zipWith TxOut.mk (os.map (·.value)) (os.map (·.scriptPubkey)) := by
    intro os
    induction os with
    | nil => rfl
    | cons o os ih => rw [List.map_cons, List.map_cons, List.zipWith_cons_cons, ← ih]
  rw [hzip spentOutputs, hzip spentOutputs', hvalues, hscripts]

end Lists

/-! ### Version 0 witness programs -/

section WitnessV0

variable [Sha2] {tx tx' : Transaction} {i i' : Nat} {scriptCode scriptCode' : List UInt8}
  {amountSat amountSat' : UInt64}

/-- The midstates of the transactions. -/
lemma commits_of_bip143 (htx : tx.Addressable) (htx' : tx'.Addressable)
    {messages : List (List UInt8)} (hfree : CollisionFree hash256 messages)
    (hmem : ∀ m ∈ Bip143Cache.messages tx, m ∈ messages)
    (hmem' : ∀ m ∈ Bip143Cache.messages tx', m ∈ messages)
    (hprevouts : (Bip143Cache.new tx).hashPrevouts = (Bip143Cache.new tx').hashPrevouts)
    (hsequence : (Bip143Cache.new tx).hashSequence = (Bip143Cache.new tx').hashSequence)
    (houtputs : (Bip143Cache.new tx).hashOutputs = (Bip143Cache.new tx').hashOutputs) :
    tx.inputs.map (·.previousOutput) = tx'.inputs.map (·.previousOutput) ∧
      tx.inputs.map (·.sequence) = tx'.inputs.map (·.sequence) ∧ tx.outputs = tx'.outputs := by
  simp only [Bip143Cache.messages, List.forall_mem_cons, List.not_mem_nil, false_imp_iff,
    implies_true, and_true] at hmem hmem'
  refine ⟨outpoints_of_flatMap (hfree _ hmem.1 _ hmem'.1 hprevouts),
    sequences_of_flatMap (hfree _ hmem.2.1 _ hmem'.2.1 hsequence),
    outputs_of_flatMap htx htx' (hfree _ hmem.2.2 _ hmem'.2.2 houtputs)⟩

/-- Equal digests for version 0 witness programs. -/
lemma commits_of_witnessV0 (htx : tx.Addressable) (htx' : tx'.Addressable)
    (hlen : scriptCode.length < 2 ^ 64) (hlen' : scriptCode'.length < 2 ^ 64) {digest : Bytes32}
    (hfree : CollisionFree hash256 (witnessV0AllHashed tx i scriptCode amountSat ++
      witnessV0AllHashed tx' i' scriptCode' amountSat'))
    (h : witnessV0SignatureHash tx i scriptCode amountSat 1 (Bip143Cache.new tx) = .ok digest)
    (h' : witnessV0SignatureHash tx' i' scriptCode' amountSat' 1 (Bip143Cache.new tx') =
      .ok digest) :
    SameCommitments tx tx' ∧
      tx.inputs[i]?.map (·.previousOutput) = tx'.inputs[i']?.map (·.previousOutput) ∧
      scriptCode = scriptCode' ∧ amountSat = amountSat' := by
  obtain ⟨input, hinput, hdigest⟩ := witnessV0SignatureHash_all h
  obtain ⟨input', hinput', hdigest'⟩ := witnessV0SignatureHash_all h'
  have heq := hfree _ (by simp [witnessV0AllHashed, hinput]) _
    (by simp [witnessV0AllHashed, hinput']) (hdigest.symm.trans hdigest')
  simp only [witnessV0AllMessage, List.append_assoc] at heq
  obtain ⟨hversion, heq⟩ := prefixFree_uint32 _ _ trivial trivial _ _ heq
  obtain ⟨hprevouts, heq⟩ := prefixFree_bytes32 _ _ trivial trivial _ _ heq
  obtain ⟨hsequence, heq⟩ := prefixFree_bytes32 _ _ trivial trivial _ _ heq
  obtain ⟨houtpoint, heq⟩ := prefixFree_outPoint _ _ trivial trivial _ _ heq
  obtain ⟨hscript, heq⟩ := prefixFree_varBytes _ _ hlen hlen' _ _ heq
  obtain ⟨hamount, heq⟩ := prefixFree_uint64 _ _ trivial trivial _ _ heq
  obtain ⟨_, heq⟩ := prefixFree_uint32 _ _ trivial trivial _ _ heq
  obtain ⟨houtputs, heq⟩ := prefixFree_bytes32 _ _ trivial trivial _ _ heq
  obtain ⟨hlockTime, _⟩ := prefixFree_uint32 _ _ trivial trivial _ _ heq
  obtain ⟨houtpoints, hsequences, houtputs⟩ := commits_of_bip143 htx htx' hfree
    (by simp +contextual [witnessV0AllHashed]) (by simp +contextual [witnessV0AllHashed]) hprevouts
    hsequence houtputs
  refine ⟨⟨hversion, hlockTime, houtpoints, hsequences, houtputs⟩, ?_, hscript, hamount⟩
  rw [hinput, hinput', Option.map_some, Option.map_some, houtpoint]

end WitnessV0

/-! ### Taproot -/

section Extension

variable {extFlag extFlag' : UInt8} {execData execData' : ScriptExecutionData}

/-- The lowest bit of the spend type tells whether there is an annex. -/
lemma annex_of_spendType {e e' : UInt8} {b b' : Bool}
    (heq : (e <<< 1 ||| if b then (1 : UInt8) else 0) = (e' <<< 1 ||| if b' then 1 else 0)) :
    b = b' := by
  have hbit : ∀ (e : UInt8) (b : Bool),
      (e <<< 1 ||| if b then (1 : UInt8) else 0) &&& 1 = if b then 1 else 0 := by
    intro e b
    have hall : ∀ k : Fin 256, (UInt8.ofNat k <<< 1 ||| if b then (1 : UInt8) else 0) &&& 1 =
        if b then 1 else 0 := by
      cases b <;> decide +kernel
    simpa using hall ⟨e.toNat, e.toNat_lt⟩
  have hsame := congrArg (· &&& 1) heq
  simp only [hbit] at hsame
  cases b <;> cases b' <;> first | rfl | cases hsame

/-- A hash that is there or not, as both sides know. -/
lemma annexHash_of_append {a a' : Option Bytes32} {s t : List UInt8}
    (hsome : a.isSome = a'.isSome)
    (heq : (a.map (·.toList)).getD [] ++ s = (a'.map (·.toList)).getD [] ++ t) :
    a = a' ∧ s = t := by
  cases a with
  | none =>
    cases a' with
    | none => exact ⟨rfl, heq⟩
    | some _ => cases hsome
  | some a =>
    cases a' with
    | none => cases hsome
    | some a' =>
      obtain ⟨rfl, hrest⟩ := prefixFree_bytes32 a a' trivial trivial _ _ heq
      exact ⟨rfl, hrest⟩

lemma taprootExtension_of_tapscript {extension : List UInt8} (hext : extFlag = 1)
    (h : taprootExtension extFlag execData = some extension) :
    ∃ leaf, execData.tapleafHash = some leaf ∧
      extension = leaf.toList ++ ([0x00] ++ encode execData.codeseparatorPos) := by
  rw [taprootExtension, if_pos hext] at h
  obtain ⟨leaf, hleaf, rfl⟩ := Option.map_eq_some_iff.mp h
  exact ⟨leaf, hleaf, List.append_assoc _ _ _⟩

lemma taprootExtension_ne_nil {extension : List UInt8} (hext : extFlag = 1)
    (h : taprootExtension extFlag execData = some extension) : extension ≠ [] := by
  obtain ⟨leaf, _, rfl⟩ := taprootExtension_of_tapscript hext h
  simp

/-- The extension is the leaf hash and the position, in tapscript only. -/
lemma tapscript_of_extension {extension : List UInt8}
    (h : taprootExtension extFlag execData = some extension)
    (h' : taprootExtension extFlag' execData' = some extension) :
    (extFlag = 1 ↔ extFlag' = 1) ∧ (extFlag = 1 → execData.tapleafHash = execData'.tapleafHash ∧
      execData.codeseparatorPos = execData'.codeseparatorPos) := by
  have hnil : ∀ {e : UInt8} {d : ScriptExecutionData}, e ≠ 1 →
      taprootExtension e d = some extension → extension = [] := by
    intro e d he hd
    rw [taprootExtension, if_neg he] at hd
    exact (Option.some.inj hd).symm
  by_cases hext : extFlag = 1
  · have hext' : extFlag' = 1 := by
      by_contra hne
      exact taprootExtension_ne_nil hext h (hnil hne h')
    refine ⟨iff_of_true hext hext', fun _ => ?_⟩
    obtain ⟨leaf, hleaf, rfl⟩ := taprootExtension_of_tapscript hext h
    obtain ⟨leaf', hleaf', heq⟩ := taprootExtension_of_tapscript hext' h'
    obtain ⟨rfl, hrest⟩ := prefixFree_bytes32 leaf leaf' trivial trivial _ _ heq
    refine ⟨hleaf.trans hleaf'.symm, ?_⟩
    exact prefixFree_uint32.eq_of_eq trivial trivial (List.append_cancel_left hrest)
  · refine ⟨iff_of_false hext fun hext' => ?_, fun h1 => absurd h1 hext⟩
    exact taprootExtension_ne_nil hext' h' (hnil hext h)

end Extension

section Taproot

variable [Sha2] {tx tx' : Transaction} {i i' : Nat} {spentOutputs spentOutputs' : List TxOut}
  {hashType hashType' extFlag extFlag' : UInt8} {execData execData' : ScriptExecutionData}

/-- The message under `DEFAULT` and `ALL`, field by field. -/
lemma taprootMessage_all {cache : TaprootCache} {message : List UInt8}
    (hall : hashType = sighashDefault ∨ hashType = sighashAll)
    (h : taprootMessage tx i spentOutputs hashType extFlag execData cache = .ok (some message)) :
    ∃ extension, taprootExtension extFlag execData = some extension ∧
      message = [0x00, hashType] ++ (encode tx.version ++ (encode tx.lockTime ++
        (cache.shaPrevouts.toList ++ (cache.shaAmounts.toList ++ (cache.shaScriptpubkeys.toList ++
        (cache.shaSequences.toList ++ (cache.shaOutputs.toList ++
        ([extFlag <<< 1 ||| if execData.annexHash.isSome then 1 else 0] ++ (leBytes 4 i ++
        ((execData.annexHash.map (·.toList)).getD [] ++ extension)))))))))) := by
  have houtputs : taprootOutputType hashType = sighashAll := by
    rcases hall with rfl | rfl <;> rfl
  have hacp : ¬ hashType &&& sighashAnyonecanpay = sighashAnyonecanpay := by
    rcases hall with rfl | rfl <;> decide
  simp only [taprootMessage, houtputs, if_true, hacp, decide_false, Result.bind_eq_ok] at h
  obtain ⟨input, hinput, single, hsingle, h⟩ := h
  cases hinput
  cases hsingle
  obtain ⟨extension, hextension, rfl⟩ := Option.map_eq_some_iff.mp (Except.ok.inj h)
  refine ⟨extension, hextension, ?_⟩
  simp [taprootHead, taprootSpend, if_neg hacp]

/-- Equal taproot digests. -/
lemma commits_of_taproot (htx : tx.Addressable) (htx' : tx'.Addressable) (hi : i < 2 ^ 32)
    (hi' : i' < 2 ^ 32) (hscripts : ∀ o ∈ spentOutputs, o.Addressable)
    (hscripts' : ∀ o ∈ spentOutputs', o.Addressable)
    (hall : hashType = sighashDefault ∨ hashType = sighashAll)
    (hall' : hashType' = sighashDefault ∨ hashType' = sighashAll) {digest : Bytes32}
    (hfree : CollisionFree sha256 (taprootHashed tx i spentOutputs hashType extFlag execData ++
      taprootHashed tx' i' spentOutputs' hashType' extFlag' execData'))
    (h : taprootSignatureHash tx i spentOutputs hashType extFlag execData
      (TaprootCache.new tx spentOutputs) = .ok (some digest))
    (h' : taprootSignatureHash tx' i' spentOutputs' hashType' extFlag' execData'
      (TaprootCache.new tx' spentOutputs') = .ok (some digest)) :
    SameCommitments tx tx' ∧ i = i' ∧ spentOutputs = spentOutputs' ∧
      execData.annexHash = execData'.annexHash ∧ (extFlag = 1 ↔ extFlag' = 1) ∧
      (extFlag = 1 → execData.tapleafHash = execData'.tapleafHash ∧
        execData.codeseparatorPos = execData'.codeseparatorPos) := by
  obtain ⟨_, message, hmessage, hdigest⟩ := exists_taprootMessage h
  obtain ⟨_, message', hmessage', hdigest'⟩ := exists_taprootMessage h'
  have htagged : tapSighashInput message = tapSighashInput message' :=
    hfree _ (by simp [taprootHashed, hmessage]) _ (by simp [taprootHashed, hmessage'])
      (hdigest.symm.trans hdigest')
  have heq : message = message' := List.append_cancel_left htagged
  obtain ⟨extension, hextension, hfields⟩ := taprootMessage_all hall hmessage
  obtain ⟨extension', hextension', hfields'⟩ := taprootMessage_all hall' hmessage'
  rw [hfields, hfields'] at heq
  obtain ⟨_, heq⟩ := List.append_inj heq rfl
  obtain ⟨hversion, heq⟩ := prefixFree_uint32 _ _ trivial trivial _ _ heq
  obtain ⟨hlockTime, heq⟩ := prefixFree_uint32 _ _ trivial trivial _ _ heq
  obtain ⟨hprevouts, heq⟩ := prefixFree_bytes32 _ _ trivial trivial _ _ heq
  obtain ⟨hamounts, heq⟩ := prefixFree_bytes32 _ _ trivial trivial _ _ heq
  obtain ⟨hpubkeys, heq⟩ := prefixFree_bytes32 _ _ trivial trivial _ _ heq
  obtain ⟨hsequences, heq⟩ := prefixFree_bytes32 _ _ trivial trivial _ _ heq
  obtain ⟨houtputs, heq⟩ := prefixFree_bytes32 _ _ trivial trivial _ _ heq
  obtain ⟨hspend, heq⟩ := List.append_inj heq rfl
  obtain ⟨hindex, heq⟩ := List.append_inj heq (by simp)
  obtain ⟨hannex, heq⟩ := annexHash_of_append (annex_of_spendType (List.cons.inj hspend).1) heq
  have hindex : i = i' := by
    rw [← ofLeBytes_leBytes 4 i hi, hindex, ofLeBytes_leBytes 4 i' hi']
  -- the midstates, one list after another
  have hmem : ∀ m ∈ TaprootCache.messages tx spentOutputs,
      m ∈ taprootHashed tx i spentOutputs hashType extFlag execData ++
        taprootHashed tx' i' spentOutputs' hashType' extFlag' execData' := by
    simp +contextual [taprootHashed]
  have hmem' : ∀ m ∈ TaprootCache.messages tx' spentOutputs',
      m ∈ taprootHashed tx i spentOutputs hashType extFlag execData ++
        taprootHashed tx' i' spentOutputs' hashType' extFlag' execData' := by
    simp +contextual [taprootHashed]
  simp only [TaprootCache.messages, List.forall_mem_cons, List.not_mem_nil, false_imp_iff,
    implies_true, and_true] at hmem hmem'
  obtain ⟨hm1, hm2, hm3, hm4, hm5⟩ := hmem
  obtain ⟨hm1', hm2', hm3', hm4', hm5'⟩ := hmem'
  refine ⟨⟨hversion, hlockTime, outpoints_of_flatMap (hfree _ hm1 _ hm1' hprevouts),
    sequences_of_flatMap (hfree _ hm4 _ hm4' hsequences),
    outputs_of_flatMap htx htx' (hfree _ hm5 _ hm5' houtputs)⟩, hindex,
    spentOutputs_of_flatMap hscripts hscripts' (hfree _ hm2 _ hm2' hamounts)
      (hfree _ hm3 _ hm3' hpubkeys), hannex, ?_⟩
  rw [← heq] at hextension'
  exact tapscript_of_extension hextension hextension'

end Taproot

/-- Equal digests of two spends that sign everything, where no two of the messages hashed for them
collide: the spends agree on version, lock time, outpoints, sequences and outputs, and on the input
that is signed with the fields of its kind. -/
theorem digests_commit [Sha2] (tx tx' : Transaction) (htx : tx.Addressable) (htx' : tx'.Addressable)
    (i i' : Nat) :
    (∀ scriptCode scriptCode' digest, i < tx.inputs.length → i' < tx'.inputs.length →
      scriptCode ≠ [] → scriptCode.length < 2 ^ 64 → scriptCode'.length < 2 ^ 64 →
      CollisionFree hash256 (legacyHashed tx i scriptCode 1 ++ legacyHashed tx' i' scriptCode' 1) →
      legacySignatureHash tx i scriptCode 1 = .ok digest →
      legacySignatureHash tx' i' scriptCode' 1 = .ok digest →
      SameCommitments tx tx' ∧ i = i' ∧ scriptCode = scriptCode') ∧
    (∀ scriptCode scriptCode' amountSat amountSat' digest,
      scriptCode.length < 2 ^ 64 → scriptCode'.length < 2 ^ 64 →
      CollisionFree hash256 (witnessV0AllHashed tx i scriptCode amountSat ++
        witnessV0AllHashed tx' i' scriptCode' amountSat') →
      witnessV0SignatureHash tx i scriptCode amountSat 1 (Bip143Cache.new tx) = .ok digest →
      witnessV0SignatureHash tx' i' scriptCode' amountSat' 1 (Bip143Cache.new tx') = .ok digest →
      SameCommitments tx tx' ∧
        tx.inputs[i]?.map (·.previousOutput) = tx'.inputs[i']?.map (·.previousOutput) ∧
        scriptCode = scriptCode' ∧ amountSat = amountSat') ∧
    (∀ spentOutputs spentOutputs' hashType hashType' extFlag extFlag' execData execData' digest,
      i < 2 ^ 32 → i' < 2 ^ 32 → (∀ o ∈ spentOutputs, o.Addressable) →
      (∀ o ∈ spentOutputs', o.Addressable) → hashType = sighashDefault ∨ hashType = sighashAll →
      hashType' = sighashDefault ∨ hashType' = sighashAll →
      CollisionFree sha256 (taprootHashed tx i spentOutputs hashType extFlag execData ++
        taprootHashed tx' i' spentOutputs' hashType' extFlag' execData') →
      taprootSignatureHash tx i spentOutputs hashType extFlag execData
        (TaprootCache.new tx spentOutputs) = .ok (some digest) →
      taprootSignatureHash tx' i' spentOutputs' hashType' extFlag' execData'
        (TaprootCache.new tx' spentOutputs') = .ok (some digest) →
      SameCommitments tx tx' ∧ i = i' ∧ spentOutputs = spentOutputs' ∧
        execData.annexHash = execData'.annexHash ∧ (extFlag = 1 ↔ extFlag' = 1) ∧
        (extFlag = 1 → execData.tapleafHash = execData'.tapleafHash ∧
          execData.codeseparatorPos = execData'.codeseparatorPos)) := by
  refine ⟨?_, ?_, ?_⟩
  · intro scriptCode scriptCode' digest hin hin' hne hlen hlen' hfree h h'
    exact commits_of_legacy htx htx' hin hin' hne hlen hlen' hfree h h'
  · intro scriptCode scriptCode' amountSat amountSat' digest hlen hlen' hfree h h'
    exact commits_of_witnessV0 htx htx' hlen hlen' hfree h h'
  · intro spentOutputs spentOutputs' hashType hashType' extFlag extFlag' execData execData' digest
      hi
      hi' hscripts hscripts' hall hall' hfree h h'
    exact commits_of_taproot htx htx' hi hi' hscripts hscripts' hall hall' hfree h h'

namespace Sample

/-- A transaction with two inputs and two outputs. -/
def swap (scriptSig : List UInt8) (witness : List (List UInt8)) : Transaction where
  version := 2
  inputs := [⟨⟨Digest.zero, 0⟩, ⟨scriptSig⟩, 0xFFFFFFFF, []⟩, ⟨⟨Digest.zero, 3⟩, ⟨[]⟩, 5, witness⟩]
  outputs := [⟨⟨600⟩, ⟨[0x51]⟩⟩, ⟨⟨400⟩, ⟨[0x52, 0x53]⟩⟩]
  lockTime := 7

lemma addressable_swap (scriptSig : List UInt8) (witness : List (List UInt8)) :
    (swap scriptSig witness).Addressable where
  inputs := by
    change 2 < 2 ^ 64
    decide
  outputs := by
    change 2 < 2 ^ 64
    decide
  scripts := by
    simp only [swap, List.forall_mem_cons, TxOut.Addressable]
    decide

/-- The outputs that `swap` spends. -/
def spent : List TxOut := [⟨⟨300⟩, ⟨[0x51]⟩⟩, ⟨⟨900⟩, ⟨[0x76, 0xa9]⟩⟩]

lemma addressable_spent : ∀ o ∈ spent, o.Addressable := by
  simp only [spent, List.forall_mem_cons, TxOut.Addressable]
  decide

/-- A tapscript spend. -/
def leafData : ScriptExecutionData :=
  { ScriptExecutionData.new with tapleafHash := some (List.Vector.replicate 32 0) }

/-- Neither the scripts of other inputs nor witnesses are signed, so the digests are equal. -/
theorem digests_commit_swap :
    (SameCommitments (swap [] []) (swap [0x51] [[1], [2]]) ∧ (1 : Nat) = 1 ∧
      [(0x76 : UInt8), 0xac] = [0x76, 0xac]) ∧
    (SameCommitments (swap [] []) (swap [0x51] [[1], [2]]) ∧
      (swap [] []).inputs[1]?.map (·.previousOutput) =
        (swap [0x51] [[1], [2]]).inputs[1]?.map (·.previousOutput) ∧
      [(0x76 : UInt8), 0xac] = [0x76, 0xac] ∧ (900 : UInt64) = 900) ∧
    (SameCommitments (swap [] []) (swap [0x51] [[1], [2]]) ∧ (1 : Nat) = 1 ∧ spent = spent ∧
      leafData.annexHash = leafData.annexHash ∧ ((1 : UInt8) = 1 ↔ (1 : UInt8) = 1) ∧
      ((1 : UInt8) = 1 → leafData.tapleafHash = leafData.tapleafHash ∧
        leafData.codeseparatorPos = leafData.codeseparatorPos)) := by
  obtain ⟨hlegacy, hwitness, htaproot⟩ := digests_commit (swap [] []) (swap [0x51] [[1], [2]])
    (addressable_swap [] []) (addressable_swap [0x51] [[1], [2]]) 1 1
  refine ⟨?_, ?_, ?_⟩
  · have hin : ∀ scriptSig witness, ¬ LegacyOutOfRange (swap scriptSig witness) 1 1 := by
      unfold LegacyOutOfRange
      intro scriptSig witness hout
      rcases hout with hle | ⟨hsingle, -⟩
      · exact absurd hle (by simp [swap])
      · exact absurd hsingle (by decide)
    have hmessage : legacyMessage (swap [0x51] [[1], [2]]) 1 [0x76, 0xac] 1 =
        legacyMessage (swap [] []) 1 [0x76, 0xac] 1 := by
      decide +kernel
    have hall : legacyMessage (swap [] []) 1 [0x76, 0xac] 1 = .ok _ := legacyMessage_all
    have hdigest := legacySignatureHash_of_inRange (hin [] []) hall
    have hdigest' := legacySignatureHash_of_inRange (hin [0x51] [[1], [2]]) (hmessage.trans hall)
    refine hlegacy [0x76, 0xac] [0x76, 0xac] _ (by decide) (by decide) (by decide) (by decide)
      (by decide) ?_ hdigest hdigest'
    refine collisionFree_of_nodup ?_
    decide +kernel
  · have hdigest : witnessV0SignatureHash (swap [] []) 1 [0x76, 0xac] 900 1
        (Bip143Cache.new (swap [] [])) =
        .ok (hash256 (witnessV0AllMessage (swap [] []) (swap [] []).inputs[1] [0x76, 0xac] 900
          (Bip143Cache.new (swap [] [])))) := rfl
    refine hwitness [0x76, 0xac] [0x76, 0xac] 900 900 _ (by decide) (by decide) ?_ hdigest hdigest
    refine collisionFree_of_nodup ?_
    decide +kernel
  · have hin : TaprootInRange (swap [] []) 1 spent 0 := ⟨by decide, by decide, by decide⟩
    obtain ⟨digest, hdigest⟩ : ∃ digest, taprootSignatureHash (swap [] []) 1 spent 0 1 leafData
        (TaprootCache.new (swap [] []) spent) = .ok (some digest) :=
      exists_taprootSignatureHash_iff.mpr ⟨hin, fun _ => rfl⟩
    refine htaproot spent spent 0 0 1 1 leafData leafData digest (by decide) (by decide)
      addressable_spent addressable_spent (.inl rfl) (.inl rfl) ?_ hdigest hdigest
    refine collisionFree_of_nodup ?_
    decide +kernel

end Sample

end Bitcrab
