import Bitcrab.Lib.PrefixCode
import Bitcrab.Script.CheckerSafety
import Bitcrab.Wire.Canonical
import Mathlib.Data.List.Dedup

/-!
# What the signature hashes are computed from

The messages that `legacy_signature_hash`, `witness_v0_signature_hash` and `taproot_signature_hash`
hash, apart from the hash. Their fields are prefix codes, so a message determines its fields as
long as its variable parts are counted.
-/

namespace Bitcrab

open Bytes Outcome PrefixCode

/-! ### Fields -/

/-- What can be decoded is told apart by its encoding. -/
lemma prefixFree_of_roundTrips {α : Type} [BitcoinEncode α] [BitcoinDecode α] {P : α → Prop}
    (h : ∀ x, P x → RoundTrips x) : PrefixFree P (encode : α → List UInt8) := by
  intro x y hx hy s t heq
  obtain ⟨hxy, _, hrest⟩ := Reads.unique (h x hx) (h y hy) heq
  exact ⟨hxy, hrest⟩

lemma prefixFree_uint32 : PrefixFree (fun _ => True) (encode : UInt32 → List UInt8) :=
  prefixFree_of_roundTrips fun x _ => roundTrips_uint32 x

lemma prefixFree_uint64 : PrefixFree (fun _ => True) (encode : UInt64 → List UInt8) :=
  prefixFree_of_roundTrips fun x _ => roundTrips_uint64 x

lemma prefixFree_outPoint : PrefixFree (fun _ => True) (encode : OutPoint → List UInt8) :=
  prefixFree_of_roundTrips fun x _ => roundTrips_outPoint x

lemma prefixFree_bytes32 : PrefixFree (fun _ => True) (List.Vector.toList : Bytes32 → List UInt8) :=
  prefixFree_of_roundTrips fun x _ => roundTrips_vector x

lemma prefixFree_varInt : PrefixFree (fun _ => True) fun v : UInt64 => encode (VarInt.mk v) := by
  intro x y _ _ s t heq
  obtain ⟨hxy, _, hrest⟩ := Reads.unique (reads_readVarint x "") (reads_readVarint y "") heq
  exact ⟨hxy, hrest⟩

/-- A count is determined as long as it fits its type. -/
lemma eq_of_encode_count {m n : Nat} (hm : m < 2 ^ 64) (hn : n < 2 ^ 64) {s t : List UInt8}
    (heq : encode (VarInt.mk (UInt64.ofNat m)) ++ s = encode (VarInt.mk (UInt64.ofNat n)) ++ t) :
    m = n ∧ s = t := by
  obtain ⟨hcount, hrest⟩ := prefixFree_varInt _ _ trivial trivial _ _ heq
  have hnat := congrArg UInt64.toNat hcount
  rw [UInt64.toNat_ofNat_of_lt' hm, UInt64.toNat_ofNat_of_lt' hn] at hnat
  exact ⟨hnat, hrest⟩

lemma prefixFree_varBytes :
    PrefixFree (fun bs : List UInt8 => bs.length < 2 ^ 64) encodeVarBytes := by
  intro x y hx hy s t heq
  simp only [encodeVarBytes, List.append_assoc] at heq
  obtain ⟨hlen, heq⟩ := eq_of_encode_count hx hy heq
  exact List.append_inj heq hlen

/-- Before the same bytes, any two byte strings are told apart. -/
lemma encodeVarBytes_inj {x y s : List UInt8}
    (heq : encodeVarBytes x ++ s = encodeVarBytes y ++ s) :
    x = y := by
  simp only [encodeVarBytes, List.append_assoc] at heq
  obtain ⟨_, heq⟩ := prefixFree_varInt _ _ trivial trivial _ _ heq
  exact List.append_cancel_right heq

/-- The script of an output fits an address space. -/
def TxOut.Addressable (o : TxOut) : Prop := o.scriptPubkey.bytes.length < 2 ^ 64

lemma prefixFree_scriptPubkey :
    PrefixFree (fun s : ScriptBuf => s.bytes.length < 2 ^ 64) fun s => encodeVarBytes s.bytes :=
  prefixFree_varBytes.comp fun a b h => by
    cases a
    cases b
    exact congrArg ScriptBuf.mk h

lemma prefixFree_amount : PrefixFree (fun _ => True) fun a : Amount => encode a.sat :=
  prefixFree_uint64.comp fun a b h => by
    cases a
    cases b
    exact congrArg Amount.mk h

lemma prefixFree_output : PrefixFree TxOut.Addressable encodeOutput := by
  intro x y hx hy s t heq
  simp only [encodeOutput, List.append_assoc] at heq
  obtain ⟨hvalue, heq⟩ := prefixFree_amount x.value y.value trivial trivial _ _ heq
  obtain ⟨hscript, hrest⟩ := prefixFree_scriptPubkey x.scriptPubkey y.scriptPubkey hx hy _ _ heq
  cases x
  cases y
  cases hvalue
  cases hscript
  exact ⟨rfl, hrest⟩

lemma encodeOutput_ne_nil (o : TxOut) : encodeOutput o ≠ [] := by
  simp [encodeOutput, encode, leBytes]

/-- No two different messages among these have the same hash. -/
def CollisionFree (hash : List UInt8 → Bytes32) (messages : List (List UInt8)) : Prop :=
  ∀ m ∈ messages, ∀ m' ∈ messages, hash m = hash m' → m = m'

/-- The different messages have different hashes. -/
lemma collisionFree_of_nodup {hash : List UInt8 → Bytes32} {messages : List (List UInt8)}
    (h : (messages.dedup.map hash).Nodup) : CollisionFree hash messages := by
  intro m hm m' hm' heq
  exact List.inj_on_of_nodup_map h (List.mem_dedup.mpr hm) (List.mem_dedup.mpr hm') heq

/-! ### The legacy message -/

/-- A loop over the indexes of a list that reads each element. -/
lemma mapM_range_index {ε α β : Type} (l : List α) (f : Nat → α → β) :
    ((List.range l.length).mapM fun k => do
      let a ← index l k
      return f k a : Outcome ε (List β)) = .ok (l.mapIdx f) := by
  have hmapM : ∀ ps : List (α × Nat), (∀ p ∈ ps, l[p.2]? = some p.1) →
      ((ps.map Prod.snd).mapM fun k => do
        let a ← index l k
        return f k a : Outcome ε (List β)) = .ok (ps.map fun p => f p.2 p.1) := by
    intro ps hps
    induction ps with
    | nil => rfl
    | cons p ps ih =>
      have hindex : (index l p.2 : Outcome ε α) = .ok p.1 := by
        rw [index, hps p List.mem_cons_self]
        rfl
      rw [List.map_cons, List.mapM_cons, hindex, Result.ok_bind, Result.pure_eq_ok,
        Result.ok_bind, ih fun q hq => hps q (List.mem_cons_of_mem p hq)]
      rfl
  have hrange : List.range l.length = l.zipIdx.map Prod.snd := by
    rw [List.zipIdx_map_snd, List.range_eq_range']
  rw [hrange, hmapM l.zipIdx fun p hp => List.mem_zipIdx_iff_getElem?.mp hp,
    List.mapIdx_eq_zipIdx_map]

section Legacy

variable (tx : Transaction) (inputIndex : Nat)

/-- The part of `legacy_signature_hash` before the hash. -/
def legacyMessage (scriptCode : List UInt8) (hashType : UInt32) :
    Outcome ScriptError (List UInt8) := do
  let baseType := (hashType &&& 0x1f).toUInt8
  let anyoneCanPay := hashType.toUInt8 &&& sighashAnyonecanpay ≠ 0
  let signedInputs := if anyoneCanPay then [inputIndex] else List.range tx.inputs.length
  let inputs ← signedInputs.mapM (legacyInput tx inputIndex scriptCode baseType)
  let outputs ← legacyOutputs tx inputIndex baseType
  return encode tx.version ++ encode (VarInt.mk (UInt64.ofNat signedInputs.length)) ++
    inputs.flatten ++ outputs ++ encode tx.lockTime ++ encode hashType

/-- What `legacy_signature_hash` hashes. -/
def legacyHashed (scriptCode : List UInt8) (hashType : UInt32) : List (List UInt8) :=
  match legacyMessage tx inputIndex scriptCode hashType with
  | .ok message => [message]
  | .error _ => []

/-- `legacy_signature_hash` has nothing to hash: there is no such input, or no output for it. -/
def LegacyOutOfRange (hashType : UInt32) : Prop :=
  inputIndex ≥ tx.inputs.length ∨
    (hashType &&& 0x1f).toUInt8 = sighashSingle ∧ inputIndex ≥ tx.outputs.length

variable {tx inputIndex}

lemma legacySignatureHash_of_outOfRange [Sha2] {hashType : UInt32}
    (h : LegacyOutOfRange tx inputIndex hashType) (scriptCode : List UInt8) :
    legacySignatureHash tx inputIndex scriptCode hashType = .ok sighashSingleBug := by
  rw [legacySignatureHash]
  by_cases hin : inputIndex ≥ tx.inputs.length
  · exact if_pos hin
  · exact (if_neg hin).trans (if_pos (h.resolve_left hin))

lemma legacySignatureHash_of_inRange [Sha2] {hashType : UInt32}
    (h : ¬ LegacyOutOfRange tx inputIndex hashType) {scriptCode message : List UInt8}
    (hmessage : legacyMessage tx inputIndex scriptCode hashType = .ok message) :
    legacySignatureHash tx inputIndex scriptCode hashType = .ok (hash256 message) := by
  simp only [LegacyOutOfRange, not_or] at h
  simp only [legacyMessage, Result.bind_eq_ok] at hmessage
  obtain ⟨inputs, hinputs, outputs, houtputs, hmessage⟩ := hmessage
  rw [legacySignatureHash, if_neg h.1, if_neg h.2]
  dsimp only
  rw [hinputs, Result.ok_bind, houtputs, Result.ok_bind, ← Except.ok.inj hmessage]
  rfl

/-- One input of the message. -/
def legacyInputBytes (inputIndex : Nat) (scriptCode : List UInt8) (baseType : UInt8) (i : Nat)
    (input : TxIn) : List UInt8 :=
  encode input.previousOutput ++ encodeVarBytes (if i = inputIndex then scriptCode else []) ++
    encode (if i ≠ inputIndex ∧ (baseType = sighashNone ∨ baseType = sighashSingle) then 0
      else input.sequence)

lemma mapM_legacyInput (scriptCode : List UInt8) (baseType : UInt8) :
    (List.range tx.inputs.length).mapM (legacyInput tx inputIndex scriptCode baseType) =
      .ok (tx.inputs.mapIdx (legacyInputBytes inputIndex scriptCode baseType)) :=
  mapM_range_index tx.inputs (legacyInputBytes inputIndex scriptCode baseType)

/-- Only the signed input has the scriptCode. -/
lemma legacyInputBytes_of_ne (scriptCode : List UInt8) {baseType : UInt8} {i : Nat}
    (hi : i ≠ inputIndex) (input : TxIn) :
    legacyInputBytes inputIndex scriptCode baseType i input =
      legacyInputBytes inputIndex [] baseType i input := by
  simp [legacyInputBytes, hi]

lemma legacyInputBytes_self (scriptCode : List UInt8) (baseType : UInt8) (input : TxIn) :
    legacyInputBytes inputIndex scriptCode baseType inputIndex input =
      encode input.previousOutput ++ (encodeVarBytes scriptCode ++ encode input.sequence) := by
  simp [legacyInputBytes]

/-- The inputs before the signed one, the signed one and those after it. -/
lemma exists_flatten_legacyInputs (hin : inputIndex < tx.inputs.length) (baseType : UInt8) :
    ∃ before after, ∀ scriptCode,
      (tx.inputs.mapIdx (legacyInputBytes inputIndex scriptCode baseType)).flatten =
        before ++ (encodeVarBytes scriptCode ++ after) := by
  have hsplit : tx.inputs =
      tx.inputs.take inputIndex ++ tx.inputs[inputIndex] :: tx.inputs.drop (inputIndex + 1) := by
    rw [← List.drop_eq_getElem_cons hin, List.take_append_drop]
  have hlen : (tx.inputs.take inputIndex).length = inputIndex := by
    rw [List.length_take]
    omega
  refine ⟨((tx.inputs.take inputIndex).mapIdx (legacyInputBytes inputIndex [] baseType)).flatten ++
      encode tx.inputs[inputIndex].previousOutput,
    encode tx.inputs[inputIndex].sequence ++ ((tx.inputs.drop (inputIndex + 1)).mapIdx fun k =>
      legacyInputBytes inputIndex [] baseType (k + 1 + inputIndex)).flatten, ?_⟩
  intro scriptCode
  have hbefore : (tx.inputs.take inputIndex).mapIdx
      (legacyInputBytes inputIndex scriptCode baseType) =
      (tx.inputs.take inputIndex).mapIdx (legacyInputBytes inputIndex [] baseType) := by
    refine List.mapIdx_eq_mapIdx_iff.mpr fun k hk => ?_
    rw [hlen] at hk
    exact legacyInputBytes_of_ne scriptCode hk.ne _
  have hafter : (tx.inputs.drop (inputIndex + 1)).mapIdx
      (fun k => legacyInputBytes inputIndex scriptCode baseType (k + 1 + inputIndex)) =
      (tx.inputs.drop (inputIndex + 1)).mapIdx
        fun k => legacyInputBytes inputIndex [] baseType (k + 1 + inputIndex) := by
    refine List.mapIdx_eq_mapIdx_iff.mpr fun k _ => ?_
    exact legacyInputBytes_of_ne scriptCode (by omega) _
  conv_lhs => rw [hsplit]
  rw [List.mapIdx_append, List.mapIdx_cons, hlen, hbefore, hafter, Nat.zero_add,
    legacyInputBytes_self]
  simp

/-- The outputs of the message are there. -/
lemma exists_legacyOutputs {baseType : UInt8}
    (h : baseType = sighashSingle → inputIndex < tx.outputs.length) :
    ∃ outputs, legacyOutputs tx inputIndex baseType = .ok outputs := by
  unfold legacyOutputs
  split_ifs with hnone hsingle
  · exact ⟨_, rfl⟩
  · have hall : ∀ ks : List Nat, (∀ k ∈ ks, k < tx.outputs.length) →
        ∃ outputs, ks.mapM (legacySingleOutput tx inputIndex) = .ok outputs := by
      intro ks hks
      induction ks with
      | nil => exact ⟨[], rfl⟩
      | cons k ks ih =>
        obtain ⟨rest, hrest⟩ := ih fun l hl => hks l (List.mem_cons_of_mem k hl)
        have hk : ∃ output, legacySingleOutput tx inputIndex k = .ok output := by
          unfold legacySingleOutput
          split_ifs
          · exact ⟨_, rfl⟩
          · rw [index_of_lt (hks k List.mem_cons_self)]
            exact ⟨_, rfl⟩
        obtain ⟨output, houtput⟩ := hk
        rw [List.mapM_cons, houtput, Result.ok_bind, hrest]
        exact ⟨_, rfl⟩
    obtain ⟨outputs, houtputs⟩ := hall (List.range (inputIndex + 1)) fun k hk => by
      have hle := List.mem_range.mp hk
      have hlt := h hsingle
      omega
    rw [houtputs]
    exact ⟨_, rfl⟩
  · exact ⟨_, rfl⟩

/-- The scriptCode stands at one place of the message. -/
lemma exists_legacyMessage {hashType : UInt32} (h : ¬ LegacyOutOfRange tx inputIndex hashType) :
    ∃ before after, ∀ scriptCode, legacyMessage tx inputIndex scriptCode hashType =
      .ok (before ++ (encodeVarBytes scriptCode ++ after)) := by
  simp only [LegacyOutOfRange, not_or, not_and, not_le] at h
  obtain ⟨hin, hsingle⟩ := h
  obtain ⟨outputs, houtputs⟩ := exists_legacyOutputs hsingle
  have hinputs : ∃ before after, ∀ scriptCode, ∃ inputs,
      (if hashType.toUInt8 &&& sighashAnyonecanpay ≠ 0 then [inputIndex]
        else List.range tx.inputs.length).mapM
          (legacyInput tx inputIndex scriptCode (hashType &&& 0x1f).toUInt8) = .ok inputs ∧
      inputs.flatten = before ++ (encodeVarBytes scriptCode ++ after) := by
    by_cases hacp : hashType.toUInt8 &&& sighashAnyonecanpay ≠ 0
    · refine ⟨encode tx.inputs[inputIndex].previousOutput, encode tx.inputs[inputIndex].sequence,
        ?_⟩
      intro scriptCode
      rw [if_pos hacp]
      refine ⟨[legacyInputBytes inputIndex scriptCode (hashType &&& 0x1f).toUInt8 inputIndex
        tx.inputs[inputIndex]], ?_, ?_⟩
      · rw [List.mapM_cons, legacyInput, index_of_lt hin]
        rfl
      · simpa using legacyInputBytes_self scriptCode _ _
    · obtain ⟨before, after, hflat⟩ := exists_flatten_legacyInputs hin (hashType &&& 0x1f).toUInt8
      refine ⟨before, after, fun scriptCode => ?_⟩
      rw [if_neg hacp, mapM_legacyInput]
      exact ⟨_, rfl, hflat scriptCode⟩
  obtain ⟨before, after, hinputs⟩ := hinputs
  refine ⟨encode tx.version ++ encode (VarInt.mk (UInt64.ofNat
      (if hashType.toUInt8 &&& sighashAnyonecanpay ≠ 0 then [inputIndex]
        else List.range tx.inputs.length).length)) ++ before,
    after ++ outputs ++ encode tx.lockTime ++ encode hashType, fun scriptCode => ?_⟩
  obtain ⟨inputs, hmapM, hflat⟩ := hinputs scriptCode
  rw [legacyMessage, hmapM, Result.ok_bind, houtputs, Result.ok_bind, hflat]
  simp only [List.append_assoc, Result.pure_eq_ok]

end Legacy

/-! ### The messages of version 0 witness programs -/

section WitnessV0

variable [Sha2] {tx : Transaction} {inputIndex : Nat}

/-- What `Bip143Cache::new` hashes. -/
def Bip143Cache.messages (tx : Transaction) : List (List UInt8) :=
  [tx.inputs.flatMap fun i => encode i.previousOutput, tx.inputs.flatMap fun i => encode i.sequence,
    tx.outputs.flatMap encodeOutput]

/-- What `witness_v0_signature_hash` hashes for an input under `SIGHASH_ALL`. -/
def witnessV0AllMessage (tx : Transaction) (input : TxIn) (scriptCode : List UInt8)
    (amountSat : UInt64) (cache : Bip143Cache) : List UInt8 :=
  encode tx.version ++ encode cache.hashPrevouts ++ encode cache.hashSequence ++
    encode input.previousOutput ++ encodeVarBytes scriptCode ++ encode amountSat ++
    encode input.sequence ++ encode cache.hashOutputs ++ encode tx.lockTime ++
    encode (1 : UInt32)

/-- What is hashed for a signature of a version 0 witness program under `SIGHASH_ALL`. -/
def witnessV0AllHashed (tx : Transaction) (inputIndex : Nat) (scriptCode : List UInt8)
    (amountSat : UInt64) : List (List UInt8) :=
  Bip143Cache.messages tx ++ tx.inputs[inputIndex]?.toList.map fun input =>
    witnessV0AllMessage tx input scriptCode amountSat (Bip143Cache.new tx)

lemma witnessV0SignatureHash_all {scriptCode : List UInt8} {amountSat : UInt64}
    {cache : Bip143Cache} {digest : Bytes32}
    (h : witnessV0SignatureHash tx inputIndex scriptCode amountSat 1 cache = .ok digest) :
    ∃ input, tx.inputs[inputIndex]? = some input ∧
      digest = hash256 (witnessV0AllMessage tx input scriptCode amountSat cache) := by
  simp only [witnessV0SignatureHash, Result.bind_eq_ok] at h
  obtain ⟨hashOutputs, houtputs, input, hinput, hdigest⟩ := h
  cases houtputs
  cases hget : tx.inputs[inputIndex]? with
  | none =>
    rw [index, hget] at hinput
    cases hinput
  | some input' =>
    rw [index, hget] at hinput
    cases hinput
    exact ⟨_, rfl, (Except.ok.inj hdigest).symm⟩

end WitnessV0

/-! ### The taproot message -/

section Taproot

variable [Sha2] (tx : Transaction) (inputIndex : Nat) (spentOutputs : List TxOut)

/-- What `TaprootCache::new` hashes. -/
def TaprootCache.messages : List (List UInt8) :=
  [tx.inputs.flatMap fun i => encode i.previousOutput,
    spentOutputs.flatMap fun o => encode o.value.sat,
    spentOutputs.flatMap fun o => encodeVarBytes o.scriptPubkey.bytes,
    tx.inputs.flatMap fun i => encode i.sequence, tx.outputs.flatMap encodeOutput]

/-- The outputs that a hash type selects. -/
def taprootOutputType (hashType : UInt8) : UInt8 :=
  if hashType = sighashDefault then sighashAll else hashType &&& 3

/-- The tapscript extension; without a leaf hash there is none. -/
def taprootExtension (extFlag : UInt8) (execData : ScriptExecutionData) : Option (List UInt8) :=
  if extFlag = 1 then
    execData.tapleafHash.map fun leaf =>
      leaf.toList ++ [0x00] ++ encode execData.codeseparatorPos
  else some []

/-- The message up to the outputs. -/
def taprootHead (hashType : UInt8) (cache : TaprootCache) : List UInt8 :=
  [0x00, hashType] ++ encode tx.version ++ encode tx.lockTime ++
    if hashType &&& sighashAnyonecanpay = sighashAnyonecanpay then []
    else cache.shaPrevouts.toList ++ cache.shaAmounts.toList ++ cache.shaScriptpubkeys.toList ++
      cache.shaSequences.toList

/-- The spend type and the annex, around the part about the input. -/
def taprootSpend (extFlag : UInt8) (execData : ScriptExecutionData) (input : List UInt8) :
    List UInt8 :=
  [extFlag <<< 1 ||| if execData.annexHash.isSome then 1 else 0] ++ input ++
    (execData.annexHash.map (·.toList)).getD []

/-- There is such an input, with an output for it under `SIGHASH_SINGLE`. -/
structure TaprootInRange (hashType : UInt8) : Prop where
  input : inputIndex < tx.inputs.length
  spent : spentOutputs.length = tx.inputs.length
  single : taprootOutputType hashType = sighashSingle → inputIndex < tx.outputs.length

/-- The part of `taproot_signature_hash` before the hash. -/
def taprootMessage (hashType extFlag : UInt8) (execData : ScriptExecutionData)
    (cache : TaprootCache) : Outcome ScriptError (Option (List UInt8)) := do
  let input ← taprootInput tx inputIndex spentOutputs
    (hashType &&& sighashAnyonecanpay = sighashAnyonecanpay)
  let single ← taprootSingleOutput tx inputIndex (taprootOutputType hashType)
  let outputs := if taprootOutputType hashType = sighashAll then cache.shaOutputs.toList else []
  return (taprootExtension extFlag execData).map fun extension =>
    taprootHead tx hashType cache ++ outputs ++ taprootSpend extFlag execData input ++ single ++
      extension

/-- The message with the hash of its tag, twice. -/
def tapSighashInput (message : List UInt8) : List UInt8 :=
  let tagHash := (sha256 ("TapSighash".toList.map fun c => UInt8.ofNat c.toNat)).toList
  tagHash ++ tagHash ++ message

/-- What is hashed for a taproot signature, apart from the tag. -/
def taprootHashed (hashType extFlag : UInt8) (execData : ScriptExecutionData) :
    List (List UInt8) :=
  TaprootCache.messages tx spentOutputs ++
    match taprootMessage tx inputIndex spentOutputs hashType extFlag execData
      (TaprootCache.new tx spentOutputs) with
    | .ok (some message) => [tapSighashInput message]
    | _ => []

variable {tx inputIndex spentOutputs} {hashType extFlag : UInt8} {execData : ScriptExecutionData}
  {cache : TaprootCache}

lemma taprootSignatureHash_of_outOfRange
    (h : ¬ TaprootInRange tx inputIndex spentOutputs hashType) :
    taprootSignatureHash tx inputIndex spentOutputs hashType extFlag execData cache = .ok none := by
  rw [taprootSignatureHash]
  by_cases hin : inputIndex ≥ tx.inputs.length ∨ spentOutputs.length ≠ tx.inputs.length
  · exact if_pos hin
  · refine (if_neg hin).trans (if_pos ?_)
    simp only [not_or, not_le, ge_iff_le, not_not] at hin
    by_contra hsingle
    refine h ⟨hin.1, hin.2, fun hs => ?_⟩
    exact not_le.mp fun hle => hsingle ⟨hs, hle⟩

lemma taprootSignatureHash_of_inRange (h : TaprootInRange tx inputIndex spentOutputs hashType) :
    taprootSignatureHash tx inputIndex spentOutputs hashType extFlag execData cache =
      taprootMessage tx inputIndex spentOutputs hashType extFlag execData cache >>=
        fun message => .ok (message.map (taggedHash "TapSighash")) := by
  have hin : ¬ (inputIndex ≥ tx.inputs.length ∨ spentOutputs.length ≠ tx.inputs.length) := by
    rintro (hle | hne)
    · exact absurd h.input (not_lt.mpr hle)
    · exact hne h.spent
  have hsingle : ¬ (taprootOutputType hashType = sighashSingle ∧
      inputIndex ≥ tx.outputs.length) := fun hs => absurd (h.single hs.1) (not_lt.mpr hs.2)
  rw [taprootSignatureHash, if_neg hin]
  refine (if_neg hsingle).trans ?_
  simp only [taprootMessage, bind_assoc]
  refine bind_congr fun input => bind_congr fun single => ?_
  simp only [taprootExtension, taprootHead, taprootSpend, taprootOutputType, Result.pure_eq_ok,
    Result.ok_bind]
  split_ifs <;> cases execData.tapleafHash <;> simp

/-- A digest is that of a message. -/
lemma exists_taprootMessage {digest : Bytes32}
    (h : taprootSignatureHash tx inputIndex spentOutputs hashType extFlag execData cache =
      .ok (some digest)) :
    TaprootInRange tx inputIndex spentOutputs hashType ∧ ∃ message,
      taprootMessage tx inputIndex spentOutputs hashType extFlag execData cache =
        .ok (some message) ∧ digest = sha256 (tapSighashInput message) := by
  by_cases hin : TaprootInRange tx inputIndex spentOutputs hashType
  · rw [taprootSignatureHash_of_inRange hin] at h
    obtain ⟨message, hmessage, h⟩ := Result.bind_eq_ok.mp h
    cases message with
    | none => cases h
    | some message =>
      cases h
      exact ⟨hin, message, hmessage, rfl⟩
  · rw [taprootSignatureHash_of_outOfRange hin] at h
    cases h

/-- A digest is there exactly when the input is, and the leaf hash where it is needed. -/
lemma exists_taprootSignatureHash_iff :
    (∃ digest, taprootSignatureHash tx inputIndex spentOutputs hashType extFlag execData cache =
      .ok (some digest)) ↔
      TaprootInRange tx inputIndex spentOutputs hashType ∧
        (extFlag = 1 → execData.tapleafHash.isSome) := by
  by_cases h : TaprootInRange tx inputIndex spentOutputs hashType
  · obtain ⟨input, hinput⟩ : ∃ input, taprootInput tx inputIndex spentOutputs
        (hashType &&& sighashAnyonecanpay = sighashAnyonecanpay) = .ok input := by
      unfold taprootInput
      split_ifs
      · rw [index_of_lt h.input, Result.ok_bind, index_of_lt (h.spent ▸ h.input)]
        exact ⟨_, rfl⟩
      · exact ⟨_, rfl⟩
    obtain ⟨single, hsingle⟩ : ∃ single, taprootSingleOutput tx inputIndex
        (taprootOutputType hashType) = .ok single := by
      unfold taprootSingleOutput
      split_ifs with hs
      · rw [index_of_lt (h.single hs)]
        exact ⟨_, rfl⟩
      · exact ⟨_, rfl⟩
    rw [taprootSignatureHash_of_inRange h, taprootMessage, hinput, Result.ok_bind, hsingle,
      Result.ok_bind]
    simp only [h, true_and, taprootExtension, Result.pure_eq_ok, Result.ok_bind]
    by_cases hext : extFlag = 1
    · cases hleaf : execData.tapleafHash <;> simp [hext]
    · simp [hext]
  · simp [taprootSignatureHash_of_outOfRange h, h]

end Taproot

end Bitcrab
