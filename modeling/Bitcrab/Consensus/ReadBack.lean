import Bitcrab.Consensus.CheckBlock
import Bitcrab.Types.Codec

/-!
# Blocks that pass `check_block` can be read back

The weight of a block bounds its encoding, and the encoding the lengths of its parts, so that none
of them is over the allocation limit of the decoder.
-/

namespace Bitcrab

variable {tx : Transaction} {block : Block}

/-- The inputs of a transaction are part of its encoding. -/
lemma length_encodeVarList_inputs_le (tx : Transaction) :
    (encodeVarList tx.inputs).length ≤ (encode tx).length := by
  unfold encode instBitcoinEncodeTransaction
  dsimp only
  split_ifs
  · simp only [List.length_append]
    omega
  · simp only [Transaction.encodeBase, List.length_append]
    omega

/-- A transaction without a witness has empty witness stacks. -/
lemma witness_eq_nil_of_not_isSegwit (h : tx.isSegwit = false) {input : TxIn}
    (hinput : input ∈ tx.inputs) : input.witness = [] := by
  have hnone := List.any_eq_false.mp h input hinput
  simpa using hnone

/-- The witness stacks of a segwit transaction are part of its encoding. -/
lemma length_witness_le_length_encode {input : TxIn} (hinput : input ∈ tx.inputs)
    (h : tx.isSegwit = true) : (encodeVarList input.witness).length ≤ (encode tx).length := by
  have hmem : (encodeVarList input.witness).length ≤
      (tx.inputs.flatMap fun i => encodeVarList i.witness).length := by
    rw [List.flatMap_def]
    exact (List.sublist_flatten_of_mem
      (List.mem_map_of_mem (f := fun i : TxIn => encodeVarList i.witness) hinput)).length_le
  unfold encode instBitcoinEncodeTransaction
  dsimp only
  rw [if_pos h]
  simp only [List.length_append]
  omega

lemma length_le_length_encodeVarBytes (bs : List UInt8) :
    bs.length ≤ (encodeVarBytes bs).length := by
  rw [encodeVarBytes, List.length_append]
  omega

lemma witnessWithinLimits_of_length_le (hsize : (encode tx).length ≤ maxWireAllocation)
    {input : TxIn} (hinput : input ∈ tx.inputs) : WitnessWithinLimits input.witness := by
  cases hsegwit : tx.isSegwit with
  | false =>
    rw [witness_eq_nil_of_not_isSegwit hsegwit hinput]
    exact ⟨Nat.zero_le _, by simp⟩
  | true =>
    have hle := length_witness_le_length_encode hinput hsegwit
    have hone : ∀ item ∈ input.witness, 1 ≤ (encode item).length := fun item _ =>
      List.length_pos_of_ne_nil (encodeVarBytes_ne_nil item)
    refine ⟨?_, fun item hitem => ?_⟩
    · exact Nat.le_trans (length_le_length_encodeVarList hone) (Nat.le_trans hle hsize)
    · have hitem' := length_encode_le_of_mem hitem
      have hbytes : item.length ≤ (encode item).length := length_le_length_encodeVarBytes item
      omega

/-- What is small as a whole is small in its parts. -/
lemma Transaction.withinLimits_of_length_le (hsize : (encode tx).length ≤ maxWireAllocation) :
    tx.WithinLimits where
  inputs := by
    have hone : ∀ input ∈ tx.inputs, 1 ≤ (encode input).length := fun input _ =>
      List.length_pos_of_ne_nil (encode_txIn_ne_nil input)
    have hcount := length_le_length_encodeVarList hone
    have hinputs := length_encodeVarList_inputs_le tx
    omega
  outputs := by
    have hone : ∀ output ∈ tx.outputs, 1 ≤ (encode output).length := fun output _ =>
      List.length_pos_of_ne_nil (encode_txOut_ne_nil output)
    have hcount := length_le_length_encodeVarList hone
    have houtputs := length_encodeVarList_outputs_le tx
    omega
  scriptSig := by
    intro input hinput
    have hmem := length_encode_le_of_mem hinput
    have hinputs := length_encodeVarList_inputs_le tx
    have hlen : (encode input).length = (encode input.previousOutput).length +
        (encodeVarBytes input.scriptSig.bytes).length + (encode input.sequence).length := by
      change (encode input.previousOutput ++ encode input.scriptSig ++
        encode input.sequence).length = _
      rw [List.length_append, List.length_append]
      rfl
    have hbytes := length_le_length_encodeVarBytes input.scriptSig.bytes
    omega
  scriptPubkey := by
    intro output houtput
    have hmem := length_encode_le_of_mem houtput
    have houtputs := length_encodeVarList_outputs_le tx
    have hlen : (encode output).length = (encode output.value).length +
        (encodeVarBytes output.scriptPubkey.bytes).length := List.length_append
    have hbytes := length_le_length_encodeVarBytes output.scriptPubkey.bytes
    omega
  witness := fun _ hinput => witnessWithinLimits_of_length_le hsize hinput

lemma length_encode_le_weight (block : Block) : (encode block).length ≤ block.weight := by
  have hsame : (serialize block).length = (encode block).length := rfl
  unfold Block.weight
  dsimp only
  omega

/-- A block that passes `check_block` is decoded as it was encoded. -/
lemma roundTrips_of_checkBlock [Sha2] [ScriptVerifier] {params : ChainParams}
    (h : checkBlock block params = .ok ()) : RoundTrips block := by
  have hform := wellFormedBlock_of_checkBlock h
  have hsize : (encode block).length ≤ maxWireAllocation := by
    have hle := length_encode_le_weight block
    have hweight := hform.weight
    unfold maxBlockWeight at hweight
    unfold maxWireAllocation
    omega
  have hlist : (encodeVarList block.transactions).length ≤ (encode block).length := by
    have hlen : (encode block).length = (encode block.header).length +
        (encodeVarList block.transactions).length := List.length_append
    omega
  have hone : ∀ tx ∈ block.transactions, 1 ≤ (encode tx).length := fun tx _ =>
    List.length_pos_of_ne_nil (Transaction.encode_ne_nil tx)
  refine Block.WithinLimits.roundTrips ⟨?_, fun tx htx => ?_⟩ fun tx htx =>
    (hform.transactions tx htx).inputs
  · exact Nat.le_trans (length_le_length_encodeVarList hone) (Nat.le_trans hlist hsize)
  · have hmem := length_encode_le_of_mem htx
    exact Transaction.withinLimits_of_length_le (by omega)

end Bitcrab
