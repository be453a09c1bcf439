import Bitcrab.Consensus.Validation

/-!
# What the stateless checks establish

`check_transaction` leaves transactions with distinct inputs, and `check_block` blocks small enough
that output indexes do not wrap around in the 32 bits of an outpoint.
-/

namespace Bitcrab

open Result

lemma checkDuplicateInputs_eq_ok {seen : List OutPoint} {inputs : List TxIn}
    (h : checkDuplicateInputs seen inputs = .ok ()) :
    (inputs.map (·.previousOutput)).Nodup ∧ ∀ o ∈ inputs.map (·.previousOutput), o ∉ seen := by
  induction inputs generalizing seen with
  | nil => simp
  | cons input inputs ih =>
    simp only [checkDuplicateInputs, ite_error_eq_ok] at h
    obtain ⟨hnot, hrest⟩ := h
    obtain ⟨hnodup, hseen⟩ := ih hrest
    simp only [List.map_cons, List.nodup_cons, List.forall_mem_cons]
    refine ⟨⟨?_, hnodup⟩, hnot, ?_⟩
    · intro hmem
      exact hseen _ hmem List.mem_cons_self
    · intro o ho hmem
      exact hseen o ho (List.mem_cons_of_mem _ hmem)

/-- The sum that `check_transaction` forms is the one of `output_value`. -/
lemma sumOutputs_of_checkOutputs {acc total : Amount} {outputs : List TxOut}
    (h : checkOutputs acc outputs = .ok total) :
    Transaction.sumOutputs acc outputs = some total := by
  induction outputs generalizing acc with
  | nil => simpa [checkOutputs, Transaction.sumOutputs] using h
  | cons output outputs ih =>
    simp only [checkOutputs, bind_eq_ok, throw_eq_error, error_bind, ite_error_eq_ok,
      okOr_eq_ok] at h
    obtain ⟨-, acc', hacc, hrest⟩ := h
    exact Option.bind_eq_some_iff.mpr ⟨acc', hacc, ih hrest⟩

/-- What a transaction that passes `check_transaction` is like. -/
structure WellFormedTx (tx : Transaction) : Prop where
  inputs : tx.inputs ≠ []
  outputs : tx.outputs ≠ []
  value : ∃ total, tx.outputValue = some total
  spends : tx.spends.Nodup
  notNull : ¬ tx.isCoinbase → OutPoint.coinbase ∉ tx.spends

lemma wellFormedTx_of_checkTransaction {tx : Transaction} (h : checkTransaction tx = .ok ()) :
    WellFormedTx tx := by
  simp only [checkTransaction, bind_eq_ok, throw_eq_error, error_bind, pure_eq_ok,
    ite_error_eq_ok] at h
  obtain ⟨hin, hout, total, hsum, -, _, hdup, hform⟩ := h
  refine ⟨by simpa using hin, by simpa using hout, ⟨total, sumOutputs_of_checkOutputs hsum⟩,
    (checkDuplicateInputs_eq_ok hdup).1, ?_⟩
  intro hcb hmem
  rw [if_neg hcb, ite_error_eq_ok] at hform
  apply hform.1
  obtain ⟨input, hinput, hnull⟩ := List.mem_map.mp hmem
  rw [List.any_eq_true]
  exact ⟨input, hinput, (OutPoint.isCoinbase_iff _).mpr hnull⟩

/-- A coinbase-form transaction spends the null outpoint only. -/
lemma spends_of_isCoinbase {tx : Transaction} (h : tx.isCoinbase) :
    tx.spends = [OutPoint.coinbase] := by
  obtain ⟨i, hi, hnull⟩ := (Transaction.isCoinbase_iff tx).mp h
  simp [Transaction.spends, hi, hnull]

/-- A block with a transaction is its coinbase and the rest. -/
lemma transactions_eq {block : Block} (h : block.transactions ≠ []) :
    block.transactions = block.coinbase :: block.rest := by
  cases htxs : block.transactions with
  | nil => exact absurd htxs h
  | cons tx txs => simp [Block.coinbase, Block.rest, htxs]

/-! ### Outpoints -/

section Outpoints

variable [Sha2]

/-- The outpoints of a transaction's outputs. -/
def Transaction.outpoints (tx : Transaction) : List OutPoint :=
  tx.outputs.zipIdx.map fun p => ⟨tx.txid, UInt32.ofNat p.2⟩

@[simp] lemma map_fst_created (tx : Transaction) (height : BlockHeight) (isCoinbase : Bool) :
    (tx.created height isCoinbase).map Prod.fst = tx.outpoints := by
  simp [Transaction.created, Transaction.outpoints, Function.comp_def]

lemma txid_of_mem_outpoints {tx : Transaction} {o : OutPoint} (h : o ∈ tx.outpoints) :
    o.txid = tx.txid := by
  obtain ⟨p, -, rfl⟩ := List.mem_map.mp h
  rfl

/-- With fewer outputs than indexes, the outpoints of a transaction are distinct. -/
lemma nodup_outpoints {tx : Transaction} (h : tx.outputs.length < 2 ^ 32 - 1) :
    tx.outpoints.Nodup := by
  have hindex : tx.outpoints =
      (List.range tx.outputs.length).map fun i => ⟨tx.txid, UInt32.ofNat i⟩ := by
    rw [List.range_eq_range', ← List.zipIdx_map_snd 0 tx.outputs, List.map_map]
    rfl
  rw [hindex]
  apply List.nodup_range.map_on
  intro i hi j hj hij
  rw [List.mem_range] at hi hj
  have hvout := congrArg (fun o => o.vout.toNat) hij
  simp only [UInt32.toNat_ofNat'] at hvout
  omega

/-- With fewer outputs than indexes, no transaction creates the null outpoint. -/
lemma coinbase_notMem_outpoints {tx : Transaction} (h : tx.outputs.length < 2 ^ 32 - 1) :
    OutPoint.coinbase ∉ tx.outpoints := by
  intro hmem
  obtain ⟨p, hp, heq⟩ := List.mem_map.mp hmem
  have hlt : p.2 < tx.outputs.length := by
    simpa using List.snd_lt_of_mem_zipIdx hp
  have hvout := congrArg (fun o => o.vout.toNat) heq
  simp only [UInt32.toNat_ofNat', OutPoint.coinbase] at hvout
  have hmax : (0xFFFFFFFF : UInt32).toNat = 2 ^ 32 - 1 := rfl
  omega

end Outpoints

/-! ### Sizes -/

lemma length_encode_le_of_mem {α : Type} [BitcoinEncode α] {l : List α} {a : α} (h : a ∈ l) :
    (encode a).length ≤ (encodeVarList l).length := by
  have hle := (List.sublist_flatten_of_mem (List.mem_map_of_mem (f := encode) h)).length_le
  rw [encodeVarList, List.length_append, List.flatMap_def]
  omega

lemma length_le_length_encodeVarList {α : Type} [BitcoinEncode α] {l : List α}
    (h : ∀ a ∈ l, 1 ≤ (encode a).length) : l.length ≤ (encodeVarList l).length := by
  have hsum : l.length ≤ (l.map fun a => (encode a).length).sum := by
    induction l with
    | nil => simp
    | cons a l ih =>
      have ha := h a List.mem_cons_self
      have hl := ih fun b hb => h b (List.mem_cons_of_mem _ hb)
      simp only [List.length_cons, List.map_cons, List.sum_cons]
      omega
  rw [encodeVarList, List.length_append, List.length_flatMap]
  omega

/-- The outputs of a transaction are part of its encoding. -/
lemma length_encodeVarList_outputs_le (tx : Transaction) :
    (encodeVarList tx.outputs).length ≤ (encode tx).length := by
  unfold encode instBitcoinEncodeTransaction
  dsimp only
  split_ifs
  · simp only [List.length_append]
    omega
  · simp only [Transaction.encodeBase, List.length_append]
    omega

/-- The outputs of the transactions of a block are part of its encoding. -/
lemma length_encodeVarList_outputs_le_weight {block : Block} {tx : Transaction}
    (h : tx ∈ block.transactions) : (encodeVarList tx.outputs).length ≤ block.weight := by
  have htx := length_encodeVarList_outputs_le tx
  have hlist := length_encode_le_of_mem h
  have hblock : (serialize block).length =
      (encode block.header).length + (encodeVarList block.transactions).length :=
    List.length_append
  unfold Block.weight
  dsimp only
  omega

/-- What a block that passes `check_block` is like. -/
structure WellFormedBlock [Sha2] (block : Block) : Prop where
  ne_nil : block.transactions ≠ []
  merkleRoot : block.header.merkleRoot = block.computeMerkleRoot
  coinbase : block.coinbase.isCoinbase
  transactions : ∀ tx ∈ block.transactions, WellFormedTx tx
  weight : block.weight ≤ maxBlockWeight

lemma wellFormedBlock_of_checkBlock [Sha2] [ScriptVerifier] {block : Block}
    {params : ChainParams} (h : checkBlock block params = .ok ()) : WellFormedBlock block := by
  simp only [checkBlock, bind_eq_ok, throw_eq_error, error_bind, pure_eq_ok, ite_error_eq_ok,
    ite_eq_ok_unit, mapError_eq_ok] at h
  obtain ⟨hne, hroot, hcb, _, htxs, hweight, -⟩ := h
  refine ⟨by simpa using hne, by simpa using hroot, by simpa using hcb, ?_, by simpa using hweight⟩
  intro tx htx
  exact wellFormedTx_of_checkTransaction (forM_eq_ok.mp htxs tx htx)

namespace WellFormedBlock

variable [Sha2] {block : Block} {tx : Transaction}

/-- A well-formed block has far fewer outputs than an outpoint has indexes. -/
lemma length_outputs_lt (h : WellFormedBlock block) (htx : tx ∈ block.transactions) :
    tx.outputs.length < 2 ^ 32 - 1 := by
  have hone : ∀ output ∈ tx.outputs, 1 ≤ (encode output).length := by
    intro output _
    have hlen : (encode output).length =
        (encode output.value).length + (encode output.scriptPubkey).length := List.length_append
    have hvalue : (encode output.value).length = 8 := Bytes.length_leBytes 8 _
    omega
  have hcount := length_le_length_encodeVarList hone
  have hle := length_encodeVarList_outputs_le_weight htx
  have hweight := h.weight
  unfold maxBlockWeight at hweight
  omega

/-- The scripts of a well-formed block are within the limit of the decoder. -/
lemma length_script_le (h : WellFormedBlock block) (htx : tx ∈ block.transactions)
    {output : TxOut} (hout : output ∈ tx.outputs) :
    output.scriptPubkey.bytes.length ≤ maxWireAllocation := by
  have hlen : (encode output).length =
      (encode output.value).length + (encode output.scriptPubkey).length := List.length_append
  have hscript : (encode output.scriptPubkey).length =
      (encode (VarInt.mk (UInt64.ofNat output.scriptPubkey.bytes.length))).length +
        output.scriptPubkey.bytes.length := List.length_append
  have hmem := length_encode_le_of_mem hout
  have hle := length_encodeVarList_outputs_le_weight htx
  have hweight := h.weight
  unfold maxBlockWeight at hweight
  unfold maxWireAllocation
  omega

end WellFormedBlock

end Bitcrab
