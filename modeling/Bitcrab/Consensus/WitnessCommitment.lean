import Bitcrab.Consensus.ConnectBlock

/-!
# Witness data is committed to

From the segwit height on, a connected block that carries witness data has a coinbase output that
commits to all of it. Below that height `connect_block` does not look at commitments.
-/

namespace Bitcrab

open Result

section Commitment

variable [Sha2]

/-- An output of the coinbase commits to the witness merkle root and the nonce that is the
coinbase's only witness item. -/
def CommitsToWitness (block : Block) : Prop :=
  ∃ (i : ℕ) (output : TxOut) (nonce : List UInt8),
    block.coinbase.outputs[i]? = some output ∧
    isWitnessCommitment output.scriptPubkey.bytes ∧
    (block.coinbase.inputs.headD default).witness = [nonce] ∧ nonce.length = 32 ∧
    (output.scriptPubkey.bytes.drop 6).take 32 =
      (hash256 ((merkleRoot (witnessLeaves block)).bytes.toList ++ nonce)).toList

/-- A block that passes the commitment check carries no witness data or commits to it. -/
lemma commitsToWitness_of_checkWitnessCommitment {block : Block}
    (h : checkWitnessCommitment block = .ok ())
    (hwitness : ∃ tx ∈ block.transactions, tx.isSegwit) :
    CommitsToWitness block := by
  unfold checkWitnessCommitment at h
  cases hindex : getWitnessCommitmentIndex block.coinbase with
  | none =>
    rw [hindex] at h
    have hany : block.transactions.any Transaction.isSegwit := List.any_eq_true.mpr hwitness
    simp [hany] at h
  | some i =>
    obtain ⟨output, hget, -, hcommit⟩ := lastWitnessCommitment_spec hindex
    rw [Nat.sub_zero] at hget
    have hscript : block.coinbase.outputs.getD i ⟨Amount.zero, default⟩ = output := by
      simp [List.getD, hget]
    simp only [hindex, hscript] at h
    split at h
    · rename_i nonce hnonce
      split_ifs at h with hlen hbytes
      exact ⟨i, output, nonce, hget, hcommit, hnonce, by simpa using hlen, by simpa using hbytes⟩
    · simp at h

/-- A block connected at or above the segwit height that carries witness data commits to it. -/
theorem commitsToWitness_of_connectBlock [ScriptVerifier] {V : Type} [CoinsView V] {block : Block}
    {height : BlockHeight} {indexPrev : BlockIndex} {view view' : CoinsViewCache V}
    {params : ChainParams} {provider : BlockIndexProvider} {checkScripts : Bool}
    {engine : ConsensusEngine} {completion : List Nat} {fees : Amount} {undo : BlockUndo}
    (hheight : params.consensus.segwitHeight ≤ height)
    (h : connectBlock block height indexPrev view params provider checkScripts engine completion =
      (.ok (fees, undo), view'))
    (hwitness : ∃ tx ∈ block.transactions, tx.isSegwit) : CommitsToWitness block := by
  obtain ⟨st, -, hvalid, -⟩ := connectBlock_eq_ok h
  exact commitsToWitness_of_checkWitnessCommitment (hvalid.commitment hheight) hwitness

end Commitment

namespace Sample

/-- A payment whose input carries a witness. -/
def witnessPayment : Transaction where
  version := 1
  inputs := [⟨sampleOutPoint 0, ⟨[]⟩, 0, [[0x01]]⟩]
  outputs := [⟨⟨4999999900⟩, ⟨[]⟩⟩]
  lockTime := 0

/-- The coinbase of a block with witness data: the nonce is zero. -/
def committingCoinbase : Transaction where
  version := 1
  inputs := [⟨OutPoint.coinbase, ⟨[0x51, 0x51]⟩, 0xffffffff, [List.replicate 32 0]⟩]
  outputs :=
    [⟨⟨5000000100⟩, ⟨[]⟩⟩,
      ⟨⟨0⟩, ⟨[0x6a, 0x24, 0xaa, 0x21, 0xa9, 0xed, 0x0b, 0x4f, 0x4c, 0x4e, 0x4f, 0x7a, 0x85, 0xb1,
        0x4b, 0x27, 0xf5, 0x36, 0x27, 0x44, 0x27, 0x56, 0x2f, 0xd9, 0x13, 0xc5, 0xc1, 0xbb, 0x59,
        0x76, 0xc5, 0x2a, 0x7c, 0x22, 0xe9, 0x8d, 0x35, 0xc6]⟩⟩]
  lockTime := 0

/-- A block with a witness commitment. -/
def committedBlock : Block where
  header := header [0x81, 0x7e, 0x8b, 0x4f, 0xa0, 0xf5, 0xb7, 0xd8, 0x56, 0xb4, 0x3f, 0x3e, 0x4f,
    0x0c, 0x7a, 0x76, 0xaf, 0xed, 0xd2, 0x0d, 0x9f, 0xf7, 0x3e, 0x2d, 0x85, 0x73, 0xdc, 0x09, 0x77,
    0x7f, 0xde, 0xb9] 1
  transactions := [committingCoinbase, witnessPayment]

set_option maxRecDepth 100000 in
lemma connect_committedBlock_fst :
    (connect committedBlock regtestParams).1 = .ok (⟨100⟩, ⟨[sampleCoin]⟩) := by
  decide +kernel

theorem commitsToWitness_of_connectBlock_committedBlock : CommitsToWitness committedBlock := by
  have h : connect committedBlock regtestParams =
      (.ok (⟨100⟩, ⟨[sampleCoin]⟩), (connect committedBlock regtestParams).2) := by
    rw [← connect_committedBlock_fst]
  exact commitsToWitness_of_connectBlock (by decide) h
    ⟨witnessPayment, by simp [committedBlock], rfl⟩

/-- Regtest with a later segwit height. -/
def lateSegwitParams : ChainParams :=
  { regtestParams with consensus := { regtestParams.consensus with segwitHeight := 100 } }

/-- A block that carries witness data and commits to none. -/
def uncommittedBlock : Block where
  header := header [0x8f, 0x30, 0xf3, 0x32, 0x7c, 0x66, 0x9b, 0x23, 0xbb, 0xa1, 0xf9, 0x02, 0x51,
    0x5f, 0x81, 0x50, 0x9d, 0xb8, 0x15, 0xd7, 0xfd, 0x7d, 0x8b, 0xe8, 0x37, 0xf2, 0xc1, 0x4a, 0xb0,
    0xa9, 0x20, 0x4a] 0
  transactions := [coinbaseTx 5000000100, witnessPayment]

set_option maxRecDepth 100000 in
lemma connect_uncommittedBlock_fst :
    (connect uncommittedBlock lateSegwitParams).1 = .ok (⟨100⟩, ⟨[sampleCoin]⟩) := by
  decide +kernel

/-- Below the segwit height, a block with witness data and no commitment is connected. -/
theorem uncommittedBlock_connects :
    ∃ fees undo, (connect uncommittedBlock lateSegwitParams).1 = .ok (fees, undo) ∧
      (∃ tx ∈ uncommittedBlock.transactions, tx.isSegwit) ∧
        ¬ CommitsToWitness uncommittedBlock := by
  refine ⟨_, _, connect_uncommittedBlock_fst, ⟨witnessPayment, by simp [uncommittedBlock], rfl⟩, ?_⟩
  -- the only output of the coinbase has an empty script
  rintro ⟨i, output, -, hget, hcommit, -⟩
  have hmem : output ∈ (coinbaseTx 5000000100).outputs := List.mem_of_getElem? hget
  obtain rfl : output = ⟨⟨5000000100⟩, ⟨[]⟩⟩ := by simpa [coinbaseTx] using hmem
  simp [isWitnessCommitment, minimumWitnessCommitment] at hcommit

end Sample

end Bitcrab
