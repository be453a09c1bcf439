import Bitcrab.Consensus.ConnectBlock

/-!
# What a header says about the transactions

The merkle root of a header commits to the list of txids only up to its length: a level of odd
length is folded as if its last hash stood there twice, so that a list and the list with its tail
repeated can have the same root.
-/

namespace Bitcrab

section Merkle

variable [Sha2]

/-- The messages hashed for the merkle root of a block: its transactions without witnesses, and the
concatenated children of the inner nodes. -/
def merkleMessages (block : Block) : List (List UInt8) :=
  block.transactions.map Transaction.encodeBase ++
    (PairFold.inputs hashPair block.leaves.length block.leaves).map
      fun p => p.1.bytes.toList ++ p.2.bytes.toList

/-- No two of the messages hashed for the merkle roots of two blocks collide. -/
def NoCollision (b b' : Block) : Prop :=
  ∀ m ∈ merkleMessages b ++ merkleMessages b', ∀ m' ∈ merkleMessages b ++ merkleMessages b',
    hash256 m = hash256 m' → m = m'

/-- Children with the same hash are the same if their messages do not collide. -/
lemma hashPair_injOn {p q : Hash256 × Hash256}
    (h : hash256 (p.1.bytes.toList ++ p.2.bytes.toList) =
        hash256 (q.1.bytes.toList ++ q.2.bytes.toList) →
      p.1.bytes.toList ++ p.2.bytes.toList = q.1.bytes.toList ++ q.2.bytes.toList)
    (hpq : hashPair p.1 p.2 = hashPair q.1 q.2) : p = q := by
  have hlen : p.1.bytes.toList.length = q.1.bytes.toList.length := by
    rw [List.Vector.toList_length, List.Vector.toList_length]
  obtain ⟨h1, h2⟩ := List.append_inj (h (congrArg Digest.bytes hpq)) hlen
  exact Prod.ext (Digest.ext (List.Vector.toList_injective h1))
    (Digest.ext (List.Vector.toList_injective h2))

omit [Sha2] in
lemma toHash256_injective : Function.Injective fun txid : Txid => (⟨txid.bytes⟩ : Hash256) := by
  intro a b h
  have hbytes := congrArg Digest.bytes h
  exact Digest.ext hbytes

/-- Blocks with as many transactions and the same merkle root have the same txids. -/
lemma leaves_eq_of_computeMerkleRoot_eq {b b' : Block} (hne : b.transactions ≠ [])
    (hlen : b.transactions.length = b'.transactions.length) (hcoll : NoCollision b b')
    (hroot : b.computeMerkleRoot = b'.computeMerkleRoot) : b.leaves = b'.leaves := by
  have hleaves : b.leaves.length = b'.leaves.length := by simpa [Block.leaves] using hlen
  have hne' : b'.transactions ≠ [] := by
    rintro hnil
    rw [hnil, List.length_nil, List.length_eq_zero_iff] at hlen
    exact hne hlen
  have hsingle : ∀ b : Block, b.transactions ≠ [] →
      (PairFold.reduce hashPair b.leaves.length b.leaves).length = 1 := by
    intro b hb
    exact PairFold.length_reduce hashPair (by simpa [Block.leaves] using hb) (by omega)
  have hreduce : PairFold.reduce hashPair b.leaves.length b.leaves =
      PairFold.reduce hashPair b.leaves.length b'.leaves := by
    obtain ⟨r, hr⟩ := List.length_eq_one_iff.mp (hsingle b hne)
    obtain ⟨r', hr'⟩ := List.length_eq_one_iff.mp (hsingle b' hne')
    simp only [Block.computeMerkleRoot, List.isEmpty_iff, hne, hne', if_false, PairFold.root, hr,
      hr', List.headD_cons] at hroot
    rw [hr, hleaves, hr', hroot]
  apply PairFold.reduce_injective hashPair hleaves _ hreduce
  intro p hp q hq
  apply hashPair_injOn
  apply hcoll
  · exact List.mem_append_left _ (List.mem_append_right _ (List.mem_map_of_mem hp))
  · rw [hleaves] at hq
    exact List.mem_append_right _ (List.mem_append_right _
      (List.mem_map_of_mem (f := fun p : Hash256 × Hash256 =>
        p.1.bytes.toList ++ p.2.bytes.toList) hq))

/-- Two blocks with the same header that pass `check_block` have the same txids exactly when they
have the same number of transactions. -/
theorem txids_eq_iff_length_eq [ScriptVerifier] {b b' : Block} {params : ChainParams}
    (hheader : b.header = b'.header) (hb : checkBlock b params = .ok ())
    (hb' : checkBlock b' params = .ok ()) (hcoll : NoCollision b b') :
    b.transactions.map Transaction.txid = b'.transactions.map Transaction.txid ↔
      b.transactions.length = b'.transactions.length := by
  constructor
  · intro h
    simpa using congrArg List.length h
  · intro hlen
    have hform := wellFormedBlock_of_checkBlock hb
    have hform' := wellFormedBlock_of_checkBlock hb'
    have hroot : b.computeMerkleRoot = b'.computeMerkleRoot := by
      rw [← hform.merkleRoot, ← hform'.merkleRoot, hheader]
    have hleaves := leaves_eq_of_computeMerkleRoot_eq hform.ne_nil hlen hcoll hroot
    apply List.map_injective_iff.mpr toHash256_injective
    simpa [Block.leaves, Function.comp_def] using hleaves

end Merkle

namespace Sample

/-- The sample block with its last transaction repeated. -/
def mutatedBlock : Block :=
  { block with transactions := block.transactions ++ [payment ⟨firstTxid, 0⟩ 4999999700] }

set_option maxRecDepth 100000 in
lemma checkBlock_mutatedBlock :
    checkBlock block regtestParams = .ok () ∧ checkBlock mutatedBlock regtestParams = .ok () ∧
      NoCollision block mutatedBlock := by
  unfold NoCollision
  decide +kernel

theorem txids_eq_iff_length_eq_mutatedBlock :
    block.transactions.map Transaction.txid ≠ mutatedBlock.transactions.map Transaction.txid := by
  have hheader : block.header = mutatedBlock.header := rfl
  obtain ⟨hblock, hmutated, hcoll⟩ := checkBlock_mutatedBlock
  have hiff := txids_eq_iff_length_eq hheader hblock hmutated hcoll
  intro h
  have hlen := hiff.mp h
  simp [block, mutatedBlock] at hlen

/-- One header, two accepted lists of transactions, and no collision. -/
theorem mutatedBlock_accepted :
    block.header = mutatedBlock.header ∧ checkBlock block regtestParams = .ok () ∧
    checkBlock mutatedBlock regtestParams = .ok () ∧ NoCollision block mutatedBlock ∧
    block.transactions.map Transaction.txid ≠ mutatedBlock.transactions.map Transaction.txid := by
  obtain ⟨hblock, hmutated, hcoll⟩ := checkBlock_mutatedBlock
  refine ⟨rfl, hblock, hmutated, hcoll, ?_⟩
  intro h
  have hlen := congrArg List.length h
  simp [block, mutatedBlock] at hlen

end Sample

end Bitcrab
