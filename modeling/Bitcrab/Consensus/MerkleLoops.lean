import Bitcrab.Consensus.Signet
import Bitcrab.Lib.Outcome
import Bitcrab.Lib.While

/-!
# The loops of the merkle root

`Block::compute_merkle_root` and the `merkle_root` of the signet code are the same loop over a
vector of hashes: it repeats the last hash of an odd level and replaces the level by the hashes of
its pairs.
-/

namespace Bitcrab

open Outcome PairFold

/-- `chunks(2)`. -/
def chunks2 {α : Type} : List α → List (List α)
  | a :: b :: l => [a, b] :: chunks2 l
  | [a] => [[a]]
  | [] => []

section

variable [Sha2]

/-- The body of the loop. -/
def merkleBody (hashes : List Hash256) : Outcome Empty (List Hash256) := do
  let hashes ←
    if hashes.length % 2 ≠ 0 then do
      let last ← index hashes (← sub hashes.length 1)
      pure (hashes ++ [last])
    else pure hashes
  (chunks2 hashes).mapM fun chunk => do
    return hashPair (← index chunk 0) (← index chunk 1)

/-- The loop, for at most `fuel` rounds, and the hash that it leaves. -/
def merkleLoop (fuel : ℕ) (hashes : List Hash256) : Outcome Empty (Option Hash256) := do
  match ← While.run (fun hashes => decide (hashes.length > 1)) merkleBody fuel hashes with
  | none => return none
  | some hashes => return some (← index hashes 0)

/-- `Block::compute_merkle_root`, for at most `fuel` rounds of its loop. -/
def Block.computeMerkleRootWithin (fuel : ℕ) (block : Block) : Outcome Empty (Option Hash256) :=
  if block.transactions.isEmpty then return some Digest.zero else merkleLoop fuel block.leaves

/-- `merkle_root`, for at most `fuel` rounds of its loop. -/
def merkleRootWithin (fuel : ℕ) (hashes : List Hash256) : Outcome Empty (Option Hash256) :=
  if hashes.isEmpty then return some Digest.zero else merkleLoop fuel hashes

/-- `compute_modified_merkle_root`, for at most `fuel` rounds of the loop. -/
def computeModifiedMerkleRootWithin (fuel : ℕ) (block : Block) (modifiedCoinbase : Transaction) :
    Outcome Empty (Option Hash256) :=
  merkleRootWithin fuel (⟨modifiedCoinbase.txid.bytes⟩ ::
    (block.transactions.drop 1).map fun tx => ⟨tx.txid.bytes⟩)

/-! ### One round -/

/-- Every chunk of a level of even length is a pair. -/
lemma mapM_chunks2 {hashes : List Hash256} (h : hashes.length % 2 = 0) :
    ((chunks2 hashes).mapM fun chunk => do
      return hashPair (← index chunk 0) (← index chunk 1) : Outcome Empty (List Hash256)) =
      .ok (combine hashPair hashes) := by
  induction hashes using chunks2.induct with
  | case1 a b l ih =>
    have hlength : l.length % 2 = 0 := by
      simp only [List.length_cons] at h
      omega
    rw [chunks2, List.mapM_cons, ih hlength, combine]
    rfl
  | case2 a => simp at h
  | case3 => rfl

/-- A round combines neighbours, and never panics. -/
lemma merkleBody_eq {hashes : List Hash256} (h : hashes ≠ []) :
    merkleBody hashes = .ok (combine hashPair hashes) := by
  have hpos : 0 < hashes.length := List.length_pos_iff.mpr h
  have hlast : (index hashes (hashes.length - 1) : Outcome Empty Hash256) =
      .ok (hashes.getLast h) := by
    rw [index, ← List.getLast?_eq_getElem?, List.getLast?_eq_some_getLast h]
    rfl
  by_cases hodd : hashes.length % 2 ≠ 0
  · have hpad : pad hashes = hashes ++ [hashes.getLast h] := by
      rw [pad, if_pos hodd, List.getLast?_eq_some_getLast h]
      rfl
    have heven : (pad hashes).length % 2 = 0 := by
      rw [length_pad]
      omega
    have hcombine : combine hashPair (pad hashes) = combine hashPair hashes := by
      rw [← level_eq_combine, ← level_eq_combine, level, level, pad, if_neg (by omega)]
    have hsub : (sub hashes.length 1 : Outcome Empty ℕ) = .ok (hashes.length - 1) := if_pos hpos
    rw [merkleBody, if_pos hodd, hsub, Result.ok_bind, hlast, Result.ok_bind, Result.pure_eq_ok,
      Result.ok_bind, ← hpad, ← hcombine]
    exact mapM_chunks2 heven
  · rw [merkleBody, if_neg hodd, Result.pure_eq_ok, Result.ok_bind]
    exact mapM_chunks2 (not_not.mp hodd)

/-! ### The whole loop -/

/-- The loop ends with the root of the recursive definition, which every round keeps, as each level
is shorter than the one before. -/
lemma exists_merkleLoop {hashes : List Hash256} (h : hashes ≠ []) :
    ∃ n, ∀ fuel ≥ n, merkleLoop fuel hashes = .ok (some (tree hashPair Digest.zero hashes)) := by
  obtain ⟨rest, ⟨n, hends⟩, ⟨hne, htree⟩, hstop⟩ :=
    While.exists_endsIn (fun l : List Hash256 => decide (l.length > 1)) merkleBody
      (fun l => l ≠ [] ∧ tree hashPair Digest.zero l = tree hashPair Digest.zero hashes)
      List.length
      (by
        rintro l ⟨hne, htree⟩ hcond
        have hlength := length_combine hashPair l
        have hgt : 1 < l.length := of_decide_eq_true hcond
        refine ⟨combine hashPair l, merkleBody_eq hne, ⟨?_, ?_⟩, by omega⟩
        · intro hnil
          rw [hnil, List.length_nil] at hlength
          omega
        · rw [tree_combine hashPair hgt, htree])
      ⟨h, rfl⟩
  have hle : ¬ rest.length > 1 := of_decide_eq_false hstop
  match rest with
  | [] => exact absurd rfl hne
  | [root] =>
    refine ⟨n, fun fuel hfuel => ?_⟩
    rw [merkleLoop, hends fuel hfuel, ← htree, tree]
    rfl
  | a :: b :: l => simp at hle

variable {block : Block}

/-- The root of the fold is the one of the recursive definition. -/
lemma computeMerkleRoot_eq_tree :
    block.computeMerkleRoot = tree hashPair Digest.zero block.leaves := by
  rw [Block.computeMerkleRoot, root_eq_tree]
  split_ifs with hempty
  · rw [Block.leaves, List.isEmpty_iff.mp hempty, List.map_nil, tree]
  · rfl

/-- Replacing the coinbase by itself. -/
lemma cons_txids {coinbase : Transaction} (h : block.transactions.head? = some coinbase) :
    (⟨coinbase.txid.bytes⟩ :: (block.transactions.drop 1).map fun tx => ⟨tx.txid.bytes⟩) =
      block.leaves := by
  obtain ⟨rest, htxs⟩ := List.head?_eq_some_iff.mp h
  rw [Block.leaves, htxs]
  rfl

/-- Both loops end, without a panic, with the root of the recursive definition. -/
theorem merkleLoops_eq_tree {coinbase : Transaction}
    (h : block.transactions.head? = some coinbase) :
    computeModifiedMerkleRoot block coinbase = block.computeMerkleRoot ∧
      block.computeMerkleRoot = tree hashPair Digest.zero block.leaves ∧
      ∃ n, ∀ fuel ≥ n,
        block.computeMerkleRootWithin fuel = .ok (some block.computeMerkleRoot) ∧
        computeModifiedMerkleRootWithin fuel block coinbase =
          .ok (some (computeModifiedMerkleRoot block coinbase)) := by
  have hne : block.transactions ≠ [] := by
    rintro hnil
    rw [hnil] at h
    cases h
  have hleaves : block.leaves ≠ [] := fun hnil => hne (List.map_eq_nil_iff.mp hnil)
  have hisEmpty : block.leaves.isEmpty = false := List.isEmpty_eq_false_iff.mpr hleaves
  have hmodified : computeModifiedMerkleRoot block coinbase = block.computeMerkleRoot := by
    rw [computeModifiedMerkleRoot, cons_txids h, merkleRoot, hisEmpty, Block.computeMerkleRoot,
      List.isEmpty_eq_false_iff.mpr hne]
  obtain ⟨n, hn⟩ := exists_merkleLoop hleaves
  refine ⟨hmodified, computeMerkleRoot_eq_tree, n, fun fuel hfuel => ⟨?_, ?_⟩⟩
  · rw [Block.computeMerkleRootWithin, List.isEmpty_eq_false_iff.mpr hne, hn fuel hfuel,
      computeMerkleRoot_eq_tree]
    rfl
  · rw [computeModifiedMerkleRootWithin, cons_txids h, merkleRootWithin, hisEmpty, hn fuel hfuel,
      hmodified, computeMerkleRoot_eq_tree]
    rfl

end

namespace Sample

/-- A block with three transactions. -/
def threeTxBlock : Block where
  header := ⟨1, Digest.zero, Digest.zero, 0, 0, 0⟩
  transactions := [⟨1, [], [], 0⟩, ⟨1, [], [], 1⟩, ⟨1, [], [], 2⟩]

theorem merkleLoops_threeTxBlock :
    computeModifiedMerkleRoot threeTxBlock ⟨1, [], [], 0⟩ = threeTxBlock.computeMerkleRoot :=
  (@merkleLoops_eq_tree _ threeTxBlock ⟨1, [], [], 0⟩ rfl).1

end Sample

end Bitcrab
