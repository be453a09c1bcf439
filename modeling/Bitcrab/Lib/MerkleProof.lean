import Mathlib.Data.List.Basic
import Mathlib.Data.Prod.Basic

/-!
# Merkle trees with unordered pairs

The hash of an inner node is that of its two children, in either order, so a proof lists the
siblings from a leaf upward without saying on which side they are. A proof gives the root of the
tree; and as long as what is hashed on the way does not collide with what is hashed in the tree,
only the leaves of the tree have proofs.
-/

namespace MerkleProof

/-- A binary tree with values at its leaves. -/
inductive Tree (α : Type) where
  | leaf (a : α)
  | branch (l r : Tree α)
  deriving Repr, DecidableEq

variable {α η : Type} (leafHash : α → η) (nodeHash : η → η → η)

/-- What a path of siblings makes of a hash. -/
def climb (node : η) (path : List η) : η := path.foldl nodeHash node

/-- The pairs that are hashed on a path. -/
def pairsOf : η → List η → List (η × η)
  | _, [] => []
  | node, sibling :: path => (node, sibling) :: pairsOf (nodeHash node sibling) path

namespace Tree

def depth : Tree α → ℕ
  | leaf _ => 0
  | branch l r => max l.depth r.depth + 1

def leaves : Tree α → List α
  | leaf a => [a]
  | branch l r => l.leaves ++ r.leaves

def root : Tree α → η
  | leaf a => leafHash a
  | branch l r => nodeHash l.root r.root

/-- The pairs that are hashed in a tree. -/
def pairs : Tree α → List (η × η)
  | leaf _ => []
  | branch l r => (l.root leafHash nodeHash, r.root leafHash nodeHash) :: (l.pairs ++ r.pairs)

/-- Every leaf with the siblings from it upward. -/
def proofs : Tree α → List (α × List η)
  | leaf a => [(a, [])]
  | branch l r =>
    l.proofs.map (fun p => (p.1, p.2 ++ [r.root leafHash nodeHash])) ++
      r.proofs.map fun p => (p.1, p.2 ++ [l.root leafHash nodeHash])

end Tree

variable {leafHash nodeHash} {t : Tree α} {a : α} {node : η} {path : List η}

@[simp] lemma climb_nil : climb nodeHash node [] = node := rfl

@[simp] lemma climb_concat (sibling : η) :
    climb nodeHash node (path ++ [sibling]) = nodeHash (climb nodeHash node path) sibling := by
  simp [climb]

lemma pairsOf_concat (sibling : η) :
    pairsOf nodeHash node (path ++ [sibling]) =
      pairsOf nodeHash node path ++ [(climb nodeHash node path, sibling)] := by
  induction path generalizing node with
  | nil => rfl
  | cons first path ih =>
    rw [List.cons_append, pairsOf, ih, pairsOf]
    rfl

namespace Tree

/-- Every leaf has a proof. -/
lemma map_fst_proofs : (t.proofs leafHash nodeHash).map Prod.fst = t.leaves := by
  induction t with
  | leaf a => rfl
  | branch l r ihl ihr =>
    rw [proofs, List.map_append, List.map_map, List.map_map, leaves, ← ihl, ← ihr]
    rfl

lemma length_le_depth {proof : α × List η} (h : proof ∈ t.proofs leafHash nodeHash) :
    proof.2.length ≤ t.depth := by
  induction t generalizing proof with
  | leaf a =>
    obtain rfl := List.mem_singleton.mp h
    exact Nat.le_refl _
  | branch l r ihl ihr =>
    rw [proofs, List.mem_append, List.mem_map, List.mem_map] at h
    rcases h with ⟨below, hbelow, rfl⟩ | ⟨below, hbelow, rfl⟩
    · have hle := ihl hbelow
      rw [depth, List.length_append, List.length_singleton]
      omega
    · have hle := ihr hbelow
      rw [depth, List.length_append, List.length_singleton]
      omega

/-- A proof gives the root of the tree. -/
theorem climb_of_mem_proofs (hcomm : ∀ x y, nodeHash x y = nodeHash y x) {proof : α × List η}
    (h : proof ∈ t.proofs leafHash nodeHash) :
    climb nodeHash (leafHash proof.1) proof.2 = t.root leafHash nodeHash := by
  induction t generalizing proof with
  | leaf a =>
    obtain rfl := List.mem_singleton.mp h
    rfl
  | branch l r ihl ihr =>
    rw [proofs, List.mem_append, List.mem_map, List.mem_map] at h
    rcases h with ⟨below, hbelow, rfl⟩ | ⟨below, hbelow, rfl⟩
    · rw [climb_concat, ihl hbelow, root]
    · rw [climb_concat, ihr hbelow, root, hcomm]

end Tree

/-- What is hashed on a path from the leaf `a` collides with nothing that is hashed in the tree. -/
structure CollisionFree (leafHash : α → η) (nodeHash : η → η → η) (t : Tree α) (a : α)
    (path : List η) : Prop where
  leaf_leaf : ∀ a' ∈ t.leaves, leafHash a = leafHash a' → a = a'
  leaf_pair : ∀ q ∈ t.pairs leafHash nodeHash, leafHash a ≠ nodeHash q.1 q.2
  pair_leaf : ∀ p ∈ pairsOf nodeHash (leafHash a) path, ∀ a' ∈ t.leaves,
    nodeHash p.1 p.2 ≠ leafHash a'
  pair_pair : ∀ p ∈ pairsOf nodeHash (leafHash a) path, ∀ q ∈ t.pairs leafHash nodeHash,
    nodeHash p.1 p.2 = nodeHash q.1 q.2 → p = q ∨ p = q.swap

namespace CollisionFree

/-- A shorter path to a part of the tree hashes less. -/
lemma mono {t' : Tree α} {sibling : η}
    (h : CollisionFree leafHash nodeHash t a (path ++ [sibling])) (hleaves : t'.leaves ⊆ t.leaves)
    (hpairs : t'.pairs leafHash nodeHash ⊆ t.pairs leafHash nodeHash) :
    CollisionFree leafHash nodeHash t' a path := by
  have hsub : pairsOf nodeHash (leafHash a) path ⊆
      pairsOf nodeHash (leafHash a) (path ++ [sibling]) := by
    rw [pairsOf_concat]
    exact List.subset_append_left _ _
  exact ⟨fun a' ha' => h.leaf_leaf a' (hleaves ha'), fun q hq => h.leaf_pair q (hpairs hq),
    fun p hp a' ha' => h.pair_leaf p (hsub hp) a' (hleaves ha'),
    fun p hp q hq => h.pair_pair p (hsub hp) q (hpairs hq)⟩

/-- Only the leaves of a tree have proofs. -/
theorem mem_leaves (h : CollisionFree leafHash nodeHash t a path)
    (hroot : climb nodeHash (leafHash a) path = t.root leafHash nodeHash) : a ∈ t.leaves := by
  induction t generalizing path with
  | leaf a' =>
    rw [Tree.root] at hroot
    obtain rfl | ⟨path, sibling, rfl⟩ := List.eq_nil_or_concat' path
    · obtain rfl := h.leaf_leaf a' (List.mem_singleton_self _) hroot
      exact List.mem_singleton_self _
    · -- a path that goes on after it has reached a leaf
      rw [climb_concat] at hroot
      have hmem : (climb nodeHash (leafHash a) path, sibling) ∈
          pairsOf nodeHash (leafHash a) (path ++ [sibling]) := by
        rw [pairsOf_concat]
        exact List.mem_append_right _ (List.mem_singleton_self _)
      exact absurd hroot (h.pair_leaf _ hmem a' (List.mem_singleton_self _))
  | branch l r ihl ihr =>
    rw [Tree.root] at hroot
    obtain rfl | ⟨path, sibling, rfl⟩ := List.eq_nil_or_concat' path
    · -- a path that ends at an inner node
      exact absurd hroot (h.leaf_pair _ (List.mem_cons_self ..))
    · rw [climb_concat] at hroot
      have hmem : (climb nodeHash (leafHash a) path, sibling) ∈
          pairsOf nodeHash (leafHash a) (path ++ [sibling]) := by
        rw [pairsOf_concat]
        exact List.mem_append_right _ (List.mem_singleton_self _)
      have hleft : CollisionFree leafHash nodeHash l a path := h.mono
        (List.subset_append_left _ _)
        fun _ hq => List.mem_cons_of_mem _ (List.mem_append_left _ hq)
      have hright : CollisionFree leafHash nodeHash r a path := h.mono
        (List.subset_append_right _ _)
        fun _ hq => List.mem_cons_of_mem _ (List.mem_append_right _ hq)
      rcases h.pair_pair _ hmem _ (List.mem_cons_self ..) hroot with heq | heq
      · exact List.mem_append_left _ (ihl hleft (congrArg Prod.fst heq))
      · exact List.mem_append_right _ (ihr hright (congrArg Prod.fst heq))

end CollisionFree

end MerkleProof
