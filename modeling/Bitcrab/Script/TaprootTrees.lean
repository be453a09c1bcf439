import Bitcrab.Lib.MerkleProof
import Bitcrab.Script.DerSignatures
import Bitcrab.Script.SighashMessages
import Bitcrab.Script.SigopsBudget

/-!
# Taproot script trees

The root that an output commits to is that of a tree of leaf scripts, and a control block lists the
siblings on the way from one of them. Leaves and inner nodes are hashed under tags of their own,
which is what keeps a path from starting or ending elsewhere than at a leaf and at the root.
-/

namespace Bitcrab

open Bytes Outcome MerkleProof PrefixCode

/-- A leaf: its version and its script. -/
abbrev TapLeaf := UInt8 × List UInt8

/-- A tree of leaf scripts. -/
abbrev TapTree := MerkleProof.Tree TapLeaf

/-- The tag and the data that the hash of a leaf is computed of. -/
def tapleafInput (leaf : TapLeaf) : String × List UInt8 :=
  ("TapLeaf", leaf.1 :: writeCompactSize (UInt64.ofNat leaf.2.length) ++ leaf.2)

/-- The tag and the data that the hash of two nodes is computed of, the smaller node first. -/
def tapbranchInput (node sibling : Bytes32) : String × List UInt8 :=
  ("TapBranch", if bytesLe node.toList sibling.toList then node.toList ++ sibling.toList
    else sibling.toList ++ node.toList)

section Inputs

/-- A leaf is determined by what is hashed. -/
lemma tapleafInput_injective : Function.Injective tapleafInput := by
  rintro ⟨version, script⟩ ⟨version', script'⟩ heq
  obtain ⟨hversion, hrest⟩ := List.cons.inj (congrArg Prod.snd heq)
  dsimp only at hversion hrest
  rw [writeCompactSize_eq, writeCompactSize_eq] at hrest
  obtain ⟨-, hscript⟩ := prefixFree_varInt _ _ trivial trivial _ _ hrest
  rw [hversion, hscript]

lemma tapleafInput_ne_tapbranchInput (leaf : TapLeaf) (node sibling : Bytes32) :
    tapleafInput leaf ≠ tapbranchInput node sibling := by
  intro heq
  exact absurd (congrArg Prod.fst heq) (by decide : "TapLeaf" ≠ "TapBranch")

/-- The order of two nodes does not matter. -/
lemma tapbranchInput_comm (node sibling : Bytes32) :
    tapbranchInput node sibling = tapbranchInput sibling node := by
  have hlen : node.toList.length = sibling.toList.length := by simp
  unfold tapbranchInput
  by_cases hle : bytesLe node.toList sibling.toList = true
  · by_cases hge : bytesLe sibling.toList node.toList = true
    · rw [bytesLe_iff hlen] at hle
      rw [bytesLe_iff hlen.symm] at hge
      rw [ofBeBytes_injective hlen (le_antisymm hle hge)]
    · rw [if_pos hle, if_neg hge]
  · have hge : bytesLe sibling.toList node.toList = true := by
      rw [bytesLe_iff hlen] at hle
      rw [bytesLe_iff hlen.symm]
      exact (not_le.mp hle).le
    rw [if_neg hle, if_pos hge]

/-- What is hashed determines the two nodes, but not their order. -/
lemma eq_or_eq_swap_of_tapbranchInput {p q : Bytes32 × Bytes32}
    (h : tapbranchInput p.1 p.2 = tapbranchInput q.1 q.2) : p = q ∨ p = q.swap := by
  obtain ⟨a, b⟩ := p
  obtain ⟨a', b'⟩ := q
  have hpair : ∀ {a b a' b' : Bytes32}, a.toList ++ b.toList = a'.toList ++ b'.toList →
      a = a' ∧ b = b' := by
    intro a b a' b' heq
    obtain ⟨ha, hb⟩ := List.append_inj heq (by simp)
    exact ⟨List.Vector.eq _ _ ha, List.Vector.eq _ _ hb⟩
  have hdata := congrArg Prod.snd h
  simp only [tapbranchInput] at hdata
  split_ifs at hdata
  · obtain ⟨rfl, rfl⟩ := hpair hdata
    exact .inl rfl
  · obtain ⟨rfl, rfl⟩ := hpair hdata
    exact .inr rfl
  · obtain ⟨rfl, rfl⟩ := hpair hdata
    exact .inr rfl
  · obtain ⟨rfl, rfl⟩ := hpair hdata
    exact .inl rfl

end Inputs

/-! ### Control blocks -/

/-- The bytes of a control block. -/
def controlBlock (first : UInt8) (internalKey : Bytes32) (path : List Bytes32) : List UInt8 :=
  first :: internalKey.toList ++ path.flatMap List.Vector.toList

lemma length_flatMap_toList (path : List Bytes32) :
    (path.flatMap List.Vector.toList).length = 32 * path.length := by
  induction path with
  | nil => rfl
  | cons node path ih =>
    rw [List.flatMap_cons, List.length_append, ih, List.length_cons, List.Vector.toList_length]
    omega

lemma length_controlBlock (first : UInt8) (internalKey : Bytes32) (path : List Bytes32) :
    (controlBlock first internalKey path).length = 33 + 32 * path.length := by
  rw [controlBlock, List.length_append, length_flatMap_toList]
  simp

/-- The nodes of the path are read one after another. -/
lemma controlNodes_controlBlock (first : UInt8) (internalKey : Bytes32) (path : List Bytes32) :
    controlNodes (controlBlock first internalKey path) path.length = .ok path := by
  suffices hfrom : ∀ before after : List Bytes32, before ++ after = path →
      (List.range' before.length after.length).mapM (fun k => do
        let start := taprootControlBaseSize + taprootControlNodeSize * k
        return toBytes32 (← slice (controlBlock first internalKey path) start
          (start + taprootControlNodeSize)) : Nat → Outcome ScriptError Bytes32) = .ok after by
    rw [controlNodes, List.range_eq_range']
    exact hfrom [] path rfl
  intro before after hpath
  induction after generalizing before with
  | nil => rfl
  | cons node after ih =>
    have hslice : (slice (controlBlock first internalKey path) (33 + 32 * before.length)
        (33 + 32 * before.length + 32) : Outcome ScriptError (List UInt8)) = .ok node.toList := by
      have hafter := Instructions.slice_append_right (ε := ScriptError)
        (controlBlock first internalKey before)
        (node.toList ++ after.flatMap List.Vector.toList) 0 32
      have hsplit : controlBlock first internalKey path = controlBlock first internalKey before ++
          (node.toList ++ after.flatMap List.Vector.toList) := by
        rw [← hpath, controlBlock, controlBlock, List.flatMap_append, List.flatMap_cons,
          List.append_assoc]
      have htake : (node.toList ++ after.flatMap List.Vector.toList).take 32 = node.toList :=
        List.take_left' (List.Vector.toList_length node)
      rw [← hsplit, length_controlBlock, Nat.add_zero,
        slice_of_le (Nat.zero_le _) (by simp), List.drop_zero, Nat.sub_zero, htake] at hafter
      exact hafter
    have hrest := ih (before ++ [node]) (by rw [← hpath]; simp)
    rw [List.length_append, List.length_singleton] at hrest
    rw [List.length_cons, List.range'_succ, List.mapM_cons]
    dsimp only [taprootControlBaseSize, taprootControlNodeSize] at hrest ⊢
    rw [hslice, Result.ok_bind, toBytes32_toList]
    rw [Result.pure_eq_ok, Result.ok_bind, hrest]
    rfl

/-- A control block is parsed into what it was made of. -/
lemma parseControlBlock_controlBlock (first : UInt8) (internalKey : Bytes32) {path : List Bytes32}
    (hpath : path.length ≤ 128) :
    parseControlBlock (controlBlock first internalKey path) =
      .ok (some ⟨first &&& taprootLeafMask, if first &&& 1 = 1 then .odd else .even, internalKey,
        path⟩) := by
  have hlen := length_controlBlock first internalKey path
  have hkey :
    (slice (controlBlock first internalKey path) 1 33 : Outcome ScriptError (List UInt8)) =
      .ok internalKey.toList := by
    rw [slice_of_le (by decide) (by omega), controlBlock, List.cons_append, List.drop_one,
      List.tail_cons, List.take_left' (by simp)]
  have hindex : (index (controlBlock first internalKey path) 0 : Outcome ScriptError UInt8) =
      .ok first := rfl
  have hvalid : ¬((controlBlock first internalKey path).length < taprootControlBaseSize ∨
      (controlBlock first internalKey path).length > taprootControlMaxSize ∨
      ((controlBlock first internalKey path).length - taprootControlBaseSize) %
        taprootControlNodeSize ≠ 0) := by
    simp only [taprootControlMaxSize, taprootControlBaseSize, taprootControlNodeSize]
    omega
  have hsize : (sub (controlBlock first internalKey path).length taprootControlBaseSize :
      Outcome ScriptError Nat) = .ok (32 * path.length) := by
    rw [hlen, taprootControlBaseSize, sub_of_le (Nat.le_add_right _ _)]
    exact congrArg Except.ok (Nat.add_sub_cancel_left _ _)
  have hcount : 32 * path.length / taprootControlNodeSize = path.length :=
    Nat.mul_div_cancel_left _ (by decide)
  rw [parseControlBlock, if_neg hvalid, hindex, Result.ok_bind, hkey, Result.ok_bind, hsize,
    Result.ok_bind, hcount, controlNodes_controlBlock, Result.ok_bind, toBytes32_toList]
  rfl

section Trees

variable [Sha2]

/-- `tagged_hash` of an input. -/
def taggedHashOf (input : String × List UInt8) : Bytes32 := taggedHash input.1 input.2

/-- The hash of a leaf. -/
def tapleafHash (leaf : TapLeaf) : Bytes32 := computeTapleafHash leaf.1 leaf.2

/-- The hash of an inner node: `TapBranch` over the sorted pair. -/
def tapbranchHash (node sibling : Bytes32) : Bytes32 := taggedHashOf (tapbranchInput node sibling)

/-- The root of a tree. -/
def taprootOf (tree : TapTree) : Bytes32 := tree.root tapleafHash tapbranchHash

/-- The leaves of a tree with the siblings from each of them upward. -/
def taprootProofs (tree : TapTree) : List (TapLeaf × List Bytes32) :=
  tree.proofs tapleafHash tapbranchHash

/-- The tagged hashes that are computed for a tree. -/
def treeInputs (tree : TapTree) : List (String × List UInt8) :=
  tree.leaves.map tapleafInput ++
    (tree.pairs tapleafHash tapbranchHash).map fun p => tapbranchInput p.1 p.2

/-- The tagged hashes that are computed for a path. -/
def pathInputs (leaf : TapLeaf) (path : List Bytes32) : List (String × List UInt8) :=
  tapleafInput leaf ::
    (pairsOf tapbranchHash (tapleafHash leaf) path).map fun p => tapbranchInput p.1 p.2

/-- No two of the tagged hashes computed for a tree and for a path are the same. -/
def NoTaggedCollision (tree : TapTree) (leaf : TapLeaf) (path : List Bytes32) : Prop :=
  ∀ a ∈ treeInputs tree ++ pathInputs leaf path, ∀ b ∈ treeInputs tree ++ pathInputs leaf path,
    taggedHashOf a = taggedHashOf b → a = b

/-! ### Roots -/

lemma tapbranchHash_comm (node sibling : Bytes32) :
    tapbranchHash node sibling = tapbranchHash sibling node := by
  rw [tapbranchHash, tapbranchInput_comm, tapbranchHash]

lemma collisionFree_of_noTaggedCollision {tree : TapTree} {leaf : TapLeaf} {path : List Bytes32}
    (h : NoTaggedCollision tree leaf path) :
    MerkleProof.CollisionFree tapleafHash tapbranchHash tree leaf path := by
  have hleaf : tapleafInput leaf ∈ treeInputs tree ++ pathInputs leaf path :=
    List.mem_append_right _ (List.mem_cons_self ..)
  have hleaves : ∀ leaf' ∈ tree.leaves,
      tapleafInput leaf' ∈ treeInputs tree ++ pathInputs leaf path := by
    intro leaf' hleaf'
    exact List.mem_append_left _ (List.mem_append_left _ (List.mem_map_of_mem hleaf'))
  have hpairs : ∀ q ∈ tree.pairs tapleafHash tapbranchHash,
      tapbranchInput q.1 q.2 ∈ treeInputs tree ++ pathInputs leaf path := by
    intro q hq
    exact List.mem_append_left _ (List.mem_append_right _ (List.mem_map_of_mem hq))
  have hpath : ∀ p ∈ pairsOf tapbranchHash (tapleafHash leaf) path,
      tapbranchInput p.1 p.2 ∈ treeInputs tree ++ pathInputs leaf path := by
    intro p hp
    exact List.mem_append_right _ (List.mem_cons_of_mem _ (List.mem_map_of_mem hp))
  refine ⟨?_, ?_, ?_, ?_⟩
  · intro leaf' hleaf' heq
    exact tapleafInput_injective (h _ hleaf _ (hleaves leaf' hleaf') heq)
  · intro q hq heq
    exact tapleafInput_ne_tapbranchInput _ _ _ (h _ hleaf _ (hpairs q hq) heq)
  · intro p hp leaf' hleaf' heq
    exact tapleafInput_ne_tapbranchInput _ _ _ (h _ (hpath p hp) _ (hleaves leaf' hleaf') heq).symm
  · intro p hp q hq heq
    exact eq_or_eq_swap_of_tapbranchInput (h _ (hpath p hp) _ (hpairs q hq) heq)

/-- Every leaf of a tree of at most 128 levels has a control block that gives the root, and only the
leaves have one as long as no tagged hashes collide. -/
theorem taprootTree_spec (tree : TapTree) (hdepth : tree.depth ≤ 128) :
    (taprootProofs tree).map Prod.fst = tree.leaves ∧
    (∀ proof ∈ taprootProofs tree, ∀ (first : UInt8) (internalKey : Bytes32),
      ∃ control, parseControlBlock (controlBlock first internalKey proof.2) = .ok (some control) ∧
        control.leafVersion = first &&& taprootLeafMask ∧ control.internalKey = internalKey ∧
        control.merklePath = proof.2 ∧
        computeTaprootMerkleRoot control (computeTapleafHash proof.1.1 proof.1.2) =
          taprootOf tree) ∧
    ∀ (version : UInt8) (script : List UInt8) (control : ControlBlock),
      NoTaggedCollision tree (version, script) control.merklePath →
      computeTaprootMerkleRoot control (computeTapleafHash version script) = taprootOf tree →
        (version, script) ∈ tree.leaves := by
  refine ⟨Tree.map_fst_proofs, ?_, ?_⟩
  · intro proof hproof first internalKey
    refine ⟨_, parseControlBlock_controlBlock first internalKey
      ((Tree.length_le_depth hproof).trans hdepth), rfl, rfl, rfl, ?_⟩
    exact Tree.climb_of_mem_proofs tapbranchHash_comm hproof
  · intro version script control hfree hroot
    exact (collisionFree_of_noTaggedCollision hfree).mem_leaves hroot

end Trees

namespace Sample

/-- A tree of two leaves. -/
def twoLeaves : TapTree := .branch (.leaf (0xc0, [0x51])) (.leaf (0xc0, [0x52]))

/-- The first leaf of the tree has a control block, and what it proves is a leaf. -/
theorem taprootTree_twoLeaves :
    twoLeaves.depth ≤ 128 ∧
      NoTaggedCollision twoLeaves (0xc0, [0x51]) [tapleafHash (0xc0, [0x52])] ∧
      (∃ control, parseControlBlock (controlBlock 0xc1 (List.Vector.replicate 32 7)
          [tapleafHash (0xc0, [0x52])]) = .ok (some control) ∧
        computeTaprootMerkleRoot control (computeTapleafHash 0xc0 [0x51]) = taprootOf twoLeaves) ∧
      ((0xc0, [0x51]) : TapLeaf) ∈ twoLeaves.leaves := by
  have hdepth : twoLeaves.depth ≤ 128 := by decide
  have hfree : NoTaggedCollision twoLeaves (0xc0, [0x51]) [tapleafHash (0xc0, [0x52])] := by
    unfold NoTaggedCollision
    decide +kernel
  obtain ⟨-, hcomplete, hsound⟩ := taprootTree_spec twoLeaves hdepth
  have hproof : ((0xc0, [0x51]), [tapleafHash (0xc0, [0x52])]) ∈ taprootProofs twoLeaves :=
    List.mem_cons_self ..
  obtain ⟨control, hparse, -, -, hpath, hroot⟩ :=
    hcomplete _ hproof 0xc1 (List.Vector.replicate 32 7)
  refine ⟨hdepth, hfree, ⟨control, hparse, hroot⟩, hsound 0xc0 [0x51] control ?_ hroot⟩
  rw [hpath]
  exact hfree

end Sample

end Bitcrab
