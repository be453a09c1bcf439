import Bitcrab.Node.CrashConsistency

/-!
# The active chain as a hash chain

The activation loop takes the block after the tip by its height alone, and `connect_block` does not
look at `prev_hash`. The chain is a hash chain as long as no block body of another fork is filed
under the height after the tip; with such a body, it is not.
-/

namespace Bitcrab

section

variable [Sha2] {cfg : Config} {s s' : System} {e : Event}

/-- Every block of a chain names the block before it. -/
def HashChained (cfg : Config) (chain : List Block) : Prop :=
  ∀ (i : Nat) (block : Block), chain[i]? = some block →
    (chainHashes cfg chain)[i]? = some block.header.prevHash

lemma hashChained_append {chain : List Block} {block : Block} (h : HashChained cfg chain)
    (hprev : (chainHashes cfg chain)[chain.length]? = some block.header.prevHash) :
    HashChained cfg (chain ++ [block]) := by
  intro i block' hget
  rcases Nat.lt_or_ge i chain.length with hi | hi
  · rw [List.getElem?_append_left hi] at hget
    rw [getElem?_chainHashes_append cfg (Nat.le_of_lt hi)]
    exact h i block' hget
  · rw [List.getElem?_append_right hi, List.getElem?_singleton] at hget
    split_ifs at hget with hzero
    obtain rfl := Option.some.inj hget
    obtain rfl : i = chain.length := by omega
    rw [getElem?_chainHashes_append cfg (Nat.le_refl _)]
    exact hprev

lemma hashChained_take {chain : List Block} (h : HashChained cfg chain) (k : Nat) :
    HashChained cfg (chain.take k) := by
  intro i block hget
  rw [List.getElem?_take] at hget
  split_ifs at hget with hi
  rw [getElem?_chainHashes_take cfg (Nat.le_of_lt hi)]
  exact h i block hget

/-- A hash is filed under a height: as a downloaded block, in the `H` table or in the `z` table. -/
def Node.Filed (n : Node) (height : BlockHeight) (hash : BlockHash) : Prop :=
  n.chainstate.waitingBlocks.lookup height = some hash ∨ n.store.getBlockHash height = some hash ∨
    n.store.getBlockHashByHeaderHeight height = some hash

/-- When the activation loop looks for a block, every body accepted and filed for the height after
the tip names the best block of the cache. -/
def ExtendsTip (s : System) (e : Event) : Prop :=
  match s.node.phase, e with
  | .activating a, .selectBlock _ =>
    ∀ p ∈ s.history.accepted, p.1 = a.currentTip.height + 1 →
      s.node.Filed (a.currentTip.height + 1) p.2.header.blockHash →
      s.node.cacheView.getBestBlock = some p.2.header.prevHash
  | _, _ => True

omit [Sha2] in
lemma filed_of_nextHash {n : Node} {height : BlockHeight} {hash : BlockHash}
    (h : n.nextHash height = some hash) : n.Filed height hash := by
  unfold Node.nextHash at h
  rw [Option.or_eq_some_iff, Option.or_eq_some_iff] at h
  rcases h with h | ⟨-, h | ⟨-, h⟩⟩
  · exact .inl h
  · exact .inr (.inl h)
  · exact .inr (.inr h)

/-- The chain is a hash chain, and stays one when the block at hand is connected. -/
structure LinkInv (cfg : Config) (s : System) : Prop where
  chained : HashChained cfg s.history.connected
  connecting : ∀ a hash block, s.node.phase = .connecting a hash block →
    (chainHashes cfg s.history.connected)[s.history.connected.length]? =
      some block.header.prevHash

/-- A block selected by the loop extends the chain. -/
lemma prevHash_of_selectBlock (hnode : NodeInv cfg s) {a : Activation} {recentlyFailed : Bool}
    {n' : Node} (hphase : s.node.phase = .activating a)
    (hselect : s.node.selectBlock a recentlyFailed = some n')
    (hext : ExtendsTip s (.selectBlock recentlyFailed)) {a' : Activation} {hash : BlockHash}
    {block : Block} (hphase' : n'.phase = .connecting a' hash block) :
    (chainHashes cfg s.history.connected)[s.history.connected.length]? =
      some block.header.prevHash := by
  simp only [ExtendsTip, hphase] at hext
  obtain ⟨waitingBlocks, phase, rfl, -, hcases⟩ := selectBlock_eq_some hselect
  rcases hcases with rfl | ⟨hash', block', rfl, -, hnext, hread⟩
  · cases hphase'
  · cases hphase'
    have hheight := hasHeight_of_nextHash hnode.index hnode.chain hnext
    obtain ⟨hhash, -, b, hb, hheader⟩ :=
      header_of_readBlock (hnode.index.backed hash) hheight hread
    have hfiled := filed_of_nextHash hnext
    rw [← hhash, ← hheader] at hfiled
    rw [← hnode.chain.getBestBlock, ← hheader]
    exact hext _ hb rfl hfiled

variable [ScriptVerifier]

/-- A step that keeps to one fork. -/
structure LinkedStep (s : System) (e : Event) : Prop where
  collisionFree : e.CollisionFree
  extendsTip : ExtendsTip s e

lemma LinkInv.step (hinv : LinkInv cfg s) (hnode : NodeInv cfg s)
    (hstep : s.step cfg e = some s') (hlinked : LinkedStep s e) : LinkInv cfg s' := by
  obtain ⟨-, hcases⟩ := hnode.step hlinked.collisionFree hstep
  cases hcases with
  | quiet h =>
    refine ⟨?_, ?_⟩ <;> rw [h.connected]
    · exact hinv.chained
    · intro a hash block hphase'
      rcases h.connecting a hash block hphase' with hphase | ⟨a', r, rfl, hphase, hselect⟩
      · exact hinv.connecting a hash block hphase
      · exact prevHash_of_selectBlock hnode hphase hselect hlinked.extendsTip hphase'
  | @connect a hash block completion hphase =>
    have hprev := hinv.connecting a hash block hphase
    rcases hresult : s.node.connectCall cfg a block completion with ⟨result, view⟩
    cases result with
    | ok r =>
      refine ⟨?_, ?_⟩
      · simp only [History.next, hphase, hresult]
        exact hashChained_append hinv.chained hprev
      · simp [Node.connect, hresult]
    | error err =>
      refine ⟨?_, ?_⟩
      · simp only [History.next, hphase, hresult]
        exact hinv.chained
      · simp [Node.connect, hresult]
  | @storeUndo a hash block undo hphase =>
    refine ⟨hinv.chained, ?_⟩
    intro a' hash' block' hphase'
    simp only [Node.storeUndo] at hphase'
    split at hphase'
    · cases hphase'
    · dsimp only at hphase'
      split_ifs at hphase'
  | flush hphase => exact ⟨hinv.chained, by simp [Node.flushChainstate]⟩
  | crash => exact ⟨hashChained_take hinv.chained _, by simp [Node.start]⟩

/-- In every run that keeps to one fork, the active chain is a hash chain. -/
theorem hashChained_of_reachable
    (h : Reachable (System.step cfg) (fun s e _ => LinkedStep s e) (System.init cfg) s) :
    HashChained cfg s.history.connected := by
  have hinv : NodeInv cfg s ∧ LinkInv cfg s := by
    refine h.invariant (fun s => NodeInv cfg s ∧ LinkInv cfg s) ⟨nodeInv_init cfg, ?_, ?_⟩ ?_
    · intro i block hget
      cases hget
    · intro a hash block hphase
      cases hphase
    · intro s e s' hinv hstep hlinked
      exact ⟨(hinv.1.step hlinked.collisionFree hstep).1, hinv.2.step hinv.1 hstep hlinked⟩
  exact hinv.2.chained

/-- A check for steps that keep to one fork. -/
def linkedCheck (s : System) (e : Event) (_ : System) : Bool :=
  decide e.CollisionFree &&
    match s.node.phase, e with
    | .activating a, .selectBlock _ =>
      s.history.accepted.all fun p => p.1 ≠ a.currentTip.height + 1 ||
        s.node.cacheView.getBestBlock = some p.2.header.prevHash
    | _, _ => true

omit [ScriptVerifier] in
lemma linkedStep_of_linkedCheck (h : linkedCheck s e s') : LinkedStep s e := by
  unfold linkedCheck at h
  rw [Bool.and_eq_true, decide_eq_true_eq] at h
  obtain ⟨hfree, hextends⟩ := h
  refine ⟨hfree, ?_⟩
  unfold ExtendsTip
  split at hextends
  · intro p hp hheight _
    simpa [hheight] using List.all_eq_true.mp hextends p hp
  · trivial

end

/-! ### One fork, and two -/

namespace Sample

set_option maxRecDepth 100000 in
lemma run_connectEvents_linked :
    (Reachable.run (System.step cfg) linkedCheck (System.init cfg) connectEvents).map
      (·.history.connected) = some [nextBlock] := by
  unfold cfg System.step System.init Node.step Node.init Node.loadGenesisBlock Node.acceptHeader
    HeaderBatch.acceptHeader HeaderBatch.push ChainParams.genesisIndex Node.selectBlock Node.connect
  rw [sha2_eq_digests, calculateBlockWork_eq_division]
  decide +kernel

theorem hashChained_nextBlock :
    ∃ s, Reachable (System.step cfg) (fun s e _ => LinkedStep s e) (System.init cfg) s ∧
      s.history.connected = [nextBlock] ∧ HashChained cfg [nextBlock] := by
  obtain ⟨s, hrun, hconnected⟩ := Option.map_eq_some_iff.mp run_connectEvents_linked
  have hreach : Reachable (System.step cfg) (fun s e _ => LinkedStep s e) (System.init cfg) s :=
    Reachable.init.of_run (fun _ _ _ => linkedStep_of_linkedCheck) hrun
  have hchained := hashChained_of_reachable hreach
  rw [hconnected] at hchained
  exact ⟨s, hreach, hconnected, hchained⟩

/-- The header of another block after the genesis block. -/
def forkHeader : BlockHeader :=
  { nextBlock.header with time := 1296688604, nonce := 1 }

/-- A block after that one. -/
def forkBlock : Block where
  header := {
    version := 1
    prevHash := digest [0x9d, 0x19, 0x1f, 0xbd, 0xae, 0x08, 0xa7, 0x0b, 0x09, 0xf7, 0x22, 0xc7,
      0xf5, 0x82, 0x9a, 0x1f, 0xda, 0x10, 0xc5, 0x97, 0xaf, 0x77, 0x9d, 0xf5, 0x11, 0xea, 0x36,
      0x63, 0x0b, 0xa1, 0x15, 0x4e]
    merkleRoot := digest [0xbf, 0x95, 0x8d, 0x70, 0x55, 0x13, 0x48, 0x6a, 0xb3, 0x6f, 0x56, 0x0b,
      0xde, 0x0e, 0xbb, 0x33, 0x5e, 0x76, 0x85, 0x7b, 0x79, 0x18, 0x8f, 0x2f, 0xb6, 0xe4, 0x18,
      0x84, 0xc1, 0x24, 0x37, 0xef]
    time := 1296688605
    bits := 0x207fffff
    nonce := 1 }
  transactions := [{ coinbaseTx 5000000000 with
    inputs := [⟨OutPoint.coinbase, ⟨[0x52, 0x52]⟩, 0xffffffff, []⟩] }]

/-- The digests of these two. -/
def forkDigests : List (List UInt8 × Bytes32) :=
  twice forkHeader.serialize.toList
    ⟨[0x52, 0x69, 0xdc, 0x35, 0xd9, 0x26, 0xff, 0x97, 0x09, 0xf7, 0x17, 0x7e, 0x08, 0x7b, 0x05,
      0xf9, 0x03, 0x78, 0x26, 0xb9, 0x18, 0xb0, 0xd9, 0xb9, 0x01, 0xe3, 0xba, 0xd9, 0x49, 0xd7,
      0xe2, 0x7e], rfl⟩
    ⟨[0x9d, 0x19, 0x1f, 0xbd, 0xae, 0x08, 0xa7, 0x0b, 0x09, 0xf7, 0x22, 0xc7, 0xf5, 0x82, 0x9a,
      0x1f, 0xda, 0x10, 0xc5, 0x97, 0xaf, 0x77, 0x9d, 0xf5, 0x11, 0xea, 0x36, 0x63, 0x0b, 0xa1,
      0x15, 0x4e], rfl⟩ ++
  twice forkBlock.header.serialize.toList
    ⟨[0xdb, 0xe9, 0x4b, 0x19, 0x91, 0xd5, 0x94, 0x66, 0xc3, 0xaa, 0x89, 0x56, 0x0c, 0xb5, 0xbb,
      0x85, 0x64, 0x79, 0x7e, 0xdb, 0xea, 0xb7, 0x67, 0xfc, 0x92, 0x8a, 0x97, 0x99, 0x1c, 0x9b,
      0xff, 0xa7], rfl⟩
    ⟨[0xa4, 0xb5, 0x97, 0x31, 0x32, 0x61, 0x4e, 0x5a, 0x92, 0xd2, 0x6d, 0x86, 0xe9, 0xbb, 0x0f,
      0x49, 0x74, 0x25, 0x1b, 0x32, 0xee, 0x40, 0x3a, 0xd8, 0x9b, 0x88, 0x81, 0x89, 0x5b, 0x17,
      0xc4, 0x76], rfl⟩ ++
  twice (forkBlock.transactions.flatMap Transaction.encodeBase)
    ⟨[0x72, 0xb3, 0x36, 0x05, 0x9f, 0xbb, 0x8b, 0x60, 0x0b, 0x5b, 0x66, 0x11, 0xcd, 0xee, 0xd4,
      0xb1, 0x11, 0xd9, 0x1a, 0xd2, 0xbb, 0x99, 0x97, 0xff, 0x9d, 0x09, 0xb2, 0xf0, 0x14, 0xa9,
      0x3f, 0x2b], rfl⟩
    ⟨[0xbf, 0x95, 0x8d, 0x70, 0x55, 0x13, 0x48, 0x6a, 0xb3, 0x6f, 0x56, 0x0b, 0xde, 0x0e, 0xbb,
      0x33, 0x5e, 0x76, 0x85, 0x7b, 0x79, 0x18, 0x8f, 0x2f, 0xb6, 0xe4, 0x18, 0x84, 0xc1, 0x24,
      0x37, 0xef], rfl⟩

set_option maxRecDepth 100000 in
lemma sha256_forkDigests : ∀ e ∈ forkDigests, Sha256.sha256 e.1 = e.2 := by
  decide +kernel

lemma sha2_eq_forkDigests : sha2 = remember (digests ++ forkDigests) :=
  sha2_eq_remember (List.forall_mem_append.mpr ⟨sha256_digests, sha256_forkDigests⟩)

/-- The node learns of two forks, and downloads the first block of one and the second block of the
other. -/
def forkEvents : List Event :=
  [.recvHeaders [nextBlock.header], .acceptHeader, .storeHeaders,
    .recvHeaders [forkHeader, forkBlock.header], .acceptHeader, .acceptHeader, .storeHeaders,
    .recvBlock nextBlock, .recvBlock forkBlock, .storeBlocks 2, .blockDownloaded 0,
    .blockDownloaded 0, .activate, .selectBlock false, .connect [], .storeUndo,
    .selectBlock false, .connect []]

set_option maxRecDepth 100000 in
lemma run_forkEvents :
    (Reachable.run (System.step cfg) (fun _ e _ => decide e.CollisionFree) (System.init cfg)
      forkEvents).map (·.history.connected) = some [nextBlock, forkBlock] := by
  unfold cfg System.step System.init Node.step Node.init Node.loadGenesisBlock Node.acceptHeader
    HeaderBatch.acceptHeader HeaderBatch.push ChainParams.genesisIndex Node.selectBlock Node.connect
  rw [sha2_eq_forkDigests, calculateBlockWork_eq_division]
  decide +kernel

set_option maxRecDepth 100000 in
lemma blockHash_nextBlock_ne : nextBlock.header.blockHash ≠ forkBlock.header.prevHash := by
  rw [sha2_eq_digests]
  decide +kernel

/-- The node connects the second block of one fork on top of the first block of the other. -/
theorem not_hashChained_forkBlock :
    ∃ s, Reachable (System.step cfg) (fun _ e _ => e.CollisionFree) (System.init cfg) s ∧
      s.history.connected = [nextBlock, forkBlock] ∧
      ¬ HashChained cfg [nextBlock, forkBlock] := by
  obtain ⟨s, hrun, hconnected⟩ := Option.map_eq_some_iff.mp run_forkEvents
  refine ⟨s, Reachable.init.of_run (fun _ _ _ => of_decide_eq_true) hrun, hconnected, ?_⟩
  intro hchained
  have hprev := hchained 1 forkBlock rfl
  exact blockHash_nextBlock_ne (Option.some.inj hprev)

end Sample

end Bitcrab
