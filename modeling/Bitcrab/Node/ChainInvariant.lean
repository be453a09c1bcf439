import Bitcrab.Consensus.ConnectBlock
import Bitcrab.Node.IndexInvariant

/-!
# The chain of a running node

The blocks connected so far are indexed at their heights, the cache has the last of them as its best
block and remembers those that are not flushed, and the store has the best block and the `H` table
of the last flush.
-/

namespace Bitcrab

open BlockManager Result

variable [Sha2]

/-- The hashes of a chain, from the genesis block on. -/
def chainHashes (cfg : Config) (chain : List Block) : List BlockHash :=
  cfg.params.genesisHash :: chain.map (·.header.blockHash)

/-- A block was accepted for a height, with the header it has now. -/
def AcceptedAt (accepted : List (BlockHeight × Block)) (height : BlockHeight) (block : Block) :
    Prop :=
  ∃ b, (height, b) ∈ accepted ∧ b.header = block.header

/-- What holds of the chainstate actor in each phase. -/
def PhaseInv (cfg : Config) (s : System) : Prop :=
  match s.node.phase with
  | .repairing _ => True
  | .idle => True
  | .activating a => a.currentTip.height = UInt32.ofNat s.history.connected.length
  | .connecting a hash block =>
    a.currentTip.height = UInt32.ofNat s.history.connected.length ∧
      s.history.connected.length + 1 < 2 ^ 32 ∧ block.header.blockHash = hash ∧
      s.node.store.HasHeight hash (a.currentTip.height + 1) ∧ s.node.store.HasBody hash ∧
      AcceptedAt s.history.accepted (a.currentTip.height + 1) block
  | .storingUndo a hash _ _ =>
    a.currentTip.height + 1 = UInt32.ofNat s.history.connected.length ∧
      s.node.store.HasBody hash ∧
      (chainHashes cfg s.history.connected)[s.history.connected.length]? = some hash
  | .flushing a => a.currentTip.height = UInt32.ofNat s.history.connected.length

/-- What holds of the chain. -/
structure ChainInv (cfg : Config) (s : System) : Prop where
  small : s.history.connected.length < 2 ^ 32
  heights : ∀ height hash, (chainHashes cfg s.history.connected)[height]? = some hash →
    s.node.store.HasHeight hash (UInt32.ofNat height)
  accepted : ∀ i block, s.history.connected[i]? = some block →
    AcceptedAt s.history.accepted (UInt32.ofNat (i + 1)) block
  flushed : s.history.flushed ≤ s.history.connected.length
  table : ∀ height hash, s.node.store.getBlockHash height = some hash →
    s.node.store.HasHeight hash height
  tableFlushed : ∀ height, 1 ≤ height → height ≤ s.history.flushed →
    s.node.store.getBlockHash (UInt32.ofNat height) =
      (chainHashes cfg s.history.connected)[height]?
  storeBest : s.node.store.getBestBlock =
    (chainHashes cfg s.history.connected)[s.history.flushed]?
  cacheBest : s.node.chainstate.cache.bestBlock =
    (chainHashes cfg s.history.connected)[s.history.connected.length]?
  entries : ∀ e ∈ s.node.chainstate.cache.connectedBlocks,
    (chainHashes cfg s.history.connected)[e.1.toNat]? = some e.2
  entriesAll : ∀ height hash, s.history.flushed < height →
    (chainHashes cfg s.history.connected)[height]? = some hash →
    (UInt32.ofNat height, hash) ∈ s.node.chainstate.cache.connectedBlocks
  phase : PhaseInv cfg s

section Hashes

variable (cfg : Config) {chain : List Block} {block : Block} {i : Nat}

@[simp] lemma length_chainHashes (chain : List Block) :
    (chainHashes cfg chain).length = chain.length + 1 := by
  simp [chainHashes]

/-- The hashes of a longer chain. -/
lemma chainHashes_append (chain : List Block) (block : Block) :
    chainHashes cfg (chain ++ [block]) = chainHashes cfg chain ++ [block.header.blockHash] := by
  simp [chainHashes]

lemma getElem?_chainHashes_append (h : i ≤ chain.length) :
    (chainHashes cfg (chain ++ [block]))[i]? = (chainHashes cfg chain)[i]? := by
  rw [chainHashes_append, List.getElem?_append_left (by simp; omega)]

lemma getElem?_chainHashes_append_length :
    (chainHashes cfg (chain ++ [block]))[chain.length + 1]? = some block.header.blockHash := by
  rw [chainHashes_append, List.getElem?_append_right (by simp)]
  simp

/-- The hashes of a shorter chain. -/
lemma getElem?_chainHashes_take {k : Nat} (h : i ≤ k) :
    (chainHashes cfg (chain.take k))[i]? = (chainHashes cfg chain)[i]? := by
  have htake : chainHashes cfg (chain.take k) = (chainHashes cfg chain).take (k + 1) := by
    simp [chainHashes, List.map_take]
  rw [htake, List.getElem?_take_of_lt (by omega)]

lemma le_of_getElem?_chainHashes {hash : BlockHash}
    (h : (chainHashes cfg chain)[i]? = some hash) : i ≤ chain.length := by
  have hlt := (List.getElem?_eq_some_iff.mp h).1
  rw [length_chainHashes] at hlt
  omega

/-- A hash of a longer chain is a hash of the chain or the new one. -/
lemma getElem?_chainHashes_append_cases {hash : BlockHash}
    (h : (chainHashes cfg (chain ++ [block]))[i]? = some hash) :
    (chainHashes cfg chain)[i]? = some hash ∨
      i = chain.length + 1 ∧ block.header.blockHash = hash := by
  have hle := le_of_getElem?_chainHashes cfg h
  rw [List.length_append, List.length_singleton] at hle
  by_cases hi : i ≤ chain.length
  · rw [getElem?_chainHashes_append cfg hi] at h
    exact .inl h
  · obtain rfl : i = chain.length + 1 := by omega
    rw [getElem?_chainHashes_append_length] at h
    exact .inr ⟨rfl, Option.some.inj h⟩

end Hashes

/-! ### Steps outside of an activation -/

section Steps

variable {cfg : Config} {s s' : System}

omit [Sha2] in
lemma AcceptedAt.mono {accepted accepted' : List (BlockHeight × Block)} {height : BlockHeight}
    {block : Block} (h : AcceptedAt accepted height block) (hsub : accepted ⊆ accepted') :
    AcceptedAt accepted' height block := by
  obtain ⟨b, hmem, hheader⟩ := h
  exact ⟨b, hsub hmem, hheader⟩

lemma PhaseInv.of_grows (h : PhaseInv cfg s) (hphase : s'.node.phase = s.node.phase)
    (hgrows : s.node.store.Grows s'.node.store)
    (hconnected : s'.history.connected = s.history.connected)
    (hsub : s.history.accepted ⊆ s'.history.accepted) : PhaseInv cfg s' := by
  unfold PhaseInv at h ⊢
  rw [hphase, hconnected]
  cases hp : s.node.phase with
  | repairing tips => trivial
  | idle => trivial
  | activating a => simpa only [hp] using h
  | connecting a hash block =>
    simp only [hp] at h ⊢
    obtain ⟨htip, hsmall, hhash, hheight, hbody, haccepted⟩ := h
    exact ⟨htip, hsmall, hhash, hgrows.height _ _ hheight, hgrows.body _ hbody,
      haccepted.mono hsub⟩
  | storingUndo a hash block undo =>
    simp only [hp] at h ⊢
    obtain ⟨htip, hbody, hlast⟩ := h
    exact ⟨htip, hgrows.body _ hbody, hlast⟩
  | flushing a => simpa only [hp] using h

/-- A step that leaves the chain state alone. -/
lemma ChainInv.of_kept (hinv : ChainInv cfg s) (hkept : ChainstateKept s.node s'.node)
    (hconnected : s'.history.connected = s.history.connected)
    (hflushed : s'.history.flushed = s.history.flushed)
    (hsub : s.history.accepted ⊆ s'.history.accepted) (hphase : PhaseInv cfg s') :
    ChainInv cfg s' where
  small := by
    rw [hconnected]
    exact hinv.small
  heights := by
    rw [hconnected]
    exact fun height hash h => hkept.grows.height _ _ (hinv.heights height hash h)
  accepted := by
    rw [hconnected]
    exact fun i block h => (hinv.accepted i block h).mono hsub
  flushed := by
    rw [hconnected, hflushed]
    exact hinv.flushed
  table := by
    intro height hash h
    rw [hkept.height] at h
    exact hkept.grows.height _ _ (hinv.table height hash h)
  tableFlushed := by
    rw [hconnected, hflushed]
    intro height hpos hle
    rw [hkept.height]
    exact hinv.tableFlushed height hpos hle
  storeBest := by
    rw [hconnected, hflushed, hkept.bestBlock]
    exact hinv.storeBest
  cacheBest := by
    rw [hconnected, hkept.cache]
    exact hinv.cacheBest
  entries := by
    rw [hconnected, hkept.cache]
    exact hinv.entries
  entriesAll := by
    rw [hconnected, hflushed, hkept.cache]
    exact hinv.entriesAll
  phase := hphase

/-- A step that leaves the chain state and the phase alone. -/
lemma ChainInv.of_kept_phase (hinv : ChainInv cfg s) (hkept : ChainstateKept s.node s'.node)
    (hphase : s'.node.phase = s.node.phase)
    (hconnected : s'.history.connected = s.history.connected)
    (hflushed : s'.history.flushed = s.history.flushed)
    (hsub : s.history.accepted ⊆ s'.history.accepted) : ChainInv cfg s' :=
  hinv.of_kept hkept hconnected hflushed hsub
    (hinv.phase.of_grows hphase hkept.grows hconnected hsub)

/-! ### An activation -/

/-- There is a last hash of the chain, and it is the best block of the cache. -/
lemma ChainInv.getBestBlock (hinv : ChainInv cfg s) :
    s.node.cacheView.getBestBlock =
      (chainHashes cfg s.history.connected)[s.history.connected.length]? := by
  obtain ⟨hash, hhash⟩ : ∃ hash, (chainHashes cfg s.history.connected)[
      s.history.connected.length]? = some hash :=
    ⟨_, List.getElem?_eq_getElem (by simp)⟩
  have hcache : s.node.cacheView.bestBlock = some hash := hinv.cacheBest.trans hhash
  rw [CoinsViewCache.getBestBlock, hcache, hhash, Option.some_or]

/-- An activation starts at the last block connected. -/
lemma ChainInv.beginActivation (hinv : ChainInv cfg s) {a : Activation}
    (h : s.node.beginActivation cfg = .ok a) :
    a.currentTip.height = UInt32.ofNat s.history.connected.length := by
  obtain ⟨hash, hhash⟩ : ∃ hash, (chainHashes cfg s.history.connected)[
      s.history.connected.length]? = some hash :=
    ⟨_, List.getElem?_eq_getElem (by simp)⟩
  have hbest := hinv.getBestBlock.trans hhash
  simp only [Node.beginActivation, hbest, Option.some_or, Option.getD_some, bind_eq_ok] at h
  obtain ⟨assumeValidHeight, -, found, hfound, h⟩ := h
  cases found with
  | none => simp [throw_eq_error] at h
  | some index =>
    simp only [pure_eq_ok, Except.ok.injEq] at h
    subst h
    exact Store.HasHeight.unique ⟨index, hfound, rfl⟩ (hinv.heights _ hash hhash)

omit [Sha2] in
lemma succ_ofNat (k : Nat) : UInt32.ofNat k + 1 = UInt32.ofNat (k + 1) := by
  rw [UInt32.ofNat_add]
  rfl

omit [Sha2] in
/-- A height below `u32::MAX` has a successor. -/
lemma lt_of_ofNat_ne {k : Nat} (hk : k < 2 ^ 32) (hne : UInt32.ofNat k ≠ 0xFFFFFFFF) :
    k + 1 < 2 ^ 32 := by
  by_contra hnot
  apply hne
  obtain rfl : k = 2 ^ 32 - 1 := by omega
  rfl

/-- The hash tried at a height is indexed there, wherever it is from. -/
lemma hasHeight_of_nextHash (hindex : IndexInv s) (hinv : ChainInv cfg s) {height : BlockHeight}
    {hash : BlockHash} (h : s.node.nextHash height = some hash) :
    s.node.store.HasHeight hash height := by
  unfold Node.nextHash at h
  rw [Option.or_eq_some_iff, Option.or_eq_some_iff] at h
  rcases h with h | ⟨-, h | ⟨-, h⟩⟩
  · exact hindex.waiting height hash h
  · exact hinv.table height hash h
  · exact hindex.headerHeight height hash h

/-- A round of the activation loop may take a waiting block. -/
lemma IndexInv.selectBlock (hinv : IndexInv s) {a : Activation} {recentlyFailed : Bool} {n' : Node}
    (h : s.node.selectBlock a recentlyFailed = some n') : IndexInv ⟨n', s.history⟩ := by
  obtain ⟨waitingBlocks, phase, rfl, hwaiting, -⟩ := selectBlock_eq_some h
  exact hinv.of_store_eq rfl rfl (List.Subset.refl _)
    (fun height hash hl => hinv.waiting height hash (hwaiting height hash hl))
    hinv.downloaded (fun _ hmsg => .inl hmsg) hinv.headers

/-- The activation loop finds a block that was accepted for the height after the chain. -/
lemma ChainInv.selectBlock (hindex : IndexInv s) (hinv : ChainInv cfg s) {a : Activation}
    {recentlyFailed : Bool} {n' : Node} (hphase : s.node.phase = .activating a)
    (h : s.node.selectBlock a recentlyFailed = some n') :
    IndexInv ⟨n', s.history⟩ ∧ ChainInv cfg ⟨n', s.history⟩ ∧ ChainstateKept s.node n' := by
  have htip := hinv.phase
  rw [PhaseInv, hphase] at htip
  obtain ⟨waitingBlocks, phase, rfl, -, hcases⟩ := selectBlock_eq_some h
  have hkept : ChainstateKept s.node { s.node with
      chainstate := { s.node.chainstate with waitingBlocks }, phase } :=
    chainstateKept_of_store_eq rfl rfl
  refine ⟨hindex.selectBlock h, ?_, hkept⟩
  refine hinv.of_kept hkept rfl rfl (List.Subset.refl _) ?_
  rcases hcases with rfl | ⟨hash, block, rfl, hmax, hnext, hread⟩
  · exact True.intro
  · have hheight := hasHeight_of_nextHash hindex hinv hnext
    obtain ⟨hhash, hbody, haccepted⟩ :=
      header_of_readBlock (hindex.backed hash) hheight hread
    rw [htip] at hmax
    exact ⟨htip, lt_of_ofNat_ne hinv.small hmax, hhash, hheight, hbody, haccepted⟩

/-- Connecting a block makes it the last one of the chain. -/
lemma ChainInv.connect [ScriptVerifier] (hinv : ChainInv cfg s) {a : Activation}
    {hash : BlockHash} {block : Block} (hphase : s.node.phase = .connecting a hash block)
    (completion : List Nat) :
    ChainInv cfg ⟨s.node.connect cfg a hash block completion,
      s.history.next cfg s.node (.connect completion)⟩ := by
  have hcall := hinv.phase
  rw [PhaseInv, hphase] at hcall
  obtain ⟨htip, hsmall, hhash, hheight, hbody, haccepted⟩ := hcall
  have hview : s.node.cacheView.toCacheState = s.node.chainstate.cache := rfl
  rcases hresult : s.node.connectCall cfg a block completion with ⟨result, view⟩
  cases result with
  | error e =>
    have hnode : s.node.connect cfg a hash block completion = { s.node with
        chainstate := { s.node.chainstate with
          cache := view.toCacheState
          lastFailedActivation := some (a.currentTip.height + 1, hash) }
        phase := .idle } := by
      simp only [Node.connect, hresult]
    have hhistory : s.history.next cfg s.node (.connect completion) = s.history := by
      simp only [History.next, hphase, hresult]
    rw [hnode, hhistory]
    -- a failed call changes neither the best block nor the list of connected blocks
    obtain ⟨hbest, hblocks⟩ : view.bestBlock = s.node.chainstate.cache.bestBlock ∧
        view.connectedBlocks = s.node.chainstate.cache.connectedBlocks := by
      rcases connectBlock_eq_error hresult with ⟨-, rfl⟩ | ⟨st, -, -, rfl⟩
      · exact ⟨rfl, rfl⟩
      · rw [CoinsViewCache.bestBlock_writeAll, CoinsViewCache.connectedBlocks_writeAll]
        exact ⟨rfl, rfl⟩
    exact ⟨hinv.small, hinv.heights, hinv.accepted, hinv.flushed, hinv.table, hinv.tableFlushed,
      hinv.storeBest, hbest.trans hinv.cacheBest, by rw [hblocks]; exact hinv.entries,
      by rw [hblocks]; exact hinv.entriesAll, trivial⟩
  | ok r =>
    obtain ⟨fees, undo⟩ := r
    have hnode : s.node.connect cfg a hash block completion = { s.node with
        chainstate := { s.node.chainstate with
          cache := view.toCacheState
          lastFailedActivation := none }
        phase := .storingUndo a hash block undo } := by
      simp only [Node.connect, hresult]
    have hhistory : s.history.next cfg s.node (.connect completion) =
        { s.history with connected := s.history.connected ++ [block] } := by
      simp only [History.next, hphase, hresult]
    rw [hnode, hhistory]
    obtain ⟨st, -, -, -, -, -, rfl⟩ := connectBlock_eq_ok hresult
    have hnext : a.currentTip.height + 1 = UInt32.ofNat (s.history.connected.length + 1) := by
      rw [htip, succ_ofNat]
    have hlength : (s.history.connected ++ [block]).length = s.history.connected.length + 1 := by
      simp
    have hflushed := hinv.flushed
    refine ⟨?_, ?_, ?_, ?_, hinv.table, ?_, ?_, ?_, ?_, ?_, ?_, hbody, ?_⟩
    · rw [hlength]
      exact hsmall
    · intro height hash' hget
      rcases getElem?_chainHashes_append_cases cfg hget with hold | ⟨rfl, rfl⟩
      · exact hinv.heights height hash' hold
      · rw [hhash, ← hnext]
        exact hheight
    · intro i block' hget
      rcases Nat.lt_or_ge i s.history.connected.length with hi | hi
      · rw [List.getElem?_append_left hi] at hget
        exact hinv.accepted i block' hget
      · rw [List.getElem?_append_right hi, List.getElem?_singleton] at hget
        split_ifs at hget with hzero
        obtain rfl := Option.some.inj hget
        obtain rfl : i = s.history.connected.length := by omega
        rw [← hnext]
        exact haccepted
    · rw [hlength]
      exact Nat.le_succ_of_le hinv.flushed
    · intro height hpos hle
      rw [getElem?_chainHashes_append cfg (Nat.le_trans hle hflushed)]
      exact hinv.tableFlushed height hpos hle
    · rw [getElem?_chainHashes_append cfg hflushed]
      exact hinv.storeBest
    · rw [hlength, getElem?_chainHashes_append_length]
      rfl
    · intro e he
      rw [CoinsViewCache.setBestBlock, CoinsViewCache.connectedBlocks_writeAll] at he
      rcases List.mem_append.mp he with he | he
      · have hold := hinv.entries e he
        rw [getElem?_chainHashes_append cfg (le_of_getElem?_chainHashes cfg hold)]
        exact hold
      · obtain rfl := List.mem_singleton.mp he
        dsimp only
        rw [hnext, UInt32.toNat_ofNat_of_lt' hsmall, getElem?_chainHashes_append_length]
    · intro height hash' hlt hget
      rw [CoinsViewCache.setBestBlock, CoinsViewCache.connectedBlocks_writeAll]
      rcases getElem?_chainHashes_append_cases cfg hget with hold | ⟨rfl, rfl⟩
      · exact List.mem_append_left _ (hinv.entriesAll height hash' hlt hold)
      · rw [hnext]
        exact List.mem_append_right _ (List.mem_singleton.mpr rfl)
    · rw [hlength]
      exact hnext
    · rw [hlength, getElem?_chainHashes_append_length, hhash]

/-- Storing the undo data of the last block. -/
lemma ChainInv.storeUndo (hindex : IndexInv s) (hinv : ChainInv cfg s) {a : Activation}
    {hash : BlockHash} {block : Block} {undo : BlockUndo}
    (hphase : s.node.phase = .storingUndo a hash block undo) :
    ChainInv cfg ⟨s.node.storeUndo a hash block undo, s.history⟩ := by
  have hundone := hinv.phase
  rw [PhaseInv, hphase] at hundone
  obtain ⟨htip, hbody, hlast⟩ := hundone
  obtain ⟨bm, store, hundo⟩ :=
    handleStoreUndo_of_hasBody undo hbody fun index hl => (hindex.undo hash index hl).2.1
  obtain ⟨-, -, -, -, -, -, hdb, -⟩ := handleStoreUndo_eq_ok hundo
  have hwritten : IndexesWritten s.node.store store [] := indexesWritten_of_db_eq hdb
  have hgrows : s.node.store.Grows store :=
    Store.grows_of_indexesUpdated hwritten.index (by simp [Store.Extending])
  have htip' : (a.advance block).currentTip.height =
      UInt32.ofNat s.history.connected.length := htip
  unfold Node.storeUndo
  simp only [hundo]
  refine ⟨hinv.small, ?_, hinv.accepted, hinv.flushed, ?_, ?_, ?_, hlast.symm, ?_, ?_, ?_⟩
  · exact fun height hash' hget => hgrows.height _ _ (hinv.heights height hash' hget)
  · intro height hash' hget
    rw [hwritten.height] at hget
    exact hgrows.height _ _ (hinv.table height hash' hget)
  · intro height hpos hle
    rw [hwritten.height]
    exact hinv.tableFlushed height hpos hle
  · rw [hwritten.bestBlock]
    exact hinv.storeBest
  · intro e he
    rcases List.mem_append.mp he with he | he
    · exact hinv.entries e he
    · obtain rfl := List.mem_singleton.mp he
      dsimp only
      rw [htip, UInt32.toNat_ofNat_of_lt' hinv.small]
      exact hlast
  · exact fun height hash' hlt hget =>
      List.mem_append_left _ (hinv.entriesAll height hash' hlt hget)
  · unfold PhaseInv
    dsimp only
    split_ifs
    · exact htip'
    · exact htip'

/-- A flush brings the store up to the chain. -/
lemma ChainInv.flush (hindex : IndexInv s) (hinv : ChainInv cfg s) {a : Activation}
    (hphase : s.node.phase = .flushing a) (coinOrder : List OutPoint)
    (undoOrder : List BlockHash) (trimOrder : List OutPoint) :
    ChainInv cfg ⟨s.node.flushChainstate a coinOrder undoOrder trimOrder,
      { s.history with flushed := s.history.connected.length }⟩ := by
  have htip := hinv.phase
  rw [PhaseInv, hphase] at htip
  have hwritten := IndexInv.chainstateWritten_flush s.node a coinOrder undoOrder trimOrder
  have hgrows := hindex.grows_of_chainstateWritten
    (IndexInv.chainstateWritten_flush s.node a coinOrder undoOrder trimOrder)
  have hentries : ∀ e ∈ s.node.cacheView.connectedBlocks,
      (chainHashes cfg s.history.connected)[e.1.toNat]? = some e.2 := hinv.entries
  refine ⟨hinv.small, ?_, hinv.accepted, Nat.le_refl _, ?_, ?_, ?_, hinv.cacheBest, ?_, ?_, htip⟩
  · exact fun height hash hget => hgrows.height _ _ (hinv.heights height hash hget)
  · intro height hash hget
    rcases hwritten.height height with ⟨-, hsame⟩ | ⟨e, he, rfl, hnew⟩
    · exact hgrows.height _ _ (hinv.table height hash (hsame.symm.trans hget))
    · rw [hnew, Option.some.injEq] at hget
      subst hget
      have hheight := hinv.heights _ _ (hentries e he)
      rw [UInt32.ofNat_toNat] at hheight
      exact hgrows.height _ _ hheight
  · intro height hpos hle
    dsimp only at hle
    have hsmall := hinv.small
    have hread : (UInt32.ofNat height).toNat = height :=
      UInt32.toNat_ofNat_of_lt' (Nat.lt_of_le_of_lt hle hsmall)
    rcases hwritten.height (UInt32.ofNat height) with ⟨hne, hsame⟩ | ⟨e, he, heq, hnew⟩
    · by_cases hflushed : height ≤ s.history.flushed
      · exact hsame.trans (hinv.tableFlushed height hpos hflushed)
      · -- a height after the last flush is one of those written
        obtain ⟨hash, hhash⟩ : ∃ hash,
            (chainHashes cfg s.history.connected)[height]? = some hash :=
          ⟨_, List.getElem?_eq_getElem (by simp; omega)⟩
        exact absurd rfl (hne _ (hinv.entriesAll height hash (by omega) hhash))
    · have hentry := hentries e he
      rw [heq, hread] at hentry
      exact hnew.trans hentry.symm
  · refine hwritten.bestBlock.trans ?_
    rw [hinv.getBestBlock, List.getElem?_eq_getElem (by simp), Option.some_or]
  · intro e he
    cases he
  · intro height hash hlt hget
    have hle := le_of_getElem?_chainHashes cfg hget
    dsimp only at hlt hle
    omega

/-- A restart goes back to the chain of the last flush. -/
lemma ChainInv.crash (hinv : ChainInv cfg s) :
    ChainInv cfg ⟨Node.start cfg s.node.store,
      { s.history with connected := s.history.connected.take s.history.flushed }⟩ := by
  have hlength : (s.history.connected.take s.history.flushed).length = s.history.flushed := by
    rw [List.length_take, Nat.min_eq_left hinv.flushed]
  have hget : ∀ (height : Nat) (hash : BlockHash),
      (chainHashes cfg (s.history.connected.take s.history.flushed))[height]? = some hash →
        (chainHashes cfg s.history.connected)[height]? = some hash := by
    intro height hash h
    have hle := le_of_getElem?_chainHashes cfg h
    rwa [getElem?_chainHashes_take cfg (by omega)] at h
  have hsmall := hinv.small
  have hflushed := hinv.flushed
  refine ⟨?_, ?_, ?_, ?_, hinv.table, ?_, ?_, ?_, ?_, ?_, True.intro⟩
  · dsimp only
    omega
  · exact fun height hash h => hinv.heights height hash (hget height hash h)
  · intro i block h
    dsimp only at h
    rw [List.getElem?_take] at h
    split_ifs at h
    exact hinv.accepted i block h
  · dsimp only
    omega
  · intro height hpos hle
    dsimp only at hle ⊢
    rw [getElem?_chainHashes_take cfg hle]
    exact hinv.tableFlushed height hpos hle
  · dsimp only
    rw [getElem?_chainHashes_take cfg (Nat.le_refl _)]
    exact hinv.storeBest
  · dsimp only
    rw [hlength, getElem?_chainHashes_take cfg (Nat.le_refl _)]
    exact hinv.storeBest
  · intro e he
    cases he
  · intro height hash hlt h
    have hle := le_of_getElem?_chainHashes cfg h
    dsimp only at hlt hle
    omega

end Steps

/-! ### The start -/

section Init

variable (cfg : Config)

/-- The store of a new node, after `load_genesis`. -/
def genesisStore : Store :=
  ⟨Store.empty.db.commit
    (indexOps cfg.params.genesisHash cfg.params.genesisIndex ++
      [putHash .headersTip cfg.params.genesisHash, putHash (.headerHeight 0) cfg.params.genesisHash,
        putHash .bestBlock cfg.params.genesisHash]), Store.empty.disk⟩

/-- The first write of the height is the one of the index; the second repeats it. -/
lemma get_genesisStore (k : DbKey) :
    (genesisStore cfg).db.get k =
      if k = .bestBlock then some cfg.params.genesisHash.bytes.toList
      else if k = .headerHeight 0 then some cfg.params.genesisHash.bytes.toList
      else if k = .headersTip then some cfg.params.genesisHash.bytes.toList
      else if k = .block cfg.params.genesisHash then some (encode cfg.params.genesisIndex)
      else none := by
  have hempty : Store.empty.db.get k = none := rfl
  have hheight : cfg.params.genesisIndex.height = 0 := rfl
  simp only [genesisStore, indexOps, List.cons_append, List.nil_append, Db.commit_cons,
    Db.commit_nil, Db.get_apply, hempty, WriteOp.key, WriteOp.value, putHash, hheight]
  cases k <;> simp [eq_comm]

lemma getBlockIndex_genesisStore {hash : BlockHash} {index : BlockIndex}
    (h : (genesisStore cfg).getBlockIndex hash = .ok (some index)) :
    hash = cfg.params.genesisHash ∧ index = cfg.params.genesisIndex := by
  have hdec := decodeExact_encode (roundTrips_blockIndex cfg.params.genesisIndex) "BlockIndex"
  simp only [Store.getBlockIndex, get_genesisStore, reduceCtorEq, if_false,
    DbKey.block.injEq] at h
  by_cases hhash : hash = cfg.params.genesisHash
  · simp only [hhash, if_true, hdec] at h
    exact ⟨hhash, (Option.some.inj (Except.ok.inj h)).symm⟩
  · simp [hhash] at h

lemma hasHeight_genesisStore : (genesisStore cfg).HasHeight cfg.params.genesisHash 0 := by
  have hdec := decodeExact_encode (roundTrips_blockIndex cfg.params.genesisIndex) "BlockIndex"
  refine ⟨cfg.params.genesisIndex, ?_, rfl⟩
  simp [Store.getBlockIndex, get_genesisStore, hdec, Result.mapError_ok, Except.map]

lemma indexInv_init [ScriptVerifier] : IndexInv (System.init cfg) where
  files := ⟨Nat.zero_le _, Nat.zero_le _, fun _ _ => rfl⟩
  lastFile := by
    change (genesisStore cfg).lastFile = 0
    simp [Store.lastFile, get_genesisStore]
  backed := by
    intro hash index hindex
    obtain ⟨-, rfl⟩ := getBlockIndex_genesisStore cfg hindex
    exact backed_of_filePos_eq_none rfl
  undo := by
    intro hash index hl
    cases hl
  headerHeight := by
    intro height hash hz
    have hz' : Store.readHash (genesisStore cfg).db (.headerHeight height) = some hash := hz
    rw [Store.readHash, get_genesisStore] at hz'
    simp only [reduceCtorEq, if_false, DbKey.headerHeight.injEq] at hz'
    split_ifs at hz' with hzero
    · simp only [Option.map_some, toBytes32_toList, Option.some.injEq] at hz'
      subst hz' hzero
      exact hasHeight_genesisStore cfg
    · simp at hz'
  waiting := by
    intro height hash hl
    cases hl
  downloaded := by
    intro e he
    cases he
  queued := by
    intro msg hmsg
    cases hmsg
  headers := by
    intro batch hbatch
    cases hbatch

lemma chainInv_init [ScriptVerifier] : ChainInv cfg (System.init cfg) where
  small := Nat.two_pow_pos 32
  heights := by
    intro height hash hget
    have hle := le_of_getElem?_chainHashes cfg hget
    obtain rfl : height = 0 := Nat.le_zero.mp hle
    obtain rfl : cfg.params.genesisHash = hash := Option.some.inj hget
    exact hasHeight_genesisStore cfg
  accepted := by
    intro i block hget
    cases hget
  flushed := Nat.le_refl _
  table := by
    intro height hash hget
    have hget' : Store.readHash (genesisStore cfg).db (.height height) = some hash := hget
    simp [Store.readHash, get_genesisStore] at hget'
  tableFlushed := by
    intro height hpos hle
    have hle' : height ≤ 0 := hle
    omega
  storeBest := by
    change Store.readHash (genesisStore cfg).db .bestBlock = some cfg.params.genesisHash
    simp [Store.readHash, get_genesisStore]
  cacheBest := rfl
  entries := by
    intro e he
    have he' : e ∈ [((0 : UInt32), cfg.params.genesisHash)] := he
    obtain rfl := List.mem_singleton.mp he'
    rfl
  entriesAll := by
    intro height hash hlt hget
    have hle := le_of_getElem?_chainHashes cfg hget
    have hlt' : 0 < height := hlt
    have hle' : height ≤ 0 := hle
    omega
  phase := True.intro

end Init

/-! ### Every step -/

section Step

variable [ScriptVerifier] {cfg : Config} {s s' : System} {e : Event}

/-- A header message without two different headers of the same hash. -/
def Event.CollisionFree : Event → Prop
  | .recvHeaders headers => HeaderBatch.CollisionFree headers
  | _ => True

/-- A step that leaves the chain alone, in the node and in the history. A block to connect is there
already, or comes from the activation loop. -/
structure QuietStep (s : System) (e : Event) (s' : System) : Prop where
  kept : ChainstateKept s.node s'.node
  connected : s'.history.connected = s.history.connected
  flushed : s'.history.flushed = s.history.flushed
  connecting : ∀ a hash block, s'.node.phase = .connecting a hash block →
    s.node.phase = .connecting a hash block ∨
      ∃ a recentlyFailed, e = .selectBlock recentlyFailed ∧ s.node.phase = .activating a ∧
        s.node.selectBlock a recentlyFailed = some s'.node

/-- The invariants of the index and of the chain. -/
structure NodeInv (cfg : Config) (s : System) : Prop where
  index : IndexInv s
  chain : ChainInv cfg s

lemma nodeInv_init (cfg : Config) : NodeInv cfg (System.init cfg) :=
  ⟨indexInv_init cfg, chainInv_init cfg⟩

lemma step_eq_some (h : s.step cfg e = some s') :
    ∃ n', s.node.step cfg e = some n' ∧ s' = ⟨n', s.history.next cfg s.node e⟩ := by
  obtain ⟨n', hn', rfl⟩ := Option.map_eq_some_iff.mp h
  exact ⟨n', hn', rfl⟩

/-- What a step does to the chain: nothing, or it connects a block, stores its undo data, flushes or
restarts. -/
inductive ChainStep (cfg : Config) (s : System) : Event → System → Prop
  | quiet {e : Event} {s' : System} (h : QuietStep s e s') : ChainStep cfg s e s'
  | connect {a : Activation} {hash : BlockHash} {block : Block} {completion : List Nat}
      (hphase : s.node.phase = .connecting a hash block) :
      ChainStep cfg s (.connect completion)
        ⟨s.node.connect cfg a hash block completion,
          s.history.next cfg s.node (.connect completion)⟩
  | storeUndo {a : Activation} {hash : BlockHash} {block : Block} {undo : BlockUndo}
      (hphase : s.node.phase = .storingUndo a hash block undo) :
      ChainStep cfg s .storeUndo ⟨s.node.storeUndo a hash block undo, s.history⟩
  | flush {a : Activation} {coinOrder : List OutPoint} {undoOrder : List BlockHash}
      {trimOrder : List OutPoint} (hphase : s.node.phase = .flushing a) :
      ChainStep cfg s (.flush coinOrder undoOrder trimOrder)
        ⟨s.node.flushChainstate a coinOrder undoOrder trimOrder,
          { s.history with flushed := s.history.connected.length }⟩
  | crash : ChainStep cfg s .crash
      ⟨Node.start cfg s.node.store,
        { s.history with connected := s.history.connected.take s.history.flushed }⟩

/-- A quiet step that keeps the invariant of the index keeps that of the chain. -/
lemma NodeInv.of_quiet (hinv : NodeInv cfg s) (hindex : IndexInv s')
    (hkept : ChainstateKept s.node s'.node) (hphase : s'.node.phase = s.node.phase)
    (hconnected : s'.history.connected = s.history.connected)
    (hflushed : s'.history.flushed = s.history.flushed)
    (hsub : s.history.accepted ⊆ s'.history.accepted) : NodeInv cfg s' ∧ ChainStep cfg s e s' :=
  ⟨⟨hindex, hinv.chain.of_kept_phase hkept hphase hconnected hflushed hsub⟩,
    .quiet ⟨hkept, hconnected, hflushed, fun _ _ _ h => .inl (hphase.symm.trans h)⟩⟩

/-- A step to another phase. -/
lemma NodeInv.of_phase (hinv : NodeInv cfg s) (phase : Phase)
    (hphase : PhaseInv cfg ⟨{ s.node with phase }, s.history⟩)
    (hne : ∀ a hash block, phase ≠ .connecting a hash block) :
    NodeInv cfg ⟨{ s.node with phase }, s.history⟩ ∧
      ChainStep cfg s e ⟨{ s.node with phase }, s.history⟩ := by
  have hkept : ChainstateKept s.node { s.node with phase } := chainstateKept_of_store_eq rfl rfl
  exact ⟨⟨hinv.index.of_eq rfl rfl rfl rfl rfl rfl rfl,
    hinv.chain.of_kept hkept rfl rfl (List.Subset.refl _) hphase⟩,
    .quiet ⟨hkept, rfl, rfl, fun a hash block h => absurd h (hne a hash block)⟩⟩

/-- A block from a peer is added to the accepted ones, or changes nothing. -/
lemma history_recvBlock (cfg : Config) (h : History) (n : Node) (block : Block) :
    (h.next cfg n (.recvBlock block)).connected = h.connected ∧
      (h.next cfg n (.recvBlock block)).flushed = h.flushed ∧
      h.accepted ⊆ (h.next cfg n (.recvBlock block)).accepted := by
  simp only [History.next]
  split
  · exact ⟨rfl, rfl, List.Subset.refl _⟩
  · exact ⟨rfl, rfl, List.subset_append_left _ _⟩

/-- Every step keeps the invariants. -/
lemma NodeInv.step (hinv : NodeInv cfg s) (hfree : e.CollisionFree)
    (hstep : s.step cfg e = some s') : NodeInv cfg s' ∧ ChainStep cfg s e s' := by
  obtain ⟨n', hnode, rfl⟩ := step_eq_some hstep
  have hrefl : s.history.accepted ⊆ s.history.accepted := List.Subset.refl _
  cases e with
  | recvHeaders headers =>
    obtain ⟨hindex, hkept, hphase⟩ := hinv.index.recvHeaders hfree hnode
    exact hinv.of_quiet hindex hkept hphase rfl rfl hrefl
  | acceptHeader =>
    obtain ⟨hindex, hkept, hphase⟩ := hinv.index.acceptHeader hnode
    exact hinv.of_quiet hindex hkept hphase rfl rfl hrefl
  | storeHeaders =>
    obtain ⟨hindex, hkept, hphase⟩ := hinv.index.storeHeaders hnode
    exact hinv.of_quiet hindex hkept hphase rfl rfl hrefl
  | recvBlock block =>
    obtain rfl := Option.some.inj hnode
    obtain ⟨hindex, hkept, hphase⟩ := hinv.index.recvBlock cfg block
    obtain ⟨hconnected, hflushed, hsub⟩ := history_recvBlock cfg s.history s.node block
    exact hinv.of_quiet hindex hkept hphase hconnected hflushed hsub
  | storeBlocks count =>
    obtain ⟨hindex, hkept, hphase⟩ := hinv.index.storeBlocks hnode
    exact hinv.of_quiet hindex hkept hphase rfl rfl hrefl
  | blockDownloaded i =>
    obtain ⟨hindex, hkept, hphase⟩ := hinv.index.blockDownloaded hnode
    exact hinv.of_quiet hindex hkept hphase rfl rfl hrefl
  | activate =>
    obtain ⟨-, rfl | ⟨a, hbegin, rfl⟩⟩ := Node.step_activate hnode
    · exact ⟨hinv, .quiet ⟨chainstateKept_of_store_eq rfl rfl, rfl, rfl, fun _ _ _ => .inl⟩⟩
    · exact hinv.of_phase _ (hinv.chain.beginActivation hbegin) (by simp)
  | selectBlock recentlyFailed =>
    obtain ⟨a, hphase, hselect⟩ := Node.step_selectBlock hnode
    obtain ⟨hindex, hchain, hkept⟩ := ChainInv.selectBlock hinv.index hinv.chain hphase hselect
    exact ⟨⟨hindex, hchain⟩,
      .quiet ⟨hkept, rfl, rfl, fun _ _ _ _ => .inr ⟨_, _, rfl, hphase, hselect⟩⟩⟩
  | connect completion =>
    obtain ⟨a, hash, block, hphase, rfl⟩ := Node.step_connect hnode
    refine ⟨⟨hinv.index.connect _ _ _ _ _ ?_, hinv.chain.connect hphase completion⟩,
      .connect hphase⟩
    simp only [History.next, hphase]
    split <;> rfl
  | storeUndo =>
    obtain ⟨a, hash, block, undo, hphase, rfl⟩ := Node.step_storeUndo hnode
    have hundone := hinv.chain.phase
    rw [PhaseInv, hphase] at hundone
    exact ⟨⟨hinv.index.storeUndo hundone.2.1, hinv.chain.storeUndo hinv.index hphase⟩,
      .storeUndo hphase⟩
  | flush coinOrder undoOrder trimOrder =>
    obtain ⟨a, hphase, rfl⟩ := Node.step_flush hnode
    exact ⟨⟨hinv.index.flush _ _ _ _ _, hinv.chain.flush hinv.index hphase _ _ _⟩,
      .flush hphase⟩
  | repairTip =>
    obtain ⟨hphase, rfl⟩ | ⟨tip, tips, hphase, rfl⟩ := Node.step_repairTip hnode
    · exact hinv.of_phase _ True.intro (by simp)
    · obtain ⟨hindex, hkept⟩ := hinv.index.updateHeadersTip tip (.repairing tips)
      exact ⟨⟨hindex, hinv.chain.of_kept hkept rfl rfl hrefl True.intro⟩,
        .quiet ⟨hkept, rfl, rfl, by simp⟩⟩
  | loadGenesis =>
    obtain rfl := Node.step_loadGenesis (hinv.chain.heights 0 cfg.params.genesisHash rfl) hnode
    exact ⟨hinv, .quiet ⟨chainstateKept_of_store_eq rfl rfl, rfl, rfl, fun _ _ _ => .inl⟩⟩
  | crash =>
    obtain rfl := Node.step_crash hnode
    exact ⟨⟨hinv.index.crash cfg rfl, hinv.chain.crash⟩, .crash⟩

end Step

end Bitcrab
