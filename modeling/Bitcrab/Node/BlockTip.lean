import Bitcrab.Node.Rpc
import Bitcrab.Storage.ActorLoop

/-!
# The highest block on disk

The storage actor remembers the height of the highest block it has stored and writes its hash beside
the blocks. A restart reads the height back from the index.
-/

namespace Bitcrab

open BlockManager Bytes Result

/-! ### The height that the storage actor remembers -/

/-- The block tip is the hash of a stored block, at the height that the storage actor remembers, and
no stored block is higher. -/
structure BlockTipInv (store : Store) (bm : BlockManager) : Prop where
  absent : store.getBlockTip = none → bm.lastKnownTipHeight = 0 ∧ ∀ hash, ¬ store.HasBody hash
  tip : ∀ tip, store.getBlockTip = some tip →
    store.HasBody tip ∧ store.HasHeight tip bm.lastKnownTipHeight
  highest : ∀ hash height, store.HasBody hash → store.HasHeight hash height →
    height ≤ bm.lastKnownTipHeight
  pending : ∀ hash index, bm.pendingUndoIndexes.lookup hash = some index → store.HasBody hash

namespace BlockTipInv

variable {store store' : Store} {bm bm' : BlockManager}

/-- A change of the store that stores no block. -/
lemma of_grows (h : BlockTipInv store bm) (hgrows : store.Grows store')
    (htip : store'.getBlockTip = store.getBlockTip)
    (hheight : bm'.lastKnownTipHeight = bm.lastKnownTipHeight)
    (hbody : ∀ hash, store'.HasBody hash → store.HasBody hash)
    (hpending : ∀ hash index, bm'.pendingUndoIndexes.lookup hash = some index →
      store.HasBody hash) : BlockTipInv store' bm' where
  absent hnone := by
    rw [htip] at hnone
    obtain ⟨hzero, hall⟩ := h.absent hnone
    exact ⟨hheight.trans hzero, fun hash hhas => hall hash (hbody hash hhas)⟩
  tip tip hsome := by
    rw [htip] at hsome
    obtain ⟨hhas, hat⟩ := h.tip tip hsome
    rw [hheight]
    exact ⟨hgrows.body _ hhas, hgrows.height _ _ hat⟩
  highest hash height hhas hat := by
    obtain ⟨index, hindex, -⟩ := hbody hash hhas
    have hold : store.HasHeight hash index.height := ⟨index, hindex, rfl⟩
    rw [hheight, hat.unique (hgrows.height _ _ hold)]
    exact h.highest hash _ (hbody hash hhas) hold
  pending hash index hl := hgrows.body _ (hpending hash index hl)

/-- A change of the memory only. -/
lemma of_store_eq (h : BlockTipInv store bm)
    (hheight : bm'.lastKnownTipHeight = bm.lastKnownTipHeight)
    (hpending : ∀ hash index, bm'.pendingUndoIndexes.lookup hash = some index →
      store.HasBody hash) : BlockTipInv store bm' :=
  h.of_grows (.refl _) rfl hheight (fun _ => id) hpending

end BlockTipInv

/-- The tip of a batch, if there is one, replaces the old one. -/
lemma getBlockTip_handleStoreBlocks [Sha2] {bm bm' : BlockManager} {store store' : Store}
    {msgs : List StoreBlockMsg} (h : bm.handleStoreBlocks store msgs = .ok (bm', store')) :
    ∃ entries, writeBlocks msgs bm.files store.disk = .ok (entries, bm'.files, store'.disk) ∧
      store'.getBlockTip =
        ((highestTip bm.lastKnownTipHeight entries none).map Prod.snd).or store.getBlockTip ∧
      bm'.lastKnownTipHeight = ((highestTip bm.lastKnownTipHeight entries none).map Prod.fst).getD
        bm.lastKnownTipHeight := by
  simp only [handleStoreBlocks, bind_eq_ok, pure_eq_ok, Except.ok.injEq, Prod.mk.injEq] at h
  obtain ⟨⟨entries, files, disk⟩, hwrite, rfl, rfl⟩ := h
  refine ⟨entries, hwrite, ?_, rfl⟩
  have hne : ∀ op ∈ (entries.flatMap fun e => indexOps e.1 e.2) ++
      [WriteOp.put .lastFile (leBytes 4 files.currentFile.toNat)], op.key ≠ DbKey.blockTip := by
    intro op hop
    rcases List.mem_append.mp hop with hop | hop
    · obtain ⟨e, -, rfl | rfl⟩ := mem_indexOps hop <;> simp [putHash, WriteOp.key]
    · obtain rfl := List.mem_singleton.mp hop
      simp [WriteOp.key]
  unfold Store.getBlockTip
  dsimp only
  cases highestTip bm.lastKnownTipHeight entries none with
  | none =>
    rw [Option.toList_none, List.map_nil, List.append_nil]
    exact readHash_commit_of_forall_ne hne
  | some tip =>
    have hget : (store.db.commit (((entries.flatMap fun e => indexOps e.1 e.2) ++
        [WriteOp.put .lastFile (leBytes 4 files.currentFile.toNat)]) ++
          [putHash .blockTip tip.2])).get (putHash .blockTip tip.2).key =
          (putHash .blockTip tip.2).value := Db.get_commit_append_cons (by simp)
    change Option.map _ (Db.get (Db.commit _ _) (putHash .blockTip tip.2).key) = _
    rw [Option.toList_some, List.map_singleton, hget]
    simp [putHash, WriteOp.value]

/-- A batch of blocks that are indexed already. -/
lemma BlockTipInv.handleStoreBlocks [Sha2] {bm bm' : BlockManager} {store store' : Store}
    {msgs : List StoreBlockMsg} (h : BlockTipInv store bm)
    (hstore : bm.handleStoreBlocks store msgs = .ok (bm', store'))
    (hentries : ∀ entries, writeBlocks msgs bm.files store.disk =
      .ok (entries, bm'.files, store'.disk) →
        ∀ e ∈ entries, store.HasHeight e.1 e.2.height ∧ e.2.filePos.isSome) :
    BlockTipInv store' bm' := by
  obtain ⟨entries, hwrite, htip, hheight⟩ := getBlockTip_handleStoreBlocks hstore
  obtain ⟨entries', hwrite', hpending, hwritten, -⟩ := handleStoreBlocks_eq_ok hstore
  obtain rfl : entries = entries' := congrArg Prod.fst (Except.ok.inj (hwrite.symm.trans hwrite'))
  have hknown := hentries entries hwrite
  have hgrows : store.Grows store' :=
    Store.grows_of_indexesUpdated hwritten.index fun e he => .inr (hknown e he)
  -- a block of the new store is an old one or one of the batch
  have hcases : ∀ hash height, store'.HasBody hash → store'.HasHeight hash height →
      store.HasBody hash ∧ store.HasHeight hash height ∨
        ∃ e ∈ entries, e.1 = hash ∧ e.2.height = height := by
    rintro hash height ⟨index, hindex, hsome⟩ ⟨index', hindex', rfl⟩
    obtain rfl := Option.some.inj (Except.ok.inj (hindex.symm.trans hindex'))
    rcases hwritten.index hash with ⟨-, hsame⟩ | ⟨e, he, heq, hnew⟩
    · rw [hsame] at hindex
      exact .inl ⟨⟨index, hindex, hsome⟩, index, hindex, rfl⟩
    · obtain rfl := Option.some.inj (Except.ok.inj (hnew.symm.trans hindex))
      exact .inr ⟨e, he, heq, rfl⟩
  have hpending' : ∀ hash index, bm'.pendingUndoIndexes.lookup hash = some index →
      store'.HasBody hash :=
    fun hash index hl => hgrows.body _ (h.pending hash index (hpending ▸ hl))
  rcases highestTip_cases bm.lastKnownTipHeight entries none (by simp) with
    ⟨hnone, hbelow⟩ | ⟨before, e, after, hsplit, hle, -, hbefore, hafter, hsome⟩
  · -- all of them are below the tip
    rw [hnone] at htip hheight
    have hlow : ∀ e ∈ entries, e.2.height < bm.lastKnownTipHeight := by simpa using hbelow
    refine ⟨fun hno => ?_, fun tip ht => ?_, fun hash height hbody hat => ?_, hpending'⟩
    · obtain ⟨hzero, hall⟩ := h.absent (htip.symm.trans hno)
      refine ⟨hheight.trans hzero, fun hash hbody => ?_⟩
      obtain ⟨index, hindex, -⟩ := id hbody
      rcases hcases hash index.height hbody ⟨index, hindex, rfl⟩ with ⟨hold, -⟩ | ⟨e, he, -⟩
      · exact hall hash hold
      · exact absurd (hlow e he) (by rw [hzero]; exact UInt32.not_lt_zero)
    · obtain ⟨hbody, hat⟩ := h.tip tip (htip.symm.trans ht)
      rw [hheight]
      exact ⟨hgrows.body _ hbody, hgrows.height _ _ hat⟩
    · rw [hheight]
      rcases hcases hash height hbody hat with ⟨hold, hold'⟩ | ⟨e, he, -, rfl⟩
      · exact h.highest hash height hold hold'
      · exact UInt32.le_of_lt (hlow e he)
  · -- one of them is the new tip
    rw [hsome] at htip hheight
    have hmem : e ∈ entries := by simp [hsplit]
    have htop : ∀ e' ∈ entries, e'.2.height ≤ e.2.height := by
      intro e' he'
      rw [hsplit, List.mem_append, List.mem_cons] at he'
      rcases he' with he' | rfl | he'
      · exact UInt32.le_of_lt (hbefore e' he')
      · exact UInt32.le_refl _
      · exact hafter e' he'
    refine ⟨fun hno => ?_, fun tip ht => ?_, fun hash height hbody hat => ?_, hpending'⟩
    · rw [hno] at htip
      cases htip
    · obtain rfl : e.1 = tip := Option.some.inj (htip.symm.trans ht)
      rw [hheight]
      refine ⟨?_, hgrows.height _ _ (hknown e hmem).1⟩
      rcases hwritten.index e.1 with ⟨hne, -⟩ | ⟨e', he', -, hnew⟩
      · exact absurd rfl (hne e hmem)
      · exact ⟨e'.2, hnew, (hknown e' he').2⟩
    · rw [hheight]
      rcases hcases hash height hbody hat with ⟨hold, hold'⟩ | ⟨e', he', -, rfl⟩
      · exact UInt32.le_trans (h.highest hash height hold hold') hle
      · exact htop e' he'

/-! ### Steps of a node -/

/-- Notes of heights that are not above the tip leave it alone. -/
lemma foldl_heights_eq {heights : List (UInt32 × BlockHash)} {tip : UInt32}
    (h : ∀ e ∈ heights, e.1 ≤ tip) :
    heights.foldl (fun tip e => if e.1 ≥ tip then e.1 else tip) tip = tip := by
  induction heights with
  | nil => rfl
  | cons e heights ih =>
    obtain ⟨he, hrest⟩ := List.forall_mem_cons.mp h
    have hsame : (if e.1 ≥ tip then e.1 else tip) = tip := by
      split_ifs with hge
      · exact UInt32.le_antisymm he hge
      · rfl
    rw [List.foldl_cons, hsame]
    exact ih hrest

section Steps

variable [Sha2] [ScriptVerifier] {cfg : Config} {s s' : System} {e : Event}

namespace BlockTipInv

omit [ScriptVerifier] in
/-- New headers have no blocks yet. -/
lemma storeHeaders {n' : Node} (h : BlockTipInv s.node.store s.node.blockManager)
    (hindex : IndexInv s) (hstep : s.node.storeHeaders = some n') :
    BlockTipInv n'.store n'.blockManager := by
  unfold Node.storeHeaders at hstep
  split at hstep
  case h_2 => cases hstep
  rename_i batch hphase hbatch
  split_ifs at hstep
  · obtain rfl := Option.some.inj hstep
    exact h
  · obtain rfl := Option.some.inj hstep
    have hnew := (hindex.headers batch hbatch).isNew
    have hwritten := indexesWritten_handleStoreBlockIndexes s.node.store batch.pending batch.bestTip
    refine h.of_grows (Store.grows_of_indexesUpdated hwritten.index fun e he =>
      .inl (hnew e he).absent) ?_ rfl ?_ h.pending
    · refine readHash_commit_of_forall_ne fun op hop => ?_
      rcases List.mem_append.mp hop with hop | hop
      · obtain ⟨e, -, rfl | rfl⟩ := mem_indexOps hop <;> simp [putHash, WriteOp.key]
      · obtain ⟨tip, -, rfl⟩ := List.mem_map.mp hop
        simp [putHash, WriteOp.key]
    · rintro hash ⟨index, hget, hsome⟩
      rcases hwritten.index hash with ⟨-, hsame⟩ | ⟨e, he, -, hput⟩
      · exact ⟨index, hsame.symm.trans hget, hsome⟩
      · obtain rfl := Option.some.inj (Except.ok.inj (hput.symm.trans hget))
        rw [(hnew e he).filePos] at hsome
        cases hsome

omit [ScriptVerifier] in
/-- The queued blocks are indexed at their heights. -/
lemma storeBlocks {n' : Node} {count : Nat} (h : BlockTipInv s.node.store s.node.blockManager)
    (hindex : IndexInv s) (hstep : s.node.storeBlocks count = some n') :
    BlockTipInv n'.store n'.blockManager := by
  unfold Node.storeBlocks at hstep
  dsimp only at hstep
  split_ifs at hstep
  cases hstore : s.node.blockManager.handleStoreBlocks s.node.store
      (s.node.storeQueue.take count) with
  | error err => simp [hstore] at hstep
  | ok r =>
    obtain ⟨blockManager, store⟩ := r
    simp only [hstore, Option.some.injEq] at hstep
    subst hstep
    refine h.handleStoreBlocks hstore fun entries hwrite e he => ?_
    obtain ⟨-, hentries⟩ := keeps_writeBlocks hindex.files
      (fun msg hmsg => (hindex.queued msg (List.mem_of_mem_take hmsg)).size) hwrite
    obtain ⟨msg, hmsg, hhash, hheight, pos, hpos, -⟩ := hentries e he
    rw [hhash, hheight, hpos]
    exact ⟨(hindex.queued msg (List.mem_of_mem_take hmsg)).height, rfl⟩

omit [ScriptVerifier] in
/-- Storing undo data notes the index of a stored block. -/
lemma storeUndo (h : BlockTipInv s.node.store s.node.blockManager) (hnode : NodeInv cfg s)
    {a : Activation} {hash : BlockHash} {block : Block} {undo : BlockUndo}
    (hphase : s.node.phase = .storingUndo a hash block undo) :
    BlockTipInv (s.node.storeUndo a hash block undo).store
      (s.node.storeUndo a hash block undo).blockManager := by
  have hundone := hnode.chain.phase
  rw [PhaseInv, hphase] at hundone
  obtain ⟨bm, store, hundo⟩ := handleStoreUndo_of_hasBody undo hundone.2.1
    fun index hl => (hnode.index.undo hash index hl).2.1
  obtain ⟨index, blockPos, size, undoPos, -, -, -, -, rfl, rfl⟩ := exists_of_handleStoreUndo hundo
  simp only [Node.storeUndo, hundo]
  refine h.of_grows (Store.grows_of_indexesUpdated (indexesWritten_of_db_eq rfl).index
    (by simp [Store.Extending])) rfl rfl (fun _ => id) fun hash' index' hl => ?_
  by_cases hself : hash' = hash
  · rw [hself]
    exact hundone.2.1
  · rw [AList.lookup_insert_ne hself] at hl
    exact h.pending hash' index' hl

/-- A flush writes indexes of stored blocks, and notes heights of the chain. -/
lemma flush (h : BlockTipInv s.node.store s.node.blockManager) (hnode : NodeInv cfg s)
    (hserved : ServedInv cfg s) (a : Activation) (coinOrder : List OutPoint)
    (undoOrder : List BlockHash) (trimOrder : List OutPoint) :
    BlockTipInv (s.node.flushChainstate a coinOrder undoOrder trimOrder).store
      (s.node.flushChainstate a coinOrder undoOrder trimOrder).blockManager := by
  have hwritten := IndexInv.chainstateWritten_flush s.node a coinOrder undoOrder trimOrder
  refine h.of_grows (hnode.index.grows_of_chainstateWritten hwritten) ?_ ?_ ?_ nofun
  · refine readHash_commit_of_forall_ne fun op hop => ?_
    rcases mem_utxoBatch _ _ _ _ _ _ hop with
      ⟨o, hkey⟩ | ⟨hash, -, rfl⟩ | ⟨hash, index, -, rfl⟩ | ⟨e, -, rfl⟩
    · simp [hkey]
    · simp [putHash, WriteOp.key]
    · simp [WriteOp.key]
    · simp [putHash, WriteOp.key]
  · refine foldl_heights_eq fun e he => ?_
    -- the heights noted are those of the chain
    have hhash := hnode.chain.entries e he
    have hheight := hnode.chain.heights _ _ hhash
    rw [UInt32.ofNat_toNat] at hheight
    by_cases hzero : e.1 = 0
    · rw [hzero]
      exact UInt32.zero_le
    · obtain ⟨i, hi⟩ := Nat.exists_eq_succ_of_ne_zero fun hnat => hzero (UInt32.toNat_inj.mp hnat)
      rw [hi, chainHashes, List.getElem?_cons_succ, List.getElem?_map,
        Option.map_eq_some_iff] at hhash
      obtain ⟨block, hblock, heq⟩ := hhash
      have hbody := hserved.bodies block (List.mem_of_getElem? hblock)
      rw [heq] at hbody
      exact h.highest e.2 e.1 hbody hheight
  · rintro hash ⟨index, hget, hsome⟩
    have hindex := hwritten.index hash
    cases hl : s.node.blockManager.pendingUndoIndexes.lookup hash with
    | some index' => exact h.pending hash index' hl
    | none =>
      rw [hl] at hindex
      exact ⟨index, hindex.symm.trans hget, hsome⟩

omit [Sha2] [ScriptVerifier] in
/-- A restart reads the height of the tip from the index. -/
lemma start {n : Node} (h : BlockTipInv n.store n.blockManager) :
    BlockTipInv n.store (BlockManager.new n.store cfg.magic) := by
  refine h.of_store_eq ?_ nofun
  rw [BlockManager.new]
  dsimp only
  cases htip : n.store.getBlockTip with
  | none => exact (h.absent htip).1.symm
  | some tip =>
    obtain ⟨-, index, hindex, hheight⟩ := h.tip tip htip
    simp only [hindex]
    exact hheight

/-- The remaining steps change neither the store nor the memory of the storage actor. -/
lemma step (h : BlockTipInv s.node.store s.node.blockManager) (hnode : NodeInv cfg s)
    (hserved : ServedInv cfg s) (hstep : s.step cfg e = some s') :
    BlockTipInv s'.node.store s'.node.blockManager := by
  obtain ⟨n', hnstep, rfl⟩ := step_eq_some hstep
  cases e with
  | recvHeaders headers =>
    obtain rfl := Node.step_recvHeaders hnstep
    exact h
  | acceptHeader =>
    obtain ⟨headers, rfl⟩ := Node.step_acceptHeader hnstep
    exact h
  | storeHeaders => exact h.storeHeaders hnode.index hnstep
  | recvBlock block =>
    obtain rfl := Option.some.inj hnstep
    obtain ⟨storeQueue, downloaded, heq⟩ := Node.recvBlock_eq cfg s.node block
    rw [heq]
    exact h
  | storeBlocks count => exact h.storeBlocks hnode.index hnstep
  | blockDownloaded i =>
    obtain ⟨downloaded, waitingBlocks, rfl⟩ := Node.step_blockDownloaded hnstep
    exact h
  | activate =>
    obtain ⟨-, rfl | ⟨a, -, rfl⟩⟩ := Node.step_activate hnstep
    · exact h
    · exact h
  | selectBlock recentlyFailed =>
    obtain ⟨a, -, hselect⟩ := Node.step_selectBlock hnstep
    obtain ⟨waitingBlocks, phase, rfl, -⟩ := selectBlock_eq_some hselect
    exact h
  | connect completion =>
    obtain ⟨a, hash, block, -, rfl⟩ := Node.step_connect hnstep
    unfold Node.connect
    split <;> exact h
  | storeUndo =>
    obtain ⟨a, hash, block, undo, hphase, rfl⟩ := Node.step_storeUndo hnstep
    exact h.storeUndo hnode hphase
  | flush coinOrder undoOrder trimOrder =>
    obtain ⟨a, -, rfl⟩ := Node.step_flush hnstep
    exact h.flush hnode hserved _ coinOrder undoOrder trimOrder
  | repairTip =>
    obtain ⟨-, rfl⟩ | ⟨tip, tips, -, rfl⟩ := Node.step_repairTip hnstep
    · exact h
    · have hwritten := indexesWritten_handleUpdateHeadersTip s.node.store tip
      refine h.of_grows (Store.grows_of_indexesUpdated hwritten.index (by simp [Store.Extending]))
        ?_ rfl ?_ h.pending
      · exact readHash_commit_of_forall_ne (by simp [putHash, WriteOp.key])
      · rintro hash ⟨index, hget, hsome⟩
        rw [getBlockIndex_handleUpdateHeadersTip] at hget
        exact ⟨index, hget, hsome⟩
  | loadGenesis =>
    obtain rfl := Node.step_loadGenesis (hnode.chain.heights 0 cfg.params.genesisHash rfl) hnstep
    exact h
  | crash =>
    obtain rfl := Node.step_crash hnstep
    exact h.start

omit [ScriptVerifier] in
lemma init (cfg : Config) :
    BlockTipInv (System.init cfg).node.store (System.init cfg).node.blockManager := by
  have hbody : ∀ hash, ¬ (genesisStore cfg).HasBody hash := by
    rintro hash ⟨index, hindex, hsome⟩
    obtain ⟨-, rfl⟩ := getBlockIndex_genesisStore cfg hindex
    cases hsome
  refine ⟨fun _ => ⟨rfl, hbody⟩, fun tip htip => ?_, fun hash height hhas => ?_, nofun⟩
  · have htip' : Store.readHash (genesisStore cfg).db .blockTip = some tip := htip
    simp [Store.readHash, get_genesisStore] at htip'
  · exact absurd hhas (hbody hash)

end BlockTipInv

/-! ### The published tip -/

/-- The chain gets longer, unless the node crashes. -/
lemma connected_of_ne_crash (n : Node) (h : History) (hcrash : e ≠ .crash) :
    (h.next cfg n e).connected = h.connected ∨
      ∃ block, (h.next cfg n e).connected = h.connected ++ [block] := by
  cases e with
  | recvBlock block => exact .inl (history_recvBlock cfg h n block).1
  | connect completion =>
    simp only [History.next]
    split
    · split
      · exact .inr ⟨_, rfl⟩
      · exact .inl rfl
    · exact .inl rfl
  | crash => exact absurd rfl hcrash
  | _ => exact .inl rfl

/-- The published tip is a block of the chain. -/
def Published (cfg : Config) (s : System) : Prop :=
  ∃ hash ∈ chainHashes cfg s.history.connected, s.node.activeTipHash = some hash

/-- It stays one as the chain gets longer. -/
lemma Published.of_activeTip_eq (h : Published cfg s) {n' : Node}
    (htip : n'.chainstate.activeTip = s.node.chainstate.activeTip) (hcrash : e ≠ .crash) :
    Published cfg ⟨n', s.history.next cfg s.node e⟩ := by
  obtain ⟨hash, hmem, hpublished⟩ := h
  refine ⟨hash, ?_, (congrArg (Option.map Prod.fst) htip).trans hpublished⟩
  rcases connected_of_ne_crash s.node s.history hcrash with hsame | ⟨block, hnext⟩
  · rwa [hsame]
  · rw [hnext, chainHashes_append]
    exact List.mem_append_left _ hmem

lemma Published.step (h : Published cfg s) (hnode : NodeInv cfg s) (hfree : e.CollisionFree)
    (hstep : s.step cfg e = some s') : Published cfg s' := by
  have hnode' := (hnode.step hfree hstep).1
  obtain ⟨n', hnstep, rfl⟩ := step_eq_some hstep
  by_cases hundo : e = .storeUndo
  · subst hundo
    obtain ⟨a, hash, block, undo, hphase, rfl⟩ := Node.step_storeUndo hnstep
    have hundone := hnode.chain.phase
    rw [PhaseInv, hphase] at hundone
    obtain ⟨-, hbody, hlast⟩ := hundone
    obtain ⟨bm, store, hundo⟩ :=
      handleStoreUndo_of_hasBody undo hbody fun index hl => (hnode.index.undo hash index hl).2.1
    exact ⟨hash, List.mem_of_getElem? hlast, by simp [Node.storeUndo, hundo, Node.activeTipHash]⟩
  by_cases hgenesis : e = .loadGenesis
  · subst hgenesis
    obtain rfl := Node.step_loadGenesis (hnode.chain.heights 0 cfg.params.genesisHash rfl) hnstep
    exact h
  by_cases hcrash : e = .crash
  · -- a restart publishes the last block flushed
    subst hcrash
    obtain rfl := Node.step_crash hnstep
    obtain ⟨hash, hhash⟩ : ∃ hash, (chainHashes cfg (s.history.connected.take s.history.flushed))[
        (s.history.connected.take s.history.flushed).length]? = some hash :=
      ⟨_, List.getElem?_eq_getElem (by simp)⟩
    have hbest : s.node.store.getBestBlock = some hash := hnode'.chain.cacheBest.trans hhash
    exact ⟨hash, List.mem_of_getElem? hhash,
      activeTipHash_start hbest (hnode'.chain.heights _ hash hhash)⟩
  exact h.of_activeTip_eq (activeTip_step hnstep hundo hgenesis hcrash).1 hcrash

/-! ### Every run -/

omit [Sha2] [ScriptVerifier] in
/-- The height in the index is reported. -/
lemma reportedHeight_of_hasHeight {n : Node} {hash : BlockHash} {height : BlockHeight}
    (h : n.store.HasHeight hash height) : n.reportedHeight hash = .ok height := by
  obtain ⟨index, hindex, rfl⟩ := h
  simp [Node.reportedHeight, Node.getBlockIndexHeight, hindex, ok_bind, pure_eq_ok,
    Result.mapError_ok]

omit [Sha2] [ScriptVerifier] in
lemma exists_reportedHeight {n : Node} {hash : BlockHash}
    (h : ∃ found, n.store.getBlockIndex hash = .ok found) :
    ∃ height, n.reportedHeight hash = .ok height := by
  obtain ⟨found, hfound⟩ := h
  exact ⟨_, by simp [Node.reportedHeight, Node.getBlockIndexHeight, hfound, ok_bind, pure_eq_ok,
    Result.mapError_ok]; rfl⟩

/-- The best block that is reported is one of the chain. -/
lemma Published.getBestBlock (h : Published cfg s) (hnode : NodeInv cfg s)
    (hserved : ServedInv cfg s) :
    ∃ hash height, s.node.getBestBlock = some hash ∧ hash ∈ chainHashes cfg s.history.connected ∧
      s.node.store.HasHeight hash height ∧ (height = 0 ∨ s.node.store.HasBody hash) := by
  obtain ⟨hash, hmem, hpublished⟩ := h
  obtain ⟨i, hi⟩ := List.getElem?_of_mem hmem
  refine ⟨hash, UInt32.ofNat i, by simp [Node.getBestBlock, hpublished], hmem,
    hnode.chain.heights i hash hi, ?_⟩
  cases i with
  | zero => exact .inl rfl
  | succ i =>
    rw [chainHashes, List.getElem?_cons_succ, List.getElem?_map, Option.map_eq_some_iff] at hi
    obtain ⟨block, hblock, rfl⟩ := hi
    exact .inr (hserved.bodies block (List.mem_of_getElem? hblock))

/-- What holds of the tips in every state. -/
structure TipsInv (cfg : Config) (s : System) : Prop where
  node : NodeInv cfg s
  served : ServedInv cfg s
  blockTip : BlockTipInv s.node.store s.node.blockManager
  published : Published cfg s

lemma tipsInv_of_reachable
    (h : Reachable (System.step cfg) (fun _ e _ => e.CollisionFree) (System.init cfg) s) :
    TipsInv cfg s := by
  refine h.invariant (TipsInv cfg) ⟨nodeInv_init cfg, servedInv_init cfg, .init cfg, ?_⟩ ?_
  · exact ⟨cfg.params.genesisHash, List.mem_cons_self, rfl⟩
  · rintro s e s' ⟨hnode, hserved, htip, hpublished⟩ hstep hfree
    exact ⟨(hnode.step hfree hstep).1, hserved.step hnode hfree hstep,
      htip.step hnode hserved hstep, hpublished.step hnode hfree hstep⟩

/-- In every state of a run `getblockchaininfo` and `getblockcount` answer. The reported best block
is one of the chain. If a block is on disk, then the reported height of the block tip is that of the
highest block on disk, and not below that of the best block. -/
theorem getBlockchainInfo_of_reachable
    (h : Reachable (System.step cfg) (fun _ e _ => e.CollisionFree) (System.init cfg) s) :
    ∃ info, s.node.getBlockchainInfo = .ok info ∧ s.node.getBlockCount = .ok info.diskBlocks ∧
      info.bestblockhash ∈ chainHashes cfg s.history.connected ∧
      s.node.store.HasHeight info.bestblockhash info.blocks ∧
      ((∃ hash, s.node.store.HasBody hash) →
        (∃ hash, s.node.store.HasBody hash ∧ s.node.store.HasHeight hash info.diskBlocks) ∧
        (∀ hash height, s.node.store.HasBody hash → s.node.store.HasHeight hash height →
          height ≤ info.diskBlocks) ∧
        info.blocks ≤ info.diskBlocks) := by
  obtain ⟨hnode, hserved, htip, hpublished⟩ := tipsInv_of_reachable h
  obtain ⟨best, height, hbest, hmem, hat, hbody⟩ := hpublished.getBestBlock hnode hserved
  obtain ⟨headers, hheaders⟩ :=
    exists_reportedHeight (hserved.readable (s.node.store.getHeadersTip.getD Digest.zero))
  obtain ⟨disk, hdisk⟩ :=
    exists_reportedHeight (hserved.readable (s.node.store.getBlockTip.getD Digest.zero))
  refine ⟨⟨height, headers, s.node.store.getHeadersTip.getD Digest.zero, best, disk,
    height < headers⟩,
    ?_, hdisk, hmem, hat, ?_⟩
  · simp only [Node.getBlockchainInfo, hheaders, hbest, Option.getD_some,
      reportedHeight_of_hasHeight hat, hdisk, ok_bind]
    rfl
  · rintro ⟨hash, hhas⟩
    cases hblockTip : s.node.store.getBlockTip with
    | none => exact absurd hhas ((htip.absent hblockTip).2 hash)
    | some tip =>
      obtain ⟨htipBody, htipAt⟩ := htip.tip tip hblockTip
      rw [hblockTip, Option.getD_some, reportedHeight_of_hasHeight htipAt] at hdisk
      obtain rfl := Except.ok.inj hdisk
      refine ⟨⟨tip, htipBody, htipAt⟩, htip.highest, ?_⟩
      rcases hbody with rfl | hbody
      · exact UInt32.zero_le
      · exact htip.highest best height hbody hat

end Steps

namespace Sample

/-- The connected block is on disk at the height that is reported. -/
theorem getBlockchainInfo_nextBlock :
    ∃ s info, Reachable (System.step cfg) (fun _ e _ => e.CollisionFree) (System.init cfg) s ∧
      s.node.getBlockchainInfo = .ok info ∧ s.node.getBlockCount = .ok info.diskBlocks ∧
      1 ≤ info.diskBlocks ∧ info.blocks ≤ info.diskBlocks := by
  obtain ⟨s, hrun, hconnected⟩ := exists_reachable_served
  obtain ⟨hnode, hserved, -, -⟩ := tipsInv_of_reachable hrun
  have hbody := hserved.bodies nextBlock (by simp [hconnected])
  have hheight := hnode.chain.heights 1 nextBlock.header.blockHash (by rw [hconnected]; rfl)
  obtain ⟨info, hinfo, hcount, -, -, hdisk⟩ := getBlockchainInfo_of_reachable hrun
  obtain ⟨-, hhighest, hle⟩ := hdisk ⟨_, hbody⟩
  exact ⟨s, info, hrun, hinfo, hcount, hhighest _ _ hbody hheight, hle⟩

end Sample

end Bitcrab
