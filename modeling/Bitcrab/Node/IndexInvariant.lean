import Bitcrab.Consensus.CheckBlock
import Bitcrab.Node.System

/-!
# The index and the tables of a running node

A hash keeps the height at which it was indexed, and every table and message that files a hash under
a height agrees with the index. The position in an index reads back a block with that hash that was
accepted from a peer.
-/

namespace Bitcrab

open BlockManager Result

variable [Sha2]

/-! ### Bodies -/

/-- The body at the position of an index is a block accepted for its hash and height. -/
def Backed (files : BlockFileManager) (blocks : FlatFileSeq) (accepted : List (BlockHeight × Block))
    (hash : BlockHash) (index : BlockIndex) : Prop :=
  ∀ pos, index.filePos = some pos → ∃ block, (index.height, block) ∈ accepted ∧
    block.header.blockHash = hash ∧ files.Stored blocks pos (serialize block)

section Backed

variable {files files' : BlockFileManager} {blocks blocks' : FlatFileSeq}
  {accepted accepted' : List (BlockHeight × Block)} {hash : BlockHash} {index : BlockIndex}

lemma backed_of_filePos_eq_none (h : index.filePos = none) :
    Backed files blocks accepted hash index := by
  intro pos hpos
  rw [h] at hpos
  cases hpos

lemma Backed.mono (h : Backed files blocks accepted hash index)
    (hkeeps : files.Keeps blocks files' blocks') (hsub : accepted ⊆ accepted') :
    Backed files' blocks' accepted' hash index := by
  intro pos hpos
  obtain ⟨block, hmem, hhash, hstored⟩ := h pos hpos
  exact ⟨block, hsub hmem, hhash, hkeeps.stored _ _ hstored⟩

end Backed

omit [Sha2] in
/-- A block is decoded with the header that was encoded. -/
lemma header_of_decode_serialize {block decoded : Block} {d : Decoder}
    (h : (decode (Decoder.new (serialize block)) : Except DecodeError (Block × Decoder)) =
      .ok (decoded, d)) : decoded.header = block.header := by
  have hread := roundTrips_blockHeader block.header 0 (encodeVarList block.transactions)
  have hbytes : serialize block = encode block.header ++ encodeVarList block.transactions := rfl
  have hdecode : (decode (Decoder.new (serialize block)) :
      Except DecodeError (Block × Decoder)) = do
        let header : BlockHeader × Decoder ← decode (Decoder.new (serialize block))
        let transactions ← header.2.readVarList Transaction "Block::transactions"
        return (⟨header.1, transactions.1⟩, transactions.2) := rfl
  rw [hdecode, hbytes, Decoder.new, hread, ok_bind] at h
  simp only [bind_eq_ok, pure_eq_ok, Except.ok.injEq, Prod.mk.injEq] at h
  obtain ⟨_, -, rfl, -⟩ := h
  rfl

/-- The block that an activation reads for a hash was accepted for that hash. -/
lemma header_of_readBlock {n : Node} {accepted : List (BlockHeight × Block)} {hash : BlockHash}
    {block : Block} {height : BlockHeight}
    (hbacked : ∀ index, n.store.getBlockIndex hash = .ok (some index) →
      Backed n.blockManager.files n.store.disk.blocks accepted hash index)
    (hheight : n.store.HasHeight hash height) (h : n.readBlock hash = some block) :
    block.header.blockHash = hash ∧ n.store.HasBody hash ∧
      ∃ b, (height, b) ∈ accepted ∧ b.header = block.header := by
  obtain ⟨index, hindex, rfl⟩ := hheight
  unfold Node.readBlock Store.getBlock at h
  rw [hindex, ok_bind] at h
  cases hpos : index.filePos with
  | none => simp [hpos, pure_eq_ok] at h
  | some pos =>
    obtain ⟨b, hmem, hhash, hstored⟩ := hbacked index hindex pos hpos
    simp only [hpos, hstored.readRecord, ok_bind, pure_eq_ok] at h
    cases hdec : (decode (Decoder.new (serialize b)) : Except DecodeError (Block × Decoder)) with
    | error e => simp [hdec] at h
    | ok r =>
      obtain ⟨decoded, d⟩ := r
      simp only [hdec, Option.some.injEq] at h
      subst h
      have hheader := header_of_decode_serialize hdec
      exact ⟨by rw [hheader, hhash], ⟨index, hindex, by simp [hpos]⟩, b, hmem, hheader.symm⟩

/-! ### The invariant -/

/-- A message to store a block that was accepted. -/
structure QueuedBlock (store : Store) (accepted : List (BlockHeight × Block))
    (msg : StoreBlockMsg) : Prop where
  height : store.HasHeight msg.header.blockHash msg.height
  block : ∃ block, (msg.height, block) ∈ accepted ∧ block.header = msg.header ∧
    msg.rawBlock = serialize block
  size : 8 + msg.rawBlock.length ≤ maxBlockFileSize

/-- What holds of the index and of everything that refers to it. -/
structure IndexInv (s : System) : Prop where
  files : s.node.blockManager.files.FilesInv s.node.store.disk.blocks
  lastFile : s.node.store.lastFile = s.node.blockManager.files.currentFile
  backed : ∀ hash index, s.node.store.getBlockIndex hash = .ok (some index) →
    Backed s.node.blockManager.files s.node.store.disk.blocks s.history.accepted hash index
  undo : ∀ hash index, s.node.blockManager.pendingUndoIndexes.lookup hash = some index →
    s.node.store.HasHeight hash index.height ∧ index.filePos.isSome ∧
      Backed s.node.blockManager.files s.node.store.disk.blocks s.history.accepted hash index
  headerHeight : ∀ height hash, s.node.store.getBlockHashByHeaderHeight height = some hash →
    s.node.store.HasHeight hash height
  waiting : ∀ height hash, s.node.chainstate.waitingBlocks.lookup height = some hash →
    s.node.store.HasHeight hash height
  downloaded : ∀ e ∈ s.node.downloaded, s.node.store.HasHeight e.1 e.2
  queued : ∀ msg ∈ s.node.storeQueue, QueuedBlock s.node.store s.history.accepted msg
  headers : ∀ batch, s.node.headers = some batch → batch.Inv s.node.store

namespace IndexInv

variable {s s' : System}

lemma queued_mono {store store' : Store} {accepted accepted' : List (BlockHeight × Block)}
    {msg : StoreBlockMsg} (h : QueuedBlock store accepted msg) (hgrows : store.Grows store')
    (hsub : accepted ⊆ accepted') : QueuedBlock store' accepted' msg := by
  obtain ⟨hheight, ⟨block, hmem, hblock⟩, hsize⟩ := h
  exact ⟨hgrows.height _ _ hheight, ⟨block, hsub hmem, hblock⟩, hsize⟩

/-- The parts of the invariant that a change of the store keeps. -/
lemma of_grows (hinv : IndexInv s) (hgrows : s.node.store.Grows s'.node.store)
    (hkeeps : s.node.blockManager.files.Keeps s.node.store.disk.blocks
      s'.node.blockManager.files s'.node.store.disk.blocks)
    (hsub : s.history.accepted ⊆ s'.history.accepted)
    (hlast : s'.node.store.lastFile = s'.node.blockManager.files.currentFile)
    (hbacked : ∀ hash index, s'.node.store.getBlockIndex hash = .ok (some index) →
      s.node.store.getBlockIndex hash = .ok (some index) ∨
      Backed s'.node.blockManager.files s'.node.store.disk.blocks s'.history.accepted hash index)
    (hundo : ∀ hash index, s'.node.blockManager.pendingUndoIndexes.lookup hash = some index →
      s.node.blockManager.pendingUndoIndexes.lookup hash = some index ∨
      s.node.store.HasHeight hash index.height ∧ index.filePos.isSome ∧
        Backed s.node.blockManager.files s.node.store.disk.blocks s.history.accepted hash index)
    (hheader : ∀ height hash, s'.node.store.getBlockHashByHeaderHeight height = some hash →
      s.node.store.getBlockHashByHeaderHeight height = some hash ∨
      s'.node.store.HasHeight hash height)
    (hwaiting : ∀ height hash, s'.node.chainstate.waitingBlocks.lookup height = some hash →
      s.node.store.HasHeight hash height)
    (hdownloaded : ∀ e ∈ s'.node.downloaded, s.node.store.HasHeight e.1 e.2)
    (hqueue : ∀ msg ∈ s'.node.storeQueue, msg ∈ s.node.storeQueue ∨
      QueuedBlock s'.node.store s'.history.accepted msg)
    (hheaders : ∀ batch, s'.node.headers = some batch → batch.Inv s'.node.store) :
    IndexInv s' where
  files := hkeeps.inv
  lastFile := hlast
  backed := by
    intro hash index hindex
    rcases hbacked hash index hindex with hold | hnew
    · exact (hinv.backed hash index hold).mono hkeeps hsub
    · exact hnew
  undo := by
    intro hash index hl
    have h : s.node.store.HasHeight hash index.height ∧ index.filePos.isSome ∧
        Backed s.node.blockManager.files s.node.store.disk.blocks s.history.accepted hash
          index := by
      rcases hundo hash index hl with hold | hnew
      · exact hinv.undo hash index hold
      · exact hnew
    exact ⟨hgrows.height _ _ h.1, h.2.1, h.2.2.mono hkeeps hsub⟩
  headerHeight := by
    intro height hash hz
    rcases hheader height hash hz with hold | hnew
    · exact hgrows.height _ _ (hinv.headerHeight height hash hold)
    · exact hnew
  waiting := fun height hash hl => hgrows.height _ _ (hwaiting height hash hl)
  downloaded := fun e he => hgrows.height _ _ (hdownloaded e he)
  queued := by
    intro msg hmsg
    rcases hqueue msg hmsg with hold | hnew
    · exact queued_mono (hinv.queued msg hold) hgrows hsub
    · exact hnew
  headers := hheaders

/-- A step that leaves the store alone. -/
lemma of_store_eq (hinv : IndexInv s) (hstore : s'.node.store = s.node.store)
    (hmanager : s'.node.blockManager = s.node.blockManager)
    (hsub : s.history.accepted ⊆ s'.history.accepted)
    (hwaiting : ∀ height hash, s'.node.chainstate.waitingBlocks.lookup height = some hash →
      s.node.store.HasHeight hash height)
    (hdownloaded : ∀ e ∈ s'.node.downloaded, s.node.store.HasHeight e.1 e.2)
    (hqueue : ∀ msg ∈ s'.node.storeQueue, msg ∈ s.node.storeQueue ∨
      QueuedBlock s.node.store s'.history.accepted msg)
    (hheaders : ∀ batch, s'.node.headers = some batch → batch.Inv s.node.store) :
    IndexInv s' := by
  apply hinv.of_grows
  · rw [hstore]
    exact .refl _
  · rw [hstore, hmanager]
    exact .refl hinv.files
  · exact hsub
  · rw [hstore, hmanager]
    exact hinv.lastFile
  · rw [hstore]
    exact fun _ _ h => .inl h
  · rw [hmanager]
    exact fun _ _ h => .inl h
  · rw [hstore]
    exact fun _ _ h => .inl h
  · exact hwaiting
  · exact hdownloaded
  · rw [hstore]
    exact hqueue
  · rw [hstore]
    exact hheaders

end IndexInv

/-! ### What a step does -/

namespace Node

variable [ScriptVerifier] {cfg : Config} {n n' : Node}

lemma step_recvHeaders {headers : List BlockHeader}
    (h : n.step cfg (.recvHeaders headers) = some n') :
    n' = { n with headers := some (HeaderBatch.new n.store headers) } := by
  simp only [step, recvHeaders] at h
  split at h
  · cases h
  · exact (Option.some.inj h).symm

lemma step_acceptHeader (h : n.step cfg .acceptHeader = some n') :
    ∃ headers, n' = { n with headers } := by
  simp only [step, acceptHeader] at h
  split at h
  · cases h
  · exact ⟨_, (Option.some.inj h).symm⟩

lemma step_storeHeaders (h : n.step cfg .storeHeaders = some n') :
    n' = { n with headers := none } ∨ ∃ batch, n.headers = some batch ∧ n' = { n with
      store := BlockManager.handleStoreBlockIndexes n.store batch.pending batch.bestTip
      headers := none } := by
  simp only [step, storeHeaders] at h
  split at h
  · rename_i batch hphase hheaders
    split_ifs at h
    · exact .inl (Option.some.inj h).symm
    · exact .inr ⟨batch, hheaders, (Option.some.inj h).symm⟩
  · cases h

lemma recvBlock_eq (cfg : Config) (n : Node) (block : Block) :
    ∃ storeQueue downloaded, n.recvBlock cfg block = { n with storeQueue, downloaded } := by
  unfold recvBlock
  split
  · exact ⟨_, _, rfl⟩
  · split
    · exact ⟨_, n.downloaded, rfl⟩
    · exact ⟨n.storeQueue, _, rfl⟩

lemma step_storeBlocks {count : Nat} (h : n.step cfg (.storeBlocks count) = some n') :
    ∃ blockManager store storeQueue downloaded,
      n' = { n with blockManager, store, storeQueue, downloaded } := by
  simp only [step, storeBlocks] at h
  split_ifs at h
  split at h
  · cases h
  · exact ⟨_, _, _, _, (Option.some.inj h).symm⟩

lemma step_blockDownloaded {i : Nat} (h : n.step cfg (.blockDownloaded i) = some n') :
    ∃ downloaded waitingBlocks,
      n' = { n with downloaded, chainstate := { n.chainstate with waitingBlocks } } := by
  simp only [step, blockDownloaded] at h
  split at h
  · exact ⟨_, _, (Option.some.inj h).symm⟩
  · cases h

lemma step_activate (h : n.step cfg .activate = some n') :
    n.phase = .idle ∧
      (n' = n ∨ ∃ a, n.beginActivation cfg = .ok a ∧ n' = { n with phase := .activating a }) := by
  simp only [step, activate] at h
  split at h
  · rename_i hphase
    refine ⟨hphase, ?_⟩
    split at h
    · exact .inl (Option.some.inj h).symm
    · rename_i a hbegin
      exact .inr ⟨a, hbegin, (Option.some.inj h).symm⟩
  · cases h

lemma step_selectBlock {recentlyFailed : Bool}
    (h : n.step cfg (.selectBlock recentlyFailed) = some n') :
    ∃ a, n.phase = .activating a ∧ n.selectBlock a recentlyFailed = some n' := by
  simp only [step] at h
  split at h
  · rename_i a hphase
    exact ⟨a, hphase, h⟩
  · cases h

lemma step_connect {completion : List Nat} (h : n.step cfg (.connect completion) = some n') :
    ∃ a hash block, n.phase = .connecting a hash block ∧
      n' = n.connect cfg a hash block completion := by
  simp only [step] at h
  split at h
  · rename_i a hash block hphase
    exact ⟨a, hash, block, hphase, (Option.some.inj h).symm⟩
  · cases h

lemma step_storeUndo (h : n.step cfg .storeUndo = some n') :
    ∃ a hash block undo, n.phase = .storingUndo a hash block undo ∧
      n' = n.storeUndo a hash block undo := by
  simp only [step] at h
  split at h
  · rename_i a hash block undo hphase
    exact ⟨a, hash, block, undo, hphase, (Option.some.inj h).symm⟩
  · cases h

lemma step_flush {coinOrder trimOrder : List OutPoint} {undoOrder : List BlockHash}
    (h : n.step cfg (.flush coinOrder undoOrder trimOrder) = some n') :
    ∃ a, n.phase = .flushing a ∧ n' = n.flushChainstate a coinOrder undoOrder trimOrder := by
  simp only [step] at h
  split at h
  · rename_i a hphase
    exact ⟨a, hphase, (Option.some.inj h).symm⟩
  · cases h

lemma step_repairTip (h : n.step cfg .repairTip = some n') :
    n.phase = .repairing [] ∧ n' = { n with phase := .idle } ∨
      ∃ tip tips, n.phase = .repairing (tip :: tips) ∧ n' = { n with
        store := BlockManager.handleUpdateHeadersTip n.store tip
        phase := .repairing tips } := by
  simp only [step] at h
  split at h
  · rename_i hphase
    exact .inl ⟨hphase, (Option.some.inj h).symm⟩
  · rename_i tip tips hphase
    exact .inr ⟨tip, tips, hphase, (Option.some.inj h).symm⟩
  · cases h

/-- Once the genesis block has been loaded, it is not loaded again. -/
lemma step_loadGenesis (hgenesis : n.store.HasHeight cfg.params.genesisHash 0)
    (h : n.step cfg .loadGenesis = some n') : n' = n := by
  obtain ⟨index, hindex, -⟩ := hgenesis
  simp only [step] at h
  split at h
  · simp only [loadGenesisBlock, hindex, Option.some.injEq] at h
    exact h.symm
  · cases h

lemma step_crash (h : n.step cfg .crash = some n') : n' = start cfg n.store :=
  (Option.some.inj h).symm

end Node

/-! ### The steps -/

omit [Sha2] in
/-- A round of the activation loop ends it, or finds the block of the hash it tries next. -/
lemma selectBlock_eq_some {n n' : Node} {a : Activation} {recentlyFailed : Bool}
    (h : n.selectBlock a recentlyFailed = some n') :
    ∃ waitingBlocks phase,
      n' = { n with chainstate := { n.chainstate with waitingBlocks }, phase } ∧
      (∀ height hash, waitingBlocks.lookup height = some hash →
        n.chainstate.waitingBlocks.lookup height = some hash) ∧
      (phase = .idle ∨ ∃ hash block, phase = .connecting a hash block ∧
        a.currentTip.height ≠ 0xFFFFFFFF ∧ n.nextHash (a.currentTip.height + 1) = some hash ∧
        n.readBlock hash = some block) := by
  have herase : ∀ height hash,
      (n.chainstate.waitingBlocks.erase (a.currentTip.height + 1)).lookup height = some hash →
        n.chainstate.waitingBlocks.lookup height = some hash := by
    intro height hash hl
    by_cases hheight : height = a.currentTip.height + 1
    · subst hheight
      simp at hl
    · rwa [AList.lookup_erase_ne hheight] at hl
  unfold Node.selectBlock at h
  split_ifs at h with htotal hmax
  · obtain rfl := Option.some.inj h
    exact ⟨n.chainstate.waitingBlocks, .idle, rfl, fun _ _ hl => hl, .inl rfl⟩
  · cases hnext : n.nextHash (a.currentTip.height + 1) with
    | none =>
      simp only [hnext, Option.some.injEq] at h
      exact ⟨_, .idle, h.symm, herase, .inl rfl⟩
    | some hash =>
      simp only [hnext] at h
      split_ifs at h with hfailed
      · exact ⟨_, .idle, (Option.some.inj h).symm, herase, .inl rfl⟩
      · cases hread : n.readBlock hash with
        | none =>
          simp only [hread, Option.some.injEq] at h
          exact ⟨_, .idle, h.symm, herase, .inl rfl⟩
        | some block =>
          simp only [hread, Option.some.injEq] at h
          exact ⟨_, _, h.symm, herase, .inr ⟨hash, block, rfl, hmax, rfl, hread⟩⟩

omit [Sha2] in
/-- `handle_store_undo` writes no record: it keeps the index with the position of the undo data. -/
lemma handleStoreUndo_eq_ok {bm bm' : BlockManager} {store store' : Store} {hash : BlockHash}
    {undo : BlockUndo} (h : bm.handleStoreUndo store hash undo = .ok (bm', store')) :
    ∃ index undoPos,
      (bm.pendingUndoIndexes.lookup hash = some index ∨
        store.getBlockIndex hash = .ok (some index)) ∧ index.filePos.isSome ∧
      bm'.pendingUndoIndexes =
        bm.pendingUndoIndexes.insert hash { index with undoPos := some undoPos } ∧
      bm'.files = bm.files ∧ store'.db = store.db ∧ store'.disk.blocks = store.disk.blocks := by
  obtain ⟨index, blockPos, size, undoPos, hindex, hpos, -, -, rfl, rfl⟩ :=
    exists_of_handleStoreUndo h
  exact ⟨index, undoPos, hindex, by simp [hpos], rfl, rfl, rfl, rfl⟩

omit [Sha2] in
/-- `handle_store_undo` succeeds for a block with a body. -/
lemma handleStoreUndo_of_hasBody {bm : BlockManager} {store : Store} {hash : BlockHash}
    (undo : BlockUndo) (hbody : store.HasBody hash)
    (hpending : ∀ index, bm.pendingUndoIndexes.lookup hash = some index → index.filePos.isSome) :
    ∃ bm' store', bm.handleStoreUndo store hash undo = .ok (bm', store') := by
  unfold handleStoreUndo
  cases hl : bm.pendingUndoIndexes.lookup hash with
  | some index =>
    obtain ⟨pos, hpos⟩ := Option.isSome_iff_exists.mp (hpending index hl)
    simp only [pure_eq_ok, ok_bind, hpos]
    exact ⟨_, _, rfl⟩
  | none =>
    obtain ⟨index, hindex, hsome⟩ := hbody
    obtain ⟨pos, hpos⟩ := Option.isSome_iff_exists.mp hsome
    simp only [hindex, pure_eq_ok, ok_bind, hpos]
    exact ⟨_, _, rfl⟩

/-- A step that leaves the chain state alone: the `H` table, the best block, the coins and the
cache. -/
structure ChainstateKept (n n' : Node) : Prop where
  grows : n.store.Grows n'.store
  height : ∀ height, n'.store.getBlockHash height = n.store.getBlockHash height
  bestBlock : n'.store.getBestBlock = n.store.getBestBlock
  coins : ∀ o, n'.store.getCoin o = n.store.getCoin o
  cache : n'.chainstate.cache = n.chainstate.cache

omit [Sha2] in
lemma chainstateKept_of_store_eq {n n' : Node} (hstore : n'.store = n.store)
    (hcache : n'.chainstate.cache = n.chainstate.cache) : ChainstateKept n n' := by
  refine ⟨?_, ?_, ?_, ?_, hcache⟩ <;> rw [hstore]
  · exact .refl _
  all_goals exact fun _ => rfl

omit [Sha2] in
lemma chainstateKept_of_indexesWritten {n n' : Node} {entries : List (BlockHash × BlockIndex)}
    (h : IndexesWritten n.store n'.store entries) (hext : n.store.Extending entries)
    (hcache : n'.chainstate.cache = n.chainstate.cache) : ChainstateKept n n' :=
  ⟨Store.grows_of_indexesUpdated h.index hext, h.height, h.bestBlock, h.coins, hcache⟩

namespace IndexInv

variable {s : System} {n' : Node}

/-- Starting to process a message of headers. -/
lemma recvHeaders (hinv : IndexInv s) {headers : List BlockHeader}
    (hfree : HeaderBatch.CollisionFree headers) (hstep : s.node.recvHeaders headers = some n') :
    IndexInv ⟨n', s.history⟩ ∧ ChainstateKept s.node n' ∧ n'.phase = s.node.phase := by
  unfold Node.recvHeaders at hstep
  split at hstep
  · cases hstep
  · obtain rfl := Option.some.inj hstep
    refine ⟨?_, chainstateKept_of_store_eq rfl rfl, rfl⟩
    refine hinv.of_store_eq rfl rfl (List.Subset.refl _) hinv.waiting hinv.downloaded
      (fun _ hmsg => .inl hmsg) ?_
    intro batch hbatch
    obtain rfl := Option.some.inj hbatch
    exact HeaderBatch.inv_new _ hfree

/-- Processing the next header. -/
lemma acceptHeader (hinv : IndexInv s) {cfg : Config}
    (hstep : s.node.acceptHeader cfg = some n') :
    IndexInv ⟨n', s.history⟩ ∧ ChainstateKept s.node n' ∧ n'.phase = s.node.phase := by
  unfold Node.acceptHeader at hstep
  split at hstep
  · cases hstep
  · rename_i batch hbatch
    obtain rfl := Option.some.inj hstep
    refine ⟨?_, chainstateKept_of_store_eq rfl rfl, rfl⟩
    refine hinv.of_store_eq rfl rfl (List.Subset.refl _) hinv.waiting hinv.downloaded
      (fun _ hmsg => .inl hmsg) ?_
    intro batch' hbatch'
    cases haccept : batch.acceptHeader cfg.params s.node.store with
    | error e => simp [haccept, Except.toOption] at hbatch'
    | ok accepted =>
      simp only [haccept, Except.toOption, Option.some.injEq] at hbatch'
      subst hbatch'
      exact HeaderBatch.inv_acceptHeader (hinv.headers batch hbatch) haccept

/-- Storing the headers of a batch: they are new, so that their entries extend the index. -/
lemma storeHeaders (hinv : IndexInv s) (hstep : s.node.storeHeaders = some n') :
    IndexInv ⟨n', s.history⟩ ∧ ChainstateKept s.node n' ∧ n'.phase = s.node.phase := by
  unfold Node.storeHeaders at hstep
  split at hstep
  case h_2 => cases hstep
  rename_i batch hphase hbatch
  split_ifs at hstep with hremaining hpending
  · obtain rfl := Option.some.inj hstep
    refine ⟨?_, chainstateKept_of_store_eq rfl rfl, rfl⟩
    exact hinv.of_store_eq rfl rfl (List.Subset.refl _) hinv.waiting hinv.downloaded
      (fun _ hmsg => .inl hmsg) (by simp)
  · obtain rfl := Option.some.inj hstep
    have hnew := (hinv.headers batch hbatch).isNew
    have hwritten := indexesWritten_handleStoreBlockIndexes s.node.store batch.pending
      batch.bestTip
    have hext : s.node.store.Extending batch.pending := fun e he => .inl (hnew e he).absent
    have hkept : ChainstateKept s.node { s.node with
        store := handleStoreBlockIndexes s.node.store batch.pending batch.bestTip
        headers := none } := chainstateKept_of_indexesWritten hwritten hext rfl
    refine ⟨?_, hkept, rfl⟩
    refine hinv.of_grows hkept.grows (.refl hinv.files) (List.Subset.refl _) ?_ ?_
      (fun _ _ hl => .inl hl) ?_ hinv.waiting hinv.downloaded (fun _ hmsg => .inl hmsg) (by simp)
    · exact (lastFile_handleStoreBlockIndexes _ _ _).trans hinv.lastFile
    · intro hash index hindex
      rcases hwritten.index hash with ⟨-, hsame⟩ | ⟨e, he, rfl, hget⟩
      · exact .inl (hsame.symm.trans hindex)
      · rw [hget, Except.ok.injEq, Option.some.injEq] at hindex
        subst hindex
        exact .inr (backed_of_filePos_eq_none (hnew e he).filePos)
    · intro height hash hz
      rcases hwritten.headerHeight height with hsame | ⟨e, he, rfl, hget⟩
      · exact .inl (hsame.symm.trans hz)
      · rw [hget, Option.some.injEq] at hz
        subst hz
        -- several entries for the hash agree on its height
        right
        rcases hwritten.index e.1 with ⟨hne, -⟩ | ⟨e', he', hhash, hindex⟩
        · exact absurd rfl (hne e he)
        · exact ⟨e'.2, hindex, (hinv.headers batch hbatch).heights e' he' e he hhash⟩

/-- Storing a batch of blocks. -/
lemma storeBlocks (hinv : IndexInv s) {count : Nat}
    (hstep : s.node.storeBlocks count = some n') :
    IndexInv ⟨n', s.history⟩ ∧ ChainstateKept s.node n' ∧ n'.phase = s.node.phase := by
  unfold Node.storeBlocks at hstep
  dsimp only at hstep
  split_ifs at hstep with hcount
  cases hstore : s.node.blockManager.handleStoreBlocks s.node.store
      (s.node.storeQueue.take count) with
  | error e => simp [hstore] at hstep
  | ok r =>
    obtain ⟨blockManager, store⟩ := r
    simp only [hstore, Option.some.injEq] at hstep
    subst hstep
    have hmem : ∀ msg ∈ s.node.storeQueue.take count, msg ∈ s.node.storeQueue :=
      fun msg hmsg => List.mem_of_mem_take hmsg
    obtain ⟨entries, hwrite, hundo, hwritten, hlast⟩ := handleStoreBlocks_eq_ok hstore
    obtain ⟨hkeeps, hentries⟩ := keeps_writeBlocks hinv.files
      (fun msg hmsg => (hinv.queued msg (hmem msg hmsg)).size) hwrite
    -- every entry is for a queued block, which the index knows already
    have hentry : ∀ e ∈ entries, ∃ msg ∈ s.node.storeQueue,
        StoredEntry blockManager.files store.disk.blocks msg e := by
      intro e he
      obtain ⟨msg, hmsg, hstored⟩ := hentries e he
      exact ⟨msg, hmem msg hmsg, hstored⟩
    have hknown : ∀ e ∈ entries, s.node.store.HasHeight e.1 e.2.height ∧ e.2.filePos.isSome := by
      intro e he
      obtain ⟨msg, hmsg, hhash, hheight, pos, hpos, -⟩ := hentry e he
      rw [hhash, hheight, hpos]
      exact ⟨(hinv.queued msg hmsg).height, rfl⟩
    have hext : s.node.store.Extending entries := fun e he => .inr (hknown e he)
    have hgrows := Store.grows_of_indexesUpdated hwritten.index hext
    refine ⟨?_, chainstateKept_of_indexesWritten hwritten hext rfl, rfl⟩
    refine hinv.of_grows hgrows hkeeps (List.Subset.refl _) hlast ?_ ?_ ?_ hinv.waiting ?_ ?_ ?_
    · intro hash index hindex
      rcases hwritten.index hash with ⟨-, hsame⟩ | ⟨e, he, rfl, hget⟩
      · exact .inl (hsame.symm.trans hindex)
      · rw [hget, Except.ok.injEq, Option.some.injEq] at hindex
        subst hindex
        right
        intro pos hpos
        obtain ⟨msg, hmsg, hhash, hheight, pos', hpos', hstored⟩ := hentry e he
        obtain ⟨block, haccepted, hheader, hraw⟩ := (hinv.queued msg hmsg).block
        rw [hpos, Option.some.injEq] at hpos'
        subst hpos'
        refine ⟨block, by rw [hheight]; exact haccepted, by rw [hheader, hhash], ?_⟩
        rw [← hraw]
        exact hstored
    · intro hash index hl
      rw [hundo] at hl
      exact .inl hl
    · intro height hash hz
      rcases hwritten.headerHeight height with hsame | ⟨e, he, rfl, hget⟩
      · exact .inl (hsame.symm.trans hz)
      · rw [hget, Option.some.injEq] at hz
        subst hz
        exact .inr (hgrows.height _ _ (hknown e he).1)
    · intro e he
      rcases List.mem_append.mp he with he | he
      · exact hinv.downloaded e he
      · obtain ⟨msg, hmsg, rfl⟩ := List.mem_map.mp he
        exact (hinv.queued msg (hmem msg hmsg)).height
    · exact fun msg hmsg => .inl (List.mem_of_mem_drop hmsg)
    · intro batch hbatch
      refine (hinv.headers batch hbatch).mono_store hgrows fun hash hnone => ?_
      exact Store.getBlockIndex_eq_none_of_indexesUpdated hwritten.index
        (fun e he => ⟨_, (hknown e he).1⟩) hnone

omit [Sha2] in
/-- A block that passes `check_block` fits into a file. -/
lemma length_serialize_le {block : Block} (h : block.weight ≤ maxBlockWeight) :
    8 + (serialize block).length ≤ maxBlockFileSize := by
  have hle : (serialize block).length ≤ block.weight := by
    simp only [Block.weight]
    omega
  simp only [maxBlockWeight, maxBlockFileSize] at *
  omega

/-- Accepting a block from a peer. -/
lemma recvBlock [ScriptVerifier] (cfg : Config) (hinv : IndexInv s) (block : Block) :
    IndexInv ⟨s.node.recvBlock cfg block, s.history.next cfg s.node (.recvBlock block)⟩ ∧
      ChainstateKept s.node (s.node.recvBlock cfg block) ∧
      (s.node.recvBlock cfg block).phase = s.node.phase := by
  cases haccepted : s.node.acceptedIndex cfg block with
  | none =>
    have hnode : s.node.recvBlock cfg block = s.node := by
      simp only [Node.recvBlock, haccepted]
    have hhistory : s.history.next cfg s.node (.recvBlock block) = s.history := by
      simp only [History.next, haccepted]
    rw [hnode, hhistory]
    exact ⟨hinv, chainstateKept_of_store_eq rfl rfl, rfl⟩
  | some index =>
    have hhistory : s.history.next cfg s.node (.recvBlock block) =
        { s.history with accepted := s.history.accepted ++ [(index.height, block)] } := by
      simp only [History.next, haccepted]
    obtain ⟨hcheck, hfound⟩ : checkBlock block cfg.params = .ok () ∧
        s.node.store.findBlockIndex block.header.blockHash = some index := by
      unfold Node.acceptedIndex at haccepted
      cases hcheck : checkBlock block cfg.params with
      | error e => simp [hcheck] at haccepted
      | ok _ => exact ⟨rfl, by simpa [hcheck] using haccepted⟩
    have hheight := HeaderBatch.hasHeight_of_findBlockIndex hfound
    have hsub : s.history.accepted ⊆ s.history.accepted ++ [(index.height, block)] :=
      List.subset_append_left _ _
    rw [hhistory]
    cases hpos : index.filePos with
    | none =>
      have hnode : s.node.recvBlock cfg block = { s.node with storeQueue := s.node.storeQueue ++
          [⟨block.header, index.height, index.chainWork, serialize block⟩] } := by
        simp only [Node.recvBlock, haccepted, hpos]
      rw [hnode]
      refine ⟨?_, chainstateKept_of_store_eq rfl rfl, rfl⟩
      refine hinv.of_store_eq rfl rfl hsub hinv.waiting hinv.downloaded ?_ hinv.headers
      intro msg hmsg
      rcases List.mem_append.mp hmsg with hmsg | hmsg
      · exact .inl hmsg
      · obtain rfl := List.mem_singleton.mp hmsg
        exact .inr ⟨hheight, ⟨block, by simp, rfl, rfl⟩,
          length_serialize_le (wellFormedBlock_of_checkBlock hcheck).weight⟩
    | some pos =>
      have hnode : s.node.recvBlock cfg block = { s.node with
          downloaded := s.node.downloaded ++ [(block.header.blockHash, index.height)] } := by
        simp only [Node.recvBlock, haccepted, hpos]
      rw [hnode]
      refine ⟨?_, chainstateKept_of_store_eq rfl rfl, rfl⟩
      refine hinv.of_store_eq rfl rfl hsub hinv.waiting ?_ (fun _ hmsg => .inl hmsg) hinv.headers
      intro e he
      rcases List.mem_append.mp he with he | he
      · exact hinv.downloaded e he
      · obtain rfl := List.mem_singleton.mp he
        exact hheight

/-- Taking a message that a block has been downloaded. -/
lemma blockDownloaded (hinv : IndexInv s) {i : Nat}
    (hstep : s.node.blockDownloaded i = some n') :
    IndexInv ⟨n', s.history⟩ ∧ ChainstateKept s.node n' ∧ n'.phase = s.node.phase := by
  unfold Node.blockDownloaded at hstep
  split at hstep
  case h_2 => cases hstep
  rename_i hash height hphase hget
  obtain rfl := Option.some.inj hstep
  refine ⟨?_, chainstateKept_of_store_eq rfl rfl, rfl⟩
  refine hinv.of_store_eq rfl rfl (List.Subset.refl _) ?_ ?_ (fun _ hmsg => .inl hmsg)
    hinv.headers
  · intro height' hash' hl
    by_cases heq : height' = height
    · subst heq
      rw [AList.lookup_insert, Option.some.injEq] at hl
      subst hl
      exact hinv.downloaded _ (List.mem_of_getElem? hget)
    · rw [AList.lookup_insert_ne heq] at hl
      exact hinv.waiting height' hash' hl
  · exact fun e he => hinv.downloaded e (List.mem_of_mem_eraseIdx he)

/-- A step that changes neither the store nor the tables. -/
lemma of_eq (hinv : IndexInv s) {s' : System} (hstore : s'.node.store = s.node.store)
    (hmanager : s'.node.blockManager = s.node.blockManager)
    (hqueue : s'.node.storeQueue = s.node.storeQueue) (hheaders : s'.node.headers = s.node.headers)
    (hdownloaded : s'.node.downloaded = s.node.downloaded)
    (hwaiting : s'.node.chainstate.waitingBlocks = s.node.chainstate.waitingBlocks)
    (haccepted : s'.history.accepted = s.history.accepted) : IndexInv s' := by
  apply hinv.of_store_eq hstore hmanager
  · rw [haccepted]
    exact List.Subset.refl _
  · rw [hwaiting]
    exact hinv.waiting
  · rw [hdownloaded]
    exact hinv.downloaded
  · rw [hqueue]
    exact fun _ hmsg => .inl hmsg
  · rw [hheaders]
    exact hinv.headers

/-- A call of `store_undo`. -/
lemma of_handleStoreUndo (hinv : IndexInv s) {s' : System} {hash : BlockHash} {undo : BlockUndo}
    (hundo : s.node.blockManager.handleStoreUndo s.node.store hash undo =
      .ok (s'.node.blockManager, s'.node.store))
    (hqueue : s'.node.storeQueue = s.node.storeQueue) (hheaders : s'.node.headers = s.node.headers)
    (hdownloaded : s'.node.downloaded = s.node.downloaded)
    (hwaiting : s'.node.chainstate.waitingBlocks = s.node.chainstate.waitingBlocks)
    (haccepted : s'.history.accepted = s.history.accepted) : IndexInv s' := by
  obtain ⟨index, undoPos, hsource, hsome, hpending, hfiles, hdb, hblocks⟩ :=
    handleStoreUndo_eq_ok hundo
  have hwritten : IndexesWritten s.node.store s'.node.store [] := indexesWritten_of_db_eq hdb
  have hgrows : s.node.store.Grows s'.node.store :=
    Store.grows_of_indexesUpdated hwritten.index (by simp [Store.Extending])
  have hsame : ∀ hash, s'.node.store.getBlockIndex hash = s.node.store.getBlockIndex hash := by
    intro hash
    simp only [Store.getBlockIndex, hdb]
  refine hinv.of_grows hgrows ?_ ?_ ?_ ?_ ?_ ?_ ?_ ?_ ?_ ?_
  · rw [hfiles, hblocks]
    exact .refl hinv.files
  · rw [haccepted]
    exact List.Subset.refl _
  · simp only [hfiles, ← hinv.lastFile, Store.lastFile, hdb]
  · intro hash index hindex
    rw [hsame] at hindex
    exact .inl hindex
  · intro hash' index' hl
    simp only [hpending] at hl
    by_cases hhash : hash' = hash
    · subst hhash
      rw [AList.lookup_insert, Option.some.injEq] at hl
      subst hl
      right
      rcases hsource with hold | hold
      · exact hinv.undo hash' index hold
      · exact ⟨⟨index, hold, rfl⟩, hsome, hinv.backed hash' index hold⟩
    · rw [AList.lookup_insert_ne hhash] at hl
      exact .inl hl
  · intro height hash hz
    rcases hwritten.headerHeight height with hold | ⟨e, he, -⟩
    · exact .inl (hold.symm.trans hz)
    · simp at he
  · rw [hwaiting]
    exact hinv.waiting
  · rw [hdownloaded]
    exact hinv.downloaded
  · rw [hqueue]
    exact fun _ hmsg => .inl hmsg
  · intro batch hbatch
    rw [hheaders] at hbatch
    refine (hinv.headers batch hbatch).mono_store hgrows fun hash hnone => ?_
    rw [hsame, hnone]

/-- Storing undo data. -/
lemma storeUndo (hinv : IndexInv s) {a : Activation} {hash : BlockHash} {block : Block}
    {undo : BlockUndo} (hbody : s.node.store.HasBody hash) :
    IndexInv ⟨s.node.storeUndo a hash block undo, s.history⟩ := by
  obtain ⟨bm, store, hundo⟩ :=
    handleStoreUndo_of_hasBody undo hbody fun index hl => (hinv.undo hash index hl).2.1
  unfold Node.storeUndo
  simp only [hundo]
  exact hinv.of_handleStoreUndo hundo rfl rfl rfl rfl rfl

omit [Sha2] in
/-- What a flush writes apart from the coins. -/
lemma chainstateWritten_flush (n : Node) (a : Activation) (coinOrder : List OutPoint)
    (undoOrder : List BlockHash) (trimOrder : List OutPoint) :
    ChainstateWritten n.store (n.flushChainstate a coinOrder undoOrder trimOrder).store
      n.blockManager.pendingUndoIndexes n.cacheView.getBestBlock n.cacheView.connectedBlocks :=
  chainstateWritten_handleUpdateUtxoSet n.blockManager n.store coinOrder undoOrder
    n.cacheView.toUpdates n.cacheView.getBestBlock n.cacheView.connectedBlocks

/-- The pending indexes are those of the store with an undo position, so that writing them extends
the index. -/
lemma grows_of_chainstateWritten (hinv : IndexInv s) {store : Store} {bestBlock : Option BlockHash}
    {connectedBlocks : List (UInt32 × BlockHash)}
    (hwritten : ChainstateWritten s.node.store store s.node.blockManager.pendingUndoIndexes
      bestBlock connectedBlocks) : s.node.store.Grows store := by
  apply Store.grows_of_indexesUpdated hwritten.indexesUpdated
  rintro ⟨hash, index⟩ he
  rw [HashMap.mem_iter] at he
  exact .inr ⟨(hinv.undo hash index he).1, (hinv.undo hash index he).2.1⟩

/-- A call of `update_utxo_set`. -/
lemma of_chainstateWritten (hinv : IndexInv s) {s' : System} {bestBlock : Option BlockHash}
    {connectedBlocks : List (UInt32 × BlockHash)}
    (hwritten : ChainstateWritten s.node.store s'.node.store
      s.node.blockManager.pendingUndoIndexes bestBlock connectedBlocks)
    (hfiles : s'.node.blockManager.files = s.node.blockManager.files)
    (hpending : s'.node.blockManager.pendingUndoIndexes = ∅)
    (hqueue : s'.node.storeQueue = s.node.storeQueue) (hheaders : s'.node.headers = s.node.headers)
    (hdownloaded : s'.node.downloaded = s.node.downloaded)
    (hwaiting : s'.node.chainstate.waitingBlocks = s.node.chainstate.waitingBlocks)
    (haccepted : s'.history.accepted = s.history.accepted) : IndexInv s' := by
  have hgrows := hinv.grows_of_chainstateWritten hwritten
  refine hinv.of_grows hgrows ?_ ?_ ?_ ?_ ?_ ?_ ?_ ?_ ?_ ?_
  · rw [hfiles, hwritten.disk]
    exact .refl hinv.files
  · rw [haccepted]
    exact List.Subset.refl _
  · rw [hfiles]
    exact hwritten.lastFile.trans hinv.lastFile
  · intro hash index hindex
    have hget := hwritten.index hash
    cases hl : s.node.blockManager.pendingUndoIndexes.lookup hash with
    | none =>
      rw [hl] at hget
      exact .inl (hget.symm.trans hindex)
    | some index' =>
      simp only [hl] at hget
      rw [hget, Except.ok.injEq, Option.some.injEq] at hindex
      subst hindex
      right
      rw [hfiles, hwritten.disk, haccepted]
      exact (hinv.undo hash index' hl).2.2
  · intro hash index hl
    rw [hpending] at hl
    cases hl
  · intro height hash hz
    exact .inl ((hwritten.headerHeight height).symm.trans hz)
  · rw [hwaiting]
    exact hinv.waiting
  · rw [hdownloaded]
    exact hinv.downloaded
  · rw [hqueue]
    exact fun _ hmsg => .inl hmsg
  · intro batch hbatch
    rw [hheaders] at hbatch
    refine (hinv.headers batch hbatch).mono_store hgrows fun hash hnone => ?_
    refine Store.getBlockIndex_eq_none_of_indexesUpdated hwritten.indexesUpdated ?_ hnone
    rintro ⟨hash, index⟩ he
    rw [HashMap.mem_iter] at he
    exact ⟨_, (hinv.undo hash index he).1⟩

lemma flush (hinv : IndexInv s) (a : Activation) (coinOrder : List OutPoint)
    (undoOrder : List BlockHash) (trimOrder : List OutPoint) (flushed : Nat) :
    IndexInv ⟨s.node.flushChainstate a coinOrder undoOrder trimOrder,
      { s.history with flushed }⟩ :=
  hinv.of_chainstateWritten (chainstateWritten_flush s.node a coinOrder undoOrder trimOrder)
    rfl rfl rfl rfl rfl rfl rfl

/-- A restart finds the index and the blocks on disk, and nothing in memory. -/
lemma crash (hinv : IndexInv s) (cfg : Config) {h : History}
    (haccepted : h.accepted = s.history.accepted) :
    IndexInv ⟨Node.start cfg s.node.store, h⟩ := by
  have hfiles : (BlockManager.new s.node.store cfg.magic).files =
      BlockFileManager.new s.node.store.disk cfg.magic s.node.blockManager.files.currentFile := by
    rw [← hinv.lastFile]
    rfl
  refine hinv.of_grows (.refl _) ?_ ?_ ?_ (fun _ _ hindex => .inl hindex) ?_
    (fun _ _ hz => .inl hz) ?_ ?_ ?_ ?_
  · change BlockFileManager.Keeps _ _ (BlockManager.new s.node.store cfg.magic).files _
    rw [hfiles]
    exact BlockFileManager.keeps_new cfg.magic hinv.files
  · rw [haccepted]
    exact List.Subset.refl _
  · change _ = (BlockManager.new s.node.store cfg.magic).files.currentFile
    rw [hfiles]
    exact hinv.lastFile
  · intro hash index hl
    cases hl
  · intro height hash hl
    cases hl
  · simp [Node.start]
  · simp [Node.start]
  · simp [Node.start]

/-- Updating the headers tip. -/
lemma updateHeadersTip (hinv : IndexInv s) (tip : BlockHash) (phase : Phase) :
    IndexInv ⟨{ s.node with store := handleUpdateHeadersTip s.node.store tip, phase }, s.history⟩ ∧
      ChainstateKept s.node
        { s.node with store := handleUpdateHeadersTip s.node.store tip, phase } := by
  have hwritten := indexesWritten_handleUpdateHeadersTip s.node.store tip
  have hext : s.node.store.Extending [] := by simp [Store.Extending]
  have hgrows := Store.grows_of_indexesUpdated hwritten.index hext
  refine ⟨?_, chainstateKept_of_indexesWritten hwritten hext rfl⟩
  refine hinv.of_grows hgrows (.refl hinv.files) (List.Subset.refl _) ?_ ?_
    (fun _ _ hl => .inl hl) ?_ hinv.waiting hinv.downloaded (fun _ hmsg => .inl hmsg) ?_
  · exact (lastFile_handleUpdateHeadersTip _ _).trans hinv.lastFile
  · intro hash index hindex
    rcases hwritten.index hash with ⟨-, hsame⟩ | ⟨e, he, -⟩
    · exact .inl (hsame.symm.trans hindex)
    · simp at he
  · intro height hash hz
    rcases hwritten.headerHeight height with hsame | ⟨e, he, -⟩
    · exact .inl (hsame.symm.trans hz)
    · simp at he
  · intro batch hbatch
    refine (hinv.headers batch hbatch).mono_store hgrows fun hash hnone => ?_
    exact Store.getBlockIndex_eq_none_of_indexesUpdated hwritten.index (by simp) hnone

/-- A call of `connect_block` changes the cache and the phase only. -/
lemma connect [ScriptVerifier] (hinv : IndexInv s) (cfg : Config) (a : Activation)
    (hash : BlockHash) (block : Block) (completion : List Nat) {h : History}
    (haccepted : h.accepted = s.history.accepted) :
    IndexInv ⟨s.node.connect cfg a hash block completion, h⟩ := by
  unfold Node.connect
  split
  · exact hinv.of_eq rfl rfl rfl rfl rfl rfl haccepted
  · exact hinv.of_eq rfl rfl rfl rfl rfl rfl haccepted

end IndexInv

end Bitcrab
