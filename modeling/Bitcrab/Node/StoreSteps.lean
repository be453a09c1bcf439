import Bitcrab.Node.ChainInvariant
import Bitcrab.Node.HeaderCalls

/-!
# What a step writes to the index

Four messages overwrite index records: a batch of headers, which the index does not know yet,
a batch of blocks, which it knows, and a flush, which writes the records kept since undo data
was stored.
-/

namespace Bitcrab

open BlockManager Result

/-- A batch of headers files each of their heights. -/
lemma isSome_headerHeight_handleStoreBlockIndexes {s : Store}
    {entries : List (BlockHash × BlockIndex)} (tip : Option BlockHash)
    {e : BlockHash × BlockIndex} (he : e ∈ entries) :
    ((handleStoreBlockIndexes s entries tip).getBlockHashByHeaderHeight e.2.height).isSome := by
  have hnone : ((handleStoreBlockIndexes s entries none).getBlockHashByHeaderHeight
      e.2.height).isSome := by
    induction entries using List.reverseRecOn with
    | nil => cases he
    | append_singleton entries last ih =>
      rw [handleStoreBlockIndexes_append, getBlockHashByHeaderHeight_handleStoreBlockIndex]
      split_ifs with hheight
      · rfl
      · rcases List.mem_append.mp he with he | he
        · exact ih he
        · obtain rfl := List.mem_singleton.mp he
          exact absurd rfl hheight
  cases tip with
  | none => exact hnone
  | some tip =>
    rw [handleStoreBlockIndexes_some, getBlockHashByHeaderHeight_handleUpdateHeadersTip]
    exact hnone

variable [Sha2]

/-- What a step does to the index records, in the store and in the buffer of the storage actor, when
it handles the `StoreBlock` messages `msgs`. -/
inductive StoreStep (s : System) : List StoreBlockMsg → System → Prop
  /-- New headers are indexed, most often none. -/
  | headers {s' : System} {entries : List (BlockHash × BlockIndex)}
      (hwritten : IndexesWritten s.node.store s'.node.store entries)
      (hnew : ∀ e ∈ entries, s.node.store.getBlockIndex e.1 = .ok none)
      (hfiled : ∀ e ∈ entries, (s'.node.store.getBlockHashByHeaderHeight e.2.height).isSome)
      (hpending : ∀ hash index,
        s'.node.blockManager.pendingUndoIndexes.lookup hash = some index →
          s.node.blockManager.pendingUndoIndexes.lookup hash = some index ∨
            index.undoPos.isSome) : StoreStep s [] s'
  /-- The blocks of the messages are stored. -/
  | blocks {msgs : List StoreBlockMsg} {s' : System} {entries : List (BlockHash × BlockIndex)}
      (hwritten : IndexesWritten s.node.store s'.node.store entries)
      (hqueued : ∀ msg ∈ msgs, msg ∈ s.node.storeQueue)
      (hentries : ∀ e ∈ entries, ∃ msg ∈ msgs,
        StoredEntry s'.node.blockManager.files s'.node.store.disk.blocks msg e)
      (hpending : s'.node.blockManager.pendingUndoIndexes =
        s.node.blockManager.pendingUndoIndexes) : StoreStep s msgs s'
  /-- The buffer is written. -/
  | flush {s' : System} {bestBlock : Option BlockHash}
      {connectedBlocks : List (UInt32 × BlockHash)}
      (hwritten : ChainstateWritten s.node.store s'.node.store
        s.node.blockManager.pendingUndoIndexes bestBlock connectedBlocks)
      (hpending : s'.node.blockManager.pendingUndoIndexes = ∅) : StoreStep s [] s'

/-- The `StoreBlock` messages that an event handles. -/
def Event.handled (n : Node) : Event → List StoreBlockMsg
  | .storeBlocks count => n.storeQueue.take count
  | _ => []

section Cases

variable {cfg : Config} {s s' : System} {e : Event}

/-- A step that writes nothing to the database. -/
lemma StoreStep.of_db_eq (hdb : s'.node.store.db = s.node.store.db)
    (hpending : ∀ hash index,
      s'.node.blockManager.pendingUndoIndexes.lookup hash = some index →
        s.node.blockManager.pendingUndoIndexes.lookup hash = some index ∨ index.undoPos.isSome) :
    StoreStep s [] s' :=
  .headers (indexesWritten_of_db_eq hdb) (by simp) (by simp) hpending

lemma StoreStep.of_eq (hstore : s'.node.store = s.node.store)
    (hmanager : s'.node.blockManager = s.node.blockManager) : StoreStep s [] s' :=
  .of_db_eq (by rw [hstore]) fun hash index hl => .inl (hmanager ▸ hl)

lemma StoreStep.of_storeBlocks (hinv : IndexInv s) {count : Nat} {n' : Node} {h : History}
    (hstep : s.node.storeBlocks count = some n') :
    StoreStep s (s.node.storeQueue.take count) ⟨n', h⟩ := by
  unfold Node.storeBlocks at hstep
  dsimp only at hstep
  split_ifs at hstep with hcount
  cases hstore : s.node.blockManager.handleStoreBlocks s.node.store
      (s.node.storeQueue.take count) with
  | error e => simp [hstore] at hstep
  | ok r =>
    obtain ⟨blockManager, store⟩ := r
    simp only [hstore, Option.some.injEq] at hstep
    subst hstep
    obtain ⟨entries, hwrite, hpending, hwritten, -⟩ := handleStoreBlocks_eq_ok hstore
    obtain ⟨-, hentries⟩ := keeps_writeBlocks hinv.files
      (fun msg hmsg => (hinv.queued msg (List.mem_of_mem_take hmsg)).size) hwrite
    exact .blocks hwritten (fun msg hmsg => List.mem_of_mem_take hmsg) hentries hpending

lemma StoreStep.of_storeHeaders (hinv : IndexInv s) {n' : Node} {h : History}
    (hstep : s.node.storeHeaders = some n') : StoreStep s [] ⟨n', h⟩ := by
  unfold Node.storeHeaders at hstep
  split at hstep
  case h_2 => cases hstep
  rename_i batch hphase hbatch
  split_ifs at hstep with hremaining hpending
  · obtain rfl := Option.some.inj hstep
    exact .of_eq rfl rfl
  · obtain rfl := Option.some.inj hstep
    have hnew := (hinv.headers batch hbatch).isNew
    exact .headers (indexesWritten_handleStoreBlockIndexes ..) (fun e he => (hnew e he).absent)
      (fun e he => isSome_headerHeight_handleStoreBlockIndexes _ he) fun _ _ => .inl

/-- The record that `handle_store_undo` keeps has the new position. -/
lemma StoreStep.of_handleStoreUndo {hash : BlockHash} {undo : BlockUndo}
    (hundo : s.node.blockManager.handleStoreUndo s.node.store hash undo =
      .ok (s'.node.blockManager, s'.node.store)) : StoreStep s [] s' := by
  obtain ⟨index, undoPos, -, -, hpending, -, hdb, -⟩ := handleStoreUndo_eq_ok hundo
  refine .of_db_eq hdb fun hash' index' hl => ?_
  rw [hpending] at hl
  by_cases hhash : hash' = hash
  · subst hhash
    rw [AList.lookup_insert, Option.some.injEq] at hl
    exact .inr (hl ▸ rfl)
  · rw [AList.lookup_insert_ne hhash] at hl
    exact .inl hl

/-- What every step of a node writes to the index. -/
lemma StoreStep.of_step [ScriptVerifier] (hinv : IndexInv s)
    (hgenesis : s.node.store.HasHeight cfg.params.genesisHash 0)
    (hstep : s.step cfg e = some s') : StoreStep s (e.handled s.node) s' := by
  obtain ⟨n', hnode, rfl⟩ := step_eq_some hstep
  cases e with
  | recvHeaders headers =>
    obtain rfl := Node.step_recvHeaders hnode
    exact .of_eq rfl rfl
  | acceptHeader =>
    obtain ⟨headers, rfl⟩ := Node.step_acceptHeader hnode
    exact .of_eq rfl rfl
  | storeHeaders => exact .of_storeHeaders hinv hnode
  | recvBlock block =>
    obtain rfl := Option.some.inj hnode
    obtain ⟨storeQueue, downloaded, heq⟩ := Node.recvBlock_eq cfg s.node block
    rw [heq]
    exact .of_eq rfl rfl
  | storeBlocks count => exact .of_storeBlocks hinv hnode
  | blockDownloaded i =>
    obtain ⟨downloaded, waitingBlocks, rfl⟩ := Node.step_blockDownloaded hnode
    exact .of_eq rfl rfl
  | activate =>
    obtain ⟨-, rfl | ⟨a, -, rfl⟩⟩ := Node.step_activate hnode
    · exact .of_eq rfl rfl
    · exact .of_eq rfl rfl
  | selectBlock recentlyFailed =>
    obtain ⟨a, -, hselect⟩ := Node.step_selectBlock hnode
    obtain ⟨waitingBlocks, phase, rfl, -⟩ := selectBlock_eq_some hselect
    exact .of_eq rfl rfl
  | connect completion =>
    obtain ⟨a, hash, block, -, rfl⟩ := Node.step_connect hnode
    unfold Node.connect
    split <;> exact .of_eq rfl rfl
  | storeUndo =>
    obtain ⟨a, hash, block, undo, -, rfl⟩ := Node.step_storeUndo hnode
    cases hundo : s.node.blockManager.handleStoreUndo s.node.store hash undo with
    | error err =>
      simp only [Node.storeUndo, hundo]
      exact .of_eq rfl rfl
    | ok r =>
      simp only [Node.storeUndo, hundo]
      exact .of_handleStoreUndo hundo
  | flush coinOrder undoOrder trimOrder =>
    obtain ⟨a, -, rfl⟩ := Node.step_flush hnode
    exact .flush (IndexInv.chainstateWritten_flush ..) rfl
  | repairTip =>
    obtain ⟨-, rfl⟩ | ⟨tip, tips, -, rfl⟩ := Node.step_repairTip hnode
    · exact .of_eq rfl rfl
    · exact .headers (indexesWritten_handleUpdateHeadersTip ..) (by simp) (by simp) fun _ _ => .inl
  | loadGenesis =>
    obtain rfl := Node.step_loadGenesis hgenesis hnode
    exact .of_eq rfl rfl
  | crash =>
    obtain rfl := Node.step_crash hnode
    exact .of_db_eq rfl fun hash index hl => by cases hl

/-- Every step of a node keeps the index. -/
lemma IndexInv.step [ScriptVerifier] (hinv : IndexInv s)
    (hgenesis : s.node.store.HasHeight cfg.params.genesisHash 0) (hfree : e.CollisionFree)
    (hstep : s.step cfg e = some s') : IndexInv s' := by
  obtain ⟨n', hnode, rfl⟩ := step_eq_some hstep
  cases e with
  | recvHeaders headers => exact (hinv.recvHeaders hfree hnode).1
  | acceptHeader => exact (hinv.acceptHeader hnode).1
  | storeHeaders => exact (hinv.storeHeaders hnode).1
  | recvBlock block =>
    obtain rfl := Option.some.inj hnode
    exact (hinv.recvBlock cfg block).1
  | storeBlocks count => exact (hinv.storeBlocks hnode).1
  | blockDownloaded i => exact (hinv.blockDownloaded hnode).1
  | activate =>
    obtain ⟨-, rfl | ⟨a, -, rfl⟩⟩ := Node.step_activate hnode
    · exact hinv
    · exact hinv.of_eq rfl rfl rfl rfl rfl rfl rfl
  | selectBlock recentlyFailed =>
    obtain ⟨a, -, hselect⟩ := Node.step_selectBlock hnode
    exact hinv.selectBlock hselect
  | connect completion =>
    obtain ⟨a, hash, block, hphase, rfl⟩ := Node.step_connect hnode
    refine hinv.connect _ _ _ _ _ ?_
    simp only [History.next, hphase]
    split <;> rfl
  | storeUndo =>
    obtain ⟨a, hash, block, undo, -, rfl⟩ := Node.step_storeUndo hnode
    cases hundo : s.node.blockManager.handleStoreUndo s.node.store hash undo with
    | error err =>
      simp only [Node.storeUndo, hundo]
      exact hinv.of_eq rfl rfl rfl rfl rfl rfl rfl
    | ok r =>
      simp only [Node.storeUndo, hundo]
      exact hinv.of_handleStoreUndo hundo rfl rfl rfl rfl rfl
  | flush coinOrder undoOrder trimOrder =>
    obtain ⟨a, -, rfl⟩ := Node.step_flush hnode
    exact hinv.flush _ _ _ _ _
  | repairTip =>
    obtain ⟨-, rfl⟩ | ⟨tip, tips, -, rfl⟩ := Node.step_repairTip hnode
    · exact hinv.of_eq rfl rfl rfl rfl rfl rfl rfl
    · exact (hinv.updateHeadersTip tip (.repairing tips)).1
  | loadGenesis =>
    obtain rfl := Node.step_loadGenesis hgenesis hnode
    exact hinv
  | crash =>
    obtain rfl := Node.step_crash hnode
    exact hinv.crash cfg rfl

/-- What a step writes to the index of a node with its chain. -/
lemma NodeInv.storeStep [ScriptVerifier] (hinv : NodeInv cfg s) (hstep : s.step cfg e = some s') :
    StoreStep s (e.handled s.node) s' :=
  .of_step hinv.index (hinv.chain.heights 0 cfg.params.genesisHash rfl) hstep

end Cases

/-! ### What the writes keep -/

section Kept

variable {s s' : System} {msgs : List StoreBlockMsg}

lemma StoreStep.grows (h : StoreStep s msgs s') (hinv : IndexInv s) :
    s.node.store.Grows s'.node.store := by
  cases h with
  | headers hwritten hnew =>
    exact Store.grows_of_indexesUpdated hwritten.index fun e he => .inl (hnew e he)
  | blocks hwritten hqueued hentries =>
    refine Store.grows_of_indexesUpdated hwritten.index fun e he => .inr ?_
    obtain ⟨msg, hmsg, hhash, hheight, pos, hpos, -⟩ := hentries e he
    rw [hhash, hheight, hpos]
    exact ⟨(hinv.queued msg (hqueued msg hmsg)).height, rfl⟩
  | flush hwritten => exact hinv.grows_of_chainstateWritten hwritten

/-- The records in the buffer of the storage actor have a position of undo data. -/
def BlockManager.UndoBuffered (bm : BlockManager) : Prop :=
  ∀ hash index, bm.pendingUndoIndexes.lookup hash = some index → index.undoPos.isSome

/-- A block has a position of undo data in the store. -/
def Store.HasUndo (s : Store) (hash : BlockHash) : Prop :=
  ∃ index, s.getBlockIndex hash = .ok (some index) ∧ index.undoPos.isSome

lemma StoreStep.undoBuffered (h : StoreStep s msgs s')
    (hbuffered : s.node.blockManager.UndoBuffered) : s'.node.blockManager.UndoBuffered := by
  cases h with
  | headers _ _ _ hpending =>
    intro hash index hl
    rcases hpending hash index hl with hold | hnew
    · exact hbuffered hash index hold
    · exact hnew
  | blocks _ _ _ hpending =>
    rw [BlockManager.UndoBuffered, hpending]
    exact hbuffered
  | flush _ hpending =>
    intro hash index hl
    rw [hpending] at hl
    cases hl

/-- A position of undo data is kept unless a message stores the block again. -/
lemma StoreStep.hasUndo (h : StoreStep s msgs s') (hbuffered : s.node.blockManager.UndoBuffered)
    (hmsgs : ∀ msg ∈ msgs, ¬ s.node.store.HasUndo msg.header.blockHash) {hash : BlockHash}
    (hundo : s.node.store.HasUndo hash) : s'.node.store.HasUndo hash := by
  obtain ⟨index, hindex, hsome⟩ := hundo
  cases h with
  | headers hwritten hnew =>
    rcases hwritten.index hash with ⟨-, hsame⟩ | ⟨e, he, rfl, -⟩
    · exact ⟨index, hsame.trans hindex, hsome⟩
    · rw [hnew e he] at hindex
      simp at hindex
  | blocks hwritten _ hentries =>
    rcases hwritten.index hash with ⟨-, hsame⟩ | ⟨e, he, rfl, -⟩
    · exact ⟨index, hsame.trans hindex, hsome⟩
    · obtain ⟨msg, hmsg, hhash, -⟩ := hentries e he
      rw [hhash] at hindex
      exact absurd ⟨index, hindex, hsome⟩ (hmsgs msg hmsg)
  | flush hwritten =>
    have hget := hwritten.index hash
    cases hl : s.node.blockManager.pendingUndoIndexes.lookup hash with
    | none =>
      rw [hl] at hget
      exact ⟨index, hget.trans hindex, hsome⟩
    | some index' =>
      rw [hl] at hget
      exact ⟨index', hget, hbuffered hash index' hl⟩

end Kept

end Bitcrab
