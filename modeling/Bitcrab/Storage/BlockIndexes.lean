import Bitcrab.Storage.BlockRecords

/-!
# The tables after a write

What the reads of the store return after each message of the storage actor: the index records, the
`z` and `H` tables, the best block and the coins.
-/

namespace Bitcrab

open Bytes BlockManager Result

/-! ### Reads after a batch -/

/-- A hash read after a batch whose writes at its key are hashes with `P`. -/
lemma readHash_commit_cases (db : Db) {batch : List WriteOp} {k : DbKey} {P : BlockHash → Prop}
    (hputs : ∀ op ∈ batch, op.key = k → ∃ hash, P hash ∧ op = putHash k hash) :
    (∀ op ∈ batch, op.key ≠ k) ∧ Store.readHash (db.commit batch) k = Store.readHash db k ∨
      ∃ hash, P hash ∧ Store.readHash (db.commit batch) k = some hash := by
  rcases db.get_commit_cases batch k with ⟨hne, hget⟩ | ⟨op, hop, hkey, hget⟩
  · exact .inl ⟨hne, by rw [Store.readHash, hget, Store.readHash]⟩
  · obtain ⟨hash, hP, rfl⟩ := hputs op hop hkey
    refine .inr ⟨hash, hP, ?_⟩
    simp [Store.readHash, hget, putHash, WriteOp.value]

lemma readHash_commit_of_forall_ne {db : Db} {batch : List WriteOp} {k : DbKey}
    (h : ∀ op ∈ batch, op.key ≠ k) :
    Store.readHash (db.commit batch) k = Store.readHash db k := by
  rw [Store.readHash, Db.get_commit_of_forall_ne h, Store.readHash]

/-- An index read after a batch whose writes at its key are indexes with `P`. -/
lemma getBlockIndex_commit_cases (s : Store) (disk : Disk) {batch : List WriteOp}
    {hash : BlockHash} {P : BlockIndex → Prop}
    (hputs : ∀ op ∈ batch, op.key = .block hash →
      ∃ index : BlockIndex, P index ∧ op = .put (.block hash) (encode index)) :
    (∀ op ∈ batch, op.key ≠ .block hash) ∧
        Store.getBlockIndex ⟨s.db.commit batch, disk⟩ hash = s.getBlockIndex hash ∨
      ∃ index, P index ∧
        Store.getBlockIndex ⟨s.db.commit batch, disk⟩ hash = .ok (some index) := by
  rcases s.db.get_commit_cases batch (.block hash) with ⟨hne, hget⟩ | ⟨op, hop, hkey, hget⟩
  · refine .inl ⟨hne, ?_⟩
    simp only [Store.getBlockIndex, hget]
  · obtain ⟨index, hP, rfl⟩ := hputs op hop hkey
    refine .inr ⟨index, hP, ?_⟩
    have hdec := decodeExact_encode (roundTrips_blockIndex index) "BlockIndex"
    simp [Store.getBlockIndex, hget, WriteOp.value, hdec, Result.mapError_ok, Except.map]

lemma getCoin_commit_of_forall_ne {s : Store} {disk : Disk} {batch : List WriteOp}
    {o : OutPoint} (h : ∀ op ∈ batch, op.key ≠ .coin o) :
    Store.getCoin ⟨s.db.commit batch, disk⟩ o = s.getCoin o := by
  simp only [Store.getCoin, Db.get_commit_of_forall_ne h]

/-! ### Index records -/

/-- The index records of `s'` are those of `s` with some entries written over them. -/
def IndexesUpdated (s s' : Store) (entries : List (BlockHash × BlockIndex)) : Prop :=
  ∀ hash,
    (∀ e ∈ entries, e.1 ≠ hash) ∧ s'.getBlockIndex hash = s.getBlockIndex hash ∨
      ∃ e ∈ entries, e.1 = hash ∧ s'.getBlockIndex hash = .ok (some e.2)

/-- The store after a write of index records that leaves the chain state alone. -/
structure IndexesWritten (s s' : Store) (entries : List (BlockHash × BlockIndex)) : Prop where
  index : IndexesUpdated s s' entries
  headerHeight : ∀ height,
    s'.getBlockHashByHeaderHeight height = s.getBlockHashByHeaderHeight height ∨
      ∃ e ∈ entries, e.2.height = height ∧ s'.getBlockHashByHeaderHeight height = some e.1
  height : ∀ height, s'.getBlockHash height = s.getBlockHash height
  bestBlock : s'.getBestBlock = s.getBestBlock
  coins : ∀ o, s'.getCoin o = s.getCoin o

/-- The keys that are not part of the tables. -/
def DbKey.IsMeta (k : DbKey) : Prop := k = .headersTip ∨ k = .lastFile ∨ k = .blockTip

lemma mem_indexOps {entries : List (BlockHash × BlockIndex)} {op : WriteOp}
    (h : op ∈ entries.flatMap fun e => indexOps e.1 e.2) :
    ∃ e ∈ entries, op = .put (.block e.1) (encode e.2) ∨
      op = putHash (.headerHeight e.2.height) e.1 := by
  obtain ⟨e, he, hop⟩ := List.mem_flatMap.mp h
  exact ⟨e, he, by simpa [indexOps] using hop⟩

/-- A batch of index records and of other keys. -/
lemma indexesWritten_commit (s : Store) (disk : Disk) (entries : List (BlockHash × BlockIndex))
    {rest : List WriteOp} (hrest : ∀ op ∈ rest, op.key.IsMeta) :
    IndexesWritten s
      ⟨s.db.commit ((entries.flatMap fun e => indexOps e.1 e.2) ++ rest), disk⟩ entries := by
  -- a key that is neither an index, nor a height of the `z` table, nor a meta key is not written
  have hkeys : ∀ op ∈ (entries.flatMap fun e => indexOps e.1 e.2) ++ rest,
      (∃ e ∈ entries, op = .put (.block e.1) (encode e.2) ∨
        op = putHash (.headerHeight e.2.height) e.1) ∨ op.key.IsMeta := by
    intro op hop
    rcases List.mem_append.mp hop with hop | hop
    · exact .inl (mem_indexOps hop)
    · exact .inr (hrest op hop)
  have hother : ∀ k : DbKey, (∀ hash, k ≠ .block hash) → (∀ height, k ≠ .headerHeight height) →
      ¬ k.IsMeta → ∀ op ∈ (entries.flatMap fun e => indexOps e.1 e.2) ++ rest, op.key ≠ k := by
    rintro k hblock hheight hmeta op hop rfl
    rcases hkeys op hop with ⟨e, -, rfl | rfl⟩ | h
    · exact hblock _ rfl
    · exact hheight _ rfl
    · exact hmeta h
  refine ⟨?_, ?_, ?_, ?_, ?_⟩
  · intro hash
    have hputs : ∀ op ∈ (entries.flatMap fun e => indexOps e.1 e.2) ++ rest,
        op.key = .block hash →
          ∃ index, (∃ e ∈ entries, e.1 = hash ∧ e.2 = index) ∧
            op = .put (.block hash) (encode index) := by
      intro op hop hkey
      rcases hkeys op hop with ⟨e, he, rfl | rfl⟩ | h
      · obtain rfl : e.1 = hash := by simpa [WriteOp.key] using hkey
        exact ⟨e.2, ⟨e, he, rfl, rfl⟩, rfl⟩
      · simp [putHash, WriteOp.key] at hkey
      · simp [hkey, DbKey.IsMeta] at h
    rcases getBlockIndex_commit_cases s disk hputs with
      ⟨hne, hget⟩ | ⟨_, ⟨e, he, hhash, rfl⟩, hget⟩
    · refine .inl ⟨?_, hget⟩
      rintro e he rfl
      refine hne (.put (.block e.1) (encode e.2)) ?_ rfl
      exact List.mem_append_left _ (List.mem_flatMap.mpr ⟨e, he, by simp [indexOps]⟩)
    · exact .inr ⟨e, he, hhash, hget⟩
  · intro height
    have hputs : ∀ op ∈ (entries.flatMap fun e => indexOps e.1 e.2) ++ rest,
        op.key = .headerHeight height →
          ∃ hash, (∃ e ∈ entries, e.2.height = height ∧ e.1 = hash) ∧
            op = putHash (.headerHeight height) hash := by
      intro op hop hkey
      rcases hkeys op hop with ⟨e, he, rfl | rfl⟩ | h
      · simp [WriteOp.key] at hkey
      · obtain rfl : e.2.height = height := by simpa [putHash, WriteOp.key] using hkey
        exact ⟨e.1, ⟨e, he, rfl, rfl⟩, rfl⟩
      · simp [hkey, DbKey.IsMeta] at h
    rcases readHash_commit_cases s.db hputs with
      ⟨-, hget⟩ | ⟨_, ⟨e, he, hheight, rfl⟩, hget⟩
    · exact .inl hget
    · exact .inr ⟨e, he, hheight, hget⟩
  · intro height
    exact readHash_commit_of_forall_ne (hother _ (by simp) (by simp) (by simp [DbKey.IsMeta]))
  · exact readHash_commit_of_forall_ne (hother _ (by simp) (by simp) (by simp [DbKey.IsMeta]))
  · intro o
    exact getCoin_commit_of_forall_ne (hother _ (by simp) (by simp) (by simp [DbKey.IsMeta]))

/-! ### The messages that write indexes -/

/-- The number of the file that a restart continues. -/
def Store.lastFile (s : Store) : UInt32 :=
  ((s.db.get .lastFile).map fun b => UInt32.ofNat (ofLeBytes (b.take 4))).getD 0

lemma lastFile_commit_of_forall_ne {s : Store} {disk : Disk} {batch : List WriteOp}
    (h : ∀ op ∈ batch, op.key ≠ .lastFile) :
    Store.lastFile ⟨s.db.commit batch, disk⟩ = s.lastFile := by
  simp only [Store.lastFile, Db.get_commit_of_forall_ne h]

/-- A store with the same database. -/
lemma indexesWritten_of_db_eq {s s' : Store} (h : s'.db = s.db) : IndexesWritten s s' [] := by
  cases s
  cases s'
  subst h
  exact ⟨fun _ => .inl ⟨by simp, rfl⟩, fun _ => .inl rfl, fun _ => rfl, rfl, fun _ => rfl⟩

lemma indexesWritten_handleStoreBlockIndexes (s : Store)
    (indexes : List (BlockHash × BlockIndex)) (bestTip : Option BlockHash) :
    IndexesWritten s (handleStoreBlockIndexes s indexes bestTip) indexes := by
  apply indexesWritten_commit
  intro op hop
  obtain ⟨hash, -, rfl⟩ := List.mem_map.mp hop
  exact .inl rfl

lemma lastFile_handleStoreBlockIndexes (s : Store) (indexes : List (BlockHash × BlockIndex))
    (bestTip : Option BlockHash) :
    (handleStoreBlockIndexes s indexes bestTip).lastFile = s.lastFile := by
  apply lastFile_commit_of_forall_ne
  intro op hop
  rcases List.mem_append.mp hop with hop | hop
  · obtain ⟨e, -, rfl | rfl⟩ := mem_indexOps hop <;> simp [putHash, WriteOp.key]
  · obtain ⟨hash, -, rfl⟩ := List.mem_map.mp hop
    simp [putHash, WriteOp.key]

lemma indexesWritten_handleUpdateHeadersTip (s : Store) (hash : BlockHash) :
    IndexesWritten s (handleUpdateHeadersTip s hash) [] := by
  have hmeta : ∀ op ∈ [putHash .headersTip hash], op.key.IsMeta := by
    intro op hop
    obtain rfl := List.mem_singleton.mp hop
    exact .inl rfl
  exact indexesWritten_commit s s.disk [] hmeta

lemma lastFile_handleUpdateHeadersTip (s : Store) (hash : BlockHash) :
    (handleUpdateHeadersTip s hash).lastFile = s.lastFile := by
  apply lastFile_commit_of_forall_ne
  simp [putHash, WriteOp.key]

/-! ### One index record, or the headers tip -/

section SingleWrites

variable (s : Store) (hash : BlockHash) (index : BlockIndex)

lemma getBlockIndex_handleStoreBlockIndex (hash' : BlockHash) :
    (handleStoreBlockIndex s hash index).getBlockIndex hash' =
      if hash' = hash then .ok (some index) else s.getBlockIndex hash' := by
  have hdec := decodeExact_encode (roundTrips_blockIndex index) "BlockIndex"
  unfold handleStoreBlockIndex Store.getBlockIndex indexOps
  by_cases h : hash' = hash
  · subst h
    simp [Db.commit_cons, Db.commit_nil, Db.get_apply, putHash, WriteOp.key, WriteOp.value, hdec,
      Result.mapError_ok, Except.map]
  · simp [Db.commit_cons, Db.commit_nil, Db.get_apply, putHash, WriteOp.key, Ne.symm h, h]

@[simp] lemma getBlockIndex_handleStoreBlockIndex_self :
    (handleStoreBlockIndex s hash index).getBlockIndex hash = .ok (some index) := by
  rw [getBlockIndex_handleStoreBlockIndex, if_pos rfl]

lemma getBlockHashByHeaderHeight_handleStoreBlockIndex (height : UInt32) :
    (handleStoreBlockIndex s hash index).getBlockHashByHeaderHeight height =
      if height = index.height then some hash else s.getBlockHashByHeaderHeight height := by
  unfold handleStoreBlockIndex Store.getBlockHashByHeaderHeight Store.readHash indexOps
  by_cases h : height = index.height
  · subst h
    simp [Db.commit_cons, Db.commit_nil, Db.get_apply, putHash, WriteOp.key, WriteOp.value]
  · simp [Db.commit_cons, Db.commit_nil, Db.get_apply, putHash, WriteOp.key, Ne.symm h, h]

@[simp] lemma getHeadersTip_handleStoreBlockIndex :
    (handleStoreBlockIndex s hash index).getHeadersTip = s.getHeadersTip :=
  readHash_commit_of_forall_ne (by simp [indexOps, putHash, WriteOp.key])

@[simp] lemma getBestBlock_handleStoreBlockIndex :
    (handleStoreBlockIndex s hash index).getBestBlock = s.getBestBlock :=
  readHash_commit_of_forall_ne (by simp [indexOps, putHash, WriteOp.key])

@[simp] lemma getBlockHash_handleStoreBlockIndex (height : UInt32) :
    (handleStoreBlockIndex s hash index).getBlockHash height = s.getBlockHash height :=
  readHash_commit_of_forall_ne (by simp [indexOps, putHash, WriteOp.key])

@[simp] lemma getHeadersTip_handleUpdateHeadersTip :
    (handleUpdateHeadersTip s hash).getHeadersTip = some hash := by
  simp [handleUpdateHeadersTip, Store.getHeadersTip, Store.readHash, Db.commit_cons, Db.commit_nil,
    Db.get_apply, putHash, WriteOp.key, WriteOp.value]

@[simp] lemma getBlockIndex_handleUpdateHeadersTip (hash' : BlockHash) :
    (handleUpdateHeadersTip s hash).getBlockIndex hash' = s.getBlockIndex hash' := by
  simp [handleUpdateHeadersTip, Store.getBlockIndex, Db.commit_cons, Db.commit_nil, Db.get_apply,
    putHash, WriteOp.key]

@[simp] lemma getBlockHashByHeaderHeight_handleUpdateHeadersTip (height : UInt32) :
    (handleUpdateHeadersTip s hash).getBlockHashByHeaderHeight height =
      s.getBlockHashByHeaderHeight height :=
  readHash_commit_of_forall_ne (by simp [putHash, WriteOp.key])

@[simp] lemma getBlockHash_handleUpdateHeadersTip (height : UInt32) :
    (handleUpdateHeadersTip s hash).getBlockHash height = s.getBlockHash height :=
  readHash_commit_of_forall_ne (by simp [putHash, WriteOp.key])

@[simp] lemma getBestBlock_handleUpdateHeadersTip :
    (handleUpdateHeadersTip s hash).getBestBlock = s.getBestBlock :=
  readHash_commit_of_forall_ne (by simp [putHash, WriteOp.key])

@[simp] lemma getBlockIndex_handleUpdateHeaderIndex (height : UInt32) (hash' : BlockHash) :
    (handleUpdateHeaderIndex s hash height).getBlockIndex hash' = s.getBlockIndex hash' := by
  simp [handleUpdateHeaderIndex, Store.getBlockIndex, Db.commit_cons, Db.commit_nil, Db.get_apply,
    putHash, WriteOp.key]

@[simp] lemma getBlockIndex_handleUpdateActiveTip (hash' : BlockHash) :
    (handleUpdateActiveTip s hash).getBlockIndex hash' = s.getBlockIndex hash' := by
  simp [handleUpdateActiveTip, Store.getBlockIndex, Db.commit_cons, Db.commit_nil, Db.get_apply,
    putHash, WriteOp.key]

@[simp] lemma getHeadersTip_handleUpdateHeaderIndex (height : UInt32) :
    (handleUpdateHeaderIndex s hash height).getHeadersTip = s.getHeadersTip :=
  readHash_commit_of_forall_ne (by simp [putHash, WriteOp.key])

@[simp] lemma getHeadersTip_handleUpdateActiveTip :
    (handleUpdateActiveTip s hash).getHeadersTip = s.getHeadersTip :=
  readHash_commit_of_forall_ne (by simp [putHash, WriteOp.key])

@[simp] lemma getBestBlock_handleUpdateActiveTip :
    (handleUpdateActiveTip s hash).getBestBlock = some hash := by
  simp [handleUpdateActiveTip, Store.getBestBlock, Store.readHash, Db.commit_cons, Db.commit_nil,
    Db.get_apply, putHash, WriteOp.key, WriteOp.value]

/-- The records of a batch are written one after the other. -/
lemma handleStoreBlockIndexes_append (entries : List (BlockHash × BlockIndex)) :
    handleStoreBlockIndexes s (entries ++ [(hash, index)]) none =
      handleStoreBlockIndex (handleStoreBlockIndexes s entries none) hash index := by
  simp [handleStoreBlockIndexes, handleStoreBlockIndex, Db.commit_append]

/-- The headers tip is written last. -/
lemma handleStoreBlockIndexes_some (entries : List (BlockHash × BlockIndex)) :
    handleStoreBlockIndexes s entries (some hash) =
      handleUpdateHeadersTip (handleStoreBlockIndexes s entries none) hash := by
  simp [handleStoreBlockIndexes, handleUpdateHeadersTip, Db.commit_append]

end SingleWrites

/-- What `handle_store_blocks` does when it succeeds. -/
lemma handleStoreBlocks_eq_ok [Sha2] {bm bm' : BlockManager} {s s' : Store}
    {msgs : List StoreBlockMsg} (h : bm.handleStoreBlocks s msgs = .ok (bm', s')) :
    ∃ entries, writeBlocks msgs bm.files s.disk = .ok (entries, bm'.files, s'.disk) ∧
      bm'.pendingUndoIndexes = bm.pendingUndoIndexes ∧ IndexesWritten s s' entries ∧
      s'.lastFile = bm'.files.currentFile := by
  simp only [handleStoreBlocks, bind_eq_ok, pure_eq_ok, Except.ok.injEq, Prod.mk.injEq] at h
  obtain ⟨⟨entries, files, disk⟩, hwrite, rfl, rfl⟩ := h
  refine ⟨entries, hwrite, rfl, ?_, ?_⟩
  · dsimp only
    rw [List.append_assoc]
    apply indexesWritten_commit
    intro op hop
    rcases List.mem_append.mp hop with hop | hop
    · obtain rfl := List.mem_singleton.mp hop
      exact .inr (.inl rfl)
    · obtain ⟨t, -, rfl⟩ := List.mem_map.mp hop
      exact .inr (.inr rfl)
  · have htips : ∀ op ∈ (highestTip bm.lastKnownTipHeight entries none).toList.map
        (fun t => putHash .blockTip t.2), op.key ≠ DbKey.lastFile := by
      intro op hop
      obtain ⟨t, -, rfl⟩ := List.mem_map.mp hop
      simp [putHash, WriteOp.key]
    have hget : (s.db.commit ((entries.flatMap fun e => indexOps e.1 e.2) ++
        .put .lastFile (leBytes 4 files.currentFile.toNat) ::
          (highestTip bm.lastKnownTipHeight entries none).toList.map
            fun t => putHash .blockTip t.2)).get .lastFile =
        some (leBytes 4 files.currentFile.toNat) := Db.get_commit_append_cons htips
    have hbytes : (leBytes 4 files.currentFile.toNat).take 4 =
        leBytes 4 files.currentFile.toNat := List.take_of_length_le (by simp)
    dsimp only
    rw [List.append_assoc, List.singleton_append, Store.lastFile, hget, Option.map_some,
      Option.getD_some, hbytes, ofLeBytes_leBytes 4 _ files.currentFile.toNat_lt]
    simp

/-- What `handle_store_undo` does when it succeeds. -/
lemma exists_of_handleStoreUndo {bm bm' : BlockManager} {s s' : Store} {hash : BlockHash}
    {undo : BlockUndo} (h : bm.handleStoreUndo s hash undo = .ok (bm', s')) :
    ∃ index blockPos size undoPos,
      (bm.pendingUndoIndexes.lookup hash = some index ∨ s.getBlockIndex hash = .ok (some index)) ∧
      index.filePos = some blockPos ∧
      size = (bm.undoSizes.lookup blockPos.file).getD
        (bm.files.undoUsedSize s.disk blockPos.file) ∧
      undoPos = ⟨blockPos.file, UInt32.ofNat (size + 8)⟩ ∧
      bm' = { bm with
        undoSizes := bm.undoSizes.insert blockPos.file (size + 8 + (encode undo).length)
        pendingUndoIndexes :=
          bm.pendingUndoIndexes.insert hash { index with undoPos := some undoPos } } ∧
      s' = { s with disk := { s.disk with
        undo := s.disk.undo.openAndWrite undoFileChunk blockPos.file size
          (recordBytes bm.files.magic.toList (encode undo)) } } := by
  unfold handleStoreUndo at h
  cases hl : bm.pendingUndoIndexes.lookup hash with
  | some index =>
    simp only [hl, pure_eq_ok, ok_bind] at h
    cases hpos : index.filePos with
    | none => simp [hpos] at h
    | some pos =>
      simp only [hpos, Except.ok.injEq, Prod.mk.injEq] at h
      obtain ⟨rfl, rfl⟩ := h
      exact ⟨index, pos, _, _, .inl rfl, hpos, rfl, rfl, by rw [hpos]; rfl, rfl⟩
  | none =>
    cases hget : s.getBlockIndex hash with
    | error e => simp [hl, hget] at h
    | ok found =>
      cases found with
      | none => simp [hl, hget] at h
      | some index =>
        simp only [hl, hget, pure_eq_ok, ok_bind] at h
        cases hpos : index.filePos with
        | none => simp [hpos] at h
        | some pos =>
          simp only [hpos, Except.ok.injEq, Prod.mk.injEq] at h
          obtain ⟨rfl, rfl⟩ := h
          exact ⟨index, pos, _, _, .inr rfl, hpos, rfl, rfl, by rw [hpos]; rfl, rfl⟩

/-- `handle_store_blocks` leaves the headers tip alone. -/
lemma getHeadersTip_handleStoreBlocks [Sha2] {bm bm' : BlockManager} {s s' : Store}
    {msgs : List StoreBlockMsg} (h : bm.handleStoreBlocks s msgs = .ok (bm', s')) :
    s'.getHeadersTip = s.getHeadersTip := by
  simp only [handleStoreBlocks, bind_eq_ok, pure_eq_ok, Except.ok.injEq, Prod.mk.injEq] at h
  obtain ⟨⟨entries, files, disk⟩, -, -, rfl⟩ := h
  apply readHash_commit_of_forall_ne
  intro op hop
  rcases List.mem_append.mp hop with hop | hop
  · rcases List.mem_append.mp hop with hop | hop
    · obtain ⟨e, -, rfl | rfl⟩ := mem_indexOps hop <;> simp [putHash, WriteOp.key]
    · obtain rfl := List.mem_singleton.mp hop
      simp [WriteOp.key]
  · obtain ⟨t, -, rfl⟩ := List.mem_map.mp hop
    simp [putHash, WriteOp.key]

/-! ### The flush of the chain state -/

/-- The store after a flush, apart from its coins. -/
structure ChainstateWritten (s s' : Store) (undoIndexes : HashMap BlockHash BlockIndex)
    (bestBlock : Option BlockHash) (connectedBlocks : List (UInt32 × BlockHash)) : Prop where
  index : ∀ hash, s'.getBlockIndex hash =
    match undoIndexes.lookup hash with
    | some index => .ok (some index)
    | none => s.getBlockIndex hash
  headerHeight : ∀ height,
    s'.getBlockHashByHeaderHeight height = s.getBlockHashByHeaderHeight height
  height : ∀ height,
    (∀ e ∈ connectedBlocks, e.1 ≠ height) ∧ s'.getBlockHash height = s.getBlockHash height ∨
      ∃ e ∈ connectedBlocks, e.1 = height ∧ s'.getBlockHash height = some e.2
  bestBlock : s'.getBestBlock = bestBlock.or s.getBestBlock
  lastFile : s'.lastFile = s.lastFile
  disk : s'.disk = s.disk

/-- The index records that a flush writes are those with new undo positions. -/
lemma ChainstateWritten.indexesUpdated {s s' : Store} {undoIndexes : HashMap BlockHash BlockIndex}
    {bestBlock : Option BlockHash} {connectedBlocks : List (UInt32 × BlockHash)}
    (h : ChainstateWritten s s' undoIndexes bestBlock connectedBlocks) :
    IndexesUpdated s s' (HashMap.iter [] undoIndexes) := by
  intro hash
  have hindex := h.index hash
  cases hl : undoIndexes.lookup hash with
  | none =>
    rw [hl] at hindex
    refine .inl ⟨?_, hindex⟩
    rintro ⟨hash', index⟩ he rfl
    rw [HashMap.mem_iter, hl] at he
    cases he
  | some index =>
    rw [hl] at hindex
    exact .inr ⟨(hash, index), HashMap.mem_iter.mpr hl, rfl, hindex⟩

section Flush

variable (bm : BlockManager) (s : Store) (coinOrder : List OutPoint) (undoOrder : List BlockHash)
  (coins : HashMap OutPoint CoinUpdate) (bestBlock : Option BlockHash)
  (connectedBlocks : List (UInt32 × BlockHash))

/-- The operations of the batch of a flush. -/
lemma mem_utxoBatch {op : WriteOp}
    (h : op ∈ bm.utxoBatch coinOrder undoOrder coins bestBlock connectedBlocks) :
    (∃ o, op.key = .coin o) ∨ (∃ hash, bestBlock = some hash ∧ op = putHash .bestBlock hash) ∨
      (∃ hash index, bm.pendingUndoIndexes.lookup hash = some index ∧
        op = .put (.block hash) (encode index)) ∨
      ∃ e ∈ connectedBlocks, op = putHash (.height e.1) e.2 := by
  simp only [utxoBatch, List.mem_append, List.mem_map] at h
  rcases h with ((⟨e, -, rfl⟩ | ⟨hash, hhash, rfl⟩) | ⟨⟨hash, index⟩, he, rfl⟩) | ⟨e, he, rfl⟩
  · exact .inl ⟨e.1, key_coinOp _ _⟩
  · exact .inr (.inl ⟨hash, by simpa using hhash, rfl⟩)
  · exact .inr (.inr (.inl ⟨hash, index, HashMap.mem_iter.mp he, rfl⟩))
  · exact .inr (.inr (.inr ⟨e, he, rfl⟩))

lemma chainstateWritten_handleUpdateUtxoSet :
    ChainstateWritten s
      (bm.handleUpdateUtxoSet s coinOrder undoOrder coins bestBlock connectedBlocks).2
      bm.pendingUndoIndexes bestBlock connectedBlocks := by
  have hops := fun op => @mem_utxoBatch bm coinOrder undoOrder coins bestBlock connectedBlocks op
  refine ⟨?_, ?_, ?_, ?_, ?_, rfl⟩
  · intro hash
    have hputs : ∀ op ∈ bm.utxoBatch coinOrder undoOrder coins bestBlock connectedBlocks,
        op.key = .block hash →
          ∃ index, bm.pendingUndoIndexes.lookup hash = some index ∧
            op = .put (.block hash) (encode index) := by
      intro op hop hkey
      rcases hops op hop with ⟨o, ho⟩ | ⟨hash', -, rfl⟩ | ⟨hash', index, hl, rfl⟩ | ⟨e, -, rfl⟩
      · simp [hkey] at ho
      · simp [putHash, WriteOp.key] at hkey
      · obtain rfl : hash' = hash := by simpa [WriteOp.key] using hkey
        exact ⟨index, hl, rfl⟩
      · simp [putHash, WriteOp.key] at hkey
    rcases getBlockIndex_commit_cases s s.disk hputs with ⟨hne, hget⟩ | ⟨index, hl, hget⟩
    · cases hl : bm.pendingUndoIndexes.lookup hash with
      | none => exact hget
      | some index =>
        refine absurd rfl (hne (.put (.block hash) (encode index)) ?_)
        simp only [utxoBatch, List.mem_append, List.mem_map]
        exact .inl (.inr ⟨(hash, index), HashMap.mem_iter.mpr hl, rfl⟩)
    · rw [hl]
      exact hget
  · intro height
    apply readHash_commit_of_forall_ne
    intro op hop hkey
    rcases hops op hop with ⟨o, ho⟩ | ⟨hash', -, rfl⟩ | ⟨hash', index, hl, rfl⟩ | ⟨e, -, rfl⟩
    · simp [hkey] at ho
    all_goals simp [putHash, WriteOp.key] at hkey
  · intro height
    have hputs : ∀ op ∈ bm.utxoBatch coinOrder undoOrder coins bestBlock connectedBlocks,
        op.key = .height height →
          ∃ hash, (height, hash) ∈ connectedBlocks ∧ op = putHash (.height height) hash := by
      intro op hop hkey
      rcases hops op hop with ⟨o, ho⟩ | ⟨hash', -, rfl⟩ | ⟨hash', index, hl, rfl⟩ | ⟨e, he, rfl⟩
      · simp [hkey] at ho
      · simp [putHash, WriteOp.key] at hkey
      · simp [WriteOp.key] at hkey
      · obtain rfl : e.1 = height := by simpa [putHash, WriteOp.key] using hkey
        exact ⟨e.2, he, rfl⟩
    rcases readHash_commit_cases s.db hputs with ⟨hne, hget⟩ | ⟨hash, he, hget⟩
    · refine .inl ⟨?_, hget⟩
      rintro e he rfl
      refine hne (putHash (.height e.1) e.2) ?_ rfl
      simp only [utxoBatch, List.mem_append, List.mem_map]
      exact .inr ⟨e, he, rfl⟩
    · exact .inr ⟨_, he, rfl, hget⟩
  · have hputs : ∀ op ∈ bm.utxoBatch coinOrder undoOrder coins bestBlock connectedBlocks,
        op.key = .bestBlock → ∃ hash, bestBlock = some hash ∧ op = putHash .bestBlock hash := by
      intro op hop hkey
      rcases hops op hop with ⟨o, ho⟩ | ⟨hash', hbest, rfl⟩ | ⟨hash', index, hl, rfl⟩ | ⟨e, -, rfl⟩
      · simp [hkey] at ho
      · exact ⟨hash', hbest, rfl⟩
      · simp [WriteOp.key] at hkey
      · simp [putHash, WriteOp.key] at hkey
    rcases readHash_commit_cases s.db hputs with ⟨hne, hget⟩ | ⟨hash, hbest, hget⟩
    · cases hbest : bestBlock with
      | none =>
        subst hbest
        exact hget
      | some hash =>
        refine absurd rfl (hne (putHash .bestBlock hash) ?_)
        simp only [utxoBatch, List.mem_append, List.mem_map, hbest]
        exact .inl (.inl (.inr ⟨hash, by simp, rfl⟩))
    · subst hbest
      exact hget
  · apply lastFile_commit_of_forall_ne
    intro op hop hkey
    rcases hops op hop with ⟨o, ho⟩ | ⟨hash', -, rfl⟩ | ⟨hash', index, hl, rfl⟩ | ⟨e, -, rfl⟩
    · simp [hkey] at ho
    all_goals simp [putHash, WriteOp.key] at hkey

end Flush

/-! ### What the index knows -/

namespace Store

/-- The hash is indexed at a height. -/
def HasHeight (s : Store) (hash : BlockHash) (height : BlockHeight) : Prop :=
  ∃ index, s.getBlockIndex hash = .ok (some index) ∧ index.height = height

/-- The hash is indexed with the position of its block. -/
def HasBody (s : Store) (hash : BlockHash) : Prop :=
  ∃ index, s.getBlockIndex hash = .ok (some index) ∧ index.filePos.isSome

lemma HasHeight.unique {s : Store} {hash : BlockHash} {height height' : BlockHeight}
    (h : s.HasHeight hash height) (h' : s.HasHeight hash height') : height = height' := by
  obtain ⟨index, hindex, rfl⟩ := h
  obtain ⟨index', hindex', rfl⟩ := h'
  rw [hindex] at hindex'
  cases hindex'
  rfl

/-- Heights stay and bodies are not lost. -/
structure Grows (s s' : Store) : Prop where
  height : ∀ hash height, s.HasHeight hash height → s'.HasHeight hash height
  body : ∀ hash, s.HasBody hash → s'.HasBody hash

/-- Entries for hashes that are new, or that are indexed at the same height and get a body. -/
def Extending (s : Store) (entries : List (BlockHash × BlockIndex)) : Prop :=
  ∀ e ∈ entries, s.getBlockIndex e.1 = .ok none ∨
    s.HasHeight e.1 e.2.height ∧ e.2.filePos.isSome

lemma Grows.refl (s : Store) : s.Grows s := ⟨fun _ _ h => h, fun _ h => h⟩

lemma grows_of_indexesUpdated {s s' : Store} {entries : List (BlockHash × BlockIndex)}
    (h : IndexesUpdated s s' entries) (hext : s.Extending entries) : s.Grows s' where
  height := by
    intro hash height hheight
    rcases h hash with ⟨-, hsame⟩ | ⟨e, he, rfl, hnew⟩
    · obtain ⟨index, hindex, hh⟩ := hheight
      exact ⟨index, hsame.trans hindex, hh⟩
    · rcases hext e he with hnone | ⟨hold, -⟩
      · obtain ⟨index, hindex, -⟩ := hheight
        simp [hindex] at hnone
      · exact ⟨e.2, hnew, hold.unique hheight⟩
  body := by
    intro hash hbody
    rcases h hash with ⟨-, hsame⟩ | ⟨e, he, rfl, hnew⟩
    · obtain ⟨index, hindex, hpos⟩ := hbody
      exact ⟨index, hsame.trans hindex, hpos⟩
    · rcases hext e he with hnone | ⟨-, hpos⟩
      · obtain ⟨index, hindex, -⟩ := hbody
        simp [hindex] at hnone
      · exact ⟨e.2, hnew, hpos⟩

/-- Entries for indexed hashes leave the others unindexed. -/
lemma getBlockIndex_eq_none_of_indexesUpdated {s s' : Store}
    {entries : List (BlockHash × BlockIndex)} (h : IndexesUpdated s s' entries)
    (hknown : ∀ e ∈ entries, ∃ height, s.HasHeight e.1 height) {hash : BlockHash}
    (hnone : s.getBlockIndex hash = .ok none) : s'.getBlockIndex hash = .ok none := by
  rcases h hash with ⟨-, hsame⟩ | ⟨e, he, rfl, -⟩
  · rw [hsame, hnone]
  · obtain ⟨height, index, hindex, -⟩ := hknown e he
    simp [hindex] at hnone

end Store

end Bitcrab
