import Bitcrab.Lib.HashMap
import Bitcrab.Lib.Result
import Bitcrab.Storage.BlockFile
import Bitcrab.Storage.Db

/-!
# The storage actor (`storage/block_manager.rs`, `storage/store.rs`)

Reads go to the database and the files directly; every write is a message handled by the actor,
one at a time. A handler takes the persistent store and the actor's own memory and returns both;
each of its write batches is committed as a whole.
-/

namespace Bitcrab

open Bytes

/-- What survives a restart. -/
structure Store where
  db : Db
  disk : Disk

/-! ### Reads -/

namespace Store

/-- A hash stored as a value. -/
def readHash (db : Db) (key : DbKey) : Option BlockHash :=
  (db.get key).map fun bytes => ⟨toBytes32 bytes⟩

/-- `Store::get_block_index`. -/
def getBlockIndex (s : Store) (hash : BlockHash) : Except StoreError (Option BlockIndex) :=
  match s.db.get (.block hash) with
  | none => .ok none
  | some bytes => (decodeExact BlockIndex bytes "BlockIndex").mapError .decode |>.map some

/-- `Store::get_headers_tip`. -/
def getHeadersTip (s : Store) : Option BlockHash := readHash s.db .headersTip

/-- `Store::get_best_block`. -/
def getBestBlock (s : Store) : Option BlockHash := readHash s.db .bestBlock

/-- `Store::get_block_tip`. -/
def getBlockTip (s : Store) : Option BlockHash := readHash s.db .blockTip

/-- `Store::get_block_hash`: the `H` table. -/
def getBlockHash (s : Store) (height : UInt32) : Option BlockHash := readHash s.db (.height height)

/-- `Store::get_block_hash_by_header_height`: the `z` table. -/
def getBlockHashByHeaderHeight (s : Store) (height : UInt32) : Option BlockHash :=
  readHash s.db (.headerHeight height)

/-- `Store::get_coin`. -/
def getCoin (s : Store) (outpoint : OutPoint) : Except StoreError (Option Coin) :=
  match s.db.get (.coin outpoint) with
  | none => .ok none
  | some bytes => (decodeExact Coin bytes "Coin").mapError .decode |>.map some

/-- `Store::get_block`. -/
def getBlock (s : Store) (hash : BlockHash) : Except StoreError (Option (List UInt8)) := do
  match ← s.getBlockIndex hash with
  | none => return none
  | some index =>
    match index.filePos with
    | none => return none
    | some pos => return some (← readRecord s.disk.blocks pos)

end Store

/-- `CoinUpdate`. -/
inductive CoinUpdate where
  | add (coin : Coin)
  | remove
  deriving DecidableEq

/-! ### The actor -/

/-- `BlockManager`: the memory of the actor. -/
structure BlockManager where
  files : BlockFileManager
  lastKnownTipHeight : UInt32
  undoSizes : HashMap UInt32 Nat
  pendingUndoIndexes : HashMap BlockHash BlockIndex

/-- The payload of a `StoreBlock` message. -/
structure StoreBlockMsg where
  header : BlockHeader
  height : BlockHeight
  chainWork : Hash256
  rawBlock : List UInt8

namespace BlockManager

/-- `BlockManager::new` on the files of `Store::new`, with the tip height that `run` reads. -/
def new (store : Store) (magic : List.Vector UInt8 4) : BlockManager where
  files := BlockFileManager.new store.disk magic
    (((store.db.get .lastFile).map fun b => UInt32.ofNat (ofLeBytes (b.take 4))).getD 0)
  lastKnownTipHeight :=
    match store.getBlockTip with
    | none => 0
    | some tip =>
      match store.getBlockIndex tip with
      | .ok (some index) => index.height
      | _ => 0
  undoSizes := ∅
  pendingUndoIndexes := ∅

/-- Put a hash under a key. -/
def putHash (key : DbKey) (hash : BlockHash) : WriteOp := .put key hash.bytes.toList

/-- The records of a block index: the index itself, and its hash in the `z` table. -/
def indexOps (hash : BlockHash) (index : BlockIndex) : List WriteOp :=
  [.put (.block hash) (encode index), putHash (.headerHeight index.height) hash]

/-- `handle_store_block_index`. -/
def handleStoreBlockIndex (store : Store) (hash : BlockHash) (index : BlockIndex) : Store :=
  { store with db := store.db.commit (indexOps hash index) }

/-- `handle_store_block_indexes`. -/
def handleStoreBlockIndexes (store : Store) (indexes : List (BlockHash × BlockIndex))
    (bestTip : Option BlockHash) : Store :=
  let batch := (indexes.flatMap fun e => indexOps e.1 e.2) ++
    bestTip.toList.map (putHash .headersTip)
  { store with db := store.db.commit batch }

/-- `handle_update_active_tip`. -/
def handleUpdateActiveTip (store : Store) (hash : BlockHash) : Store :=
  { store with db := store.db.commit [putHash .bestBlock hash] }

/-- `handle_update_headers_tip`. -/
def handleUpdateHeadersTip (store : Store) (hash : BlockHash) : Store :=
  { store with db := store.db.commit [putHash .headersTip hash] }

/-- `handle_update_header_index`. -/
def handleUpdateHeaderIndex (store : Store) (hash : BlockHash) (height : UInt32) : Store :=
  { store with db := store.db.commit [putHash (.headerHeight height) hash] }

section StoreBlocks

variable [Sha2]

/-- The first loop of `handle_store_blocks`: append the blocks to the files. -/
def writeBlocks : List StoreBlockMsg → BlockFileManager → Disk →
    Except StoreError (List (BlockHash × BlockIndex) × BlockFileManager × Disk)
  | [], files, disk => .ok ([], files, disk)
  | msg :: msgs, files, disk => do
    let (pos, files, disk) ← files.writeBlock disk msg.rawBlock
    let (entries, files, disk) ← writeBlocks msgs files disk
    return ((msg.header.blockHash, ⟨msg.header, msg.height, msg.chainWork, some pos, none⟩) ::
      entries, files, disk)

/-- The tip search of `handle_store_blocks`. -/
def highestTip (lastKnown : UInt32) : List (BlockHash × BlockIndex) → Option (UInt32 × BlockHash) →
    Option (UInt32 × BlockHash)
  | [], tip => tip
  | (hash, index) :: entries, tip =>
    if index.height ≥ lastKnown ∧ tip.all (fun t => index.height > t.1) then
      highestTip lastKnown entries (some (index.height, hash))
    else highestTip lastKnown entries tip

/-- `handle_store_blocks`. -/
def handleStoreBlocks (bm : BlockManager) (store : Store) (blocks : List StoreBlockMsg) :
    Except StoreError (BlockManager × Store) := do
  let (entries, files, disk) ← writeBlocks blocks bm.files store.disk
  let tip := highestTip bm.lastKnownTipHeight entries none
  let batch := (entries.flatMap fun e => indexOps e.1 e.2) ++
    [WriteOp.put .lastFile (leBytes 4 files.currentFile.toNat)] ++
    tip.toList.map fun t => putHash .blockTip t.2
  return ({ bm with files, lastKnownTipHeight := (tip.map Prod.fst).getD bm.lastKnownTipHeight },
    ⟨store.db.commit batch, disk⟩)

end StoreBlocks

/-- `handle_store_undo`. -/
def handleStoreUndo (bm : BlockManager) (store : Store) (blockHash : BlockHash)
    (undoData : BlockUndo) : Except StoreError (BlockManager × Store) := do
  let index ← match bm.pendingUndoIndexes.lookup blockHash with
    | some index => pure index
    | none =>
      match store.getBlockIndex blockHash with
      | .ok (some index) => pure index
      | .ok none => throw (.blockIndexMissing blockHash)
      | .error e => throw e
  match index.filePos with
  | none => throw (.blockDataPositionMissing blockHash)
  | some blockPos =>
    let currentSize := (bm.undoSizes.lookup blockPos.file).getD
      (bm.files.undoUsedSize store.disk blockPos.file)
    let (undoPos, newSize, disk) :=
      bm.files.writeUndo store.disk blockPos.file (encode undoData) currentSize
    return ({ bm with
      undoSizes := bm.undoSizes.insert blockPos.file newSize
      pendingUndoIndexes :=
        bm.pendingUndoIndexes.insert blockHash { index with undoPos := some undoPos } },
      { store with disk })

/-- The write of one coin update. -/
def coinOp (outpoint : OutPoint) : CoinUpdate → WriteOp
  | .add coin => .put (.coin outpoint) (encode coin)
  | .remove => .delete (.coin outpoint)

/-- The batch of `handle_update_utxo_set`; the orders in which the two hash maps are iterated are
parameters. -/
def utxoBatch (bm : BlockManager) (coinOrder : List OutPoint) (undoOrder : List BlockHash)
    (coins : HashMap OutPoint CoinUpdate) (bestBlock : Option BlockHash)
    (connectedBlocks : List (UInt32 × BlockHash)) : List WriteOp :=
  (HashMap.iter coinOrder coins).map (fun e => coinOp e.1 e.2) ++
    bestBlock.toList.map (putHash .bestBlock) ++
    (HashMap.iter undoOrder bm.pendingUndoIndexes).map
      (fun e => WriteOp.put (.block e.1) (encode e.2)) ++
    connectedBlocks.map fun e => putHash (.height e.1) e.2

/-- `handle_update_utxo_set`. -/
def handleUpdateUtxoSet (bm : BlockManager) (store : Store) (coinOrder : List OutPoint)
    (undoOrder : List BlockHash) (coins : HashMap OutPoint CoinUpdate)
    (bestBlock : Option BlockHash) (connectedBlocks : List (UInt32 × BlockHash)) :
    BlockManager × Store :=
  ({ bm with
      lastKnownTipHeight := connectedBlocks.foldl
        (fun tip e => if e.1 ≥ tip then e.1 else tip) bm.lastKnownTipHeight
      pendingUndoIndexes := ∅ },
    { store with
      db := store.db.commit (bm.utxoBatch coinOrder undoOrder coins bestBlock connectedBlocks) })

/-! ### Coins after an update -/

lemma key_coinOp (o : OutPoint) (u : CoinUpdate) : (coinOp o u).key = .coin o := by
  cases u <;> rfl

/-- The operations of the batch on coins are those of the updates. -/
lemma mem_utxoBatch_coin {bm : BlockManager} {coinOrder : List OutPoint}
    {undoOrder : List BlockHash} {coins : HashMap OutPoint CoinUpdate}
    {bestBlock : Option BlockHash} {connectedBlocks : List (UInt32 × BlockHash)} {op : WriteOp}
    {o : OutPoint}
    (hop : op ∈ bm.utxoBatch coinOrder undoOrder coins bestBlock connectedBlocks)
    (hkey : op.key = .coin o) : ∃ u, coins.lookup o = some u ∧ op = coinOp o u := by
  simp only [utxoBatch, List.mem_append, List.mem_map] at hop
  rcases hop with ((⟨⟨o', u⟩, hmem, rfl⟩ | ⟨hash, -, rfl⟩) | ⟨⟨hash, index⟩, -, rfl⟩) |
    ⟨⟨height, hash⟩, -, rfl⟩
  · rw [key_coinOp] at hkey
    obtain rfl : o' = o := by simpa using hkey
    exact ⟨u, HashMap.mem_iter.mp hmem, rfl⟩
  · simp [putHash, WriteOp.key] at hkey
  · simp [WriteOp.key] at hkey
  · simp [putHash, WriteOp.key] at hkey

/-- What the batch leaves at a coin: the value of its update, or the old value. -/
lemma get_utxoBatch_coin (bm : BlockManager) (db : Db) (coinOrder : List OutPoint)
    (undoOrder : List BlockHash) (coins : HashMap OutPoint CoinUpdate)
    (bestBlock : Option BlockHash) (connectedBlocks : List (UInt32 × BlockHash)) (o : OutPoint) :
    (db.commit (bm.utxoBatch coinOrder undoOrder coins bestBlock connectedBlocks)).get (.coin o) =
      match coins.lookup o with
      | some u => (coinOp o u).value
      | none => db.get (.coin o) := by
  rcases db.get_commit_cases (bm.utxoBatch coinOrder undoOrder coins bestBlock connectedBlocks)
    (.coin o) with ⟨hne, hget⟩ | ⟨op, hop, hkey, hget⟩
  · rw [hget]
    cases hu : coins.lookup o with
    | none => rfl
    | some u =>
      -- the update would be an operation of the batch
      refine absurd (key_coinOp o u) (hne _ ?_)
      simp only [utxoBatch, List.mem_append, List.mem_map]
      exact .inl (.inl (.inl ⟨(o, u), HashMap.mem_iter.mpr hu, rfl⟩))
  · obtain ⟨u, hu, rfl⟩ := mem_utxoBatch_coin hop hkey
    rw [hget, hu]

/-- The store reads a coin update back: `handle_update_utxo_set` acts on the coins as a map. -/
lemma getCoin_handleUpdateUtxoSet (bm : BlockManager) (store : Store)
    (coinOrder : List OutPoint) (undoOrder : List BlockHash)
    (coins : HashMap OutPoint CoinUpdate) (bestBlock : Option BlockHash)
    (connectedBlocks : List (UInt32 × BlockHash)) (o : OutPoint)
    (hsize : ∀ coin, coins.lookup o = some (.add coin) →
      coin.output.scriptPubkey.bytes.length ≤ maxWireAllocation) :
    (bm.handleUpdateUtxoSet store coinOrder undoOrder coins bestBlock connectedBlocks).2.getCoin o =
      match coins.lookup o with
      | some (.add coin) => .ok (some coin)
      | some .remove => .ok none
      | none => store.getCoin o := by
  unfold handleUpdateUtxoSet Store.getCoin
  simp only [get_utxoBatch_coin]
  cases hu : coins.lookup o with
  | none => rfl
  | some u =>
    cases u with
    | remove => rfl
    | add coin =>
      have hdec := decodeExact_encode (roundTrips_coin (hsize coin hu)) "Coin"
      simp [coinOp, WriteOp.value, hdec, Result.mapError_ok, Except.map]

end BlockManager

end Bitcrab
