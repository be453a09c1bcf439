import Bitcrab.Node.Headers

/-!
# The node and its chainstate actor (`consensus/chainstate.rs`)

The state of a node is the store, what the storage actor, the chainstate actor and the message
handlers keep in memory, and the messages on their way. The chainstate actor handles one message at
a time, and waits for the storage actor inside of it: `Phase` says where it is. The texts of its log
messages and errors are not modelled, nor is `is_activating`, which a single actor never finds set.
-/

namespace Bitcrab

/-- `FLUSH_INTERVAL_BLOCKS`. -/
def flushIntervalBlocks : Nat := 1024

/-- `ACTIVATE_BATCH_SIZE`. -/
def activateBatchSize : Nat := 128

/-- What a node is started with. -/
structure Config where
  params : ChainParams
  magic : List.Vector UInt8 4
  dbcacheBytes : Nat
  engine : ConsensusEngine
  scriptChecks : Bool

/-- The memory of `ChainstateManager`. The time of the last failure is not kept: whether it is
recent is a choice of the step that asks for it. -/
structure ChainstateManager where
  waitingBlocks : HashMap BlockHeight BlockHash
  cache : CacheState
  blocksSinceFlush : Nat
  activeTip : Option (BlockHash × UInt32)
  lastFailedActivation : Option (BlockHeight × BlockHash)

/-- The local variables of `activate_best_chain_inner`. -/
structure Activation where
  currentTip : BlockIndex
  totalConnected : Nat
  assumeValidHeight : Option UInt32

/-- Where the chainstate actor is. -/
inductive Phase where
  /-- In `verify_and_repair_tips`, with updates of the headers tip to send. -/
  | repairing (tips : List BlockHash)
  | idle
  /-- At the head of the activation loop. -/
  | activating (a : Activation)
  /-- At the call of `connect_block`. -/
  | connecting (a : Activation) (hash : BlockHash) (block : Block)
  /-- Waiting for `store_undo`. -/
  | storingUndo (a : Activation) (hash : BlockHash) (block : Block) (undo : BlockUndo)
  /-- Waiting for the flush. -/
  | flushing (a : Activation)

/-- The state of a node. -/
structure Node where
  store : Store
  blockManager : BlockManager
  /-- `StoreBlock` messages on their way to the storage actor. -/
  storeQueue : List StoreBlockMsg
  /-- The `headers` message being processed. -/
  headers : Option HeaderBatch
  /-- `ProcessBlockDownloaded` messages on their way to the chainstate actor. -/
  downloaded : List (BlockHash × BlockHeight)
  chainstate : ChainstateManager
  phase : Phase

/-- The coins cache, over the store. -/
def Node.cacheView (n : Node) : CoinsViewCache Store :=
  { n.chainstate.cache with base := n.store }

/-! ### Startup -/

section Startup

variable (cfg : Config) (store : Store)

/-- The forward scan of `verify_and_repair_tips`. -/
def scanHeaders (limit : UInt32) :
    Nat → UInt32 → Option BlockHash → Hash256 → Option BlockHash
  | 0, _, found, _ => found
  | fuel + 1, scoutHeight, found, bestWork =>
    match store.getBlockHash scoutHeight with
    | none => found
    | some hash =>
      let (found, bestWork) :=
        match store.findBlockIndex hash with
        | none => (found, bestWork)
        | some index =>
          if index.chainWork.gt bestWork then (some hash, index.chainWork) else (found, bestWork)
      let scoutHeight := scoutHeight + 1
      if scoutHeight > limit then found
      else scanHeaders limit fuel scoutHeight found bestWork

/-- The index of a tip, if there is a tip. -/
def tipIndex (tip : Option BlockHash) : Except StoreError (Option BlockIndex) :=
  match tip with
  | none => .ok none
  | some hash => store.getBlockIndex hash

/-- The updates of the headers tip that `verify_and_repair_tips` sends. -/
def repairTips : Except StoreError (List BlockHash) := do
  let headerIndex ← tipIndex store store.getHeadersTip
  let validatedIndex ← tipIndex store store.getBestBlock
  let headerHeight : UInt32 := (headerIndex.map (·.height)).getD 0
  let validatedHeight : UInt32 := (validatedIndex.map (·.height)).getD 0
  let headerWork := (headerIndex.map (·.chainWork)).getD Digest.zero
  let found := scanHeaders store (headerHeight + 500000) 500000 (headerHeight + 1) none headerWork
  let behind := if headerHeight < validatedHeight then store.getBestBlock else none
  let far := if headerHeight > validatedHeight + 2000000 then store.getBestBlock else none
  return found.toList ++ behind.toList ++ far.toList

/-- `ChainstateManager::new`. -/
def ChainstateManager.new : ChainstateManager where
  waitingBlocks := ∅
  cache := (CoinsViewCache.new store
    (min (cfg.dbcacheBytes * 3) (2 ^ 64 - 1) / 4)).toCacheState
  blocksSinceFlush := 0
  activeTip := store.getBestBlock.bind fun hash =>
    (store.findBlockIndex hash).map fun index => (hash, index.height)
  lastFailedActivation := none

/-- A node started on a store. -/
def Node.start : Node where
  store
  blockManager := BlockManager.new store cfg.magic
  storeQueue := []
  headers := none
  downloaded := []
  chainstate := ChainstateManager.new cfg store
  phase := .repairing ((repairTips store).toOption.getD [])

variable [Sha2]

/-- `load_genesis_block`. -/
def Node.loadGenesisBlock (n : Node) : Node :=
  let hash := cfg.params.genesisHash
  match n.store.getBlockIndex hash with
  | .error _ => n
  | .ok (some _) => n
  | .ok none =>
    let store := BlockManager.handleStoreBlockIndex n.store hash cfg.params.genesisIndex
    let store := BlockManager.handleUpdateHeadersTip store hash
    let store := BlockManager.handleUpdateHeaderIndex store hash 0
    let store := BlockManager.handleUpdateActiveTip store hash
    { n with
      store
      chainstate := { n.chainstate with
        cache := (n.cacheView.setBestBlock hash 0).toCacheState
        activeTip := some (hash, 0) } }

/-- A store without data. -/
def Store.empty : Store := ⟨fun _ _ => none, ⟨fun _ => none, fun _ => none⟩⟩

/-- A new node, after its first `load_genesis`. -/
def Node.init : Node :=
  Node.loadGenesisBlock cfg { Node.start cfg Store.empty with phase := .idle }

end Startup

/-! ### Activation -/

/-- The activation after a block has been connected. -/
def Activation.advance (a : Activation) (block : Block) : Activation where
  currentTip := {
    header := block.header
    height := a.currentTip.height + 1
    chainWork := addChainWork a.currentTip.chainWork (calculateBlockWork block.header.bits)
    filePos := none
    undoPos := none }
  totalConnected := a.totalConnected + 1
  assumeValidHeight := a.assumeValidHeight

namespace Node

variable (cfg : Config) (n : Node)

/-- The height of the block named by `default_assume_valid`. -/
def assumeValidHeight : Except StoreError (Option UInt32) :=
  let assumeValid := cfg.params.consensus.defaultAssumeValid
  if assumeValid.isZero then .ok none
  else (n.store.getBlockIndex assumeValid).map fun index => index.map (·.height)

/-- The start of `activate_best_chain_inner`. -/
def beginActivation [Sha2] : Except StoreError Activation := do
  let assumeValidHeight ← n.assumeValidHeight cfg
  let tipHash := (n.cacheView.getBestBlock.or n.store.getBestBlock).getD cfg.params.genesisHash
  match ← n.store.getBlockIndex tipHash with
  | none => throw (.blockIndexMissing tipHash)
  | some currentTip => return ⟨currentTip, 0, assumeValidHeight⟩

/-- The hash that the activation loop tries at a height: a downloaded block, then the `H` table,
then the `z` table. -/
def nextHash (height : BlockHeight) : Option BlockHash :=
  (n.chainstate.waitingBlocks.lookup height).or
    ((n.store.getBlockHash height).or (n.store.getBlockHashByHeaderHeight height))

/-- The block that the activation loop reads for a hash. -/
def readBlock (hash : BlockHash) : Option Block :=
  match n.store.getBlock hash with
  | .ok (some raw) =>
    match (decode (Decoder.new raw) : Except DecodeError (Block × Decoder)) with
    | .ok (block, _) => some block
    | .error _ => none
  | _ => none

/-- A round of the activation loop up to the call of `connect_block`. The height of the tip
overflowing `u32` is a panic of the checked profile and has no continuation here. -/
def selectBlock (a : Activation) (recentlyFailed : Bool) : Option Node :=
  if a.totalConnected ≥ activateBatchSize then some { n with phase := .idle }
  else if a.currentTip.height = 0xFFFFFFFF then none
  else
    let nextHeight := a.currentTip.height + 1
    let hash := n.nextHash nextHeight
    let chainstate := { n.chainstate with
      waitingBlocks := n.chainstate.waitingBlocks.erase nextHeight }
    match hash with
    | none => some { n with chainstate, phase := .idle }
    | some hash =>
      if recentlyFailed ∧ n.chainstate.lastFailedActivation = some (nextHeight, hash) then
        some { n with chainstate, phase := .idle }
      else
        match n.readBlock hash with
        | none => some { n with chainstate, phase := .idle }
        | some block => some { n with chainstate, phase := .connecting a hash block }

/-- The call of `connect_block`. -/
def connectCall [Sha2] [ScriptVerifier] (a : Activation) (block : Block)
    (completion : List Nat) :
    Except ValidationError (Amount × BlockUndo) × CoinsViewCache Store :=
  let nextHeight := a.currentTip.height + 1
  connectBlock block nextHeight a.currentTip n.cacheView cfg.params n.store.getBlockIndexByHeight
    (cfg.scriptChecks && a.assumeValidHeight.all fun height => nextHeight > height) cfg.engine
    completion

/-- What follows the call of `connect_block`. -/
def connect [Sha2] [ScriptVerifier] (a : Activation) (hash : BlockHash) (block : Block)
    (completion : List Nat) : Node :=
  match n.connectCall cfg a block completion with
  | (.ok (_, undo), view) =>
    { n with
      chainstate := { n.chainstate with
        cache := view.toCacheState
        lastFailedActivation := none }
      phase := .storingUndo a hash block undo }
  | (.error _, view) =>
    { n with
      chainstate := { n.chainstate with
        cache := view.toCacheState
        lastFailedActivation := some (a.currentTip.height + 1, hash) }
      phase := .idle }

/-- `store_undo` and what follows it, up to the flush. -/
def storeUndo (a : Activation) (hash : BlockHash) (block : Block) (undo : BlockUndo) : Node :=
  match n.blockManager.handleStoreUndo n.store hash undo with
  | .error _ => { n with phase := .idle }
  | .ok (blockManager, store) =>
    let nextHeight := a.currentTip.height + 1
    let blocksSinceFlush := n.chainstate.blocksSinceFlush + 1
    let a := a.advance block
    { n with
      blockManager
      store
      chainstate := { n.chainstate with
        cache := (n.cacheView.setBestBlock hash nextHeight).toCacheState
        blocksSinceFlush
        activeTip := some (hash, nextHeight) }
      phase := if blocksSinceFlush ≥ flushIntervalBlocks then .flushing a else .activating a }

/-- The periodic flush. -/
def flushChainstate (a : Activation) (coinOrder : List OutPoint) (undoOrder : List BlockHash)
    (trimOrder : List OutPoint) : Node :=
  let (blockManager, view) := flush n.blockManager n.cacheView coinOrder undoOrder trimOrder
  { n with
    blockManager
    store := view.base
    chainstate := { n.chainstate with cache := view.toCacheState, blocksSinceFlush := 0 }
    phase := .activating a }

end Node

end Bitcrab
