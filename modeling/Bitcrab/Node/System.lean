import Bitcrab.Lib.Run
import Bitcrab.Node.Chainstate

/-!
# Runs of a node

A run is a sequence of events: messages from peers, messages handled by the two actors, the
stages of an activation between two waits for the storage actor, and crashes. The actors take their
messages in any order that the code allows, so that every interleaving is a run.

The history of a run records what the claims about it speak of and no part of the node needs: the
blocks connected to the chain in memory, how many of them have been flushed, and the block bodies
accepted from peers.
-/

namespace Bitcrab

/-- What can happen to a node. -/
inductive Event where
  /-- A `headers` message arrives. -/
  | recvHeaders (headers : List BlockHeader)
  /-- `process_headers` looks at its next header. -/
  | acceptHeader
  /-- The chainstate actor stores the new headers. -/
  | storeHeaders
  /-- A `block` message arrives. -/
  | recvBlock (block : Block)
  /-- The storage actor takes some of its `StoreBlock` messages. -/
  | storeBlocks (count : Nat)
  /-- The chainstate actor takes a `ProcessBlockDownloaded` message. -/
  | blockDownloaded (i : Nat)
  /-- The chainstate actor takes an `ActivateBestChain` message. -/
  | activate
  | selectBlock (recentlyFailed : Bool)
  | connect (completion : List Nat)
  | storeUndo
  | flush (coinOrder : List OutPoint) (undoOrder : List BlockHash) (trimOrder : List OutPoint)
  | repairTip
  /-- The chainstate actor takes a `LoadGenesis` message. -/
  | loadGenesis
  /-- A crash, and the restart after it. -/
  | crash

namespace Node

variable [Sha2] [ScriptVerifier] (cfg : Config) (n : Node)

/-! ### Messages from peers -/

/-- `process_headers`, up to its loop. The lock of the peer manager admits one message. -/
def recvHeaders (headers : List BlockHeader) : Option Node :=
  match n.headers with
  | some _ => none
  | none => some { n with headers := some (HeaderBatch.new n.store headers) }

/-- A round of `process_headers`; an error drops the whole message. -/
def acceptHeader : Option Node :=
  match n.headers with
  | none => none
  | some batch => some { n with headers := (batch.acceptHeader cfg.params n.store).toOption }

/-- The end of `process_headers`. -/
def storeHeaders : Option Node :=
  match n.phase, n.headers with
  | .idle, some batch =>
    if batch.remaining.isEmpty then
      if batch.pending.isEmpty then some { n with headers := none }
      else some { n with
        store := BlockManager.handleStoreBlockIndexes n.store batch.pending batch.bestTip
        headers := none }
    else none
  | _, _ => none

/-- The index at which `process_block` accepts a block. -/
def acceptedIndex (block : Block) : Option BlockIndex :=
  match checkBlock block cfg.params with
  | .error _ => none
  | .ok () => n.store.findBlockIndex block.header.blockHash

/-- `process_block`, up to the answer of the storage actor. A block that is not accepted changes
nothing. -/
def recvBlock (block : Block) : Node :=
  match n.acceptedIndex cfg block with
  | none => n
  | some index =>
    match index.filePos with
    | none => { n with storeQueue := n.storeQueue ++
        [⟨block.header, index.height, index.chainWork, serialize block⟩] }
    | some _ => { n with downloaded := n.downloaded ++ [(block.header.blockHash, index.height)] }

/-! ### The actors -/

/-- The storage actor handles `StoreBlock` messages, at most 64 at a time; then `process_block`
sends what it has downloaded to the chainstate actor. -/
def storeBlocks (count : Nat) : Option Node :=
  let msgs := n.storeQueue.take count
  if msgs.isEmpty ∨ count > 64 then none
  else
    match n.blockManager.handleStoreBlocks n.store msgs with
    | .error _ => none
    | .ok (blockManager, store) => some { n with
        blockManager
        store
        storeQueue := n.storeQueue.drop count
        downloaded := n.downloaded ++ msgs.map fun msg => (msg.header.blockHash, msg.height) }

/-- `process_block_downloaded`. -/
def blockDownloaded (i : Nat) : Option Node :=
  match n.phase, n.downloaded[i]? with
  | .idle, some (hash, height) => some { n with
      downloaded := n.downloaded.eraseIdx i
      chainstate := { n.chainstate with
        waitingBlocks := n.chainstate.waitingBlocks.insert height hash } }
  | _, _ => none

/-- The start of `activate_best_chain`. -/
def activate : Option Node :=
  match n.phase with
  | .idle =>
    match n.beginActivation cfg with
    | .error _ => some n
    | .ok a => some { n with phase := .activating a }
  | _ => none

/-- One step of a node; `none` if the event is not possible. -/
def step : Event → Option Node
  | .recvHeaders headers => n.recvHeaders headers
  | .acceptHeader => n.acceptHeader cfg
  | .storeHeaders => n.storeHeaders
  | .recvBlock block => some (n.recvBlock cfg block)
  | .storeBlocks count => n.storeBlocks count
  | .blockDownloaded i => n.blockDownloaded i
  | .activate => n.activate cfg
  | .selectBlock recentlyFailed =>
    match n.phase with
    | .activating a => n.selectBlock a recentlyFailed
    | _ => none
  | .connect completion =>
    match n.phase with
    | .connecting a hash block => some (n.connect cfg a hash block completion)
    | _ => none
  | .storeUndo =>
    match n.phase with
    | .storingUndo a hash block undo => some (n.storeUndo a hash block undo)
    | _ => none
  | .flush coinOrder undoOrder trimOrder =>
    match n.phase with
    | .flushing a => some (n.flushChainstate a coinOrder undoOrder trimOrder)
    | _ => none
  | .repairTip =>
    match n.phase with
    | .repairing [] => some { n with phase := .idle }
    | .repairing (tip :: tips) => some { n with
        store := BlockManager.handleUpdateHeadersTip n.store tip
        phase := .repairing tips }
    | _ => none
  | .loadGenesis =>
    match n.phase with
    | .idle => some (n.loadGenesisBlock cfg)
    | _ => none
  | .crash => some (Node.start cfg n.store)

end Node

/-! ### Histories -/

/-- What has happened in a run. -/
structure History where
  /-- The blocks connected to the chain, from height 1 on. A crash loses those not flushed. -/
  connected : List Block
  /-- How many of them had been connected at the last flush. -/
  flushed : Nat
  /-- The blocks accepted from peers, with their heights. -/
  accepted : List (BlockHeight × Block)

/-- The history before the first event. -/
def History.empty : History := ⟨[], 0, []⟩

/-- A node and its history. -/
structure System where
  node : Node
  history : History

section Runs

variable [Sha2] [ScriptVerifier] (cfg : Config)

/-- The history after an event. -/
def History.next (h : History) (n : Node) : Event → History
  | .recvBlock block =>
    match n.acceptedIndex cfg block with
    | none => h
    | some index => { h with accepted := h.accepted ++ [(index.height, block)] }
  | .connect completion =>
    match n.phase with
    | .connecting a _ block =>
      match (n.connectCall cfg a block completion).1 with
      | .ok _ => { h with connected := h.connected ++ [block] }
      | .error _ => h
    | _ => h
  | .flush _ _ _ => { h with flushed := h.connected.length }
  | .crash => { h with connected := h.connected.take h.flushed }
  | _ => h

/-- A new node, after its first `load_genesis`. -/
def System.init : System := ⟨Node.init cfg, History.empty⟩

/-- One step of a node, recorded. -/
def System.step (s : System) (e : Event) : Option System :=
  (s.node.step cfg e).map fun n => ⟨n, s.history.next cfg s.node e⟩

end Runs

end Bitcrab
