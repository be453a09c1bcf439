import Bitcrab.Lib.Counters
import Bitcrab.Types.Hash

/-!
# Blocks in flight (`net/p2p/sync/sync_manager.rs`)

`SyncManager` knows from which peer each requested block is awaited, and counts the blocks of each
peer in a second map. Every method holds the lock of `download_state` once, so a method is one step.
Peers are their socket addresses; times are in nanoseconds, and the iteration orders of hash maps
are arguments.
-/

namespace Bitcrab

/-- An entry of `in_flight_blocks`: the peer, the time of the request and the height. -/
structure InFlight (Peer : Type) where
  peer : Peer
  requestedAt : Nat
  height : UInt32

/-- `SyncDownloadState`. -/
structure SyncDownloadState (Peer : Type) where
  inFlightBlocks : HashMap BlockHash (InFlight Peer)
  peerWorkload : HashMap Peer Nat
  failedBlockPeers : HashMap BlockHash (List Peer)

namespace SyncDownloadState

variable {Peer : Type} [DecidableEq Peer]

/-- `SyncDownloadState::default`. -/
def empty : SyncDownloadState Peer := ⟨∅, ∅, ∅⟩

/-! ### Methods -/

/-- `mark_block_in_flight`. -/
def markBlockInFlight (d : SyncDownloadState Peer) (hash : BlockHash) (peer : Peer)
    (height : UInt32) (now : Nat) : SyncDownloadState Peer :=
  { d with
    inFlightBlocks := d.inFlightBlocks.insert hash ⟨peer, now, height⟩
    peerWorkload := d.peerWorkload.increment peer }

/-- `mark_block_received`; the peer that delivered the block is only logged. -/
def markBlockReceived (d : SyncDownloadState Peer) (hash : BlockHash) (_peer : Peer) :
    SyncDownloadState Peer :=
  match d.inFlightBlocks.lookup hash with
  | none => d
  | some block =>
    { d with
      inFlightBlocks := d.inFlightBlocks.erase hash
      peerWorkload := d.peerWorkload.modify block.peer fun count =>
        if count > 0 then count - 1 else count }

omit [DecidableEq Peer] in
/-- `is_block_in_flight`. -/
def isBlockInFlight (d : SyncDownloadState Peer) (hash : BlockHash) : Bool :=
  (d.inFlightBlocks.lookup hash).isSome

/-- `get_peer_workload`. -/
def getPeerWorkload (d : SyncDownloadState Peer) (peer : Peer) : Nat :=
  d.peerWorkload.countAt peer

omit [DecidableEq Peer] in
/-- `record_block_stumble`. -/
def recordBlockStumble (d : SyncDownloadState Peer) (hash : BlockHash) (peer : Peer) :
    SyncDownloadState Peer :=
  { d with
    failedBlockPeers :=
      d.failedBlockPeers.insert hash (((d.failedBlockPeers.lookup hash).getD []) ++ [peer]) }

/-- `can_peer_download_block`. -/
def canPeerDownloadBlock (d : SyncDownloadState Peer) (hash : BlockHash) (peer : Peer) : Bool :=
  match d.failedBlockPeers.lookup hash with
  | some peers => !peers.contains peer
  | none => true

omit [DecidableEq Peer] in
/-- The loop of `get_bottleneck_info`: the first entry of the lowest height. -/
def lowestBlock (entries : List (BlockHash × InFlight Peer)) : Option (BlockHash × InFlight Peer) :=
  entries.foldl (fun bottleneck e =>
    match bottleneck with
    | some best => if e.2.height < best.2.height then some e else bottleneck
    | none => some e) none

omit [DecidableEq Peer] in
/-- `get_bottleneck_info`, with the seconds since the request. -/
def getBottleneckInfo (d : SyncDownloadState Peer) (order : List BlockHash) (now : Nat) :
    Option (BlockHash × Peer × Nat) :=
  (lowestBlock (HashMap.iter order d.inFlightBlocks)).map fun e =>
    (e.1, e.2.peer, (now - e.2.requestedAt) / 1000000000)

omit [DecidableEq Peer] in
/-- `clear_in_flight`. -/
def clearInFlight (d : SyncDownloadState Peer) : SyncDownloadState Peer :=
  { d with inFlightBlocks := ∅, peerWorkload := ∅ }

/-- The entries that `prune_timeouts` drops. -/
def timedOutBlocks (d : SyncDownloadState Peer) (order : List BlockHash) (timeout now : Nat) :
    List (BlockHash × InFlight Peer) :=
  (HashMap.iter order d.inFlightBlocks).filter fun e =>
    !decide (now - e.2.requestedAt < timeout)

/-- `prune_timeouts`, with the peers that timed out. -/
def pruneTimeouts (d : SyncDownloadState Peer) (order : List BlockHash) (peers : List Peer)
    (timeout now : Nat) : List Peer × SyncDownloadState Peer :=
  let timedOut := d.timedOutBlocks order timeout now
  let timedOutPeers := timedOut.map fun e => e.2.peer
  (timedOutPeers,
    { inFlightBlocks := d.inFlightBlocks.retain fun _ block =>
        decide (now - block.requestedAt < timeout)
      peerWorkload := HashMap.subtractAll peers (HashMap.tally timedOutPeers) d.peerWorkload
      failedBlockPeers := timedOut.foldl (fun failed e =>
        let failedPeers := (failed.lookup e.1).getD []
        failed.insert e.1 (if failedPeers.contains e.2.peer then failedPeers
          else failedPeers ++ [e.2.peer])) d.failedBlockPeers })

/-- `recalculate_workloads`. -/
def recalculateWorkloads (d : SyncDownloadState Peer) (order : List BlockHash) :
    SyncDownloadState Peer :=
  { d with
    peerWorkload := HashMap.tally ((HashMap.iter order d.inFlightBlocks).map fun e => e.2.peer) }

/-- `on_peer_disconnect`. -/
def onPeerDisconnect (d : SyncDownloadState Peer) (peer : Peer) : SyncDownloadState Peer :=
  { d with
    inFlightBlocks := d.inFlightBlocks.retain fun _ block => block.peer ≠ peer
    peerWorkload := d.peerWorkload.erase peer }

omit [DecidableEq Peer] in
/-- `clear_blacklist`. -/
def clearBlacklist (d : SyncDownloadState Peer) : SyncDownloadState Peer :=
  { d with failedBlockPeers := ∅ }

/-! ### Workloads -/

/-- The number of blocks in flight from a peer. -/
def inFlightFrom (d : SyncDownloadState Peer) (peer : Peer) : Nat :=
  HashMap.assigned InFlight.peer d.inFlightBlocks peer

/-- The workloads count the blocks in flight. -/
def Tracked (d : SyncDownloadState Peer) : Prop :=
  ∀ peer, d.getPeerWorkload peer = d.inFlightFrom peer

/-- What every method but `mark_block_in_flight` does: it keeps the workloads right and puts no
block in flight. -/
structure Releases (d d' : SyncDownloadState Peer) : Prop where
  tracked : d.Tracked → d'.Tracked
  inFlight : ∀ hash, hash ∈ d'.inFlightBlocks → hash ∈ d.inFlightBlocks
  le : ∀ peer, d'.inFlightFrom peer ≤ d.inFlightFrom peer

variable {d d' : SyncDownloadState Peer}

lemma tracked_empty : (empty : SyncDownloadState Peer).Tracked := fun _ => rfl

/-- A method that leaves both maps alone. -/
lemma releases_of_eq (hblocks : d'.inFlightBlocks = d.inFlightBlocks)
    (hworkload : d'.peerWorkload = d.peerWorkload) : d.Releases d' where
  tracked := by
    intro h peer
    simpa only [getPeerWorkload, inFlightFrom, hblocks, hworkload] using h peer
  inFlight := by
    intro hash hmem
    rwa [hblocks] at hmem
  le := by
    intro peer
    simp only [inFlightFrom, hblocks, Nat.le_refl]

lemma releases_recordBlockStumble (d : SyncDownloadState Peer) (hash : BlockHash) (peer : Peer) :
    d.Releases (d.recordBlockStumble hash peer) :=
  releases_of_eq rfl rfl

lemma releases_clearBlacklist (d : SyncDownloadState Peer) : d.Releases d.clearBlacklist :=
  releases_of_eq rfl rfl

lemma releases_clearInFlight (d : SyncDownloadState Peer) : d.Releases d.clearInFlight where
  tracked := fun _ _ => rfl
  inFlight := fun hash hmem => absurd hmem (AList.notMem_empty hash)
  le := fun _ => Nat.zero_le _

/-- A block that is received is taken from the peer it was awaited from, whoever sent it. -/
lemma releases_markBlockReceived (d : SyncDownloadState Peer) (hash : BlockHash) (peer : Peer) :
    d.Releases (d.markBlockReceived hash peer) := by
  unfold markBlockReceived
  cases hlookup : d.inFlightBlocks.lookup hash with
  | none => exact releases_of_eq rfl rfl
  | some block =>
    have hcount := HashMap.assigned_erase InFlight.peer hlookup
    have hsub : (fun count => if count > 0 then count - 1 else count) = (· - 1) := by
      funext count
      split_ifs with hpos
      · rfl
      · omega
    refine ⟨?_, ?_, ?_⟩
    · intro h q
      have hq := h q
      simp only [getPeerWorkload, inFlightFrom] at hq ⊢
      rw [hsub, HashMap.countAt_modify_sub, hq, hcount q, Nat.add_sub_cancel]
    · exact fun hash' hmem => (AList.mem_erase.mp hmem).2
    · intro q
      simp only [inFlightFrom]
      rw [hcount q]
      exact Nat.le_add_right _ _

lemma releases_pruneTimeouts (d : SyncDownloadState Peer) (order : List BlockHash)
    (peers : List Peer) (timeout now : Nat) :
    d.Releases (d.pruneTimeouts order peers timeout now).2 where
  tracked := by
    intro h q
    have hq := h q
    simp only [getPeerWorkload, inFlightFrom, pruneTimeouts] at hq ⊢
    rw [HashMap.countAt_subtractAll, HashMap.countAt_tally, hq,
      HashMap.assigned_retain InFlight.peer order fun _ block =>
        decide (now - block.requestedAt < timeout)]
    exact Nat.add_sub_cancel _ _
  inFlight := fun _ hmem => HashMap.mem_of_mem_retain hmem
  le := fun q => HashMap.assigned_retain_le _ _ _ q

lemma releases_recalculateWorkloads (d : SyncDownloadState Peer) (order : List BlockHash) :
    d.Releases (d.recalculateWorkloads order) where
  tracked := by
    intro _ q
    simp only [getPeerWorkload, inFlightFrom, recalculateWorkloads]
    rw [HashMap.countAt_tally, HashMap.count_map_iter]
  inFlight := fun _ hmem => hmem
  le := fun _ => Nat.le_refl _

lemma releases_onPeerDisconnect (d : SyncDownloadState Peer) (peer : Peer) :
    d.Releases (d.onPeerDisconnect peer) where
  tracked := by
    intro h q
    have hq := h q
    simp only [getPeerWorkload, inFlightFrom, onPeerDisconnect] at hq ⊢
    rw [HashMap.countAt_erase, HashMap.assigned_retain_ne, hq]
  inFlight := fun _ hmem => HashMap.mem_of_mem_retain hmem
  le := fun q => HashMap.assigned_retain_le _ _ _ q

/-- A block that was not in flight is one more for its peer. -/
lemma inFlightFrom_markBlockInFlight {hash : BlockHash} (h : hash ∉ d.inFlightBlocks) (peer : Peer)
    (height : UInt32) (now : Nat) (q : Peer) :
    (d.markBlockInFlight hash peer height now).inFlightFrom q =
      d.inFlightFrom q + if peer = q then 1 else 0 :=
  HashMap.assigned_insert InFlight.peer h ⟨peer, now, height⟩ q

lemma Tracked.markBlockInFlight (h : d.Tracked) {hash : BlockHash}
    (hfresh : hash ∉ d.inFlightBlocks)
    (peer : Peer) (height : UInt32) (now : Nat) :
    (d.markBlockInFlight hash peer height now).Tracked := by
  intro q
  rw [inFlightFrom_markBlockInFlight hfresh, ← h q]
  exact HashMap.countAt_increment d.peerWorkload peer q

lemma mem_markBlockInFlight {hash hash' : BlockHash} {peer : Peer} {height : UInt32} {now : Nat} :
    hash' ∈ (d.markBlockInFlight hash peer height now).inFlightBlocks ↔
      hash' = hash ∨ hash' ∈ d.inFlightBlocks :=
  AList.mem_insert _

end SyncDownloadState

end Bitcrab
