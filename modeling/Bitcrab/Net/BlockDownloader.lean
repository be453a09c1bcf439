import Bitcrab.Lib.Run
import Bitcrab.Net.SyncManager

/-!
# Rounds of block downloads (`net/p2p/sync/block_downloader.rs`)

`coordinate_downloads` runs as one task beside those of the peers. Between any two calls of
`SyncManager` the other tasks may call it too, so a round is a program counter with the locals of
the function, and each of its steps makes at most one such call. What a step asks of the chain, the
peer table and the clocks is an argument.
-/

namespace Bitcrab

/-- `MAX_BLOCKS_IN_TRANSIT_PER_PEER`. -/
def maxBlocksInTransitPerPeer : Nat := 64

/-- `BLOCK_REQUEST_TIMEOUT`, 30 seconds. -/
def blockRequestTimeout : Nat := 30 * 1000000000

/-- The locals of the loop over the peers: `missing`, `b_height`, the peers that are still to come
and `assigned_this_round`. -/
structure Window (Peer : Type) where
  missing : List BlockHash
  bHeight : UInt32
  peers : List Peer
  assigned : List BlockHash

/-- Where `coordinate_downloads` is. -/
inductive Round (Peer : Type) where
  | idle
  | prune
  | bottleneck
  | stumble (hash : BlockHash) (peer : Peer)
  | rotate (hash : BlockHash) (peer : Peer)
  | tips
  | stall (hHeight bHeight : UInt32)
  | unblacklist (bHeight : UInt32) (now : Nat)
  | window (bHeight : UInt32)
  | nextPeer (w : Window Peer)
  | collect (w : Window Peer) (peer : Peer) (capacity : Nat) (rest toRequest : List BlockHash)
  | allowed (w : Window Peer) (peer : Peer) (capacity : Nat) (hash : BlockHash)
      (rest toRequest : List BlockHash)
  | mark (w : Window Peer) (peer : Peer) (toRequest rest : List BlockHash)
  | send (w : Window Peer) (peer : Peer) (toRequest : List BlockHash)
  | unmark (w : Window Peer) (peer : Peer) (rest : List BlockHash)
  | disconnect (w : Window Peer) (peer : Peer)

/-- What a step may ask: the clocks, iteration orders, the tips, `get_next_block_hashes`, the peers
with `get_peers(Some(9))` and `get_peers(Some(1))`, and whether a message could be sent. -/
structure Answers (Peer : Type) where
  now : Nat := 0
  unixTime : Nat := 0
  order : List BlockHash := []
  peerOrder : List Peer := []
  headersTip : BlockHash × UInt32
  blocksTip : BlockHash × UInt32
  missing : List BlockHash
  fullPeers : List Peer
  networkPeers : List Peer := []
  sent : Bool := true

/-- `BlockDownloader`, with the downloads of its `SyncManager`. -/
structure BlockDownloader (Peer : Type) where
  downloads : SyncDownloadState Peer
  lastActivationProgress : Nat
  lastTipHeight : UInt32
  lastBlacklistClearHeight : UInt32
  round : Round Peer

namespace BlockDownloader

variable {Peer : Type} [DecidableEq Peer]

omit [DecidableEq Peer] in
/-- `BlockDownloader::new`, at a time. -/
def new (unixTime : Nat) : BlockDownloader Peer :=
  ⟨.empty, unixTime, 0, 0, .idle⟩

omit [DecidableEq Peer] in
/-- After the choice of the blocks for a peer. -/
def request (w : Window Peer) (peer : Peer) (toRequest : List BlockHash) : Round Peer :=
  if toRequest.isEmpty then .nextPeer w else .mark w peer toRequest toRequest

/-- One step of `coordinate_downloads`. -/
def advance (a : Answers Peer) (b : BlockDownloader Peer) : BlockDownloader Peer :=
  match b.round with
  | .idle => { b with downloads := b.downloads.recalculateWorkloads a.order, round := .prune }
  | .prune =>
    { b with
      downloads := (b.downloads.pruneTimeouts a.order a.peerOrder blockRequestTimeout a.now).2
      round := .bottleneck }
  | .bottleneck =>
    match b.downloads.getBottleneckInfo a.order a.now with
    | some (hash, peer, duration) =>
      { b with round := if duration ≥ 60 then .stumble hash peer else .tips }
    | none => { b with round := .tips }
  | .stumble hash peer =>
    { b with downloads := b.downloads.recordBlockStumble hash peer, round := .rotate hash peer }
  | .rotate hash peer =>
    { b with downloads := b.downloads.markBlockReceived hash peer, round := .tips }
  | .tips =>
    let round := if a.headersTip.1 = a.blocksTip.1 ∨ a.headersTip.1 = Digest.zero then .idle
      else .stall a.headersTip.2 a.blocksTip.2
    if a.blocksTip.2.toNat - b.lastBlacklistClearHeight.toNat ≥ 500 then
      { b with
        downloads := b.downloads.clearBlacklist
        lastBlacklistClearHeight := a.blocksTip.2
        round }
    else { b with round }
  | .stall hHeight bHeight =>
    if bHeight > b.lastTipHeight then
      { b with
        lastTipHeight := bHeight
        lastActivationProgress := a.unixTime
        round := .window bHeight }
    else if hHeight > bHeight ∧ a.unixTime - b.lastActivationProgress > 120 then
      { b with downloads := b.downloads.clearInFlight, round := .unblacklist bHeight a.unixTime }
    else { b with round := .window bHeight }
  | .unblacklist bHeight now =>
    { b with
      downloads := b.downloads.clearBlacklist
      lastActivationProgress := now
      round := .window bHeight }
  | .window bHeight =>
    let peers := if a.fullPeers.isEmpty then a.networkPeers else a.fullPeers
    { b with
      round := if a.missing.isEmpty ∨ peers.isEmpty then .idle
        else .nextPeer ⟨a.missing, bHeight, peers, []⟩ }
  | .nextPeer w =>
    match w.peers with
    | [] => { b with round := .idle }
    | peer :: peers =>
      let w := { w with peers }
      let load := b.downloads.getPeerWorkload peer
      { b with
        round := if load ≥ maxBlocksInTransitPerPeer then .nextPeer w
          else .collect w peer (maxBlocksInTransitPerPeer - load) w.missing [] }
  | .collect w peer capacity rest toRequest =>
    match rest with
    | [] => { b with round := request w peer toRequest }
    | hash :: rest =>
      { b with
        round := if toRequest.length ≥ capacity then request w peer toRequest
          else if !b.downloads.isBlockInFlight hash ∧ hash ∉ w.assigned then
            .allowed w peer capacity hash rest toRequest
          else .collect w peer capacity rest toRequest }
  | .allowed w peer capacity hash rest toRequest =>
    { b with
      round := if b.downloads.canPeerDownloadBlock hash peer then
          .collect { w with assigned := hash :: w.assigned } peer capacity rest
            (toRequest ++ [hash])
        else .collect w peer capacity rest toRequest }
  | .mark w peer toRequest rest =>
    match rest with
    | [] => { b with round := .send w peer toRequest }
    | hash :: rest =>
      let offset := (w.missing.findIdx? (· = hash)).getD 0
      let height := w.bHeight + 1 + offset.toUInt32
      { b with
        downloads := b.downloads.markBlockInFlight hash peer height a.now
        round := .mark w peer toRequest rest }
  | .send w peer toRequest =>
    { b with round := if a.sent then .nextPeer w else .unmark w peer toRequest }
  | .unmark w peer rest =>
    match rest with
    | [] => { b with round := .disconnect w peer }
    | hash :: rest =>
      { b with
        downloads := b.downloads.markBlockReceived hash peer
        round := .unmark w peer rest }
  | .disconnect w peer =>
    { b with downloads := b.downloads.onPeerDisconnect peer, round := .nextPeer w }

/-- The calls of `SyncManager` by other tasks, and the steps of the round. -/
inductive Event (Peer : Type) where
  | markBlockInFlight (hash : BlockHash) (peer : Peer) (height : UInt32) (now : Nat)
  | markBlockReceived (hash : BlockHash) (peer : Peer)
  | pruneTimeouts (order : List BlockHash) (peers : List Peer) (timeout now : Nat)
  | onPeerDisconnect (peer : Peer)
  | clearInFlight
  | recalculateWorkloads (order : List BlockHash)
  | recordBlockStumble (hash : BlockHash) (peer : Peer)
  | clearBlacklist
  | advance (a : Answers Peer)

/-- One event. -/
def step (b : BlockDownloader Peer) : Event Peer → Option (BlockDownloader Peer)
  | .markBlockInFlight hash peer height now =>
    some { b with downloads := b.downloads.markBlockInFlight hash peer height now }
  | .markBlockReceived hash peer =>
    some { b with downloads := b.downloads.markBlockReceived hash peer }
  | .pruneTimeouts order peers timeout now =>
    some { b with downloads := (b.downloads.pruneTimeouts order peers timeout now).2 }
  | .onPeerDisconnect peer => some { b with downloads := b.downloads.onPeerDisconnect peer }
  | .clearInFlight => some { b with downloads := b.downloads.clearInFlight }
  | .recalculateWorkloads order =>
    some { b with downloads := b.downloads.recalculateWorkloads order }
  | .recordBlockStumble hash peer =>
    some { b with downloads := b.downloads.recordBlockStumble hash peer }
  | .clearBlacklist => some { b with downloads := b.downloads.clearBlacklist }
  | .advance a => some (b.advance a)

end BlockDownloader

/-! ### What a round has in hand -/

namespace Round

variable {Peer : Type}

/-- The blocks that the round has chosen and not marked yet. -/
def chosen : Round Peer → List BlockHash
  | collect _ _ _ _ toRequest => toRequest
  | allowed _ _ _ hash _ toRequest => hash :: toRequest
  | mark _ _ _ rest => rest
  | _ => []

/-- The blocks that the round may still mark for a peer. -/
def reserved [DecidableEq Peer] : Round Peer → Peer → Nat
  | collect _ peer capacity _ _, q => if peer = q then capacity else 0
  | allowed _ peer capacity _ _ _, q => if peer = q then capacity else 0
  | mark _ peer _ rest, q => if peer = q then rest.length else 0
  | _, _ => 0

/-- The round is not choosing blocks for a peer or marking them. -/
def Quiet : Round Peer → Prop
  | collect .. | allowed .. | mark .. => False
  | _ => True

/-- The blocks that are chosen fit into the capacity and are noted in `assigned_this_round`. -/
def WellFormed : Round Peer → Prop
  | collect w _ capacity _ toRequest => toRequest.length ≤ capacity ∧ toRequest ⊆ w.assigned
  | allowed w _ capacity hash _ toRequest =>
    toRequest.length < capacity ∧ toRequest ⊆ w.assigned ∧ hash ∉ w.assigned
  | _ => True

variable {r : Round Peer}

lemma Quiet.chosen_eq (h : r.Quiet) : r.chosen = [] := by
  cases r <;> first | rfl | exact h.elim

lemma Quiet.wellFormed (h : r.Quiet) : r.WellFormed := by
  cases r <;> trivial

lemma Quiet.reserved_eq [DecidableEq Peer] (h : r.Quiet) (q : Peer) : r.reserved q = 0 := by
  cases r <;> first | rfl | exact h.elim

end Round

namespace BlockDownloader

variable {Peer : Type} [DecidableEq Peer] {b b' : BlockDownloader Peer}

/-- What holds in every state: the workloads are right, and the blocks that the round is about to
mark are different ones and not in flight. -/
structure Inv (b : BlockDownloader Peer) : Prop where
  tracked : b.downloads.Tracked
  fresh : ∀ hash ∈ b.round.chosen, hash ∉ b.downloads.inFlightBlocks
  nodup : b.round.chosen.Nodup
  wellFormed : b.round.WellFormed

/-- No peer has more blocks in flight than allowed, those that the round may still mark included. -/
def Capped (b : BlockDownloader Peer) : Prop :=
  ∀ peer, b.downloads.inFlightFrom peer + b.round.reserved peer ≤ maxBlocksInTransitPerPeer

/-- A step that puts no block in flight. -/
lemma Inv.of_releases (h : b.Inv) (hreleases : b.downloads.Releases b'.downloads)
    (hfresh : ∀ hash ∈ b'.round.chosen, hash ∉ b.downloads.inFlightBlocks)
    (hnodup : b'.round.chosen.Nodup) (hwellFormed : b'.round.WellFormed) : b'.Inv where
  tracked := hreleases.tracked h.tracked
  fresh := fun hash hmem hin => hfresh hash hmem (hreleases.inFlight hash hin)
  nodup := hnodup
  wellFormed := hwellFormed

/-- A call of another task that puts no block in flight. -/
lemma Inv.of_call (h : b.Inv) {d : SyncDownloadState Peer} (hreleases : b.downloads.Releases d) :
    ({ b with downloads := d } : BlockDownloader Peer).Inv :=
  h.of_releases hreleases h.fresh h.nodup h.wellFormed

/-- A step after which the round has nothing in hand. -/
lemma Inv.of_quiet (h : b.Inv) (hreleases : b.downloads.Releases b'.downloads)
    (hquiet : b'.round.Quiet) : b'.Inv :=
  h.of_releases hreleases (by simp [hquiet.chosen_eq]) (by simp [hquiet.chosen_eq])
    hquiet.wellFormed

lemma Capped.of_releases (h : b.Capped) (hreleases : b.downloads.Releases b'.downloads)
    (hle : ∀ peer, b'.round.reserved peer ≤ b.round.reserved peer) : b'.Capped := by
  intro peer
  calc b'.downloads.inFlightFrom peer + b'.round.reserved peer
      ≤ b.downloads.inFlightFrom peer + b.round.reserved peer :=
        Nat.add_le_add (hreleases.le peer) (hle peer)
    _ ≤ maxBlocksInTransitPerPeer := h peer

lemma Capped.of_quiet (h : b.Capped) (hreleases : b.downloads.Releases b'.downloads)
    (hquiet : b'.round.Quiet) : b'.Capped := by
  refine h.of_releases hreleases fun peer => ?_
  rw [hquiet.reserved_eq]
  exact Nat.zero_le _

lemma releases_self (d : SyncDownloadState Peer) : d.Releases d :=
  SyncDownloadState.releases_of_eq rfl rfl

/-- Where the round marks a block: the first of the rest, for its peer. -/
lemma Inv.mark {w : Window Peer} {peer : Peer} {toRequest rest : List BlockHash} {hash : BlockHash}
    (h : b.Inv) (hround : b.round = .mark w peer toRequest (hash :: rest)) (height : UInt32)
    (now : Nat) :
    ({ b with
      downloads := b.downloads.markBlockInFlight hash peer height now
      round := .mark w peer toRequest rest } : BlockDownloader Peer).Inv := by
  have hfresh := h.fresh
  have hnodup := h.nodup
  rw [hround] at hfresh hnodup
  obtain ⟨hnotMem, hnodup⟩ := List.nodup_cons.mp hnodup
  refine ⟨h.tracked.markBlockInFlight (hfresh hash List.mem_cons_self) peer height now, ?_, hnodup,
    trivial⟩
  intro hash' hmem hin
  rcases SyncDownloadState.mem_markBlockInFlight.mp hin with rfl | hin
  · exact hnotMem hmem
  · exact hfresh hash' (List.mem_cons_of_mem _ hmem) hin

lemma Capped.mark {w : Window Peer} {peer : Peer} {toRequest rest : List BlockHash}
    {hash : BlockHash} (h : b.Capped) (hround : b.round = .mark w peer toRequest (hash :: rest))
    (hfresh : hash ∉ b.downloads.inFlightBlocks) (height : UInt32) (now : Nat) :
    ({ b with
      downloads := b.downloads.markBlockInFlight hash peer height now
      round := .mark w peer toRequest rest } : BlockDownloader Peer).Capped := by
  intro q
  have hq := h q
  rw [hround] at hq
  dsimp only
  rw [SyncDownloadState.inFlightFrom_markBlockInFlight hfresh]
  simp only [Round.reserved, List.length_cons] at hq ⊢
  split_ifs at hq ⊢ <;> omega

omit [DecidableEq Peer] in
lemma chosen_request {w : Window Peer} {peer : Peer} {toRequest : List BlockHash} :
    (request w peer toRequest).chosen = toRequest := by
  unfold request
  split_ifs with hempty
  · exact (List.isEmpty_iff.mp hempty).symm
  · rfl

omit [DecidableEq Peer] in
lemma wellFormed_request {w : Window Peer} {peer : Peer} {toRequest : List BlockHash} :
    (request w peer toRequest).WellFormed := by
  unfold request
  split_ifs <;> trivial

lemma reserved_request {w : Window Peer} {peer : Peer} {toRequest : List BlockHash} {capacity : Nat}
    (h : toRequest.length ≤ capacity) (q : Peer) :
    (request w peer toRequest).reserved q ≤ if peer = q then capacity else 0 := by
  unfold request
  split_ifs <;> simp_all [Round.reserved]

/-- A block of the window is passed over, or chosen, or the choice ends. -/
lemma Inv.collect {w : Window Peer} {peer : Peer} {capacity : Nat} {rest toRequest : List BlockHash}
    (h : b.Inv) (hround : b.round = .collect w peer capacity rest toRequest) (a : Answers Peer) :
    (b.advance a).Inv := by
  have hfresh := h.fresh
  have hnodup := h.nodup
  have hwellFormed := h.wellFormed
  rw [hround] at hfresh hnodup hwellFormed
  have hend : ({ b with round := request w peer toRequest } : BlockDownloader Peer).Inv := by
    refine h.of_releases (releases_self _) ?_ ?_ wellFormed_request
    · rwa [chosen_request]
    · rwa [chosen_request]
  simp only [advance, hround]
  cases rest with
  | nil => exact hend
  | cons hash rest =>
    dsimp only
    split_ifs with hfull hnew
    · exact hend
    · obtain ⟨hin, hassigned⟩ := hnew
      have hnotMem : hash ∉ b.downloads.inFlightBlocks := by
        rw [← AList.lookup_isSome]
        simpa [SyncDownloadState.isBlockInFlight] using hin
      refine h.of_releases (releases_self _) ?_ ?_
        ⟨Nat.lt_of_not_le hfull, hwellFormed.2, hassigned⟩
      · exact List.forall_mem_cons.mpr ⟨hnotMem, hfresh⟩
      · exact List.nodup_cons.mpr ⟨fun hmem => hassigned (hwellFormed.2 hmem), hnodup⟩
    · exact h.of_releases (releases_self _) hfresh hnodup hwellFormed

/-- The peer may be asked for the block or not. -/
lemma Inv.allowed {w : Window Peer} {peer : Peer} {capacity : Nat} {hash : BlockHash}
    {rest toRequest : List BlockHash} (h : b.Inv)
    (hround : b.round = .allowed w peer capacity hash rest toRequest) (a : Answers Peer) :
    (b.advance a).Inv := by
  have hfresh := h.fresh
  have hnodup := h.nodup
  have hwellFormed := h.wellFormed
  rw [hround] at hfresh hnodup hwellFormed
  obtain ⟨hlt, hassigned, -⟩ := hwellFormed
  simp only [advance, hround]
  split_ifs
  · refine h.of_releases (releases_self _) ?_ ?_ ⟨?_, ?_⟩
    · intro hash' hmem
      exact hfresh hash' (List.perm_append_singleton hash toRequest |>.mem_iff.mp hmem)
    · exact (List.perm_append_singleton hash toRequest).nodup_iff.mpr hnodup
    · rw [List.length_append]
      exact hlt
    · intro hash' hmem
      rcases List.mem_append.mp hmem with hmem | hmem
      · exact List.mem_cons_of_mem _ (hassigned hmem)
      · rw [List.mem_singleton.mp hmem]
        exact List.mem_cons_self
  · refine h.of_releases (releases_self _) ?_ ?_ ⟨Nat.le_of_lt hlt, hassigned⟩
    · exact fun hash' hmem => hfresh hash' (List.mem_cons_of_mem _ hmem)
    · exact (List.nodup_cons.mp hnodup).2

/-- The next peer has no room, or its room is reserved. -/
lemma advance_nextPeer {w : Window Peer} (hround : b.round = .nextPeer w) (a : Answers Peer) :
    (b.advance a).downloads = b.downloads ∧ ((b.advance a).round.Quiet ∨
      ∃ w' peer, b.downloads.getPeerWorkload peer < maxBlocksInTransitPerPeer ∧
        (b.advance a).round = .collect w' peer
          (maxBlocksInTransitPerPeer - b.downloads.getPeerWorkload peer) w'.missing []) := by
  simp only [advance, hround]
  cases w.peers with
  | nil => exact ⟨rfl, .inl trivial⟩
  | cons peer peers =>
    dsimp only
    split_ifs with hload
    · exact ⟨rfl, .inl trivial⟩
    · exact ⟨rfl, .inr ⟨{ w with peers }, peer, Nat.lt_of_not_le hload, rfl⟩⟩

/-- The other steps of a round put no block in flight and have nothing in hand. -/
lemma advance_of_quiet (hquiet : b.round.Quiet) (hnext : ∀ w, b.round ≠ .nextPeer w)
    (a : Answers Peer) :
    b.downloads.Releases (b.advance a).downloads ∧ (b.advance a).round.Quiet := by
  cases hround : b.round with
  | idle =>
    simp only [advance, hround]
    exact ⟨SyncDownloadState.releases_recalculateWorkloads _ _, trivial⟩
  | prune =>
    simp only [advance, hround]
    exact ⟨SyncDownloadState.releases_pruneTimeouts _ _ _ _ _, trivial⟩
  | bottleneck =>
    simp only [advance, hround]
    split
    · split_ifs <;> exact ⟨releases_self _, trivial⟩
    · exact ⟨releases_self _, trivial⟩
  | stumble hash peer =>
    simp only [advance, hround]
    exact ⟨SyncDownloadState.releases_recordBlockStumble _ _ _, trivial⟩
  | rotate hash peer =>
    simp only [advance, hround]
    exact ⟨SyncDownloadState.releases_markBlockReceived _ _ peer, trivial⟩
  | tips =>
    simp only [advance, hround]
    split_ifs
    · exact ⟨SyncDownloadState.releases_clearBlacklist _, trivial⟩
    · exact ⟨SyncDownloadState.releases_clearBlacklist _, trivial⟩
    · exact ⟨releases_self _, trivial⟩
    · exact ⟨releases_self _, trivial⟩
  | stall hHeight bHeight =>
    simp only [advance, hround]
    split_ifs
    · exact ⟨releases_self _, trivial⟩
    · exact ⟨SyncDownloadState.releases_clearInFlight _, trivial⟩
    · exact ⟨releases_self _, trivial⟩
  | unblacklist bHeight now =>
    simp only [advance, hround]
    exact ⟨SyncDownloadState.releases_clearBlacklist _, trivial⟩
  | window bHeight =>
    simp only [advance, hround]
    split_ifs <;> exact ⟨releases_self _, trivial⟩
  | nextPeer w => exact absurd hround (hnext w)
  | send w peer toRequest =>
    simp only [advance, hround]
    split_ifs <;> exact ⟨releases_self _, trivial⟩
  | unmark w peer rest =>
    simp only [advance, hround]
    cases rest with
    | nil => exact ⟨releases_self _, trivial⟩
    | cons hash rest => exact ⟨SyncDownloadState.releases_markBlockReceived _ _ peer, trivial⟩
  | disconnect w peer =>
    simp only [advance, hround]
    exact ⟨SyncDownloadState.releases_onPeerDisconnect _ _, trivial⟩
  | collect w peer capacity rest toRequest =>
    rw [hround] at hquiet
    exact hquiet.elim
  | allowed w peer capacity hash rest toRequest =>
    rw [hround] at hquiet
    exact hquiet.elim
  | mark w peer toRequest rest =>
    rw [hround] at hquiet
    exact hquiet.elim

/-- Every step of a round. -/
lemma Inv.advance (h : b.Inv) (a : Answers Peer) : (b.advance a).Inv := by
  have hquiet : b.round.Quiet → (∀ w, b.round ≠ .nextPeer w) → (b.advance a).Inv := by
    intro hquiet hnext
    obtain ⟨hreleases, hquiet⟩ := advance_of_quiet hquiet hnext a
    exact h.of_quiet hreleases hquiet
  cases hround : b.round with
  | nextPeer w =>
    obtain ⟨hsame, hquiet | ⟨w', peer, -, hcollect⟩⟩ := advance_nextPeer hround a
    · exact h.of_quiet (hsame ▸ releases_self _) hquiet
    · refine h.of_releases (hsame ▸ releases_self _) ?_ ?_ ?_
      · simp [hcollect, Round.chosen]
      · simp [hcollect, Round.chosen]
      · rw [hcollect]
        exact ⟨Nat.zero_le _, List.nil_subset _⟩
  | collect w peer capacity rest toRequest => exact h.collect hround a
  | allowed w peer capacity hash rest toRequest => exact h.allowed hround a
  | mark w peer toRequest rest =>
    simp only [BlockDownloader.advance, hround]
    cases rest with
    | nil => exact h.of_quiet (releases_self _) trivial
    | cons hash rest => exact h.mark hround _ a.now
  | _ => exact hquiet (by rw [hround]; trivial) (by rw [hround]; nofun)

lemma Capped.advance (h : b.Capped) (hinv : b.Inv) (a : Answers Peer) : (b.advance a).Capped := by
  have hquiet : b.round.Quiet → (∀ w, b.round ≠ .nextPeer w) → (b.advance a).Capped := by
    intro hquiet hnext
    obtain ⟨hreleases, hquiet⟩ := advance_of_quiet hquiet hnext a
    exact h.of_quiet hreleases hquiet
  cases hround : b.round with
  | nextPeer w =>
    obtain ⟨hsame, hquiet | ⟨w', peer, hload, hcollect⟩⟩ := advance_nextPeer hround a
    · exact h.of_quiet (hsame ▸ releases_self _) hquiet
    · -- the room of the peer is what its workload leaves
      intro q
      have hq := h q
      rw [hsame, hcollect]
      rw [hinv.tracked peer] at hload ⊢
      simp only [Round.reserved]
      split_ifs with hpeer
      · subst hpeer
        omega
      · omega
  | collect w peer capacity rest toRequest =>
    have hwellFormed := hinv.wellFormed
    rw [hround] at hwellFormed
    have hend : ({ b with round := request w peer toRequest } : BlockDownloader Peer).Capped := by
      refine h.of_releases (releases_self _) fun q => ?_
      rw [hround]
      exact reserved_request hwellFormed.1 q
    simp only [BlockDownloader.advance, hround]
    cases rest with
    | nil => exact hend
    | cons hash rest =>
      dsimp only
      split_ifs
      · exact hend
      · exact h.of_releases (releases_self _) fun q => by rw [hround]; rfl
      · exact h.of_releases (releases_self _) fun q => by rw [hround]; rfl
  | allowed w peer capacity hash rest toRequest =>
    simp only [BlockDownloader.advance, hround]
    split_ifs <;> exact h.of_releases (releases_self _) fun q => by rw [hround]; rfl
  | mark w peer toRequest rest =>
    simp only [BlockDownloader.advance, hround]
    cases rest with
    | nil => exact h.of_quiet (releases_self _) trivial
    | cons hash rest =>
      have hfresh := hinv.fresh hash (by rw [hround]; exact List.mem_cons_self)
      exact h.mark hround hfresh _ a.now
  | _ => exact hquiet (by rw [hround]; trivial) (by rw [hround]; nofun)

/-! ### Every run -/

namespace Event

/-- Another task marks a block. -/
def isMark : Event Peer → Bool
  | markBlockInFlight .. => true
  | _ => false

/-- Another task marks only a block that is not in flight, and not one that the round is about to
mark. -/
def MarksFresh (b : BlockDownloader Peer) : Event Peer → Prop
  | markBlockInFlight hash _ _ _ => hash ∉ b.downloads.inFlightBlocks ∧ hash ∉ b.round.chosen
  | _ => True

end Event

variable {e : Event Peer}

/-- What an event is, if it is not a mark of another task: a step of the round, or a call that puts
no block in flight. -/
lemma step_cases (hstep : b.step e = some b') (he : e.isMark = false) :
    (∃ a, b' = b.advance a) ∨
      ∃ d, b.downloads.Releases d ∧ b' = { b with downloads := d } := by
  cases e <;> obtain rfl := Option.some.inj hstep
  case markBlockInFlight => exact absurd he (by simp [Event.isMark])
  case markBlockReceived hash peer =>
    exact .inr ⟨_, SyncDownloadState.releases_markBlockReceived _ hash peer, rfl⟩
  case pruneTimeouts => exact .inr ⟨_, SyncDownloadState.releases_pruneTimeouts _ _ _ _ _, rfl⟩
  case onPeerDisconnect => exact .inr ⟨_, SyncDownloadState.releases_onPeerDisconnect _ _, rfl⟩
  case clearInFlight => exact .inr ⟨_, SyncDownloadState.releases_clearInFlight _, rfl⟩
  case recalculateWorkloads =>
    exact .inr ⟨_, SyncDownloadState.releases_recalculateWorkloads _ _, rfl⟩
  case recordBlockStumble =>
    exact .inr ⟨_, SyncDownloadState.releases_recordBlockStumble _ _ _, rfl⟩
  case clearBlacklist => exact .inr ⟨_, SyncDownloadState.releases_clearBlacklist _, rfl⟩
  case advance a => exact .inl ⟨a, rfl⟩

lemma Inv.step_of_isMark_eq_false (h : b.Inv) (hstep : b.step e = some b')
    (he : e.isMark = false) : b'.Inv := by
  obtain ⟨a, rfl⟩ | ⟨d, hreleases, rfl⟩ := step_cases hstep he
  · exact h.advance a
  · exact h.of_call hreleases

lemma Capped.step (h : b.Capped) (hinv : b.Inv) (hstep : b.step e = some b')
    (he : e.isMark = false) :
    b'.Capped := by
  obtain ⟨a, rfl⟩ | ⟨d, hreleases, rfl⟩ := step_cases hstep he
  · exact h.advance hinv a
  · exact h.of_releases hreleases fun _ => Nat.le_refl _

lemma Inv.step (h : b.Inv) (hstep : b.step e = some b') (he : e.MarksFresh b) : b'.Inv := by
  cases e with
  | markBlockInFlight hash peer height now =>
    obtain ⟨hfresh, hchosen⟩ := he
    obtain rfl := Option.some.inj hstep
    refine ⟨h.tracked.markBlockInFlight hfresh peer height now, ?_, h.nodup, h.wellFormed⟩
    intro hash' hmem hin
    rcases SyncDownloadState.mem_markBlockInFlight.mp hin with rfl | hin
    · exact hchosen hmem
    · exact h.fresh hash' hmem hin
  | _ => exact h.step_of_isMark_eq_false hstep rfl

lemma inv_new (unixTime : Nat) : (new unixTime : BlockDownloader Peer).Inv where
  tracked := SyncDownloadState.tracked_empty
  fresh := nofun
  nodup := List.nodup_nil
  wellFormed := trivial

/-- In every run in which other tasks mark only blocks that are not in flight: the workload of a
peer is the number of its blocks in flight, and a block is in flight from one peer. In every run in
which only `coordinate_downloads` marks blocks, no peer has more than
`MAX_BLOCKS_IN_TRANSIT_PER_PEER` of them. -/
theorem downloads_tracked {unixTime : Nat}
    (h : Reachable step (fun b e _ => e.MarksFresh b) (new unixTime) b) :
    (∀ peer, b.downloads.getPeerWorkload peer = b.downloads.inFlightFrom peer) ∧
      (∀ hash block block', ⟨hash, block⟩ ∈ b.downloads.inFlightBlocks.entries →
        ⟨hash, block'⟩ ∈ b.downloads.inFlightBlocks.entries → block = block') ∧
      (Reachable step (fun _ e _ => e.isMark = false) (new unixTime) b →
        ∀ peer, b.downloads.inFlightFrom peer ≤ maxBlocksInTransitPerPeer) := by
  have hinv : b.Inv :=
    h.invariant Inv (inv_new unixTime) fun b e b' hb hstep he => hb.step hstep he
  refine ⟨hinv.tracked, ?_, ?_⟩
  · intro hash block block' hblock hblock'
    exact Option.some.inj ((AList.mem_lookup_iff.mpr hblock).symm.trans
      (AList.mem_lookup_iff.mpr hblock'))
  · intro honly peer
    have hcapped : b.Inv ∧ b.Capped := by
      refine honly.invariant (fun b => b.Inv ∧ b.Capped) ⟨inv_new unixTime, ?_⟩ ?_
      · exact fun _ => Nat.zero_le _
      · rintro b e b' ⟨hb, hcapped⟩ hstep he
        exact ⟨hb.step_of_isMark_eq_false hstep he, hcapped.step hb hstep he⟩
    exact Nat.le_trans (Nat.le_add_right _ _) (hcapped.2 peer)

end BlockDownloader

namespace Sample

open BlockDownloader

/-- Two missing blocks and one peer. -/
def answers : Answers Nat where
  headersTip := (⟨List.Vector.replicate 32 2⟩, 2)
  blocksTip := (Digest.zero, 0)
  missing := [⟨List.Vector.replicate 32 1⟩, ⟨List.Vector.replicate 32 2⟩]
  fullPeers := [7]

/-- A round up to the request, the first block from another peer, and the end of the round. -/
def downloadEvents : List (Event Nat) :=
  List.replicate 15 (.advance answers) ++
    [.markBlockReceived ⟨List.Vector.replicate 32 1⟩ 8, .advance answers, .advance answers]

set_option maxRecDepth 10000 in
lemma run_downloadEvents :
    (Reachable.run step (fun _ e _ => !e.isMark) (new 0) downloadEvents).map
      (fun b => (b.downloads.inFlightFrom 7, b.downloads.getPeerWorkload 7,
        decide (b.round.chosen = []))) = some (1, 1, true) := by
  decide +kernel

/-- After the round one of two blocks is in flight. -/
theorem downloads_tracked_round :
    ∃ b : BlockDownloader Nat, b.downloads.inFlightFrom 7 = 1 ∧
      (∀ peer, b.downloads.getPeerWorkload peer = b.downloads.inFlightFrom peer) ∧
      (∀ hash block block', ⟨hash, block⟩ ∈ b.downloads.inFlightBlocks.entries →
        ⟨hash, block'⟩ ∈ b.downloads.inFlightBlocks.entries → block = block') ∧
      ∀ peer, b.downloads.inFlightFrom peer ≤ maxBlocksInTransitPerPeer := by
  obtain ⟨b, hrun, hb⟩ := Option.map_eq_some_iff.mp run_downloadEvents
  have honly : Reachable step (fun _ e _ => e.isMark = false) (new 0) b :=
    Reachable.of_run (fun _ e _ hcheck => by simpa using hcheck) .init hrun
  have hfresh : Reachable step (fun b e _ => e.MarksFresh b) (new 0) b := by
    refine honly.mono fun b e _ he => ?_
    cases e <;> trivial
  obtain ⟨hworkload, hunique, hcap⟩ := downloads_tracked hfresh
  exact ⟨b, (Prod.mk.inj hb).1, hworkload, hunique, hcap honly⟩

end Sample

end Bitcrab
