import Bitcrab.Net.BlockDownloader

/-!
# Blocks that a peer has failed to deliver

A peer whose request for a block has timed out, or that has held up the window with it, is put on
the list of the block. The check of the list and the request are different steps of a round, between
which other tasks may run.
-/

namespace Bitcrab

namespace SyncDownloadState

variable {Peer : Type} [DecidableEq Peer] {d d' : SyncDownloadState Peer}

/-- No block is put in flight, and no peer is taken from a list. -/
structure Narrows (d d' : SyncDownloadState Peer) : Prop where
  inFlight : ∀ hash block, d'.inFlightBlocks.lookup hash = some block →
    d.inFlightBlocks.lookup hash = some block
  failed : ∀ hash peer, d.canPeerDownloadBlock hash peer = false →
    d'.canPeerDownloadBlock hash peer = false

lemma Narrows.refl (d : SyncDownloadState Peer) : d.Narrows d := ⟨fun _ _ h => h, fun _ _ h => h⟩

/-- The peer is on the list of the block. -/
lemma canPeerDownloadBlock_eq_false {hash : BlockHash} {peer : Peer} :
    d.canPeerDownloadBlock hash peer = false ↔
      ∃ peers, d.failedBlockPeers.lookup hash = some peers ∧ peer ∈ peers := by
  unfold canPeerDownloadBlock
  cases d.failedBlockPeers.lookup hash with
  | none => simp
  | some peers => simp

omit [DecidableEq Peer] in
lemma lookup_of_lookup_retain {keep : BlockHash → InFlight Peer → Bool}
    {m : HashMap BlockHash (InFlight Peer)} {hash : BlockHash} {block : InFlight Peer}
    (h : (m.retain keep).lookup hash = some block) :
    m.lookup hash = some block ∧ keep hash block = true := by
  obtain ⟨hmem, hkeep⟩ := List.mem_filter.mp (AList.mem_lookup_iff.mp h)
  exact ⟨AList.mem_lookup_iff.mpr hmem, hkeep⟩

lemma narrows_markBlockReceived (d : SyncDownloadState Peer) (hash : BlockHash) (peer : Peer) :
    d.Narrows (d.markBlockReceived hash peer) := by
  unfold markBlockReceived
  cases d.inFlightBlocks.lookup hash with
  | none => exact .refl d
  | some block =>
    refine ⟨fun hash' block' h => ?_, fun _ _ h => h⟩
    by_cases hself : hash' = hash
    · subst hself
      rw [AList.lookup_erase] at h
      cases h
    · rwa [AList.lookup_erase_ne hself] at h

/-- A received block is no longer in flight. -/
lemma lookup_markBlockReceived (d : SyncDownloadState Peer) (hash : BlockHash) (peer : Peer) :
    (d.markBlockReceived hash peer).inFlightBlocks.lookup hash = none := by
  unfold markBlockReceived
  cases hlookup : d.inFlightBlocks.lookup hash with
  | none => exact hlookup
  | some block => exact AList.lookup_erase _ _

lemma narrows_onPeerDisconnect (d : SyncDownloadState Peer) (peer : Peer) :
    d.Narrows (d.onPeerDisconnect peer) :=
  ⟨fun _ _ h => (lookup_of_lookup_retain h).1, fun _ _ h => h⟩

lemma narrows_clearInFlight (d : SyncDownloadState Peer) : d.Narrows d.clearInFlight where
  inFlight _ _ h := nomatch h
  failed _ _ h := h

lemma narrows_recalculateWorkloads (d : SyncDownloadState Peer) (order : List BlockHash) :
    d.Narrows (d.recalculateWorkloads order) :=
  ⟨fun _ _ h => h, fun _ _ h => h⟩

lemma narrows_recordBlockStumble (d : SyncDownloadState Peer) (hash : BlockHash) (peer : Peer) :
    d.Narrows (d.recordBlockStumble hash peer) := by
  refine ⟨fun _ _ h => h, fun hash' peer' h => ?_⟩
  rw [canPeerDownloadBlock_eq_false] at h ⊢
  obtain ⟨peers, hpeers, hmem⟩ := h
  by_cases hself : hash' = hash
  · subst hself
    refine ⟨peers ++ [peer], ?_, List.mem_append_left _ hmem⟩
    rw [recordBlockStumble, hpeers]
    exact AList.lookup_insert _
  · exact ⟨peers, (AList.lookup_insert_ne hself).trans hpeers, hmem⟩

/-! ### Timeouts -/

/-- The lists after the entries of some blocks have timed out. -/
def addFailed (failed : HashMap BlockHash (List Peer))
    (timedOut : List (BlockHash × InFlight Peer)) :
    HashMap BlockHash (List Peer) :=
  timedOut.foldl (fun failed e =>
    let failedPeers := (failed.lookup e.1).getD []
    failed.insert e.1 (if failedPeers.contains e.2.peer then failedPeers
      else failedPeers ++ [e.2.peer])) failed

/-- Peers stay on the lists, and those that timed out are added. -/
lemma mem_addFailed {timedOut : List (BlockHash × InFlight Peer)}
    {failed : HashMap BlockHash (List Peer)} {hash : BlockHash} {peer : Peer}
    (h : (∃ peers, failed.lookup hash = some peers ∧ peer ∈ peers) ∨
      ∃ e ∈ timedOut, e.1 = hash ∧ e.2.peer = peer) :
    ∃ peers, (addFailed failed timedOut).lookup hash = some peers ∧ peer ∈ peers := by
  induction timedOut generalizing failed with
  | nil => exact h.resolve_right (by simp)
  | cons first timedOut ih =>
    refine ih ?_
    by_cases hself : hash = first.1
    · subst hself
      by_cases hpeer : peer ∈ (failed.lookup first.1).getD [] ∨ peer = first.2.peer
      · refine .inl ⟨_, AList.lookup_insert _, ?_⟩
        split_ifs with hcontains
        · rcases hpeer with hpeer | rfl
          · exact hpeer
          · exact List.contains_iff_mem.mp hcontains
        · rcases hpeer with hpeer | rfl
          · exact List.mem_append_left _ hpeer
          · exact List.mem_append_right _ List.mem_cons_self
      · obtain ⟨hold, hnew⟩ := not_or.mp hpeer
        rcases h with ⟨peers, hpeers, hmem⟩ | ⟨e, he, heq, rfl⟩
        · rw [hpeers] at hold
          exact absurd hmem hold
        · rcases List.mem_cons.mp he with rfl | he
          · exact absurd rfl hnew
          · exact .inr ⟨e, he, heq, rfl⟩
    · rcases h with ⟨peers, hpeers, hmem⟩ | ⟨e, he, heq, hpeer⟩
      · exact .inl ⟨peers, (AList.lookup_insert_ne hself).trans hpeers, hmem⟩
      · rcases List.mem_cons.mp he with rfl | he
        · exact absurd heq.symm hself
        · exact .inr ⟨e, he, heq, hpeer⟩

lemma narrows_pruneTimeouts (d : SyncDownloadState Peer) (order : List BlockHash)
    (peers : List Peer) (timeout now : Nat) :
    d.Narrows (d.pruneTimeouts order peers timeout now).2 where
  inFlight _ _ h := (lookup_of_lookup_retain h).1
  failed hash peer h := by
    rw [canPeerDownloadBlock_eq_false] at h ⊢
    exact mem_addFailed (.inl h)

/-- A request that has timed out puts its peer on the list of the block, which is free again. -/
lemma barred_pruneTimeouts {hash : BlockHash} {block : InFlight Peer}
    (hblock : d.inFlightBlocks.lookup hash = some block) {timeout now : Nat}
    (hlate : timeout ≤ now - block.requestedAt) (order : List BlockHash) (peers : List Peer) :
    (d.pruneTimeouts order peers timeout now).2.canPeerDownloadBlock hash block.peer = false ∧
      (d.pruneTimeouts order peers timeout now).2.inFlightBlocks.lookup hash = none := by
  constructor
  · rw [canPeerDownloadBlock_eq_false]
    refine mem_addFailed (.inr ⟨(hash, block), List.mem_filter.mpr ⟨?_, ?_⟩, rfl, rfl⟩)
    · exact HashMap.mem_iter.mpr hblock
    · simpa using hlate
  · cases hlookup : (d.pruneTimeouts order peers timeout now).2.inFlightBlocks.lookup hash with
    | none => rfl
    | some block' =>
      obtain ⟨hold, hkeep⟩ := lookup_of_lookup_retain hlookup
      obtain rfl := Option.some.inj (hblock.symm.trans hold)
      have hearly := of_decide_eq_true hkeep
      omega

/-- The peer is on the list of the block on which it has been recorded. -/
lemma canPeerDownloadBlock_recordBlockStumble (d : SyncDownloadState Peer) (hash : BlockHash)
    (peer : Peer) : (d.recordBlockStumble hash peer).canPeerDownloadBlock hash peer = false :=
  canPeerDownloadBlock_eq_false.mpr ⟨_, AList.lookup_insert _, List.mem_append_right _ (by simp)⟩

end SyncDownloadState

namespace Round

variable {Peer : Type} [DecidableEq Peer]

/-- The blocks that the round has chosen for a peer: those of its request, up to the `getdata` that
asks for them, and those still to be marked. -/
def chosenFor : Round Peer → Peer → List BlockHash
  | collect _ peer _ _ toRequest, q => if peer = q then toRequest else []
  | allowed _ peer _ _ _ toRequest, q => if peer = q then toRequest else []
  | mark _ peer toRequest rest, q => if peer = q then rest ++ toRequest else []
  | send _ peer toRequest, q => if peer = q then toRequest else []
  | _, _ => []

end Round

namespace BlockDownloader

open SyncDownloadState

variable {Peer : Type} [DecidableEq Peer] {b b' : BlockDownloader Peer} {e : Event Peer}
  {a : Answers Peer} {hash : BlockHash} {peer : Peer}

namespace Event

/-- The event calls `clear_blacklist`: another task does, or the round after 500 blocks or after a
stall. -/
def clears (b : BlockDownloader Peer) : Event Peer → Bool
  | clearBlacklist => true
  | advance a =>
    match b.round with
    | .tips => decide (a.blocksTip.2.toNat - b.lastBlacklistClearHeight.toNat ≥ 500)
    | .unblacklist _ _ => true
    | _ => false
  | _ => false

end Event

lemma mem_chosenFor_request {w : Window Peer} {q : Peer} {toRequest : List BlockHash}
    (h : hash ∈ (request w q toRequest).chosenFor peer) :
    hash ∈ if q = peer then toRequest else [] := by
  unfold request at h
  split_ifs at h with hempty
  · cases h
  · simp only [Round.chosenFor] at h
    split_ifs at h ⊢
    · simpa using h
    · exact h

/-- A block that a step chooses for a peer may be asked of it. -/
lemma mem_chosenFor_advance (h : hash ∈ (b.advance a).round.chosenFor peer) :
    hash ∈ b.round.chosenFor peer ∨ b.downloads.canPeerDownloadBlock hash peer = true := by
  cases hround : b.round with
  | nextPeer w =>
    simp only [advance, hround] at h
    cases hpeers : w.peers with
    | nil =>
      rw [hpeers] at h
      cases h
    | cons q peers =>
      rw [hpeers] at h
      dsimp only at h
      split_ifs at h
      · cases h
      · rw [Round.chosenFor, ite_self] at h
        cases h
  | collect w q capacity rest toRequest =>
    simp only [advance, hround] at h
    refine .inl ?_
    cases rest with
    | nil => exact mem_chosenFor_request h
    | cons next rest =>
      dsimp only at h
      split_ifs at h
      · exact mem_chosenFor_request h
      · exact h
      · exact h
  | allowed w q capacity next rest toRequest =>
    simp only [advance, hround] at h
    split_ifs at h with hcan
    · simp only [Round.chosenFor] at h ⊢
      split_ifs at h ⊢ with hpeer
      · subst hpeer
        rcases List.mem_append.mp h with h | h
        · exact .inl h
        · rw [List.mem_singleton.mp h]
          exact .inr hcan
      · cases h
    · exact .inl h
  | mark w q toRequest rest =>
    simp only [advance, hround] at h
    refine .inl ?_
    cases rest with
    | nil => exact h
    | cons next rest =>
      simp only [Round.chosenFor] at h ⊢
      split_ifs at h ⊢
      · exact List.mem_cons_of_mem _ h
      · exact h
  | bottleneck =>
    simp only [advance, hround] at h
    split at h
    · split_ifs at h <;> cases h
    · cases h
  | unmark w q rest =>
    simp only [advance, hround] at h
    cases rest <;> cases h
  | tips | stall hHeight bHeight | window bHeight | send w q toRequest =>
    simp only [advance, hround] at h
    split_ifs at h <;> cases h
  | _ =>
    simp only [advance, hround] at h
    cases h

/-- The steps of a round that put no block in flight, but for those that clear the lists. -/
lemma narrows_advance (hclears : (Event.advance a).clears b = false)
    (hmark : ∀ w q toRequest rest, b.round ≠ .mark w q toRequest rest) :
    b.downloads.Narrows (b.advance a).downloads := by
  cases hround : b.round with
  | idle =>
    simp only [advance, hround]
    exact narrows_recalculateWorkloads _ _
  | prune =>
    simp only [advance, hround]
    exact narrows_pruneTimeouts _ _ _ _ _
  | bottleneck =>
    simp only [advance, hround]
    split <;> exact .refl _
  | stumble hash peer =>
    simp only [advance, hround]
    exact narrows_recordBlockStumble _ _ _
  | rotate hash peer =>
    simp only [advance, hround]
    exact narrows_markBlockReceived _ _ _
  | tips =>
    simp only [Event.clears, hround, decide_eq_false_iff_not] at hclears
    simp only [advance, hround, if_neg hclears]
    exact .refl _
  | stall hHeight bHeight =>
    simp only [advance, hround]
    split_ifs
    · exact .refl _
    · exact narrows_clearInFlight _
    · exact .refl _
  | unblacklist bHeight now => simp [Event.clears, hround] at hclears
  | window bHeight =>
    simp only [advance, hround]
    exact .refl _
  | nextPeer w =>
    rw [(advance_nextPeer hround a).1]
    exact .refl _
  | collect w q capacity rest toRequest =>
    simp only [advance, hround]
    cases rest <;> exact .refl _
  | allowed w q capacity next rest toRequest =>
    simp only [advance, hround]
    exact .refl _
  | mark w q toRequest rest => exact absurd hround (hmark w q toRequest rest)
  | send w q toRequest =>
    simp only [advance, hround]
    exact .refl _
  | unmark w q rest =>
    simp only [advance, hround]
    cases rest with
    | nil => exact .refl _
    | cons next rest => exact narrows_markBlockReceived _ _ q
  | disconnect w q =>
    simp only [advance, hround]
    exact narrows_onPeerDisconnect _ _

/-- The call of another task, if it neither marks a block nor clears the lists. -/
lemma step_cases_of_clears_eq_false (hstep : b.step e = some b') (hmark : e.isMark = false)
    (hclears : e.clears b = false) :
    (∃ a, e = .advance a ∧ b' = b.advance a) ∨
      ∃ d, b.downloads.Narrows d ∧ b' = { b with downloads := d } := by
  cases e <;> obtain rfl := Option.some.inj hstep
  case markBlockInFlight => exact absurd hmark (by simp [Event.isMark])
  case markBlockReceived q => exact .inr ⟨_, narrows_markBlockReceived _ _ q, rfl⟩
  case pruneTimeouts => exact .inr ⟨_, narrows_pruneTimeouts _ _ _ _ _, rfl⟩
  case onPeerDisconnect => exact .inr ⟨_, narrows_onPeerDisconnect _ _, rfl⟩
  case clearInFlight => exact .inr ⟨_, narrows_clearInFlight _, rfl⟩
  case recalculateWorkloads => exact .inr ⟨_, narrows_recalculateWorkloads _ _, rfl⟩
  case recordBlockStumble => exact .inr ⟨_, narrows_recordBlockStumble _ _ _, rfl⟩
  case clearBlacklist => exact absurd hclears (by simp [Event.clears])
  case advance a => exact .inl ⟨a, rfl, rfl⟩

/-! ### Every run -/

/-- A step of a round puts a peer on the list of a block: its request has timed out, or it holds up
the window. -/
inductive Fails (b : BlockDownloader Peer) (a : Answers Peer) (hash : BlockHash) (peer : Peer) :
    Prop
  | timedOut (block : InFlight Peer) (hround : b.round = .prune)
      (hblock : b.downloads.inFlightBlocks.lookup hash = some block) (hpeer : block.peer = peer)
      (hlate : blockRequestTimeout ≤ a.now - block.requestedAt)
  | stumbled (hround : b.round = .stumble hash peer)

/-- The peer is on the list of the block. The block is neither chosen for it, nor in a `getdata`
that is about to be sent to it, nor in flight from it, unless the request that has held up the
window is about to be dropped. -/
structure Barred (hash : BlockHash) (peer : Peer) (b : BlockDownloader Peer) : Prop where
  failed : b.downloads.canPeerDownloadBlock hash peer = false
  not_chosen : hash ∉ b.round.chosenFor peer
  rotate : ∀ block, b.downloads.inFlightBlocks.lookup hash = some block → block.peer = peer →
    b.round = .rotate hash peer

lemma Fails.barred (h : b.Fails a hash peer) : Barred hash peer (b.advance a) := by
  cases h with
  | timedOut block hround hblock hpeer hlate =>
    subst hpeer
    obtain ⟨hfailed, hfree⟩ := barred_pruneTimeouts hblock hlate a.order a.peerOrder
    simp only [advance, hround]
    refine ⟨hfailed, List.not_mem_nil, fun _ hsome => ?_⟩
    cases hfree.symm.trans hsome
  | stumbled hround =>
    simp only [advance, hround]
    exact ⟨canPeerDownloadBlock_recordBlockStumble _ _ _, List.not_mem_nil, fun _ _ _ => rfl⟩

/-- What a mark of the round does: the block is one that was chosen for the peer. -/
lemma Barred.mark {w : Window Peer} {q : Peer} {toRequest rest : List BlockHash}
    (h : Barred hash peer b) (hround : b.round = .mark w q toRequest rest) (a : Answers Peer) :
    (b.advance a).downloads.canPeerDownloadBlock hash peer = false ∧
      ∀ block, (b.advance a).downloads.inFlightBlocks.lookup hash = some block →
        block.peer ≠ peer := by
  have hfree : ∀ block, b.downloads.inFlightBlocks.lookup hash = some block →
      block.peer ≠ peer := by
    intro block hblock hpeer
    have hrotate := h.rotate block hblock hpeer
    rw [hround] at hrotate
    cases hrotate
  have hchosen := h.not_chosen
  rw [hround, Round.chosenFor] at hchosen
  simp only [advance, hround]
  cases rest with
  | nil => exact ⟨h.failed, hfree⟩
  | cons next rest =>
    refine ⟨h.failed, fun block hblock => ?_⟩
    by_cases hself : hash = next
    · subst hself
      obtain rfl := Option.some.inj ((AList.lookup_insert _).symm.trans hblock)
      intro hpeer
      rw [if_pos hpeer] at hchosen
      exact hchosen (List.mem_append_left _ List.mem_cons_self)
    · exact hfree block ((AList.lookup_insert_ne hself).symm.trans hblock)

/-- One step of the round. -/
lemma Barred.advance (h : Barred hash peer b) (hclears : (Event.advance a).clears b = false) :
    Barred hash peer (b.advance a) := by
  have hchosen : hash ∉ (b.advance a).round.chosenFor peer := by
    intro hmem
    rcases mem_chosenFor_advance hmem with hmem | hcan
    · exact h.not_chosen hmem
    · exact Bool.false_ne_true (h.failed.symm.trans hcan)
  by_cases hmark : ∃ w q toRequest rest, b.round = .mark w q toRequest rest
  · obtain ⟨w, q, toRequest, rest, hround⟩ := hmark
    obtain ⟨hfailed, hfree⟩ := h.mark hround a
    exact ⟨hfailed, hchosen, fun block hblock hpeer => absurd hpeer (hfree block hblock)⟩
  · have hnarrows := narrows_advance hclears (by simpa using hmark)
    refine ⟨hnarrows.failed _ _ h.failed, hchosen, fun block hblock hpeer => ?_⟩
    -- the request was in flight, and the rotation drops it
    have hround := h.rotate block (hnarrows.inFlight _ _ hblock) hpeer
    simp only [BlockDownloader.advance, hround] at hblock
    cases (lookup_markBlockReceived _ _ _).symm.trans hblock

lemma Barred.step (h : Barred hash peer b) (hstep : b.step e = some b') (hmark : e.isMark = false)
    (hclears : e.clears b = false) : Barred hash peer b' := by
  obtain ⟨a, rfl, rfl⟩ | ⟨d, hnarrows, rfl⟩ := step_cases_of_clears_eq_false hstep hmark hclears
  · exact h.advance hclears
  · exact ⟨hnarrows.failed _ _ h.failed, h.not_chosen,
      fun block hblock => h.rotate block (hnarrows.inFlight _ _ hblock)⟩

/-- After a request has timed out, or a peer has held up the window, no run in which the lists are
not cleared and only `coordinate_downloads` marks blocks asks that peer for the block again. -/
theorem barred_of_fails (hfails : b.Fails a hash peer)
    (h : Reachable step (fun b e _ => e.isMark = false ∧ e.clears b = false) (b.advance a) b') :
    Barred hash peer b' :=
  h.invariant (Barred hash peer) hfails.barred
    fun _ _ _ hb hstep hrules => hb.step hstep hrules.1 hrules.2

end BlockDownloader

namespace Sample

open BlockDownloader

/-- The first block of the window. -/
def firstMissing : BlockHash := ⟨List.Vector.replicate 32 1⟩

/-- Half a minute later there is another peer too. -/
def lateAnswers : Answers Nat :=
  { answers with
    now := blockRequestTimeout
    order := answers.missing
    fullPeers := [7, 8] }

/-- The state after a round that asks for two blocks. -/
def requested : Option (BlockDownloader Nat) :=
  Reachable.run step (fun _ _ _ => true) (new 0) (List.replicate 18 (.advance answers))

set_option maxRecDepth 10000 in
lemma requested_eq :
    requested.map (fun b => (b.round, b.downloads.inFlightBlocks.lookup firstMissing)) =
      some (.prune, some ⟨7, 0, 1⟩) := by
  rfl

set_option maxRecDepth 10000 in
lemma run_lateAnswers :
    (requested.bind fun b =>
      (Reachable.run step (fun b e _ => !e.isMark && !e.clears b) (b.advance lateAnswers)
        (List.replicate 19 (.advance lateAnswers))).map fun b' =>
          (b'.downloads.inFlightFrom 8, b'.downloads.inFlightFrom 7)) = some (2, 0) := by
  decide +kernel

/-- The peer that has timed out is not asked again, and the other one is. -/
theorem barred_of_fails_round :
    ∃ b b' : BlockDownloader Nat, b.Fails lateAnswers firstMissing 7 ∧
      b'.downloads.inFlightFrom 8 = 2 ∧ Barred firstMissing 7 b' := by
  obtain ⟨b, hb, hend⟩ := Option.bind_eq_some_iff.mp run_lateAnswers
  obtain ⟨b', hrun, hb'⟩ := Option.map_eq_some_iff.mp hend
  have hstart := requested_eq
  rw [hb, Option.map_some, Option.some.injEq, Prod.mk.injEq] at hstart
  have hfails : b.Fails lateAnswers firstMissing 7 :=
    .timedOut _ hstart.1 hstart.2 rfl (Nat.le_refl _)
  have hreachable : Reachable step (fun b e _ => e.isMark = false ∧ e.clears b = false)
      (b.advance lateAnswers) b' :=
    Reachable.of_run (fun _ _ _ hcheck => by simpa using hcheck) .init hrun
  exact ⟨b, b', hfails, (Prod.mk.inj hb').1, barred_of_fails hfails hreachable⟩

end Sample

end Bitcrab
