import Bitcrab.Node.HeaderChain

/-!
# The headers tip of the sync manager (`net/p2p/sync/sync_manager.rs`, `net/p2p/peer_manager.rs`)

`SyncManager` keeps a copy of the headers tip. After a message of headers `PeerManager` sets it to
the last header that was answered, unless this one is lower; the store takes the new header with the
most work. Requests, peers and scores do not touch either tip and are left out.
-/

namespace Bitcrab

open BlockManager Result

section

variable [Sha2]

/-- The headers tip of `SyncManager`: `headers_tip` and `headers_height`. -/
structure SyncTip where
  hash : BlockHash
  height : UInt32
  deriving DecidableEq

omit [Sha2] in
/-- `SyncManager::update_headers_tip`. -/
def SyncTip.updateHeadersTip (tip : SyncTip) (hash : BlockHash) (height : UInt32) : SyncTip :=
  if height ≥ tip.height then ⟨hash, height⟩ else tip

omit [Sha2] in
/-- `SyncProvider::get_headers_tip` of `Blockchain`. -/
def Store.syncTip (s : Store) : SyncTip :=
  let hash := s.getHeadersTip.getD Digest.zero
  ⟨hash, if hash = Digest.zero then 0 else ((s.findBlockIndex hash).map (·.height)).getD 0⟩

/-- `PeerManager`: the node behind `ValidationInterface`, and the tip of the sync manager. -/
structure PeerManager where
  node : Node
  sync : SyncTip

namespace PeerManager

omit [Sha2] in
/-- The start of the networking stack: the tip is read from the store. -/
def new (cfg : Config) (store : Store) : PeerManager :=
  let node := Node.restart cfg store
  ⟨node, node.store.syncTip⟩

/-- `PeerManager::on_headers`. -/
def onHeaders (cfg : Config) (p : PeerManager) (headers : List BlockHeader) : PeerManager :=
  if headers.isEmpty then p
  else
    match p.node.processHeaders cfg headers with
    | (.error _, node) => { p with node }
    | (.ok heights, node) =>
      match (headers.zip heights).getLast? with
      | none => { p with node }
      | some (last, height) =>
        if last.blockHash ≠ Digest.zero then
          ⟨node, p.sync.updateHeadersTip last.blockHash height⟩
        else { p with node }

/-- One message; `header_processing` lets them in one at a time. -/
def message (cfg : Config) (p : PeerManager) (headers : List BlockHeader) : Option PeerManager :=
  some (p.onHeaders cfg headers)

/-- A message after which the two tips agree: the last header that is answered is the new header
with the most work and no lower than the tip, or, if no new header has more work than the tip, it is
lower than the tip or the tip itself. -/
structure BestLast (cfg : Config) (p : PeerManager) (headers : List BlockHeader) : Prop where
  last : ∀ last height, (p.node.answeredHeaders cfg headers).getLast? = some (last, height) →
    match p.node.bestNew cfg headers with
    | some best => last.blockHash = best ∧ p.node.store.syncTip.height ≤ height
    | none => height < p.node.store.syncTip.height ∨
      some last.blockHash = p.node.store.getHeadersTip

lemma bestLast_of_eq {cfg : Config} {p : PeerManager} {headers : List BlockHeader}
    {header : BlockHeader} {height : UInt32}
    (hlast : (p.node.answeredHeaders cfg headers).getLast? = some (header, height))
    (hbest : p.node.bestNew cfg headers = some header.blockHash)
    (hheight : p.node.store.syncTip.height = 0) : p.BestLast cfg headers := by
  refine ⟨fun last height' hlast' => ?_⟩
  obtain ⟨rfl, rfl⟩ := Prod.mk.inj (Option.some.inj (hlast.symm.trans hlast'))
  rw [hbest, hheight]
  exact ⟨rfl, UInt32.zero_le⟩

/-- A run of one message. -/
lemma reachable_message {cfg : Config} {seen : Set BlockHeader} {p : PeerManager}
    {headers : List BlockHeader}
    (hrooted : RootedCall cfg seen p.node (.processHeaders headers))
    (hlast : p.BestLast cfg headers) :
    ∃ p', Reachable (PeerManager.message cfg)
      (fun p headers _ => RootedCall cfg seen p.node (.processHeaders headers) ∧
        p.BestLast cfg headers) p p' :=
  ⟨_, .step .init rfl ⟨hrooted, hlast⟩⟩

end PeerManager

omit [Sha2] in
lemma ne_zero_of_isZero_eq_false {hash : BlockHash} (h : hash.isZero = false) :
    hash ≠ Digest.zero := by
  rintro rfl
  simp [Digest.isZero, Digest.zero] at h

/-! ### One message -/

section Message

variable {cfg : Config} {seen : Set BlockHeader} {p : PeerManager} {headers : List BlockHeader}

/-- What `on_headers` does to the two tips. -/
lemma PeerManager.onHeaders_cases (cfg : Config) (p : PeerManager) (headers : List BlockHeader) :
    (p.onHeaders cfg headers).node.store = (p.node.processHeaders cfg headers).2.store ∧
      ((p.node.answeredHeaders cfg headers).getLast? = none ∧
          (p.onHeaders cfg headers).sync = p.sync ∨
        ∃ last height, (p.node.answeredHeaders cfg headers).getLast? = some (last, height) ∧
          (p.onHeaders cfg headers).sync = if last.blockHash ≠ Digest.zero then
            p.sync.updateHeadersTip last.blockHash height else p.sync) := by
  unfold PeerManager.onHeaders
  split_ifs with hempty
  · obtain rfl := List.isEmpty_iff.mp hempty
    exact ⟨rfl, .inl ⟨rfl, rfl⟩⟩
  · unfold Node.answeredHeaders
    cases p.node.processHeaders cfg headers with
    | mk answer node =>
      cases answer with
      | error e => exact ⟨rfl, .inl ⟨rfl, rfl⟩⟩
      | ok heights =>
        dsimp only
        cases (headers.zip heights).getLast? with
        | none => exact ⟨rfl, .inl ⟨rfl, rfl⟩⟩
        | some x =>
          obtain ⟨last, height⟩ := x
          dsimp only
          refine ⟨?_, .inr ⟨last, height, rfl, ?_⟩⟩
          · split_ifs <;> rfl
          · split_ifs <;> rfl

omit [Sha2] in
/-- On a store whose headers tip is indexed, the start reads its hash and its height. -/
lemma Store.syncTip_eq {s : Store} {tip : BlockHash} {index : BlockIndex}
    (htip : s.getHeadersTip = some tip) (hindex : s.getBlockIndex tip = .ok (some index))
    (hzero : tip.isZero = false) : s.syncTip = ⟨tip, index.height⟩ := by
  simp [Store.syncTip, htip, ne_zero_of_isZero_eq_false hzero,
    Store.findBlockIndex_of_getBlockIndex hindex]

/-- What holds between two messages: the index is that of accepted headers, and the two tips
agree. -/
structure PeerManager.Agrees (cfg : Config) (seen : Set BlockHeader) (p : PeerManager) : Prop where
  index : IndexedHeaders cfg seen p.node.store
  sync : p.sync = p.node.store.syncTip

/-- A message that ends in its best header. -/
lemma PeerManager.Agrees.onHeaders [ScriptVerifier] (h : p.Agrees cfg seen)
    (hinj : seen.InjOn BlockHeader.blockHash)
    (hzero : ∀ header ∈ seen, header.blockHash.isZero = false)
    (hgenesis : cfg.params.genesisHeader ∈ seen)
    (hrooted : RootedCall cfg seen p.node (.processHeaders headers))
    (hlast : p.BestLast cfg headers) : (p.onHeaders cfg headers).Agrees cfg seen := by
  obtain ⟨hstore, hsync⟩ := onHeaders_cases cfg p headers
  have hindex' : IndexedHeaders cfg seen (p.node.processHeaders cfg headers).2.store :=
    h.index.call (c := .processHeaders headers) hinj hgenesis hrooted
  have hfree : HeaderBatch.CollisionFree headers :=
    fun x hx y hy hhash => hinj (hrooted.seen x hx) (hrooted.seen y hy) hhash
  have hknown : ∀ header ∈ headers, ∀ index,
      p.node.store.getBlockIndex header.blockHash = .ok (some index) → index.header = header :=
    fun header hheader _ hindex => h.index.knows hinj (hrooted.seen header hheader) hindex
  obtain ⟨htip', hkeeps, hindexed, hnone⟩ :=
    @Node.processHeaders_spec _ cfg p.node headers hfree hknown
  have hnonzero : ∀ hash index, (p.node.processHeaders cfg headers).2.store.getBlockIndex hash =
      .ok (some index) → hash.isZero = false := by
    intro hash index hindex
    rw [← hindex'.headers.hash hash index hindex]
    exact hzero _ (hindex'.headers.seen hash index hindex)
  rw [← hstore] at hindex' htip' hkeeps hindexed hnonzero
  refine ⟨hindex', ?_⟩
  obtain ⟨work, hwork⟩ := h.index.mostWork
  obtain ⟨tip, index, htip, htipIndex, -⟩ := hwork.tip
  have hold : p.node.store.syncTip = ⟨tip, index.height⟩ :=
    Store.syncTip_eq htip htipIndex (hnonzero tip index (hkeeps tip index htipIndex))
  -- without a better header the tip of the store stays
  have hsame : p.node.bestNew cfg headers = none →
    (p.onHeaders cfg headers).node.store.syncTip = ⟨tip, index.height⟩ := by
    intro hbest
    rw [hbest, Option.none_or] at htip'
    exact Store.syncTip_eq (htip'.trans htip) (hkeeps tip index htipIndex)
      (hnonzero tip index (hkeeps tip index htipIndex))
  rcases hsync with ⟨hempty, hsync⟩ | ⟨last, height, hanswered, hsync⟩
  · rw [hsync, h.sync, hold, hsame (hnone (List.getLast?_eq_none_iff.mp hempty))]
  · obtain ⟨lastIndex, hlastIndex, -, rfl⟩ := hindexed _ (List.mem_of_getLast? hanswered)
    have hcondition := hlast.last last lastIndex.height hanswered
    rw [hsync, if_pos (ne_zero_of_isZero_eq_false (hnonzero _ _ hlastIndex)), h.sync,
      SyncTip.updateHeadersTip]
    cases hbest : p.node.bestNew cfg headers with
    | some best =>
      rw [hbest] at hcondition htip'
      obtain ⟨rfl, hle⟩ := hcondition
      rw [if_pos hle]
      exact (Store.syncTip_eq htip' hlastIndex (hnonzero _ _ hlastIndex)).symm
    | none =>
      rw [hbest, hold] at hcondition
      rw [hsame hbest, hold]
      rcases hcondition with hlower | hself
      · rw [if_neg (UInt32.not_le.mpr hlower)]
      · obtain rfl := Option.some.inj (hself.trans htip)
        obtain rfl := Option.some.inj (Except.ok.inj
          (hlastIndex.symm.trans (hkeeps _ _ htipIndex)))
        rw [if_pos (UInt32.le_refl _)]

end Message

/-! ### Every run -/

section Runs

variable {cfg : Config} {seen : Set BlockHeader} {n : Node} {p : PeerManager}

/-- The start on a store that earlier sessions have left. -/
lemma Resumed.agrees_new (h : Resumed cfg seen n) :
    (PeerManager.new cfg n.store).Agrees cfg seen := by
  refine ⟨?_, rfl⟩
  change IndexedHeaders cfg seen (Node.restart cfg n.store).store
  rw [h.store_restart]
  exact h.index

/-- A networking stack started on a store with a genesis block, after any calls before: in every run
of messages that end in their best header, the tip of the sync manager is the header with the most
work, at its height. -/
theorem syncTip_eq_headersTip [ScriptVerifier] (hinj : seen.InjOn BlockHeader.blockHash)
    (hzero : ∀ header ∈ seen, header.blockHash.isZero = false)
    (hgenesis : cfg.params.genesisHeader ∈ seen)
    (hbefore : Reachable (Node.call cfg)
      (fun n call _ => RootedCall cfg seen n call ∧ TipCall n call) (Node.init cfg) n)
    (hrestart : TipCall n .restart)
    (h : Reachable (PeerManager.message cfg)
      (fun p headers _ => RootedCall cfg seen p.node (.processHeaders headers) ∧
        p.BestLast cfg headers)
      (PeerManager.new cfg n.store) p) :
    ∃ tip index, p.node.store.getHeadersTip = some tip ∧
      p.node.store.getBlockIndex tip = .ok (some index) ∧
      p.node.store.MostWork index.chainWork ∧ p.sync = ⟨tip, index.height⟩ := by
  have hresumed := resumed_of_reachable hinj hgenesis hbefore hrestart
  have hinv : p.Agrees cfg seen := by
    refine h.invariant (PeerManager.Agrees cfg seen) hresumed.agrees_new ?_
    rintro p headers p' hp hstep ⟨hrooted, hlast⟩
    obtain rfl := Option.some.inj hstep
    exact hp.onHeaders hinj hzero hgenesis hrooted hlast
  obtain ⟨work, hwork⟩ := hinv.index.mostWork
  obtain ⟨tip, index, htip, hindex, rfl⟩ := hwork.tip
  have hnonzero : tip.isZero = false := by
    rw [← hinv.index.headers.hash tip index hindex]
    exact hzero _ (hinv.index.headers.seen tip index hindex)
  exact ⟨tip, index, htip, hindex, hwork, hinv.sync.trans (Store.syncTip_eq htip hindex hnonzero)⟩

end Runs

end

/-! ### A second branch of the same height -/

namespace Sample

set_option maxRecDepth 100000 in
lemma bestLast_nextBlock :
    ((PeerManager.new cfg (Node.init cfg).store).node.answeredHeaders cfg
        [nextBlock.header]).getLast? = some (nextBlock.header, 1) ∧
      (PeerManager.new cfg (Node.init cfg).store).node.bestNew cfg [nextBlock.header] =
        some nextBlock.header.blockHash ∧
      (PeerManager.new cfg (Node.init cfg).store).node.store.syncTip.height = 0 := by
  have hrun : ∀ p, PeerManager.new cfg (Node.init cfg).store = p →
      (p.node.answeredHeaders cfg [nextBlock.header]).getLast? = some (nextBlock.header, 1) ∧
        p.node.bestNew cfg [nextBlock.header] = some nextBlock.header.blockHash ∧
        p.node.store.syncTip.height = 0 := by
    intro p hp
    unfold cfg at hp ⊢
    unfold Node.answeredHeaders Node.bestNew Node.newRecords
    rw [sha2_eq_digests] at hp ⊢
    unfold Node.init Node.loadGenesisBlock ChainParams.genesisIndex at hp
    unfold Node.processHeaders HeaderBatch.acceptHeaders HeaderBatch.acceptHeader HeaderBatch.push
    rw [calculateBlockWork_eq_division] at hp ⊢
    subst hp
    decide +kernel
  exact hrun _ rfl

/-- One header after the genesis block. -/
theorem syncTip_eq_nextBlock :
    ∃ p, Reachable (PeerManager.message cfg)
        (fun p headers _ =>
          RootedCall cfg { h | h ∈ seenHeaders } p.node (.processHeaders headers) ∧
          p.BestLast cfg headers)
        (PeerManager.new cfg (Node.init cfg).store) p ∧
      ∃ tip index, p.node.store.getHeadersTip = some tip ∧
        p.node.store.getBlockIndex tip = .ok (some index) ∧
        p.node.store.MostWork index.chainWork ∧ p.sync = ⟨tip, index.height⟩ := by
  obtain ⟨hanswered, hbest, hheight⟩ := bestLast_nextBlock
  have hlast : (PeerManager.new cfg (Node.init cfg).store).BestLast cfg [nextBlock.header] :=
    PeerManager.bestLast_of_eq hanswered hbest hheight
  have hrooted : RootedCall cfg { h | h ∈ seenHeaders }
      (PeerManager.new cfg (Node.init cfg).store).node
      (.processHeaders [nextBlock.header]) := rootedCall_nextBlock
  obtain ⟨p, hrun⟩ := PeerManager.reachable_message hrooted hlast
  exact ⟨p, hrun, syncTip_eq_headersTip injOn_seenHeaders isZero_seenHeaders
    genesisHeader_mem_seenHeaders .init tipCall_restart hrun⟩

set_option maxRecDepth 100000 in
lemma syncTip_forkHeader :
    ((((PeerManager.new cfg (Node.init cfg).store).message cfg [nextBlock.header]).bind fun p =>
        p.message cfg [forkHeader]).map fun p => (p.sync.hash, p.node.store.getHeadersTip)) =
      some (forkHeader.blockHash, some nextBlock.header.blockHash) := by
  have hrun : ∀ p, PeerManager.new cfg (Node.init cfg).store = p →
      ((p.message cfg [nextBlock.header]).bind fun p => p.message cfg [forkHeader]).map
        (fun p => (p.sync.hash, p.node.store.getHeadersTip)) =
        some (forkHeader.blockHash, some nextBlock.header.blockHash) := by
    intro p hp
    unfold cfg at hp ⊢
    unfold PeerManager.message PeerManager.onHeaders
    rw [sha2_eq_forkDigests] at hp ⊢
    unfold Node.init Node.loadGenesisBlock ChainParams.genesisIndex at hp
    unfold Node.processHeaders HeaderBatch.acceptHeaders HeaderBatch.acceptHeader HeaderBatch.push
    rw [calculateBlockWork_eq_division] at hp ⊢
    subst hp
    decide +kernel
  exact hrun _ rfl

/-- A second header on top of the genesis block replaces the tip of the sync manager, and not that
of the store. -/
theorem syncTip_leaves_headersTip :
    ¬ ∀ p, Reachable (PeerManager.message cfg) (fun _ _ _ => True)
        (PeerManager.new cfg (Node.init cfg).store) p →
      ∃ tip index, p.node.store.getHeadersTip = some tip ∧
        p.node.store.getBlockIndex tip = .ok (some index) ∧ p.sync = ⟨tip, index.height⟩ := by
  intro h
  obtain ⟨p', hmessages, htips⟩ := Option.map_eq_some_iff.mp syncTip_forkHeader
  obtain ⟨p, hfirst, hsecond⟩ := Option.bind_eq_some_iff.mp hmessages
  obtain ⟨tip, index, htip, -, hsync⟩ :=
    h p' (.step (.step .init hfirst trivial) hsecond trivial)
  obtain ⟨hfork, hnext⟩ := Prod.mk.inj htips
  rw [hsync] at hfork
  obtain rfl := Option.some.inj (htip.symm.trans hnext)
  exact blockHash_forkHeader_ne hfork.symm

end Sample

end Bitcrab
