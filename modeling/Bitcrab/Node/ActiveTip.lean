import Bitcrab.Node.CrashConsistency

/-!
# The published tip

`active_tip` is what the other tasks see of the chain; the cache has a best block of its own, which
`connect_block` moves before the undo data of the block is stored. Between two activations the two
agree, whatever calls of `connect_block` and whatever flushes fail, as long as the undo data can be
stored; if they cannot, the published tip stays one block behind.
-/

namespace Bitcrab

/-- What can happen to a node whose disk may fail. -/
inductive FaultyEvent where
  | event (e : Event)
  /-- `store_undo` fails, and the activation ends. -/
  | storeUndoFails
  /-- The flush fails, and the activation ends. The storage actor has taken note of the heights of
  some connected blocks already. -/
  | flushFails (noted : Nat)

/-- Waiting for `store_undo`. -/
def Phase.awaitsUndo : Phase → Bool
  | .storingUndo _ _ _ _ => true
  | _ => false

/-- The hash of the published tip. -/
def Node.activeTipHash (n : Node) : Option BlockHash := n.chainstate.activeTip.map Prod.fst

section

variable [Sha2] [ScriptVerifier] (cfg : Config)

/-- One step of a node whose disk may fail. -/
def System.faultyStep (s : System) : FaultyEvent → Option System
  | .event e => s.step cfg e
  | .storeUndoFails =>
    match s.node.phase with
    | .storingUndo _ _ _ _ => some { s with node := { s.node with phase := .idle } }
    | _ => none
  | .flushFails noted =>
    match s.node.phase with
    | .flushing _ => some { s with node := { s.node with
        blockManager := { s.node.blockManager with
          lastKnownTipHeight := (s.node.chainstate.cache.connectedBlocks.take noted).foldl
            (fun tip e => if e.1 ≥ tip then e.1 else tip)
            s.node.blockManager.lastKnownTipHeight }
        phase := .idle } }
    | _ => none

/-- A step without two different headers of the same hash in a message. -/
def FaultyEvent.CollisionFree : FaultyEvent → Prop
  | .event e => e.CollisionFree
  | _ => True

/-- Such a step that does not fail to store undo data. -/
def FaultyEvent.UndoStored : FaultyEvent → Prop
  | .event e => e.CollisionFree
  | .storeUndoFails => False
  | .flushFails _ => True

variable {cfg} {s s' : System} {e : Event}

/-- The published tip is moved by storing undo data, and set by `load_genesis` and at a start. A
wait for `store_undo` is ended by its answer, or by a crash. -/
lemma activeTip_step {n n' : Node} (h : n.step cfg e = some n') (hundo : e ≠ .storeUndo)
    (hgenesis : e ≠ .loadGenesis) (hcrash : e ≠ .crash) :
    n'.chainstate.activeTip = n.chainstate.activeTip ∧
      (n.phase.awaitsUndo → n'.phase.awaitsUndo) := by
  cases e with
  | recvHeaders headers =>
    obtain rfl := Node.step_recvHeaders h
    exact ⟨rfl, id⟩
  | acceptHeader =>
    obtain ⟨headers, rfl⟩ := Node.step_acceptHeader h
    exact ⟨rfl, id⟩
  | storeHeaders =>
    obtain rfl | ⟨batch, -, rfl⟩ := Node.step_storeHeaders h
    · exact ⟨rfl, id⟩
    · exact ⟨rfl, id⟩
  | recvBlock block =>
    obtain rfl := Option.some.inj h
    obtain ⟨storeQueue, downloaded, heq⟩ := Node.recvBlock_eq cfg n block
    rw [heq]
    exact ⟨rfl, id⟩
  | storeBlocks count =>
    obtain ⟨blockManager, store, storeQueue, downloaded, rfl⟩ := Node.step_storeBlocks h
    exact ⟨rfl, id⟩
  | blockDownloaded i =>
    obtain ⟨downloaded, waitingBlocks, rfl⟩ := Node.step_blockDownloaded h
    exact ⟨rfl, id⟩
  | activate =>
    obtain ⟨hphase, rfl | ⟨a, -, rfl⟩⟩ := Node.step_activate h
    · exact ⟨rfl, id⟩
    · exact ⟨rfl, by simp [hphase, Phase.awaitsUndo]⟩
  | selectBlock recentlyFailed =>
    obtain ⟨a, hphase, hselect⟩ := Node.step_selectBlock h
    obtain ⟨waitingBlocks, phase, rfl, -, -⟩ := selectBlock_eq_some hselect
    exact ⟨rfl, by simp [hphase, Phase.awaitsUndo]⟩
  | connect completion =>
    obtain ⟨a, hash, block, hphase, rfl⟩ := Node.step_connect h
    refine ⟨?_, by simp [hphase, Phase.awaitsUndo]⟩
    unfold Node.connect
    split
    · rfl
    · rfl
  | storeUndo => exact absurd rfl hundo
  | flush coinOrder undoOrder trimOrder =>
    obtain ⟨a, hphase, rfl⟩ := Node.step_flush h
    exact ⟨rfl, by simp [hphase, Phase.awaitsUndo]⟩
  | repairTip =>
    obtain ⟨hphase, rfl⟩ | ⟨tip, tips, hphase, rfl⟩ := Node.step_repairTip h
    · exact ⟨rfl, by simp [hphase, Phase.awaitsUndo]⟩
    · exact ⟨rfl, by simp [hphase, Phase.awaitsUndo]⟩
  | loadGenesis => exact absurd rfl hgenesis
  | crash => exact absurd rfl hcrash

/-- Unless the node waits for `store_undo`, it publishes the last block of its chain. -/
def TipInv (cfg : Config) (s : System) : Prop :=
  s.node.phase.awaitsUndo = false →
    s.node.activeTipHash = (chainHashes cfg s.history.connected)[s.history.connected.length]?

omit [Sha2] [ScriptVerifier] in
/-- A start publishes the best block of the store. -/
lemma activeTipHash_start {store : Store} {hash : BlockHash} {height : BlockHeight}
    (hbest : store.getBestBlock = some hash) (hheight : store.HasHeight hash height) :
    (Node.start cfg store).activeTipHash = some hash := by
  obtain ⟨index, hindex, -⟩ := hheight
  have hfind : store.findBlockIndex hash = some index := by
    rw [Store.findBlockIndex, hindex]
    rfl
  simp [Node.activeTipHash, Node.start, ChainstateManager.new, hbest, hfind]

omit [ScriptVerifier] in
/-- A successful `store_undo` publishes the block. -/
lemma tipInv_storeUndo (hnode : NodeInv cfg s) {a : Activation} {hash : BlockHash} {block : Block}
    {undo : BlockUndo} (hphase : s.node.phase = .storingUndo a hash block undo) :
    TipInv cfg ⟨s.node.storeUndo a hash block undo, s.history⟩ := by
  intro _
  have hundone := hnode.chain.phase
  rw [PhaseInv, hphase] at hundone
  obtain ⟨-, hbody, hlast⟩ := hundone
  obtain ⟨bm, store, hundo⟩ :=
    handleStoreUndo_of_hasBody undo hbody fun index hl => (hnode.index.undo hash index hl).2.1
  rw [hlast]
  simp [Node.storeUndo, hundo, Node.activeTipHash]

/-- A restart publishes the last block flushed. -/
lemma tipInv_crash
    (hnode' : NodeInv cfg ⟨Node.start cfg s.node.store, s.history.next cfg s.node .crash⟩) :
    TipInv cfg ⟨Node.start cfg s.node.store, s.history.next cfg s.node .crash⟩ := by
  intro _
  obtain ⟨hash, hhash⟩ : ∃ hash, (chainHashes cfg (s.history.connected.take s.history.flushed))[
      (s.history.connected.take s.history.flushed).length]? = some hash :=
    ⟨_, List.getElem?_eq_getElem (by simp)⟩
  have hbest : s.node.store.getBestBlock = some hash := hnode'.chain.cacheBest.trans hhash
  exact (activeTipHash_start hbest (hnode'.chain.heights _ hash hhash)).trans hhash.symm

/-- Every step without a failure to store undo data keeps the two tips in step. -/
lemma TipInv.step (hinv : TipInv cfg s) (hnode : NodeInv cfg s) (hfree : e.CollisionFree)
    (hstep : s.step cfg e = some s') : TipInv cfg s' := by
  obtain ⟨hnode', hcases⟩ := hnode.step hfree hstep
  obtain ⟨n', hnstep, rfl⟩ := step_eq_some hstep
  by_cases hundo : e = .storeUndo
  · subst hundo
    obtain ⟨a, hash, block, undo, hphase, rfl⟩ := Node.step_storeUndo hnstep
    exact tipInv_storeUndo hnode hphase
  by_cases hgenesis : e = .loadGenesis
  · subst hgenesis
    obtain rfl := Node.step_loadGenesis (hnode.chain.heights 0 cfg.params.genesisHash rfl) hnstep
    exact hinv
  by_cases hcrash : e = .crash
  · subst hcrash
    obtain rfl := Node.step_crash hnstep
    exact tipInv_crash hnode'
  -- the published tip stays, and so does the chain unless a block is connected
  obtain ⟨htip, hphase⟩ := activeTip_step hnstep hundo hgenesis hcrash
  intro hphase'
  have hold : s.node.phase.awaitsUndo = false := by
    rw [← Bool.not_eq_true] at hphase' ⊢
    exact mt hphase hphase'
  have hconnected : (s.history.next cfg s.node e).connected = s.history.connected := by
    cases hcases with
    | quiet hquiet => exact hquiet.connected
    | @connect a hash block completion hconnecting =>
      rcases hresult : s.node.connectCall cfg a block completion with ⟨result, view⟩
      cases result with
      | ok r => simp [Node.connect, hresult, Phase.awaitsUndo] at hphase'
      | error err => simp only [History.next, hconnecting, hresult]
    | storeUndo => rfl
    | flush => rfl
    | crash => exact absurd rfl hcrash
  unfold Node.activeTipHash
  dsimp only
  rw [htip, hconnected]
  exact hinv hold

/-- A failing flush ends the activation. -/
lemma inv_flushFails (hnode : NodeInv cfg s) (hinv : TipInv cfg s) {noted : Nat}
    (hstep : s.faultyStep cfg (.flushFails noted) = some s') : NodeInv cfg s' ∧ TipInv cfg s' := by
  simp only [System.faultyStep] at hstep
  split at hstep
  case h_2 => cases hstep
  rename_i a hphase
  obtain rfl := Option.some.inj hstep
  have hkept : ChainstateKept s.node { s.node with
      blockManager := { s.node.blockManager with
        lastKnownTipHeight := (s.node.chainstate.cache.connectedBlocks.take noted).foldl
          (fun tip e => if e.1 ≥ tip then e.1 else tip) s.node.blockManager.lastKnownTipHeight }
      phase := .idle } := chainstateKept_of_store_eq rfl rfl
  refine ⟨⟨?_, ?_⟩, ?_⟩
  · obtain ⟨hfiles, hlast, hbacked, hundo, hheader, hwaiting, hdownloaded, hqueued, hheaders⟩ :=
      hnode.index
    exact ⟨hfiles, hlast, hbacked, hundo, hheader, hwaiting, hdownloaded, hqueued, hheaders⟩
  · exact hnode.chain.of_kept hkept rfl rfl (List.Subset.refl _) True.intro
  · exact fun _ => hinv (by simp [hphase, Phase.awaitsUndo])

/-- After `load_genesis`, and in every run in which no undo data fails to be stored, the published
tip is the best block of the cache whenever no activation is under way. -/
theorem activeTipHash_eq_getBestBlock
    (h : Reachable (System.faultyStep cfg) (fun _ e _ => e.UndoStored) (System.init cfg) s)
    (hidle : s.node.phase = .idle) : s.node.activeTipHash = s.node.cacheView.getBestBlock := by
  have hinv : NodeInv cfg s ∧ TipInv cfg s := by
    refine h.invariant (fun s => NodeInv cfg s ∧ TipInv cfg s) ⟨nodeInv_init cfg, ?_⟩ ?_
    · exact fun _ => rfl
    · rintro s e s' ⟨hnode, htip⟩ hstep hstored
      cases e with
      | event e => exact ⟨(hnode.step hstored hstep).1, htip.step hnode hstored hstep⟩
      | storeUndoFails => exact absurd hstored id
      | flushFails noted => exact inv_flushFails hnode htip hstep
  rw [hinv.1.chain.getBestBlock]
  exact hinv.2 (by simp [hidle, Phase.awaitsUndo])

instance : DecidablePred FaultyEvent.CollisionFree
  | .event e => inferInstanceAs (Decidable e.CollisionFree)
  | .storeUndoFails | .flushFails _ => .isTrue True.intro

instance : DecidablePred FaultyEvent.UndoStored
  | .event e => inferInstanceAs (Decidable e.CollisionFree)
  | .storeUndoFails => .isFalse id
  | .flushFails _ => .isTrue True.intro

/-- The two tips of an idle node. -/
def idleTips (s : System) : Option (Option BlockHash × Option BlockHash) :=
  match s.node.phase with
  | .idle => some (s.node.activeTipHash, s.node.cacheView.getBestBlock)
  | _ => none

omit [Sha2] [ScriptVerifier] in
lemma idleTips_eq_some {tips : Option BlockHash × Option BlockHash} (h : idleTips s = some tips) :
    s.node.phase = .idle ∧ s.node.activeTipHash = tips.1 ∧
      s.node.cacheView.getBestBlock = tips.2 := by
  unfold idleTips at h
  split at h
  · rename_i hphase
    obtain rfl := Option.some.inj h
    exact ⟨hphase, rfl, rfl⟩
  · cases h

end

/-! ### A block connected, with and without its undo data -/

namespace Sample

set_option maxRecDepth 100000 in
lemma run_undoStored :
    (Reachable.run (System.faultyStep cfg) (fun _ e _ => decide e.UndoStored) (System.init cfg)
      ((connectEvents ++ [Event.selectBlock false]).map .event)).bind idleTips =
      some (some nextBlock.header.blockHash, some nextBlock.header.blockHash) := by
  unfold cfg System.faultyStep System.step System.init Node.step Node.init Node.loadGenesisBlock
    Node.acceptHeader HeaderBatch.acceptHeader HeaderBatch.push ChainParams.genesisIndex
    Node.selectBlock Node.connect
  rw [sha2_eq_digests, calculateBlockWork_eq_division]
  decide +kernel

theorem activeTipHash_nextBlock :
    ∃ s, Reachable (System.faultyStep cfg) (fun _ e _ => e.UndoStored) (System.init cfg) s ∧
      s.node.phase = .idle ∧ s.node.activeTipHash = some nextBlock.header.blockHash ∧
      s.node.activeTipHash = s.node.cacheView.getBestBlock := by
  obtain ⟨s, hrun, hs⟩ := Option.bind_eq_some_iff.mp run_undoStored
  obtain ⟨hidle, htip, -⟩ := idleTips_eq_some hs
  have hreach : Reachable (System.faultyStep cfg) (fun _ e _ => e.UndoStored)
      (System.init cfg) s := Reachable.init.of_run (fun _ _ _ => of_decide_eq_true) hrun
  exact ⟨s, hreach, hidle, htip, activeTipHash_eq_getBestBlock hreach hidle⟩

/-- The node connects a block, and cannot store its undo data. -/
def undoFailsEvents : List FaultyEvent :=
  (connectEvents.take 9).map .event ++ [.storeUndoFails]

set_option maxRecDepth 100000 in
lemma run_undoFailsEvents :
    (Reachable.run (System.faultyStep cfg) (fun _ e _ => decide e.CollisionFree) (System.init cfg)
      undoFailsEvents).bind idleTips =
      some (some regtestParams.genesisHash, some nextBlock.header.blockHash) := by
  unfold cfg System.faultyStep System.step System.init Node.step Node.init Node.loadGenesisBlock
    Node.acceptHeader HeaderBatch.acceptHeader HeaderBatch.push ChainParams.genesisIndex
    Node.selectBlock Node.connect
  rw [sha2_eq_digests, calculateBlockWork_eq_division]
  decide +kernel

set_option maxRecDepth 100000 in
lemma genesisHash_ne_nextBlock : regtestParams.genesisHash ≠ nextBlock.header.blockHash := by
  rw [sha2_eq_digests]
  decide +kernel

/-- The published tip is the genesis block, and the best block of the cache the one after it. -/
theorem activeTipHash_ne_getBestBlock :
    ∃ s, Reachable (System.faultyStep cfg) (fun _ e _ => e.CollisionFree) (System.init cfg) s ∧
      s.node.phase = .idle ∧ s.node.activeTipHash = some regtestParams.genesisHash ∧
      s.node.cacheView.getBestBlock = some nextBlock.header.blockHash ∧
      s.node.activeTipHash ≠ s.node.cacheView.getBestBlock := by
  obtain ⟨s, hrun, hs⟩ := Option.bind_eq_some_iff.mp run_undoFailsEvents
  obtain ⟨hidle, htip, hbest⟩ := idleTips_eq_some hs
  refine ⟨s, Reachable.init.of_run (fun _ _ _ => of_decide_eq_true) hrun, hidle, htip, hbest, ?_⟩
  rw [htip, hbest, Ne, Option.some.injEq]
  exact genesisHash_ne_nextBlock

end Sample

end Bitcrab
