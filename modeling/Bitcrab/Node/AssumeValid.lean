import Bitcrab.Node.HashChain

/-!
# The blocks connected without script checks

`activate_best_chain` turns the hash of `default_assume_valid` into a height and skips the script
checks of every block up to that height, whichever fork it is on. They are skipped for the named
block and its ancestors only as long as no body of another fork is filed under such a height.
-/

namespace Bitcrab

/-- A hash is that of an indexed block or of one of its ancestors in the index. -/
inductive Store.IsAncestor (s : Store) (hash : BlockHash) : BlockHash → Prop
  | self : s.IsAncestor hash hash
  | parent {descendant : BlockHash} {index : BlockIndex}
      (hindex : s.getBlockIndex descendant = .ok (some index))
      (h : s.IsAncestor hash index.header.prevHash) : s.IsAncestor hash descendant

/-- Whether the block after the tip is connected with script checks. -/
def Activation.checkScripts (cfg : Config) (a : Activation) : Bool :=
  cfg.scriptChecks && a.assumeValidHeight.all fun height => a.currentTip.height + 1 > height

lemma Activation.checkScripts_eq_false {cfg : Config} {a : Activation}
    (hscripts : cfg.scriptChecks = true) (h : a.checkScripts cfg = false) :
    ∃ height, a.assumeValidHeight = some height ∧ a.currentTip.height + 1 ≤ height := by
  unfold Activation.checkScripts at h
  rw [hscripts, Bool.true_and] at h
  cases hheight : a.assumeValidHeight with
  | none => simp [hheight] at h
  | some height =>
    rw [hheight, Option.all_some, decide_eq_false_iff_not] at h
    exact ⟨height, rfl, UInt32.not_lt.mp h⟩

section

variable [Sha2] [ScriptVerifier] {cfg : Config} {s s' : System} {e : Event}

/-- When the activation loop looks for a block at or below the height of the assumed block, every
body accepted and filed for that height is of the assumed block or of an ancestor. -/
def OnAssumedChain (cfg : Config) (s : System) (e : Event) : Prop :=
  match s.node.phase, e with
  | .activating a, .selectBlock _ =>
    ∀ height, a.assumeValidHeight = some height → a.currentTip.height + 1 ≤ height →
      ∀ p ∈ s.history.accepted, p.1 = a.currentTip.height + 1 →
        s.node.Filed (a.currentTip.height + 1) p.2.header.blockHash →
        s.node.store.IsAncestor p.2.header.blockHash cfg.params.consensus.defaultAssumeValid
  | _, _ => True

/-- A step that finds no block of another fork below the assumed one. -/
structure AssumedStep (cfg : Config) (s : System) (e : Event) : Prop where
  collisionFree : e.CollisionFree
  onAssumedChain : OnAssumedChain cfg s e

omit [ScriptVerifier] in
/-- A block selected by the loop was accepted, and is filed under its height. -/
lemma filed_of_selectBlock (hnode : NodeInv cfg s) {a a' : Activation} {recentlyFailed : Bool}
    {n' : Node} (hselect : s.node.selectBlock a recentlyFailed = some n') {hash : BlockHash}
    {block : Block} (hphase' : n'.phase = .connecting a' hash block) :
    a' = a ∧ n'.store = s.node.store ∧ s.node.Filed (a.currentTip.height + 1) hash ∧
      ∃ p ∈ s.history.accepted, p.1 = a.currentTip.height + 1 ∧ p.2.header.blockHash = hash := by
  obtain ⟨waitingBlocks, phase, rfl, -, hcases⟩ := selectBlock_eq_some hselect
  rcases hcases with rfl | ⟨hash', block', rfl, -, hnext, hread⟩
  · cases hphase'
  · cases hphase'
    have hheight := hasHeight_of_nextHash hnode.index hnode.chain hnext
    obtain ⟨hhash, -, b, hb, hheader⟩ :=
      header_of_readBlock (hnode.index.backed hash) hheight hread
    refine ⟨rfl, rfl, filed_of_nextHash hnext, _, hb, rfl, ?_⟩
    rw [hheader, hhash]

lemma nodeInv_of_reachable {ok : System → Event → System → Prop}
    (hok : ∀ s e s', ok s e s' → e.CollisionFree)
    (h : Reachable (System.step cfg) ok (System.init cfg) s) : NodeInv cfg s := by
  refine h.invariant (NodeInv cfg) (nodeInv_init cfg) ?_
  intro s e s' hinv hstep hs
  exact (hinv.step (hok s e s' hs) hstep).1

/-- In every run without a body of another fork at or below the height of the assumed block,
whenever the activation loop comes to connect a block without script checks, the block is the
assumed one or an ancestor of it. -/
theorem isAncestor_of_checkScripts_eq_false (hscripts : cfg.scriptChecks = true)
    (h : Reachable (System.step cfg) (fun s e _ => AssumedStep cfg s e) (System.init cfg) s)
    (hstep : s.step cfg e = some s') (hassumed : AssumedStep cfg s e) {a a' : Activation}
    {hash : BlockHash} {block : Block} (hphase : s.node.phase = .activating a)
    (hphase' : s'.node.phase = .connecting a' hash block) (hskip : a'.checkScripts cfg = false) :
    s'.node.store.IsAncestor hash cfg.params.consensus.defaultAssumeValid := by
  have hnode := nodeInv_of_reachable (fun _ _ _ hs => hs.collisionFree) h
  obtain ⟨-, hcases⟩ := hnode.step hassumed.collisionFree hstep
  cases hcases with
  | quiet hquiet =>
    rcases hquiet.connecting a' hash block hphase' with hold | ⟨a₀, r, rfl, hphase₀, hselect⟩
    · simp [hphase] at hold
    · obtain rfl : a = a₀ := by simpa [hphase] using hphase₀
      obtain ⟨rfl, hstore, hfiled, p, hp, hheight, rfl⟩ :=
        filed_of_selectBlock hnode hselect hphase'
      obtain ⟨height, hvalid, hle⟩ := Activation.checkScripts_eq_false hscripts hskip
      have hchain := hassumed.onAssumedChain
      simp only [OnAssumedChain, hphase] at hchain
      rw [hstore]
      exact hchain height hvalid hle p hp hheight hfiled
  | connect hphase₀ => simp [hphase] at hphase₀
  | storeUndo hphase₀ => simp [hphase] at hphase₀
  | flush hphase₀ => simp [hphase] at hphase₀
  | crash => cases hphase'

/-- A set of hashes that is closed under parents in the index. -/
def Store.closedUnderParents (s : Store) (hashes : List BlockHash) : Bool :=
  hashes.all fun hash =>
    match s.getBlockIndex hash with
    | .ok (some index) => hashes.contains index.header.prevHash
    | _ => true

omit [Sha2] [ScriptVerifier] in
/-- It contains the ancestors of each of its hashes. -/
lemma Store.IsAncestor.mem {store : Store} {hashes : List BlockHash} {hash descendant : BlockHash}
    (h : store.IsAncestor hash descendant) (hclosed : store.closedUnderParents hashes = true)
    (hmem : descendant ∈ hashes) : hash ∈ hashes := by
  induction h with
  | self => exact hmem
  | @parent descendant index hindex _ ih =>
    apply ih
    have hparent := List.all_eq_true.mp hclosed descendant hmem
    rw [hindex] at hparent
    exact List.contains_iff_mem.mp hparent

/-- A check for steps that select the assumed block itself, if any. -/
def assumedCheck (cfg : Config) (s : System) (e : Event) (_ : System) : Bool :=
  decide e.CollisionFree &&
    match s.node.phase, e with
    | .activating _, .selectBlock _ =>
      s.history.accepted.all fun p =>
        decide (p.2.header.blockHash = cfg.params.consensus.defaultAssumeValid)
    | _, _ => true

omit [ScriptVerifier] in
lemma assumedStep_of_assumedCheck (h : assumedCheck cfg s e s') : AssumedStep cfg s e := by
  unfold assumedCheck at h
  rw [Bool.and_eq_true, decide_eq_true_eq] at h
  obtain ⟨hfree, hassumed⟩ := h
  refine ⟨hfree, ?_⟩
  unfold OnAssumedChain
  split at hassumed
  · intro height _ _ p hp _ _
    rw [of_decide_eq_true (List.all_eq_true.mp hassumed p hp)]
    exact .self
  · trivial

/-- The hash of the block that the node is about to connect without script checks. -/
def unchecked (cfg : Config) (s : System) : Option BlockHash :=
  match s.node.phase with
  | .connecting a hash _ => if a.checkScripts cfg then none else some hash
  | _ => none

omit [Sha2] [ScriptVerifier] in
lemma exists_of_unchecked {hash : BlockHash} (h : unchecked cfg s = some hash) :
    ∃ a block, s.node.phase = .connecting a hash block ∧ a.checkScripts cfg = false := by
  unfold unchecked at h
  split at h
  · rename_i a hash' block hphase
    split_ifs at h with hskip
    obtain rfl := Option.some.inj h
    exact ⟨a, block, hphase, Bool.eq_false_of_not_eq_true hskip⟩
  · cases h

end

/-! ### A fork below the assumed block -/

namespace Sample

/-- A regtest node with an assumed block. -/
def assumeValidCfg (assumed : BlockHash) : Config :=
  { cfg with params := { regtestParams with
      consensus := { regtestParams.consensus with defaultAssumeValid := assumed } } }

set_option maxRecDepth 100000 in
lemma run_assumedEvents :
    (Reachable.run (System.step (assumeValidCfg nextBlock.header.blockHash))
      (assumedCheck (assumeValidCfg nextBlock.header.blockHash))
      (System.init (assumeValidCfg nextBlock.header.blockHash)) (connectEvents.take 7)).bind
        (fun s => (s.step (assumeValidCfg nextBlock.header.blockHash) (.selectBlock false)).bind
          fun s' => if assumedCheck (assumeValidCfg nextBlock.header.blockHash) s
            (.selectBlock false) s' then unchecked (assumeValidCfg nextBlock.header.blockHash) s'
            else none) = some nextBlock.header.blockHash := by
  unfold assumeValidCfg cfg System.step System.init Node.step Node.init Node.loadGenesisBlock
    Node.acceptHeader HeaderBatch.acceptHeader HeaderBatch.push ChainParams.genesisIndex
    Node.selectBlock Node.connect
  rw [sha2_eq_digests, calculateBlockWork_eq_division]
  decide +kernel

theorem isAncestor_nextBlock :
    ∃ s s' a a' block, Reachable (System.step (assumeValidCfg nextBlock.header.blockHash))
        (fun s e _ => AssumedStep (assumeValidCfg nextBlock.header.blockHash) s e)
        (System.init (assumeValidCfg nextBlock.header.blockHash)) s ∧
      s.step (assumeValidCfg nextBlock.header.blockHash) (.selectBlock false) = some s' ∧
      s.node.phase = .activating a ∧
      s'.node.phase = .connecting a' nextBlock.header.blockHash block ∧
      a'.checkScripts (assumeValidCfg nextBlock.header.blockHash) = false ∧
      s'.node.store.IsAncestor nextBlock.header.blockHash
        (assumeValidCfg nextBlock.header.blockHash).params.consensus.defaultAssumeValid := by
  obtain ⟨s, hrun, hs⟩ := Option.bind_eq_some_iff.mp run_assumedEvents
  obtain ⟨s', hstep, hs'⟩ := Option.bind_eq_some_iff.mp hs
  split_ifs at hs' with hcheck
  obtain ⟨a', block, hphase', hskip⟩ := exists_of_unchecked hs'
  have hreach := Reachable.init.of_run (fun _ _ _ => assumedStep_of_assumedCheck) hrun
  obtain ⟨n', hselect, -⟩ := step_eq_some hstep
  obtain ⟨a, hphase, -⟩ := Node.step_selectBlock hselect
  exact ⟨s, s', a, a', block, hreach, hstep, hphase, hphase', hskip,
    isAncestor_of_checkScripts_eq_false rfl hreach hstep (assumedStep_of_assumedCheck hcheck)
      hphase hphase' hskip⟩

/-- The node learns of the two forks, downloads the first block of the one that is not assumed and
comes to connect it. -/
def unassumedEvents : List Event :=
  [.recvHeaders [nextBlock.header], .acceptHeader, .storeHeaders, .recvHeaders [forkHeader],
    .acceptHeader, .storeHeaders, .recvBlock nextBlock, .storeBlocks 1, .blockDownloaded 0,
    .activate, .selectBlock false]

set_option maxRecDepth 100000 in
lemma run_unassumedEvents :
    (Reachable.run (System.step (assumeValidCfg forkHeader.blockHash))
      (fun _ e _ => decide e.CollisionFree) (System.init (assumeValidCfg forkHeader.blockHash))
      unassumedEvents).map (fun s => (unchecked (assumeValidCfg forkHeader.blockHash) s,
        s.node.store.closedUnderParents
          [forkHeader.blockHash, regtestParams.genesisHash, Digest.zero])) =
      some (some nextBlock.header.blockHash, true) := by
  unfold assumeValidCfg cfg System.step System.init Node.step Node.init Node.loadGenesisBlock
    Node.acceptHeader HeaderBatch.acceptHeader HeaderBatch.push ChainParams.genesisIndex
    Node.selectBlock Node.connect
  rw [sha2_eq_forkDigests, calculateBlockWork_eq_division]
  decide +kernel

set_option maxRecDepth 100000 in
lemma blockHash_nextBlock_notMem :
    nextBlock.header.blockHash ∉
      [forkHeader.blockHash, regtestParams.genesisHash, Digest.zero] := by
  rw [sha2_eq_forkDigests]
  decide +kernel

/-- The node connects the first block of the other fork without script checks. -/
theorem not_isAncestor_unassumed :
    ∃ s a block, Reachable (System.step (assumeValidCfg forkHeader.blockHash))
        (fun _ e _ => e.CollisionFree) (System.init (assumeValidCfg forkHeader.blockHash)) s ∧
      (assumeValidCfg forkHeader.blockHash).scriptChecks = true ∧
      s.node.phase = .connecting a nextBlock.header.blockHash block ∧
      a.checkScripts (assumeValidCfg forkHeader.blockHash) = false ∧
      ¬ s.node.store.IsAncestor nextBlock.header.blockHash
        (assumeValidCfg forkHeader.blockHash).params.consensus.defaultAssumeValid := by
  obtain ⟨s, hrun, hs⟩ := Option.map_eq_some_iff.mp run_unassumedEvents
  rw [Prod.mk.injEq] at hs
  obtain ⟨a, block, hphase, hskip⟩ := exists_of_unchecked hs.1
  refine ⟨s, a, block, Reachable.init.of_run (fun _ _ _ => of_decide_eq_true) hrun, rfl, hphase,
    hskip, ?_⟩
  intro hancestor
  exact blockHash_nextBlock_notMem (hancestor.mem hs.2 (List.mem_cons_self ..))

end Sample

end Bitcrab
