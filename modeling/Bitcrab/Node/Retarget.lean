import Bitcrab.Node.AssumeValid
import Bitcrab.Node.StoreSteps

/-!
# The first block of a difficulty period

At the end of a period `get_next_work_required` looks for its first block by height: in the table of
the connected chain, then in that of the headers. Both tables hold one block for each height, of
whichever fork came last, so that the bits asked of a header follow from the ancestors of its parent
only as long as no other fork has a block there.
-/

namespace Bitcrab

open BlockManager

/-! ### What a retarget reads -/

/-- The height of the first block of the period that ends with a block, if one ends. -/
def retargetHeight (indexPrev : BlockIndex) (params : ConsensusParams) : Option UInt32 :=
  let interval := (params.powTargetTimespan / params.powTargetSpacing).toUInt32
  if params.powNoRetargeting ∨ params.fPowAllowMinDifficultyBlocks then none
  else if (indexPrev.height + 1) % interval ≠ 0 then none
  else some (UInt32.ofNat (indexPrev.height.toNat - (interval - 1).toNat))

/-- The timestamp of the block that a provider finds at a height. -/
def BlockIndexProvider.timeAt (provider : BlockIndexProvider) (height : UInt32) : Option UInt32 :=
  (provider height).map (·.header.time)

section

variable {prev : BlockIndex} {header : BlockHeader} {provider provider' : BlockIndexProvider}

/-- The bits that are required follow from the timestamp of the first block of the period. -/
lemma getNextWorkRequired_congr {params : ConsensusParams}
    (h : ∀ first, retargetHeight prev params = some first →
      provider.timeAt first = provider'.timeAt first) :
    getNextWorkRequired prev header params provider =
      getNextWorkRequired prev header params provider' := by
  unfold getNextWorkRequired
  dsimp only
  split_ifs with hno hmin hlate hnext
  · rfl
  · rfl
  · rfl
  · rfl
  · have hfirst := h _ (by
      unfold retargetHeight
      rw [if_neg (by simp [hno, hmin]), if_neg hnext])
    generalize UInt32.ofNat _ = first at hfirst ⊢
    unfold BlockIndexProvider.timeAt at hfirst
    cases hp : provider first with
    | none =>
      rw [hp, Option.map_none, eq_comm, Option.map_eq_none_iff] at hfirst
      rw [hfirst]
    | some index =>
      rw [hp, Option.map_some, eq_comm, Option.map_eq_some_iff] at hfirst
      obtain ⟨index', hp', htime⟩ := hfirst
      simp only [hp', htime]

lemma checkBlockHeader_congr_provider [Sha2] {params : ChainParams}
    (h : ∀ first, retargetHeight prev params.consensus = some first →
      provider.timeAt first = provider'.timeAt first) :
    checkBlockHeader header prev params provider =
      checkBlockHeader header prev params provider' := by
  unfold checkBlockHeader
  rw [getNextWorkRequired_congr h]

end

/-! ### The tables of a running node -/

/-- Every height at which a block is indexed has an entry in the `z` table. -/
def Store.HeightsFiled (s : Store) : Prop :=
  ∀ hash height, s.HasHeight hash height → (s.getBlockHashByHeaderHeight height).isSome

section HeightsFiled

variable {s s' : Store} {entries : List (BlockHash × BlockIndex)}

/-- Entries stay in the `z` table. -/
lemma IndexesWritten.isSome_headerHeight (h : IndexesWritten s s' entries) {height : UInt32}
    (hsome : (s.getBlockHashByHeaderHeight height).isSome) :
    (s'.getBlockHashByHeaderHeight height).isSome := by
  rcases h.headerHeight height with hsame | ⟨e, -, -, hnew⟩
  · rw [hsame]
    exact hsome
  · rw [hnew]
    rfl

lemma Store.HeightsFiled.of_indexesWritten (hfiled : s.HeightsFiled)
    (h : IndexesWritten s s' entries)
    (hentries : ∀ e ∈ entries, (s'.getBlockHashByHeaderHeight e.2.height).isSome) :
    s'.HeightsFiled := by
  rintro hash height ⟨index, hindex, rfl⟩
  rcases h.index hash with ⟨-, hsame⟩ | ⟨e, he, -, hnew⟩
  · exact h.isSome_headerHeight (hfiled hash _ ⟨index, hsame.symm.trans hindex, rfl⟩)
  · rw [hnew, Except.ok.injEq, Option.some.injEq] at hindex
    rw [← hindex]
    exact hentries e he

end HeightsFiled

section Runs

variable [Sha2] {cfg : Config} {s s' : System} {e : Event}

lemma heightsFiled_init [ScriptVerifier] : (System.init cfg).node.store.HeightsFiled := by
  rintro hash height ⟨index, hindex, rfl⟩
  obtain ⟨-, rfl⟩ := getBlockIndex_genesisStore cfg hindex
  change (Store.readHash (genesisStore cfg).db (.headerHeight 0)).isSome
  simp [Store.readHash, get_genesisStore]

/-- Every step files the heights at which it indexes blocks. -/
lemma Store.HeightsFiled.step [ScriptVerifier] (hfiled : s.node.store.HeightsFiled)
    (hinv : NodeInv cfg s) (hstep : s.step cfg e = some s') : s'.node.store.HeightsFiled := by
  have hwrites := hinv.storeStep hstep
  generalize e.handled s.node = msgs at hwrites
  cases hwrites with
  | headers hwritten _ hnew _ => exact hfiled.of_indexesWritten hwritten hnew
  | blocks hwritten hqueued hentries _ =>
    refine hfiled.of_indexesWritten hwritten fun e he => ?_
    obtain ⟨msg, hmsg, -, hheight, -⟩ := hentries e he
    apply hwritten.isSome_headerHeight
    rw [hheight]
    exact hfiled _ _ (hinv.index.queued msg (hqueued msg hmsg)).height
  | flush hwritten _ =>
    rintro hash height ⟨index, hindex, rfl⟩
    rw [hwritten.headerHeight]
    rw [hwritten.index] at hindex
    cases hl : s.node.blockManager.pendingUndoIndexes.lookup hash with
    | none =>
      simp only [hl] at hindex
      exact hfiled hash _ ⟨index, hindex, rfl⟩
    | some index' =>
      simp only [hl, Except.ok.injEq, Option.some.injEq] at hindex
      subst hindex
      exact hfiled hash _ (hinv.index.undo hash index' hl).1

/-- The tables of a reachable node agree with its index. -/
lemma heightsFiled_of_reachable [ScriptVerifier]
    (h : Reachable (System.step cfg) (fun _ e _ => e.CollisionFree) (System.init cfg) s) :
    NodeInv cfg s ∧ s.node.store.HeightsFiled := by
  refine h.invariant (fun s => NodeInv cfg s ∧ s.node.store.HeightsFiled)
    ⟨nodeInv_init cfg, heightsFiled_init⟩ ?_
  rintro s e s' ⟨hinv, hfiled⟩ hstep hfree
  exact ⟨(hinv.step hfree hstep).1, hfiled.step hinv hstep⟩

/-! ### The ancestor of the parent -/

omit [Sha2] in
/-- A store has the headers of a chain at their heights, from a hash down along the parents. -/
def Store.HasChain (s : Store) : BlockHash → List BlockIndex → Prop
  | _, [] => True
  | hash, index :: chain =>
    (s.findBlockIndex hash).map (fun record => (record.header, record.height)) =
        some (index.header, index.height) ∧
      s.HasChain index.header.prevHash chain

/-- The block of a chain at a height. -/
def ancestorAt (chain : List BlockIndex) (height : UInt32) : Option BlockIndex :=
  chain.find? fun index => index.height = height

/-- The hash that the tables have for a height. -/
def Store.hashAt (s : Store) (height : UInt32) : Option BlockHash :=
  (s.getBlockHash height).or (s.getBlockHashByHeaderHeight height)

/-- The block of the tables at a height has a timestamp; at height 0, so has the genesis block. -/
structure Store.TimeAt (s : Store) (params : ChainParams) (height time : UInt32) : Prop where
  genesis : height = 0 → params.genesisHeader.time = time
  table : ∃ hash index, s.hashAt height = some hash ∧ s.getBlockIndex hash = .ok (some index) ∧
    index.header.time = time

/-- Every block that is indexed at a height has a timestamp; at height 0, so has the genesis
block. -/
structure Store.OnlyTimeAt (s : Store) (params : ChainParams) (height time : UInt32) : Prop where
  genesis : height = 0 → params.genesisHeader.time = time
  index : ∀ hash index, s.getBlockIndex hash = .ok (some index) → index.height = height →
    index.header.time = time

/-- Two providers give the same verdict on each header after the first block of a chain, and a
retarget uses the timestamp of the block of the chain. -/
def FollowsChain (params : ChainParams) (prev : BlockIndex) (chain : List BlockIndex)
    (provider provider' : BlockIndexProvider) : Prop :=
  (∀ header, checkBlockHeader header prev params provider =
      checkBlockHeader header prev params provider') ∧
    ∀ first ancestor, retargetHeight prev params.consensus = some first →
      ancestorAt chain first = some ancestor →
      provider.timeAt first = some ancestor.header.time ∧
        provider'.timeAt first = some ancestor.header.time

lemma followsChain_of_timeAt {params : ChainParams} {prev : BlockIndex} {chain : List BlockIndex}
    {provider provider' : BlockIndexProvider}
    (hreaches : ∀ first, retargetHeight prev params.consensus = some first →
      (ancestorAt chain first).isSome)
    (h : ∀ first ancestor, retargetHeight prev params.consensus = some first →
      ancestorAt chain first = some ancestor →
      provider.timeAt first = some ancestor.header.time ∧
        provider'.timeAt first = some ancestor.header.time) :
    FollowsChain params prev chain provider provider' := by
  refine ⟨fun header => ?_, h⟩
  apply checkBlockHeader_congr_provider
  intro first hfirst
  obtain ⟨ancestor, hancestor⟩ := Option.isSome_iff_exists.mp (hreaches first hfirst)
  obtain ⟨htime, htime'⟩ := h first ancestor hfirst hancestor
  rw [htime, htime']

omit [Sha2] in
/-- The block of a chain at a height is indexed at that height. -/
lemma Store.HasChain.hasHeight {store : Store} {hash : BlockHash} {chain : List BlockIndex}
    (h : store.HasChain hash chain) {height : UInt32} {ancestor : BlockIndex}
    (hancestor : ancestorAt chain height = some ancestor) :
    ∃ hash, store.HasHeight hash height := by
  induction chain generalizing hash with
  | nil => cases hancestor
  | cons index chain ih =>
    obtain ⟨hrecord, hrest⟩ := h
    obtain ⟨record, hfind, hsame⟩ := Option.map_eq_some_iff.mp hrecord
    by_cases hindex : index.height = height
    · exact ⟨hash, record, Store.getBlockIndex_of_findBlockIndex hfind,
        (congrArg Prod.snd hsame).trans hindex⟩
    · rw [ancestorAt, List.find?_cons_of_neg (by simpa using hindex)] at hancestor
      exact ih hrest hancestor

/-- The hash that the tables have for a height is indexed at that height. -/
lemma NodeInv.hasHeight_hashAt (hinv : NodeInv cfg s) {height : UInt32} {hash : BlockHash}
    (h : s.node.store.hashAt height = some hash) : s.node.store.HasHeight hash height := by
  unfold Store.hashAt at h
  cases htable : s.node.store.getBlockHash height with
  | some hash' =>
    rw [htable, Option.some_or, Option.some.injEq] at h
    subst h
    exact hinv.chain.table height hash' htable
  | none =>
    rw [htable, Option.none_or] at h
    exact hinv.index.headerHeight height hash h

/-- The provider of the store gives the block of the tables. -/
lemma NodeInv.getBlockIndexByHeight_eq (hinv : NodeInv cfg s) (height : UInt32) :
    s.node.store.getBlockIndexByHeight height =
      (s.node.store.hashAt height).bind s.node.store.findBlockIndex := by
  unfold Store.getBlockIndexByHeight Store.hashAt
  cases htable : s.node.store.getBlockHash height with
  | none => rfl
  | some hash =>
    obtain ⟨index, hindex, -⟩ := hinv.chain.table height hash htable
    simp [Store.findBlockIndex, hindex, Except.toOption]

/-- Both providers of a node find a block with a timestamp, as far as its tables do. -/
lemma NodeInv.timeAt_iff (hinv : NodeInv cfg s) {params : ChainParams} {height time : UInt32} :
    s.node.store.TimeAt params height time ↔
      (headerProvider params s.node.store).timeAt height = some time ∧
        BlockIndexProvider.timeAt s.node.store.getBlockIndexByHeight height = some time := by
  have htable : BlockIndexProvider.timeAt s.node.store.getBlockIndexByHeight height = some time ↔
      ∃ hash index, s.node.store.hashAt height = some hash ∧
        s.node.store.getBlockIndex hash = .ok (some index) ∧ index.header.time = time := by
    unfold BlockIndexProvider.timeAt
    rw [hinv.getBlockIndexByHeight_eq, Option.map_eq_some_iff]
    constructor
    · rintro ⟨index, hindex, rfl⟩
      obtain ⟨hash, hhash, hfind⟩ := Option.bind_eq_some_iff.mp hindex
      exact ⟨hash, index, hhash, Store.getBlockIndex_of_findBlockIndex hfind, rfl⟩
    · rintro ⟨hash, index, hhash, hindex, rfl⟩
      refine ⟨index, ?_, rfl⟩
      simp [hhash, Store.findBlockIndex, hindex, Except.toOption]
  constructor
  · rintro ⟨hgenesis, hnamed⟩
    refine ⟨?_, htable.mpr hnamed⟩
    by_cases hzero : height = 0
    · simp [BlockIndexProvider.timeAt, headerProvider, hzero, ChainParams.genesisIndex,
        ← hgenesis hzero]
    · simpa [BlockIndexProvider.timeAt, headerProvider, hzero] using htable.mpr hnamed
  · rintro ⟨hheader, hstore⟩
    refine ⟨?_, htable.mp hstore⟩
    rintro rfl
    simpa [BlockIndexProvider.timeAt, headerProvider, ChainParams.genesisIndex] using hheader

/-- Where no block at a height has another timestamp, the tables have a block with that one. -/
lemma Store.OnlyTimeAt.timeAt (hinv : NodeInv cfg s) (hfiled : s.node.store.HeightsFiled)
    {params : ChainParams} {height time : UInt32} {hash : BlockHash}
    (h : s.node.store.OnlyTimeAt params height time)
    (hheight : s.node.store.HasHeight hash height) :
    s.node.store.TimeAt params height time := by
  refine ⟨h.genesis, ?_⟩
  have hsome : (s.node.store.hashAt height).isSome := by
    simp [Store.hashAt, hfiled hash height hheight]
  obtain ⟨hash', hhash'⟩ := Option.isSome_iff_exists.mp hsome
  obtain ⟨index, hindex, rfl⟩ := hinv.hasHeight_hashAt hhash'
  exact ⟨hash', index, hhash', hindex, h.index hash' index hindex rfl⟩

/-- The verdicts of two nodes on the headers after a block follow from its ancestors: with the
provider of the node, for headers, and with that of the store, for blocks. -/
def FollowsAncestors (params : ChainParams) (prev : BlockIndex) (chain : List BlockIndex)
    (s s' : Store) : Prop :=
  FollowsChain params prev chain (headerProvider params s) (headerProvider params s') ∧
    FollowsChain params prev chain s.getBlockIndexByHeight s'.getBlockIndexByHeight

/-- In any two reachable nodes with the same ancestors of a block, the verdicts on the headers after
it follow from these, exactly if the tables of both have a block with the timestamp of the ancestor
at the first height of a period that ends with it. That is so if no fork has a block with another
timestamp there. -/
theorem followsAncestors_iff [ScriptVerifier]
    (hs : Reachable (System.step cfg) (fun _ e _ => e.CollisionFree) (System.init cfg) s)
    (hs' : Reachable (System.step cfg) (fun _ e _ => e.CollisionFree) (System.init cfg) s')
    {hash : BlockHash} {prev : BlockIndex} {chain : List BlockIndex}
    (hchain : s.node.store.HasChain hash (prev :: chain))
    (hchain' : s'.node.store.HasChain hash (prev :: chain))
    (hreaches : ∀ first, retargetHeight prev cfg.params.consensus = some first →
      (ancestorAt (prev :: chain) first).isSome) :
    (FollowsAncestors cfg.params prev (prev :: chain) s.node.store s'.node.store ↔
      ∀ first ancestor, retargetHeight prev cfg.params.consensus = some first →
        ancestorAt (prev :: chain) first = some ancestor →
        s.node.store.TimeAt cfg.params first ancestor.header.time ∧
          s'.node.store.TimeAt cfg.params first ancestor.header.time) ∧
    ((∀ first ancestor, retargetHeight prev cfg.params.consensus = some first →
        ancestorAt (prev :: chain) first = some ancestor →
        s.node.store.OnlyTimeAt cfg.params first ancestor.header.time ∧
          s'.node.store.OnlyTimeAt cfg.params first ancestor.header.time) →
      FollowsAncestors cfg.params prev (prev :: chain) s.node.store s'.node.store) := by
  obtain ⟨hinv, hfiled⟩ := heightsFiled_of_reachable hs
  obtain ⟨hinv', hfiled'⟩ := heightsFiled_of_reachable hs'
  have hiff : FollowsAncestors cfg.params prev (prev :: chain) s.node.store s'.node.store ↔
      ∀ first ancestor, retargetHeight prev cfg.params.consensus = some first →
        ancestorAt (prev :: chain) first = some ancestor →
        s.node.store.TimeAt cfg.params first ancestor.header.time ∧
          s'.node.store.TimeAt cfg.params first ancestor.header.time := by
    constructor
    · rintro ⟨⟨-, hheader⟩, ⟨-, hstore⟩⟩ first ancestor hfirst hancestor
      obtain ⟨h₁, h₁'⟩ := hheader first ancestor hfirst hancestor
      obtain ⟨h₂, h₂'⟩ := hstore first ancestor hfirst hancestor
      exact ⟨hinv.timeAt_iff.mpr ⟨h₁, h₂⟩, hinv'.timeAt_iff.mpr ⟨h₁', h₂'⟩⟩
    · intro htime
      refine ⟨followsChain_of_timeAt hreaches ?_, followsChain_of_timeAt hreaches ?_⟩
      · intro first ancestor hfirst hancestor
        obtain ⟨h, h'⟩ := htime first ancestor hfirst hancestor
        exact ⟨(hinv.timeAt_iff.mp h).1, (hinv'.timeAt_iff.mp h').1⟩
      · intro first ancestor hfirst hancestor
        obtain ⟨h, h'⟩ := htime first ancestor hfirst hancestor
        exact ⟨(hinv.timeAt_iff.mp h).2, (hinv'.timeAt_iff.mp h').2⟩
  refine ⟨hiff, fun honly => hiff.mpr fun first ancestor hfirst hancestor => ?_⟩
  obtain ⟨h, h'⟩ := honly first ancestor hfirst hancestor
  obtain ⟨_, hheight⟩ := hchain.hasHeight hancestor
  obtain ⟨_, hheight'⟩ := hchain'.hasHeight hancestor
  exact ⟨h.timeAt hinv hfiled hheight, h'.timeAt hinv' hfiled' hheight'⟩

end Runs

/-! ### A fork at the first height of a period -/

instance Store.decidableHasChain (s : Store) :
    (hash : BlockHash) → (chain : List BlockIndex) → Decidable (s.HasChain hash chain)
  | _, [] => .isTrue True.intro
  | _, index :: chain =>
    @instDecidableAnd _ _ _ (s.decidableHasChain index.header.prevHash chain)

/-- The timestamp of the block of the tables at a height. -/
def Store.tableTime (s : Store) (height : UInt32) : Option UInt32 :=
  ((s.hashAt height).bind s.findBlockIndex).map (·.header.time)

lemma Store.timeAt_of_tableTime {s : Store} (params : ChainParams) {height time : UInt32}
    (hne : height ≠ 0) (h : s.tableTime height = some time) : s.TimeAt params height time := by
  refine ⟨fun hzero => absurd hzero hne, ?_⟩
  obtain ⟨index, hindex, rfl⟩ := Option.map_eq_some_iff.mp h
  obtain ⟨hash, hhash, hfind⟩ := Option.bind_eq_some_iff.mp hindex
  exact ⟨hash, index, hhash, Store.getBlockIndex_of_findBlockIndex hfind, rfl⟩

namespace Sample

/-- A network like regtest that retargets every second block. -/
def shortPeriodCfg : Config :=
  { cfg with params := { regtestParams with
      consensus := { regtestParams.consensus with
        powTargetTimespan := 1200
        powNoRetargeting := false
        fPowAllowMinDifficultyBlocks := false } } }

/-- A header with the bits of the genesis block. -/
def easyHeader (prevHash : BlockHash) (time nonce : UInt32) : BlockHeader where
  version := 1
  prevHash
  merkleRoot := Digest.zero
  time
  bits := 0x207fffff
  nonce

/-- A header at height 1, 20 minutes after the genesis block. -/
def header1 : BlockHeader := easyHeader genesisHash 1296689802 0

/-- A header at height 2. -/
def header2 : BlockHeader :=
  easyHeader (digest [0xc1, 0xd8, 0xea, 0x2d, 0x83, 0x2b, 0x35, 0x45, 0x28, 0x24, 0x8e, 0x21, 0x32,
    0xfc, 0xe3, 0x21, 0xd4, 0x2d, 0xf1, 0xff, 0x14, 0xd5, 0xfb, 0xe5, 0xf0, 0x44, 0xf2, 0x2c, 0x77,
    0x53, 0xd9, 0x78]) 1296690402 4

/-- A header at height 3, 20 minutes after the one before it. -/
def header3 : BlockHeader :=
  easyHeader (digest [0x57, 0x87, 0xa6, 0x96, 0x82, 0x99, 0xe9, 0x16, 0x3b, 0x42, 0x7a, 0x80, 0x4b,
    0xed, 0x6e, 0x85, 0xae, 0x69, 0x4e, 0xf2, 0x44, 0xf9, 0x28, 0x5d, 0x78, 0x22, 0x36, 0x0f, 0xc2,
    0x5f, 0xe6, 0x05]) 1296691602 1

/-- A header at height 4, the first of a new period. -/
def header4 : BlockHeader :=
  easyHeader (digest [0x82, 0xa8, 0x3a, 0x7c, 0x9a, 0x90, 0xd8, 0x34, 0xae, 0x81, 0x26, 0x0d, 0xc4,
    0x1d, 0x73, 0xac, 0x3e, 0x87, 0x46, 0x8f, 0x43, 0xec, 0x35, 0xf8, 0x0e, 0x51, 0xd6, 0xa1, 0x49,
    0xb9, 0x03, 0x56]) 1296692202 1

/-- Another header at height 2, only 5 minutes before the one at height 3. -/
def lateHeader2 : BlockHeader := { header2 with time := 1296691302, nonce := 3 }

/-- Another header at height 3. -/
def lateHeader3 : BlockHeader := { header3 with time := 1296691702 }

/-- The digests of these headers. -/
def chainDigests : List (List UInt8 × Bytes32) :=
  twice header1.serialize.toList
    ⟨[0x54, 0xd6, 0x3b, 0x06, 0xb2, 0x58, 0x26, 0xc6, 0x9c, 0x4e, 0xbc, 0xc4, 0x20, 0x3d, 0x45,
      0x8d, 0xd4, 0xd9, 0xd0, 0x8f, 0x98, 0xf8, 0x9f, 0xe6, 0x0d, 0x94, 0xdb, 0x73, 0xea, 0xba,
      0xd1, 0x33], rfl⟩
    ⟨[0xc1, 0xd8, 0xea, 0x2d, 0x83, 0x2b, 0x35, 0x45, 0x28, 0x24, 0x8e, 0x21, 0x32, 0xfc, 0xe3,
      0x21, 0xd4, 0x2d, 0xf1, 0xff, 0x14, 0xd5, 0xfb, 0xe5, 0xf0, 0x44, 0xf2, 0x2c, 0x77, 0x53,
      0xd9, 0x78], rfl⟩ ++
  twice header2.serialize.toList
    ⟨[0x26, 0x29, 0xd8, 0x53, 0x87, 0xa9, 0x34, 0x98, 0x42, 0xc1, 0x20, 0xa3, 0x66, 0xf4, 0x8c,
      0x8d, 0x62, 0x45, 0x94, 0x7d, 0x19, 0x3c, 0x85, 0x3a, 0x0b, 0xbf, 0xb4, 0x0b, 0x20, 0x97,
      0xf9, 0xae], rfl⟩
    ⟨[0x57, 0x87, 0xa6, 0x96, 0x82, 0x99, 0xe9, 0x16, 0x3b, 0x42, 0x7a, 0x80, 0x4b, 0xed, 0x6e,
      0x85, 0xae, 0x69, 0x4e, 0xf2, 0x44, 0xf9, 0x28, 0x5d, 0x78, 0x22, 0x36, 0x0f, 0xc2, 0x5f,
      0xe6, 0x05], rfl⟩ ++
  twice header3.serialize.toList
    ⟨[0xb0, 0x6f, 0x2c, 0x9c, 0x32, 0x56, 0x84, 0xc8, 0xec, 0x8f, 0x8f, 0x66, 0x6a, 0xc3, 0x66,
      0xaf, 0xce, 0x3c, 0x23, 0xe3, 0x93, 0xbe, 0xe9, 0x60, 0x14, 0xd8, 0x14, 0x90, 0xe4, 0x7a,
      0x1f, 0xc6], rfl⟩
    ⟨[0x82, 0xa8, 0x3a, 0x7c, 0x9a, 0x90, 0xd8, 0x34, 0xae, 0x81, 0x26, 0x0d, 0xc4, 0x1d, 0x73,
      0xac, 0x3e, 0x87, 0x46, 0x8f, 0x43, 0xec, 0x35, 0xf8, 0x0e, 0x51, 0xd6, 0xa1, 0x49, 0xb9,
      0x03, 0x56], rfl⟩ ++
  twice header4.serialize.toList
    ⟨[0x82, 0xa4, 0x77, 0xf9, 0xa1, 0xf6, 0xf0, 0x1a, 0x8d, 0x05, 0xe3, 0x11, 0xe2, 0x1a, 0x8e,
      0x36, 0x96, 0xfa, 0x69, 0x98, 0x2c, 0x7b, 0xf7, 0xad, 0x4e, 0x63, 0x0a, 0x5d, 0x88, 0x5f,
      0x8b, 0xb2], rfl⟩
    ⟨[0xe7, 0x46, 0x92, 0xd6, 0xea, 0x11, 0xb5, 0x28, 0x1d, 0x9b, 0x54, 0x1c, 0x8c, 0xea, 0xea,
      0x11, 0xc5, 0x19, 0x72, 0xff, 0x76, 0xf6, 0x42, 0x39, 0x0b, 0xc0, 0xe7, 0xfb, 0x05, 0xca,
      0xdc, 0x20], rfl⟩ ++
  twice lateHeader2.serialize.toList
    ⟨[0xf6, 0x3c, 0xa6, 0x86, 0xda, 0x03, 0xa4, 0x61, 0x12, 0xa1, 0x1d, 0xc9, 0x62, 0x96, 0xb4,
      0x29, 0xa8, 0xa1, 0xc8, 0xd0, 0x8c, 0x9a, 0x7b, 0xb0, 0x55, 0x86, 0xbc, 0x37, 0x3b, 0x4c,
      0x22, 0xd7], rfl⟩
    ⟨[0xfb, 0x41, 0x6f, 0x44, 0x08, 0x7d, 0xed, 0xff, 0x1c, 0xd0, 0x23, 0xba, 0x63, 0x2c, 0xfe,
      0x1c, 0x93, 0xf5, 0x77, 0xb3, 0x1e, 0xd5, 0x65, 0x34, 0xa0, 0xa8, 0x58, 0xbf, 0x83, 0x97,
      0xcf, 0x0f], rfl⟩ ++
  twice lateHeader3.serialize.toList
    ⟨[0xfc, 0xed, 0x0f, 0xc5, 0xaa, 0xd6, 0x0b, 0x7d, 0x5c, 0x92, 0x76, 0x64, 0xc3, 0x53, 0xcc,
      0x1d, 0x40, 0xf1, 0xae, 0xd9, 0x85, 0xd1, 0x64, 0xe5, 0x9b, 0x96, 0x44, 0xf4, 0x7f, 0xf4,
      0x20, 0xe3], rfl⟩
    ⟨[0x6b, 0x95, 0x92, 0x4a, 0x11, 0xea, 0xe3, 0x12, 0xd7, 0x65, 0x2f, 0x99, 0x61, 0x6e, 0xfd,
      0x3b, 0x1d, 0xbe, 0x15, 0xd4, 0x99, 0xbd, 0xd4, 0xa9, 0x3e, 0x15, 0x79, 0xa1, 0x2f, 0xfe,
      0x2b, 0x4e], rfl⟩

set_option maxRecDepth 100000 in
lemma sha256_chainDigests : ∀ e ∈ chainDigests, Sha256.sha256 e.1 = e.2 := by
  decide +kernel

lemma sha2_eq_chainDigests : sha2 = remember (digests ++ chainDigests) :=
  sha2_eq_remember (List.forall_mem_append.mpr ⟨sha256_digests, sha256_chainDigests⟩)

/-- The index records of the headers up to height 3. -/
def index1 : BlockIndex := shortPeriodCfg.params.genesisIndex.extend header1

@[inherit_doc index1]
def index2 : BlockIndex := index1.extend header2

@[inherit_doc index1]
def index3 : BlockIndex := index2.extend header3

/-- The ancestors of the header at height 3. -/
def ancestors : List BlockIndex := [index2, index1, shortPeriodCfg.params.genesisIndex]

/-- The node learns of the chain. -/
def chainEvents : List Event :=
  [.recvHeaders [header1, header2, header3], .acceptHeader, .acceptHeader, .acceptHeader,
    .storeHeaders]

/-- The node learns of another header. -/
def otherEvents (header : BlockHeader) : List Event :=
  [.recvHeaders [header], .acceptHeader, .storeHeaders]

/-- Whether a node has the chain, the timestamp of its tables at height 2, and whether it accepts
the header at height 4. -/
def verdict (s : System) : Bool × Option UInt32 × Bool :=
  (decide (s.node.store.HasChain header4.prevHash (index3 :: ancestors)),
    s.node.store.tableTime 2,
    (checkBlockHeader header4 index3 shortPeriodCfg.params
      (headerProvider shortPeriodCfg.params s.node.store)).toBool)

lemma verdict_eq {s : System} {hasChain accepted : Bool} {time : Option UInt32}
    (h : verdict s = (hasChain, time, accepted)) :
    decide (s.node.store.HasChain header4.prevHash (index3 :: ancestors)) = hasChain ∧
      s.node.store.tableTime 2 = time ∧
      (checkBlockHeader header4 index3 shortPeriodCfg.params
        (headerProvider shortPeriodCfg.params s.node.store)).toBool = accepted := by
  simpa only [verdict, Prod.mk.injEq] using h

set_option maxRecDepth 100000 in
lemma run_chainEvents :
    (Reachable.run (System.step shortPeriodCfg) (fun _ e _ => decide e.CollisionFree)
      (System.init shortPeriodCfg) chainEvents).map (fun s => (verdict s,
        [lateHeader2, lateHeader3].map fun header => (Reachable.run (System.step shortPeriodCfg)
          (fun _ e _ => decide e.CollisionFree) s (otherEvents header)).map verdict)) =
      some ((true, some header2.time, true),
        [some (true, some lateHeader2.time, false), some (true, some header2.time, true)]) := by
  unfold verdict ancestors index3 index2 index1 BlockIndex.extend shortPeriodCfg cfg System.step
    System.init Node.step Node.init Node.loadGenesisBlock
    Node.acceptHeader HeaderBatch.acceptHeader HeaderBatch.push ChainParams.genesisIndex
    Node.selectBlock Node.connect
  rw [sha2_eq_chainDigests, calculateBlockWork_eq_division]
  decide +kernel

/-- The nodes after the chain, and after a fork at height 2 or 3. -/
lemma exists_reachable_verdict :
    ∃ s s₂ s₃, verdict s = (true, some header2.time, true) ∧
      verdict s₂ = (true, some lateHeader2.time, false) ∧
      verdict s₃ = (true, some header2.time, true) ∧
      ∀ t ∈ [s, s₂, s₃], Reachable (System.step shortPeriodCfg) (fun _ e _ => e.CollisionFree)
        (System.init shortPeriodCfg) t := by
  obtain ⟨s, hrun, hs⟩ := Option.map_eq_some_iff.mp run_chainEvents
  simp only [List.map_cons, List.map_nil, Prod.mk.injEq, List.cons.injEq, and_true] at hs
  obtain ⟨hverdict, h₂, h₃⟩ := hs
  obtain ⟨s₂, hrun₂, hverdict₂⟩ := Option.map_eq_some_iff.mp h₂
  obtain ⟨s₃, hrun₃, hverdict₃⟩ := Option.map_eq_some_iff.mp h₃
  have hreach : Reachable (System.step shortPeriodCfg) (fun _ e _ => e.CollisionFree)
      (System.init shortPeriodCfg) s := Reachable.init.of_run (fun _ _ _ => of_decide_eq_true) hrun
  refine ⟨s, s₂, s₃, hverdict, hverdict₂, hverdict₃, ?_⟩
  simp only [List.forall_mem_cons]
  exact ⟨hreach, hreach.of_run (fun _ _ _ => of_decide_eq_true) hrun₂,
    hreach.of_run (fun _ _ _ => of_decide_eq_true) hrun₃, by simp⟩

lemma retargetHeight_index3 : retargetHeight index3 shortPeriodCfg.params.consensus = some 2 := by
  decide

lemma ancestorAt_index3 : ancestorAt (index3 :: ancestors) 2 = some index2 := by
  rfl

/-- A fork at height 3 makes no difference to the header at height 4. -/
theorem followsAncestors_lateHeader3 :
    ∃ s s', Reachable (System.step shortPeriodCfg) (fun _ e _ => e.CollisionFree)
        (System.init shortPeriodCfg) s ∧
      Reachable (System.step shortPeriodCfg) (fun _ e _ => e.CollisionFree)
        (System.init shortPeriodCfg) s' ∧
      FollowsAncestors shortPeriodCfg.params index3 (index3 :: ancestors) s.node.store
        s'.node.store := by
  obtain ⟨s, s₂, s', hverdict, -, hverdict', hreach⟩ := exists_reachable_verdict
  have hs := hreach s (by simp)
  have hs' := hreach s' (by simp)
  obtain ⟨hchain, htime, -⟩ := verdict_eq hverdict
  obtain ⟨hchain', htime', -⟩ := verdict_eq hverdict'
  refine ⟨s, s', hs, hs', (followsAncestors_iff hs hs' (of_decide_eq_true hchain)
    (of_decide_eq_true hchain') ?_).1.mpr ?_⟩
  · intro first hfirst
    obtain rfl : 2 = first := Option.some.inj (retargetHeight_index3.symm.trans hfirst)
    rw [ancestorAt_index3]
    rfl
  · intro first ancestor hfirst hancestor
    obtain rfl : 2 = first := Option.some.inj (retargetHeight_index3.symm.trans hfirst)
    obtain rfl : index2 = ancestor := Option.some.inj (ancestorAt_index3.symm.trans hancestor)
    exact ⟨Store.timeAt_of_tableTime _ (by decide) htime,
      Store.timeAt_of_tableTime _ (by decide) htime'⟩

/-- A fork at height 2, the first of the period, makes a node refuse the header at height 4. -/
theorem not_followsAncestors_lateHeader2 :
    ∃ s s', Reachable (System.step shortPeriodCfg) (fun _ e _ => e.CollisionFree)
        (System.init shortPeriodCfg) s ∧
      Reachable (System.step shortPeriodCfg) (fun _ e _ => e.CollisionFree)
        (System.init shortPeriodCfg) s' ∧
      s.node.store.HasChain header4.prevHash (index3 :: ancestors) ∧
      s'.node.store.HasChain header4.prevHash (index3 :: ancestors) ∧
      checkBlockHeader header4 index3 shortPeriodCfg.params
          (headerProvider shortPeriodCfg.params s.node.store) ≠
        checkBlockHeader header4 index3 shortPeriodCfg.params
          (headerProvider shortPeriodCfg.params s'.node.store) := by
  obtain ⟨s, s', s₃, hverdict, hverdict', -, hreach⟩ := exists_reachable_verdict
  obtain ⟨hchain, -, haccepted⟩ := verdict_eq hverdict
  obtain ⟨hchain', -, hrefused⟩ := verdict_eq hverdict'
  refine ⟨s, s', hreach s (by simp), hreach s' (by simp), of_decide_eq_true hchain,
    of_decide_eq_true hchain', fun heq => ?_⟩
  rw [heq, hrefused] at haccepted
  cases haccepted

end Sample

end Bitcrab
