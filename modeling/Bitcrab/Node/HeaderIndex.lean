import Bitcrab.Node.CrashConsistency
import Bitcrab.Node.HeaderBatches

/-!
# The block index is a tree of accepted headers

Every record of the index but that of the genesis block belongs to a header that was checked on top
of the record of its parent, as long as `process_header` is given no header with a zero `prev_hash`:
it takes such a header for a genesis block and stores it without a check.
-/

namespace Bitcrab

open BlockManager Result

section

variable [Sha2]

/-- Two records of the same header, at the same height and with the same work. -/
structure BlockIndex.SameHeader (index index' : BlockIndex) : Prop where
  header : index'.header = index.header
  height : index'.height = index.height
  chainWork : index'.chainWork = index.chainWork

omit [Sha2] in
lemma BlockIndex.SameHeader.refl (index : BlockIndex) : index.SameHeader index := ⟨rfl, rfl, rfl⟩

/-- A header is checked against the header and the height of its parent. -/
lemma checkBlockHeader_congr {header : BlockHeader} {prev prev' : BlockIndex}
    {params : ChainParams} {provider : BlockIndexProvider} (h : prev.SameHeader prev') :
    checkBlockHeader header prev' params provider =
      checkBlockHeader header prev params provider := by
  simp only [checkBlockHeader, getNextWorkRequired, calculateNextWorkRequired, h.header, h.height]

/-- A header that passes the check meets its own target. -/
lemma meetsTarget_of_checkBlockHeader {header : BlockHeader} {prev : BlockIndex}
    {params : ChainParams} {provider : BlockIndexProvider}
    (h : checkBlockHeader header prev params provider = .ok ()) : header.meetsTarget = true := by
  by_contra hnot
  rw [Bool.not_eq_true] at hnot
  simp [checkBlockHeader, hnot, throw_eq_error] at h

/-- A record of a header that was accepted on top of the record of its parent. -/
def Store.Accepted (params : ChainParams) (s : Store) (index : BlockIndex) : Prop :=
  ∃ parent, s.getBlockIndex index.header.prevHash = .ok (some parent) ∧
    index.height.toNat = parent.height.toNat + 1 ∧
    index.chainWork = addChainWork parent.chainWork (calculateBlockWork index.header.bits) ∧
    ∃ provider, checkBlockHeader index.header parent params provider = .ok ()

/-- Every record of a store is kept, but for the positions of the block and of its undo data. -/
def Store.KeepsHeaders (s s' : Store) : Prop :=
  ∀ hash index, s.getBlockIndex hash = .ok (some index) →
    ∃ index', s'.getBlockIndex hash = .ok (some index') ∧ index.SameHeader index'

/-- The records of two stores are the same, but for these positions. -/
structure Store.SameRecords (s s' : Store) : Prop where
  keeps : s.KeepsHeaders s'
  old : ∀ hash index', s'.getBlockIndex hash = .ok (some index') →
    ∃ index, s.getBlockIndex hash = .ok (some index) ∧ index.SameHeader index'

omit [Sha2] in
lemma Store.SameRecords.refl (s : Store) : s.SameRecords s :=
  ⟨fun _ index h => ⟨index, h, .refl index⟩, fun _ index h => ⟨index, h, .refl index⟩⟩

variable {params : ChainParams} {s s' : Store} {index index' : BlockIndex}

lemma Store.Accepted.mono (h : s.Accepted params index) (hkeeps : s.KeepsHeaders s')
    (hsame : index.SameHeader index') : s'.Accepted params index' := by
  obtain ⟨parent, hparent, hheight, hwork, provider, hcheck⟩ := h
  obtain ⟨parent', hparent', hsame'⟩ := hkeeps _ parent hparent
  refine ⟨parent', ?_, ?_, ?_, provider, ?_⟩
  · rw [hsame.header]
    exact hparent'
  · rw [hsame.height, hsame'.height]
    exact hheight
  · rw [hsame.chainWork, hsame'.chainWork, hsame.header]
    exact hwork
  · rw [checkBlockHeader_congr hsame', hsame.header]
    exact hcheck

/-- What holds of the index: a record has the hash it is stored under, its header was given to the
node, and it was accepted unless it is that of the genesis block. -/
structure HeaderInv (params : ChainParams) (seen : Set BlockHeader) (s : Store) : Prop where
  hash : ∀ hash index, s.getBlockIndex hash = .ok (some index) → index.header.blockHash = hash
  seen : ∀ hash index, s.getBlockIndex hash = .ok (some index) → index.header ∈ seen
  accepted : ∀ hash index, s.getBlockIndex hash = .ok (some index) → hash ≠ params.genesisHash →
    s.Accepted params index

variable {seen : Set BlockHeader}

/-- Records that replace others of the same header. -/
lemma HeaderInv.of_sameRecords (hinv : HeaderInv params seen s) (hrecords : s.SameRecords s') :
    HeaderInv params seen s' where
  hash := by
    intro hash index' hindex'
    obtain ⟨index, hindex, hsame⟩ := hrecords.old hash index' hindex'
    rw [hsame.header]
    exact hinv.hash hash index hindex
  seen := by
    intro hash index' hindex'
    obtain ⟨index, hindex, hsame⟩ := hrecords.old hash index' hindex'
    rw [hsame.header]
    exact hinv.seen hash index hindex
  accepted := by
    intro hash index' hindex' hne
    obtain ⟨index, hindex, hsame⟩ := hrecords.old hash index' hindex'
    exact (hinv.accepted hash index hindex hne).mono hrecords.keeps hsame

/-- A store with the same records. -/
lemma HeaderInv.congr (hinv : HeaderInv params seen s)
    (h : ∀ hash, s'.getBlockIndex hash = s.getBlockIndex hash) : HeaderInv params seen s' := by
  refine hinv.of_sameRecords ⟨?_, ?_⟩
  · intro hash index hindex
    exact ⟨index, (h hash).trans hindex, .refl index⟩
  · intro hash index hindex
    exact ⟨index, (h hash).symm.trans hindex, .refl index⟩

/-- A record for a header that is not indexed. -/
lemma HeaderInv.add (hinv : HeaderInv params seen s) (index : BlockIndex)
    (hnone : s.getBlockIndex index.header.blockHash = .ok none) (hseen : index.header ∈ seen)
    (haccepted : index.header.blockHash ≠ params.genesisHash → s.Accepted params index)
    (h : ∀ hash, s'.getBlockIndex hash =
      if hash = index.header.blockHash then .ok (some index) else s.getBlockIndex hash) :
    HeaderInv params seen s' := by
  have hkeeps : s.KeepsHeaders s' := by
    intro hash old hold
    refine ⟨old, ?_, .refl old⟩
    rw [h, if_neg, hold]
    rintro rfl
    simp [hold] at hnone
  refine ⟨?_, ?_, ?_⟩
  · intro hash index' hindex'
    rw [h] at hindex'
    split_ifs at hindex' with hhash
    · obtain rfl := Option.some.inj (Except.ok.inj hindex')
      exact hhash.symm
    · exact hinv.hash hash index' hindex'
  · intro hash index' hindex'
    rw [h] at hindex'
    split_ifs at hindex' with hhash
    · obtain rfl := Option.some.inj (Except.ok.inj hindex')
      exact hseen
    · exact hinv.seen hash index' hindex'
  · intro hash index' hindex' hne
    rw [h] at hindex'
    split_ifs at hindex' with hhash
    · obtain rfl := Option.some.inj (Except.ok.inj hindex')
      exact (haccepted (hhash ▸ hne)).mono hkeeps (.refl _)
    · exact (hinv.accepted hash index' hindex' hne).mono hkeeps (.refl _)

/-- A header on top of an indexed one that passes the checks. -/
lemma Store.accepted_extend {header : BlockHeader} {prev : BlockIndex}
    {provider : BlockIndexProvider} (hprev : s.getBlockIndex header.prevHash = .ok (some prev))
    (hcheck : checkBlockHeader header prev params provider = .ok ())
    (hroom : prev.height.toNat + 1 < 2 ^ 32) : s.Accepted params (prev.extend header) := by
  refine ⟨prev, hprev, ?_, rfl, provider, hcheck⟩
  have hne : prev.height ≠ 0xFFFFFFFF := by
    intro hmax
    rw [hmax] at hroom
    exact absurd hroom (by decide)
  change (BlockHeight.next prev.height).toNat = _
  rw [BlockHeight.next, if_neg hne, UInt32.toNat_add]
  exact Nat.mod_eq_of_lt hroom

/-! ### The calls -/

variable {cfg : Config} {n : Node}

lemma HeaderInv.loadGenesis (hinv : HeaderInv cfg.params seen n.store)
    (hgenesis : cfg.params.genesisHeader ∈ seen) :
    HeaderInv cfg.params seen (n.loadGenesisBlock cfg).store := by
  rcases n.loadGenesisBlock_cases cfg with hsame | ⟨hnone, hstore⟩
  · rw [hsame]
    exact hinv
  · rw [hstore]
    exact hinv.add cfg.params.genesisIndex hnone hgenesis (absurd rfl)
      (Store.getBlockIndex_addGenesis _ _)

lemma HeaderInv.processHeader (hinv : HeaderInv cfg.params seen n.store) {header : BlockHeader}
    (hseen : header ∈ seen)
    (hrooted : header.prevHash.isZero = true → header = cfg.params.genesisHeader ∨
      ∃ index, n.store.getBlockIndex header.blockHash = .ok (some index))
    (hroom : ∀ hash index, n.store.getBlockIndex hash = .ok (some index) →
      index.height.toNat + 1 < 2 ^ 32) :
    HeaderInv cfg.params seen (n.processHeader cfg header).2.store := by
  rcases n.processHeader_cases cfg header with hsame |
    ⟨hnone, ⟨hzero, hstore⟩ | ⟨prev, hprev, hcheck, hstore⟩⟩
  · rw [hsame]
    exact hinv
  · rw [hstore]
    refine hinv.add header.rootIndex hnone hseen ?_ (Store.getBlockIndex_addHeader _ _)
    -- only the genesis block has no parent
    intro hne
    rcases hrooted hzero with rfl | ⟨index, hindex⟩
    · exact absurd rfl hne
    · simp [hindex] at hnone
  · rw [hstore]
    exact hinv.add (prev.extend header) hnone hseen
      (fun _ => Store.accepted_extend hprev hcheck (hroom _ prev hprev))
      (Store.getBlockIndex_addHeader _ _)

/-- A batch in progress: the view has the invariant, and room for the headers to come. -/
structure HeaderBatch.IndexInv (batch : HeaderBatch) (params : ChainParams)
    (seen : Set BlockHeader) (s : Store) (headers : List BlockHeader) : Prop where
  views : batch.Views s headers
  inv : HeaderInv params seen (batch.view s)
  room : ∀ hash index, (batch.view s).getBlockIndex hash = .ok (some index) →
    index.height.toNat + batch.remaining.length < 2 ^ 32

lemma HeaderBatch.IndexInv.acceptHeader {batch batch' : HeaderBatch} {headers : List BlockHeader}
    (hinv : batch.IndexInv params seen s headers) (hseen : ∀ header ∈ headers, header ∈ seen)
    (hfree : CollisionFree headers) (h : batch.acceptHeader params s = .ok batch') :
    batch'.IndexInv params seen s headers := by
  obtain ⟨hviews', hkept | ⟨header, prev, rest, hmem, hremaining, hprev, hcheck, hnew, rfl⟩⟩ :=
    hinv.views.acceptHeader hfree h
  · obtain ⟨hpending, -, -⟩ := hkept
    have hview : batch'.view s = batch.view s := by rw [view, view, hpending]
    refine ⟨hviews', hview ▸ hinv.inv, ?_⟩
    intro hash index hindex
    rw [hview] at hindex
    have hle := length_remaining_acceptHeader h
    have hroom := hinv.room hash index hindex
    omega
  · have hroom := hinv.room
    rw [hremaining, List.length_cons] at hroom
    have hstep : ∀ hash, ((batch.push header prev rest).view s).getBlockIndex hash =
        if hash = header.blockHash then .ok (some (prev.extend header))
        else (batch.view s).getBlockIndex hash := by
      intro hash
      rw [view_push, getBlockIndex_handleStoreBlockIndex]
    have haccepted : (batch.view s).Accepted params (prev.extend header) := by
      refine Store.accepted_extend hprev hcheck ?_
      have := hroom _ prev hprev
      omega
    refine ⟨hviews', ?_, ?_⟩
    · rcases hnew with hnone | hsame
      · exact hinv.inv.add (prev.extend header) hnone (hseen header hmem) (fun _ => haccepted) hstep
      · refine hinv.inv.congr fun hash => ?_
        rw [hstep]
        split_ifs with hhash
        · rw [hhash, hsame]
        · rfl
    · intro hash index hindex
      rw [hstep] at hindex
      split_ifs at hindex with hhash
      · obtain rfl := Option.some.inj (Except.ok.inj hindex)
        obtain ⟨parent, hparent, hheight, -⟩ := haccepted
        have := hroom _ parent hparent
        change _ + rest.length < _
        omega
      · have := hroom hash index hindex
        change _ + rest.length < _
        omega

lemma HeaderInv.processHeaders (hinv : HeaderInv cfg.params seen n.store)
    {headers : List BlockHeader} (hseen : ∀ header ∈ headers, header ∈ seen)
    (hinj : seen.InjOn BlockHeader.blockHash)
    (hroom : ∀ hash index, n.store.getBlockIndex hash = .ok (some index) →
      index.height.toNat + headers.length < 2 ^ 32) :
    HeaderInv cfg.params seen (n.processHeaders cfg headers).2.store := by
  have hfree : HeaderBatch.CollisionFree headers :=
    fun a ha b hb hhash => hinj (hseen a ha) (hseen b hb) hhash
  unfold Node.processHeaders
  split
  · exact hinv
  · rename_i batch haccept
    have hbatch : batch.IndexInv cfg.params seen n.store headers := by
      refine HeaderBatch.acceptHeaders_invariant
        (fun batch => batch.IndexInv cfg.params seen n.store headers) ?_ ?_ haccept
      · exact fun _ _ hb hstep => hb.acceptHeader hseen hfree hstep
      · exact ⟨HeaderBatch.views_new _ _, hinv, hroom⟩
    exact hbatch.inv.congr hbatch.views.getBlockIndex_commit

lemma HeaderInv.sameRecords_processBlock [ScriptVerifier]
    (hinv : HeaderInv cfg.params seen n.store) {block : Block} (hseen : block.header ∈ seen)
    (hinj : seen.InjOn BlockHeader.blockHash) :
    n.store.SameRecords (n.processBlock cfg block).2.store := by
  rcases n.processBlock_cases cfg block with hsame | ⟨index, pos, hindex, hstore, -, -⟩
  · rw [hsame]
    exact .refl n.store
  · -- the record is that of the header of the block
    have hheader : index.header = block.header :=
      hinj (hinv.seen _ index hindex) hseen (hinv.hash _ index hindex)
    have hsame : index.SameHeader ⟨block.header, index.height, index.chainWork, some pos, none⟩ :=
      ⟨hheader.symm, rfl, rfl⟩
    refine ⟨?_, ?_⟩
    · intro hash old hold
      rw [hstore]
      split_ifs with hhash
      · subst hhash
        obtain rfl := Option.some.inj (Except.ok.inj (hindex.symm.trans hold))
        exact ⟨_, rfl, hsame⟩
      · exact ⟨old, hold, .refl old⟩
    · intro hash index' hindex'
      rw [hstore] at hindex'
      split_ifs at hindex' with hhash
      · subst hhash
        obtain rfl := Option.some.inj (Except.ok.inj hindex')
        exact ⟨index, hindex, hsame⟩
      · exact ⟨index', hindex', .refl index'⟩

lemma HeaderInv.processBlock [ScriptVerifier] (hinv : HeaderInv cfg.params seen n.store)
    {block : Block} (hseen : block.header ∈ seen) (hinj : seen.InjOn BlockHeader.blockHash) :
    HeaderInv cfg.params seen (n.processBlock cfg block).2.store :=
  hinv.of_sameRecords (hinv.sameRecords_processBlock hseen hinj)

/-! ### Every run -/

/-- How many headers a call may add. -/
def Call.newHeaders : Call → Nat
  | .processHeader _ => 1
  | .processHeaders headers => headers.length
  | .loadGenesis | .processBlock _ | .restart => 0

/-- A call whose headers are among those seen; `process_header` is given a header with a zero
`prev_hash` only for the genesis block or for a header that is indexed already, and the heights that
may be added are below `2 ^ 32`. -/
structure RootedCall (cfg : Config) (seen : Set BlockHeader) (n : Node) (call : Call) : Prop where
  seen : ∀ header ∈ call.headers, header ∈ seen
  rooted : ∀ header, call = .processHeader header → header.prevHash.isZero = true →
    header = cfg.params.genesisHeader ∨
      ∃ index, n.store.getBlockIndex header.blockHash = .ok (some index)
  room : ∀ hash index, n.store.getBlockIndex hash = .ok (some index) →
    index.height.toNat + call.newHeaders < 2 ^ 32

lemma HeaderInv.call [ScriptVerifier] (hinv : HeaderInv cfg.params seen n.store) {n' : Node}
    {call : Call} (hgenesis : cfg.params.genesisHeader ∈ seen)
    (hinj : seen.InjOn BlockHeader.blockHash) (hstep : n.call cfg call = some n')
    (hcall : RootedCall cfg seen n call) : HeaderInv cfg.params seen n'.store := by
  obtain ⟨hseen, hrooted, hroom⟩ := hcall
  cases call with
  | loadGenesis =>
    obtain rfl := Option.some.inj hstep
    exact hinv.loadGenesis hgenesis
  | processHeader header =>
    obtain rfl := Option.some.inj hstep
    exact hinv.processHeader (hseen header (List.mem_singleton.mpr rfl)) (hrooted header rfl) hroom
  | processHeaders headers =>
    obtain rfl := Option.some.inj hstep
    exact hinv.processHeaders hseen hinj hroom
  | processBlock block =>
    obtain rfl := Option.some.inj hstep
    exact hinv.processBlock (hseen _ (List.mem_singleton.mpr rfl)) hinj
  | restart =>
    obtain rfl := Option.some.inj hstep
    exact hinv.congr (Node.getBlockIndex_restart cfg n.store)

omit [Sha2] in
@[simp] lemma Store.getBlockIndex_empty (hash : BlockHash) :
    Store.empty.getBlockIndex hash = .ok none :=
  rfl

lemma headerInv_empty (params : ChainParams) (seen : Set BlockHeader) :
    HeaderInv params seen Store.empty := by
  refine ⟨?_, ?_, ?_⟩ <;> simp

/-- In every run of calls from an empty store in which `process_header` is given no other header
with a zero `prev_hash`, every record of the index but that of the genesis block has an indexed
parent one below it, the work of the parent and its own, and a header that passed the check and
meets its target. -/
theorem accepted_of_reachable [ScriptVerifier] (hinj : seen.InjOn BlockHeader.blockHash)
    (hgenesis : cfg.params.genesisHeader ∈ seen)
    (h : Reachable (Node.call cfg) (fun n call _ => RootedCall cfg seen n call)
      (Node.restart cfg Store.empty) n)
    {hash : BlockHash} (hindex : n.store.getBlockIndex hash = .ok (some index))
    (hne : hash ≠ cfg.params.genesisHash) :
    ∃ parent, n.store.getBlockIndex index.header.prevHash = .ok (some parent) ∧
      index.height.toNat = parent.height.toNat + 1 ∧
      index.chainWork = addChainWork parent.chainWork (calculateBlockWork index.header.bits) ∧
      index.header.meetsTarget = true ∧
      ∃ provider, checkBlockHeader index.header parent cfg.params provider = .ok () := by
  have hinv : HeaderInv cfg.params seen n.store := by
    refine h.invariant (fun n => HeaderInv cfg.params seen n.store) ?_ ?_
    · exact (headerInv_empty cfg.params seen).congr (Node.getBlockIndex_restart cfg Store.empty)
    · exact fun _ _ _ hinv hstep hcall => hinv.call hgenesis hinj hstep hcall
  obtain ⟨parent, hparent, hheight, hwork, provider, hcheck⟩ := hinv.accepted hash index hindex hne
  exact ⟨parent, hparent, hheight, hwork, meetsTarget_of_checkBlockHeader hcheck, provider, hcheck⟩

end

/-! ### A header on top of the genesis block, and one on top of nothing -/

namespace Sample

/-- The genesis header and the header of a block after it. -/
def seenHeaders : List BlockHeader := [regtestParams.genesisHeader, nextBlock.header]

set_option maxRecDepth 100000 in
lemma collisionFree_seenHeaders :
    ∀ a ∈ seenHeaders, ∀ b ∈ seenHeaders, a.blockHash = b.blockHash → a = b := by
  unfold seenHeaders
  rw [sha2_eq_digests]
  decide +kernel

/-- A message with that header, after `load_genesis`, is a run. -/
lemma reachable_header :
    Reachable (Node.call cfg) (fun n call _ => RootedCall cfg { h | h ∈ seenHeaders } n call)
      (Node.restart cfg Store.empty)
      (((Node.restart cfg Store.empty).loadGenesisBlock cfg).processHeaders cfg
        [nextBlock.header]).2 := by
  refine .step (.step .init (Node.call_loadGenesis ..) ⟨?_, ?_, ?_⟩)
    (Node.call_processHeaders cfg _ [nextBlock.header]) ⟨?_, ?_, ?_⟩
  · simp [Call.headers]
  · simp
  · simp [Node.getBlockIndex_restart]
  · simp [Call.headers, seenHeaders]
  · simp
  · intro hash index hindex
    rcases (Node.restart cfg Store.empty).loadGenesisBlock_cases cfg with hsame | ⟨-, hstore⟩
    · simp [hsame, Node.getBlockIndex_restart] at hindex
    · rw [hstore, Store.getBlockIndex_addGenesis] at hindex
      split_ifs at hindex
      · obtain rfl := Option.some.inj (Except.ok.inj hindex)
        decide
      · simp [Node.getBlockIndex_restart] at hindex

set_option maxRecDepth 100000 in
lemma height_nextBlock :
    ((((Node.restart cfg Store.empty).loadGenesisBlock cfg).processHeaders cfg
        [nextBlock.header]).2.store.findBlockIndex nextBlock.header.blockHash).map (·.height) =
      some 1 := by
  have hrun : ∀ n, (Node.restart cfg Store.empty).loadGenesisBlock cfg = n →
      ((n.processHeaders cfg [nextBlock.header]).2.store.findBlockIndex
        nextBlock.header.blockHash).map (·.height) = some 1 := by
    intro n hn
    unfold cfg at hn ⊢
    rw [sha2_eq_digests] at hn ⊢
    unfold Node.loadGenesisBlock ChainParams.genesisIndex at hn
    unfold Node.processHeaders HeaderBatch.acceptHeaders HeaderBatch.acceptHeader HeaderBatch.push
    rw [calculateBlockWork_eq_division] at hn ⊢
    subst hn
    decide +kernel
  exact hrun _ rfl

set_option maxRecDepth 100000 in
lemma blockHash_nextBlock_ne_genesisHash :
    nextBlock.header.blockHash ≠ cfg.params.genesisHash := by
  unfold cfg
  rw [sha2_eq_digests]
  decide +kernel

theorem accepted_nextBlock :
    ∃ n index parent,
      Reachable (Node.call cfg) (fun n call _ => RootedCall cfg { h | h ∈ seenHeaders } n call)
        (Node.restart cfg Store.empty) n ∧
      n.store.getBlockIndex nextBlock.header.blockHash = .ok (some index) ∧
      n.store.getBlockIndex index.header.prevHash = .ok (some parent) ∧
      index.height.toNat = 1 ∧ parent.height.toNat = 0 ∧ index.header.meetsTarget = true := by
  obtain ⟨index, hfind, hone⟩ := Option.map_eq_some_iff.mp height_nextBlock
  have hindex := Store.getBlockIndex_of_findBlockIndex hfind
  have hinj : Set.InjOn BlockHeader.blockHash { h | h ∈ seenHeaders } :=
    fun a ha b hb hhash => collisionFree_seenHeaders a ha b hb hhash
  have hgenesis : cfg.params.genesisHeader ∈ { h | h ∈ seenHeaders } :=
    List.mem_cons_self (a := cfg.params.genesisHeader) (l := [nextBlock.header])
  obtain ⟨parent, hparent, hnext, -, hmeets, -⟩ := accepted_of_reachable hinj hgenesis
    reachable_header hindex blockHash_nextBlock_ne_genesisHash
  rw [hone] at hnext
  refine ⟨_, index, parent, reachable_header, hindex, hparent, by rw [hone]; rfl, ?_, hmeets⟩
  change 1 = _ at hnext
  omega

/-- A header without a parent, whose hash does not meet its target. -/
def rootlessHeader : BlockHeader :=
  { nextBlock.header with prevHash := Digest.zero, bits := 0x1d00ffff }

/-- The digests of that header. -/
def rootlessDigests : List (List UInt8 × Bytes32) :=
  twice rootlessHeader.serialize.toList
    ⟨[0x51, 0x30, 0x67, 0xa3, 0x53, 0xae, 0x7d, 0x9e, 0x0a, 0x82, 0x9a, 0xb5, 0x3d, 0xb8, 0x9e,
      0x64, 0xa2, 0x18, 0xca, 0x1d, 0x61, 0x16, 0x1b, 0xdf, 0xa1, 0x00, 0x6b, 0x92, 0xcf, 0xe7,
      0x28, 0xf5], rfl⟩
    ⟨[0xb3, 0x3b, 0x79, 0x0a, 0x97, 0xb5, 0xe7, 0xeb, 0xe3, 0x66, 0xda, 0x74, 0x4a, 0xeb, 0xf2,
      0x50, 0x94, 0x7f, 0xd3, 0x67, 0x06, 0x6f, 0xd5, 0x73, 0x20, 0xf6, 0x21, 0xe8, 0xc3, 0xb6,
      0x6d, 0x85], rfl⟩

set_option maxRecDepth 100000 in
lemma sha256_rootlessDigests : ∀ e ∈ rootlessDigests, Sha256.sha256 e.1 = e.2 := by
  decide +kernel

lemma sha2_eq_rootlessDigests : sha2 = remember (digests ++ rootlessDigests) :=
  sha2_eq_remember (List.forall_mem_append.mpr ⟨sha256_digests, sha256_rootlessDigests⟩)

/-- The header is indexed, without its parent and without proof of work. -/
def rootlessCheck (n : Node) : Bool :=
  match n.store.findBlockIndex rootlessHeader.blockHash with
  | none => false
  | some index =>
    (n.store.findBlockIndex index.header.prevHash).isNone && !index.header.meetsTarget

lemma exists_of_rootlessCheck {n : Node} (h : rootlessCheck n = true) :
    ∃ index, n.store.getBlockIndex rootlessHeader.blockHash = .ok (some index) ∧
      (∀ parent, n.store.getBlockIndex index.header.prevHash ≠ .ok (some parent)) ∧
      index.header.meetsTarget = false := by
  unfold rootlessCheck at h
  split at h
  · cases h
  · rename_i index hfind
    rw [Bool.and_eq_true, Option.isNone_iff_eq_none, Bool.not_eq_true'] at h
    refine ⟨index, Store.getBlockIndex_of_findBlockIndex hfind, ?_, h.2⟩
    intro parent hparent
    have hnone := h.1
    rw [Store.findBlockIndex, hparent] at hnone
    cases hnone

set_option maxRecDepth 100000 in
lemma rootlessCheck_processHeader :
    rootlessCheck (((Node.restart cfg Store.empty).loadGenesisBlock cfg).processHeader cfg
      rootlessHeader).2 = true := by
  have hrun : ∀ n, (Node.restart cfg Store.empty).loadGenesisBlock cfg = n →
      rootlessCheck (n.processHeader cfg rootlessHeader).2 = true := by
    intro n hn
    unfold cfg at hn ⊢
    unfold rootlessCheck
    rw [sha2_eq_rootlessDigests] at hn ⊢
    unfold Node.loadGenesisBlock ChainParams.genesisIndex at hn
    unfold Node.processHeader Node.commitHeader Store.processHeader
    rw [calculateBlockWork_eq_division] at hn ⊢
    subst hn
    decide +kernel
  exact hrun _ rfl

set_option maxRecDepth 100000 in
lemma blockHash_rootlessHeader_ne : rootlessHeader.blockHash ≠ cfg.params.genesisHash := by
  unfold cfg
  rw [sha2_eq_rootlessDigests]
  decide +kernel

/-- A call of `process_header` with that header, after `load_genesis`, is a run. -/
lemma reachable_rootlessHeader :
    Reachable (Node.call cfg) (fun _ _ _ => True) (Node.restart cfg Store.empty)
      (((Node.restart cfg Store.empty).loadGenesisBlock cfg).processHeader cfg
        rootlessHeader).2 :=
  .step (.step .init (Node.call_loadGenesis ..) trivial)
    (Node.call_processHeader cfg _ rootlessHeader) trivial

/-- `process_header` stores a header without a parent and without proof of work. -/
theorem not_accepted_rootlessHeader :
    ∃ n index, Reachable (Node.call cfg) (fun _ _ _ => True) (Node.restart cfg Store.empty) n ∧
      n.store.getBlockIndex rootlessHeader.blockHash = .ok (some index) ∧
      rootlessHeader.blockHash ≠ cfg.params.genesisHash ∧
      (∀ parent, n.store.getBlockIndex index.header.prevHash ≠ .ok (some parent)) ∧
      index.header.meetsTarget = false := by
  obtain ⟨index, hindex, hparent, htarget⟩ := exists_of_rootlessCheck rootlessCheck_processHeader
  exact ⟨_, index, reachable_rootlessHeader, hindex, blockHash_rootlessHeader_ne, hparent, htarget⟩

end Sample

end Bitcrab
