import Bitcrab.Consensus.Validation
import Bitcrab.Storage.BlockIndexes

/-!
# Accepting headers (`node/blockchain.rs`)

`process_headers` checks the headers of one message one after the other and collects the new ones;
the chainstate actor then stores them as one batch. A message is processed at a time: the peer
manager holds a lock for it.
-/

namespace Bitcrab

open Result

variable [Sha2]

/-- `BlockHeight::next`. -/
def BlockHeight.next (height : BlockHeight) : BlockHeight :=
  if height = 0xFFFFFFFF then height else height + 1

/-- `get_block_index`, with errors read as an absent index. -/
def Store.findBlockIndex (s : Store) (hash : BlockHash) : Option BlockIndex :=
  (s.getBlockIndex hash).toOption.join

omit [Sha2] in
lemma Store.getBlockIndex_of_findBlockIndex {s : Store} {hash : BlockHash} {index : BlockIndex}
    (h : s.findBlockIndex hash = some index) : s.getBlockIndex hash = .ok (some index) := by
  unfold Store.findBlockIndex at h
  cases hget : s.getBlockIndex hash with
  | error e => simp [hget, Except.toOption] at h
  | ok found =>
    simp only [hget, Except.toOption, Option.join_some] at h
    rw [h]

/-- `get_block_index_by_height` of `Store`: the `H` table, then the `z` table. -/
def Store.getBlockIndexByHeight (s : Store) (height : UInt32) : Option BlockIndex :=
  ((s.getBlockHash height).bind s.findBlockIndex).or
    ((s.getBlockHashByHeaderHeight height).bind s.findBlockIndex)

/-- The index record of the genesis block. -/
def ChainParams.genesisIndex (params : ChainParams) : BlockIndex :=
  ⟨params.genesisHeader, 0, calculateBlockWork params.genesisHeader.bits, none, none⟩

/-- `get_block_index_by_height` of `Blockchain`. -/
def headerProvider (params : ChainParams) (s : Store) : BlockIndexProvider := fun height =>
  if height = 0 then some params.genesisIndex else s.getBlockIndexByHeight height

/-- The local variables of `process_headers`. -/
structure HeaderBatch where
  remaining : List BlockHeader
  heights : List UInt32
  pending : List (BlockHash × BlockIndex)
  byHash : HashMap BlockHash BlockIndex
  byHeight : HashMap UInt32 BlockIndex
  bestWork : Hash256
  bestTip : Option BlockHash

/-- The error messages of `process_headers`, by their origin. -/
inductive HeaderError where
  | store (error : StoreError)
  | consensus (error : ValidationError)

namespace HeaderBatch

/-- The start of `process_headers`. -/
def new (s : Store) (headers : List BlockHeader) : HeaderBatch where
  remaining := headers
  heights := []
  pending := []
  byHash := ∅
  byHeight := ∅
  bestWork := ((s.getHeadersTip.bind s.findBlockIndex).map (·.chainWork)).getD Digest.zero
  bestTip := none

/-- `HeaderBatchProvider`. -/
def provider (batch : HeaderBatch) (params : ChainParams) (s : Store) : BlockIndexProvider :=
  fun height => (batch.byHeight.lookup height).or (headerProvider params s height)

/-- The end of the loop body, for a header that extends `prev`. -/
def push (batch : HeaderBatch) (header : BlockHeader) (prev : BlockIndex)
    (rest : List BlockHeader) : HeaderBatch :=
  let hash := header.blockHash
  let height := BlockHeight.next prev.height
  let chainWork := addChainWork prev.chainWork (calculateBlockWork header.bits)
  let index : BlockIndex := ⟨header, height, chainWork, none, none⟩
  let better := chainWork.gt batch.bestWork
  { remaining := rest
    heights := batch.heights ++ [height]
    pending := batch.pending ++ [(hash, index)]
    byHash := batch.byHash.insert hash index
    byHeight := batch.byHeight.insert height index
    bestWork := if better then chainWork else batch.bestWork
    bestTip := if better then some hash else batch.bestTip }

/-- One round of the loop of `process_headers`. A header without a known parent ends it. -/
def acceptHeader (params : ChainParams) (s : Store) (batch : HeaderBatch) :
    Except HeaderError HeaderBatch :=
  match batch.remaining with
  | [] => .ok batch
  | header :: rest => do
    let hash := header.blockHash
    match ← (s.getBlockIndex hash).mapError .store with
    | some index =>
      return { batch with
        remaining := rest
        heights := batch.heights ++ [index.height]
        byHeight := batch.byHeight.insert index.height index
        byHash := batch.byHash.insert hash index }
    | none =>
      match (batch.byHash.lookup header.prevHash).or (s.findBlockIndex header.prevHash) with
      | none => return { batch with remaining := [] }
      | some prev =>
        (checkBlockHeader header prev params (batch.provider params s)).mapError .consensus
        return batch.push header prev rest

/-! ### Heights in a batch -/

/-- No two different headers have the same hash. -/
def CollisionFree (headers : List BlockHeader) : Prop :=
  ∀ a ∈ headers, ∀ b ∈ headers, a.blockHash = b.blockHash → a = b

omit [Sha2] in
/-- A hash is known at a height: from the store, or as a new header of the batch. -/
def Knows (pending : List (BlockHash × BlockIndex)) (s : Store) (hash : BlockHash)
    (height : BlockHeight) : Prop :=
  s.HasHeight hash height ∨
    s.getBlockIndex hash = .ok none ∧ ∃ e ∈ pending, e.1 = hash ∧ e.2.height = height

/-- A new header of a batch: not in the store, and one above its parent. -/
structure IsNew (pending : List (BlockHash × BlockIndex)) (s : Store)
    (e : BlockHash × BlockIndex) : Prop where
  hash : e.2.header.blockHash = e.1
  absent : s.getBlockIndex e.1 = .ok none
  parent : ∃ height, Knows pending s e.2.header.prevHash height ∧ e.2.height = height.next
  filePos : e.2.filePos = none

/-- What holds of a batch while it is processed. -/
structure Inv (batch : HeaderBatch) (s : Store) : Prop where
  free : CollisionFree (batch.pending.map (·.2.header) ++ batch.remaining)
  isNew : ∀ e ∈ batch.pending, IsNew batch.pending s e
  heights : ∀ e ∈ batch.pending, ∀ e' ∈ batch.pending, e.1 = e'.1 → e.2.height = e'.2.height
  byHash : ∀ hash index, batch.byHash.lookup hash = some index →
    Knows batch.pending s hash index.height

section Invariant

variable {batch batch' : HeaderBatch} {pending pending' : List (BlockHash × BlockIndex)}
  {s s' : Store} {hash : BlockHash} {height height' : BlockHeight}

omit [Sha2] in
lemma Knows.mono (h : Knows pending s hash height) (hsub : pending ⊆ pending') :
    Knows pending' s hash height := by
  rcases h with h | ⟨hnone, e, he, hhash, hheight⟩
  · exact .inl h
  · exact .inr ⟨hnone, e, hsub he, hhash, hheight⟩

omit [Sha2] in
lemma Knows.mono_store (h : Knows pending s hash height) (hgrows : s.Grows s')
    (habsent : ∀ hash, s.getBlockIndex hash = .ok none → s'.getBlockIndex hash = .ok none) :
    Knows pending s' hash height := by
  rcases h with h | ⟨hnone, hpending⟩
  · exact .inl (hgrows.height _ _ h)
  · exact .inr ⟨habsent _ hnone, hpending⟩

lemma Inv.unique (hinv : batch.Inv s) (h : Knows batch.pending s hash height)
    (h' : Knows batch.pending s hash height') : height = height' := by
  rcases h with h | ⟨hnone, e, he, rfl, rfl⟩
  · rcases h' with h' | ⟨hnone', -⟩
    · exact h.unique h'
    · obtain ⟨index, hindex, -⟩ := h
      simp [hindex] at hnone'
  · rcases h' with ⟨index, hindex, -⟩ | ⟨-, e', he', hhash, rfl⟩
    · simp [hindex] at hnone
    · exact hinv.heights e he e' he' hhash.symm

lemma Inv.mono_store (hinv : batch.Inv s) (hgrows : s.Grows s')
    (habsent : ∀ hash, s.getBlockIndex hash = .ok none → s'.getBlockIndex hash = .ok none) :
    batch.Inv s' where
  free := hinv.free
  isNew := by
    intro e he
    obtain ⟨hhash, hnone, ⟨height, hknows, hheight⟩, hpos⟩ := hinv.isNew e he
    exact ⟨hhash, habsent _ hnone, ⟨height, hknows.mono_store hgrows habsent, hheight⟩, hpos⟩
  heights := hinv.heights
  byHash := fun hash index hl => (hinv.byHash hash index hl).mono_store hgrows habsent

lemma inv_new (s : Store) {headers : List BlockHeader} (hfree : CollisionFree headers) :
    (new s headers).Inv s where
  free := hfree
  isNew := by simp [new]
  heights := by simp [new]
  byHash := by simp [new]

omit [Sha2] in
lemma hasHeight_of_findBlockIndex {index : BlockIndex} (h : s.findBlockIndex hash = some index) :
    s.HasHeight hash index.height :=
  ⟨index, Store.getBlockIndex_of_findBlockIndex h, rfl⟩

/-- The parent of a header is found at the height it is known at. -/
lemma Inv.knows_of_lookup (hinv : batch.Inv s) {prev : BlockIndex}
    (h : (batch.byHash.lookup hash).or (s.findBlockIndex hash) = some prev) :
    Knows batch.pending s hash prev.height := by
  cases hl : batch.byHash.lookup hash with
  | some index =>
    rw [hl, Option.some_or, Option.some.injEq] at h
    subst h
    exact hinv.byHash hash index hl
  | none =>
    rw [hl, Option.none_or] at h
    exact .inl (hasHeight_of_findBlockIndex h)

lemma collisionFree_mono {headers headers' : List BlockHeader} (h : CollisionFree headers)
    (hsub : headers' ⊆ headers) : CollisionFree headers' :=
  fun a ha b hb => h a (hsub ha) b (hsub hb)

/-- A header that extends a known one. -/
lemma Inv.push (hinv : batch.Inv s) {header : BlockHeader} {rest : List BlockHeader}
    {prev : BlockIndex} (hremaining : batch.remaining = header :: rest)
    (hnone : s.getBlockIndex header.blockHash = .ok none)
    (hprev : Knows batch.pending s header.prevHash prev.height) :
    (batch.push header prev rest).Inv s := by
  have hsub : batch.pending ⊆ (batch.push header prev rest).pending :=
    List.subset_append_left _ _
  have hfree := hinv.free
  rw [hremaining] at hfree
  -- an entry for the same hash is the same header, so it has the same parent
  have hsame : ∀ e ∈ batch.pending, e.1 = header.blockHash → e.2.height = prev.height.next := by
    intro e he hhash
    obtain ⟨hself, -, ⟨height, hknows, hheight⟩, -⟩ := hinv.isNew e he
    have heq : e.2.header = header := by
      apply hfree
      · exact List.mem_append_left _ (List.mem_map_of_mem he)
      · simp
      · rw [hself, hhash]
    rw [heq] at hknows
    rw [hheight, hinv.unique hknows hprev]
  refine ⟨?_, ?_, ?_, ?_⟩
  · apply collisionFree_mono hfree
    intro a ha
    simp only [HeaderBatch.push, List.map_append, List.map_cons, List.map_nil, List.append_assoc,
      List.singleton_append] at ha
    exact ha
  · intro e he
    rcases List.mem_append.mp he with he | he
    · obtain ⟨hhash, habsent, ⟨height, hknows, hheight⟩, hpos⟩ := hinv.isNew e he
      exact ⟨hhash, habsent, ⟨height, hknows.mono hsub, hheight⟩, hpos⟩
    · obtain rfl := List.mem_singleton.mp he
      exact ⟨rfl, hnone, ⟨prev.height, hprev.mono hsub, rfl⟩, rfl⟩
  · intro e he e' he' hhash
    rcases List.mem_append.mp he with he | he <;> rcases List.mem_append.mp he' with he' | he'
    · exact hinv.heights e he e' he' hhash
    · obtain rfl := List.mem_singleton.mp he'
      exact hsame e he hhash
    · obtain rfl := List.mem_singleton.mp he
      exact (hsame e' he' hhash.symm).symm
    · obtain rfl := List.mem_singleton.mp he
      obtain rfl := List.mem_singleton.mp he'
      rfl
  · intro hash index hl
    simp only [HeaderBatch.push] at hl
    by_cases hhash : hash = header.blockHash
    · subst hhash
      rw [AList.lookup_insert, Option.some.injEq] at hl
      subst hl
      exact .inr ⟨hnone, _, List.mem_append_right _ (List.mem_singleton.mpr rfl), rfl, rfl⟩
    · rw [AList.lookup_insert_ne hhash] at hl
      exact (hinv.byHash hash index hl).mono hsub

/-- Every round of `process_headers` keeps the invariant. -/
lemma inv_acceptHeader {params : ChainParams} (hinv : batch.Inv s)
    (h : acceptHeader params s batch = .ok batch') : batch'.Inv s := by
  unfold acceptHeader at h
  cases hremaining : batch.remaining with
  | nil =>
    rw [hremaining] at h
    obtain rfl := Except.ok.inj h
    exact hinv
  | cons header rest =>
    rw [hremaining] at h
    have hfree := hinv.free
    rw [hremaining] at hfree
    simp only [bind_eq_ok, mapError_eq_ok] at h
    obtain ⟨found, hfound, h⟩ := h
    cases found with
    | some index =>
      obtain rfl := Except.ok.inj h
      refine ⟨collisionFree_mono hfree ?_, hinv.isNew, hinv.heights, ?_⟩
      · exact List.append_subset.mpr ⟨List.subset_append_left _ _,
          fun a ha => List.mem_append_right _ (List.mem_cons_of_mem _ ha)⟩
      · intro hash index' hl
        by_cases hhash : hash = header.blockHash
        · subst hhash
          rw [AList.lookup_insert, Option.some.injEq] at hl
          subst hl
          exact .inl ⟨index, hfound, rfl⟩
        · rw [AList.lookup_insert_ne hhash] at hl
          exact hinv.byHash hash index' hl
    | none =>
      cases hprev : (batch.byHash.lookup header.prevHash).or
          (s.findBlockIndex header.prevHash) with
      | none =>
        simp only [hprev] at h
        obtain rfl := Except.ok.inj h
        refine ⟨collisionFree_mono hfree ?_, hinv.isNew, hinv.heights, hinv.byHash⟩
        simp
      | some prev =>
        simp only [hprev, bind_eq_ok, mapError_eq_ok, pure_eq_ok] at h
        obtain ⟨-, -, hret⟩ := h
        obtain rfl := Except.ok.inj hret
        exact hinv.push hremaining hfound (hinv.knows_of_lookup hprev)

end Invariant

end HeaderBatch

end Bitcrab
