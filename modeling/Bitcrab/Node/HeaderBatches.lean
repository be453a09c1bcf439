import Bitcrab.Node.HeaderCalls

/-!
# A batch of headers as a view of the index

While `process_headers` runs, its maps and the store together are a view of the block index: the
index that the storage actor leaves when it writes the pending headers. A header that extends a
known one adds a record to the view, or writes again the record that is there.
-/

namespace Bitcrab

open BlockManager Result

variable [Sha2]

namespace HeaderBatch

variable {params : ChainParams} {s : Store} {headers rest : List BlockHeader}
  {header : BlockHeader} {prev : BlockIndex} {batch batch' : HeaderBatch}

/-- The store with the records that are pending. -/
def view (batch : HeaderBatch) (s : Store) : Store := handleStoreBlockIndexes s batch.pending none

/-- What one round of `process_headers` does with a header: it skips a known one, stops at an
orphan, or pushes one that extends a known one. -/
lemma acceptHeader_cases (hremaining : batch.remaining = header :: rest)
    (h : batch.acceptHeader params s = .ok batch') :
    (∃ index, s.getBlockIndex header.blockHash = .ok (some index) ∧
      batch' = { batch with
        remaining := rest
        heights := batch.heights ++ [index.height]
        byHeight := batch.byHeight.insert index.height index
        byHash := batch.byHash.insert header.blockHash index }) ∨
    s.getBlockIndex header.blockHash = .ok none ∧
      ((batch.byHash.lookup header.prevHash).or (s.findBlockIndex header.prevHash) = none ∧
          batch' = { batch with remaining := [] } ∨
        ∃ prev,
          (batch.byHash.lookup header.prevHash).or (s.findBlockIndex header.prevHash) = some prev ∧
          checkBlockHeader header prev params (batch.provider params s) = .ok () ∧
          batch' = batch.push header prev rest) := by
  simp only [acceptHeader, hremaining, bind_eq_ok, mapError_eq_ok] at h
  obtain ⟨found, hfound, h⟩ := h
  cases found with
  | some index => exact .inl ⟨index, hfound, (Except.ok.inj h).symm⟩
  | none =>
    refine .inr ⟨hfound, ?_⟩
    cases hprev : (batch.byHash.lookup header.prevHash).or
        (s.findBlockIndex header.prevHash) with
    | none =>
      simp only [hprev] at h
      exact .inl ⟨rfl, (Except.ok.inj h).symm⟩
    | some prev =>
      simp only [hprev, bind_eq_ok, mapError_eq_ok, pure_eq_ok] at h
      obtain ⟨⟨⟩, hcheck, h⟩ := h
      exact .inr ⟨prev, rfl, hcheck, (Except.ok.inj h).symm⟩

/-- A round leaves at most the headers that were to come. -/
lemma length_remaining_acceptHeader (h : batch.acceptHeader params s = .ok batch') :
    batch'.remaining.length ≤ batch.remaining.length := by
  cases hremaining : batch.remaining with
  | nil =>
    simp only [acceptHeader, hremaining, Except.ok.injEq] at h
    rw [← h, hremaining]
  | cons header rest =>
    rcases acceptHeader_cases hremaining h with
      ⟨index, -, rfl⟩ | ⟨-, ⟨-, rfl⟩ | ⟨prev, -, -, rfl⟩⟩ <;> simp [push]

omit [Sha2] in
@[simp] lemma view_new (s : Store) (headers : List BlockHeader) : (new s headers).view s = s := rfl

lemma view_push (batch : HeaderBatch) (header : BlockHeader) (prev : BlockIndex)
    (rest : List BlockHeader) :
    (batch.push header prev rest).view s =
      handleStoreBlockIndex (batch.view s) header.blockHash (prev.extend header) :=
  handleStoreBlockIndexes_append ..

omit [Sha2] in
/-- A hash that is not indexed in the store is not indexed in the view, or has a pending record. -/
lemma getBlockIndex_view_cases (batch : HeaderBatch) {hash : BlockHash}
    (h : s.getBlockIndex hash = .ok none) :
    (batch.view s).getBlockIndex hash = .ok none ∨
      ∃ index, (batch.view s).getBlockIndex hash = .ok (some index) := by
  have hwritten := indexesWritten_handleStoreBlockIndexes s batch.pending none
  rcases hwritten.index hash with ⟨-, hsame⟩ | ⟨e, -, -, hget⟩
  · exact .inl (hsame.trans h)
  · exact .inr ⟨e.2, hget⟩

/-- A pending record: of a header of the message, on top of a record of the view. -/
structure Pending (view : Store) (headers : List BlockHeader) (hash : BlockHash)
    (index : BlockIndex) : Prop where
  mem : index.header ∈ headers
  hash : index.header.blockHash = hash
  parent : ∃ prev, view.getBlockIndex index.header.prevHash = .ok (some prev) ∧
    index = prev.extend index.header

/-- What holds of a batch of some headers while it is processed. -/
structure Views (batch : HeaderBatch) (s : Store) (headers : List BlockHeader) : Prop where
  remaining : batch.remaining ⊆ headers
  known : ∀ hash, s.getBlockIndex hash ≠ .ok none →
    (batch.view s).getBlockIndex hash = s.getBlockIndex hash
  byHash : ∀ hash index, batch.byHash.lookup hash = some index →
    (batch.view s).getBlockIndex hash = .ok (some index)
  pending : ∀ hash index, (batch.view s).getBlockIndex hash = .ok (some index) →
    s.getBlockIndex hash = .ok none → Pending (batch.view s) headers hash index
  bestTip : batch.pending = [] → batch.bestTip = none

lemma views_new (s : Store) (headers : List BlockHeader) : (new s headers).Views s headers where
  remaining := List.Subset.refl _
  known := fun _ _ => rfl
  byHash := by simp [new]
  pending := by
    intro hash index hview hnone
    rw [view_new, hnone] at hview
    simp at hview
  bestTip := fun _ => rfl

/-- The parent of a header is looked up in the view. -/
lemma Views.getBlockIndex_of_lookup (hviews : batch.Views s headers) {hash : BlockHash}
    (h : (batch.byHash.lookup hash).or (s.findBlockIndex hash) = some prev) :
    (batch.view s).getBlockIndex hash = .ok (some prev) := by
  cases hl : batch.byHash.lookup hash with
  | some index =>
    rw [hl, Option.some_or, Option.some.injEq] at h
    subst h
    exact hviews.byHash hash index hl
  | none =>
    rw [hl, Option.none_or] at h
    have hget := Store.getBlockIndex_of_findBlockIndex h
    rw [hviews.known hash (by simp [hget]), hget]

/-- A header that is new to the store is new to the view, or the view has the very record that is
pushed for it. -/
lemma Views.getBlockIndex_of_new (hviews : batch.Views s headers) (hfree : CollisionFree headers)
    (hmem : header ∈ headers) (hnone : s.getBlockIndex header.blockHash = .ok none)
    (hprev : (batch.view s).getBlockIndex header.prevHash = .ok (some prev)) :
    (batch.view s).getBlockIndex header.blockHash = .ok none ∨
      (batch.view s).getBlockIndex header.blockHash = .ok (some (prev.extend header)) := by
  rcases getBlockIndex_view_cases batch hnone with hview | ⟨index, hview⟩
  · exact .inl hview
  · obtain ⟨hmem', hhash, prev', hprev', hindex⟩ := hviews.pending _ index hview hnone
    obtain hheader : index.header = header := hfree _ hmem' _ hmem hhash
    rw [hheader] at hprev' hindex
    rw [hprev, Except.ok.injEq, Option.some.injEq] at hprev'
    subst hprev'
    exact .inr (hindex ▸ hview)

/-- Records of the view stay when a header is pushed. -/
lemma getBlockIndex_view_push {hash : BlockHash} {index : BlockIndex}
    (hnew : (batch.view s).getBlockIndex header.blockHash = .ok none ∨
      (batch.view s).getBlockIndex header.blockHash = .ok (some (prev.extend header)))
    (h : (batch.view s).getBlockIndex hash = .ok (some index)) :
    ((batch.push header prev rest).view s).getBlockIndex hash = .ok (some index) := by
  rw [view_push, getBlockIndex_handleStoreBlockIndex]
  split_ifs with hhash
  · subst hhash
    rcases hnew with hnew | hnew
    · simp [h] at hnew
    · exact hnew.symm.trans h
  · exact h

lemma Views.push (hviews : batch.Views s headers) (hfree : CollisionFree headers)
    (hremaining : batch.remaining = header :: rest)
    (hnone : s.getBlockIndex header.blockHash = .ok none)
    (hprev : (batch.view s).getBlockIndex header.prevHash = .ok (some prev)) :
    (batch.push header prev rest).Views s headers := by
  have hsub := hviews.remaining
  rw [hremaining] at hsub
  have hmem : header ∈ headers := hsub (List.mem_cons_self ..)
  have hnew := hviews.getBlockIndex_of_new hfree hmem hnone hprev
  refine ⟨fun a ha => hsub (List.mem_cons_of_mem _ ha), ?_, ?_, ?_, ?_⟩
  · intro hash hknown
    rw [view_push, getBlockIndex_handleStoreBlockIndex, if_neg]
    · exact hviews.known hash hknown
    · rintro rfl
      exact hknown hnone
  · intro hash index hl
    by_cases hhash : hash = header.blockHash
    · subst hhash
      simp only [HeaderBatch.push, AList.lookup_insert, Option.some.injEq] at hl
      subst hl
      rw [view_push, getBlockIndex_handleStoreBlockIndex_self]
      rfl
    · simp only [HeaderBatch.push, AList.lookup_insert_ne hhash] at hl
      exact getBlockIndex_view_push hnew (hviews.byHash hash index hl)
  · intro hash index hview habsent
    rw [view_push, getBlockIndex_handleStoreBlockIndex] at hview
    split_ifs at hview with hhash
    · subst hhash
      rw [Except.ok.injEq, Option.some.injEq] at hview
      subst hview
      exact ⟨hmem, rfl, prev, getBlockIndex_view_push hnew hprev, rfl⟩
    · obtain ⟨hmem', hhash', prev', hprev', hindex⟩ := hviews.pending hash index hview habsent
      exact ⟨hmem', hhash', prev', getBlockIndex_view_push hnew hprev', hindex⟩
  · intro hpending
    simp [HeaderBatch.push] at hpending

/-- What a round of `process_headers` does to the view: nothing, or it adds the record of a header
that extends one of the view and passes the checks. -/
lemma Views.acceptHeader (hviews : batch.Views s headers) (hfree : CollisionFree headers)
    (h : batch.acceptHeader params s = .ok batch') :
    batch'.Views s headers ∧
      (batch'.pending = batch.pending ∧ batch'.bestWork = batch.bestWork ∧
          batch'.bestTip = batch.bestTip ∨
        ∃ header prev rest, header ∈ headers ∧ batch.remaining = header :: rest ∧
          (batch.view s).getBlockIndex header.prevHash = .ok (some prev) ∧
          checkBlockHeader header prev params (batch.provider params s) = .ok () ∧
          ((batch.view s).getBlockIndex header.blockHash = .ok none ∨
            (batch.view s).getBlockIndex header.blockHash = .ok (some (prev.extend header))) ∧
          batch' = batch.push header prev rest) := by
  cases hremaining : batch.remaining with
  | nil =>
    simp only [HeaderBatch.acceptHeader, hremaining, Except.ok.injEq] at h
    subst h
    exact ⟨hviews, .inl ⟨rfl, rfl, rfl⟩⟩
  | cons header rest =>
    have hsub := hviews.remaining
    rw [hremaining] at hsub
    rcases acceptHeader_cases hremaining h with
      ⟨index, hindex, rfl⟩ | ⟨hnone, ⟨-, rfl⟩ | ⟨prev, hlookup, hcheck, rfl⟩⟩
    · refine ⟨⟨?_, hviews.known, ?_, hviews.pending, hviews.bestTip⟩, .inl ⟨rfl, rfl, rfl⟩⟩
      · exact fun a ha => hsub (List.mem_cons_of_mem _ ha)
      · intro hash index' hl
        by_cases hhash : hash = header.blockHash
        · subst hhash
          rw [AList.lookup_insert, Option.some.injEq] at hl
          subst hl
          exact (hviews.known _ (by simp [hindex])).trans hindex
        · rw [AList.lookup_insert_ne hhash] at hl
          exact hviews.byHash hash index' hl
    · refine ⟨⟨?_, hviews.known, hviews.byHash, hviews.pending, hviews.bestTip⟩,
        .inl ⟨rfl, rfl, rfl⟩⟩
      simp
    · have hprev := hviews.getBlockIndex_of_lookup hlookup
      have hmem : header ∈ headers := hsub (List.mem_cons_self ..)
      exact ⟨hviews.push hfree hremaining hnone hprev, .inr ⟨header, prev, rest, hmem, rfl, hprev,
        hcheck, hviews.getBlockIndex_of_new hfree hmem hnone hprev, rfl⟩⟩

/-- What every round of `process_headers` keeps holds at its end. -/
lemma acceptHeaders_invariant (inv : HeaderBatch → Prop)
    (hstep : ∀ batch batch', inv batch → batch.acceptHeader params s = .ok batch' → inv batch')
    {rounds : Nat} (hinv : inv batch) (h : batch.acceptHeaders params s rounds = .ok batch') :
    inv batch' := by
  induction rounds generalizing batch with
  | zero =>
    obtain rfl := Except.ok.inj h
    exact hinv
  | succ rounds ih =>
    simp only [acceptHeaders, bind_eq_ok] at h
    obtain ⟨batch₁, haccept, hrest⟩ := h
    exact ih (hstep _ _ hinv haccept) hrest

omit [Sha2] in
/-- The store after a batch: the view, with the best tip of the batch if it has one. -/
lemma commit_eq (h : batch.pending = [] → batch.bestTip = none) :
    batch.commit s = batch.bestTip.elim (batch.view s) (handleUpdateHeadersTip (batch.view s)) := by
  unfold HeaderBatch.commit
  split_ifs with hempty
  · have hpending := List.isEmpty_iff.mp hempty
    rw [h hpending, view, hpending]
    rfl
  · cases htip : batch.bestTip with
    | none => rfl
    | some tip => exact handleStoreBlockIndexes_some ..

omit [Sha2] in
lemma getHeadersTip_view : (batch.view s).getHeadersTip = s.getHeadersTip := by
  apply readHash_commit_of_forall_ne
  intro op hop
  rw [Option.toList_none, List.map_nil, List.append_nil] at hop
  obtain ⟨e, -, rfl | rfl⟩ := mem_indexOps hop <;> simp [putHash, WriteOp.key]

/-- The headers tip after a batch. -/
lemma Views.getHeadersTip_commit (hviews : batch.Views s headers) :
    (batch.commit s).getHeadersTip = batch.bestTip.or s.getHeadersTip := by
  rw [commit_eq hviews.bestTip]
  cases batch.bestTip with
  | none => exact getHeadersTip_view
  | some tip => exact getHeadersTip_handleUpdateHeadersTip ..

omit [Sha2] in
/-- A batch leaves the best block alone. -/
lemma getBestBlock_commit : (batch.commit s).getBestBlock = s.getBestBlock := by
  unfold HeaderBatch.commit
  split_ifs
  · rfl
  · exact (indexesWritten_handleStoreBlockIndexes s batch.pending batch.bestTip).bestBlock

@[simp] lemma Views.getBlockIndex_commit (hviews : batch.Views s headers) (hash : BlockHash) :
    (batch.commit s).getBlockIndex hash = (batch.view s).getBlockIndex hash := by
  rw [commit_eq hviews.bestTip]
  cases batch.bestTip <;> simp

end HeaderBatch

end Bitcrab
