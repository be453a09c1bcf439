import Bitcrab.Node.HeaderPeriods

/-!
# A message of headers, and its headers one by one

`process_headers` keeps the parents, the work and the best tip of a message in maps of its own;
`process_header` reads them from the store for each header. A batch that is accepted leaves the
store as the single calls do, up to the first one that fails. A batch with a header that fails its
checks leaves nothing, since it is one write to the database.
-/

namespace Bitcrab

open BlockManager Result

section

variable [Sha2]

/-- Calls of `process_header` on a list of headers, up to the first one that fails: the heights they
return, and the node after them. -/
def Node.processEach (cfg : Config) (n : Node) : List BlockHeader → List UInt32 × Node
  | [] => ([], n)
  | header :: rest =>
    match n.processHeader cfg header with
    | (.error _, n) => ([], n)
    | (.ok height, n) =>
      let (heights, n) := n.processEach cfg rest
      (height :: heights, n)

omit [Sha2] in
/-- Two stores with the same index records, the same `z` table and the same headers tip. -/
structure Store.SameHeaders (s s' : Store) : Prop where
  index : ∀ hash, s.getBlockIndex hash = s'.getBlockIndex hash
  headerHeight : ∀ height, s.getBlockHashByHeaderHeight height =
    s'.getBlockHashByHeaderHeight height
  tip : s.getHeadersTip = s'.getHeadersTip

/-! ### A new header, by itself -/

section

variable {s : Store} (index : BlockIndex) {work : Hash256}

/-- The work of the headers tip after a new record: that of the record, if the tip is its hash. -/
lemma headersTipWork_handleStoreBlockIndex
    (hnone : s.getBlockIndex index.header.blockHash = .ok none)
    (hwork : s.headersTipWork = .ok work) :
    s.getHeadersTip = some index.header.blockHash ∧ work = Digest.zero ∧
        (handleStoreBlockIndex s index.header.blockHash index).headersTipWork =
          .ok index.chainWork ∨
      (handleStoreBlockIndex s index.header.blockHash index).headersTipWork = .ok work := by
  cases htip : s.getHeadersTip with
  | none =>
    right
    rw [← hwork]
    simp [Store.headersTipWork, tipIndex, htip]
  | some tip =>
    by_cases hhash : tip = index.header.blockHash
    · subst hhash
      left
      simp only [Store.headersTipWork, tipIndex, htip, hnone, Except.map, Option.map_none,
        Option.getD_none, Except.ok.injEq] at hwork
      refine ⟨rfl, hwork.symm, ?_⟩
      simp [Store.headersTipWork, tipIndex, htip, Except.map]
    · right
      rw [← hwork]
      simp [Store.headersTipWork, tipIndex, htip, getBlockIndex_handleStoreBlockIndex, hhash]

/-- A new record is the headers tip if it has more work than the tip. -/
lemma Store.getHeadersTip_addHeader (hnone : s.getBlockIndex index.header.blockHash = .ok none)
    (hwork : s.headersTipWork = .ok work) :
    (s.addHeader index).getHeadersTip =
      if index.chainWork.gt work then some index.header.blockHash else s.getHeadersTip := by
  rcases headersTipWork_handleStoreBlockIndex index hnone hwork with ⟨htip, -, hnew⟩ | hsame
  · simp [Store.addHeader, hnew, Digest.gt_eq_false_of_le (Digest.le_refl _), htip]
  · simp only [Store.addHeader, hsame]
    split_ifs <;> simp

lemma Store.headersTipWork_addHeader (hnone : s.getBlockIndex index.header.blockHash = .ok none)
    (hwork : s.headersTipWork = .ok work) :
    (s.addHeader index).headersTipWork =
      .ok (if index.chainWork.gt work then index.chainWork else work) := by
  rcases headersTipWork_handleStoreBlockIndex index hnone hwork with ⟨-, rfl, hnew⟩ | hsame
  · simp only [Store.addHeader, hnew, Digest.gt_eq_false_of_le (Digest.le_refl _),
      Bool.false_eq_true, if_false]
    split_ifs with hgt
    · rfl
    · rw [Digest.eq_zero_of_gt_zero_eq_false (Bool.eq_false_of_not_eq_true hgt)]
  · simp only [Store.addHeader, hsame]
    split_ifs with hgt
    · simp [Store.headersTipWork, tipIndex, Except.map]
    · exact hsame

variable {cfg : Config} {n : Node} {header : BlockHeader} {prev : BlockIndex}

/-- `process_header` accepts a header that extends a known one and passes the checks. -/
lemma Node.processHeader_of_extends (hwork : n.store.headersTipWork = .ok work)
    (hnone : n.store.getBlockIndex header.blockHash = .ok none)
    (hzero : header.prevHash.isZero = false)
    (hprev : n.store.getBlockIndex header.prevHash = .ok (some prev))
    (hcheck : checkBlockHeader header prev cfg.params (headerProvider cfg.params n.store) =
      .ok ()) :
    n.processHeader cfg header =
      (.ok prev.height.next, { n with store := n.store.addHeader (prev.extend header) }) := by
  have hparent : n.store.parentWork header = .ok prev.chainWork := by
    simp [Store.parentWork, hzero, hprev, Except.map]
  have hstore : (n.store.processHeader header prev.height.next).2 =
      n.store.addHeader (prev.extend header) := Store.snd_processHeader _ hnone hparent
  have hok : (n.store.processHeader header prev.height.next).1 = .ok () := by
    have hnew := headersTipWork_handleStoreBlockIndex (prev.extend header) hnone hwork
    have htip : ∃ tipWork, (handleStoreBlockIndex n.store header.blockHash
        (prev.extend header)).headersTipWork = .ok tipWork := by
      rcases hnew with ⟨-, -, hnew⟩ | hnew
      · exact ⟨_, hnew⟩
      · exact ⟨_, hnew⟩
    obtain ⟨tipWork, htip⟩ := htip
    unfold BlockIndex.extend at htip
    simp only [Store.processHeader, hnone, hparent, htip]
  unfold Node.processHeader
  simp only [hnone, hzero, Bool.false_eq_true, if_false, hprev, hcheck]
  unfold Node.commitHeader
  split
  · rename_i e store hresult
    rw [hresult] at hok
    cases hok
  · rename_i store hresult
    rw [hresult] at hstore
    rw [← hstore]

end

namespace HeaderBatch

/-- The store `t` that single calls have made of `s` has what a batch over `s` knows. -/
structure Simulates (batch : HeaderBatch) (s t : Store) : Prop where
  known : ∀ hash, s.getBlockIndex hash ≠ .ok none → t.getBlockIndex hash = s.getBlockIndex hash
  byHash : ∀ hash index, batch.byHash.lookup hash = some index →
    t.getBlockIndex hash = .ok (some index)
  new : ∀ hash, s.getBlockIndex hash = .ok none → batch.byHash.lookup hash = none →
    t.getBlockIndex hash = .ok none
  view : ∀ hash, t.getBlockIndex hash = (batch.view s).getBlockIndex hash
  headerHeight : ∀ height, t.getBlockHashByHeaderHeight height =
    (batch.view s).getBlockHashByHeaderHeight height
  tip : t.getHeadersTip = batch.bestTip.or s.getHeadersTip
  work : t.headersTipWork = .ok batch.bestWork
  pending : batch.pending = [] → batch.bestTip = none

variable {cfg : Config} {params : ChainParams} {s t : Store} {batch batch' : HeaderBatch}
  {n : Node} {header : BlockHeader} {prev : BlockIndex} {rest : List BlockHeader} {work : Hash256}
  {records : List (BlockHash × BlockIndex)}

omit [Sha2] in
lemma simulates_new (headers : List BlockHeader) (hwork : s.headersTipWork = .ok work) :
    (new s headers).Simulates s s where
  known := fun _ _ => rfl
  byHash := by simp [new]
  new := fun _ h _ => h
  view := fun _ => rfl
  headerHeight := fun _ => rfl
  tip := rfl
  work := by
    rw [hwork]
    unfold Store.headersTipWork tipIndex at hwork
    unfold new Store.findBlockIndex
    cases htip : s.getHeadersTip with
    | none =>
      simp only [htip, Except.map, Except.ok.injEq] at hwork
      simp [← hwork]
    | some tip =>
      cases hget : s.getBlockIndex tip with
      | error e => simp [htip, hget, Except.map] at hwork
      | ok found =>
        simp only [htip, hget, Except.map, Except.ok.injEq] at hwork
        simp [hget, Except.toOption, ← hwork]
  pending := fun _ => rfl

omit [Sha2] in
/-- The batch looks for the parent of a header where the single call does. -/
lemma Simulates.parent_some (hsim : batch.Simulates s t) {hash : BlockHash}
    (h : (batch.byHash.lookup hash).or (s.findBlockIndex hash) = some prev) :
    t.getBlockIndex hash = .ok (some prev) := by
  cases hl : batch.byHash.lookup hash with
  | some index =>
    rw [hl, Option.some_or, Option.some.injEq] at h
    subst h
    exact hsim.byHash hash index hl
  | none =>
    rw [hl, Option.none_or] at h
    have hget := Store.getBlockIndex_of_findBlockIndex h
    rw [hsim.known hash (by simp [hget]), hget]

omit [Sha2] in
/-- Where the batch finds no parent, the single call finds none or cannot read it. -/
lemma Simulates.parent_none (hsim : batch.Simulates s t) {hash : BlockHash}
    (h : (batch.byHash.lookup hash).or (s.findBlockIndex hash) = none) :
    t.getBlockIndex hash = .ok none ∨ ∃ e, t.getBlockIndex hash = .error e := by
  rw [Option.or_eq_none_iff] at h
  cases hget : s.getBlockIndex hash with
  | error e => exact .inr ⟨e, by rw [hsim.known hash (by simp [hget]), hget]⟩
  | ok found =>
    cases found with
    | none => exact .inl (hsim.new hash hget h.1)
    | some index => simp [Store.findBlockIndex, hget, Except.toOption] at h

/-- A header that the batch knows from the store. -/
lemma Simulates.skip (hsim : batch.Simulates s t) {index : BlockIndex} (heights : List UInt32)
    (byHeight : HashMap UInt32 BlockIndex)
    (hindex : s.getBlockIndex header.blockHash = .ok (some index)) :
    Simulates { batch with
      remaining := rest
      heights
      byHeight
      byHash := batch.byHash.insert header.blockHash index } s t where
  known := hsim.known
  byHash := by
    intro hash index' hl
    by_cases hhash : hash = header.blockHash
    · subst hhash
      rw [AList.lookup_insert, Option.some.injEq] at hl
      subst hl
      rw [hsim.known _ (by simp [hindex]), hindex]
    · rw [AList.lookup_insert_ne hhash] at hl
      exact hsim.byHash hash index' hl
  new := by
    intro hash hnone hl
    by_cases hhash : hash = header.blockHash
    · subst hhash
      simp at hl
    · rw [AList.lookup_insert_ne hhash] at hl
      exact hsim.new hash hnone hl
  view := hsim.view
  headerHeight := hsim.headerHeight
  tip := hsim.tip
  work := hsim.work
  pending := hsim.pending

/-- A new header. -/
lemma Simulates.push (hsim : batch.Simulates s t) (prev : BlockIndex) (rest : List BlockHeader)
    (hnone : s.getBlockIndex header.blockHash = .ok none)
    (hfresh : t.getBlockIndex header.blockHash = .ok none) :
    (batch.push header prev rest).Simulates s (t.addHeader (prev.extend header)) where
  known := by
    intro hash hknown
    rw [Store.getBlockIndex_addHeader, if_neg]
    · exact hsim.known hash hknown
    · rintro rfl
      exact hknown hnone
  byHash := by
    intro hash index hl
    rw [Store.getBlockIndex_addHeader]
    by_cases hhash : hash = header.blockHash
    · subst hhash
      simp only [HeaderBatch.push, AList.lookup_insert, Option.some.injEq] at hl
      subst hl
      exact if_pos rfl
    · simp only [HeaderBatch.push, AList.lookup_insert_ne hhash] at hl
      exact (if_neg hhash).trans (hsim.byHash hash index hl)
  new := by
    intro hash habsent hl
    by_cases hhash : hash = header.blockHash
    · subst hhash
      simp [HeaderBatch.push] at hl
    · simp only [HeaderBatch.push, AList.lookup_insert_ne hhash] at hl
      rw [Store.getBlockIndex_addHeader]
      exact (if_neg hhash).trans (hsim.new hash habsent hl)
  view := by
    intro hash
    rw [view_push, getBlockIndex_handleStoreBlockIndex, Store.getBlockIndex_addHeader, hsim.view]
    rfl
  headerHeight := by
    intro height
    rw [view_push, getBlockHashByHeaderHeight_handleStoreBlockIndex,
      Store.getBlockHashByHeaderHeight_addHeader, hsim.headerHeight]
    rfl
  tip := by
    rw [Store.getHeadersTip_addHeader (prev.extend header) hfresh hsim.work, hsim.tip]
    simp only [HeaderBatch.push, BlockIndex.extend]
    by_cases hgt : (addChainWork prev.chainWork (calculateBlockWork header.bits)).gt
        batch.bestWork = true
    · simp [hgt]
    · simp [hgt]
  work := Store.headersTipWork_addHeader (prev.extend header) hfresh hsim.work
  pending := by
    intro hpending
    simp [HeaderBatch.push] at hpending

/-- What one round of the batch and one single call do with a header: both fail, or the batch stops
where the call fails, or both go on with the same height. -/
lemma Simulates.acceptHeader (hsim : batch.Simulates s n.store)
    (hremaining : batch.remaining = header :: rest)
    (hfresh : s.getBlockIndex header.blockHash = .ok none →
      n.store.getBlockIndex header.blockHash = .ok none)
    (hzero : s.getBlockIndex header.blockHash = .ok none → header.prevHash.isZero = false)
    (hrecords : batch.Records s n.store records)
    (hperiods : ∀ prev ∈ s.recordOf records header.prevHash,
      ∀ first ∈ retargetHeight prev cfg.params.consensus,
        s.SamePeriod cfg.params records first) :
    (∃ e, n.processHeader cfg header = (.error e, n)) ∧
        ((∃ e, batch.acceptHeader cfg.params s = .error e) ∨
          batch.acceptHeader cfg.params s = .ok { batch with remaining := [] }) ∨
      ∃ height n' batch', n.processHeader cfg header = (.ok height, n') ∧
        batch.acceptHeader cfg.params s = .ok batch' ∧ batch'.remaining = rest ∧
        batch'.heights = batch.heights ++ [height] ∧ batch'.Simulates s n'.store ∧
        batch'.Records s n'.store (s.addRecord records header) ∧
        ∀ hash, hash ≠ header.blockHash →
          n'.store.getBlockIndex hash = n.store.getBlockIndex hash := by
  unfold HeaderBatch.acceptHeader
  rw [hremaining]
  dsimp only
  cases hget : s.getBlockIndex header.blockHash with
  | error e =>
    have hsame := hsim.known header.blockHash (by simp [hget])
    rw [hget] at hsame
    refine .inl ⟨⟨.store e, ?_⟩, .inl ⟨.store e, rfl⟩⟩
    simp only [Node.processHeader, hsame]
  | ok found =>
    cases found with
    | some index =>
      have hsame := hsim.known header.blockHash (by simp [hget])
      rw [hget] at hsame
      refine .inr ⟨index.height, n, _, ?_, rfl, rfl, rfl, hsim.skip _ _ hget,
        hrecords.skip hsim.known hget, fun _ _ => rfl⟩
      simp only [Node.processHeader, hsame]
    | none =>
      have hnone := hfresh hget
      have hparent := hzero hget
      cases hlookup : (batch.byHash.lookup header.prevHash).or
          (s.findBlockIndex header.prevHash) with
      | none =>
        refine .inl ⟨?_, .inr rfl⟩
        rcases hsim.parent_none hlookup with hprev | ⟨e, hprev⟩
        · exact ⟨.orphan header.prevHash, by simp [Node.processHeader, hnone, hparent, hprev]⟩
        · exact ⟨.store e, by simp [Node.processHeader, hnone, hparent, hprev]⟩
      | some prev =>
        have hprev := hsim.parent_some hlookup
        have hrecord := (hrecords.recordOf header.prevHash).trans hlookup
        have hcheck : checkBlockHeader header prev cfg.params (batch.provider cfg.params s) =
            checkBlockHeader header prev cfg.params (headerProvider cfg.params n.store) := by
          apply checkBlockHeader_congr_provider
          intro first hfirst
          exact hrecords.sameTimeAt hsim.known (hperiods prev hrecord first hfirst)
        cases hresult : checkBlockHeader header prev cfg.params (batch.provider cfg.params s) with
        | error e =>
          rw [hresult] at hcheck
          refine .inl ⟨⟨.consensus e, ?_⟩, .inl ⟨.consensus e, by simp only [hresult]; rfl⟩⟩
          simp only [Node.processHeader, hnone, hparent, Bool.false_eq_true, if_false, hprev,
            ← hcheck]
        | ok u =>
          rw [hresult] at hcheck
          refine .inr ⟨prev.height.next, _, batch.push header prev rest,
            Node.processHeader_of_extends hsim.work hnone hparent hprev hcheck.symm,
            by simp only [hresult]; rfl, rfl, rfl, hsim.push prev rest hget hnone,
            hrecords.push hget hnone hrecord, fun hash hhash => ?_⟩
          dsimp only
          rw [Store.getBlockIndex_addHeader]
          exact if_neg hhash

lemma acceptHeaders_nil (rounds : Nat) (h : batch.remaining = []) :
    batch.acceptHeaders params s rounds = .ok batch := by
  induction rounds with
  | zero => rfl
  | succ rounds ih =>
    have haccept : batch.acceptHeader params s = .ok batch := by
      simp only [HeaderBatch.acceptHeader, h]
    rw [acceptHeaders, haccept, ok_bind, ih]

/-- A whole batch and the single calls. -/
lemma Simulates.acceptHeaders {headers : List BlockHeader} (hsim : batch.Simulates s n.store)
    (hremaining : batch.remaining = headers)
    (hrepeat : headers.Pairwise fun a b =>
      s.getBlockIndex b.blockHash = .ok none → a.blockHash ≠ b.blockHash)
    (hfresh : ∀ header ∈ headers, s.getBlockIndex header.blockHash = .ok none →
      n.store.getBlockIndex header.blockHash = .ok none)
    (hzero : ∀ header ∈ headers, s.getBlockIndex header.blockHash = .ok none →
      header.prevHash.isZero = false)
    (hrecords : batch.Records s n.store records)
    (hperiods : s.SamePeriods cfg.params records headers) :
    (∀ batch', batch.acceptHeaders cfg.params s headers.length = .ok batch' →
      batch'.heights = batch.heights ++ (n.processEach cfg headers).1 ∧
        batch'.Simulates s (n.processEach cfg headers).2.store) ∧
    ∀ e, batch.acceptHeaders cfg.params s headers.length = .error e →
      (n.processEach cfg headers).1.length < headers.length := by
  induction headers generalizing batch n records with
  | nil =>
    refine ⟨?_, ?_⟩
    · intro batch' h
      obtain rfl := Except.ok.inj h
      exact ⟨(List.append_nil _).symm, hsim⟩
    · intro e h
      cases h
  | cons header rest ih =>
    obtain ⟨hfirst, hrest⟩ := List.pairwise_cons.mp hrepeat
    rw [List.length_cons, HeaderBatch.acceptHeaders]
    rcases hsim.acceptHeader hremaining (hfresh header (List.mem_cons_self ..))
        (hzero header (List.mem_cons_self ..)) hrecords hperiods.1 with
      ⟨⟨e, hprocess⟩, hstop⟩ | ⟨height, n', batch₁, hprocess, haccept, hremaining', hheights,
        hsim', hrecords', hkept⟩
    · have heach : n.processEach cfg (header :: rest) = ([], n) := by
        simp only [Node.processEach, hprocess]
      rw [heach]
      rcases hstop with ⟨e', haccept⟩ | haccept
      · rw [haccept]
        refine ⟨?_, fun _ _ => Nat.succ_pos _⟩
        intro batch' h
        cases h
      · rw [haccept, ok_bind, acceptHeaders_nil _ rfl]
        refine ⟨?_, by simp⟩
        intro batch' h
        obtain rfl := Except.ok.inj h
        exact ⟨(List.append_nil _).symm, hsim.known, hsim.byHash, hsim.new, hsim.view,
          hsim.headerHeight, hsim.tip, hsim.work, hsim.pending⟩
    · have heach : n.processEach cfg (header :: rest) =
          (height :: (n'.processEach cfg rest).1, (n'.processEach cfg rest).2) := by
        simp only [Node.processEach, hprocess]
      have hfresh' : ∀ a ∈ rest, s.getBlockIndex a.blockHash = .ok none →
          n'.store.getBlockIndex a.blockHash = .ok none := by
        intro a ha hnone
        rw [hkept _ (hfirst a ha hnone).symm]
        exact hfresh a (List.mem_cons_of_mem _ ha) hnone
      obtain ⟨hok, herror⟩ := ih hsim' hremaining' hrest hfresh'
        (fun a ha => hzero a (List.mem_cons_of_mem _ ha)) hrecords' hperiods.2
      rw [heach, haccept, ok_bind]
      refine ⟨?_, fun e h => Nat.succ_lt_succ (herror e h)⟩
      intro batch' h
      obtain ⟨hheights', hfinal⟩ := hok batch' h
      exact ⟨by rw [hheights', hheights, List.append_assoc, List.singleton_append], hfinal⟩

omit [Sha2] in
/-- A batch that is committed leaves what the single calls leave. -/
lemma Simulates.sameHeaders (hsim : batch.Simulates s t) : (batch.commit s).SameHeaders t := by
  rw [commit_eq hsim.pending]
  refine ⟨fun hash => ?_, fun height => ?_, ?_⟩
  · rw [hsim.view]
    cases batch.bestTip <;> simp
  · rw [hsim.headerHeight]
    cases batch.bestTip <;> simp
  · rw [hsim.tip]
    cases batch.bestTip with
    | none => exact getHeadersTip_view
    | some tip => exact getHeadersTip_handleUpdateHeadersTip ..

end HeaderBatch

/-- A message of headers that is accepted leaves the same records, the same `z` table and the same
headers tip as its headers one by one, and gives the same heights; one that is not accepted leaves
the node as it was, and has a header that is not accepted by itself. The headers tip can be read,
and no new header comes twice or without a parent. -/
theorem processHeaders_eq_processEach (cfg : Config) (n : Node) (headers : List BlockHeader)
    (hwork : ∃ work, n.store.headersTipWork = .ok work)
    (hrepeat : headers.Pairwise fun a b =>
      n.store.getBlockIndex b.blockHash = .ok none → a.blockHash ≠ b.blockHash)
    (hzero : ∀ header ∈ headers, n.store.getBlockIndex header.blockHash = .ok none →
      header.prevHash.isZero = false)
    (hperiods : n.store.SamePeriods cfg.params [] headers) :
    (∀ heights, (n.processHeaders cfg headers).1 = .ok heights →
      heights = (n.processEach cfg headers).1 ∧
        (n.processHeaders cfg headers).2.store.SameHeaders (n.processEach cfg headers).2.store) ∧
    ∀ e, (n.processHeaders cfg headers).1 = .error e →
      (n.processHeaders cfg headers).2 = n ∧
        (n.processEach cfg headers).1.length < headers.length := by
  obtain ⟨work, hwork⟩ := hwork
  obtain ⟨hok, herror⟩ := (HeaderBatch.simulates_new headers hwork).acceptHeaders rfl hrepeat
    (fun _ _ h => h) hzero (HeaderBatch.records_new n.store headers) hperiods
  unfold Node.processHeaders
  cases hbatch : (HeaderBatch.new n.store headers).acceptHeaders cfg.params n.store
      headers.length with
  | error e =>
    refine ⟨by simp, fun _ _ => ⟨rfl, herror e hbatch⟩⟩
  | ok batch =>
    refine ⟨?_, by simp⟩
    intro heights hheights
    obtain rfl := Except.ok.inj hheights
    obtain ⟨hall, hsim⟩ := hok batch hbatch
    exact ⟨hall, hsim.sameHeaders⟩

end

namespace Sample

/-- Four headers across the end of a period. -/
def periodHeaders : List BlockHeader := [header1, header2, header3, header4]

set_option maxRecDepth 100000 in
lemma processHeaders_periodHeaders :
    ((Node.init shortPeriodCfg).processHeaders shortPeriodCfg periodHeaders).1.toOption =
        some [1, 2, 3, 4] ∧
      (periodHeaders.map (·.blockHash)).Nodup ∧
      (∀ header ∈ periodHeaders, header.prevHash.isZero = false) ∧
      (Node.init shortPeriodCfg).store.SamePeriods shortPeriodCfg.params [] periodHeaders := by
  have hrun : ∀ n, Node.init shortPeriodCfg = n →
      (n.processHeaders shortPeriodCfg periodHeaders).1.toOption = some [1, 2, 3, 4] ∧
        (periodHeaders.map (·.blockHash)).Nodup ∧
        (∀ header ∈ periodHeaders, header.prevHash.isZero = false) ∧
        n.store.SamePeriods shortPeriodCfg.params [] periodHeaders := by
    intro n hn
    unfold shortPeriodCfg cfg at hn ⊢
    rw [sha2_eq_chainDigests] at hn ⊢
    unfold Node.init Node.loadGenesisBlock ChainParams.genesisIndex at hn
    unfold Node.processHeaders periodHeaders
    simp only [List.length_cons, List.length_nil, HeaderBatch.acceptHeaders]
    unfold HeaderBatch.acceptHeader HeaderBatch.push
    rw [calculateBlockWork_eq_division] at hn ⊢
    subst hn
    decide +kernel
  exact hrun _ rfl

/-- A message with these headers, after `load_genesis`. -/
theorem processHeaders_eq_processEach_periodHeaders :
    ((Node.init shortPeriodCfg).processEach shortPeriodCfg periodHeaders).1 = [1, 2, 3, 4] ∧
      ((Node.init shortPeriodCfg).processHeaders shortPeriodCfg periodHeaders).2.store.SameHeaders
        ((Node.init shortPeriodCfg).processEach shortPeriodCfg periodHeaders).2.store := by
  obtain ⟨hheights, hnodup, hzero, hperiods⟩ := processHeaders_periodHeaders
  have hrepeat : periodHeaders.Pairwise fun a b =>
      (Node.init shortPeriodCfg).store.getBlockIndex b.blockHash = .ok none →
        a.blockHash ≠ b.blockHash := by
    apply (List.pairwise_map.mp hnodup).imp
    intro a b hne _
    exact hne
  obtain ⟨hok, -⟩ := processHeaders_eq_processEach shortPeriodCfg (Node.init shortPeriodCfg)
    periodHeaders ⟨_, (mostWork_addGenesis shortPeriodCfg.params).headersTipWork_eq⟩ hrepeat
    (fun header hmem _ => hzero header hmem) hperiods
  cases hresult : ((Node.init shortPeriodCfg).processHeaders shortPeriodCfg periodHeaders).1 with
  | error e =>
    rw [hresult] at hheights
    cases hheights
  | ok heights =>
    rw [hresult] at hheights
    obtain rfl := Option.some.inj hheights
    obtain ⟨heach, hsame⟩ := hok _ hresult
    exact ⟨heach.symm, hsame⟩

/-- A header that does not have its proof of work. -/
def weakHeader : BlockHeader := { nextBlock.header with bits := 0 }

/-- The digests of that header. -/
def weakDigests : List (List UInt8 × Bytes32) :=
  twice weakHeader.serialize.toList
    ⟨[0xad, 0xb4, 0x08, 0x8f, 0xa9, 0x2c, 0xe0, 0xd7, 0x9c, 0xd2, 0x6c, 0x1e, 0xca, 0xc6, 0xef,
      0x32, 0x2a, 0x50, 0x8e, 0x2e, 0xed, 0x67, 0x9a, 0x30, 0xe8, 0x1d, 0xd2, 0x90, 0x90, 0x09,
      0xc9, 0x68], rfl⟩
    ⟨[0xe7, 0x8c, 0x8d, 0xd2, 0xfd, 0x17, 0xbd, 0xf3, 0xbf, 0xaf, 0x06, 0x5c, 0x32, 0x22, 0xc0,
      0x8c, 0xf1, 0x65, 0xab, 0xcf, 0x67, 0xd0, 0x6c, 0x2b, 0x1a, 0xaa, 0x2f, 0x14, 0x8c, 0xc0,
      0xaa, 0x18], rfl⟩

set_option maxRecDepth 100000 in
lemma sha256_weakDigests : ∀ e ∈ weakDigests, Sha256.sha256 e.1 = e.2 := by
  decide +kernel

lemma sha2_eq_weakDigests :
    sha2 = remember (digests ++ forkDigests ++ rootlessDigests ++ weakDigests) := by
  refine sha2_eq_remember (List.forall_mem_append.mpr ⟨?_, sha256_weakDigests⟩)
  refine List.forall_mem_append.mpr ⟨?_, sha256_rootlessDigests⟩
  exact List.forall_mem_append.mpr ⟨sha256_digests, sha256_forkDigests⟩

/-- What a node has of a header: whether it is the headers tip, filed at height 1, and indexed. -/
def left (hash : BlockHash) (n : Node) : Bool × Bool × Bool :=
  (n.store.getHeadersTip == some hash, n.store.getBlockHashByHeaderHeight 1 == some hash,
    (n.store.findBlockIndex hash).isSome)

/-- What a message leaves of a header, as a batch and header by header. -/
def bothLeave (cfg : Config) (hash : BlockHash) (headers : List BlockHeader) (n : Node) :
    (Bool × Bool × Bool) × Bool × Bool × Bool :=
  (left hash (n.processHeaders cfg headers).2, left hash (n.processEach cfg headers).2)

lemma not_sameHeaders {cfg : Config} {hash : BlockHash} {headers : List BlockHeader} {n : Node}
    {has has' : Bool × Bool × Bool} (h : bothLeave cfg hash headers n = (has, has'))
    (hne : has ≠ has') :
    ¬ (n.processHeaders cfg headers).2.store.SameHeaders (n.processEach cfg headers).2.store := by
  intro hsame
  rw [bothLeave, Prod.mk.injEq] at h
  apply hne
  rw [← h.1, ← h.2]
  simp only [left, hsame.tip, hsame.headerHeight, Store.findBlockIndex, hsame.index]

set_option maxRecDepth 100000 in
lemma bothLeave_init :
    bothLeave cfg nextBlock.header.blockHash [nextBlock.header, weakHeader] (Node.init cfg) =
        ((false, false, false), true, true, true) ∧
      bothLeave cfg rootlessHeader.blockHash [rootlessHeader] (Node.init cfg) =
        ((false, false, false), true, false, true) ∧
      bothLeave cfg nextBlock.header.blockHash [nextBlock.header, forkHeader, nextBlock.header]
        (Node.init cfg) = ((true, true, true), true, false, true) := by
  have hrun : ∀ n, Node.init cfg = n →
      bothLeave cfg nextBlock.header.blockHash [nextBlock.header, weakHeader] n =
          ((false, false, false), true, true, true) ∧
        bothLeave cfg rootlessHeader.blockHash [rootlessHeader] n =
          ((false, false, false), true, false, true) ∧
        bothLeave cfg nextBlock.header.blockHash
          [nextBlock.header, forkHeader, nextBlock.header] n =
            ((true, true, true), true, false, true) := by
    intro n hn
    unfold cfg at hn ⊢
    unfold bothLeave left
    rw [sha2_eq_weakDigests] at hn ⊢
    unfold Node.init Node.loadGenesisBlock ChainParams.genesisIndex at hn
    unfold Node.processHeaders
    simp only [Node.processEach, List.length_cons, List.length_nil, HeaderBatch.acceptHeaders]
    unfold HeaderBatch.acceptHeader HeaderBatch.push Node.processHeader Node.commitHeader
      Store.processHeader
    rw [calculateBlockWork_eq_division] at hn ⊢
    subst hn
    decide +kernel
  exact hrun _ rfl

/-- The node after some headers. -/
def afterEach (headers : List BlockHeader) (n : Node) : Node :=
  (n.processEach shortPeriodCfg headers).2

/-- The node after the headers up to height 3. -/
def periodNode : Node := afterEach [header1, header2, header3] (Node.init shortPeriodCfg)

/-- And then after another header at height 2. -/
def latePeriodNode : Node := afterEach [lateHeader2] periodNode

/-- A node whose table of headers names, for height 2, a header that it does not have. -/
def danglingNode : Node :=
  { periodNode with store := handleUpdateHeaderIndex periodNode.store lateHeader3.blockHash 2 }

set_option maxRecDepth 100000 in
lemma bothLeave_period :
    bothLeave shortPeriodCfg header4.blockHash [header2, header4] latePeriodNode =
        ((true, false, true), false, false, false) ∧
      bothLeave shortPeriodCfg header4.blockHash [lateHeader3, header4] danglingNode =
        ((true, false, true), false, false, false) := by
  have hrun : ∀ n, Node.init shortPeriodCfg = n →
      ∀ n', afterEach [header1, header2, header3] n = n' →
      ∀ late, afterEach [lateHeader2] n' = late →
      ∀ dangling, { n' with store :=
        handleUpdateHeaderIndex n'.store lateHeader3.blockHash 2 } = dangling →
      bothLeave shortPeriodCfg header4.blockHash [header2, header4] late =
          ((true, false, true), false, false, false) ∧
        bothLeave shortPeriodCfg header4.blockHash [lateHeader3, header4] dangling =
          ((true, false, true), false, false, false) := by
    intro n hn n' hn' late hlate dangling hdangling
    unfold afterEach at hn' hlate
    unfold shortPeriodCfg cfg at hn hn' hlate ⊢
    unfold bothLeave left
    rw [sha2_eq_chainDigests] at hn hn' hlate hdangling ⊢
    unfold Node.init Node.loadGenesisBlock ChainParams.genesisIndex at hn
    simp only [Node.processEach] at hn' hlate
    unfold Node.processHeader Node.commitHeader Store.processHeader at hn' hlate
    unfold Node.processHeaders
    simp only [Node.processEach, List.length_cons, List.length_nil, HeaderBatch.acceptHeaders]
    unfold HeaderBatch.acceptHeader HeaderBatch.push Node.processHeader Node.commitHeader
      Store.processHeader
    rw [calculateBlockWork_eq_division] at hn hn' hlate ⊢
    subst hn hn' hlate hdangling
    decide +kernel
  exact hrun (Node.init shortPeriodCfg) rfl periodNode rfl latePeriodNode rfl danglingNode rfl

/-- A node whose headers tip has a record that cannot be read. -/
def unreadableNode : Node :=
  { Node.init cfg with store := { (Node.init cfg).store with
      db := (Node.init cfg).store.db.commit
        [.put (.block forkHeader.blockHash) [], putHash .headersTip forkHeader.blockHash] } }

set_option maxRecDepth 100000 in
lemma bothLeave_unreadable :
    bothLeave cfg nextBlock.header.blockHash [nextBlock.header] unreadableNode =
      ((true, true, true), false, true, true) := by
  have hrun : ∀ n, Node.init cfg = n →
      ∀ unreadable, { n with store := { n.store with
        db := n.store.db.commit
          [.put (.block forkHeader.blockHash) [], putHash .headersTip forkHeader.blockHash] } } =
        unreadable →
      bothLeave cfg nextBlock.header.blockHash [nextBlock.header] unreadable =
        ((true, true, true), false, true, true) := by
    intro n hn unreadable hunreadable
    unfold cfg at hn ⊢
    unfold bothLeave left
    rw [sha2_eq_weakDigests] at hn hunreadable ⊢
    unfold Node.init Node.loadGenesisBlock ChainParams.genesisIndex at hn
    unfold Node.processHeaders
    simp only [Node.processEach, List.length_cons, List.length_nil, HeaderBatch.acceptHeaders]
    unfold HeaderBatch.acceptHeader HeaderBatch.push Node.processHeader Node.commitHeader
      Store.processHeader
    rw [calculateBlockWork_eq_division] at hn ⊢
    subst hn hunreadable
    decide +kernel
  exact hrun (Node.init cfg) rfl unreadableNode rfl

/-- A batch that fails leaves nothing of the headers before, a header without a parent ends a batch,
and a new header that comes twice is filed twice. At the end of a period, a batch finds a known
header of the message where the tables have another one, and does not find a new one that the tables
have at another height. It takes over the headers tip from one that cannot be read. -/
theorem not_processHeaders_eq_processEach :
    ¬ ((Node.init cfg).processHeaders cfg [nextBlock.header, weakHeader]).2.store.SameHeaders
        ((Node.init cfg).processEach cfg [nextBlock.header, weakHeader]).2.store ∧
      ¬ ((Node.init cfg).processHeaders cfg [rootlessHeader]).2.store.SameHeaders
        ((Node.init cfg).processEach cfg [rootlessHeader]).2.store ∧
      ¬ ((Node.init cfg).processHeaders cfg
          [nextBlock.header, forkHeader, nextBlock.header]).2.store.SameHeaders
        ((Node.init cfg).processEach cfg
          [nextBlock.header, forkHeader, nextBlock.header]).2.store ∧
      ¬ (latePeriodNode.processHeaders shortPeriodCfg [header2, header4]).2.store.SameHeaders
        (latePeriodNode.processEach shortPeriodCfg [header2, header4]).2.store ∧
      ¬ (danglingNode.processHeaders shortPeriodCfg [lateHeader3, header4]).2.store.SameHeaders
        (danglingNode.processEach shortPeriodCfg [lateHeader3, header4]).2.store ∧
      ¬ (unreadableNode.processHeaders cfg [nextBlock.header]).2.store.SameHeaders
        (unreadableNode.processEach cfg [nextBlock.header]).2.store := by
  obtain ⟨hweak, hrootless, htwice⟩ := bothLeave_init
  obtain ⟨hlate, hdangling⟩ := bothLeave_period
  exact ⟨not_sameHeaders hweak (by decide), not_sameHeaders hrootless (by decide),
    not_sameHeaders htwice (by decide), not_sameHeaders hlate (by decide),
    not_sameHeaders hdangling (by decide), not_sameHeaders bothLeave_unreadable (by decide)⟩

end Sample

end Bitcrab
