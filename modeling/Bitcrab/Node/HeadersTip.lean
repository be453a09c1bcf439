import Bitcrab.Node.HashChain
import Bitcrab.Node.HeaderIndex

/-!
# The headers tip has the most work

After `load_genesis`, every call leaves as the headers tip a header with at least the work of every
indexed one, and the work of the tip does not decrease. Two things are left out: `load_genesis`
makes the genesis block the tip whatever is indexed already, and a restart resets a tip that is more
than 2,000,000 blocks above the best block.
-/

namespace Bitcrab

open BlockManager Result

section

variable [Sha2] {s s' : Store} {work : Hash256}

/-- The headers tip is indexed with some work, and no record has more. -/
structure Store.MostWork (s : Store) (work : Hash256) : Prop where
  tip : ∃ hash tip, s.getHeadersTip = some hash ∧ s.getBlockIndex hash = .ok (some tip) ∧
    tip.chainWork = work
  le : ∀ hash index, s.getBlockIndex hash = .ok (some index) → index.chainWork.le work = true

namespace Store.MostWork

omit [Sha2] in
/-- The headers tip is read with the most work. -/
lemma headersTipWork_eq (h : s.MostWork work) : s.headersTipWork = .ok work := by
  obtain ⟨⟨hash, tip, htip, hindex, rfl⟩, -⟩ := h
  simp [headersTipWork, tipIndex, htip, hindex, Except.map]

omit [Sha2] in
/-- Records with other positions in the files. -/
lemma of_chainWork_eq (h : s.MostWork work) (htip : s'.getHeadersTip = s.getHeadersTip)
    (hkept : ∀ hash index, s.getBlockIndex hash = .ok (some index) →
      ∃ index', s'.getBlockIndex hash = .ok (some index') ∧ index'.chainWork = index.chainWork)
    (hold : ∀ hash index', s'.getBlockIndex hash = .ok (some index') →
      ∃ index, s.getBlockIndex hash = .ok (some index) ∧ index'.chainWork = index.chainWork) :
    s'.MostWork work where
  tip := by
    obtain ⟨⟨hash, tip, hhash, hindex, rfl⟩, -⟩ := h
    obtain ⟨tip', hindex', hwork⟩ := hkept hash tip hindex
    exact ⟨hash, tip', htip.trans hhash, hindex', hwork⟩
  le := by
    intro hash index' hindex'
    obtain ⟨index, hindex, hwork⟩ := hold hash index' hindex'
    rw [hwork]
    exact h.le hash index hindex

omit [Sha2] in
/-- A record for a new header leaves the work of the headers tip. -/
lemma headersTipWork_handleStoreBlockIndex (h : s.MostWork work) {hash : BlockHash}
    (hnone : s.getBlockIndex hash = .ok none) (index : BlockIndex) :
    (handleStoreBlockIndex s hash index).headersTipWork = .ok work := by
  obtain ⟨⟨hash', tip, htip, hindex, rfl⟩, -⟩ := h
  have hne : hash' ≠ hash := by
    rintro rfl
    simp [hindex] at hnone
  simp [headersTipWork, tipIndex, htip, getBlockIndex_handleStoreBlockIndex, hne, hindex,
    Except.map]

/-- A new record is the tip if it has more work. -/
lemma getHeadersTip_addHeader (h : s.MostWork work) {index : BlockIndex}
    (hnone : s.getBlockIndex index.header.blockHash = .ok none) :
    (s.addHeader index).getHeadersTip =
      if index.chainWork.gt work then some index.header.blockHash else s.getHeadersTip := by
  simp only [Store.addHeader, h.headersTipWork_handleStoreBlockIndex hnone index]
  split_ifs <;> simp

lemma addHeader (h : s.MostWork work) {index : BlockIndex}
    (hnone : s.getBlockIndex index.header.blockHash = .ok none) :
    ∃ work', (s.addHeader index).MostWork work' ∧ work.le work' = true := by
  have htip' := h.getHeadersTip_addHeader hnone
  obtain ⟨⟨hash, tip, htip, hindex, rfl⟩, hle⟩ := h
  have hne : hash ≠ index.header.blockHash := by
    rintro rfl
    simp [hindex] at hnone
  have hrecords := s.getBlockIndex_addHeader index
  cases hgt : index.chainWork.gt tip.chainWork with
  | true =>
    rw [if_pos hgt] at htip'
    refine ⟨index.chainWork, ⟨⟨_, index, htip', by simp [hrecords], rfl⟩, ?_⟩,
      Digest.le_of_gt hgt⟩
    intro hash' index' hindex'
    rw [hrecords] at hindex'
    split_ifs at hindex' with hhash
    · obtain rfl := Option.some.inj (Except.ok.inj hindex')
      exact Digest.le_refl _
    · exact Digest.le_trans (hle hash' index' hindex') (Digest.le_of_gt hgt)
  | false =>
    rw [if_neg (by simp [hgt]), htip] at htip'
    refine ⟨tip.chainWork, ⟨⟨hash, tip, htip', by simp [hrecords, hne, hindex], rfl⟩, ?_⟩,
      Digest.le_refl _⟩
    intro hash' index' hindex'
    rw [hrecords] at hindex'
    split_ifs at hindex' with hhash
    · obtain rfl := Option.some.inj (Except.ok.inj hindex')
      exact Digest.le_of_gt_eq_false hgt
    · exact hle hash' index' hindex'

end Store.MostWork

/-! ### A batch -/

/-- A batch in progress: the best work is that of its tip, and no record of the view has more. -/
structure HeaderBatch.TipInv (batch : HeaderBatch) (s : Store) (headers : List BlockHeader)
    (work : Hash256) : Prop where
  views : batch.Views s headers
  tip : ∃ hash tip, batch.bestTip.or s.getHeadersTip = some hash ∧
    (batch.view s).getBlockIndex hash = .ok (some tip) ∧ tip.chainWork = batch.bestWork
  le : ∀ hash index, (batch.view s).getBlockIndex hash = .ok (some index) →
    index.chainWork.le batch.bestWork = true
  grows : work.le batch.bestWork = true

lemma HeaderBatch.TipInv.acceptHeader {params : ChainParams} {batch batch' : HeaderBatch}
    {headers : List BlockHeader} (hinv : batch.TipInv s headers work)
    (hfree : CollisionFree headers) (h : batch.acceptHeader params s = .ok batch') :
    batch'.TipInv s headers work := by
  obtain ⟨hviews', hkept | ⟨header, prev, rest, hmem, hremaining, hprev, hcheck, hnew, rfl⟩⟩ :=
    hinv.views.acceptHeader hfree h
  · obtain ⟨hpending, hwork, htip⟩ := hkept
    have hview : batch'.view s = batch.view s := by rw [view, view, hpending]
    exact ⟨hviews', by rw [htip, hview, hwork]; exact hinv.tip,
      by rw [hview, hwork]; exact hinv.le, by rw [hwork]; exact hinv.grows⟩
  · obtain ⟨hash, tip, htip, hindex, hwork⟩ := hinv.tip
    have hself : ((batch.push header prev rest).view s).getBlockIndex header.blockHash =
        .ok (some (prev.extend header)) := by
      rw [view_push, getBlockIndex_handleStoreBlockIndex_self]
    -- the records of the view are the one pushed and those that were there
    have hcases : ∀ hash index,
        ((batch.push header prev rest).view s).getBlockIndex hash = .ok (some index) →
          index = prev.extend header ∨ (batch.view s).getBlockIndex hash = .ok (some index) := by
      intro hash index hindex
      rw [view_push, getBlockIndex_handleStoreBlockIndex] at hindex
      split_ifs at hindex with hhash
      · exact .inl (Option.some.inj (Except.ok.inj hindex)).symm
      · exact .inr hindex
    cases hgt : (prev.extend header).chainWork.gt batch.bestWork with
    | true =>
      have hbest : (batch.push header prev rest).bestWork = (prev.extend header).chainWork :=
        if_pos hgt
      have hbestTip : (batch.push header prev rest).bestTip = some header.blockHash := if_pos hgt
      refine ⟨hviews', ⟨_, _, by rw [hbestTip]; rfl, hself, hbest.symm⟩, ?_, ?_⟩
      · intro hash index hindex
        rw [hbest]
        rcases hcases hash index hindex with rfl | hold
        · exact Digest.le_refl _
        · exact Digest.le_trans (hinv.le hash index hold) (Digest.le_of_gt hgt)
      · rw [hbest]
        exact Digest.le_trans hinv.grows (Digest.le_of_gt hgt)
    | false =>
      have hne : ¬ (prev.extend header).chainWork.gt batch.bestWork = true := by simp [hgt]
      have hbest : (batch.push header prev rest).bestWork = batch.bestWork := if_neg hne
      have hbestTip : (batch.push header prev rest).bestTip = batch.bestTip := if_neg hne
      refine ⟨hviews', ⟨hash, tip, by rw [hbestTip]; exact htip, ?_, ?_⟩, ?_, ?_⟩
      · exact getBlockIndex_view_push hnew hindex
      · exact hwork.trans hbest.symm
      · intro hash index hindex
        rw [hbest]
        rcases hcases hash index hindex with rfl | hold
        · exact Digest.le_of_gt_eq_false hgt
        · exact hinv.le hash index hold
      · rw [hbest]
        exact hinv.grows

variable {cfg : Config} {n : Node}

lemma Store.MostWork.processHeaders (h : n.store.MostWork work) {headers : List BlockHeader}
    (hfree : HeaderBatch.CollisionFree headers) :
    ∃ work', (n.processHeaders cfg headers).2.store.MostWork work' ∧ work.le work' = true := by
  unfold Node.processHeaders
  split
  · exact ⟨work, h, Digest.le_refl _⟩
  · rename_i batch haccept
    have hbatch : batch.TipInv n.store headers work := by
      refine HeaderBatch.acceptHeaders_invariant
        (fun batch => batch.TipInv n.store headers work) ?_ ?_ haccept
      · exact fun _ _ hb hstep => hb.acceptHeader hfree hstep
      · obtain ⟨⟨hash, tip, htip, hindex, rfl⟩, hle⟩ := h
        have hfind : n.store.findBlockIndex hash = some tip := by
          simp [Store.findBlockIndex, hindex, Except.toOption]
        have hbest : (HeaderBatch.new n.store headers).bestWork = tip.chainWork := by
          simp [HeaderBatch.new, htip, hfind]
        refine ⟨HeaderBatch.views_new _ _, ⟨hash, tip, htip, hindex, hbest.symm⟩, ?_, ?_⟩
        · rw [hbest]
          exact hle
        · rw [hbest]
          exact Digest.le_refl _
    obtain ⟨hviews, ⟨hash, tip, htip, hindex, hwork⟩, hle, hgrows⟩ := hbatch
    refine ⟨batch.bestWork, ⟨⟨hash, tip, ?_, ?_, hwork⟩, ?_⟩, hgrows⟩
    · exact hviews.getHeadersTip_commit.trans htip
    · exact (hviews.getBlockIndex_commit hash).trans hindex
    · intro hash index hindex
      exact hle hash index ((hviews.getBlockIndex_commit hash).symm.trans hindex)

lemma Store.MostWork.processHeader (h : n.store.MostWork work) (header : BlockHeader) :
    ∃ work', (n.processHeader cfg header).2.store.MostWork work' ∧ work.le work' = true := by
  rcases n.processHeader_cases cfg header with hsame |
    ⟨hnone, ⟨-, hstore⟩ | ⟨prev, -, -, hstore⟩⟩
  · rw [hsame]
    exact ⟨work, h, Digest.le_refl _⟩
  · rw [hstore]
    exact h.addHeader hnone
  · rw [hstore]
    exact h.addHeader hnone

/-- A body changes the position in a record, and no work. -/
lemma Store.MostWork.processBlock [ScriptVerifier] (h : n.store.MostWork work) (block : Block) :
    (n.processBlock cfg block).2.store.MostWork work := by
  rcases n.processBlock_cases cfg block with hsame | ⟨index, pos, hindex, hstore, htip, -⟩
  · rw [hsame]
    exact h
  · refine h.of_chainWork_eq htip ?_ ?_
    · intro hash old hold
      rw [hstore]
      split_ifs with hhash
      · subst hhash
        obtain rfl := Option.some.inj (Except.ok.inj (hindex.symm.trans hold))
        exact ⟨_, rfl, rfl⟩
      · exact ⟨old, hold, rfl⟩
    · intro hash index' hindex'
      rw [hstore] at hindex'
      split_ifs at hindex' with hhash
      · subst hhash
        obtain rfl := Option.some.inj (Except.ok.inj hindex')
        exact ⟨index, hindex, rfl⟩
      · exact ⟨index', hindex', rfl⟩

/-! ### Restarts -/

omit [Sha2] in
/-- The scan of `verify_and_repair_tips` finds nothing above the most work. -/
lemma scanHeaders_eq_none (hle : ∀ hash index, s.getBlockIndex hash = .ok (some index) →
      index.chainWork.le work = true) (limit : UInt32) (fuel : Nat) (scoutHeight : UInt32) :
    scanHeaders s limit fuel scoutHeight none work = none := by
  induction fuel generalizing scoutHeight with
  | zero => rfl
  | succ fuel ih =>
    unfold scanHeaders
    split
    · rfl
    · rename_i hash _
      cases hfind : s.findBlockIndex hash with
      | none =>
        dsimp only
        split_ifs
        · rfl
        · exact ih _
      | some index =>
        have hgt := Digest.gt_eq_false_of_le
          (hle hash index (Store.getBlockIndex_of_findBlockIndex hfind))
        simp only [hgt, Bool.false_eq_true, if_false]
        split_ifs
        · rfl
        · exact ih _

/-- The best block of the store is the genesis block, at height 0. -/
structure Store.AtGenesis (s : Store) (params : ChainParams) : Prop where
  best : s.getBestBlock = some params.genesisHash
  index : ∃ index, s.getBlockIndex params.genesisHash = .ok (some index) ∧ index.height = 0

lemma Store.AtGenesis.tipIndex_eq {params : ChainParams} (h : s.AtGenesis params) :
    ∃ index, tipIndex s s.getBestBlock = .ok (some index) ∧ index.height = 0 := by
  obtain ⟨hbest, index, hindex, hheight⟩ := h
  exact ⟨index, by rw [hbest]; exact hindex, hheight⟩

omit [Sha2] in
lemma Store.MostWork.tipIndex_eq (h : s.MostWork work) :
    ∃ tip, tipIndex s s.getHeadersTip = .ok (some tip) := by
  obtain ⟨⟨hash, tip, hhash, hindex, -⟩, -⟩ := h
  exact ⟨tip, by rw [hhash]; exact hindex⟩

/-- A restart has nothing to repair as long as the headers tip is not too far from the best block;
else it takes the best block for the headers tip. -/
lemma Store.MostWork.repairTips_eq {params : ChainParams} (h : s.MostWork work)
    (hgenesis : s.AtGenesis params) {tip : BlockIndex}
    (htip : tipIndex s s.getHeadersTip = .ok (some tip)) :
    repairTips s = .ok (if 2000000 < tip.height.toNat then [params.genesisHash] else []) := by
  obtain ⟨⟨hash, tip', hhash, hindex, rfl⟩, hle⟩ := h
  obtain rfl : tip' = tip := by
    rw [hhash] at htip
    exact Option.some.inj (Except.ok.inj (hindex.symm.trans htip))
  obtain ⟨hbest, index, hgenesisIndex, hheight⟩ := hgenesis
  have hbestIndex : tipIndex s s.getBestBlock = .ok (some index) := by
    rw [hbest]
    exact hgenesisIndex
  have hfar : tip'.height > index.height + 2000000 ↔ 2000000 < tip'.height.toNat := by
    rw [hheight, gt_iff_lt, UInt32.lt_iff_toNat_lt]
    exact Iff.rfl
  have hbehind : ¬ tip'.height < index.height := by
    rw [hheight, UInt32.lt_iff_toNat_lt]
    exact Nat.not_lt_zero _
  simp only [repairTips, htip, hbestIndex, ok_bind, Option.map_some, Option.getD_some,
    scanHeaders_eq_none hle, hfar, hbehind, if_false]
  rw [hbest]
  split_ifs <;> rfl

/-! ### Every run -/

/-- A call without two different headers of the same hash in a message; a restart with the headers
tip at most 2,000,000 blocks above the best block. -/
def TipCall (n : Node) : Call → Prop
  | .processHeaders headers => HeaderBatch.CollisionFree headers
  | .restart => ∀ tip best, tipIndex n.store n.store.getHeadersTip = .ok (some tip) →
      tipIndex n.store n.store.getBestBlock = .ok (some best) →
      tip.height.toNat ≤ best.height.toNat + 2000000
  | .loadGenesis | .processHeader _ | .processBlock _ => True

/-- Such a restart leaves the store alone. -/
lemma Store.MostWork.store_restart (h : n.store.MostWork work)
    (hgenesis : n.store.AtGenesis cfg.params) (hcall : TipCall n .restart) :
    (Node.restart cfg n.store).store = n.store := by
  obtain ⟨tip, htip⟩ := h.tipIndex_eq
  obtain ⟨index, hindex, hheight⟩ := hgenesis.tipIndex_eq
  have hnear := hcall tip index htip hindex
  rw [hheight] at hnear
  have hnot : ¬ 2000000 < tip.height.toNat := Nat.not_lt.mpr hnear
  simp [Node.restart, h.repairTips_eq hgenesis htip, if_neg hnot, Except.toOption]

lemma Store.AtGenesis.of_keeps {params : ChainParams} (h : s.AtGenesis params)
    (hbest : s'.getBestBlock = s.getBestBlock)
    (hkeeps : ∀ hash index, s.getBlockIndex hash = .ok (some index) →
      ∃ index', s'.getBlockIndex hash = .ok (some index') ∧ index'.height = index.height) :
    s'.AtGenesis params := by
  obtain ⟨hold, index, hindex, hheight⟩ := h
  obtain ⟨index', hindex', hheight'⟩ := hkeeps _ index hindex
  exact ⟨hbest.trans hold, index', hindex', hheight'.trans hheight⟩

/-- A new record leaves the best block and the genesis block alone. -/
lemma Store.AtGenesis.addHeader {params : ChainParams} (h : s.AtGenesis params)
    {index : BlockIndex} (hnone : s.getBlockIndex index.header.blockHash = .ok none) :
    (s.addHeader index).AtGenesis params := by
  refine h.of_keeps (s.getBestBlock_addHeader index) ?_
  intro hash old hold
  refine ⟨old, ?_, rfl⟩
  rw [s.getBlockIndex_addHeader, if_neg, hold]
  rintro rfl
  simp [hold] at hnone

lemma Store.AtGenesis.processHeaders (h : n.store.AtGenesis cfg.params)
    {headers : List BlockHeader} (hfree : HeaderBatch.CollisionFree headers) :
    (n.processHeaders cfg headers).2.store.AtGenesis cfg.params := by
  unfold Node.processHeaders
  split
  · exact h
  · rename_i batch haccept
    have hviews : batch.Views n.store headers :=
      HeaderBatch.acceptHeaders_invariant (fun batch => batch.Views n.store headers)
        (fun _ _ hb hstep => (hb.acceptHeader hfree hstep).1) (HeaderBatch.views_new _ _) haccept
    refine h.of_keeps HeaderBatch.getBestBlock_commit ?_
    intro hash index hindex
    refine ⟨index, ?_, rfl⟩
    rw [hviews.getBlockIndex_commit, hviews.known hash (by simp [hindex]), hindex]

lemma Store.AtGenesis.processBlock [ScriptVerifier] (h : n.store.AtGenesis cfg.params)
    (block : Block) : (n.processBlock cfg block).2.store.AtGenesis cfg.params := by
  rcases n.processBlock_cases cfg block with hsame | ⟨index, pos, hindex, hstore, -, hbest⟩
  · rw [hsame]
    exact h
  · refine h.of_keeps hbest ?_
    intro hash old hold
    rw [hstore]
    split_ifs with hhash
    · subst hhash
      obtain rfl := Option.some.inj (Except.ok.inj (hindex.symm.trans hold))
      exact ⟨_, rfl, rfl⟩
    · exact ⟨old, hold, rfl⟩

/-- Every call keeps the best block, and leaves a headers tip with the most work and with no less
work than before. -/
lemma Store.MostWork.call [ScriptVerifier] (h : n.store.MostWork work)
    (hgenesis : n.store.AtGenesis cfg.params) {call : Call} {n' : Node}
    (hstep : n.call cfg call = some n') (hcall : TipCall n call) :
    n'.store.AtGenesis cfg.params ∧ ∃ work', n'.store.MostWork work' ∧ work.le work' = true := by
  cases call with
  | loadGenesis =>
    obtain rfl := Option.some.inj hstep
    -- the genesis block is indexed already
    rcases n.loadGenesisBlock_cases cfg with hsame | ⟨hnone, -⟩
    · rw [hsame]
      exact ⟨hgenesis, work, h, Digest.le_refl _⟩
    · obtain ⟨-, index, hindex, -⟩ := hgenesis
      simp [hindex] at hnone
  | processHeader header =>
    obtain rfl := Option.some.inj hstep
    refine ⟨?_, h.processHeader header⟩
    rcases n.processHeader_cases cfg header with hsame |
      ⟨hnone, ⟨-, hstore⟩ | ⟨prev, -, -, hstore⟩⟩
    · rw [hsame]
      exact hgenesis
    · rw [hstore]
      exact hgenesis.addHeader hnone
    · rw [hstore]
      exact hgenesis.addHeader hnone
  | processHeaders headers =>
    obtain rfl := Option.some.inj hstep
    exact ⟨hgenesis.processHeaders hcall, h.processHeaders hcall⟩
  | processBlock block =>
    obtain rfl := Option.some.inj hstep
    exact ⟨hgenesis.processBlock block, work, h.processBlock block, Digest.le_refl _⟩
  | restart =>
    obtain rfl := Option.some.inj hstep
    rw [h.store_restart hgenesis hcall]
    exact ⟨hgenesis, work, h, Digest.le_refl _⟩

lemma atGenesis_addGenesis (params : ChainParams) :
    (Store.empty.addGenesis params).AtGenesis params where
  best := by simp [Store.addGenesis]
  index := ⟨params.genesisIndex, by simp [Store.getBlockIndex_addGenesis], rfl⟩

lemma mostWork_addGenesis (params : ChainParams) :
    (Store.empty.addGenesis params).MostWork params.genesisIndex.chainWork where
  tip := ⟨params.genesisHash, params.genesisIndex, by simp [Store.addGenesis],
    by simp [Store.getBlockIndex_addGenesis], rfl⟩
  le := by
    intro hash index hindex
    rw [Store.getBlockIndex_addGenesis] at hindex
    split_ifs at hindex
    · obtain rfl := Option.some.inj (Except.ok.inj hindex)
      exact Digest.le_refl _
    · simp at hindex

/-- Every run keeps the genesis block as the best block, and a headers tip with the most work. -/
lemma mostWork_of_reachable [ScriptVerifier]
    (h : Reachable (Node.call cfg) (fun n call _ => TipCall n call) (Node.init cfg) n) :
    n.store.AtGenesis cfg.params ∧ ∃ work, n.store.MostWork work := by
  refine h.invariant (fun n => n.store.AtGenesis cfg.params ∧ ∃ work, n.store.MostWork work)
    ⟨atGenesis_addGenesis cfg.params, _, mostWork_addGenesis cfg.params⟩ ?_
  rintro n call n' ⟨hgenesis, work, hwork⟩ hstep hcall
  obtain ⟨hgenesis', work', hwork', -⟩ := hwork.call hgenesis hstep hcall
  exact ⟨hgenesis', work', hwork'⟩

/-- After `load_genesis`, and in every run of calls whose restarts find the headers tip at most
2,000,000 blocks above the best block, the headers tip has at least the work of every indexed
header, and no call makes its work smaller. -/
theorem headersTip_mostWork [ScriptVerifier]
    (h : Reachable (Node.call cfg) (fun n call _ => TipCall n call) (Node.init cfg) n) :
    ∃ hash tip, n.store.getHeadersTip = some hash ∧
      n.store.getBlockIndex hash = .ok (some tip) ∧
      (∀ hash' index, n.store.getBlockIndex hash' = .ok (some index) →
        index.chainWork.le tip.chainWork = true) ∧
      ∀ call n', n.call cfg call = some n' → TipCall n call →
        ∃ hash' tip', n'.store.getHeadersTip = some hash' ∧
          n'.store.getBlockIndex hash' = .ok (some tip') ∧
          tip.chainWork.le tip'.chainWork = true := by
  obtain ⟨hgenesis, work, hwork⟩ := mostWork_of_reachable h
  obtain ⟨hash, tip, htip, hindex, rfl⟩ := hwork.tip
  refine ⟨hash, tip, htip, hindex, hwork.le, ?_⟩
  intro call n' hstep hcall
  obtain ⟨-, work', ⟨⟨hash', tip', htip', hindex', rfl⟩, -⟩, hle⟩ :=
    hwork.call hgenesis hstep hcall
  exact ⟨hash', tip', htip', hindex', hle⟩

/-- A restart that finds the headers tip further away makes the genesis block the headers tip. -/
lemma getHeadersTip_restart [ScriptVerifier]
    (h : Reachable (Node.call cfg) (fun n call _ => TipCall n call) (Node.init cfg) n)
    {tip : BlockIndex} (htip : tipIndex n.store n.store.getHeadersTip = .ok (some tip))
    (hfar : 2000000 < tip.height.toNat) :
    (Node.restart cfg n.store).store.getHeadersTip = some cfg.params.genesisHash := by
  obtain ⟨hgenesis, work, hwork⟩ := mostWork_of_reachable h
  simp [Node.restart, hwork.repairTips_eq hgenesis htip, if_pos hfar, Except.toOption]

end

/-! ### A tip that is reset -/

namespace Sample

/-- The headers tip and its height. -/
def headersTipAt (n : Node) : Option BlockHash × Option BlockHeight :=
  (n.store.getHeadersTip,
    ((tipIndex n.store n.store.getHeadersTip).toOption.bind id).map (·.height))

set_option maxRecDepth 100000 in
lemma headersTipAt_fork :
    headersTipAt (((Node.init cfg).processHeaders cfg [nextBlock.header]).2.processHeaders cfg
        [forkHeader, forkBlock.header]).2 = (some forkBlock.header.blockHash, some 2) ∧
      forkHeader.blockHash ≠ forkBlock.header.blockHash := by
  have hrun : ∀ n, Node.init cfg = n →
      (headersTipAt ((n.processHeaders cfg [nextBlock.header]).2.processHeaders cfg
          [forkHeader, forkBlock.header]).2 == (some forkBlock.header.blockHash, some 2)) = true ∧
        (forkHeader.blockHash == forkBlock.header.blockHash) = false := by
    intro n hn
    unfold cfg at hn ⊢
    rw [sha2_eq_forkDigests] at hn ⊢
    unfold Node.init Node.loadGenesisBlock ChainParams.genesisIndex at hn
    unfold Node.processHeaders
    simp only [List.length_cons, List.length_nil, HeaderBatch.acceptHeaders]
    unfold HeaderBatch.acceptHeader HeaderBatch.push
    rw [calculateBlockWork_eq_division] at hn ⊢
    subst hn
    decide +kernel
  obtain ⟨htip, hne⟩ := hrun _ rfl
  exact ⟨eq_of_beq htip, ne_of_beq_false hne⟩

/-- A node that has learned of a header and of two headers of another fork. -/
lemma exists_reachable_fork :
    ∃ n, Reachable (Node.call cfg) (fun n call _ => TipCall n call) (Node.init cfg) n ∧
      headersTipAt n = (some forkBlock.header.blockHash, some 2) := by
  obtain ⟨hat, hne⟩ := headersTipAt_fork
  have hfirst : TipCall (Node.init cfg) (.processHeaders [nextBlock.header]) := by
    intro a ha b hb _
    rw [List.mem_singleton.mp ha, List.mem_singleton.mp hb]
  have hfork : TipCall ((Node.init cfg).processHeaders cfg [nextBlock.header]).2
      (.processHeaders [forkHeader, forkBlock.header]) := by
    simp only [TipCall, HeaderBatch.CollisionFree, List.forall_mem_cons, List.not_mem_nil,
      false_imp_iff, implies_true, and_true, true_and]
    exact ⟨fun h => absurd h hne, fun h => absurd h.symm hne⟩
  exact ⟨_, .step (.step .init (Node.call_processHeaders ..) hfirst)
    (Node.call_processHeaders ..) hfork, hat⟩

/-- The fork with more work gives the headers tip, and keeps it at a restart. -/
theorem headersTip_mostWork_fork :
    ∃ (n : Node) (tip : BlockIndex),
      Reachable (Node.call cfg) (fun n call _ => TipCall n call) (Node.init cfg) n ∧
      n.store.getHeadersTip = some forkBlock.header.blockHash ∧
      n.store.getBlockIndex forkBlock.header.blockHash = .ok (some tip) ∧ tip.height = 2 ∧
      (∀ hash index, n.store.getBlockIndex hash = .ok (some index) →
        index.chainWork.le tip.chainWork = true) ∧
      ∃ hash' tip', (Node.restart cfg n.store).store.getHeadersTip = some hash' ∧
        (Node.restart cfg n.store).store.getBlockIndex hash' = .ok (some tip') ∧
        tip.chainWork.le tip'.chainWork = true := by
  obtain ⟨n, hreach, hat⟩ := exists_reachable_fork
  obtain ⟨htip, hheight⟩ := Prod.mk.inj hat
  have hnear : TipCall n .restart := by
    intro tip best hindex _
    simp only [hindex, Except.toOption, Option.bind_some, id, Option.map_some,
      Option.some.injEq] at hheight
    rw [hheight]
    exact Nat.le_add_left_of_le (by decide)
  obtain ⟨hash, tip, hhash, hindex, hle, hcalls⟩ := headersTip_mostWork hreach
  obtain rfl := Option.some.inj (htip.symm.trans hhash)
  rw [htip, tipIndex, hindex] at hheight
  exact ⟨n, tip, hreach, htip, hindex, Option.some.inj hheight, hle,
    hcalls .restart _ (Node.call_restart ..) hnear⟩

/-- The headers tip loses work from one node to another, on which the header without a parent has
more work than it. -/
def tipLosesWork (n n' : Node) : Bool :=
  match n.store.headersTipWork, n'.store.headersTipWork,
    n'.store.findBlockIndex rootlessHeader.blockHash with
  | .ok work, .ok work', some index => work.gt work' && index.chainWork.gt work'
  | _, _, _ => false

lemma exists_of_tipLosesWork {n n' : Node} (h : tipLosesWork n n' = true) :
    ∃ work work' index, n.store.headersTipWork = .ok work ∧ n'.store.headersTipWork = .ok work' ∧
      n'.store.getBlockIndex rootlessHeader.blockHash = .ok (some index) ∧
      work.gt work' = true ∧ index.chainWork.gt work' = true := by
  unfold tipLosesWork at h
  split at h
  · rename_i work work' index hwork hwork' hfind
    rw [Bool.and_eq_true] at h
    exact ⟨work, work', index, hwork, hwork', Store.getBlockIndex_of_findBlockIndex hfind, h⟩
  · cases h

set_option maxRecDepth 100000 in
lemma tipLosesWork_loadGenesis :
    tipLosesWork ((Node.restart cfg Store.empty).processHeader cfg rootlessHeader).2
      (((Node.restart cfg Store.empty).processHeader cfg rootlessHeader).2.loadGenesisBlock
        cfg) = true := by
  have hrun : ∀ n, Node.restart cfg Store.empty = n →
      tipLosesWork (n.processHeader cfg rootlessHeader).2
        ((n.processHeader cfg rootlessHeader).2.loadGenesisBlock cfg) = true := by
    intro n hn
    unfold cfg at hn ⊢
    unfold tipLosesWork Node.loadGenesisBlock Node.processHeader Node.commitHeader
      Store.processHeader ChainParams.genesisIndex
    rw [sha2_eq_rootlessDigests, calculateBlockWork_eq_division]
    subst hn
    decide +kernel
  exact hrun _ rfl

lemma reachable_rootlessHeader_first :
    Reachable (Node.call cfg) (fun _ _ _ => True) (Node.restart cfg Store.empty)
      ((Node.restart cfg Store.empty).processHeader cfg rootlessHeader).2 :=
  .step .init (Node.call_processHeader cfg _ rootlessHeader) trivial

/-- `load_genesis` takes the headers tip away from a header with more work, and so does a restart
with the headers tip more than 2,000,000 blocks away from the best block. -/
theorem not_headersTip_mostWork :
    (∃ n n' work work' index,
      Reachable (Node.call cfg) (fun _ _ _ => True) (Node.restart cfg Store.empty) n ∧
      n.call cfg .loadGenesis = some n' ∧ n.store.headersTipWork = .ok work ∧
      n'.store.headersTipWork = .ok work' ∧
      n'.store.getBlockIndex rootlessHeader.blockHash = .ok (some index) ∧
      work.gt work' = true ∧ index.chainWork.gt work' = true) ∧
    ∀ n tip, Reachable (Node.call cfg) (fun n call _ => TipCall n call) (Node.init cfg) n →
      tipIndex n.store n.store.getHeadersTip = .ok (some tip) → 2000000 < tip.height.toNat →
      (Node.restart cfg n.store).store.getHeadersTip = some cfg.params.genesisHash := by
  obtain ⟨work, work', index, hwork, hwork', hindex, hless, hmore⟩ :=
    exists_of_tipLosesWork tipLosesWork_loadGenesis
  refine ⟨⟨_, _, work, work', index, reachable_rootlessHeader_first, Node.call_loadGenesis ..,
    hwork, hwork', hindex, hless, hmore⟩, fun n tip hreach htip hfar => ?_⟩
  exact getHeadersTip_restart hreach htip hfar

end Sample

end Bitcrab
