import Bitcrab.Node.HeadersTip

/-!
# What `process_headers` answers

The answer pairs the headers of the message, up to the first orphan, with their heights. Every
header that is answered is indexed afterwards at its height, and the headers tip is the new header
with the most work, the first one of these, if it has more than the old tip.
-/

namespace Bitcrab

open BlockManager Result

section

variable [Sha2]

/-! ### The most work -/

/-- The most work of some new records and of `work`, with the first record that has it, if it is not
`work`. -/
def bestOf (work : Hash256) (records : List (BlockHash × BlockIndex)) :
    Hash256 × Option BlockHash :=
  records.foldl (fun best r =>
    if r.2.chainWork.gt best.1 then (r.2.chainWork, some r.1) else best) (work, none)

omit [Sha2] in
lemma bestOf_concat (work : Hash256) (records : List (BlockHash × BlockIndex))
    (r : BlockHash × BlockIndex) :
    bestOf work (records ++ [r]) =
      if r.2.chainWork.gt (bestOf work records).1 then (r.2.chainWork, some r.1)
      else bestOf work records := by
  rw [bestOf, List.foldl_append]
  rfl

/-- The work that a message has to exceed: that of the headers tip. -/
def Store.tipWork (s : Store) : Hash256 :=
  ((s.getHeadersTip.bind s.findBlockIndex).map (·.chainWork)).getD Digest.zero

omit [Sha2] in
lemma Store.findBlockIndex_of_getBlockIndex {s : Store} {hash : BlockHash} {index : BlockIndex}
    (h : s.getBlockIndex hash = .ok (some index)) : s.findBlockIndex hash = some index := by
  simp [Store.findBlockIndex, h, Except.toOption]

omit [Sha2] in
lemma Store.MostWork.tipWork_eq {s : Store} {work : Hash256} (h : s.MostWork work) :
    s.tipWork = work := by
  obtain ⟨⟨hash, tip, htip, hindex, rfl⟩, -⟩ := h
  simp [Store.tipWork, htip, Store.findBlockIndex_of_getBlockIndex hindex]

namespace Node

variable (cfg : Config) (n : Node)

/-- The headers that `process_headers` answers, with their heights. -/
def answeredHeaders (headers : List BlockHeader) : List (BlockHeader × UInt32) :=
  match (n.processHeaders cfg headers).1 with
  | .ok heights => headers.zip heights
  | .error _ => []

/-- The records that `process_headers` adds. -/
def newRecords (headers : List BlockHeader) : List (BlockHash × BlockIndex) :=
  match (HeaderBatch.new n.store headers).acceptHeaders cfg.params n.store headers.length with
  | .ok batch => batch.pending
  | .error _ => []

/-- The new header with the most work, if it has more than the headers tip. -/
def bestNew (headers : List BlockHeader) : Option BlockHash :=
  (bestOf n.store.tipWork (n.newRecords cfg headers)).2

end Node

/-! ### A batch in progress -/

/-- A header is indexed at a height. -/
def Store.Indexed (s : Store) (x : BlockHeader × UInt32) : Prop :=
  ∃ index, s.getBlockIndex x.1.blockHash = .ok (some index) ∧ index.header = x.1 ∧
    index.height = x.2

namespace HeaderBatch

variable {params : ChainParams} {s : Store} {headers : List BlockHeader}
  {batch batch' : HeaderBatch}

/-- The headers answered so far are indexed in the view, and the best tip is that of the pending
records. -/
structure Answers (batch : HeaderBatch) (s : Store) (headers : List BlockHeader) : Prop where
  views : batch.Views s headers
  best : (batch.bestWork, batch.bestTip) = bestOf s.tipWork batch.pending
  remaining : batch.remaining ≠ [] → batch.remaining = headers.drop batch.heights.length
  pending : batch.pending.length ≤ batch.heights.length
  indexed : ∀ x ∈ headers.zip batch.heights, (batch.view s).Indexed x

lemma answers_new (s : Store) (headers : List BlockHeader) : (new s headers).Answers s headers where
  views := views_new s headers
  best := rfl
  remaining := fun _ => rfl
  pending := Nat.le_refl _
  indexed := by simp [new]

omit [Sha2] in
/-- One more answer. -/
lemma zip_heights_concat {heights : List UInt32} {header : BlockHeader} {rest : List BlockHeader}
    (h : header :: rest = headers.drop heights.length) (height : UInt32) :
    headers.zip (heights ++ [height]) = headers.zip heights ++ [(header, height)] ∧
      rest = headers.drop (heights ++ [height]).length := by
  induction heights generalizing headers with
  | nil =>
    rw [List.length_nil, List.drop_zero] at h
    subst h
    exact ⟨by simp, rfl⟩
  | cons first heights ih =>
    cases headers with
    | nil => simp at h
    | cons x headers =>
      obtain ⟨hzip, hrest⟩ := ih h
      refine ⟨?_, hrest⟩
      rw [List.cons_append, List.zip_cons_cons, hzip, List.zip_cons_cons, List.cons_append]

/-- A known header that is answered, and a new one. -/
lemma Answers.acceptHeader (hinv : batch.Answers s headers) (hfree : CollisionFree headers)
    (hknown : ∀ header ∈ headers, ∀ index,
      s.getBlockIndex header.blockHash = .ok (some index) → index.header = header)
    (h : batch.acceptHeader params s = .ok batch') : batch'.Answers s headers := by
  have hviews' := (hinv.views.acceptHeader hfree h).1
  cases hremaining : batch.remaining with
  | nil =>
    simp only [HeaderBatch.acceptHeader, hremaining, Except.ok.injEq] at h
    exact h ▸ hinv
  | cons header rest =>
    have hdrop : header :: rest = headers.drop batch.heights.length :=
      hremaining ▸ hinv.remaining (by simp [hremaining])
    have hmem : header ∈ headers := List.mem_of_mem_drop (hdrop ▸ List.mem_cons_self)
    rcases acceptHeader_cases hremaining h with
      ⟨index, hindex, rfl⟩ | ⟨hnone, ⟨-, rfl⟩ | ⟨prev, hlookup, -, rfl⟩⟩
    · obtain ⟨hzip, hrest⟩ := zip_heights_concat hdrop index.height
      refine ⟨hviews', hinv.best, fun _ => hrest, ?_, ?_⟩
      · rw [List.length_append]
        exact Nat.le_trans hinv.pending (Nat.le_add_right _ _)
      intro x hx
      rw [hzip] at hx
      rcases List.mem_append.mp hx with hx | hx
      · exact hinv.indexed x hx
      · obtain rfl := List.mem_singleton.mp hx
        refine ⟨index, ?_, hknown header hmem index hindex, rfl⟩
        exact (hinv.views.known _ (by simp [hindex])).trans hindex
    · exact ⟨hviews', hinv.best, by simp, hinv.pending, hinv.indexed⟩
    · have hprev := hinv.views.getBlockIndex_of_lookup hlookup
      have hnew := hinv.views.getBlockIndex_of_new hfree hmem hnone hprev
      obtain ⟨hzip, hrest⟩ := zip_heights_concat hdrop (prev.extend header).height
      refine ⟨hviews', ?_, fun _ => hrest, ?_, ?_⟩
      · change _ = bestOf s.tipWork (batch.pending ++ [(header.blockHash, prev.extend header)])
        rw [bestOf_concat, ← hinv.best]
        by_cases hmore : (prev.extend header).chainWork.gt batch.bestWork = true
        · rw [if_pos hmore]
          exact Prod.ext (if_pos hmore) (if_pos hmore)
        · rw [if_neg hmore]
          exact Prod.ext (if_neg hmore) (if_neg hmore)
      · simpa [HeaderBatch.push] using hinv.pending
      · intro x hx
        change x ∈ headers.zip (batch.heights ++ [(prev.extend header).height]) at hx
        rw [hzip] at hx
        rcases List.mem_append.mp hx with hx | hx
        · obtain ⟨index, hindex, hheader, hheight⟩ := hinv.indexed x hx
          exact ⟨index, getBlockIndex_view_push hnew hindex, hheader, hheight⟩
        · obtain rfl := List.mem_singleton.mp hx
          refine ⟨prev.extend header, ?_, rfl, rfl⟩
          rw [view_push, getBlockIndex_handleStoreBlockIndex_self]

end HeaderBatch

/-! ### The whole call -/

/-- `process_headers` keeps what is indexed, indexes what it answers, and makes the new header with
the most work the headers tip; if it answers nothing there is none. -/
lemma Node.processHeaders_spec {cfg : Config} {n : Node} {headers : List BlockHeader}
    (hfree : HeaderBatch.CollisionFree headers)
    (hknown : ∀ header ∈ headers, ∀ index,
      n.store.getBlockIndex header.blockHash = .ok (some index) → index.header = header) :
    (n.processHeaders cfg headers).2.store.getHeadersTip =
        (n.bestNew cfg headers).or n.store.getHeadersTip ∧
      (∀ hash index, n.store.getBlockIndex hash = .ok (some index) →
        (n.processHeaders cfg headers).2.store.getBlockIndex hash = .ok (some index)) ∧
      (∀ x ∈ n.answeredHeaders cfg headers, (n.processHeaders cfg headers).2.store.Indexed x) ∧
      (n.answeredHeaders cfg headers = [] → n.bestNew cfg headers = none) := by
  simp only [Node.bestNew, Node.newRecords, Node.answeredHeaders, Node.processHeaders]
  cases haccept : (HeaderBatch.new n.store headers).acceptHeaders cfg.params n.store
      headers.length with
  | error e => exact ⟨rfl, fun _ _ h => h, by simp, fun _ => rfl⟩
  | ok batch =>
    have hbatch : batch.Answers n.store headers :=
      HeaderBatch.acceptHeaders_invariant (fun batch => batch.Answers n.store headers)
        (fun _ _ hb hstep => hb.acceptHeader hfree hknown hstep)
        (HeaderBatch.answers_new n.store headers) haccept
    refine ⟨?_, ?_, ?_, ?_⟩
    · dsimp only
      rw [hbatch.views.getHeadersTip_commit, ← hbatch.best]
    · intro hash index hindex
      dsimp only
      rw [hbatch.views.getBlockIndex_commit, hbatch.views.known hash (by simp [hindex]), hindex]
    · intro x hx
      obtain ⟨index, hindex, hsame⟩ := hbatch.indexed x hx
      exact ⟨index, (hbatch.views.getBlockIndex_commit _).trans hindex, hsame⟩
    · intro hnil
      have hpending : batch.pending = [] := by
        rcases List.zip_eq_nil_iff.mp hnil with rfl | hheights
        · obtain rfl := Except.ok.inj haccept
          rfl
        · exact List.length_eq_zero_iff.mp (by simpa [hheights] using hbatch.pending)
      dsimp only
      rw [hpending]
      rfl

end

end Bitcrab
