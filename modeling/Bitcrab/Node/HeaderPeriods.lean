import Bitcrab.Node.HeadersTip
import Bitcrab.Node.Retarget

/-!
# Difficulty periods in a message of headers

At the end of a period, `process_headers` looks for the first block of it among the headers of the
message, known or new, and then in the tables of the store. `process_header` looks in the tables
only, where the new headers before it have been filed. Which blocks the two find follows from the
store and the headers before.
-/

namespace Bitcrab

open BlockManager

variable [Sha2]

namespace Store

/-- The record of a hash: that of a header of the message, or else that of the store. -/
def recordOf (s : Store) (records : List (BlockHash × BlockIndex)) (hash : BlockHash) :
    Option BlockIndex :=
  ((records.find? fun r => r.1 = hash).map (·.2)).or (s.findBlockIndex hash)

/-- The records of the headers of a message, the last one first: a header that the store knows has
its record there, and a new one extends the record of its parent. -/
def addRecord (s : Store) (records : List (BlockHash × BlockIndex)) (header : BlockHeader) :
    List (BlockHash × BlockIndex) :=
  match s.findBlockIndex header.blockHash with
  | some index => (header.blockHash, index) :: records
  | none =>
    match s.recordOf records header.prevHash with
    | none => records
    | some prev => (header.blockHash, prev.extend header) :: records

/-- The last record at a height. -/
def lastAt (records : List (BlockHash × BlockIndex)) (height : UInt32) :
    Option (BlockHash × BlockIndex) :=
  records.find? fun r => r.2.height = height

/-- The last record at a height of a header that is new to the store. -/
def lastNewAt (s : Store) (records : List (BlockHash × BlockIndex)) (height : UInt32) :
    Option (BlockHash × BlockIndex) :=
  records.find? fun r => r.2.height = height ∧ s.findBlockIndex r.1 = none

/-- The timestamp that the tables have for a height after the new headers are filed: of the block
that is connected there, or else of the last new header, or else of the header that was there. -/
def filedTime (params : ChainParams) (s : Store) (records : List (BlockHash × BlockIndex))
    (height : UInt32) : Option UInt32 :=
  if height = 0 then some params.genesisHeader.time
  else
    (((s.getBlockHash height).bind s.findBlockIndex).or
      (((s.lastNewAt records height).map (·.2)).or
        ((s.getBlockHashByHeaderHeight height).bind s.findBlockIndex))).map (·.header.time)

/-- The last header of a message at the first height of a period has the timestamp that the tables
have for it then. The tables name no block there that the store does not have. -/
structure SamePeriod (params : ChainParams) (s : Store)
    (records : List (BlockHash × BlockIndex)) (first : UInt32) : Prop where
  connected : ∀ hash ∈ s.getBlockHash first, (s.getBlockIndex hash).toOption ≠ some none
  filed : ∀ hash ∈ s.getBlockHashByHeaderHeight first,
    (s.getBlockIndex hash).toOption ≠ some none
  last : ∀ r ∈ lastAt records first,
    s.filedTime params records first = some r.2.header.time

instance decidableSamePeriod (params : ChainParams) (s : Store)
    (records : List (BlockHash × BlockIndex)) (first : UInt32) :
    Decidable (s.SamePeriod params records first) :=
  decidable_of_iff
    ((∀ hash ∈ s.getBlockHash first, (s.getBlockIndex hash).toOption ≠ some none) ∧
      (∀ hash ∈ s.getBlockHashByHeaderHeight first,
        (s.getBlockIndex hash).toOption ≠ some none) ∧
      ∀ r ∈ lastAt records first, s.filedTime params records first = some r.2.header.time)
    ⟨fun h => ⟨h.1, h.2.1, h.2.2⟩, fun h => ⟨h.connected, h.filed, h.last⟩⟩

/-- So it is for each header of a message that starts a period, and the headers before it. -/
def SamePeriods (params : ChainParams) (s : Store) :
    List (BlockHash × BlockIndex) → List BlockHeader → Prop
  | _, [] => True
  | records, header :: rest =>
    (∀ prev ∈ s.recordOf records header.prevHash,
      ∀ first ∈ retargetHeight prev params.consensus, s.SamePeriod params records first) ∧
    s.SamePeriods params (s.addRecord records header) rest

instance decidableSamePeriods (params : ChainParams) (s : Store) :
    (records : List (BlockHash × BlockIndex)) → (headers : List BlockHeader) →
      Decidable (s.SamePeriods params records headers)
  | _, [] => .isTrue True.intro
  | records, header :: rest =>
    -- the option has one height at most: the instance for finite types tries all
    have (prev : BlockIndex) : Decidable (∀ first ∈ retargetHeight prev params.consensus,
        s.SamePeriod params records first) :=
      Option.decidableForallMem (retargetHeight prev params.consensus)
    @instDecidableAnd _ _ (Option.decidableForallMem (s.recordOf records header.prevHash))
      (decidableSamePeriods params s (s.addRecord records header) rest)

end Store

lemma Store.getBlockHashByHeaderHeight_addHeader (s : Store) (index : BlockIndex)
    (height : UInt32) :
    (s.addHeader index).getBlockHashByHeaderHeight height =
      if height = index.height then some index.header.blockHash
      else s.getBlockHashByHeaderHeight height := by
  rw [← getBlockHashByHeaderHeight_handleStoreBlockIndex]
  unfold Store.addHeader
  dsimp only
  split
  · rfl
  · split_ifs
    · simp
    · rfl

lemma Store.getBlockHash_addHeader (s : Store) (index : BlockIndex) (height : UInt32) :
    (s.addHeader index).getBlockHash height = s.getBlockHash height := by
  unfold Store.addHeader
  dsimp only
  split
  · simp
  · split_ifs <;> simp

namespace HeaderBatch

/-- A batch over `s` has the records of the headers before in its maps, and the store `t` that
single calls have made of `s` has the new ones in its tables. -/
structure Records (batch : HeaderBatch) (s t : Store) (records : List (BlockHash × BlockIndex)) :
    Prop where
  byHash : ∀ hash, batch.byHash.lookup hash = (records.find? fun r => r.1 = hash).map (·.2)
  byHeight : ∀ height, batch.byHeight.lookup height = (Store.lastAt records height).map (·.2)
  stored : ∀ r ∈ records, t.getBlockIndex r.1 = .ok (some r.2)
  connected : ∀ height, t.getBlockHash height = s.getBlockHash height
  filed : ∀ height, t.getBlockHashByHeaderHeight height =
    ((s.lastNewAt records height).map (·.1)).or (s.getBlockHashByHeaderHeight height)

variable {params : ChainParams} {s t : Store} {batch : HeaderBatch} {header : BlockHeader}
  {prev index : BlockIndex} {rest : List BlockHeader} {records : List (BlockHash × BlockIndex)}
  {first : UInt32}

omit [Sha2] in
lemma records_new (s : Store) (headers : List BlockHeader) : (new s headers).Records s s [] where
  byHash := fun _ => rfl
  byHeight := fun _ => rfl
  stored := by simp
  connected := fun _ => rfl
  filed := fun _ => rfl

omit [Sha2] in
lemma Records.recordOf (h : batch.Records s t records) (hash : BlockHash) :
    s.recordOf records hash = (batch.byHash.lookup hash).or (s.findBlockIndex hash) := by
  rw [Store.recordOf, h.byHash]

omit [Sha2] in
/-- The tables after the single calls have the timestamp that is read off the store and the
headers. -/
lemma Records.timeAt (h : batch.Records s t records)
    (hknown : ∀ hash, s.getBlockIndex hash ≠ .ok none →
      t.getBlockIndex hash = s.getBlockIndex hash)
    (hperiod : s.SamePeriod params records first) :
    (headerProvider params t).timeAt first = s.filedTime params records first := by
  have hfind : ∀ hash, (s.getBlockIndex hash).toOption ≠ some none →
      t.findBlockIndex hash = s.findBlockIndex hash := by
    intro hash hne
    have hsame := hknown hash fun hnone => hne (by rw [hnone]; rfl)
    rw [Store.findBlockIndex, Store.findBlockIndex, hsame]
  have hconnected : (s.getBlockHash first).bind t.findBlockIndex =
      (s.getBlockHash first).bind s.findBlockIndex := by
    cases hhash : s.getBlockHash first with
    | none => rfl
    | some hash => exact hfind hash (hperiod.connected hash hhash)
  unfold BlockIndexProvider.timeAt headerProvider Store.filedTime
  split_ifs with hzero
  · rfl
  · rw [Store.getBlockIndexByHeight, h.connected, h.filed, hconnected]
    cases hnew : s.lastNewAt records first with
    | some r =>
      have hstored := h.stored r (List.mem_of_find?_eq_some hnew)
      simp [Store.findBlockIndex, hstored, Except.toOption]
    | none =>
      rw [Option.map_none, Option.map_none, Option.none_or, Option.none_or]
      cases hhash : s.getBlockHashByHeaderHeight first with
      | none => rfl
      | some hash => rw [Option.bind_some, Option.bind_some, hfind hash (hperiod.filed hash hhash)]

omit [Sha2] in
/-- A new record at a height is a record at that height. -/
lemma lastNewAt_eq_none (h : Store.lastAt records first = none) :
    s.lastNewAt records first = none := by
  rw [Store.lastAt, List.find?_eq_none] at h
  rw [Store.lastNewAt, List.find?_eq_none]
  intro r hr hnew
  exact h r hr (decide_eq_true (of_decide_eq_true hnew).1)

omit [Sha2] in
/-- The batch and the single calls find a block with the same timestamp at the first height of a
period. -/
lemma Records.sameTimeAt (h : batch.Records s t records)
    (hknown : ∀ hash, s.getBlockIndex hash ≠ .ok none →
      t.getBlockIndex hash = s.getBlockIndex hash)
    (hperiod : s.SamePeriod params records first) :
    (batch.provider params s).timeAt first = (headerProvider params t).timeAt first := by
  rw [h.timeAt hknown hperiod, BlockIndexProvider.timeAt, provider, h.byHeight]
  cases hlast : Store.lastAt records first with
  | some r =>
    rw [hperiod.last r hlast]
    rfl
  | none =>
    unfold Store.filedTime headerProvider
    rw [lastNewAt_eq_none hlast]
    split_ifs with hzero
    · rfl
    · rfl

/-- A header that the batch knows from the store. -/
lemma Records.skip (h : batch.Records s t records)
    (hknown : ∀ hash, s.getBlockIndex hash ≠ .ok none →
      t.getBlockIndex hash = s.getBlockIndex hash)
    (hindex : s.getBlockIndex header.blockHash = .ok (some index)) :
    Records { batch with
      remaining := rest
      heights := batch.heights ++ [index.height]
      byHeight := batch.byHeight.insert index.height index
      byHash := batch.byHash.insert header.blockHash index } s t (s.addRecord records header) := by
  have hfind : s.findBlockIndex header.blockHash = some index := by
    rw [Store.findBlockIndex, hindex]
    rfl
  have hrecords : s.addRecord records header = (header.blockHash, index) :: records := by
    simp only [Store.addRecord, hfind]
  rw [hrecords]
  refine ⟨?_, ?_, ?_, h.connected, ?_⟩
  · intro hash
    by_cases hhash : header.blockHash = hash
    · subst hhash
      simp
    · rw [AList.lookup_insert_ne (Ne.symm hhash), h.byHash, List.find?_cons_of_neg (by simpa)]
  · intro height
    by_cases hheight : index.height = height
    · subst hheight
      simp [Store.lastAt]
    · rw [AList.lookup_insert_ne (Ne.symm hheight), h.byHeight, Store.lastAt, Store.lastAt,
        List.find?_cons_of_neg (by simpa)]
  · rintro r (_ | ⟨_, hr⟩)
    · rw [hknown _ (by simp [hindex]), hindex]
    · exact h.stored r hr
  · intro height
    rw [h.filed, Store.lastNewAt, Store.lastNewAt, List.find?_cons_of_neg (by simp [hfind])]

/-- A new header. -/
lemma Records.push (h : batch.Records s t records)
    (hnone : s.getBlockIndex header.blockHash = .ok none)
    (hfresh : t.getBlockIndex header.blockHash = .ok none)
    (hprev : s.recordOf records header.prevHash = some prev) :
    (batch.push header prev rest).Records s (t.addHeader (prev.extend header))
      (s.addRecord records header) := by
  have hfind : s.findBlockIndex header.blockHash = none := by
    rw [Store.findBlockIndex, hnone]
    rfl
  have hrecords : s.addRecord records header =
      (header.blockHash, prev.extend header) :: records := by
    simp only [Store.addRecord, hfind, hprev]
  rw [hrecords]
  refine ⟨?_, ?_, ?_, ?_, ?_⟩
  · intro hash
    by_cases hhash : header.blockHash = hash
    · subst hhash
      simp [HeaderBatch.push, BlockIndex.extend]
    · rw [HeaderBatch.push, AList.lookup_insert_ne (Ne.symm hhash), h.byHash,
        List.find?_cons_of_neg (by simpa)]
  · intro height
    by_cases hheight : prev.height.next = height
    · subst hheight
      simp [HeaderBatch.push, Store.lastAt, BlockIndex.extend]
    · rw [HeaderBatch.push, AList.lookup_insert_ne (Ne.symm hheight), h.byHeight, Store.lastAt,
        Store.lastAt, List.find?_cons_of_neg (by simp [BlockIndex.extend, hheight])]
  · rintro r (_ | ⟨_, hr⟩)
    · rw [Store.getBlockIndex_addHeader]
      exact if_pos rfl
    · have hstored := h.stored r hr
      rw [Store.getBlockIndex_addHeader, if_neg, hstored]
      -- the header is not among the records before: the single calls have not stored it
      intro hhash
      rw [hhash] at hstored
      exact absurd (hfresh.symm.trans hstored) (by simp)
  · intro height
    rw [Store.getBlockHash_addHeader, h.connected]
  · intro height
    rw [Store.getBlockHashByHeaderHeight_addHeader, h.filed]
    by_cases hheight : height = prev.height.next
    · subst hheight
      simp [Store.lastNewAt, BlockIndex.extend, hfind]
    · have hne : (prev.extend header).height ≠ height := Ne.symm hheight
      rw [if_neg (Ne.symm hne), Store.lastNewAt, Store.lastNewAt,
        List.find?_cons_of_neg (by simp [hne])]

end HeaderBatch

end Bitcrab
