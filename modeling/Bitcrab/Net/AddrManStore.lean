import Bitcrab.Net.AddrMan

/-!
# The address manager on disk (`net/p2p/addr_man.rs`)

`save` writes the entries to `peers.dat` and `load_or_default` puts them back in their buckets,
where there is room. In a file the addresses are texts; here they are what the texts parse to, if
they do, and a file that cannot be read or decoded is none. The key is written and read with the
entries, so the hash is the same before and after.
-/

namespace Bitcrab

/-- `PersistedAddrInfo`. -/
structure PersistedAddrInfo where
  addr : Option SocketAddr
  source : Option SocketAddr
  score : Int
  isTried : Bool
  successCount : Nat
  failureCount : Nat
  deriving DecidableEq

/-- The entry that `load_or_default` makes of one of the file. -/
def PersistedAddrInfo.toInfo (entry : PersistedAddrInfo) : Option AddrInfo := do
  let addr ← entry.addr
  let source ← entry.source
  return { AddrInfo.new addr source with
    score := max entry.score 0
    isTried := entry.isTried
    successCount := entry.successCount
    failureCount := entry.failureCount }

/-- The entry that `save` writes. -/
def AddrInfo.persisted (info : AddrInfo) : PersistedAddrInfo :=
  ⟨some info.addr, some info.source, info.score, info.isTried, info.successCount, info.failureCount⟩

/-- What becomes of an entry that is saved and loaded. -/
def AddrInfo.restored (info : AddrInfo) : AddrInfo :=
  { AddrInfo.new info.addr info.source with
    score := max info.score 0
    isTried := info.isTried
    successCount := info.successCount
    failureCount := info.failureCount }

namespace AddrMan

/-- `AddrMan::save`: the entries of the file, in the iteration order given by `order`. -/
def save (m : AddrMan) (order : List SocketAddr) : List PersistedAddrInfo :=
  (m.mapInfo.iter order).map fun e => e.2.persisted

section

variable [BucketHash]

/-- In `load_or_default`: an entry goes to the map, and to its bucket if that has room. -/
def loadInfo (m : AddrMan) (info : AddrInfo) : AddrMan :=
  let m := { m with mapInfo := m.mapInfo.insert info.addr info }
  if info.isTried then
    let bucket := getTriedBucket info.addr
    if (m.triedBuckets bucket).length < bucketSize then
      { m with
        triedBuckets :=
          Function.update m.triedBuckets bucket (m.triedBuckets bucket ++ [info.addr]) }
    else m
  else
    let bucket := getNewBucket info.addr info.source
    if (m.newBuckets bucket).length < bucketSize then
      { m with
        newBuckets := Function.update m.newBuckets bucket (m.newBuckets bucket ++ [info.addr]) }
    else m

/-- `AddrMan::load_or_default`. -/
def loadOrDefault : Option (List PersistedAddrInfo) → AddrMan
  | some entries =>
    entries.foldl (fun m entry =>
      match entry.toInfo with
      | some info => m.loadInfo info
      | none => m) new
  | none => new

/-- The entries of a file, without those that do not parse. -/
def infosOf (file : Option (List PersistedAddrInfo)) : List AddrInfo :=
  (file.getD []).filterMap PersistedAddrInfo.toInfo

/-- The entry belongs in a bucket of the new table. -/
def inNew (bucket : Fin 1024) (info : AddrInfo) : Bool :=
  !info.isTried && decide (getNewBucket info.addr info.source = bucket)

/-- The entry belongs in a bucket of the tried table. -/
def inTried (bucket : Fin 256) (info : AddrInfo) : Bool :=
  info.isTried && decide (getTriedBucket info.addr = bucket)

/-- A file names an address once, and has no more entries for a bucket than the bucket has room
for. -/
structure Fits (file : Option (List PersistedAddrInfo)) : Prop where
  nodup : ((infosOf file).map AddrInfo.addr).Nodup
  newRoom : ∀ b, ((infosOf file).filter (inNew b)).length ≤ bucketSize
  triedRoom : ∀ b, ((infosOf file).filter (inTried b)).length ≤ bucketSize

omit [BucketHash] in
lemma infosOf_save (m : AddrMan) (order : List SocketAddr) :
    infosOf (some (m.save order)) = (m.mapInfo.iter order).map fun e => e.2.restored := by
  rw [infosOf, save, Option.getD_some, List.filterMap_map]
  exact congrFun List.filterMap_eq_map _

/-! ### What is loaded -/

lemma loadOrDefault_eq (file : Option (List PersistedAddrInfo)) :
    loadOrDefault file = (infosOf file).foldl loadInfo new := by
  cases file with
  | none => rfl
  | some entries =>
    rw [infosOf, Option.getD_some, List.foldl_filterMap, loadOrDefault]
    congr 1
    funext m entry
    cases entry.toInfo <;> rfl

/-- The addresses that are put in a bucket, one after the other, until it is full. -/
lemma newBuckets_loadInfo (m : AddrMan) (info : AddrInfo) (b : Fin 1024) :
    (m.loadInfo info).newBuckets b =
      if inNew b info ∧ (m.newBuckets b).length < bucketSize then m.newBuckets b ++ [info.addr]
      else m.newBuckets b := by
  unfold loadInfo inNew
  by_cases htried : info.isTried
  · simp only [htried, if_true, Bool.not_true, Bool.false_and, Bool.false_eq_true, false_and,
      if_false]
    split_ifs <;> rfl
  · by_cases hb : getNewBucket info.addr info.source = b
    · subst hb
      simp only [htried, Bool.false_eq_true, if_false, Bool.not_false, Bool.true_and, decide_true,
        true_and]
      split_ifs <;> simp
    · simp only [htried, Bool.false_eq_true, if_false, hb, decide_false, Bool.and_false, false_and]
      split_ifs
      · exact Function.update_of_ne (Ne.symm hb) _ _
      · rfl

lemma triedBuckets_loadInfo (m : AddrMan) (info : AddrInfo) (b : Fin 256) :
    (m.loadInfo info).triedBuckets b =
      if inTried b info ∧
        (m.triedBuckets b).length < bucketSize then m.triedBuckets b ++ [info.addr]
      else m.triedBuckets b := by
  unfold loadInfo inTried
  by_cases htried : info.isTried
  · by_cases hb : getTriedBucket info.addr = b
    · subst hb
      simp only [htried, if_true, Bool.true_and, decide_true, true_and]
      split_ifs <;> simp
    · simp only [htried, if_true, hb, decide_false, Bool.and_false, Bool.false_eq_true, false_and,
        if_false]
      split_ifs
      · exact Function.update_of_ne (Ne.symm hb) _ _
      · rfl
  · simp only [htried, Bool.false_eq_true, if_false, Bool.false_and, false_and]
    split_ifs <;> rfl

lemma mapInfo_loadInfo (m : AddrMan) (info : AddrInfo) :
    (m.loadInfo info).mapInfo = m.mapInfo.insert info.addr info := by
  unfold loadInfo
  dsimp only
  split_ifs <;> rfl

omit [BucketHash] in
/-- One more of a list of which the first `n` are kept. -/
lemma take_append_singleton {α : Type} (l : List α) (a : α) (n : Nat) :
    (if (l.take n).length < n then l.take n ++ [a] else l.take n) = (l ++ [a]).take n := by
  rw [List.length_take]
  by_cases hlen : l.length < n
  · rw [if_pos (by omega), List.take_of_length_le (by omega),
      List.take_of_length_le (by simp; omega)]
  · rw [if_neg (by omega), List.take_append_of_le_length (by omega)]

/-- A bucket has the first entries for it. -/
lemma bucket_load (bucket : AddrMan → List SocketAddr) (p : AddrInfo → Bool)
    (hnew : bucket new = [])
    (hload : ∀ m info, bucket (m.loadInfo info) =
      if p info ∧ (bucket m).length < bucketSize then bucket m ++ [info.addr] else bucket m)
    (infos : List AddrInfo) :
    bucket (infos.foldl loadInfo new) = ((infos.filter p).map AddrInfo.addr).take bucketSize := by
  induction infos using List.reverseRecOn with
  | nil => exact hnew
  | append_singleton infos info ih =>
    rw [List.foldl_concat, hload, ih, List.filter_append, List.map_append]
    by_cases hin : p info
    · simp only [hin, true_and, List.filter_cons_of_pos, List.filter_nil, List.map_cons,
        List.map_nil]
      exact take_append_singleton _ _ _
    · simp [hin]

lemma newBuckets_load (infos : List AddrInfo) (b : Fin 1024) :
    (infos.foldl loadInfo new).newBuckets b =
      ((infos.filter (inNew b)).map AddrInfo.addr).take bucketSize :=
  bucket_load (·.newBuckets b) (inNew b) rfl (fun m info => newBuckets_loadInfo m info b) infos

lemma triedBuckets_load (infos : List AddrInfo) (b : Fin 256) :
    (infos.foldl loadInfo new).triedBuckets b =
      ((infos.filter (inTried b)).map AddrInfo.addr).take bucketSize :=
  bucket_load (·.triedBuckets b) (inTried b) rfl (fun m info =>
    triedBuckets_loadInfo m info b) infos

/-- The map has the entries, each under its own address. -/
lemma lookup_load {infos : List AddrInfo} (hnodup : (infos.map AddrInfo.addr).Nodup)
    {a : SocketAddr} {info : AddrInfo} :
    (infos.foldl loadInfo new).mapInfo.lookup a = some info ↔ info ∈ infos ∧ info.addr = a := by
  induction infos using List.reverseRecOn with
  | nil => simp [new]
  | append_singleton infos last ih =>
    rw [List.map_append, List.nodup_append] at hnodup
    obtain ⟨hinit, _, hnew⟩ := hnodup
    rw [List.foldl_concat, mapInfo_loadInfo]
    by_cases ha : a = last.addr
    · subst ha
      rw [AList.lookup_insert, List.mem_append, List.mem_singleton]
      constructor
      · rintro h
        cases h
        exact ⟨.inr rfl, rfl⟩
      · rintro ⟨hmem | rfl, haddr⟩
        · exact absurd haddr (hnew _ (List.mem_map_of_mem hmem) _ (by simp))
        · rfl
    · rw [AList.lookup_insert_ne ha, ih hinit, List.mem_append, List.mem_singleton]
      constructor
      · rintro ⟨hmem, haddr⟩
        exact ⟨.inl hmem, haddr⟩
      · rintro ⟨hmem | rfl, haddr⟩
        · exact ⟨hmem, haddr⟩
        · exact absurd haddr.symm ha

/-- No bucket has more addresses than it has room for. -/
structure Capacity (m : AddrMan) : Prop where
  new : ∀ b, (m.newBuckets b).length ≤ bucketSize
  tried : ∀ b, (m.triedBuckets b).length ≤ bucketSize

lemma capacity_loadOrDefault (file : Option (List PersistedAddrInfo)) :
    (loadOrDefault file).Capacity := by
  rw [loadOrDefault_eq]
  constructor
  · intro b
    rw [newBuckets_load]
    exact List.length_take_le _ _
  · intro b
    rw [triedBuckets_load]
    exact List.length_take_le _ _

/-- A file that fits is loaded whole. -/
lemma Fits.partition {file : Option (List PersistedAddrInfo)} (h : Fits file) :
    (loadOrDefault file).Partition none := by
  rw [loadOrDefault_eq]
  have hnew : ∀ b, ((infosOf file).foldl loadInfo AddrMan.new).newBuckets b =
      ((infosOf file).filter (inNew b)).map AddrInfo.addr := by
    intro b
    rw [newBuckets_load]
    exact List.take_of_length_le (by simpa using h.newRoom b)
  have htried : ∀ b, ((infosOf file).foldl loadInfo AddrMan.new).triedBuckets b =
      ((infosOf file).filter (inTried b)).map AddrInfo.addr := by
    intro b
    rw [triedBuckets_load]
    exact List.take_of_length_le (by simpa using h.triedRoom b)
  refine ⟨?_, ?_, ?_, ?_, ?_⟩
  · intro a info hinfo
    exact ((lookup_load h.nodup).mp hinfo).2
  · intro b
    rw [hnew]
    exact h.nodup.sublist (List.filter_sublist.map _)
  · intro b
    rw [htried]
    exact h.nodup.sublist (List.filter_sublist.map _)
  · intro b a
    rw [hnew]
    simp only [List.mem_map, List.mem_filter, lookup_load h.nodup, inNew]
    constructor
    · rintro ⟨info, ⟨hmem, hin⟩, rfl⟩
      simp only [Bool.and_eq_true, Bool.not_eq_true', decide_eq_true_eq] at hin
      exact ⟨info, ⟨hmem, rfl⟩, hin⟩
    · rintro ⟨info, ⟨hmem, rfl⟩, hflag, hbucket⟩
      exact ⟨info, ⟨hmem, by simp [hflag, hbucket]⟩, rfl⟩
  · intro b a
    rw [htried]
    simp only [List.mem_map, List.mem_filter, lookup_load h.nodup, inTried]
    constructor
    · rintro ⟨info, ⟨hmem, hin⟩, rfl⟩
      simp only [Bool.and_eq_true, decide_eq_true_eq] at hin
      exact ⟨by simp, info, ⟨hmem, rfl⟩, hin⟩
    · rintro ⟨_, info, ⟨hmem, rfl⟩, hflag, hbucket⟩
      exact ⟨info, ⟨hmem, by simp [hflag, hbucket]⟩, rfl⟩

/-- A table that keeps to its capacity is saved to a file that fits. -/
lemma Partition.fits_save {m : AddrMan} (h : m.Partition none) (hcap : m.Capacity)
    (order : List SocketAddr) : Fits (some (m.save order)) := by
  have haddr : (infosOf (some (m.save order))).map AddrInfo.addr = m.mapInfo.iterKeys order := by
    rw [infosOf_save, List.map_map, ← HashMap.map_fst_iter]
    refine List.map_congr_left fun e he => ?_
    exact h.addr_eq e.1 e.2 (HashMap.mem_iter.mp he)
  have hnodup : ((infosOf (some (m.save order))).map AddrInfo.addr).Nodup := by
    rw [haddr]
    exact (HashMap.iterKeys_perm order m.mapInfo).nodup_iff.mpr m.mapInfo.keys_nodup
  -- an entry of the file is one of the map, in the same place
  have hentry : ∀ info ∈ infosOf (some (m.save order)), ∃ old,
      m.mapInfo.lookup info.addr = some old ∧ old.isTried = info.isTried ∧
        old.source = info.source := by
    intro info hinfo
    rw [infosOf_save] at hinfo
    obtain ⟨⟨a, old⟩, he, rfl⟩ := List.mem_map.mp hinfo
    have hold := HashMap.mem_iter.mp he
    refine ⟨old, ?_, rfl, rfl⟩
    change m.mapInfo.lookup old.addr = some old
    rw [h.addr_eq a old hold, hold]
  have hroom : ∀ (p : AddrInfo → Bool) (bucket : List SocketAddr), bucket.length ≤ bucketSize →
      (∀ info ∈ infosOf (some (m.save order)), p info → info.addr ∈ bucket) →
      ((infosOf (some (m.save order))).filter p).length ≤ bucketSize := by
    intro p bucket hlen hmem
    have hsub : ((infosOf (some (m.save order))).filter p).map AddrInfo.addr ⊆ bucket := by
      intro a ha
      obtain ⟨info, hinfo, rfl⟩ := List.mem_map.mp ha
      obtain ⟨hinfo, hp⟩ := List.mem_filter.mp hinfo
      exact hmem info hinfo hp
    have hle := (List.subperm_of_subset (hnodup.sublist (List.filter_sublist.map _)) hsub).length_le
    rw [List.length_map] at hle
    exact hle.trans hlen
  refine ⟨hnodup, fun b => ?_, fun b => ?_⟩
  · refine hroom _ _ (hcap.new b) fun info hinfo hin => ?_
    obtain ⟨old, hold, hflag, hsource⟩ := hentry info hinfo
    simp only [inNew, Bool.and_eq_true, Bool.not_eq_true', decide_eq_true_eq] at hin
    exact (h.mem_new b info.addr).mpr ⟨old, hold, hflag.trans hin.1, hsource ▸ hin.2⟩
  · refine hroom _ _ (hcap.tried b) fun info hinfo hin => ?_
    obtain ⟨old, hold, hflag, _⟩ := hentry info hinfo
    simp only [inTried, Bool.and_eq_true, decide_eq_true_eq] at hin
    exact (h.mem_tried b info.addr).mpr ⟨by simp, old, hold, hflag.trans hin.1, hin.2⟩

/-- `save` followed by `load_or_default`. -/
def reload (m : AddrMan) (order : List SocketAddr) : AddrMan :=
  loadOrDefault (some (m.save order))

/-- The address is in a bucket. -/
def InBucket (m : AddrMan) (a : SocketAddr) : Prop :=
  (∃ b, a ∈ m.newBuckets b) ∨ ∃ b, a ∈ m.triedBuckets b

/-- Every known address is in a bucket. -/
lemma Partition.inBucket {m : AddrMan} (h : m.Partition none) {a : SocketAddr}
    (ha : a ∈ m.mapInfo.keys) : m.InBucket a := by
  obtain ⟨info, hinfo⟩ := Option.isSome_iff_exists.mp (AList.lookup_isSome.mpr ha)
  by_cases hflag : info.isTried = true
  · exact .inr ⟨_, (h.mem_tried _ a).mpr ⟨by simp, info, hinfo, hflag, rfl⟩⟩
  · exact .inl ⟨_, (h.mem_new _ a).mpr ⟨info, hinfo, by simpa using hflag, rfl⟩⟩

/-- The addresses that are known after saving and loading. -/
lemma Partition.mem_keys_reload {m : AddrMan} (h : m.Partition none) (hcap : m.Capacity)
    (order : List SocketAddr) {a : SocketAddr} (ha : a ∈ m.mapInfo.keys) :
    a ∈ (m.reload order).mapInfo.keys := by
  obtain ⟨info, hinfo⟩ := Option.isSome_iff_exists.mp (AList.lookup_isSome.mpr ha)
  have hlookup : (m.reload order).mapInfo.lookup a = some info.restored := by
    rw [reload, loadOrDefault_eq, lookup_load (h.fits_save hcap order).nodup, infosOf_save]
    refine ⟨List.mem_map.mpr ⟨(a, info), HashMap.mem_iter.mpr hinfo, rfl⟩, ?_⟩
    exact h.addr_eq a info hinfo
  exact AList.lookup_isSome.mp (by simp [hlookup])

/-! ### Capacity over calls -/

variable {m : AddrMan}

/-- An address that is promoted displaces one whose bucket of the new table is full, the promoted
address apart. -/
def Displaces (m : AddrMan) (addr : SocketAddr) : Prop :=
  (∃ info, m.mapInfo.lookup addr = some info ∧ info.isTried = false) ∧
    ∃ victim rest, m.triedBuckets (getTriedBucket addr) = victim :: rest ∧
      bucketSize ≤ (victim :: rest).length ∧
      ∃ info, m.mapInfo.lookup victim = some info ∧
        bucketSize ≤ ((m.newBuckets (getNewBucket victim info.source)).filter
          fun x => decide (x ≠ addr)).length

omit [BucketHash] in
lemma Capacity.update_new (h : m.Capacity) {bucket : Fin 1024} {addrs : List SocketAddr}
    (mapInfo : HashMap SocketAddr AddrInfo) (hlen : addrs.length ≤ bucketSize) :
    Capacity ⟨mapInfo, Function.update m.newBuckets bucket addrs, m.triedBuckets⟩ := by
  refine ⟨fun b => ?_, h.tried⟩
  by_cases hb : b = bucket
  · subst hb
    simpa using hlen
  · simpa [Function.update_of_ne hb] using h.new b

omit [BucketHash] in
lemma Capacity.update_tried (h : m.Capacity) {bucket : Fin 256} {addrs : List SocketAddr}
    (hlen : addrs.length ≤ bucketSize) :
    Capacity { m with triedBuckets := Function.update m.triedBuckets bucket addrs } := by
  refine ⟨h.new, fun b => ?_⟩
  by_cases hb : b = bucket
  · subst hb
    simpa using hlen
  · simpa [Function.update_of_ne hb] using h.tried b

omit [BucketHash] in
/-- After an eviction there is room in the bucket. -/
lemma Capacity.evictNew (h : m.Capacity) (bucket : Fin 1024) :
    (m.evictNew bucket).Capacity ∧ ((m.evictNew bucket).newBuckets bucket).length < bucketSize := by
  unfold AddrMan.evictNew
  split_ifs with hfull
  · have hlen := h.new bucket
    split
    · rename_i hnil
      rw [hnil] at hfull
      exact absurd hfull (by decide)
    · rename_i victim rest hbucket
      rw [hbucket, List.length_cons] at hlen
      refine ⟨h.update_new _ (Nat.le_of_succ_le hlen), ?_⟩
      dsimp only
      rw [Function.update_self]
      exact hlen
  · exact ⟨h, not_le.mp hfull⟩

lemma Capacity.add (h : m.Capacity) (addr source : SocketAddr) : (m.add addr source).Capacity := by
  unfold AddrMan.add
  split_ifs
  · exact h
  · obtain ⟨hevict, hroom⟩ := h.evictNew (getNewBucket addr source)
    refine hevict.update_new _ ?_
    rw [List.length_append]
    exact hroom

lemma Capacity.addMany (h : m.Capacity) (addrs : List SocketAddr) (source : SocketAddr) :
    (m.addMany addrs source).Capacity := by
  unfold AddrMan.addMany
  induction addrs generalizing m with
  | nil => exact h
  | cons addr addrs ih => exact ih (h.add addr source)

lemma Capacity.leaveNew (h : m.Capacity) (addr source : SocketAddr) :
    (m.leaveNew addr source).Capacity :=
  h.update_new _ ((List.length_filter_le _ _).trans (h.new _))

/-- What is left of the bucket of a displaced address. -/
lemma Partition.newBuckets_leaveNew (h : m.Partition none) {addr : SocketAddr} {info : AddrInfo}
    (hinfo : m.mapInfo.lookup addr = some info) (b : Fin 1024) :
    (m.leaveNew addr info.source).newBuckets b =
      (m.newBuckets b).filter fun x => decide (x ≠ addr) := by
  by_cases hb : b = getNewBucket addr info.source
  · subst hb
    exact Function.update_self _ _ _
  · refine (Function.update_of_ne hb _ _).trans (List.filter_eq_self.mpr fun x hx => ?_).symm
    -- the promoted address is in no other bucket
    refine decide_eq_true fun heq => ?_
    obtain ⟨info', hinfo', _, hbucket⟩ := (h.mem_new b x).mp hx
    rw [heq, hinfo, Option.some_inj] at hinfo'
    rw [heq, ← hinfo'] at hbucket
    exact hb hbucket.symm

lemma lookup_leaveNew (addr source victim : SocketAddr) :
    ((m.leaveNew addr source).mapInfo.lookup victim).map AddrInfo.source =
      (m.mapInfo.lookup victim).map AddrInfo.source := by
  rw [AddrMan.leaveNew, HashMap.lookup_modify]
  split_ifs
  · cases m.mapInfo.lookup victim <;> rfl
  · rfl

/-- A full bucket of the tried table gives its first address back. -/
lemma evictTried_of_full {bucket : Fin 256} {victim : SocketAddr} {rest : List SocketAddr}
    (hbucket : m.triedBuckets bucket = victim :: rest)
    (hfull : bucketSize ≤ (victim :: rest).length) :
    (m.evictTried bucket).triedBuckets = Function.update m.triedBuckets bucket rest ∧
      (m.evictTried bucket).newBuckets =
        match (m.mapInfo.lookup victim).map AddrInfo.source with
        | none => m.newBuckets
        | some source => Function.update m.newBuckets (getNewBucket victim source)
            (m.newBuckets (getNewBucket victim source) ++ [victim]) := by
  rw [AddrMan.evictTried, if_pos (hbucket ▸ hfull), hbucket]
  dsimp only
  cases m.mapInfo.lookup victim with
  | none => exact ⟨rfl, rfl⟩
  | some info => exact ⟨rfl, rfl⟩

omit [BucketHash] in
/-- Where the tried table has room for the promoted address, only the new table matters. -/
lemma capacity_arrive_iff {bucket : Fin 256} (htried : ∀ b, (m.triedBuckets b).length ≤ bucketSize)
    (hroom : (m.triedBuckets bucket).length < bucketSize) (addr : SocketAddr) :
    Capacity { m with triedBuckets :=
        Function.update m.triedBuckets bucket (m.triedBuckets bucket ++ [addr]) } ↔
      ∀ b, (m.newBuckets b).length ≤ bucketSize := by
  refine ⟨Capacity.new, fun hnew => ?_⟩
  refine Capacity.update_tried ⟨hnew, htried⟩ ?_
  rw [List.length_append]
  exact hroom

/-- The new table after an address was displaced to it. -/
lemma Partition.room_displaced_iff (h : m.Partition none) (hcap : m.Capacity) {addr : SocketAddr}
    {info : AddrInfo} (hinfo : m.mapInfo.lookup addr = some info) (htried : info.isTried = false)
    {victim : SocketAddr} {rest : List SocketAddr}
    (hbucket : m.triedBuckets (getTriedBucket addr) = victim :: rest)
    (hfull : bucketSize ≤ (victim :: rest).length) :
    (∀ b, (((m.leaveNew addr info.source).evictTried (getTriedBucket addr)).newBuckets b).length ≤
      bucketSize) ↔ ¬ m.Displaces addr := by
  have hleave := hcap.leaveNew addr info.source
  have hvictims : ∀ {victim' rest'}, m.triedBuckets (getTriedBucket addr) = victim' :: rest' →
      victim = victim' := by
    intro victim' rest' hbucket'
    rw [hbucket] at hbucket'
    exact (List.cons.inj hbucket').1
  obtain ⟨_, hnewBuckets⟩ := evictTried_of_full (m := m.leaveNew addr info.source) hbucket hfull
  rw [lookup_leaveNew] at hnewBuckets
  rw [hnewBuckets]
  cases hvictim : m.mapInfo.lookup victim with
  | none =>
    refine iff_of_true hleave.new ?_
    rintro ⟨_, victim', _, hbucket', _, _, hvictim', _⟩
    rw [← hvictims hbucket', hvictim] at hvictim'
    cases hvictim'
  | some victimInfo =>
    have hleft := h.newBuckets_leaveNew hinfo (getNewBucket victim victimInfo.source)
    simp only [Option.map_some]
    constructor
    · rintro hlen ⟨_, victim', _, hbucket', _, victimInfo', hvictim', hfullNew⟩
      obtain rfl := hvictims hbucket'
      rw [hvictim, Option.some_inj] at hvictim'
      have hlen := hlen (getNewBucket victim victimInfo.source)
      rw [Function.update_self, List.length_append, hleft, hvictim'] at hlen
      exact absurd hfullNew (not_le.mpr hlen)
    · intro hnot b
      by_cases hb : b = getNewBucket victim victimInfo.source
      · subst hb
        rw [Function.update_self, List.length_append, hleft]
        by_contra hlen
        exact hnot ⟨⟨info, hinfo, htried⟩, victim, rest, hbucket, hfull, victimInfo, hvictim,
          Nat.le_of_lt_succ (not_le.mp hlen)⟩
      · rw [Function.update_of_ne hb]
        exact hleave.new b

/-- An address that is promoted keeps the capacity, except where it displaces one. -/
lemma Partition.capacity_good_iff (h : m.Partition none) (hcap : m.Capacity) (addr : SocketAddr) :
    (m.good addr).Capacity ↔ ¬ m.Displaces addr := by
  by_cases hpromoted : ∃ info, m.mapInfo.lookup addr = some info ∧ info.isTried = false
  · obtain ⟨info, hinfo, htried⟩ := hpromoted
    rw [AddrMan.good, hinfo]
    dsimp only
    rw [if_neg (by simp [htried])]
    by_cases hfull : bucketSize ≤ (m.triedBuckets (getTriedBucket addr)).length
    · obtain ⟨victim, rest, hbucket⟩ := List.exists_cons_of_length_pos
        (Nat.lt_of_lt_of_le (by decide) hfull)
      have hrest : rest.length < bucketSize := by
        have hlen := hcap.tried (getTriedBucket addr)
        rwa [hbucket, List.length_cons] at hlen
      rw [hbucket] at hfull
      obtain ⟨htriedBuckets, _⟩ :=
        evictTried_of_full (m := m.leaveNew addr info.source) hbucket hfull
      rw [← h.room_displaced_iff hcap hinfo htried hbucket hfull]
      refine capacity_arrive_iff ?_ ?_ addr
      · rw [htriedBuckets]
        exact ((hcap.leaveNew addr info.source).update_tried hrest.le).tried
      · rwa [htriedBuckets, Function.update_self]
    · -- there is room in the tried table, and nothing is displaced
      have hsame : (m.leaveNew addr info.source).evictTried (getTriedBucket addr) =
          m.leaveNew addr info.source := if_neg hfull
      have hleave := hcap.leaveNew addr info.source
      rw [hsame, capacity_arrive_iff hleave.tried (not_le.mp hfull)]
      refine iff_of_true hleave.new ?_
      rintro ⟨_, victim, rest, hbucket, hlen, _⟩
      rw [← hbucket] at hlen
      exact hfull hlen
  · have hsame : m.good addr = m := by
      unfold AddrMan.good
      split
      · rfl
      · rename_i info hinfo
        refine if_pos ?_
        by_contra htried
        exact hpromoted ⟨info, hinfo, by simpa using htried⟩
    rw [hsame]
    refine iff_of_true hcap ?_
    exact fun hdisplaces => hpromoted hdisplaces.1

/-- The counts and times of an entry do not matter. -/
lemma displaces_modify_iff {f : AddrInfo → AddrInfo}
    (hsource : ∀ info, (f info).source = info.source)
    (htried : ∀ info, (f info).isTried = info.isTried) (addr addr' : SocketAddr) :
    Displaces { m with mapInfo := m.mapInfo.modify addr' f } addr ↔ m.Displaces addr := by
  unfold Displaces
  refine and_congr (exists_lookup_modify_iff (P := fun info => info.isTried = false)
    (fun info => by rw [htried]) addr' addr) ?_
  refine exists_congr fun victim => exists_congr fun rest => and_congr_right fun _ =>
    and_congr_right fun _ => ?_
  exact exists_lookup_modify_iff (P := fun info =>
    bucketSize ≤ ((m.newBuckets (getNewBucket victim info.source)).filter
      fun x => decide (x ≠ addr)).length) (fun info => by rw [hsource]) addr' victim

/-- The call displaces an address to a full bucket. -/
def Overflows (m : AddrMan) : Call → Prop
  | .good addr => m.Displaces addr
  | .recordSuccess _ addr => m.Displaces addr
  | .add _ _ | .addMany _ _ | .recordFailure _ _ => False

lemma Partition.capacity_apply_iff (h : m.Partition none) (hcap : m.Capacity) (call : Call) :
    (m.apply call).Capacity ↔ ¬ m.Overflows call := by
  cases call with
  | add addr source => exact iff_of_true (hcap.add addr source) id
  | addMany addrs source => exact iff_of_true (hcap.addMany addrs source) id
  | good addr => exact h.capacity_good_iff hcap addr
  | recordSuccess now addr =>
    have hmodify := h.modify (f := AddrInfo.succeeded now) (fun _ => rfl) (fun _ => rfl)
      (fun _ => rfl) addr
    refine (hmodify.capacity_good_iff ⟨hcap.new, hcap.tried⟩ addr).trans (not_congr ?_)
    exact displaces_modify_iff (f := AddrInfo.succeeded now) (fun _ => rfl) (fun _ => rfl) addr addr
  | recordFailure now addr => exact iff_of_true ⟨hcap.new, hcap.tried⟩ id

/-- The calls of a node that also saves the table and loads it again. -/
inductive StoreCall where
  | call (call : Call)
  | reload (order : List SocketAddr)

def applyStored (m : AddrMan) : StoreCall → AddrMan
  | .call call => m.apply call
  | .reload order => m.reload order

/-- The table after the first `k` calls, from `load_or_default` and so from `new` if there is no
file. -/
def stateAfter (file : Option (List PersistedAddrInfo)) (calls : List StoreCall) (k : Nat) :
    AddrMan :=
  (calls.take k).foldl applyStored (loadOrDefault file)

lemma stateAfter_zero (file : Option (List PersistedAddrInfo)) (calls : List StoreCall) :
    stateAfter file calls 0 = loadOrDefault file := rfl

lemma stateAfter_succ {file : Option (List PersistedAddrInfo)} {calls : List StoreCall} {k : Nat}
    {c : StoreCall} (hc : calls[k]? = some c) :
    stateAfter file calls (k + 1) = (stateAfter file calls k).applyStored c := by
  rw [stateAfter, List.take_add_one, hc, Option.toList_some, List.foldl_concat]
  rfl

lemma Partition.applyStored (h : m.Partition none) (hcap : m.Capacity) (c : StoreCall) :
    (m.applyStored c).Partition none := by
  cases c with
  | call call => exact h.apply call
  | reload order => exact (h.fits_save hcap order).partition

lemma Partition.capacity_applyStored_iff (h : m.Partition none) (hcap : m.Capacity)
    (c : StoreCall) :
    (m.applyStored c).Capacity ↔ ∀ call, c = .call call → ¬ m.Overflows call := by
  cases c with
  | call call =>
    refine (h.capacity_apply_iff hcap call).trans ⟨?_, fun hall => hall call rfl⟩
    intro hnot call' heq
    cases heq
    exact hnot
  | reload order => exact iff_of_true (capacity_loadOrDefault (some (m.save order))) (by simp)

/-- The table partitions its addresses as long as it keeps to its capacity. -/
lemma partition_stateAfter {file : Option (List PersistedAddrInfo)} (hfits : Fits file)
    {calls : List StoreCall} {k : Nat} (hk : k ≤ calls.length)
    (hcap : ∀ j < k, (stateAfter file calls j).Capacity) :
    (stateAfter file calls k).Partition none := by
  induction k with
  | zero => exact hfits.partition
  | succ k ih =>
    rw [stateAfter_succ (List.getElem?_eq_getElem hk)]
    refine (ih (Nat.le_of_succ_le hk) fun j hj =>
      hcap j (hj.trans (Nat.lt_succ_self k))).applyStored
      (hcap k (Nat.lt_succ_self k)) _

/-- From a file that fits, or from none, all buckets keep to their capacity and all addresses are in
a bucket after `save` and `load_or_default`, exactly in the runs that never displace an address to a
full bucket. -/
theorem capacity_of_run_iff (file : Option (List PersistedAddrInfo)) (hfits : Fits file)
    (calls : List StoreCall) :
    (∀ k ≤ calls.length, (stateAfter file calls k).Capacity ∧
      ∀ order, ∀ a ∈ (stateAfter file calls k).mapInfo.keys,
        ((stateAfter file calls k).reload order).InBucket a) ↔
      ∀ k call, calls[k]? = some (.call call) → ¬ (stateAfter file calls k).Overflows call := by
  constructor
  · intro hrun k call hcall
    have hk : k < calls.length := (List.getElem?_eq_some_iff.mp hcall).1
    have hpart := partition_stateAfter hfits hk.le fun j hj => (hrun j (hj.trans hk).le).1
    have hnext := (hrun (k + 1) hk).1
    rw [stateAfter_succ hcall, hpart.capacity_applyStored_iff (hrun k hk.le).1] at hnext
    exact hnext call rfl
  · intro hcalls k hk
    have hcap : ∀ j ≤ k, (stateAfter file calls j).Capacity := by
      intro j hj
      induction j using Nat.strong_induction_on with
      | _ j ih =>
        cases j with
        | zero => exact capacity_loadOrDefault file
        | succ j =>
          have hj' : j < calls.length := (Nat.lt_of_succ_le hj).trans_le hk
          have hpart := partition_stateAfter hfits hj'.le fun i hi =>
            ih i (hi.trans (Nat.lt_succ_self j)) (by omega)
          have hcap := ih j (Nat.lt_succ_self j) (by omega)
          rw [stateAfter_succ (List.getElem?_eq_getElem hj'), hpart.capacity_applyStored_iff hcap]
          intro call hcall
          exact hcalls j call (by rw [List.getElem?_eq_getElem hj', hcall])
    have hpart := partition_stateAfter hfits hk fun j hj => hcap j hj.le
    refine ⟨hcap k le_rfl, fun order a ha => ?_⟩
    exact (hpart.fits_save (hcap k le_rfl) order).partition.inBucket
      (hpart.mem_keys_reload (hcap k le_rfl) order ha)

end

namespace Sample

/-- A hash that tells sources apart. -/
scoped instance bucketHash : BucketHash where
  newHash _ source := (source.headD 0).toUInt64
  triedHash _ _ := 0

/-- An address of one host. -/
def host (port : Nat) : SocketAddr := ⟨.v4 ⟨[10, 0, 0, 1], rfl⟩, UInt16.ofNat port⟩

/-- Two hosts that tell us about addresses, in different groups. -/
def sourceOne : SocketAddr := ⟨.v4 ⟨[1, 1, 1, 1], rfl⟩, 8333⟩

def sourceTwo : SocketAddr := ⟨.v4 ⟨[2, 2, 2, 2], rfl⟩, 8333⟩

/-- A full bucket of the tried table and a full bucket of the new table, for addresses from one
source, and an address from another. -/
def fullFile : List PersistedAddrInfo :=
  ((List.range 64).map fun k => ⟨some (host k), some sourceOne, 1, true, 1, 0⟩) ++
    ((List.range 64).map fun k => ⟨some (host (100 + k)), some sourceOne, 0, false, 0, 0⟩) ++
    [⟨some (host 200), some sourceTwo, 0, false, 0, 0⟩]

lemma fits_fullFile : Fits (some fullFile) := by
  refine ⟨?_, fun b => ?_, fun b => ?_⟩
  · refine List.Nodup.of_map (fun a => a.port.toNat) ?_
    decide +kernel
  · by_cases hb : b = 1
    · subst hb
      decide +kernel
    · -- every other bucket has at most the one address from the second source
      have hother : ∀ info, inNew b info → (decide (getNewBucket info.addr info.source ≠ 1)) := by
        intro info hin
        simp only [inNew, Bool.and_eq_true, decide_eq_true_eq] at hin
        simpa [hin.2] using hb
      exact (List.monotone_filter_right _ hother).length_le.trans (by decide +kernel)
  · have htried : ∀ info, inTried b info → info.isTried := by
      intro info hin
      exact (Bool.and_eq_true_iff.mp hin).1
    exact (List.monotone_filter_right _ htried).length_le.trans (by decide +kernel)

/-- The address from the second source displaces the oldest of the tried table. -/
lemma displaces_fullFile : (loadOrDefault (some fullFile)).Displaces (host 200) := by
  have hlookup : ∀ info ∈ infosOf (some fullFile),
      (loadOrDefault (some fullFile)).mapInfo.lookup info.addr = some info := by
    intro info hinfo
    rw [loadOrDefault_eq]
    exact (lookup_load fits_fullFile.nodup).mpr ⟨hinfo, rfl⟩
  have hpromoted := hlookup (AddrInfo.new (host 200) sourceTwo) (by decide +kernel)
  have hvictim := hlookup ⟨host 0, sourceOne, 1, true, none, none, none, 1, 0⟩ (by decide +kernel)
  refine ⟨⟨_, hpromoted, rfl⟩, host 0, (List.range 63).map fun k =>
    host (k + 1), ?_, ?_, _, hvictim,
    ?_⟩
  · rw [loadOrDefault_eq, triedBuckets_load]
    decide +kernel
  · rw [List.length_cons, List.length_map, List.length_range]
    decide
  · rw [loadOrDefault_eq, newBuckets_load]
    decide +kernel

theorem not_capacity_of_run :
    ¬ ∀ [BucketHash] (file : Option (List PersistedAddrInfo)) (calls : List StoreCall) (k : Nat),
      (stateAfter file calls k).Capacity := by
  intro h
  have hgood := h (some fullFile) [.call (.good (host 200))] 1
  rw [stateAfter_succ (c := .call (.good (host 200))) rfl, stateAfter_zero,
    fits_fullFile.partition.capacity_applyStored_iff (capacity_loadOrDefault _)] at hgood
  exact hgood _ rfl displaces_fullFile

/-- The same file without one address, so that the bucket of the new table has room for one. -/
def roomyFile : List PersistedAddrInfo :=
  fullFile.eraseIdx 64

lemma fits_roomyFile : Fits (some roomyFile) := by
  have hsub : (infosOf (some roomyFile)).Sublist (infosOf (some fullFile)) :=
    (List.eraseIdx_sublist fullFile 64).filterMap _
  exact ⟨(hsub.map _).nodup fits_fullFile.nodup,
    fun b => (hsub.filter _).length_le.trans (fits_fullFile.newRoom b),
    fun b => (hsub.filter _).length_le.trans (fits_fullFile.triedRoom b)⟩

/-- Here the address that is displaced finds room. -/
lemma not_displaces_roomyFile : ¬ (loadOrDefault (some roomyFile)).Displaces (host 200) := by
  rintro ⟨-, victim, rest, htried, -, info, hinfo, hfull⟩
  have hbucket : (loadOrDefault (some roomyFile)).triedBuckets (getTriedBucket (host 200)) =
      (List.range 64).map host := by
    rw [loadOrDefault_eq, triedBuckets_load]
    decide +kernel
  obtain rfl : host 0 = victim := (List.cons.inj (hbucket.symm.trans htried)).1
  have hvictim : (loadOrDefault (some roomyFile)).mapInfo.lookup (host 0) =
      some ⟨host 0, sourceOne, 1, true, none, none, none, 1, 0⟩ := by
    rw [loadOrDefault_eq]
    exact (lookup_load fits_roomyFile.nodup).mpr ⟨by decide +kernel, rfl⟩
  obtain rfl := Option.some.inj (hvictim.symm.trans hinfo)
  rw [loadOrDefault_eq, newBuckets_load] at hfull
  revert hfull
  decide +kernel

/-- A promotion to the full tried bucket, and a restart. -/
def roomyCalls : List StoreCall := [.call (.good (host 200)), .reload []]

/-- The file fits, and every address stays in its bucket. -/
theorem capacity_of_run_roomyFile :
    Fits (some roomyFile) ∧
    ∀ k ≤ 2, (stateAfter (some roomyFile) roomyCalls k).Capacity ∧
      ∀ order, ∀ a ∈ (stateAfter (some roomyFile) roomyCalls k).mapInfo.keys,
        ((stateAfter (some roomyFile) roomyCalls k).reload order).InBucket a := by
  refine ⟨fits_roomyFile, ?_⟩
  refine (capacity_of_run_iff (some roomyFile) fits_roomyFile roomyCalls).mpr ?_
  intro k call hcall
  cases k with
  | zero =>
    obtain rfl := StoreCall.call.inj (Option.some.inj hcall)
    rw [stateAfter_zero]
    exact not_displaces_roomyFile
  | succ k =>
    cases k with
    | zero => cases hcall
    | succ k => cases hcall

end Sample

end AddrMan

end Bitcrab
