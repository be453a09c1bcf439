import Bitcrab.Lib.Counters
import Bitcrab.Net.Address
import Mathlib.Algebra.BigOperators.Fin

/-!
# The address manager (`net/p2p/addr_man.rs`)

`AddrMan` knows addresses and keeps them in buckets: an address that a connection succeeded with is
in a bucket of the tried table, every other one in a bucket of the new table. The buckets are chosen
by a keyed hash, which is a parameter.
-/

namespace Bitcrab

/-- The keyed `DefaultHasher` of an `AddrMan`, on what `get_new_bucket` and `get_tried_bucket` give
it. -/
class BucketHash where
  newHash : List UInt8 → List UInt8 → UInt64
  triedHash : IpAddr → List UInt8 → UInt64

/-- A time of the monotonic clock, in nanoseconds. -/
abbrev Instant := Nat

/-- `Duration::from_secs`. -/
def secs (n : Nat) : Nat := n * 1000000000

/-- `AddrInfo`. -/
structure AddrInfo where
  addr : SocketAddr
  source : SocketAddr
  score : Int
  isTried : Bool
  lastConnected : Option Instant
  lastAttempt : Option Instant
  bannedAt : Option Instant
  successCount : Nat
  failureCount : Nat
  deriving DecidableEq

namespace AddrInfo

/-- `MAX_SCORE`. -/
def maxScore : Int := 100

/-- `MIN_SCORE`. -/
def minScore : Int := -10

/-- `BAN_DURATION`, ten minutes. -/
def banDuration : Nat := secs (60 * 10)

/-- `RETRY_INTERVAL`, two minutes. -/
def retryInterval : Nat := secs (60 * 2)

/-- `AddrInfo::new`. -/
def new (addr source : SocketAddr) : AddrInfo :=
  ⟨addr, source, 0, false, none, none, none, 0, 0⟩

/-- `t.elapsed() < duration`, for a time that there may be. -/
def within (now : Instant) (duration : Nat) : Option Instant → Bool
  | none => false
  | some t => now - t < duration

/-- `is_banned`. -/
def isBanned (now : Instant) (info : AddrInfo) : Bool := within now banDuration info.bannedAt

/-- `is_too_recent`. -/
def isTooRecent (now : Instant) (info : AddrInfo) : Bool :=
  within now retryInterval info.lastAttempt

/-- `is_connectable`. -/
def isConnectable (now : Instant) (info : AddrInfo) : Bool :=
  !info.isBanned now && !info.isTooRecent now

/-- The change of an entry in `record_success`. -/
def succeeded (now : Instant) (info : AddrInfo) : AddrInfo :=
  { info with
    score := min (info.score + 1) maxScore
    lastConnected := some now
    lastAttempt := some now
    successCount := info.successCount + 1
    bannedAt := none }

/-- The change of an entry in `record_failure`. -/
def failed (now : Instant) (info : AddrInfo) : AddrInfo :=
  let score := max (info.score - 1) (minScore - 1)
  { info with
    score := score
    failureCount := info.failureCount + 1
    lastAttempt := some now
    bannedAt := if score < minScore then some now else info.bannedAt }

/-- The key of `max_by_key` in `select_best`. -/
def rank (info : AddrInfo) : Bool × Int × Nat := (info.isTried, info.score, info.successCount)

/-- The order of these keys. -/
def rankLt (a b : Bool × Int × Nat) : Bool :=
  if a.1 ≠ b.1 then b.1
  else if a.2.1 ≠ b.2.1 then a.2.1 < b.2.1
  else a.2.2 < b.2.2

end AddrInfo

/-- `AddrMan`; the key is part of the hash. -/
structure AddrMan where
  mapInfo : HashMap SocketAddr AddrInfo
  newBuckets : Fin 1024 → List SocketAddr
  triedBuckets : Fin 256 → List SocketAddr

namespace AddrMan

/-- `ADDRMAN_BUCKET_SIZE`. -/
def bucketSize : Nat := 64

/-- `AddrMan::new`. -/
def new : AddrMan := ⟨∅, fun _ => [], fun _ => []⟩

section

variable [BucketHash]

/-- `get_new_bucket`. -/
def getNewBucket (target source : SocketAddr) : Fin 1024 :=
  ⟨(BucketHash.newHash target.ip.group source.ip.group).toNat % 1024, Nat.mod_lt _ (by decide)⟩

/-- `get_tried_bucket`. -/
def getTriedBucket (target : SocketAddr) : Fin 256 :=
  ⟨(BucketHash.triedHash target.ip target.ip.group).toNat % 256, Nat.mod_lt _ (by decide)⟩

/-- In `add`: a full bucket loses its first address. -/
def evictNew (m : AddrMan) (bucket : Fin 1024) : AddrMan :=
  if (m.newBuckets bucket).length ≥ bucketSize then
    match m.newBuckets bucket with
    | [] => m
    | victim :: rest =>
      { m with
        mapInfo := m.mapInfo.erase victim
        newBuckets := Function.update m.newBuckets bucket rest }
  else m

/-- `AddrMan::add`. -/
def add (m : AddrMan) (addr source : SocketAddr) : AddrMan :=
  if (m.mapInfo.lookup addr).isSome then m
  else
    let bucket := getNewBucket addr source
    let m := m.evictNew bucket
    { m with
      mapInfo := m.mapInfo.insert addr (AddrInfo.new addr source)
      newBuckets := Function.update m.newBuckets bucket (m.newBuckets bucket ++ [addr]) }

/-- `AddrMan::add_many`. -/
def addMany (m : AddrMan) (addrs : List SocketAddr) (source : SocketAddr) : AddrMan :=
  addrs.foldl (fun m addr => m.add addr source) m

/-- In `good`: a full bucket of the tried table gives its first address back to the new table. -/
def evictTried (m : AddrMan) (bucket : Fin 256) : AddrMan :=
  if (m.triedBuckets bucket).length ≥ bucketSize then
    match m.triedBuckets bucket with
    | [] => m
    | victim :: rest =>
      let m := { m with triedBuckets := Function.update m.triedBuckets bucket rest }
      match m.mapInfo.lookup victim with
      | none => m
      | some info =>
        let newBucket := getNewBucket victim info.source
        { m with
          mapInfo := m.mapInfo.modify victim fun info => { info with isTried := false }
          newBuckets :=
            Function.update m.newBuckets newBucket (m.newBuckets newBucket ++ [victim]) }
  else m

/-- In `good`: the address leaves its bucket of the new table. -/
def leaveNew (m : AddrMan) (addr source : SocketAddr) : AddrMan :=
  let bucket := getNewBucket addr source
  { m with
    mapInfo := m.mapInfo.modify addr fun info => { info with isTried := true }
    newBuckets := Function.update m.newBuckets bucket
      ((m.newBuckets bucket).filter fun x => decide (x ≠ addr)) }

/-- `AddrMan::good`. -/
def good (m : AddrMan) (addr : SocketAddr) : AddrMan :=
  match m.mapInfo.lookup addr with
  | none => m
  | some info =>
    if info.isTried then m
    else
      let bucket := getTriedBucket addr
      let m := (m.leaveNew addr info.source).evictTried bucket
      { m with
        triedBuckets := Function.update m.triedBuckets bucket (m.triedBuckets bucket ++ [addr]) }

/-- `AddrMan::record_success`. -/
def recordSuccess (m : AddrMan) (now : Instant) (addr : SocketAddr) : AddrMan :=
  good { m with mapInfo := m.mapInfo.modify addr (AddrInfo.succeeded now) } addr

end

/-- `AddrMan::record_failure`. -/
def recordFailure (m : AddrMan) (now : Instant) (addr : SocketAddr) : AddrMan :=
  { m with mapInfo := m.mapInfo.modify addr (AddrInfo.failed now) }

/-- `max_by_key`: the last of the entries with the greatest key. -/
def maxByKey : List AddrInfo → Option AddrInfo
  | [] => none
  | info :: infos =>
    match maxByKey infos with
    | none => some info
    | some best => if AddrInfo.rankLt best.rank info.rank then some info else some best

/-- `select_best` over the entries with `p`, in the iteration order given by `order`. -/
def selectWith (m : AddrMan) (order : List SocketAddr) (p : AddrInfo → Bool) : Option SocketAddr :=
  (maxByKey (((m.mapInfo.iter order).map Prod.snd).filter p)).map AddrInfo.addr

/-- `AddrMan::select_best_ipv4`. -/
def selectBestIpv4 (m : AddrMan) (now : Instant) (order active : List SocketAddr) :
    Option SocketAddr :=
  m.selectWith order fun e =>
    e.isConnectable now && e.addr.isIpv4 && !decide (e.addr ∈ active)

/-- `AddrMan::select_best`. -/
def selectBest (m : AddrMan) (now : Instant) (order active : List SocketAddr) : Option SocketAddr :=
  m.selectWith order fun e => e.isConnectable now && !decide (e.addr ∈ active)

/-- The choice of `PeerTable::get_best_address` among addresses that are not excluded. -/
def select (m : AddrMan) (now : Instant) (order exclude : List SocketAddr) : Option SocketAddr :=
  (m.selectBestIpv4 now order exclude).or (m.selectBest now order exclude)

/-! ### The buckets partition the addresses -/

section

variable [BucketHash]

/-- The buckets hold the known addresses, each where its entry says. An address that is on its way
from one table to the other is in no bucket. -/
structure Partition (moving : Option SocketAddr) (m : AddrMan) : Prop where
  addr_eq : ∀ a info, m.mapInfo.lookup a = some info → info.addr = a
  nodup_new : ∀ b, (m.newBuckets b).Nodup
  nodup_tried : ∀ b, (m.triedBuckets b).Nodup
  mem_new : ∀ b a, a ∈ m.newBuckets b ↔
    ∃ info, m.mapInfo.lookup a = some info ∧ info.isTried = false ∧ getNewBucket a info.source = b
  mem_tried : ∀ b a, a ∈ m.triedBuckets b ↔ moving ≠ some a ∧
    ∃ info, m.mapInfo.lookup a = some info ∧ info.isTried = true ∧ getTriedBucket a = b

variable {m : AddrMan} {moving : Option SocketAddr}

lemma partition_new : new.Partition none := by
  constructor <;> simp [new]

omit [BucketHash] in
/-- The entries of a map with a changed entry, where the change does not matter. -/
lemma exists_lookup_modify_iff {P : AddrInfo → Prop} {f : AddrInfo → AddrInfo}
    (hP : ∀ info, P (f info) ↔ P info) (addr a : SocketAddr) :
    (∃ info, (m.mapInfo.modify addr f).lookup a = some info ∧ P info) ↔
      ∃ info, m.mapInfo.lookup a = some info ∧ P info := by
  rw [HashMap.lookup_modify]
  split_ifs with ha
  · cases m.mapInfo.lookup a <;> simp [hP]
  · rfl

/-- A change of an entry that leaves its place alone. -/
lemma Partition.modify (h : m.Partition moving) {f : AddrInfo → AddrInfo}
    (haddr : ∀ info, (f info).addr = info.addr) (hsource : ∀ info, (f info).source = info.source)
    (htried : ∀ info, (f info).isTried = info.isTried) (addr : SocketAddr) :
    Partition moving { m with mapInfo := m.mapInfo.modify addr f } := by
  refine ⟨?_, h.nodup_new, h.nodup_tried, ?_, ?_⟩
  · intro a info hinfo
    rw [HashMap.lookup_modify] at hinfo
    split_ifs at hinfo with ha
    · obtain ⟨old, hold, rfl⟩ := Option.map_eq_some_iff.mp hinfo
      rw [haddr]
      exact h.addr_eq a old hold
    · exact h.addr_eq a info hinfo
  · intro b a
    rw [h.mem_new, exists_lookup_modify_iff (P := fun info =>
      info.isTried = false ∧ getNewBucket a info.source = b)]
    simp [hsource, htried]
  · intro b a
    rw [h.mem_tried, exists_lookup_modify_iff (P := fun info =>
      info.isTried = true ∧ getTriedBucket a = b)]
    simp [htried]

lemma Partition.recordFailure (h : m.Partition moving) (now : Instant) (addr : SocketAddr) :
    (m.recordFailure now addr).Partition moving :=
  h.modify (f := AddrInfo.failed now) (fun _ => rfl) (fun _ => rfl) (fun _ => rfl) addr

/-- The first address of a bucket of the new table leaves the table. -/
lemma Partition.evictNew (h : m.Partition moving) (bucket : Fin 1024) :
    (m.evictNew bucket).Partition moving := by
  unfold AddrMan.evictNew
  split_ifs
  · split
    · exact h
    · rename_i victim rest hbucket
      have hnodup := h.nodup_new bucket
      rw [hbucket] at hnodup
      obtain ⟨hvictim, hrest⟩ := List.nodup_cons.mp hnodup
      obtain ⟨info, hinfo, htried, hsource⟩ := (h.mem_new bucket victim).mp (by simp [hbucket])
      have herase : ∀ a, a ≠ victim → (m.mapInfo.erase victim).lookup a = m.mapInfo.lookup a :=
        fun a ha => AList.lookup_erase_ne ha
      refine ⟨?_, ?_, h.nodup_tried, ?_, ?_⟩
      · intro a info' hinfo'
        by_cases ha : a = victim
        · subst ha
          simp at hinfo'
        · rw [herase a ha] at hinfo'
          exact h.addr_eq a info' hinfo'
      · intro b
        by_cases hb : b = bucket
        · subst hb
          simpa using hrest
        · simpa [Function.update_of_ne hb] using h.nodup_new b
      · intro b a
        dsimp only
        by_cases ha : a = victim
        · subst ha
          -- the victim is in no other bucket
          by_cases hb : b = bucket
          · subst hb
            simp [hvictim]
          · rw [Function.update_of_ne hb, h.mem_new]
            simp [hinfo, hsource, Ne.symm hb]
        · rw [herase a ha, ← h.mem_new]
          by_cases hb : b = bucket
          · subst hb
            simp [hbucket, ha]
          · rw [Function.update_of_ne hb]
      · intro b a
        by_cases ha : a = victim
        · subst ha
          rw [h.mem_tried]
          simp [hinfo, htried]
        · rw [herase a ha]
          exact h.mem_tried b a
  · exact h

omit [BucketHash] in
lemma lookup_evictNew_eq_none {addr : SocketAddr} (h : m.mapInfo.lookup addr = none)
    (bucket : Fin 1024) : (m.evictNew bucket).mapInfo.lookup addr = none := by
  unfold AddrMan.evictNew
  split_ifs
  · split
    · exact h
    · rename_i victim rest _
      by_cases hv : addr = victim
      · subst hv
        simp
      · rw [AList.lookup_erase_ne hv]
        exact h
  · exact h

/-- A new address gets an entry and a place at the end of its bucket. -/
lemma Partition.place (h : m.Partition none) {addr : SocketAddr}
    (hnone : m.mapInfo.lookup addr = none) (source : SocketAddr) :
    Partition none { m with
      mapInfo := m.mapInfo.insert addr (AddrInfo.new addr source)
      newBuckets := Function.update m.newBuckets (getNewBucket addr source)
        (m.newBuckets (getNewBucket addr source) ++ [addr]) } := by
  have hinsert : ∀ a, a ≠ addr →
      (m.mapInfo.insert addr (AddrInfo.new addr source)).lookup a = m.mapInfo.lookup a :=
    fun a ha => AList.lookup_insert_ne ha
  have hnew : ∀ b, addr ∉ m.newBuckets b := by
    intro b hb
    obtain ⟨info, hinfo, -⟩ := (h.mem_new b addr).mp hb
    simp [hnone] at hinfo
  refine ⟨?_, ?_, h.nodup_tried, ?_, ?_⟩
  · intro a info hinfo
    by_cases ha : a = addr
    · subst ha
      rw [AList.lookup_insert, Option.some_inj] at hinfo
      rw [← hinfo]
      rfl
    · rw [hinsert a ha] at hinfo
      exact h.addr_eq a info hinfo
  · intro b
    by_cases hb : b = getNewBucket addr source
    · subst hb
      simpa [List.nodup_append] using ⟨h.nodup_new _, fun a ha heq => hnew _ (heq ▸ ha)⟩
    · simpa [Function.update_of_ne hb] using h.nodup_new b
  · intro b a
    dsimp only
    by_cases ha : a = addr
    · subst ha
      by_cases hb : b = getNewBucket a source
      · subst hb
        simp [AddrInfo.new]
      · rw [Function.update_of_ne hb]
        simp [AddrInfo.new, hnew, Ne.symm hb]
    · rw [hinsert a ha, ← h.mem_new]
      by_cases hb : b = getNewBucket addr source
      · subst hb
        simp [ha]
      · rw [Function.update_of_ne hb]
  · intro b a
    rw [h.mem_tried]
    by_cases ha : a = addr
    · subst ha
      simp [hnone, AddrInfo.new]
    · rw [hinsert a ha]

lemma Partition.add (h : m.Partition none) (addr source : SocketAddr) :
    (m.add addr source).Partition none := by
  unfold AddrMan.add
  split_ifs with hknown
  · exact h
  · exact (h.evictNew _).place (lookup_evictNew_eq_none (by simpa using hknown) _) source

lemma Partition.addMany (h : m.Partition none) (addrs : List SocketAddr) (source : SocketAddr) :
    (m.addMany addrs source).Partition none := by
  unfold AddrMan.addMany
  induction addrs generalizing m with
  | nil => exact h
  | cons addr addrs ih => exact ih (h.add addr source)

/-- An address of the new table is on its way. -/
lemma Partition.leaveNew (h : m.Partition none) {addr : SocketAddr} {info : AddrInfo}
    (hinfo : m.mapInfo.lookup addr = some info) (htried : info.isTried = false) :
    (m.leaveNew addr info.source).Partition (some addr) := by
  have hlookup : ∀ a, (m.leaveNew addr info.source).mapInfo.lookup a =
      if a = addr then some { info with isTried := true } else m.mapInfo.lookup a := by
    intro a
    rw [AddrMan.leaveNew, HashMap.lookup_modify]
    split_ifs with ha
    · subst ha
      simp [hinfo]
    · rfl
  refine ⟨?_, ?_, h.nodup_tried, ?_, ?_⟩
  · intro a info' hinfo'
    rw [hlookup] at hinfo'
    split_ifs at hinfo' with ha
    · obtain rfl := Option.some.inj hinfo'
      subst ha
      exact h.addr_eq a info hinfo
    · exact h.addr_eq a info' hinfo'
  · intro b
    by_cases hb : b = getNewBucket addr info.source
    · subst hb
      simpa [AddrMan.leaveNew] using (h.nodup_new _).filter _
    · simpa [AddrMan.leaveNew, Function.update_of_ne hb] using h.nodup_new b
  · intro b a
    rw [hlookup]
    by_cases hb : b = getNewBucket addr info.source
    · subst hb
      simp only [AddrMan.leaveNew, Function.update_self, List.mem_filter, h.mem_new]
      by_cases ha : a = addr <;> simp [ha]
    · simp only [AddrMan.leaveNew, Function.update_of_ne hb, h.mem_new]
      by_cases ha : a = addr
      · subst ha
        simp [hinfo, Ne.symm hb]
      · simp [ha]
  · intro b a
    rw [hlookup]
    have hmem := h.mem_tried b a
    by_cases ha : a = addr
    · subst ha
      simp only [hinfo, Option.some.injEq, exists_eq_left'] at hmem
      simp [AddrMan.leaveNew, hmem, htried]
    · simp [AddrMan.leaveNew, hmem, ha, Ne.symm ha]

/-- The first address of a bucket of the tried table goes back to the new table. -/
lemma Partition.evictTried (h : m.Partition moving) (bucket : Fin 256) :
    (m.evictTried bucket).Partition moving := by
  unfold AddrMan.evictTried
  split_ifs
  · split
    · exact h
    · rename_i victim rest hbucket
      have hnodup := h.nodup_tried bucket
      rw [hbucket] at hnodup
      obtain ⟨hvictim, hrest⟩ := List.nodup_cons.mp hnodup
      obtain ⟨hmoving, info, hinfo, htried, hhash⟩ :=
        (h.mem_tried bucket victim).mp (by simp [hbucket])
      have hnew : ∀ b, victim ∉ m.newBuckets b := by
        intro b hb
        obtain ⟨info', hinfo', htried', -⟩ := (h.mem_new b victim).mp hb
        rw [hinfo, Option.some_inj] at hinfo'
        simp [← hinfo', htried] at htried'
      have hlookup : ∀ a,
          (m.mapInfo.modify victim fun info => { info with isTried := false }).lookup a =
            if a = victim then some { info with isTried := false } else m.mapInfo.lookup a := by
        intro a
        rw [HashMap.lookup_modify]
        split_ifs with ha
        · subst ha
          simp [hinfo]
        · rfl
      simp only [hinfo]
      refine ⟨?_, ?_, ?_, ?_, ?_⟩
      · intro a info' hinfo'
        rw [hlookup] at hinfo'
        split_ifs at hinfo' with ha
        · obtain rfl := Option.some.inj hinfo'
          subst ha
          exact h.addr_eq a info hinfo
        · exact h.addr_eq a info' hinfo'
      · intro b
        by_cases hb : b = getNewBucket victim info.source
        · subst hb
          simpa [List.nodup_append] using ⟨h.nodup_new _, fun a ha heq => hnew _ (heq ▸ ha)⟩
        · simpa [Function.update_of_ne hb] using h.nodup_new b
      · intro b
        by_cases hb : b = bucket
        · subst hb
          simpa using hrest
        · simpa [Function.update_of_ne hb] using h.nodup_tried b
      · intro b a
        rw [hlookup]
        by_cases ha : a = victim
        · subst ha
          by_cases hb : b = getNewBucket a info.source
          · subst hb
            simp
          · simp [Function.update_of_ne hb, hnew, Ne.symm hb]
        · by_cases hb : b = getNewBucket victim info.source
          · subst hb
            simp [ha, h.mem_new]
          · simp [Function.update_of_ne hb, ha, h.mem_new]
      · intro b a
        rw [hlookup]
        by_cases ha : a = victim
        · subst ha
          by_cases hb : b = bucket
          · subst hb
            simp [hvictim]
          · simp [Function.update_of_ne hb, h.mem_tried, hinfo, hhash, Ne.symm hb]
        · have hmem := h.mem_tried b a
          by_cases hb : b = bucket
          · subst hb
            simpa [ha, hbucket] using hmem
          · simpa [Function.update_of_ne hb, ha] using hmem
  · exact h

/-- An eviction from the tried table leaves the other entries alone. -/
lemma lookup_evictTried_of_ne {addr : SocketAddr} {bucket : Fin 256}
    (h : addr ∉ m.triedBuckets bucket) :
    (m.evictTried bucket).mapInfo.lookup addr = m.mapInfo.lookup addr := by
  unfold AddrMan.evictTried
  split_ifs
  · split
    · rfl
    · rename_i victim rest hbucket
      have hne : addr ≠ victim := by
        rintro rfl
        simp [hbucket] at h
      dsimp only
      split
      · rfl
      · simp [HashMap.lookup_modify, hne]
  · rfl

/-- The address on its way arrives at the end of its bucket of the tried table. -/
lemma Partition.arrive {addr : SocketAddr} (h : m.Partition (some addr)) {info : AddrInfo}
    (hinfo : m.mapInfo.lookup addr = some info) (htried : info.isTried = true) :
    Partition none { m with
      triedBuckets := Function.update m.triedBuckets (getTriedBucket addr)
        (m.triedBuckets (getTriedBucket addr) ++ [addr]) } := by
  have hnot : ∀ b, addr ∉ m.triedBuckets b := by
    intro b hb
    exact ((h.mem_tried b addr).mp hb).1 rfl
  refine ⟨h.addr_eq, h.nodup_new, ?_, h.mem_new, ?_⟩
  · intro b
    by_cases hb : b = getTriedBucket addr
    · subst hb
      simpa [List.nodup_append] using ⟨h.nodup_tried _, fun a ha heq => hnot _ (heq ▸ ha)⟩
    · simpa [Function.update_of_ne hb] using h.nodup_tried b
  · intro b a
    have hmem := h.mem_tried b a
    by_cases ha : a = addr
    · subst ha
      by_cases hb : b = getTriedBucket a
      · subst hb
        simp [hinfo, htried]
      · simp [Function.update_of_ne hb, hnot, Ne.symm hb]
    · have hsome : some addr ≠ some a := fun heq => ha (Option.some.inj heq).symm
      by_cases hb : b = getTriedBucket addr
      · subst hb
        simpa [ha, hsome] using hmem
      · simpa [Function.update_of_ne hb, hsome] using hmem

lemma Partition.good (h : m.Partition none) (addr : SocketAddr) : (m.good addr).Partition none := by
  unfold AddrMan.good
  split
  · exact h
  · rename_i info hinfo
    split_ifs with htried
    · exact h
    · have hleave := h.leaveNew hinfo (by simpa using htried)
      have hnot : addr ∉ (m.leaveNew addr info.source).triedBuckets (getTriedBucket addr) := by
        intro hmem
        exact ((hleave.mem_tried _ addr).mp hmem).1 rfl
      have hlookup : ((m.leaveNew addr info.source).evictTried (getTriedBucket addr)).mapInfo.lookup
          addr = some { info with isTried := true } := by
        rw [lookup_evictTried_of_ne hnot, AddrMan.leaveNew, HashMap.lookup_modify]
        simp [hinfo]
      exact (hleave.evictTried _).arrive hlookup rfl

lemma Partition.recordSuccess (h : m.Partition none) (now : Instant) (addr : SocketAddr) :
    (m.recordSuccess now addr).Partition none :=
  (h.modify (f := AddrInfo.succeeded now) (fun _ => rfl) (fun _ => rfl) (fun _ => rfl) addr).good
    addr

/-- The calls that change an `AddrMan`. -/
inductive Call where
  | add (addr source : SocketAddr)
  | addMany (addrs : List SocketAddr) (source : SocketAddr)
  | good (addr : SocketAddr)
  | recordSuccess (now : Instant) (addr : SocketAddr)
  | recordFailure (now : Instant) (addr : SocketAddr)

/-- A call. -/
def apply (m : AddrMan) : Call → AddrMan
  | .add addr source => m.add addr source
  | .addMany addrs source => m.addMany addrs source
  | .good addr => m.good addr
  | .recordSuccess now addr => m.recordSuccess now addr
  | .recordFailure now addr => m.recordFailure now addr

lemma Partition.apply (h : m.Partition none) (call : Call) : (m.apply call).Partition none := by
  cases call with
  | add addr source => exact h.add addr source
  | addMany addrs source => exact h.addMany addrs source
  | good addr => exact h.good addr
  | recordSuccess now addr => exact h.recordSuccess now addr
  | recordFailure now addr => exact h.recordFailure now addr

/-- Every sequence of calls keeps the partition. -/
lemma Partition.foldl_apply (h : m.Partition none) (calls : List Call) :
    (calls.foldl AddrMan.apply m).Partition none := by
  induction calls generalizing m with
  | nil => exact h
  | cons call calls ih => exact ih (h.apply call)

/-- How often an address occurs over all buckets. -/
def occurrences (m : AddrMan) (a : SocketAddr) : Nat :=
  (∑ b, (m.newBuckets b).count a) + ∑ b, (m.triedBuckets b).count a

omit [BucketHash] in
/-- An address that is in one place of a table only. -/
lemma sum_count_eq {n : Nat} {buckets : Fin n → List SocketAddr} {a : SocketAddr} {b : Fin n}
    (hnodup : ∀ b, (buckets b).Nodup) (hmem : ∀ b', a ∈ buckets b' ↔ b' = b) :
    ∑ b', (buckets b').count a = 1 := by
  rw [Finset.sum_eq_single b]
  · exact List.count_eq_one_of_mem (hnodup b) ((hmem b).mpr rfl)
  · intro b' _ hb'
    exact List.count_eq_zero_of_not_mem (mt (hmem b').mp hb')
  · simp

omit [BucketHash] in
lemma sum_count_eq_zero {n : Nat} {buckets : Fin n → List SocketAddr} {a : SocketAddr}
    (hmem : ∀ b, a ∉ buckets b) : ∑ b, (buckets b).count a = 0 :=
  Finset.sum_eq_zero fun b _ => List.count_eq_zero_of_not_mem (hmem b)

lemma Partition.occurrences_eq (h : m.Partition none) {a : SocketAddr} {info : AddrInfo}
    (hinfo : m.mapInfo.lookup a = some info) : m.occurrences a = 1 := by
  have hnew := fun b => h.mem_new b a
  have htried := fun b => h.mem_tried b a
  simp only [hinfo, Option.some.injEq, exists_eq_left', ne_eq, reduceCtorEq, not_false_eq_true,
    true_and] at hnew htried
  unfold occurrences
  cases hflag : info.isTried with
  | false =>
    rw [sum_count_eq (b := getNewBucket a info.source) h.nodup_new,
      sum_count_eq_zero fun b => by simp [htried, hflag]]
    intro b
    simp [hnew, hflag, eq_comm]
  | true =>
    rw [sum_count_eq_zero fun b => by simp [hnew, hflag],
      sum_count_eq (b := getTriedBucket a) h.nodup_tried]
    intro b
    simp [htried, hflag, eq_comm]

/-- Whatever the calls were, the buckets partition the known addresses: each is in one place, the
one that its entry says, and no other address is in a bucket. -/
theorem partition_of_calls (calls : List Call) :
    let m := calls.foldl apply new
    (∀ a info, m.mapInfo.lookup a = some info → m.occurrences a = 1 ∧
      if info.isTried then a ∈ m.triedBuckets (getTriedBucket a)
      else a ∈ m.newBuckets (getNewBucket a info.source)) ∧
    (∀ b, ∀ a ∈ m.newBuckets b, a ∈ m.mapInfo.keys) ∧
    ∀ b, ∀ a ∈ m.triedBuckets b, a ∈ m.mapInfo.keys := by
  intro m
  have h : m.Partition none := partition_new.foldl_apply calls
  refine ⟨?_, ?_, ?_⟩
  · intro a info hinfo
    refine ⟨h.occurrences_eq hinfo, ?_⟩
    split_ifs with htried
    · exact (h.mem_tried _ a).mpr ⟨by simp, info, hinfo, htried, rfl⟩
    · exact (h.mem_new _ a).mpr ⟨info, hinfo, by simpa using htried, rfl⟩
  · intro b a ha
    obtain ⟨info, hinfo, -⟩ := (h.mem_new b a).mp ha
    exact AList.lookup_isSome.mp (by simp [hinfo])
  · intro b a ha
    obtain ⟨-, info, hinfo, -⟩ := (h.mem_tried b a).mp ha
    exact AList.lookup_isSome.mp (by simp [hinfo])

end

end AddrMan

end Bitcrab
