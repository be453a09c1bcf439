import Bitcrab.Net.Registry

/-!
# Connections of a type

The load of a type counts its entries in the peer table and its attempts that are not there yet. A
loop that reads the number of entries first and the number of pending attempts later has counted at
least the load, unless a connection that was registered in between has finished as well.
-/

namespace Bitcrab

namespace Network

variable {attempts attempts' : List Attempt} {peers peers' : HashMap SocketAddr NodeHandle}

/-- The attempts of a type that are not in the peer table yet. -/
def unregisteredCount (attempts : List Attempt) (t : ConnectionType) : Nat :=
  attempts.countP fun a => decide (a.connType = t) && a.isUnregistered

/-- The attempts of a type that are pending. -/
def openCount (attempts : List Attempt) (t : ConnectionType) : Nat :=
  attempts.countP fun a => decide (a.connType = t) && a.isOpen

/-- The registered connections of a type, and the attempts that may become so. -/
def load (attempts : List Attempt) (peers : HashMap SocketAddr NodeHandle) (t : ConnectionType) :
    Nat :=
  countType peers t + unregisteredCount attempts t

/-! ### Quiet steps -/

lemma countType_erase_le (peers : HashMap SocketAddr NodeHandle) (addr : SocketAddr)
    (t : ConnectionType) : countType (peers.erase addr) t ≤ countType peers t :=
  HashMap.assigned_erase_le NodeHandle.connType peers addr t

lemma countType_insert_le (peers : HashMap SocketAddr NodeHandle) (addr : SocketAddr)
    (handle : NodeHandle) (t : ConnectionType) :
    countType (peers.insert addr handle) t ≤
      countType peers t + if handle.connType = t then 1 else 0 :=
  HashMap.assigned_insert_le NodeHandle.connType peers addr handle t

lemma load_append (a : Attempt) (hnew : a.isUnregistered = true) (t : ConnectionType) :
    load (attempts ++ [a]) peers t = load attempts peers t + if a.connType = t then 1 else 0 := by
  simp only [load, unregisteredCount, List.countP_append, List.countP_singleton, hnew,
    Bool.and_true,
    decide_eq_true_eq]
  omega

lemma openCount_append (a : Attempt) (hopen : a.isOpen = true) (t : ConnectionType) :
    openCount (attempts ++ [a]) t = openCount attempts t + if a.connType = t then 1 else 0 := by
  simp only [openCount, List.countP_append, List.countP_singleton, hopen, Bool.and_true,
    decide_eq_true_eq]

/-- A quiet step does not raise the load of a type. -/
lemma Quiet.load_le (h : Quiet attempts peers attempts' peers') (t : ConnectionType) :
    load attempts' peers' t ≤ load attempts peers t := by
  cases h with
  | same => exact le_refl _
  | moved ha hmoves =>
    refine Nat.add_le_add_left (List.countP_set_le ha ?_) _
    simp only [Bool.and_eq_true, decide_eq_true_eq, hmoves.connType_eq]
    exact And.imp_right hmoves.of_isUnregistered
  | added ha hphase =>
    rename_i c a
    -- the attempt is counted as an entry instead
    have hentry : countType (peers.insert a.addr ⟨c, a.addr, a.connType⟩) t ≤
        countType peers t + if a.connType = t then 1 else 0 :=
      countType_insert_le peers a.addr ⟨c, a.addr, a.connType⟩ t
    have hbefore : a.isUnregistered = true := by simp [Attempt.isUnregistered, hphase]
    have hafter : Attempt.isUnregistered { a with phase := .added } = false := rfl
    have hattempt : unregisteredCount (attempts.set c { a with phase := .added }) t +
        (if a.connType = t then 1 else 0) = unregisteredCount attempts t := by
      have hcount := List.countP_set_add (p := fun a => decide (a.connType = t) && a.isUnregistered)
        ha { a with phase := .added }
      simp only [hbefore, hafter, Bool.and_true, Bool.and_false, Bool.false_eq_true, if_false,
        decide_eq_true_eq, add_zero] at hcount
      exact hcount
    simp only [load]
    omega
  | removed addr => exact Nat.add_le_add_right (countType_erase_le peers addr t) _
  | unlisted ha =>
    refine Nat.add_le_add (countType_erase_le peers _ t) (List.countP_set_le ha ?_)
    exact fun hcount => hcount
  | cleared => exact Nat.add_le_add_right (Nat.zero_le _) _

/-- A quiet step does not change what is pending. -/
lemma Quiet.openCount_eq (h : Quiet attempts peers attempts' peers') (t : ConnectionType) :
    openCount attempts' t = openCount attempts t := by
  cases h with
  | same => rfl
  | moved ha hmoves =>
    exact List.countP_set_of_eq ha (by rw [hmoves.connType_eq, hmoves.isOpen_eq])
  | added ha hphase =>
    exact List.countP_set_of_eq ha (by simp [Attempt.isOpen, hphase])
  | removed addr => rfl
  | unlisted ha => exact List.countP_set_of_eq ha rfl
  | cleared => rfl

/-! ### The end of an attempt -/

lemma load_finish_le {c : ConnId} {a : Attempt} {ok : Bool} {time : Instant}
    (ha : attempts[c]? = some a) (t : ConnectionType) :
    load (attempts.set c { a with phase := .done ok time }) peers t ≤ load attempts peers t := by
  refine Nat.add_le_add_left (List.countP_set_le ha ?_) _
  simp [Attempt.isUnregistered]

lemma openCount_finish {c : ConnId} {a : Attempt} {ok : Bool} {time : Instant}
    (ha : attempts[c]? = some a) (hphase : a.phase = .returned ok time) (t : ConnectionType) :
    openCount (attempts.set c { a with phase := .done ok time }) t +
      (if a.connType = t then 1 else 0) = openCount attempts t := by
  have hbefore : a.isOpen = true := by simp [Attempt.isOpen, hphase]
  have hafter : Attempt.isOpen { a with phase := .done ok time } = false := rfl
  have hcount := List.countP_set_add (p := fun a => decide (a.connType = t) && a.isOpen) ha
    { a with phase := .done ok time }
  simp only [hbefore, hafter, Bool.and_true, Bool.and_false, Bool.false_eq_true, if_false,
    decide_eq_true_eq, add_zero] at hcount
  exact hcount

/-! ### Counts that are still good -/

/-- Every entry of a type was counted, or belongs to an attempt that is pending. -/
def Fresh (t : ConnectionType) (counted : HashMap SocketAddr NodeHandle) (attempts : List Attempt)
    (peers : HashMap SocketAddr NodeHandle) : Prop :=
  ∀ addr handle, peers.lookup addr = some handle → handle.connType = t →
    counted.lookup addr = some handle ∨ ∃ a, attempts[handle.id]? = some a ∧ a.isOpen = true

namespace Fresh

variable {t : ConnectionType} {counted : HashMap SocketAddr NodeHandle} {c : ConnId}
    {a a' : Attempt}

lemma refl (t : ConnectionType) (attempts : List Attempt) (peers : HashMap SocketAddr NodeHandle) :
    Fresh t peers attempts peers :=
  fun _ _ hlookup _ => .inl hlookup

lemma append (h : Fresh t counted attempts peers) (a : Attempt) :
    Fresh t counted (attempts ++ [a]) peers := by
  intro addr handle hlookup htype
  rcases h addr handle hlookup htype with hcounted | ⟨b, hb, hopen⟩
  · exact .inl hcounted
  · refine .inr ⟨b, ?_, hopen⟩
    rw [List.getElem?_append_left (List.getElem?_eq_some_iff.mp hb).1]
    exact hb

lemma erase (h : Fresh t counted attempts peers) (addr : SocketAddr) :
    Fresh t counted attempts (peers.erase addr) := by
  intro addr' handle hlookup htype
  by_cases haddr : addr' = addr
  · subst haddr
    simp at hlookup
  · rw [AList.lookup_erase_ne haddr] at hlookup
    exact h addr' handle hlookup htype

/-- An attempt changes; if it is not pending any more, its entries have been counted. -/
lemma set (h : Fresh t counted attempts peers) (ha : attempts[c]? = some a)
    (hcounted : (a.isOpen = true → a'.isOpen = true) ∨ ∀ addr handle,
      peers.lookup addr = some handle → handle.connType = t → handle.id = c →
        counted.lookup addr = some handle) :
    Fresh t counted (attempts.set c a') peers := by
  intro addr handle hlookup htype
  rcases h addr handle hlookup htype with hold | ⟨b, hb, hopen⟩
  · exact .inl hold
  · by_cases hid : handle.id = c
    · rcases hcounted with hopen' | hcounted
      · rw [hid, ha, Option.some_inj] at hb
        subst hb
        exact .inr ⟨a', by rw [hid]; exact getElem?_set_self' ha, hopen' hopen⟩
      · exact .inl (hcounted addr handle hlookup htype hid)
    · refine .inr ⟨b, ?_, hopen⟩
      rw [List.getElem?_set_ne (Ne.symm hid)]
      exact hb

lemma quiet (h : Fresh t counted attempts peers) (hq : Quiet attempts peers attempts' peers') :
    Fresh t counted attempts' peers' := by
  cases hq with
  | same => exact h
  | moved ha hmoves => exact h.set ha (.inl fun hopen => by rw [hmoves.isOpen_eq, hopen])
  | added ha hphase =>
    rename_i c a
    intro addr handle hlookup htype
    by_cases haddr : addr = a.addr
    · subst haddr
      rw [AList.lookup_insert, Option.some_inj] at hlookup
      subst hlookup
      exact .inr ⟨_, getElem?_set_self' ha, rfl⟩
    · rw [AList.lookup_insert_ne haddr] at hlookup
      exact h.set ha (.inl fun _ => rfl) addr handle hlookup htype
  | removed addr => exact h.erase addr
  | unlisted ha => exact (h.erase _).set ha (.inl id)
  | cleared =>
    intro addr handle hlookup
    simp at hlookup

end Fresh

/-- An attempt that is not registered is pending. -/
lemma isOpen_of_isUnregistered {a : Attempt} (h : a.isUnregistered = true) : a.isOpen = true := by
  unfold Attempt.isUnregistered at h
  unfold Attempt.isOpen
  split at h <;> simp_all

/-- What was counted, with what is pending now, is at least the load. -/
lemma load_le_of_fresh {t : ConnectionType} {counted : HashMap SocketAddr NodeHandle}
    (hreg : Registry attempts peers) (hfresh : Fresh t counted attempts peers) :
    load attempts peers t ≤ countType counted t + openCount attempts t := by
  -- the entries of pending attempts are as many as these attempts, the other ones were counted
  let ownerOpen : (Sigma fun _ : SocketAddr => NodeHandle) → Bool := fun e =>
    (attempts[e.2.id]?).any Attempt.isOpen
  have hnodup : peers.entries.Nodup := peers.nodupKeys.nodup
  have hlookup : ∀ e ∈ peers.entries, peers.lookup e.1 = some e.2 := fun e he =>
    AList.mem_lookup_iff.mpr he
  have hopen : peers.entries.countP (fun e => decide (e.2.connType = t) && ownerOpen e) ≤
      attempts.countP fun a => (decide (a.connType = t) && a.isOpen) && !a.isUnregistered := by
    rw [← List.countP_zipIdx attempts]
    refine List.countP_le_countP_of_rel hnodup (fun e x => x.2 = e.2.id) ?_ ?_
    · intro e he hp
      obtain ⟨a, ha, -, htype, hreg'⟩ := hreg e.1 e.2 (hlookup e he)
      simp only [ownerOpen, ha, Option.any_some, Bool.and_eq_true, decide_eq_true_eq] at hp
      refine ⟨(a, e.2.id), List.mem_zipIdx_iff_getElem?.mpr ha, ?_, rfl⟩
      simp [htype, hp.1, hp.2, hreg']
    · intro e he e' he' x _ _ hx hx'
      obtain ⟨a, ha, haddr, -⟩ := hreg e.1 e.2 (hlookup e he)
      obtain ⟨a', ha', haddr', -⟩ := hreg e'.1 e'.2 (hlookup e' he')
      rw [← hx, hx', ha', Option.some_inj] at ha
      subst ha
      exact List.NodupKeys.eq_of_fst_eq peers.nodupKeys he he' (haddr.symm.trans haddr')
  have hcounted : peers.entries.countP (fun e => decide (e.2.connType = t) && !ownerOpen e) ≤
      countType counted t := by
    refine List.countP_le_countP_of_rel hnodup (fun e e' => e = e') ?_ ?_
    · intro e he hp
      simp only [ownerOpen, Bool.and_eq_true, decide_eq_true_eq, Bool.not_eq_true'] at hp
      rcases hfresh e.1 e.2 (hlookup e he) hp.1 with hold | ⟨a, ha, hopen⟩
      · exact ⟨e, AList.mem_lookup_iff.mp hold, by simp [hp.1], rfl⟩
      · simp [ha, hopen] at hp
    · rintro e he e' he' _ - - rfl rfl
      rfl
  have hentries := List.countP_and_add_countP_not peers.entries
    (fun e => decide (e.2.connType = t)) ownerOpen
  have hattempts := List.countP_and_add_countP_not attempts
    (fun a => decide (a.connType = t) && a.isOpen) Attempt.isUnregistered
  have hunregistered : attempts.countP
      (fun a => (decide (a.connType = t) && a.isOpen) && a.isUnregistered) =
      unregisteredCount attempts t := by
    refine List.countP_congr fun a _ => ?_
    cases hun : a.isUnregistered with
    | false => simp
    | true => simp [isOpen_of_isUnregistered hun]
  simp only [load, countType, openCount] at *
  omega

end Network

end Bitcrab
