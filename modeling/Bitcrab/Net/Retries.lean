import Bitcrab.Net.Registry

/-!
# Retries

`get_best_address` leaves out the addresses whose entry in the address manager of the peer table was
attempted within `RETRY_INTERVAL`. `connect_addr` records the end of an attempt in the address
manager of `Connman`, which is another one, and on some paths nowhere.
-/

namespace Bitcrab

/-! ### What is chosen -/

namespace AddrInfo

/-- The entry is not connectable from `now` until a later time. -/
def HeldBack (now later : Instant) (info : AddrInfo) : Prop :=
  ∀ t, now ≤ t → t < later → info.isConnectable t = false

lemma HeldBack.mono {now now' later : Instant} {info : AddrInfo} (h : info.HeldBack now later)
    (hle : now ≤ now') : info.HeldBack now' later :=
  fun t ht hlater => h t (le_trans hle ht) hlater

/-- An attempt now holds the entry back for the retry interval. -/
lemma heldBack_of_lastAttempt {now later : Instant} {info : AddrInfo}
    (h : info.lastAttempt = some now) (hlater : later ≤ now + retryInterval) :
    info.HeldBack now later := by
  intro t _ ht
  have hrecent : t - now < retryInterval :=
    Nat.sub_lt_left_of_lt_add ‹now ≤ t› (lt_of_lt_of_le ht hlater)
  simp [isConnectable, isTooRecent, within, h, hrecent]

end AddrInfo

namespace AddrMan

variable {m : AddrMan}

lemma maxByKey_mem {infos : List AddrInfo} {info : AddrInfo} (h : maxByKey infos = some info) :
    info ∈ infos := by
  induction infos with
  | nil => simp [maxByKey] at h
  | cons first infos ih =>
    simp only [maxByKey] at h
    split at h
    · obtain rfl := Option.some.inj h
      exact List.mem_cons_self
    · rename_i best hbest
      split_ifs at h
      · obtain rfl := Option.some.inj h
        exact List.mem_cons_self
      · obtain rfl := Option.some.inj h
        exact List.mem_cons_of_mem _ (ih hbest)

lemma selectWith_eq_some {order : List SocketAddr} {p : AddrInfo → Bool} {addr : SocketAddr}
    (h : m.selectWith order p = some addr) :
    ∃ key info, m.mapInfo.lookup key = some info ∧ info.addr = addr ∧ p info = true := by
  obtain ⟨info, hbest, haddr⟩ := Option.map_eq_some_iff.mp h
  have hmem := maxByKey_mem hbest
  simp only [List.mem_filter, List.mem_map] at hmem
  obtain ⟨⟨⟨key, info'⟩, hiter, rfl⟩, hp⟩ := hmem
  exact ⟨key, info', HashMap.mem_iter.mp hiter, haddr, hp⟩

/-- `get_best_address` answers with a connectable address that is not excluded. -/
lemma select_eq_some {now : Instant} {order exclude : List SocketAddr} {addr : SocketAddr}
    (h : m.select now order exclude = some addr) :
    ∃ key info, m.mapInfo.lookup key = some info ∧ info.addr = addr ∧
      info.isConnectable now = true ∧ addr ∉ exclude := by
  rcases Option.or_eq_some_iff.mp h with hipv4 | ⟨-, hany⟩
  · obtain ⟨key, info, hinfo, rfl, hp⟩ := selectWith_eq_some hipv4
    simp only [Bool.and_eq_true, Bool.not_eq_true', decide_eq_false_iff_not] at hp
    exact ⟨key, info, hinfo, rfl, hp.1.1, hp.2⟩
  · obtain ⟨key, info, hinfo, rfl, hp⟩ := selectWith_eq_some hany
    simp only [Bool.and_eq_true, Bool.not_eq_true', decide_eq_false_iff_not] at hp
    exact ⟨key, info, hinfo, rfl, hp.1, hp.2⟩

section

variable [BucketHash] {addr : SocketAddr} {info : AddrInfo}

omit [BucketHash] in
lemma lookup_of_evictNew {bucket : Fin 1024}
    (h : (m.evictNew bucket).mapInfo.lookup addr = some info) :
    m.mapInfo.lookup addr = some info := by
  cases hold : m.mapInfo.lookup addr with
  | none => simp [lookup_evictNew_eq_none hold] at h
  | some old =>
    unfold evictNew at h
    split_ifs at h
    · split at h
      · rwa [hold] at h
      · rename_i victim rest _
        by_cases hv : addr = victim
        · subst hv
          simp at h
        · rw [AList.lookup_erase_ne hv, hold] at h
          exact h
    · rwa [hold] at h

/-- Adding an address leaves the entry of another one as it is, or evicts it. -/
lemma lookup_of_add {new source : SocketAddr} (hne : addr ≠ new)
    (h : (m.add new source).mapInfo.lookup addr = some info) :
    m.mapInfo.lookup addr = some info := by
  unfold add at h
  split_ifs at h
  · exact h
  · rw [AList.lookup_insert_ne hne] at h
    exact lookup_of_evictNew h

/-- The entries of addresses that are known when they are added are old ones. -/
lemma lookup_of_addAddresses {addresses : List NetAddr} {source : SocketAddr}
    (hknown : ∀ before new after, addresses = before ++ new :: after → new.toSocketAddr = addr →
      ((m.addAddresses before source).mapInfo.lookup addr).isSome = true)
    (h : (m.addAddresses addresses source).mapInfo.lookup addr = some info) :
    m.mapInfo.lookup addr = some info := by
  induction addresses generalizing m with
  | nil => exact h
  | cons new addresses ih =>
    have hrest : (m.add new.toSocketAddr source).mapInfo.lookup addr = some info := by
      refine ih (fun before new' after heq hnew => ?_) h
      exact hknown (new :: before) new' after (by rw [heq, List.cons_append]) hnew
    by_cases hne : addr = new.toSocketAddr
    · subst hne
      have hold : (m.mapInfo.lookup new.toSocketAddr).isSome = true :=
        hknown [] new addresses rfl rfl
      rwa [add, if_pos hold] at hrest
    · exact lookup_of_add hne hrest

end

end AddrMan

/-! ### Attempts that failed -/

/-- The address that a loop has chosen. -/
def LoopPhase.chosenAddr : LoopPhase → Option SocketAddr
  | .chosen _ _ _ addr => some addr
  | _ => none

/-- When the attempt ended with an error. -/
def Attempt.failedAt (a : Attempt) : Option Instant :=
  match a.phase with
  | .returned false time => some time
  | .done false time => some time
  | _ => none

namespace Network

/-- A step ends an attempt with an error: the address is banned by `Connman`, no connection is made,
or the handshake fails. -/
def FailsBy (s : Network) (a : Attempt) : AttemptEvent → Prop
  | .dial => a.phase = .spawned ∧ s.connman.isBanned s.now a.addr.ip = true
  | .unreachable => a.phase = .connecting
  | .failHandshake => a.phase = .handshaking
  | _ => False

/-- An address that an attempt of the initiator has failed with, less than the retry
interval ago. -/
def RecentlyFailed (s : Network) (addr : SocketAddr) : Prop :=
  ∃ (c : ConnId) (a : Attempt) (time : Instant), s.attempts[c]? = some a ∧ a.connType ≠ .inbound ∧
    a.chosen = addr ∧ a.failedAt = some time ∧ s.now < time + AddrInfo.retryInterval

/-- `get_best_address` does not answer with an address that has failed recently. -/
def NoEarlyRetry [BucketHash] (s : Network) : Prop :=
  ∀ (l : Loop) (order : List SocketAddr) (s' : Network) (addr : SocketAddr),
    s.step (.initiate l (.selectAddress order)) = some s' → (s'.loop l).chosenAddr = some addr →
      ¬s.RecentlyFailed addr

/-- The address manager that is asked knows of every failure: an address that an attempt fails with
has no entry or is held back for the retry interval, and one that has failed recently is not added
anew. -/
structure FailuresKnown [BucketHash] (s : Network) (e : NetEvent) : Prop where
  failed : ∀ (c : ConnId) (e' : AttemptEvent) (a : Attempt), e = .attempt c e' →
    s.attempts[c]? = some a → a.connType ≠ .inbound → s.FailsBy a e' →
      ∀ info, s.table.addrMan.mapInfo.lookup a.chosen = some info →
        info.HeldBack s.now (s.now + AddrInfo.retryInterval)
  added : ∀ addresses source, e = .addAddresses addresses source → ∀ before addr after,
    addresses = before ++ addr :: after → s.RecentlyFailed addr.toSocketAddr →
      ((s.table.addrMan.addAddresses before source).mapInfo.lookup addr.toSocketAddr).isSome = true

/-! ### What steps do to failures and entries -/

section

variable [BucketHash] {s s' : Network}

/-- A step of an attempt leaves its failure as it is, or ends it with an error now. -/
lemma failedAt_of_stepAttempt {c : ConnId} {a : Attempt} {e : AttemptEvent}
    (h : s.stepAttempt c a e = some s') :
    ∃ a', s'.attempts = s.attempts.set c a' ∧ a'.chosen = a.chosen ∧ a'.connType = a.connType ∧
      ∀ time, a'.failedAt = some time →
        a.failedAt = some time ∨ (time = s.now ∧ s.FailsBy a e) := by
  cases e with
  | dial =>
    simp only [stepAttempt] at h
    split_ifs at h with hphase hbanned
    · cases h
      refine ⟨_, rfl, rfl, rfl, fun time htime => .inr ⟨?_, hphase, hbanned⟩⟩
      exact (Option.some.inj htime).symm
    · cases h
      exact ⟨_, rfl, rfl, rfl, by simp [Attempt.failedAt]⟩
  | unreachable =>
    simp only [stepAttempt] at h
    split_ifs at h with hphase
    cases h
    refine ⟨_, rfl, rfl, rfl, fun time htime => .inr ⟨?_, hphase⟩⟩
    exact (Option.some.inj htime).symm
  | failHandshake =>
    simp only [stepAttempt] at h
    split_ifs at h with hphase
    cases h
    refine ⟨_, (handshakeFailed_attempts s c a).1, rfl, rfl, fun time htime => .inr ⟨?_, hphase⟩⟩
    exact (Option.some.inj htime).symm
  | returnOk =>
    simp only [stepAttempt] at h
    split_ifs at h
    cases h
    exact ⟨_, (handshakeReturned_attempts s c a).1, rfl, rfl, by simp [Attempt.failedAt]⟩
  | finish =>
    simp only [stepAttempt] at h
    split at h
    · rename_i ok time hphase
      cases h
      refine ⟨_, (finishAttempt_attempts s c a ok time).1, rfl, rfl, fun time' htime => .inl ?_⟩
      cases ok with
      | false => simpa [Attempt.failedAt, hphase] using htime
      | true => simp [Attempt.failedAt] at htime
    · cases h
  | connected | completeHandshake | addPeer | initializeNode =>
    simp only [stepAttempt] at h
    split_ifs at h
    cases h
    exact ⟨_, rfl, rfl, rfl, by simp [Attempt.failedAt]⟩
  | stopReading | finalizeManager | finalizeTable | finalizeSync =>
    simp only [stepAttempt] at h
    split_ifs at h
    cases h
    exact ⟨_, rfl, rfl, rfl, fun time htime => .inl htime⟩

lemma stepAttempt_addrMan {c : ConnId} {a : Attempt} {e : AttemptEvent}
    (h : s.stepAttempt c a e = some s') :
    s'.now = s.now ∧ s'.table.addrMan = s.table.addrMan := by
  cases e <;> simp only [stepAttempt, handshakeFailed, handshakeReturned, finishAttempt] at h <;>
    split at h <;> try split_ifs at h
  all_goals cases h <;> exact ⟨rfl, rfl⟩

end

/-- Every recent failure is known to the address manager, and no failure is in the future. -/
structure FailuresHeldIn [BucketHash] (now : Instant) (attempts : List Attempt) (m : AddrMan) :
    Prop where
  partition : m.Partition none
  past : ∀ (c : ConnId) (a : Attempt) (time : Instant), attempts[c]? = some a →
    a.failedAt = some time → time ≤ now
  held : ∀ (c : ConnId) (a : Attempt) (time : Instant) (info : AddrInfo), attempts[c]? = some a →
    a.connType ≠ .inbound → a.failedAt = some time → m.mapInfo.lookup a.chosen = some info →
      info.HeldBack now (time + AddrInfo.retryInterval)

namespace FailuresHeldIn

variable [BucketHash] {now : Instant} {attempts : List Attempt} {m : AddrMan}

lemma tick (h : FailuresHeldIn now attempts m) (nanos : Nat) :
    FailuresHeldIn (now + nanos) attempts m := by
  have hle : now ≤ now + nanos := Nat.le_add_right now nanos
  refine ⟨h.partition, fun c a time ha htime => le_trans (h.past c a time ha htime) hle, ?_⟩
  intro c a time info ha htype htime hinfo
  exact (h.held c a time info ha htype htime hinfo).mono hle

/-- An attempt begins. -/
lemma append (h : FailuresHeldIn now attempts m) {a : Attempt} (hnew : a.failedAt = none) :
    FailuresHeldIn now (attempts ++ [a]) m := by
  have hold : ∀ {c : ConnId} {b : Attempt} {time : Instant}, (attempts ++ [a])[c]? = some b →
      b.failedAt = some time → attempts[c]? = some b := by
    intro c b time hb htime
    rw [List.getElem?_append] at hb
    split_ifs at hb
    · exact hb
    · rw [List.getElem?_singleton] at hb
      split_ifs at hb
      rw [← Option.some.inj hb, hnew] at htime
      cases htime
  refine ⟨h.partition, fun c b time hb htime => h.past c b time (hold hb htime) htime, ?_⟩
  intro c b time info hb htype htime hinfo
  exact h.held c b time info (hold hb htime) htype htime hinfo

/-- An attempt goes on, or fails now with an address that is held back. -/
lemma set (h : FailuresHeldIn now attempts m) {c : ConnId} {a a' : Attempt}
    (ha : attempts[c]? = some a) (hchosen : a'.chosen = a.chosen) (htype : a'.connType = a.connType)
    (hfailed : ∀ time, a'.failedAt = some time → a.failedAt = some time ∨ (time = now ∧
      (a.connType ≠ .inbound → ∀ info, m.mapInfo.lookup a.chosen = some info →
        info.HeldBack now (now + AddrInfo.retryInterval)))) :
    FailuresHeldIn now (attempts.set c a') m := by
  refine ⟨h.partition, ?_, ?_⟩
  · intro d b time hb htime
    by_cases hd : c = d
    · subst hd
      rw [getElem?_set_self' ha, Option.some_inj] at hb
      subst hb
      rcases hfailed time htime with hold | ⟨rfl, -⟩
      · exact h.past c a time ha hold
      · exact le_refl _
    · rw [List.getElem?_set_ne hd] at hb
      exact h.past d b time hb htime
  · intro d b time info hb hb' htime hinfo
    by_cases hd : c = d
    · subst hd
      rw [getElem?_set_self' ha, Option.some_inj] at hb
      subst hb
      rw [htype] at hb'
      rw [hchosen] at hinfo
      rcases hfailed time htime with hold | ⟨rfl, hheld⟩
      · exact h.held c a time info ha hb' hold hinfo
      · exact hheld hb' info hinfo
    · rw [List.getElem?_set_ne hd] at hb
      exact h.held d b time info hb hb' htime hinfo

/-- `record_failure` holds an address back, and leaves the others alone. -/
lemma recordFailure (h : FailuresHeldIn now attempts m) (addr : SocketAddr) :
    FailuresHeldIn now attempts (m.recordFailure now addr) := by
  have hlookup : ∀ {key info}, (m.recordFailure now addr).mapInfo.lookup key = some info →
      ∃ old, m.mapInfo.lookup key = some old ∧
        (info = old ∨ info = AddrInfo.failed now old) := by
    intro key info hinfo
    rw [AddrMan.recordFailure, HashMap.lookup_modify] at hinfo
    split_ifs at hinfo
    · obtain ⟨old, hold, rfl⟩ := Option.map_eq_some_iff.mp hinfo
      exact ⟨old, hold, .inr rfl⟩
    · exact ⟨info, hinfo, .inl rfl⟩
  refine ⟨h.partition.recordFailure now addr, h.past, ?_⟩
  intro c a time info ha htype htime hinfo
  obtain ⟨old, hold, rfl | rfl⟩ := hlookup hinfo
  · exact h.held c a time _ ha htype htime hold
  · refine AddrInfo.heldBack_of_lastAttempt rfl ?_
    exact Nat.add_le_add_right (h.past c a time ha htime) _

/-- Addresses are added; those that have failed recently are known. -/
lemma addAddresses (h : FailuresHeldIn now attempts m) {addresses : List NetAddr}
    {source : SocketAddr} (hknown : ∀ before addr after, addresses = before ++ addr :: after →
      (∃ (c : ConnId) (a : Attempt) (time : Instant), attempts[c]? = some a ∧
        a.connType ≠ .inbound ∧ a.chosen = addr.toSocketAddr ∧ a.failedAt = some time ∧
        now < time + AddrInfo.retryInterval) →
      ((m.addAddresses before source).mapInfo.lookup addr.toSocketAddr).isSome = true) :
    FailuresHeldIn now attempts (m.addAddresses addresses source) := by
  refine ⟨h.partition.addAddresses addresses source, h.past, ?_⟩
  intro c a time info ha htype htime hinfo t ht hlater
  -- within the interval the failure is a recent one
  have hrecent : now < time + AddrInfo.retryInterval := lt_of_le_of_lt ht hlater
  have hold : m.mapInfo.lookup a.chosen = some info := by
    refine AddrMan.lookup_of_addAddresses (fun before new after heq hnew => ?_) hinfo
    rw [← hnew]
    exact hknown before new after heq ⟨c, a, time, ha, htype, hnew.symm, htime, hrecent⟩
  exact h.held c a time info ha htype htime hold t ht hlater

end FailuresHeldIn

/-- The same of a state. -/
abbrev FailuresHeld [BucketHash] (s : Network) : Prop :=
  FailuresHeldIn s.now s.attempts s.table.addrMan

section

variable [BucketHash] {s s' : Network}

lemma failuresHeld_recordScore (h : s.FailuresHeld) (addr : SocketAddr) (score : Int32) :
    (s.recordScore addr score).FailuresHeld := by
  by_cases hscore : (s.table.scores.lookup addr).getD 0 + score ≥ 100
  · simp only [recordScore, PeerTable.recordMisbehavior, if_pos hscore]
    exact h
  · simp only [recordScore, PeerTable.recordMisbehavior, if_neg hscore]
    exact h

lemma failuresHeld_perform (h : s.FailuresHeld) (task : Task) : (s.perform task).FailuresHeld := by
  cases task with
  | record addr score => exact failuresHeld_recordScore h addr score
  | discourage addr => exact h
  | finishBan addr => exact h.recordFailure addr

lemma failuresHeld_stepAccept (h : s.FailuresHeld) {e : AcceptEvent}
    (hstep : s.stepAccept e = some s') : s'.FailuresHeld := by
  cases e <;> simp only [stepAccept] at hstep <;> split at hstep <;> try split_ifs at hstep
  all_goals cases hstep
  all_goals first | exact h | exact h.append rfl

lemma failuresHeld_stepLoop (h : s.FailuresHeld) {l : Loop} {e : LoopEvent}
    (hstep : s.stepLoop l e = some s') : s'.FailuresHeld := by
  have hsetLoop : ∀ {s : Network} (phase : LoopPhase), s.FailuresHeld →
      (s.setLoop l phase).FailuresHeld := by
    intro s phase hs
    simpa [FailuresHeld] using hs
  cases e <;> simp only [stepLoop] at hstep <;> split at hstep <;> try split at hstep
  all_goals cases hstep
  all_goals first | exact hsetLoop _ h | exact hsetLoop _ (h.append rfl)

lemma failuresHeld_step (h : s.FailuresHeld) {e : NetEvent} (hok : s.FailuresKnown e)
    (hstep : s.step e = some s') : s'.FailuresHeld := by
  cases e with
  | tick nanos =>
    cases hstep
    exact h.tick nanos
  | ban ip duration =>
    cases hstep
    exact h
  | addAddresses addresses source =>
    cases hstep
    exact h.addAddresses (hok.added addresses source rfl)
  | misbehaving addr howMuch =>
    simp only [step, scorePeer] at hstep
    split at hstep
    · split_ifs at hstep <;> cases hstep <;> exact h
    · cases hstep
      exact h
  | recordMisbehavior addr score =>
    cases hstep
    exact failuresHeld_recordScore h addr score
  | runTask i =>
    simp only [step] at hstep
    split at hstep
    · cases hstep
      exact failuresHeld_perform (s := { s with tasks := s.tasks.eraseIdx i }) h _
    · cases hstep
  | clear =>
    cases hstep
    exact h
  | accept e => exact failuresHeld_stepAccept h hstep
  | initiate l e => exact failuresHeld_stepLoop h hstep
  | attempt c e =>
    simp only [step] at hstep
    split at hstep
    · rename_i a ha
      obtain ⟨a', hattempts, hchosen, htype, hfailed⟩ := failedAt_of_stepAttempt hstep
      obtain ⟨hnow, haddrMan⟩ := stepAttempt_addrMan hstep
      unfold FailuresHeld
      rw [hnow, hattempts, haddrMan]
      refine h.set ha hchosen htype fun time htime => ?_
      rcases hfailed time htime with hold | ⟨heq, hfails⟩
      · exact .inl hold
      · exact .inr ⟨heq, fun htype => hok.failed c e a rfl ha htype hfails⟩
    · cases hstep

/-- In a run in which the address manager of the peer table knows of every failure, no address is
chosen again before the retry interval has passed. -/
theorem noEarlyRetry_of_failuresKnown (calls : List AddrMan.Call) (saved : AddrMan) (s : Network)
    (hrun : Reachable step (fun s e _ => s.FailuresKnown e)
      (init (calls.foldl AddrMan.apply .new) saved) s) : s.NoEarlyRetry := by
  have hheld : s.FailuresHeld := by
    refine hrun.invariant FailuresHeld ⟨AddrMan.partition_new.foldl_apply calls, ?_, ?_⟩ ?_
    · simp [init]
    · simp [init]
    · intro s e s' hs hstep hok
      exact failuresHeld_step hs hok hstep
  rintro l order s' addr hstep hchosen ⟨c, a, time, ha, htype, rfl, htime, hrecent⟩
  obtain ⟨exclude', hselect⟩ : ∃ exclude',
      s.table.addrMan.select s.now order exclude' = some a.chosen := by
    simp only [step, stepLoop] at hstep
    split at hstep
    · rename_i exclude' _
      split at hstep
      · rename_i best hbest
        cases hstep
        simp only [loop_setLoop, if_true, LoopPhase.chosenAddr, Option.some_inj] at hchosen
        exact ⟨exclude', hchosen ▸ hbest⟩
      · cases hstep
        simp [loop_setLoop, LoopPhase.chosenAddr] at hchosen
    · cases hstep
  obtain ⟨key, info, hinfo, haddr, hconnectable, -⟩ := AddrMan.select_eq_some hselect
  have hkey : key = a.chosen := (hheld.partition.addr_eq key info hinfo).symm.trans haddr
  have hnot := hheld.held c a time info ha htype htime (hkey ▸ hinfo) s.now (le_refl _) hrecent
  rw [hconnectable] at hnot
  cases hnot

end

end Network

namespace Sample

/-- The address of a peer as `add_addresses` gets it, and as it is stored. -/
def gossiped (port : UInt16) : NetAddr := .fromSocketAddr (peerAddr port)

/-- The two counts of a loop. -/
def countBoth (l : Loop) : List NetEvent := [.initiate l .countActive, .initiate l .countPending]

/-- A loop asks for an address. -/
def askAddress (l : Loop) : List NetEvent :=
  [.initiate l .pendingAddresses, .initiate l .activeAddresses, .initiate l (.selectAddress [])]

/-- The connection loop learns of an address, chooses it and connects to it. -/
def firstDial : List NetEvent :=
  List.flatten [[.addAddresses [gossiped 8333] (peerAddr 1)], countBoth .fill, askAddress .fill,
    [.initiate .fill .spawn, .attempt 0 .dial]]

/-- The attempt fails, and the loop is about to choose an address for the next one. -/
def failAndGoOn : List NetEvent :=
  [.attempt 0 .unreachable, .attempt 0 .finish, .initiate .fill .pendingAddresses,
    .initiate .fill .activeAddresses]

/-- The loop chooses the address that has just failed. -/
theorem failed_address_retried :
    ∃ s, Reachable Network.step (fun _ _ _ => True) (.init .new .new) s ∧ ¬s.NoEarlyRetry := by
  have hretried : (afterSteps (firstDial ++ failAndGoOn)).map (fun s =>
      (s.now, s.attempts, (s.step (.initiate .fill (.selectAddress []))).bind fun s' =>
        (s'.loop .fill).chosenAddr)) =
      some (0, [⟨(gossiped 8333).toSocketAddr, .blockRelayOnly, .done false 0, .notStarted⟩],
        some (gossiped 8333).toSocketAddr) := by
    decide +kernel
  obtain ⟨s, hs, heq⟩ := Option.map_eq_some_iff.mp hretried
  obtain ⟨hnow, hattempts, hchosen⟩ : s.now = 0 ∧
      s.attempts =
        [⟨(gossiped 8333).toSocketAddr, .blockRelayOnly, .done false 0, .notStarted⟩] ∧
      ((s.step (.initiate .fill (.selectAddress []))).bind fun s' =>
        (s'.loop .fill).chosenAddr) = some (gossiped 8333).toSocketAddr := by
    simpa [Prod.ext_iff] using heq
  obtain ⟨s', hstep, hchosen⟩ := Option.bind_eq_some_iff.mp hchosen
  refine ⟨s, Reachable.of_run (fun _ _ _ _ => trivial) .init hs, fun h => ?_⟩
  refine h .fill [] s' (gossiped 8333).toSocketAddr hstep hchosen
    ⟨0, _, 0, by rw [hattempts]; rfl, by decide, rfl, rfl, by rw [hnow]; decide⟩

/-- A test that is enough for the condition. -/
def failuresKnown (s : Network) : NetEvent → Bool
  | .attempt c .dial => (s.attempts[c]?).all fun a => !s.connman.isBanned s.now a.addr.ip
  | .attempt c .unreachable =>
    (s.attempts[c]?).all fun a =>
      (s.table.addrMan.mapInfo.lookup a.chosen).all fun info => info.lastAttempt = some s.now
  | .attempt _ .failHandshake => false
  | .addAddresses _ _ => s.attempts.isEmpty
  | _ => true

lemma failuresKnown_of_test (s : Network) (e : NetEvent) (h : failuresKnown s e = true) :
    s.FailuresKnown e := by
  refine ⟨?_, ?_⟩
  · rintro c e' a rfl ha - hfails info hinfo
    cases e' with
    | dial => simp [failuresKnown, ha, hfails.2] at h
    | unreachable =>
      simp only [failuresKnown, ha, hinfo, Option.all_some, decide_eq_true_eq] at h
      exact AddrInfo.heldBack_of_lastAttempt h (le_refl _)
    | failHandshake => cases h
    | _ => cases hfails
  · rintro addresses source rfl before addr after - ⟨c, a, time, ha, -⟩
    simp [List.isEmpty_iff.mp h] at ha

lemma length_ipv6Host :
    ([0x20, 1, 0xd, 0xb8, 0, 0, 0, 0, 0, 0, 0, 0, 0, 0, 0, 1] : List UInt8).length = 16 := rfl

/-- An address that is no IPv4 one. -/
def ipv6Peer : SocketAddr :=
  ⟨.v6 ⟨[0x20, 1, 0xd, 0xb8, 0, 0, 0, 0, 0, 0, 0, 0, 0, 0, 0, 1], length_ipv6Host⟩, 8333⟩

/-- Both loops choose the only address and dial it; the attempt of the feeler loop connects, and its
peer misbehaves. -/
def bannedWhileDialled : List NetEvent :=
  List.flatten [[.addAddresses [.fromSocketAddr ipv6Peer] (peerAddr 1)], countBoth .fill,
    askAddress .fill, countBoth .feeler, askAddress .feeler,
    [.initiate .fill .spawn, .initiate .feeler .spawn, .attempt 0 .dial, .attempt 1 .dial,
      .attempt 1 .connected, .attempt 1 .completeHandshake, .attempt 1 .addPeer,
      .attempt 1 .initializeNode, .misbehaving ipv6Peer 100, .runTask 0, .runTask 0]]

/-- The address has been held back by a ban when the other attempt fails, and is not chosen
again. -/
theorem noEarlyRetry_recorded :
    ∃ s, Reachable Network.step (fun s e _ => s.FailuresKnown e)
        (.init (List.foldl AddrMan.apply .new []) .new) s ∧
      s.attempts.map Attempt.failedAt = [some 0, none] ∧ s.NoEarlyRetry := by
  have hrun : (Reachable.run Network.step (fun s e _ => failuresKnown s e)
      (.init (List.foldl AddrMan.apply .new []) .new) (bannedWhileDialled ++ failAndGoOn)).map
      (fun s => s.attempts.map Attempt.failedAt) = some [some 0, none] := by
    decide +kernel
  obtain ⟨s, hs, hfailed⟩ := Option.map_eq_some_iff.mp hrun
  have hreachable : Reachable Network.step (fun s e _ => s.FailuresKnown e)
      (.init (List.foldl AddrMan.apply .new []) .new) s :=
    Reachable.of_run (fun s e _ => failuresKnown_of_test s e) .init hs
  exact ⟨s, hreachable, hfailed, Network.noEarlyRetry_of_failuresKnown [] .new s hreachable⟩

end Sample

end Bitcrab
