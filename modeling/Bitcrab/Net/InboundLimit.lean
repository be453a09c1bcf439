import Bitcrab.Net.Load

/-!
# The limit on inbound connections

`accept_loop` counts the inbound peers of the peer table and then takes a slot if these and the
pending handshakes leave one. A handshake moves from the pending ones to the table in two steps, and
both can fall between the two reads of `accept_loop`.
-/

namespace Bitcrab

/-- The slot that `accept_loop` holds for a connection whose handshake has not been spawned. -/
def AcceptPhase.reservedSlots : AcceptPhase → Nat
  | .reserved _ => 1
  | _ => 0

namespace Network

/-- The peer table has no more inbound peers than there may be. -/
def InboundLimited (s : Network) : Prop :=
  countType s.table.peers .inbound ≤ ConnectionType.inbound.max

/-- A handshake that gives its slot back between the two reads of `accept_loop` was counted by the
first one. -/
def CountsFinished (s : Network) : NetEvent → Prop
  | .attempt c .finish => ∀ addr counted, s.acceptLoop = .counted addr counted →
    ∀ addr' handle, s.table.peers.lookup addr' = some handle → handle.connType = .inbound →
      handle.id = c → counted.lookup addr' = some handle
  | _ => True

/-- The counter is right, every slot is taken within the limit, and a count that is still to be used
is good. -/
structure SlotsIn (attempts : List Attempt) (peers : HashMap SocketAddr NodeHandle)
    (phase : AcceptPhase) (pendingInbound : Nat) : Prop where
  pending_eq : pendingInbound = openCount attempts .inbound + phase.reservedSlots
  load_le : load attempts peers .inbound + phase.reservedSlots ≤ ConnectionType.inbound.max
  fresh : ∀ addr counted, phase = .counted addr counted → Fresh .inbound counted attempts peers

/-- The same of a state. -/
abbrev Slots (s : Network) : Prop :=
  SlotsIn s.attempts s.table.peers s.acceptLoop s.pendingInbound

section

variable {s s' : Network}

lemma inboundLimited_of_slots (h : s.Slots) : s.InboundLimited := by
  have hload := h.load_le
  unfold load at hload
  unfold InboundLimited
  omega

lemma slots_stepAccept (h : s.Slots) (hreg : Registry s.attempts s.table.peers) {e : AcceptEvent}
    (hstep : s.stepAccept e = some s') : s'.Slots := by
  obtain ⟨hpending, hload, hfresh⟩ := h
  cases e with
  | accept addr =>
    simp only [stepAccept] at hstep
    split at hstep
    · rename_i hphase
      split_ifs at hstep
      cases hstep
      rw [hphase] at hpending hload
      exact ⟨hpending, hload, by simp⟩
    · cases hstep
  | countInbound =>
    simp only [stepAccept] at hstep
    split at hstep
    · rename_i addr hphase
      cases hstep
      rw [hphase] at hpending hload
      refine ⟨hpending, hload, ?_⟩
      rintro addr' counted heq
      cases heq
      exact Fresh.refl _ _ _
    · cases hstep
  | reserveSlot =>
    simp only [stepAccept] at hstep
    split at hstep
    · rename_i addr counted hphase
      rw [hphase] at hpending hload
      split_ifs at hstep with hfree
      · cases hstep
        have hcounted := load_le_of_fresh hreg (hfresh addr counted hphase)
        simp only [AcceptPhase.reservedSlots, add_zero] at hpending hload
        refine ⟨by rw [hpending]; rfl, ?_, by simp⟩
        simp only [AcceptPhase.reservedSlots]
        omega
      · cases hstep
        exact ⟨hpending, hload, by simp⟩
    · cases hstep
  | checkInbound =>
    simp only [stepAccept] at hstep
    split at hstep
    · rename_i addr hphase
      rw [hphase] at hpending hload
      simp only [AcceptPhase.reservedSlots] at hpending hload
      split_ifs at hstep
      · cases hstep
        refine ⟨?_, ?_, by simp⟩ <;> simp only [AcceptPhase.reservedSlots] <;> omega
      · cases hstep
        refine ⟨?_, ?_, by simp⟩
        · rw [openCount_append _ rfl, hpending]
          rfl
        · rw [load_append _ rfl]
          exact hload
    · cases hstep

lemma slots_stepLoop (h : s.Slots) {l : Loop} (htype : (s.loop l).connType ∈ l.fills)
    {e : LoopEvent} (hstep : s.stepLoop l e = some s') : s'.Slots := by
  have hsetLoop : ∀ {s : Network} (phase : LoopPhase), s.Slots → (s.setLoop l phase).Slots := by
    intro s phase hs
    simpa [Slots] using hs
  cases e with
  | spawn =>
    simp only [stepLoop] at hstep
    split at hstep
    · rename_i t needed exclude addr hphase
      cases hstep
      have ht : t ≠ .inbound := by
        rintro rfl
        rw [hphase] at htype
        cases l <;> simp [LoopPhase.connType, Loop.fills] at htype
      refine hsetLoop _ ⟨?_, ?_, fun addr counted hcounted =>
        (h.fresh addr counted hcounted).append _⟩
      · change _ = openCount (s.attempts ++ [_]) .inbound + _
        rw [openCount_append _ rfl, if_neg ht]
        exact h.pending_eq
      · change load (s.attempts ++ [_]) _ .inbound + _ ≤ _
        rw [load_append _ rfl, if_neg ht]
        exact h.load_le
    · cases hstep
  | selectAddress order =>
    simp only [stepLoop] at hstep
    split at hstep
    · split at hstep <;> cases hstep <;> exact hsetLoop _ h
    · cases hstep
  | _ =>
    simp only [stepLoop] at hstep
    split at hstep
    · cases hstep
      exact hsetLoop _ h
    · cases hstep

variable [BucketHash]

lemma slots_quiet (h : s.Slots) {e : NetEvent} (he : e.isQuiet = true)
    (hstep : s.step e = some s') :
    s'.Slots := by
  have hquiet := quiet_of_step he hstep
  obtain ⟨haccept, -, hpending, -⟩ := frame_of_quiet he hstep
  unfold Slots
  rw [haccept, hpending]
  refine ⟨?_, ?_, fun addr counted hphase => (h.fresh addr counted hphase).quiet hquiet⟩
  · rw [hquiet.openCount_eq]
    exact h.pending_eq
  · exact le_trans (Nat.add_le_add_right (hquiet.load_le _) _) h.load_le

omit [BucketHash] in
lemma slots_finish (h : s.Slots) {c : ConnId} {a : Attempt} (ha : s.attempts[c]? = some a)
    {ok : Bool} {time : Instant} (hphase : a.phase = .returned ok time)
    (hok : CountsFinished s (.attempt c .finish)) : (s.finishAttempt c a ok time).Slots := by
  have hcount := openCount_finish ha hphase .inbound
  have hslots : SlotsIn (s.attempts.set c { a with phase := .done ok time }) s.table.peers
      s.acceptLoop (if a.connType = .inbound then s.pendingInbound - 1 else s.pendingInbound) := by
    refine ⟨?_, ?_, fun addr counted hcounted => ?_⟩
    · have hpending := h.pending_eq
      split_ifs at hcount ⊢ <;> omega
    · exact le_trans (Nat.add_le_add_right (load_finish_le ha _) _) h.load_le
    · exact (h.fresh addr counted hcounted).set ha (.inr (hok addr counted hcounted))
  unfold finishAttempt
  split_ifs at hslots ⊢ <;> exact hslots

lemma slots_step (h : s.Slots) (hreg : Registry s.attempts s.table.peers)
    (htypes : ∀ l, (s.loop l).connType ∈ Loop.fills l) {e : NetEvent} (hok : CountsFinished s e)
    (hstep : s.step e = some s') : s'.Slots := by
  cases he : e.isQuiet with
  | true => exact slots_quiet h he hstep
  | false =>
    cases e with
    | accept e => exact slots_stepAccept h hreg hstep
    | initiate l e => exact slots_stepLoop h (htypes l) hstep
    | attempt c e =>
      cases e with
      | finish =>
        simp only [step] at hstep
        split at hstep
        · rename_i a ha
          simp only [stepAttempt] at hstep
          split at hstep
          · rename_i ok time hphase
            cases hstep
            exact slots_finish h ha hphase hok
          · cases hstep
        · cases hstep
      | _ => cases he
    | _ => cases he

/-- In a run in which every handshake that finishes between the two reads of `accept_loop` was
counted, the inbound peers stay within their limit. -/
theorem inboundLimited_of_countsFinished (known saved : AddrMan) (s : Network)
    (hrun : Reachable step (fun s e _ => CountsFinished s e) (init known saved) s) :
    s.InboundLimited := by
  have hslots : s.Slots := by
    refine hrun.invariant_of_reachable Slots ⟨rfl, Nat.zero_le _, by simp [init]⟩ ?_
    intro s e s' hs hinv hstep hok
    exact slots_step hinv (registry_of_reachable hs) (connType_mem_fills hs) hok hstep
  exact inboundLimited_of_slots hslots

end

end Network

namespace Sample

open Network

section

variable {s : Network}

/-- The state can be reached from a start without addresses. -/
abbrev Reached (s : Network) : Prop :=
  Reachable Network.step (fun _ _ _ => True) (.init .new .new) s

lemma reached_of_run (h : Reached s) (events : List NetEvent) {s' : Network}
    (hrun : Reachable.run Network.step (fun _ _ _ => true) s events = some s') : Reached s' :=
  Reachable.of_run (fun _ _ _ _ => trivial) h hrun

lemma reached_count (h : Reached s) (haccept : s.acceptLoop = .waiting) (port : UInt16) :
    Reached { s with acceptLoop := .counted (peerAddr port) s.table.peers } := by
  have hipv4 : (peerAddr port).isIpv4 = true := rfl
  refine reached_of_run h [.accept (.accept (peerAddr port)), .accept .countInbound] ?_
  simp [Reachable.run, Network.step, stepAccept, haccept, hipv4]

lemma reached_reserve (h : Reached s) {addr : SocketAddr} {counted : HashMap SocketAddr NodeHandle}
    (haccept : s.acceptLoop = .counted addr counted)
    (hfree : countType counted .inbound + s.pendingInbound < ConnectionType.inbound.max)
    (hban : s.connman.banList = ∅) :
    Reached { s with
      connman := s.connman.forgetExpired s.now addr.ip
      pendingInbound := s.pendingInbound + 1
      attempts := s.attempts ++ [⟨addr, .inbound, .handshaking, .notStarted⟩]
      acceptLoop := .waiting } := by
  have hnot : s.connman.isBanned s.now addr.ip = false := by simp [Connman.isBanned, hban]
  refine reached_of_run h [.accept .reserveSlot, .accept .checkInbound] ?_
  simp [Reachable.run, Network.step, stepAccept, haccept, hfree, hnot]

lemma reached_register (h : Reached s) (c : ConnId) (addr : SocketAddr)
    (ha : s.attempts[c]? = some ⟨addr, .inbound, .handshaking, .notStarted⟩) :
    Reached { s with
      attempts := s.attempts.set c ⟨addr, .inbound, .done true s.now, .reading⟩
      table := s.table.addPeer ⟨c, addr, .inbound⟩
      manager := s.manager.insert addr ⟨c, 0, false, .inbound⟩
      pendingInbound := s.pendingInbound - 1 } := by
  have hset : ∀ a, (s.attempts.set c a)[c]? = some a := fun _ => getElem?_set_self' ha
  refine reached_of_run h [.attempt c .completeHandshake, .attempt c .addPeer,
    .attempt c .initializeNode, .attempt c .returnOk, .attempt c .finish] ?_
  simp [Reachable.run, Network.step, stepAttempt, ha, hset, setAttempt, handshakeReturned,
    finishAttempt, Attempt.addr]

/-- The states with `n` inbound peers, at the first ports. -/
structure Crowd (n : Nat) (s : Network) : Prop where
  reached : Reached s
  acceptLoop_eq : s.acceptLoop = .waiting
  pendingInbound_eq : s.pendingInbound = 0
  banList_eq : s.connman.banList = ∅
  length_eq : s.attempts.length = n
  count_eq : countType s.table.peers .inbound = n
  notMem : ∀ port : UInt16, n ≤ port.toNat → peerAddr port ∉ s.table.peers

lemma forgetExpired_banList {m : Connman} (h : m.banList = ∅) (now : Instant) (ip : IpAddr) :
    (m.forgetExpired now ip).banList = ∅ := by
  unfold Connman.forgetExpired
  split_ifs
  · exact h
  · rw [h]
    rfl

lemma countType_insert {peers : HashMap SocketAddr NodeHandle} {addr : SocketAddr}
    (h : addr ∉ peers) (c : ConnId) :
    countType (peers.insert addr ⟨c, addr, .inbound⟩) .inbound = countType peers .inbound + 1 :=
  HashMap.assigned_insert NodeHandle.connType h ⟨c, addr, .inbound⟩ .inbound

lemma peerAddr_ne {port port' : UInt16} (h : port.toNat ≠ port'.toNat) :
    peerAddr port ≠ peerAddr port' := by
  intro heq
  exact h (congrArg (fun addr => addr.port.toNat) heq)

/-- One more peer connects. -/
lemma crowd_succ {n : Nat} (h : Crowd n s) (hn : n < ConnectionType.inbound.max) :
    ∃ s', Crowd (n + 1) s' := by
  have hport : (UInt16.ofNat n).toNat = n := UInt16.toNat_ofNat_of_lt (lt_trans hn (by decide))
  have hcount := reached_count h.reached h.acceptLoop_eq (UInt16.ofNat n)
  have hreserve := reached_reserve hcount rfl (by rw [h.count_eq, h.pendingInbound_eq]; exact hn)
    h.banList_eq
  have hregister := reached_register hreserve n (peerAddr (UInt16.ofNat n)) (by
    simp [← h.length_eq])
  refine ⟨_, hregister, rfl, ?_, ?_, ?_, ?_, ?_⟩
  · simp [h.pendingInbound_eq]
  · exact forgetExpired_banList h.banList_eq _ _
  · simp [h.length_eq]
  · exact (countType_insert (h.notMem _ (by rw [hport])) n).trans (by rw [h.count_eq])
  · intro port hle
    have hne : peerAddr port ≠ peerAddr (UInt16.ofNat n) := peerAddr_ne (by omega)
    rw [PeerTable.addPeer, AList.mem_insert, not_or]
    exact ⟨hne, h.notMem port (by omega)⟩

lemma exists_crowd {n : Nat} (hn : n ≤ ConnectionType.inbound.max) : ∃ s, Crowd n s := by
  induction n with
  | zero => exact ⟨_, .init, rfl, rfl, rfl, rfl, rfl, fun _ _ => AList.notMem_empty _⟩
  | succ n ih =>
    obtain ⟨s, hs⟩ := ih (by omega)
    exact crowd_succ hs (by omega)

end

/-- The last free slot is taken twice: the second connection is counted before the first one is
registered, and takes its slot after the first one has given it back. -/
theorem inbound_limit_exceeded : ∃ s, Reached s ∧ ¬s.InboundLimited := by
  obtain ⟨s, h⟩ := exists_crowd (n := 114) (by decide)
  have hcount := reached_count h.reached h.acceptLoop_eq 114
  have hreserve := reached_reserve hcount rfl (by rw [h.count_eq, h.pendingInbound_eq]; decide)
    h.banList_eq
  have hcount' := reached_count hreserve rfl 115
  have hregister := reached_register hcount' 114 (peerAddr 114) (by
    simp [← h.length_eq])
  have hreserve' := reached_reserve hregister rfl (by
    simp [h.count_eq, h.pendingInbound_eq, ConnectionType.max])
      (forgetExpired_banList h.banList_eq _ _)
  have hregister' := reached_register hreserve' 115 (peerAddr 115) (by
    simp [h.length_eq])
  refine ⟨_, hregister', ?_⟩
  have h114 : peerAddr 114 ∉ s.table.peers := h.notMem 114 (by decide)
  have h115 : peerAddr 115 ∉ s.table.peers.insert (peerAddr 114) ⟨114, peerAddr 114, .inbound⟩ := by
    rw [AList.mem_insert, not_or]
    exact ⟨peerAddr_ne (by decide), h.notMem 115 (by decide)⟩
  simp only [InboundLimited, PeerTable.addPeer, countType_insert h115, countType_insert h114,
    h.count_eq]
  decide

/-- A test that is enough for the condition. -/
def countsFinished (s : Network) : NetEvent → Bool
  | .attempt c .finish =>
    match s.acceptLoop with
    | .counted _ counted =>
      s.table.peers.entries.all fun e => e.2.id ≠ c || counted.lookup e.1 = some e.2
    | _ => true
  | _ => true

lemma countsFinished_of_test (s : Network) (e : NetEvent) (h : countsFinished s e = true) :
    CountsFinished s e := by
  cases e with
  | attempt c e =>
    cases e with
    | finish =>
      intro addr counted hphase addr' handle hlookup _ hid
      simp only [countsFinished, hphase, List.all_eq_true] at h
      simpa [hid] using h ⟨addr', handle⟩ (AList.mem_lookup_iff.mp hlookup)
    | _ => trivial
  | _ => trivial

/-- A handshake finishes between the two reads, after it was counted. -/
theorem inboundLimited_counted :
    ∃ s, Reachable Network.step (fun s e _ => CountsFinished s e) (.init .new .new) s ∧
      countType s.table.peers .inbound = 2 ∧ s.InboundLimited := by
  have hrun : (Reachable.run Network.step (fun s e _ => countsFinished s e) (.init .new .new)
      (inboundHandshake 0 50000 ++ [.attempt 0 .addPeer, .attempt 0 .initializeNode,
        .attempt 0 .returnOk, .accept (.accept (peerAddr 50001)), .accept .countInbound,
        .attempt 0 .finish, .accept .reserveSlot, .accept .checkInbound,
        .attempt 1 .completeHandshake, .attempt 1 .addPeer])).map
      (fun s => countType s.table.peers .inbound) = some 2 := by
    decide +kernel
  obtain ⟨s, hs, hcount⟩ := Option.map_eq_some_iff.mp hrun
  have hreachable : Reachable Network.step (fun s e _ => CountsFinished s e) (.init .new .new) s :=
    Reachable.of_run (fun s e _ => countsFinished_of_test s e) .init hs
  exact ⟨s, hreachable, hcount, inboundLimited_of_countsFinished .new .new s hreachable⟩

end Sample

end Bitcrab
