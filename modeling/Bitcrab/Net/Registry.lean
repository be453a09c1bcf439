import Bitcrab.Net.Connections

/-!
# What a step does to the attempts and the peer table

Every step of the node does one of a few things to the list of attempts and to the entries of the
peer table. `Effect` lists them, and the invariants of the table go by its cases.
-/

namespace Bitcrab

/-- The type that a loop is at. -/
def LoopPhase.connType : LoopPhase → ConnectionType
  | .ready t => t
  | .counted t _ => t
  | .filling t _ => t
  | .snapped t _ _ => t
  | .excluded t _ _ => t
  | .chosen t _ _ _ => t

/-- The types that a loop fills. -/
def Loop.fills : Loop → List ConnectionType
  | .fill => [.blockRelayOnly, .outboundFullRelay]
  | .feeler => [.feeler]

/-- The address that `accept_loop` is about. -/
def AcceptPhase.addr? : AcceptPhase → Option SocketAddr
  | .waiting => none
  | .accepted addr => some addr
  | .counted addr _ => some addr
  | .reserved addr => some addr

/-- A step that is of no loop and not the last one of an attempt. -/
def NetEvent.isQuiet : NetEvent → Bool
  | .accept _ => false
  | .initiate _ _ => false
  | .attempt _ .finish => false
  | _ => true

namespace Network

/-! ### Frames -/

section Frames

variable (s : Network) (l : Loop) (p : LoopPhase) (c : ConnId) (a : Attempt)

@[simp] lemma setLoop_now : (s.setLoop l p).now = s.now := by cases l <;> rfl
@[simp] lemma setLoop_attempts : (s.setLoop l p).attempts = s.attempts := by cases l <;> rfl
@[simp] lemma setLoop_table : (s.setLoop l p).table = s.table := by cases l <;> rfl
@[simp] lemma setLoop_manager : (s.setLoop l p).manager = s.manager := by cases l <;> rfl
@[simp] lemma setLoop_connman : (s.setLoop l p).connman = s.connman := by cases l <;> rfl
@[simp] lemma setLoop_acceptLoop : (s.setLoop l p).acceptLoop = s.acceptLoop := by cases l <;> rfl

@[simp] lemma setLoop_pendingInbound : (s.setLoop l p).pendingInbound = s.pendingInbound := by
  cases l <;> rfl

@[simp] lemma setLoop_pendingAttempts : (s.setLoop l p).pendingAttempts = s.pendingAttempts := by
  cases l <;> rfl

lemma loop_setLoop (l' : Loop) :
    (s.setLoop l p).loop l' = if l' = l then p else s.loop l' := by
  cases l <;> cases l' <;> rfl

@[simp] lemma setAttempt_now : (s.setAttempt c a).now = s.now := rfl
@[simp] lemma setAttempt_attempts : (s.setAttempt c a).attempts = s.attempts.set c a := rfl
@[simp] lemma setAttempt_table : (s.setAttempt c a).table = s.table := rfl
@[simp] lemma setAttempt_manager : (s.setAttempt c a).manager = s.manager := rfl
@[simp] lemma setAttempt_connman : (s.setAttempt c a).connman = s.connman := rfl
@[simp] lemma setAttempt_acceptLoop : (s.setAttempt c a).acceptLoop = s.acceptLoop := rfl

@[simp] lemma setAttempt_pendingInbound :
    (s.setAttempt c a).pendingInbound = s.pendingInbound := rfl

@[simp] lemma setAttempt_pendingAttempts :
    (s.setAttempt c a).pendingAttempts = s.pendingAttempts := rfl

@[simp] lemma setAttempt_loop (l : Loop) : (s.setAttempt c a).loop l = s.loop l := by
  cases l <;> rfl

end Frames

/-! ### Effects -/

/-- The task of an attempt goes on, without entering the table or finishing. -/
structure Moves (a a' : Attempt) : Prop where
  chosen_eq : a'.chosen = a.chosen
  connType_eq : a'.connType = a.connType
  isOpen_eq : a'.isOpen = a.isOpen
  of_isUnregistered : a'.isUnregistered = true → a.isUnregistered = true

/-- What a step can do to the attempts and the entries of the table without beginning or ending an
attempt. -/
inductive Quiet (attempts : List Attempt) (peers : HashMap SocketAddr NodeHandle) :
    List Attempt → HashMap SocketAddr NodeHandle → Prop
  | same : Quiet attempts peers attempts peers
  | moved {c : ConnId} {a a' : Attempt} (ha : attempts[c]? = some a) (hmoves : Moves a a') :
      Quiet attempts peers (attempts.set c a') peers
  | added {c : ConnId} {a : Attempt} (ha : attempts[c]? = some a) (hphase : a.phase = .started) :
      Quiet attempts peers (attempts.set c { a with phase := .added })
        (peers.insert a.addr ⟨c, a.addr, a.connType⟩)
  | removed (addr : SocketAddr) : Quiet attempts peers attempts (peers.erase addr)
  | unlisted {c : ConnId} {a : Attempt} (ha : attempts[c]? = some a) :
      Quiet attempts peers (attempts.set c { a with reader := .unlisted }) (peers.erase a.addr)
  | cleared : Quiet attempts peers attempts ∅

/-- What a step can do to the attempts and the entries of the table. -/
inductive Effect (attempts : List Attempt) (peers : HashMap SocketAddr NodeHandle) :
    List Attempt → HashMap SocketAddr NodeHandle → Prop
  | quiet {attempts' : List Attempt} {peers' : HashMap SocketAddr NodeHandle}
      (h : Quiet attempts peers attempts' peers') : Effect attempts peers attempts' peers'
  | spawned (a : Attempt) (hnew : a.isUnregistered = true) :
      Effect attempts peers (attempts ++ [a]) peers
  | finished {c : ConnId} {a : Attempt} {ok : Bool} {time : Instant}
      (ha : attempts[c]? = some a) (hphase : a.phase = .returned ok time) :
      Effect attempts peers (attempts.set c { a with phase := .done ok time }) peers

section

variable [BucketHash] {s s' : Network}

omit [BucketHash] in
lemma quiet_recordScore (s : Network) (addr : SocketAddr) (score : Int32) :
    Quiet s.attempts s.table.peers (s.recordScore addr score).attempts
      (s.recordScore addr score).table.peers := by
  by_cases hscore : (s.table.scores.lookup addr).getD 0 + score ≥ 100
  · simp only [recordScore, PeerTable.recordMisbehavior, if_pos hscore]
    exact .removed addr
  · simp only [recordScore, PeerTable.recordMisbehavior, if_neg hscore]
    exact .same

omit [BucketHash] in
lemma quiet_perform (s : Network) (task : Task) :
    Quiet s.attempts s.table.peers (s.perform task).attempts (s.perform task).table.peers := by
  cases task with
  | record addr score => exact quiet_recordScore s addr score
  | discourage addr => exact .removed addr
  | finishBan addr => exact .same

omit [BucketHash] in
lemma effect_stepAccept {e : AcceptEvent} (h : s.stepAccept e = some s') :
    Effect s.attempts s.table.peers s'.attempts s'.table.peers := by
  cases e with
  | accept addr =>
    simp only [stepAccept] at h
    split at h
    · split_ifs at h
      cases h
      exact .quiet .same
    · cases h
  | countInbound =>
    simp only [stepAccept] at h
    split at h
    · cases h
      exact .quiet .same
    · cases h
  | reserveSlot =>
    simp only [stepAccept] at h
    split at h
    · split_ifs at h <;> cases h <;> exact .quiet .same
    · cases h
  | checkInbound =>
    simp only [stepAccept] at h
    split at h
    · split_ifs at h
      · cases h
        exact .quiet .same
      · cases h
        exact .spawned _ rfl
    · cases h

omit [BucketHash] in
lemma effect_stepLoop {l : Loop} {e : LoopEvent} (h : s.stepLoop l e = some s') :
    Effect s.attempts s.table.peers s'.attempts s'.table.peers := by
  cases e with
  | spawn =>
    simp only [stepLoop] at h
    split at h
    · cases h
      simp only [setLoop_attempts, setLoop_table]
      exact .spawned _ rfl
    · cases h
  | selectAddress order =>
    simp only [stepLoop] at h
    split at h
    · split at h <;> cases h <;> simp only [setLoop_attempts, setLoop_table] <;> exact .quiet .same
    · cases h
  | _ =>
    simp only [stepLoop] at h
    split at h
    · cases h
      simp only [setLoop_attempts, setLoop_table]
      exact .quiet .same
    · cases h

omit [BucketHash] in
lemma handshakeFailed_attempts (s : Network) (c : ConnId) (a : Attempt) :
    (s.handshakeFailed c a).attempts = s.attempts.set c { a with phase := .returned false s.now } ∧
      (s.handshakeFailed c a).table = s.table := by
  simp only [handshakeFailed]
  split_ifs <;> exact ⟨rfl, rfl⟩

lemma handshakeReturned_attempts (s : Network) (c : ConnId) (a : Attempt) :
    (s.handshakeReturned c a).attempts = s.attempts.set c { a with phase := .returned true s.now } ∧
      (s.handshakeReturned c a).table = s.table := by
  simp only [handshakeReturned]
  split_ifs <;> exact ⟨rfl, rfl⟩

omit [BucketHash] in
lemma finishAttempt_attempts (s : Network) (c : ConnId) (a : Attempt) (ok : Bool) (time : Instant) :
    (s.finishAttempt c a ok time).attempts = s.attempts.set c { a with phase := .done ok time } ∧
      (s.finishAttempt c a ok time).table = s.table := by
  simp only [finishAttempt]
  split_ifs <;> exact ⟨rfl, rfl⟩

omit [BucketHash] in
/-- A change of the reader alone is no change for the table. -/
lemma moves_reader (a : Attempt) (reader : ReaderPhase) : Moves a { a with reader } :=
  ⟨rfl, rfl, rfl, id⟩

/-- Every step of an attempt but its last one is quiet. -/
lemma quiet_stepAttempt {c : ConnId} {a : Attempt} (ha : s.attempts[c]? = some a) {e : AttemptEvent}
    (he : e ≠ .finish) (h : s.stepAttempt c a e = some s') :
    Quiet s.attempts s.table.peers s'.attempts s'.table.peers := by
  cases e with
  | dial =>
    simp only [stepAttempt] at h
    split_ifs at h with hphase <;> cases h <;>
      exact .moved ha ⟨rfl, rfl, by simp [Attempt.isOpen, hphase], by
        simp [Attempt.isUnregistered, hphase]⟩
  | connected =>
    simp only [stepAttempt] at h
    split_ifs at h with hphase
    cases h
    exact .moved ha ⟨rfl, rfl, by simp [Attempt.isOpen, hphase], by
      simp [Attempt.isUnregistered, hphase]⟩
  | unreachable =>
    simp only [stepAttempt] at h
    split_ifs at h with hphase
    cases h
    exact .moved ha ⟨rfl, rfl, by simp [Attempt.isOpen, hphase], by
      simp [Attempt.isUnregistered, hphase]⟩
  | failHandshake =>
    simp only [stepAttempt] at h
    split_ifs at h with hphase
    cases h
    rw [(handshakeFailed_attempts s c a).1, (handshakeFailed_attempts s c a).2]
    exact .moved ha ⟨rfl, rfl, by simp [Attempt.isOpen, hphase], by
      simp [Attempt.isUnregistered, hphase]⟩
  | completeHandshake =>
    simp only [stepAttempt] at h
    split_ifs at h with hphase
    cases h
    exact .moved ha ⟨rfl, rfl, by simp [Attempt.isOpen, hphase], by
      simp [Attempt.isUnregistered, hphase]⟩
  | addPeer =>
    simp only [stepAttempt] at h
    split_ifs at h with hphase
    cases h
    exact .added ha hphase
  | initializeNode =>
    simp only [stepAttempt] at h
    split_ifs at h with hphase
    cases h
    exact .moved ha ⟨rfl, rfl, by simp [Attempt.isOpen, hphase], by simp [Attempt.isUnregistered]⟩
  | returnOk =>
    simp only [stepAttempt] at h
    split_ifs at h with hphase
    cases h
    rw [(handshakeReturned_attempts s c a).1, (handshakeReturned_attempts s c a).2]
    exact .moved ha ⟨rfl, rfl, by simp [Attempt.isOpen, hphase], by simp [Attempt.isUnregistered]⟩
  | finish => exact absurd rfl he
  | stopReading =>
    simp only [stepAttempt] at h
    split_ifs at h
    cases h
    exact .moved ha (moves_reader a _)
  | finalizeManager =>
    simp only [stepAttempt] at h
    split_ifs at h
    cases h
    exact .moved ha (moves_reader a _)
  | finalizeTable =>
    simp only [stepAttempt] at h
    split_ifs at h
    cases h
    exact .unlisted ha
  | finalizeSync =>
    simp only [stepAttempt] at h
    split_ifs at h
    cases h
    exact .moved ha (moves_reader a _)

lemma effect_finish {c : ConnId} {a : Attempt} (ha : s.attempts[c]? = some a)
    (h : s.stepAttempt c a .finish = some s') :
    Effect s.attempts s.table.peers s'.attempts s'.table.peers := by
  simp only [stepAttempt] at h
  split at h
  · rename_i ok time hphase
    cases h
    rw [(finishAttempt_attempts s c a ok time).1, (finishAttempt_attempts s c a ok time).2]
    exact .finished ha hphase
  · cases h

lemma quiet_of_step {e : NetEvent} (he : e.isQuiet = true) (h : s.step e = some s') :
    Quiet s.attempts s.table.peers s'.attempts s'.table.peers := by
  cases e with
  | tick nanos | ban ip duration | addAddresses addresses source =>
    cases h
    exact .same
  | misbehaving addr howMuch =>
    simp only [step] at h
    split at h
    · cases h
      simp only [scorePeer]
      split_ifs <;> exact .same
    · cases h
      exact .same
  | recordMisbehavior addr score =>
    cases h
    exact quiet_recordScore s addr score
  | runTask i =>
    simp only [step] at h
    split at h
    · cases h
      exact quiet_perform { s with tasks := s.tasks.eraseIdx i } _
    · cases h
  | clear =>
    cases h
    exact .cleared
  | accept e => cases he
  | initiate l e => cases he
  | attempt c e =>
    simp only [step] at h
    split at h
    · rename_i a ha
      refine quiet_stepAttempt ha ?_ h
      rintro rfl
      cases he
    · cases h

/-- Every step has one of the effects. -/
lemma effect_of_step {e : NetEvent} (h : s.step e = some s') :
    Effect s.attempts s.table.peers s'.attempts s'.table.peers := by
  cases he : e.isQuiet with
  | true => exact .quiet (quiet_of_step he h)
  | false =>
    cases e with
    | accept e => exact effect_stepAccept h
    | initiate l e => exact effect_stepLoop h
    | attempt c e =>
      simp only [step] at h
      split at h
      · rename_i a ha
        by_cases hfinish : e = .finish
        · subst hfinish
          exact effect_finish ha h
        · exact .quiet (quiet_stepAttempt ha hfinish h)
      · cases h
    | _ => cases he

end

/-! ### The loops -/

section

variable [BucketHash] {s s' : Network}

omit [BucketHash] in
lemma recordScore_loops (s : Network) (addr : SocketAddr) (score : Int32) (l : Loop) :
    (s.recordScore addr score).loop l = s.loop l ∧
      (s.recordScore addr score).acceptLoop = s.acceptLoop := by
  unfold recordScore
  split <;> cases l <;> exact ⟨rfl, rfl⟩

omit [BucketHash] in
lemma perform_loops (s : Network) (task : Task) (l : Loop) :
    (s.perform task).loop l = s.loop l ∧ (s.perform task).acceptLoop = s.acceptLoop := by
  cases task with
  | record addr score => exact recordScore_loops s addr score l
  | discourage addr => cases l <;> exact ⟨rfl, rfl⟩
  | finishBan addr => cases l <;> exact ⟨rfl, rfl⟩

lemma stepAttempt_loops {c : ConnId} {a : Attempt} {e : AttemptEvent}
    (h : s.stepAttempt c a e = some s') (l : Loop) :
    s'.loop l = s.loop l ∧ s'.acceptLoop = s.acceptLoop := by
  cases e <;> simp only [stepAttempt, handshakeFailed, handshakeReturned, finishAttempt] at h <;>
    split at h <;> try split_ifs at h
  all_goals cases h <;> cases l <;> exact ⟨rfl, rfl⟩

omit [BucketHash] in
lemma stepAccept_loop {e : AcceptEvent} (h : s.stepAccept e = some s') (l : Loop) :
    s'.loop l = s.loop l := by
  cases e <;> simp only [stepAccept] at h <;> split at h <;> try split_ifs at h
  all_goals cases h <;> cases l <;> rfl

omit [BucketHash] in
lemma stepLoop_loops {l : Loop} {e : LoopEvent} (h : s.stepLoop l e = some s') :
    s'.acceptLoop = s.acceptLoop ∧ ∀ l', l' ≠ l → s'.loop l' = s.loop l' := by
  have hset : ∀ (s : Network) (p : LoopPhase), (s.setLoop l p).acceptLoop = s.acceptLoop ∧
      ∀ l', l' ≠ l → (s.setLoop l p).loop l' = s.loop l' := by
    intro s p
    refine ⟨setLoop_acceptLoop s l p, fun l' hl' => ?_⟩
    rw [loop_setLoop, if_neg hl']
  cases e <;> simp only [stepLoop] at h <;> split at h <;> try split at h
  all_goals cases h
  all_goals first
    | exact hset s _
    | exact ⟨(hset _ _).1, fun l' hl' => ((hset _ _).2 l' hl').trans (by cases l' <;> rfl)⟩

omit [BucketHash] in
lemma recordScore_pending (s : Network) (addr : SocketAddr) (score : Int32) :
    (s.recordScore addr score).pendingInbound = s.pendingInbound ∧
      (s.recordScore addr score).pendingAttempts = s.pendingAttempts := by
  unfold recordScore
  split <;> exact ⟨rfl, rfl⟩

lemma stepAttempt_pending {c : ConnId} {a : Attempt} {e : AttemptEvent} (he : e ≠ .finish)
    (h : s.stepAttempt c a e = some s') :
    s'.pendingInbound = s.pendingInbound ∧ s'.pendingAttempts = s.pendingAttempts := by
  cases e with
  | finish => exact absurd rfl he
  | _ =>
    simp only [stepAttempt, handshakeFailed, handshakeReturned] at h
    split at h <;> try split_ifs at h
    all_goals cases h <;> exact ⟨rfl, rfl⟩

/-- A loop moves by its own steps only. -/
lemma loop_of_step {e : NetEvent} (h : s.step e = some s') (l : Loop) :
    s'.loop l = s.loop l ∨ ∃ e', e = .initiate l e' ∧ s.stepLoop l e' = some s' := by
  cases e with
  | misbehaving addr howMuch =>
    simp only [step, scorePeer] at h
    split at h
    · split_ifs at h <;> cases h <;> exact .inl (by cases l <;> rfl)
    · cases h
      exact .inl rfl
  | recordMisbehavior addr score =>
    cases h
    exact .inl (recordScore_loops s addr score l).1
  | runTask i =>
    simp only [step] at h
    split at h
    · cases h
      exact .inl ((perform_loops _ _ l).1.trans (by cases l <;> rfl))
    · cases h
  | accept e => exact .inl (stepAccept_loop h l)
  | initiate l' e =>
    by_cases hl : l = l'
    · subst hl
      exact .inr ⟨e, rfl, h⟩
    · exact .inl ((stepLoop_loops h).2 l hl)
  | attempt c e =>
    simp only [step] at h
    split at h
    · exact .inl (stepAttempt_loops h l).1
    · cases h
  | _ =>
    cases h
    exact .inl (by cases l <;> rfl)

/-- `accept_loop` moves by its own steps only. -/
lemma acceptLoop_of_step {e : NetEvent} (h : s.step e = some s') :
    s'.acceptLoop = s.acceptLoop ∨ ∃ e', e = .accept e' ∧ s.stepAccept e' = some s' := by
  cases e with
  | misbehaving addr howMuch =>
    simp only [step, scorePeer] at h
    split at h
    · split_ifs at h <;> cases h <;> exact .inl rfl
    · cases h
      exact .inl rfl
  | recordMisbehavior addr score =>
    cases h
    exact .inl (recordScore_loops s addr score .fill).2
  | runTask i =>
    simp only [step] at h
    split at h
    · cases h
      exact .inl (perform_loops _ _ .fill).2
    · cases h
  | accept e => exact .inr ⟨e, rfl, h⟩
  | initiate l e => exact .inl (stepLoop_loops h).1
  | attempt c e =>
    simp only [step] at h
    split at h
    · exact .inl (stepAttempt_loops h .fill).2
    · cases h
  | _ =>
    cases h
    exact .inl rfl

/-- A quiet step leaves the loops and what is pending alone. -/
lemma frame_of_quiet {e : NetEvent} (he : e.isQuiet = true) (h : s.step e = some s') :
    s'.acceptLoop = s.acceptLoop ∧ (∀ l, s'.loop l = s.loop l) ∧
      s'.pendingInbound = s.pendingInbound ∧ s'.pendingAttempts = s.pendingAttempts := by
  refine ⟨?_, fun l => ?_, ?_⟩
  · rcases acceptLoop_of_step h with heq | ⟨e', rfl, -⟩
    · exact heq
    · cases he
  · rcases loop_of_step h l with heq | ⟨e', rfl, -⟩
    · exact heq
    · cases he
  · cases e with
    | recordMisbehavior addr score =>
      cases h
      exact recordScore_pending s addr score
    | runTask i =>
      simp only [step] at h
      split at h
      · rename_i task _
        cases h
        cases task with
        | record addr score => exact recordScore_pending _ addr score
        | discourage addr | finishBan addr => exact ⟨rfl, rfl⟩
      · cases h
    | misbehaving addr howMuch =>
      simp only [step, scorePeer] at h
      split at h
      · split_ifs at h <;> cases h <;> exact ⟨rfl, rfl⟩
      · cases h
        exact ⟨rfl, rfl⟩
    | tick nanos | ban ip duration | addAddresses addresses source | clear =>
      cases h
      exact ⟨rfl, rfl⟩
    | accept e => cases he
    | initiate l e => cases he
    | attempt c e =>
      simp only [step] at h
      split at h
      · refine stepAttempt_pending ?_ h
        rintro rfl
        cases he
      · cases h

end

section

variable [BucketHash] {ok : Network → NetEvent → Network → Prop} {known saved : AddrMan}
    {s : Network}

/-- Every loop is at one of its own types. -/
lemma connType_mem_fills (h : Reachable step ok (init known saved) s) (l : Loop) :
    (s.loop l).connType ∈ l.fills := by
  have hnext : ∀ {t : ConnectionType}, t ∈ l.fills → t.next ∈ l.fills := by
    cases l <;> intro t <;> cases t <;> simp [Loop.fills, ConnectionType.next]
  refine h.invariant (fun s => (s.loop l).connType ∈ l.fills) ?_ ?_
  · cases l <;> simp [init, loop, LoopPhase.connType, Loop.fills]
  · intro s e s' hs hstep _
    rcases loop_of_step hstep l with heq | ⟨e', -, hstep'⟩
    · rw [heq]
      exact hs
    · cases e' <;> simp only [stepLoop] at hstep' <;> split at hstep' <;> try split at hstep'
      all_goals cases hstep'
      all_goals simp_all only [loop_setLoop, if_true, LoopPhase.connType]

/-- The addresses of inbound connections are IPv4 addresses. -/
lemma isIpv4_of_accepted (h : Reachable step ok (init known saved) s) (addr : SocketAddr)
    (haddr : s.acceptLoop.addr? = some addr) : addr.isIpv4 = true := by
  refine h.invariant (fun s => ∀ addr, s.acceptLoop.addr? = some addr → addr.isIpv4 = true) ?_ ?_
    addr haddr
  · simp [init, AcceptPhase.addr?]
  · intro s e s' hs hstep _ addr haddr
    rcases acceptLoop_of_step hstep with heq | ⟨e', -, hstep'⟩
    · exact hs addr (heq ▸ haddr)
    · cases e' <;> simp only [stepAccept] at hstep' <;> split at hstep' <;> try split_ifs at hstep'
      all_goals cases hstep'
      all_goals simp_all [AcceptPhase.addr?]

end

/-! ### Tables of connections -/

/-- Every entry of a table is that of an attempt with its address, and with `P`. -/
def Owned {ν : Type} (owner : ν → ConnId) (P : Attempt → ν → Prop) (attempts : List Attempt)
    (m : HashMap SocketAddr ν) : Prop :=
  ∀ addr v, m.lookup addr = some v → ∃ a, attempts[owner v]? = some a ∧ a.addr = addr ∧ P a v

namespace Owned

variable {ν : Type} {owner : ν → ConnId} {P : Attempt → ν → Prop} {attempts : List Attempt}
  {m : HashMap SocketAddr ν} {c : ConnId} {a a' : Attempt}

lemma empty : Owned owner P attempts (∅ : HashMap SocketAddr ν) := by
  intro addr v hv
  simp at hv

lemma append (h : Owned owner P attempts m) (a : Attempt) : Owned owner P (attempts ++ [a]) m := by
  intro addr v hv
  obtain ⟨b, hb, hrest⟩ := h addr v hv
  refine ⟨b, ?_, hrest⟩
  rw [List.getElem?_append_left (List.getElem?_eq_some_iff.mp hb).1]
  exact hb

lemma erase (h : Owned owner P attempts m) (addr : SocketAddr) :
    Owned owner P attempts (m.erase addr) := by
  intro addr' v hv
  by_cases haddr : addr' = addr
  · subst haddr
    simp at hv
  · rw [AList.lookup_erase_ne haddr] at hv
    exact h addr' v hv

/-- An attempt changes, and its entry with it. -/
lemma set (h : Owned owner P attempts m) (ha : attempts[c]? = some a) (haddr : a'.addr = a.addr)
    (hP : ∀ v, m.lookup a.addr = some v → owner v = c → P a v → P a' v) :
    Owned owner P (attempts.set c a') m := by
  intro addr v hv
  obtain ⟨b, hb, hbaddr, hb'⟩ := h addr v hv
  by_cases hid : owner v = c
  · subst hid
    rw [ha, Option.some_inj] at hb
    subst hb hbaddr
    refine ⟨a', ?_, haddr, hP v hv rfl hb'⟩
    exact List.getElem?_set_self (List.getElem?_eq_some_iff.mp ha).1
  · refine ⟨b, ?_, hbaddr, hb'⟩
    rw [List.getElem?_set_ne (Ne.symm hid)]
    exact hb

lemma insert (h : Owned owner P attempts m) {v : ν} (ha : attempts[owner v]? = some a)
    (hP : P a v) :
    Owned owner P attempts (m.insert a.addr v) := by
  intro addr w hw
  by_cases haddr : addr = a.addr
  · subst haddr
    rw [AList.lookup_insert, Option.some_inj] at hw
    subst hw
    exact ⟨a, ha, rfl, hP⟩
  · rw [AList.lookup_insert_ne haddr] at hw
    exact h addr w hw

/-- The entry of the attempt `c` is erased with its address. -/
lemma erase_set (h : Owned owner P attempts m) (ha : attempts[c]? = some a)
    (haddr : a'.addr = a.addr) : Owned owner P (attempts.set c a') (m.erase a.addr) :=
  (h.erase a.addr).set ha haddr fun v hv _ _ => by simp at hv

end Owned

variable {attempts attempts' : List Attempt} {peers peers' : HashMap SocketAddr NodeHandle}

/-- Every entry of the peer table is that of an attempt that has entered it. -/
def Registry : List Attempt → HashMap SocketAddr NodeHandle → Prop :=
  Owned NodeHandle.id fun a handle => a.connType = handle.connType ∧ a.isUnregistered = false

lemma getElem?_set_self' {c : ConnId} {a a' : Attempt} (ha : attempts[c]? = some a) :
    (attempts.set c a')[c]? = some a' :=
  List.getElem?_set_self (List.getElem?_eq_some_iff.mp ha).1

lemma getElem?_append_singleton {c : Nat} {a b : Attempt} (h : (attempts ++ [a])[c]? = some b) :
    attempts[c]? = some b ∨ (c = attempts.length ∧ b = a) := by
  rw [List.getElem?_append] at h
  split_ifs at h with hc
  · exact .inl h
  · rw [List.getElem?_singleton] at h
    split_ifs at h with hzero
    exact .inr ⟨by omega, (Option.some.inj h).symm⟩

lemma Moves.addr_eq {a a' : Attempt} (h : Moves a a') : a'.addr = a.addr := by
  simp only [Attempt.addr, h.chosen_eq, h.connType_eq]

lemma Registry.quiet (h : Registry attempts peers) (hq : Quiet attempts peers attempts' peers') :
    Registry attempts' peers' := by
  cases hq with
  | same => exact h
  | moved ha hmoves =>
    refine Owned.set h ha hmoves.addr_eq ?_
    rintro handle - - ⟨htype, hreg⟩
    refine ⟨hmoves.connType_eq.trans htype, Bool.eq_false_iff.mpr fun htrue => ?_⟩
    simp [hmoves.of_isUnregistered htrue] at hreg
  | added ha hphase =>
    rename_i c a
    have hset : Registry (attempts.set c { a with phase := .added }) peers := by
      refine Owned.set h ha rfl ?_
      rintro handle - - ⟨htype, -⟩
      exact ⟨htype, rfl⟩
    exact Owned.insert (a := { a with phase := .added }) (v := ⟨c, a.addr, a.connType⟩) hset
      (getElem?_set_self' ha) ⟨rfl, rfl⟩
  | removed addr => exact Owned.erase h addr
  | unlisted ha => exact Owned.set (Owned.erase h _) ha rfl fun _ _ _ => id
  | cleared => exact Owned.empty

lemma Registry.effect (h : Registry attempts peers) (he : Effect attempts peers attempts' peers') :
    Registry attempts' peers' := by
  cases he with
  | quiet hq => exact h.quiet hq
  | spawned a hnew => exact Owned.append h a
  | finished ha hphase =>
    refine Owned.set h ha rfl ?_
    rintro handle - - ⟨htype, -⟩
    exact ⟨htype, rfl⟩

lemma registry_of_reachable [BucketHash] {ok : Network → NetEvent → Network → Prop}
    {known saved : AddrMan} {s : Network} (h : Reachable step ok (init known saved) s) :
    Registry s.attempts s.table.peers := by
  refine h.invariant (fun s => Registry s.attempts s.table.peers) ?_ ?_
  · exact Owned.empty
  · intro s e s' hs hstep _
    exact hs.effect (effect_of_step hstep)

end Network

end Bitcrab
