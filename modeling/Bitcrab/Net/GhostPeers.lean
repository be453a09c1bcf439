import Bitcrab.Net.Registry

/-!
# Entries of closed connections

`finalize_node` clears the entries of a connection from the peer manager and from the peer table.
The read task that calls it is spawned before the handshake has made these entries. An entry that is
made after it was cleared stays for good.
-/

namespace Bitcrab

namespace Network

/-- No table has an entry of a connection that `finalize_node` has completed for. -/
def NoGhosts (s : Network) : Prop :=
  ∀ (c : ConnId) (a : Attempt), s.attempts[c]? = some a → a.reader = .finalized →
    (∀ addr handle, s.table.peers.lookup addr = some handle → handle.id ≠ c) ∧
    ∀ addr peer, s.manager.lookup addr = some peer → peer.owner ≠ c

end Network

/-- `finalize_node` has not been at the peer table yet. -/
def ReaderPhase.maybeListed (r : ReaderPhase) : Prop := r ≠ .unlisted ∧ r ≠ .finalized

/-- `finalize_node` has not been at the peer manager yet. -/
def ReaderPhase.maybeManaged (r : ReaderPhase) : Prop := r ≠ .unmanaged ∧ r.maybeListed

/-- The handshake enters its connection into a table before `finalize_node` has cleared that table
for it. -/
def RegistersInTime (s : Network) : NetEvent → Prop
  | .attempt c .addPeer => ∀ a, s.attempts[c]? = some a → a.reader.maybeListed
  | .attempt c .initializeNode => ∀ a, s.attempts[c]? = some a → a.reader.maybeManaged
  | _ => True

namespace Network

/-- The entries of both tables are those of connections that have not been cleared from them. -/
structure AliveIn (attempts : List Attempt) (peers : HashMap SocketAddr NodeHandle)
    (manager : HashMap SocketAddr Peer) : Prop where
  listed : Owned NodeHandle.id (fun a _ => a.reader.maybeListed) attempts peers
  managed : Owned Peer.owner (fun a _ => a.reader.maybeManaged) attempts manager

/-- The same of a state. -/
abbrev Alive (s : Network) : Prop := AliveIn s.attempts s.table.peers s.manager

lemma noGhosts_of_alive {s : Network} (h : s.Alive) : s.NoGhosts := by
  intro c a ha hfinal
  constructor
  · rintro addr handle hhandle rfl
    obtain ⟨b, hb, -, hlisted⟩ := h.listed addr handle hhandle
    rw [ha, Option.some_inj] at hb
    exact hlisted.2 (hb ▸ hfinal)
  · rintro addr peer hpeer rfl
    obtain ⟨b, hb, -, hmanaged⟩ := h.managed addr peer hpeer
    rw [ha, Option.some_inj] at hb
    exact hmanaged.2.2 (hb ▸ hfinal)

/-- A change of an attempt that clears nothing. -/
lemma AliveIn.set {attempts : List Attempt} {peers : HashMap SocketAddr NodeHandle}
    {manager : HashMap SocketAddr Peer} (h : AliveIn attempts peers manager) {c : ConnId}
    {a a' : Attempt} (ha : attempts[c]? = some a) (haddr : a'.addr = a.addr)
    (hlisted : a.reader.maybeListed → a'.reader.maybeListed)
    (hmanaged : a.reader.maybeManaged → a'.reader.maybeManaged) :
    AliveIn (attempts.set c a') peers manager :=
  ⟨h.listed.set ha haddr fun _ _ _ => hlisted, h.managed.set ha haddr fun _ _ _ => hmanaged⟩

/-- The score of a peer changes, not its owner. -/
lemma alive_scorePeer {s : Network} (h : s.Alive) {addr : SocketAddr} {peer : Peer}
    (hpeer : s.manager.lookup addr = some peer) (howMuch : Int32) :
    (s.scorePeer addr peer howMuch).Alive := by
  obtain ⟨a, ha, rfl, hmanaged⟩ := h.managed addr peer hpeer
  simp only [Network.scorePeer]
  split_ifs
  · exact ⟨h.listed, h.managed.insert (v := { peer with
      misbehaviorScore := peer.misbehaviorScore + howMuch, isDiscouraged := true }) ha hmanaged⟩
  · exact ⟨h.listed, h.managed.insert (v := { peer with
      misbehaviorScore := peer.misbehaviorScore + howMuch }) ha hmanaged⟩

lemma alive_recordScore {s : Network} (h : s.Alive) (addr : SocketAddr) (score : Int32) :
    (s.recordScore addr score).Alive := by
  by_cases hscore : (s.table.scores.lookup addr).getD 0 + score ≥ 100
  · simp only [Network.recordScore, PeerTable.recordMisbehavior, if_pos hscore]
    exact ⟨h.listed.erase addr, h.managed⟩
  · simp only [Network.recordScore, PeerTable.recordMisbehavior, if_neg hscore]
    exact ⟨h.listed, h.managed⟩

lemma alive_perform {s : Network} (h : s.Alive) (task : Task) : (s.perform task).Alive := by
  cases task with
  | record addr score => exact alive_recordScore h addr score
  | discourage addr => exact ⟨h.listed.erase addr, h.managed⟩
  | finishBan addr => exact ⟨h.listed, h.managed⟩

lemma alive_stepAccept {s s' : Network} (h : s.Alive) {e : AcceptEvent}
    (hstep : s.stepAccept e = some s') : s'.Alive := by
  cases e <;> simp only [Network.stepAccept] at hstep <;> split at hstep <;>
    first
      | (split_ifs at hstep <;> cases hstep <;>
          first | exact ⟨h.listed, h.managed⟩ | exact ⟨h.listed.append _, h.managed.append _⟩)
      | (cases hstep; exact ⟨h.listed, h.managed⟩)
      | cases hstep

lemma alive_stepLoop {s s' : Network} (h : s.Alive) {l : Loop} {e : LoopEvent}
    (hstep : s.stepLoop l e = some s') : s'.Alive := by
  have hsetLoop : ∀ {s : Network} (phase : LoopPhase), s.Alive → (s.setLoop l phase).Alive := by
    intro s phase hs
    exact ⟨by simpa using hs.listed, by simpa using hs.managed⟩
  cases e with
  | spawn =>
    simp only [Network.stepLoop] at hstep
    split at hstep
    · cases hstep
      exact hsetLoop _ ⟨h.listed.append _, h.managed.append _⟩
    · cases hstep
  | selectAddress order =>
    simp only [Network.stepLoop] at hstep
    split at hstep
    · split at hstep <;> cases hstep <;> exact hsetLoop _ h
    · cases hstep
  | _ =>
    simp only [Network.stepLoop] at hstep
    split at hstep
    · cases hstep
      exact hsetLoop _ h
    · cases hstep

section

variable [BucketHash] {s s' : Network} {c : ConnId} {a : Attempt}

lemma alive_stepAttempt (h : s.Alive) (ha : s.attempts[c]? = some a) {e : AttemptEvent}
    (hok : RegistersInTime s (.attempt c e)) (hstep : s.stepAttempt c a e = some s') :
    s'.Alive := by
  cases e with
  | dial =>
    simp only [Network.stepAttempt] at hstep
    split_ifs at hstep <;> cases hstep <;> exact h.set ha rfl id id
  | connected =>
    simp only [Network.stepAttempt] at hstep
    split_ifs at hstep
    cases hstep
    exact h.set ha rfl id id
  | unreachable =>
    simp only [Network.stepAttempt] at hstep
    split_ifs at hstep
    cases hstep
    exact h.set ha rfl id id
  | failHandshake =>
    simp only [Network.stepAttempt, handshakeFailed] at hstep
    split_ifs at hstep <;> cases hstep <;> exact h.set ha rfl id id
  | completeHandshake =>
    simp only [Network.stepAttempt] at hstep
    split_ifs at hstep
    cases hstep
    exact h.set ha rfl (fun _ => by simp [ReaderPhase.maybeListed])
      fun _ => by simp [ReaderPhase.maybeManaged, ReaderPhase.maybeListed]
  | addPeer =>
    simp only [Network.stepAttempt] at hstep
    split_ifs at hstep
    cases hstep
    have hset : AliveIn (s.attempts.set c { a with phase := .added }) s.table.peers s.manager :=
      h.set ha rfl id id
    refine ⟨?_, hset.managed⟩
    exact hset.listed.insert (a := { a with phase := .added }) (v := ⟨c, a.addr, a.connType⟩)
      (getElem?_set_self' ha) (hok a ha)
  | initializeNode =>
    simp only [Network.stepAttempt] at hstep
    split_ifs at hstep
    cases hstep
    have hset : AliveIn
      (s.attempts.set c { a with phase := .registered }) s.table.peers s.manager :=
      h.set ha rfl id id
    refine ⟨hset.listed, ?_⟩
    exact hset.managed.insert (a := { a with phase := .registered })
      (v := ⟨c, 0, false, a.connType⟩) (getElem?_set_self' ha) (hok a ha)
  | returnOk =>
    simp only [Network.stepAttempt, handshakeReturned] at hstep
    split_ifs at hstep <;> cases hstep <;> exact h.set ha rfl id id
  | finish =>
    simp only [Network.stepAttempt] at hstep
    split at hstep
    · cases hstep
      simp only [finishAttempt]
      split_ifs <;> exact h.set ha rfl id id
    · cases hstep
  | stopReading =>
    simp only [Network.stepAttempt] at hstep
    split_ifs at hstep
    cases hstep
    exact h.set ha rfl (fun _ => by simp [ReaderPhase.maybeListed])
      fun _ => by simp [ReaderPhase.maybeManaged, ReaderPhase.maybeListed]
  | finalizeManager =>
    simp only [Network.stepAttempt] at hstep
    split_ifs at hstep
    cases hstep
    refine ⟨h.listed.set ha rfl fun _ _ _ _ => by simp [ReaderPhase.maybeListed], ?_⟩
    exact h.managed.erase_set ha rfl
  | finalizeTable =>
    simp only [Network.stepAttempt] at hstep
    split_ifs at hstep with hreader
    cases hstep
    refine ⟨h.listed.erase_set ha rfl, h.managed.set ha rfl fun _ _ _ hmanaged => ?_⟩
    exact absurd hreader hmanaged.1
  | finalizeSync =>
    simp only [Network.stepAttempt] at hstep
    split_ifs at hstep with hreader
    cases hstep
    exact h.set ha rfl (fun hlisted => absurd hreader hlisted.1)
      fun hmanaged => absurd hreader hmanaged.2.1

lemma alive_step (h : s.Alive) {e : NetEvent} (hok : RegistersInTime s e)
    (hstep : s.step e = some s') : s'.Alive := by
  cases e with
  | tick nanos =>
    cases hstep
    exact ⟨h.listed, h.managed⟩
  | ban ip duration =>
    cases hstep
    exact ⟨h.listed, h.managed⟩
  | addAddresses addresses source =>
    cases hstep
    exact ⟨h.listed, h.managed⟩
  | misbehaving addr howMuch =>
    simp only [Network.step] at hstep
    split at hstep
    · rename_i peer hpeer
      cases hstep
      exact alive_scorePeer h hpeer howMuch
    · cases hstep
      exact h
  | recordMisbehavior addr score =>
    cases hstep
    exact alive_recordScore h addr score
  | runTask i =>
    simp only [Network.step] at hstep
    split at hstep
    · cases hstep
      exact alive_perform (s := { s with tasks := s.tasks.eraseIdx i }) h _
    · cases hstep
  | clear =>
    cases hstep
    exact ⟨Owned.empty, h.managed⟩
  | accept e => exact alive_stepAccept h hstep
  | initiate l e => exact alive_stepLoop h hstep
  | attempt c e =>
    simp only [Network.step] at hstep
    split at hstep
    · rename_i a ha
      exact alive_stepAttempt h ha hok hstep
    · cases hstep

/-- In a run in which every connection is entered before it is cleared, no entry of a finalized
connection is ever in a table. -/
theorem noGhosts_of_registersInTime (known saved : AddrMan) (s : Network)
    (hrun : Reachable Network.step (fun s e _ => RegistersInTime s e) (init known saved) s) :
    s.NoGhosts := by
  have halive : s.Alive := by
    refine hrun.invariant Alive ⟨Owned.empty, Owned.empty⟩ ?_
    intro s e s' hs hstep hok
    exact alive_step hs hok hstep
  exact noGhosts_of_alive halive

end

end Network

namespace Sample

/-- The end of the read loop and `finalize_node`. -/
def finalizeNode (c : ConnId) : List NetEvent :=
  [.attempt c .stopReading, .attempt c .finalizeManager, .attempt c .finalizeTable,
    .attempt c .finalizeSync]

/-- A peer that goes away right after the handshake stays in both tables. -/
theorem ghost_of_early_finalize :
    ∃ s, Reachable Network.step (fun _ _ _ => True) (.init .new .new) s ∧ ¬s.NoGhosts := by
  have hghost : (afterSteps (inboundHandshake 0 50000 ++ finalizeNode 0 ++
      [.attempt 0 .addPeer, .attempt 0 .initializeNode])).map (fun s =>
        (s.attempts.map Attempt.reader, (s.table.peers.lookup (peerAddr 50000)).map NodeHandle.id,
          (s.manager.lookup (peerAddr 50000)).map Peer.owner)) =
      some ([.finalized], some 0, some 0) := by
    decide +kernel
  obtain ⟨s, hs, heq⟩ := Option.map_eq_some_iff.mp hghost
  obtain ⟨hreader, hpeers, -⟩ : s.attempts.map Attempt.reader = [.finalized] ∧
      (s.table.peers.lookup (peerAddr 50000)).map NodeHandle.id = some 0 ∧
      (s.manager.lookup (peerAddr 50000)).map Peer.owner = some 0 := by
    simpa [Prod.ext_iff] using heq
  refine ⟨s, Reachable.of_run (fun _ _ _ _ => trivial) .init hs, fun h => ?_⟩
  obtain ⟨a, ha, hfinal⟩ : ∃ a, s.attempts[0]? = some a ∧ a.reader = .finalized := by
    cases hattempts : s.attempts with
    | nil => simp [hattempts] at hreader
    | cons a as =>
      simp only [hattempts, List.map_cons, List.cons.injEq] at hreader
      exact ⟨a, rfl, hreader.1⟩
  obtain ⟨handle, hhandle, hid⟩ := Option.map_eq_some_iff.mp hpeers
  exact (h 0 a ha hfinal).1 _ handle hhandle hid

/-- The condition as a test. -/
def registersInTime (s : Network) : NetEvent → Bool
  | .attempt c .addPeer =>
    (s.attempts[c]?).all fun a => a.reader ≠ .unlisted ∧ a.reader ≠ .finalized
  | .attempt c .initializeNode =>
    (s.attempts[c]?).all fun a =>
      a.reader ≠ .unmanaged ∧ a.reader ≠ .unlisted ∧ a.reader ≠ .finalized
  | _ => true

lemma registersInTime_iff (s : Network) (e : NetEvent) (h : registersInTime s e = true) :
    RegistersInTime s e := by
  cases e with
  | attempt c e =>
    cases e with
    | addPeer =>
      intro a ha
      simpa [registersInTime, ha, ReaderPhase.maybeListed] using h
    | initializeNode =>
      intro a ha
      simpa [registersInTime, ha, ReaderPhase.maybeManaged, ReaderPhase.maybeListed] using h
    | _ => trivial
  | _ => trivial

/-- Two connections with the same address, one after the other, both entered before they end. -/
theorem noGhosts_twice :
    ∃ s, Reachable Network.step (fun s e _ => RegistersInTime s e) (.init .new .new) s ∧
      s.attempts.map Attempt.reader = [.finalized, .finalized] ∧ s.NoGhosts := by
  have hrun : (Reachable.run Network.step (fun s e _ => registersInTime s e) (.init .new .new)
      (inboundHandshake 0 50000 ++ [.attempt 0 .addPeer, .attempt 0 .initializeNode] ++
        finalizeNode 0 ++ inboundHandshake 1 50000 ++
        [.attempt 1 .addPeer, .attempt 1 .initializeNode] ++ finalizeNode 1)).map
          (fun s => s.attempts.map Attempt.reader) = some [.finalized, .finalized] := by
    decide +kernel
  obtain ⟨s, hs, hreaders⟩ := Option.map_eq_some_iff.mp hrun
  have hreachable : Reachable Network.step (fun s e _ => RegistersInTime s e) (.init .new .new) s :=
    Reachable.of_run (fun s e _ => registersInTime_iff s e) .init hs
  exact ⟨s, hreachable, hreaders, Network.noGhosts_of_registersInTime .new .new s hreachable⟩

end Sample

end Bitcrab
