import Bitcrab.Lib.Counters
import Bitcrab.Lib.Lease
import Bitcrab.Net.HeaderSync

/-!
# Requests for headers (`net/p2p/sync/sync_manager.rs`, `peer_manager.rs`, `block_downloader.rs`)

`SyncManager` lets one `getheaders` request be outstanding. The messages of headers, the new
connections, the ends of connections and the downloader are tasks of their own that share it, so a
task is a program counter, and each of its steps holds at most one lock. What a step asks of the
validation, the peer table and the clocks is an argument; a lock is held for one moment of time.
-/

namespace Bitcrab

/-- `HEADER_REQUEST_TIMEOUT`, 15 seconds. -/
def headerRequestTimeout : Nat := 15 * 1000000000

/-- `HeaderRequestState`. -/
structure HeaderRequestState (Peer : Type) where
  peerAddr : Peer
  locatorTip : BlockHash
  locatorHeight : UInt32
  requestedAt : Nat

/-- The fields of `SyncManager` for header requests. -/
structure HeaderSlot (Peer : Type) where
  headerRequest : Option (HeaderRequestState Peer)
  headerSyncCooldowns : HashMap Peer Nat

namespace HeaderSlot

variable {Peer : Type} [DecidableEq Peer]

/-- `can_peer_sync_headers`. -/
def canPeerSyncHeaders (m : HeaderSlot Peer) (peer : Peer) (now : Nat) : Bool × HeaderSlot Peer :=
  let cooldowns := m.headerSyncCooldowns.retain fun _ deadline => decide (deadline > now)
  (!(cooldowns.lookup peer).isSome, { m with headerSyncCooldowns := cooldowns })

omit [DecidableEq Peer] in
/-- The new request of `try_begin_header_request`. -/
def place (m : HeaderSlot Peer) (peer : Peer) (tip : SyncTip) (now : Nat) : HeaderSlot Peer :=
  { m with headerRequest := some ⟨peer, tip.hash, tip.height, now⟩ }

/-- A request that timed out, in `try_begin_header_request`. -/
def expire (m : HeaderSlot Peer) (existing : HeaderRequestState Peer) (timeout now : Nat) :
    HeaderSlot Peer :=
  { headerRequest := none
    headerSyncCooldowns := m.headerSyncCooldowns.insert existing.peerAddr (now + timeout) }

/-- `try_begin_header_request` after the check of the cooldown, under the lock of `header_request`.
-/
def reserve (m : HeaderSlot Peer) (peer : Peer) (tip : SyncTip) (timeout now : Nat) :
    Bool × HeaderSlot Peer :=
  match m.headerRequest with
  | some existing =>
    if now - existing.requestedAt < timeout then (false, m)
    else
      let m := m.expire existing timeout now
      if existing.peerAddr = peer then (false, m) else (true, m.place peer tip now)
  | none => (true, m.place peer tip now)

/-- The request that `finish_header_request` takes out. -/
def isHeldBy (m : HeaderSlot Peer) (peer : Peer) : Bool :=
  match m.headerRequest with
  | some state => state.peerAddr == peer
  | none => false

/-- `finish_header_request` under the lock of `header_request`. -/
def takeRequest (m : HeaderSlot Peer) (peer : Peer) : HeaderSlot Peer :=
  if m.isHeldBy peer then { m with headerRequest := none } else m

/-- `finish_header_request` under the lock of `header_sync_cooldowns`. -/
def forgive (m : HeaderSlot Peer) (peer : Peer) : HeaderSlot Peer :=
  { m with headerSyncCooldowns := m.headerSyncCooldowns.erase peer }

end HeaderSlot

/-- The callers of `try_begin_header_request`. -/
inductive HeaderCaller where
  | onHeaders
  | syncWithPeer
  | coordinateHeaders

/-- Where a task is. A request that is begun has a number, and the task that is to send it keeps
it. -/
inductive HeaderTask (Peer : Type) where
  | onHeaders (peer : Peer) (headers : List BlockHeader)
  | process (peer : Peer) (headers : List BlockHeader)
  | syncWithPeer (peer : Peer)
  | coordinateHeaders
  | select (rest : List Peer) (best : Option (Peer × UInt32))
  | compare (peer : Peer) (rest : List Peer) (best : Option (Peer × UInt32))
  | tip (peer : Peer)
  | guard (peer : Peer) (tip : SyncTip)
  | check (caller : HeaderCaller) (peer : Peer) (tip : SyncTip)
  | reserve (caller : HeaderCaller) (peer : Peer) (tip : SyncTip)
  | send (caller : HeaderCaller) (peer : Peer) (tip : SyncTip) (number : Nat)
  | finish (peer : Peer) (next : HeaderTask Peer)
  | forgive (peer : Peer) (next : HeaderTask Peer)
  | unlock
  | done

/-- What a step may ask: `is_ibd`, the peers with `get_peers(Some(1))`, the heights that
`process_headers` answers, if it is no error, and whether a message could be sent. -/
structure HeaderAnswers (Peer : Type) where
  ibd : Bool := true
  networkPeers : List Peer := []
  heights : Option (List UInt32) := none
  sent : Bool := true

/-- The requests so far: those that were sent, with the tip of their locator and their number; how
many were begun, which is the number of the last one, and how many were finished in time; and those
that were begun and whose peer has not finished since. -/
structure HeaderLog (Peer : Type) where
  sent : List (Peer × SyncTip × Nat)
  begun : Nat
  finished : Nat
  outstanding : List (Peer × Nat)

/-- The parts of `SyncManager` and `PeerManager` that the tasks share, and the tasks. -/
structure HeaderRequests (Peer : Type) where
  now : Nat
  headersTip : SyncTip
  peerHeights : HashMap Peer UInt32
  slot : HeaderSlot Peer
  headerProcessing : Bool
  tasks : List (HeaderTask Peer)
  log : HeaderLog Peer

/-- Where a caller is after its request, sent or not. -/
def HeaderCaller.after {Peer : Type} : HeaderCaller → HeaderTask Peer
  | onHeaders => .unlock
  | syncWithPeer => .done
  | coordinateHeaders => .done

/-- Where a caller is after a request that could not be sent; the downloader finishes the request
and then calls `on_peer_disconnect`. -/
def HeaderCaller.onSendError {Peer : Type} (peer : Peer) : HeaderCaller → HeaderTask Peer
  | coordinateHeaders => .finish peer (.finish peer .done)
  | caller => .finish peer caller.after

namespace HeaderRequests

variable {Peer : Type} [DecidableEq Peer]

omit [DecidableEq Peer] in
/-- `SyncManager::with_tips` with no task. -/
def new (headersTip : SyncTip) : HeaderRequests Peer :=
  ⟨0, headersTip, ∅, ⟨none, ∅⟩, false, [], ⟨[], 0, 0, []⟩⟩

/-- `get_peer_height`. -/
def getPeerHeight (s : HeaderRequests Peer) (peer : Peer) : UInt32 :=
  (s.peerHeights.lookup peer).getD 0

/-- `try_begin_header_request` under the lock of `header_request`, with the next point of the task.
-/
def reserve (s : HeaderRequests Peer) (caller : HeaderCaller) (peer : Peer) (tip : SyncTip) :
    HeaderRequests Peer × HeaderTask Peer :=
  let (begun, slot) := s.slot.reserve peer tip headerRequestTimeout s.now
  if begun then
    ({ s with
      slot
      log := { s.log with
        begun := s.log.begun + 1
        outstanding := (peer, s.now) :: s.log.outstanding } },
      .send caller peer tip (s.log.begun + 1))
  else ({ s with slot }, caller.after)

/-- `finish_header_request` under the lock of `header_request`. -/
def finish (s : HeaderRequests Peer) (peer : Peer) : HeaderRequests Peer :=
  { s with
    slot := s.slot.takeRequest peer
    log := { s.log with
      finished := s.log.finished + if s.slot.isHeldBy peer then 1 else 0
      outstanding := s.log.outstanding.filter (·.1 ≠ peer) } }

/-- `on_headers` after the request is finished: the tip is set to the last header that was accepted,
and after a full batch its peer is asked for more. -/
def process [Sha2] (s : HeaderRequests Peer) (peer : Peer) (headers : List BlockHeader)
    (heights : Option (List UInt32)) : HeaderRequests Peer × HeaderTask Peer :=
  if headers.isEmpty then (s, .unlock)
  else
    match heights with
    | none => (s, .unlock)
    | some heights =>
      match (headers.zip heights).getLast? with
      | none => (s, .unlock)
      | some (last, height) =>
        let s := if last.blockHash ≠ Digest.zero then
            { s with headersTip := s.headersTip.updateHeadersTip last.blockHash height }
          else s
        (s, if headers.length = 2000 then .check .onHeaders peer ⟨last.blockHash, height⟩
          else .unlock)

/-- One step of a task; none where it waits for `header_processing` or has ended. -/
def advance [Sha2] (a : HeaderAnswers Peer) (s : HeaderRequests Peer) :
    HeaderTask Peer → Option (HeaderRequests Peer × HeaderTask Peer)
  | .onHeaders peer headers =>
    if s.headerProcessing then none
    else some ({ s with headerProcessing := true }, .finish peer (.process peer headers))
  | .process peer headers => some (s.process peer headers a.heights)
  | .syncWithPeer peer =>
    some (s, if a.ibd then .check .syncWithPeer peer s.headersTip else .done)
  | .coordinateHeaders => some (s, if a.ibd then .select a.networkPeers none else .done)
  | .select [] none => some (s, .done)
  | .select [] (some (peer, _)) => some (s, .tip peer)
  | .select (peer :: rest) best =>
    let (allowed, slot) := s.slot.canPeerSyncHeaders peer s.now
    some ({ s with slot }, if allowed then .compare peer rest best else .select rest best)
  | .compare peer rest best =>
    let height := s.getPeerHeight peer
    let best := match best with
      | some (other, highest) => if highest > height then (other, highest) else (peer, height)
      | none => (peer, height)
    some (s, .select rest (some best))
  | .tip peer => some (s, .guard peer s.headersTip)
  | .guard peer tip =>
    let height := s.getPeerHeight peer
    some (s, if height > 0 ∧ tip.height ≥ height then .done else .check .coordinateHeaders peer tip)
  | .check caller peer tip =>
    let (allowed, slot) := s.slot.canPeerSyncHeaders peer s.now
    some ({ s with slot }, if allowed then .reserve caller peer tip else caller.after)
  | .reserve caller peer tip => some (s.reserve caller peer tip)
  | .send caller peer tip number =>
    if a.sent then
      some ({ s with log := { s.log with sent := (peer, tip, number) :: s.log.sent } },
        caller.after)
    else some (s, caller.onSendError peer)
  | .finish peer next => some (s.finish peer, .forgive peer next)
  | .forgive peer next => some ({ s with slot := s.slot.forgive peer }, next)
  | .unlock => some ({ s with headerProcessing := false }, .done)
  | .done => none

/-- The time goes on, the height of a peer is noted, a task starts or takes a step. -/
inductive Event (Peer : Type) where
  | tick (now : Nat)
  | updatePeerHeight (peer : Peer) (height : UInt32)
  | receive (peer : Peer) (headers : List BlockHeader)
  | connect (peer : Peer)
  | disconnect (peer : Peer)
  | coordinate
  | advance (i : Nat) (a : HeaderAnswers Peer)

omit [DecidableEq Peer] in
/-- A new task. -/
def spawn (s : HeaderRequests Peer) (task : HeaderTask Peer) : HeaderRequests Peer :=
  { s with tasks := s.tasks ++ [task] }

/-- One event. -/
def step [Sha2] (s : HeaderRequests Peer) : Event Peer → Option (HeaderRequests Peer)
  | .tick now => if s.now ≤ now then some { s with now } else none
  | .updatePeerHeight peer height =>
    some { s with peerHeights := s.peerHeights.insert peer height }
  | .receive peer headers => some (s.spawn (.onHeaders peer headers))
  | .connect peer => some (s.spawn (.syncWithPeer peer))
  | .disconnect peer => some (s.spawn (.finish peer .done))
  | .coordinate => some (s.spawn .coordinateHeaders)
  | .advance i a =>
    match s.tasks[i]? with
    | none => none
    | some task =>
      match s.advance a task with
      | none => none
      | some (s', task') => some { s' with tasks := s.tasks.set i task' }

end HeaderRequests

/-! ### What a task is about to do -/

namespace HeaderTask

variable {Peer : Type}

/-- The peer that a task may still ask without a further check of the cooldown. -/
def asks : HeaderTask Peer → Option Peer
  | reserve _ peer _ => some peer
  | send _ peer _ _ => some peer
  | finish _ next => next.asks
  | forgive _ next => next.asks
  | _ => none

/-- The task has begun a request and not sent it yet. -/
def sends : HeaderTask Peer → Bool
  | send .. => true
  | finish _ next => next.sends
  | forgive _ next => next.sends
  | _ => false

/-- The step that the task is at begins, sends or finishes a request, or ends a cooldown. -/
def isRequest : HeaderTask Peer → Bool
  | reserve .. => true
  | send .. => true
  | finish .. => true
  | forgive .. => true
  | _ => false

/-- The task is about to send the request of a number, or to finish it. -/
def FollowsUp (r : HeaderRequestState Peer) (number : Nat) (t : HeaderTask Peer) : Prop :=
  (∃ caller, t = .send caller r.peerAddr ⟨r.locatorTip, r.locatorHeight⟩ number) ∨
    ∃ next, t = .finish r.peerAddr next

lemma sends_of_asks {t : HeaderTask Peer} (h : t.asks = none) : t.sends = false := by
  induction t with
  | send caller peer tip number => simp [asks] at h
  | finish peer next ih => exact ih h
  | forgive peer next ih => exact ih h
  | _ => rfl

lemma asks_after (caller : HeaderCaller) : (caller.after : HeaderTask Peer).asks = none := by
  cases caller <;> rfl

lemma asks_onSendError (caller : HeaderCaller) (peer : Peer) :
    (caller.onSendError peer).asks = none := by
  cases caller <;> rfl

/-- A request that could not be sent is finished. -/
lemma onSendError_eq (caller : HeaderCaller) (peer : Peer) :
    ∃ next, caller.onSendError peer = .finish peer next := by
  cases caller <;> exact ⟨_, rfl⟩

end HeaderTask

namespace HeaderRequests

variable {Peer : Type} [DecidableEq Peer] {s s' s₀ : HeaderRequests Peer}
  {t t' : HeaderTask Peer} {a : HeaderAnswers Peer} {e : Event Peer}

/-- A step that leaves the request, the log and the cooldowns that are not over. -/
structure Quiet (s s' : HeaderRequests Peer) : Prop where
  now : s'.now = s.now
  log : s'.log = s.log
  headerRequest : s'.slot.headerRequest = s.slot.headerRequest
  cooldowns : ∀ peer deadline, s.slot.headerSyncCooldowns.lookup peer = some deadline →
    s.now < deadline → s'.slot.headerSyncCooldowns.lookup peer = some deadline

omit [DecidableEq Peer] in
lemma Quiet.refl [DecidableEq Peer] (s : HeaderRequests Peer) : s.Quiet s :=
  ⟨rfl, rfl, rfl, fun _ _ h _ => h⟩

lemma quiet_canPeerSyncHeaders (s : HeaderRequests Peer) (peer : Peer) :
    s.Quiet { s with slot := (s.slot.canPeerSyncHeaders peer s.now).2 } :=
  ⟨rfl, rfl, rfl, fun _ _ h hlt => HashMap.lookup_retain_of_keep h (decide_eq_true hlt)⟩

/-- The check fails for a peer in its cooldown. -/
lemma canPeerSyncHeaders_eq_false {peer : Peer} {deadline : Nat}
    (h : s.slot.headerSyncCooldowns.lookup peer = some deadline) (hlt : s.now < deadline) :
    (s.slot.canPeerSyncHeaders peer s.now).1 = false := by
  have hkept := (quiet_canPeerSyncHeaders s peer).cooldowns peer deadline h hlt
  simp only [HeaderSlot.canPeerSyncHeaders] at hkept ⊢
  rw [hkept]
  rfl

section

variable [Sha2]

omit [DecidableEq Peer] in
lemma process_spec [DecidableEq Peer] (s : HeaderRequests Peer) (peer : Peer)
    (headers : List BlockHeader) (heights : Option (List UInt32)) :
    s.Quiet (s.process peer headers heights).1 ∧
      (s.process peer headers heights).2.asks = none := by
  unfold process
  by_cases hempty : headers.isEmpty
  · rw [if_pos hempty]
    exact ⟨.refl s, rfl⟩
  · rw [if_neg hempty]
    cases heights with
    | none => exact ⟨.refl s, rfl⟩
    | some heights =>
      dsimp only
      cases (headers.zip heights).getLast? with
      | none => exact ⟨.refl s, rfl⟩
      | some x =>
        dsimp only
        refine ⟨?_, ?_⟩
        · split_ifs <;> exact ⟨rfl, rfl, rfl, fun _ _ h _ => h⟩
        · by_cases hfull : headers.length = 2000
          · rw [if_pos hfull]
            rfl
          · rw [if_neg hfull]
            rfl

/-- What a step of a task can do: nothing to the requests; pass the check of the cooldown; or one of
the sections of a request. -/
lemma advance_cases (h : s.advance a t = some (s', t')) :
    (t.isRequest = false ∧ s.Quiet s' ∧ (t'.asks = none ∨
        ∃ caller peer tip, t' = .reserve caller peer tip ∧
          (s.slot.canPeerSyncHeaders peer s.now).1 = true)) ∨
      (∃ caller peer tip, t = .reserve caller peer tip ∧ (s', t') = s.reserve caller peer tip) ∨
      (∃ caller peer tip number, t = .send caller peer tip number ∧
        (t' = caller.after ∧
            s' = { s with log := { s.log with sent := (peer, tip, number) :: s.log.sent } } ∨
          t' = caller.onSendError peer ∧ s' = s)) ∨
      (∃ peer next, t = .finish peer next ∧ t' = .forgive peer next ∧ s' = s.finish peer) ∨
      (∃ peer, t = .forgive peer t' ∧ s' = { s with slot := s.slot.forgive peer }) := by
  cases t with
  | onHeaders peer headers =>
    simp only [advance] at h
    split_ifs at h
    obtain ⟨rfl, rfl⟩ := Prod.mk.inj (Option.some.inj h)
    exact .inl ⟨rfl, ⟨rfl, rfl, rfl, fun _ _ h _ => h⟩, .inl rfl⟩
  | process peer headers =>
    obtain ⟨hs, ht⟩ := Prod.mk.inj (Option.some.inj h)
    obtain ⟨hquiet, hasks⟩ := process_spec s peer headers a.heights
    exact .inl ⟨rfl, hs ▸ hquiet, .inl (ht ▸ hasks)⟩
  | syncWithPeer peer =>
    obtain ⟨rfl, rfl⟩ := Prod.mk.inj (Option.some.inj h)
    refine .inl ⟨rfl, .refl s, .inl ?_⟩
    split_ifs <;> rfl
  | coordinateHeaders =>
    obtain ⟨rfl, rfl⟩ := Prod.mk.inj (Option.some.inj h)
    refine .inl ⟨rfl, .refl s, .inl ?_⟩
    split_ifs <;> rfl
  | select rest best =>
    cases rest with
    | nil =>
      cases best <;>
      · obtain ⟨rfl, rfl⟩ := Prod.mk.inj (Option.some.inj h)
        exact .inl ⟨rfl, .refl s, .inl rfl⟩
    | cons peer rest =>
      obtain ⟨rfl, rfl⟩ := Prod.mk.inj (Option.some.inj h)
      refine .inl ⟨rfl, quiet_canPeerSyncHeaders s peer, .inl ?_⟩
      split_ifs <;> rfl
  | compare peer rest best =>
    obtain ⟨rfl, rfl⟩ := Prod.mk.inj (Option.some.inj h)
    exact .inl ⟨rfl, .refl s, .inl rfl⟩
  | tip peer =>
    obtain ⟨rfl, rfl⟩ := Prod.mk.inj (Option.some.inj h)
    exact .inl ⟨rfl, .refl s, .inl rfl⟩
  | guard peer tip =>
    obtain ⟨rfl, rfl⟩ := Prod.mk.inj (Option.some.inj h)
    refine .inl ⟨rfl, .refl s, .inl ?_⟩
    split_ifs <;> rfl
  | check caller peer tip =>
    obtain ⟨rfl, rfl⟩ := Prod.mk.inj (Option.some.inj h)
    refine .inl ⟨rfl, quiet_canPeerSyncHeaders s peer, ?_⟩
    split_ifs with hallowed
    · exact .inr ⟨caller, peer, tip, rfl, hallowed⟩
    · exact .inl (HeaderTask.asks_after caller)
  | reserve caller peer tip =>
    exact .inr (.inl ⟨caller, peer, tip, rfl, (Option.some.inj h).symm⟩)
  | send caller peer tip number =>
    simp only [advance] at h
    split_ifs at h
    · obtain ⟨rfl, rfl⟩ := Prod.mk.inj (Option.some.inj h)
      exact .inr (.inr (.inl ⟨caller, peer, tip, number, rfl, .inl ⟨rfl, rfl⟩⟩))
    · obtain ⟨rfl, rfl⟩ := Prod.mk.inj (Option.some.inj h)
      exact .inr (.inr (.inl ⟨caller, peer, tip, number, rfl, .inr ⟨rfl, rfl⟩⟩))
  | finish peer next =>
    obtain ⟨rfl, rfl⟩ := Prod.mk.inj (Option.some.inj h)
    exact .inr (.inr (.inr (.inl ⟨peer, next, rfl, rfl, rfl⟩)))
  | forgive peer next =>
    obtain ⟨rfl, rfl⟩ := Prod.mk.inj (Option.some.inj h)
    exact .inr (.inr (.inr (.inr ⟨peer, rfl, rfl⟩)))
  | unlock =>
    obtain ⟨rfl, rfl⟩ := Prod.mk.inj (Option.some.inj h)
    exact .inl ⟨rfl, ⟨rfl, rfl, rfl, fun _ _ h _ => h⟩, .inl rfl⟩
  | done => cases h

/-- What an event can do: a step of a task, or the time goes on, the height of a peer is noted, or a
task starts that asks no peer yet. -/
lemma step_cases (h : s.step e = some s') :
    (∃ i a t s₁ t', e = .advance i a ∧ s.tasks[i]? = some t ∧ s.advance a t = some (s₁, t') ∧
        s' = { s₁ with tasks := s.tasks.set i t' }) ∨
      (∃ now, s.now ≤ now ∧ s' = { s with now }) ∨
      (∃ peerHeights, s' = { s with peerHeights }) ∨
      (∃ t, t.asks = none ∧ s' = s.spawn t) := by
  cases e with
  | tick now =>
    simp only [step] at h
    split_ifs at h with hle
    exact .inr (.inl ⟨now, hle, (Option.some.inj h).symm⟩)
  | updatePeerHeight peer height => exact .inr (.inr (.inl ⟨_, (Option.some.inj h).symm⟩))
  | receive peer headers => exact .inr (.inr (.inr ⟨_, rfl, (Option.some.inj h).symm⟩))
  | connect peer => exact .inr (.inr (.inr ⟨_, rfl, (Option.some.inj h).symm⟩))
  | disconnect peer => exact .inr (.inr (.inr ⟨_, rfl, (Option.some.inj h).symm⟩))
  | coordinate => exact .inr (.inr (.inr ⟨_, rfl, (Option.some.inj h).symm⟩))
  | advance i a =>
    simp only [step] at h
    cases htask : s.tasks[i]? with
    | none => simp [htask] at h
    | some t =>
      cases hadvance : s.advance a t with
      | none => simp [htask, hadvance] at h
      | some x =>
        obtain ⟨s₁, t'⟩ := x
        simp only [htask, hadvance, Option.some.injEq] at h
        exact .inl ⟨i, a, t, s₁, t', rfl, htask, hadvance, h.symm⟩

end

/-! ### The slot is a lease -/

/-- The request in the slot, as a lease of `headerRequestTimeout`. -/
def toLease (s : HeaderRequests Peer) : Lease Peer :=
  ⟨s.now, s.slot.headerRequest.map fun r => (r.peerAddr, r.requestedAt), s.log.outstanding,
    s.log.begun, s.log.finished⟩

/-- The request of `try_begin_header_request` that timed out is dropped. -/
def expire (s : HeaderRequests Peer) (r : HeaderRequestState Peer) : HeaderRequests Peer :=
  { s with slot := s.slot.expire r headerRequestTimeout s.now }

/-- A request is begun. -/
def place (s : HeaderRequests Peer) (peer : Peer) (tip : SyncTip) : HeaderRequests Peer :=
  { s with
    slot := s.slot.place peer tip s.now
    log := { s.log with
      begun := s.log.begun + 1
      outstanding := (peer, s.now) :: s.log.outstanding } }

/-- The slot is taken: the request waits, or the slot was free, or the one in the slot timed out;
one that timed out is not followed by another of its peer. -/
lemma reserve_cases (s : HeaderRequests Peer) (caller : HeaderCaller) (peer : Peer)
    (tip : SyncTip) :
    (∃ r, s.slot.headerRequest = some r ∧ s.now < r.requestedAt + headerRequestTimeout ∧
        s.reserve caller peer tip = (s, caller.after)) ∨
      (s.slot.headerRequest = none ∧
        s.reserve caller peer tip =
          (s.place peer tip, .send caller peer tip (s.log.begun + 1))) ∨
      ∃ r, s.slot.headerRequest = some r ∧ r.requestedAt + headerRequestTimeout ≤ s.now ∧
        (r.peerAddr = peer ∧ s.reserve caller peer tip = (s.expire r, caller.after) ∨
          r.peerAddr ≠ peer ∧ s.reserve caller peer tip =
            ((s.expire r).place peer tip, .send caller peer tip (s.log.begun + 1))) := by
  unfold reserve HeaderSlot.reserve
  cases hrequest : s.slot.headerRequest with
  | none => exact .inr (.inl ⟨rfl, rfl⟩)
  | some r =>
    dsimp only
    by_cases hwait : s.now - r.requestedAt < headerRequestTimeout
    · rw [if_pos hwait]
      exact .inl ⟨r, rfl, by omega, rfl⟩
    · rw [if_neg hwait]
      have hlate : r.requestedAt + headerRequestTimeout ≤ s.now := by
        unfold headerRequestTimeout at hwait ⊢
        omega
      refine .inr (.inr ⟨r, rfl, hlate, ?_⟩)
      by_cases hpeer : r.peerAddr = peer
      · rw [if_pos hpeer]
        exact .inl ⟨hpeer, rfl⟩
      · rw [if_neg hpeer]
        exact .inr ⟨hpeer, rfl⟩

/-- The first part of `finish_header_request` gives the lease back, or finds that another holds it.
-/
lemma steps_finish (s : HeaderRequests Peer) (peer : Peer) :
    Lease.Steps headerRequestTimeout s.toLease (s.finish peer).toLease := by
  have hlate : (∀ r, s.slot.headerRequest = some r → r.peerAddr ≠ peer) →
      (s.finish peer).toLease =
        { s.toLease with outstanding := s.toLease.outstanding.filter (·.1 ≠ peer) } := by
    intro hother
    have hheld : s.slot.isHeldBy peer = false := by
      unfold HeaderSlot.isHeldBy
      cases hrequest : s.slot.headerRequest with
      | none => rfl
      | some r => exact beq_false_of_ne (hother r hrequest)
    simp [finish, toLease, HeaderSlot.takeRequest, hheld]
  by_cases hheld : ∃ r, s.slot.headerRequest = some r ∧ r.peerAddr = peer
  · obtain ⟨r, hrequest, rfl⟩ := hheld
    have hlease : (s.finish r.peerAddr).toLease = { s.toLease with
        holder := none
        outstanding := s.toLease.outstanding.filter (·.1 ≠ r.peerAddr)
        returned := s.toLease.returned + 1 } := by
      simp [finish, toLease, HeaderSlot.takeRequest, HeaderSlot.isHeldBy, hrequest]
    rw [hlease]
    exact .single (.giveBack _ r.peerAddr r.requestedAt (by simp [toLease, hrequest]))
  · have hother : ∀ r, s.slot.headerRequest = some r → r.peerAddr ≠ peer :=
      fun r hrequest hpeer => hheld ⟨r, hrequest, hpeer⟩
    rw [hlate hother]
    refine .single (.late _ peer fun since hholder => ?_)
    obtain ⟨r, hrequest, hr⟩ := Option.map_eq_some_iff.mp hholder
    exact hother r hrequest (Prod.mk.inj hr).1

lemma steps_expire {r : HeaderRequestState Peer} (hrequest : s.slot.headerRequest = some r)
    (hlate : r.requestedAt + headerRequestTimeout ≤ s.now) :
    Lease.Steps headerRequestTimeout s.toLease (s.expire r).toLease :=
  .single (.lapse _ r.peerAddr r.requestedAt (by simp [toLease, hrequest]) hlate)

omit [DecidableEq Peer] in
lemma steps_place [DecidableEq Peer] (hfree : s.slot.headerRequest = none) (peer : Peer)
    (tip : SyncTip) :
    Lease.Steps headerRequestTimeout s.toLease (s.place peer tip).toLease :=
  .single (.grant _ peer (by simp [toLease, hfree]))

lemma steps_reserve (s : HeaderRequests Peer) (caller : HeaderCaller) (peer : Peer)
    (tip : SyncTip) :
    Lease.Steps headerRequestTimeout s.toLease (s.reserve caller peer tip).1.toLease := by
  rcases reserve_cases s caller peer tip with ⟨-, -, -, heq⟩ | ⟨hfree, heq⟩ |
    ⟨r, hrequest, hlate, h⟩
  · rw [heq]
    exact .refl
  · rw [heq]
    exact steps_place hfree peer tip
  · rcases h with ⟨-, heq⟩ | ⟨-, heq⟩
    · rw [heq]
      exact steps_expire hrequest hlate
    · rw [heq]
      exact (steps_expire hrequest hlate).trans (steps_place rfl peer tip)

omit [DecidableEq Peer] in
lemma Quiet.toLease_eq [DecidableEq Peer] (h : s.Quiet s') : s'.toLease = s.toLease := by
  simp only [toLease, h.now, h.log, h.headerRequest]

section

variable [Sha2]

/-- Every event takes the slot through steps of a lease. -/
lemma steps_step (h : s.step e = some s') :
    Lease.Steps headerRequestTimeout s.toLease s'.toLease := by
  rcases step_cases h with ⟨i, a, t, s₁, t', -, -, hadvance, rfl⟩ | ⟨now, hle, rfl⟩ | ⟨_, rfl⟩ |
    ⟨t, -, rfl⟩
  · change Lease.Steps headerRequestTimeout s.toLease s₁.toLease
    rcases advance_cases hadvance with ⟨-, hquiet, -⟩ | ⟨caller, peer, tip, -, heq⟩ |
      ⟨_, _, _, _, -, ⟨-, rfl⟩ | ⟨-, rfl⟩⟩ | ⟨peer, _, -, -, rfl⟩ | ⟨_, -, rfl⟩
    · rw [hquiet.toLease_eq]
      exact .refl
    · rw [show s₁ = (s.reserve caller peer tip).1 from congrArg Prod.fst heq]
      exact steps_reserve s caller peer tip
    · exact .refl
    · exact .refl
    · exact steps_finish s peer
    · exact .refl
  · exact .single (.tick s.toLease now hle)
  · exact .refl
  · exact .refl

/-! ### How many requests are sent -/

/-- A step that sends a request takes it from those that were begun. -/
lemma sent_advance (h : s.advance a t = some (s', t')) :
    s'.log.sent.length + (if t'.sends then 1 else 0) + s.log.begun ≤
      s.log.sent.length + (if t.sends then 1 else 0) + s'.log.begun := by
  rcases advance_cases h with ⟨-, hquiet, hasks⟩ | ⟨caller, peer, tip, rfl, heq⟩ |
    ⟨caller, peer, tip, _, rfl, ⟨rfl, rfl⟩ | ⟨rfl, rfl⟩⟩ | ⟨_, _, rfl, rfl, rfl⟩ | ⟨_, rfl, rfl⟩
  · have hsends : t'.sends = false := by
      rcases hasks with hasks | ⟨_, _, _, rfl, -⟩
      · exact HeaderTask.sends_of_asks hasks
      · rfl
    rw [hquiet.log, hsends]
    simp only [Bool.false_eq_true, if_false]
    omega
  · have hafter : (caller.after : HeaderTask Peer).sends = false :=
      HeaderTask.sends_of_asks (HeaderTask.asks_after caller)
    rcases reserve_cases s caller peer tip with ⟨-, -, -, hsame⟩ | ⟨-, hplace⟩ |
      ⟨r, -, -, ⟨-, hsame⟩ | ⟨-, hplace⟩⟩
    · obtain ⟨rfl, rfl⟩ := Prod.mk.inj (heq.trans hsame)
      simp [hafter, HeaderTask.sends]
    · obtain ⟨rfl, rfl⟩ := Prod.mk.inj (heq.trans hplace)
      simp only [place, HeaderTask.sends, if_true]
      omega
    · obtain ⟨rfl, rfl⟩ := Prod.mk.inj (heq.trans hsame)
      simp [hafter, expire, HeaderTask.sends]
    · obtain ⟨rfl, rfl⟩ := Prod.mk.inj (heq.trans hplace)
      simp only [place, expire, HeaderTask.sends, if_true]
      omega
  · simp [HeaderTask.sends_of_asks (HeaderTask.asks_after caller), HeaderTask.sends]
  · simp [HeaderTask.sends_of_asks (HeaderTask.asks_onSendError caller peer)]
  · exact Nat.le_refl _
  · exact Nat.le_refl _

/-- What is sent, or about to be sent, was begun. -/
lemma sent_le_begun_step (h : s.step e = some s')
    (hs : s.log.sent.length + s.tasks.countP HeaderTask.sends ≤ s.log.begun) :
    s'.log.sent.length + s'.tasks.countP HeaderTask.sends ≤ s'.log.begun := by
  rcases step_cases h with ⟨i, a, t, s₁, t', -, htask, hadvance, rfl⟩ | ⟨_, -, rfl⟩ | ⟨_, rfl⟩ |
    ⟨t, hasks, rfl⟩
  · have hsent := sent_advance hadvance
    have hcount := List.countP_set_add (p := HeaderTask.sends) htask t'
    dsimp only
    omega
  · exact hs
  · exact hs
  · simpa [spawn, HeaderTask.sends_of_asks hasks] using hs

variable {headersTip : SyncTip}

lemma inv_toLease_of_reachable (h : Reachable step (fun _ _ _ => True) (new headersTip) s) :
    s.toLease.Inv headerRequestTimeout :=
  h.invariant (fun s => s.toLease.Inv headerRequestTimeout) Lease.inv_start
    fun _ _ _ hs hstep _ => hs.steps (steps_step hstep)

/-- In every run: for each request that was finished at most one is sent, and at most one more every
15 seconds. -/
theorem sent_le_of_reachable (h : Reachable step (fun _ _ _ => True) (new headersTip) s) :
    s.log.sent.length ≤ s.log.finished + s.now / headerRequestTimeout + 1 := by
  have hbegun : s.log.sent.length + s.tasks.countP HeaderTask.sends ≤ s.log.begun :=
    h.invariant (fun s => s.log.sent.length + s.tasks.countP HeaderTask.sends ≤ s.log.begun)
      (Nat.le_refl 0) fun _ _ _ hs hstep _ => sent_le_begun_step hstep hs
  have hgranted : s.log.begun ≤ s.log.finished + s.now / headerRequestTimeout + 1 :=
    (inv_toLease_of_reachable h).granted_le (Nat.lt_of_sub_pos (Nat.le_of_ble_eq_true rfl))
  omega

/-- In every run: of the requests that were begun and whose peer has neither answered nor left, at
most one is younger than 15 seconds. -/
theorem outstanding_le_one_of_reachable
    (h : Reachable step (fun _ _ _ => True) (new headersTip) s) :
    (s.log.outstanding.filter fun x => decide (s.now < x.2 + headerRequestTimeout)).length ≤ 1 :=
  (inv_toLease_of_reachable h).outstanding_le_one

/-! ### What holds the slot is sent -/

/-- The request in the slot is the one that was begun last. This very request was sent, or a task is
about to send it or to finish it. -/
def Followed (s : HeaderRequests Peer) : Prop :=
  ∀ r, s.slot.headerRequest = some r →
    (r.peerAddr, ⟨r.locatorTip, r.locatorHeight⟩, s.log.begun) ∈ s.log.sent ∨
      ∃ t ∈ s.tasks, t.FollowsUp r s.log.begun

omit [DecidableEq Peer] [Sha2] in
/-- The other tasks stay as they are. -/
lemma followed_set {i number : Nat} (htask : s.tasks[i]? = some t) {r : HeaderRequestState Peer}
    (hstay : t.FollowsUp r number → t'.FollowsUp r number)
    (h : ∃ t ∈ s.tasks, t.FollowsUp r number) : ∃ u ∈ s.tasks.set i t', u.FollowsUp r number := by
  obtain ⟨u, hu, hfollows⟩ := h
  obtain ⟨hi, rfl⟩ := List.getElem?_eq_some_iff.mp htask
  obtain ⟨j, hj, rfl⟩ := List.getElem_of_mem hu
  by_cases hij : i = j
  · subst hij
    exact ⟨t', List.mem_set hi t', hstay hfollows⟩
  · refine ⟨s.tasks[j], ?_, hfollows⟩
    exact List.mem_iff_getElem.mpr ⟨j, by simpa using hj, by simp [List.getElem_set_ne hij]⟩

omit [Sha2] in
/-- What is left in the slot when a request of a peer is finished is another's. -/
lemma headerRequest_finish {peer : Peer} {r : HeaderRequestState Peer}
    (h : (s.finish peer).slot.headerRequest = some r) :
    s.slot.headerRequest = some r ∧ r.peerAddr ≠ peer := by
  simp only [finish, HeaderSlot.takeRequest] at h
  split_ifs at h with hheld
  refine ⟨h, fun hpeer => hheld ?_⟩
  simp [HeaderSlot.isHeldBy, h, hpeer]

/-- One event. -/
lemma Followed.step (hs : s.Followed) (h : s.step e = some s') : s'.Followed := by
  intro r hr
  rcases step_cases h with ⟨i, a, t, s₁, t', -, htask, hadvance, rfl⟩ | ⟨_, -, rfl⟩ | ⟨_, rfl⟩ |
    ⟨t, -, rfl⟩
  · have hmem : t' ∈ s.tasks.set i t' :=
      List.mem_set (List.getElem?_eq_some_iff.mp htask).1 t'
    dsimp only at hr ⊢
    rcases advance_cases hadvance with ⟨hplain, hquiet, -⟩ | ⟨caller, peer, tip, rfl, heq⟩ |
      ⟨caller, peer, tip, number, rfl, ⟨-, rfl⟩ | ⟨rfl, rfl⟩⟩ | ⟨peer, _, rfl, -, rfl⟩ |
      ⟨_, rfl, rfl⟩
    · rw [hquiet.log]
      refine (hs r (hquiet.headerRequest ▸ hr)).imp id (followed_set htask fun hfollows => ?_)
      rcases hfollows with ⟨_, rfl⟩ | ⟨_, rfl⟩ <;> cases hplain
    · -- a new request is about to be sent
      rcases reserve_cases s caller peer tip with ⟨-, -, -, hsame⟩ | ⟨-, hplace⟩ |
        ⟨r', -, -, ⟨-, hsame⟩ | ⟨-, hplace⟩⟩
      · obtain ⟨rfl, rfl⟩ := Prod.mk.inj (heq.trans hsame)
        refine (hs r hr).imp id (followed_set htask fun hfollows => ?_)
        rcases hfollows with ⟨_, hcase⟩ | ⟨_, hcase⟩ <;> cases hcase
      · obtain ⟨rfl, rfl⟩ := Prod.mk.inj (heq.trans hplace)
        obtain rfl := Option.some.inj hr
        exact .inr ⟨_, hmem, .inl ⟨caller, rfl⟩⟩
      · obtain ⟨rfl, rfl⟩ := Prod.mk.inj (heq.trans hsame)
        cases hr
      · obtain ⟨rfl, rfl⟩ := Prod.mk.inj (heq.trans hplace)
        obtain rfl := Option.some.inj hr
        exact .inr ⟨_, hmem, .inl ⟨caller, rfl⟩⟩
    · -- the task that sent it no longer has to
      by_cases hself : (peer, tip, number) =
          (r.peerAddr, ⟨r.locatorTip, r.locatorHeight⟩, s.log.begun)
      · exact .inl (hself ▸ List.mem_cons_self)
      · refine (hs r hr).imp (List.mem_cons_of_mem _) (followed_set htask fun hfollows => ?_)
        rcases hfollows with ⟨_, hcase⟩ | ⟨_, hcase⟩
        · obtain ⟨-, hpeer, htip, hnumber⟩ := HeaderTask.send.inj hcase
          exact absurd (by rw [hpeer, htip, hnumber]) hself
        · cases hcase
    · by_cases hself : peer = r.peerAddr
      · subst hself
        obtain ⟨next, hnext⟩ := HeaderTask.onSendError_eq caller r.peerAddr
        exact .inr ⟨_, hmem, .inr ⟨next, hnext⟩⟩
      · refine (hs r hr).imp id (followed_set htask fun hfollows => ?_)
        rcases hfollows with ⟨_, hcase⟩ | ⟨_, hcase⟩
        · exact absurd (HeaderTask.send.inj hcase).2.1 hself
        · cases hcase
    · obtain ⟨hold, hother⟩ := headerRequest_finish hr
      refine (hs r hold).imp id (followed_set htask fun hfollows => ?_)
      rcases hfollows with ⟨_, hcase⟩ | ⟨_, hcase⟩
      · cases hcase
      · cases hcase
        exact absurd rfl hother
    · refine (hs r hr).imp id (followed_set htask fun hfollows => ?_)
      rcases hfollows with ⟨_, hcase⟩ | ⟨_, hcase⟩ <;> cases hcase
  · exact hs r hr
  · exact hs r hr
  · refine (hs r hr).imp id ?_
    rintro ⟨u, hu, hfollows⟩
    exact ⟨u, List.mem_append_left _ hu, hfollows⟩

/-- In every run: no request keeps the slot that was neither sent nor will be sent or finished by a
task. It is the request that was begun last, and its number tells it from earlier ones to the same
peer. -/
theorem followed_of_reachable (h : Reachable step (fun _ _ _ => True) (new headersTip) s)
    {r : HeaderRequestState Peer} (hrequest : s.slot.headerRequest = some r) :
    (r.peerAddr, ⟨r.locatorTip, r.locatorHeight⟩, s.log.begun) ∈ s.log.sent ∨
      ∃ t ∈ s.tasks, t.FollowsUp r s.log.begun :=
  h.invariant Followed (fun _ hr => absurd hr (by simp [new]))
    (fun _ _ _ hs hstep _ => hs.step hstep)
    r hrequest

/-! ### After a timeout -/

/-- The requests that were sent to a peer, and those that a task may send to it without a further
check of the cooldown. -/
def asked (s : HeaderRequests Peer) (peer : Peer) : Nat :=
  s.log.sent.countP (·.1 = peer) + s.tasks.countP (·.asks = some peer)

omit [Sha2] in
lemma countP_asks_set {i : Nat} (htask : s.tasks[i]? = some t) (t' : HeaderTask Peer)
    (peer : Peer) :
    (s.tasks.set i t').countP (·.asks = some peer) + (if t.asks = some peer then 1 else 0) =
      s.tasks.countP (·.asks = some peer) + if t'.asks = some peer then 1 else 0 := by
  simpa only [decide_eq_true_eq] using
    List.countP_set_add (p := fun t => decide (t.asks = some peer)) htask t'

/-- The cooldown of a peer lasts at least up to a time that is at most 15 seconds ahead. -/
structure Cooling (peer : Peer) (deadline : Nat) (s : HeaderRequests Peer) : Prop where
  lookup : ∃ d, s.slot.headerSyncCooldowns.lookup peer = some d ∧ deadline ≤ d
  near : deadline ≤ s.now + headerRequestTimeout

omit [Sha2] in
lemma cooling_expire {r : HeaderRequestState Peer} {peer : Peer} {deadline : Nat}
    (h : s.Cooling peer deadline ∨ r.peerAddr = peer ∧ deadline = s.now + headerRequestTimeout) :
    (s.expire r).Cooling peer deadline := by
  have hnear : deadline ≤ s.now + headerRequestTimeout := by
    rcases h with h | ⟨-, rfl⟩
    · exact h.near
    · exact Nat.le_refl _
  refine ⟨?_, hnear⟩
  by_cases hpeer : r.peerAddr = peer
  · subst hpeer
    exact ⟨_, AList.lookup_insert _, hnear⟩
  · rcases h with h | ⟨hself, -⟩
    · obtain ⟨d, hd, hle⟩ := h.lookup
      exact ⟨d, (AList.lookup_insert_ne (Ne.symm hpeer)).trans hd, hle⟩
    · exact absurd hself hpeer

omit [Sha2] in
lemma Cooling.place {peer : Peer} {deadline : Nat} (h : s.Cooling peer deadline) (q : Peer)
    (tip : SyncTip) : (s.place q tip).Cooling peer deadline :=
  ⟨h.lookup, h.near⟩

/-- One step of a task other than the one that ends the cooldown. -/
lemma Cooling.advance {peer : Peer} {deadline : Nat} (hs : s.Cooling peer deadline)
    (hnow : s.now < deadline) (h : s.advance a t = some (s', t')) (ht : t ≠ .forgive peer t') :
    s'.Cooling peer deadline ∧
      s'.log.sent.countP (·.1 = peer) + (if t'.asks = some peer then 1 else 0) ≤
        s.log.sent.countP (·.1 = peer) + (if t.asks = some peer then 1 else 0) := by
  obtain ⟨d, hd, hle⟩ := hs.lookup
  rcases advance_cases h with ⟨-, hquiet, hasks⟩ | ⟨caller, q, tip, rfl, heq⟩ |
    ⟨caller, q, tip, _, rfl, ⟨rfl, rfl⟩ | ⟨rfl, rfl⟩⟩ | ⟨_, _, rfl, rfl, rfl⟩ | ⟨q, rfl, rfl⟩
  · have hlt : s.now < d := Nat.lt_of_lt_of_le hnow hle
    refine ⟨⟨⟨d, hquiet.cooldowns peer d hd hlt, hle⟩, hquiet.now ▸ hs.near⟩, ?_⟩
    have hnot : t'.asks ≠ some peer := by
      rcases hasks with hasks | ⟨caller, q, tip, rfl, hallowed⟩
      · rw [hasks]
        nofun
      · rintro ⟨⟩
        rw [canPeerSyncHeaders_eq_false hd hlt] at hallowed
        cases hallowed
    rw [hquiet.log, if_neg hnot]
    exact Nat.le_add_right _ _
  · have hafter : (caller.after : HeaderTask Peer).asks ≠ some peer := by
      rw [HeaderTask.asks_after]
      nofun
    rcases reserve_cases s caller q tip with ⟨-, -, -, hsame⟩ | ⟨-, hplace⟩ |
      ⟨r, -, -, ⟨-, hsame⟩ | ⟨-, hplace⟩⟩
    · obtain ⟨rfl, rfl⟩ := Prod.mk.inj (heq.trans hsame)
      rw [if_neg hafter]
      exact ⟨hs, Nat.le_add_right _ _⟩
    · obtain ⟨rfl, rfl⟩ := Prod.mk.inj (heq.trans hplace)
      exact ⟨hs.place q tip, Nat.le_refl _⟩
    · obtain ⟨rfl, rfl⟩ := Prod.mk.inj (heq.trans hsame)
      rw [if_neg hafter]
      exact ⟨cooling_expire (.inl hs), Nat.le_add_right _ _⟩
    · obtain ⟨rfl, rfl⟩ := Prod.mk.inj (heq.trans hplace)
      exact ⟨(cooling_expire (.inl hs)).place q tip, Nat.le_refl _⟩
  · refine ⟨⟨⟨d, hd, hle⟩, hs.near⟩, ?_⟩
    simp [HeaderTask.asks_after, HeaderTask.asks, List.countP_cons]
  · refine ⟨hs, ?_⟩
    simp [HeaderTask.asks_onSendError]
  · exact ⟨⟨⟨d, by simpa [finish, HeaderSlot.takeRequest, apply_ite] using hd, hle⟩, hs.near⟩,
      Nat.le_refl _⟩
  · have hq : q ≠ peer := fun hq => ht (hq ▸ rfl)
    exact ⟨⟨⟨d, (AList.lookup_erase_ne (Ne.symm hq)).trans hd, hle⟩, hs.near⟩, Nat.le_refl _⟩

/-- The event is the step of `finish_header_request` that ends the cooldown of a peer. -/
def Event.forgives (s : HeaderRequests Peer) (peer : Peer) : Event Peer → Bool
  | advance i _ =>
    match s.tasks[i]? with
    | some (.forgive q _) => q = peer
    | _ => false
  | _ => false

/-- One event that does not end the cooldown. -/
lemma Cooling.step {peer : Peer} {deadline : Nat} (hs : s.Cooling peer deadline)
    (hnow : s.now < deadline) (h : s.step e = some s') (he : e.forgives s peer = false) :
    s'.Cooling peer deadline ∧ s'.asked peer ≤ s.asked peer := by
  rcases step_cases h with ⟨i, a, t, s₁, t', rfl, htask, hadvance, rfl⟩ | ⟨now, hle, rfl⟩ |
    ⟨_, rfl⟩ | ⟨t, hasks, rfl⟩
  · have ht : t ≠ .forgive peer t' := by
      rintro rfl
      simp [Event.forgives, htask] at he
    obtain ⟨hcooling, hcount⟩ := hs.advance hnow hadvance ht
    have hset := countP_asks_set htask t' peer
    refine ⟨⟨hcooling.lookup, hcooling.near⟩, ?_⟩
    simp only [asked]
    omega
  · exact ⟨⟨hs.lookup, Nat.le_trans hs.near (Nat.add_le_add_right hle _)⟩, Nat.le_refl _⟩
  · exact ⟨⟨hs.lookup, hs.near⟩, Nat.le_refl _⟩
  · refine ⟨⟨hs.lookup, hs.near⟩, ?_⟩
    simp [asked, spawn, hasks]

/-- A call that finds the request in the slot timed out starts the cooldown of its peer, and begins
no request to it. -/
lemma cooling_of_timeout {i : Nat} {caller : HeaderCaller} {peer : Peer} {tip : SyncTip}
    {r : HeaderRequestState Peer} (htask : s.tasks[i]? = some (.reserve caller peer tip))
    (hrequest : s.slot.headerRequest = some r)
    (hlate : r.requestedAt + headerRequestTimeout ≤ s.now)
    (h : s.step (.advance i a) = some s₀) :
    s₀.Cooling r.peerAddr (s.now + headerRequestTimeout) ∧ s₀.now = s.now ∧
      s₀.asked r.peerAddr ≤ s.asked r.peerAddr := by
  simp only [HeaderRequests.step, htask, advance] at h
  obtain rfl := Option.some.inj h
  have hafter : (caller.after : HeaderTask Peer).asks = none := HeaderTask.asks_after caller
  have hcooling : (s.expire r).Cooling r.peerAddr (s.now + headerRequestTimeout) :=
    cooling_expire (.inr ⟨rfl, rfl⟩)
  have hset := countP_asks_set htask (s.reserve caller peer tip).2 r.peerAddr
  rcases reserve_cases s caller peer tip with ⟨r', hrequest', hwait, -⟩ | ⟨hfree, -⟩ |
    ⟨r', hrequest', -, ⟨-, heq⟩ | ⟨hne, heq⟩⟩
  · obtain rfl := Option.some.inj (hrequest.symm.trans hrequest')
    omega
  · rw [hfree] at hrequest
    cases hrequest
  · obtain rfl := Option.some.inj (hrequest.symm.trans hrequest')
    rw [heq] at hset ⊢
    refine ⟨⟨hcooling.lookup, hcooling.near⟩, rfl, ?_⟩
    simp only [hafter, reduceCtorEq, if_false] at hset
    simp only [asked, expire]
    omega
  · obtain rfl := Option.some.inj (hrequest.symm.trans hrequest')
    rw [heq] at hset ⊢
    refine ⟨⟨hcooling.lookup, hcooling.near⟩, rfl, ?_⟩
    simp only [HeaderTask.asks, Option.some.injEq, Ne.symm hne, if_false] at hset
    simp only [asked, expire, place]
    omega

/-- When a request has timed out and a call finds it so, then for 15 seconds, in any run in which no
`finish_header_request` ends the cooldown, its peer passes no check, and it gets no request but
those of calls that had passed the check before. -/
theorem asked_le_of_timeout {i : Nat} {caller : HeaderCaller} {peer : Peer} {tip : SyncTip}
    {r : HeaderRequestState Peer} (htask : s.tasks[i]? = some (.reserve caller peer tip))
    (hrequest : s.slot.headerRequest = some r)
    (hlate : r.requestedAt + headerRequestTimeout ≤ s.now)
    (hexpire : s.step (.advance i a) = some s₀)
    (h : Reachable step (fun s₁ e s₂ => s₂.now < s.now + headerRequestTimeout ∧
      e.forgives s₁ r.peerAddr = false) s₀ s') :
    (s'.slot.canPeerSyncHeaders r.peerAddr s'.now).1 = false ∧
      s'.asked r.peerAddr ≤ s.asked r.peerAddr := by
  obtain ⟨hcooling, hnow, hasked⟩ := cooling_of_timeout htask hrequest hlate hexpire
  have hterm : 0 < headerRequestTimeout := Nat.lt_of_sub_pos (Nat.le_of_ble_eq_true rfl)
  obtain ⟨hcooling', hnow', hasked'⟩ := h.invariant
    (fun s₁ => s₁.Cooling r.peerAddr (s.now + headerRequestTimeout) ∧
      s₁.now < s.now + headerRequestTimeout ∧ s₁.asked r.peerAddr ≤ s.asked r.peerAddr)
    ⟨hcooling, hnow.symm ▸ Nat.lt_add_of_pos_right hterm, hasked⟩
    (by
      rintro s₁ e s₂ ⟨hcooling, hnow, hasked⟩ hstep ⟨hnow', he⟩
      obtain ⟨hcooling', hasked'⟩ := hcooling.step hnow hstep he
      exact ⟨hcooling', hnow', Nat.le_trans hasked' hasked⟩)
  obtain ⟨d, hd, hle⟩ := hcooling'.lookup
  exact ⟨canPeerSyncHeaders_eq_false hd (Nat.lt_of_lt_of_le hnow' hle), hasked'⟩

end

end HeaderRequests

/-! ### A peer that does not answer -/

namespace Sample

open HeaderRequests

/-- Peer 7 is asked and does not answer; after 20 seconds peer 8 connects, up to its reservation. -/
def headerEvents : List (HeaderRequests.Event Nat) :=
  [.connect 7, .advance 0 {}, .advance 0 {}, .advance 0 {}, .advance 0 {}, .tick 20000000000,
    .connect 8, .advance 1 {}, .advance 1 {}]

/-- The genesis block is the tip. -/
def headersTip : SyncTip := ⟨Digest.zero, 0⟩

/-- After the request to peer 8, peer 7 connects again. -/
def cooldownEvents : List (HeaderRequests.Event Nat) :=
  [.connect 7, .advance 2 {}, .advance 2 {}]

/-- After the first events peer 7 has the slot, and the task of peer 8 is about to take it. -/
lemma reachable_headerEvents :
    ∃ s : HeaderRequests Nat,
      Reachable HeaderRequests.step (fun _ _ _ => True) (HeaderRequests.new headersTip) s ∧
        s.log.sent.length = 1 ∧ s.slot.headerRequest = some ⟨7, Digest.zero, 0, 0⟩ ∧
        s.tasks[1]? = some (.reserve .syncWithPeer 8 headersTip) ∧ s.now = 20000000000 ∧
        ∃ s₀ s₁, s.step (.advance 1 {}) = some s₀ ∧ Reachable HeaderRequests.step
          (fun s e s' => s'.now < 20000000000 + headerRequestTimeout ∧ e.forgives s 7 = false)
            s₀ s₁ ∧ s₁.tasks[2]? = some .done := by
  refine ⟨_, Reachable.of_run (fun _ _ _ _ => trivial) .init
      (show Reachable.run _ (fun _ _ _ => true) _ headerEvents = some _ from rfl),
    rfl, rfl, rfl, rfl, _, _, rfl,
    Reachable.of_run (fun s e s' hcheck => by simpa using hcheck) .init
      (show Reachable.run _ (fun s e s' =>
          decide (s'.now < 20000000000 + headerRequestTimeout) && !e.forgives s 7) _
        cooldownEvents = some _ from rfl), rfl⟩

/-- One request is sent in 20 seconds. -/
theorem sent_le_headerEvents :
    ∃ s : HeaderRequests Nat, s.log.sent.length = 1 ∧ s.now = 20000000000 ∧
      s.log.sent.length ≤ s.log.finished + s.now / headerRequestTimeout + 1 := by
  obtain ⟨s, hs, hsent, -, -, hnow, -⟩ := reachable_headerEvents
  exact ⟨s, hsent, hnow, sent_le_of_reachable hs⟩

/-- The request to peer 7 is no longer within its term. -/
theorem outstanding_le_one_headerEvents :
    ∃ s : HeaderRequests Nat, s.now = 20000000000 ∧
      (s.log.outstanding.filter fun x => decide (s.now < x.2 + headerRequestTimeout)).length ≤
        1 := by
  obtain ⟨s, hs, -, -, -, hnow, -⟩ := reachable_headerEvents
  exact ⟨s, hnow, outstanding_le_one_of_reachable hs⟩

/-- Peer 7 is asked twice for the headers after the same tip: the first request times out, and the
second one is begun after its cooldown. -/
def askedAgainEvents : List (HeaderRequests.Event Nat) :=
  [.connect 7, .advance 0 {}, .advance 0 {}, .advance 0 {}, .advance 0 {}, .tick 20000000000,
    .connect 7, .advance 1 {}, .advance 1 {}, .advance 1 {}, .tick 40000000000, .connect 7,
    .advance 2 {}, .advance 2 {}, .advance 2 {}]

/-- The second request has the slot and is still to be sent; the first one, which was sent, is not
taken for it. -/
theorem followed_askedAgainEvents :
    ∃ s : HeaderRequests Nat, s.log.sent = [(7, headersTip, 1)] ∧
      s.slot.headerRequest = some ⟨7, Digest.zero, 0, 40000000000⟩ ∧
      ∃ t ∈ s.tasks, t.FollowsUp ⟨7, Digest.zero, 0, 40000000000⟩ 2 := by
  obtain ⟨s, hs, hsent, hbegun, hrequest⟩ : ∃ s : HeaderRequests Nat,
      Reachable HeaderRequests.step (fun _ _ _ => True) (HeaderRequests.new headersTip) s ∧
        s.log.sent = [(7, headersTip, 1)] ∧ s.log.begun = 2 ∧
        s.slot.headerRequest = some ⟨7, Digest.zero, 0, 40000000000⟩ :=
    ⟨_, Reachable.of_run (fun _ _ _ _ => trivial) .init
      (show Reachable.run _ (fun _ _ _ => true) _ askedAgainEvents = some _ from rfl),
      rfl, rfl, rfl⟩
  refine ⟨s, hsent, hrequest, ?_⟩
  rcases followed_of_reachable hs hrequest with hold | hnew
  · rw [hsent, hbegun] at hold
    exact absurd hold (by decide)
  · rwa [hbegun] at hnew

/-- When peer 7 connects again within its cooldown, it is not asked. -/
theorem asked_le_headerEvents :
    ∃ s s₁ : HeaderRequests Nat, s₁.tasks[2]? = some .done ∧
      (s₁.slot.canPeerSyncHeaders 7 s₁.now).1 = false ∧ s₁.asked 7 ≤ s.asked 7 := by
  obtain ⟨s, -, -, hrequest, htask, hnow, s₀, s₁, hexpire, hrun, hdone⟩ := reachable_headerEvents
  rw [← hnow] at hrun
  have hlate : 0 + headerRequestTimeout ≤ s.now := by
    rw [hnow]
    decide
  exact ⟨s, s₁, hdone, asked_le_of_timeout htask hrequest hlate hexpire hrun⟩

end Sample

end Bitcrab
