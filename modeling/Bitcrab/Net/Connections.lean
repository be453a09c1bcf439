import Bitcrab.Lib.Run
import Bitcrab.Net.AddressGroups

/-!
# Connections (`net/p2p/connman.rs`, `network.rs`, `initiator.rs`, `peer_table.rs`,
`peer_manager.rs`)

The tasks that make, register and close connections, as one transition system. A step is what a task
does between two points where another task can come in: every access to a table behind a lock, to
the counter of pending inbound connections or to the map of pending attempts is a step of its own.
The clock, the peers and the outcome of every network operation are the environment. Scores are
`i32`, and their sums wrap.
-/

namespace Bitcrab

/-! ### The peer table -/

/-- A connection, by the number of the attempt that makes it. -/
abbrev ConnId := Nat

/-- `NodeHandle`, with the connection that its channel and its token belong to. -/
structure NodeHandle where
  id : ConnId
  addr : SocketAddr
  connType : ConnectionType
  deriving DecidableEq

/-- `PeerTable`. -/
structure PeerTable where
  peers : HashMap SocketAddr NodeHandle
  banList : HashMap IpAddr Instant
  scores : HashMap SocketAddr Int32
  addrMan : AddrMan

namespace PeerTable

/-- `PeerTable::new`. -/
def new (addrMan : AddrMan) : PeerTable := ⟨∅, ∅, ∅, addrMan⟩

/-- `PeerTable::add_peer`. -/
def addPeer (t : PeerTable) (handle : NodeHandle) : PeerTable :=
  { t with peers := t.peers.insert handle.addr handle }

/-- `PeerTable::remove_peer`. -/
def removePeer (t : PeerTable) (addr : SocketAddr) : PeerTable :=
  { t with peers := t.peers.erase addr }

/-- The duration of a ban in `ban_peer_internal`, a day. -/
def banTime : Nat := secs 86400

/-- `PeerTable::ban_peer_internal`. -/
def banPeerInternal (t : PeerTable) (now : Instant) (addr : SocketAddr) : PeerTable :=
  { t with
    banList := t.banList.insert addr.ip (now + banTime)
    peers := t.peers.erase addr }

/-- `PeerTable::record_misbehavior` up to `finish_ban`, and whether the peer is banned. -/
def recordMisbehavior (t : PeerTable) (now : Instant) (addr : SocketAddr) (score : Int32) :
    PeerTable × Bool :=
  let current := (t.scores.lookup addr).getD 0 + score
  let t := { t with scores := t.scores.insert addr current }
  if current ≥ 100 then (t.banPeerInternal now addr, true) else (t, false)

end PeerTable

/-- The number of entries of a type, as in `PeerTable::get_peer_count_by_type`. -/
def countType (peers : HashMap SocketAddr NodeHandle) (t : ConnectionType) : Nat :=
  peers.entries.countP fun e => e.2.connType = t

/-! ### The other components -/

/-- `Peer`, with the connection that made the entry. -/
structure Peer where
  owner : ConnId
  misbehaviorScore : Int32
  isDiscouraged : Bool
  connType : ConnectionType
  deriving DecidableEq

/-- What `PeerManager::misbehaving` and `PeerTable::finish_ban` still have to do. -/
inductive Task where
  | record (addr : SocketAddr) (score : Int32)
  | discourage (addr : SocketAddr)
  | finishBan (addr : SocketAddr)
  deriving DecidableEq

/-- `Connman`: its own bans and its own address manager. -/
structure Connman where
  banList : HashMap IpAddr Instant
  addrMan : AddrMan

namespace Connman

/-- `Connman::ban`. -/
def ban (m : Connman) (now : Instant) (ip : IpAddr) (duration : Nat) : Connman :=
  { m with banList := m.banList.insert ip (now + duration) }

/-- The answer of `Connman::is_banned`. -/
def isBanned (m : Connman) (now : Instant) (ip : IpAddr) : Bool :=
  match m.banList.lookup ip with
  | some expiry => expiry > now
  | none => false

/-- `Connman::is_banned` removes a ban that has expired. -/
def forgetExpired (m : Connman) (now : Instant) (ip : IpAddr) : Connman :=
  if m.isBanned now ip then m else { m with banList := m.banList.erase ip }

end Connman

/-- Where the task of an attempt is: `connect_addr` and its caller in `initiator.rs`, or `handshake`
and its caller in `accept_loop`. -/
inductive AttemptPhase where
  | spawned
  | connecting
  | handshaking
  | started
  | added
  | registered
  | returned (ok : Bool) (time : Instant)
  | done (ok : Bool) (time : Instant)
  deriving DecidableEq

/-- Where the read task of a connection is: the read loop and `finalize_node`. -/
inductive ReaderPhase where
  | notStarted
  | reading
  | stopped
  | unmanaged
  | unlisted
  | finalized
  deriving DecidableEq

/-- An attempt to connect, from either side. -/
structure Attempt where
  chosen : SocketAddr
  connType : ConnectionType
  phase : AttemptPhase
  reader : ReaderPhase
  deriving DecidableEq

namespace Attempt

/-- The address of the socket: `connect_addr` normalizes the address that it is given. -/
def addr (a : Attempt) : SocketAddr :=
  if a.connType = .inbound then a.chosen else a.chosen.normalize

/-- The task has not left `pending_attempts` or given its slot back yet. -/
def isOpen (a : Attempt) : Bool :=
  match a.phase with
  | .done _ _ => false
  | _ => true

/-- The task has not put its connection into the peer table, and may have failed to. -/
def isUnregistered (a : Attempt) : Bool :=
  match a.phase with
  | .spawned => true
  | .connecting => true
  | .handshaking => true
  | .started => true
  | .returned ok _ => !ok
  | _ => false

end Attempt

/-- Where `accept_loop` is. The number of inbound peers is that of the entries it was
counted from. -/
inductive AcceptPhase where
  | waiting
  | accepted (addr : SocketAddr)
  | counted (addr : SocketAddr) (counted : HashMap SocketAddr NodeHandle)
  | reserved (addr : SocketAddr)

/-- The loops of `ConnectionInitiator`. -/
inductive Loop where
  | fill | feeler
  deriving DecidableEq

/-- Where a loop of the initiator is, with the type it fills and the attempts that are still needed
after the one under way. -/
inductive LoopPhase where
  | ready (t : ConnectionType)
  | counted (t : ConnectionType) (counted : HashMap SocketAddr NodeHandle)
  | filling (t : ConnectionType) (needed : Nat)
  | snapped (t : ConnectionType) (needed : Nat) (pending : List SocketAddr)
  | excluded (t : ConnectionType) (needed : Nat) (exclude : List SocketAddr)
  | chosen (t : ConnectionType) (needed : Nat) (exclude : List SocketAddr) (addr : SocketAddr)

/-- The type that a loop fills after `t`: `fill_connections` fills two in turn. -/
def ConnectionType.next : ConnectionType → ConnectionType
  | blockRelayOnly => outboundFullRelay
  | outboundFullRelay => blockRelayOnly
  | t => t

/-- `connection_deficit`, and the check of `run_feeler`, which makes one attempt. -/
def connectionDeficit (t : ConnectionType) (active pending : Nat) : Nat :=
  if t = .feeler then if active + pending ≥ t.max then 0 else 1 else t.max - (active + pending)

/-- The state of all tasks and tables. -/
structure Network where
  now : Instant
  attempts : List Attempt
  table : PeerTable
  manager : HashMap SocketAddr Peer
  tasks : List Task
  connman : Connman
  acceptLoop : AcceptPhase
  pendingInbound : Nat
  pendingAttempts : HashMap SocketAddr ConnectionType
  fillLoop : LoopPhase
  feelerLoop : LoopPhase

namespace Network

/-- The node after its start, with the addresses it knows. -/
def init (known : AddrMan) (saved : AddrMan) : Network where
  now := 0
  attempts := []
  table := .new known
  manager := ∅
  tasks := []
  connman := ⟨∅, saved⟩
  acceptLoop := .waiting
  pendingInbound := 0
  pendingAttempts := ∅
  fillLoop := .ready .blockRelayOnly
  feelerLoop := .ready .feeler

/-- Where a loop is. -/
def loop (s : Network) : Loop → LoopPhase
  | .fill => s.fillLoop
  | .feeler => s.feelerLoop

/-- Move a loop. -/
def setLoop (s : Network) (l : Loop) (phase : LoopPhase) : Network :=
  match l with
  | .fill => { s with fillLoop := phase }
  | .feeler => { s with feelerLoop := phase }

/-- Replace the attempt `c`. -/
def setAttempt (s : Network) (c : ConnId) (a : Attempt) : Network :=
  { s with attempts := s.attempts.set c a }

end Network

/-! ### Steps -/

/-- The steps of `accept_loop`. -/
inductive AcceptEvent where
  | accept (addr : SocketAddr)
  | countInbound
  | reserveSlot
  | checkInbound
  deriving DecidableEq

/-- The steps of `fill_type` and `run_feeler`. -/
inductive LoopEvent where
  | countActive
  | countPending
  | pendingAddresses
  | activeAddresses
  | selectAddress (order : List SocketAddr)
  | spawn
  | nextType
  deriving DecidableEq

/-- The steps of `connect_addr` and `handshake`, the end of the task that called them, the end of
`read_loop`, and the steps of `finalize_node`. -/
inductive AttemptEvent where
  | dial
  | connected
  | unreachable
  | failHandshake
  | completeHandshake
  | addPeer
  | initializeNode
  | returnOk
  | finish
  | stopReading
  | finalizeManager
  | finalizeTable
  | finalizeSync
  deriving DecidableEq

/-- The steps of all tasks: the clock, `Connman::ban`, `PeerTable::add_addresses`,
`PeerManager::misbehaving` under its lock, `PeerTable::record_misbehavior` from the block
downloader, the rest of such a call, `PeerTable::clear`, and the steps of the loops and of the
attempts. -/
inductive NetEvent where
  | tick (nanos : Nat)
  | ban (ip : IpAddr) (duration : Nat)
  | addAddresses (addresses : List NetAddr) (source : SocketAddr)
  | misbehaving (addr : SocketAddr) (howMuch : Int32)
  | recordMisbehavior (addr : SocketAddr) (score : Int32)
  | runTask (i : Nat)
  | clear
  | accept (e : AcceptEvent)
  | initiate (l : Loop) (e : LoopEvent)
  | attempt (c : ConnId) (e : AttemptEvent)
  deriving DecidableEq

namespace Network

variable [BucketHash]

/-- `PeerTable::record_misbehavior` and `record_critical_failure` leave `finish_ban` to be done. -/
def recordScore (s : Network) (addr : SocketAddr) (score : Int32) : Network :=
  match s.table.recordMisbehavior s.now addr score with
  | (table, true) => { s with table, tasks := s.tasks ++ [.finishBan addr] }
  | (table, false) => { s with table }

/-- The rest of a call. -/
def perform (s : Network) : Task → Network
  | .record addr score => s.recordScore addr score
  | .discourage addr =>
    { s with
      table := s.table.banPeerInternal s.now addr
      tasks := s.tasks ++ [.finishBan addr] }
  | .finishBan addr =>
    { s with table := { s.table with addrMan := s.table.addrMan.recordFailure s.now addr } }

/-- `PeerManager::misbehaving` for a peer of the peer manager. -/
def scorePeer (s : Network) (addr : SocketAddr) (peer : Peer) (howMuch : Int32) : Network :=
  let score := peer.misbehaviorScore + howMuch
  if score ≥ 100 ∧ peer.isDiscouraged = false then
    { s with
      manager :=
        s.manager.insert addr { peer with misbehaviorScore := score, isDiscouraged := true }
      tasks := s.tasks ++ [.discourage addr] }
  else
    { s with
      manager := s.manager.insert addr { peer with misbehaviorScore := score }
      tasks := s.tasks ++ [.record addr howMuch] }

/-- `handshake` fails; `connect_addr` records it in the address manager of `Connman`. -/
def handshakeFailed (s : Network) (c : ConnId) (a : Attempt) : Network :=
  let s := if a.connType = .inbound then s
    else { s with connman := { s.connman with
      addrMan := s.connman.addrMan.recordFailure s.now a.addr } }
  s.setAttempt c { a with phase := .returned false s.now }

/-- `handshake` succeeds; `connect_addr` records it in the address manager of `Connman`. -/
def handshakeReturned (s : Network) (c : ConnId) (a : Attempt) : Network :=
  let s := if a.connType = .inbound then s
    else { s with connman := { s.connman with
      addrMan := s.connman.addrMan.recordSuccess s.now a.addr } }
  s.setAttempt c { a with phase := .returned true s.now }

/-- The attempt leaves `pending_attempts`, or gives its slot back. -/
def finishAttempt (s : Network) (c : ConnId) (a : Attempt) (ok : Bool) (time : Instant) : Network :=
  let s := if a.connType = .inbound then { s with pendingInbound := s.pendingInbound - 1 }
    else { s with pendingAttempts := s.pendingAttempts.erase a.chosen }
  s.setAttempt c { a with phase := .done ok time }

/-- A step of `accept_loop`; the listener is an IPv4 socket. -/
def stepAccept (s : Network) : AcceptEvent → Option Network
  | .accept addr =>
    match s.acceptLoop with
    | .waiting => if addr.isIpv4 then some { s with acceptLoop := .accepted addr } else none
    | _ => none
  | .countInbound =>
    match s.acceptLoop with
    | .accepted addr => some { s with acceptLoop := .counted addr s.table.peers }
    | _ => none
  | .reserveSlot =>
    match s.acceptLoop with
    | .counted addr counted =>
      if countType counted .inbound + s.pendingInbound < ConnectionType.inbound.max then
        some { s with acceptLoop := .reserved addr, pendingInbound := s.pendingInbound + 1 }
      else some { s with acceptLoop := .waiting }
    | _ => none
  | .checkInbound =>
    match s.acceptLoop with
    | .reserved addr =>
      if s.connman.isBanned s.now addr.ip then
        some { s with acceptLoop := .waiting, pendingInbound := s.pendingInbound - 1 }
      else
        some { s with
          acceptLoop := .waiting
          connman := s.connman.forgetExpired s.now addr.ip
          attempts := s.attempts ++ [⟨addr, .inbound, .handshaking, .notStarted⟩] }
    | _ => none

/-- The attempt of a loop begins: it is pending, and its task is spawned. -/
def spawnAttempt (s : Network) (addr : SocketAddr) (t : ConnectionType) : Network :=
  { s with
    pendingAttempts := s.pendingAttempts.insert addr t
    attempts := s.attempts ++ [⟨addr, t, .spawned, .notStarted⟩] }

/-- The number of pending attempts of a type, as in `pending_count`. -/
def pendingCount (s : Network) (t : ConnectionType) : Nat :=
  s.pendingAttempts.entries.countP fun e => e.2 = t

/-- A step of `fill_type` or `run_feeler`. -/
def stepLoop (s : Network) (l : Loop) : LoopEvent → Option Network
  | .countActive =>
    match s.loop l with
    | .ready t => some (s.setLoop l (.counted t s.table.peers))
    | _ => none
  | .countPending =>
    match s.loop l with
    | .counted t counted =>
      some (s.setLoop l
        (.filling t (connectionDeficit t (countType counted t) (s.pendingCount t))))
    | _ => none
  | .pendingAddresses =>
    match s.loop l with
    | .filling t (needed + 1) => some (s.setLoop l (.snapped t needed s.pendingAttempts.keys))
    | _ => none
  | .activeAddresses =>
    match s.loop l with
    | .snapped t needed pending =>
      some (s.setLoop l (.excluded t needed
        ((s.table.peers.keys ++ pending).flatMap SocketAddr.variants)))
    | _ => none
  | .selectAddress order =>
    match s.loop l with
    | .excluded t needed exclude =>
      match s.table.addrMan.select s.now order exclude with
      | some addr => some (s.setLoop l (.chosen t needed exclude addr))
      | none => some (s.setLoop l (.ready t.next))
    | _ => none
  | .spawn =>
    match s.loop l with
    | .chosen t needed _ addr => some ((s.spawnAttempt addr t).setLoop l (.filling t needed))
    | _ => none
  | .nextType =>
    match s.loop l with
    | .filling t 0 => some (s.setLoop l (.ready t.next))
    | _ => none

/-- A step of the attempt `c` or of its connection, if it is where the step starts. -/
def stepAttempt (s : Network) (c : ConnId) (a : Attempt) : AttemptEvent → Option Network
  | .dial =>
    if a.phase = .spawned then
      if s.connman.isBanned s.now a.addr.ip then
        some (s.setAttempt c { a with phase := .returned false s.now })
      else
        some ({ s with connman := s.connman.forgetExpired s.now a.addr.ip }.setAttempt c
          { a with phase := .connecting })
    else none
  | .connected =>
    if a.phase = .connecting then some (s.setAttempt c { a with phase := .handshaking }) else none
  | .unreachable =>
    if a.phase = .connecting then some (s.setAttempt c { a with phase := .returned false s.now })
    else none
  | .failHandshake =>
    if a.phase = .handshaking then some (s.handshakeFailed c a) else none
  | .completeHandshake =>
    if a.phase = .handshaking then
      some (s.setAttempt c { a with phase := .started, reader := .reading })
    else none
  | .addPeer =>
    if a.phase = .started then
      some ({ s with table := s.table.addPeer ⟨c, a.addr, a.connType⟩ }.setAttempt c
        { a with phase := .added })
    else none
  | .initializeNode =>
    if a.phase = .added then
      some ({ s with manager := s.manager.insert a.addr ⟨c, 0, false, a.connType⟩ }.setAttempt c
        { a with phase := .registered })
    else none
  | .returnOk =>
    if a.phase = .registered then some (s.handshakeReturned c a) else none
  | .finish =>
    match a.phase with
    | .returned ok time => some (s.finishAttempt c a ok time)
    | _ => none
  | .stopReading =>
    if a.reader = .reading then some (s.setAttempt c { a with reader := .stopped }) else none
  | .finalizeManager =>
    if a.reader = .stopped then
      some ({ s with manager := s.manager.erase a.addr }.setAttempt c
        { a with reader := .unmanaged })
    else none
  | .finalizeTable =>
    if a.reader = .unmanaged then
      some ({ s with table := s.table.removePeer a.addr }.setAttempt c
        { a with reader := .unlisted })
    else none
  | .finalizeSync =>
    if a.reader = .unlisted then some (s.setAttempt c { a with reader := .finalized }) else none

/-- A step of the node. -/
def step (s : Network) : NetEvent → Option Network
  | .tick nanos => some { s with now := s.now + nanos }
  | .ban ip duration => some { s with connman := s.connman.ban s.now ip duration }
  | .addAddresses addresses source =>
    some { s with
      table := { s.table with addrMan := s.table.addrMan.addAddresses addresses source } }
  | .misbehaving addr howMuch =>
    match s.manager.lookup addr with
    | some peer => some (s.scorePeer addr peer howMuch)
    | none => some s
  | .recordMisbehavior addr score => some (s.recordScore addr score)
  | .runTask i =>
    match s.tasks[i]? with
    | some task => some ({ s with tasks := s.tasks.eraseIdx i }.perform task)
    | none => none
  | .clear => some { s with table := { s.table with peers := ∅ } }
  | .accept e => s.stepAccept e
  | .initiate l e => s.stepLoop l e
  | .attempt c e =>
    match s.attempts[c]? with
    | some a => s.stepAttempt c a e
    | none => none

end Network

namespace Sample

/-- A hash that puts every address into the first bucket. -/
scoped instance bucketHash : BucketHash := ⟨fun _ _ => 0, fun _ _ => 0⟩

lemma length_peerHost : ([10, 0, 0, 1] : List UInt8).length = 4 := rfl

/-- An address on the local network. -/
def peerAddr (port : UInt16) : SocketAddr := ⟨.v4 ⟨[10, 0, 0, 1], length_peerHost⟩, port⟩

/-- An inbound connection up to the end of its version exchange. -/
def inboundHandshake (c : ConnId) (port : UInt16) : List NetEvent :=
  [.accept (.accept (peerAddr port)), .accept .countInbound, .accept .reserveSlot,
    .accept .checkInbound, .attempt c .completeHandshake]

/-- The state after a list of steps of a node without addresses. -/
def afterSteps (events : List NetEvent) : Option Network :=
  Reachable.run Network.step (fun _ _ _ => true) (.init .new .new) events

end Sample

end Bitcrab
