import Bitcrab.Lib.Run
import Bitcrab.Net.Address
import Bitcrab.Net.ReadLoop
import Mathlib.Data.Finset.Erase
import Mathlib.Data.Finset.Insert

/-!
# Handshakes (`Connman::handshake` in `net/p2p/connman.rs`)

The calls of `handshake` on one node, which share the set of nonces of this node. A step is what a
call does between two accesses to its stream or to the set. Some connections have their other end on
this node too: what is written to them is read by another call.
-/

namespace Bitcrab

/-- `Display` of `DecodeError`. -/
def DecodeError.display : DecodeError → String
  | .bufferTooShort field needed available =>
    "buffer too short reading '" ++ field ++ "': need " ++ toString needed ++ ", have " ++
      toString available
  | .truncatedVarint field => "truncated varint reading '" ++ field ++ "'"
  | .nonCanonicalVarint field value encodedLen =>
    "non-canonical varint in field '" ++ field ++ "': value " ++ toString value.toNat ++
      " encoded in " ++ toString encodedLen ++ " bytes"
  | .allocationTooLarge field len limit =>
    "field '" ++ field ++ "' length " ++ toString len.toNat ++ " exceeds allocation limit " ++
      toString limit
  | .invalidUtf8 field => "invalid UTF-8 in field '" ++ field ++ "'"
  | .trailingBytes context remaining =>
    toString remaining ++ " trailing bytes after full decode of " ++ context
  | .invalidValue field value =>
    "field '" ++ field ++ "' value " ++ toString value.toNat ++ " is invalid"
  | .custom message => message

/-- `ConnectionType::is_tx_relay_connection`. -/
def ConnectionType.isTxRelayConnection : ConnectionType → Bool
  | .inbound => true
  | .outboundFullRelay => true
  | .blockRelayOnly => false
  | .feeler => false

/-- `MIN_PEER_PROTO_VERSION`. -/
def minPeerProtoVersion : Int32 := 31800

/-- `Version::our_version_with_nonce`, at a time. -/
def Version.ourVersionWithNonce (timestamp : Int64) (nonce : UInt64) (startHeight : Int32)
    (relay : Bool) : Version where
  version := 70015
  services := 9
  timestamp := timestamp
  recvServices := 0
  recvAddr := List.Vector.replicate 16 0
  recvPort := 0
  fromServices := 9
  fromAddr := List.Vector.replicate 16 0
  fromPort := 0
  nonce := nonce
  userAgent := "/bitcrab:0.1.0/"
  startHeight := startHeight
  relay := relay

/-- What does not change during a call: the kind of connection, the call at the other end if that is
on this node, and what goes into the version message. -/
structure Connection where
  connType : ConnectionType
  otherEnd : Option Nat
  timestamp : Int64
  nonce : UInt64
  height : Int32
  deriving DecidableEq

namespace Connection

/-- `our_version` in `handshake`. -/
def ourVersion (k : Connection) : Version :=
  .ourVersionWithNonce k.timestamp k.nonce k.height k.connType.isTxRelayConnection

/-- `is_inbound`. -/
def isInbound (k : Connection) : Bool := k.connType = .inbound

end Connection

/-- Where a call is. -/
inductive HandshakePhase where
  | idle
  | opening
  | header (gotVersion gotVerack : Bool)
  | payload (header : MessageHeader) (gotVersion gotVerack : Bool)
  | received (m : Message) (gotVersion gotVerack : Bool)
  | turning (gotVersion gotVerack : Bool)
  | ending (result : Except P2pError Unit)
  | returned (result : Except P2pError Unit)
  | panicked

/-- A call of `handshake`: the version message of the peer, the bytes that have been sent to it and
not been read, and those that it is writing. -/
structure Handshake where
  connection : Connection
  theirs : Option Version
  inbox : List UInt8
  sending : List UInt8
  phase : HandshakePhase

/-- The calls, and `our_nonces`. -/
structure Handshakes where
  nonces : Finset UInt64
  calls : List Handshake

/-- The steps of a call: its start, the writes before the loop are done, the reads and what follows
them, the end of a turn of the loop, an error or a timeout where the call waits, and its end. -/
inductive HandshakeEvent where
  | start
  | enterLoop
  | readHeader
  | readPayload
  | handle
  | turn
  | fail (e : P2pError)
  | removeNonce

/-- The steps of all calls: connections with other nodes and with this node, bytes from other nodes,
bytes that are written, and the steps of a call. -/
inductive HandshakesEvent where
  | connect (k : Connection)
  | connectSelf (out : Connection) (inb : Connection)
  | receive (c : Nat) (bytes : List UInt8)
  | write (c : Nat) (n : Nat)
  | call (c : Nat) (e : HandshakeEvent)

section

variable [Sha2]

/-- What is written for a message. -/
def frame (magic : Magic) (m : Message) : List UInt8 :=
  (encodeHeader magic m.command m.encode).toList ++ m.encode

namespace Handshake

/-- A call that has not begun. -/
def new (k : Connection) : Handshake := ⟨k, none, [], [], .idle⟩

/-- The loop ends with a result. -/
def endWith (h : Handshake) (result : Except P2pError Unit) : Handshake :=
  { h with phase := .ending result }

/-- What follows a version message. -/
def gotVersion (magic : Magic) (nonces : Finset UInt64) (h : Handshake) (v : Version)
    (gotVersion gotVerack : Bool) : Handshake :=
  if gotVersion then h.endWith (.error (.duplicateHandshakeMessage "version"))
  else if v.nonce ∈ nonces then h.endWith (.error .selfConnection)
  else if v.version < minPeerProtoVersion then
    h.endWith (.error (.peerVersionTooOld v.version minPeerProtoVersion))
  else
    { h with
      theirs := some v
      sending :=
        (if h.connection.isInbound then frame magic (.version h.connection.ourVersion) else []) ++
          frame magic .verack
      phase := .turning true gotVerack }

/-- What follows a verack message. -/
def gotVerack (h : Handshake) (gotVersion gotVerack : Bool) : Handshake :=
  if !gotVersion then
    h.endWith (.error (.decodeError "received verack before version during handshake"))
  else if gotVerack then h.endWith (.error (.duplicateHandshakeMessage "verack"))
  else { h with phase := .turning gotVersion true }

/-- What follows a payload of which all bytes are there. -/
def gotPayload (h : Handshake) (header : MessageHeader) (payload : List UInt8)
    (gotVersion gotVerack : Bool) : Handshake :=
  match verifyChecksum header payload with
  | .error e => h.endWith (.error e)
  | .ok () =>
    match Message.decode header.command payload with
    | .ok m => { h with phase := .received m gotVersion gotVerack }
    | .error (.error e) => h.endWith (.error (.decodeError e.display))
    | .error .panic => { h with phase := .panicked }

/-- A step of a call, if it is where the step starts, and the nonces after it. -/
def step (magic : Magic) (nonces : Finset UInt64) (h : Handshake) :
    HandshakeEvent → Option (Handshake × Finset UInt64)
  | .start =>
    match h.phase with
    | .idle =>
      let nonces := insert h.connection.nonce nonces
      if h.connection.isInbound then some ({ h with phase := .header false false }, nonces)
      else some ({ h with
        phase := .opening
        sending := frame magic (.version h.connection.ourVersion) }, nonces)
    | _ => none
  | .enterLoop =>
    match h.phase with
    | .opening =>
      if h.sending = [] then some ({ h with phase := .header false false }, nonces) else none
    | _ => none
  | .readHeader =>
    match h.phase with
    | .header gotVersion gotVerack =>
      match firstHeader h.inbox with
      | none => none
      | some hdr =>
        let h := { h with inbox := h.inbox.drop 24 }
        match decodeHeader hdr magic with
        | .error e => some (h.endWith (.error e), nonces)
        | .ok header => some ({ h with phase := .payload header gotVersion gotVerack }, nonces)
    | _ => none
  | .readPayload =>
    match h.phase with
    | .payload header gotVersion gotVerack =>
      if header.length.toNat ≤ h.inbox.length then
        let payload := h.inbox.take header.length.toNat
        some ({ h with inbox := h.inbox.drop header.length.toNat }.gotPayload header payload
          gotVersion gotVerack, nonces)
      else none
    | _ => none
  | .handle =>
    match h.phase with
    | .received (.version v) gotVersion gotVerack =>
      some (h.gotVersion magic nonces v gotVersion gotVerack, nonces)
    | .received .verack gotVersion gotVerack => some (h.gotVerack gotVersion gotVerack, nonces)
    | .received _ gotVersion gotVerack =>
      some ({ h with phase := .turning gotVersion gotVerack }, nonces)
    | _ => none
  | .turn =>
    match h.phase with
    | .turning gotVersion gotVerack =>
      if h.sending = [] then
        if gotVersion && gotVerack then some (h.endWith (.ok ()), nonces)
        else some ({ h with phase := .header gotVersion gotVerack }, nonces)
      else none
    | _ => none
  | .fail e =>
    match h.phase with
    -- the writes before the loop leave the function at once, and the nonce in the set
    | .opening => some ({ h with phase := .returned (.error e) }, nonces)
    | .header _ _ => some (h.endWith (.error e), nonces)
    | .payload _ _ _ => some (h.endWith (.error e), nonces)
    | .turning _ _ => if h.sending = [] then none else some (h.endWith (.error e), nonces)
    | _ => none
  | .removeNonce =>
    match h.phase with
    | .ending result => some ({ h with phase := .returned result }, nonces.erase h.connection.nonce)
    | _ => none

/-- The call is in a write. -/
def isWriting (h : Handshake) : Bool :=
  match h.phase with
  | .opening => true
  | .turning _ _ => true
  | _ => false

end Handshake

namespace Handshakes

/-- The node after its start. -/
def init : Handshakes := ⟨∅, []⟩

/-- Bytes arrive at a call. -/
def deliver (s : Handshakes) (c : Nat) (bytes : List UInt8) : Handshakes :=
  { s with calls := s.calls.modify c fun h => { h with inbox := h.inbox ++ bytes } }

/-- A call writes the first `n` bytes of what it is to write. -/
def writeBytes (s : Handshakes) (c : Nat) (h : Handshake) (n : Nat) : Handshakes :=
  let s' := { s with calls := s.calls.set c { h with sending := h.sending.drop n } }
  match h.connection.otherEnd with
  | none => s'
  | some d => s'.deliver d (h.sending.take n)

/-- A step of the node. -/
def step (magic : Magic) (s : Handshakes) : HandshakesEvent → Option Handshakes
  | .connect k =>
    if k.otherEnd = none then some { s with calls := s.calls ++ [.new k] } else none
  | .connectSelf out inb =>
    if out.connType ≠ .inbound ∧ inb.connType = .inbound ∧
        out.otherEnd = some (s.calls.length + 1) ∧ inb.otherEnd = some s.calls.length then
      some { s with calls := s.calls ++ [.new out, .new inb] }
    else none
  | .receive c bytes =>
    match s.calls[c]? with
    | some h => if h.connection.otherEnd = none then some (s.deliver c bytes) else none
    | none => none
  | .write c n =>
    match s.calls[c]? with
    | some h =>
      if h.isWriting ∧ n ≤ h.sending.length then some (s.writeBytes c h n) else none
    | none => none
  | .call c e =>
    match s.calls[c]? with
    | some h =>
      match h.step magic s.nonces e with
      | some (h', nonces') => some ⟨nonces', s.calls.set c h'⟩
      | none => none
    | none => none

end Handshakes

end

end Bitcrab
