import Bitcrab.Types.Hash
import Bitcrab.Wire.Decode

/-!
# Message headers (`net/p2p/message.rs`, `net/p2p/codec.rs`)

The names of commands and the 24 bytes in front of every message. A name is given by its bytes,
which are printable ASCII.
-/

namespace Bitcrab

open Bytes

/-- `Magic`, the four bytes that identify a network. -/
abbrev Magic := List.Vector UInt8 4

/-- `MAX_MESSAGE_SIZE`. -/
def maxMessageSize : Nat := 4 * 1024 * 1024

/-- `P2pError`, with the errors of the header codec and of the handshake. -/
inductive P2pError where
  | wrongMagic (expected actual : UInt32)
  | messageTooLarge (size : UInt32) (limit : Nat)
  | checksumMismatch (expected actual : UInt32)
  | malformedCommand (bytes : List UInt8) (reason : String)
  | connectionClosed
  | handshakeTimeout (secs : Nat)
  | peerVersionTooOld (version minimum : Int32)
  | duplicateHandshakeMessage (command : String)
  | io (message : String)
  | decodeError (message : String)
  | selfConnection
  | banned
  deriving DecidableEq

/-! ### Commands -/

/-- `Command`. -/
inductive Command where
  | version | verack | ping | pong | getHeaders | headers | getData | inv | getBlocks | block | tx
  | addr | getAddr | sendHeaders | feeFilter | sendCmpct | notFound
  | unknown (name : List UInt8)
  deriving DecidableEq

/-- The bytes of an ASCII string. -/
def ascii (s : String) : List UInt8 := s.toList.map fun c => UInt8.ofNat c.toNat

namespace Command

/-- `Command::name`. -/
def name : Command → List UInt8
  | version => ascii "version"
  | verack => ascii "verack"
  | ping => ascii "ping"
  | pong => ascii "pong"
  | getHeaders => ascii "getheaders"
  | headers => ascii "headers"
  | getData => ascii "getdata"
  | inv => ascii "inv"
  | getBlocks => ascii "getblocks"
  | block => ascii "block"
  | tx => ascii "tx"
  | addr => ascii "addr"
  | getAddr => ascii "getaddr"
  | sendHeaders => ascii "sendheaders"
  | feeFilter => ascii "feefilter"
  | sendCmpct => ascii "sendcmpct"
  | notFound => ascii "notfound"
  | unknown name => name

/-- The commands that have a name of their own. -/
def known : List Command :=
  [version, verack, ping, pong, getHeaders, headers, getData, inv, getBlocks, block, tx, addr,
    getAddr, sendHeaders, feeFilter, sendCmpct, notFound]

/-- The table of names of `Command::from_wire`. -/
def ofName (s : List UInt8) : Command :=
  (known.find? fun command => command.name = s).getD (unknown s)

/-- `Command::from_wire`. Printable ASCII is valid UTF-8. -/
def fromWire (bytes : List UInt8) : Except P2pError Command :=
  let name := bytes.takeWhile (· ≠ 0)
  if name.isEmpty then .error (.malformedCommand bytes "empty command")
  else if (bytes.drop name.length).any (· ≠ 0) then
    .error (.malformedCommand bytes "non-null byte after command terminator")
  else if name.any fun b => ¬(0x20 ≤ b ∧ b ≤ 0x7E) then
    .error (.malformedCommand bytes "command contains non-printable ascii")
  else .ok (ofName name)

/-- `Command::to_wire`. -/
def toWire (command : Command) : List UInt8 :=
  let s := command.name.take 12
  s ++ List.replicate (12 - s.length) 0

lemma length_toWire (command : Command) : command.toWire.length = 12 := by
  have : (command.name.take 12).length ≤ 12 := by simp
  rw [toWire, List.length_append, List.length_replicate]
  omega

/-- The name of a known command is read back. -/
lemma fromWire_toWire {command : Command} (h : command ∈ known) :
    fromWire command.toWire = .ok command := by
  have hall : ∀ c ∈ known, fromWire c.toWire = .ok c := by decide
  exact hall command h

end Command

/-! ### Headers -/

/-- `MessageHeader`. -/
structure MessageHeader where
  magic : Magic
  command : Command
  length : UInt32
  checksum : List UInt8
  deriving DecidableEq

/-- `u32::from_le_bytes`. -/
def u32FromLeBytes (bytes : List UInt8) : UInt32 := UInt32.ofNat (ofLeBytes bytes)

/-- `u32::from_be_bytes`. -/
def u32FromBeBytes (bytes : List UInt8) : UInt32 := UInt32.ofNat (ofBeBytes bytes)

/-- `decode_header`. -/
def decodeHeader (buf : List.Vector UInt8 24) (expectedMagic : Magic) :
    Except P2pError MessageHeader :=
  let magicBytes := buf.toList.take 4
  if magicBytes = expectedMagic.toList then do
    let command ← Command.fromWire ((buf.toList.drop 4).take 12)
    let length := u32FromLeBytes ((buf.toList.drop 16).take 4)
    if length.toNat > maxMessageSize then .error (.messageTooLarge length maxMessageSize)
    else .ok ⟨expectedMagic, command, length, (buf.toList.drop 20).take 4⟩
  else .error (.wrongMagic (u32FromLeBytes expectedMagic.toList) (u32FromLeBytes magicBytes))

section

variable [Sha2]

/-- `checksum`. -/
def checksum (payload : List UInt8) : List UInt8 := (hash256 payload).toList.take 4

/-- `encode_header`. -/
def encodeHeader (magic : Magic) (command : Command) (payload : List UInt8) :
    List.Vector UInt8 24 :=
  ⟨magic.toList ++ command.toWire ++ leBytes 4 payload.length ++ checksum payload, by
    simp [Command.length_toWire, checksum]⟩

/-- `verify_checksum`. -/
def verifyChecksum (header : MessageHeader) (payload : List UInt8) : Except P2pError Unit :=
  if checksum payload ≠ header.checksum then
    .error (.checksumMismatch (u32FromBeBytes header.checksum) (u32FromBeBytes (checksum payload)))
  else .ok ()

/-- The header of a known command and a payload within the limit is read back. -/
lemma decodeHeader_encodeHeader (magic : Magic) {command : Command} (h : command ∈ Command.known)
    {payload : List UInt8} (hlen : payload.length ≤ maxMessageSize) :
    decodeHeader (encodeHeader magic command payload) magic =
      .ok ⟨magic, command, UInt32.ofNat payload.length, checksum payload⟩ := by
  have hmagic : magic.toList.length = 4 := magic.2
  have hcommand := Command.length_toWire command
  have hbuf : (encodeHeader magic command payload).toList =
      magic.toList ++ (command.toWire ++ (leBytes 4 payload.length ++ checksum payload)) := by
    simp [encodeHeader, List.Vector.toList]
  have hdrop16 : (encodeHeader magic command payload).toList.drop 16 =
      leBytes 4 payload.length ++ checksum payload := by
    rw [hbuf, ← List.append_assoc, List.drop_left' (by simp [hcommand])]
  have hlength : u32FromLeBytes (leBytes 4 payload.length) = UInt32.ofNat payload.length := by
    rw [u32FromLeBytes, ofLeBytes_leBytes]
    exact lt_of_le_of_lt hlen (by decide)
  have hsmall : ¬(UInt32.ofNat payload.length).toNat > maxMessageSize := by
    rw [UInt32.toNat_ofNat', Nat.mod_eq_of_lt (lt_of_le_of_lt hlen (by decide))]
    exact Nat.not_lt.mpr hlen
  have hchecksum : (checksum payload).length = 4 := by simp [checksum]
  have hdrop20 : (encodeHeader magic command payload).toList.drop 20 = checksum payload := by
    have hadd :=
      List.drop_drop (i := 4) (j := 16) (l := (encodeHeader magic command payload).toList)
    rw [← hadd, hdrop16, List.drop_left' (length_leBytes 4 _)]
  unfold decodeHeader
  simp only [hdrop16, hdrop20]
  rw [List.take_left' (length_leBytes 4 _), hlength,
    List.take_of_length_le (Nat.le_of_eq hchecksum),
    hbuf, List.take_left' hmagic, if_pos rfl, List.drop_left' hmagic, List.take_left' hcommand,
    Command.fromWire_toWire h]
  exact if_neg hsmall

lemma verifyChecksum_checksum (magic : Magic) (command : Command) (length : UInt32)
    (payload : List UInt8) :
    verifyChecksum ⟨magic, command, length, checksum payload⟩ payload = .ok () := by
  simp [verifyChecksum]

end

end Bitcrab
