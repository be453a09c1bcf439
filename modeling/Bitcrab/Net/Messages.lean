import Bitcrab.Lib.Outcome
import Bitcrab.Net.Codec
import Bitcrab.Types.Codec

/-!
# Messages (`net/p2p/messages/*.rs`)

The payloads of the messages with their codecs, and the round trip through a frame: what is sent as
a header and a payload is decoded to the message again.
-/

namespace Bitcrab

open Bytes

/-! ### Lists with a count -/

/-- The loops over `0..count` of the decoders. -/
def readMany {α : Type} (read : Decoder → Except DecodeError (α × Decoder)) :
    Nat → Decoder → Except DecodeError (List α × Decoder)
  | 0, d => .ok ([], d)
  | count + 1, d => do
    let (item, d) ← read d
    let (items, d) ← readMany read count d
    return (item :: items, d)

/-- A count of at most `limit`, and so many items. -/
def readLimited {α : Type} (read : Decoder → Except DecodeError (α × Decoder)) (field : String)
    (limit : Nat) (d : Decoder) : Except DecodeError (List α × Decoder) := do
  let (count, d) ← d.readVarint field
  if count.toNat > limit then throw (.allocationTooLarge field count limit)
  readMany read count.toNat d

/-- The count of a list, and its items. -/
def encodeCounted {α : Type} (encodeItem : α → List UInt8) (xs : List α) : List UInt8 :=
  encode (VarInt.mk (UInt64.ofNat xs.length)) ++ xs.flatMap encodeItem

/-! ### Payloads -/

/-- `Version`. -/
structure Version where
  version : Int32
  services : UInt64
  timestamp : Int64
  recvServices : UInt64
  recvAddr : List.Vector UInt8 16
  recvPort : UInt16
  fromServices : UInt64
  fromAddr : List.Vector UInt8 16
  fromPort : UInt16
  nonce : UInt64
  userAgent : String
  startHeight : Int32
  relay : Bool
  deriving DecidableEq

instance : BitcoinEncode Version where
  encode v := encode v.version ++ encode v.services ++ encode v.timestamp ++
    encode v.recvServices ++ encode v.recvAddr ++ encode (U16BE.mk v.recvPort) ++
    encode v.fromServices ++ encode v.fromAddr ++ encode (U16BE.mk v.fromPort) ++
    encode v.nonce ++ encodeVarStr v.userAgent ++ encode v.startHeight ++ encode v.relay

instance : BitcoinDecode Version where
  decode d := do
    let (version, d) ← decode d
    let (services, d) ← decode d
    let (timestamp, d) ← decode d
    let (recvServices, d) ← decode d
    let (recvAddr, d) ← d.readArray 16 "recv_addr"
    let (recvPort, d) ← d.readU16Be "recv_port"
    let (fromServices, d) ← decode d
    let (fromAddr, d) ← d.readArray 16 "from_addr"
    let (fromPort, d) ← d.readU16Be "from_port"
    let (nonce, d) ← decode d
    let (userAgent, d) ← d.readVarStr "user_agent"
    let (startHeight, d) ← decode d
    -- older nodes leave `relay` out
    let (relay, d) ← d.decodeOptionalField Bool
    return (⟨version, services, timestamp, recvServices, recvAddr, recvPort, fromServices, fromAddr,
      fromPort, nonce, userAgent, startHeight, relay.getD true⟩, d)

/-- `InvType`. -/
inductive InvType where
  | error | tx | block | filteredBlock | cmpctBlock | wtx | witnessTx | witnessBlock
  | filteredWitnessBlock
  deriving DecidableEq

/-- The discriminant of `InvType`. -/
def InvType.toU32 : InvType → UInt32
  | error => 0
  | tx => 1
  | block => 2
  | filteredBlock => 3
  | cmpctBlock => 4
  | wtx => 5
  | witnessTx => 1 ||| 0x40000000
  | witnessBlock => 2 ||| 0x40000000
  | filteredWitnessBlock => 3 ||| 0x40000000

/-- `InvType::from_u32`. -/
def InvType.fromU32 (val : UInt32) : InvType :=
  if val = 1 then tx
  else if val = 2 then block
  else if val = 3 then filteredBlock
  else if val = 4 then cmpctBlock
  else if val = 5 then wtx
  else if val = 1073741825 then witnessTx
  else if val = 1073741826 then witnessBlock
  else if val = 1073741827 then filteredWitnessBlock
  else error

/-- `InvVector`. -/
structure InvVector where
  invType : InvType
  hash : List.Vector UInt8 32
  deriving DecidableEq

instance : BitcoinEncode InvVector := ⟨fun v => encode v.invType.toU32 ++ encode v.hash⟩

instance : BitcoinDecode InvVector where
  decode d := do
    let (typ, d) ← decode d
    let (hash, d) ← decode d
    return (⟨.fromU32 typ, hash⟩, d)

/-- `MAX_INV_ENTRIES`, and `MAX_GETDATA_ENTRIES` as well. -/
def maxInvEntries : Nat := 50000

/-- `MAX_ADDR_ENTRIES`. -/
def maxAddrEntries : Nat := 1000

/-- `MAX_HEADERS_PER_MSG`. -/
def maxHeadersPerMsg : Nat := 2000

/-- The payload of `inv`, `getdata` and `notfound`. -/
def encodeInventory (inventory : List InvVector) : List UInt8 :=
  encodeCounted encode inventory

/-- `Inv::decode` and `GetData::decode`, which are the same. -/
def decodeInventory (d : Decoder) : Except DecodeError (List InvVector × Decoder) :=
  readLimited decode "inv_count" maxInvEntries d

/-- `NetAddr`. -/
structure NetAddr where
  time : UInt32
  services : UInt64
  ip : List.Vector UInt8 16
  port : UInt16
  deriving DecidableEq

/-- `NetAddr::encode`. -/
def NetAddr.encode (a : NetAddr) : List UInt8 :=
  Bitcrab.encode a.time ++ Bitcrab.encode a.services ++ Bitcrab.encode a.ip ++
    Bitcrab.encode (U16BE.mk a.port)

/-- `NetAddr::decode`. -/
def NetAddr.decode (d : Decoder) : Except DecodeError (NetAddr × Decoder) := do
  let (time, d) ← Bitcrab.decode d
  let (services, d) ← Bitcrab.decode d
  let (ip, d) ← d.readArray 16 "ip"
  let (port, d) ← d.readU16Be "port"
  return (⟨time, services, ip, port⟩, d)

/-- `GetHeaders`. -/
structure GetHeaders where
  version : UInt32
  locator : List BlockHash
  stopHash : BlockHash
  deriving DecidableEq

/-- `GetHeaders::encode`. -/
def GetHeaders.encode (g : GetHeaders) : List UInt8 :=
  Bitcrab.encode g.version ++ encodeCounted (fun hash => Bitcrab.encode hash.bytes) g.locator ++
    Bitcrab.encode g.stopHash.bytes

/-- A hash of the locator. -/
def readLocatorHash (d : Decoder) : Except DecodeError (BlockHash × Decoder) := do
  let (bytes, d) ← d.readArray 32 "locator_hash"
  return (⟨bytes⟩, d)

/-- The count of the locator, behind the version. -/
def GetHeaders.readCount (payload : List UInt8) :
    Except DecodeError (UInt32 × UInt64 × Decoder) := do
  let (version, d) ← Bitcrab.decode (Decoder.new payload)
  let (count, d) ← d.readVarint "locator_count"
  return (version, count, d)

/-- What follows the count. -/
def GetHeaders.readLocator (version : UInt32) (count : UInt64) (d : Decoder) :
    Except DecodeError GetHeaders := do
  let (locator, d) ← readMany readLocatorHash count.toNat d
  let (stop, d) ← d.readArray 32 "stop_hash"
  d.finish "getheaders"
  return ⟨version, locator, ⟨stop⟩⟩

/-- `GetHeaders::decode`. The count has no limit before room is made for the hashes. -/
def GetHeaders.decode (payload : List UInt8) : Outcome DecodeError GetHeaders := do
  let (version, count, d) ← .lift (readCount payload)
  .withCapacity 32 count.toNat
  .lift (readLocator version count d)

/-- An entry of `Headers::decode`: a header and an empty list of transactions. -/
def readHeaderEntry (d : Decoder) : Except DecodeError (BlockHeader × Decoder) := do
  let (raw, d) ← d.readArray 80 "header"
  let (txCount, d) ← (Bitcrab.decode d : Except DecodeError (UInt8 × Decoder))
  if txCount ≠ 0 then throw (.invalidValue "tx_count" txCount.toUInt64)
  return (BlockHeader.deserialize raw, d)

/-- `Headers::encode`. -/
def encodeHeaders (headers : List BlockHeader) : List UInt8 :=
  encodeCounted (fun h => h.serialize.toList ++ Bitcrab.encode (0 : UInt8)) headers

/-- `Headers::decode`. -/
def decodeHeaders (payload : List UInt8) : Except DecodeError (List BlockHeader) :=
  if payload.isEmpty then .ok []
  else do
    let (headers, d) ← readLimited readHeaderEntry "header_count" maxHeadersPerMsg
      (Decoder.new payload)
    d.finish "headers"
    return headers

/-- `Addr::encode`. -/
def encodeAddr (addresses : List NetAddr) : List UInt8 :=
  encodeCounted NetAddr.encode addresses

/-- `Addr::decode`. -/
def decodeAddr (payload : List UInt8) : Except DecodeError (List NetAddr) := do
  let (addresses, d) ← readLimited NetAddr.decode "count" maxAddrEntries (Decoder.new payload)
  d.finish "addr"
  return addresses

/-! ### Messages -/

/-- `Message`. -/
inductive Message where
  | version (v : Version)
  | verack
  | ping (nonce : UInt64)
  | pong (nonce : UInt64)
  | getHeaders (g : GetHeaders)
  | headers (headers : List BlockHeader)
  | getData (inventory : List InvVector)
  | inv (inventory : List InvVector)
  | block (b : Block)
  | addr (addresses : List NetAddr)
  | getAddr
  | notFound (inventory : List InvVector)
  | ignored (command : Command)
  | unknown (name : List UInt8)
  deriving DecidableEq

/-- `decode_exact` with a decoding function. -/
def exactly {α : Type} (read : Decoder → Except DecodeError (α × Decoder)) (payload : List UInt8)
    (context : String) : Except DecodeError α := do
  let (value, d) ← read (Decoder.new payload)
  d.finish context
  return value

namespace Message

/-- `Message::decode`. The lists of the other messages are within limits when room is made for
them. -/
def decode (command : Command) (payload : List UInt8) : Outcome DecodeError Message :=
  match command with
  | .version => version <$> .lift (decodeExact Version payload "version")
  | .verack => do
    .lift ((Decoder.new payload).finish "verack")
    return verack
  | .ping => ping <$> .lift (decodeExact UInt64 payload "ping")
  | .pong => pong <$> .lift (decodeExact UInt64 payload "pong")
  | .getHeaders => getHeaders <$> GetHeaders.decode payload
  | .headers => headers <$> .lift (decodeHeaders payload)
  | .getData => getData <$> .lift (exactly decodeInventory payload "getdata")
  | .inv => inv <$> .lift (exactly decodeInventory payload "inv")
  | .block => block <$> .lift (decodeExact Block payload "block")
  | .addr => addr <$> .lift (decodeAddr payload)
  | .getAddr => do
    .lift ((Decoder.new payload).finish "getaddr")
    return getAddr
  | .notFound => notFound <$> .lift (exactly decodeInventory payload "inv")
  | .unknown name => .ok (unknown name)
  | other => .ok (ignored other)

/-- `Message::encode`. -/
def encode : Message → List UInt8
  | version v => Bitcrab.encode v
  | verack => []
  | ping nonce => Bitcrab.encode nonce
  | pong nonce => Bitcrab.encode nonce
  | getHeaders g => g.encode
  | headers hs => encodeHeaders hs
  | getData inventory => encodeInventory inventory
  | inv inventory => encodeInventory inventory
  | block b => Bitcrab.encode b
  | addr addresses => encodeAddr addresses
  | getAddr => []
  | notFound inventory => encodeInventory inventory
  | ignored _ => []
  | unknown _ => []

/-- `Message::command`. -/
def command : Message → Command
  | version _ => .version
  | verack => .verack
  | ping _ => .ping
  | pong _ => .pong
  | getHeaders _ => .getHeaders
  | headers _ => .headers
  | getData _ => .getData
  | inv _ => .inv
  | block _ => .block
  | addr _ => .addr
  | getAddr => .getAddr
  | notFound _ => .notFound
  | ignored c => c
  | unknown name => .unknown name

end Message

/-! ### Payloads are read back -/

section Lists

variable {α : Type} {read : Decoder → Except DecodeError (α × Decoder)}
    {encodeItem : α → List UInt8}

lemma reads_readMany (xs : List α) (h : ∀ x ∈ xs, Reads read (encodeItem x) x) :
    Reads (readMany read xs.length) (xs.flatMap encodeItem) xs := by
  induction xs with
  | nil =>
    intro pos suffix
    simp [readMany]
  | cons x xs ih =>
    intro pos suffix
    have hx := h x List.mem_cons_self
    have hxs := ih fun y hy => h y (List.mem_cons_of_mem x hy)
    simp only [Reads] at hx hxs
    simp only [List.length_cons, List.flatMap_cons, List.append_assoc, readMany, hx, hxs, bind,
      Except.bind, pure, Except.pure, List.length_append, Nat.add_assoc]

lemma reads_readLimited {xs : List α} {limit : Nat} (hlen : xs.length ≤ limit)
    (hlimit : limit ≤ maxWireAllocation) (h : ∀ x ∈ xs, Reads read (encodeItem x) x)
    (field : String) : Reads (readLimited read field limit) (encodeCounted encodeItem xs) xs := by
  intro pos suffix
  have hcount := reads_readVarint (UInt64.ofNat xs.length) field
  have hitems := reads_readMany xs h
  have htoNat := toNat_ofNat_of_le_maxWireAllocation (hlen.trans hlimit)
  simp only [Reads] at hcount hitems
  simp only [readLimited, encodeCounted, List.append_assoc, hcount, bind, Except.bind, htoNat,
    if_neg (Nat.not_lt.mpr hlen), hitems, List.length_append, Nat.add_assoc]

lemma exactly_encode {bs : List UInt8} {x : α} (h : Reads read bs x) (context : String) :
    exactly read bs context = .ok x := by
  have h0 := h 0 []
  simp only [List.append_nil] at h0
  simp [exactly, Decoder.new, h0, Decoder.finish, Decoder.isDone, bind, Except.bind, pure,
    Except.pure]

end Lists

/-- A field that is there is read although it may be left out. -/
lemma reads_decodeOptionalField (v : Bool) :
    Reads (fun d => d.decodeOptionalField Bool) (encode v) (some v) := by
  intro pos suffix
  have hv := roundTrips_bool v pos suffix
  have hdone : Decoder.isDone ⟨pos, encode v ++ suffix⟩ = false := rfl
  simp [Decoder.decodeOptionalField, hdone, hv, bind, Except.bind, pure, Except.pure]

lemma roundTrips_version {v : Version}
    (h : v.userAgent.toByteArray.data.toList.length ≤ maxWireAllocation) : RoundTrips v := by
  intro pos suffix
  have hversion := roundTrips_int32 v.version
  have hservices := roundTrips_uint64 v.services
  have htimestamp := roundTrips_int64 v.timestamp
  have hrecvServices := roundTrips_uint64 v.recvServices
  have hrecvAddr := reads_readArray v.recvAddr "recv_addr"
  have hrecvPort := reads_readU16Be v.recvPort "recv_port"
  have hfromServices := roundTrips_uint64 v.fromServices
  have hfromAddr := reads_readArray v.fromAddr "from_addr"
  have hfromPort := reads_readU16Be v.fromPort "from_port"
  have hnonce := roundTrips_uint64 v.nonce
  have huserAgent := reads_readVarStr h "user_agent"
  have hstartHeight := roundTrips_int32 v.startHeight
  have hrelay := reads_decodeOptionalField v.relay
  have hvector : ∀ a : List.Vector UInt8 16, (encode a : List UInt8) = a.toList := fun _ => rfl
  have e : encode v = encode v.version ++ encode v.services ++ encode v.timestamp ++
    encode v.recvServices ++ encode v.recvAddr ++ encode (U16BE.mk v.recvPort) ++
    encode v.fromServices ++ encode v.fromAddr ++ encode (U16BE.mk v.fromPort) ++
    encode v.nonce ++ encodeVarStr v.userAgent ++ encode v.startHeight ++ encode v.relay := rfl
  simp only [RoundTrips, Reads] at hversion hservices htimestamp hrecvServices hrecvAddr hrecvPort
  simp only [RoundTrips, Reads] at hfromServices hfromAddr hfromPort hnonce hstartHeight
  simp only [Reads] at huserAgent hrelay
  rw [e]
  unfold decode instBitcoinDecodeVersion
  simp only [List.append_assoc, hvector, hversion, hservices, htimestamp, hrecvServices, hrecvAddr,
    hrecvPort, hfromServices, hfromAddr, hfromPort, hnonce, huserAgent, hstartHeight, hrelay, bind,
    Except.bind, pure, Except.pure, Option.getD_some, List.length_append, Nat.add_assoc]

lemma roundTrips_invVector (v : InvVector) : RoundTrips v := by
  intro pos suffix
  have htype := roundTrips_uint32 v.invType.toU32
  have hhash := roundTrips_vector v.hash
  have hfrom : InvType.fromU32 v.invType.toU32 = v.invType := by
    cases v.invType <;> rfl
  simp only [RoundTrips, Reads] at htype hhash
  have e : encode v = encode v.invType.toU32 ++ encode v.hash := rfl
  rw [e, List.append_assoc]
  unfold decode instBitcoinDecodeInvVector
  simp [htype, hhash, hfrom, bind, Except.bind, pure, Except.pure, Nat.add_assoc]

lemma reads_decodeInventory {inventory : List InvVector} (h : inventory.length ≤ maxInvEntries) :
    Reads decodeInventory (encodeInventory inventory) inventory :=
  reads_readLimited h (by decide) (fun v _ => roundTrips_invVector v) "inv_count"

lemma reads_netAddr (a : NetAddr) : Reads NetAddr.decode a.encode a := by
  intro pos suffix
  have htime := roundTrips_uint32 a.time
  have hservices := roundTrips_uint64 a.services
  have hip := reads_readArray a.ip "ip"
  have hport := reads_readU16Be a.port "port"
  have hencode : (encode a.ip : List UInt8) = a.ip.toList := rfl
  simp only [RoundTrips, Reads] at htime hservices hip hport
  simp only [NetAddr.decode, NetAddr.encode, List.append_assoc, htime, hservices, hencode, hip,
    hport, bind, Except.bind, pure, Except.pure, List.length_append, Nat.add_assoc]

lemma decodeAddr_encodeAddr {addresses : List NetAddr} (h : addresses.length ≤ maxAddrEntries) :
    decodeAddr (encodeAddr addresses) = .ok addresses :=
  exactly_encode (reads_readLimited h (by decide) (fun a _ => reads_netAddr a) "count") "addr"

lemma reads_readHeaderEntry (h : BlockHeader) :
    Reads readHeaderEntry (h.serialize.toList ++ encode (0 : UInt8)) h := by
  intro pos suffix
  have hraw := reads_readArray h.serialize "header"
  have hcount := roundTrips_uint8 0
  simp only [RoundTrips, Reads] at hraw hcount
  simp [readHeaderEntry, List.append_assoc, hraw, hcount, BlockHeader.deserialize_serialize, bind,
    Except.bind, pure, Except.pure, Nat.add_assoc]

lemma decodeHeaders_encodeHeaders {headers : List BlockHeader}
    (h : headers.length ≤ maxHeadersPerMsg) :
    decodeHeaders (encodeHeaders headers) = .ok headers := by
  have hread := exactly_encode (reads_readLimited h (by decide)
    (fun h _ => reads_readHeaderEntry h) "header_count") "headers"
  have hne : (encodeHeaders headers).isEmpty = false := by
    simp [encodeHeaders, encodeCounted, encode_varInt_ne_nil]
  rw [decodeHeaders, hne]
  exact hread

lemma reads_readLocatorHash (hash : BlockHash) :
    Reads readLocatorHash (encode hash.bytes) hash := by
  intro pos suffix
  have hbytes := reads_readArray hash.bytes "locator_hash" pos suffix
  have hencode : (encode hash.bytes : List UInt8) = hash.bytes.toList := rfl
  simp [readLocatorHash, hencode, hbytes, bind, Except.bind, pure, Except.pure]

/-- The locator is read back if room can be made for it. -/
lemma getHeaders_decode_encode {g : GetHeaders} (h : g.locator.length * 32 ≤ Outcome.isizeMax) :
    GetHeaders.decode g.encode = .ok g := by
  have hversion := roundTrips_uint32 g.version
  have hcount := reads_readVarint (UInt64.ofNat g.locator.length) "locator_count"
  have hlocator := reads_readMany g.locator fun hash _ => reads_readLocatorHash hash
  have hstop := reads_readArray g.stopHash.bytes "stop_hash"
  have hvector : (encode g.stopHash.bytes : List UInt8) = g.stopHash.bytes.toList := rfl
  have htoNat : (UInt64.ofNat g.locator.length).toNat = g.locator.length := by
    have hmax : Outcome.isizeMax < 2 ^ 64 := by decide
    rw [UInt64.toNat_ofNat', Nat.mod_eq_of_lt (by omega)]
  simp only [RoundTrips, Reads] at hversion hcount hlocator hstop
  have hend := hstop (0 + (encode g.version).length +
    (encode (VarInt.mk (UInt64.ofNat g.locator.length))).length +
      (g.locator.flatMap fun hash => encode hash.bytes).length) []
  rw [List.append_nil] at hend
  have hread : GetHeaders.readCount g.encode = .ok (g.version, UInt64.ofNat g.locator.length,
      ⟨0 + (encode g.version).length +
        (encode (VarInt.mk (UInt64.ofNat g.locator.length))).length,
        (g.locator.flatMap fun hash => encode hash.bytes) ++ g.stopHash.bytes.toList⟩) := by
    simp only [GetHeaders.readCount, GetHeaders.encode, encodeCounted, Decoder.new,
      List.append_assoc, hversion, hcount, hvector, bind, Except.bind, pure, Except.pure]
  have hrest : GetHeaders.readLocator g.version (UInt64.ofNat g.locator.length)
      ⟨0 + (encode g.version).length +
        (encode (VarInt.mk (UInt64.ofNat g.locator.length))).length,
        (g.locator.flatMap fun hash => encode hash.bytes) ++ g.stopHash.bytes.toList⟩ = .ok g := by
    simp only [GetHeaders.readLocator, htoNat, hlocator, hend, Decoder.finish, Decoder.isDone, bind,
      Except.bind, pure, Except.pure]
    rfl
  have hroom : (Outcome.withCapacity 32 (UInt64.ofNat g.locator.length).toNat :
      Outcome DecodeError Unit) = .ok () := by
    rw [htoNat, Outcome.withCapacity, if_pos h]
  simp only [GetHeaders.decode, hread, Outcome.lift_ok, Result.ok_bind, hroom, hrest]

/-! ### The round trip through a frame -/

namespace Message

/-- The lists of the message are within the limits of the decoders, and it is one that is sent. -/
def WithinLimits : Message → Prop
  | version v => v.userAgent.toByteArray.data.toList.length ≤ maxWireAllocation
  | headers hs => hs.length ≤ maxHeadersPerMsg
  | getData inventory => inventory.length ≤ maxInvEntries
  | inv inventory => inventory.length ≤ maxInvEntries
  | notFound inventory => inventory.length ≤ maxInvEntries
  | addr addresses => addresses.length ≤ maxAddrEntries
  | block b => b.WithinLimits ∧ ∀ tx ∈ b.transactions, tx.inputs ≠ []
  | ignored _ => False
  | unknown _ => False
  | _ => True

variable {m : Message}

lemma WithinLimits.command_mem_known (h : m.WithinLimits) : m.command ∈ Command.known := by
  cases m with
  | ignored c => exact h.elim
  | unknown name => exact h.elim
  | _ => simp [command, Command.known]

/-- There is room for a locator that came in a payload within the frame limit. -/
lemma room_locator {g : GetHeaders} (h : g.encode.length ≤ maxMessageSize) :
    g.locator.length * 32 ≤ Outcome.isizeMax := by
  have hflat : (g.locator.flatMap fun hash => Bitcrab.encode hash.bytes).length =
      g.locator.length * 32 := by
    induction g.locator with
    | nil => simp
    | cons hash hashes ih =>
      have hhash : (Bitcrab.encode hash.bytes).length = 32 := hash.bytes.2
      rw [List.flatMap_cons, List.length_append, List.length_cons, hhash, ih]
      omega
  simp only [GetHeaders.encode, encodeCounted, List.length_append, hflat] at h
  have hmax : maxMessageSize ≤ Outcome.isizeMax := by decide
  omega

/-- A payload is decoded to its message. -/
lemma WithinLimits.decode_encode (h : m.WithinLimits) (hlen : m.encode.length ≤ maxMessageSize) :
    decode m.command m.encode = .ok m := by
  cases m with
  | version v =>
    have hv := decodeExact_encode (roundTrips_version h) "version"
    simp only [decode, command, encode, hv, Outcome.lift_ok, Functor.map, Except.map]
  | verack => rfl
  | ping nonce =>
    have hnonce := decodeExact_encode (roundTrips_uint64 nonce) "ping"
    simp only [decode, command, encode, hnonce, Outcome.lift_ok, Functor.map, Except.map]
  | pong nonce =>
    have hnonce := decodeExact_encode (roundTrips_uint64 nonce) "pong"
    simp only [decode, command, encode, hnonce, Outcome.lift_ok, Functor.map, Except.map]
  | getHeaders g =>
    have hg := getHeaders_decode_encode (room_locator hlen)
    simp only [decode, command, encode, hg, Functor.map, Except.map]
  | headers hs =>
    have hhs := decodeHeaders_encodeHeaders h
    simp only [decode, command, encode, hhs, Outcome.lift_ok, Functor.map, Except.map]
  | getData inventory =>
    have hinventory := exactly_encode (reads_decodeInventory h) "getdata"
    simp only [decode, command, encode, hinventory, Outcome.lift_ok, Functor.map, Except.map]
  | inv inventory =>
    have hinventory := exactly_encode (reads_decodeInventory h) "inv"
    simp only [decode, command, encode, hinventory, Outcome.lift_ok, Functor.map, Except.map]
  | block b =>
    have hb := decodeExact_encode (h.1.roundTrips h.2) "block"
    simp only [decode, command, encode, hb, Outcome.lift_ok, Functor.map, Except.map]
  | addr addresses =>
    have haddresses := decodeAddr_encodeAddr h
    simp only [decode, command, encode, haddresses, Outcome.lift_ok, Functor.map, Except.map]
  | getAddr => rfl
  | notFound inventory =>
    have hinventory := exactly_encode (reads_decodeInventory h) "inv"
    simp only [decode, command, encode, hinventory, Outcome.lift_ok, Functor.map, Except.map]
  | ignored c => exact h.elim
  | unknown name => exact h.elim

section

variable [Sha2]

/-- What is sent as a header and a payload is decoded to the message again. -/
theorem decode_sent (magic : Magic) (m : Message) (hm : m.WithinLimits)
    (hlen : m.encode.length ≤ maxMessageSize) :
    ∃ header, decodeHeader (encodeHeader magic m.command m.encode) magic = .ok header ∧
      header.command = m.command ∧ header.length.toNat = m.encode.length ∧
      verifyChecksum header m.encode = .ok () ∧ decode header.command m.encode = .ok m := by
  refine ⟨_, decodeHeader_encodeHeader magic hm.command_mem_known hlen, rfl, ?_,
    verifyChecksum_checksum _ _ _ _, hm.decode_encode hlen⟩
  rw [UInt32.toNat_ofNat', Nat.mod_eq_of_lt (lt_of_le_of_lt hlen (by decide))]

end

end Message

namespace Sample

/-- The magic of regtest. -/
def magic : Magic := ⟨[0xFA, 0xBF, 0xB5, 0xDA], rfl⟩

/-- The version message of a node at genesis. -/
def versionMessage (nonce : UInt64) : Version where
  version := 70016
  services := 9
  timestamp := 1700000000
  recvServices := 0
  recvAddr := List.Vector.replicate 16 0
  recvPort := 18444
  fromServices := 9
  fromAddr := List.Vector.replicate 16 0
  fromPort := 18444
  nonce := nonce
  userAgent := "/bitcrab:0.1.0/"
  startHeight := 0
  relay := true

lemma withinLimits_versionMessage (nonce : UInt64) :
    (Message.version (versionMessage nonce)).WithinLimits := by
  have hlen : ("/bitcrab:0.1.0/".toByteArray.data.toList.length) ≤ maxWireAllocation := by decide
  exact hlen

lemma withinLimits_mixedBlock : (Message.block mixedBlock).WithinLimits := by
  refine ⟨⟨by decide, ?_⟩, by decide⟩
  intro tx htx
  simp only [mixedBlock, List.mem_cons, List.not_mem_nil, or_false] at htx
  rcases htx with rfl | rfl
  · exact withinLimits_spend [] (by decide)
  · exact withinLimits_spend _ (by decide)

set_option maxRecDepth 100000 in
/-- A version message and a block of a legacy and a segwit transaction. -/
theorem decode_sent_version_block :
    (∃ header, decodeHeader (encodeHeader magic .version
        (Message.version (versionMessage 7)).encode) magic = .ok header ∧
      verifyChecksum header (Message.version (versionMessage 7)).encode = .ok () ∧
      Message.decode header.command (Message.version (versionMessage 7)).encode =
        .ok (.version (versionMessage 7))) ∧
    ∃ header, decodeHeader (encodeHeader magic .block (Message.block mixedBlock).encode) magic =
        .ok header ∧
      Message.decode header.command (Message.block mixedBlock).encode =
        .ok (.block mixedBlock) := by
  obtain ⟨header, hheader, -, -, hchecksum, hdecode⟩ :=
    Message.decode_sent magic (.version (versionMessage 7))
      (withinLimits_versionMessage 7) (by decide +kernel)
  obtain ⟨header', hheader', -, -, -, hdecode'⟩ :=
    Message.decode_sent magic (.block mixedBlock) withinLimits_mixedBlock (by decide +kernel)
  exact ⟨⟨header, hheader, hchecksum, hdecode⟩, header', hheader', hdecode'⟩

end Sample

end Bitcrab
