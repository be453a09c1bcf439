import Bitcrab.Lib.Framer
import Bitcrab.Net.Messages

/-!
# The read loop of a connection (`net/p2p/node.rs`)

`Node::read_loop` collects what the peer sends and hands the messages over to
`PeerManager::process_message`. Its inner loop is a framer, so that the messages do not depend on
how the stream is cut into reads.
-/

namespace Bitcrab

/-- The first 24 bytes of the buffer, if they have arrived. -/
def firstHeader (buf : List UInt8) : Option (List.Vector UInt8 24) :=
  if h : 24 ≤ buf.length then some ⟨buf.take 24, by simp [h]⟩ else none

lemma firstHeader_eq_some {buf : List UInt8} {hdr : List.Vector UInt8 24} :
    firstHeader buf = some hdr ↔ 24 ≤ buf.length ∧ buf.take 24 = hdr.toList := by
  unfold firstHeader
  split_ifs with h
  · constructor
    · intro hsome
      obtain rfl := Option.some.inj hsome
      exact ⟨h, rfl⟩
    · rintro ⟨-, htake⟩
      exact congrArg some (Subtype.ext htake)
  · simp [h]

lemma firstHeader_append {buf : List UInt8} {hdr : List.Vector UInt8 24}
    (h : firstHeader buf = some hdr) (suffix : List UInt8) :
    firstHeader (buf ++ suffix) = some hdr := by
  obtain ⟨hlen, htake⟩ := firstHeader_eq_some.mp h
  refine firstHeader_eq_some.mpr ⟨by simp; omega, ?_⟩
  rw [List.take_append_of_le_length hlen, htake]

lemma firstHeader_eq_none {buf : List UInt8} : firstHeader buf = none ↔ buf.length < 24 := by
  simp [firstHeader]

lemma fromWire_eq_error {bytes : List UInt8} {e : P2pError}
    (h : Command.fromWire bytes = .error e) : ∃ reason, e = .malformedCommand bytes reason := by
  simp only [Command.fromWire] at h
  split_ifs at h <;> exact ⟨_, (Except.error.inj h).symm⟩

/-- The error of a header without the magic is `WrongMagic`, and no other header has it. -/
lemma decodeHeader_wrongMagic {hdr : List.Vector UInt8 24} {magic : Magic} {e : P2pError}
    (h : decodeHeader hdr magic = .error e) :
    (∃ expected actual, e = .wrongMagic expected actual) ↔ hdr.toList.take 4 ≠ magic.toList := by
  by_cases hmagic : hdr.toList.take 4 = magic.toList
  · simp only [hmagic, ne_eq, not_true_eq_false, iff_false]
    rintro ⟨expected, actual, rfl⟩
    rw [decodeHeader, if_pos hmagic] at h
    cases hcommand : Command.fromWire ((hdr.toList.drop 4).take 12) with
    | error e =>
      obtain ⟨reason, rfl⟩ := fromWire_eq_error hcommand
      simp [hcommand] at h
    | ok command =>
      rw [hcommand, Result.ok_bind] at h
      dsimp only at h
      split_ifs at h
      simp at h
  · rw [decodeHeader, if_neg hmagic, Except.error.injEq] at h
    simp [← h, hmagic]

lemma length_of_decodeHeader {hdr : List.Vector UInt8 24} {magic : Magic} {header : MessageHeader}
    (h : decodeHeader hdr magic = .ok header) : header.length.toNat ≤ maxMessageSize := by
  by_cases hmagic : hdr.toList.take 4 = magic.toList
  · rw [decodeHeader, if_pos hmagic] at h
    obtain ⟨command, -, h⟩ := Result.bind_eq_ok.mp h
    obtain ⟨hlen, h⟩ := Result.ite_error_eq_ok.mp h
    obtain rfl := Except.ok.inj h
    exact Nat.not_lt.mp hlen
  · rw [decodeHeader, if_neg hmagic] at h
    cases h

section

variable [Sha2]

/-- What the loop does with a complete frame: a message, nothing, or a panic. -/
def openFrame (header : MessageHeader) (payload : List UInt8) : Option (List Message) :=
  match verifyChecksum header payload with
  | .error _ => some []
  | .ok () =>
    match Message.decode header.command payload with
    | .ok m => some [m]
    | .error (.error _) => some []
    | .error .panic => none

/-- One round of the loop over `read_buf`. A header that is rejected for its command or its length
stays in the buffer. -/
def parseFrame (magic : Magic) (buf : List UInt8) : ParseStep UInt8 Message :=
  match firstHeader buf with
  | none => .wait
  | some hdr =>
    match decodeHeader hdr magic with
    | .error (.wrongMagic _ _) => .next [] (buf.drop 1)
    | .error _ => .wait
    | .ok header =>
      let totalLen := 24 + header.length.toNat
      if totalLen ≤ buf.length then
        match openFrame header ((buf.drop 24).take header.length.toNat) with
        | some out => .next out (buf.drop totalLen)
        | none => .stop
      else .wait

variable {magic : Magic} {buf rest : List UInt8} {hdr : List.Vector UInt8 24}

/-- A header without the magic is left byte by byte. -/
lemma parseFrame_of_wrongMagic (h : firstHeader buf = some hdr)
    (hmagic : hdr.toList.take 4 ≠ magic.toList) :
    parseFrame magic buf = .next [] (buf.drop 1) := by
  have herror : decodeHeader hdr magic = .error (.wrongMagic (u32FromLeBytes magic.toList)
      (u32FromLeBytes (hdr.toList.take 4))) := by
    rw [decodeHeader, if_neg hmagic]
  simp [parseFrame, h, herror]

lemma parseFrame_of_rejected (h : firstHeader buf = some hdr) {e : P2pError}
    (he : decodeHeader hdr magic = .error e) (hmagic : hdr.toList.take 4 = magic.toList) :
    parseFrame magic buf = .wait := by
  have hne := mt (decodeHeader_wrongMagic he).mp (not_not.mpr hmagic)
  simp only [parseFrame, h, he]
  split
  · rename_i hwrong
    exact absurd ⟨_, _, Except.error.inj hwrong⟩ hne
  · rfl
  · rename_i hok
    cases hok

lemma parseFrame_of_frame (h : firstHeader buf = some hdr) {header : MessageHeader}
    (hok : decodeHeader hdr magic = .ok header) (hlen : 24 + header.length.toNat ≤ buf.length) :
    parseFrame magic buf =
      match openFrame header ((buf.drop 24).take header.length.toNat) with
      | some out => .next out (buf.drop (24 + header.length.toNat))
      | none => .stop := by
  simp [parseFrame, h, hok, hlen]

lemma parseFrame_of_short (h : firstHeader buf = some hdr) {header : MessageHeader}
    (hok : decodeHeader hdr magic = .ok header) (hlen : ¬24 + header.length.toNat ≤ buf.length) :
    parseFrame magic buf = .wait := by
  simp [parseFrame, h, hok, hlen]

/-- When the loop goes on: over a byte of garbage or over a frame. -/
lemma parseFrame_eq_next {out : List Message} (h : parseFrame magic buf = .next out rest) :
    (∃ hdr, firstHeader buf = some hdr ∧ hdr.toList.take 4 ≠ magic.toList ∧ out = [] ∧
      rest = buf.drop 1) ∨
    ∃ hdr header, firstHeader buf = some hdr ∧ decodeHeader hdr magic = .ok header ∧
      24 + header.length.toNat ≤ buf.length ∧
      openFrame header ((buf.drop 24).take header.length.toNat) = some out ∧
      rest = buf.drop (24 + header.length.toNat) := by
  cases hhdr : firstHeader buf with
  | none => simp [parseFrame, hhdr] at h
  | some hdr =>
    cases hdecode : decodeHeader hdr magic with
    | error e =>
      by_cases hmagic : hdr.toList.take 4 = magic.toList
      · simp [parseFrame_of_rejected hhdr hdecode hmagic] at h
      · rw [parseFrame_of_wrongMagic hhdr hmagic] at h
        obtain ⟨rfl, rfl⟩ := ParseStep.next.inj h
        exact .inl ⟨hdr, rfl, hmagic, rfl, rfl⟩
    | ok header =>
      by_cases hlen : 24 + header.length.toNat ≤ buf.length
      · rw [parseFrame_of_frame hhdr hdecode hlen] at h
        cases hopen : openFrame header ((buf.drop 24).take header.length.toNat) with
        | none => simp [hopen] at h
        | some out' =>
          simp only [hopen, ParseStep.next.injEq] at h
          obtain ⟨rfl, rfl⟩ := h
          exact .inr ⟨hdr, header, rfl, hdecode, hlen, hopen, rfl⟩
      · simp [parseFrame_of_short hhdr hdecode hlen] at h

/-- A frame panics however much follows it. -/
lemma parseFrame_eq_stop (h : parseFrame magic buf = .stop) :
    ∃ hdr header, firstHeader buf = some hdr ∧ decodeHeader hdr magic = .ok header ∧
      24 + header.length.toNat ≤ buf.length ∧
      openFrame header ((buf.drop 24).take header.length.toNat) = none := by
  cases hhdr : firstHeader buf with
  | none => simp [parseFrame, hhdr] at h
  | some hdr =>
    cases hdecode : decodeHeader hdr magic with
    | error e =>
      by_cases hmagic : hdr.toList.take 4 = magic.toList
      · simp [parseFrame_of_rejected hhdr hdecode hmagic] at h
      · simp [parseFrame_of_wrongMagic hhdr hmagic] at h
    | ok header =>
      by_cases hlen : 24 + header.length.toNat ≤ buf.length
      · rw [parseFrame_of_frame hhdr hdecode hlen] at h
        cases hopen : openFrame header ((buf.drop 24).take header.length.toNat) with
        | none => exact ⟨hdr, header, rfl, hdecode, hlen, hopen⟩
        | some out => simp [hopen] at h
      · simp [parseFrame_of_short hhdr hdecode hlen] at h

omit [Sha2] in
/-- The payload of a complete frame does not change when more arrives. -/
lemma payload_append {n : Nat} (h : 24 + n ≤ buf.length) (suffix : List UInt8) :
    ((buf ++ suffix).drop 24).take n = (buf.drop 24).take n := by
  rw [List.drop_append_of_le_length (by omega), List.take_append_of_le_length (by simp; omega)]

/-- The inner loop of `read_loop`. -/
def frames (magic : Magic) : Framer UInt8 Message where
  parse := parseFrame magic
  shorter h := by
    rcases parseFrame_eq_next h with ⟨hdr, hhdr, -, -, rfl⟩ | ⟨hdr, header, -, -, hlen, -, rfl⟩
    · have hlen := (firstHeader_eq_some.mp hhdr).1
      rw [List.length_drop]
      omega
    · rw [List.length_drop]
      omega
  next_append suffix h := by
    rcases parseFrame_eq_next h with
      ⟨hdr, hhdr, hmagic, rfl, rfl⟩ | ⟨hdr, header, hhdr, hok, hlen, hopen, rfl⟩
    · have hlen := (firstHeader_eq_some.mp hhdr).1
      rw [parseFrame_of_wrongMagic (firstHeader_append hhdr suffix) hmagic,
        List.drop_append_of_le_length (by omega)]
    · rw [parseFrame_of_frame (firstHeader_append hhdr suffix) hok (by simp; omega),
        payload_append hlen, hopen, List.drop_append_of_le_length hlen]
  stop_append suffix h := by
    obtain ⟨hdr, header, hhdr, hok, hlen, hopen⟩ := parseFrame_eq_stop h
    rw [parseFrame_of_frame (firstHeader_append hhdr suffix) hok (by simp; omega),
      payload_append hlen, hopen]

/-! ### The loop -/

/-- `timeout(inactivity_timeout, reader.read(&mut temp_buf))`; no bytes at all are the end of the
stream. -/
inductive ReadResult where
  | data (bytes : List UInt8)
  | error
  | timeout
  deriving DecidableEq

/-- The state of `read_loop`: what went to `process_message`, `read_buf`, and whether the loop has
been left. -/
structure ReadState where
  delivered : List Message
  buffer : List UInt8
  closed : Bool
  deriving DecidableEq

namespace ReadState

/-- The start of the loop. -/
def start : ReadState := ⟨[], [], false⟩

/-- Frame parsing. -/
def parse (magic : Magic) (s : ReadState) : ReadState :=
  match (frames magic).drain s.buffer with
  | (out, some rest) => ⟨s.delivered ++ out, rest, s.closed⟩
  | (out, none) => ⟨s.delivered ++ out, [], true⟩

/-- The network read. -/
def read (s : ReadState) : ReadResult → ReadState
  | .data [] => { s with closed := true }
  | .data bytes => { s with buffer := s.buffer ++ bytes }
  | .error => { s with closed := true }
  | .timeout => { s with closed := true }

omit [Sha2] in
lemma read_data (s : ReadState) {bytes : List UInt8} (h : bytes ≠ []) :
    s.read (.data bytes) = { s with buffer := s.buffer ++ bytes } := by
  cases bytes with
  | nil => exact absurd rfl h
  | cons b bytes => rfl

end ReadState

/-- `Node::read_loop` from a state, until it waits for a read that has not come. -/
def readLoop (magic : Magic) : ReadState → List ReadResult → ReadState
  | s, [] => s.parse magic
  | s, result :: results =>
    let s := s.parse magic
    if s.closed then s
    else
      let s := s.read result
      if s.closed then s else readLoop magic s results

/-- The states of the loop over reads with data. -/
def readAll (magic : Magic) (reads : List (List UInt8)) : ReadState :=
  readLoop magic .start (reads.map .data)

/-- A way of cutting the stream into reads of `temp_buf`. -/
structure Cut (stream : List UInt8) (reads : List (List UInt8)) : Prop where
  flatten : reads.flatten = stream
  nonempty : ∀ read ∈ reads, read ≠ []
  bounded : ∀ read ∈ reads, read.length ≤ 8192

/-- The loop over reads with data is one pass over all of their bytes. -/
lemma readLoop_data {reads : List (List UInt8)} (hne : ∀ read ∈ reads, read ≠ []) (s : ReadState)
    (hopen : s.closed = false) :
    readLoop magic s (reads.map .data) =
      ReadState.parse magic { s with buffer := s.buffer ++ reads.flatten } := by
  induction reads generalizing s with
  | nil => simp [readLoop]
  | cons read reads ih =>
    have hread : read ≠ [] := hne read List.mem_cons_self
    have hreads := fun r hr => hne r (List.mem_cons_of_mem read hr)
    have happend := Framer.drain_append (f := frames magic) s.buffer (read ++ reads.flatten)
    rw [List.map_cons, readLoop, List.flatten_cons]
    cases hdrain : (frames magic).drain s.buffer with
    | mk out left =>
      cases left with
      | none =>
        simp only [hdrain] at happend
        simp [ReadState.parse, hdrain, happend]
      | some rest =>
        simp only [hdrain] at happend
        have hrest := ih hreads ⟨s.delivered ++ out, rest ++ read, false⟩ rfl
        simp only [ReadState.parse, hdrain, ReadState.read_data _ hread, hopen, Bool.false_eq_true,
          if_false, happend] at hrest ⊢
        rw [hrest]
        simp only [List.append_assoc]
        cases (frames magic).drain (rest ++ (read ++ reads.flatten)) with
        | mk outs left => cases left <;> simp

lemma readAll_eq {stream : List UInt8} {reads : List (List UInt8)} (h : Cut stream reads) :
    readAll magic reads = ReadState.parse magic ⟨[], stream, false⟩ := by
  rw [readAll, readLoop_data h.nonempty .start rfl, h.flatten]
  rfl

/-- The messages that are delivered do not depend on how the stream is cut into reads. -/
theorem delivered_of_cut (magic : Magic) (stream : List UInt8) (reads reads' : List (List UInt8))
    (h : Cut stream reads) (h' : Cut stream reads') :
    (readAll magic reads).delivered = (readAll magic reads').delivered := by
  rw [readAll_eq h, readAll_eq h']

end

namespace Sample

/-- The frame of a `verack`. -/
def verackFrame : List UInt8 := (encodeHeader magic .verack []).toList

/-- A byte of garbage and a `verack`, in one read and byte by byte. -/
theorem delivered_of_cut_verack :
    Cut (0 :: verackFrame) [0 :: verackFrame] ∧
    Cut (0 :: verackFrame) ((0 :: verackFrame).map fun b => [b]) ∧
    (readAll magic [0 :: verackFrame]).delivered = [.verack] ∧
    (readAll magic ((0 :: verackFrame).map fun b => [b])).delivered = [.verack] := by
  have hone : Cut (0 :: verackFrame) [0 :: verackFrame] := by
    constructor <;> decide +kernel
  have hbytes : Cut (0 :: verackFrame) ((0 :: verackFrame).map fun b => [b]) := by
    constructor <;> decide +kernel
  have hverack : (readAll magic [0 :: verackFrame]).delivered = [.verack] := by decide +kernel
  exact ⟨hone, hbytes, hverack, (delivered_of_cut magic _ _ _ hone hbytes).symm.trans hverack⟩

end Sample

/-! ### Headers that are rejected -/

/-- A header with the right magic, and with a command or a length that is rejected. -/
def Malformed (magic : Magic) (buf : List UInt8) : Prop :=
  ∃ hdr e, firstHeader buf = some hdr ∧ hdr.toList.take 4 = magic.toList ∧
    decodeHeader hdr magic = .error e

section

variable [Sha2]

/-- A frame with a checksum and a payload that are accepted. -/
def WellFormedFrame (magic : Magic) (frame : List UInt8) (m : Message) : Prop :=
  ∃ hdr header, firstHeader frame = some hdr ∧ decodeHeader hdr magic = .ok header ∧
    frame.length = 24 + header.length.toNat ∧ verifyChecksum header (frame.drop 24) = .ok () ∧
    Message.decode header.command (frame.drop 24) = .ok m

/-- Up to `rest` the stream consists of bytes that do not start with the magic and of complete
frames; `out` are the messages of the frames. -/
inductive Framed (magic : Magic) : List UInt8 → List Message → List UInt8 → Prop
  | start (stream : List UInt8) : Framed magic stream [] stream
  | garbage {stream rest : List UInt8} {hdr : List.Vector UInt8 24} {out : List Message}
      (hhdr : firstHeader stream = some hdr) (hmagic : hdr.toList.take 4 ≠ magic.toList)
      (hrest : Framed magic (stream.drop 1) out rest) : Framed magic stream out rest
  | frame {stream rest : List UInt8} {hdr : List.Vector UInt8 24} {header : MessageHeader}
      {out outs : List Message} (hhdr : firstHeader stream = some hdr)
      (hok : decodeHeader hdr magic = .ok header)
      (hlen : 24 + header.length.toNat ≤ stream.length)
      (hopen : openFrame header ((stream.drop 24).take header.length.toNat) = some out)
      (hrest : Framed magic (stream.drop (24 + header.length.toNat)) outs rest) :
      Framed magic stream (out ++ outs) rest

variable {magic : Magic} {stream rest : List UInt8} {out : List Message}
  {reads : List (List UInt8)}

lemma framed_iff_reaches :
    Framed magic stream out rest ↔ (frames magic).Reaches stream out rest := by
  constructor
  · intro h
    induction h with
    | start stream => exact .refl stream
    | garbage hhdr hmagic _ ih => exact .step (parseFrame_of_wrongMagic hhdr hmagic) ih
    | frame hhdr hok hlen hopen _ ih =>
      refine .step ?_ ih
      have hparse := parseFrame_of_frame hhdr hok hlen
      rwa [hopen] at hparse
  · intro h
    induction h with
    | refl stream => exact .start stream
    | step hp _ ih =>
      rcases parseFrame_eq_next hp with
        ⟨hdr, hhdr, hmagic, rfl, rfl⟩ | ⟨hdr, header, hhdr, hok, hlen, hopen, rfl⟩
      · exact .garbage hhdr hmagic ih
      · exact .frame hhdr hok hlen hopen ih

lemma Malformed.parse_eq (h : Malformed magic rest) : (frames magic).parse rest = .wait := by
  obtain ⟨hdr, e, hhdr, hmagic, he⟩ := h
  exact parseFrame_of_rejected hhdr he hmagic

/-- The loop never gets past a header that is rejected. -/
lemma Malformed.readAll_eq (h : Malformed magic rest) (hframed : Framed magic stream out rest)
    (hcut : Cut stream reads) : readAll magic reads = ⟨out, rest, false⟩ := by
  have hdrain := (framed_iff_reaches.mp hframed).drain_eq
  rw [Framer.drain_of_wait h.parse_eq, List.append_nil] at hdrain
  rw [Bitcrab.readAll_eq hcut]
  simp [ReadState.parse, hdrain]

/-- A buffer that the loop leaves with as many bytes as the largest frame has starts with a header
that is rejected. -/
lemma malformed_of_parse_eq (h : (frames magic).parse rest = .wait)
    (hlen : 24 + maxMessageSize ≤ rest.length) : Malformed magic rest := by
  cases hhdr : firstHeader rest with
  | none =>
    have hshort := firstHeader_eq_none.mp hhdr
    omega
  | some hdr =>
    cases hdecode : decodeHeader hdr magic with
    | error e =>
      by_cases hmagic : hdr.toList.take 4 = magic.toList
      · exact ⟨hdr, e, hhdr, hmagic, hdecode⟩
      · have hparse : (frames magic).parse rest = _ := parseFrame_of_wrongMagic hhdr hmagic
        rw [hparse] at h
        cases h
    | ok header =>
      have hmax := length_of_decodeHeader hdecode
      have hparse : (frames magic).parse rest = _ :=
        parseFrame_of_frame hhdr hdecode (by omega)
      rw [hparse] at h
      split at h <;> cases h

/-- A malformed frame does not wedge the connection: the buffer stays within the largest frame, and
every well-formed frame behind a header that is rejected is delivered, unless the loop is left. -/
structure Resilient (magic : Magic) (reads : List (List UInt8)) : Prop where
  bounded : ∀ k, (readAll magic (reads.take k)).buffer.length < 24 + maxMessageSize
  resumes : ∀ out rest, Framed magic reads.flatten out rest → Malformed magic rest →
    ∀ before frame after m, rest = before ++ frame ++ after → 24 ≤ before.length →
      WellFormedFrame magic frame m →
      (readAll magic reads).closed = true ∨
        ∃ later, (readAll magic reads).delivered = out ++ later ∧ m ∈ later

/-- Nothing of consequence follows a header that is rejected where a frame is expected. -/
def NothingFollows (magic : Magic) (stream : List UInt8) : Prop :=
  ∀ out rest, Framed magic stream out rest → Malformed magic rest →
    rest.length < 24 + maxMessageSize ∧
    ∀ before frame after m, rest = before ++ frame ++ after → 24 ≤ before.length →
      ¬WellFormedFrame magic frame m

omit [Sha2] in
lemma Cut.take (h : Cut stream reads) (k : Nat) :
    Cut (reads.take k).flatten (reads.take k) :=
  ⟨rfl, fun read hread => h.nonempty read (List.mem_of_mem_take hread),
    fun read hread => h.bounded read (List.mem_of_mem_take hread)⟩

/-- A buffer that is too long holds a header that is rejected, which is then in the stream too. -/
lemma NothingFollows.bounded (h : NothingFollows magic stream) (hcut : Cut stream reads) (k : Nat) :
    (readAll magic (reads.take k)).buffer.length < 24 + maxMessageSize := by
  rw [readAll_eq (hcut.take k)]
  cases hdrain : (frames magic).drain (reads.take k).flatten with
  | mk out left =>
    cases left with
    | none =>
      simp only [ReadState.parse, hdrain, List.length_nil]
      omega
    | some rest =>
      simp only [ReadState.parse, hdrain]
      by_contra hlong
      have hleft : ((frames magic).drain (reads.take k).flatten).2 = some rest := by rw [hdrain]
      have hwait := Framer.parse_of_drain _ hleft
      have hmalformed := malformed_of_parse_eq hwait (Nat.not_lt.mp hlong)
      have hreaches := (Framer.reaches_drain _ hleft).append (reads.drop k).flatten
      rw [← List.flatten_append, List.take_append_drop, hcut.flatten] at hreaches
      obtain ⟨hdr, e, hhdr, hmagic, he⟩ := hmalformed
      have hbound := (h _ _ (framed_iff_reaches.mpr hreaches)
        ⟨hdr, e, firstHeader_append hhdr _, hmagic, he⟩).1
      rw [List.length_append] at hbound
      omega

/-- Exactly when no malformed frame wedges the connection. -/
theorem resilient_iff (magic : Magic) (stream : List UInt8) (reads : List (List UInt8))
    (hcut : Cut stream reads) : Resilient magic reads ↔ NothingFollows magic stream := by
  constructor
  · intro h out rest hframed hmalformed
    have hread := hmalformed.readAll_eq hframed hcut
    constructor
    · have hbuffer := h.bounded reads.length
      rwa [List.take_length, hread] at hbuffer
    · intro before frame after m hrest hbefore hframe
      rw [← hcut.flatten] at hframed
      rcases h.resumes out rest hframed hmalformed before frame after m hrest hbefore hframe with
        hclosed | ⟨later, hlater, hm⟩
      · simp [hread] at hclosed
      · simp only [hread, List.self_eq_append_right] at hlater
        simp [hlater] at hm
  · intro h
    refine ⟨h.bounded hcut, ?_⟩
    intro out rest hframed hmalformed before frame after m hrest hbefore hframe
    rw [hcut.flatten] at hframed
    exact absurd hframe ((h out rest hframed hmalformed).2 before frame after m hrest hbefore)

end

namespace Sample

lemma wellFormedFrame_verack : WellFormedFrame magic verackFrame .verack := by
  refine ⟨encodeHeader magic .verack [], ⟨magic, .verack, 0, checksum []⟩, ?_, ?_, ?_, ?_, ?_⟩ <;>
    decide +kernel

/-- A header with the right magic and an empty command. -/
def emptyCommand : List UInt8 := magic.toList ++ List.replicate 20 0

/-- Two bytes that belong to no frame, a `verack` with a wrong checksum, one that is right, and a
rejected header with nothing behind it. -/
def mixedStream : List UInt8 :=
  [0, 0] ++ verackFrame.set 23 0 ++ verackFrame ++ emptyCommand

/-- This stream in two reads. -/
def mixedReads : List (List UInt8) := [mixedStream.take 40, mixedStream.drop 40]

/-- The right `verack` is delivered, and the rejected header waits in the buffer. -/
theorem resilient_mixedReads :
    (readAll magic mixedReads).delivered = [.verack] ∧ Resilient magic mixedReads := by
  have hcut : Cut mixedStream mixedReads := by constructor <;> decide +kernel
  have hdelivered : (readAll magic mixedReads).delivered = [.verack] := by decide +kernel
  have hbuffer : (readAll magic mixedReads).buffer = emptyCommand := by decide +kernel
  refine ⟨hdelivered, (resilient_iff magic mixedStream mixedReads hcut).mpr ?_⟩
  intro out rest hframed hmalformed
  rw [hmalformed.readAll_eq hframed hcut] at hbuffer
  have hlen : rest.length = 24 := congrArg List.length hbuffer
  refine ⟨by rw [hlen]; decide, ?_⟩
  rintro before frame after m hrest hbefore ⟨hdr, header, hhdr, -⟩
  have hframe := (firstHeader_eq_some.mp hhdr).1
  have hparts := congrArg List.length hrest
  rw [hlen, List.length_append, List.length_append] at hparts
  omega

/-- A `verack` behind a header with an empty command is never delivered. -/
theorem not_resilient_emptyCommand :
    Cut (emptyCommand ++ verackFrame) [emptyCommand ++ verackFrame] ∧
    ¬Resilient magic [emptyCommand ++ verackFrame] := by
  have hcut : Cut (emptyCommand ++ verackFrame) [emptyCommand ++ verackFrame] := by
    constructor <;> decide +kernel
  refine ⟨hcut, fun h => ?_⟩
  have hmalformed : Malformed magic (emptyCommand ++ verackFrame) :=
    ⟨⟨emptyCommand, by decide⟩, .malformedCommand (List.replicate 12 0) "empty command",
      by decide +kernel, by decide +kernel, by decide +kernel⟩
  have hframed : Framed magic (emptyCommand ++ verackFrame) [] (emptyCommand ++ verackFrame) :=
    .start _
  have hread := hmalformed.readAll_eq hframed hcut
  rw [← hcut.flatten] at hframed
  rcases h.resumes _ _ hframed (hcut.flatten ▸ hmalformed) emptyCommand verackFrame [] .verack
    (by simp) (by decide) wellFormedFrame_verack with hclosed | ⟨later, hlater, hm⟩
  · simp [hread] at hclosed
  · simp only [hread, List.self_eq_append_right] at hlater
    simp [hlater] at hm

end Sample

end Bitcrab
