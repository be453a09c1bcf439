import Bitcrab.Net.Messages
import Bitcrab.Types.Canonical

/-!
# What decoding a message reserves (`net/p2p/messages/*.rs`, `common/wire/decode.rs`)

The capacities that `Message::decode` asks for, until it returns, fails or panics: those of
`Vec::with_capacity` in elements, those of copies of bytes in bytes. A capacity fits when the
decoder still has as many bytes to read.
-/

namespace Bitcrab

/-! ### The capacities -/

/-- What is reserved after a read, if it succeeds. -/
def afterRead {α : Type} (x : Except DecodeError (α × Decoder))
    (reserved : α → Decoder → List Nat) :
    List Nat :=
  match x with
  | .ok (a, d) => reserved a d
  | .error _ => []

/-- The capacities that the `decode` of a type reserves. -/
class Reserves (α : Type) [BitcoinDecode α] where
  reserved : Decoder → List Nat

namespace Decoder

/-- In `read_varbytes`: the copy of the bytes. -/
def reservedVarbytes (d : Decoder) (label : String) : List Nat :=
  afterRead (d.readVarbytes label) fun bs _ => [bs.length]

/-- In `read_var_str`: the copy of the string. -/
def reservedVarStr (d : Decoder) (field : String) : List Nat :=
  afterRead (d.readVarStr field) fun s _ => [s.toByteArray.data.toList.length]

/-- In the loop of `read_var_list`. -/
def reservedItems (α : Type) [BitcoinDecode α] [Reserves α] : Nat → Decoder → List Nat
  | 0, _ => []
  | count + 1, d =>
    Reserves.reserved α d ++
      afterRead (decode d : Except DecodeError (α × Decoder)) fun _ d => reservedItems α count d

/-- In `read_var_list`: room for the items before they are read. -/
def reservedVarList (α : Type) [BitcoinDecode α] [Reserves α] (d : Decoder) (label : String) :
    List Nat :=
  afterRead (d.readVarint label) fun count d =>
    if count.toNat ≤ maxWireAllocation ∧ count.toNat ≤ d.remaining then
      count.toNat :: reservedItems α count.toNat d
    else []

end Decoder

instance : Reserves (List UInt8) := ⟨fun d => d.reservedVarbytes "Vec<u8>"⟩

instance : Reserves TxIn where
  reserved d :=
    afterRead (decode d : Except DecodeError (OutPoint × Decoder)) fun _ d =>
      d.reservedVarbytes "ScriptBuf"

instance : Reserves TxOut where
  reserved d :=
    afterRead (decode d : Except DecodeError (Amount × Decoder)) fun _ d =>
      d.reservedVarbytes "ScriptBuf"

/-- In the witness loop of `Transaction::decode`. -/
def reservedWitnesses : List TxIn → Decoder → List Nat
  | [], _ => []
  | _ :: inputs, d =>
    d.reservedVarList (List UInt8) "Transaction::witness" ++
      afterRead (d.readVarList (List UInt8) "Transaction::witness") fun _ d =>
        reservedWitnesses inputs d

/-- In `Transaction::decode`, from the inputs on. -/
def reservedInputsOutputs (segwit : Bool) (d : Decoder) : List Nat :=
  d.reservedVarList TxIn "Transaction::inputs" ++
    afterRead (d.readVarList TxIn "Transaction::inputs") fun inputs d =>
      d.reservedVarList TxOut "Transaction::outputs" ++
        afterRead (d.readVarList TxOut "Transaction::outputs") fun _ d =>
          if segwit then reservedWitnesses inputs d else []

instance : Reserves Transaction where
  reserved d :=
    afterRead (decode d : Except DecodeError (UInt32 × Decoder)) fun _ d =>
      match d.peekU8 "Transaction::marker" with
      | .error _ => []
      | .ok marker =>
        if marker = 0 then
          afterRead (decode d : Except DecodeError (UInt8 × Decoder)) fun _ d =>
            afterRead (decode d : Except DecodeError (UInt8 × Decoder)) fun flag d =>
              if flag ≠ 1 then [] else reservedInputsOutputs true d
        else reservedInputsOutputs false d

instance : Reserves Block where
  reserved d :=
    afterRead (decode d : Except DecodeError (BlockHeader × Decoder)) fun _ d =>
      d.reservedVarList Transaction "Block::transactions"

instance : Reserves Version where
  reserved d :=
    afterRead (decode d : Except DecodeError (Int32 × Decoder)) fun _ d =>
    afterRead (decode d : Except DecodeError (UInt64 × Decoder)) fun _ d =>
    afterRead (decode d : Except DecodeError (Int64 × Decoder)) fun _ d =>
    afterRead (decode d : Except DecodeError (UInt64 × Decoder)) fun _ d =>
    afterRead (d.readArray 16 "recv_addr") fun _ d =>
    afterRead (d.readU16Be "recv_port") fun _ d =>
    afterRead (decode d : Except DecodeError (UInt64 × Decoder)) fun _ d =>
    afterRead (d.readArray 16 "from_addr") fun _ d =>
    afterRead (d.readU16Be "from_port") fun _ d =>
    afterRead (decode d : Except DecodeError (UInt64 × Decoder)) fun _ d =>
      d.reservedVarStr "user_agent"

/-- In the decoders that check the count against a limit; their items reserve nothing. -/
def reservedLimited (field : String) (limit : Nat) (d : Decoder) : List Nat :=
  afterRead (d.readVarint field) fun count _ => if count.toNat > limit then [] else [count.toNat]

/-- In `GetHeaders::decode`: room for as many hashes as the count says. -/
def GetHeaders.reserved (payload : List UInt8) : List Nat :=
  match readCount payload with
  | .ok (_, count, _) => [count.toNat]
  | .error _ => []

/-- In `Message::decode`. The name of an unknown command is copied. -/
def Message.reserved (command : Command) (payload : List UInt8) : List Nat :=
  match command with
  | .version => Reserves.reserved Version (Decoder.new payload)
  | .getHeaders => GetHeaders.reserved payload
  | .headers =>
    if payload.isEmpty then []
    else reservedLimited "header_count" maxHeadersPerMsg (Decoder.new payload)
  | .getData => reservedLimited "inv_count" maxInvEntries (Decoder.new payload)
  | .inv => reservedLimited "inv_count" maxInvEntries (Decoder.new payload)
  | .block => Reserves.reserved Block (Decoder.new payload)
  | .addr => reservedLimited "count" maxAddrEntries (Decoder.new payload)
  | .notFound => reservedLimited "inv_count" maxInvEntries (Decoder.new payload)
  | .unknown name => [name.length]
  | _ => []

/-- The limit that the protocol sets for a command, where it sets one: the entries of a list, or the
bytes of a name. -/
def Command.limit : Command → Nat
  | headers => maxHeadersPerMsg
  | getData => maxInvEntries
  | inv => maxInvEntries
  | addr => maxAddrEntries
  | notFound => maxInvEntries
  | unknown _ => 12
  | _ => 0

/-! ### Reads that do not go back -/

/-- A read leaves at most as much as there was. -/
def Shrinks {α : Type} (read : Decoder → Except DecodeError (α × Decoder)) : Prop :=
  ∀ d x d', read d = .ok (x, d') → d'.remaining ≤ d.remaining

/-- The capacities are at most what there is to read. -/
def Fits (reserved : Decoder → List Nat) : Prop :=
  ∀ d, ∀ c ∈ reserved d, c ≤ d.remaining

lemma Decoder.Consumed.remaining_le {d d' : Decoder} {bs : List UInt8} (h : d.Consumed bs d') :
    bs.length ≤ d.remaining ∧ d'.remaining ≤ d.remaining := by
  simp only [Decoder.remaining, h.1, List.length_append]
  omega

section Combinators

variable {α : Type} {read : Decoder → Except DecodeError (α × Decoder)}

lemma Fits.nil : Fits fun _ => [] := by
  intro d c hc
  simp at hc

lemma Fits.append {f g : Decoder → List Nat} (hf : Fits f) (hg : Fits g) :
    Fits fun d => f d ++ g d := by
  intro d c hc
  rcases List.mem_append.mp hc with hc | hc
  · exact hf d c hc
  · exact hg d c hc

lemma Fits.afterRead {f : α → Decoder → List Nat} (hread : Shrinks read) (hf : ∀ a, Fits (f a)) :
    Fits fun d => Bitcrab.afterRead (read d) f := by
  intro d c hc
  dsimp only [Bitcrab.afterRead] at hc
  split at hc
  · rename_i a d' hok
    exact (hf a d' c hc).trans (hread d a d' hok)
  · simp at hc

lemma Fits.ite {f g : Decoder → List Nat} (p : Prop) [Decidable p] (hf : Fits f) (hg : Fits g) :
    Fits fun d => if p then f d else g d := by
  by_cases hp : p
  · simpa [hp] using hf
  · simpa [hp] using hg

/-- A copy of bytes that were read. -/
lemma fits_copy {size : α → Nat}
    (h : ∀ d x d', read d = .ok (x, d') → size x ≤ d.remaining) :
    Fits fun d => Bitcrab.afterRead (read d) fun x _ => [size x] := by
  intro d c hc
  dsimp only [Bitcrab.afterRead] at hc
  split at hc
  · rename_i a d' hok
    rw [List.mem_singleton.mp hc]
    exact h d a d' hok
  · simp at hc

lemma shrinks_bytes (k : Nat) (field : String) (conv : List UInt8 → α) :
    Shrinks fun d => do let (bs, d) ← d.readBytes k field; return (conv bs, d) := by
  intro d x d' h
  obtain ⟨bs, -, -, hconsumed⟩ := consumed_ofLeBytes k field conv h
  exact hconsumed.remaining_le.2

lemma shrinks_readArray (n : Nat) (field : String) : Shrinks fun d => d.readArray n field := by
  intro d x d' h
  exact (consumed_readArray h).remaining_le.2

lemma shrinks_readVarint (field : String) : Shrinks fun d => d.readVarint field := by
  intro d x d' h
  exact (consumed_readVarint h).remaining_le.2

end Combinators

/-! ### Every list and copy fits -/

lemma fits_reservedVarbytes (label : String) : Fits fun d => d.reservedVarbytes label := by
  refine fits_copy fun d bs d' h => ?_
  have hlen := (consumed_readVarbytes h).1.remaining_le.1
  simp only [encodeVarBytes, List.length_append] at hlen
  omega

lemma fits_reservedVarStr (field : String) : Fits fun d => d.reservedVarStr field := by
  refine fits_copy fun d s d' h => ?_
  obtain ⟨⟨len, d₁⟩, hlen, h⟩ := Result.bind_eq_ok.mp h
  obtain ⟨⟨⟩, -, h⟩ := Result.bind_eq_ok.mp h
  obtain ⟨⟨bs, d₂⟩, hbytes, h⟩ := Result.bind_eq_ok.mp h
  have hread := (consumed_readBytes hbytes).1.remaining_le.1
  have hvarint := (consumed_readVarint hlen).remaining_le.2
  -- the string is made of the bytes that were read
  have hsize : s.toByteArray.data.toList = bs := by
    dsimp only at h
    split at h
    · rename_i s' hs
      cases h
      unfold String.fromUTF8? at hs
      split_ifs at hs with hvalid
      cases hs
      rfl
    · cases h
  rw [hsize]
  omega

section Lists

variable {α : Type} [BitcoinDecode α] [Reserves α]

lemma fits_reservedItems (hα : Fits (Reserves.reserved α))
    (hdecode : Shrinks (decode : Decoder → Except DecodeError (α × Decoder))) (count : Nat) :
    Fits (Decoder.reservedItems α count) := by
  induction count with
  | zero => exact Fits.nil
  | succ count ih => exact hα.append (Fits.afterRead hdecode fun _ => ih)

lemma fits_reservedVarList (hα : Fits (Reserves.reserved α))
    (hdecode : Shrinks (decode : Decoder → Except DecodeError (α × Decoder))) (label : String) :
    Fits fun d => d.reservedVarList α label := by
  refine Fits.afterRead (shrinks_readVarint label) fun count d c hc => ?_
  split_ifs at hc with hcount
  · rcases List.mem_cons.mp hc with rfl | hc
    · exact hcount.2
    · exact fits_reservedItems hα hdecode _ d c hc
  · simp at hc

end Lists

lemma shrinks_varbytes :
    Shrinks (decode : Decoder → Except DecodeError (List UInt8 × Decoder)) := by
  intro d x d' h
  exact (consumed_readVarbytes h).1.remaining_le.2

/-- Lists of items that are read from bytes of their own. -/
lemma shrinks_readVarList {α : Type} [BitcoinDecode α]
    (h : ∀ {d d' : Decoder} {x : α}, decode d = .ok (x, d') → ∃ bs, d.Consumed bs d')
    (label : String) : Shrinks fun d => d.readVarList α label := by
  intro d xs d' hread
  have hform : ∀ {d d' : Decoder} {x : α}, decode d = .ok (x, d') →
      ∃ bs, (fun (_ : α) (_ : List UInt8) => True) x bs ∧ d.Consumed bs d' :=
    fun hx => (h hx).imp fun _ hbs => ⟨trivial, hbs⟩
  obtain ⟨-, parts, -, hconsumed⟩ := consumed_readVarList hform hread
  exact hconsumed.remaining_le.2

lemma fits_txIn : Fits (Reserves.reserved TxIn) :=
  Fits.afterRead (fun _ _ _ h => (consumed_outPoint h).remaining_le.2)
    fun _ => fits_reservedVarbytes "ScriptBuf"

lemma fits_txOut : Fits (Reserves.reserved TxOut) :=
  Fits.afterRead (fun _ _ _ h => (consumed_amount h).remaining_le.2)
    fun _ => fits_reservedVarbytes "ScriptBuf"

lemma fits_reservedWitnesses (inputs : List TxIn) : Fits (reservedWitnesses inputs) := by
  induction inputs with
  | nil => exact Fits.nil
  | cons input inputs ih =>
    refine (fits_reservedVarList (fits_reservedVarbytes "Vec<u8>") shrinks_varbytes _).append ?_
    exact Fits.afterRead (shrinks_readVarList (fun h => ⟨_, (consumed_readVarbytes h).1⟩) _)
      fun _ => ih

lemma fits_reservedInputsOutputs (segwit : Bool) : Fits (reservedInputsOutputs segwit) := by
  refine (fits_reservedVarList fits_txIn (fun _ _ _ h => (consumed_txIn h).1.remaining_le.2)
    _).append ?_
  refine Fits.afterRead (shrinks_readVarList (fun h => ⟨_, (consumed_txIn h).1⟩) _) fun inputs => ?_
  refine (fits_reservedVarList fits_txOut (fun _ _ _ h => (consumed_txOut h).1.remaining_le.2)
    _).append ?_
  refine Fits.afterRead (shrinks_readVarList (fun h => ⟨_, (consumed_txOut h).1⟩) _) fun _ => ?_
  exact Fits.ite _ (fits_reservedWitnesses inputs) Fits.nil

lemma fits_transaction : Fits (Reserves.reserved Transaction) := by
  refine Fits.afterRead (fun _ _ _ h => (consumed_uint32 h).remaining_le.2) fun _ d c hc => ?_
  split at hc
  · simp at hc
  · split_ifs at hc
    · refine Fits.afterRead (fun _ _ _ h => (consumed_uint8 h).remaining_le.2) (fun _ => ?_) d c hc
      refine Fits.afterRead (fun _ _ _ h => (consumed_uint8 h).remaining_le.2) fun flag => ?_
      exact Fits.ite _ Fits.nil (fits_reservedInputsOutputs true)
    · exact fits_reservedInputsOutputs false d c hc

lemma fits_block : Fits (Reserves.reserved Block) := by
  refine Fits.afterRead (fun _ _ _ h => (consumed_blockHeader h).remaining_le.2) fun _ => ?_
  refine fits_reservedVarList fits_transaction (fun _ _ _ h => ?_) _
  obtain ⟨bs, -, hconsumed⟩ := Transaction.exists_wireForm h
  exact hconsumed.remaining_le.2

lemma shrinks_uint64 : Shrinks (decode : Decoder → Except DecodeError (UInt64 × Decoder)) :=
  shrinks_bytes 8 "u64" fun bs => UInt64.ofNat (Bytes.ofLeBytes bs)

lemma shrinks_readU16Be (field : String) : Shrinks fun d => d.readU16Be field :=
  shrinks_bytes 2 field fun bs => UInt16.ofNat (Bytes.ofBeBytes bs)

lemma fits_version : Fits (Reserves.reserved Version) := by
  refine Fits.afterRead
    (shrinks_bytes 4 "i32" fun bs => (UInt32.ofNat (Bytes.ofLeBytes bs)).toInt32) fun _ => ?_
  refine Fits.afterRead shrinks_uint64 fun _ => ?_
  refine Fits.afterRead
    (shrinks_bytes 8 "i64" fun bs => (UInt64.ofNat (Bytes.ofLeBytes bs)).toInt64) fun _ => ?_
  refine Fits.afterRead shrinks_uint64 fun _ => ?_
  refine Fits.afterRead (shrinks_readArray 16 "recv_addr") fun _ => ?_
  refine Fits.afterRead (shrinks_readU16Be "recv_port") fun _ => ?_
  refine Fits.afterRead shrinks_uint64 fun _ => ?_
  refine Fits.afterRead (shrinks_readArray 16 "from_addr") fun _ => ?_
  refine Fits.afterRead (shrinks_readU16Be "from_port") fun _ => ?_
  refine Fits.afterRead shrinks_uint64 fun _ => ?_
  exact fits_reservedVarStr "user_agent"

/-! ### Messages -/

lemma le_of_mem_reservedLimited {field : String} {limit : Nat} {d : Decoder} {c : Nat}
    (h : c ∈ reservedLimited field limit d) : c ≤ limit := by
  simp only [reservedLimited, afterRead] at h
  split at h
  · split_ifs at h with hlimit
    · simp at h
    · rw [List.mem_singleton.mp h]
      exact Nat.not_lt.mp hlimit
  · simp at h

/-- A name that came in a header has at most the bytes of the field. -/
lemma length_unknown_le {bytes : List.Vector UInt8 12} {name : List UInt8}
    (h : Command.fromWire bytes.toList = .ok (.unknown name)) : name.length ≤ 12 := by
  simp only [Command.fromWire] at h
  split_ifs at h
  rw [Except.ok.injEq, Command.ofName] at h
  cases hfind : Command.known.find?
      fun command => command.name = bytes.toList.takeWhile (· ≠ 0) with
  | some command =>
    rw [hfind, Option.getD_some] at h
    have hmem := List.mem_of_find?_eq_some hfind
    rw [h] at hmem
    simp [Command.known] at hmem
  | none =>
    rw [hfind, Option.getD_none, Command.unknown.injEq] at h
    rw [← h]
    exact (List.takeWhile_sublist _).length_le.trans (Nat.le_of_eq bytes.2)

/-- `Message::decode` does not panic, and what it reserves is within the payload or the limit of the
command. -/
def Proportional (command : Command) (payload : List UInt8) : Prop :=
  Message.decode command payload ≠ .error .panic ∧
    ∀ c ∈ Message.reserved command payload, c ≤ payload.length ∨ c ≤ command.limit

/-- The locator of a `getheaders` promises no more hashes than the payload has bytes. -/
def LocatorFits (payload : List UInt8) : Prop :=
  ∀ version count d, GetHeaders.readCount payload = .ok (version, count, d) →
    count.toNat ≤ payload.length

lemma map_lift_ne_panic {α β : Type} (f : α → β) (x : Except DecodeError α) :
    f <$> Outcome.lift x ≠ (.error .panic : Outcome DecodeError β) := by
  cases x <;> simp [Functor.map, Except.map]

lemma decode_ne_panic {command : Command} (h : command ≠ .getHeaders) (payload : List UInt8) :
    Message.decode command payload ≠ .error .panic := by
  cases command with
  | getHeaders => exact absurd rfl h
  | verack =>
    rw [Message.decode]
    cases (Decoder.new payload).finish "verack" <;> simp
  | getAddr =>
    rw [Message.decode]
    cases (Decoder.new payload).finish "getaddr" <;> simp
  | _ => first | exact map_lift_ne_panic _ _ | simp [Message.decode]

lemma reserved_le {bytes : List.Vector UInt8 12} {command : Command}
    (hwire : Command.fromWire bytes.toList = .ok command) (h : command ≠ .getHeaders)
    {payload : List UInt8} {c : Nat} (hc : c ∈ Message.reserved command payload) :
    c ≤ payload.length ∨ c ≤ command.limit := by
  cases command with
  | getHeaders => exact absurd rfl h
  | version => exact .inl (fits_version _ c hc)
  | block => exact .inl (fits_block _ c hc)
  | headers =>
    simp only [Message.reserved] at hc
    split_ifs at hc
    · simp at hc
    · exact .inr (le_of_mem_reservedLimited hc)
  | getData => exact .inr (le_of_mem_reservedLimited hc)
  | inv => exact .inr (le_of_mem_reservedLimited hc)
  | addr => exact .inr (le_of_mem_reservedLimited hc)
  | notFound => exact .inr (le_of_mem_reservedLimited hc)
  | unknown name =>
    rw [List.mem_singleton.mp hc]
    exact .inr (length_unknown_le hwire)
  | _ => simp [Message.reserved] at hc

lemma proportional_getHeaders_iff {payload : List UInt8} (hlen : payload.length ≤ maxMessageSize) :
    Proportional .getHeaders payload ↔ LocatorFits payload := by
  constructor
  · rintro ⟨-, hreserved⟩ version count d hread
    have hcount := hreserved count.toNat (by simp [Message.reserved, GetHeaders.reserved, hread])
    simp only [Command.limit] at hcount
    omega
  · intro h
    constructor
    · cases hread : GetHeaders.readCount payload with
      | error e => simp [Message.decode, GetHeaders.decode, hread, Functor.map, Except.map]
      | ok read =>
        obtain ⟨version, count, d⟩ := read
        have hcount := h version count d hread
        have hmax : maxMessageSize * 32 ≤ Outcome.isizeMax := by decide
        have hroom : (Outcome.withCapacity 32 count.toNat : Outcome DecodeError Unit) = .ok () := by
          rw [Outcome.withCapacity, if_pos (by omega)]
        rw [Message.decode, GetHeaders.decode, hread, Outcome.lift_ok, Result.ok_bind]
        dsimp only
        rw [hroom, Result.ok_bind]
        exact map_lift_ne_panic _ _
    · intro c hc
      simp only [Message.reserved, GetHeaders.reserved] at hc
      split at hc
      · rename_i version count d hread
        rw [List.mem_singleton.mp hc]
        exact .inl (h version count d hread)
      · simp at hc

/-- Exactly when decoding a message is within bounds: always, but for a `getheaders` whose count
promises more than the payload can hold. -/
theorem proportional_iff (bytes : List.Vector UInt8 12) (command : Command)
    (hwire : Command.fromWire bytes.toList = .ok command) (payload : List UInt8)
    (hlen : payload.length ≤ maxMessageSize) :
    Proportional command payload ↔ (command = .getHeaders → LocatorFits payload) := by
  by_cases h : command = .getHeaders
  · subst h
    rw [proportional_getHeaders_iff hlen]
    simp
  · refine ⟨fun _ heq => absurd heq h, fun _ => ⟨decode_ne_panic h payload, ?_⟩⟩
    intro c hc
    exact reserved_le hwire h hc

namespace Sample

/-- A `getheaders` of 13 bytes whose count is the largest 64-bit number. -/
def hugeLocator : List UInt8 := [0x80, 0x11, 0x01, 0x00] ++ List.replicate 9 0xFF

/-- The name of a command in the twelve bytes of a header. -/
def commandBytes (command : Command) : List.Vector UInt8 12 :=
  ⟨command.toWire, Command.length_toWire command⟩

/-- A tiny message makes the node panic. -/
theorem decode_hugeLocator :
    Command.fromWire (commandBytes .getHeaders).toList = .ok .getHeaders ∧
    hugeLocator.length = 13 ∧
    Message.decode .getHeaders hugeLocator = .error .panic ∧
    Message.reserved .getHeaders hugeLocator = [2 ^ 64 - 1] ∧
    ¬Proportional .getHeaders hugeLocator := by
  have hpanic : Message.decode .getHeaders hugeLocator = .error .panic := by decide
  exact ⟨by decide, by decide, hpanic, by decide, fun h => h.1 hpanic⟩

/-- The inventory of an `inv` that is cut off is within the limit. -/
theorem proportional_inv : Proportional .inv [0xFD, 0x50, 0xC3] :=
  (proportional_iff (commandBytes .inv) .inv (by decide) [0xFD, 0x50, 0xC3] (by decide)).mpr
    (by simp)

end Sample

end Bitcrab
