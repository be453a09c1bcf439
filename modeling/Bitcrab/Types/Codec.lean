import Bitcrab.Types.Block

/-!
# Round trips of transactions and blocks

The decoder of a transaction guesses its form from one byte: a zero is the segwit marker, anything
else is the first byte of the input count. The guess is right because a transaction in the legacy
form has at least one input.
-/

namespace Bitcrab

/-! ### Inputs and witnesses -/

/-- The lengths of a witness stack are within the allocation limit. -/
def WitnessWithinLimits (witness : List (List UInt8)) : Prop :=
  witness.length ≤ maxWireAllocation ∧ ∀ item ∈ witness, item.length ≤ maxWireAllocation

instance : DecidablePred WitnessWithinLimits :=
  fun _ => inferInstanceAs (Decidable (_ ∧ _))

lemma encodeVarBytes_ne_nil (bs : List UInt8) : encodeVarBytes bs ≠ [] :=
  List.append_ne_nil_of_left_ne_nil (encode_varInt_ne_nil _) _

/-- A witness stack is read back. -/
lemma reads_readVarList_witness {witness : List (List UInt8)} (h : WitnessWithinLimits witness)
    (label : String) :
    Reads (fun d => d.readVarList (List UInt8) label) (encodeVarList witness) witness := by
  have hread := reads_readVarList (g := id) h.1 (fun item _ => encodeVarBytes_ne_nil item)
    (fun item hitem => roundTrips_bytes (h.2 item hitem)) label
  rwa [List.map_id] at hread

/-- The witness loop gives every input its own stack back. -/
lemma reads_decodeWitnesses (inputs : List TxIn)
    (h : ∀ i ∈ inputs, WitnessWithinLimits i.witness) :
    Reads (decodeWitnesses (inputs.map fun i => { i with witness := [] }))
      (inputs.flatMap fun i => encodeVarList i.witness) inputs := by
  induction inputs with
  | nil =>
    intro pos suffix
    simp [decodeWitnesses]
  | cons i inputs ih =>
    intro pos suffix
    have hi := reads_readVarList_witness (h i List.mem_cons_self) "Transaction::witness"
    have hinputs := ih fun j hj => h j (List.mem_cons_of_mem i hj)
    simp only [Reads] at hi hinputs
    simp only [List.map_cons, List.flatMap_cons, List.append_assoc, decodeWitnesses, hi, hinputs,
      bind, Except.bind, pure, Except.pure, List.length_append, Nat.add_assoc]

/-! ### Transactions -/

/-- The script, witness item and list lengths of a transaction are within the allocation limit. -/
structure Transaction.WithinLimits (tx : Transaction) : Prop where
  inputs : tx.inputs.length ≤ maxWireAllocation
  outputs : tx.outputs.length ≤ maxWireAllocation
  scriptSig : ∀ i ∈ tx.inputs, i.scriptSig.bytes.length ≤ maxWireAllocation
  scriptPubkey : ∀ o ∈ tx.outputs, o.scriptPubkey.bytes.length ≤ maxWireAllocation
  witness : ∀ i ∈ tx.inputs, WitnessWithinLimits i.witness

lemma encode_txIn_ne_nil (i : TxIn) : encode i ≠ [] := by
  intro h
  have hlen := congrArg List.length h
  simp [encode] at hlen

lemma encode_txOut_ne_nil (o : TxOut) : encode o ≠ [] :=
  List.append_ne_nil_of_right_ne_nil _ (encodeVarBytes_ne_nil _)

namespace Transaction

variable {tx : Transaction}

lemma WithinLimits.reads_inputs (h : tx.WithinLimits) (label : String) :
    Reads (fun d => d.readVarList TxIn label) (encodeVarList tx.inputs)
      (tx.inputs.map fun i => { i with witness := [] }) :=
  reads_readVarList h.inputs (fun i _ => encode_txIn_ne_nil i)
    (fun i hi => reads_txIn (h.scriptSig i hi)) label

lemma WithinLimits.reads_outputs (h : tx.WithinLimits) (label : String) :
    Reads (fun d => d.readVarList TxOut label) (encodeVarList tx.outputs) tx.outputs := by
  have hread := reads_readVarList (g := id) h.outputs (fun o _ => encode_txOut_ne_nil o)
    (fun o ho => roundTrips_txOut (h.scriptPubkey o ho)) label
  rwa [List.map_id] at hread

/-- Without witnesses, clearing them changes nothing. -/
lemma map_inputs_of_not_isSegwit (h : tx.isSegwit = false) :
    (tx.inputs.map fun i => { i with witness := [] }) = tx.inputs := by
  conv_rhs => rw [← List.map_id tx.inputs]
  apply List.map_congr_left
  intro i hi
  simp only [isSegwit, List.any_eq_false] at h
  have hw := h i hi
  simp only [Bool.not_eq_true, Bool.not_eq_false', List.isEmpty_iff] at hw
  rw [← hw]
  rfl

/-- The first byte of a nonzero count is not the segwit marker. -/
lemma exists_encode_varInt_eq_cons {v : UInt64} (hv : v ≠ 0) :
    ∃ b bs, encode (VarInt.mk v) = b :: bs ∧ b ≠ 0 := by
  simp only [encode]
  split_ifs with h
  · refine ⟨v.toUInt8, [], rfl, ?_⟩
    intro hb
    apply hv
    have hb' : v.toNat % 256 = 0 := by simpa using congrArg UInt8.toNat hb
    rw [UInt64.le_iff_toNat_le] at h
    have hc : (0xFC : UInt64).toNat = 0xFC := rfl
    apply UInt64.toNat_inj.mp
    simp only [UInt64.toNat_zero]
    omega
  · exact ⟨0xFD, _, rfl, by decide⟩
  · exact ⟨0xFE, _, rfl, by decide⟩
  · exact ⟨0xFF, _, rfl, by decide⟩

/-- A transaction with inputs in the legacy form is not taken for the segwit form. -/
lemma exists_peekU8_eq_ok (h : tx.WithinLimits) (hin : tx.inputs ≠ []) (field : String) (pos : Nat)
    (suffix : List UInt8) :
    ∃ b, (Decoder.mk pos (encodeVarList tx.inputs ++ suffix)).peekU8 field = .ok b ∧ b ≠ 0 := by
  have hv : UInt64.ofNat tx.inputs.length ≠ 0 := by
    intro hz
    have hnat := congrArg UInt64.toNat hz
    rw [toNat_ofNat_of_le_maxWireAllocation h.inputs] at hnat
    exact hin (List.length_eq_zero_iff.mp hnat)
  obtain ⟨b, bs, he, hb⟩ := exists_encode_varInt_eq_cons hv
  refine ⟨b, ?_, hb⟩
  simp [Decoder.peekU8, Decoder.require, Decoder.remaining, encodeVarList, he, bind, Except.bind,
    pure, Except.pure]

/-- The form with marker, flag and witnesses, for any transaction. -/
def encodeExtended (tx : Transaction) : List UInt8 :=
  encode tx.version ++ encode (0 : UInt8) ++ encode (1 : UInt8) ++
    encodeVarList tx.inputs ++ encodeVarList tx.outputs ++
    (tx.inputs.flatMap fun i => encodeVarList i.witness) ++ encode tx.lockTime

/-- The form with marker and flag is read back, with or without witnesses in it. -/
lemma reads_encodeExtended (h : tx.WithinLimits) : Reads decode tx.encodeExtended tx := by
  intro pos suffix
  have hversion := roundTrips_uint32 tx.version
  have hbyte := fun v => roundTrips_uint8 v
  have hinputs := h.reads_inputs "Transaction::inputs"
  have houtputs := h.reads_outputs "Transaction::outputs"
  have hwitness := reads_decodeWitnesses tx.inputs h.witness
  have hlock := roundTrips_uint32 tx.lockTime
  simp only [RoundTrips, Reads] at hversion hbyte hinputs houtputs hwitness hlock
  have hpeek : ∀ p bs, (Decoder.mk p (encode (0 : UInt8) ++ bs)).peekU8 "Transaction::marker" =
      .ok 0 := by
    intro p bs
    simp [Decoder.peekU8, Decoder.require, Decoder.remaining, encode, bind, Except.bind, pure,
      Except.pure]
  simp only [encodeExtended, List.append_assoc]
  unfold decode instBitcoinDecodeTransaction
  simp only [hversion, hpeek, hbyte, hinputs, houtputs, hwitness, hlock, bind, Except.bind, pure,
    Except.pure, if_true, ne_eq, not_true_eq_false, if_false, List.length_append, Nat.add_assoc]

lemma roundTrips_of_isSegwit (h : tx.WithinLimits) (hs : tx.isSegwit = true) : RoundTrips tx := by
  have e : encode tx = tx.encodeExtended := if_pos hs
  rw [RoundTrips, e]
  exact reads_encodeExtended h

lemma roundTrips_of_not_isSegwit (h : tx.WithinLimits) (hin : tx.inputs ≠ [])
    (hs : tx.isSegwit = false) : RoundTrips tx := by
  intro pos suffix
  have hversion := roundTrips_uint32 tx.version
  have hinputs := h.reads_inputs "Transaction::inputs"
  have houtputs := h.reads_outputs "Transaction::outputs"
  have hlock := roundTrips_uint32 tx.lockTime
  simp only [RoundTrips, Reads, map_inputs_of_not_isSegwit hs] at hversion hinputs houtputs hlock
  have e : encode tx = encode tx.version ++ encodeVarList tx.inputs ++
      encodeVarList tx.outputs ++ encode tx.lockTime := if_neg (by simp [hs])
  obtain ⟨b, hpeek, hb⟩ := exists_peekU8_eq_ok h hin "Transaction::marker"
    (pos + (encode tx.version).length) (encodeVarList tx.outputs ++ (encode tx.lockTime ++ suffix))
  simp only [e, List.append_assoc]
  unfold decode instBitcoinDecodeTransaction
  simp only [hversion, hpeek, if_neg hb, hinputs, houtputs, hlock, bind, Except.bind, pure,
    Except.pure, List.length_append, Nat.add_assoc]

/-- A transaction with at least one input is read back, in either form. -/
lemma WithinLimits.roundTrips (h : tx.WithinLimits) (hin : tx.inputs ≠ []) : RoundTrips tx := by
  cases hs : tx.isSegwit with
  | true => exact roundTrips_of_isSegwit h hs
  | false => exact roundTrips_of_not_isSegwit h hin hs

lemma encode_ne_nil (tx : Transaction) : encode tx ≠ [] := by
  intro h
  have hlen := congrArg List.length h
  simp only [encode, encodeBase] at hlen
  split_ifs at hlen <;> simp at hlen

end Transaction

/-! ### Blocks -/

/-- The lengths of a block and of its transactions are within the allocation limit. -/
structure Block.WithinLimits (b : Block) : Prop where
  transactions : b.transactions.length ≤ maxWireAllocation
  each : ∀ tx ∈ b.transactions, tx.WithinLimits

lemma Block.WithinLimits.roundTrips {b : Block} (h : b.WithinLimits)
    (hin : ∀ tx ∈ b.transactions, tx.inputs ≠ []) : RoundTrips b := by
  intro pos suffix
  have hheader := roundTrips_blockHeader b.header
  have htxs := reads_readVarList (g := id) h.transactions
    (fun tx _ => Transaction.encode_ne_nil tx)
    (fun tx htx => (h.each tx htx).roundTrips (hin tx htx)) "Block::transactions"
  simp only [RoundTrips, Reads, List.map_id] at hheader htxs
  have e : encode b = encode b.header ++ encodeVarList b.transactions := rfl
  rw [e, List.append_assoc]
  unfold decode instBitcoinDecodeBlock
  simp [hheader, htxs, bind, Except.bind, pure, Except.pure, Nat.add_assoc]

/-- Decoding the encoding of a transaction or of a block, whatever follows it, gives the value back
and leaves what follows. -/
theorem decode_encode_append :
    (∀ tx : Transaction, tx.inputs ≠ [] → tx.WithinLimits → ∀ pos suffix,
      decode ⟨pos, encode tx ++ suffix⟩ = .ok (tx, ⟨pos + (encode tx).length, suffix⟩)) ∧
    (∀ b : Block, (∀ tx ∈ b.transactions, tx.inputs ≠ []) → b.WithinLimits → ∀ pos suffix,
      decode ⟨pos, encode b ++ suffix⟩ = .ok (b, ⟨pos + (encode b).length, suffix⟩)) :=
  ⟨fun _ hin h => h.roundTrips hin, fun _ hin h => h.roundTrips hin⟩

namespace Sample

/-- One input, spending the first output of a transaction, with a given witness stack. -/
def spend (witness : List (List UInt8)) : Transaction where
  version := 2
  inputs := [⟨⟨Digest.zero, 0⟩, ⟨[0x51]⟩, 0xFFFFFFFF, witness⟩]
  outputs := [⟨Amount.zero, ⟨[0x51, 0x52]⟩⟩]
  lockTime := 7

/-- A block with a transaction in each form. -/
def mixedBlock : Block where
  header := ⟨1, Digest.zero, Digest.zero, 0, 0x207FFFFF, 0⟩
  transactions := [spend [], spend [[1, 2, 3], []]]

end Sample

lemma Sample.withinLimits_spend (witness : List (List UInt8)) (h : WitnessWithinLimits witness) :
    (Sample.spend witness).WithinLimits := by
  constructor <;>
    simp only [Sample.spend, List.forall_mem_singleton, List.length_singleton] <;>
    first | decide | exact h

/-- A legacy and a segwit transaction, and a block of both, followed by one more byte. -/
theorem decode_encode_mixedBlock :
    Sample.mixedBlock.transactions.map Transaction.isSegwit = [false, true] ∧
    decode ⟨0, encode (Sample.spend [[1, 2, 3], []]) ++ [9]⟩ =
      .ok (Sample.spend [[1, 2, 3], []],
        ⟨0 + (encode (Sample.spend [[1, 2, 3], []])).length, [9]⟩) ∧
    decode ⟨0, encode Sample.mixedBlock ++ [9]⟩ =
      .ok (Sample.mixedBlock, ⟨0 + (encode Sample.mixedBlock).length, [9]⟩) := by
  have hempty : (Sample.spend []).WithinLimits := Sample.withinLimits_spend [] (by decide)
  have hstack : (Sample.spend [[1, 2, 3], []]).WithinLimits :=
    Sample.withinLimits_spend _ (by decide)
  refine ⟨by decide, ?_, ?_⟩
  · exact decode_encode_append.1 _ (by decide) hstack 0 [9]
  · refine decode_encode_append.2 _ (by decide) ⟨by decide, ?_⟩ 0 [9]
    intro tx htx
    simp only [Sample.mixedBlock, List.mem_cons, List.not_mem_nil, or_false] at htx
    rcases htx with rfl | rfl
    · exact hempty
    · exact hstack

end Bitcrab
