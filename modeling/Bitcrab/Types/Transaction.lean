import Bitcrab.Types.Amount
import Bitcrab.Types.Hash

/-!
# Transactions (`common/types/transaction.rs`, `common/types/script.rs`)
-/

namespace Bitcrab

/-! ### Scripts -/

/-- `ScriptBuf`: raw script bytes. -/
structure ScriptBuf where
  bytes : List UInt8
  deriving Repr, DecidableEq

instance : Inhabited ScriptBuf := ⟨⟨[]⟩⟩

instance : BitcoinEncode ScriptBuf := ⟨fun s => encodeVarBytes s.bytes⟩

instance : BitcoinDecode ScriptBuf where
  decode d := do
    let (bytes, d) ← d.readVarbytes "ScriptBuf"
    return (⟨bytes⟩, d)

lemma roundTrips_scriptBuf {s : ScriptBuf} (h : s.bytes.length ≤ maxWireAllocation) :
    RoundTrips s := by
  intro pos suffix
  have hs := reads_readVarbytes h "ScriptBuf" pos suffix
  simp only [decode, encode] at hs ⊢
  simp [hs, bind, Except.bind, pure, Except.pure]

/-! ### Inputs and outputs -/

/-- `OutPoint`: reference to a transaction output. -/
structure OutPoint where
  txid : Txid
  vout : UInt32
  deriving DecidableEq

/-- `OutPoint::COINBASE`, the null outpoint. -/
def OutPoint.coinbase : OutPoint := ⟨Digest.zero, 0xFFFFFFFF⟩

/-- `OutPoint::is_coinbase`. -/
def OutPoint.isCoinbase (o : OutPoint) : Bool := o.txid = Digest.zero && o.vout = 0xFFFFFFFF

lemma OutPoint.isCoinbase_iff (o : OutPoint) : o.isCoinbase ↔ o = OutPoint.coinbase := by
  cases o
  simp [OutPoint.isCoinbase, OutPoint.coinbase]

instance : BitcoinEncode OutPoint := ⟨fun o => encode o.txid ++ encode o.vout⟩

instance : BitcoinDecode OutPoint where
  decode d := do
    let (txid, d) ← decode d
    let (vout, d) ← decode d
    return (⟨⟨txid⟩, vout⟩, d)

lemma roundTrips_outPoint (o : OutPoint) : RoundTrips o := by
  intro pos suffix
  have h1 := roundTrips_vector o.txid.bytes
  have h2 := roundTrips_uint32 o.vout
  simp only [RoundTrips, Reads] at h1 h2
  have e : encode o = encode o.txid.bytes ++ encode o.vout := rfl
  rw [e, List.append_assoc]
  unfold decode instBitcoinDecodeOutPoint
  simp [h1, h2, bind, Except.bind, pure, Except.pure, Nat.add_assoc]

/-- `TxIn`: a transaction input, with its witness stack. -/
structure TxIn where
  previousOutput : OutPoint
  scriptSig : ScriptBuf
  sequence : UInt32
  witness : List (List UInt8)
  deriving DecidableEq

/-- The witness is not part of an input's own encoding. -/
instance : BitcoinEncode TxIn :=
  ⟨fun i => encode i.previousOutput ++ encode i.scriptSig ++ encode i.sequence⟩

instance : BitcoinDecode TxIn where
  decode d := do
    let (prev, d) ← decode d
    let (sig, d) ← decode d
    let (seq, d) ← decode d
    return (⟨prev, sig, seq, []⟩, d)

/-- An input is read back without its witness. -/
lemma reads_txIn {i : TxIn} (h : i.scriptSig.bytes.length ≤ maxWireAllocation) :
    Reads decode (encode i) { i with witness := [] } := by
  intro pos suffix
  have h1 := roundTrips_outPoint i.previousOutput
  have h2 := roundTrips_scriptBuf h
  have h3 := roundTrips_uint32 i.sequence
  simp only [RoundTrips, Reads] at h1 h2 h3
  have e : encode i = encode i.previousOutput ++ encode i.scriptSig ++ encode i.sequence := rfl
  simp only [e, List.append_assoc]
  unfold decode instBitcoinDecodeTxIn
  simp [h1, h2, h3, bind, Except.bind, pure, Except.pure, Nat.add_assoc]

/-- `TxOut`: a transaction output. -/
structure TxOut where
  value : Amount
  scriptPubkey : ScriptBuf
  deriving DecidableEq

instance : BitcoinEncode TxOut := ⟨fun o => encode o.value ++ encode o.scriptPubkey⟩

instance : BitcoinDecode TxOut where
  decode d := do
    let (val, d) ← decode d
    let (script, d) ← decode d
    return (⟨val, script⟩, d)

lemma roundTrips_txOut {o : TxOut} (h : o.scriptPubkey.bytes.length ≤ maxWireAllocation) :
    RoundTrips o := by
  intro pos suffix
  have h1 := roundTrips_amount o.value
  have h2 := roundTrips_scriptBuf h
  simp only [RoundTrips, Reads] at h1 h2
  have e : encode o = encode o.value ++ encode o.scriptPubkey := rfl
  rw [e, List.append_assoc]
  unfold decode instBitcoinDecodeTxOut
  simp [h1, h2, bind, Except.bind, pure, Except.pure, Nat.add_assoc]

/-! ### Transactions -/

/-- `Transaction`. -/
structure Transaction where
  version : UInt32
  inputs : List TxIn
  outputs : List TxOut
  lockTime : UInt32
  deriving DecidableEq

namespace Transaction

/-- `Transaction::is_coinbase`. -/
def isCoinbase (tx : Transaction) : Bool :=
  match tx.inputs with
  | [i] => i.previousOutput.isCoinbase
  | _ => false

/-- `Transaction::is_segwit`. -/
def isSegwit (tx : Transaction) : Bool := tx.inputs.any fun i => !i.witness.isEmpty

/-- The bytes one input's witness stack adds to the serialisation. -/
def witnessStackSize (witness : List (List UInt8)) : Nat :=
  (VarInt.mk (UInt64.ofNat witness.length)).serializedSize +
    (witness.map fun item =>
      (VarInt.mk (UInt64.ofNat item.length)).serializedSize + item.length).sum

/-- `Transaction::witness_serialized_size`. -/
def witnessSerializedSize (tx : Transaction) : Nat :=
  if !tx.isSegwit then 0
  else 2 + (tx.inputs.map fun i => witnessStackSize i.witness).sum

/-- The loop of `Transaction::output_value`. -/
def sumOutputs : Amount → List TxOut → Option Amount
  | acc, [] => some acc
  | acc, out :: outs => do
    let acc ← acc.checkedAdd out.value
    sumOutputs acc outs

/-- `Transaction::output_value`. -/
def outputValue (tx : Transaction) : Option Amount := sumOutputs Amount.zero tx.outputs

/-- The serialisation without marker, flag and witnesses, which `txid` hashes. -/
def encodeBase (tx : Transaction) : List UInt8 :=
  encode tx.version ++ encodeVarList tx.inputs ++ encodeVarList tx.outputs ++ encode tx.lockTime

/-- `Transaction::txid`. -/
def txid [Sha2] (tx : Transaction) : Txid := Digest.hash tx.encodeBase

end Transaction

instance : BitcoinEncode Transaction where
  encode tx :=
    if tx.isSegwit then
      encode tx.version ++ encode (0 : UInt8) ++ encode (1 : UInt8) ++
        encodeVarList tx.inputs ++ encodeVarList tx.outputs ++
        (tx.inputs.flatMap fun i => encodeVarList i.witness) ++
        encode tx.lockTime
    else tx.encodeBase

/-- `Transaction::wtxid`. -/
def Transaction.wtxid [Sha2] (tx : Transaction) : Txid :=
  if !tx.isSegwit then tx.txid else Digest.hash (encode tx)

/-- The witness loop of `Transaction::decode`: one stack for each input. -/
def decodeWitnesses : List TxIn → Decoder → Except DecodeError (List TxIn × Decoder)
  | [], d => .ok ([], d)
  | input :: inputs, d => do
    let (witness, d) ← d.readVarList (List UInt8) "Transaction::witness"
    let (inputs, d) ← decodeWitnesses inputs d
    return ({ input with witness } :: inputs, d)

instance : BitcoinDecode Transaction where
  decode d := do
    let (version, d) ← decode d
    let marker ← d.peekU8 "Transaction::marker"
    if marker = 0 then
      let (_, d) ← (decode d : Except DecodeError (UInt8 × Decoder))
      let (flag, d) ← (decode d : Except DecodeError (UInt8 × Decoder))
      if flag ≠ 1 then
        throw (.custom "invalid SegWit flag")
      let (inputs, d) ← d.readVarList TxIn "Transaction::inputs"
      let (outputs, d) ← d.readVarList TxOut "Transaction::outputs"
      let (inputs, d) ← decodeWitnesses inputs d
      let (lockTime, d) ← decode d
      return (⟨version, inputs, outputs, lockTime⟩, d)
    else
      let (inputs, d) ← d.readVarList TxIn "Transaction::inputs"
      let (outputs, d) ← d.readVarList TxOut "Transaction::outputs"
      let (lockTime, d) ← decode d
      return (⟨version, inputs, outputs, lockTime⟩, d)

namespace Transaction

/-- A coinbase-form transaction has the null outpoint as its only input. -/
lemma isCoinbase_iff (tx : Transaction) :
    tx.isCoinbase ↔ ∃ i, tx.inputs = [i] ∧ i.previousOutput = OutPoint.coinbase := by
  unfold isCoinbase
  split
  · rename_i i h
    simp [OutPoint.isCoinbase_iff, h]
  · rename_i h
    simp only [Bool.false_eq_true, false_iff, not_exists, not_and]
    intro i hi
    exact absurd hi (h i)

end Transaction

end Bitcrab
