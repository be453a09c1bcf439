import Bitcrab.Types.Codec
import Bitcrab.Wire.Canonical

/-!
# Which byte strings are transactions and blocks

`encode` takes the form of a transaction from the value, `decode` takes it from the bytes. The two
differ on one kind of bytes: those in the form with marker and flag whose witness stacks are all
empty. The decoder accepts them, and the value it returns is encoded without marker and flag.
-/

namespace Bitcrab

open Bytes

variable {d d' : Decoder} {bs : List UInt8}

/-! ### Inputs and outputs -/

lemma consumed_scriptBuf {s : ScriptBuf} (h : decode d = .ok (s, d')) :
    d.Consumed (encode s) d' ∧ s.bytes.length ≤ maxWireAllocation := by
  obtain ⟨⟨bytes, d₁⟩, hbytes, hret⟩ := Result.bind_eq_ok.mp h
  cases hret
  exact consumed_readVarbytes hbytes

lemma consumed_amount {a : Amount} (h : decode d = .ok (a, d')) : d.Consumed (encode a) d' := by
  obtain ⟨⟨val, d₁⟩, hval, hret⟩ := Result.bind_eq_ok.mp h
  cases hret
  exact consumed_uint64 hval

lemma consumed_outPoint {o : OutPoint} (h : decode d = .ok (o, d')) :
    d.Consumed (encode o) d' := by
  obtain ⟨⟨txid, d₁⟩, htxid, h⟩ := Result.bind_eq_ok.mp h
  obtain ⟨⟨vout, d₂⟩, hvout, hret⟩ := Result.bind_eq_ok.mp h
  cases hret
  exact (consumed_readArray htxid).trans (consumed_uint32 hvout)

/-- An input is read without a witness. -/
lemma consumed_txIn {i : TxIn} (h : decode d = .ok (i, d')) :
    d.Consumed (encode i) d' ∧ i.scriptSig.bytes.length ≤ maxWireAllocation ∧ i.witness = [] := by
  obtain ⟨⟨prev, d₁⟩, hprev, h⟩ := Result.bind_eq_ok.mp h
  obtain ⟨⟨sig, d₂⟩, hsig, h⟩ := Result.bind_eq_ok.mp h
  obtain ⟨⟨seq, d₃⟩, hseq, hret⟩ := Result.bind_eq_ok.mp h
  cases hret
  obtain ⟨hsig, hlen⟩ := consumed_scriptBuf hsig
  exact ⟨((consumed_outPoint hprev).trans hsig).trans (consumed_uint32 hseq), hlen, rfl⟩

lemma consumed_txOut {o : TxOut} (h : decode d = .ok (o, d')) :
    d.Consumed (encode o) d' ∧ o.scriptPubkey.bytes.length ≤ maxWireAllocation := by
  obtain ⟨⟨val, d₁⟩, hval, h⟩ := Result.bind_eq_ok.mp h
  obtain ⟨⟨script, d₂⟩, hscript, hret⟩ := Result.bind_eq_ok.mp h
  cases hret
  obtain ⟨hscript, hlen⟩ := consumed_scriptBuf hscript
  exact ⟨(consumed_amount hval).trans hscript, hlen⟩

/-- The encoding of an input leaves its witness out. -/
lemma encodeVarList_map_witness (inputs : List TxIn) :
    encodeVarList (inputs.map fun i => { i with witness := [] }) = encodeVarList inputs := by
  simp only [encodeVarList, List.length_map, List.flatMap_map]
  rfl

/-- The witness loop consumes one stack for each input and changes nothing else. -/
lemma consumed_decodeWitnesses {inputs inputs' : List TxIn}
    (h : decodeWitnesses inputs d = .ok (inputs', d')) :
    d.Consumed (inputs'.flatMap fun i => encodeVarList i.witness) d' ∧
      (inputs'.map fun i => { i with witness := [] }) =
        (inputs.map fun i => { i with witness := [] }) ∧
      ∀ i ∈ inputs', WitnessWithinLimits i.witness := by
  induction inputs generalizing d inputs' with
  | nil =>
    cases h
    exact ⟨⟨rfl, rfl⟩, rfl, by simp⟩
  | cons i inputs ih =>
    obtain ⟨⟨witness, d₁⟩, hwitness, h⟩ := Result.bind_eq_ok.mp h
    obtain ⟨⟨inputs₁, d₂⟩, hinputs, hret⟩ := Result.bind_eq_ok.mp h
    cases hret
    obtain ⟨hstack, hlen, hitems⟩ := consumed_readVarList_encode
      (fun hitem => consumed_readVarbytes hitem) hwitness
    obtain ⟨hrest, hmap, hlimits⟩ := ih hinputs
    refine ⟨hstack.trans hrest, ?_, ?_⟩
    · simp only [List.map_cons, hmap]
    · exact List.forall_mem_cons.mpr ⟨⟨hlen, hitems⟩, hlimits⟩

/-! ### Transactions -/

namespace Transaction

variable {tx : Transaction}

/-- The byte strings from which `Transaction::decode` reads `tx`. -/
def WireForm (tx : Transaction) (bs : List UInt8) : Prop :=
  tx.WithinLimits ∧
    (bs = tx.encodeExtended ∨ tx.inputs ≠ [] ∧ tx.isSegwit = false ∧ bs = tx.encodeBase)

/-- A form with marker and flag in which no input has a witness. -/
def SuperfluousWitness (bs : List UInt8) : Prop :=
  ∃ tx : Transaction, tx.WithinLimits ∧ tx.isSegwit = false ∧ bs = tx.encodeExtended

lemma encode_of_isSegwit (h : tx.isSegwit = true) : encode tx = tx.encodeExtended := if_pos h

lemma encode_of_not_isSegwit (h : tx.isSegwit = false) : encode tx = tx.encodeBase :=
  if_neg (by simp [h])

lemma WireForm.reads (h : tx.WireForm bs) : Reads decode bs tx := by
  obtain ⟨hlimits, rfl | ⟨hin, hs, rfl⟩⟩ := h
  · exact reads_encodeExtended hlimits
  · have hread := roundTrips_of_not_isSegwit hlimits hin hs
    rwa [RoundTrips, encode_of_not_isSegwit hs] at hread

/-- The input count that follows a byte other than the marker is not zero. -/
lemma inputs_ne_nil_of_peekU8 {inputs : List TxIn} {field : String} {marker : UInt8}
    (hpeek : d.peekU8 field = .ok marker) (hmarker : marker ≠ 0)
    (h : d.Consumed (encodeVarList inputs) d') : inputs ≠ [] := by
  rintro rfl
  obtain ⟨⟨⟩, -, hret⟩ := Result.bind_eq_ok.mp hpeek
  cases hret
  rw [h.1] at hmarker
  exact hmarker rfl

lemma eq_of_peekU8 {field : String} {marker b : UInt8} (hpeek : d.peekU8 field = .ok marker)
    (h : d.Consumed (encode b) d') : b = marker := by
  obtain ⟨⟨⟩, -, hret⟩ := Result.bind_eq_ok.mp hpeek
  cases hret
  rw [h.1]
  rfl

/-- Inputs as they are read, before the witnesses. -/
lemma isSegwit_eq_false (h : ∀ i ∈ tx.inputs, i.witness = []) : tx.isSegwit = false := by
  simp only [isSegwit, List.any_eq_false]
  intro i hi
  simp [h i hi]

/-- What `Transaction::decode` accepts is a wire form of the transaction it returns. -/
lemma exists_wireForm (h : decode d = .ok (tx, d')) : ∃ bs, tx.WireForm bs ∧ d.Consumed bs d' := by
  obtain ⟨⟨version, d₁⟩, hversion, h⟩ := Result.bind_eq_ok.mp h
  obtain ⟨marker, hpeek, h⟩ := Result.bind_eq_ok.mp h
  have hversion := consumed_uint32 hversion
  split_ifs at h with hmarker
  · obtain ⟨⟨zero, d₂⟩, hzero, h⟩ := Result.bind_eq_ok.mp h
    obtain ⟨⟨flag, d₃⟩, hflag, h⟩ := Result.bind_eq_ok.mp h
    obtain ⟨hone, h⟩ := Result.ite_error_eq_ok.mp h
    obtain ⟨⟨inputs, d₄⟩, hinputs, h⟩ := Result.bind_eq_ok.mp h
    obtain ⟨⟨outputs, d₅⟩, houtputs, h⟩ := Result.bind_eq_ok.mp h
    obtain ⟨⟨inputs', d₆⟩, hwitness, h⟩ := Result.bind_eq_ok.mp h
    obtain ⟨⟨lockTime, d₇⟩, hlock, hret⟩ := Result.bind_eq_ok.mp h
    cases hret
    obtain ⟨hin, hinlen, hins⟩ := consumed_readVarList_encode consumed_txIn hinputs
    obtain ⟨hout, houtlen, houts⟩ := consumed_readVarList_encode consumed_txOut houtputs
    obtain ⟨hwit, hmap, hlimits⟩ := consumed_decodeWitnesses hwitness
    have hinputs' : encodeVarList inputs' = encodeVarList inputs := by
      rw [← encodeVarList_map_witness, hmap, encodeVarList_map_witness]
    have hlen : inputs'.length = inputs.length := by simpa using congrArg List.length hmap
    have hscript : ∀ i ∈ inputs', i.scriptSig.bytes.length ≤ maxWireAllocation := by
      intro i hi
      have hmem := List.mem_map_of_mem (f := fun i : TxIn => { i with witness := [] }) hi
      rw [hmap] at hmem
      obtain ⟨j, hj, heq⟩ := List.mem_map.mp hmem
      have hsig : j.scriptSig = i.scriptSig := (TxIn.mk.inj heq).2.1
      rw [← hsig]
      exact (hins j hj).1
    have hzero : zero = 0 := (eq_of_peekU8 hpeek (consumed_uint8 hzero)).trans hmarker
    have hone : flag = 1 := not_not.mp hone
    refine ⟨_, ⟨⟨hlen.symm ▸ hinlen, houtlen, hscript, houts, hlimits⟩, .inl rfl⟩, ?_⟩
    simp only [encodeExtended, hinputs', ← hzero, ← hone]
    exact (((((hversion.trans (consumed_uint8 ‹_›)).trans (consumed_uint8 hflag)).trans hin).trans
      hout).trans hwit).trans (consumed_uint32 hlock)
  · obtain ⟨⟨inputs, d₂⟩, hinputs, h⟩ := Result.bind_eq_ok.mp h
    obtain ⟨⟨outputs, d₃⟩, houtputs, h⟩ := Result.bind_eq_ok.mp h
    obtain ⟨⟨lockTime, d₄⟩, hlock, hret⟩ := Result.bind_eq_ok.mp h
    cases hret
    obtain ⟨hin, hinlen, hins⟩ := consumed_readVarList_encode consumed_txIn hinputs
    obtain ⟨hout, houtlen, houts⟩ := consumed_readVarList_encode consumed_txOut houtputs
    refine ⟨_, ⟨⟨hinlen, houtlen, fun i hi => (hins i hi).1, houts, ?_⟩, .inr ⟨?_, ?_, rfl⟩⟩, ?_⟩
    · intro i hi
      rw [(hins i hi).2]
      exact ⟨Nat.zero_le _, by simp⟩
    · exact inputs_ne_nil_of_peekU8 hpeek hmarker hin
    · exact isSegwit_eq_false fun i hi => (hins i hi).2
    · exact ((hversion.trans hin).trans hout).trans (consumed_uint32 hlock)

/-! ### The encoding of an accepted transaction -/

lemma length_encodeExtended (tx : Transaction) :
    tx.encodeExtended.length = tx.encodeBase.length + 2 +
      (tx.inputs.flatMap fun i => encodeVarList i.witness).length := by
  simp only [encodeExtended, encodeBase, List.length_append]
  have hbyte : ∀ v : UInt8, (encode v).length = 1 := fun _ => rfl
  rw [hbyte, hbyte]
  omega

/-- A superfluous witness makes the accepted bytes longer than the encoding. -/
lemma SuperfluousWitness.length_encode_lt (hbs : SuperfluousWitness bs) (h : tx.WireForm bs) :
    (encode tx).length < bs.length := by
  obtain ⟨tx', hlimits, hs, rfl⟩ := hbs
  obtain ⟨rfl, -, -⟩ := (reads_encodeExtended hlimits).unique h.reads (rfl : _ ++ [] = _ ++ [])
  rw [encode_of_not_isSegwit hs, length_encodeExtended]
  omega

/-- An accepted form is the encoding, or has a superfluous witness. -/
lemma WireForm.eq_encode (h : tx.WireForm bs) (hbs : ¬ SuperfluousWitness bs) :
    bs = encode tx := by
  obtain ⟨hlimits, rfl | ⟨-, hs, rfl⟩⟩ := h
  · cases hs : tx.isSegwit with
    | true => exact (encode_of_isSegwit hs).symm
    | false => exact absurd ⟨tx, hlimits, hs, rfl⟩ hbs
  · exact (encode_of_not_isSegwit hs).symm

lemma WireForm.length_encode_le (h : tx.WireForm bs) : (encode tx).length ≤ bs.length := by
  by_cases hbs : SuperfluousWitness bs
  · exact (hbs.length_encode_lt h).le
  · rw [h.eq_encode hbs]

/-- Re-encoding an accepted transaction gives the consumed bytes, unless these have a superfluous
witness. -/
lemma take_eq_encode_iff (h : decode d = .ok (tx, d')) :
    d.rest.take (d'.pos - d.pos) = encode tx ↔ ¬ ∃ bs, SuperfluousWitness bs ∧ bs <+: d.rest := by
  obtain ⟨bs, hbs, hconsumed⟩ := exists_wireForm h
  rw [hconsumed.eq_take]
  constructor
  · rintro heq ⟨bs', ⟨tx', hlimits, hs, rfl⟩, suffix, hsuffix⟩
    -- the superfluous form is what the decoder has read
    rw [hconsumed.1] at hsuffix
    obtain ⟨-, rfl, -⟩ := (reads_encodeExtended hlimits).unique hbs.reads hsuffix
    have hlt := SuperfluousWitness.length_encode_lt ⟨tx', hlimits, hs, rfl⟩ hbs
    rw [heq] at hlt
    exact lt_irrefl _ hlt
  · intro hnone
    exact hbs.eq_encode fun hsuperfluous => hnone ⟨bs, hsuperfluous, d'.rest, hconsumed.1.symm⟩

/-! ### Sizes -/

lemma length_encode_varInt (v : VarInt) : (encode v).length = v.serializedSize := by
  simp only [encode, VarInt.serializedSize]
  split_ifs <;> simp

lemma length_encodeVarList_witness (witness : List (List UInt8)) :
    (encodeVarList witness).length = witnessStackSize witness := by
  have hitem : ∀ item : List UInt8, (encode item).length =
      (VarInt.mk (UInt64.ofNat item.length)).serializedSize + item.length := by
    intro item
    rw [← length_encode_varInt, ← List.length_append]
    rfl
  simp only [encodeVarList, witnessStackSize, List.length_append, length_encode_varInt,
    List.length_flatMap, hitem]

/-- The size of the witness data is what the encoding has more than the base encoding. -/
lemma length_encode (tx : Transaction) :
    (encode tx).length = tx.encodeBase.length + tx.witnessSerializedSize := by
  cases hs : tx.isSegwit with
  | true =>
    rw [encode_of_isSegwit hs, length_encodeExtended]
    simp [witnessSerializedSize, hs, List.length_flatMap, length_encodeVarList_witness,
      Nat.add_assoc]
  | false => simp [encode_of_not_isSegwit hs, witnessSerializedSize, hs]

end Transaction

/-! ### Blocks -/

/-- Four bytes of a header, as the integer read from them. -/
lemma leBytes_sliceU32 (buf : List.Vector UInt8 80) {i : Nat} (hi : i + 4 ≤ 80) :
    leBytes 4 (BlockHeader.sliceU32 buf i).toNat = (buf.toList.drop i).take 4 := by
  have hlen : ((buf.toList.drop i).take 4).length = 4 := by
    simp only [List.length_take, List.length_drop, List.Vector.toList_length]
    omega
  have hlt : ofLeBytes ((buf.toList.drop i).take 4) < 2 ^ 32 := by
    simpa [hlen] using ofLeBytes_lt ((buf.toList.drop i).take 4)
  have hbytes := leBytes_ofLeBytes ((buf.toList.drop i).take 4)
  rw [hlen] at hbytes
  rw [BlockHeader.sliceU32, UInt32.toNat_ofNat_of_lt' hlt, hbytes]

/-- The 80 bytes of a header are determined by its fields. -/
lemma serialize_deserialize (buf : List.Vector UInt8 80) :
    (BlockHeader.deserialize buf).serialize.toList = buf.toList := by
  have hcut : ∀ i k, (buf.toList.drop i).take k ++ buf.toList.drop (i + k) =
      buf.toList.drop i := by
    intro i k
    rw [← List.drop_drop, List.take_append_drop]
  have hlast : (buf.toList.drop 76).take 4 = buf.toList.drop 76 := by
    apply List.take_of_length_le
    simp
  have hfields : (BlockHeader.deserialize buf).serialize.toList =
      (buf.toList.drop 0).take 4 ++ ((buf.toList.drop 4).take 32 ++ ((buf.toList.drop 36).take 32 ++
        ((buf.toList.drop 68).take 4 ++ ((buf.toList.drop 72).take 4 ++
          (buf.toList.drop 76).take 4)))) := by
    rw [← leBytes_sliceU32 buf (i := 0) (by omega), ← leBytes_sliceU32 buf (i := 68) (by omega),
      ← leBytes_sliceU32 buf (i := 72) (by omega), ← leBytes_sliceU32 buf (i := 76) (by omega)]
    simp only [← List.append_assoc]
    rfl
  rw [hfields, hlast, hcut 72 4, hcut 68 4, hcut 36 32, hcut 4 32, hcut 0 4, List.drop_zero]

lemma consumed_blockHeader {header : BlockHeader} (h : decode d = .ok (header, d')) :
    d.Consumed (encode header) d' := by
  obtain ⟨⟨bytes, d₁⟩, hbytes, hret⟩ := Result.bind_eq_ok.mp h
  cases hret
  have heq : encode (BlockHeader.deserialize bytes) = bytes.toList := serialize_deserialize bytes
  rw [heq]
  exact consumed_readArray hbytes

namespace Block

/-- A block one of whose transactions has a superfluous witness: a header, a count, some
transactions in any form, and then the one at fault. -/
def SuperfluousWitness (raw : List UInt8) : Prop :=
  ∃ (header : BlockHeader) (count : UInt64) (before : List (List UInt8)) (bs : List UInt8),
    before.length < count.toNat ∧ (∀ p ∈ before, ∃ tx : Transaction, tx.WireForm p) ∧
      Transaction.SuperfluousWitness bs ∧
      encode header ++ (encode (VarInt.mk count) ++ (before.flatten ++ bs)) <+: raw

/-- What `Block::decode` accepts is a header and a list of transactions in their wire forms. -/
lemma exists_wireForms {block : Block} (h : decode d = .ok (block, d')) :
    block.transactions.length ≤ maxWireAllocation ∧
      ∃ parts, List.Forall₂ Transaction.WireForm block.transactions parts ∧
        d.Consumed (encode block.header ++
          (encode (VarInt.mk (UInt64.ofNat block.transactions.length)) ++ parts.flatten)) d' := by
  obtain ⟨⟨header, d₁⟩, hheader, h⟩ := Result.bind_eq_ok.mp h
  obtain ⟨⟨transactions, d₂⟩, htxs, hret⟩ := Result.bind_eq_ok.mp h
  cases hret
  obtain ⟨hlen, parts, hparts, hconsumed⟩ :=
    consumed_readVarList Transaction.exists_wireForm htxs
  exact ⟨hlen, parts, hparts, (consumed_blockHeader hheader).trans hconsumed⟩

section Parts

variable {txs : List Transaction} {parts : List (List UInt8)}

/-- The forms of a list of transactions are at least as long as their encodings. -/
lemma length_flatMap_encode_le (h : List.Forall₂ Transaction.WireForm txs parts) :
    (txs.flatMap encode).length ≤ parts.flatten.length := by
  induction h with
  | nil => exact le_rfl
  | cons hx _ ih =>
    simp only [List.flatMap_cons, List.flatten_cons, List.length_append]
    exact Nat.add_le_add hx.length_encode_le ih

/-- The forms of a list of transactions are the encodings when they are not longer. -/
lemma not_superfluousWitness_of_length_le (h : List.Forall₂ Transaction.WireForm txs parts)
    (hlen : parts.flatten.length ≤ (txs.flatMap encode).length) :
    ∀ p ∈ parts, ¬ Transaction.SuperfluousWitness p := by
  induction h with
  | nil => simp
  | cons hx hxs ih =>
    have hle := length_flatMap_encode_le hxs
    have hle' := hx.length_encode_le
    simp only [List.flatMap_cons, List.flatten_cons, List.length_append] at hlen
    refine List.forall_mem_cons.mpr ⟨fun hp => ?_, ih (by omega)⟩
    have hlt := hp.length_encode_lt hx
    omega

lemma flatten_eq_flatMap_encode (h : List.Forall₂ Transaction.WireForm txs parts)
    (hparts : ∀ p ∈ parts, ¬ Transaction.SuperfluousWitness p) :
    parts.flatten = txs.flatMap encode := by
  induction h with
  | nil => rfl
  | cons hx _ ih =>
    obtain ⟨hp, hps⟩ := List.forall_mem_cons.mp hparts
    rw [List.flatten_cons, List.flatMap_cons, hx.eq_encode hp, ih hps]

/-- Two ways to cut a byte string into transactions agree as far as both go. -/
lemma mem_of_flatten_append {before : List (List UInt8)} {bs suffix suffix' : List UInt8}
    (h : List.Forall₂ Transaction.WireForm txs parts)
    (hbefore : ∀ p ∈ before, ∃ tx : Transaction, tx.WireForm p)
    (hbs : ∃ tx : Transaction, tx.WireForm bs) (hlen : before.length < parts.length)
    (heq : before.flatten ++ (bs ++ suffix) = parts.flatten ++ suffix') : bs ∈ parts := by
  induction h generalizing before with
  | nil => simp at hlen
  | @cons tx p txs parts hx hxs ih =>
    rw [List.flatten_cons, List.append_assoc] at heq
    cases before with
    | nil =>
      obtain ⟨tx', htx'⟩ := hbs
      obtain ⟨-, rfl, -⟩ := htx'.reads.unique hx.reads heq
      exact List.mem_cons_self
    | cons p' before =>
      obtain ⟨⟨tx', htx'⟩, hbefore⟩ := List.forall_mem_cons.mp hbefore
      rw [List.flatten_cons, List.append_assoc] at heq
      obtain ⟨-, -, heq⟩ := htx'.reads.unique hx.reads heq
      simp only [List.length_cons, Nat.add_lt_add_iff_right] at hlen
      exact List.mem_cons_of_mem p (ih hbefore hlen heq)

lemma forall_wireForm (h : List.Forall₂ Transaction.WireForm txs parts) :
    ∀ p ∈ parts, ∃ tx : Transaction, tx.WireForm p := by
  induction h with
  | nil => simp
  | cons hx _ ih => exact List.forall_mem_cons.mpr ⟨⟨_, hx⟩, ih⟩

end Parts

/-- Whether an accepted block has a superfluous witness can be read off its transactions. -/
lemma superfluousWitness_iff {block : Block} {parts : List (List UInt8)} {suffix : List UInt8}
    (hlen : block.transactions.length ≤ maxWireAllocation)
    (hparts : List.Forall₂ Transaction.WireForm block.transactions parts) :
    SuperfluousWitness (encode block.header ++
      (encode (VarInt.mk (UInt64.ofNat block.transactions.length)) ++ parts.flatten) ++ suffix) ↔
      ∃ p ∈ parts, Transaction.SuperfluousWitness p := by
  have hcount := toNat_ofNat_of_le_maxWireAllocation hlen
  constructor
  · rintro ⟨header, count, before, bs, hbefore, hforms, hbs, suffix', heq⟩
    simp only [List.append_assoc] at heq
    obtain ⟨-, -, heq⟩ := (roundTrips_blockHeader header).unique (roundTrips_blockHeader _) heq
    obtain ⟨rfl, -, heq⟩ := (reads_readVarint count "").unique (reads_readVarint _ "") heq
    have hwire : ∃ tx : Transaction, tx.WireForm bs := by
      obtain ⟨tx, hlimits, -, rfl⟩ := hbs
      exact ⟨tx, hlimits, .inl rfl⟩
    rw [hcount, hparts.length_eq] at hbefore
    exact ⟨bs, mem_of_flatten_append hparts hforms hwire hbefore heq, hbs⟩
  · rintro ⟨p, hp, hsuperfluous⟩
    obtain ⟨before, after, rfl⟩ := List.append_of_mem hp
    refine ⟨block.header, UInt64.ofNat block.transactions.length, before, p, ?_, ?_, hsuperfluous,
      after.flatten ++ suffix, ?_⟩
    · rw [hcount, hparts.length_eq]
      simp
    · intro q hq
      exact forall_wireForm hparts q (List.mem_append_left _ hq)
    · simp only [List.append_assoc, List.flatten_append, List.flatten_cons]

/-- Re-encoding an accepted block gives the consumed bytes, unless these have a superfluous
witness. -/
lemma take_eq_encode_iff {block : Block} (h : decode d = .ok (block, d')) :
    d.rest.take (d'.pos - d.pos) = encode block ↔ ¬ SuperfluousWitness d.rest := by
  obtain ⟨hlen, parts, hparts, hconsumed⟩ := exists_wireForms h
  rw [hconsumed.eq_take, hconsumed.1, superfluousWitness_iff hlen hparts]
  push Not
  have hencode : encode block = encode block.header ++
      (encode (VarInt.mk (UInt64.ofNat block.transactions.length)) ++
        block.transactions.flatMap encode) := rfl
  rw [hencode, List.append_cancel_left_eq, List.append_cancel_left_eq]
  constructor
  · intro heq
    exact not_superfluousWitness_of_length_le hparts (by rw [heq])
  · exact flatten_eq_flatMap_encode hparts

/-- The size of the block without marker, flag and witnesses. -/
def strippedSize (b : Block) : Nat :=
  (encode b.header).length +
    (encode (VarInt.mk (UInt64.ofNat b.transactions.length)) ++
      b.transactions.flatMap Transaction.encodeBase).length

/-- The weight of a block that was received as the bytes `raw`: each byte counts once, and each
byte that is not witness data three times more. -/
def receivedWeight (b : Block) (raw : List UInt8) : Nat := 3 * b.strippedSize + raw.length

/-- `Block::weight` is the weight of the encoding. -/
lemma weight_eq_receivedWeight (b : Block) : b.weight = b.receivedWeight (encode b) := by
  have htxs : ∀ txs : List Transaction, (txs.flatMap encode).length =
      (txs.flatMap Transaction.encodeBase).length +
        (txs.map Transaction.witnessSerializedSize).sum := by
    intro txs
    induction txs with
    | nil => rfl
    | cons tx txs ih =>
      simp only [List.flatMap_cons, List.length_append, List.map_cons, List.sum_cons,
        Transaction.length_encode, ih]
      omega
  have htotal : (encode b).length =
      b.strippedSize + (b.transactions.map Transaction.witnessSerializedSize).sum := by
    have hencode : encode b = encode b.header ++ encodeVarList b.transactions := rfl
    simp only [hencode, encodeVarList, List.length_append, htxs, strippedSize]
    omega
  simp only [weight, receivedWeight, Bitcrab.serialize, htotal]
  omega

/-- An accepted block has the weight of the consumed bytes, unless these have a superfluous
witness. -/
lemma weight_eq_iff {block : Block} (h : decode d = .ok (block, d')) :
    block.weight = block.receivedWeight (d.rest.take (d'.pos - d.pos)) ↔
      ¬ SuperfluousWitness d.rest := by
  obtain ⟨hlen, parts, hparts, hconsumed⟩ := exists_wireForms h
  rw [weight_eq_receivedWeight]
  constructor
  · intro hweight
    rw [hconsumed.1, superfluousWitness_iff hlen hparts]
    push Not
    apply not_superfluousWitness_of_length_le hparts
    rw [hconsumed.eq_take] at hweight
    have hencode : encode block = encode block.header ++ encodeVarList block.transactions := rfl
    simp only [receivedWeight, hencode, encodeVarList, List.length_append] at hweight
    omega
  · intro hnone
    rw [(take_eq_encode_iff h).mpr hnone]

end Block

end Bitcrab
