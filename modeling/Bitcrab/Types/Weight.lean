import Bitcrab.Types.Canonical

/-!
# The weight of a block

`Block::weight` never forms the serialization without witnesses. It takes the size of the witness
data, computed on its own, away from the size of the full serialization.
-/

namespace Bitcrab

/-- The transaction without its witnesses. -/
def Transaction.withoutWitness (tx : Transaction) : Transaction :=
  { tx with inputs := tx.inputs.map fun input => { input with witness := [] } }

namespace Block

/-- The serialization without marker, flag and witness data. -/
def encodeBase (block : Block) : List UInt8 :=
  encode block.header ++
    (encode (VarInt.mk (UInt64.ofNat block.transactions.length)) ++
      block.transactions.flatMap Transaction.encodeBase)

/-- The bytes of witness data, as `weight` counts them. -/
def witnessSize (block : Block) :
    ℕ := (block.transactions.map Transaction.witnessSerializedSize).sum

/-- The block without its witnesses. -/
def withoutWitness (block : Block) : Block :=
  { block with transactions := block.transactions.map Transaction.withoutWitness }

end Block

namespace Transaction

lemma isSegwit_withoutWitness (tx : Transaction) : tx.withoutWitness.isSegwit = false := by
  simp [withoutWitness, isSegwit]

/-- The witnesses are not part of the base encoding. -/
lemma encodeBase_withoutWitness (tx : Transaction) :
    tx.withoutWitness.encodeBase = tx.encodeBase := by
  have hinputs : encodeVarList tx.withoutWitness.inputs = encodeVarList tx.inputs := by
    rw [withoutWitness, encodeVarList, encodeVarList, List.length_map, List.flatMap_map]
    rfl
  rw [encodeBase, hinputs]
  rfl

lemma encode_withoutWitness (tx : Transaction) : encode tx.withoutWitness = tx.encodeBase := by
  rw [encode_of_not_isSegwit tx.isSegwit_withoutWitness, encodeBase_withoutWitness]

lemma sum_length_encode (txs : List Transaction) :
    (txs.flatMap encode).length =
      (txs.flatMap encodeBase).length + (txs.map witnessSerializedSize).sum := by
  induction txs with
  | nil => rfl
  | cons tx txs ih =>
    rw [List.flatMap_cons, List.flatMap_cons, List.length_append, List.length_append, ih,
      length_encode, List.map_cons, List.sum_cons]
    omega

end Transaction

namespace Block

variable (block : Block)

lemma serialize_withoutWitness : serialize block.withoutWitness = block.encodeBase := by
  have htxs : (block.transactions.map Transaction.withoutWitness).flatMap encode =
      block.transactions.flatMap Transaction.encodeBase := by
    rw [List.flatMap_map]
    congr
    funext tx
    exact tx.encode_withoutWitness
  have hencode : serialize block.withoutWitness = encode block.header ++
      encodeVarList (block.transactions.map Transaction.withoutWitness) := rfl
  rw [hencode, encodeVarList, htxs, List.length_map]
  rfl

/-- The full serialization has the witness data on top of the base serialization. -/
lemma length_serialize :
    (serialize block).length = block.encodeBase.length + block.witnessSize := by
  have hencode : serialize block = encode block.header ++ encodeVarList block.transactions := rfl
  rw [hencode, encodeBase, encodeVarList, witnessSize]
  simp only [List.length_append, Transaction.sum_length_encode]
  omega

/-- Base bytes weigh four units, and the bytes of witness data one. -/
theorem weight_eq :
    block.weight = 3 * block.encodeBase.length + (serialize block).length ∧
      serialize block.withoutWitness = block.encodeBase ∧
      (block.transactions.map Transaction.witnessSerializedSize).sum ≤
        (serialize block).length := by
  have hlength := block.length_serialize
  rw [witnessSize] at hlength
  refine ⟨?_, block.serialize_withoutWitness, by omega⟩
  rw [weight]
  omega

end Block

end Bitcrab
