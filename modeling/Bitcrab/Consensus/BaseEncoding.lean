import Bitcrab.Script.SighashCommitments
import Bitcrab.Types.Weight

/-!
# The message behind a txid

A txid is the hash of the transaction without its witnesses, which determines the transaction up to
them.
-/

namespace Bitcrab

open PrefixCode

namespace Transaction

/-- All the lengths that the base encoding counts fit their types. -/
structure BaseAddressable (tx : Transaction) : Prop extends tx.Addressable where
  scriptSigs : ∀ i ∈ tx.inputs, i.scriptSig.bytes.length < 2 ^ 64

end Transaction

lemma prefixFree_txIn :
    PrefixFree (fun i : TxIn => i.scriptSig.bytes.length < 2 ^ 64 ∧ i.witness = [])
      (encode : TxIn → List UInt8) := by
  rintro ⟨outpoint, scriptSig, sequence, witness⟩ ⟨outpoint', scriptSig', sequence', witness'⟩
    ⟨hlen, hnil⟩ ⟨hlen', hnil'⟩ s t heq
  have hencode : ∀ i : TxIn, encode i = encode i.previousOutput ++
    (encodeVarBytes i.scriptSig.bytes ++
      encode i.sequence) := fun i => List.append_assoc ..
  simp only [hencode, List.append_assoc] at heq
  obtain ⟨rfl, hscript⟩ := prefixFree_outPoint _ _ trivial trivial _ _ heq
  obtain ⟨rfl, hsequence⟩ := prefixFree_scriptPubkey _ _ hlen hlen' _ _ hscript
  obtain ⟨rfl, hrest⟩ := prefixFree_uint32 _ _ trivial trivial _ _ hsequence
  dsimp only at hnil hnil'
  subst hnil hnil'
  exact ⟨rfl, hrest⟩

lemma prefixFree_txOut : PrefixFree TxOut.Addressable (encode : TxOut → List UInt8) :=
  prefixFree_output

/-- A counted list is determined by its encoding. -/
lemma encodeVarList_inj {α : Type} [BitcoinEncode α] {P : α → Prop}
    (h : PrefixFree P (encode : α → List UInt8)) {xs ys : List α} (hlen : xs.length < 2 ^ 64)
    (hlen' : ys.length < 2 ^ 64) (hxs : ∀ x ∈ xs, P x) (hys : ∀ y ∈ ys, P y) {s t : List UInt8}
    (heq : encodeVarList xs ++ s = encodeVarList ys ++ t) : xs = ys ∧ s = t := by
  simp only [encodeVarList, List.append_assoc] at heq
  obtain ⟨hcount, heq⟩ := eq_of_encode_count hlen hlen' heq
  exact h.flatMap hcount hxs hys heq

namespace Transaction

/-- Transactions with the same base encoding are the same up to their witnesses. -/
theorem withoutWitness_eq_of_encodeBase {tx tx' : Transaction} (htx : tx.BaseAddressable)
    (htx' : tx'.BaseAddressable) (heq : tx.encodeBase = tx'.encodeBase) :
    tx.withoutWitness = tx'.withoutWitness := by
  rw [← encodeBase_withoutWitness, ← tx'.encodeBase_withoutWitness] at heq
  simp only [encodeBase, List.append_assoc] at heq
  obtain ⟨hversion, heq⟩ := prefixFree_uint32 _ _ trivial trivial _ _ heq
  have hinputs : ∀ {tx : Transaction}, tx.BaseAddressable →
      ∀ i ∈ tx.withoutWitness.inputs, i.scriptSig.bytes.length < 2 ^ 64 ∧ i.witness = [] := by
    intro tx h i hi
    obtain ⟨j, hj, rfl⟩ := List.mem_map.mp hi
    exact ⟨h.scriptSigs j hj, rfl⟩
  obtain ⟨hins, heq⟩ := encodeVarList_inj prefixFree_txIn
    (by simpa [withoutWitness] using htx.inputs) (by simpa [withoutWitness] using htx'.inputs)
    (hinputs htx) (hinputs htx') heq
  obtain ⟨houts, heq⟩ := encodeVarList_inj prefixFree_txOut htx.outputs htx'.outputs htx.scripts
    htx'.scripts heq
  have hlock := prefixFree_uint32.eq_of_eq trivial trivial heq
  cases tx
  cases tx'
  simp only [withoutWitness] at hversion hins houts hlock ⊢
  rw [hversion, hins, houts, hlock]

end Transaction

end Bitcrab
