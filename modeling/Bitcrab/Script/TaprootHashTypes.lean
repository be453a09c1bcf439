import Bitcrab.Script.SighashMessages
import Bitcrab.Types.Codec

/-!
# The hash types of taproot signatures

BIP 341 defines the types `DEFAULT`, `ALL`, `NONE` and `SINGLE`, the last three also with
`ANYONECANPAY`. The checker rejects a zero byte only; another byte selects its outputs by the two
low bits, and none at all when these are zero.
-/

namespace Bitcrab

open Outcome PrefixCode TransactionSignatureChecker

/-- The bytes that may follow a signature of 64 bytes. -/
def definedHashTypes : List UInt8 := [0x01, 0x02, 0x03, 0x81, 0x82, 0x83]

/-- The length and the last byte that BIP 341 asks for. -/
def HasDefinedHashType (sig : List UInt8) : Prop :=
  sig.length = 64 ∨ sig.length = 65 ∧ ∃ hashType ∈ definedHashTypes, sig[64]? = some hashType

/-- A byte that BIP 341 does not define follows the signature. -/
def HasUndefinedHashType (sig : List UInt8) : Prop :=
  sig.length = 65 ∧ ∃ hashType, sig[64]? = some hashType ∧ hashType ≠ sighashDefault ∧
    hashType ∉ definedHashTypes

lemma splitSchnorr_eq_ok {sig bytes : List UInt8} {hashType : UInt8}
    (h : splitSchnorr sig = .ok (bytes, hashType)) :
    sig.length = 64 ∧ hashType = sighashDefault ∨
      sig.length = 65 ∧ sig[64]? = some hashType ∧ hashType ≠ sighashDefault := by
  unfold splitSchnorr at h
  split_ifs at h with h64 h65
  · cases h
    exact .inl ⟨h64, rfl⟩
  · refine .inr ⟨h65, ?_⟩
    rw [index_of_lt (h65 ▸ Nat.lt_succ_self 64), Result.ok_bind] at h
    simp only [Result.bind_eq_ok] at h
    obtain ⟨_, hreject, _, _, h⟩ := h
    cases h
    refine ⟨List.getElem?_eq_getElem _, ?_⟩
    intro hzero
    rw [rejectIf, if_pos hzero] at hreject
    cases hreject
  · cases h

lemma splitSchnorr_of_undefined {sig : List UInt8} {hashType : UInt8} (h65 : sig.length = 65)
    (hget : sig[64]? = some hashType) (hne : hashType ≠ sighashDefault) :
    splitSchnorr sig = .ok (sig.take 64, hashType) := by
  have hsize : 64 ≤ sig.length := by omega
  rw [splitSchnorr, if_neg (by omega), if_pos h65, index, hget, unwrap, Result.ok_bind, rejectIf,
    if_neg hne, Result.ok_bind, slice_of_le (Nat.zero_le 64) hsize]
  rfl

section Checker

variable [Sha2] (c : TransactionSignatureChecker) (sig : List UInt8) (sigVersion : SigVersion)
  (execData : ScriptExecutionData)

/-- The digest of a hash type, if the transaction had these outputs. -/
def digestWith (hashType extFlag : UInt8) (outputs : List TxOut) :
    Outcome ScriptError (Option Bytes32) :=
  taprootSignatureHash { c.tx with outputs } c.inputIndex c.spentOutputs hashType extFlag execData
    (TaprootCache.new { c.tx with outputs } c.spentOutputs)

/-- The digest that the signature is checked against is the same for all outputs. -/
def IgnoresOutputs : Prop :=
  ∀ bytes hashType extFlag, splitSchnorr sig = .ok (bytes, hashType) →
    schnorrExtFlag sigVersion = .ok extFlag → ∀ outputs,
      digestWith c execData hashType extFlag outputs =
        digestWith c execData hashType extFlag c.tx.outputs

/-- There is a digest for the last byte of the signature as a hash type. -/
structure HasDigest : Prop where
  version : sigVersion = .taproot ∨ sigVersion = .tapscript ∧ execData.tapleafHash.isSome
  inRange : ∀ hashType, sig[64]? = some hashType →
    TaprootInRange c.tx c.inputIndex c.spentOutputs hashType

/-- Outputs that are not those of the transaction. -/
def otherOutputs (tx : Transaction) : List TxOut :=
  if tx.outputs = [] then [⟨Amount.zero, ⟨[]⟩⟩] else []

/-- What is hashed for the signature, with the outputs of the transaction and with others. -/
def hashedWithOthers (hashType extFlag : UInt8) : List (List UInt8) :=
  taprootHashed c.tx c.inputIndex c.spentOutputs hashType extFlag execData ++
    taprootHashed { c.tx with outputs := otherOutputs c.tx } c.inputIndex c.spentOutputs hashType
      extFlag execData

variable {c sig sigVersion execData}

omit [Sha2] in
lemma encode_otherOutputs_ne (tx : Transaction) :
    (otherOutputs tx).flatMap encodeOutput ≠ tx.outputs.flatMap encodeOutput := by
  unfold otherOutputs
  split_ifs with hnil
  · simp [hnil, encodeOutput_ne_nil]
  · obtain ⟨o, os, hcons⟩ := List.exists_cons_of_ne_nil hnil
    simp [hcons, encodeOutput_ne_nil]

/-- A hash type that selects all outputs tells two lists of outputs apart. -/
lemma digestWith_other_ne {hashType extFlag : UInt8} {digest : Bytes32}
    (hall : taprootOutputType hashType = sighashAll)
    (hfree : CollisionFree sha256 (hashedWithOthers c execData hashType extFlag))
    (hdigest : digestWith c execData hashType extFlag c.tx.outputs = .ok (some digest)) :
    digestWith c execData hashType extFlag (otherOutputs c.tx) ≠ .ok (some digest) := by
  intro hother
  obtain ⟨_, message, hmessage, hsha⟩ := exists_taprootMessage hdigest
  obtain ⟨_, message', hmessage', hsha'⟩ := exists_taprootMessage hother
  have hmem : tapSighashInput message ∈ hashedWithOthers c execData hashType extFlag := by
    simp [hashedWithOthers, taprootHashed, hmessage]
  have hmem' : tapSighashInput message' ∈ hashedWithOthers c execData hashType extFlag := by
    simp [hashedWithOthers, taprootHashed, hmessage']
  have heq : message = message' :=
    List.append_cancel_left (hfree _ hmem _ hmem' (hsha.symm.trans hsha'))
  -- the two messages differ at most in the hash of the outputs
  simp only [taprootMessage, hall, if_true, Result.bind_eq_ok] at hmessage hmessage'
  obtain ⟨input, hinput, single, hsingle, hmessage⟩ := hmessage
  obtain ⟨input', hinput', single', hsingle', hmessage'⟩ := hmessage'
  cases Except.ok.inj (hinput.symm.trans hinput')
  cases hsingle
  cases hsingle'
  obtain ⟨extension, hextension, hmessage⟩ := Option.map_eq_some_iff.mp (Except.ok.inj hmessage)
  rw [hextension] at hmessage'
  have hmessage' := Option.some.inj (Except.ok.inj hmessage')
  rw [heq, ← hmessage'] at hmessage
  have hsame :=
    List.append_cancel_right (List.append_cancel_right (List.append_cancel_right hmessage))
  have houtputs := List.append_cancel_left hsame
  refine encode_otherOutputs_ne c.tx (hfree _ ?_ _ ?_ (Subtype.ext houtputs).symm)
  · simp [hashedWithOthers, taprootHashed, TaprootCache.messages]
  · simp [hashedWithOthers, taprootHashed, TaprootCache.messages]

/-- An oracle that accepts every signature. -/
@[reducible]
def acceptAll : Secp256k1 where
  PublicKey := Unit
  Signature := Unit
  XOnlyPublicKey := Unit
  SchnorrSignature := Unit
  Scalar := Unit
  publicKeyFromSlice _ := some ()
  signatureFromDerLax _ := some ()
  verifyEcdsa _ _ _ := true
  xOnlyFromSlice _ := some ()
  schnorrFromSlice _ := some ()
  verifySchnorr _ _ _ := true
  scalarFromBeBytes _ := some ()
  tweakAddCheck _ _ _ _ := true

/-- What an accepted signature was checked against. -/
lemma exists_digest_of_checkSchnorrSignature [Secp256k1] {pubkey : List UInt8}
    (h : c.checkSchnorrSignature sig pubkey sigVersion execData = .ok ()) :
    ∃ bytes hashType extFlag digest, splitSchnorr sig = .ok (bytes, hashType) ∧
      schnorrExtFlag sigVersion = .ok extFlag ∧
      digestWith c execData hashType extFlag c.tx.outputs = .ok (some digest) := by
  simp only [checkSchnorrSignature, Result.bind_eq_ok] at h
  obtain ⟨⟨bytes, hashType⟩, hsplit, extFlag, hext, _, _, _, _, digest, hdigest, _, hsome, _⟩ := h
  cases digest with
  | none => cases hsome
  | some digest => exact ⟨bytes, hashType, extFlag, digest, hsplit, hext, hdigest⟩

/-- With a digest, there is an oracle that accepts the signature. -/
lemma checkSchnorrSignature_acceptAll {bytes : List UInt8} {hashType extFlag : UInt8}
    {digest : Bytes32} (hsplit : splitSchnorr sig = .ok (bytes, hashType))
    (hext : schnorrExtFlag sigVersion = .ok extFlag)
    (hdigest : digestWith c execData hashType extFlag c.tx.outputs = .ok (some digest))
    (pubkey : List UInt8) :
    @checkSchnorrSignature c _ acceptAll sig pubkey sigVersion execData = .ok () := by
  change taprootSignatureHash c.tx c.inputIndex c.spentOutputs hashType extFlag execData
    (TaprootCache.new c.tx c.spentOutputs) = _ at hdigest
  rw [checkSchnorrSignature, hsplit, Result.ok_bind]
  dsimp only
  rw [hext, Result.ok_bind]
  simp only [Secp256k1.xOnlyFromSlice, Secp256k1.schnorrFromSlice, okOr, Result.ok_bind, hdigest]
  rfl

omit [Sha2] in
lemma outputs_of_mem_definedHashTypes {hashType : UInt8} (hmem : hashType ∈ definedHashTypes) :
    (taprootOutputType hashType = sighashAll ∨ taprootOutputType hashType = sighashSingle) ∨
      hashType = 0x02 ∨ hashType = 0x82 := by
  simp only [definedHashTypes, List.mem_cons, List.not_mem_nil, or_false] at hmem
  rcases hmem with rfl | rfl | rfl | rfl | rfl | rfl <;> decide

/-- A hash type that selects outputs does not ignore them. -/
lemma not_ignoresOutputs {bytes : List UInt8} {hashType extFlag : UInt8} {digest : Bytes32}
    (hselects : taprootOutputType hashType = sighashAll ∨
      taprootOutputType hashType = sighashSingle)
    (hsplit : splitSchnorr sig = .ok (bytes, hashType))
    (hext : schnorrExtFlag sigVersion = .ok extFlag)
    (hfree : CollisionFree sha256 (hashedWithOthers c execData hashType extFlag))
    (hdigest : digestWith c execData hashType extFlag c.tx.outputs = .ok (some digest)) :
    ¬ IgnoresOutputs c sig sigVersion execData := by
  intro hignores
  have hsame := fun outputs => (hignores bytes hashType extFlag hsplit hext outputs).trans hdigest
  rcases hselects with hall | hsingle
  · exact digestWith_other_ne hall hfree hdigest (hsame (otherOutputs c.tx))
  · obtain ⟨hin, _⟩ := exists_taprootMessage (hsame [])
    exact absurd (hin.single hsingle) (Nat.not_lt_zero _)

/-- The hash types of accepted signatures are those of BIP 341, and only those of `NONE` leave the
outputs open, exactly when there is no digest for an undefined one: any other byte is hashed. -/
theorem hashTypes_closed_iff (c : TransactionSignatureChecker) (sig pubkey : List UInt8)
    (sigVersion : SigVersion) (execData : ScriptExecutionData)
    (hfree : ∀ bytes hashType extFlag, splitSchnorr sig = .ok (bytes, hashType) →
      schnorrExtFlag sigVersion = .ok extFlag →
      CollisionFree sha256 (hashedWithOthers c execData hashType extFlag)) :
    (∀ [Secp256k1], c.checkSchnorrSignature sig pubkey sigVersion execData = .ok () →
      HasDefinedHashType sig ∧ (IgnoresOutputs c sig sigVersion execData →
        sig[64]? = some 0x02 ∨ sig[64]? = some 0x82)) ↔
      ¬ (HasUndefinedHashType sig ∧ HasDigest c sig sigVersion execData) := by
  constructor
  · rintro hclosed ⟨⟨h65, hashType, hget, hne, hundefined⟩, hdigest⟩
    have hsplit := splitSchnorr_of_undefined h65 hget hne
    obtain ⟨extFlag, hext, hleaf⟩ : ∃ extFlag, schnorrExtFlag sigVersion = .ok extFlag ∧
        (extFlag = 1 → execData.tapleafHash.isSome) := by
      rcases hdigest.version with rfl | ⟨rfl, hleaf⟩
      · exact ⟨0, rfl, fun h => absurd h (by decide)⟩
      · exact ⟨1, rfl, fun _ => hleaf⟩
    obtain ⟨digest, hdigest⟩ := exists_taprootSignatureHash_iff.mpr
      ⟨hdigest.inRange hashType hget, hleaf⟩
    have hok := checkSchnorrSignature_acceptAll hsplit hext hdigest pubkey
    obtain ⟨hdefined, _⟩ := @hclosed acceptAll hok
    rcases hdefined with h64 | ⟨_, hashType', hmem, hget'⟩
    · omega
    · rw [hget] at hget'
      cases hget'
      exact hundefined hmem
  · intro hnot _ hok
    obtain ⟨bytes, hashType, extFlag, digest, hsplit, hext, hdigest⟩ :=
      exists_digest_of_checkSchnorrSignature hok
    have hfree := hfree bytes hashType extFlag hsplit hext
    rcases splitSchnorr_eq_ok hsplit with ⟨h64, rfl⟩ | ⟨h65, hget, hne⟩
    · refine ⟨.inl h64, fun hignores => ?_⟩
      exact absurd hignores (not_ignoresOutputs (.inl rfl) hsplit hext hfree hdigest)
    by_cases hmem : hashType ∈ definedHashTypes
    · refine ⟨.inr ⟨h65, hashType, hmem, hget⟩, fun hignores => ?_⟩
      rcases outputs_of_mem_definedHashTypes hmem with hselects | rfl | rfl
      · exact absurd hignores (not_ignoresOutputs hselects hsplit hext hfree hdigest)
      · exact .inl hget
      · exact .inr hget
    · obtain ⟨hin, hleaf⟩ := exists_taprootSignatureHash_iff.mp ⟨digest, hdigest⟩
      refine absurd ⟨⟨h65, hashType, hget, hne, hmem⟩, ?_, fun hashType' hget' => ?_⟩ hnot
      · cases sigVersion with
        | base | witnessV0 => cases hext
        | taproot => exact .inl rfl
        | tapscript =>
          cases hext
          exact .inr ⟨rfl, hleaf rfl⟩
      · rw [hget] at hget'
        cases hget'
        exact hin

end Checker

namespace Sample

/-- A key path spend of one output. -/
def keySpend : TransactionSignatureChecker := ⟨spend [], 0, [⟨Amount.zero, ⟨[0x51]⟩⟩]⟩

/-- A signature with the byte `0x04`, which selects no outputs. -/
def undefinedSig : List UInt8 := List.replicate 64 7 ++ [0x04]

lemma checkSchnorrSignature_undefinedSig :
    @checkSchnorrSignature keySpend _ acceptAll undefinedSig [] .taproot .new = .ok () := by
  decide +kernel

theorem not_hashTypes_closed :
    ¬ ∀ [Secp256k1] (c : TransactionSignatureChecker) sig pubkey sigVersion execData,
      c.checkSchnorrSignature sig pubkey sigVersion execData = .ok () → HasDefinedHashType sig := by
  intro h
  rcases @h acceptAll keySpend undefinedSig [] .taproot .new checkSchnorrSignature_undefinedSig with
    h64 | ⟨_, hashType, hmem, hget⟩
  · exact absurd h64 (by decide)
  · cases hget
    exact absurd hmem (by decide)

/-- A signature that commits to no outputs. -/
def noneSig : List UInt8 := List.replicate 64 7 ++ [0x02]

/-- A curve accepts it, and its type is one of the defined ones. -/
theorem hashTypes_closed_noneSig :
    @checkSchnorrSignature keySpend _ acceptAll noneSig [] .taproot .new = .ok () ∧
      HasDefinedHashType noneSig ∧ (IgnoresOutputs keySpend noneSig .taproot .new →
        noneSig[64]? = some 0x02 ∨ noneSig[64]? = some 0x82) := by
  have hok : @checkSchnorrSignature keySpend _ acceptAll noneSig [] .taproot .new = .ok () := by
    decide +kernel
  have hfree : ∀ bytes hashType extFlag, splitSchnorr noneSig = .ok (bytes, hashType) →
      schnorrExtFlag .taproot = .ok extFlag →
      CollisionFree sha256 (hashedWithOthers keySpend .new hashType extFlag) := by
    intro bytes hashType extFlag hsplit hext
    cases hsplit
    cases hext
    refine collisionFree_of_nodup ?_
    decide +kernel
  have hdefined : ¬ (HasUndefinedHashType noneSig ∧ HasDigest keySpend noneSig .taproot .new) := by
    rintro ⟨⟨-, hashType, hget, -, hundefined⟩, -⟩
    cases hget
    exact hundefined (by decide)
  have hclosed := @Iff.mpr _ _ (hashTypes_closed_iff keySpend noneSig [] .taproot .new hfree)
    hdefined acceptAll
  exact ⟨hok, hclosed hok⟩

end Sample

end Bitcrab
