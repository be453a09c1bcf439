import Bitcrab.Node.VerifiedScripts

/-!
# Spends of outputs to keys

What a connected block shows about the coins it spends that are locked by keys: signatures of the
spending transaction by a key with the hash in the output, or by as many of the keys in the script
as it asks for.
-/

namespace Bitcrab

open Outcome

section

variable [Sha2] [LegacyHash] [Secp256k1]

/-- A key has signed the digest of the transaction for the spent input: the legacy digest of the
script without the signature, or the one of version 0 with the value of the spent coin. -/
def HasSigned (sigVersion : SigVersion) (script pubkey : List UInt8) (tx : Transaction) (j : ℕ)
    (value : UInt64) : Prop :=
  ∃ key sigDer signature hashType digest, Secp256k1.publicKeyFromSlice pubkey = some key ∧
    Secp256k1.signatureFromDerLax sigDer = some signature ∧
    (sigVersion = .base ∧ (∃ scriptCode found,
        findAndDelete script (pushData (sigDer ++ [hashType])) = .ok (scriptCode, found) ∧
        legacySignatureHash tx j scriptCode (UInt8.toUInt32 hashType) = .ok digest) ∨
      sigVersion = .witnessV0 ∧
        witnessV0SignatureHash tx j script value hashType.toUInt32 (Bip143Cache.new tx) =
          .ok digest) ∧
    Secp256k1.verifyEcdsa digest signature key = true

/-- The scripts that are locked by the hash of a key, with the version of their signatures. -/
inductive LockedBy (program : List UInt8) : SigVersion → List UInt8 → Prop
  | legacy : LockedBy program .base (keyHashScript program)
  | version0 : LockedBy program .witnessV0 ([0x00, 0x14] ++ program)

/-- The scripts that are locked by keys of a script, with the version of their signatures and the
witness that shows the script. -/
inductive LockedByKeys (script : List UInt8) : SigVersion → List UInt8 → List (List UInt8) → Prop
  | bare {witness : List (List UInt8)} : LockedByKeys script .base script witness
  | version0 {items : List (List UInt8)} :
    LockedByKeys script .witnessV0 ([0x00, 0x20] ++ (sha256 script).toList) (items ++ [script])

/-- Every input of the transactions that spends a coin meets the condition on the script and the
value of the coin. -/
def SpendsMeet (condition : List UInt8 → UInt64 → Transaction → ℕ → TxIn → Prop)
    (height : BlockHeight) (m : CoinMap) (txs : List Transaction) : Prop :=
  ∀ k tx j input coin, txs[k]? = some tx → tx.inputs[j]? = some input →
    mapBefore height m txs k input.previousOutput = some coin →
    condition coin.output.scriptPubkey.bytes coin.output.value.sat tx j input

/-- A coin that is locked by the hash of a key is spent with a signature by a key with this hash. -/
def SignedByKeyHash (scriptPubkey : List UInt8) (value : UInt64) (tx : Transaction) (j : ℕ)
    (_ : TxIn) : Prop :=
  ∀ program sigVersion, program.length = 20 → LockedBy program sigVersion scriptPubkey →
    ∃ pubkey, (hash160 pubkey).toList = program ∧
      HasSigned sigVersion (keyHashScript program) pubkey tx j value

/-- A coin that is locked by keys of a script is spent with signatures by as many of them as it asks
for, in the order of the script. -/
def SignedByKeys (scriptPubkey : List UInt8) (value : UInt64) (tx : Transaction) (j : ℕ)
    (input : TxIn) : Prop :=
  ∀ required keys sigVersion, MultisigTemplate required keys →
    LockedByKeys (multisigScript required keys) sigVersion scriptPubkey input.witness →
    ∃ f : Fin required → Fin keys.length, StrictMono f ∧ ∀ i,
      HasSigned sigVersion (multisigScript required keys) (keys.get (f i)) tx j value

/-! ### One input -/

variable {c : TransactionSignatureChecker} {flags : VerifyFlags} {sigVersion : SigVersion}
  {script scriptSig scriptPubkey : List UInt8} {witness : List (List UInt8)}

omit [LegacyHash] in
/-- The checker of a transaction accepts a signature of its digest. -/
lemma hasSigned_of_checkEcdsaSignature {sig pubkey scriptCode : List UInt8}
    (hcode : buildScriptCode script 0 sig sigVersion flags = .ok scriptCode)
    (h : c.checkEcdsaSignature sig pubkey scriptCode sigVersion = .ok true) :
    HasSigned sigVersion script pubkey c.tx c.inputIndex c.amount := by
  rw [buildScriptCode, slice_of_le (Nat.zero_le _) le_rfl, Result.ok_bind, List.drop_zero,
    Nat.sub_zero, List.take_length] at hcode
  unfold TransactionSignatureChecker.checkEcdsaSignature at h
  obtain rfl | ⟨sigDer, hashType, rfl⟩ := List.eq_nil_or_concat' sig
  · cases h
  simp only [List.getLast?_concat, List.dropLast_concat] at h
  split_ifs at h with hempty
  · cases h
  cases hkey : Secp256k1.publicKeyFromSlice pubkey with
  | none =>
    rw [hkey] at h
    cases h
  | some key =>
    cases hsignature : Secp256k1.signatureFromDerLax sigDer with
    | none =>
      rw [hkey, hsignature] at h
      cases h
    | some signature =>
      rw [hkey, hsignature] at h
      cases sigVersion with
      | base =>
        obtain ⟨digest, hdigest, hverify⟩ := Result.bind_eq_ok.mp h
        rw [if_pos rfl] at hcode
        obtain ⟨⟨cleaned, found⟩, hdelete, hcode⟩ := Result.bind_eq_ok.mp hcode
        obtain ⟨_, -, hcode⟩ := Result.bind_eq_ok.mp hcode
        obtain ⟨_, -, hcode⟩ := Result.bind_eq_ok.mp hcode
        obtain ⟨_, -, hcode⟩ := Result.bind_eq_ok.mp hcode
        obtain rfl := Except.ok.inj hcode
        exact ⟨key, sigDer, signature, hashType, digest, hkey, hsignature,
          .inl ⟨rfl, cleaned, found, hdelete, hdigest⟩, Except.ok.inj hverify⟩
      | witnessV0 =>
        obtain ⟨digest, hdigest, hverify⟩ := Result.bind_eq_ok.mp h
        rw [if_neg (by decide)] at hcode
        obtain rfl := Except.ok.inj hcode
        exact ⟨key, sigDer, signature, hashType, digest, hkey, hsignature, .inr ⟨rfl, hdigest⟩,
          Except.ok.inj hverify⟩
      | taproot => cases h
      | tapscript => cases h

/-- A spend with a key that the interpreter accepts. -/
lemma hasSigned_of_lockedBy {program : List UInt8} (hwitness : flags.contains .witness = true)
    (hlen : program.length = 20) (hlocked : LockedBy program sigVersion scriptPubkey)
    (h : verifyScript flags c.toChecker scriptSig scriptPubkey witness = .ok ()) :
    ∃ pubkey, (hash160 pubkey).toList = program ∧
      HasSigned sigVersion (keyHashScript program) pubkey c.tx c.inputIndex c.amount := by
  cases hlocked with
  | legacy =>
    obtain ⟨-, rest, sig, pubkey, -, -, -, hhash, hsigned, -⟩ :=
      keyHashScript_of_verifyScript hlen h
    obtain ⟨scriptCode, hcode, hverified⟩ := hsigned.verified
    exact ⟨pubkey, hhash, hasSigned_of_checkEcdsaSignature hcode hverified⟩
  | version0 =>
    obtain ⟨-, -, hprogram⟩ := (verifyScript_version0_iff hwitness hlen).mp h
    obtain ⟨sig, pubkey, -, -, -, hhash, hsigned⟩ :=
      (verifyWitnessProgram_keyHash_iff hlen).mp hprogram
    obtain ⟨scriptCode, hcode, hverified⟩ := hsigned.verified
    exact ⟨pubkey, hhash, hasSigned_of_checkEcdsaSignature hcode hverified⟩

omit [LegacyHash] in
lemma PairMatches.hasSigned {sig pubkey : List UInt8}
    (h : PairMatches ⟨script, flags, c.toChecker, sigVersion⟩ 0 sig pubkey) :
    HasSigned sigVersion script pubkey c.tx c.inputIndex c.amount := by
  have hne := h.ne_nil
  simp only [PairMatches, checkPair, Result.bind_eq_ok] at h
  obtain ⟨_, -, _, -, scriptCode, hcode, hverdict⟩ := h
  rw [checkEcdsa, if_neg (by simpa using hne)] at hverdict
  exact hasSigned_of_checkEcdsaSignature hcode hverdict

/-- A spend with some keys of a script that the interpreter accepts. -/
lemma hasSigned_of_lockedByKeys {required : ℕ} {keys : List (List UInt8)}
    (hwitness : flags.contains .witness = true) (htemplate : MultisigTemplate required keys)
    (hlocked : LockedByKeys (multisigScript required keys) sigVersion scriptPubkey witness)
    (h : verifyScript flags c.toChecker scriptSig scriptPubkey witness = .ok ()) :
    ∃ f : Fin required → Fin keys.length, StrictMono f ∧ ∀ i,
      HasSigned sigVersion (multisigScript required keys) (keys.get (f i)) c.tx c.inputIndex
        c.amount := by
  obtain ⟨sigs, rfl, hsigned⟩ : ∃ sigs : List (List UInt8), sigs.length = required ∧
      SignedInOrder ⟨multisigScript required keys, flags, c.toChecker, sigVersion⟩ sigs keys := by
    cases hlocked with
    | bare => exact signedInOrder_of_verifyScript htemplate h
    | version0 =>
      obtain ⟨-, -, hrun⟩ := (verifyScript_scriptHash_iff hwitness _).mp h
      obtain ⟨-, sigs, -, hcount, -, -, hsigned⟩ :=
        (runWitnessScript_multisigScript_iff htemplate).mp hrun
      exact ⟨sigs, hcount, hsigned⟩
  obtain ⟨f, hmono, hpairs⟩ :=
    OrderedMatching.sublistForall₂_iff_exists_strictMono.mp hsigned.matched
  exact ⟨f, hmono, fun i => (hpairs i).hasSigned⟩

/-! ### Runs -/

attribute [local instance] nativeVerifier

variable {cfg : Config} {s : System} {i : ℕ} {block : Block}

/-- The coins of the verified inputs are those of the ledger. -/
lemma InputsVerified.exists_checker {height : BlockHeight} {m : CoinMap} {txs : List Transaction}
    (h : InputsVerified flags height m txs) {k j : ℕ} {tx : Transaction} {input : TxIn}
    {coin : Coin} (hk : txs[k]? = some tx) (hj : tx.inputs[j]? = some input)
    (hcoin : mapBefore height m txs k input.previousOutput = some coin) :
    ∃ c : TransactionSignatureChecker, c.tx = tx ∧ c.inputIndex = j ∧
      c.amount = coin.output.value.sat ∧
      verifyScript flags c.toChecker input.scriptSig.bytes coin.output.scriptPubkey.bytes
        input.witness = .ok () := by
  obtain ⟨-, coins, hcoins, hinputs⟩ := h k tx hk
  obtain ⟨coin', hcoin', hsame⟩ : ∃ coin', coins[j]? = some coin' ∧
      mapBefore height m txs k input.previousOutput = some coin' := by
    obtain ⟨hj', rfl⟩ := List.getElem?_eq_some_iff.mp hj
    have hlt : j < coins.length := hcoins.length_eq ▸ hj'
    exact ⟨coins[j], List.getElem?_eq_getElem hlt, List.forall₂_iff_get.mp hcoins |>.2 j hj' hlt⟩
  obtain rfl := Option.some.inj (hcoin.symm.trans hsame)
  refine ⟨⟨tx, j, coins.map (·.output)⟩, rfl, rfl, ?_, ?_⟩
  · simp [TransactionSignatureChecker.amount, hcoin']
  · exact hinputs j input coin hj hcoin'

/-- A condition that every accepted input meets. -/
lemma InputsVerified.spendsMeet {height : BlockHeight} {m : CoinMap} {txs : List Transaction}
    {condition : List UInt8 → UInt64 → Transaction → ℕ → TxIn → Prop}
    (hcondition : ∀ (c : TransactionSignatureChecker) (input : TxIn) (scriptPubkey : List UInt8),
      verifyScript flags c.toChecker input.scriptSig.bytes scriptPubkey input.witness = .ok () →
      condition scriptPubkey c.amount c.tx c.inputIndex input)
    (h : InputsVerified flags height m txs) : SpendsMeet condition height m txs := by
  intro k tx j input coin hk hj hcoin
  obtain ⟨c, rfl, rfl, hamount, haccepted⟩ := h.exists_checker hk hj hcoin
  exact hamount ▸ hcondition c input _ haccepted

/-- With the native engine and script checks, every spend of a coin that is locked by the hash of a
key, in a connected block above the height of the assumed block, has a signature by a key with that
hash. -/
theorem keySpends_of_reachable (hscripts : cfg.scriptChecks = true)
    (hnative : cfg.engine.kind = .native) (hwitness : cfg.engine.flags.contains .witness = true)
    (hrun : Reachable (System.step cfg) (SoundStep cfg) (System.init cfg) s)
    (hi : s.history.connected[i]? = some block)
    (habove : ¬ s.node.store.AssumesHeight cfg (i + 1)) :
    SpendsMeet SignedByKeyHash (nextHeight (s.history.connected.take i))
      (utxoSet (s.history.connected.take i)) block.rest :=
  ((scriptsInv_of_reachable hscripts hrun).inputsVerified hnative hi habove).spendsMeet
    fun _ _ _ haccepted _ _ hlen hlocked => hasSigned_of_lockedBy hwitness hlen hlocked haccepted

/-- With the native engine and script checks, every spend of a coin that is locked by keys of a
script, in a connected block above the height of the assumed block, has signatures by as many
different keys of the script as it asks for. -/
theorem multisigSpends_of_reachable (hscripts : cfg.scriptChecks = true)
    (hnative : cfg.engine.kind = .native) (hwitness : cfg.engine.flags.contains .witness = true)
    (hrun : Reachable (System.step cfg) (SoundStep cfg) (System.init cfg) s)
    (hi : s.history.connected[i]? = some block)
    (habove : ¬ s.node.store.AssumesHeight cfg (i + 1)) :
    SpendsMeet SignedByKeys (nextHeight (s.history.connected.take i))
      (utxoSet (s.history.connected.take i)) block.rest :=
  ((scriptsInv_of_reachable hscripts hrun).inputsVerified hnative hi habove).spendsMeet
    fun _ _ _ haccepted _ _ _ htemplate hlocked =>
      hasSigned_of_lockedByKeys hwitness htemplate hlocked haccepted

end

namespace Sample

attribute [local instance] nativeVerifier spendHash spendCurve

/-- A coin of the second transaction of the first block. -/
def mintedCoin (script : List UInt8) : Coin :=
  ⟨⟨⟨1000⟩, ⟨script⟩⟩, 1, false⟩

set_option maxRecDepth 100000 in
lemma utxoSet_mintBlock :
    utxoSet [mintBlock] ⟨mintTxid, 0⟩ = some (mintedCoin (keyHashScript firstKeyHash)) ∧
      utxoSet [mintBlock] ⟨mintTxid, 1⟩ = some (mintedCoin (multisigScript 2 spendKeys)) := by
  rw [sha2_eq_spendDigests]
  decide +kernel

/-- The inputs that spend them. -/
lemma inputs_spendTx :
    (∃ input, spendTx.inputs[0]? = some input ∧ input.previousOutput = ⟨mintTxid, 0⟩) ∧
      ∃ input, spendTx.inputs[1]? = some input ∧ input.previousOutput = ⟨mintTxid, 1⟩ :=
  ⟨⟨_, rfl, rfl⟩, ⟨_, rfl, rfl⟩⟩

/-- The coin for the first key is spent with its signature. -/
theorem keySpends_spendBlock :
    ∃ s, Reachable (System.step spendCfg) (SoundStep spendCfg) (System.init spendCfg) s ∧
      s.history.connected = [mintBlock, spendBlock] ∧
      ∃ pubkey, (hash160 pubkey).toList = firstKeyHash ∧
        HasSigned .base (keyHashScript firstKeyHash) pubkey spendTx 0 1000 := by
  obtain ⟨s, hrun, hconnected, hassumed⟩ := exists_reachable_spends
  have hspends := keySpends_of_reachable rfl rfl rfl hrun (i := 1) (by rw [hconnected]; rfl)
    (not_assumesHeight_spendBlock hassumed)
  rw [hconnected] at hspends
  obtain ⟨⟨input, hinput, hprevious⟩, -⟩ := inputs_spendTx
  have hcoin : mapBefore (nextHeight [mintBlock]) (utxoSet [mintBlock]) spendBlock.rest 0
      input.previousOutput = some (mintedCoin (keyHashScript firstKeyHash)) := by
    rw [mapBefore_zero, hprevious]
    exact utxoSet_mintBlock.1
  have hsigned := hspends 0 spendTx 0 input _ rfl hinput hcoin
  exact ⟨s, hrun, hconnected, hsigned firstKeyHash .base rfl .legacy⟩

lemma template_spendKeys : MultisigTemplate 2 spendKeys where
  pos := by decide
  le := by decide
  few := by decide
  usual := by decide

/-- The coin for two of the three keys is spent with signatures of two of them. -/
theorem multisigSpends_spendBlock :
    ∃ s, Reachable (System.step spendCfg) (SoundStep spendCfg) (System.init spendCfg) s ∧
      s.history.connected = [mintBlock, spendBlock] ∧
      ∃ f : Fin 2 → Fin spendKeys.length, StrictMono f ∧ ∀ i,
        HasSigned .base (multisigScript 2 spendKeys) (spendKeys.get (f i)) spendTx 1 1000 := by
  obtain ⟨s, hrun, hconnected, hassumed⟩ := exists_reachable_spends
  have hspends := multisigSpends_of_reachable rfl rfl rfl hrun (i := 1) (by rw [hconnected]; rfl)
    (not_assumesHeight_spendBlock hassumed)
  rw [hconnected] at hspends
  obtain ⟨-, ⟨input, hinput, hprevious⟩⟩ := inputs_spendTx
  have hcoin : mapBefore (nextHeight [mintBlock]) (utxoSet [mintBlock]) spendBlock.rest 0
      input.previousOutput = some (mintedCoin (multisigScript 2 spendKeys)) := by
    rw [mapBefore_zero, hprevious]
    exact utxoSet_mintBlock.2
  have hsigned := hspends 0 spendTx 1 input _ rfl hinput hcoin
  exact ⟨s, hrun, hconnected, hsigned 2 spendKeys .base template_spendKeys .bare⟩

end Sample

end Bitcrab
