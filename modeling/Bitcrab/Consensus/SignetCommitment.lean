import Bitcrab.Consensus.BaseEncoding
import Bitcrab.Consensus.Merkle
import Bitcrab.Consensus.SignetSection

/-!
# What a signet block signature covers

The transaction that a signet solution spends commits to the block with the solution blanked out. It
does not change with the solution, and everything else in the block but the proof of work is
determined by it.
-/

namespace Bitcrab

open Bytes PrefixCode

/-! ### The commitment script -/

/-- A witness commitment starts with `OP_RETURN` and a push of 36 bytes. -/
lemma exists_of_isWitnessCommitment {script : List UInt8} (h : isWitnessCommitment script = true) :
    ∃ hash more, hash.length = 32 ∧
      script = [0x6a] ++ ((0x24 :: ([] ++ ([0xaa, 0x21, 0xa9, 0xed] ++ hash))) ++ more) := by
  rw [isWitnessCommitment, Bool.and_eq_true, decide_eq_true_eq, decide_eq_true_eq,
    minimumWitnessCommitment] at h
  obtain ⟨hlen, hstart⟩ := h
  have hsplit := List.take_append_drop 6 script
  rw [hstart] at hsplit
  refine ⟨(script.drop 6).take 32, script.drop 38, ?_, ?_⟩
  · rw [List.length_take, List.length_drop]
    omega
  · have hrest : (script.drop 6).take 32 ++ script.drop 38 = script.drop 6 := by
      conv_rhs => rw [← List.take_append_drop 32 (script.drop 6), List.drop_drop]
    conv_lhs => rw [← hsplit, ← hrest]
    rfl

/-- `OP_RETURN`. -/
lemma encodes_return : Encodes [0x6a] 0x6a [] :=
  .op (by decide)

/-- The push of a witness commitment. -/
lemma encodes_commitment {hash : List UInt8} (hlen : hash.length = 32) :
    Encodes (0x24 :: ([] ++ ([0xaa, 0x21, 0xa9, 0xed] ++ hash))) 0x24
      ([0xaa, 0x21, 0xa9, 0xed] ++ hash) := by
  have hsize : ([0xaa, 0x21, 0xa9, 0xed] ++ hash).length = 36 := by
    rw [List.length_append, hlen]
    rfl
  exact .push [] _ (by decide) rfl (by rw [hsize]; rfl)

/-- The first instructions of a witness commitment. -/
lemma segments_of_isWitnessCommitment {script : List UInt8}
    (h : isWitnessCommitment script = true) :
    ∃ hash chunks, hash.length = 32 ∧ (segments script).1 =
      [0x6a] :: (0x24 :: ([] ++ ([0xaa, 0x21, 0xa9, 0xed] ++ hash))) :: chunks := by
  obtain ⟨hash, more, hlen, rfl⟩ := exists_of_isWitnessCommitment h
  refine ⟨hash, (segments more).1, hlen, ?_⟩
  rw [segments_append encodes_return, segments_append (encodes_commitment hlen)]

/-- Whatever follows these instructions, the script is a witness commitment. -/
lemma isWitnessCommitment_of_flatten {hash : List UInt8} (hlen : hash.length = 32)
    (chunks : List (List UInt8)) :
    isWitnessCommitment
      ([0x6a] :: (0x24 :: ([] ++ ([0xaa, 0x21, 0xa9, 0xed] ++ hash))) :: chunks).flatten =
        true := by
  simp [isWitnessCommitment, minimumWitnessCommitment, witnessCommitmentPrefix, hlen]

lemma isTagged_eq_false_of_data {i : Instruction} {data : List UInt8} (h : i.data = data)
    (hfirst : data.head? ≠ some 0xec) : isTagged signetHeader i = false := by
  rw [isTagged, h]
  cases data with
  | nil => rfl
  | cons byte data =>
    have hbyte : ((0xec : UInt8) == byte) = false :=
      beq_eq_false_iff_ne.mpr fun heq => hfirst (by rw [← heq]; rfl)
    rw [signetHeader, List.isPrefixOf_cons_cons, hbyte, Bool.false_and, Bool.and_false]

/-- Clearing the section leaves a witness commitment. -/
lemma isWitnessCommitment_cleared {script : List UInt8} (h : isWitnessCommitment script = true) :
    isWitnessCommitment (fetchAndClearCommitmentSection signetHeader script).2 = true := by
  obtain ⟨hash, chunks, hlen, hsegments⟩ := segments_of_isWitnessCommitment h
  obtain ⟨his, -⟩ := readInstructions_spec script
  rw [fetchAndClearCommitmentSection_eq signetHeader his]
  dsimp only
  generalize readInstructions script = is at his ⊢
  rw [hsegments] at his ⊢
  obtain _ | ⟨h₁, _ | ⟨h₂, _⟩⟩ := his
  have hnot₁ := isTagged_eq_false_of_data (h₁.unique encodes_return).2 (by simp)
  have hnot₂ := isTagged_eq_false_of_data (h₂.unique (encodes_commitment hlen)).2 (by simp)
  rw [clearedChunks, hnot₁, if_neg (by simp), clearedChunks, hnot₂, if_neg (by simp)]
  exact isWitnessCommitment_of_flatten hlen _

lemma Encodes.length_data_lt {chunk data : List UInt8} {opcode : UInt8}
    (h : Encodes chunk opcode data) : data.length < chunk.length := by
  cases h with
  | op => simp
  | push =>
    simp only [List.length_cons, List.length_append]
    omega

/-- Clearing the section does not make a script longer. -/
lemma length_cleared_le (header script : List UInt8) :
    (fetchAndClearCommitmentSection header script).2.length ≤ script.length := by
  have hchunks : ∀ {chunks : List (List UInt8)} {is : List Instruction}, EncodesAll chunks is →
      (clearedChunks header chunks is).flatten.length ≤ chunks.flatten.length := by
    intro chunks is h
    induction h with
    | nil => exact le_rfl
    | @cons chunk i chunks is hi _ ih =>
      rw [clearedChunks]
      split_ifs with htagged
      · have hdata := hi.length_data_lt
        simp only [isTagged, gt_iff_lt, Bool.and_eq_true, decide_eq_true_eq] at htagged
        simp only [List.flatten_cons, List.length_append, List.length_cons]
        omega
      · simp only [List.flatten_cons, List.length_append]
        omega
  obtain ⟨his, -⟩ := readInstructions_spec script
  have hflatten := congrArg List.length (segments_flatten script)
  rw [List.length_append] at hflatten
  rw [fetchAndClearCommitmentSection_eq header his]
  exact (hchunks his).trans (by omega)

/-! ### A solution in the script -/

/-- The first tagged push, and what is around it. -/
lemma clearedChunks_append {header chunk : List UInt8} {chunks more : List (List UInt8)}
    {i : Instruction} {is rest : List Instruction} (h : EncodesAll chunks is)
    (hnone : ∀ i ∈ is, isTagged header i = false) (htagged : isTagged header i = true) :
    clearedChunks header (chunks ++ chunk :: more) (is ++ i :: rest) =
      chunks ++ (UInt8.ofNat header.length :: header) :: more := by
  induction h with
  | nil => rw [List.nil_append, List.nil_append, clearedChunks, if_pos htagged, List.nil_append]
  | cons _ _ ih =>
    obtain ⟨hfirst, his⟩ := List.forall_mem_cons.mp hnone
    rw [List.cons_append, List.cons_append, clearedChunks, hfirst, if_neg (by simp), ih his,
      List.cons_append]

/-- A script with a solution in it: what is before the first tagged push, this push, and what is
after it. -/
structure HasSolution (before push after payload : List UInt8) : Prop where
  before : ∃ is : List Instruction, instructions before = is.map .ok ∧
    ∀ i ∈ is, isTagged signetHeader i = false
  push : ∃ opcode, Encodes push opcode (signetHeader ++ payload)
  payload : payload ≠ []

namespace HasSolution

variable {before push push' after payload payload' : List UInt8}

lemma segments_eq (h : HasSolution before push after payload) :
    segments (before ++ push ++ after) =
      ((segments before).1 ++ push :: (segments after).1, (segments after).2) := by
  obtain ⟨is, hread, -⟩ := h.before
  obtain ⟨opcode, hpush⟩ := h.push
  rw [List.append_assoc, segments_append_of_whole (segments_of_instructions hread).1,
    segments_append hpush]

/-- The payload is blanked out. -/
lemma cleared_eq (h : HasSolution before push after payload) :
    (fetchAndClearCommitmentSection signetHeader (before ++ push ++ after)).2 =
      before ++ (0x04 :: signetHeader) ++ (segments after).1.flatten := by
  obtain ⟨is, hread, hnone⟩ := h.before
  obtain ⟨opcode, hpush⟩ := h.push
  obtain ⟨hwhole, hbefore⟩ := segments_of_instructions hread
  obtain ⟨rest, hafter, -⟩ := exists_instructions after
  have his : EncodesAll (segments (before ++ push ++ after)).1
      (is ++ ⟨0, opcode, signetHeader ++ payload, 0⟩ :: rest) := by
    rw [h.segments_eq]
    exact List.rel_append hbefore (.cons hpush hafter)
  have htagged : isTagged signetHeader ⟨0, opcode, signetHeader ++ payload, 0⟩ = true := by
    have hpos := List.length_pos_iff.mpr h.payload
    rw [isTagged, Bool.and_eq_true, decide_eq_true_eq, List.isPrefixOf_iff_prefix]
    exact ⟨by rw [List.length_append]; omega, List.prefix_append _ _⟩
  have hflatten := segments_flatten before
  rw [hwhole, List.append_nil] at hflatten
  rw [fetchAndClearCommitmentSection_eq signetHeader his, h.segments_eq]
  dsimp only
  rw [clearedChunks_append hbefore hnone htagged, List.flatten_append, hflatten, List.flatten_cons,
    List.append_assoc]
  rfl

/-- The commitment is before the solution. -/
lemma isWitnessCommitment_of (h : HasSolution before push after payload)
    (hcommit : isWitnessCommitment (before ++ push ++ after) = true) (push' : List UInt8) :
    isWitnessCommitment (before ++ push' ++ after) = true := by
  obtain ⟨is, hread, hnone⟩ := h.before
  obtain ⟨opcode, hpush⟩ := h.push
  obtain ⟨hwhole, -⟩ := segments_of_instructions hread
  have hflatten := segments_flatten before
  rw [hwhole, List.append_nil] at hflatten
  obtain ⟨hash, chunks, hlen, hsegments⟩ := segments_of_isWitnessCommitment hcommit
  rw [h.segments_eq] at hsegments
  dsimp only at hsegments
  -- the push of the solution is neither of the first two instructions
  match hfirst : (segments before).1 with
  | [] =>
    rw [hfirst, List.nil_append, List.cons.injEq] at hsegments
    have hdata := (hsegments.1 ▸ hpush).unique encodes_return
    simp [signetHeader] at hdata
  | [_] =>
    rw [hfirst, List.singleton_append, List.cons.injEq, List.cons.injEq] at hsegments
    have hdata := (hsegments.2.1 ▸ hpush).unique (encodes_commitment hlen)
    simp [signetHeader] at hdata
  | first :: second :: more =>
    rw [hfirst, List.cons_append, List.cons_append, List.cons.injEq, List.cons.injEq] at hsegments
    obtain ⟨rfl, rfl, -⟩ := hsegments
    have hshape := isWitnessCommitment_of_flatten hlen (more ++ [push' ++ after])
    rw [hfirst] at hflatten
    rw [← hflatten, List.append_assoc]
    simpa using hshape

end HasSolution

/-! ### The coinbase without the solution -/

lemma lastWitnessCommitment_congr {outputs outputs' : List TxOut}
    (h : outputs.map (fun o => isWitnessCommitment o.scriptPubkey.bytes) =
      outputs'.map fun o => isWitnessCommitment o.scriptPubkey.bytes) (i : Nat) :
    lastWitnessCommitment i outputs = lastWitnessCommitment i outputs' := by
  induction outputs generalizing outputs' i with
  | nil =>
    rw [List.map_nil, eq_comm, List.map_eq_nil_iff] at h
    rw [h]
  | cons o outputs ih =>
    cases outputs' with
    | nil => cases h
    | cons o' outputs' =>
      rw [List.map_cons, List.map_cons, List.cons.injEq] at h
      rw [lastWitnessCommitment, lastWitnessCommitment, ih h.2, h.1]

/-- The commitment is looked for in the outputs alone. -/
lemma getWitnessCommitmentIndex_congr {coinbase coinbase' : Transaction}
    (h : coinbase.withoutWitness = coinbase'.withoutWitness) :
    getWitnessCommitmentIndex coinbase = getWitnessCommitmentIndex coinbase' := by
  have houtputs := congrArg Transaction.outputs h
  exact congrArg (lastWitnessCommitment 0) houtputs

/-- The output of the commitment. -/
lemma getWitnessCommitmentIndex_spec {coinbase : Transaction} {i : Nat}
    (h : getWitnessCommitmentIndex coinbase = some i) :
    ∃ output, coinbase.outputs[i]? = some output ∧
      isWitnessCommitment output.scriptPubkey.bytes = true := by
  obtain ⟨output, hget, -, hcommit⟩ := lastWitnessCommitment_spec h
  exact ⟨output, hget, hcommit⟩

/-- Another commitment in the place of the one that is found is found. -/
lemma getWitnessCommitmentIndex_set {coinbase : Transaction} {i : Nat} {output : TxOut}
    (h : getWitnessCommitmentIndex coinbase = some i)
    (hcommit : isWitnessCommitment output.scriptPubkey.bytes = true) :
    getWitnessCommitmentIndex { coinbase with outputs := coinbase.outputs.set i output } =
      some i := by
  obtain ⟨found, hget, hfound⟩ := getWitnessCommitmentIndex_spec h
  rw [← h]
  refine lastWitnessCommitment_congr ?_ 0
  refine List.ext_getElem? fun j => ?_
  rw [List.getElem?_map, List.getElem?_map, List.getElem?_set]
  obtain ⟨hlt, -⟩ := List.getElem?_eq_some_iff.mp hget
  split_ifs with hj
  · rw [← hj, hget, Option.map_some, Option.map_some, hcommit, hfound]
  · rfl

/-- The coinbase with the solution blanked out. -/
def blankedCoinbase (coinbase : Transaction) : Transaction :=
  match getWitnessCommitmentIndex coinbase with
  | none => coinbase
  | some i =>
    let output := coinbase.outputs.getD i ⟨Amount.zero, default⟩
    { coinbase with
      outputs := coinbase.outputs.set i { output with
        scriptPubkey :=
          ⟨(fetchAndClearCommitmentSection signetHeader output.scriptPubkey.bytes).2⟩ } }

lemma blankedCoinbase_eq {coinbase : Transaction} {i : Nat} {output : TxOut}
    (h : getWitnessCommitmentIndex coinbase = some i) (hget : coinbase.outputs[i]? = some output) :
    blankedCoinbase coinbase =
      { coinbase with
        outputs := coinbase.outputs.set i { output with
          scriptPubkey :=
            ⟨(fetchAndClearCommitmentSection signetHeader output.scriptPubkey.bytes).2⟩ } } := by
  rw [blankedCoinbase, h]
  simp only [List.getD_eq_getElem?_getD, hget, Option.getD_some]

/-- The commitment is found in the same place. -/
lemma getWitnessCommitmentIndex_blankedCoinbase {coinbase : Transaction} {i : Nat}
    (h : getWitnessCommitmentIndex coinbase = some i) :
    getWitnessCommitmentIndex (blankedCoinbase coinbase) = some i := by
  obtain ⟨output, hget, hcommit⟩ := getWitnessCommitmentIndex_spec h
  rw [blankedCoinbase_eq h hget]
  exact getWitnessCommitmentIndex_set h (isWitnessCommitment_cleared hcommit)

/-- A transaction without its witnesses and without the script of one output. -/
def Transaction.withoutSolution (tx : Transaction) (i : Nat) : Transaction :=
  { tx.withoutWitness with
    outputs := tx.outputs.modify i fun output => { output with scriptPubkey := ⟨[]⟩ } }

lemma withoutSolution_blankedCoinbase {coinbase : Transaction} {i : Nat}
    (h : getWitnessCommitmentIndex coinbase = some i) :
    (blankedCoinbase coinbase).withoutSolution i = coinbase.withoutSolution i := by
  obtain ⟨output, hget, -⟩ := getWitnessCommitmentIndex_spec h
  rw [blankedCoinbase_eq h hget]
  simp only [Transaction.withoutSolution, Transaction.withoutWitness, Transaction.mk.injEq,
    true_and, and_true]
  refine List.ext_getElem? fun j => ?_
  obtain ⟨hlt, -⟩ := List.getElem?_eq_some_iff.mp hget
  rw [List.getElem?_modify, List.getElem?_modify, List.getElem?_set]
  split_ifs with hj
  · rw [← hj, hget]
    rfl
  · rfl

lemma baseAddressable_blankedCoinbase {coinbase : Transaction} (h : coinbase.BaseAddressable) :
    (blankedCoinbase coinbase).BaseAddressable := by
  cases hindex : getWitnessCommitmentIndex coinbase with
  | none =>
    rw [blankedCoinbase, hindex]
    exact h
  | some i =>
    obtain ⟨output, hget, -⟩ := getWitnessCommitmentIndex_spec hindex
    rw [blankedCoinbase_eq hindex hget]
    refine ⟨⟨h.inputs, by rw [List.length_set]; exact h.outputs, ?_⟩, h.scriptSigs⟩
    intro o ho
    obtain hmem | rfl := List.mem_or_eq_of_mem_set ho
    · exact h.scripts o hmem
    · have hle := length_cleared_le signetHeader output.scriptPubkey.bytes
      exact hle.trans_lt (h.scripts output (List.mem_of_getElem? hget))

/-! ### The spent transaction -/

/-- The block with the solution blanked out. -/
def Block.blanked (block : Block) : Block :=
  { block with
    transactions :=
      match block.transactions with
      | [] => []
      | coinbase :: rest => blankedCoinbase coinbase :: rest }

section Spent

variable [Sha2] {block b b' : Block} {challenge : List UInt8} {txs : SignetTxs}

/-- What a signet block signature is over. -/
lemma toSpend_of_new (h : SignetTxs.new block challenge = .ok txs) :
    ∃ coinbase rest i, block.transactions = coinbase :: rest ∧
      getWitnessCommitmentIndex coinbase = some i ∧
      txs.toSpend = signetToSpend block (blankedCoinbase coinbase) challenge := by
  rw [SignetTxs.new] at h
  cases htxs : block.transactions with
  | nil =>
    rw [htxs] at h
    cases h
  | cons coinbase rest =>
    rw [htxs] at h
    cases hindex : getWitnessCommitmentIndex coinbase with
    | none =>
      simp only [hindex, Result.ok_bind, Result.pure_eq_ok] at h
      split_ifs at h
      all_goals cases h
    | some i =>
      obtain ⟨output, hget, -⟩ := getWitnessCommitmentIndex_spec hindex
      refine ⟨coinbase, rest, i, rfl, hindex, ?_⟩
      rw [blankedCoinbase_eq hindex hget]
      simp only [hindex, Result.ok_bind, Result.pure_eq_ok, List.getD_eq_getElem?_getD, hget,
        Option.getD_some] at h
      split_ifs at h with hcoinbase
      · cases h
      · split at h
        · obtain ⟨_, _, h⟩ := Result.bind_eq_ok.mp h
          cases h
          rfl
        · cases h
          rfl

/-- Two blocks that are the same but for the payload of the first tagged push in the witness
commitment of the coinbase and for the merkle root, the bits and the nonce of the header. -/
structure SameButSolution (b b' : Block) : Prop where
  version : b.header.version = b'.header.version
  prevHash : b.header.prevHash = b'.header.prevHash
  time : b.header.time = b'.header.time
  transactions : ∃ coinbase rest i value before push push' after payload payload',
    getWitnessCommitmentIndex coinbase = some i ∧
    coinbase.outputs[i]? = some ⟨value, ⟨before ++ push ++ after⟩⟩ ∧
    HasSolution before push after payload ∧ HasSolution before push' after payload' ∧
    b.transactions = coinbase :: rest ∧
    b'.transactions = { coinbase with
      outputs := coinbase.outputs.set i ⟨value, ⟨before ++ push' ++ after⟩⟩ } :: rest

/-- The solution is not signed. -/
lemma toSpend_eq_of_sameButSolution {txs' : SignetTxs} (h : SameButSolution b b')
    (hb : SignetTxs.new b challenge = .ok txs) (hb' : SignetTxs.new b' challenge = .ok txs') :
    txs.toSpend = txs'.toSpend := by
  obtain ⟨coinbase, rest, i, value, before, push, push', after, payload, payload', hindex, hget,
    hsolution, hsolution', htxs, htxs'⟩ := h.transactions
  obtain ⟨_, _, _, htxs₁, -, hspend⟩ := toSpend_of_new hb
  obtain ⟨_, _, _, htxs₂, -, hspend'⟩ := toSpend_of_new hb'
  rw [htxs, List.cons.injEq] at htxs₁
  rw [htxs', List.cons.injEq] at htxs₂
  have hblanked : blankedCoinbase coinbase = blankedCoinbase { coinbase with
      outputs := coinbase.outputs.set i ⟨value, ⟨before ++ push' ++ after⟩⟩ } := by
    obtain ⟨found, hfound, hcommit⟩ := getWitnessCommitmentIndex_spec hindex
    rw [hget, Option.some.injEq] at hfound
    subst hfound
    have hcommit' := hsolution.isWitnessCommitment_of hcommit push'
    have hindex' : getWitnessCommitmentIndex { coinbase with
        outputs := coinbase.outputs.set i ⟨value, ⟨before ++ push' ++ after⟩⟩ } = some i :=
      getWitnessCommitmentIndex_set hindex hcommit'
    obtain ⟨hlt, -⟩ := List.getElem?_eq_some_iff.mp hget
    rw [blankedCoinbase_eq hindex hget,
      blankedCoinbase_eq hindex' (List.getElem?_set_self hlt), hsolution.cleared_eq,
      hsolution'.cleared_eq, List.set_set]
  rw [hspend, hspend', ← htxs₁.1, ← htxs₂.1, ← hblanked]
  simp only [signetToSpend, computeModifiedMerkleRoot, htxs, htxs', List.drop_succ_cons,
    List.drop_zero, h.version, h.prevHash, h.time]

/-- The merkle root that is signed is the one of the block with the solution blanked out. -/
lemma computeModifiedMerkleRoot_eq {coinbase : Transaction} {rest : List Transaction}
    (h : block.transactions = coinbase :: rest) :
    computeModifiedMerkleRoot block (blankedCoinbase coinbase) =
      block.blanked.computeMerkleRoot := by
  simp [computeModifiedMerkleRoot, merkleRoot, Block.computeMerkleRoot, Block.blanked, Block.leaves,
    h]

/-- The fields of the header and the merkle root are determined by the spent transaction. -/
lemma header_eq_of_signetToSpend {cb cb' : Transaction} {challenge' : List UInt8}
    (h : signetToSpend b cb challenge = signetToSpend b' cb' challenge') :
    b.header.version = b'.header.version ∧ b.header.prevHash = b'.header.prevHash ∧
      computeModifiedMerkleRoot b cb = computeModifiedMerkleRoot b' cb' ∧
      b.header.time = b'.header.time := by
  have hscript := congrArg (fun tx => (tx.inputs.headD default).scriptSig.bytes) h
  simp only [signetToSpend, List.headD_cons, List.cons.injEq, true_and] at hscript
  have hsize : ∀ (block : Block) (root : Hash256),
      (encode block.header.version ++ encode block.header.prevHash ++ encode root ++
        encode block.header.time).length = 72 := by
    intro block root
    simp [encode]
  have hdata := pushData_injective (by
    rw [pushData, if_pos (by rw [hsize]; decide), List.length_append, hsize]
    decide) hscript
  simp only [List.append_assoc] at hdata
  obtain ⟨hversion, hdata⟩ :=
    prefixFree_of_roundTrips (P := fun _ => True) (fun x _ => roundTrips_int32 x) _ _ trivial
      trivial _ _ hdata
  obtain ⟨hprev, hdata⟩ :=
    prefixFree_of_roundTrips (P := fun _ => True) (fun x _ => roundTrips_digest x) _ _ trivial
      trivial _ _ hdata
  obtain ⟨hroot, hdata⟩ :=
    prefixFree_of_roundTrips (P := fun _ => True) (fun x _ => roundTrips_digest x) _ _ trivial
      trivial _ _ hdata
  exact ⟨hversion, hprev, hroot, prefixFree_uint32.eq_of_eq trivial trivial hdata⟩

/-- The leaves of the block with the solution blanked out. -/
lemma leaves_blanked {coinbase : Transaction} {rest : List Transaction}
    (h : b.transactions = coinbase :: rest) :
    b.blanked.leaves =
      ⟨(blankedCoinbase coinbase).txid.bytes⟩ :: rest.map fun tx => ⟨tx.txid.bytes⟩ := by
  rw [Block.leaves, Block.blanked, h, List.map_cons]

/-- The message of the coinbase is among those hashed. -/
lemma encodeBase_mem_merkleMessages {coinbase : Transaction} {rest : List Transaction}
    (h : b.transactions = coinbase :: rest) :
    (blankedCoinbase coinbase).encodeBase ∈ merkleMessages b.blanked := by
  refine List.mem_append_left _ (List.mem_map_of_mem ?_)
  rw [Block.blanked, h]
  exact List.mem_cons_self

/-- The same spent transaction stands for the same block, but for the solution and the proof of
work. -/
lemma eq_of_toSpend_eq {txs' : SignetTxs} (hb : SignetTxs.new b challenge = .ok txs)
    (hb' : SignetTxs.new b' challenge = .ok txs') (heq : txs.toSpend = txs'.toSpend)
    (hlen : b.transactions.length = b'.transactions.length)
    (hcoll : NoCollision b.blanked b'.blanked) (haddr : b.coinbase.BaseAddressable)
    (haddr' : b'.coinbase.BaseAddressable) :
    b.header.version = b'.header.version ∧ b.header.prevHash = b'.header.prevHash ∧
      b.header.time = b'.header.time ∧
      (b.transactions.drop 1).map Transaction.txid = (b'.transactions.drop 1).map Transaction.txid ∧
      ∃ i, getWitnessCommitmentIndex b.coinbase = some i ∧
        getWitnessCommitmentIndex b'.coinbase = some i ∧
        b.coinbase.withoutSolution i = b'.coinbase.withoutSolution i := by
  obtain ⟨coinbase, rest, i, htxs, hindex, hspend⟩ := toSpend_of_new hb
  obtain ⟨coinbase', rest', i', htxs', hindex', hspend'⟩ := toSpend_of_new hb'
  rw [hspend, hspend'] at heq
  obtain ⟨hversion, hprev, hroot, htime⟩ := header_eq_of_signetToSpend heq
  rw [computeModifiedMerkleRoot_eq htxs, computeModifiedMerkleRoot_eq htxs'] at hroot
  have hleaves := leaves_eq_of_computeMerkleRoot_eq (by simp [Block.blanked, htxs])
    (by simpa [Block.blanked, htxs, htxs'] using hlen) hcoll hroot
  rw [leaves_blanked htxs, leaves_blanked htxs', List.cons.injEq] at hleaves
  obtain ⟨hfirst, hrest⟩ := hleaves
  -- the coinbases have the same txid, and no other message has the hash of theirs
  have hmessage := hcoll _ (List.mem_append_left _ (encodeBase_mem_merkleMessages htxs)) _
    (List.mem_append_right _ (encodeBase_mem_merkleMessages htxs'))
    (congrArg Digest.bytes (toHash256_injective hfirst))
  have hcoinbase : b.coinbase = coinbase := by rw [Block.coinbase, htxs, List.headD_cons]
  have hcoinbase' : b'.coinbase = coinbase' := by rw [Block.coinbase, htxs', List.headD_cons]
  rw [hcoinbase] at haddr ⊢
  rw [hcoinbase'] at haddr' ⊢
  have hwithout := Transaction.withoutWitness_eq_of_encodeBase
    (baseAddressable_blankedCoinbase haddr) (baseAddressable_blankedCoinbase haddr') hmessage
  have hindices := getWitnessCommitmentIndex_congr hwithout
  rw [getWitnessCommitmentIndex_blankedCoinbase hindex,
    getWitnessCommitmentIndex_blankedCoinbase hindex', Option.some.injEq] at hindices
  subst hindices
  refine ⟨hversion, hprev, htime, ?_, i, hindex, hindex', ?_⟩
  · apply List.map_injective_iff.mpr toHash256_injective
    simpa [htxs, htxs', Function.comp_def] using hrest
  · have houtputs := congrArg Transaction.outputs hwithout
    dsimp only [Transaction.withoutWitness] at houtputs
    rw [← withoutSolution_blankedCoinbase hindex, ← withoutSolution_blankedCoinbase hindex',
      Transaction.withoutSolution, Transaction.withoutSolution, hwithout, houtputs]

/-- The signature of a signet block covers all of the block but the solution and the proof of
work. -/
theorem toSpend_covers {b b' : Block} {challenge : List UInt8} {txs txs' : SignetTxs}
    (hb : SignetTxs.new b challenge = .ok txs) (hb' : SignetTxs.new b' challenge = .ok txs') :
    (SameButSolution b b' → txs.toSpend = txs'.toSpend) ∧
    (b.transactions.length = b'.transactions.length → NoCollision b.blanked b'.blanked →
      b.coinbase.BaseAddressable → b'.coinbase.BaseAddressable → txs.toSpend = txs'.toSpend →
      b.header.version = b'.header.version ∧ b.header.prevHash = b'.header.prevHash ∧
      b.header.time = b'.header.time ∧
      (b.transactions.drop 1).map Transaction.txid = (b'.transactions.drop 1).map Transaction.txid ∧
      ∃ i, getWitnessCommitmentIndex b.coinbase = some i ∧
        getWitnessCommitmentIndex b'.coinbase = some i ∧
        b.coinbase.withoutSolution i = b'.coinbase.withoutSolution i) :=
  ⟨fun h => toSpend_eq_of_sameButSolution h hb hb',
    fun hlen hcoll haddr haddr' heq => eq_of_toSpend_eq hb hb' heq hlen hcoll haddr haddr'⟩

end Spent

namespace Sample

/-- A witness commitment with the given push after it. -/
def commitmentWith (push : List UInt8) : List UInt8 :=
  witnessCommitmentPrefix ++ List.replicate 32 0x11 ++ push

/-- A solution with an empty script and no witness, pushed by its length. -/
def directSolution : List UInt8 := 0x06 :: signetHeader ++ [0x00, 0x00]

/-- A solution with the script `OP_TRUE`, pushed with `OP_PUSHDATA1`. -/
def wideSolution : List UInt8 := [0x4c, 0x07] ++ signetHeader ++ [0x01, 0x51, 0x00]

/-- A block with nothing but a coinbase, and a solution in it. -/
def solvedBlock (push : List UInt8) (nonce : UInt32) : Block where
  header := header (List.replicate 32 0) nonce
  transactions := [{ coinbaseTx 0 with outputs := [⟨Amount.zero, ⟨commitmentWith push⟩⟩] }]

/-- Such a block with a payment before the commitment, and with another transaction. -/
def filledBlock (push : List UInt8) (nonce : UInt32) : Block where
  header := header (List.replicate 32 0) nonce
  transactions := [
    { coinbaseTx 0 with
      outputs := [⟨⟨50⟩, ⟨[0x51]⟩⟩, ⟨Amount.zero, ⟨commitmentWith push⟩⟩] },
    spend [[1]]]

lemma sameButSolution_filledBlock :
    SameButSolution (filledBlock directSolution 1) (filledBlock wideSolution 2) where
  version := rfl
  prevHash := rfl
  time := rfl
  transactions := by
    refine ⟨_, [spend [[1]]], 1, Amount.zero, commitmentWith [], directSolution, wideSolution, [],
      [0x00, 0x00], [0x01, 0x51, 0x00], by decide, by decide, ?_, ?_, rfl, rfl⟩
    all_goals refine ⟨⟨[⟨0, 0x6a, [], 1⟩, ⟨1, 0x24, [0xaa, 0x21, 0xa9, 0xed] ++
      List.replicate 32 0x11, 38⟩], by decide, by decide⟩, ?_, by simp⟩
    · exact ⟨0x06, .push [] _ (by decide) rfl (by decide)⟩
    · exact ⟨0x4c, .push [0x07] _ (by decide) rfl (by decide)⟩

/-- The block gives the transactions of its solution. -/
lemma new_filledBlock :
    ∃ txs txs', SignetTxs.new (filledBlock directSolution 1) [0x51] = .ok txs ∧
      SignetTxs.new (filledBlock wideSolution 2) [0x51] = .ok txs' ∧
      txs.toSign.inputs.map (·.scriptSig) ≠ txs'.toSign.inputs.map (·.scriptSig) :=
  ⟨_, _, rfl, rfl, by decide⟩

/-- The same messages are hashed for both blocks, and no two of them collide. -/
lemma noCollision_filledBlock :
    NoCollision (filledBlock directSolution 1).blanked (filledBlock wideSolution 2).blanked := by
  have hsame : merkleMessages (filledBlock wideSolution 2).blanked =
      merkleMessages (filledBlock directSolution 1).blanked := by
    have hblanked : (filledBlock wideSolution 2).blanked.transactions =
        (filledBlock directSolution 1).blanked.transactions := by
      decide +kernel
    rw [merkleMessages, merkleMessages, Block.leaves, Block.leaves, hblanked]
  have hfree : CollisionFree hash256 (merkleMessages (filledBlock directSolution 1).blanked) := by
    refine collisionFree_of_nodup ?_
    decide +kernel
  intro m hm m' hm'
  rw [hsame, List.mem_append, or_self] at hm hm'
  exact hfree m hm m' hm'

lemma baseAddressable_filledBlock (push : List UInt8) (nonce : UInt32)
    (h : (commitmentWith push).length < 2 ^ 64) :
    (filledBlock push nonce).coinbase.BaseAddressable where
  inputs := Nat.one_lt_two_pow (by decide)
  outputs := by
    change 2 < 2 ^ 64
    decide
  scripts := by
    refine List.forall_mem_cons.mpr ⟨?_, List.forall_mem_singleton.mpr h⟩
    unfold TxOut.Addressable
    decide
  scriptSigs := List.forall_mem_singleton.mpr (by decide)

/-- Two blocks with different solutions and the same signed transaction. -/
theorem toSpend_covers_filledBlock : ∃ txs txs',
    SignetTxs.new (filledBlock directSolution 1) [0x51] = .ok txs ∧
    SignetTxs.new (filledBlock wideSolution 2) [0x51] = .ok txs' ∧
    txs.toSign.inputs.map (·.scriptSig) ≠ txs'.toSign.inputs.map (·.scriptSig) ∧
    txs.toSpend = txs'.toSpend ∧
    ((filledBlock directSolution 1).transactions.drop 1).map Transaction.txid =
      ((filledBlock wideSolution 2).transactions.drop 1).map Transaction.txid ∧
    (filledBlock directSolution 1).coinbase.withoutSolution 1 =
      (filledBlock wideSolution 2).coinbase.withoutSolution 1 := by
  obtain ⟨txs, txs', hnew, hnew', hdiffer⟩ := new_filledBlock
  obtain ⟨hforward, hback⟩ := toSpend_covers hnew hnew'
  have hspend := hforward sameButSolution_filledBlock
  obtain ⟨-, -, -, htxids, i, hi, -, hsame⟩ := hback rfl noCollision_filledBlock
    (baseAddressable_filledBlock directSolution 1 (by decide))
    (baseAddressable_filledBlock wideSolution 2 (by decide)) hspend
  obtain rfl : i = 1 := (Option.some.inj hi).symm
  exact ⟨txs, txs', hnew, hnew', hdiffer, hspend, htxids, hsame⟩

end Sample

end Bitcrab
