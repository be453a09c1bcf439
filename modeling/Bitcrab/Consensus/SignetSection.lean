import Bitcrab.Consensus.Signet
import Bitcrab.Script.Segments
import Bitcrab.Wire.Canonical

/-!
# The section of a signet solution

`fetch_and_clear_commitment_section` copies the instructions of a commitment script as they are, and
ends before the first one that is malformed. Only the first push that starts with the tag is written
anew.
-/

namespace Bitcrab

open Bytes Outcome

/-! ### The loop on the instructions -/

/-- A push of the tag with something after it. -/
def isTagged (header : List UInt8) (i : Instruction) : Bool :=
  i.data.length > header.length && header.isPrefixOf i.data

/-- The bytes of the instructions, with the first tagged push cut down to the tag. -/
def clearedChunks (header : List UInt8) : List (List UInt8) → List Instruction → List (List UInt8)
  | chunk :: chunks, i :: is =>
    if isTagged header i then (UInt8.ofNat header.length :: header) :: chunks
    else chunk :: clearedChunks header chunks is
  | chunks, _ => chunks

/-- What follows the tag in the first tagged push. -/
def taggedSection (header : List UInt8) (is : List Instruction) : Option (List UInt8) :=
  (is.find? (isTagged header)).map fun i => i.data.drop header.length

section Loop

variable {header : List UInt8} {fuel : Nat} {sect : Option (List UInt8)} {modified : List UInt8}

/-- The bytes of a length, for the opcodes of pushes. -/
lemma headerLength_of_push {opcode : UInt8} (hop : opcode ≤ Opcode.opPushdata4) :
    (if opcode = 0x4c then 1 else if opcode = 0x4d then 2 else if opcode = 0x4e then 4 else 0) =
      headerLength opcode := by
  unfold headerLength
  by_cases hsmall : opcode < 0x4c
  · have hne : ∀ other : UInt8, 0x4c ≤ other → opcode ≠ other := by
      rintro other hother rfl
      exact absurd (UInt8.lt_of_lt_of_le hsmall hother) (UInt8.lt_irrefl _)
    simp [hsmall, hne 0x4c (by decide), hne 0x4d (by decide), hne 0x4e (by decide)]
  · have hcases : opcode = 0x4c ∨ opcode = 0x4d ∨ opcode = 0x4e := by
      simp only [Opcode.opPushdata4, UInt8.le_iff_toNat_le, UInt8.lt_iff_toNat_lt,
        ← UInt8.toNat_inj] at hop hsmall ⊢
      simp only [UInt8.reduceToNat] at hop hsmall ⊢
      omega
    rcases hcases with rfl | rfl | rfl <;> rfl

lemma pushedLength_eq (opcode : UInt8) (bytes : List UInt8) :
    (if opcode ≤ 75 then opcode.toNat else ofLeBytes bytes) = pushedLength opcode bytes := by
  have hiff : opcode ≤ 75 ↔ opcode < 0x4c := by
    rw [UInt8.le_iff_toNat_le, UInt8.lt_iff_toNat_lt]
    exact Nat.lt_succ_iff.symm
  simp only [pushedLength, hiff]

/-- A round on an instruction. -/
lemma clearCommitmentSection_append {chunk data more : List UInt8} {opcode : UInt8}
    (h : Encodes chunk opcode data) :
    clearCommitmentSection header (fuel + 1) (chunk ++ more) sect modified =
      if sect.isNone && data.length > header.length && header.isPrefixOf data then
        clearCommitmentSection header fuel more (some (data.drop header.length))
          (modified ++ UInt8.ofNat header.length :: header)
      else clearCommitmentSection header fuel more sect (modified ++ chunk) := by
  cases h with
  | op hop =>
    have habove : opcode > 0x4e := hop
    rw [List.singleton_append, clearCommitmentSection, if_pos habove]
    simp
  | push bytes _ hop hbytes hdata =>
    have hnot : ¬ opcode > 0x4e := UInt8.not_lt.mpr hop
    rw [List.cons_append, clearCommitmentSection, if_neg hnot]
    dsimp only
    rw [headerLength_of_push hop, pushedLength_eq, ← hbytes, List.append_assoc, List.take_left,
      ← hdata, if_neg (by simp), if_neg (by simp), List.drop_left, List.take_left]
    have hnext : (bytes ++ (data ++ more)).drop (bytes.length + data.length) = more := by
      rw [← List.drop_drop, List.drop_left, List.drop_left]
    rw [hnext]
    simp

/-- The loop ends at bytes that no instruction can be read from. -/
lemma clearCommitmentSection_of_stuck {bytes : List UInt8} (h : Stuck bytes) :
    clearCommitmentSection header fuel bytes sect modified = (sect, modified) := by
  cases fuel with
  | zero => rfl
  | succ fuel =>
    cases bytes with
    | nil => rfl
    | cons opcode rest =>
      by_cases hop : opcode > 0x4e
      · have hencodes : Encodes [opcode] opcode [] := .op hop
        exact absurd h hencodes.not_stuck
      have hpush : opcode ≤ Opcode.opPushdata4 := UInt8.not_lt.mp hop
      rw [clearCommitmentSection, if_neg hop]
      dsimp only
      rw [headerLength_of_push hpush, pushedLength_eq]
      by_cases hheader : rest.length < headerLength opcode
      · rw [if_pos hheader]
      obtain ⟨size, tail, hsize, rfl⟩ : ∃ size tail, size.length = headerLength opcode ∧
          rest = size ++ tail :=
        ⟨rest.take (headerLength opcode), rest.drop (headerLength opcode),
          by rw [List.length_take]; omega, (List.take_append_drop _ _).symm⟩
      rw [if_neg hheader, ← hsize, List.take_left, List.length_append]
      by_cases hdata : size.length + tail.length < size.length + pushedLength opcode size
      · rw [if_pos hdata]
      -- otherwise there is a whole push
      obtain ⟨data, more, hlen, rfl⟩ : ∃ data more, data.length = pushedLength opcode size ∧
          tail = data ++ more :=
        ⟨tail.take (pushedLength opcode size), tail.drop (pushedLength opcode size),
          by rw [List.length_take]; omega, (List.take_append_drop _ _).symm⟩
      rw [← List.append_assoc] at h
      exact absurd h (Encodes.push size data hpush hsize hlen).not_stuck

variable (header) in
/-- After the section is found, the instructions are copied. -/
lemma clearCommitmentSection_some {bytes : List UInt8} (hfuel : bytes.length ≤ fuel)
    (payload : List UInt8) (modified : List UInt8) :
    clearCommitmentSection header fuel bytes (some payload) modified =
      (some payload, modified ++ (segments bytes).1.flatten) := by
  induction bytes using script_induction generalizing fuel modified with
  | stuck bytes h => rw [clearCommitmentSection_of_stuck h, segments_of_stuck h]; simp
  | append chunk opcode data more hchunk ih =>
    have hpos := hchunk.length_pos
    rw [List.length_append] at hfuel
    obtain ⟨k, rfl⟩ : ∃ k, fuel = k + 1 := ⟨fuel - 1, by omega⟩
    rw [clearCommitmentSection_append hchunk, segments_append hchunk, if_neg (by simp),
      ih (by omega)]
    simp

variable (header) in
/-- Before the section is found, the first tagged push is the section. -/
lemma clearCommitmentSection_none {bytes : List UInt8} (hfuel : bytes.length ≤ fuel)
    {is : List Instruction} (his : EncodesAll (segments bytes).1 is) (modified : List UInt8) :
    clearCommitmentSection header fuel bytes none modified =
      (taggedSection header is, modified ++
        (clearedChunks header (segments bytes).1 is).flatten) := by
  induction bytes using script_induction generalizing fuel modified is with
  | stuck bytes h =>
    rw [segments_of_stuck h] at his ⊢
    cases his
    rw [clearCommitmentSection_of_stuck h]
    simp [taggedSection, clearedChunks]
  | append chunk opcode data more hchunk ih =>
    have hpos := hchunk.length_pos
    rw [List.length_append] at hfuel
    obtain ⟨k, rfl⟩ : ∃ k, fuel = k + 1 := ⟨fuel - 1, by omega⟩
    rw [segments_append hchunk] at his ⊢
    cases his with
    | @cons _ i _ is hi his =>
      obtain ⟨-, rfl⟩ := hchunk.unique hi
      rw [clearCommitmentSection_append hchunk]
      by_cases htagged : isTagged header i = true
      · have hfound : taggedSection header (i :: is) = some (i.data.drop header.length) := by
          rw [taggedSection, List.find?_cons_of_pos htagged, Option.map_some]
        have hcond : ((none : Option (List UInt8)).isNone && i.data.length > header.length &&
            header.isPrefixOf i.data) = true := htagged
        rw [if_pos hcond, clearCommitmentSection_some header (by omega), hfound, clearedChunks,
          if_pos htagged]
        simp
      · have hnone : taggedSection header (i :: is) = taggedSection header is := by
          rw [taggedSection, List.find?_cons_of_neg htagged, taggedSection]
        have hcond : ¬ ((none : Option (List UInt8)).isNone && i.data.length > header.length &&
            header.isPrefixOf i.data) = true := htagged
        rw [if_neg hcond, ih (by omega) his, hnone, clearedChunks, if_neg htagged]
        simp

end Loop

/-- What `fetch_and_clear_commitment_section` does, on the instructions of the script. -/
theorem fetchAndClearCommitmentSection_eq (header : List UInt8) {script : List UInt8}
    {is : List Instruction} (his : EncodesAll (segments script).1 is) :
    fetchAndClearCommitmentSection header script =
      (taggedSection header is, (clearedChunks header (segments script).1 is).flatten) := by
  rw [fetchAndClearCommitmentSection, clearCommitmentSection_none header le_rfl his,
    List.nil_append]

/-! ### The section as Bitcoin Core clears it -/

/-- The instructions of a script before the first malformed one. -/
def readInstructions (script : List UInt8) : List Instruction :=
  (instructions script).filterMap Except.toOption

/-- An instruction as it is written anew: the shortest push of its data, or its opcode. -/
def coreBytes (i : Instruction) : List UInt8 := if i.data = [] then [i.opcode] else pushData i.data

/-- The instructions written anew, with the first tagged push cut down to the tag. -/
def coreChunks (header : List UInt8) : List Instruction → List (List UInt8)
  | [] => []
  | i :: is =>
    if isTagged header i then pushData header :: is.map coreBytes
    else coreBytes i :: coreChunks header is

/-- `FetchAndClearCommitmentSection`: a script without the section is left as it is. -/
def coreFetchAndClear (header script : List UInt8) : Option (List UInt8) × List UInt8 :=
  match taggedSection header (readInstructions script) with
  | none => (none, script)
  | some payload => (some payload, (coreChunks header (readInstructions script)).flatten)

/-- A push with the opcode that a push of its data should have. -/
def IsShortest (i : Instruction) : Prop :=
  i.opcode ≤ Opcode.opPushdata4 → (pushData i.data).head? = some i.opcode

lemma readInstructions_spec (script : List UInt8) :
    EncodesAll (segments script).1 (readInstructions script) ∧
      ((∀ item ∈ instructions script, ∃ i, item = .ok i) ↔ (segments script).2 = []) := by
  have hmap : ∀ is : List Instruction,
      (is.map (.ok : Instruction → Outcome ScriptError Instruction)).filterMap Except.toOption =
        is := by
    intro is
    rw [List.filterMap_map]
    exact List.filterMap_some
  obtain ⟨is, his, ⟨htail, hread⟩ | ⟨htail, e, hread⟩⟩ := exists_instructions script
  · rw [readInstructions, hread, hmap]
    refine ⟨his, iff_of_true (fun item hitem => ?_) htail⟩
    obtain ⟨i, -, rfl⟩ := List.mem_map.mp hitem
    exact ⟨i, rfl⟩
  · rw [readInstructions, hread, List.filterMap_append, hmap]
    have hnil : [(.error e : Outcome ScriptError Instruction)].filterMap Except.toOption = [] := rfl
    rw [hnil, List.append_nil]
    refine ⟨his, iff_of_false (fun h => ?_) htail⟩
    obtain ⟨i, hi⟩ := h (.error e) (by simp)
    cases hi

/-! ### When the two are the same -/

/-- The opcode and the data of an instruction determine its bytes. -/
lemma Encodes.eq_of_eq {chunk chunk' data : List UInt8} {opcode : UInt8}
    (h : Encodes chunk opcode data) (h' : Encodes chunk' opcode data) : chunk = chunk' := by
  cases h with
  | op hop =>
    cases h' with
    | op _ => rfl
    | push _ _ hop' _ _ => exact absurd hop (UInt8.not_lt.mpr hop')
  | push size _ hop hsize hlen =>
    cases h' with
    | op hop' => exact absurd hop' (UInt8.not_lt.mpr hop)
    | push size' _ _ hsize' hlen' =>
      have hsame : size = size' := by
        rw [hlen] at hlen'
        unfold pushedLength headerLength at *
        split_ifs at * with hsmall
        · rw [List.length_eq_zero_iff.mp hsize, List.length_eq_zero_iff.mp hsize']
        all_goals exact ofLeBytes_injective (hsize.trans hsize'.symm) hlen'
      rw [hsame]

/-- No push of some data is shorter than the one that `push_data` makes. -/
lemma length_pushData_le {chunk data : List UInt8} {opcode : UInt8} (h : Encodes chunk opcode data)
    (hpush : opcode ≤ Opcode.opPushdata4) : (pushData data).length ≤ chunk.length := by
  have hlt := h.data_length_lt_max
  have hlen := h.length_eq hpush
  have hcases : headerLength opcode = 0 ∨ headerLength opcode = 1 ∨ headerLength opcode = 2 ∨
      headerLength opcode = 4 := by
    unfold headerLength
    split_ifs <;> simp
  rw [hlen, pushData, List.length_append]
  rcases hcases with hc | hc | hc | hc <;> rw [hc] at hlt ⊢ <;> split_ifs <;> simp at hlt ⊢ <;>
    omega

/-- An instruction is not longer when it is written anew, and as long when it is the same. -/
lemma length_coreBytes_le {chunk : List UInt8} {i : Instruction}
    (h : Encodes chunk i.opcode i.data) : (coreBytes i).length ≤ chunk.length := by
  rw [coreBytes]
  split_ifs with hnil
  · exact h.length_pos
  · by_cases hpush : i.opcode ≤ Opcode.opPushdata4
    · exact length_pushData_le h hpush
    · generalize i.data = data at h hnil
      cases h with
      | op => exact absurd rfl hnil
      | push _ _ hop => exact absurd hop hpush

lemma Encodes.head? {chunk data : List UInt8} {opcode : UInt8} (h : Encodes chunk opcode data) :
    chunk.head? = some opcode := by
  cases h <;> rfl

/-- A push of no data is `OP_0`, or longer than its opcode. -/
lemma Encodes.eq_singleton_iff {chunk : List UInt8} {opcode : UInt8} (h : Encodes chunk opcode [])
    (hpush : opcode ≤ Opcode.opPushdata4) : chunk = [opcode] ↔ opcode = 0 := by
  have hlen := h.length_eq hpush
  constructor
  · intro heq
    have hsmall : opcode < 0x4c := by
      by_contra hlarge
      rw [heq, List.length_singleton, headerLength, if_neg hlarge] at hlen
      split_ifs at hlen <;> simp at hlen
    cases h with
    | op hop => exact absurd hop (UInt8.not_lt.mpr hpush)
    | push size _ _ hsize hzero =>
      rw [pushedLength, if_pos hsmall] at hzero
      exact UInt8.toNat_inj.mp hzero.symm
  · rintro rfl
    obtain ⟨byte, rfl⟩ := List.length_eq_one_iff.mp hlen
    rw [Option.some.inj h.head?]

/-- An instruction is the same when it is written anew if it is a push with the right opcode. -/
lemma eq_coreBytes_iff {chunk : List UInt8} {i : Instruction} (h : Encodes chunk i.opcode i.data) :
    chunk = coreBytes i ↔ IsShortest i := by
  obtain ⟨offset, opcode, data, next⟩ := i
  dsimp only [coreBytes, IsShortest] at h ⊢
  by_cases hpush : opcode ≤ Opcode.opPushdata4
  · by_cases hnil : data = []
    · subst hnil
      rw [if_pos rfl, h.eq_singleton_iff hpush]
      constructor
      · rintro rfl _
        rfl
      · intro hhead
        exact (Option.some.inj (hhead hpush)).symm
    · obtain ⟨opcode', hpushed⟩ := encodes_pushData h.data_length_lt
      rw [if_neg hnil, hpushed.head?]
      constructor
      · intro heq _
        rw [← hpushed.head?, ← heq, h.head?]
      · intro hhead
        obtain rfl := Option.some.inj (hhead hpush)
        exact h.eq_of_eq hpushed
  · cases h with
    | op _ => simp [hpush]
    | push _ _ hop => exact absurd hop hpush

/-- Lists of parts that are not longer join to the same list when they are the same parts. -/
lemma flatten_eq_flatten_iff {as bs : List (List UInt8)}
    (h : List.Forall₂ (fun a b => b.length ≤ a.length) as bs) :
    as.flatten = bs.flatten ↔ as = bs := by
  refine ⟨fun heq => ?_, congrArg List.flatten⟩
  have hle : ∀ {as bs : List (List UInt8)}, List.Forall₂ (fun a b => b.length ≤ a.length) as bs →
      bs.flatten.length ≤ as.flatten.length := by
    intro as bs h
    induction h with
    | nil => exact le_rfl
    | cons hab _ ih =>
      simp only [List.flatten_cons, List.length_append]
      omega
  induction h with
  | nil => rfl
  | cons hab hrest ih =>
    rename_i a b as bs
    have htotal := congrArg List.length heq
    have htail := hle hrest
    simp only [List.flatten_cons, List.length_append] at htotal
    obtain ⟨rfl, htails⟩ := List.append_inj heq (by omega)
    rw [ih htails]

/-- The two ways of writing the instructions, part by part. -/
lemma clearedChunks_coreChunks {header : List UInt8} (hheader : header.length < 0x4c)
    {chunks : List (List UInt8)} {is : List Instruction} (h : EncodesAll chunks is) :
    List.Forall₂ (fun a b => b.length ≤ a.length) (clearedChunks header chunks is)
        (coreChunks header is) ∧
      (clearedChunks header chunks is = coreChunks header is ↔
        ∀ i ∈ is.eraseP (isTagged header), IsShortest i) := by
  have hplain : ∀ {chunks : List (List UInt8)} {is : List Instruction}, EncodesAll chunks is →
      List.Forall₂ (fun a b => b.length ≤ a.length) chunks (is.map coreBytes) ∧
        (chunks = is.map coreBytes ↔ ∀ i ∈ is, IsShortest i) := by
    intro chunks is h
    induction h with
    | nil => simp
    | cons hi _ ih =>
      rw [List.map_cons, List.cons.injEq, eq_coreBytes_iff hi, ih.2, List.forall_mem_cons]
      exact ⟨.cons (length_coreBytes_le hi) ih.1, Iff.rfl⟩
  induction h with
  | nil => simp [clearedChunks, coreChunks]
  | @cons chunk i chunks is hi hrest ih =>
    rw [clearedChunks, coreChunks]
    by_cases htagged : isTagged header i = true
    · obtain ⟨hlen, hiff⟩ := hplain hrest
      have htag : pushData header = UInt8.ofNat header.length :: header := by
        rw [pushData, if_pos hheader, List.singleton_append]
      rw [if_pos htagged, if_pos htagged, List.eraseP_cons_of_pos htagged, htag, List.cons.injEq,
        eq_self, true_and, hiff]
      exact ⟨.cons le_rfl hlen, Iff.rfl⟩
    · rw [if_neg htagged, if_neg htagged, List.eraseP_cons_of_neg htagged, List.cons.injEq,
        eq_coreBytes_iff hi, ih.2, List.forall_mem_cons]
      exact ⟨.cons (length_coreBytes_le hi) ih.1, Iff.rfl⟩

lemma clearedChunks_of_notTagged {header : List UInt8} {chunks : List (List UInt8)}
    {is : List Instruction} (h : EncodesAll chunks is)
    (hnone : ∀ i ∈ is, isTagged header i = false) : clearedChunks header chunks is = chunks := by
  induction h with
  | nil => rfl
  | cons _ _ ih =>
    obtain ⟨hi, his⟩ := List.forall_mem_cons.mp hnone
    rw [clearedChunks, hi, if_neg (by simp), ih his]

/-- The section is cleared as in Bitcoin Core if a script without the section is whole, and in one
with the section the other pushes are as short as they can be. -/
theorem fetchAndClearCommitmentSection_eq_core_iff (header : List.Vector UInt8 4)
    (script : List UInt8) :
    fetchAndClearCommitmentSection header.toList script =
        coreFetchAndClear header.toList script ↔
      ((∀ i ∈ readInstructions script, isTagged header.toList i = false) →
        ∀ item ∈ instructions script, ∃ i, item = .ok i) ∧
      ((∃ i ∈ readInstructions script, isTagged header.toList i = true) →
        ∀ i ∈ (readInstructions script).eraseP (isTagged header.toList), IsShortest i) := by
  obtain ⟨his, hwhole⟩ := readInstructions_spec script
  have hheader : header.toList.length < 0x4c := by
    rw [header.toList_length]
    decide
  obtain ⟨hparts, hsame⟩ := clearedChunks_coreChunks hheader his
  rw [fetchAndClearCommitmentSection_eq header.toList his, coreFetchAndClear, hwhole]
  by_cases hnone : ∀ i ∈ readInstructions script, isTagged header.toList i = false
  · have hsection : taggedSection header.toList (readInstructions script) = none := by
      rw [taggedSection, List.find?_eq_none.mpr (by simpa using hnone), Option.map_none]
    have hnot : ¬ ∃ i ∈ readInstructions script, isTagged header.toList i = true := by
      simpa using hnone
    have hcopy : clearedChunks header.toList (segments script).1 (readInstructions script) =
        (segments script).1 := clearedChunks_of_notTagged his hnone
    have hflatten := segments_flatten script
    rw [hsection, hcopy]
    constructor
    · intro heq
      have hbytes : (segments script).1.flatten = script := congrArg Prod.snd heq
      rw [hbytes] at hflatten
      exact ⟨fun _ => List.append_right_eq_self.mp hflatten, fun hsome => absurd hsome hnot⟩
    · rintro ⟨htail, -⟩
      rw [htail hnone, List.append_nil] at hflatten
      rw [hflatten]
  · have hsome : ∃ i ∈ readInstructions script, isTagged header.toList i = true := by
      simpa using hnone
    obtain ⟨payload, hsection⟩ : ∃ payload,
        taggedSection header.toList (readInstructions script) = some payload := by
      rw [taggedSection, ← Option.isSome_iff_exists, Option.isSome_map, List.find?_isSome]
      exact hsome
    rw [hsection]
    constructor
    · intro heq
      have hbytes := (flatten_eq_flatten_iff hparts).mp (congrArg Prod.snd heq)
      exact ⟨fun hnone' => absurd hnone' hnone, fun _ => hsame.mp hbytes⟩
    · rintro ⟨-, hshort⟩
      rw [hsame.mpr (hshort hsome)]

namespace Sample

/-- A witness commitment without a section, and a push whose length is missing after it. -/
def truncatedCommitment : List UInt8 :=
  witnessCommitmentPrefix ++ List.replicate 32 0x11 ++ [0x4c]

/-- The byte that cannot be read is lost, where nothing should be cleared. -/
theorem truncatedCommitment_section :
    fetchAndClearCommitmentSection signetHeader truncatedCommitment =
        (none, witnessCommitmentPrefix ++ List.replicate 32 0x11) ∧
      coreFetchAndClear signetHeader truncatedCommitment = (none, truncatedCommitment) := by
  decide +kernel

end Sample

end Bitcrab
