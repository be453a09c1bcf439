import Bitcrab.Storage.BlockIndexes
import Bitcrab.Types.Canonical

/-!
# Records read back from the store

Coins, index records and undo data, from the value to the bytes in the database and in the undo
files and back. A list or a script beyond the allocation limit is written and not read back.
-/

namespace Bitcrab

open Bytes BlockManager Result

/-! ### The three formats -/

/-- The script of a coin is within the allocation limit. -/
def Coin.WithinLimits (c : Coin) : Prop := c.output.scriptPubkey.bytes.length ≤ maxWireAllocation

/-- The number of coins and their scripts are within the allocation limit. -/
def BlockUndo.WithinLimits (undo : BlockUndo) : Prop :=
  undo.spentCoins.length ≤ maxWireAllocation ∧ ∀ c ∈ undo.spentCoins, c.WithinLimits

instance : DecidablePred Coin.WithinLimits := fun _ => inferInstanceAs (Decidable (_ ≤ _))

instance : DecidablePred BlockUndo.WithinLimits := fun _ => inferInstanceAs (Decidable (_ ∧ _))

lemma encode_coin_ne_nil (c : Coin) : encode c ≠ [] :=
  List.append_ne_nil_of_right_ne_nil _ (encode_txOut_ne_nil _)

lemma BlockUndo.WithinLimits.roundTrips {undo : BlockUndo} (h : undo.WithinLimits) :
    RoundTrips undo := by
  intro pos suffix
  have hcoins := reads_readVarList (g := id) h.1 (fun c _ => encode_coin_ne_nil c)
    (fun c hc => roundTrips_coin (h.2 c hc)) "BlockUndo"
  simp only [Reads, List.map_id] at hcoins
  have e : encode undo = encodeVarList undo.spentCoins := rfl
  rw [e]
  unfold decode instBitcoinDecodeBlockUndo
  simp only [hcoins, bind, Except.bind, pure, Except.pure]

lemma exists_consumed_bool {d d' : Decoder} {v : Bool} (h : decode d = .ok (v, d')) :
    ∃ bs, d.Consumed bs d' := by
  obtain ⟨⟨b, d₁⟩, hbyte, hret⟩ := bind_eq_ok.mp h
  cases hret
  obtain ⟨⟨bs, d₂⟩, hbytes, hret⟩ := bind_eq_ok.mp hbyte
  cases hret
  exact ⟨bs, (consumed_readBytes hbytes).1⟩

/-- Only coins within the limit are read. A flag that is neither 0 nor 1 is read too. -/
lemma exists_consumed_coin {d d' : Decoder} {c : Coin} (h : decode d = .ok (c, d')) :
    ∃ bs, c.WithinLimits ∧ d.Consumed bs d' := by
  obtain ⟨⟨height, d₁⟩, hheight, h⟩ := bind_eq_ok.mp h
  obtain ⟨⟨isCoinbase, d₂⟩, hcoinbase, h⟩ := bind_eq_ok.mp h
  obtain ⟨⟨output, d₃⟩, houtput, hret⟩ := bind_eq_ok.mp h
  cases hret
  obtain ⟨flag, hflag⟩ := exists_consumed_bool hcoinbase
  obtain ⟨hout, hscript⟩ := consumed_txOut houtput
  exact ⟨_, hscript, ((consumed_uint32 hheight).trans hflag).trans hout⟩

lemma withinLimits_of_decode {d d' : Decoder} {undo : BlockUndo} (h : decode d = .ok (undo, d')) :
    undo.WithinLimits := by
  obtain ⟨⟨coins, d₁⟩, hcoins, hret⟩ := bind_eq_ok.mp h
  cases hret
  have hcoin : ∀ {d d' : Decoder} {c : Coin}, decode d = .ok (c, d') →
      ∃ bs : List UInt8, (c.WithinLimits ∧ True) ∧ d.Consumed bs d' := by
    intro d d' c hc
    obtain ⟨bs, hlimits, hconsumed⟩ := exists_consumed_coin hc
    exact ⟨bs, ⟨hlimits, trivial⟩, hconsumed⟩
  obtain ⟨hlen, parts, hparts, -⟩ := consumed_readVarList hcoin hcoins
  exact ⟨hlen, ((List.forall₂_and_left _ _).mp hparts).1⟩

/-- A coin is read back exactly when its script is within the limit. -/
lemma decodeExact_coin_iff (c : Coin) (context : String) :
    decodeExact Coin (encode c) context = .ok c ↔ c.WithinLimits := by
  constructor
  · intro h
    obtain ⟨⟨c', d⟩, hdecode, h⟩ := bind_eq_ok.mp h
    obtain ⟨-, -, hret⟩ := bind_eq_ok.mp h
    cases hret
    obtain ⟨-, hlimits, -⟩ := exists_consumed_coin hdecode
    exact hlimits
  · intro h
    exact decodeExact_encode (roundTrips_coin h) context

lemma decodeExact_blockUndo_iff (undo : BlockUndo) (context : String) :
    decodeExact BlockUndo (encode undo) context = .ok undo ↔ undo.WithinLimits := by
  constructor
  · intro h
    obtain ⟨⟨undo', d⟩, hdecode, h⟩ := bind_eq_ok.mp h
    obtain ⟨-, -, hret⟩ := bind_eq_ok.mp h
    cases hret
    exact withinLimits_of_decode hdecode
  · intro h
    exact decodeExact_encode h.roundTrips context

/-! ### The records of a store -/

/-- After `handle_store_blocks` the index of every block is one that the call has made for it. -/
lemma getBlockIndex_handleStoreBlocks [Sha2] {bm bm' : BlockManager} {store store' : Store}
    {msgs : List StoreBlockMsg} (h : bm.handleStoreBlocks store msgs = .ok (bm', store')) :
    ∃ entries, writeBlocks msgs bm.files store.disk = .ok (entries, bm'.files, store'.disk) ∧
      ∀ e ∈ entries, ∃ e' ∈ entries, e'.1 = e.1 ∧ store'.getBlockIndex e.1 = .ok (some e'.2) := by
  obtain ⟨entries, hwrite, -, hwritten, -⟩ := handleStoreBlocks_eq_ok h
  refine ⟨entries, hwrite, fun e he => ?_⟩
  rcases hwritten.index e.1 with ⟨hne, -⟩ | ⟨e', he', hhash, hget⟩
  · exact absurd rfl (hne e he)
  · exact ⟨e', he', hhash, hget⟩

/-- After `handle_store_undo` the undo data is the record at the position that the next flush writes
into the index of the block, as long as positions in the file fit. -/
lemma readRecord_handleStoreUndo {bm bm' : BlockManager} {store store' : Store} {hash : BlockHash}
    {undo : BlockUndo} (h : bm.handleStoreUndo store hash undo = .ok (bm', store')) :
    ∃ index pos size, bm'.pendingUndoIndexes.lookup hash = some index ∧ index.undoPos = some pos ∧
      bm'.undoSizes.lookup pos.file = some size ∧
      (size < 2 ^ 32 → readRecord store'.disk.undo pos = .ok (encode undo)) := by
  obtain ⟨index, blockPos, size, undoPos, -, -, -, rfl, rfl, rfl⟩ := exists_of_handleStoreUndo h
  refine ⟨_, _, _, AList.lookup_insert _, rfl, AList.lookup_insert _, ?_⟩
  intro hsize
  have hoffset : (UInt32.ofNat (size + 8)).toNat = size + 8 :=
    UInt32.toNat_ofNat_of_lt' (show size + 8 < 2 ^ 32 by omega)
  have hraw : (encode undo).length < 2 ^ 32 := by omega
  obtain ⟨f, hf, hholds⟩ := FlatFileSeq.holdsAt_openAndWrite_self store.disk.undo undoFileChunk
    blockPos.file size bm.files.magic hraw
  refine readRecord_of_holdsAt hf ?_
  dsimp only
  rw [hoffset]
  exact hholds

/-- Coins, index records and undo data are decoded from their encodings, the first and the last
exactly within the allocation limit; and what a flush, `store_block` and `store_undo` write is what
is read afterwards. -/
theorem persisted_records_read_back [Sha2] :
    ((∀ (c : Coin) (context : String),
        decodeExact Coin (encode c) context = .ok c ↔ c.WithinLimits) ∧
      (∀ (index : BlockIndex) (context : String),
        decodeExact BlockIndex (encode index) context = .ok index) ∧
      ∀ (undo : BlockUndo) (context : String),
        decodeExact BlockUndo (encode undo) context = .ok undo ↔ undo.WithinLimits) ∧
    (∀ (bm : BlockManager) (store : Store) (coinOrder : List OutPoint) (undoOrder : List BlockHash)
        (coins : HashMap OutPoint CoinUpdate) (bestBlock : Option BlockHash)
        (connectedBlocks : List (UInt32 × BlockHash)) (store' : Store),
      (bm.handleUpdateUtxoSet store coinOrder undoOrder coins bestBlock connectedBlocks).2 =
        store' →
        (∀ o coin, coins.lookup o = some (.add coin) → coin.WithinLimits →
          store'.getCoin o = .ok (some coin)) ∧
        ∀ hash index, bm.pendingUndoIndexes.lookup hash = some index →
          store'.getBlockIndex hash = .ok (some index)) ∧
    (∀ (store : Store) (hash : BlockHash) (index : BlockIndex),
      (handleStoreBlockIndex store hash index).getBlockIndex hash = .ok (some index)) ∧
    (∀ (bm bm' : BlockManager) (store store' : Store) (msgs : List StoreBlockMsg),
      bm.handleStoreBlocks store msgs = .ok (bm', store') →
        ∃ entries, writeBlocks msgs bm.files store.disk = .ok (entries, bm'.files, store'.disk) ∧
          ∀ e ∈ entries, ∃ e' ∈ entries, e'.1 = e.1 ∧
            store'.getBlockIndex e.1 = .ok (some e'.2)) ∧
    ∀ (bm bm' : BlockManager) (store store' : Store) (hash : BlockHash) (undo : BlockUndo),
      bm.handleStoreUndo store hash undo = .ok (bm', store') →
        ∃ index pos size, bm'.pendingUndoIndexes.lookup hash = some index ∧
          index.undoPos = some pos ∧ bm'.undoSizes.lookup pos.file = some size ∧
          (size < 2 ^ 32 → readRecord store'.disk.undo pos = .ok (encode undo)) := by
  refine ⟨⟨decodeExact_coin_iff, ?_, decodeExact_blockUndo_iff⟩, ?_, ?_, ?_, ?_⟩
  · intro index context
    exact decodeExact_encode (roundTrips_blockIndex index) context
  · rintro bm store coinOrder undoOrder coins bestBlock connectedBlocks store' rfl
    refine ⟨fun o coin hcoin hlimits => ?_, fun hash index hindex => ?_⟩
    · rw [getCoin_handleUpdateUtxoSet, hcoin]
      intro coin' hcoin'
      obtain rfl : coin = coin' := by simpa [hcoin] using hcoin'
      exact hlimits
    · have hwritten := (chainstateWritten_handleUpdateUtxoSet bm store coinOrder undoOrder coins
        bestBlock connectedBlocks).index hash
      rwa [hindex] at hwritten
  · intro store hash index
    exact getBlockIndex_handleStoreBlockIndex_self store hash index
  · intro bm bm' store store' msgs h
    exact getBlockIndex_handleStoreBlocks h
  · intro bm bm' store store' hash undo h
    exact readRecord_handleStoreUndo h

/-! ### A record of 4 GiB -/

/-- The size of a record has four bytes. -/
lemma length_lt_of_readRecord {s : FlatFileSeq} {pos : FlatFilePos} {data : List UInt8}
    (h : readRecord s pos = .ok data) : data.length < 2 ^ 32 := by
  unfold readRecord at h
  split at h
  · cases h
  · split_ifs at h
    split at h
    · cases h
    · rename_i sizeBuf hsize
      split at h
      · cases h
      · rename_i read hread
        cases h
        have hbuf : sizeBuf.length = 4 := by
          simp only [FlatFile.readExact] at hsize
          split_ifs at hsize
          cases hsize
          exact FlatFile.length_slice _ _ _
        have hlen : data.length = ofLeBytes sizeBuf := by
          simp only [FlatFile.readExact] at hread
          split_ifs at hread
          cases hread
          exact FlatFile.length_slice _ _ _
        have hlt := ofLeBytes_lt sizeBuf
        rw [hbuf] at hlt
        rw [hlen]
        exact hlt

lemma length_encode_coin_ge (c : Coin) :
    c.output.scriptPubkey.bytes.length ≤ (encode c).length := by
  have e : encode c = encode c.height ++ encode c.isCoinbase ++ (encode c.output.value ++
      (encode (VarInt.mk (UInt64.ofNat c.output.scriptPubkey.bytes.length)) ++
        c.output.scriptPubkey.bytes)) := rfl
  rw [e]
  simp only [List.length_append]
  omega

lemma length_encode_blockUndo_replicate_ge (n : Nat) (c : Coin) :
    n * c.output.scriptPubkey.bytes.length ≤
      (encode (BlockUndo.mk (List.replicate n c))).length := by
  have e : encode (BlockUndo.mk (List.replicate n c)) = encode (VarInt.mk (UInt64.ofNat
      (List.replicate n c).length)) ++ (List.replicate n c).flatMap encode := rfl
  have hitems : ((List.replicate n c).flatMap encode).length = n * (encode c).length := by
    simp [List.length_flatMap]
  rw [e, List.length_append, hitems]
  have hcoin := Nat.mul_le_mul_left n (length_encode_coin_ge c)
  omega

namespace Sample

/-- A coin with a script of 4 MiB. -/
def longScriptCoin : Coin := ⟨⟨Amount.zero, ⟨List.replicate maxWireAllocation 0x51⟩⟩, 1, false⟩

/-- 1025 such coins. -/
def longUndo : BlockUndo := ⟨List.replicate 1025 longScriptCoin⟩

lemma withinLimits_longUndo : longUndo.WithinLimits := by
  have hcoins : longUndo.spentCoins.length = 1025 := List.length_replicate
  have hscript : longScriptCoin.WithinLimits := Nat.le_of_eq List.length_replicate
  refine ⟨?_, fun c hc => ?_⟩
  · rw [hcoins]
    decide
  · obtain rfl := List.eq_of_mem_replicate hc
    exact hscript

lemma length_encode_longUndo : 2 ^ 32 ≤ (encode longUndo).length := by
  have hlen := length_encode_blockUndo_replicate_ge 1025 longScriptCoin
  have hscript : longScriptCoin.output.scriptPubkey.bytes.length = 4194304 :=
    List.length_replicate
  rw [hscript] at hlen
  unfold longUndo
  omega

/-- An index record of a stored block. -/
def storedIndex : BlockIndex := ⟨Genesis.regtest.build.header, 0, Digest.zero, some ⟨0, 8⟩, none⟩

/-- A store with that record and no undo files. -/
def indexedStore : Store :=
  handleStoreBlockIndex ⟨fun _ _ => none, ⟨fun _ => none, fun _ => none⟩⟩ Digest.zero storedIndex

/-- The actor on it. -/
def indexedManager :
    BlockManager := ⟨⟨⟨[0xfa, 0xbf, 0xb5, 0xda], length_regtestMagic⟩, 0, 301⟩, 0, ∅, ∅⟩

lemma exists_handleStoreUndo (undo : BlockUndo) :
    ∃ bm' store', indexedManager.handleStoreUndo indexedStore Digest.zero undo =
      .ok (bm', store') := by
  have hlookup : indexedManager.pendingUndoIndexes.lookup Digest.zero = none := rfl
  have hindex : indexedStore.getBlockIndex Digest.zero = .ok (some storedIndex) :=
    getBlockIndex_handleStoreBlockIndex_self _ _ _
  unfold handleStoreUndo
  simp only [hlookup, hindex, pure_eq_ok, ok_bind]
  exact ⟨_, _, rfl⟩

/-- The number of coins and their scripts are within the limits, and the undo data is not
read back. -/
theorem longUndo_not_read_back :
    longUndo.WithinLimits ∧
    ∃ (bm' : BlockManager) (store' : Store) (index : BlockIndex) (pos : FlatFilePos),
      indexedManager.handleStoreUndo indexedStore Digest.zero longUndo = .ok (bm', store') ∧
      bm'.pendingUndoIndexes.lookup Digest.zero = some index ∧ index.undoPos = some pos ∧
      readRecord store'.disk.undo pos ≠ .ok (encode longUndo) := by
  refine ⟨withinLimits_longUndo, ?_⟩
  obtain ⟨bm', store', hundo⟩ := exists_handleStoreUndo longUndo
  obtain ⟨index, pos, size, hlookup, hpos, -, -⟩ := readRecord_handleStoreUndo hundo
  refine ⟨bm', store', index, pos, hundo, hlookup, hpos, fun hread => ?_⟩
  have hlt := length_lt_of_readRecord hread
  have hge := length_encode_longUndo
  omega

/-- One coin with a short script. -/
def shortUndo : BlockUndo := ⟨[⟨⟨Amount.zero, ⟨[0x51]⟩⟩, 7, true⟩]⟩

/-- Short undo data is read back. -/
theorem shortUndo_read_back :
    decodeExact BlockUndo (encode shortUndo) "BlockUndo" = .ok shortUndo ∧
    ∃ (bm' : BlockManager) (store' : Store) (index : BlockIndex) (pos : FlatFilePos),
      indexedManager.handleStoreUndo indexedStore Digest.zero shortUndo = .ok (bm', store') ∧
      bm'.pendingUndoIndexes.lookup Digest.zero = some index ∧ index.undoPos = some pos ∧
      readRecord store'.disk.undo pos = .ok (encode shortUndo) := by
  obtain ⟨⟨-, -, hundo⟩, -, -, -, hread⟩ := persisted_records_read_back
  refine ⟨(hundo shortUndo "BlockUndo").mpr (by decide), ?_⟩
  obtain ⟨bm', store', hstore⟩ := exists_handleStoreUndo shortUndo
  obtain ⟨index, pos, size, hlookup, hpos, hsize, hrecord⟩ :=
    hread indexedManager bm' indexedStore store' Digest.zero shortUndo hstore
  refine ⟨bm', store', index, pos, hstore, hlookup, hpos, hrecord ?_⟩
  -- there was no undo file
  obtain ⟨index', blockPos, size', undoPos, hindex, hblockPos, rfl, rfl, rfl, rfl⟩ :=
    exists_of_handleStoreUndo hstore
  have hstored : index' = storedIndex := by
    rcases hindex with hpending | hget
    · cases hpending
    · rw [indexedStore, getBlockIndex_handleStoreBlockIndex_self] at hget
      cases hget
      rfl
  subst hstored
  obtain rfl := Option.some.inj hblockPos
  rw [AList.lookup_insert] at hlookup
  obtain rfl := Option.some.inj hlookup
  obtain rfl := Option.some.inj hpos
  rw [AList.lookup_insert] at hsize
  obtain rfl := Option.some.inj hsize
  decide

end Sample

end Bitcrab
