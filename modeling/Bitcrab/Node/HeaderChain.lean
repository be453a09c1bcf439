import Bitcrab.Node.HashChain
import Bitcrab.Node.HeaderAnswers

/-!
# The cache of the best header chain (`node/blockchain.rs`)

`Blockchain` keeps the hashes of the best header chain in memory. It reads them from the store when
it is created, and `process_header` and `process_headers` update them for every header that they
answer. The update looks at the height only, so the cache follows the store as long as the headers
come in the order of the chain, and leaves it with a header of another branch.
-/

namespace Bitcrab

open BlockManager Result

section

variable [Sha2]

/-! ### The cache -/

omit [Sha2] in
/-- `Blockchain::update_header_chain`. -/
def updateHeaderChain (chain : List BlockHash) (hash : BlockHash) (height : UInt32) :
    List BlockHash :=
  if chain.isEmpty ∧ height < 2000 ∧ height = 0 then chain ++ [hash]
  else if height.toNat = chain.length then chain ++ [hash]
  else if height.toNat < chain.length then
    if chain[height.toNat]? ≠ some hash then chain.take height.toNat ++ [hash] else chain
  else chain

omit [Sha2] in
/-- The loop of `reconstruct_header_chain`, which walks back from a hash at a height. -/
def walkBack (s : Store) : Nat → BlockHash → List BlockHash → List BlockHash
  | height, hash, path =>
    if hash.isZero then path
    else
      let path := path.set height hash
      match height with
      | 0 => path
      | height + 1 =>
        match s.findBlockIndex hash with
        | none => path
        | some index => walkBack s height index.header.prevHash path

omit [Sha2] in
/-- `Blockchain::reconstruct_header_chain`. -/
def reconstructHeaderChain (s : Store) : List BlockHash :=
  match s.getHeadersTip.or s.getBestBlock with
  | none => []
  | some tip =>
    match s.findBlockIndex tip with
    | none => []
    | some index =>
      walkBack s index.height.toNat tip (List.replicate (index.height.toNat + 1) Digest.zero)

/-- Every entry but the first is the hash of an indexed header at this height, on top of the entry
before it. -/
def LinkedPath (chain : List BlockHash) (s : Store) : Prop :=
  ∀ i hash, 0 < i → chain[i]? = some hash →
    ∃ index, s.getBlockIndex hash = .ok (some index) ∧ index.header.blockHash = hash ∧
      index.height.toNat = i ∧ chain[i - 1]? = some index.header.prevHash

/-! ### Updates -/

/-- A header that can be put on the chain: it is there, or it is above the end of the chain, or its
parent is the entry below its height. -/
def LinksTo (chain : List BlockHash) (x : BlockHeader × UInt32) : Prop :=
  chain.length < x.2.toNat ∨ chain[x.2.toNat]? = some x.1.blockHash ∨ x.2 = 0 ∨
    chain[x.2.toNat - 1]? = some x.1.prevHash

section Updates

variable {chain : List BlockHash} {hash : BlockHash} {height : UInt32} {s : Store}

omit [Sha2] in
/-- An update puts the hash at its height and drops what was there and above, or does nothing. -/
lemma updateHeaderChain_cases (hne : chain ≠ []) (hash : BlockHash) (height : UInt32) :
    updateHeaderChain chain hash height = chain ∧
        (chain.length < height.toNat ∨ chain[height.toNat]? = some hash) ∨
      updateHeaderChain chain hash height = chain.take height.toNat ++ [hash] ∧
        height.toNat ≤ chain.length ∧ chain[height.toNat]? ≠ some hash := by
  have hempty : ¬(chain.isEmpty = true ∧ height < 2000 ∧ height = 0) := by
    rintro ⟨hnil, -⟩
    exact hne (List.isEmpty_iff.mp hnil)
  rw [updateHeaderChain, if_neg hempty]
  split_ifs with hend hbelow hother
  · right
    refine ⟨by rw [hend, List.take_length], Nat.le_of_eq hend, ?_⟩
    simp [hend]
  · exact .inr ⟨rfl, Nat.le_of_lt hbelow, hother⟩
  · exact .inl ⟨rfl, .inr (not_not.mp hother)⟩
  · exact .inl ⟨rfl, .inl (by omega)⟩

omit [Sha2] in
lemma updateHeaderChain_ne_nil (hne : chain ≠ []) (hash : BlockHash) (height : UInt32) :
    updateHeaderChain chain hash height ≠ [] := by
  rcases updateHeaderChain_cases hne hash height with ⟨h, -⟩ | ⟨h, -⟩
  · rw [h]
    exact hne
  · simp [h]

/-- An update with an indexed header that links to the chain keeps it a path. -/
lemma LinkedPath.update (h : LinkedPath chain s) (hne : chain ≠ []) {x : BlockHeader × UInt32}
    (hindexed : s.Indexed x) (hlinks : LinksTo chain x) :
    LinkedPath (updateHeaderChain chain x.1.blockHash x.2) s := by
  obtain ⟨header, height⟩ := x
  rcases updateHeaderChain_cases hne header.blockHash height with
    ⟨hsame, -⟩ | ⟨hchange, hle, hother⟩
  · rw [hsame]
    exact h
  · rw [hchange]
    have hlen : (chain.take height.toNat).length = height.toNat := List.length_take_of_le hle
    intro i hash hi hget
    rcases Nat.lt_trichotomy i height.toNat with hlt | rfl | hgt
    · -- below the height nothing changes
      rw [List.getElem?_append_left (by omega), List.getElem?_take_of_lt hlt] at hget
      obtain ⟨index, hindex, hhash, hheight, hprev⟩ := h i hash hi hget
      refine ⟨index, hindex, hhash, hheight, ?_⟩
      rw [List.getElem?_append_left (by omega), List.getElem?_take_of_lt (by omega), hprev]
    · rw [List.getElem?_append_right (Nat.le_of_eq hlen), hlen, Nat.sub_self,
        List.getElem?_cons_zero, Option.some.injEq] at hget
      subst hget
      obtain ⟨index, hindex, rfl, rfl⟩ := hindexed
      refine ⟨index, hindex, rfl, rfl, ?_⟩
      rw [List.getElem?_append_left (by omega), List.getElem?_take_of_lt (by omega)]
      rcases hlinks with habove | hthere | hzero | hparent
      · exact absurd habove (Nat.not_lt.mpr hle)
      · exact absurd hthere hother
      · dsimp only at hzero
        simp [hzero] at hi
      · exact hparent
    · rw [List.getElem?_eq_none (by simp; omega)] at hget
      cases hget

end Updates

/-! ### All updates of a call -/

/-- The cache after some headers. -/
def updateAll (chain : List BlockHash) (xs : List (BlockHeader × UInt32)) : List BlockHash :=
  xs.foldl (fun chain x => updateHeaderChain chain x.1.blockHash x.2) chain

/-- Every header links to the chain when its turn comes. -/
def LinksInTurn : List BlockHash → List (BlockHeader × UInt32) → Prop
  | _, [] => True
  | chain, x :: xs =>
    LinksTo chain x ∧ LinksInTurn (updateHeaderChain chain x.1.blockHash x.2) xs

/-- The last header that changes the chain. -/
def lastChange : List BlockHash → List (BlockHeader × UInt32) → Option BlockHash
  | _, [] => none
  | chain, x :: xs =>
    let chain' := updateHeaderChain chain x.1.blockHash x.2
    (lastChange chain' xs).or (if chain' = chain then none else some x.1.blockHash)

instance (chain : List BlockHash) (x : BlockHeader × UInt32) : Decidable (LinksTo chain x) :=
  inferInstanceAs (Decidable (_ ∨ _ ∨ _ ∨ _))

instance decidableLinksInTurn : ∀ (chain : List BlockHash) (xs : List (BlockHeader × UInt32)),
    Decidable (LinksInTurn chain xs)
  | _, [] => inferInstanceAs (Decidable True)
  | chain, x :: xs =>
    have := decidableLinksInTurn (updateHeaderChain chain x.1.blockHash x.2) xs
    inferInstanceAs (Decidable (_ ∧ _))

section UpdateAll

variable {chain : List BlockHash} {xs : List (BlockHeader × UInt32)} {s : Store}

lemma updateAll_ne_nil (hne : chain ≠ []) (xs : List (BlockHeader × UInt32)) :
    updateAll chain xs ≠ [] := by
  induction xs generalizing chain with
  | nil => exact hne
  | cons x xs ih => exact ih (updateHeaderChain_ne_nil hne _ _)

lemma LinkedPath.updateAll (h : LinkedPath chain s) (hne : chain ≠ [])
    (hindexed : ∀ x ∈ xs, s.Indexed x) (hlinks : LinksInTurn chain xs) :
    LinkedPath (updateAll chain xs) s := by
  induction xs generalizing chain with
  | nil => exact h
  | cons x xs ih =>
    obtain ⟨hx, hxs⟩ := List.forall_mem_cons.mp hindexed
    exact ih (h.update hne hx hlinks.1) (updateHeaderChain_ne_nil hne _ _) hxs hlinks.2

/-- The last header that changes the chain is its last entry. -/
lemma getLast?_updateAll (hne : chain ≠ []) :
    (updateAll chain xs).getLast? = (lastChange chain xs).or chain.getLast? := by
  induction xs generalizing chain with
  | nil => rfl
  | cons x xs ih =>
    change (Bitcrab.updateAll (updateHeaderChain chain x.1.blockHash x.2) xs).getLast? = _
    rw [ih (updateHeaderChain_ne_nil hne _ _), lastChange, Option.or_assoc]
    congr 1
    rcases updateHeaderChain_cases hne x.1.blockHash x.2 with ⟨hsame, -⟩ | ⟨hchange, hle, hother⟩
    · rw [if_pos hsame, hsame, Option.none_or]
    · rw [if_neg, hchange, List.getLast?_concat, Option.some_or]
      -- the entry at the height is another one
      rw [hchange]
      intro hsame
      have hlen : (chain.take x.2.toNat).length = x.2.toNat := List.length_take_of_le hle
      apply hother
      rw [← hsame, List.getElem?_append_right (Nat.le_of_eq hlen), hlen, Nat.sub_self,
        List.getElem?_cons_zero]

/-- A cache that was created before the genesis block was stored stays empty. -/
lemma updateAll_nil (h : ∀ x ∈ xs, x.2 ≠ 0) : updateAll [] xs = [] := by
  induction xs with
  | nil => rfl
  | cons x xs ih =>
    obtain ⟨hx, hxs⟩ := List.forall_mem_cons.mp h
    have hne : x.2.toNat ≠ 0 := fun hzero => hx (UInt32.toNat_inj.mp hzero)
    have hsame : updateHeaderChain [] x.1.blockHash x.2 = [] := by
      simp [updateHeaderChain, hx, hne]
    rw [updateAll, List.foldl_cons, hsame]
    exact ih hxs

/-- A store that keeps its records keeps the path. -/
lemma LinkedPath.mono (h : LinkedPath chain s) {s' : Store}
    (hkeeps : ∀ hash index, s.getBlockIndex hash = .ok (some index) →
      s'.getBlockIndex hash = .ok (some index)) : LinkedPath chain s' := by
  intro i hash hi hget
  obtain ⟨index, hindex, hrest⟩ := h i hash hi hget
  exact ⟨index, hkeeps hash index hindex, hrest⟩

end UpdateAll

/-! ### Reconstruction -/

section Reconstruction

variable {s : Store}

/-- Every record above height 0 has a parent one below it, and no record is that of a zero hash. -/
structure Store.Descends (s : Store) : Prop where
  parent : ∀ hash index, s.getBlockIndex hash = .ok (some index) → 0 < index.height.toNat →
    ∃ prev, s.getBlockIndex index.header.prevHash = .ok (some prev) ∧
      index.height.toNat = prev.height.toNat + 1
  hash : ∀ hash index, s.getBlockIndex hash = .ok (some index) → index.header.blockHash = hash
  ne_zero : ∀ hash index, s.getBlockIndex hash = .ok (some index) → hash.isZero = false

omit [Sha2] in
lemma walkBack_zero {hash : BlockHash} (h : hash.isZero = false) (path : List BlockHash) :
    walkBack s 0 hash path = path.set 0 hash := by
  simp [walkBack, h]

omit [Sha2] in
lemma walkBack_succ {hash : BlockHash} {index : BlockIndex} (h : hash.isZero = false)
    (hindex : s.getBlockIndex hash = .ok (some index)) (height : Nat) (path : List BlockHash) :
    walkBack s (height + 1) hash path =
      walkBack s height index.header.prevHash (path.set (height + 1) hash) := by
  rw [walkBack]
  simp [h, Store.findBlockIndex_of_getBlockIndex hindex]

/-- The walk leaves what is above, puts the hash at its height and links what is below. -/
lemma Store.Descends.walkBack (h : s.Descends) (height : Nat) {hash : BlockHash}
    {index : BlockIndex} (hindex : s.getBlockIndex hash = .ok (some index))
    (hheight : index.height.toNat = height) (path : List BlockHash) (hlen : height < path.length) :
    ∃ path', Bitcrab.walkBack s height hash path = path' ∧ path'.length = path.length ∧
      (∀ j, height < j → path'[j]? = path[j]?) ∧ path'[height]? = some hash ∧
      ∀ i hash', 0 < i → i ≤ height → path'[i]? = some hash' →
        ∃ index', s.getBlockIndex hash' = .ok (some index') ∧ index'.header.blockHash = hash' ∧
          index'.height.toNat = i ∧ path'[i - 1]? = some index'.header.prevHash := by
  have hzero := h.ne_zero hash index hindex
  induction height generalizing hash index path with
  | zero =>
    refine ⟨_, walkBack_zero hzero path, List.length_set, ?_, List.getElem?_set_self hlen, ?_⟩
    · exact fun j hj => List.getElem?_set_ne (Nat.ne_of_lt hj)
    · intro i hash' hi hle
      omega
  | succ height ih =>
    obtain ⟨prev, hprev, hstep⟩ := h.parent hash index hindex (by omega)
    obtain ⟨path', hpath', hlength, habove, hat, hbelow⟩ :=
      ih hprev (by omega) (path.set (height + 1) hash) (by rw [List.length_set]; omega)
        (h.ne_zero _ prev hprev)
    have hself : path'[height + 1]? = some hash := by
      rw [habove _ (Nat.lt_succ_self _), List.getElem?_set_self hlen]
    refine ⟨path', (walkBack_succ hzero hindex height path).trans hpath', ?_, ?_, hself, ?_⟩
    · rw [hlength, List.length_set]
    · intro j hj
      rw [habove j (by omega), List.getElem?_set_ne (Nat.ne_of_lt hj)]
    · intro i hash' hi hle hget
      rcases Nat.lt_or_eq_of_le hle with hlt | rfl
      · exact hbelow i hash' hi (Nat.le_of_lt_succ hlt) hget
      · rw [hself, Option.some.injEq] at hget
        subst hget
        exact ⟨index, hindex, h.hash hash index hindex, hheight, hat⟩

/-- On a store whose headers tip is indexed, the cache is the path that ends in it. -/
lemma Store.Descends.reconstructHeaderChain (h : s.Descends) {tip : BlockHash} {index : BlockIndex}
    (htip : s.getHeadersTip = some tip) (hindex : s.getBlockIndex tip = .ok (some index)) :
    Bitcrab.reconstructHeaderChain s ≠ [] ∧ LinkedPath (Bitcrab.reconstructHeaderChain s) s ∧
      (Bitcrab.reconstructHeaderChain s).getLast? = some tip := by
  have hfind := Store.findBlockIndex_of_getBlockIndex hindex
  obtain ⟨path, hpath, hlength, -, hat, hbelow⟩ :=
    h.walkBack index.height.toNat hindex rfl
      (List.replicate (index.height.toNat + 1) Digest.zero) (by simp)
  rw [List.length_replicate] at hlength
  have hchain : Bitcrab.reconstructHeaderChain s = path := by
    simp only [Bitcrab.reconstructHeaderChain, htip, Option.some_or, hfind]
    exact hpath
  rw [hchain]
  refine ⟨?_, ?_, ?_⟩
  · rintro rfl
    simp at hlength
  · intro i hash hi hget
    have hlt : i < path.length := (List.getElem?_eq_some_iff.mp hget).1
    exact hbelow i hash hi (by omega) hget
  · rw [List.getLast?_eq_getElem?, hlength, Nat.add_sub_cancel, hat]

end Reconstruction

/-! ### Calls -/

/-- The calls that update the cache. -/
inductive HeadersCall where
  | processHeader (header : BlockHeader)
  | processHeaders (headers : List BlockHeader)

namespace HeadersCall

/-- The call on the node. -/
def toCall : HeadersCall → Call
  | processHeader header => .processHeader header
  | processHeaders headers => .processHeaders headers

variable (cfg : Config) (n : Node)

/-- The node after the call. -/
def node : HeadersCall → Node
  | processHeader header => (n.processHeader cfg header).2
  | processHeaders headers => (n.processHeaders cfg headers).2

/-- The headers that the call answers, with their heights. -/
def answered : HeadersCall → List (BlockHeader × UInt32)
  | processHeader header =>
    match (n.processHeader cfg header).1 with
    | .ok height => [(header, height)]
    | .error _ => []
  | processHeaders headers => n.answeredHeaders cfg headers

/-- The new header with the most work, if it has more than the headers tip. -/
def bestNew : HeadersCall → Option BlockHash
  | processHeader header =>
    match n.store.getBlockIndex header.blockHash,
      (n.processHeader cfg header).2.store.getBlockIndex header.blockHash with
    | .ok none, .ok (some index) => (bestOf n.store.tipWork [(header.blockHash, index)]).2
    | _, _ => none
  | processHeaders headers => n.bestNew cfg headers

variable {cfg : Config} {n : Node} {work : Hash256}

/-- What a call leaves: the new header with the most work is the headers tip, what was indexed still
is, and so is every header that is answered. -/
structure Leaves (c : HeadersCall) (cfg : Config) (n : Node) : Prop where
  tip : (c.node cfg n).store.getHeadersTip = (c.bestNew cfg n).or n.store.getHeadersTip
  keeps : ∀ hash index, n.store.getBlockIndex hash = .ok (some index) →
    (c.node cfg n).store.getBlockIndex hash = .ok (some index)
  indexed : ∀ x ∈ c.answered cfg n, (c.node cfg n).store.Indexed x

/-- A call that only answers. -/
lemma leaves_of_node_eq {header : BlockHeader} {answer : Except ProcessHeaderError UInt32}
    (h : n.processHeader cfg header = (answer, n))
    (hanswer : ∀ height, answer = .ok height → n.store.Indexed (header, height)) :
    (processHeader header).Leaves cfg n where
  tip := by
    simp only [node, bestNew, h]
    cases n.store.getBlockIndex header.blockHash with
    | error e => rfl
    | ok found => cases found <;> rfl
  keeps := by
    intro hash index hindex
    simpa only [node, h] using hindex
  indexed := by
    intro x hx
    simp only [answered, h] at hx
    cases answer with
    | error e => simp at hx
    | ok height =>
      obtain rfl := List.mem_singleton.mp hx
      simpa only [node, h] using hanswer height rfl

/-- A call that adds a record. -/
lemma leaves_of_commitHeader (hwork : n.store.MostWork work) {header : BlockHeader}
    {height : BlockHeight} {w : Hash256}
    (h : n.processHeader cfg header = n.commitHeader header height)
    (hnone : n.store.getBlockIndex header.blockHash = .ok none)
    (hparent : n.store.parentWork header = .ok w) : (processHeader header).Leaves cfg n := by
  let index : BlockIndex :=
    ⟨header, height, addChainWork w (calculateBlockWork header.bits), none, none⟩
  have htip : (handleStoreBlockIndex n.store header.blockHash
      ⟨header, height, addChainWork w (calculateBlockWork header.bits), none,
        none⟩).headersTipWork =
        .ok work :=
    hwork.headersTipWork_handleStoreBlockIndex hnone index
  have hok : (n.store.processHeader header height).1 = .ok () := by
    simp only [Store.processHeader, hnone, hparent, htip]
  have hadd : n.processHeader cfg header =
      (.ok height, { n with store := n.store.addHeader index }) := by
    have hboth : n.store.processHeader header height = (.ok (), n.store.addHeader index) :=
      Prod.ext hok (Store.snd_processHeader height hnone hparent)
    rw [h, Node.commitHeader, hboth]
  have hself : (n.store.addHeader index).getBlockIndex header.blockHash = .ok (some index) := by
    rw [Store.getBlockIndex_addHeader, if_pos rfl]
  have htip' : (n.store.addHeader index).getHeadersTip =
      if index.chainWork.gt work then some header.blockHash else n.store.getHeadersTip :=
    hwork.getHeadersTip_addHeader hnone
  refine ⟨?_, ?_, ?_⟩
  · simp only [node, bestNew, hadd, hnone, hself, bestOf, List.foldl_cons, List.foldl_nil,
      hwork.tipWork_eq, htip']
    split_ifs <;> rfl
  · intro hash old hold
    simp only [node, hadd]
    rw [Store.getBlockIndex_addHeader, if_neg, hold]
    rintro rfl
    simp [index, hnone] at hold
  · intro x hx
    simp only [answered, hadd] at hx
    obtain rfl := List.mem_singleton.mp hx
    simp only [node, hadd]
    exact ⟨index, hself, rfl, rfl⟩

/-- Every call leaves that, as long as no two headers have the same hash. -/
lemma leaves (c : HeadersCall) (hwork : n.store.MostWork work)
    (hfree : HeaderBatch.CollisionFree c.toCall.headers)
    (hknown : ∀ header ∈ c.toCall.headers, ∀ index,
      n.store.getBlockIndex header.blockHash = .ok (some index) → index.header = header) :
    c.Leaves cfg n := by
  cases c with
  | processHeaders headers =>
    obtain ⟨htip, hkeeps, hindexed, -⟩ := Node.processHeaders_spec hfree hknown
    exact ⟨htip, hkeeps, hindexed⟩
  | processHeader header =>
    have hrefused : ∀ e, n.processHeader cfg header = (.error e, n) →
        (processHeader header).Leaves cfg n := fun e h => leaves_of_node_eq h (by simp)
    cases hget : n.store.getBlockIndex header.blockHash with
    | error e => exact hrefused (.store e) (by simp only [Node.processHeader, hget])
    | ok found =>
      cases found with
      | some index =>
        have hanswer : n.processHeader cfg header = (.ok index.height, n) := by
          simp only [Node.processHeader, hget]
        refine leaves_of_node_eq hanswer ?_
        rintro height ⟨⟩
        exact ⟨index, hget, hknown header (List.mem_singleton.mpr rfl) index hget, rfl⟩
      | none =>
        by_cases hzero : header.prevHash.isZero = true
        · have hcommit : n.processHeader cfg header = n.commitHeader header 0 := by
            simp only [Node.processHeader, hget, hzero, if_true]
          have hparent : n.store.parentWork header = .ok Digest.zero := by
            simp [Store.parentWork, hzero]
          exact leaves_of_commitHeader hwork hcommit hget hparent
        · cases hprev : n.store.getBlockIndex header.prevHash with
          | error e =>
            exact hrefused (.store e) (by simp only [Node.processHeader, hget, if_neg hzero, hprev])
          | ok parent =>
            cases parent with
            | none =>
              exact hrefused (.orphan header.prevHash)
                (by simp only [Node.processHeader, hget, if_neg hzero, hprev])
            | some prev =>
              cases hcheck : checkBlockHeader header prev cfg.params
                  (headerProvider cfg.params n.store) with
              | error e =>
                exact hrefused (.consensus e)
                  (by simp only [Node.processHeader, hget, if_neg hzero, hprev, hcheck])
              | ok u =>
                have hcommit : n.processHeader cfg header =
                    n.commitHeader header prev.height.next := by
                  simp only [Node.processHeader, hget, if_neg hzero, hprev, hcheck]
                have hparent : n.store.parentWork header = .ok prev.chainWork := by
                  simp [Store.parentWork, hzero, hprev, Except.map]
                exact leaves_of_commitHeader hwork hcommit hget hparent

end HeadersCall

/-- `Blockchain`: a node with its cache. -/
structure Blockchain where
  node : Node
  bestHeaderChain : List BlockHash

namespace Blockchain

/-- `Blockchain::new`, on a store that was written before. -/
def new (cfg : Config) (store : Store) : Blockchain :=
  let node := Node.restart cfg store
  ⟨node, reconstructHeaderChain node.store⟩

/-- A call; the cache is updated for every header that is answered. -/
def call (cfg : Config) (b : Blockchain) (c : HeadersCall) : Option Blockchain :=
  some ⟨c.node cfg b.node, updateAll b.bestHeaderChain (c.answered cfg b.node)⟩

/-- A call that the cache follows: every header that is answered links to the chain when its turn
comes, and the last one that changes the chain is the new header with the most work, or the headers
tip if no new header has more work than it. -/
structure Follows (cfg : Config) (b : Blockchain) (c : HeadersCall) : Prop where
  links : LinksInTurn b.bestHeaderChain (c.answered cfg b.node)
  best : (lastChange b.bestHeaderChain (c.answered cfg b.node)).or b.node.store.getHeadersTip =
    (c.bestNew cfg b.node).or b.node.store.getHeadersTip

end Blockchain

/-! ### Every run -/

section Runs

variable {cfg : Config} {seen : Set BlockHeader} {n : Node} {b b' : Blockchain}

/-- What holds of the index between two calls. -/
structure IndexedHeaders (cfg : Config) (seen : Set BlockHeader) (s : Store) : Prop where
  headers : HeaderInv cfg.params seen s
  mostWork : ∃ work, s.MostWork work

lemma IndexedHeaders.knows {s : Store} (h : IndexedHeaders cfg seen s)
    (hinj : seen.InjOn BlockHeader.blockHash) {header : BlockHeader} (hseen : header ∈ seen)
    {index : BlockIndex} (hindex : s.getBlockIndex header.blockHash = .ok (some index)) :
    index.header = header :=
  hinj (h.headers.seen _ index hindex) hseen (h.headers.hash _ index hindex)

lemma IndexedHeaders.leaves (h : IndexedHeaders cfg seen n.store)
    (hinj : seen.InjOn BlockHeader.blockHash) {c : HeadersCall}
    (hrooted : RootedCall cfg seen n c.toCall) : c.Leaves cfg n := by
  obtain ⟨work, hwork⟩ := h.mostWork
  refine c.leaves hwork ?_ ?_
  · exact fun x hx y hy hhash => hinj (hrooted.seen x hx) (hrooted.seen y hy) hhash
  · exact fun header hheader index hindex => h.knows hinj (hrooted.seen header hheader) hindex

lemma HeadersCall.call_toCall [ScriptVerifier] (c : HeadersCall) (n : Node) :
    n.call cfg c.toCall = some (c.node cfg n) := by
  cases c <;> rfl

lemma IndexedHeaders.call [ScriptVerifier] (h : IndexedHeaders cfg seen n.store)
    (hinj : seen.InjOn BlockHeader.blockHash) (hgenesis : cfg.params.genesisHeader ∈ seen)
    {c : HeadersCall} (hrooted : RootedCall cfg seen n c.toCall) :
    IndexedHeaders cfg seen (c.node cfg n).store := by
  refine ⟨h.headers.call hgenesis hinj (c.call_toCall n) hrooted, ?_⟩
  obtain ⟨work, hwork⟩ := h.mostWork
  cases c with
  | processHeader header =>
    obtain ⟨work', hwork', -⟩ := hwork.processHeader header
    exact ⟨work', hwork'⟩
  | processHeaders headers =>
    obtain ⟨work', hwork', -⟩ := hwork.processHeaders
      fun x hx y hy hhash => hinj (hrooted.seen x hx) (hrooted.seen y hy) hhash
    exact ⟨work', hwork'⟩

/-- What holds of the cache as well. -/
structure CacheInv (cfg : Config) (seen : Set BlockHeader) (b : Blockchain) : Prop where
  index : IndexedHeaders cfg seen b.node.store
  ne_nil : b.bestHeaderChain ≠ []
  linked : LinkedPath b.bestHeaderChain b.node.store
  last : b.bestHeaderChain.getLast? = b.node.store.getHeadersTip

/-- A call that the cache follows. -/
lemma CacheInv.call [ScriptVerifier] (h : CacheInv cfg seen b)
    (hinj : seen.InjOn BlockHeader.blockHash) (hgenesis : cfg.params.genesisHeader ∈ seen)
    {c : HeadersCall} (hrooted : RootedCall cfg seen b.node c.toCall)
    (hfollows : b.Follows cfg c) (hstep : b.call cfg c = some b') : CacheInv cfg seen b' := by
  obtain rfl := Option.some.inj hstep
  have hleaves := h.index.leaves hinj hrooted
  refine ⟨h.index.call hinj hgenesis hrooted, updateAll_ne_nil h.ne_nil _, ?_, ?_⟩
  · exact (h.linked.mono hleaves.keeps).updateAll h.ne_nil hleaves.indexed hfollows.links
  · dsimp only
    rw [getLast?_updateAll h.ne_nil, h.last, hfollows.best, hleaves.tip]

/-- Heights go down to the genesis block. -/
lemma HeaderInv.descends {s : Store} (h : HeaderInv cfg.params seen s)
    (hgenesis : ∃ index, s.getBlockIndex cfg.params.genesisHash = .ok (some index) ∧
      index.height = 0) (hzero : ∀ header ∈ seen, header.blockHash.isZero = false) :
    s.Descends where
  parent := by
    intro hash index hindex hpos
    have hne : hash ≠ cfg.params.genesisHash := by
      rintro rfl
      obtain ⟨index', hindex', hheight⟩ := hgenesis
      obtain rfl := Option.some.inj (Except.ok.inj (hindex.symm.trans hindex'))
      simp [hheight] at hpos
    obtain ⟨prev, hprev, hheight, -⟩ := h.accepted hash index hindex hne
    exact ⟨prev, hprev, hheight⟩
  hash := h.hash
  ne_zero := by
    intro hash index hindex
    rw [← h.hash hash index hindex]
    exact hzero _ (h.seen hash index hindex)

/-- A store that earlier sessions have left: its headers go down to the genesis block, and a restart
has nothing to repair. -/
structure Resumed (cfg : Config) (seen : Set BlockHeader) (n : Node) : Prop where
  index : IndexedHeaders cfg seen n.store
  genesis : n.store.AtGenesis cfg.params
  store_restart : (Node.restart cfg n.store).store = n.store

/-- Any calls, and then a restart. -/
lemma resumed_of_reachable [ScriptVerifier] (hinj : seen.InjOn BlockHeader.blockHash)
    (hgenesis : cfg.params.genesisHeader ∈ seen)
    (h : Reachable (Node.call cfg)
      (fun n call _ => RootedCall cfg seen n call ∧ TipCall n call) (Node.init cfg) n)
    (hrestart : TipCall n .restart) : Resumed cfg seen n := by
  have hinv : HeaderInv cfg.params seen n.store ∧ n.store.AtGenesis cfg.params ∧
      ∃ work, n.store.MostWork work := by
    refine h.invariant (fun n => HeaderInv cfg.params seen n.store ∧
      n.store.AtGenesis cfg.params ∧ ∃ work, n.store.MostWork work) ?_ ?_
    · refine ⟨?_, atGenesis_addGenesis cfg.params, _, mostWork_addGenesis cfg.params⟩
      exact HeaderInv.loadGenesis (headerInv_empty cfg.params seen) hgenesis
    · rintro n call n' ⟨hheaders, hgenesis', work, hwork⟩ hstep ⟨hrooted, htip⟩
      obtain ⟨hgenesis'', work', hwork', -⟩ := hwork.call hgenesis' hstep htip
      exact ⟨hheaders.call hgenesis hinj hstep hrooted, hgenesis'', work', hwork'⟩
  obtain ⟨hheaders, hgenesis', work, hwork⟩ := hinv
  exact ⟨⟨hheaders, work, hwork⟩, hgenesis', hwork.store_restart hgenesis' hrestart⟩

end Runs

end

/-! ### A header of another branch -/

namespace Sample

set_option maxRecDepth 100000 in
lemma isZero_seenHeaders : ∀ header ∈ seenHeaders, header.blockHash.isZero = false := by
  unfold seenHeaders
  rw [sha2_eq_digests]
  decide +kernel

/-- The records after a start are those of `load_genesis`. -/
lemma height_of_restart {hash : BlockHash} {index : BlockIndex}
    (h : (Node.restart cfg (Node.init cfg).store).store.getBlockIndex hash = .ok (some index)) :
    index.height = 0 := by
  rw [Node.getBlockIndex_restart] at h
  change (Store.empty.addGenesis cfg.params).getBlockIndex hash = _ at h
  rw [Store.getBlockIndex_addGenesis] at h
  split_ifs at h
  · obtain rfl := Option.some.inj (Except.ok.inj h)
    rfl
  · simp at h

lemma injOn_seenHeaders : Set.InjOn BlockHeader.blockHash { h | h ∈ seenHeaders } :=
  fun a ha b hb hhash => collisionFree_seenHeaders a ha b hb hhash

lemma genesisHeader_mem_seenHeaders : cfg.params.genesisHeader ∈ { h | h ∈ seenHeaders } :=
  List.mem_cons_self (a := cfg.params.genesisHeader) (l := [nextBlock.header])

lemma tipCall_restart : TipCall (Node.init cfg) .restart := by
  intro tip best htip _
  change (Store.empty.addGenesis cfg.params).getBlockIndex cfg.params.genesisHash = _ at htip
  rw [Store.getBlockIndex_addGenesis, if_pos rfl] at htip
  obtain rfl := Option.some.inj (Except.ok.inj htip)
  exact Nat.zero_le _

lemma rootedCall_nextBlock : RootedCall cfg { h | h ∈ seenHeaders }
    (Node.restart cfg (Node.init cfg).store) (.processHeaders [nextBlock.header]) := by
  refine ⟨by simp [Call.headers, seenHeaders], by simp, ?_⟩
  intro hash index hindex
  rw [height_of_restart hindex]
  decide

set_option maxRecDepth 100000 in
lemma blockHash_forkHeader_ne : forkHeader.blockHash ≠ nextBlock.header.blockHash := by
  rw [sha2_eq_forkDigests]
  decide +kernel

end Sample

end Bitcrab
