import Bitcrab.Lib.HashMap
import Mathlib.Data.List.Perm.Subperm

/-!
# Counters beside a hash map

A map from keys to values with an owner, and a map that counts the entries of each owner. The
operations of the counters are those of a program that keeps them by hand: increments, decrements
and a recount.
-/

/-! ### Counting over lists -/

namespace List

variable {α β : Type} {xs : List α} {ys : List β} {p : α → Bool} {q : β → Bool}

/-- Different elements with `p` have different partners with `q`. -/
lemma countP_le_countP_of_rel (hxs : xs.Nodup) (R : α → β → Prop)
    (hex : ∀ x ∈ xs, p x = true → ∃ y ∈ ys, q y = true ∧ R x y)
    (hinj : ∀ x ∈ xs, ∀ x' ∈ xs, ∀ y, p x = true → p x' = true → R x y → R x' y → x = x') :
    xs.countP p ≤ ys.countP q := by
  have hex' : ∀ x : { x // x ∈ xs.filter p }, ∃ y ∈ ys, q y = true ∧ R x.1 y := by
    rintro ⟨x, hx⟩
    obtain ⟨hmem, hp⟩ := mem_filter.mp hx
    exact hex x hmem hp
  choose f hf using hex'
  have hnodup : ((xs.filter p).attach.map f).Nodup := by
    refine Nodup.map ?_ (nodup_attach.mpr (hxs.filter p))
    rintro ⟨x, hx⟩ ⟨x', hx'⟩ heq
    obtain ⟨hmem, hp⟩ := mem_filter.mp hx
    obtain ⟨hmem', hp'⟩ := mem_filter.mp hx'
    refine Subtype.ext (hinj x hmem x' hmem' (f ⟨x, hx⟩) hp hp' (hf ⟨x, hx⟩).2.2 ?_)
    rw [heq]
    exact (hf ⟨x', hx'⟩).2.2
  have hsubset : (xs.filter p).attach.map f ⊆ ys.filter q := by
    intro y hy
    obtain ⟨x, -, rfl⟩ := mem_map.mp hy
    exact mem_filter.mpr ⟨(hf x).1, (hf x).2.1⟩
  have hlength := (subperm_of_subset hnodup hsubset).length_le
  simpa [countP_eq_length_filter] using hlength

/-- A count over the elements is a count over the elements with their indices. -/
lemma countP_zipIdx (xs : List α) (p : α → Bool) :
    xs.zipIdx.countP (fun x => p x.1) = xs.countP p := by
  conv_rhs => rw [← zipIdx_map_fst 0 xs, countP_map]
  rfl

lemma countP_and_add_countP_not (xs : List α) (p q : α → Bool) :
    xs.countP (fun x => p x && q x) + xs.countP (fun x => p x && !q x) = xs.countP p := by
  induction xs with
  | nil => rfl
  | cons x xs ih => cases hp : p x <;> cases hq : q x <;> simp [hp, hq] <;> omega

lemma countP_set_add {i : Nat} {x : α} (hx : xs[i]? = some x) (x' : α) :
    (xs.set i x').countP p + (if p x then 1 else 0) = xs.countP p + if p x' then 1 else 0 := by
  obtain ⟨hi, rfl⟩ := getElem?_eq_some_iff.mp hx
  rw [countP_set hi]
  have hpos : p xs[i] = true → 0 < xs.countP p := fun hp =>
    countP_pos_iff.mpr ⟨xs[i], getElem_mem hi, hp⟩
  cases hp : p xs[i] with
  | false => simp
  | true =>
    have hcount := hpos hp
    simp only [if_true]
    omega

lemma countP_set_of_eq {i : Nat} {x x' : α} (hx : xs[i]? = some x) (hp : p x' = p x) :
    (xs.set i x').countP p = xs.countP p := by
  have hadd := countP_set_add (p := p) hx x'
  rw [hp] at hadd
  omega

lemma countP_set_le {i : Nat} {x x' : α} (hx : xs[i]? = some x) (hp : p x' = true → p x = true) :
    (xs.set i x').countP p ≤ xs.countP p := by
  have hadd := countP_set_add (p := p) hx x'
  split_ifs at hadd with h h' h'
  · omega
  · omega
  · exact absurd (hp h') h
  · omega

end List

namespace HashMap

variable {κ ν π : Type} [DecidableEq κ] [DecidableEq π]

/-! ### Counters -/

/-- A counter; an absent one is 0. -/
def countAt (m : HashMap π Nat) (p : π) : Nat :=
  (m.lookup p).getD 0

/-- `*m.entry(p).or_insert(0) += 1`. -/
def increment (m : HashMap π Nat) (p : π) : HashMap π Nat :=
  m.insert p (m.countAt p + 1)

/-- Change the value of a key that is there. -/
def modify (m : HashMap κ ν) (k : κ) (f : ν → ν) : HashMap κ ν :=
  match m.lookup k with
  | some v => m.insert k (f v)
  | none => m

/-- Count the occurrences in a list. -/
def tally (ps : List π) : HashMap π Nat :=
  ps.foldl increment ∅

lemma lookup_modify (m : HashMap κ ν) (k k' : κ) (f : ν → ν) :
    (m.modify k f).lookup k' = if k' = k then (m.lookup k').map f else m.lookup k' := by
  unfold modify
  cases hlookup : m.lookup k with
  | none =>
    by_cases hk : k' = k
    · subst hk
      simp [hlookup]
    · simp [hk]
  | some v =>
    by_cases hk : k' = k
    · subst hk
      simp [hlookup]
    · simp [hk, AList.lookup_insert_ne hk]

@[simp] lemma countAt_empty (p : π) : countAt (∅ : HashMap π Nat) p = 0 := rfl

lemma countAt_increment (m : HashMap π Nat) (p q : π) :
    (m.increment p).countAt q = m.countAt q + if p = q then 1 else 0 := by
  by_cases hpq : p = q
  · subst hpq
    simp [countAt, increment]
  · simp [countAt, increment, hpq, AList.lookup_insert_ne (Ne.symm hpq)]

lemma countAt_foldl_increment (ps : List π) (m : HashMap π Nat) (q : π) :
    (ps.foldl increment m).countAt q = m.countAt q + ps.count q := by
  induction ps generalizing m with
  | nil => simp
  | cons p ps ih =>
    rw [List.foldl_cons, ih, countAt_increment, List.count_cons, Nat.add_assoc,
      Nat.add_comm (ps.count q)]
    simp only [beq_iff_eq]

lemma countAt_tally (ps : List π) (q : π) : (tally ps).countAt q = ps.count q := by
  rw [tally, countAt_foldl_increment, countAt_empty, Nat.zero_add]

/-- Subtracting changes one counter; that of an absent key is 0 anyway. -/
lemma countAt_modify_sub (m : HashMap π Nat) (p : π) (n : Nat) (q : π) :
    (m.modify p (· - n)).countAt q = m.countAt q - if p = q then n else 0 := by
  cases hlookup : m.lookup p with
  | none =>
    by_cases hpq : p = q
    · subst hpq
      simp [countAt, modify, hlookup]
    · simp [countAt, modify, hlookup, hpq]
  | some c =>
    by_cases hpq : p = q
    · subst hpq
      simp [countAt, modify, hlookup]
    · simp [countAt, modify, hlookup, hpq, AList.lookup_insert_ne (Ne.symm hpq)]

lemma countAt_erase (m : HashMap π Nat) (p q : π) :
    countAt (m.erase p) q = if p = q then 0 else m.countAt q := by
  by_cases hpq : p = q
  · subst hpq
    simp [countAt, AList.lookup_erase]
  · simp [countAt, hpq, AList.lookup_erase_ne (Ne.symm hpq)]

/-- Subtract every counter of one map from those of another, in some order of iteration. -/
def subtractAll (order : List π) (counts m : HashMap π Nat) : HashMap π Nat :=
  (iter order counts).foldl (fun m e => m.modify e.1 (· - e.2)) m

lemma countAt_foldl_modify (es : List (π × Nat)) (hes : (es.map Prod.fst).Nodup)
    (m : HashMap π Nat) (q : π) :
    (es.foldl (fun m e => m.modify e.1 (· - e.2)) m).countAt q =
      m.countAt q - (es.lookup q).getD 0 := by
  induction es generalizing m with
  | nil => simp
  | cons e es ih =>
    obtain ⟨p, n⟩ := e
    obtain ⟨hp, hes⟩ := List.nodup_cons.mp hes
    rw [List.foldl_cons, ih hes, countAt_modify_sub, List.lookup_cons]
    by_cases hpq : p = q
    · subst hpq
      have hnone : es.lookup p = none := by
        rw [List.lookup_eq_none_iff]
        rintro ⟨p', n'⟩ hmem
        rw [bne_iff_ne]
        rintro rfl
        exact hp (List.mem_map.mpr ⟨_, hmem, rfl⟩)
      simp [hnone]
    · simp [hpq, beq_false_of_ne (Ne.symm hpq)]

lemma lookup_iter (order : List κ) (m : HashMap κ ν) (k : κ) :
    (iter order m).lookup k = m.lookup k := by
  cases hlookup : (iter order m).lookup k with
  | none =>
    symm
    rw [Option.eq_none_iff_forall_ne_some]
    intro v hv
    have hne := List.lookup_eq_none_iff.mp hlookup (k, v) (mem_iter.mpr hv)
    simp at hne
  | some v =>
    obtain ⟨l₁, l₂, hiter, -⟩ := List.lookup_eq_some_iff.mp hlookup
    have hmem : (k, v) ∈ iter order m := by simp [hiter]
    exact (mem_iter.mp hmem).symm

lemma countAt_subtractAll (order : List π) (counts m : HashMap π Nat) (q : π) :
    (subtractAll order counts m).countAt q = m.countAt q - counts.countAt q := by
  have hnodup : ((iter order counts).map Prod.fst).Nodup := by
    rw [map_fst_iter]
    exact (iterKeys_perm order counts).nodup_iff.mpr counts.keys_nodup
  rw [subtractAll, countAt_foldl_modify _ hnodup, lookup_iter]
  rfl

/-! ### The entries of an owner -/

/-- An iteration lists the entries. -/
lemma iter_perm (order : List κ) (m : HashMap κ ν) :
    (iter order m).Perm (m.entries.map fun e => (e.1, e.2)) := by
  have hkeys : (m.entries.map fun e => (e.1, e.2)).map Prod.fst = m.keys := by
    rw [List.map_map]
    rfl
  apply (List.perm_ext_iff_of_nodup (List.Nodup.of_map Prod.fst _)
    (List.Nodup.of_map Prod.fst _)).mpr
  · rintro ⟨k, v⟩
    rw [mem_iter, List.mem_map]
    constructor
    · intro hlookup
      exact ⟨⟨k, v⟩, AList.mem_lookup_iff.mp hlookup, rfl⟩
    · rintro ⟨⟨k', v'⟩, hmem, heq⟩
      obtain ⟨rfl, rfl⟩ := Prod.mk.inj heq
      exact AList.mem_lookup_iff.mpr hmem
  · rw [map_fst_iter]
    exact (iterKeys_perm order m).nodup_iff.mpr m.keys_nodup
  · rw [hkeys]
    exact m.keys_nodup

/-- Keep the entries with `keep`. -/
def retain (keep : κ → ν → Bool) (m : HashMap κ ν) : HashMap κ ν :=
  ⟨m.entries.filter fun e => keep e.1 e.2, m.nodupKeys.sublist List.filter_sublist⟩

omit [DecidableEq κ] in
lemma mem_of_mem_retain {keep : κ → ν → Bool} {m : HashMap κ ν} {k : κ} (h : k ∈ m.retain keep) :
    k ∈ m :=
  (List.filter_sublist.map Sigma.fst).subset h

/-- An entry with `keep` stays. -/
lemma lookup_retain_of_keep {keep : κ → ν → Bool} {m : HashMap κ ν} {k : κ} {v : ν}
    (h : m.lookup k = some v) (hkeep : keep k v) : (m.retain keep).lookup k = some v :=
  AList.mem_lookup_iff.mpr (List.mem_filter.mpr ⟨AList.mem_lookup_iff.mp h, hkeep⟩)

variable (owner : ν → π)

/-- The number of entries of an owner. -/
def assigned (m : HashMap κ ν) (p : π) : Nat :=
  m.entries.countP fun e => owner e.2 = p

omit [DecidableEq κ] in
@[simp] lemma assigned_empty (p : π) : assigned owner (∅ : HashMap κ ν) p = 0 := rfl

lemma assigned_insert {m : HashMap κ ν} {k : κ} (h : k ∉ m) (v : ν) (p : π) :
    assigned owner (m.insert k v) p = assigned owner m p + if owner v = p then 1 else 0 := by
  rw [assigned, AList.entries_insert_of_notMem h, List.countP_cons]
  simp only [decide_eq_true_eq]
  rfl

lemma assigned_erase {m : HashMap κ ν} {k : κ} {v : ν} (h : m.lookup k = some v) (p : π) :
    assigned owner m p = assigned owner (m.erase k) p + if owner v = p then 1 else 0 := by
  obtain ⟨v', l₁, l₂, -, hentries, herase⟩ :=
    List.exists_of_kerase (AList.lookup_isSome.mp (by rw [h]; rfl) : k ∈ m.entries.keys)
  have hmem : (⟨k, v'⟩ : Sigma fun _ : κ => ν) ∈ m.entries := by simp [hentries]
  obtain rfl : v' = v := Option.some.inj ((AList.mem_lookup_iff.mpr hmem).symm.trans h)
  rw [assigned, assigned, hentries, show (m.erase k).entries = l₁ ++ l₂ from herase,
    List.countP_append, List.countP_append, List.countP_cons]
  simp only [decide_eq_true_eq]
  exact (Nat.add_assoc _ _ _).symm

lemma assigned_erase_le (m : HashMap κ ν) (k : κ) (p : π) :
    assigned owner (m.erase k) p ≤ assigned owner m p :=
  List.Sublist.countP_le (List.kerase_sublist k m.entries)

lemma assigned_insert_le (m : HashMap κ ν) (k : κ) (v : ν) (p : π) :
    assigned owner (m.insert k v) p ≤ assigned owner m p + if owner v = p then 1 else 0 := by
  have hentries : (m.insert k v).entries = ⟨k, v⟩ :: (m.erase k).entries := rfl
  have hle : (m.erase k).entries.countP (fun e => decide (owner e.2 = p)) ≤ assigned owner m p :=
    assigned_erase_le owner m k p
  rw [assigned, hentries, List.countP_cons]
  simpa using hle

/-- A recount over an iteration. -/
lemma count_map_iter (order : List κ) (m : HashMap κ ν) (p : π) :
    ((iter order m).map fun e => owner e.2).count p = assigned owner m p := by
  rw [((iter_perm order m).map _).count_eq, List.map_map, List.count, List.countP_map]
  rfl

/-- What is dropped is counted by its owners. -/
lemma assigned_retain (order : List κ) (keep : κ → ν → Bool) (m : HashMap κ ν) (p : π) :
    assigned owner m p = assigned owner (m.retain keep) p +
      (((iter order m).filter fun e => !keep e.1 e.2).map fun e => owner e.2).count p := by
  have hdropped : (((iter order m).filter fun e => !keep e.1 e.2).map fun e => owner e.2).count p =
      (m.entries.filter fun e => !keep e.1 e.2).countP fun e => owner e.2 = p := by
    rw [(((iter_perm order m).filter _).map _).count_eq, List.filter_map, List.map_map, List.count,
      List.countP_map]
    congr 1
  rw [hdropped, assigned, assigned, List.countP_eq_countP_filter_add _ _ fun e => keep e.1 e.2]
  rfl

omit [DecidableEq κ] in
lemma assigned_retain_le (keep : κ → ν → Bool) (m : HashMap κ ν) (p : π) :
    assigned owner (m.retain keep) p ≤ assigned owner m p :=
  List.Sublist.countP_le List.filter_sublist

omit [DecidableEq κ] in
/-- Without the entries of one owner. -/
lemma assigned_retain_ne (p : π) (m : HashMap κ ν) (q : π) :
    assigned owner (m.retain fun _ v => owner v ≠ p) q =
      if p = q then 0 else assigned owner m q := by
  rw [assigned, retain, List.countP_filter]
  split_ifs with hpq
  · subst hpq
    rw [List.countP_eq_zero]
    simp
  · apply List.countP_congr
    intro e _
    by_cases he : owner e.2 = q
    · simp [he, Ne.symm hpq]
    · simp [he]

end HashMap
