import Mathlib.Data.List.AList
import Mathlib.Data.List.Dedup

/-!
# Hash maps with an unspecified iteration order

A hash map is an association list with distinct keys. Where a program iterates over a map in the
order its hasher happens to give, the order is a parameter: `iterKeys order m` lists the keys of
`m` starting with those of `order`, so that every permutation of the keys is the iteration of some
`order`.
-/

/-- A finite map given by its entries. -/
abbrev HashMap (κ ν : Type) := AList fun _ : κ => ν

namespace HashMap

variable {κ ν μ : Type}

/-! ### Retaining entries -/

lemma nodupKeys_filterMap (f : κ → ν → Option μ) {l : List (Sigma fun _ : κ => ν)}
    (h : l.NodupKeys) :
    (l.filterMap fun e => (f e.1 e.2).map (Sigma.mk (β := fun _ : κ => μ) e.1)).NodupKeys := by
  have hsub : List.Sublist
      (l.filterMap fun e => (f e.1 e.2).map (Sigma.mk (β := fun _ : κ => μ) e.1)).keys
      l.keys := by
    induction l with
    | nil => simp
    | cons e l ih =>
      have hl : l.NodupKeys := (List.nodupKeys_cons.mp h).2
      cases hf : f e.1 e.2 with
      | none =>
        simp only [List.filterMap_cons, hf, Option.map_none, List.keys_cons]
        exact (ih hl).cons _
      | some v =>
        simp only [List.filterMap_cons, hf, Option.map_some, List.keys_cons]
        exact (ih hl).cons_cons _
  exact List.Nodup.sublist hsub h

/-- `retain` with a closure that may change the value: keep the entries on which `f` is defined. -/
def filterMap (f : κ → ν → Option μ) (m : HashMap κ ν) : HashMap κ μ :=
  ⟨m.entries.filterMap fun e => (f e.1 e.2).map (Sigma.mk e.1),
    nodupKeys_filterMap f m.nodupKeys⟩

variable [DecidableEq κ]

lemma lookup_filterMap (f : κ → ν → Option μ) (m : HashMap κ ν) (k : κ) :
    (m.filterMap f).lookup k = (m.lookup k).bind (f k) := by
  obtain ⟨l, hl⟩ := m
  simp only [filterMap, AList.lookup]
  induction l with
  | nil => simp
  | cons e l ih =>
    obtain ⟨k', v⟩ := e
    obtain ⟨hk', hl'⟩ := List.nodupKeys_cons.mp hl
    have ih := ih hl'
    simp only [List.filterMap_cons]
    by_cases hk : k' = k
    · subst hk
      have hnone : List.dlookup k' l = none := List.dlookup_eq_none.mpr hk'
      rw [hnone] at ih
      cases hf : f k' v with
      | none => simpa [hf] using ih
      | some w => simp [hf]
    · rw [List.dlookup_cons_ne l ⟨k', v⟩ (Ne.symm hk)]
      cases hf : f k' v with
      | none => simpa [hf] using ih
      | some w =>
        simp only [Option.map_some]
        rw [List.dlookup_cons_ne (β := fun _ : κ => μ) _ ⟨k', w⟩ (Ne.symm hk)]
        exact ih

/-! ### Iteration -/

/-- The keys of a map in the iteration order given by `order`; a listing of the keys is its own
order. -/
def iterKeys (order : List κ) (m : HashMap κ ν) : List κ :=
  (order.dedup.filter fun k => k ∈ m.keys) ++ m.keys.filter fun k => k ∉ order

/-- Every iteration visits each key once. -/
lemma iterKeys_perm (order : List κ) (m : HashMap κ ν) : (iterKeys order m).Perm m.keys := by
  apply (List.perm_ext_iff_of_nodup _ m.keys_nodup).mpr
  · intro k
    by_cases hk : k ∈ order <;> simp [iterKeys, hk]
  · apply List.Nodup.append
    · exact (List.nodup_dedup order).filter _
    · exact m.keys_nodup.filter _
    · intro k h1 h2
      simp only [List.mem_filter, List.mem_dedup, decide_eq_true_eq] at h1 h2
      exact h2.2 h1.1

/-- The entries of a map in the iteration order given by `order`. -/
def iter (order : List κ) (m : HashMap κ ν) : List (κ × ν) :=
  (iterKeys order m).filterMap fun k => (m.lookup k).map (Prod.mk k)

lemma mem_iter {order : List κ} {m : HashMap κ ν} {k : κ} {v : ν} :
    (k, v) ∈ iter order m ↔ m.lookup k = some v := by
  simp only [iter, List.mem_filterMap, Option.map_eq_some_iff, Prod.mk.injEq]
  constructor
  · rintro ⟨k', -, v', hv', rfl, rfl⟩
    exact hv'
  · intro hv
    refine ⟨k, ?_, v, hv, rfl, rfl⟩
    rw [(iterKeys_perm order m).mem_iff]
    exact AList.lookup_isSome.mp (by simp [hv])

lemma map_fst_iter (order : List κ) (m : HashMap κ ν) :
    (iter order m).map Prod.fst = iterKeys order m := by
  have hsome : ∀ k ∈ iterKeys order m, ∃ v, m.lookup k = some v := by
    intro k hk
    rw [(iterKeys_perm order m).mem_iff] at hk
    exact Option.isSome_iff_exists.mp (AList.lookup_isSome.mpr hk)
  unfold iter
  generalize iterKeys order m = ks at hsome
  induction ks with
  | nil => rfl
  | cons k ks ih =>
    obtain ⟨v, hv⟩ := hsome k (by simp)
    simp only [List.filterMap_cons, hv, Option.map_some, List.map_cons,
      ih fun k' hk' => hsome k' (by simp [hk'])]

/-- Remove, in the given order of the keys, at most `n` entries with `p`. -/
def removeFirst (p : ν → Bool) : Nat → List κ → HashMap κ ν → HashMap κ ν
  | 0, _, m => m
  | _, [], m => m
  | n + 1, k :: ks, m =>
    match m.lookup k with
    | none => removeFirst p (n + 1) ks m
    | some v => if p v then removeFirst p n ks (m.erase k) else removeFirst p (n + 1) ks m

/-- What `removeFirst` does at a key: nothing, or it removes an entry with `p`. -/
lemma lookup_removeFirst (p : ν → Bool) (n : Nat) (ks : List κ) (m : HashMap κ ν) (k : κ) :
    (removeFirst p n ks m).lookup k = m.lookup k ∨
      ((removeFirst p n ks m).lookup k = none ∧ ∃ v, m.lookup k = some v ∧ p v) := by
  induction ks generalizing n m with
  | nil => cases n <;> simp [removeFirst]
  | cons k' ks ih =>
    cases n with
    | zero => simp [removeFirst]
    | succ n =>
      simp only [removeFirst]
      split
      · exact ih (n + 1) m
      · rename_i v hv
        split_ifs with hp
        · by_cases hk : k = k'
          · subst hk
            right
            refine ⟨?_, v, hv, hp⟩
            rcases ih n (m.erase k) with h | ⟨h, -⟩
            · rw [h, AList.lookup_erase]
            · exact h
          · have he : (m.erase k').lookup k = m.lookup k := AList.lookup_erase_ne hk
            have := ih n (m.erase k')
            rwa [he] at this
        · exact ih (n + 1) m

end HashMap
