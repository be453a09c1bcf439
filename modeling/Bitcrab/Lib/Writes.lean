import Mathlib.Algebra.BigOperators.Finprod
import Mathlib.Algebra.BigOperators.Group.List.Basic
import Mathlib.Data.List.Basic
import Mathlib.Logic.Function.Basic

/-!
# Writes to a finite map

A map with optional values under a list of writes, each of which sets or removes the value at one
key: what the map holds at a key after a list of writes, how writes are reverted, and how the total
weight of the values changes.
-/

namespace Writes

variable {κ ν : Type*} [DecidableEq κ]

/-- The map after a list of writes. -/
def apply (m : κ → Option ν) (ws : List (κ × Option ν)) : κ → Option ν :=
  ws.foldl (fun m w => Function.update m w.1 w.2) m

@[simp] lemma apply_nil (m : κ → Option ν) : apply m [] = m := rfl

@[simp] lemma apply_cons (m : κ → Option ν) (w : κ × Option ν) (ws : List (κ × Option ν)) :
    apply m (w :: ws) = apply (Function.update m w.1 w.2) ws := rfl

lemma apply_append (m : κ → Option ν) (ws ws' : List (κ × Option ν)) :
    apply m (ws ++ ws') = apply (apply m ws) ws' :=
  List.foldl_append

/-- The values written to a key, in order. -/
def valuesAt (ws : List (κ × Option ν)) (k : κ) : List (Option ν) :=
  ws.filterMap fun w => if w.1 = k then some w.2 else none

@[simp] lemma valuesAt_nil (k : κ) : valuesAt ([] : List (κ × Option ν)) k = [] := rfl

lemma valuesAt_cons (w : κ × Option ν) (ws : List (κ × Option ν)) (k : κ) :
    valuesAt (w :: ws) k = if w.1 = k then w.2 :: valuesAt ws k else valuesAt ws k := by
  by_cases h : w.1 = k <;> simp [valuesAt, h]

/-- The last write to a key counts. -/
lemma apply_eq_getLast? (m : κ → Option ν) (ws : List (κ × Option ν)) (k : κ) :
    apply m ws k = (valuesAt ws k).getLast?.getD (m k) := by
  induction ws generalizing m with
  | nil => rfl
  | cons w ws ih =>
    rw [apply_cons, ih, valuesAt_cons]
    by_cases h : w.1 = k
    · subst h
      rw [if_pos rfl, List.getLast?_cons, Function.update_self, Option.getD_some]
    · rw [if_neg h, Function.update_of_ne (Ne.symm h)]

/-- If all writes to a key agree, the map holds their value there. -/
lemma apply_eq_of_forall {m : κ → Option ν} {ws : List (κ × Option ν)} {k : κ} {v : Option ν}
    (hmem : k ∈ ws.map Prod.fst ∨ m k = v) (hall : ∀ w ∈ ws, w.1 = k → w.2 = v) :
    apply m ws k = v := by
  induction ws generalizing m with
  | nil => simpa using hmem
  | cons w ws ih =>
    rw [apply_cons]
    apply ih
    · by_cases hk : w.1 = k
      · right
        rw [Function.update_apply, if_pos hk.symm]
        exact hall w List.mem_cons_self hk
      · rw [Function.update_of_ne (Ne.symm hk)]
        simpa [Ne.symm hk] using hmem
    · intro w' hw'
      exact hall w' (List.mem_cons_of_mem _ hw')

lemma apply_of_notMem {m : κ → Option ν} {ws : List (κ × Option ν)} {k : κ}
    (h : k ∉ ws.map Prod.fst) : apply m ws k = m k := by
  apply apply_eq_of_forall (.inr rfl)
  rintro w hw rfl
  exact absurd (List.mem_map_of_mem hw) h

/-- What the map holds at a key was there before, or was written. -/
lemma apply_eq_or_mem (m : κ → Option ν) (ws : List (κ × Option ν)) (k : κ) :
    apply m ws k = m k ∧ k ∉ ws.map Prod.fst ∨ (k, apply m ws k) ∈ ws := by
  induction ws generalizing m with
  | nil => simp
  | cons w ws ih =>
    rcases ih (Function.update m w.1 w.2) with ⟨heq, hnot⟩ | hmem
    · by_cases hk : k = w.1
      · right
        rw [apply_cons, heq, hk, Function.update_self]
        exact List.mem_cons_self
      · left
        rw [Function.update_of_ne hk] at heq
        exact ⟨heq, by simp [hk, hnot]⟩
    · exact .inr (List.mem_cons_of_mem _ hmem)

/-- A key that holds a value held it before, or a write gave it that value. -/
lemma apply_eq_some {m : κ → Option ν} {ws : List (κ × Option ν)} {k : κ} {v : ν}
    (h : apply m ws k = some v) : m k = some v ∨ (k, some v) ∈ ws := by
  rcases apply_eq_or_mem m ws k with ⟨heq, -⟩ | hmem
  · exact .inl (heq.symm.trans h)
  · rw [h] at hmem
    exact .inr hmem

/-- What the map holds at a key depends on what it held there. -/
lemma apply_congr {m m' : κ → Option ν} {k : κ} (ws : List (κ × Option ν)) (h : m k = m' k) :
    apply m ws k = apply m' ws k := by
  rw [apply_eq_getLast?, apply_eq_getLast?, h]

/-- Writes to different keys can be exchanged. -/
lemma apply_comm {m : κ → Option ν} {ws ws' : List (κ × Option ν)}
    (h : ∀ k ∈ ws.map Prod.fst, k ∉ ws'.map Prod.fst) :
    apply (apply m ws) ws' = apply (apply m ws') ws := by
  funext k
  by_cases hk : k ∈ ws.map Prod.fst
  · rw [apply_of_notMem (h k hk)]
    exact apply_congr ws (apply_of_notMem (h k hk)).symm
  · exact (apply_congr ws' (apply_of_notMem hk)).trans (apply_of_notMem hk).symm

/-! ### Reverting -/

/-- The writes that remove keys. -/
def removals (ks : List κ) : List (κ × Option ν) := ks.map fun k => (k, none)

/-- The writes that set values. -/
def additions (kvs : List (κ × ν)) : List (κ × Option ν) := kvs.map fun kv => (kv.1, some kv.2)

omit [DecidableEq κ] in
@[simp] lemma map_fst_removals (ks : List κ) :
    (removals ks : List (κ × Option ν)).map Prod.fst = ks := by
  simp [removals, Function.comp_def]

omit [DecidableEq κ] in
@[simp] lemma map_fst_additions (kvs : List (κ × ν)) :
    (additions kvs).map Prod.fst = kvs.map Prod.fst := by
  simp [additions, Function.comp_def]

/-- Keys are removed and values added at other keys. Removing the added keys and adding what was
removed restores the map. -/
lemma apply_revert {m : κ → Option ν} {ks : List κ} {vs : List ν} {kvs : List (κ × ν)}
    (hvs : List.Forall₂ (fun k v => m k = some v) ks vs)
    (hnew : ∀ k ∈ kvs.map Prod.fst, m k = none) :
    apply (apply m (removals ks ++ additions kvs))
      (removals (kvs.map Prod.fst) ++ additions (ks.zip vs)) = m := by
  have hzip : ∀ {k v}, (k, v) ∈ ks.zip vs → m k = some v := (List.forall₂_iff_zip.mp hvs).2
  have hkeys : (ks.zip vs).map Prod.fst = ks :=
    List.map_fst_zip hvs.length_eq.le
  funext k
  rw [apply_append]
  apply apply_eq_of_forall
  · rw [map_fst_additions, hkeys]
    by_cases hk : k ∈ ks
    · exact .inl hk
    · right
      by_cases hnewk : k ∈ kvs.map Prod.fst
      · rw [hnew k hnewk]
        apply apply_eq_of_forall (by simpa using Or.inl hnewk)
        rintro w hw -
        obtain ⟨k', -, rfl⟩ := List.mem_map.mp hw
        rfl
      · rw [apply_of_notMem (by simpa using hnewk), apply_of_notMem (by simp_all)]
  · rintro w hw rfl
    obtain ⟨kv, hkv, rfl⟩ := List.mem_map.mp hw
    exact (hzip hkv).symm

/-- The values at the keys that are removed, each as the map holds it when it is removed. -/
def removed (m : κ → Option ν) : List (κ × Option ν) → List (Option ν)
  | [] => []
  | (k, none) :: ws => m k :: removed (Function.update m k none) ws
  | (k, some v) :: ws => removed (Function.update m k (some v)) ws

lemma removed_append (m : κ → Option ν) (ws ws' : List (κ × Option ν)) :
    removed m (ws ++ ws') = removed m ws ++ removed (apply m ws) ws' := by
  induction ws generalizing m with
  | nil => rfl
  | cons w ws ih =>
    obtain ⟨k, v⟩ := w
    cases v with
    | none => exact congrArg (m k :: ·) (ih _)
    | some v => exact ih _

@[simp] lemma removed_additions (m : κ → Option ν) (kvs : List (κ × ν)) :
    removed m (additions kvs) = [] := by
  induction kvs generalizing m with
  | nil => rfl
  | cons kv kvs ih => exact ih _

/-- Distinct keys are removed with the values they had at the start. -/
lemma removed_removals {m : κ → Option ν} {ks : List κ} (hks : ks.Nodup) :
    removed m (removals ks) = ks.map m := by
  induction ks generalizing m with
  | nil => rfl
  | cons k ks ih =>
    obtain ⟨hk, hks⟩ := List.nodup_cons.mp hks
    have hsame : ks.map (Function.update m k none) = ks.map m := by
      apply List.map_congr_left
      intro k' hk'
      rw [Function.update_of_ne (by rintro rfl; exact hk hk')]
    rw [List.map_cons, ← hsame]
    exact congrArg (m k :: ·) (ih hks)

/-! ### Weight -/

/-- The weight of an optional value. -/
def weight (f : ν → ℕ) (v : Option ν) : ℕ := v.elim 0 f

/-- The total weight of the values of a map. -/
noncomputable def total (f : ν → ℕ) (m : κ → Option ν) : ℕ := ∑ᶠ k, weight f (m k)

/-- The values that the writes replace, each as the map holds it when it is replaced. -/
def displaced (m : κ → Option ν) : List (κ × Option ν) → List (Option ν)
  | [] => []
  | w :: ws => m w.1 :: displaced (Function.update m w.1 w.2) ws

lemma displaced_append (m : κ → Option ν) (ws ws' : List (κ × Option ν)) :
    displaced m (ws ++ ws') = displaced m ws ++ displaced (apply m ws) ws' := by
  induction ws generalizing m with
  | nil => rfl
  | cons w ws ih => simp [displaced, ih]

/-- Distinct keys are removed with the values they had at the start. -/
lemma displaced_removals {m : κ → Option ν} {ks : List κ} (hks : ks.Nodup) :
    displaced m (removals ks) = ks.map m := by
  have hsame : ∀ (m : κ → Option ν) (ks : List κ),
      displaced m (removals ks) = removed m (removals ks) := by
    intro m ks
    induction ks generalizing m with
    | nil => rfl
    | cons k ks ih => exact congrArg (m k :: ·) (ih _)
  rw [hsame, removed_removals hks]

/-- Values added at distinct new keys replace nothing. -/
lemma weight_displaced_additions (f : ν → ℕ) (m : κ → Option ν) (kvs : List (κ × ν))
    (hkvs : (kvs.map Prod.fst).Nodup) (hnew : ∀ k ∈ kvs.map Prod.fst, m k = none) :
    ((displaced m (additions kvs)).map (weight f)).sum = 0 := by
  induction kvs generalizing m with
  | nil => rfl
  | cons kv kvs ih =>
    rw [List.map_cons, List.nodup_cons] at hkvs
    have hhead := hnew kv.1 List.mem_cons_self
    have htail := ih (Function.update m kv.1 (some kv.2)) hkvs.2 (by
      intro k hk
      rw [Function.update_of_ne (by rintro rfl; exact hkvs.1 hk)]
      exact hnew k (List.mem_cons_of_mem _ hk))
    simp only [additions, List.map_cons, displaced, List.sum_cons, hhead] at htail ⊢
    rw [htail]
    rfl

section Total

variable [Finite κ] (f : ν → ℕ)

lemma total_update (m : κ → Option ν) (k : κ) (v : Option ν) :
    total f (Function.update m k v) + weight f (m k) = total f m + weight f v := by
  have hsplit : ∀ m' : κ → Option ν,
      total f m' = weight f (m' k) + ∑ᶠ (j) (_ : j ∈ ({k}ᶜ : Set κ)), weight f (m' j) := by
    intro m'
    have hunion := finsum_mem_union' (f := fun j => weight f (m' j)) (s := {k}) (t := {k}ᶜ)
      disjoint_compl_right (Set.toFinite _) (Set.toFinite _)
    rw [Set.union_compl_self, finsum_mem_univ, finsum_mem_singleton] at hunion
    exact hunion
  have hrest : ∑ᶠ (j) (_ : j ∈ ({k}ᶜ : Set κ)), weight f (Function.update m k v j) =
      ∑ᶠ (j) (_ : j ∈ ({k}ᶜ : Set κ)), weight f (m j) := by
    apply finsum_mem_congr rfl
    intro j hj
    rw [Function.update_of_ne (by simpa using hj)]
  rw [hsplit (Function.update m k v), hsplit m, hrest, Function.update_self]
  omega

/-- The total changes by what is written and what is replaced. -/
lemma total_apply (m : κ → Option ν) (ws : List (κ × Option ν)) :
    total f (apply m ws) + ((displaced m ws).map (weight f)).sum =
      total f m + (ws.map fun w => weight f w.2).sum := by
  induction ws generalizing m with
  | nil => simp [displaced]
  | cons w ws ih =>
    have hhead := total_update f m w.1 w.2
    have htail := ih (Function.update m w.1 w.2)
    simp only [apply_cons, displaced, List.map_cons, List.sum_cons]
    omega

omit [DecidableEq κ] in
/-- The total of a map that differs from another where the other has nothing. -/
lemma total_eq_add {m m' : κ → Option ν} {p : κ → Prop} [DecidablePred p] {v : κ → Option ν}
    (hin : ∀ k, p k → m' k = v k ∧ m k = none) (hout : ∀ k, ¬ p k → m' k = m k) :
    total f m' = total f m + ∑ᶠ k, if p k then weight f (v k) else 0 := by
  rw [total, total, ← finsum_add_distrib (Set.toFinite _) (Set.toFinite _)]
  apply finsum_congr
  intro k
  by_cases hk : p k
  · rw [(hin k hk).1, (hin k hk).2, if_pos hk]
    exact (Nat.zero_add _).symm
  · rw [hout k hk, if_neg hk, Nat.add_zero]

end Total

end Writes
