import Mathlib.Data.Finset.Insert
import Mathlib.Data.List.Sublists

/-!
# Lists without repetition, and their set of entries

A loop that offers candidates and keeps each the first time has a list and a set of what it has
kept. `DistinctList` has both, and the proof that they agree.
-/

/-- A list without repetition, with the set of its entries. -/
structure DistinctList (α : Type) [DecidableEq α] where
  entries : List α
  seen : Finset α
  mem_seen : ∀ a, a ∈ seen ↔ a ∈ entries
  nodup : entries.Nodup

namespace DistinctList

variable {α β : Type} [DecidableEq α]

/-- The empty list. -/
def empty : DistinctList α := ⟨[], ∅, by simp, List.nodup_nil⟩

/-- Append an entry that is not there yet. -/
def push (l : DistinctList α) (a : α) : DistinctList α :=
  if h : a ∈ l.seen then l
  else
    { entries := l.entries ++ [a]
      seen := insert a l.seen
      mem_seen := by
        intro b
        rw [Finset.mem_insert, l.mem_seen, List.mem_append, List.mem_singleton, or_comm]
      nodup := by
        rw [l.mem_seen] at h
        rw [← List.concat_eq_append]
        exact l.nodup.concat h }

@[simp] lemma entries_empty : (empty : DistinctList α).entries = [] := rfl

lemma push_of_mem {l : DistinctList α} {a : α} (h : a ∈ l.entries) : l.push a = l :=
  dif_pos ((l.mem_seen a).mpr h)

lemma entries_push_of_notMem {l : DistinctList α} {a : α} (h : a ∉ l.entries) :
    (l.push a).entries = l.entries ++ [a] := by
  rw [push, dif_neg (fun hseen => h ((l.mem_seen a).mp hseen))]

@[simp] lemma mem_push {l : DistinctList α} {a b : α} :
    b ∈ (l.push a).entries ↔ b ∈ l.entries ∨ b = a := by
  by_cases h : a ∈ l.entries
  · rw [push_of_mem h]
    exact ⟨.inl, fun hor => hor.elim id fun hb => hb ▸ h⟩
  · rw [entries_push_of_notMem h, List.mem_append, List.mem_singleton]

/-! ### Candidates in turn -/

/-- Push what `f` finds at each of the keys. -/
def collect (f : β → Option α) (l : DistinctList α) (keys : List β) : DistinctList α :=
  keys.foldl (fun l key => match f key with
    | some a => l.push a
    | none => l) l

section Collect

variable {f : β → Option α} {l : DistinctList α} {keys : List β}

@[simp] lemma collect_nil : l.collect f [] = l := rfl

lemma collect_cons_some {key : β} {a : α} (h : f key = some a) :
    l.collect f (key :: keys) = (l.push a).collect f keys := by
  rw [collect, List.foldl_cons, h, collect]

lemma collect_cons_none {key : β} (h : f key = none) :
    l.collect f (key :: keys) = l.collect f keys := by
  rw [collect, List.foldl_cons, h, collect]

lemma collect_append (keys' : List β) :
    l.collect f (keys ++ keys') = (l.collect f keys).collect f keys' :=
  List.foldl_append

lemma mem_collect {a : α} :
    a ∈ (l.collect f keys).entries ↔ a ∈ l.entries ∨ ∃ key ∈ keys, f key = some a := by
  induction keys generalizing l with
  | nil => simp
  | cons key keys ih =>
    cases hkey : f key with
    | none =>
      rw [collect_cons_none hkey, ih]
      simp [hkey]
    | some b =>
      rw [collect_cons_some hkey, ih, mem_push, or_assoc]
      simp [hkey, eq_comm]

/-- Candidates that are there already change nothing. -/
lemma collect_of_forall_mem (h : ∀ key ∈ keys, ∀ a, f key = some a → a ∈ l.entries) :
    l.collect f keys = l := by
  induction keys with
  | nil => rfl
  | cons key keys ih =>
    obtain ⟨hkey, hkeys⟩ := List.forall_mem_cons.mp h
    cases hfound : f key with
    | none => rw [collect_cons_none hfound, ih hkeys]
    | some a => rw [collect_cons_some hfound, push_of_mem (hkey a hfound), ih hkeys]

/-- The entries that are added are those found at some of the keys, in the order of the keys. -/
lemma exists_sublist_collect (l : DistinctList α) (f : β → Option α) (keys : List β) :
    ∃ (added : List α) (found : List β), (l.collect f keys).entries = l.entries ++ added ∧
      found.Sublist keys ∧ added.map some = found.map f := by
  induction keys generalizing l with
  | nil => exact ⟨[], [], by simp, List.Sublist.refl [], rfl⟩
  | cons key keys ih =>
    cases hkey : f key with
    | none =>
      obtain ⟨added, found, hentries, hsub, hmap⟩ := ih l
      exact ⟨added, found, by rw [collect_cons_none hkey, hentries], hsub.cons key, hmap⟩
    | some a =>
      obtain ⟨added, found, hentries, hsub, hmap⟩ := ih (l.push a)
      rw [collect_cons_some hkey, hentries]
      by_cases hmem : a ∈ l.entries
      · exact ⟨added, found, by rw [push_of_mem hmem], hsub.cons key, hmap⟩
      · refine ⟨a :: added, key :: found, ?_, hsub.cons_cons key, by simp [hmap, hkey]⟩
        rw [entries_push_of_notMem hmem, List.append_assoc, List.singleton_append]

lemma length_collect_le (l : DistinctList α) (f : β → Option α) (keys : List β) :
    (l.collect f keys).entries.length ≤ l.entries.length + keys.length := by
  obtain ⟨added, found, hentries, hsub, hmap⟩ := exists_sublist_collect l f keys
  have hlength : added.length = found.length := by
    simpa using congrArg List.length hmap
  rw [hentries, List.length_append, hlength]
  exact Nat.add_le_add_left hsub.length_le _

lemma collect_congr {g : β → Option α} (h : ∀ key ∈ keys, f key = g key) :
    l.collect f keys = l.collect g keys := by
  induction keys generalizing l with
  | nil => rfl
  | cons key keys ih =>
    obtain ⟨hkey, hkeys⟩ := List.forall_mem_cons.mp h
    cases hfound : f key with
    | none => rw [collect_cons_none hfound, collect_cons_none (hkey ▸ hfound), ih hkeys]
    | some a => rw [collect_cons_some hfound, collect_cons_some (hkey ▸ hfound), ih hkeys]

/-- If different keys have different candidates, every candidate is added. -/
lemma entries_collect (hinj : ∀ key ∈ keys, ∀ key' ∈ keys, ∀ a, f key = some a →
    f key' = some a → key = key') (hkeys : keys.Nodup)
    (hnew : ∀ key ∈ keys, ∀ a, f key = some a → a ∉ l.entries) :
    (l.collect f keys).entries = l.entries ++ keys.filterMap f := by
  induction keys generalizing l with
  | nil => simp
  | cons key keys ih =>
    obtain ⟨hnotMem, hkeys⟩ := List.nodup_cons.mp hkeys
    have hinj' : ∀ key ∈ keys, ∀ key' ∈ keys, ∀ a, f key = some a → f key' = some a → key = key' :=
      fun k hk k' hk' => hinj k (List.mem_cons_of_mem _ hk) k' (List.mem_cons_of_mem _ hk')
    cases hfound : f key with
    | none =>
      rw [collect_cons_none hfound, List.filterMap_cons_none hfound,
        ih hinj' hkeys fun k hk => hnew k (List.mem_cons_of_mem _ hk)]
    | some a =>
      have ha := hnew key List.mem_cons_self a hfound
      rw [collect_cons_some hfound, List.filterMap_cons_some hfound, ih hinj' hkeys,
        entries_push_of_notMem ha, List.append_assoc, List.singleton_append]
      intro k hk b hb hmem
      rcases mem_push.mp hmem with hmem | rfl
      · exact hnew k (List.mem_cons_of_mem _ hk) b hb hmem
      · have hsame := hinj k (List.mem_cons_of_mem _ hk) key List.mem_cons_self b hb hfound
        exact hnotMem (hsame ▸ hk)

end Collect

end DistinctList
