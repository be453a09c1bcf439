import Mathlib.Data.List.Basic

/-!
# Folding a list by combining neighbours

One level replaces a list by the combinations of its neighbours, after repeating the last element
of a list of odd length; levels are iterated until one element is left. This is the shape of
merkle trees that have no padding leaf.

`reduce_injective` is the only injectivity such a fold has: lists of the same length are
determined by their root as soon as the combination is injective on the pairs that occur.
-/

namespace PairFold

variable {α : Type*} (f : α → α → α)

/-- Repeat the last element of a list of odd length. -/
def pad (l : List α) : List α :=
  if l.length % 2 ≠ 0 then l ++ l.getLast?.toList else l

/-- The consecutive pairs of a list. -/
def pairs : List α → List (α × α)
  | a :: b :: l => (a, b) :: pairs l
  | _ => []

/-- One level of the fold. -/
def level (l : List α) : List α := (pairs (pad l)).map fun p => f p.1 p.2

/-- At most `n` levels of the fold. -/
def reduce : Nat → List α → List α
  | 0, l => l
  | n + 1, l => if l.length > 1 then reduce n (level f l) else l

/-- All pairs that `reduce` combines. -/
def inputs : Nat → List α → List (α × α)
  | 0, _ => []
  | n + 1, l => if l.length > 1 then pairs (pad l) ++ inputs n (level f l) else []

/-- The root of a list; `d` for the empty one. -/
def root (d : α) (l : List α) : α := (reduce f l.length l).headD d

lemma length_pairs (l : List α) : (pairs l).length = l.length / 2 := by
  induction l using pairs.induct with
  | case1 a b l ih =>
    simp only [pairs, List.length_cons, ih]
    omega
  | case2 l h =>
    match l with
    | [] => simp [pairs]
    | [_] => simp [pairs]
    | a :: b :: l => exact absurd rfl (h a b l)

lemma length_pad (l : List α) : (pad l).length = l.length + l.length % 2 := by
  unfold pad
  split_ifs with h
  · have hl : l ≠ [] := by
      rintro rfl
      simp at h
    simp only [List.getLast?_eq_some_getLast hl, Option.toList_some, List.length_append,
      List.length_singleton]
    omega
  · omega

@[simp] lemma length_level (l : List α) : (level f l).length = (l.length + 1) / 2 := by
  simp only [level, List.length_map, length_pairs, length_pad]
  omega

/-- Enough levels leave a single element. -/
lemma length_reduce {n : Nat} {l : List α} (hl : l ≠ []) (hn : l.length ≤ n + 1) :
    (reduce f n l).length = 1 := by
  have hpos : 0 < l.length := List.length_pos_iff.mpr hl
  induction n generalizing l with
  | zero =>
    simp only [reduce]
    omega
  | succ n ih =>
    simp only [reduce]
    split_ifs with h
    · have hlen := length_level f l
      have hne : level f l ≠ [] := by
        intro he
        simp only [he, List.length_nil] at hlen
        omega
      exact ih hne (by omega) (List.length_pos_iff.mpr hne)
    · omega

/-! ### The recursive definition -/

/-- Neighbours combined, and a last element that has none with itself. -/
def combine : List α → List α
  | a :: b :: l => f a b :: combine l
  | [a] => [f a a]
  | [] => []

lemma length_combine (l : List α) : (combine f l).length = (l.length + 1) / 2 := by
  induction l using combine.induct with
  | case1 a b l ih =>
    simp only [combine, List.length_cons, ih]
    omega
  | case2 a => simp [combine]
  | case3 => simp [combine]

/-- The root of a list; `d` for the empty one. -/
def tree (d : α) : List α → α
  | [] => d
  | [a] => a
  | a :: b :: l => tree d (combine f (a :: b :: l))
termination_by l => l.length
decreasing_by
  rw [length_combine]
  simp only [List.length_cons]
  omega

lemma tree_combine {d : α} {l : List α} (h : 1 < l.length) :
    tree f d (combine f l) = tree f d l := by
  match l with
  | [] => simp at h
  | [_] => simp at h
  | a :: b :: l => rw [← tree]

lemma level_eq_combine (l : List α) : level f l = combine f l := by
  induction l using combine.induct with
  | case1 a b l ih =>
    have hpad : pad (a :: b :: l) = a :: b :: pad l := by
      have hlength : (a :: b :: l).length % 2 = l.length % 2 := by
        simp only [List.length_cons]
        omega
      rw [pad, pad, hlength]
      cases l with
      | nil => rfl
      | cons c l => split_ifs <;> rfl
    rw [combine, ← ih, level, level, hpad, pairs, List.map_cons]
  | case2 a => rfl
  | case3 => rfl

/-- The levels lead to the root of the recursive definition. -/
theorem root_eq_tree (d : α) (l : List α) : root f d l = tree f d l := by
  have hreduce : ∀ n l, l.length ≤ n + 1 → (reduce f n l).headD d = tree f d l := by
    intro n
    induction n with
    | zero =>
      intro l hl
      match l with
      | [] => simp [reduce, tree]
      | [a] => simp [reduce, tree]
      | a :: b :: l => simp at hl
    | succ n ih =>
      intro l hl
      rw [reduce]
      split_ifs with hgt
      · rw [ih _ (by rw [length_level]; omega), level_eq_combine, tree_combine f hgt]
      · match l with
        | [] => simp [tree]
        | [a] => simp [tree]
        | a :: b :: l => simp at hgt
  exact hreduce _ l (Nat.le_succ _)

/-! ### Injectivity -/

/-- The pairs of a list of even length determine it. -/
lemma pairs_injective {l l' : List α} (hl : l.length % 2 = 0) (hl' : l'.length % 2 = 0)
    (h : pairs l = pairs l') : l = l' := by
  induction l using pairs.induct generalizing l' with
  | case1 a b l ih =>
    match l' with
    | [] => simp [pairs] at h
    | [_] => simp at hl'
    | a' :: b' :: l' =>
      simp only [pairs, List.cons.injEq, Prod.mk.injEq] at h
      simp only [List.length_cons] at hl hl'
      rw [h.1.1, h.1.2, ih (by omega) (by omega) h.2]
  | case2 l hcase =>
    match l with
    | [_] => simp at hl
    | a :: b :: l => exact absurd rfl (hcase a b l)
    | [] =>
      match l' with
      | [] => rfl
      | [_] => simp at hl'
      | a' :: b' :: l' => simp [pairs] at h

lemma pad_injective {l l' : List α} (hlen : l.length = l'.length) (h : pad l = pad l') :
    l = l' := by
  unfold pad at h
  rw [hlen] at h
  split_ifs at h with hodd
  · exact (List.append_inj h hlen).1
  · exact h

/-- Equal levels come from equal pairs when the combination is injective on them. -/
lemma map_pairs_injective {ps qs : List (α × α)}
    (hinj : ∀ p ∈ ps, ∀ q ∈ qs, f p.1 p.2 = f q.1 q.2 → p = q)
    (h : ps.map (fun p => f p.1 p.2) = qs.map (fun p => f p.1 p.2)) : ps = qs := by
  induction ps generalizing qs with
  | nil => simpa using h.symm
  | cons p ps ih =>
    cases qs with
    | nil => simp at h
    | cons q qs =>
      simp only [List.map_cons, List.cons.injEq] at h
      have hpq := hinj p (by simp) q (by simp) h.1
      have hrest := ih (fun p' hp' q' hq' => hinj p' (by simp [hp']) q' (by simp [hq'])) h.2
      rw [hpq, hrest]

/-- Lists of the same length with the same fold are equal, if the combination is injective on the
pairs combined for them. -/
theorem reduce_injective {n : Nat} {l l' : List α} (hlen : l.length = l'.length)
    (hinj : ∀ p ∈ inputs f n l, ∀ q ∈ inputs f n l', f p.1 p.2 = f q.1 q.2 → p = q)
    (h : reduce f n l = reduce f n l') : l = l' := by
  induction n generalizing l l' with
  | zero => exact h
  | succ n ih =>
    simp only [reduce, inputs, ← hlen] at h hinj
    split_ifs at h hinj with hgt
    · -- the levels agree by induction, so the pairs agree, so the padded lists agree
      have hlevel : level f l = level f l' := by
        apply ih (by simp [hlen]) _ h
        intro p hp q hq
        exact hinj p (by simp [hp]) q (by simp [hq])
      have hpairs : pairs (pad l) = pairs (pad l') := by
        apply map_pairs_injective f _ hlevel
        intro p hp q hq
        exact hinj p (by simp [hp]) q (by simp [hq])
      have heven : ∀ m : List α, (pad m).length % 2 = 0 := by
        intro m
        rw [length_pad]
        omega
      exact pad_injective hlen (pairs_injective (heven l) (heven l') hpairs)
    · exact h

end PairFold
