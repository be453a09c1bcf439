import Mathlib.Data.List.Basic

/-!
# Prefix codes

An encoding is a prefix code on a set of values when the encoding of a value can be told from the
start of a sequence of symbols. Then a sequence of encodings determines the values, which is how
equal messages are shown to have equal fields.
-/

namespace PrefixCode

variable {α β γ σ : Type*}

/-- Among the values with `P`, the start of a sequence determines the value that it encodes. -/
def PrefixFree (P : α → Prop) (enc : α → List σ) : Prop :=
  ∀ x y, P x → P y → ∀ s t, enc x ++ s = enc y ++ t → x = y ∧ s = t

lemma PrefixFree.eq_of_eq {P : α → Prop} {enc : α → List σ} (h : PrefixFree P enc) {x y : α}
    (hx : P x) (hy : P y) (heq : enc x = enc y) : x = y :=
  (h x y hx hy [] [] (by rw [heq])).1

/-- One encoding after another. -/
lemma PrefixFree.append {P : α → Prop} {Q : β → Prop} {f : α → List σ} {g : β → List σ}
    (hf : PrefixFree P f) (hg : PrefixFree Q g) :
    PrefixFree (fun p : α × β => P p.1 ∧ Q p.2) fun p => f p.1 ++ g p.2 := by
  rintro ⟨a, b⟩ ⟨a', b'⟩ ⟨ha, hb⟩ ⟨ha', hb'⟩ s t heq
  simp only [List.append_assoc] at heq
  obtain ⟨rfl, hsecond⟩ := hf a a' ha ha' _ _ heq
  obtain ⟨rfl, hrest⟩ := hg b b' hb hb' _ _ hsecond
  exact ⟨rfl, hrest⟩

/-- The encoding of a value by that of its parts. -/
lemma PrefixFree.comp {P : α → Prop} {enc : α → List σ} (h : PrefixFree P enc) {f : γ → α}
    (hf : Function.Injective f) : PrefixFree (fun c => P (f c)) fun c => enc (f c) := by
  intro x y hx hy s t heq
  obtain ⟨hxy, hrest⟩ := h (f x) (f y) hx hy s t heq
  exact ⟨hf hxy, hrest⟩

section FlatMap

variable {P : α → Prop} {enc : α → List σ}

/-- A sequence of encodings whose number is known. -/
lemma PrefixFree.flatMap (h : PrefixFree P enc) {xs ys : List α} (hlen : xs.length = ys.length)
    (hxs : ∀ x ∈ xs, P x) (hys : ∀ y ∈ ys, P y) {s t : List σ}
    (heq : xs.flatMap enc ++ s = ys.flatMap enc ++ t) : xs = ys ∧ s = t := by
  induction xs generalizing ys with
  | nil =>
    obtain rfl := List.eq_nil_of_length_eq_zero hlen.symm
    exact ⟨rfl, heq⟩
  | cons x xs ih =>
    cases ys with
    | nil => simp at hlen
    | cons y ys =>
      simp only [List.flatMap_cons, List.append_assoc] at heq
      obtain ⟨rfl, htail⟩ := h x y (hxs x List.mem_cons_self) (hys y List.mem_cons_self) _ _ heq
      obtain ⟨rfl, hrest⟩ := ih (Nat.succ.inj hlen)
        (fun z hz => hxs z (List.mem_cons_of_mem x hz))
        (fun z hz => hys z (List.mem_cons_of_mem x hz)) htail
      exact ⟨rfl, hrest⟩

/-- A sequence of encodings up to the end, none of which is empty. -/
lemma PrefixFree.flatMap_injective (h : PrefixFree P enc) (hne : ∀ x, enc x ≠ [])
    {xs ys : List α} (hxs : ∀ x ∈ xs, P x) (hys : ∀ y ∈ ys, P y)
    (heq : xs.flatMap enc = ys.flatMap enc) : xs = ys := by
  induction xs generalizing ys with
  | nil =>
    cases ys with
    | nil => rfl
    | cons y ys => simp [hne y] at heq
  | cons x xs ih =>
    cases ys with
    | nil => simp [hne x] at heq
    | cons y ys =>
      simp only [List.flatMap_cons] at heq
      obtain ⟨rfl, htail⟩ := h x y (hxs x List.mem_cons_self) (hys y List.mem_cons_self) _ _ heq
      rw [ih (fun z hz => hxs z (List.mem_cons_of_mem x hz))
        (fun z hz => hys z (List.mem_cons_of_mem x hz)) htail]

/-- The same for one part of each value. -/
lemma PrefixFree.map_eq_of_flatMap (h : PrefixFree P enc) (hne : ∀ x, enc x ≠ []) {f : γ → α}
    {xs ys : List γ} (hxs : ∀ x ∈ xs, P (f x)) (hys : ∀ y ∈ ys, P (f y))
    (heq : (xs.flatMap fun x => enc (f x)) = ys.flatMap fun y => enc (f y)) :
    xs.map f = ys.map f := by
  refine h.flatMap_injective hne ?_ ?_ ?_
  · simpa using hxs
  · simpa using hys
  · rw [List.flatMap_map, List.flatMap_map]
    exact heq

end FlatMap

end PrefixCode
