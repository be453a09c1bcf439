import Bitcrab.Lib.Result
import Mathlib.Data.List.Forall2
import Mathlib.Data.List.NodupEquivFin

/-!
# Ordered matching by a greedy scan

`as` matches in `bs` when every element of `as` can be given an element of `bs` that is related to
it, in the order of both lists: `List.SublistForall₂`. A greedy scan decides it. It takes one
element of `bs` in each round and gives up as soon as fewer elements are left in `bs` than in `as`.

A round may also fail, and then the scan fails. Which rounds there are does not depend on the scan:
`Reached` says it by matchings of the prefixes of both lists.
-/

namespace OrderedMatching

open List

variable {ε α β : Type} {R : α → β → Prop}

/-! ### Matchings -/

lemma sublistForall₂_length_le {as : List α} {bs : List β} (h : SublistForall₂ R as bs) :
    as.length ≤ bs.length := by
  obtain ⟨cs, hcs, hsub⟩ := sublistForall₂_iff.mp h
  rw [hcs.length_eq]
  exact hsub.length_le

lemma sublistForall₂_nil_right {as : List α} : SublistForall₂ R as ([] : List β) ↔ as = [] := by
  constructor
  · intro h
    exact List.eq_nil_of_length_eq_zero (Nat.le_zero.mp (sublistForall₂_length_le h))
  · rintro rfl
    exact .nil

/-- A match in fewer elements is a match in more of them. -/
lemma sublistForall₂_mono {as : List α} {bs cs : List β} (h : SublistForall₂ R as bs)
    (hsub : bs <+ cs) : SublistForall₂ R as cs := by
  obtain ⟨ds, hds, hle⟩ := sublistForall₂_iff.mp h
  exact sublistForall₂_iff.mpr ⟨ds, hds, hle.trans hsub⟩

/-- Every element of a list that matches is related to some element. -/
lemma sublistForall₂_mem {as : List α} {bs : List β} (h : SublistForall₂ R as bs) {a : α}
    (ha : a ∈ as) : ∃ b ∈ bs, R a b := by
  induction h with
  | nil => simp at ha
  | cons hr _ ih =>
    obtain rfl | ha := List.mem_cons.mp ha
    · exact ⟨_, List.mem_cons_self, hr⟩
    · obtain ⟨b, hb, hab⟩ := ih ha
      exact ⟨b, List.mem_cons_of_mem _ hb, hab⟩
  | cons_right _ ih =>
    obtain ⟨b, hb, hab⟩ := ih ha
    exact ⟨b, List.mem_cons_of_mem _ hb, hab⟩

/-- The first element may as well take the first element it is related to. -/
lemma sublistForall₂_cons_of_rel {a : α} {as : List α} {b : β} {bs : List β} (hab : R a b) :
    SublistForall₂ R (a :: as) (b :: bs) ↔ SublistForall₂ R as bs := by
  constructor
  · intro h
    cases h with
    | cons _ h => exact h
    | cons_right h =>
      obtain ⟨cs, hcs, hsub⟩ := sublistForall₂_iff.mp h
      obtain ⟨c, cs', _, hcs', rfl⟩ := forall₂_cons_left_iff.mp hcs
      exact sublistForall₂_iff.mpr ⟨cs', hcs', (List.sublist_cons_self c cs').trans hsub⟩
  · intro h
    exact .cons hab h

lemma sublistForall₂_cons_of_not_rel {a : α} {as : List α} {b : β} {bs : List β}
    (hab : ¬ R a b) : SublistForall₂ R (a :: as) (b :: bs) ↔ SublistForall₂ R (a :: as) bs := by
  constructor
  · intro h
    cases h with
    | cons hr _ => exact absurd hr hab
    | cons_right h => exact h
  · intro h
    exact .cons_right h

/-- Matching from the last elements on. -/
lemma sublistForall₂_reverse {as : List α} {bs : List β} :
    SublistForall₂ R as.reverse bs.reverse ↔ SublistForall₂ R as bs := by
  have hrev : ∀ {as : List α} {bs : List β}, SublistForall₂ R as bs →
      SublistForall₂ R as.reverse bs.reverse := by
    intro as bs h
    obtain ⟨cs, hcs, hsub⟩ := sublistForall₂_iff.mp h
    exact sublistForall₂_iff.mpr ⟨cs.reverse, forall₂_reverse_iff.mpr hcs, hsub.reverse⟩
  constructor
  · intro h
    simpa using hrev h
  · exact hrev

/-- A matching as a strictly increasing assignment of positions. -/
lemma sublistForall₂_iff_exists_strictMono {as : List α} {bs : List β} :
    SublistForall₂ R as bs ↔
      ∃ f : Fin as.length → Fin bs.length, StrictMono f ∧ ∀ i, R (as.get i) (bs.get (f i)) := by
  constructor
  · intro h
    obtain ⟨cs, hcs, hsub⟩ := sublistForall₂_iff.mp h
    obtain ⟨f, hf⟩ := sublist_iff_exists_fin_orderEmbedding_get_eq.mp hsub
    obtain ⟨hlen, hR⟩ := forall₂_iff_get.mp hcs
    refine ⟨fun i => f (i.cast hlen), ?_, ?_⟩
    · intro i j hij
      exact f.strictMono hij
    · intro i
      rw [← hf]
      exact hR i i.isLt (hlen ▸ i.isLt)
  · rintro ⟨f, hf, hR⟩
    refine sublistForall₂_iff.mpr ⟨List.ofFn fun i => bs.get (f i), ?_, ?_⟩
    · refine forall₂_iff_get.mpr ⟨by simp, ?_⟩
      intro i hi _
      simpa using hR ⟨i, hi⟩
    · refine sublist_iff_exists_fin_orderEmbedding_get_eq.mpr
        ⟨OrderEmbedding.ofStrictMono (fun i => f (i.cast (by simp))) ?_, ?_⟩
      · intro i j hij
        exact hf hij
      · intro i
        simp only [List.get_eq_getElem, List.getElem_ofFn]
        rfl

/-! ### The scan -/

/-- The greedy scan: whether every element of the first list is matched, and those that are not. -/
def scan (check : α → β → Except ε Bool) : List α → List β → Except ε (Bool × List α)
  | [], _ => .ok (true, [])
  | a :: as, [] => .ok (false, a :: as)
  | a :: as, b :: bs => do
    let hit ← check a b
    let rest := if hit then as else a :: as
    if rest.length > bs.length then return (false, rest) else scan check rest bs

/-- What is not matched is an end of the first list. -/
lemma scan_suffix {check : α → β → Except ε Bool} {as : List α} {bs : List β} {success : Bool}
    {rest : List α} (h : scan check as bs = .ok (success, rest)) : rest <:+ as := by
  induction bs generalizing as with
  | nil =>
    cases as with
    | nil =>
      cases h
      exact List.suffix_rfl
    | cons a as =>
      cases h
      exact List.suffix_rfl
  | cons b bs ih =>
    cases as with
    | nil =>
      cases h
      exact List.suffix_rfl
    | cons a as =>
      rw [scan] at h
      obtain ⟨hit, _, h⟩ := Result.bind_eq_ok.mp h
      have hsuffix : (if hit then as else a :: as) <:+ a :: as := by
        cases hit with
        | true => exact List.suffix_cons a as
        | false => exact List.suffix_rfl
      dsimp only at h
      generalize (if hit = true then as else a :: as) = left at h hsuffix
      by_cases hlong : left.length > bs.length
      · rw [if_pos hlong] at h
        cases h
        exact hsuffix
      · rw [if_neg hlong] at h
        exact (ih h).trans hsuffix

/-- The check of a pair returns when the pair is valid, and then it decides `R`. -/
structure Checks (check : α → β → Except ε Bool) (valid R : α → β → Prop) (as : List α) :
    Prop where
  of_valid : ∀ a ∈ as, ∀ b, valid a b → ∃ hit, check a b = .ok hit ∧ (hit = true ↔ R a b)
  of_not_valid : ∀ a ∈ as, ∀ b, ¬ valid a b → ∃ e, check a b = .error e

/-- The checks of the rounds after the first one. -/
lemma Checks.rest {check : α → β → Except ε Bool} {valid : α → β → Prop} {a : α} {b : β}
    {as rest : List α} (hc : Checks check valid R (a :: as))
    (hrest : R a b ∧ rest = as ∨ ¬ R a b ∧ rest = a :: as) : Checks check valid R rest := by
  have hsub : ∀ c ∈ rest, c ∈ a :: as := by
    obtain ⟨_, rfl⟩ | ⟨_, rfl⟩ := hrest
    · exact fun c hc => List.mem_cons_of_mem a hc
    · exact fun c hc => hc
  exact ⟨fun c h => hc.of_valid c (hsub c h), fun c h => hc.of_not_valid c (hsub c h)⟩

/-- The pairs that the scan reaches, by position: `i` is the number of elements that match in the
first `j` elements, and there are enough elements left for the others. -/
structure Reached (R : α → β → Prop) (as : List α) (bs : List β) (i j : Nat) : Prop where
  index_lt : i < as.length
  room : j + (as.length - i) ≤ bs.length
  matched : SublistForall₂ R (as.take i) (bs.take j)
  maximal : ¬ SublistForall₂ R (as.take (i + 1)) (bs.take j)

/-- In round `j` the scan looks at the element `a`. -/
def Meets (R : α → β → Prop) (as : List α) (bs : List β) (j : Nat) (a : α) : Prop :=
  ∃ i, Reached R as bs i j ∧ as[i]? = some a

/-- Every pair that the scan looks at is valid. -/
def ReachedValid (valid R : α → β → Prop) (as : List α) (bs : List β) : Prop :=
  ∀ j a b, Meets R as bs j a → bs[j]? = some b → valid a b

/-- The scan gets to round `j`, since the rounds before are valid. -/
structure Visited (valid R : α → β → Prop) (as : List α) (bs : List β) (j : Nat) (a : α) :
    Prop where
  meets : Meets R as bs j a
  before : ∀ j' a' b', j' < j → Meets R as bs j' a' → bs[j']? = some b' → valid a' b'

namespace Reached

variable {a : α} {as : List α} {b : β} {bs : List β} {i j : Nat}

lemma index_le (h : Reached R as bs i j) : i ≤ j := by
  have hle := sublistForall₂_length_le h.matched
  have hi := h.index_lt
  simp only [List.length_take] at hle
  omega

/-- Nothing is reached when there are too few elements. -/
lemma length_le (h : Reached R as bs i j) : as.length ≤ bs.length := by
  have hij := h.index_le
  have hroom := h.room
  have hi := h.index_lt
  omega

lemma cons_zero_iff (hle : as.length ≤ bs.length) :
    Reached R (a :: as) (b :: bs) i 0 ↔ i = 0 := by
  constructor
  · intro h
    exact Nat.le_zero.mp h.index_le
  · rintro rfl
    refine ⟨by simp, by simpa using hle, by simpa using SublistForall₂.nil, ?_⟩
    simp [sublistForall₂_nil_right]

lemma cons_succ_iff_of_rel (hab : R a b) :
    Reached R (a :: as) (b :: bs) i (j + 1) ↔ ∃ k, i = k + 1 ∧ Reached R as bs k j := by
  constructor
  · intro h
    cases i with
    | zero =>
      have hmax := h.maximal
      simp only [Nat.zero_add, List.take_succ_cons, List.take_zero] at hmax
      exact absurd (SublistForall₂.cons hab .nil) hmax
    | succ k =>
      refine ⟨k, rfl, by simpa using h.index_lt, ?_, ?_, ?_⟩
      · have hroom := h.room
        simp only [List.length_cons] at hroom
        omega
      · simpa [sublistForall₂_cons_of_rel hab] using h.matched
      · simpa [sublistForall₂_cons_of_rel hab] using h.maximal
  · rintro ⟨k, rfl, h⟩
    have hroom := h.room
    refine ⟨by simpa using h.index_lt, by simp only [List.length_cons]; omega, ?_, ?_⟩
    · simpa [sublistForall₂_cons_of_rel hab] using h.matched
    · simpa [sublistForall₂_cons_of_rel hab] using h.maximal

lemma cons_succ_iff_of_not_rel (hab : ¬ R a b) :
    Reached R (a :: as) (b :: bs) i (j + 1) ↔ Reached R (a :: as) bs i j := by
  have htake : ∀ k, SublistForall₂ R ((a :: as).take k) ((b :: bs).take (j + 1)) ↔
      SublistForall₂ R ((a :: as).take k) (bs.take j) := by
    intro k
    cases k with
    | zero => exact iff_of_true .nil .nil
    | succ k => exact sublistForall₂_cons_of_not_rel hab
  constructor
  · intro h
    have hroom := h.room
    refine ⟨h.index_lt, ?_, (htake i).mp h.matched, fun hm => h.maximal ((htake _).mpr hm)⟩
    simp only [List.length_cons] at hroom ⊢
    omega
  · intro h
    have hroom := h.room
    refine ⟨h.index_lt, ?_, (htake i).mpr h.matched, fun hm => h.maximal ((htake _).mp hm)⟩
    simp only [List.length_cons] at hroom ⊢
    omega

end Reached

section Meets

variable {valid : α → β → Prop} {a c : α} {as rest : List α} {b : β} {bs : List β} {j : Nat}

lemma Meets.length_le (h : Meets R as bs j a) : as.length ≤ bs.length := by
  obtain ⟨i, hr, _⟩ := h
  exact hr.length_le

lemma Meets.mem (h : Meets R as bs j a) : a ∈ as := by
  obtain ⟨_, _, ha⟩ := h
  exact List.mem_of_getElem? ha

lemma Visited.mono {valid' : α → β → Prop} (h : Visited valid R as bs j a)
    (himp : ∀ a b, valid a b → valid' a b) : Visited valid' R as bs j a :=
  ⟨h.meets, fun j' a' b' hj' hm hb' => himp a' b' (h.before j' a' b' hj' hm hb')⟩

lemma not_meets_nil : ¬ Meets R ([] : List α) bs j a := by
  rintro ⟨i, hr, _⟩
  exact absurd hr.index_lt (Nat.not_lt_zero i)

lemma meets_cons_zero (hle : as.length ≤ bs.length) :
    Meets R (a :: as) (b :: bs) 0 c ↔ c = a := by
  constructor
  · rintro ⟨i, hr, hc⟩
    obtain rfl := (Reached.cons_zero_iff hle).mp hr
    exact (Option.some.inj hc).symm
  · rintro rfl
    exact ⟨0, (Reached.cons_zero_iff hle).mpr rfl, rfl⟩

/-- The rounds after the first one are those of a scan of what is left. -/
lemma meets_cons_succ (hrest : R a b ∧ rest = as ∨ ¬ R a b ∧ rest = a :: as) :
    Meets R (a :: as) (b :: bs) (j + 1) c ↔ Meets R rest bs j c := by
  obtain ⟨hab, rfl⟩ | ⟨hab, rfl⟩ := hrest
  · constructor
    · rintro ⟨i, hr, hc⟩
      obtain ⟨k, rfl, hk⟩ := (Reached.cons_succ_iff_of_rel hab).mp hr
      exact ⟨k, hk, hc⟩
    · rintro ⟨k, hr, hc⟩
      exact ⟨k + 1, (Reached.cons_succ_iff_of_rel hab).mpr ⟨k, rfl, hr⟩, hc⟩
  · exact exists_congr fun i => and_congr_left fun _ => Reached.cons_succ_iff_of_not_rel hab

lemma reachedValid_of_length_lt (h : bs.length < as.length) : ReachedValid valid R as bs := by
  intro j a b hm _
  exact absurd hm.length_le (Nat.not_le.mpr h)

lemma reachedValid_nil : ReachedValid valid R ([] : List α) bs := by
  intro j a b hm _
  exact absurd hm not_meets_nil

lemma reachedValid_cons_iff (hle : as.length ≤ bs.length)
    (hrest : R a b ∧ rest = as ∨ ¬ R a b ∧ rest = a :: as) :
    ReachedValid valid R (a :: as) (b :: bs) ↔ valid a b ∧ ReachedValid valid R rest bs := by
  constructor
  · intro h
    refine ⟨h 0 a b ((meets_cons_zero hle).mpr rfl) rfl, ?_⟩
    intro j c d hm hd
    exact h (j + 1) c d ((meets_cons_succ hrest).mpr hm) hd
  · rintro ⟨hv, h⟩ j c d hm hd
    cases j with
    | zero =>
      obtain rfl := (meets_cons_zero hle).mp hm
      rwa [← Option.some.inj hd]
    | succ j => exact h j c d ((meets_cons_succ hrest).mp hm) hd

lemma visited_cons_zero (hle : as.length ≤ bs.length) :
    Visited valid R (a :: as) (b :: bs) 0 c ↔ c = a := by
  constructor
  · intro h
    exact (meets_cons_zero hle).mp h.meets
  · intro h
    exact ⟨(meets_cons_zero hle).mpr h, fun j' _ _ hj' => absurd hj' (Nat.not_lt_zero j')⟩

lemma visited_cons_succ (hle : as.length ≤ bs.length)
    (hrest : R a b ∧ rest = as ∨ ¬ R a b ∧ rest = a :: as) :
    Visited valid R (a :: as) (b :: bs) (j + 1) c ↔ valid a b ∧ Visited valid R rest bs j c := by
  constructor
  · intro h
    refine ⟨h.before 0 a b (Nat.succ_pos j) ((meets_cons_zero hle).mpr rfl) rfl,
      (meets_cons_succ hrest).mp h.meets, ?_⟩
    intro j' a' b' hj' hm hb'
    exact h.before (j' + 1) a' b' (Nat.succ_lt_succ hj') ((meets_cons_succ hrest).mpr hm) hb'
  · rintro ⟨hv, h⟩
    refine ⟨(meets_cons_succ hrest).mpr h.meets, ?_⟩
    intro j' a' b' hj' hm hb'
    cases j' with
    | zero =>
      obtain rfl := (meets_cons_zero hle).mp hm
      rwa [← Option.some.inj hb']
    | succ j' =>
      exact h.before j' a' b' (Nat.lt_of_succ_lt_succ hj') ((meets_cons_succ hrest).mp hm) hb'

/-- The first failure among the rounds that the scan gets to. -/
lemma exists_first_not {P : α → β → Prop} {as : List α}
    (h : ∃ j a b, Visited valid R as bs j a ∧ bs[j]? = some b ∧ ¬ P a b) :
    ∃ j a b, Visited (fun a b => valid a b ∧ P a b) R as bs j a ∧ bs[j]? = some b ∧ ¬ P a b := by
  classical
  let fails (j : Nat) : Prop := ∃ a b, Visited valid R as bs j a ∧ bs[j]? = some b ∧ ¬ P a b
  have hex : ∃ j, fails j := h
  obtain ⟨a, b, hv, hb, hP⟩ := Nat.find_spec hex
  refine ⟨Nat.find hex, a, b, ⟨hv.meets, ?_⟩, hb, hP⟩
  intro j' a' b' hj' hm hb'
  refine ⟨hv.before j' a' b' hj' hm hb', ?_⟩
  by_contra hnot
  refine Nat.find_min hex hj' ⟨a', b', ⟨hm, ?_⟩, hb', hnot⟩
  intro k c d hk hmk hd
  exact hv.before k c d (hk.trans hj') hmk hd

end Meets

section Scan

variable {check : α → β → Except ε Bool} {valid : α → β → Prop}

/-- What is left after a round, by whether the pair is related. -/
lemma rest_cases {hit : Bool} {a : α} (as : List α) {b : β} (hhit : hit = true ↔ R a b) :
    R a b ∧ (if hit then as else a :: as) = as ∨
      ¬ R a b ∧ (if hit then as else a :: as) = a :: as := by
  cases hit with
  | true => exact .inl ⟨hhit.mp rfl, rfl⟩
  | false => exact .inr ⟨fun h => Bool.false_ne_true (hhit.mpr h), rfl⟩

/-- The scan returns when every pair that it reaches is valid. -/
lemma scan_returns_iff {as : List α} (hc : Checks check valid R as) {bs : List β}
    (hle : as.length ≤ bs.length) :
    (∃ result, scan check as bs = .ok result) ↔ ReachedValid valid R as bs := by
  induction bs generalizing as with
  | nil =>
    obtain rfl := List.eq_nil_of_length_eq_zero (Nat.le_zero.mp hle)
    exact iff_of_true ⟨_, rfl⟩ reachedValid_nil
  | cons b bs ih =>
    cases as with
    | nil => exact iff_of_true ⟨_, rfl⟩ reachedValid_nil
    | cons a as =>
      have hle' : as.length ≤ bs.length := Nat.le_of_succ_le_succ hle
      by_cases hv : valid a b
      · obtain ⟨hit, hcheck, hhit⟩ := hc.of_valid a List.mem_cons_self b hv
        have hrest := rest_cases as hhit
        rw [reachedValid_cons_iff hle' hrest, scan, hcheck]
        simp only [Result.ok_bind, hv, true_and]
        generalize (if hit = true then as else a :: as) = rest at hrest ⊢
        by_cases hlong : rest.length > bs.length
        · rw [if_pos hlong]
          exact iff_of_true ⟨_, rfl⟩ (reachedValid_of_length_lt hlong)
        · rw [if_neg hlong]
          exact ih (hc.rest hrest) (Nat.not_lt.mp hlong)
      · obtain ⟨e, hcheck⟩ := hc.of_not_valid a List.mem_cons_self b hv
        refine iff_of_false ?_ ?_
        · rintro ⟨result, h⟩
          rw [scan, hcheck] at h
          cases h
        · intro h
          exact hv (h 0 a b ((meets_cons_zero hle').mpr rfl) rfl)

/-- One round of a scan that returns. -/
lemma scan_cons_eq_ok {a : α} {as : List α} (hc : Checks check valid R (a :: as)) {b : β}
    {bs : List β} {result : Bool × List α} (h : scan check (a :: as) (b :: bs) = .ok result) :
    ∃ rest, (R a b ∧ rest = as ∨ ¬ R a b ∧ rest = a :: as) ∧
      (bs.length < rest.length ∧ result = (false, rest) ∨
        rest.length ≤ bs.length ∧ scan check rest bs = .ok result) := by
  by_cases hv : valid a b
  · obtain ⟨hit, hcheck, hhit⟩ := hc.of_valid a List.mem_cons_self b hv
    refine ⟨_, rest_cases as hhit, ?_⟩
    rw [scan, hcheck] at h
    simp only [Result.ok_bind] at h
    generalize (if hit = true then as else a :: as) = rest at h ⊢
    by_cases hlong : rest.length > bs.length
    · rw [if_pos hlong] at h
      cases h
      exact .inl ⟨hlong, rfl⟩
    · rw [if_neg hlong] at h
      exact .inr ⟨Nat.not_lt.mp hlong, h⟩
  · obtain ⟨e, hcheck⟩ := hc.of_not_valid a List.mem_cons_self b hv
    rw [scan, hcheck] at h
    cases h

/-- The verdict of the scan is whether there is a matching. -/
lemma scan_success_iff {as : List α} (hc : Checks check valid R as) {bs : List β}
    {success : Bool} {rest : List α} (h : scan check as bs = .ok (success, rest)) :
    success = true ↔ SublistForall₂ R as bs := by
  induction bs generalizing as with
  | nil =>
    cases as with
    | nil =>
      cases h
      exact iff_of_true rfl .nil
    | cons a as =>
      cases h
      simp [sublistForall₂_nil_right]
  | cons b bs ih =>
    cases as with
    | nil =>
      cases h
      exact iff_of_true rfl .nil
    | cons a as =>
      obtain ⟨left, hleft, hcase⟩ := scan_cons_eq_ok hc h
      have hmatch : SublistForall₂ R (a :: as) (b :: bs) ↔ SublistForall₂ R left bs := by
        obtain ⟨hab, rfl⟩ | ⟨hab, rfl⟩ := hleft
        · exact sublistForall₂_cons_of_rel hab
        · exact sublistForall₂_cons_of_not_rel hab
      rw [hmatch]
      obtain ⟨hlong, hresult⟩ | ⟨_, hscan⟩ := hcase
      · cases hresult
        exact iff_of_false Bool.false_ne_true
          fun hm => Nat.not_le.mpr hlong (sublistForall₂_length_le hm)
      · exact ih (hc.rest hleft) hscan

/-- What a scan without success leaves: the elements from the last one that is reached on. -/
lemma scan_rest {as : List α} (hc : Checks check valid R as) {bs : List β}
    (hle : as.length ≤ bs.length) {rest : List α} (h : scan check as bs = .ok (false, rest)) :
    ∃ i, rest = as.drop i ∧ (∃ j, Reached R as bs i j) ∧
      ∀ i' j', Reached R as bs i' j' → i' ≤ i := by
  induction bs generalizing as with
  | nil =>
    obtain rfl := List.eq_nil_of_length_eq_zero (Nat.le_zero.mp hle)
    cases h
  | cons b bs ih =>
    cases as with
    | nil => cases h
    | cons a as =>
      have hle' : as.length ≤ bs.length := Nat.le_of_succ_le_succ hle
      obtain ⟨left, ⟨hab, rfl⟩ | ⟨hab, rfl⟩, hcase⟩ := scan_cons_eq_ok hc h
      · -- A hit takes an element from both lists, so there is room for the next round.
        obtain ⟨hlong, _⟩ | ⟨hroom, hscan⟩ := hcase
        · exact absurd hle' (Nat.not_le.mpr hlong)
        · obtain ⟨i, hrest, ⟨j, hr⟩, hmax⟩ := ih (hc.rest (.inl ⟨hab, rfl⟩)) hroom hscan
          refine ⟨i + 1, hrest, ⟨j + 1, (Reached.cons_succ_iff_of_rel hab).mpr ⟨i, rfl, hr⟩⟩, ?_⟩
          intro i' j' hr'
          cases j' with
          | zero => exact (Nat.zero_le _).trans' ((Reached.cons_zero_iff hle').mp hr').le
          | succ j' =>
            obtain ⟨k, rfl, hk⟩ := (Reached.cons_succ_iff_of_rel hab).mp hr'
            exact Nat.succ_le_succ (hmax k j' hk)
      · obtain ⟨hlong, hresult⟩ | ⟨hroom, hscan⟩ := hcase
        · cases hresult
          refine ⟨0, rfl, ⟨0, (Reached.cons_zero_iff hle').mpr rfl⟩, ?_⟩
          intro i' j' hr'
          cases j' with
          | zero => exact ((Reached.cons_zero_iff hle').mp hr').le
          | succ j' =>
            have hr' := (Reached.cons_succ_iff_of_not_rel hab).mp hr'
            exact absurd hr'.length_le (Nat.not_le.mpr hlong)
        · obtain ⟨i, hrest, ⟨j, hr⟩, hmax⟩ := ih hc hroom hscan
          refine ⟨i, hrest, ⟨j + 1, (Reached.cons_succ_iff_of_not_rel hab).mpr hr⟩, ?_⟩
          intro i' j' hr'
          cases j' with
          | zero => exact ((Reached.cons_zero_iff hle').mp hr').le.trans (Nat.zero_le i)
          | succ j' => exact hmax i' j' ((Reached.cons_succ_iff_of_not_rel hab).mp hr')

/-- An element that a scan without success leaves is none before the last one that is reached. -/
lemma mem_scan_rest_iff {as : List α} (hc : Checks check valid R as) {bs : List β}
    (hle : as.length ≤ bs.length) {rest : List α} (h : scan check as bs = .ok (false, rest))
    {a : α} :
    a ∈ rest ↔ ∃ l, as[l]? = some a ∧ ∀ i j, Reached R as bs i j → i ≤ l := by
  obtain ⟨i, rfl, ⟨j, hr⟩, hmax⟩ := scan_rest hc hle h
  rw [List.mem_iff_getElem?]
  constructor
  · rintro ⟨k, hk⟩
    rw [List.getElem?_drop] at hk
    exact ⟨i + k, hk, fun i' j' hr' => (hmax i' j' hr').trans (Nat.le_add_right i k)⟩
  · rintro ⟨l, hl, hlast⟩
    refine ⟨l - i, ?_⟩
    rw [List.getElem?_drop, Nat.add_sub_cancel' (hlast i j hr)]
    exact hl

/-- The scan fails in the first round whose check fails. -/
lemma scan_eq_error_iff {as : List α} (hc : Checks check valid R as) {bs : List β}
    (hle : as.length ≤ bs.length) {e : ε} :
    scan check as bs = .error e ↔
      ∃ j a b, Visited valid R as bs j a ∧ bs[j]? = some b ∧ check a b = .error e := by
  induction bs generalizing as with
  | nil =>
    obtain rfl := List.eq_nil_of_length_eq_zero (Nat.le_zero.mp hle)
    refine iff_of_false (by simp [scan]) ?_
    rintro ⟨j, a, b, hv, _⟩
    exact not_meets_nil hv.meets
  | cons b bs ih =>
    cases as with
    | nil =>
      refine iff_of_false (by simp [scan]) ?_
      rintro ⟨j, a, b, hv, _⟩
      exact not_meets_nil hv.meets
    | cons a as =>
      have hle' : as.length ≤ bs.length := Nat.le_of_succ_le_succ hle
      by_cases hv : valid a b
      · obtain ⟨hit, hcheck, hhit⟩ := hc.of_valid a List.mem_cons_self b hv
        have hrest := rest_cases as hhit
        rw [scan, hcheck]
        simp only [Result.ok_bind]
        generalize (if hit = true then as else a :: as) = rest at hrest ⊢
        have hlater : (∃ j c d, Visited valid R (a :: as) (b :: bs) j c ∧
            (b :: bs)[j]? = some d ∧ check c d = .error e) ↔
            ∃ j c d, Visited valid R rest bs j c ∧ bs[j]? = some d ∧ check c d = .error e := by
          constructor
          · rintro ⟨j, c, d, hvis, hd, herr⟩
            cases j with
            | zero =>
              obtain rfl := (visited_cons_zero hle').mp hvis
              rw [← Option.some.inj hd, hcheck] at herr
              cases herr
            | succ j => exact ⟨j, c, d, ((visited_cons_succ hle' hrest).mp hvis).2, hd, herr⟩
          · rintro ⟨j, c, d, hvis, hd, herr⟩
            exact ⟨j + 1, c, d, (visited_cons_succ hle' hrest).mpr ⟨hv, hvis⟩, hd, herr⟩
        rw [hlater]
        by_cases hlong : rest.length > bs.length
        · rw [if_pos hlong]
          refine iff_of_false (by simp) ?_
          rintro ⟨j, c, d, hvis, _⟩
          exact Nat.not_le.mpr hlong hvis.meets.length_le
        · rw [if_neg hlong]
          exact ih (hc.rest hrest) (Nat.not_lt.mp hlong)
      · obtain ⟨e', hcheck⟩ := hc.of_not_valid a List.mem_cons_self b hv
        have hfirst : Visited valid R (a :: as) (b :: bs) 0 a := (visited_cons_zero hle').mpr rfl
        rw [scan, hcheck, Result.error_bind]
        constructor
        · intro h
          cases h
          exact ⟨0, a, b, hfirst, rfl, hcheck⟩
        · rintro ⟨j, c, d, hvis, hd, herr⟩
          cases j with
          | zero =>
            obtain rfl := (visited_cons_zero hle').mp hvis
            rw [← Option.some.inj hd, hcheck] at herr
            cases herr
            rfl
          | succ j =>
            exact absurd (hvis.before 0 a b (Nat.succ_pos j) hfirst.meets rfl) hv

end Scan

end OrderedMatching
