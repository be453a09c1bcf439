import Mathlib.Init
import Mathlib.Tactic.Common

/-!
# Loops that a break leaves

A `loop` whose body either goes on with a new state or breaks with a result. `BreaksWith` says
that it terminates, with the result that it breaks with; its rules take an invariant and a variant.
-/

namespace Loop

variable {σ σ' ρ ρ' : Type} {body : σ → σ ⊕ ρ} {s s' : σ} {r r' : ρ}

/-- At most `n` rounds of the loop; `none` when they are not enough. -/
def run (body : σ → σ ⊕ ρ) : Nat → σ → Option ρ
  | 0, _ => none
  | n + 1, s =>
    match body s with
    | .inl s' => run body n s'
    | .inr r => some r

/-- The loop terminates with the result `r`. -/
def BreaksWith (body : σ → σ ⊕ ρ) (s : σ) (r : ρ) : Prop :=
  ∃ n, ∀ fuel ≥ n, run body fuel s = some r

lemma BreaksWith.here (h : body s = .inr r) : BreaksWith body s r := by
  refine ⟨1, fun fuel hfuel => ?_⟩
  cases fuel with
  | zero => omega
  | succ fuel => rw [run, h]

lemma BreaksWith.round (hbody : body s = .inl s') (h : BreaksWith body s' r) :
    BreaksWith body s r := by
  obtain ⟨n, hn⟩ := h
  refine ⟨n + 1, fun fuel hfuel => ?_⟩
  cases fuel with
  | zero => omega
  | succ fuel =>
    rw [run, hbody]
    exact hn fuel (Nat.le_of_succ_le_succ hfuel)

lemma run_succ_of_run {n : Nat} (h : run body n s = some r) : run body (n + 1) s = some r := by
  induction n generalizing s with
  | zero => cases h
  | succ n ih =>
    rw [run] at h ⊢
    cases hbody : body s with
    | inl s' =>
      rw [hbody] at h
      exact ih h
    | inr r' =>
      rw [hbody] at h
      exact h

lemma BreaksWith.of_run {n : Nat} (h : run body n s = some r) : BreaksWith body s r := by
  refine ⟨n, fun fuel hfuel => ?_⟩
  induction hfuel with
  | refl => exact h
  | step _ ih => exact run_succ_of_run ih

lemma BreaksWith.unique (h : BreaksWith body s r) (h' : BreaksWith body s r') : r = r' := by
  obtain ⟨n, hn⟩ := h
  obtain ⟨m, hm⟩ := h'
  have hr := hn (max n m) (Nat.le_max_left n m)
  rw [hm (max n m) (Nat.le_max_right n m)] at hr
  exact (Option.some.inj hr).symm

/-- What every round keeps, and gives when it breaks, holds of the result. -/
theorem BreaksWith.post (inv : σ → Prop) (post : ρ → Prop)
    (hround : ∀ s s', inv s → body s = .inl s' → inv s')
    (hbreak : ∀ s r, inv s → body s = .inr r → post r)
    (h : BreaksWith body s r) (hs : inv s) : post r := by
  obtain ⟨n, hn⟩ := h
  have hrun := hn n (Nat.le_refl n)
  clear hn
  induction n generalizing s with
  | zero => cases hrun
  | succ n ih =>
    rw [run] at hrun
    cases hbody : body s with
    | inl s' =>
      rw [hbody] at hrun
      exact ih (hround s s' hs hbody) hrun
    | inr r' =>
      rw [hbody] at hrun
      cases hrun
      exact hbreak s r hs hbody

/-- A loop whose rounds keep an invariant and lessen a variant terminates. -/
theorem exists_breaksWith (body : σ → σ ⊕ ρ) (inv : σ → Prop) (variant : σ → Nat)
    (hround : ∀ s s', inv s → body s = .inl s' → inv s' ∧ variant s' < variant s)
    (h : inv s) : ∃ r, BreaksWith body s r := by
  induction hv : variant s using Nat.strongRecOn generalizing s with
  | ind v ih =>
    cases hbody : body s with
    | inr r => exact ⟨r, .here hbody⟩
    | inl s' =>
      obtain ⟨hinv, hlt⟩ := hround s s' h hbody
      obtain ⟨r, hr⟩ := ih (variant s') (hv ▸ hlt) hinv rfl
      exact ⟨r, .round hbody hr⟩

/-- A map of the states that the bodies respect maps the result. -/
theorem BreaksWith.map {body' : σ' → σ' ⊕ ρ'} (f : σ → σ') (g : ρ → ρ')
    (hbody : ∀ s, body' (f s) = (body s).map f g) (h : BreaksWith body s r) :
    BreaksWith body' (f s) (g r) := by
  obtain ⟨n, hn⟩ := h
  refine BreaksWith.of_run (n := n) ?_
  have hrun := hn n (Nat.le_refl n)
  clear hn
  induction n generalizing s with
  | zero => cases hrun
  | succ n ih =>
    rw [run] at hrun ⊢
    rw [hbody]
    cases hs : body s with
    | inl s' =>
      rw [hs] at hrun
      exact ih hrun
    | inr r' =>
      rw [hs] at hrun
      cases hrun
      rfl

end Loop
