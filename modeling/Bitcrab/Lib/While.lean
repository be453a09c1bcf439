import Mathlib.Init
import Mathlib.Tactic.Common

/-!
# While loops

A loop whose body is a computation in a monad. `EndsIn` says that it terminates, with the state that
it leaves; the rule for it takes an invariant and a variant.
-/

namespace While

variable {m : Type → Type} [Monad m] {σ : Type} {cond : σ → Bool} {body : σ → m σ} {s s' s'' : σ}

/-- At most `n` rounds of the loop; `none` when they are not enough. -/
def run (cond : σ → Bool) (body : σ → m σ) : Nat → σ → m (Option σ)
  | 0, _ => pure none
  | n + 1, s => if cond s then body s >>= run cond body n else pure (some s)

/-- The loop terminates with the state `s'`. -/
def EndsIn (cond : σ → Bool) (body : σ → m σ) (s s' : σ) : Prop :=
  ∃ n, ∀ fuel ≥ n, run cond body fuel s = pure (some s')

lemma EndsIn.refl (h : cond s = false) : EndsIn cond body s s := by
  refine ⟨1, fun fuel hfuel => ?_⟩
  cases fuel with
  | zero => omega
  | succ fuel => simp [run, h]

lemma EndsIn.step [LawfulMonad m] (hcond : cond s = true) (hbody : body s = pure s')
    (h : EndsIn cond body s' s'') : EndsIn cond body s s'' := by
  obtain ⟨n, hn⟩ := h
  refine ⟨n + 1, fun fuel hfuel => ?_⟩
  cases fuel with
  | zero => omega
  | succ fuel =>
    rw [run, if_pos hcond, hbody, pure_bind]
    exact hn fuel (Nat.le_of_succ_le_succ hfuel)

/-- A loop whose body keeps an invariant and lessens a variant terminates. -/
theorem exists_endsIn [LawfulMonad m] (cond : σ → Bool) (body : σ → m σ) (inv : σ → Prop)
    (variant : σ → Nat)
    (hbody : ∀ s, inv s → cond s = true →
      ∃ s', body s = pure s' ∧ inv s' ∧ variant s' < variant s)
    (h : inv s) : ∃ s', EndsIn cond body s s' ∧ inv s' ∧ cond s' = false := by
  induction hv : variant s using Nat.strongRecOn generalizing s with
  | ind v ih =>
    cases hcond : cond s with
    | false => exact ⟨s, .refl hcond, h, hcond⟩
    | true =>
      obtain ⟨s₁, hs₁, hinv, hlt⟩ := hbody s h hcond
      obtain ⟨s', hends, hs'⟩ := ih (variant s₁) (hv ▸ hlt) hinv rfl
      exact ⟨s', .step hcond hs₁ hends, hs'⟩

end While
