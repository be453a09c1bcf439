import Bitcrab.Lib.Result
import Mathlib.Tactic.Linarith
import Mathlib.Tactic.Ring

/-!
# Runs with a budget

A run folds a fallible step over a list of inputs. Where every step takes the price of what it does
from a budget, and fails when the budget is overdrawn, the whole run has done no more than the
budget at its start pays for.
-/

namespace Result

variable {ε σ α : Type} {step : σ → α → Except ε σ}

/-- How often the steps of a run do what `count` counts, up to the first one that fails. -/
def runCount (step : σ → α → Except ε σ) (count : σ → α → Nat) : σ → List α → Nat
  | _, [] => 0
  | s, a :: l =>
    match step s a with
    | .ok t => count s a + runCount step count t l
    | .error _ => 0

/-- A step pays for what it does, and does not overdraw the budget for it. -/
structure Pays (budget : σ → Int) (price : Nat) (n : Nat) (s t : σ) : Prop where
  balance : budget t + price * n = budget s
  solvent : 0 < n → 0 ≤ budget t

namespace Pays

variable {budget : σ → Int} {price m n : Nat} {s t u : σ}

lemma refl (budget : σ → Int) (price : Nat) (s : σ) : Pays budget price 0 s s :=
  ⟨by simp, fun h => absurd h (lt_irrefl 0)⟩

/-- A step that leaves the budget alone. -/
lemma of_eq (h : budget t = budget s) : Pays budget price 0 s t :=
  ⟨by simp [h], fun h => absurd h (lt_irrefl 0)⟩

lemma trans (h : Pays budget price m s t) (h' : Pays budget price n t u) :
    Pays budget price (m + n) s u where
  balance := by
    rw [← h.balance, ← h'.balance]
    push_cast
    ring
  solvent := by
    intro hpos
    by_cases hn : 0 < n
    · exact h'.solvent hn
    · obtain rfl : n = 0 := by omega
      have hbalance := h'.balance
      have hsolvent := h.solvent hpos
      simp only [Nat.cast_zero, mul_zero, add_zero] at hbalance
      rwa [hbalance]

/-- What is paid for is at most what the budget was. -/
lemma mul_le (h : Pays budget price n s t) (hpos : 0 < n) : (price * n : Int) ≤ budget s := by
  linarith [h.balance, h.solvent hpos]

end Pays

/-- A run pays for all that its steps do. -/
theorem pays_foldlM (count : σ → α → Nat) {budget : σ → Int} {price : Nat}
    (hstep : ∀ s a t, step s a = .ok t → Pays budget price (count s a) s t) {l : List α} {s t : σ}
    (h : l.foldlM step s = .ok t) : Pays budget price (runCount step count s l) s t := by
  induction l generalizing s with
  | nil =>
    cases h
    exact .refl _ _ _
  | cons a l ih =>
    rw [List.foldlM_cons] at h
    obtain ⟨u, hu, h⟩ := bind_eq_ok.mp h
    rw [runCount, hu]
    exact (hstep s a u hu).trans (ih h)

end Result
