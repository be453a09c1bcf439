import Mathlib.Tactic.SplitIfs

/-!
# Runs of a transition system

A system is a partial step function on states and events. `Reachable step ok init` are the states of
the runs from `init` in which every step satisfies `ok`.
-/

/-- The states reached from `init` by steps with `ok`. -/
inductive Reachable {σ ε : Type} (step : σ → ε → Option σ) (ok : σ → ε → σ → Prop) (init : σ) :
    σ → Prop
  | init : Reachable step ok init init
  | step {s s' : σ} {e : ε} (hrun : Reachable step ok init s) (hstep : step s e = some s')
      (hok : ok s e s') : Reachable step ok init s'

namespace Reachable

variable {σ ε : Type} {step : σ → ε → Option σ} {ok ok' : σ → ε → σ → Prop} {init : σ}

/-- What holds at the start and is kept by every step holds in every reachable state. -/
lemma invariant (inv : σ → Prop) (hinit : inv init)
    (hstep : ∀ s e s', inv s → step s e = some s' → ok s e s' → inv s') {s : σ}
    (h : Reachable step ok init s) : inv s := by
  induction h with
  | init => exact hinit
  | step _ hs hok ih => exact hstep _ _ _ ih hs hok

/-- The same, with what is known of the states in which the steps start. -/
lemma invariant_of_reachable (inv : σ → Prop) (hinit : inv init)
    (hstep : ∀ s e s', Reachable step ok init s → inv s → step s e = some s' → ok s e s' → inv s')
    {s : σ} (h : Reachable step ok init s) : inv s := by
  induction h with
  | init => exact hinit
  | step hrun hs hok ih => exact hstep _ _ _ hrun ih hs hok

/-- A run whose steps satisfy more is a run. -/
lemma mono (hle : ∀ s e s', ok s e s' → ok' s e s') {s : σ} (h : Reachable step ok init s) :
    Reachable step ok' init s := by
  induction h with
  | init => exact .init
  | step _ hs hok ih => exact .step ih hs (hle _ _ _ hok)

/-- The state after a list of events, if every step is possible and passes a check. -/
def run (step : σ → ε → Option σ) (check : σ → ε → σ → Bool) : σ → List ε → Option σ
  | s, [] => some s
  | s, e :: es =>
    match step s e with
    | none => none
    | some s' => if check s e s' then run step check s' es else none

/-- The state after a checked list of events is reachable. -/
lemma of_run {check : σ → ε → σ → Bool} (hcheck : ∀ s e s', check s e s' → ok s e s') {s s' : σ}
    {es : List ε} (h : Reachable step ok init s) (hrun : run step check s es = some s') :
    Reachable step ok init s' := by
  induction es generalizing s with
  | nil =>
    obtain rfl := Option.some.inj hrun
    exact h
  | cons e es ih =>
    simp only [run] at hrun
    cases hs : step s e with
    | none => simp [hs] at hrun
    | some s₁ =>
      simp only [hs] at hrun
      split_ifs at hrun with hc
      exact ih (.step h hs (hcheck _ _ _ hc)) hrun

end Reachable
