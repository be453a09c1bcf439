import Mathlib.Logic.Basic

/-!
# Inversion of fallible computations

When a computation in `Except` succeeds, every step of it has. Each lemma takes one step off.
-/

namespace Result

variable {ε ε' α β : Type*}

/-- `Option::ok_or`. -/
def okOr (error : ε) : Option α → Except ε α
  | some a => .ok a
  | none => .error error

@[simp] lemma okOr_eq_ok {error : ε} {o : Option α} {a : α} : okOr error o = .ok a ↔
    o = some a := by
  cases o <;> simp [okOr]

@[simp] lemma throw_eq_error (e : ε) : (throw e : Except ε α) = .error e := rfl

@[simp] lemma pure_eq_ok (a : α) : (pure a : Except ε α) = .ok a := rfl

section Bind

variable {ε α β : Type} {x : Except ε α} {f : α → Except ε β} {b : β}

@[simp] lemma error_bind (e : ε) : ((Except.error e : Except ε α) >>= f) = .error e := rfl

@[simp] lemma ok_bind (a : α) : ((Except.ok a : Except ε α) >>= f) = f a := rfl

/-- A sequence succeeds when both parts do. -/
lemma bind_eq_ok : (x >>= f) = .ok b ↔ ∃ a, x = .ok a ∧ f a = .ok b := by
  cases x <;> simp

/-- A step that is taken under a condition only. -/
lemma ite_seq_eq_ok {c : Prop} [Decidable c] {x : Except ε Unit} {y : Except ε β} :
    (if c then x >>= fun _ => y else y) = .ok b ↔ (c → x = .ok ()) ∧ y = .ok b := by
  by_cases h : c
  · cases x <;> simp [h]
  · simp [h]

end Bind

/-- A guard that throws succeeds when its condition fails. -/
lemma ite_error_eq_ok {c : Prop} [Decidable c] {e : ε} {x : Except ε α} {a : α} :
    (if c then .error e else x) = .ok a ↔ ¬ c ∧ x = .ok a := by
  by_cases h : c <;> simp [h]

/-- A last step that is taken under a condition only. -/
lemma ite_eq_ok_unit {c : Prop} [Decidable c] {x : Except ε Unit} :
    (if c then x else .ok ()) = .ok () ↔ (c → x = .ok ()) := by
  by_cases h : c <;> simp [h]

lemma mapError_ok {f : ε → ε'} {a : α} : (Except.ok a).mapError f = .ok a := rfl

lemma mapError_eq_ok {f : ε → ε'} {x : Except ε α} {a : α} :
    x.mapError f = .ok a ↔ x = .ok a := by
  cases x with
  | error e =>
    have herror : (Except.error e : Except ε α).mapError f = .error (f e) := rfl
    simp [herror]
  | ok b => rw [mapError_ok, Except.ok.injEq, Except.ok.injEq]

/-- A loop without a result succeeds when each round does. -/
lemma forM_eq_ok {ε α : Type} {f : α → Except ε PUnit} {l : List α} :
    l.forM f = .ok () ↔ ∀ a ∈ l, f a = .ok () := by
  induction l with
  | nil => simp
  | cons a l ih =>
    have hcons : (a :: l).forM f = (f a >>= fun _ => l.forM f) := rfl
    rw [hcons, bind_eq_ok, List.forall_mem_cons, ← ih]
    constructor
    · rintro ⟨_, ha, hl⟩
      exact ⟨ha, hl⟩
    · rintro ⟨ha, hl⟩
      exact ⟨_, ha, hl⟩

end Result
