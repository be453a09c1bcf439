import Bitcrab.Lib.Result
import Mathlib.Algebra.Group.Int.Defs
import Mathlib.Algebra.Group.Nat.Defs
import Mathlib.Data.List.Basic

/-!
# Computations that can fail or panic

A fallible computation ends with a value, with an error that its caller handles, or with a panic:
an index out of range, a subtraction below zero, an arithmetic overflow, a failed `unwrap`. The
operations that can panic are given here as functions into `Outcome`.

`Holds P x Q` is the weakest precondition of the computation `x` for the postcondition `Q`, where
`P` is the price of a panic: `False` forbids it and `True` ignores it.
-/

/-- How a computation ends without a value. -/
inductive Fault (ε : Type) where
  | error (e : ε)
  | panic
  deriving Repr, DecidableEq

/-- A computation that returns an `α`, fails with an `ε` or panics. -/
abbrev Outcome (ε α : Type) := Except (Fault ε) α

namespace Outcome

variable {ε α β σ : Type}

/-- `return Err(e)`. -/
def fail (e : ε) : Outcome ε α := .error (.error e)

/-- `if c { return Err(e) }`. -/
def rejectIf (c : Prop) [Decidable c] (e : ε) : Outcome ε Unit := if c then fail e else .ok ()

/-- `if c && !valid { return Err(e) }`, where `valid` is only computed when `c` holds. -/
def rejectUnless (c : Bool) (valid : Outcome ε Bool) (e : ε) : Outcome ε Unit := do
  let ok ← (if c then valid else pure true)
  rejectIf (ok = false) e

/-- `Option::ok_or`. -/
def okOr (e : ε) : Option α → Outcome ε α
  | some a => .ok a
  | none => fail e

/-- `Option::unwrap`. -/
def unwrap : Option α → Outcome ε α
  | some a => .ok a
  | none => .error .panic

/-- `l[i]`. -/
def index (l : List α) (i : Nat) : Outcome ε α := unwrap l[i]?

/-- `a - b` on an unsigned type. -/
def sub (a b : Nat) : Outcome ε Nat := if b ≤ a then .ok (a - b) else .error .panic

/-- `l[i..j]`. -/
def slice (l : List α) (i j : Nat) : Outcome ε (List α) :=
  if i ≤ j ∧ j ≤ l.length then .ok ((l.drop i).take (j - i)) else .error .panic

/-- `Vec::remove`: the element and the other elements. -/
def remove (l : List α) (i : Nat) : Outcome ε (α × List α) := do
  let a ← index l i
  return (a, l.eraseIdx i)

/-- `Vec::insert`. -/
def insert (l : List α) (i : Nat) (a : α) : Outcome ε (List α) :=
  if i ≤ l.length then .ok (l.insertIdx i a) else .error .panic

/-- `Vec::swap`. -/
def swap (l : List α) (i j : Nat) : Outcome ε (List α) := do
  let a ← index l i
  let b ← index l j
  return (l.set i b).set j a

/-- The result of an operation on `i64`, which panics when it overflows. -/
def i64 (n : Int) : Outcome ε Int := if -2 ^ 63 ≤ n ∧ n < 2 ^ 63 then .ok n else .error .panic

/-- `isize::MAX`, the most bytes that one allocation can have. -/
def isizeMax : Nat := 2 ^ 63 - 1

/-- `Vec::with_capacity` for elements of the given size. -/
def withCapacity (elemSize capacity : Nat) : Outcome ε Unit :=
  if capacity * elemSize ≤ isizeMax then .ok () else .error .panic

/-- A result as an outcome without a panic. -/
def lift (x : Except ε α) : Outcome ε α := x.mapError .error

@[simp] lemma lift_ok (a : α) : lift (.ok a : Except ε α) = .ok a := rfl

@[simp] lemma lift_error (e : ε) : lift (.error e : Except ε α) = .error (.error e) := rfl

/-- The outcome as a result, where a panic counts as the error `e`. -/
def toExcept (e : ε) : Outcome ε α → Except ε α
  | .ok a => .ok a
  | .error (.error e') => .error e'
  | .error .panic => .error e

lemma toExcept_eq_ok {e : ε} {x : Outcome ε α} {a : α} : x.toExcept e = .ok a ↔ x = .ok a := by
  match x with
  | .ok _ => simp [toExcept]
  | .error (.error _) => simp [toExcept]
  | .error .panic => simp [toExcept]

/-! ### Weakest preconditions -/

/-- If the computation returns, its value satisfies `Q`; if it panics, `P`. -/
def Holds (P : Prop) (x : Outcome ε α) (Q : α → Prop) : Prop :=
  match x with
  | .ok a => Q a
  | .error (.error _) => True
  | .error .panic => P

section Holds

variable {P : Prop} {Q R : α → Prop} {x : Outcome ε α}

@[simp] lemma holds_ok (a : α) : Holds P (.ok a : Outcome ε α) Q ↔ Q a := Iff.rfl

@[simp] lemma holds_pure (a : α) : Holds P (pure a : Outcome ε α) Q ↔ Q a := Iff.rfl

@[simp] lemma holds_error (e : ε) : Holds P (.error (.error e) : Outcome ε α) Q ↔ True := Iff.rfl

@[simp] lemma holds_fail (e : ε) : Holds P (fail e : Outcome ε α) Q ↔ True := Iff.rfl

@[simp] lemma holds_panic : Holds P (.error .panic : Outcome ε α) Q ↔ P := Iff.rfl

@[simp] lemma holds_bind {Q : β → Prop} (f : α → Outcome ε β) :
    Holds P (x >>= f) Q ↔ Holds P x fun a => Holds P (f a) Q := by
  match x with
  | .ok _ => rfl
  | .error (.error _) => rfl
  | .error .panic => rfl

@[simp] lemma holds_rejectIf {Q : Unit → Prop} (c : Prop) [Decidable c] (e : ε) :
    Holds P (rejectIf c e) Q ↔ (¬ c → Q ()) := by
  by_cases h : c <;> simp [rejectIf, h]

@[simp] lemma holds_ite (c : Prop) [Decidable c] (y : Outcome ε α) :
    Holds P (if c then x else y) Q ↔ (c → Holds P x Q) ∧ (¬ c → Holds P y Q) := by
  by_cases h : c <;> simp [h]

@[simp] lemma holds_rejectUnless {Q : Unit → Prop} (c : Bool) (valid : Outcome ε Bool) (e : ε) :
    Holds P (rejectUnless c valid e) Q ↔
      (c = true → Holds P valid fun ok => ok = true → Q ()) ∧ (c = false → Q ()) := by
  cases c <;> simp [rejectUnless]

@[simp] lemma holds_okOr (e : ε) (o : Option α) :
    Holds P (okOr e o) Q ↔ ∀ a, o = some a → Q a := by
  cases o <;> simp [okOr]

lemma Holds.mono (h : Holds P x Q) (hQR : ∀ a, Q a → R a) : Holds P x R := by
  match x with
  | .ok a => exact hQR a h
  | .error (.error _) => trivial
  | .error .panic => exact h

/-- What a returned value satisfies. -/
lemma Holds.of_eq_ok {a : α} (h : Holds P x Q) (hx : x = .ok a) : Q a := by
  rw [hx] at h
  exact h

lemma holds_true_iff : Holds True x Q ↔ ∀ a, x = .ok a → Q a := by
  match x with
  | .ok a => simp
  | .error (.error e) => simp
  | .error .panic => simp

lemma Holds.ne_panic (h : Holds False x Q) : x ≠ .error .panic := by
  intro hx
  rw [hx] at h
  exact h

end Holds

/-! ### The operations that panic, within their range -/

section Range

variable {P : Prop}

@[simp] lemma index_of_lt {l : List α} {i : Nat} (h : i < l.length) :
    (index l i : Outcome ε α) = .ok l[i] := by
  simp [index, unwrap, h]

@[simp] lemma sub_of_le {a b : Nat} (h : b ≤ a) : (sub a b : Outcome ε Nat) = .ok (a - b) := by
  simp [sub, h]

@[simp] lemma slice_of_le {l : List α} {i j : Nat} (h : i ≤ j) (h' : j ≤ l.length) :
    (slice l i j : Outcome ε (List α)) = .ok ((l.drop i).take (j - i)) := by
  simp [slice, h, h']

@[simp] lemma remove_of_lt {l : List α} {i : Nat} (h : i < l.length) :
    (remove l i : Outcome ε (α × List α)) = .ok (l[i], l.eraseIdx i) := by
  simp [remove, h]

@[simp] lemma insert_of_le {l : List α} {i : Nat} (h : i ≤ l.length) (a : α) :
    (insert l i a : Outcome ε (List α)) = .ok (l.insertIdx i a) := by
  simp [insert, h]

@[simp] lemma swap_of_lt {l : List α} {i j : Nat} (hi : i < l.length) (hj : j < l.length) :
    (swap l i j : Outcome ε (List α)) = .ok ((l.set i l[j]).set j l[i]) := by
  simp [swap, hi, hj]

@[simp] lemma i64_of_mem {n : Int} (h : -2 ^ 63 ≤ n) (h' : n < 2 ^ 63) :
    (i64 n : Outcome ε Int) = .ok n := by
  simp only [i64]
  exact if_pos ⟨h, h'⟩

end Range

/-! ### Loops -/

/-- A loop keeps what every round keeps. -/
lemma holds_foldlM {P : Prop} {I : σ → Prop} {f : σ → α → Outcome ε σ} (l : List α)
    (hstep : ∀ s, I s → ∀ a ∈ l, Holds P (f s a) I) {s : σ} (hs : I s) :
    Holds P (l.foldlM f s) I := by
  induction l generalizing s with
  | nil => exact hs
  | cons a l ih =>
    rw [List.foldlM_cons, holds_bind]
    refine (hstep s hs a List.mem_cons_self).mono ?_
    intro s' hs'
    exact ih (fun t ht b hb => hstep t ht b (List.mem_cons_of_mem a hb)) hs'

lemma holds_mapM {P : Prop} {f : α → Outcome ε β} (l : List α)
    (hf : ∀ a ∈ l, Holds P (f a) fun _ => True) : Holds P (l.mapM f) fun _ => True := by
  induction l with
  | nil => simp
  | cons a l ih =>
    rw [List.mapM_cons, holds_bind]
    refine (hf a List.mem_cons_self).mono ?_
    intro b _
    rw [holds_bind]
    exact (ih fun c hc => hf c (List.mem_cons_of_mem a hc)).mono (by simp)

/-! ### Comparison of two computations -/

/-- Whenever `x` returns, `y` returns the same value. -/
def Refines (x y : Outcome ε α) : Prop := ∀ a, x = .ok a → y = .ok a

namespace Refines

lemma refl (x : Outcome ε α) : Refines x x := fun _ h => h

lemma bind {x y : Outcome ε α} {f g : α → Outcome ε β} (hxy : Refines x y)
    (hfg : ∀ a, x = .ok a → Refines (f a) (g a)) : Refines (x >>= f) (y >>= g) := by
  intro b hb
  obtain ⟨a, hx, hf⟩ := Result.bind_eq_ok.mp hb
  exact Result.bind_eq_ok.mpr ⟨a, hxy a hx, hfg a hx b hf⟩

/-- A check that is made less often. -/
lemma rejectIf {c d : Prop} [Decidable c] [Decidable d] {e : ε} (h : d → c) :
    Refines (Outcome.rejectIf c e) (Outcome.rejectIf d e) := by
  intro a ha
  by_cases hc : c
  · simp [Outcome.rejectIf, hc, fail] at ha
  · have hd : ¬ d := fun hd => hc (h hd)
    simp [Outcome.rejectIf, hd]

/-- A check under a flag that is set less often. -/
lemma rejectUnless {c d : Bool} (valid : Outcome ε Bool) {e : ε} (h : d = true → c = true) :
    Refines (Outcome.rejectUnless c valid e) (Outcome.rejectUnless d valid e) := by
  cases d with
  | true =>
    rw [h rfl]
    exact refl _
  | false =>
    intro a _
    rfl

lemma foldlM {f g : σ → α → Outcome ε σ} (h : ∀ s a, Refines (f s a) (g s a)) (l : List α)
    (s : σ) : Refines (l.foldlM f s) (l.foldlM g s) := by
  induction l generalizing s with
  | nil => exact refl _
  | cons a l ih =>
    rw [List.foldlM_cons, List.foldlM_cons]
    exact (h s a).bind fun s' _ => ih s'

end Refines

end Outcome
