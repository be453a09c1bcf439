import Mathlib.Data.List.Basic

/-!
# Framers

A framer cuts a stream into frames while the stream arrives. It looks at the bytes that it has and
waits for more, takes a first part off, or gives up. `drain` takes off what can be taken. What a
framer has decided does not change when more arrives, so that draining after every read is the same
as draining the whole stream once (`drain_append`).
-/

/-- What a framer does with the bytes it has. -/
inductive ParseStep (β μ : Type) where
  | wait
  | next (out : List μ) (rest : List β)
  | stop
  deriving DecidableEq

/-- A decision on the bytes that have arrived, which stands when more arrive. -/
structure Framer (β μ : Type) where
  parse : List β → ParseStep β μ
  shorter : ∀ {buf rest : List β} {out : List μ}, parse buf = .next out rest →
    rest.length < buf.length
  next_append : ∀ {buf rest : List β} {out : List μ} (suffix : List β),
    parse buf = .next out rest → parse (buf ++ suffix) = .next out (rest ++ suffix)
  stop_append : ∀ {buf : List β} (suffix : List β), parse buf = .stop →
    parse (buf ++ suffix) = .stop

namespace Framer

variable {β μ : Type} (f : Framer β μ)

/-- At most `n` steps of the loop. -/
def drainUpTo : Nat → List β → List μ × Option (List β)
  | 0, buf => ([], some buf)
  | n + 1, buf =>
    match f.parse buf with
    | .wait => ([], some buf)
    | .stop => ([], none)
    | .next out rest =>
      let (outs, left) := drainUpTo n rest
      (out ++ outs, left)

/-- What the loop gives out, and the bytes that are left unless it gives up. -/
def drain (buf : List β) : List μ × Option (List β) := f.drainUpTo (buf.length + 1) buf

variable {f} {buf rest : List β} {out : List μ}

/-- A step takes something off, so that the length of the buffer is enough fuel. -/
lemma drainUpTo_eq_drain {n : Nat} (h : buf.length < n) : f.drainUpTo n buf = f.drain buf := by
  induction n using Nat.strongRecOn generalizing buf with
  | _ n ih =>
    obtain ⟨n, rfl⟩ := Nat.exists_eq_add_of_lt h
    cases hp : f.parse buf with
    | wait => simp [drain, drainUpTo, hp]
    | stop => simp [drain, drainUpTo, hp]
    | next out rest =>
      have hlt := f.shorter hp
      have hleft := ih (buf.length + n) (by omega) (by omega : rest.length < buf.length + n)
      have hright := ih buf.length (by omega) hlt
      simp [drain, drainUpTo, hp, hleft, hright]

lemma drain_of_wait (h : f.parse buf = .wait) : f.drain buf = ([], some buf) := by
  simp [drain, drainUpTo, h]

lemma drain_of_stop (h : f.parse buf = .stop) : f.drain buf = ([], none) := by
  simp [drain, drainUpTo, h]

lemma drain_of_next (h : f.parse buf = .next out rest) :
    f.drain buf = (out ++ (f.drain rest).1, (f.drain rest).2) := by
  rw [drain, drainUpTo]
  simp only [h]
  rw [drainUpTo_eq_drain (f.shorter h)]

/-- The induction along the steps of the loop. -/
lemma drain_induction {P : List β → Prop} (hwait : ∀ buf, f.parse buf = .wait → P buf)
    (hstop : ∀ buf, f.parse buf = .stop → P buf)
    (hnext : ∀ buf out rest, f.parse buf = .next out rest → P rest → P buf) (buf : List β) :
    P buf := by
  induction hn : buf.length using Nat.strongRecOn generalizing buf with
  | _ n ih =>
    cases hp : f.parse buf with
    | wait => exact hwait buf hp
    | stop => exact hstop buf hp
    | next out rest => exact hnext buf out rest hp (ih rest.length (hn ▸ f.shorter hp) rest rfl)

/-- The loop ends where it waits. -/
lemma parse_of_drain (buf : List β) : (f.drain buf).2 = some rest → f.parse rest = .wait := by
  induction buf using f.drain_induction with
  | hwait buf hp =>
    intro h
    rw [drain_of_wait hp] at h
    obtain rfl := Option.some.inj h
    exact hp
  | hstop buf hp =>
    intro h
    simp [drain_of_stop hp] at h
  | hnext buf out next hp ih =>
    intro h
    rw [drain_of_next hp] at h
    exact ih h

/-- Draining a stream is draining its first part and then what is left of it with the rest. -/
lemma drain_append (buf suffix : List β) :
    f.drain (buf ++ suffix) =
      match f.drain buf with
      | (out, some rest) => (out ++ (f.drain (rest ++ suffix)).1, (f.drain (rest ++ suffix)).2)
      | (out, none) => (out, none) := by
  induction buf using f.drain_induction with
  | hwait buf hp => simp [drain_of_wait hp]
  | hstop buf hp => rw [drain_of_stop hp, drain_of_stop (f.stop_append suffix hp)]
  | hnext buf out rest hp ih =>
    rw [drain_of_next hp, drain_of_next (f.next_append suffix hp), ih]
    cases f.drain rest with
    | mk outs left => cases left <;> simp

/-! ### The places that the loop reaches -/

/-- The loop takes `stream` to `rest` and gives `out` out on the way. -/
inductive Reaches (f : Framer β μ) : List β → List μ → List β → Prop
  | refl (stream : List β) : Reaches f stream [] stream
  | step {stream next rest : List β} {out outs : List μ} (h : f.parse stream = .next out next)
      (hrest : Reaches f next outs rest) : Reaches f stream (out ++ outs) rest

lemma Reaches.drain_eq {stream : List β} (h : f.Reaches stream out rest) :
    f.drain stream = (out ++ (f.drain rest).1, (f.drain rest).2) := by
  induction h with
  | refl stream => simp
  | step hp _ ih => rw [drain_of_next hp, ih, List.append_assoc]

/-- What has been reached is reached as well when more has arrived. -/
lemma Reaches.append {stream : List β} (h : f.Reaches stream out rest) (suffix : List β) :
    f.Reaches (stream ++ suffix) out (rest ++ suffix) := by
  induction h with
  | refl stream => exact .refl _
  | step hp _ ih => exact .step (f.next_append suffix hp) ih

lemma reaches_drain (buf : List β) (h : (f.drain buf).2 = some rest) :
    f.Reaches buf (f.drain buf).1 rest := by
  induction buf using f.drain_induction with
  | hwait buf hp =>
    rw [drain_of_wait hp] at h ⊢
    obtain rfl := Option.some.inj h
    exact .refl _
  | hstop buf hp => simp [drain_of_stop hp] at h
  | hnext buf out next hp ih =>
    rw [drain_of_next hp] at h ⊢
    exact .step hp (ih h)

end Framer
