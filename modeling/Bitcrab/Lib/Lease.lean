import Mathlib.Logic.Relation
import Mathlib.Tactic.SplitIfs

/-!
# Leases

A lease has one holder at a time. It is granted while it is free; it is free again when its holder
gives it back, or once somebody finds that its term has passed. What has been granted and not given
back is outstanding, also after the term.
-/

/-- A lease with the time, the holder and the time of the grant, the grants that are not given back,
the newest first, and the number of grants and of holders that gave it back. -/
structure Lease (Owner : Type) where
  clock : Nat
  holder : Option (Owner × Nat)
  outstanding : List (Owner × Nat)
  granted : Nat
  returned : Nat

namespace Lease

variable {Owner : Type}

/-- A free lease at time 0. -/
def start : Lease Owner := ⟨0, none, [], 0, 0⟩

/-- What can happen to a lease of a given term. -/
inductive Step [DecidableEq Owner] (term : Nat) : Lease Owner → Lease Owner → Prop
  | tick (l : Lease Owner) (clock : Nat) (h : l.clock ≤ clock) : Step term l { l with clock }
  | grant (l : Lease Owner) (o : Owner) (h : l.holder = none) :
    Step term l { l with
      holder := some (o, l.clock)
      outstanding := (o, l.clock) :: l.outstanding
      granted := l.granted + 1 }
  | giveBack (l : Lease Owner) (o : Owner) (since : Nat) (h : l.holder = some (o, since)) :
    Step term l { l with
      holder := none
      outstanding := l.outstanding.filter (·.1 ≠ o)
      returned := l.returned + 1 }
  | late (l : Lease Owner) (o : Owner) (h : ∀ since, l.holder ≠ some (o, since)) :
    Step term l { l with outstanding := l.outstanding.filter (·.1 ≠ o) }
  | lapse (l : Lease Owner) (o : Owner) (since : Nat) (h : l.holder = some (o, since))
    (hterm : since + term ≤ l.clock) : Step term l { l with holder := none }

/-- Any number of steps. -/
def Steps [DecidableEq Owner] (term : Nat) : Lease Owner → Lease Owner → Prop :=
  Relation.ReflTransGen (Step term)

/-- What holds in every state: a number of lapsed terms has passed before the holder's grant, or up
to now if there is no holder, and everything outstanding but the holder's grant has lapsed. -/
structure Inv (term : Nat) (l : Lease Owner) : Prop where
  since_le : ∀ x, l.holder = some x → x.2 ≤ l.clock
  lapsed : ∃ n, l.granted = l.returned + n + (if l.holder.isSome then 1 else 0) ∧
    n * term ≤ (l.holder.map (·.2)).getD l.clock
  outstanding : ∃ rest, l.outstanding = l.holder.toList ++ rest ∧
    ∀ x ∈ rest, x.2 + term ≤ l.clock

variable {term : Nat} {l l' : Lease Owner}

lemma inv_start : (start : Lease Owner).Inv term where
  since_le := nofun
  lapsed := ⟨0, rfl, by simp⟩
  outstanding := ⟨[], rfl, nofun⟩

/-- A holder whose term has passed is one more lapsed term. -/
lemma Inv.lapse (h : l.Inv term) {o : Owner} {since : Nat} (hholder : l.holder = some (o, since))
    (hterm : since + term ≤ l.clock) : ({ l with holder := none } : Lease Owner).Inv term := by
  obtain ⟨n, hcount, hn⟩ := h.lapsed
  obtain ⟨rest, hrest, hlapsed⟩ := h.outstanding
  rw [hholder] at hcount hn hrest
  simp only [Option.isSome_some, if_true, Option.map_some, Option.getD_some] at hcount hn
  refine ⟨nofun, ⟨n + 1, ?_, ?_⟩, ⟨(o, since) :: rest, hrest, ?_⟩⟩
  · simp only [Option.isSome_none, Bool.false_eq_true, if_false]
    omega
  · change (n + 1) * term ≤ l.clock
    rw [Nat.succ_mul]
    omega
  · exact List.forall_mem_cons.mpr ⟨hterm, hlapsed⟩

/-- One step. -/
lemma Inv.step [DecidableEq Owner] (h : l.Inv term) (hstep : Step term l l') : l'.Inv term := by
  obtain ⟨n, hcount, hn⟩ := h.lapsed
  obtain ⟨rest, hrest, hlapsed⟩ := h.outstanding
  cases hstep with
  | tick clock hle =>
    refine ⟨fun x hx => Nat.le_trans (h.since_le x hx) hle, ⟨n, hcount, ?_⟩, ⟨rest, hrest, ?_⟩⟩
    · dsimp only
      cases hholder : l.holder with
      | none =>
        rw [hholder] at hn
        exact Nat.le_trans hn hle
      | some x =>
        rw [hholder] at hn
        exact hn
    · exact fun x hx => Nat.le_trans (hlapsed x hx) hle
  | grant o hfree =>
    rw [hfree] at hcount hn hrest
    refine ⟨?_, ⟨n, ?_, hn⟩, ⟨rest, ?_, hlapsed⟩⟩
    · rintro x ⟨⟩
      exact Nat.le_refl _
    · exact congrArg (· + 1) hcount
    · exact congrArg ((o, l.clock) :: ·) hrest
  | giveBack o since hholder =>
    have hle := h.since_le _ hholder
    rw [hholder] at hcount hn hrest
    refine ⟨nofun, ⟨n, ?_, Nat.le_trans hn hle⟩, ⟨rest.filter (·.1 ≠ o), ?_, ?_⟩⟩
    · simp only [Option.isSome_some, Option.isSome_none, if_true, Bool.false_eq_true,
        if_false] at hcount ⊢
      omega
    · simp [hrest]
    · exact fun x hx => hlapsed x (List.mem_filter.mp hx).1
  | late o hother =>
    refine ⟨h.since_le, ⟨n, hcount, hn⟩, ⟨rest.filter (·.1 ≠ o), ?_, ?_⟩⟩
    · have hkeep : l.holder.toList.filter (·.1 ≠ o) = l.holder.toList := by
        refine List.filter_eq_self.mpr fun x hx => decide_eq_true ?_
        rintro rfl
        exact hother x.2 (Option.mem_toList.mp hx)
      change l.outstanding.filter (·.1 ≠ o) = l.holder.toList ++ rest.filter (·.1 ≠ o)
      rw [hrest, List.filter_append, hkeep]
    · exact fun x hx => hlapsed x (List.mem_filter.mp hx).1
  | lapse o since hholder hterm => exact h.lapse hholder hterm

lemma Inv.steps [DecidableEq Owner] (h : l.Inv term) (hsteps : Steps term l l') : l'.Inv term := by
  induction hsteps with
  | refl => exact h
  | tail _ hstep ih => exact ih.step hstep

/-- A lease is granted once for each time it was given back, once for each term that has passed, and
once more. -/
lemma Inv.granted_le (h : l.Inv term) (hterm : 0 < term) :
    l.granted ≤ l.returned + l.clock / term + 1 := by
  obtain ⟨n, hcount, hn⟩ := h.lapsed
  have hclock : n * term ≤ l.clock := by
    cases hholder : l.holder with
    | none =>
      rw [hholder] at hn
      exact hn
    | some x =>
      rw [hholder] at hn
      exact Nat.le_trans hn (h.since_le x hholder)
  have hdiv : n ≤ l.clock / term := (Nat.le_div_iff_mul_le hterm).mpr hclock
  split_ifs at hcount <;> omega

/-- At most one outstanding grant is within its term. -/
lemma Inv.outstanding_le_one (h : l.Inv term) :
    (l.outstanding.filter fun x => decide (l.clock < x.2 + term)).length ≤ 1 := by
  obtain ⟨rest, hrest, hlapsed⟩ := h.outstanding
  have hnone : rest.filter (fun x => decide (l.clock < x.2 + term)) = [] :=
    List.filter_eq_nil_iff.mpr fun x hx => by simpa using hlapsed x hx
  rw [hrest, List.filter_append, hnone, List.append_nil]
  refine Nat.le_trans (List.length_filter_le _ _) ?_
  cases l.holder <;> exact Nat.le_of_ble_eq_true rfl

end Lease
