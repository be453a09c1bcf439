import Bitcrab.Lib.Loop
import Mathlib.Data.UInt
import Mathlib.Tactic

/-!
# Block locators (`build_block_locator`)

The walk back from the tip, over the heights that a partial resolver knows. Nothing in it depends on
what a hash is.
-/

namespace Bitcrab

/-- `saturating_sub` at `u32`. -/
def saturatingSub (a b : UInt32) : UInt32 := UInt32.ofNat (a.toNat - b.toNat)

/-- `saturating_mul` at `u32`. -/
def saturatingMul (a b : UInt32) : UInt32 := UInt32.ofNat (min (a.toNat * b.toNat) (2 ^ 32 - 1))

lemma toNat_ofNat_sub (height : UInt32) (n : Nat) :
    (UInt32.ofNat (height.toNat - n)).toNat = height.toNat - n := by
  have := height.toNat_lt
  exact UInt32.toNat_ofNat_of_lt' (show _ < 2 ^ 32 by omega)

@[simp] lemma toNat_saturatingSub (a b : UInt32) :
    (saturatingSub a b).toNat = a.toNat - b.toNat :=
  toNat_ofNat_sub a b.toNat

@[simp] lemma toNat_saturatingMul (a b : UInt32) :
    (saturatingMul a b).toNat = min (a.toNat * b.toNat) (2 ^ 32 - 1) :=
  UInt32.toNat_ofNat_of_lt' (show _ < 2 ^ 32 by omega)

lemma toNat_saturatingMul_two (a : UInt32) :
    (saturatingMul a 2).toNat = min (a.toNat * 2) (2 ^ 32 - 1) :=
  toNat_saturatingMul a 2

/-- The locals of `build_block_locator`, with its `have` as `found`. -/
structure LocatorWalk (α : Type) where
  found : List α
  step : UInt32
  height : UInt32

variable {α β : Type}

/-- The hashes found after the current height is looked up. -/
def LocatorWalk.lookup (hashAtHeight : UInt32 → Option α) (w : LocatorWalk α) : List α :=
  match hashAtHeight w.height with
  | some hash => w.found ++ [hash]
  | none => w.found

/-- The body of the loop. -/
def locatorBody (hashAtHeight : UInt32 → Option α) (w : LocatorWalk α) :
    LocatorWalk α ⊕ List α :=
  let found := w.lookup hashAtHeight
  if w.height = 0 then .inr found
  else .inl
    { found
      height := saturatingSub w.height w.step
      step := if found.length > 10 then saturatingMul w.step 2 else w.step }

/-- `build_block_locator` terminates and returns `locator`. -/
def BuildsBlockLocator (tipHeight : UInt32) (hashAtHeight : UInt32 → Option α) (locator : List α) :
    Prop :=
  Loop.BreaksWith (locatorBody hashAtHeight) ⟨[], 1, tipHeight⟩ locator

/-- The resolver that answers with the height too. -/
def withHeight (hashAtHeight : UInt32 → Option α) (height : UInt32) : Option (UInt32 × α) :=
  (hashAtHeight height).map (height, ·)

/-! ### One round -/

lemma locatorBody_eq_inl {hashAtHeight : UInt32 → Option α} {w w' : LocatorWalk α}
    (h : locatorBody hashAtHeight w = .inl w') :
    w.height ≠ 0 ∧ w'.found = w.lookup hashAtHeight ∧
      w'.height = saturatingSub w.height w.step ∧
      w'.step =
        if (w.lookup hashAtHeight).length > 10 then saturatingMul w.step 2 else w.step := by
  unfold locatorBody at h
  split_ifs at h with h0
  cases h
  exact ⟨h0, rfl, rfl, rfl⟩

lemma locatorBody_eq_inr {hashAtHeight : UInt32 → Option α} {w : LocatorWalk α} {locator : List α}
    (h : locatorBody hashAtHeight w = .inr locator) :
    w.height = 0 ∧ locator = w.lookup hashAtHeight := by
  unfold locatorBody at h
  split_ifs at h with h0
  cases h
  exact ⟨h0, rfl⟩

lemma LocatorWalk.lookup_of_some {hashAtHeight : UInt32 → Option α} {w : LocatorWalk α} {hash : α}
    (h : hashAtHeight w.height = some hash) : w.lookup hashAtHeight = w.found ++ [hash] := by
  rw [lookup, h]

lemma LocatorWalk.lookup_of_none {hashAtHeight : UInt32 → Option α} {w : LocatorWalk α}
    (h : hashAtHeight w.height = none) : w.lookup hashAtHeight = w.found := by
  rw [lookup, h]

lemma LocatorWalk.length_lookup_le (hashAtHeight : UInt32 → Option α) (w : LocatorWalk α) :
    w.found.length ≤ (w.lookup hashAtHeight).length ∧
      (w.lookup hashAtHeight).length ≤ w.found.length + 1 := by
  cases h : hashAtHeight w.height with
  | none => simp [lookup_of_none h]
  | some hash => simp [lookup_of_some h]

/-! ### Termination and length -/

/-- After the tenth hash, each found hash doubles both the step and the way behind. -/
structure LocatorWalk.Bounded (w : LocatorWalk α) : Prop where
  step_pos : 0 < w.step.toNat
  step_ge : 2 ^ (w.found.length - 10) ≤ w.step.toNat ∨ w.step.toNat = 2 ^ 32 - 1
  height_le : 2 ^ (w.found.length - 10) + w.height.toNat ≤ 2 ^ 32

lemma LocatorWalk.bounded_init (tipHeight : UInt32) :
    (⟨[], 1, tipHeight⟩ : LocatorWalk α).Bounded := by
  have := tipHeight.toNat_lt
  constructor
  · exact Nat.one_pos
  · exact .inl (Nat.le_refl 1)
  · simp only [List.length_nil]
    omega

lemma LocatorWalk.Bounded.round {hashAtHeight : UInt32 → Option α} {w w' : LocatorWalk α}
    (hw : w.Bounded) (h : locatorBody hashAtHeight w = .inl w') :
    w'.Bounded ∧ w'.height < w.height := by
  obtain ⟨h0, hfound, hheight, hstep⟩ := locatorBody_eq_inl h
  obtain ⟨hpos, hge, hle⟩ := hw
  obtain ⟨hlow, hup⟩ := w.length_lookup_le hashAtHeight
  have hheight_pos : 0 < w.height.toNat :=
    Nat.pos_of_ne_zero fun h => h0 (UInt32.toNat_inj.mp h)
  have hlt := w.height.toNat_lt
  -- the walk is not at its end, so the power is not the last one
  have hpow : 2 ^ (w.found.length - 10) * 2 ≤ 2 ^ 32 := by
    have hexp : w.found.length - 10 < 32 :=
      (Nat.pow_lt_pow_iff_right (by decide : 1 < 2)).mp (by omega)
    rw [← Nat.pow_succ]
    exact Nat.pow_le_pow_right (by decide) hexp
  have hnext : 2 ^ (w'.found.length - 10) ≤ 2 ^ (w.found.length - 10) * 2 := by
    rw [← Nat.pow_succ, hfound]
    exact Nat.pow_le_pow_right (by decide) (by omega)
  have hheight' : w'.height.toNat = w.height.toNat - w.step.toNat := by
    rw [hheight, toNat_saturatingSub]
  have hstep' : w.step.toNat ≤ w'.step.toNat ∧
      (2 ^ (w'.found.length - 10) ≤ w'.step.toNat ∨ w'.step.toNat = 2 ^ 32 - 1) := by
    rw [hstep]
    have hstep_lt := w.step.toNat_lt
    split_ifs with hlen
    · rw [toNat_saturatingMul_two]
      omega
    · have hone : w'.found.length - 10 = 0 := by rw [hfound]; omega
      rw [hone]
      omega
  exact ⟨⟨by omega, hstep'.2, by omega⟩, UInt32.lt_iff_toNat_lt.mpr (by omega)⟩

/-- The walk terminates, whatever the resolver knows. -/
theorem exists_buildsBlockLocator (tipHeight : UInt32) (hashAtHeight : UInt32 → Option α) :
    ∃ locator, BuildsBlockLocator tipHeight hashAtHeight locator :=
  Loop.exists_breaksWith _ LocatorWalk.Bounded (fun w => w.height.toNat)
    (fun _ _ hw h => ⟨(hw.round h).1, UInt32.lt_iff_toNat_lt.mp (hw.round h).2⟩)
    (LocatorWalk.bounded_init tipHeight)

/-- Eleven hashes one block apart, and one for each power of two up to the range of a height. -/
theorem BuildsBlockLocator.length_le {tipHeight : UInt32} {hashAtHeight : UInt32 → Option α}
    {locator : List α} (h : BuildsBlockLocator tipHeight hashAtHeight locator) :
    locator.length ≤ 43 := by
  refine h.post LocatorWalk.Bounded (fun locator => locator.length ≤ 43)
    (fun _ _ hw hround => (hw.round hround).1) ?_ (LocatorWalk.bounded_init tipHeight)
  intro w locator hw hbreak
  obtain ⟨h0, rfl⟩ := locatorBody_eq_inr hbreak
  have hup := (w.length_lookup_le hashAtHeight).2
  have hexp : w.found.length - 10 ≤ 32 :=
    (Nat.pow_le_pow_iff_right (by decide : 1 < 2)).mp (by have := hw.height_le; omega)
  omega

/-! ### The heights that resolve -/

lemma withHeight_eq_some {hashAtHeight : UInt32 → Option α} {height : UInt32}
    {entry : UInt32 × α} (h : withHeight hashAtHeight height = some entry) :
    entry.1 = height ∧ hashAtHeight height = some entry.2 := by
  obtain ⟨hash, hhash, rfl⟩ := Option.map_eq_some_iff.mp h
  exact ⟨rfl, hhash⟩

/-- The walk does not look at the hashes. -/
theorem BuildsBlockLocator.map {tipHeight : UInt32} {hashAtHeight : UInt32 → Option α}
    {locator : List α} (f : α → β) (h : BuildsBlockLocator tipHeight hashAtHeight locator) :
    BuildsBlockLocator tipHeight (fun height => (hashAtHeight height).map f) (locator.map f) := by
  refine Loop.BreaksWith.map
    (fun w : LocatorWalk α => (⟨w.found.map f, w.step, w.height⟩ : LocatorWalk β)) (List.map f) ?_ h
  intro w
  have hlookup : (⟨w.found.map f, w.step, w.height⟩ : LocatorWalk β).lookup
      (fun height => (hashAtHeight height).map f) = (w.lookup hashAtHeight).map f := by
    cases hhash : hashAtHeight w.height with
    | none => simp [LocatorWalk.lookup, hhash]
    | some hash => simp [LocatorWalk.lookup, hhash]
  unfold locatorBody
  simp only [hlookup, List.length_map]
  split_ifs <;> rfl

/-- What the walk has found, with the heights. -/
structure LocatorWalk.Descends (tipHeight : UInt32) (hashAtHeight : UInt32 → Option α)
    (w : LocatorWalk (UInt32 × α)) : Prop where
  bounded : w.Bounded
  resolves : ∀ entry ∈ w.found, hashAtHeight entry.1 = some entry.2
  descends : (w.found.map Prod.fst).Pairwise (· > ·)
  above : ∀ height ∈ w.found.map Prod.fst, w.height < height
  height_le : w.height ≤ tipHeight
  found_le : ∀ height ∈ w.found.map Prod.fst, height ≤ tipHeight
  starts : (hashAtHeight tipHeight).isSome →
    (w.found.map Prod.fst).head? = some tipHeight ∨ (w.found = [] ∧ w.height = tipHeight)

lemma LocatorWalk.descends_init (tipHeight : UInt32) (hashAtHeight : UInt32 → Option α) :
    (⟨[], 1, tipHeight⟩ : LocatorWalk (UInt32 × α)).Descends tipHeight hashAtHeight where
  bounded := bounded_init tipHeight
  resolves := by simp
  descends := by simp
  above := by simp
  height_le := UInt32.le_refl tipHeight
  found_le := by simp
  starts := fun _ => .inr ⟨rfl, rfl⟩

/-- What a lookup finds keeps the order, and is not below the current height. -/
lemma LocatorWalk.Descends.lookup {tipHeight : UInt32} {hashAtHeight : UInt32 → Option α}
    {w : LocatorWalk (UInt32 × α)} (hw : w.Descends tipHeight hashAtHeight) :
    (∀ entry ∈ w.lookup (withHeight hashAtHeight), hashAtHeight entry.1 = some entry.2) ∧
      ((w.lookup (withHeight hashAtHeight)).map Prod.fst).Pairwise (· > ·) ∧
      (∀ height ∈ (w.lookup (withHeight hashAtHeight)).map Prod.fst,
        w.height ≤ height ∧ height ≤ tipHeight) ∧
      ((hashAtHeight tipHeight).isSome →
        ((w.lookup (withHeight hashAtHeight)).map Prod.fst).head? = some tipHeight) := by
  cases h : withHeight hashAtHeight w.height with
  | none =>
    rw [lookup_of_none h]
    refine ⟨hw.resolves, hw.descends, fun height hmem => ?_, fun htip => ?_⟩
    · exact ⟨UInt32.le_of_lt (hw.above height hmem), hw.found_le height hmem⟩
    · rcases hw.starts htip with hhead | ⟨-, hheight⟩
      · exact hhead
      · rw [hheight, withHeight, Option.map_eq_none_iff] at h
        rw [h] at htip
        cases htip
  | some entry =>
    obtain ⟨hheight, hhash⟩ := withHeight_eq_some h
    rw [lookup_of_some h, List.map_append, List.map_singleton, hheight]
    refine ⟨fun e he => ?_, ?_, fun height hmem => ?_, fun htip => ?_⟩
    · rcases List.mem_append.mp he with he | he
      · exact hw.resolves e he
      · rw [List.mem_singleton] at he
        rw [he, hheight, hhash]
    · refine List.pairwise_append.mpr ⟨hw.descends, List.pairwise_singleton _ _, ?_⟩
      intro a ha b hb
      rw [List.mem_singleton.mp hb]
      exact hw.above a ha
    · rcases List.mem_append.mp hmem with hmem | hmem
      · exact ⟨UInt32.le_of_lt (hw.above height hmem), hw.found_le height hmem⟩
      · rw [List.mem_singleton.mp hmem]
        exact ⟨UInt32.le_refl _, hw.height_le⟩
    · rcases hw.starts htip with hhead | ⟨hnil, hheight'⟩
      · rw [List.head?_append, hhead]
        rfl
      · rw [hnil, hheight']
        rfl

lemma LocatorWalk.Descends.round {tipHeight : UInt32} {hashAtHeight : UInt32 → Option α}
    {w w' : LocatorWalk (UInt32 × α)} (hw : w.Descends tipHeight hashAtHeight)
    (h : locatorBody (withHeight hashAtHeight) w = .inl w') :
    w'.Descends tipHeight hashAtHeight := by
  obtain ⟨hbounded, hlt⟩ := hw.bounded.round h
  obtain ⟨-, hfound, -, -⟩ := locatorBody_eq_inl h
  obtain ⟨hresolves, hdescends, habove, hstarts⟩ := hw.lookup
  rw [← hfound] at hresolves hdescends habove hstarts
  exact
    { bounded := hbounded
      resolves := hresolves
      descends := hdescends
      above := fun height hmem => UInt32.lt_of_lt_of_le hlt (habove height hmem).1
      height_le := UInt32.le_trans (UInt32.le_of_lt hlt) hw.height_le
      found_le := fun height hmem => (habove height hmem).2
      starts := fun htip => .inl (hstarts htip) }

lemma withHeight_map_snd (hashAtHeight : UInt32 → Option α) (height : UInt32) :
    (withHeight hashAtHeight height).map Prod.snd = hashAtHeight height := by
  rw [withHeight, Option.map_map]
  cases hashAtHeight height <;> rfl

/-- The entries of a finished walk. -/
theorem BuildsBlockLocator.entries {tipHeight : UInt32} {hashAtHeight : UInt32 → Option α}
    {entries : List (UInt32 × α)}
    (h : BuildsBlockLocator tipHeight (withHeight hashAtHeight) entries) :
    (∀ entry ∈ entries, hashAtHeight entry.1 = some entry.2) ∧
      (entries.map Prod.fst).Pairwise (· > ·) ∧
      (∀ height ∈ entries.map Prod.fst, height ≤ tipHeight) ∧
      ((hashAtHeight tipHeight).isSome → (entries.map Prod.fst).head? = some tipHeight) ∧
      ((hashAtHeight 0).isSome → (entries.map Prod.fst).getLast? = some 0) := by
  refine h.post (LocatorWalk.Descends tipHeight hashAtHeight) (fun entries =>
    (∀ entry ∈ entries, hashAtHeight entry.1 = some entry.2) ∧
      (entries.map Prod.fst).Pairwise (· > ·) ∧
      (∀ height ∈ entries.map Prod.fst, height ≤ tipHeight) ∧
      ((hashAtHeight tipHeight).isSome → (entries.map Prod.fst).head? = some tipHeight) ∧
      ((hashAtHeight 0).isSome → (entries.map Prod.fst).getLast? = some 0))
    (fun _ _ hw hround => hw.round hround) ?_ (LocatorWalk.descends_init tipHeight hashAtHeight)
  intro w entries hw hbreak
  obtain ⟨h0, rfl⟩ := locatorBody_eq_inr hbreak
  obtain ⟨hresolves, hdescends, habove, hstarts⟩ := hw.lookup
  refine ⟨hresolves, hdescends, fun height hmem => (habove height hmem).2, hstarts,
    fun hgenesis => ?_⟩
  obtain ⟨hash, hhash⟩ := Option.isSome_iff_exists.mp hgenesis
  have hlookup : w.lookup (withHeight hashAtHeight) = w.found ++ [(0, hash)] :=
    LocatorWalk.lookup_of_some (by rw [withHeight, h0, hhash]; rfl)
  rw [hlookup, List.map_append, List.map_singleton, List.getLast?_append]
  rfl

/-- Every locator is that of some entries. -/
theorem BuildsBlockLocator.exists_entries {tipHeight : UInt32}
    {hashAtHeight : UInt32 → Option α} {locator : List α}
    (h : BuildsBlockLocator tipHeight hashAtHeight locator) :
    ∃ entries, BuildsBlockLocator tipHeight (withHeight hashAtHeight) entries ∧
      locator = entries.map Prod.snd := by
  obtain ⟨entries, hentries⟩ := exists_buildsBlockLocator tipHeight (withHeight hashAtHeight)
  have hmap := hentries.map Prod.snd
  rw [funext (withHeight_map_snd hashAtHeight)] at hmap
  exact ⟨entries, hentries, Loop.BreaksWith.unique h hmap⟩

/-- The walk looks at the height below the tip, if there is one. -/
theorem BuildsBlockLocator.mem_pred {tipHeight : UInt32} {hashAtHeight : UInt32 → Option α}
    {locator : List α} {hash : α} (h : BuildsBlockLocator tipHeight hashAtHeight locator)
    (hne : tipHeight ≠ 0) (hhash : hashAtHeight (saturatingSub tipHeight 1) = some hash) :
    hash ∈ locator := by
  have hlookup : ∀ w : LocatorWalk α, w.height = saturatingSub tipHeight 1 ∨ hash ∈ w.found →
      hash ∈ w.lookup hashAtHeight := by
    rintro w (hheight | hmem)
    · rw [LocatorWalk.lookup_of_some (hheight ▸ hhash)]
      exact List.mem_append_right _ (List.mem_singleton.mpr rfl)
    · cases hw : hashAtHeight w.height with
      | none => rwa [LocatorWalk.lookup_of_none hw]
      | some other =>
        rw [LocatorWalk.lookup_of_some hw]
        exact List.mem_append_left _ hmem
  refine h.post (fun w => (w.found = [] ∧ w.step = 1 ∧ w.height = tipHeight) ∨
    (w.height = saturatingSub tipHeight 1 ∨ hash ∈ w.found)) (fun locator => hash ∈ locator)
    ?_ ?_ (.inl ⟨rfl, rfl, rfl⟩)
  · intro w w' hw hround
    obtain ⟨-, hfound, hheight, -⟩ := locatorBody_eq_inl hround
    rcases hw with ⟨-, hstep, htip⟩ | hw
    · rw [hheight, hstep, htip]
      exact .inr (.inl rfl)
    · rw [hfound]
      exact .inr (.inr (hlookup w hw))
  · intro w locator hw hbreak
    obtain ⟨h0, rfl⟩ := locatorBody_eq_inr hbreak
    rcases hw with ⟨-, -, htip⟩ | hw
    · exact absurd (htip.symm.trans h0) hne
    · exact hlookup w hw

/-! ### A chain that resolves everywhere -/

/-- How far behind the tip entry `i` is, while the walk has not reached genesis. -/
def locatorOffset : ℕ → ℕ
  | 0 => 0
  | i + 1 => locatorOffset i + 2 ^ (i - 10)

/-- What the walk has found when every height resolves. -/
structure LocatorWalk.Dense (tipHeight : UInt32) (w : LocatorWalk (UInt32 × α)) : Prop where
  bounded : w.Bounded
  found : ∀ i height, (w.found.map Prod.fst)[i]? = some height →
    height.toNat + locatorOffset i = tipHeight.toNat ∧ 0 < height.toNat
  height : w.height.toNat = tipHeight.toNat - locatorOffset w.found.length
  step_le : w.step.toNat ≤ 2 ^ (w.found.length - 10)
  below : w.height ≤ tipHeight

lemma LocatorWalk.dense_init (tipHeight : UInt32) :
    (⟨[], 1, tipHeight⟩ : LocatorWalk (UInt32 × α)).Dense tipHeight where
  bounded := bounded_init tipHeight
  found := by simp
  height := rfl
  step_le := Nat.le_refl 1
  below := UInt32.le_refl tipHeight

lemma LocatorWalk.Dense.round {tipHeight : UInt32} {hashAtHeight : UInt32 → Option α}
    (hall : ∀ height ≤ tipHeight, (hashAtHeight height).isSome)
    {w w' : LocatorWalk (UInt32 × α)} (hw : w.Dense tipHeight)
    (h : locatorBody (withHeight hashAtHeight) w = .inl w') : w'.Dense tipHeight := by
  obtain ⟨hbounded, hlt⟩ := hw.bounded.round h
  obtain ⟨h0, hfound, hheight, hstep⟩ := locatorBody_eq_inl h
  obtain ⟨hash, hhash⟩ := Option.isSome_iff_exists.mp (hall w.height hw.below)
  have hlookup : w.lookup (withHeight hashAtHeight) = w.found ++ [(w.height, hash)] :=
    lookup_of_some (by rw [withHeight, hhash]; rfl)
  rw [hlookup] at hfound hstep
  have hheight_pos : 0 < w.height.toNat :=
    Nat.pos_of_ne_zero fun h => h0 (UInt32.toNat_inj.mp h)
  have hlength : w'.found.length = w.found.length + 1 := by simp [hfound]
  have hw_height := hw.height
  -- no saturation: the power is in the range as long as the walk goes on
  have hstep_eq : w.step.toNat = 2 ^ (w.found.length - 10) := by
    have hge := hw.bounded.step_ge
    have hle := hw.bounded.height_le
    have hstep_le := hw.step_le
    omega
  refine ⟨hbounded, fun i height hi => ?_, ?_, ?_, ?_⟩
  · rw [hfound, List.map_append, List.map_singleton, List.getElem?_append] at hi
    split_ifs at hi with hlen
    · exact hw.found i height hi
    · rw [List.getElem?_singleton] at hi
      split_ifs at hi with hi0
      cases hi
      have hi' : i = w.found.length := by
        rw [List.length_map] at hlen hi0
        omega
      subst hi'
      refine ⟨?_, hheight_pos⟩
      show w.height.toNat + locatorOffset w.found.length = tipHeight.toNat
      omega
  · rw [hheight, toNat_saturatingSub, hlength, locatorOffset, hstep_eq, hw_height]
    omega
  · rw [hstep, hlength]
    split_ifs with hlen
    · rw [List.length_append, List.length_singleton] at hlen
      rw [toNat_saturatingMul_two, hstep_eq,
        show w.found.length + 1 - 10 = w.found.length - 10 + 1 by omega, Nat.pow_succ]
      omega
    · rw [hstep_eq]
      exact Nat.pow_le_pow_right (by decide) (by omega)
  · exact UInt32.le_trans (UInt32.le_of_lt hlt) hw.below

/-- The distance behind the tip of every found height, of which only the last can be genesis. -/
theorem BuildsBlockLocator.offsets {tipHeight : UInt32} {hashAtHeight : UInt32 → Option α}
    (hall : ∀ height ≤ tipHeight, (hashAtHeight height).isSome) {entries : List (UInt32 × α)}
    (h : BuildsBlockLocator tipHeight (withHeight hashAtHeight) entries) :
    ∀ i height, (entries.map Prod.fst)[i]? = some height →
      height.toNat = tipHeight.toNat - locatorOffset i ∧
        (i + 1 < entries.length → locatorOffset i < tipHeight.toNat) := by
  refine h.post (LocatorWalk.Dense tipHeight) (fun entries => ∀ i height,
    (entries.map Prod.fst)[i]? = some height → height.toNat = tipHeight.toNat - locatorOffset i ∧
      (i + 1 < entries.length → locatorOffset i < tipHeight.toNat))
    (fun _ _ hw hround => hw.round hall hround) ?_ (LocatorWalk.dense_init tipHeight)
  intro w entries hw hbreak i height hi
  obtain ⟨h0, rfl⟩ := locatorBody_eq_inr hbreak
  obtain ⟨hash, hhash⟩ := Option.isSome_iff_exists.mp (hall w.height hw.below)
  have hlookup : w.lookup (withHeight hashAtHeight) = w.found ++ [(w.height, hash)] :=
    LocatorWalk.lookup_of_some (by rw [withHeight, hhash]; rfl)
  rw [hlookup, List.map_append, List.map_singleton, List.getElem?_append] at hi
  rw [hlookup, List.length_append, List.length_singleton]
  split_ifs at hi with hlen
  · obtain ⟨hoffset, hpos⟩ := hw.found i height hi
    exact ⟨by omega, fun _ => by omega⟩
  · rw [List.getElem?_singleton] at hi
    split_ifs at hi with hi0
    cases hi
    rw [List.length_map] at hlen hi0
    have hi' : i = w.found.length := by omega
    exact ⟨hi' ▸ hw.height, fun hlt => by omega⟩

lemma locatorOffset_mono : Monotone locatorOffset :=
  monotone_nat_of_le_succ fun _ => Nat.le_add_right _ _

lemma locatorOffset_pos {i : ℕ} (hi : 0 < i) : 0 < locatorOffset i := by
  obtain ⟨i, rfl⟩ := Nat.exists_eq_succ_of_ne_zero (Nat.ne_of_gt hi)
  exact Nat.lt_of_lt_of_le (Nat.two_pow_pos (i - 10)) (Nat.le_add_left _ _)

/-- The hashes of a locator, by their distance behind the tip. -/
theorem BuildsBlockLocator.mem_iff {tipHeight : UInt32} {hashAtHeight : UInt32 → Option α}
    (hall : ∀ height ≤ tipHeight, (hashAtHeight height).isSome) {locator : List α}
    (h : BuildsBlockLocator tipHeight hashAtHeight locator) {hash : α} :
    hash ∈ locator ↔
      ∃ i, hashAtHeight (UInt32.ofNat (tipHeight.toNat - locatorOffset i)) = some hash := by
  obtain ⟨entries, hentries, rfl⟩ := h.exists_entries
  obtain ⟨hresolves, -, -, -, hends⟩ := hentries.entries
  have hoffsets := hentries.offsets hall
  have hat : ∀ i entry, entries[i]? = some entry →
      entry.1 = UInt32.ofNat (tipHeight.toNat - locatorOffset i) := by
    intro i entry hi
    obtain ⟨hheight, -⟩ := hoffsets i entry.1 (by rw [List.getElem?_map, hi]; rfl)
    rw [← hheight, UInt32.ofNat_toNat]
  constructor
  · intro hmem
    obtain ⟨entry, hentry, rfl⟩ := List.mem_map.mp hmem
    obtain ⟨i, hi⟩ := List.getElem?_of_mem hentry
    exact ⟨i, by rw [← hat i entry hi]; exact hresolves entry hentry⟩
  · rintro ⟨i, hi⟩
    -- an index past the end stands for the last height, which is 0
    obtain ⟨j, entry, hj, hsame⟩ : ∃ j entry, entries[j]? = some entry ∧
        tipHeight.toNat - locatorOffset i = tipHeight.toNat - locatorOffset j := by
      cases hget : entries[i]? with
      | some entry => exact ⟨i, entry, hget, rfl⟩
      | none =>
        have hlast := hends (hall 0 (UInt32.zero_le))
        rw [List.getLast?_map, Option.map_eq_some_iff] at hlast
        obtain ⟨entry, hentry, hzero⟩ := hlast
        rw [List.getLast?_eq_getElem?] at hentry
        refine ⟨entries.length - 1, entry, hentry, ?_⟩
        have hlen := List.getElem?_eq_none_iff.mp hget
        have hmono := locatorOffset_mono (show entries.length - 1 ≤ i by omega)
        obtain ⟨hheight, -⟩ := hoffsets _ entry.1 (by rw [List.getElem?_map, hentry]; rfl)
        rw [hzero] at hheight
        have hend : tipHeight.toNat - locatorOffset (entries.length - 1) = 0 := hheight.symm
        omega
    have hentry := List.mem_of_getElem? hj
    rw [hsame, ← hat j entry hj, hresolves entry hentry] at hi
    obtain rfl := Option.some.inj hi
    exact List.mem_map_of_mem hentry

/-! ### The shape -/

lemma lt_length_of_getElem?_map {f : α → β} {l : List α} {i : ℕ} {b : β}
    (h : (l.map f)[i]? = some b) : i < l.length := by
  obtain ⟨hlt, -⟩ := List.getElem?_eq_some_iff.mp h
  rwa [List.length_map] at hlt

/-- The heights of a locator that a resolver gives. -/
structure LocatorShape (tipHeight : UInt32) (hashAtHeight : UInt32 → Option α)
    (heights : List UInt32) : Prop where
  descending : heights.Pairwise (· > ·)
  length_le : heights.length ≤ 44
  startsAtTip : (hashAtHeight tipHeight).isSome → heights.head? = some tipHeight
  endsAtGenesis : (hashAtHeight 0).isSome → heights.getLast? = some 0
  consecutive : (∀ height ≤ tipHeight, (hashAtHeight height).isSome) →
    ∀ i < 11, ∀ a b, heights[i]? = some a → heights[i + 1]? = some b → a.toNat = b.toNat + 1
  doubling : (∀ height ≤ tipHeight, (hashAtHeight height).isSome) →
    ∀ i ≥ 10, ∀ a b c, heights[i]? = some a → heights[i + 1]? = some b →
      heights[i + 2]? = some c →
      b.toNat - c.toNat = 2 * (a.toNat - b.toNat) ∨
        (i + 3 = heights.length ∧ c = 0 ∧ b.toNat - c.toNat < 2 * (a.toNat - b.toNat))

/-- The walk terminates for every tip and resolver; `entries` are the hashes of its locator with
their heights. -/
theorem buildBlockLocator_shape (tipHeight : UInt32) (hashAtHeight : UInt32 → Option α) :
    ∃ entries : List (UInt32 × α),
      BuildsBlockLocator tipHeight hashAtHeight (entries.map Prod.snd) ∧
      BuildsBlockLocator tipHeight (withHeight hashAtHeight) entries ∧
      (∀ entry ∈ entries, hashAtHeight entry.1 = some entry.2) ∧
      LocatorShape tipHeight hashAtHeight (entries.map Prod.fst) := by
  obtain ⟨locator, hlocator⟩ := exists_buildsBlockLocator tipHeight hashAtHeight
  obtain ⟨entries, h, rfl⟩ := hlocator.exists_entries
  obtain ⟨hresolves, hdescends, -, hstarts, hends⟩ := h.entries
  refine ⟨entries, hlocator, h, hresolves, hdescends, ?_, hstarts, hends, ?_, ?_⟩
  · rw [List.length_map]
    exact Nat.le_succ_of_le h.length_le
  · intro hall i hi a b ha hb
    obtain ⟨ha', hlt⟩ := h.offsets hall i a ha
    obtain ⟨hb', -⟩ := h.offsets hall (i + 1) b hb
    have hlength := lt_length_of_getElem?_map hb
    have hpow : 2 ^ (i - 10) = 1 := by rw [Nat.sub_eq_zero_of_le (by omega), Nat.pow_zero]
    rw [locatorOffset, hpow] at hb'
    have hi_lt := hlt hlength
    omega
  · intro hall i hi a b c ha hb hc
    obtain ⟨ha', -⟩ := h.offsets hall i a ha
    obtain ⟨hb', hlt⟩ := h.offsets hall (i + 1) b hb
    obtain ⟨hc', hlt'⟩ := h.offsets hall (i + 2) c hc
    have hlength := lt_length_of_getElem?_map hc
    have hpow : 2 ^ (i + 1 - 10) = 2 ^ (i - 10) * 2 := by
      rw [show i + 1 - 10 = i - 10 + 1 by omega, Nat.pow_succ]
    have hoffset : locatorOffset (i + 1) = locatorOffset i + 2 ^ (i - 10) := rfl
    have hoffset' : locatorOffset (i + 2) = locatorOffset (i + 1) + 2 ^ (i + 1 - 10) := rfl
    have hi_lt := hlt hlength
    by_cases hcut : locatorOffset (i + 2) ≤ tipHeight.toNat
    · left
      omega
    · right
      rw [List.length_map]
      exact ⟨by omega, UInt32.toNat_inj.mp (by rw [hc']; exact Nat.sub_eq_zero_of_le (by omega)),
        by omega⟩

example : Loop.run (locatorBody some) 15 ⟨[], 1, 20⟩ =
    some [20, 19, 18, 17, 16, 15, 14, 13, 12, 11, 10, 9, 7, 3, 0] := by
  decide

end Bitcrab
