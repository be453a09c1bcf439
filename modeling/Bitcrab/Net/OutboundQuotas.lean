import Bitcrab.Net.Load
import Bitcrab.Net.Retries

/-!
# Outbound quotas

The loops of the initiator count the peers of a type, then its pending attempts, and then choose and
insert as many addresses as are needed. A connection that is registered and finished between the two
counts is missed by both, and an address that the other loop inserts after the pending ones were
listed can be chosen again.
-/

namespace Bitcrab

namespace LoopPhase

/-- The attempts that a loop is still to spawn. -/
def budget : LoopPhase → Nat
  | .filling _ needed => needed
  | .snapped _ needed _ => needed + 1
  | .excluded _ needed _ => needed + 1
  | .chosen _ needed _ _ => needed + 1
  | _ => 0

/-- The excluded addresses are closed under address forms, and none of them is chosen. -/
def ExcludesForms : LoopPhase → Prop
  | .excluded _ _ exclude => ∀ a b, a ∈ exclude → a.normalize = b.normalize → b ∈ exclude
  | .chosen _ _ exclude addr =>
    (∀ a b, a ∈ exclude → a.normalize = b.normalize → b ∈ exclude) ∧ addr ∉ exclude
  | _ => True

end LoopPhase

namespace Network

/-- For every type the initiator fills, the peers and the attempts that are not registered yet are
no more than there may be. -/
def WithinQuotas (s : Network) : Prop :=
  ∀ t, t ≠ .inbound → load s.attempts s.table.peers t ≤ t.max

/-- No two pending attempts are to the same address, in any of its forms. -/
def AttemptedOnce (attempts : List Attempt) : Prop :=
  ∀ (c d : ConnId) (a b : Attempt), attempts[c]? = some a → attempts[d]? = some b →
    a.connType ≠ .inbound → b.connType ≠ .inbound → a.isOpen = true → b.isOpen = true →
      a.chosen.normalize = b.chosen.normalize → c = d

/-- A connection that leaves the pending ones between the two counts of a loop was seen by the
first, and an address that became pending after a loop has listed the pending ones is no form of the
one that the loop has chosen. -/
def SeesOthers (s : Network) : NetEvent → Prop
  | .attempt c .finish => ∀ l t counted, s.loop l = .counted t counted →
    ∀ addr handle, s.table.peers.lookup addr = some handle → handle.connType = t →
      handle.id = c → counted.lookup addr = some handle
  | .initiate l .spawn => ∀ t needed exclude addr, s.loop l = .chosen t needed exclude addr →
    ∀ key ∈ s.pendingAttempts.keys, key ∉ exclude → key.normalize ≠ addr.normalize
  | _ => True

/-! ### The map of pending attempts -/

/-- Every pending attempt of the initiator has its entry, and no two have the same address. -/
structure PendingIn (attempts : List Attempt) (pending : HashMap SocketAddr ConnectionType) :
    Prop where
  lookup_eq : ∀ (c : ConnId) (a : Attempt), attempts[c]? = some a → a.connType ≠ .inbound →
    a.isOpen = true → pending.lookup a.chosen = some a.connType
  once : AttemptedOnce attempts

/-- A quiet step leaves what an attempt is about, and whether it is pending. -/
lemma Quiet.attempt_eq {attempts attempts' : List Attempt}
    {peers peers' : HashMap SocketAddr NodeHandle} (h : Quiet attempts peers attempts' peers')
    {c : ConnId} {a' : Attempt} (ha' : attempts'[c]? = some a') :
    ∃ a, attempts[c]? = some a ∧ a'.chosen = a.chosen ∧ a'.connType = a.connType ∧
      a'.isOpen = a.isOpen := by
  have hset : ∀ {d : ConnId} {b b' : Attempt}, attempts[d]? = some b →
      (attempts.set d b')[c]? = some a' → b'.chosen = b.chosen → b'.connType = b.connType →
      b'.isOpen = b.isOpen → ∃ a, attempts[c]? = some a ∧ a'.chosen = a.chosen ∧
        a'.connType = a.connType ∧
        a'.isOpen = a.isOpen := by
    intro d b b' hb ha' hchosen htype hopen
    by_cases hd : d = c
    · subst hd
      rw [getElem?_set_self' hb, Option.some_inj] at ha'
      subst ha'
      exact ⟨b, hb, hchosen, htype, hopen⟩
    · rw [List.getElem?_set_ne hd] at ha'
      exact ⟨a', ha', rfl, rfl, rfl⟩
  cases h with
  | same | removed | cleared => exact ⟨a', ha', rfl, rfl, rfl⟩
  | moved ha hmoves => exact hset ha ha' hmoves.chosen_eq hmoves.connType_eq hmoves.isOpen_eq
  | added ha hphase => exact hset ha ha' rfl rfl (by simp [Attempt.isOpen, hphase])
  | unlisted ha => exact hset ha ha' rfl rfl rfl

namespace PendingIn

variable {attempts attempts' : List Attempt} {pending : HashMap SocketAddr ConnectionType}
  {c : ConnId} {a : Attempt}

lemma quiet {peers peers' : HashMap SocketAddr NodeHandle} (h : PendingIn attempts pending)
    (hq : Quiet attempts peers attempts' peers') : PendingIn attempts' pending := by
  refine ⟨?_, ?_⟩
  · intro c a' ha' hout hopen
    obtain ⟨a, ha, hchosen, htype, hopen'⟩ := hq.attempt_eq ha'
    rw [htype] at hout ⊢
    rw [hopen'] at hopen
    rw [hchosen]
    exact h.lookup_eq c a ha hout hopen
  · intro c d a' b' ha' hb' hout hout' hopen hopen' heq
    obtain ⟨a, ha, hchosen, htype, hopenA⟩ := hq.attempt_eq ha'
    obtain ⟨b, hb, hchosen', htype', hopenB⟩ := hq.attempt_eq hb'
    exact h.once c d a b ha hb (htype ▸ hout) (htype' ▸ hout') (hopenA ▸ hopen) (hopenB ▸ hopen')
      (by rw [← hchosen, ← hchosen', heq])

/-- An inbound connection is no pending attempt of the initiator. -/
lemma append_inbound (h : PendingIn attempts pending) (htype : a.connType = .inbound) :
    PendingIn (attempts ++ [a]) pending := by
  have hold : ∀ {c : ConnId} {b : Attempt}, (attempts ++ [a])[c]? = some b →
      b.connType ≠ .inbound → attempts[c]? = some b := by
    intro c b hb hout
    rcases getElem?_append_singleton hb with hb | ⟨-, rfl⟩
    · exact hb
    · exact absurd htype hout
  refine ⟨fun c b hb hout => h.lookup_eq c b (hold hb hout) hout, ?_⟩
  intro c d b b' hb hb' hout hout'
  exact h.once c d b b' (hold hb hout) (hold hb' hout') hout hout'

/-- A new attempt, to an address of which no form is pending. -/
lemma append (h : PendingIn attempts pending)
    (hnew : ∀ key ∈ pending.keys, key.normalize ≠ a.chosen.normalize) :
    PendingIn (attempts ++ [a]) (pending.insert a.chosen a.connType) := by
  have hkey : ∀ {c : ConnId} {b : Attempt}, attempts[c]? = some b → b.connType ≠ .inbound →
      b.isOpen = true → b.chosen.normalize ≠ a.chosen.normalize := by
    intro c b hb hout hopen
    exact hnew b.chosen (AList.lookup_isSome.mp (by simp [h.lookup_eq c b hb hout hopen]))
  refine ⟨?_, ?_⟩
  · intro c b hb hout hopen
    rcases getElem?_append_singleton hb with hb | ⟨-, rfl⟩
    · have hne : b.chosen ≠ a.chosen := fun heq => hkey hb hout hopen (by rw [heq])
      rw [AList.lookup_insert_ne hne]
      exact h.lookup_eq c b hb hout hopen
    · exact AList.lookup_insert pending
  · intro c d b b' hb hb' hout hout' hopen hopen' heq
    rcases getElem?_append_singleton hb with hold | ⟨rfl, rfl⟩
    · rcases getElem?_append_singleton hb' with hold' | ⟨rfl, rfl⟩
      · exact h.once c d b b' hold hold' hout hout' hopen hopen' heq
      · exact absurd heq (hkey hold hout hopen)
    · rcases getElem?_append_singleton hb' with hold' | ⟨rfl, -⟩
      · exact absurd heq.symm (hkey hold' hout' hopen')
      · rfl

/-- An attempt is not pending any more. -/
lemma finish (h : PendingIn attempts pending) (ha : attempts[c]? = some a) (hopen : a.isOpen = true)
    {ok : Bool} {time : Instant} :
    PendingIn (attempts.set c { a with phase := .done ok time })
      (if a.connType = .inbound then pending else pending.erase a.chosen) := by
  have hold : ∀ {d : ConnId} {b : Attempt},
      (attempts.set c { a with phase := .done ok time })[d]? = some b → b.isOpen = true →
      d ≠ c ∧ attempts[d]? = some b := by
    intro d b hb hopen
    by_cases hd : c = d
    · subst hd
      rw [getElem?_set_self' ha, Option.some_inj] at hb
      subst hb
      cases hopen
    · rw [List.getElem?_set_ne hd] at hb
      exact ⟨Ne.symm hd, hb⟩
  refine ⟨?_, ?_⟩
  · intro d b hb hout hopen'
    obtain ⟨hd, hb⟩ := hold hb hopen'
    split_ifs with htype
    · exact h.lookup_eq d b hb hout hopen'
    · have hne : b.chosen ≠ a.chosen := fun heq =>
        hd (h.once d c b a hb ha hout htype hopen' hopen (by rw [heq]))
      rw [AList.lookup_erase_ne hne]
      exact h.lookup_eq d b hb hout hopen'
  · intro d d' b b' hb hb' hout hout' hopenB hopenB'
    exact h.once d d' b b' (hold hb hopenB).2 (hold hb' hopenB').2 hout hout' hopenB hopenB'

/-- `pending_count` counts every pending attempt of the type. -/
lemma openCount_le (h : PendingIn attempts pending) {t : ConnectionType} (ht : t ≠ .inbound) :
    openCount attempts t ≤ pending.entries.countP fun e => e.2 = t := by
  unfold openCount
  rw [← List.countP_zipIdx attempts]
  refine List.countP_le_countP_of_rel ?_ (fun x e => e.1 = x.1.chosen) ?_ ?_
  · exact List.Nodup.of_map Prod.snd (by rw [List.zipIdx_map_snd]; exact List.nodup_range')
  · rintro ⟨a, c⟩ hx hp
    simp only [Bool.and_eq_true, decide_eq_true_eq] at hp
    have ha := List.mem_zipIdx_iff_getElem?.mp hx
    have hlookup := h.lookup_eq c a ha (hp.1 ▸ ht) hp.2
    exact ⟨⟨a.chosen, a.connType⟩, AList.mem_lookup_iff.mp hlookup, by simpa using hp.1, rfl⟩
  · rintro ⟨a, c⟩ hx ⟨b, d⟩ hx' e hp hp' he he'
    simp only [Bool.and_eq_true, decide_eq_true_eq] at hp hp'
    have ha := List.mem_zipIdx_iff_getElem?.mp hx
    have hb := List.mem_zipIdx_iff_getElem?.mp hx'
    obtain rfl : c = d := h.once c d a b ha hb (hp.1 ▸ ht) (hp'.1 ▸ ht) hp.2 hp'.2
      (by rw [← he, ← he'])
    rw [ha, Option.some_inj] at hb
    exact Prod.ext hb rfl

end PendingIn

/-! ### The loops -/

/-- What is pending is listed, the load of a type and what its loop is still to spawn are within the
quota, a count that is still to be used is good, and no excluded address is chosen. -/
structure QuotasIn (attempts : List Attempt) (peers : HashMap SocketAddr NodeHandle)
    (pending : HashMap SocketAddr ConnectionType) (loops : Loop → LoopPhase) : Prop where
  pending : PendingIn attempts pending
  load_le : ∀ l, ∀ t ∈ Loop.fills l, load attempts peers t +
    (if (loops l).connType = t then (loops l).budget else 0) ≤ t.max
  fresh : ∀ l t counted, loops l = .counted t counted → Fresh t counted attempts peers
  excludes : ∀ l, (loops l).ExcludesForms

/-- The same of a state. -/
abbrev Quotas (s : Network) : Prop :=
  QuotasIn s.attempts s.table.peers s.pendingAttempts s.loop

namespace QuotasIn

variable {attempts attempts' : List Attempt} {peers peers' : HashMap SocketAddr NodeHandle}
  {pending : HashMap SocketAddr ConnectionType} {loops : Loop → LoopPhase}

lemma quiet (h : QuotasIn attempts peers pending loops)
    (hq : Quiet attempts peers attempts' peers') : QuotasIn attempts' peers' pending loops := by
  refine ⟨h.pending.quiet hq, ?_, fun l t counted hl => (h.fresh l t counted hl).quiet hq,
    h.excludes⟩
  intro l t ht
  exact le_trans (Nat.add_le_add_right (hq.load_le t) _) (h.load_le l t ht)

/-- An inbound connection is of no type that a loop fills. -/
lemma append_inbound (h : QuotasIn attempts peers pending loops) {a : Attempt}
    (htype : a.connType = .inbound) (hnew : a.isUnregistered = true) :
    QuotasIn (attempts ++ [a]) peers pending loops := by
  refine ⟨h.pending.append_inbound htype, ?_, fun l t counted hl =>
    (h.fresh l t counted hl).append a,
    h.excludes⟩
  intro l t ht
  have hne : a.connType ≠ t := by
    rintro rfl
    rw [htype] at ht
    cases l <;> simp [Loop.fills] at ht
  rw [load_append a hnew, if_neg hne]
  exact h.load_le l t ht

/-- One loop moves. -/
lemma of_update {l : Loop} {phase : LoopPhase} (hpending : PendingIn attempts pending)
    (hload : ∀ t ∈ l.fills, load attempts peers t +
      (if phase.connType = t then phase.budget else 0) ≤ t.max)
    (hfresh : ∀ t counted, phase = .counted t counted → Fresh t counted attempts peers)
    (hexcludes : phase.ExcludesForms)
    (hload' : ∀ l', l' ≠ l → ∀ t ∈ Loop.fills l', load attempts peers t +
      (if (loops l').connType = t then (loops l').budget else 0) ≤ t.max)
    (hfresh' : ∀ l' t counted, loops l' = .counted t counted → Fresh t counted attempts peers)
    (hexcludes' : ∀ l', (loops l').ExcludesForms) :
    QuotasIn attempts peers pending (Function.update loops l phase) := by
  refine ⟨hpending, fun l' t ht => ?_, fun l' t counted heq => ?_, fun l' => ?_⟩
  · by_cases hl : l' = l
    · subst hl
      rw [Function.update_self]
      exact hload t ht
    · rw [Function.update_of_ne hl]
      exact hload' l' hl t ht
  · by_cases hl : l' = l
    · subst hl
      rw [Function.update_self] at heq
      exact hfresh t counted heq
    · rw [Function.update_of_ne hl] at heq
      exact hfresh' l' t counted heq
  · by_cases hl : l' = l
    · subst hl
      rw [Function.update_self]
      exact hexcludes
    · rw [Function.update_of_ne hl]
      exact hexcludes' l'

/-- A loop goes on, with the same type and no more to spawn, or with nothing to spawn. -/
lemma move (h : QuotasIn attempts peers pending loops) {l : Loop} {phase : LoopPhase}
    (hbudget : phase.budget = 0 ∨
      (phase.connType = (loops l).connType ∧ phase.budget ≤ (loops l).budget))
    (hfresh : ∀ t counted, phase = .counted t counted → Fresh t counted attempts peers)
    (hexcludes : phase.ExcludesForms) :
    QuotasIn attempts peers pending (Function.update loops l phase) := by
  refine of_update h.pending ?_ hfresh hexcludes (fun l' _ => h.load_le l') h.fresh h.excludes
  intro t ht
  have hload := h.load_le l t ht
  rcases hbudget with hzero | ⟨htype, hle⟩
  · rw [hzero, ite_self]
    omega
  · rw [htype]
    split_ifs at hload ⊢ <;> omega

/-- The check of `run_feeler` is the deficit for a maximum of 1. -/
lemma connectionDeficit_eq (t : ConnectionType) (active pending : Nat) :
    connectionDeficit t active pending = t.max - (active + pending) := by
  unfold connectionDeficit
  split_ifs with hfeeler hfull
  · omega
  · subst hfeeler
    simp only [ConnectionType.max] at hfull ⊢
    omega
  · rfl

/-- The second count of a loop. -/
lemma countPending (h : QuotasIn attempts peers pending loops) (hreg : Registry attempts peers)
    {l : Loop} {t : ConnectionType} {counted : HashMap SocketAddr NodeHandle}
    (hl : loops l = .counted t counted) (ht : t ∈ l.fills) :
    QuotasIn attempts peers pending (Function.update loops l (.filling t
      (connectionDeficit t (countType counted t) (pending.entries.countP fun e => e.2 = t)))) := by
  have hout : t ≠ .inbound := by
    rintro rfl
    cases l <;> simp [Loop.fills] at ht
  have hcounted := load_le_of_fresh hreg (h.fresh l t counted hl)
  have hpending := h.pending.openCount_le hout
  refine of_update h.pending ?_ (by simp) trivial (fun l' _ => h.load_le l') h.fresh h.excludes
  intro t' ht'
  have hload := h.load_le l t' ht'
  by_cases htt : t = t'
  · subst htt
    simp only [LoopPhase.connType, LoopPhase.budget, if_true, connectionDeficit_eq]
    omega
  · simp only [LoopPhase.connType, htt, if_false]
    omega

/-- The type of one loop is not filled by the other. -/
lemma eq_of_mem_fills {l l' : Loop} {t : ConnectionType} (ht : t ∈ l.fills) (ht' : t ∈ l'.fills) :
    l = l' := by
  cases l <;> cases l' <;> simp_all [Loop.fills]

/-- A loop spawns an attempt. -/
lemma spawn (h : QuotasIn attempts peers pending loops) {l : Loop} {t : ConnectionType}
    {needed : Nat}
    {exclude : List SocketAddr} {addr : SocketAddr} (hl : loops l = .chosen t needed exclude addr)
    (ht : t ∈ l.fills)
    (hothers : ∀ key ∈ pending.keys, key ∉ exclude → key.normalize ≠ addr.normalize) :
    QuotasIn (attempts ++ [⟨addr, t, .spawned, .notStarted⟩]) peers (pending.insert addr t)
      (Function.update loops l (.filling t needed)) := by
  have hnew : ∀ key ∈ pending.keys, key.normalize ≠ addr.normalize := by
    intro key hkey
    by_cases hexcluded : key ∈ exclude
    · have hforms := h.excludes l
      rw [hl] at hforms
      exact fun heq => hforms.2 (hforms.1 key addr hexcluded heq)
    · exact hothers key hkey hexcluded
  refine of_update (h.pending.append (a := ⟨addr, t, .spawned, .notStarted⟩) hnew) ?_ (by simp)
    trivial ?_ (fun l' t' counted heq => (h.fresh l' t' counted heq).append _) h.excludes
  · intro t' ht'
    have hload := h.load_le l t' ht'
    rw [hl] at hload
    rw [load_append _ rfl]
    by_cases htt : t = t'
    · simp only [LoopPhase.connType, LoopPhase.budget, htt, if_true] at hload ⊢
      omega
    · simp only [LoopPhase.connType, htt, if_false] at hload ⊢
      exact hload
  · intro l' hl' t' ht'
    have hne : t ≠ t' := by
      rintro rfl
      exact hl' (eq_of_mem_fills ht' ht)
    rw [load_append _ rfl, if_neg hne]
    exact h.load_le l' t' ht'

/-- An attempt ends. -/
lemma finish (h : QuotasIn attempts peers pending loops) {c : ConnId} {a : Attempt}
    (ha : attempts[c]? = some a) {ok : Bool} {time : Instant} (hphase : a.phase = .returned ok time)
    (hcounted : ∀ l t counted, loops l = .counted t counted → ∀ addr handle,
      peers.lookup addr = some handle → handle.connType = t → handle.id = c →
        counted.lookup addr = some handle) :
    QuotasIn (attempts.set c { a with phase := .done ok time }) peers
      (if a.connType = .inbound then pending else pending.erase a.chosen) loops := by
  have hopen : a.isOpen = true := by simp [Attempt.isOpen, hphase]
  refine ⟨h.pending.finish ha hopen, ?_, ?_, h.excludes⟩
  · intro l t ht
    exact le_trans (Nat.add_le_add_right (load_finish_le ha t) _) (h.load_le l t ht)
  · intro l t counted hl
    exact (h.fresh l t counted hl).set ha (.inr (hcounted l t counted hl))

end QuotasIn

lemma loop_setLoop_eq_update (s : Network) (l : Loop) (phase : LoopPhase) :
    (s.setLoop l phase).loop = Function.update s.loop l phase := by
  funext l'
  rw [loop_setLoop, Function.update_apply]

lemma excludesForms_activeAddresses (t : ConnectionType) (needed : Nat) (addrs : List SocketAddr) :
    (LoopPhase.excluded t needed (addrs.flatMap SocketAddr.variants)).ExcludesForms := by
  intro a b ha heq
  obtain ⟨addr, haddr, hmem⟩ := List.mem_flatMap.mp ha
  refine List.mem_flatMap.mpr ⟨addr, haddr, ?_⟩
  rw [SocketAddr.mem_variants_iff] at hmem ⊢
  rw [← heq, hmem]

section

variable {s s' : Network}

lemma withinQuotas_of_quotas (h : s.Quotas) : s.WithinQuotas := by
  intro t ht
  obtain ⟨l, hl⟩ : ∃ l, t ∈ Loop.fills l := by
    cases t with
    | inbound => exact absurd rfl ht
    | outboundFullRelay => exact ⟨.fill, by decide⟩
    | blockRelayOnly => exact ⟨.fill, by decide⟩
    | feeler => exact ⟨.feeler, by decide⟩
  exact le_trans (Nat.le_add_right _ _) (h.load_le l t hl)

lemma quotas_stepAccept (h : s.Quotas) {e : AcceptEvent} (hstep : s.stepAccept e = some s') :
    s'.Quotas := by
  have hloop := funext (stepAccept_loop hstep)
  unfold Quotas
  rw [hloop]
  cases e with
  | checkInbound =>
    simp only [stepAccept] at hstep
    split at hstep
    · split_ifs at hstep
      · cases hstep
        exact h
      · cases hstep
        exact h.append_inbound rfl rfl
    · cases hstep
  | reserveSlot =>
    simp only [stepAccept] at hstep
    split at hstep
    · split_ifs at hstep <;> cases hstep <;> exact h
    · cases hstep
  | countInbound =>
    simp only [stepAccept] at hstep
    split at hstep
    · cases hstep
      exact h
    · cases hstep
  | accept addr =>
    simp only [stepAccept] at hstep
    split at hstep
    · split_ifs at hstep
      cases hstep
      exact h
    · cases hstep

/-- A step of a loop that spawns nothing. -/
lemma quotas_setLoop {l : Loop} {phase : LoopPhase}
    (h : QuotasIn s.attempts s.table.peers s.pendingAttempts (Function.update s.loop l phase)) :
    (s.setLoop l phase).Quotas := by
  unfold Quotas
  simpa only [setLoop_attempts, setLoop_table, setLoop_pendingAttempts, loop_setLoop_eq_update]
    using h

lemma quotas_stepLoop (h : s.Quotas) (hreg : Registry s.attempts s.table.peers) {l : Loop}
    (htype : (s.loop l).connType ∈ l.fills) {e : LoopEvent}
    (hok : SeesOthers s (.initiate l e)) (hstep : s.stepLoop l e = some s') : s'.Quotas := by
  cases e with
  | countActive =>
    simp only [stepLoop] at hstep
    split at hstep
    · cases hstep
      refine quotas_setLoop (h.move (.inl rfl) ?_ trivial)
      rintro t' counted heq
      cases heq
      exact Fresh.refl _ _ _
    · cases hstep
  | countPending =>
    simp only [stepLoop] at hstep
    split at hstep
    · rename_i t counted hl
      cases hstep
      rw [hl] at htype
      exact quotas_setLoop (h.countPending hreg hl htype)
    · cases hstep
  | pendingAddresses =>
    simp only [stepLoop] at hstep
    split at hstep
    · rename_i t needed hl
      cases hstep
      exact quotas_setLoop (h.move (.inr (by simp [hl, LoopPhase.connType, LoopPhase.budget]))
        (by simp) trivial)
    · cases hstep
  | activeAddresses =>
    simp only [stepLoop] at hstep
    split at hstep
    · rename_i t needed pending hl
      cases hstep
      exact quotas_setLoop (h.move (.inr (by simp [hl, LoopPhase.connType, LoopPhase.budget]))
        (by simp) (excludesForms_activeAddresses t needed _))
    · cases hstep
  | selectAddress order =>
    simp only [stepLoop] at hstep
    split at hstep
    · rename_i t needed exclude hl
      split at hstep
      · rename_i addr hselect
        cases hstep
        obtain ⟨key, info, -, -, -, hnot⟩ := AddrMan.select_eq_some hselect
        have hforms := h.excludes l
        rw [hl] at hforms
        exact quotas_setLoop (h.move (.inr (by simp [hl, LoopPhase.connType, LoopPhase.budget]))
          (by simp) ⟨hforms, hnot⟩)
      · cases hstep
        exact quotas_setLoop (h.move (.inl rfl) (by simp) trivial)
    · cases hstep
  | spawn =>
    simp only [stepLoop] at hstep
    split at hstep
    · rename_i t needed exclude addr hl
      cases hstep
      rw [hl] at htype
      have hspawned := h.spawn hl htype (hok t needed exclude addr hl)
      refine quotas_setLoop (s := s.spawnAttempt addr t) ?_
      have hloop : (s.spawnAttempt addr t).loop = s.loop := by
        funext l'
        cases l' <;> rfl
      rw [hloop]
      exact hspawned
    · cases hstep
  | nextType =>
    simp only [stepLoop] at hstep
    split at hstep
    · cases hstep
      exact quotas_setLoop (h.move (.inl rfl) (by simp) trivial)
    · cases hstep

variable [BucketHash]

lemma quotas_quiet (h : s.Quotas) {e : NetEvent} (he : e.isQuiet = true)
    (hstep : s.step e = some s') :
    s'.Quotas := by
  obtain ⟨-, hloops, -, hpending⟩ := frame_of_quiet he hstep
  unfold Quotas
  rw [funext hloops, hpending]
  exact h.quiet (quiet_of_step he hstep)

omit [BucketHash] in
lemma quotas_finish (h : s.Quotas) {c : ConnId} {a : Attempt} (ha : s.attempts[c]? = some a)
    {ok : Bool} {time : Instant} (hphase : a.phase = .returned ok time)
    (hok : SeesOthers s (.attempt c .finish)) : (s.finishAttempt c a ok time).Quotas := by
  have hquotas := h.finish ha hphase hok
  unfold finishAttempt
  split_ifs at hquotas ⊢ <;> exact hquotas

lemma quotas_step (h : s.Quotas) (hreg : Registry s.attempts s.table.peers)
    (htypes : ∀ l, (s.loop l).connType ∈ Loop.fills l) {e : NetEvent} (hok : SeesOthers s e)
    (hstep : s.step e = some s') : s'.Quotas := by
  cases he : e.isQuiet with
  | true => exact quotas_quiet h he hstep
  | false =>
    cases e with
    | accept e => exact quotas_stepAccept h hstep
    | initiate l e => exact quotas_stepLoop h hreg (htypes l) hok hstep
    | attempt c e =>
      cases e with
      | finish =>
        simp only [step] at hstep
        split at hstep
        · rename_i a ha
          simp only [stepAttempt] at hstep
          split at hstep
          · rename_i ok time hphase
            cases hstep
            exact quotas_finish h ha hphase hok
          · cases hstep
        · cases hstep
      | _ => cases he
    | _ => cases he

/-- In a run in which the loops miss neither a finished connection nor an attempt of the other loop,
the quotas are kept and no address is attempted twice at a time. -/
theorem withinQuotas_of_seesOthers (known saved : AddrMan) (s : Network)
    (hrun : Reachable step (fun s e _ => SeesOthers s e) (init known saved) s) :
    s.WithinQuotas ∧ AttemptedOnce s.attempts := by
  have hquotas : s.Quotas := by
    refine hrun.invariant_of_reachable Quotas ⟨⟨?_, ?_⟩, ?_, ?_, ?_⟩ ?_
    · simp [init]
    · intro c d a b ha
      simp [init] at ha
    · intro l t _
      have hzero : ((init known saved).loop l).budget = 0 := by cases l <;> rfl
      rw [hzero, ite_self]
      exact Nat.zero_le _
    · intro l t counted heq
      cases l <;> simp [init, loop] at heq
    · intro l
      cases l <;> trivial
    · intro s e s' hs hinv hstep hok
      exact quotas_step hinv (registry_of_reachable hs) (connType_mem_fills hs) hok hstep
  exact ⟨withinQuotas_of_quotas hquotas, hquotas.pending.once⟩

end

end Network

namespace Sample

open Network

/-- An attempt of the initiator that succeeds. -/
def connectPeer (c : ConnId) : List NetEvent :=
  [.attempt c .dial, .attempt c .connected, .attempt c .completeHandshake, .attempt c .addPeer,
    .attempt c .initializeNode, .attempt c .returnOk, .attempt c .finish]

/-- The connection loop spawns attempts to the two addresses it knows. -/
def twoAttempts : List NetEvent :=
  List.flatten [[.addAddresses [gossiped 1, gossiped 2] (peerAddr 9)], countBoth .fill,
    askAddress .fill, [.initiate .fill .spawn], askAddress .fill, [.initiate .fill .spawn]]

/-- Both attempts are registered and finish between the two counts of the next round, which then
spawns a third one. -/
def thirdAttempt : List NetEvent :=
  List.flatten [twoAttempts, [.initiate .fill .nextType], countBoth .fill, askAddress .fill,
    [.initiate .fill .countActive], connectPeer 0, connectPeer 1,
    [.initiate .fill .countPending, .addAddresses [gossiped 3] (peerAddr 9)], askAddress .fill,
    [.initiate .fill .spawn]]

/-- Both loops choose the only address before one of them has inserted it. -/
def sameAddress : List NetEvent :=
  List.flatten [[.addAddresses [gossiped 1] (peerAddr 9)], countBoth .fill, askAddress .fill,
    countBoth .feeler, askAddress .feeler, [.initiate .fill .spawn, .initiate .feeler .spawn]]

/-- Three connections of a type that may have two, and two attempts to one address. -/
theorem outbound_quotas_exceeded :
    (∃ s, Reachable Network.step (fun _ _ _ => True) (.init .new .new) s ∧ ¬s.WithinQuotas) ∧
    ∃ s, Reachable Network.step (fun _ _ _ => True) (.init .new .new) s ∧
      ¬AttemptedOnce s.attempts := by
  have hload : (afterSteps thirdAttempt).map
      (fun s => load s.attempts s.table.peers .blockRelayOnly) = some 3 := by
    decide +kernel
  have htwice : (afterSteps sameAddress).map Network.attempts =
      some [⟨(gossiped 1).toSocketAddr, .blockRelayOnly, .spawned, .notStarted⟩,
        ⟨(gossiped 1).toSocketAddr, .feeler, .spawned, .notStarted⟩] := by
    decide +kernel
  constructor
  · obtain ⟨s, hs, hload⟩ := Option.map_eq_some_iff.mp hload
    refine ⟨s, Reachable.of_run (fun _ _ _ _ => trivial) .init hs, fun h => ?_⟩
    have hle := h .blockRelayOnly (by decide)
    rw [hload] at hle
    exact absurd hle (by decide)
  · obtain ⟨s, hs, hattempts⟩ := Option.map_eq_some_iff.mp htwice
    refine ⟨s, Reachable.of_run (fun _ _ _ _ => trivial) .init hs, fun h => ?_⟩
    rw [hattempts] at h
    exact absurd (h 0 1 _ _ rfl rfl (by decide) (by decide) rfl rfl rfl) (by decide)

/-- A test that is enough for the condition. -/
def seesOthers (s : Network) : NetEvent → Bool
  | .attempt _ .finish =>
    [Loop.fill, Loop.feeler].all fun l =>
      match s.loop l with
      | .counted _ _ => false
      | _ => true
  | .initiate l .spawn =>
    match s.loop l with
    | .chosen _ _ exclude addr =>
      s.pendingAttempts.keys.all fun key => key ∈ exclude || key.normalize ≠ addr.normalize
    | _ => true
  | _ => true

lemma seesOthers_of_test (s : Network) (e : NetEvent) (h : seesOthers s e = true) :
    SeesOthers s e := by
  cases e with
  | attempt c e =>
    cases e with
    | finish =>
      intro l t counted hl
      have hl' := List.all_eq_true.mp h l (by cases l <;> decide)
      simp [hl] at hl'
    | _ => trivial
  | initiate l e =>
    cases e with
    | spawn =>
      intro t needed exclude addr hl key hkey hnot
      simp only [seesOthers, hl, List.all_eq_true] at h
      simpa [hnot] using h key hkey
    | _ => trivial
  | _ => trivial

/-- Two attempts, one of which succeeds. -/
theorem withinQuotas_two :
    ∃ s, Reachable Network.step (fun s e _ => SeesOthers s e) (.init .new .new) s ∧
      load s.attempts s.table.peers .blockRelayOnly = 2 ∧
      s.WithinQuotas ∧ AttemptedOnce s.attempts := by
  have hrun : (Reachable.run Network.step (fun s e _ => seesOthers s e) (.init .new .new)
      (twoAttempts ++ connectPeer 0)).map
      (fun s => load s.attempts s.table.peers .blockRelayOnly) = some 2 := by
    decide +kernel
  obtain ⟨s, hs, hload⟩ := Option.map_eq_some_iff.mp hrun
  have hreachable : Reachable Network.step (fun s e _ => SeesOthers s e) (.init .new .new) s :=
    Reachable.of_run (fun s e _ => seesOthers_of_test s e) .init hs
  exact ⟨s, hreachable, hload, withinQuotas_of_seesOthers .new .new s hreachable⟩

end Sample

end Bitcrab
