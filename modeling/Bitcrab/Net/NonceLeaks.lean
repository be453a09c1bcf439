import Bitcrab.Net.SelfConnection

/-!
# The nonces of the handshakes in progress

A call that is past its start takes its nonce out of the set when its loop ends. Two ways out of the
function miss that line: an error of the writes before the loop, and a panic in the decoding of a
payload.
-/

namespace Bitcrab

section

variable [Sha2]

namespace Handshake

/-- The call has put its nonce into the set and has neither returned nor panicked. -/
def inProgress (h : Handshake) : Bool :=
  match h.phase with
  | .idle => false
  | .returned _ => false
  | .panicked => false
  | _ => true

/-- The call has returned or panicked. -/
def hasLeft (h : Handshake) : Bool :=
  match h.phase with
  | .returned _ => true
  | .panicked => true
  | _ => false

/-- `Message::decode` panics on a payload that has the checksum of its header. -/
def panicsOn (header : MessageHeader) (payload : List UInt8) : Bool :=
  match verifyChecksum header payload, Message.decode header.command payload with
  | .ok (), .error .panic => true
  | _, _ => false

/-- The step is a failing write of the version message before the loop, or the reading of a payload
on which the decoder panics. -/
def abandons (h : Handshake) : HandshakeEvent → Bool
  | .fail _ =>
    match h.phase with
    | .opening => true
    | _ => false
  | .readPayload =>
    match h.phase with
    | .payload header _ _ => panicsOn header (h.inbox.take header.length.toNat)
    | _ => false
  | _ => false

variable {magic : Magic} {nonces nonces' : Finset UInt64} {h h' : Handshake} {e : HandshakeEvent}

/-- The handling of a version or verack message does not leave the function. -/
lemma inProgress_gotVersion (magic : Magic) (nonces : Finset UInt64) (h : Handshake) (v : Version)
    (gotVersion gotVerack : Bool) :
    (h.gotVersion magic nonces v gotVersion gotVerack).inProgress = true := by
  unfold Handshake.gotVersion
  split_ifs <;> rfl

omit [Sha2] in
lemma inProgress_gotVerack (h : Handshake) (gotVersion gotVerack : Bool) :
    (h.gotVerack gotVersion gotVerack).inProgress = true := by
  unfold Handshake.gotVerack
  split_ifs <;> rfl

/-- Of the payloads only those on which the decoder panics leave it. -/
lemma inProgress_gotPayload (h : Handshake) (header : MessageHeader) (payload : List UInt8)
    (gotVersion gotVerack : Bool) :
    (h.gotPayload header payload gotVersion gotVerack).inProgress = !panicsOn header payload := by
  unfold gotPayload panicsOn
  cases verifyChecksum header payload with
  | error e => rfl
  | ok value =>
    rcases Message.decode header.command payload with (e | -) | m <;> rfl

/-- What a step does to the set of nonces: a start puts the nonce of the call into it, and an end
takes it out, if it is no end by a failing write or a panic. -/
lemma step_cases (hstep : h.step magic nonces e = some (h', nonces'))
    (hkeep : h.abandons e = false) :
    (h'.inProgress = true ∧ nonces' = insert h.connection.nonce nonces) ∨
      (h.inProgress = true ∧ h'.inProgress = true ∧ nonces' = nonces) ∨
      (h'.inProgress = false ∧ nonces' = nonces.erase h.connection.nonce) := by
  cases e with
  | start =>
    simp only [step] at hstep
    split at hstep
    · split_ifs at hstep <;> cases hstep <;> exact .inl ⟨rfl, rfl⟩
    · cases hstep
  | enterLoop =>
    simp only [step] at hstep
    split at hstep
    · rename_i hphase
      split_ifs at hstep
      cases hstep
      exact .inr (.inl ⟨by simp only [inProgress, hphase], rfl, rfl⟩)
    · cases hstep
  | readHeader =>
    simp only [step] at hstep
    split at hstep
    · rename_i hphase
      have hin : h.inProgress = true := by simp only [inProgress, hphase]
      split at hstep
      · cases hstep
      · split at hstep <;> cases hstep <;> exact .inr (.inl ⟨hin, rfl, rfl⟩)
    · cases hstep
  | readPayload =>
    simp only [step] at hstep
    split at hstep
    · rename_i header gotVersion gotVerack hphase
      have hin : h.inProgress = true := by simp only [inProgress, hphase]
      simp only [abandons, hphase] at hkeep
      split_ifs at hstep
      cases hstep
      refine .inr (.inl ⟨hin, ?_, rfl⟩)
      rw [inProgress_gotPayload, hkeep]
      rfl
    · cases hstep
  | handle =>
    simp only [step] at hstep
    split at hstep
    · rename_i hphase
      cases hstep
      exact .inr (.inl ⟨by simp only [inProgress, hphase], inProgress_gotVersion _ _ _ _ _ _, rfl⟩)
    · rename_i hphase
      cases hstep
      exact .inr (.inl ⟨by simp only [inProgress, hphase], inProgress_gotVerack _ _ _, rfl⟩)
    · rename_i hphase
      cases hstep
      exact .inr (.inl ⟨by simp only [inProgress, hphase], rfl, rfl⟩)
    · cases hstep
  | turn =>
    simp only [step] at hstep
    split at hstep
    · rename_i hphase
      have hin : h.inProgress = true := by simp only [inProgress, hphase]
      split_ifs at hstep <;> cases hstep <;> exact .inr (.inl ⟨hin, rfl, rfl⟩)
    · cases hstep
  | fail error =>
    simp only [step] at hstep
    split at hstep
    · -- the write before the loop
      rename_i hphase
      simp only [abandons, hphase] at hkeep
      cases hkeep
    · rename_i hphase
      cases hstep
      exact .inr (.inl ⟨by simp only [inProgress, hphase], rfl, rfl⟩)
    · rename_i hphase
      cases hstep
      exact .inr (.inl ⟨by simp only [inProgress, hphase], rfl, rfl⟩)
    · rename_i hphase
      split_ifs at hstep
      cases hstep
      exact .inr (.inl ⟨by simp only [inProgress, hphase], rfl, rfl⟩)
    · cases hstep
  | removeNonce =>
    simp only [step] at hstep
    split at hstep
    · cases hstep
      exact .inr (.inr ⟨rfl, rfl⟩)
    · cases hstep

/-- The other two ends leave the set as it is. -/
lemma nonces_of_abandons (hstep : h.step magic nonces e = some (h', nonces'))
    (habandon : h.abandons e = true) :
    h.inProgress = true ∧ h'.hasLeft = true ∧ nonces' = nonces := by
  cases e with
  | readPayload =>
    simp only [step] at hstep
    split at hstep
    · rename_i header gotVersion gotVerack hphase
      have hin : h.inProgress = true := by simp only [inProgress, hphase]
      simp only [abandons, hphase, panicsOn] at habandon
      split at habandon
      · rename_i hverify hdecode
        split_ifs at hstep
        cases hstep
        refine ⟨hin, ?_, rfl⟩
        simp only [gotPayload, hverify, hdecode, hasLeft]
      · cases habandon
    · cases hstep
  | fail error =>
    simp only [abandons] at habandon
    split at habandon
    · rename_i hphase
      simp only [step, hphase] at hstep
      cases hstep
      exact ⟨by simp only [inProgress, hphase], rfl, rfl⟩
    · cases habandon
  | _ => cases habandon

omit [Sha2] in
lemma inProgress_of_hasLeft (hleft : h.hasLeft = true) : h.inProgress = false := by
  unfold hasLeft at hleft
  unfold inProgress
  split at hleft
  · rename_i hphase
    simp only [hphase]
  · rename_i hphase
    simp only [hphase]
  · cases hleft

lemma step_of_hasLeft (hleft : h.hasLeft = true) : h.step magic nonces e = none := by
  unfold hasLeft at hleft
  split at hleft
  · rename_i result hphase
    cases e <;> simp [step, hphase]
  · rename_i hphase
    cases e <;> simp [step, hphase]
  · cases hleft

end Handshake

namespace Handshakes

/-- The nonces of the calls in progress. -/
def inProgressNonces (s : Handshakes) : Finset UInt64 :=
  ((s.calls.filter Handshake.inProgress).map fun h => h.connection.nonce).toFinset

/-- A call leaves the function without the line that removes its nonce. -/
def abandons (s : Handshakes) : HandshakesEvent → Bool
  | .call c e =>
    match s.calls[c]? with
    | some h => h.abandons e
    | none => false
  | _ => false

/-- Every step that is taken removes the nonce of the call that it ends. -/
def KeepsNonces (s : Handshakes) (e : HandshakesEvent) (_ : Handshakes) :
    Prop := s.abandons e = false

variable {magic : Magic} {s s' : Handshakes} {calls : List Handshake} {c : Nat} {h h' : Handshake}

omit [Sha2] in
lemma mem_inProgressNonces {nonce : UInt64} : nonce ∈ s.inProgressNonces ↔
    ∃ h ∈ s.calls, h.inProgress = true ∧ h.connection.nonce = nonce := by
  simp [inProgressNonces, and_assoc]

omit [Sha2] in
/-- Which nonces are in progress follows from what each call is and whether it is in progress. -/
lemma inProgressNonces_eq_of_map
    (hmap : (s'.calls.map fun h => (h.inProgress, h.connection.nonce)) =
      s.calls.map fun h => (h.inProgress, h.connection.nonce)) :
    s'.inProgressNonces = s.inProgressNonces := by
  have hmem : ∀ (t : Handshakes) (nonce : UInt64), nonce ∈ t.inProgressNonces ↔
      (true, nonce) ∈ t.calls.map fun h => (h.inProgress, h.connection.nonce) := by
    intro t nonce
    simp [mem_inProgressNonces]
  ext nonce
  rw [hmem, hmem, hmap]

omit [Sha2] in
/-- Another phase of a call changes only whether its own nonce is in progress. -/
lemma mem_inProgressNonces_set (hdistinct : s.DistinctNonces) (hc : s.calls[c]? = some h)
    (hk : h'.connection = h.connection) (nonces : Finset UInt64) (nonce : UInt64) :
    nonce ∈ inProgressNonces ⟨nonces, s.calls.set c h'⟩ ↔
      (nonce = h.connection.nonce ∧ h'.inProgress = true) ∨
        (nonce ≠ h.connection.nonce ∧ nonce ∈ s.inProgressNonces) := by
  rw [mem_inProgressNonces, mem_inProgressNonces]
  dsimp only
  constructor
  · rintro ⟨x, hx, hin, rfl⟩
    obtain ⟨d, hd⟩ := List.mem_iff_getElem?.mp hx
    rcases getElem?_set_cases hc hd with ⟨-, rfl⟩ | ⟨hne, hold⟩
    · exact .inl ⟨by rw [hk], hin⟩
    · exact .inr ⟨hdistinct.ne hold hc hne, x, List.mem_of_getElem? hold, hin, rfl⟩
  · rintro (⟨rfl, hin⟩ | ⟨hne, x, hx, hin, rfl⟩)
    · exact ⟨h', List.mem_set (List.getElem?_eq_some_iff.mp hc).1 h', hin, by rw [hk]⟩
    · obtain ⟨d, hd⟩ := List.mem_iff_getElem?.mp hx
      have hdc : c ≠ d := by
        rintro rfl
        rw [hc, Option.some_inj] at hd
        exact hne (by rw [hd])
      refine ⟨x, List.mem_of_getElem? (i := d) ?_, hin, rfl⟩
      rw [List.getElem?_set_ne hdc]
      exact hd

omit [Sha2] in
lemma not_mem_inProgressNonces (hdistinct : s.DistinctNonces) (hc : s.calls[c]? = some h)
    (hout : h.inProgress = false) : h.connection.nonce ∉ s.inProgressNonces := by
  intro hmem
  rw [mem_inProgressNonces] at hmem
  obtain ⟨x, hx, hin, hnonce⟩ := hmem
  obtain ⟨d, hd⟩ := List.mem_iff_getElem?.mp hx
  by_cases hdc : d = c
  · subst hdc
    obtain rfl : h = x := Option.some.inj (hc.symm.trans hd)
    simp [hout] at hin
  · exact hdistinct.ne hd hc hdc hnonce

/-- A step of a call that removes the nonce of the call if it ends it. -/
lemma nonces_eq_call (hs : s.nonces = s.inProgressNonces) (hdistinct : s.DistinctNonces)
    (hc : s.calls[c]? = some h) {e : HandshakeEvent} {nonces : Finset UInt64}
    (hstep : h.step magic s.nonces e = some (h', nonces)) (hkeep : h.abandons e = false) :
    nonces = inProgressNonces ⟨nonces, s.calls.set c h'⟩ := by
  ext nonce
  rw [mem_inProgressNonces_set hdistinct hc (Handshake.connection_of_step hstep), ← hs]
  rcases Handshake.step_cases hstep hkeep with ⟨hin, rfl⟩ | ⟨hbefore, hin, rfl⟩ | ⟨hin, rfl⟩
  · rw [Finset.mem_insert, hin]
    tauto
  · have hown : h.connection.nonce ∈ s.nonces := by
      rw [hs, mem_inProgressNonces]
      exact ⟨h, List.mem_of_getElem? hc, hbefore, rfl⟩
    rw [hin]
    constructor
    · intro hmem
      by_cases hnonce : nonce = h.connection.nonce
      · exact .inl ⟨hnonce, rfl⟩
      · exact .inr ⟨hnonce, hmem⟩
    · rintro (⟨rfl, -⟩ | ⟨-, hmem⟩)
      · exact hown
      · exact hmem
  · rw [Finset.mem_erase, hin]
    simp

/-- What a step of the node keeps. -/
lemma nonces_eq_step (hs : s.nonces = s.inProgressNonces) (hdistinct : s.DistinctNonces)
    {e : HandshakesEvent} (hstep : s.step magic e = some s') (hkeep : s.KeepsNonces e s') :
    s'.nonces = s'.inProgressNonces := by
  cases e with
  | connect k =>
    simp only [step] at hstep
    split_ifs at hstep
    cases hstep
    simpa [inProgressNonces, Handshake.new, Handshake.inProgress] using hs
  | connectSelf out inb =>
    simp only [step] at hstep
    split_ifs at hstep
    cases hstep
    simpa [inProgressNonces, Handshake.new, Handshake.inProgress] using hs
  | receive c bytes =>
    simp only [step] at hstep
    split at hstep
    · split_ifs at hstep
      cases hstep
      rw [inProgressNonces_eq_of_map (map_deliver_eq (fun _ _ => rfl) s.calls c bytes)]
      exact hs
    · cases hstep
  | write c n =>
    simp only [step] at hstep
    split at hstep
    · rename_i h hc
      split_ifs at hstep
      cases hstep
      have hset : ((s.calls.set c { h with sending := h.sending.drop n }).map
          fun h => (h.inProgress, h.connection.nonce)) =
          s.calls.map fun h => (h.inProgress, h.connection.nonce) := map_set_eq hc rfl
      unfold writeBytes
      split
      · rw [inProgressNonces_eq_of_map hset]
        exact hs
      · rw [inProgressNonces_eq_of_map ((map_deliver_eq (fun _ _ => rfl) _ _ _).trans hset)]
        exact hs
    · cases hstep
  | call c e =>
    simp only [step] at hstep
    split at hstep
    · rename_i h hc
      split at hstep
      · rename_i h' nonces hcall
        cases hstep
        simp only [KeepsNonces, abandons, hc] at hkeep
        exact nonces_eq_call hs hdistinct hc hcall hkeep
      · cases hstep
    · cases hstep

lemma nonces_eq_of_reachable (hrun : Reachable (step magic) KeepsNonces init s)
    (hdistinct : s.DistinctNonces) : s.nonces = s.inProgressNonces := by
  refine hrun.invariant (fun s => s.DistinctNonces → s.nonces = s.inProgressNonces) ?_ ?_ hdistinct
  · intro _
    rfl
  · intro s e s' hs hstep hkeep hdistinct
    have hbefore := distinctNonces_of_step hstep hdistinct
    exact nonces_eq_step (hs hbefore) hbefore hstep hkeep

/-- As long as no call fails in the writes before its loop or panics, the set holds the nonces of
the calls in progress, and none of a call that has returned. -/
theorem nonces_eq_inProgressNonces (magic : Magic) (s : Handshakes)
    (hrun : Reachable (step magic) KeepsNonces init s) (hdistinct : s.DistinctNonces) :
    s.nonces = s.inProgressNonces ∧
      ∀ (c : Nat) (h : Handshake) (result : Except P2pError Unit), s.calls[c]? = some h →
        h.phase = .returned result → h.connection.nonce ∉ s.nonces := by
  have hs := nonces_eq_of_reachable hrun hdistinct
  refine ⟨hs, ?_⟩
  intro c h result hc hphase
  rw [hs]
  exact not_mem_inProgressNonces hdistinct hc (by simp only [Handshake.inProgress, hphase])

/-! ### A nonce that is left in the set stays there -/

/-- A call is over, and its nonce is in the set. -/
def Leaked (c : Nat) (s : Handshakes) : Prop :=
  ∃ h, s.calls[c]? = some h ∧ h.hasLeft = true ∧ h.connection.nonce ∈ s.nonces

omit [Sha2] in
lemma Leaked.nonces_ne (hleaked : s.Leaked c) (hdistinct : s.DistinctNonces) :
    s.nonces ≠ s.inProgressNonces := by
  obtain ⟨h, hc, hleft, hmem⟩ := hleaked
  intro heq
  rw [heq] at hmem
  exact not_mem_inProgressNonces hdistinct hc (Handshake.inProgress_of_hasLeft hleft) hmem

/-- No step of another call takes the nonce out, and the call itself takes no step. -/
lemma Leaked.step (hleaked : s.Leaked c) (hdistinct : s'.DistinctNonces) {e : HandshakesEvent}
    (hstep : s.step magic e = some s') : s'.Leaked c := by
  have hbefore := distinctNonces_of_step hstep hdistinct
  obtain ⟨h, hc, hleft, hmem⟩ := hleaked
  have hlt := (List.getElem?_eq_some_iff.mp hc).1
  cases e with
  | connect k =>
    simp only [Handshakes.step] at hstep
    split_ifs at hstep
    cases hstep
    exact ⟨h, by rw [List.getElem?_append_left hlt]; exact hc, hleft, hmem⟩
  | connectSelf out inb =>
    simp only [Handshakes.step] at hstep
    split_ifs at hstep
    cases hstep
    exact ⟨h, by rw [List.getElem?_append_left hlt]; exact hc, hleft, hmem⟩
  | receive d bytes =>
    simp only [Handshakes.step] at hstep
    split at hstep
    · split_ifs at hstep
      cases hstep
      refine ⟨_, by rw [deliver, getElem?_deliver, hc, Option.map_some], ?_⟩
      split_ifs <;> exact ⟨hleft, hmem⟩
    · cases hstep
  | write d n =>
    simp only [Handshakes.step] at hstep
    split at hstep
    · rename_i x hd
      split_ifs at hstep with hwriting
      cases hstep
      have hdc : d ≠ c := by
        rintro rfl
        obtain rfl : h = x := Option.some.inj (hc.symm.trans hd)
        unfold Handshake.hasLeft at hleft
        split at hleft <;> simp_all [Handshake.isWriting]
      have hset : (s.calls.set d { x with sending := x.sending.drop n })[c]? = some h := by
        rw [List.getElem?_set_ne hdc]
        exact hc
      unfold writeBytes
      split
      · exact ⟨h, hset, hleft, hmem⟩
      · refine ⟨_, by rw [deliver, getElem?_deliver, hset, Option.map_some], ?_⟩
        split_ifs <;> exact ⟨hleft, hmem⟩
    · cases hstep
  | call d e =>
    simp only [Handshakes.step] at hstep
    split at hstep
    · rename_i x hd
      split at hstep
      · rename_i x' nonces hcall
        cases hstep
        have hdc : d ≠ c := by
          rintro rfl
          obtain rfl : h = x := Option.some.inj (hc.symm.trans hd)
          simp [Handshake.step_of_hasLeft hleft] at hcall
        refine ⟨h, ?_, hleft, Handshake.mem_nonces_of_step hcall (hbefore.ne hc hd hdc.symm) hmem⟩
        rw [List.getElem?_set_ne hdc]
        exact hc
      · cases hstep
    · cases hstep

lemma Leaked.of_abandons (hs : s.nonces = s.inProgressNonces) {e : HandshakesEvent}
    (habandon : s.abandons e = true) (hstep : s.step magic e = some s') : ∃ c, s'.Leaked c := by
  unfold abandons at habandon
  split at habandon
  · rename_i c e
    split at habandon
    · rename_i h hc
      simp only [Handshakes.step, hc] at hstep
      split at hstep
      · rename_i h' nonces hcall
        cases hstep
        obtain ⟨hin, hleft, rfl⟩ := Handshake.nonces_of_abandons hcall habandon
        refine ⟨c, h', List.getElem?_set_self (List.getElem?_eq_some_iff.mp hc).1, hleft, ?_⟩
        rw [Handshake.connection_of_step hcall, hs, mem_inProgressNonces]
        exact ⟨h, List.mem_of_getElem? hc, hin, rfl⟩
      · cases hstep
    · cases habandon
  · cases habandon

/-- After a call has failed in these writes or panicked, the set is never again that of the calls in
progress. -/
theorem nonces_ne_of_abandons {t : Handshakes} (hrun : Reachable (step magic) KeepsNonces init s)
    {e : HandshakesEvent} (habandon : s.abandons e = true) (hstep : s.step magic e = some s')
    (hrest : Reachable (step magic) (fun _ _ _ => True) s' t) (hdistinct : t.DistinctNonces) :
    t.nonces ≠ t.inProgressNonces := by
  have hback : s'.DistinctNonces ∧ ∀ c, s'.Leaked c → t.Leaked c := by
    induction hrest with
    | init => exact ⟨hdistinct, fun c hleaked => hleaked⟩
    | step hrun hstep hok ih =>
      obtain ⟨hfirst, hkeep⟩ := ih (distinctNonces_of_step hstep hdistinct)
      exact ⟨hfirst, fun c hleaked => (hkeep c hleaked).step hdistinct hstep⟩
  have hs := nonces_eq_of_reachable hrun (distinctNonces_of_step hstep hback.1)
  obtain ⟨c, hleaked⟩ := Leaked.of_abandons hs habandon hstep
  exact (hback.2 c hleaked).nonces_ne hdistinct

end Handshakes

end

namespace Sample

/-- A connection to another node. -/
def outboundCall : Connection := ⟨.outboundFullRelay, none, 1700000000, 7, 0⟩

/-- The peer resets the connection before the version message is written. -/
def resetEarly : List HandshakesEvent :=
  [.connect outboundCall, .call 0 .start, .call 0 (.fail (.io "connection reset by peer"))]

/-- The peer closes the connection after that, and another one connects. -/
def closedLate : List HandshakesEvent :=
  [.connect outboundCall, .call 0 .start, .write 0 125, .call 0 .enterLoop,
    .call 0 (.fail .connectionClosed), .call 0 .removeNonce,
    .connect ⟨.inbound, none, 1700000000, 8, 0⟩, .call 1 .start]

set_option maxRecDepth 100000 in
/-- The only call is over, and its nonce is still in the set. -/
theorem nonces_ne_of_resetEarly :
    ∃ s, Reachable (Handshakes.step magic) (fun _ _ _ => True) .init s ∧ s.DistinctNonces ∧
      s.nonces = {7} ∧ s.inProgressNonces = ∅ ∧
      ¬(s.nonces = s.inProgressNonces ∧
        ∀ (c : Nat) (h : Handshake) (result : Except P2pError Unit), s.calls[c]? = some h →
          h.phase = .returned result → h.connection.nonce ∉ s.nonces) := by
  have hrun : (Reachable.run (Handshakes.step magic) (fun _ _ _ => true) .init resetEarly).map
      (fun s => (s.nonces, s.inProgressNonces, s.calls.map fun h => h.connection.nonce)) =
      some ({7}, ∅, [7]) := by
    decide +kernel
  obtain ⟨s, hs, heq⟩ := Option.map_eq_some_iff.mp hrun
  obtain ⟨hleft, hin, hnonces⟩ : s.nonces = {7} ∧ s.inProgressNonces = ∅ ∧
      (s.calls.map fun h => h.connection.nonce) = [7] := by
    simpa only [Prod.mk.injEq] using heq
  refine ⟨s, .of_run (fun _ _ _ _ => trivial) .init hs, ?_, hleft, hin, ?_⟩
  · unfold Handshakes.DistinctNonces
    rw [hnonces]
    decide
  · rintro ⟨hequal, -⟩
    rw [hleft, hin] at hequal
    exact absurd hequal (by decide)

set_option maxRecDepth 100000 in
/-- The first call has failed after its version message, and only the second is in progress. -/
theorem nonces_eq_closedLate :
    ∃ s, Reachable (Handshakes.step magic) Handshakes.KeepsNonces .init s ∧ s.nonces = {8} ∧
      s.nonces = s.inProgressNonces := by
  have hrun :
    (Reachable.run (Handshakes.step magic) (fun s e _ => !s.abandons e) .init closedLate).map
      (fun s => (s.nonces, s.calls.map fun h => h.connection.nonce)) = some ({8}, [7, 8]) := by
    decide +kernel
  obtain ⟨s, hs, heq⟩ := Option.map_eq_some_iff.mp hrun
  obtain ⟨hleft, hnonces⟩ : s.nonces = {8} ∧
      (s.calls.map fun h => h.connection.nonce) = [7, 8] := by
    simpa only [Prod.mk.injEq] using heq
  have hdistinct : s.DistinctNonces := by
    unfold Handshakes.DistinctNonces
    rw [hnonces]
    decide
  have hreachable : Reachable (Handshakes.step magic) Handshakes.KeepsNonces .init s :=
    Reachable.of_run (fun s e s' hkeep => by simpa [Handshakes.KeepsNonces] using hkeep) .init hs
  exact ⟨s, hreachable, hleft,
    (Handshakes.nonces_eq_inProgressNonces magic s hreachable hdistinct).1⟩

end Sample

end Bitcrab
