import Bitcrab.Net.Registry

/-!
# Bans

Misbehaviour is recorded in the peer table, which bans the IP of a peer in its own list. New
connections are checked against the list of `Connman`, an own one that no ban of the peer table
reaches.
-/

namespace Bitcrab

namespace Attempt

/-- The attempt has passed the check against bans and has not finished its handshake. -/
def InHandshake (a : Attempt) : Prop := a.phase = .connecting ∨ a.phase = .handshaking

end Attempt

/-- A list of bans holds one of the forms of the IP, and the ban has not expired. -/
def BannedIn (now : Instant) (bans : HashMap IpAddr Instant) (ip : IpAddr) : Prop :=
  ∃ ip' expiry, bans.lookup ip' = some expiry ∧ ip'.canonical = ip.canonical ∧ now < expiry

namespace Network

/-- No handshake with an IP that the peer table has banned can complete. -/
def BansEnforced [BucketHash] (s : Network) : Prop :=
  ∀ (c : ConnId) (a : Attempt) (s' : Network), s.attempts[c]? = some a →
    s.step (.attempt c .completeHandshake) = some s' → ¬BannedIn s.now s.table.banList a.addr.ip

/-- The address that `record_misbehavior` bans. -/
def bannedByScore (s : Network) (addr : SocketAddr) (score : Int32) : Option SocketAddr :=
  if (s.table.scores.lookup addr).getD 0 + score ≥ 100 then some addr else none

/-- The address that a step bans. -/
def bannedBy (s : Network) : NetEvent → Option SocketAddr
  | .recordMisbehavior addr score => s.bannedByScore addr score
  | .runTask i =>
    match s.tasks[i]? with
    | some (.record addr score) => s.bannedByScore addr score
    | some (.discourage addr) => some addr
    | _ => none
  | _ => none

/-- Whoever the peer table bans is banned by `Connman` for as long, and in no handshake; and
`Connman` does not shorten such a ban. -/
structure BansShared (s : Network) (e : NetEvent) : Prop where
  connman : ∀ addr, s.bannedBy e = some addr →
    ∃ expiry, s.connman.banList.lookup addr.ip.canonical = some expiry ∧
      s.now + PeerTable.banTime ≤ expiry
  idle : ∀ addr, s.bannedBy e = some addr → ∀ (c : ConnId) (a : Attempt),
    s.attempts[c]? = some a → a.InHandshake → a.addr.ip.canonical ≠ addr.ip.canonical
  kept : ∀ ip duration, e = .ban ip duration → ∀ ip' expiry,
    s.table.banList.lookup ip' = some expiry → s.now < expiry → ip'.canonical = ip →
      expiry ≤ s.now + duration

end Network

/-! ### What keeps the two lists together -/

lemma IpAddr.canonical_canonical (ip : IpAddr) : ip.canonical.canonical = ip.canonical := by
  cases ip with
  | v4 octets => rfl
  | v6 octets =>
    cases hmapped : toIpv4Mapped octets with
    | none => simp [canonical, hmapped]
    | some mapped => simp [canonical, hmapped]

lemma SocketAddr.canonical_of_isIpv4 {addr : SocketAddr} (h : addr.isIpv4 = true) :
    addr.ip.canonical = addr.ip := by
  unfold isIpv4 at h
  split at h
  · rename_i octets heq
    rw [heq]
    rfl
  · cases h

/-- Bans of the peer table are in both lists, nobody in a handshake is banned, and the address of
every socket is in normal form. -/
structure SharedIn (now : Instant) (attempts : List Attempt)
    (bans connmanBans : HashMap IpAddr Instant) : Prop where
  shared : ∀ ip expiry, bans.lookup ip = some expiry → now < expiry →
    ∃ expiry', connmanBans.lookup ip.canonical = some expiry' ∧ expiry ≤ expiry'
  clean : ∀ (c : ConnId) (a : Attempt), attempts[c]? = some a → a.InHandshake →
    ¬BannedIn now bans a.addr.ip
  normal : ∀ (c : ConnId) (a : Attempt), attempts[c]? = some a →
    a.addr.ip.canonical = a.addr.ip

namespace SharedIn

variable {now : Instant} {attempts : List Attempt} {bans connmanBans : HashMap IpAddr Instant}

lemma tick (h : SharedIn now attempts bans connmanBans) (nanos : Nat) :
    SharedIn (now + nanos) attempts bans connmanBans := by
  have hlater : ∀ {expiry : Instant}, now + nanos < expiry → now < expiry :=
    fun hnow => lt_of_le_of_lt (Nat.le_add_right now nanos) hnow
  refine ⟨fun ip expiry hban hnow => h.shared ip expiry hban (hlater hnow), ?_, h.normal⟩
  rintro c a ha hin ⟨ip, expiry, hban, hip, hnow⟩
  exact h.clean c a ha hin ⟨ip, expiry, hban, hip, hlater hnow⟩

/-- Who is not banned by `Connman` is not banned by the peer table. -/
lemma not_bannedIn (h : SharedIn now attempts bans connmanBans) {addrMan : AddrMan} {ip : IpAddr}
    (hnormal : ip.canonical = ip)
    (hfree : (Connman.mk connmanBans addrMan).isBanned now ip = false) :
    ¬BannedIn now bans ip := by
  rintro ⟨ip', expiry, hban, hip, hnow⟩
  obtain ⟨expiry', hconn, hle⟩ := h.shared ip' expiry hban hnow
  rw [hip, hnormal] at hconn
  simp only [Connman.isBanned, hconn, decide_eq_false_iff_not] at hfree
  exact hfree (lt_of_lt_of_le hnow hle)

/-- A ban that `Connman` has had before. -/
lemma ban (h : SharedIn now attempts bans connmanBans) {ip : IpAddr} {expiry expiry' : Instant}
    (hconn : connmanBans.lookup ip.canonical = some expiry') (hle : expiry ≤ expiry')
    (hidle : ∀ (c : ConnId) (a : Attempt), attempts[c]? = some a → a.InHandshake →
      a.addr.ip.canonical ≠ ip.canonical) :
    SharedIn now attempts (bans.insert ip expiry) connmanBans := by
  have hlookup : ∀ {ip' expiry''}, (bans.insert ip expiry).lookup ip' = some expiry'' →
      (ip' = ip ∧ expiry'' = expiry) ∨ bans.lookup ip' = some expiry'' := by
    intro ip' expiry'' hlookup
    by_cases hip : ip' = ip
    · subst hip
      rw [AList.lookup_insert, Option.some_inj] at hlookup
      exact .inl ⟨rfl, hlookup.symm⟩
    · rw [AList.lookup_insert_ne hip] at hlookup
      exact .inr hlookup
  refine ⟨?_, ?_, h.normal⟩
  · intro ip' expiry'' hban hnow
    rcases hlookup hban with ⟨rfl, rfl⟩ | hold
    · exact ⟨expiry', hconn, hle⟩
    · exact h.shared ip' expiry'' hold hnow
  · rintro c a ha hin ⟨ip', expiry'', hban, hip, hnow⟩
    rcases hlookup hban with ⟨rfl, rfl⟩ | hold
    · exact hidle c a ha hin hip.symm
    · exact h.clean c a ha hin ⟨ip', expiry'', hold, hip, hnow⟩

/-- `Connman::ban`, where it does not shorten a ban of the peer table. -/
lemma connmanBan (h : SharedIn now attempts bans connmanBans) {ip : IpAddr} {expiry : Instant}
    (hkept : ∀ ip' expiry', bans.lookup ip' = some expiry' → now < expiry' → ip'.canonical = ip →
      expiry' ≤ expiry) : SharedIn now attempts bans (connmanBans.insert ip expiry) := by
  refine ⟨?_, h.clean, h.normal⟩
  intro ip' expiry' hban hnow
  by_cases hip : ip'.canonical = ip
  · exact ⟨expiry, by rw [hip, AList.lookup_insert], hkept ip' expiry' hban hnow hip⟩
  · rw [AList.lookup_insert_ne hip]
    exact h.shared ip' expiry' hban hnow

/-- A ban of `Connman` that has expired is not needed. -/
lemma forgetExpired (h : SharedIn now attempts bans connmanBans) (addrMan : AddrMan) (ip : IpAddr) :
    SharedIn now attempts bans ((Connman.mk connmanBans addrMan).forgetExpired now ip).banList := by
  unfold Connman.forgetExpired
  split_ifs with hbanned
  · exact h
  · refine ⟨?_, h.clean, h.normal⟩
    intro ip' expiry hban hnow
    obtain ⟨expiry', hconn, hle⟩ := h.shared ip' expiry hban hnow
    have hne : ip'.canonical ≠ ip := by
      intro hip
      rw [hip] at hconn
      simp only [Connman.isBanned, hconn, decide_eq_true_eq] at hbanned
      exact hbanned (lt_of_lt_of_le hnow hle)
    dsimp only
    rw [AList.lookup_erase_ne hne]
    exact ⟨expiry', hconn, hle⟩

lemma append (h : SharedIn now attempts bans connmanBans) {a : Attempt}
    (hnormal : a.addr.ip.canonical = a.addr.ip)
    (hclean : a.InHandshake → ¬BannedIn now bans a.addr.ip) :
    SharedIn now (attempts ++ [a]) bans connmanBans := by
  have hcases : ∀ {c : ConnId} {b}, (attempts ++ [a])[c]? = some b → attempts[c]? = some b ∨
    b = a := by
    intro c b hb
    rw [List.getElem?_append] at hb
    split_ifs at hb
    · exact .inl hb
    · right
      rw [List.getElem?_singleton] at hb
      split_ifs at hb
      exact (Option.some.inj hb).symm
  refine ⟨h.shared, ?_, ?_⟩
  · intro c b hb hin
    rcases hcases hb with hb | rfl
    · exact h.clean c b hb hin
    · exact hclean hin
  · intro c b hb
    rcases hcases hb with hb | rfl
    · exact h.normal c b hb
    · exact hnormal

/-- An attempt goes on, and enters its handshake only if it is not banned. -/
lemma set (h : SharedIn now attempts bans connmanBans) {c : ConnId} {a a' : Attempt}
    (ha : attempts[c]? = some a) (haddr : a'.addr = a.addr)
    (hin : a'.InHandshake → a.InHandshake ∨ ¬BannedIn now bans a.addr.ip) :
    SharedIn now (attempts.set c a') bans connmanBans := by
  have hcases : ∀ {d : ConnId} {b}, (attempts.set c a')[d]? = some b →
      attempts[d]? = some b ∨ b = a' := by
    intro d b hb
    by_cases hd : c = d
    · subst hd
      rw [Network.getElem?_set_self' ha, Option.some_inj] at hb
      exact .inr hb.symm
    · rw [List.getElem?_set_ne hd] at hb
      exact .inl hb
  refine ⟨h.shared, ?_, ?_⟩
  · intro d b hb hb'
    rcases hcases hb with hb | rfl
    · exact h.clean d b hb hb'
    · rw [haddr]
      rcases hin hb' with hin | hfree
      · exact h.clean c a ha hin
      · exact hfree
  · intro d b hb
    rcases hcases hb with hb | rfl
    · exact h.normal d b hb
    · rw [haddr]
      exact h.normal c a ha

end SharedIn

namespace Network

/-- The bans of a state are shared. -/
abbrev Shared (s : Network) : Prop :=
  SharedIn s.now s.attempts s.table.banList s.connman.banList

section

variable {s s' : Network}

lemma shared_recordScore (h : s.Shared) {addr : SocketAddr} {score : Int32}
    (hconn : s.bannedByScore addr score = some addr →
      ∃ expiry, s.connman.banList.lookup addr.ip.canonical = some expiry ∧
        s.now + PeerTable.banTime ≤ expiry)
    (hidle : s.bannedByScore addr score = some addr → ∀ (c : ConnId) (a : Attempt),
      s.attempts[c]? = some a → a.InHandshake → a.addr.ip.canonical ≠ addr.ip.canonical) :
    (s.recordScore addr score).Shared := by
  by_cases hscore : (s.table.scores.lookup addr).getD 0 + score ≥ 100
  · have hban : s.bannedByScore addr score = some addr := if_pos hscore
    obtain ⟨expiry, hlookup, hle⟩ := hconn hban
    simp only [recordScore, PeerTable.recordMisbehavior, if_pos hscore]
    exact h.ban hlookup hle (hidle hban)
  · simp only [recordScore, PeerTable.recordMisbehavior, if_neg hscore]
    exact h

lemma shared_stepAccept (h : s.Shared)
    (hipv4 : ∀ addr, s.acceptLoop.addr? = some addr → addr.isIpv4 = true) {e : AcceptEvent}
    (hstep : s.stepAccept e = some s') : s'.Shared := by
  cases e with
  | accept addr =>
    simp only [stepAccept] at hstep
    split at hstep
    · split_ifs at hstep
      cases hstep
      exact h
    · cases hstep
  | countInbound =>
    simp only [stepAccept] at hstep
    split at hstep
    · cases hstep
      exact h
    · cases hstep
  | reserveSlot =>
    simp only [stepAccept] at hstep
    split at hstep
    · split_ifs at hstep <;> cases hstep <;> exact h
    · cases hstep
  | checkInbound =>
    simp only [stepAccept] at hstep
    split at hstep
    · rename_i addr hphase
      split_ifs at hstep with hbanned
      · cases hstep
        exact h
      · cases hstep
        have hnormal : addr.ip.canonical = addr.ip :=
          SocketAddr.canonical_of_isIpv4 (hipv4 addr (by rw [hphase]; rfl))
        have hfree : ¬BannedIn s.now s.table.banList addr.ip :=
          h.not_bannedIn hnormal (by simpa using hbanned)
        exact (h.forgetExpired _ _).append hnormal fun _ => hfree
    · cases hstep

lemma shared_stepLoop (h : s.Shared) {l : Loop} (htype : (s.loop l).connType ∈ l.fills)
    {e : LoopEvent} (hstep : s.stepLoop l e = some s') : s'.Shared := by
  have hsetLoop : ∀ {s : Network} (phase : LoopPhase), s.Shared → (s.setLoop l phase).Shared := by
    intro s phase hs
    simpa [Shared] using hs
  cases e with
  | spawn =>
    simp only [stepLoop] at hstep
    split at hstep
    · rename_i t needed exclude addr hphase
      cases hstep
      have ht : t ≠ .inbound := by
        rintro rfl
        rw [hphase] at htype
        cases l <;> simp [LoopPhase.connType, Loop.fills] at htype
      refine hsetLoop _ (SharedIn.append h ?_ ?_)
      · simp [Attempt.addr, ht, SocketAddr.normalize, IpAddr.canonical_canonical]
      · simp [Attempt.InHandshake]
    · cases hstep
  | selectAddress order =>
    simp only [stepLoop] at hstep
    split at hstep
    · split at hstep <;> cases hstep <;> exact hsetLoop _ h
    · cases hstep
  | _ =>
    simp only [stepLoop] at hstep
    split at hstep
    · cases hstep
      exact hsetLoop _ h
    · cases hstep

variable [BucketHash] {c : ConnId} {a : Attempt}

lemma shared_stepAttempt (h : s.Shared) (ha : s.attempts[c]? = some a) {e : AttemptEvent}
    (hstep : s.stepAttempt c a e = some s') : s'.Shared := by
  -- a step that does not begin a handshake
  have hmove : ∀ {a' : Attempt}, a'.addr = a.addr → (a'.InHandshake → a.InHandshake) →
      SharedIn s.now (s.attempts.set c a') s.table.banList s.connman.banList :=
    fun haddr hin => SharedIn.set h ha haddr fun hin' => .inl (hin hin')
  cases e with
  | dial =>
    simp only [stepAttempt] at hstep
    split_ifs at hstep with hphase hbanned
    · cases hstep
      exact hmove rfl (by simp [Attempt.InHandshake])
    · cases hstep
      have hfree : ¬BannedIn s.now s.table.banList a.addr.ip :=
        SharedIn.not_bannedIn h (h.normal c a ha) (by simpa using hbanned)
      exact (SharedIn.forgetExpired h _ _).set ha rfl fun _ => .inr hfree
  | connected =>
    simp only [stepAttempt] at hstep
    split_ifs at hstep with hphase
    cases hstep
    exact hmove rfl fun _ => .inl hphase
  | unreachable =>
    simp only [stepAttempt] at hstep
    split_ifs at hstep
    cases hstep
    exact hmove rfl (by simp [Attempt.InHandshake])
  | failHandshake =>
    simp only [stepAttempt, handshakeFailed] at hstep
    split_ifs at hstep <;> cases hstep <;> exact hmove rfl (by simp [Attempt.InHandshake])
  | completeHandshake =>
    simp only [stepAttempt] at hstep
    split_ifs at hstep
    cases hstep
    exact hmove rfl (by simp [Attempt.InHandshake])
  | addPeer =>
    simp only [stepAttempt] at hstep
    split_ifs at hstep
    cases hstep
    exact hmove rfl (by simp [Attempt.InHandshake])
  | initializeNode =>
    simp only [stepAttempt] at hstep
    split_ifs at hstep
    cases hstep
    exact hmove rfl (by simp [Attempt.InHandshake])
  | returnOk =>
    simp only [stepAttempt, handshakeReturned] at hstep
    split_ifs at hstep <;> cases hstep <;> exact hmove rfl (by simp [Attempt.InHandshake])
  | finish =>
    simp only [stepAttempt, finishAttempt] at hstep
    split at hstep
    · cases hstep
      split_ifs <;> exact hmove rfl (by simp [Attempt.InHandshake])
    · cases hstep
  | stopReading =>
    simp only [stepAttempt] at hstep
    split_ifs at hstep
    cases hstep
    exact hmove rfl id
  | finalizeManager =>
    simp only [stepAttempt] at hstep
    split_ifs at hstep
    cases hstep
    exact hmove rfl id
  | finalizeTable =>
    simp only [stepAttempt] at hstep
    split_ifs at hstep
    cases hstep
    exact hmove rfl id
  | finalizeSync =>
    simp only [stepAttempt] at hstep
    split_ifs at hstep
    cases hstep
    exact hmove rfl id

lemma shared_runTask (h : s.Shared) {i : Nat} (hok : s.BansShared (.runTask i))
    (hstep : s.step (.runTask i) = some s') : s'.Shared := by
  obtain ⟨hconn, hidle, -⟩ := hok
  simp only [step] at hstep
  split at hstep
  · rename_i task htask
    cases hstep
    simp only [bannedBy, htask] at hconn hidle
    cases task with
    | record addr score =>
      exact shared_recordScore (s := { s with tasks := s.tasks.eraseIdx i }) h (hconn addr)
        (hidle addr)
    | discourage addr =>
      obtain ⟨expiry, hlookup, hle⟩ := hconn addr rfl
      exact SharedIn.ban h hlookup hle (hidle addr rfl)
    | finishBan addr => exact h
  · cases hstep

lemma shared_step (h : s.Shared)
    (hipv4 : ∀ addr, s.acceptLoop.addr? = some addr → addr.isIpv4 = true)
    (htypes : ∀ l, (s.loop l).connType ∈ Loop.fills l) {e : NetEvent} (hok : s.BansShared e)
    (hstep : s.step e = some s') : s'.Shared := by
  cases e with
  | tick nanos =>
    cases hstep
    exact SharedIn.tick h nanos
  | ban ip duration =>
    cases hstep
    exact SharedIn.connmanBan h (hok.kept ip duration rfl)
  | addAddresses addresses source =>
    cases hstep
    exact h
  | misbehaving addr howMuch =>
    simp only [step, scorePeer] at hstep
    split at hstep
    · split_ifs at hstep <;> cases hstep <;> exact h
    · cases hstep
      exact h
  | recordMisbehavior addr score =>
    cases hstep
    exact shared_recordScore h (hok.connman addr) (hok.idle addr)
  | runTask i => exact shared_runTask h hok hstep
  | clear =>
    cases hstep
    exact h
  | accept e => exact shared_stepAccept h hipv4 hstep
  | initiate l e => exact shared_stepLoop h (htypes l) hstep
  | attempt c e =>
    simp only [step] at hstep
    split at hstep
    · rename_i a ha
      exact shared_stepAttempt h ha hstep
    · cases hstep

/-- In a run in which every ban of the peer table is shared with `Connman`, no handshake with a
banned IP can complete. -/
theorem bansEnforced_of_bansShared (known saved : AddrMan) (s : Network)
    (hrun : Reachable step (fun s e _ => s.BansShared e) (init known saved) s) :
    s.BansEnforced := by
  have hshared : s.Shared := by
    refine hrun.invariant_of_reachable Shared ⟨?_, ?_, ?_⟩ ?_
    · simp [init, PeerTable.new]
    · simp [init]
    · simp [init]
    · intro s e s' hs hinv hstep hok
      exact shared_step hinv (isIpv4_of_accepted hs) (connType_mem_fills hs) hok hstep
  intro c a s' ha hstep
  simp only [step, ha, stepAttempt] at hstep
  split_ifs at hstep with hphase
  exact hshared.clean c a ha (.inr hphase)

end

end Network

namespace Sample

/-- A peer connects, misbehaves and is banned by the peer table. -/
def misbehave (c : ConnId) (port : UInt16) : List NetEvent :=
  inboundHandshake c port ++ [.attempt c .addPeer, .attempt c .initializeNode, .attempt c .returnOk,
    .attempt c .finish, .misbehaving (peerAddr port) 100, .runTask 0]

/-- `Connman` bans nobody, so the IP that the peer table has banned can connect again. -/
theorem banned_peer_connects :
    ∃ s, Reachable Network.step (fun _ _ _ => True) (.init .new .new) s ∧ ¬s.BansEnforced := by
  have hbanned : (afterSteps (misbehave 0 50000 ++
      [.accept (.accept (peerAddr 50001)), .accept .countInbound, .accept .reserveSlot,
        .accept .checkInbound])).map (fun s =>
        (s.now, s.attempts[1]?, s.table.banList.lookup (peerAddr 50000).ip)) =
      some (0, some ⟨peerAddr 50001, .inbound, .handshaking, .notStarted⟩,
        some PeerTable.banTime) := by
    decide +kernel
  obtain ⟨s, hs, heq⟩ := Option.map_eq_some_iff.mp hbanned
  obtain ⟨hnow, hattempt, hban⟩ : s.now = 0 ∧
      s.attempts[1]? = some ⟨peerAddr 50001, .inbound, .handshaking, .notStarted⟩ ∧
      s.table.banList.lookup (peerAddr 50000).ip = some PeerTable.banTime := by
    simpa [Prod.ext_iff] using heq
  refine ⟨s, Reachable.of_run (fun _ _ _ _ => trivial) .init hs, fun h => ?_⟩
  refine h 1 _ _ hattempt (by simp only [Network.step, hattempt]; rfl) ?_
  exact ⟨(peerAddr 50000).ip, PeerTable.banTime, hban, rfl, by rw [hnow]; decide⟩

/-- A test that is enough for the condition. -/
def bansShared (s : Network) (e : NetEvent) : Bool :=
  ((s.bannedBy e).all fun addr =>
    ((s.connman.banList.lookup addr.ip.canonical).any fun expiry =>
      s.now + PeerTable.banTime ≤ expiry) &&
    s.attempts.all fun a =>
      a.phase ≠ .connecting && a.phase ≠ .handshaking ||
        a.addr.ip.canonical ≠ addr.ip.canonical) &&
  match e with
  | .ban _ _ => s.table.banList.keys.isEmpty
  | _ => true

lemma bansShared_of_test (s : Network) (e : NetEvent) (h : bansShared s e = true) :
    s.BansShared e := by
  unfold bansShared at h
  rw [Bool.and_eq_true] at h
  obtain ⟨hban, hkept⟩ := h
  refine ⟨?_, ?_, ?_⟩
  · intro addr haddr
    simp only [haddr, Option.all_some, Bool.and_eq_true, Option.any_eq_true] at hban
    obtain ⟨expiry, hlookup, hle⟩ := hban.1
    exact ⟨expiry, hlookup, by simpa using hle⟩
  · intro addr haddr c a ha hin
    simp only [haddr, Option.all_some, Bool.and_eq_true, List.all_eq_true] at hban
    have ha' := hban.2 a (List.mem_of_getElem? ha)
    rcases hin with hphase | hphase <;> simpa [hphase] using ha'
  · rintro ip duration rfl ip' expiry hlookup
    have hmem : ip' ∈ s.table.banList.keys := AList.lookup_isSome.mp (by simp [hlookup])
    simp [List.isEmpty_iff.mp hkept] at hmem

/-- Where `Connman` bans the IP first, the peer table's ban of it holds. -/
theorem bansEnforced_banned_first :
    ∃ s, Reachable Network.step (fun s e _ => s.BansShared e) (.init .new .new) s ∧
      (s.table.banList.lookup (peerAddr 50000).ip).isSome = true ∧ s.BansEnforced := by
  have hrun : (Reachable.run Network.step (fun s e _ => bansShared s e) (.init .new .new)
      (inboundHandshake 0 50000 ++ [.attempt 0 .addPeer, .attempt 0 .initializeNode,
        .ban (peerAddr 50000).ip PeerTable.banTime, .misbehaving (peerAddr 50000) 100,
        .runTask 0])).map
      (fun s => (s.table.banList.lookup (peerAddr 50000).ip).isSome) = some true := by
    decide +kernel
  obtain ⟨s, hs, hbanned⟩ := Option.map_eq_some_iff.mp hrun
  have hreachable : Reachable Network.step (fun s e _ => s.BansShared e) (.init .new .new) s :=
    Reachable.of_run (fun s e _ => bansShared_of_test s e) .init hs
  exact ⟨s, hreachable, hbanned, Network.bansEnforced_of_bansShared .new .new s hreachable⟩

end Sample

end Bitcrab
