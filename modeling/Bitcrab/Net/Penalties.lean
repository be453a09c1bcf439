import Mathlib.Algebra.Order.BigOperators.Group.List
import Bitcrab.Net.Registry

/-!
# Penalties

`PeerManager::misbehaving` counts the penalties of a session under its own lock, and records them in
the peer table afterwards, which counts those of an address over all sessions and bans. Other tasks
come in between. `Books` are the tables that penalties read and write; what a step of the node can
do to them are the cases of `Books.Step`. Both counts are `i32`; as long as no sum overflows they
are the sums that they stand for.
-/

namespace Bitcrab

/-- The clock and the tables that penalties read and write. -/
structure Books where
  now : Instant
  manager : HashMap SocketAddr Peer
  tasks : List Task
  scores : HashMap SocketAddr Int32
  banList : HashMap IpAddr Instant

/-- What a task still has to record for an address. -/
def Task.penalty (addr : SocketAddr) : Task → Int
  | .record a score => if a = addr then score.toInt else 0
  | _ => 0

/-- What all tasks still have to record for an address. -/
def pendingPenalty (tasks : List Task) (addr : SocketAddr) : Int :=
  (tasks.map (Task.penalty addr)).sum

namespace Books

/-- The recorded penalties of an address. -/
def score (b : Books) (addr : SocketAddr) : Int32 := (b.scores.lookup addr).getD 0

/-- The peer table has banned an IP. -/
def Banned (b : Books) (ip : IpAddr) : Prop := ∃ expiry, b.banList.lookup ip = some expiry

/-- A ban, up to `finish_ban`. -/
def ban (b : Books) (addr : SocketAddr) : Books :=
  { b with
    banList := b.banList.insert addr.ip (b.now + PeerTable.banTime)
    tasks := b.tasks ++ [.finishBan addr] }

/-- A penalty is recorded. -/
def record (b : Books) (addr : SocketAddr) (score : Int32) : Books :=
  let recorded := { b with scores := b.scores.insert addr (b.score addr + score) }
  if b.score addr + score ≥ 100 then recorded.ban addr else recorded

/-- A task is done. -/
def perform (b : Books) : Task → Books
  | .record addr score => b.record addr score
  | .discourage addr => b.ban addr
  | .finishBan _ => b

/-- A penalty for a peer of the peer manager. -/
def penalize (b : Books) (addr : SocketAddr) (peer : Peer) (howMuch : Int32) : Books :=
  if peer.misbehaviorScore + howMuch ≥ 100 ∧ peer.isDiscouraged = false then
    { b with
      manager := b.manager.insert addr
        { peer with misbehaviorScore := peer.misbehaviorScore + howMuch, isDiscouraged := true }
      tasks := b.tasks ++ [.discourage addr] }
  else
    { b with
      manager := b.manager.insert addr
        { peer with misbehaviorScore := peer.misbehaviorScore + howMuch }
      tasks := b.tasks ++ [.record addr howMuch] }

/-- What a step of the node can do to the books, where points are added as `ok` allows. -/
inductive Step (ok : Int32 → Int32 → Prop) (b : Books) : Books → Prop
  | same : Step ok b b
  | tick (nanos : Nat) : Step ok b { b with now := b.now + nanos }
  | join (addr : SocketAddr) (peer : Peer) (hzero : peer.misbehaviorScore = 0)
      (hopen : peer.isDiscouraged = false) :
      Step ok b { b with manager := b.manager.insert addr peer }
  | leave (addr : SocketAddr) : Step ok b { b with manager := b.manager.erase addr }
  | penalize {addr : SocketAddr} {peer : Peer} {howMuch : Int32}
      (hpeer : b.manager.lookup addr = some peer) (hok : ok peer.misbehaviorScore howMuch) :
      Step ok b (b.penalize addr peer howMuch)
  | record {addr : SocketAddr} {score : Int32} (hok : ok (b.score addr) score) :
      Step ok b (b.record addr score)
  | perform {i : Nat} {task : Task} (htask : b.tasks[i]? = some task)
      (hok : ∀ addr score, task = .record addr score → ok (b.score addr) score) :
      Step ok b ({ b with tasks := b.tasks.eraseIdx i }.perform task)

end Books

/-! ### The books of the node -/

namespace Network

/-- The books of a state. -/
def books (s : Network) : Books := ⟨s.now, s.manager, s.tasks, s.table.scores, s.table.banList⟩

/-- Where a step adds points to a score, `ok` allows it. -/
def Adds (ok : Int32 → Int32 → Prop) (s : Network) : NetEvent → Prop
  | .misbehaving addr howMuch =>
    ∀ peer, s.manager.lookup addr = some peer → ok peer.misbehaviorScore howMuch
  | .recordMisbehavior addr score => ok (s.books.score addr) score
  | .runTask i =>
    ∀ addr score, s.tasks[i]? = some (.record addr score) → ok (s.books.score addr) score
  | _ => True

/-- A test for `Adds`. -/
def adds (ok : Int32 → Int32 → Bool) (s : Network) : NetEvent → Bool
  | .misbehaving addr howMuch =>
    (s.manager.lookup addr).all fun peer => ok peer.misbehaviorScore howMuch
  | .recordMisbehavior addr score => ok (s.books.score addr) score
  | .runTask i =>
    match s.tasks[i]? with
    | some (.record addr score) => ok (s.books.score addr) score
    | _ => true
  | _ => true

variable {s s' : Network} {ok : Int32 → Int32 → Prop}

lemma adds_of_test {test : Int32 → Int32 → Bool} (htest : ∀ a b, test a b = true → ok a b)
    {e : NetEvent} (h : s.adds test e = true) : s.Adds ok e := by
  cases e with
  | misbehaving addr howMuch =>
    intro peer hpeer
    simp only [adds, hpeer, Option.all_some] at h
    exact htest _ _ h
  | recordMisbehavior addr score => exact htest _ _ h
  | runTask i =>
    intro addr score htask
    simp only [adds, htask] at h
    exact htest _ _ h
  | _ => trivial

lemma adds_of_forall (hok : ∀ a b, ok a b) (s : Network) (e : NetEvent) : s.Adds ok e := by
  cases e with
  | misbehaving addr howMuch => exact fun peer _ => hok _ _
  | recordMisbehavior addr score => exact hok _ _
  | runTask i => exact fun addr score _ => hok _ _
  | _ => trivial

@[simp] lemma books_setLoop (s : Network) (l : Loop) (phase : LoopPhase) :
    (s.setLoop l phase).books = s.books := by
  cases l <;> rfl

lemma books_recordScore (s : Network) (addr : SocketAddr) (score : Int32) :
    (s.recordScore addr score).books = s.books.record addr score := by
  by_cases hscore : (s.table.scores.lookup addr).getD 0 + score ≥ 100
  · simp only [recordScore, PeerTable.recordMisbehavior, if_pos hscore]
    exact (if_pos hscore).symm
  · simp only [recordScore, PeerTable.recordMisbehavior, if_neg hscore]
    exact (if_neg hscore).symm

lemma books_scorePeer (s : Network) (addr : SocketAddr) (peer : Peer) (howMuch : Int32) :
    (s.scorePeer addr peer howMuch).books = s.books.penalize addr peer howMuch := by
  unfold scorePeer Books.penalize
  dsimp only
  split_ifs <;> rfl

lemma books_stepAccept {e : AcceptEvent} (hstep : s.stepAccept e = some s') :
    s'.books = s.books := by
  cases e <;> simp only [stepAccept] at hstep <;> split at hstep <;> try split_ifs at hstep
  all_goals cases hstep
  all_goals rfl

lemma books_perform (s : Network) (task : Task) :
    (s.perform task).books = s.books.perform task := by
  cases task with
  | record addr score => exact books_recordScore s addr score
  | discourage addr => rfl
  | finishBan addr => rfl

lemma books_stepLoop {l : Loop} {e : LoopEvent} (hstep : s.stepLoop l e = some s') :
    s'.books = s.books := by
  cases e <;> simp only [stepLoop] at hstep <;> split at hstep <;> try split at hstep
  all_goals cases hstep
  all_goals rw [books_setLoop]
  all_goals rfl

section

variable [BucketHash]

lemma books_stepAttempt {c : ConnId} {a : Attempt} {e : AttemptEvent}
    (hstep : s.stepAttempt c a e = some s') : Books.Step ok s.books s'.books := by
  cases e with
  | initializeNode =>
    simp only [stepAttempt] at hstep
    split_ifs at hstep
    cases hstep
    exact .join a.addr ⟨c, 0, false, a.connType⟩ rfl rfl
  | finalizeManager =>
    simp only [stepAttempt] at hstep
    split_ifs at hstep
    cases hstep
    exact .leave a.addr
  | finish =>
    simp only [stepAttempt, finishAttempt] at hstep
    split at hstep
    · cases hstep
      split_ifs <;> exact .same
    · cases hstep
  | _ =>
    simp only [stepAttempt, handshakeFailed, handshakeReturned] at hstep
    split_ifs at hstep
    all_goals cases hstep
    all_goals exact .same

/-- What a step of the node does to its books. -/
lemma books_step {e : NetEvent} (hok : s.Adds ok e) (hstep : s.step e = some s') :
    Books.Step ok s.books s'.books := by
  cases e with
  | tick nanos =>
    cases hstep
    exact .tick nanos
  | ban ip duration =>
    cases hstep
    exact .same
  | addAddresses addresses source =>
    cases hstep
    exact .same
  | misbehaving addr howMuch =>
    simp only [step] at hstep
    split at hstep
    · rename_i peer hpeer
      cases hstep
      rw [books_scorePeer]
      exact .penalize hpeer (hok peer hpeer)
    · cases hstep
      exact .same
  | recordMisbehavior addr score =>
    cases hstep
    rw [books_recordScore]
    exact .record hok
  | runTask i =>
    simp only [step] at hstep
    split at hstep
    · rename_i task htask
      cases hstep
      rw [books_perform]
      exact .perform htask fun addr score hrecord => hok addr score (hrecord ▸ htask)
    · cases hstep
  | clear =>
    cases hstep
    exact .same
  | accept e =>
    rw [books_stepAccept hstep]
    exact .same
  | initiate l e =>
    rw [books_stepLoop hstep]
    exact .same
  | attempt c e =>
    simp only [step] at hstep
    split at hstep
    · exact books_stepAttempt hstep
    · cases hstep

end

end Network

/-! ### Pending penalties -/

section Pending

variable {tasks : List Task} {task : Task} {addr : SocketAddr} {i : Nat}

lemma pendingPenalty_concat (tasks : List Task) (task : Task) (addr : SocketAddr) :
    pendingPenalty (tasks ++ [task]) addr = pendingPenalty tasks addr + task.penalty addr := by
  simp [pendingPenalty]

lemma pendingPenalty_nonneg (h : ∀ task ∈ tasks, 0 ≤ task.penalty addr) :
    0 ≤ pendingPenalty tasks addr := by
  refine List.sum_nonneg fun penalty hmem => ?_
  obtain ⟨task, htask, rfl⟩ := List.mem_map.mp hmem
  exact h task htask

lemma perm_eraseIdx (h : tasks[i]? = some task) : tasks.Perm (task :: tasks.eraseIdx i) := by
  obtain ⟨hi, rfl⟩ := List.getElem?_eq_some_iff.mp h
  exact (List.getElem_cons_eraseIdx_perm hi).symm

lemma pendingPenalty_eraseIdx (h : tasks[i]? = some task) :
    pendingPenalty tasks addr = task.penalty addr + pendingPenalty (tasks.eraseIdx i) addr := by
  rw [pendingPenalty, ((perm_eraseIdx h).map _).sum_eq, List.map_cons, List.sum_cons]
  rfl

end Pending

/-! ### The account of a run -/

namespace Books

/-- Points that are not negative are added, and the sum is an `i32`. -/
def AddsExactly (score points : Int32) : Prop :=
  0 ≤ points.toInt ∧ score.toInt + points.toInt < 2 ^ 31

/-- The account of a peer of the peer manager: as long as it is not discouraged its session has less
than 100 penalty points, all of them in the peer table or still to be recorded; once it is, its IP
has an entry in the ban list or is still to get one. -/
structure PeerAccounted (b : Books) (addr : SocketAddr) (peer : Peer) : Prop where
  few : peer.isDiscouraged = false → peer.misbehaviorScore < 100
  recorded : peer.isDiscouraged = false →
    peer.misbehaviorScore.toInt ≤ (b.score addr).toInt + pendingPenalty b.tasks addr
  banned : peer.isDiscouraged = true → .discourage addr ∈ b.tasks ∨ b.Banned addr.ip

/-- The account of all penalties. -/
structure Accounted (b : Books) : Prop where
  score_nonneg : ∀ addr, 0 ≤ (b.score addr).toInt
  penalty_nonneg : ∀ task ∈ b.tasks, ∀ addr, 0 ≤ task.penalty addr
  peers : ∀ addr peer, b.manager.lookup addr = some peer → b.PeerAccounted addr peer
  banned : ∀ addr, 100 ≤ b.score addr → b.Banned addr.ip

variable {b b' : Books} {addr : SocketAddr} {score : Int32}

lemma Banned.ban {ip : IpAddr} (h : b.Banned ip) (addr : SocketAddr) : (b.ban addr).Banned ip := by
  obtain ⟨expiry, hlookup⟩ := h
  by_cases hip : ip = addr.ip
  · subst hip
    exact ⟨_, AList.lookup_insert _⟩
  · exact ⟨expiry, (AList.lookup_insert_ne hip).trans hlookup⟩

lemma banned_ban (b : Books) (addr : SocketAddr) : (b.ban addr).Banned addr.ip :=
  ⟨_, AList.lookup_insert _⟩

lemma toInt_add_of_addsExactly {score points : Int32} (h : AddsExactly score points) :
    (score + points).toInt = score.toInt + points.toInt := by
  obtain ⟨hnonneg, hlt⟩ := h
  have hle := Int32.le_toInt score
  rw [Int32.toInt_add]
  exact Int.bmod_eq_of_le (by omega) (by omega)

lemma score_insert (b : Books) (addr a : SocketAddr) (total : Int32) :
    Books.score { b with scores := b.scores.insert addr total } a =
      if addr = a then total else b.score a := by
  unfold Books.score
  dsimp only
  by_cases ha : a = addr
  · subst ha
    rw [AList.lookup_insert, if_pos rfl, Option.getD_some]
  · rw [AList.lookup_insert_ne ha, if_neg (Ne.symm ha)]

lemma toInt_score_insert (hadds : AddsExactly (b.score addr) score) (a : SocketAddr) :
    (Books.score { b with scores := b.scores.insert addr (b.score addr + score) } a).toInt =
      (b.score a).toInt + if addr = a then score.toInt else 0 := by
  rw [score_insert]
  split_ifs with ha
  · rw [toInt_add_of_addsExactly hadds, ha]
  · exact (add_zero _).symm

/-- A ban keeps the account, up to the scores that it is for. -/
lemma accounted_ban (hscore : ∀ a, 0 ≤ (b.score a).toInt)
    (hpenalty : ∀ task ∈ b.tasks, ∀ a, 0 ≤ task.penalty a)
    (hpeers : ∀ a peer, b.manager.lookup a = some peer → (peer.isDiscouraged = false →
      peer.misbehaviorScore < 100 ∧
        peer.misbehaviorScore.toInt ≤ (b.score a).toInt + pendingPenalty b.tasks a) ∧
      (peer.isDiscouraged = true → .discourage a ∈ b.tasks ∨ b.Banned a.ip ∨ a = addr))
    (hbanned : ∀ a, 100 ≤ b.score a → b.Banned a.ip ∨ a = addr) : (b.ban addr).Accounted where
  score_nonneg := hscore
  penalty_nonneg task hmem a := by
    rcases List.mem_append.mp hmem with hmem | hmem
    · exact hpenalty task hmem a
    · obtain rfl := List.mem_singleton.mp hmem
      exact le_rfl
  peers a peer hpeer := by
    obtain ⟨hopen, hdiscouraged⟩ := hpeers a peer hpeer
    refine ⟨fun hfalse => (hopen hfalse).1, fun hfalse => ?_, fun htrue => ?_⟩
    · refine (hopen hfalse).2.trans_eq ?_
      have hsame : pendingPenalty (b.ban addr).tasks a = pendingPenalty b.tasks a := by
        exact (pendingPenalty_concat b.tasks (.finishBan addr) a).trans (add_zero _)
      rw [hsame]
      rfl
    · rcases hdiscouraged htrue with hpending | hold | rfl
      · exact .inl (List.mem_append_left _ hpending)
      · exact .inr (hold.ban addr)
      · exact .inr (banned_ban b a)
  banned a hfull := by
    rcases hbanned a hfull with hold | rfl
    · exact hold.ban addr
    · exact banned_ban b a

/-- A penalty that is recorded while it is not counted among the pending ones. -/
lemma accounted_record (hadds : AddsExactly (b.score addr) score)
    (hscore : ∀ a, 0 ≤ (b.score a).toInt) (hpenalty : ∀ task ∈ b.tasks, ∀ a, 0 ≤ task.penalty a)
    (hpeers : ∀ a peer, b.manager.lookup a = some peer → (peer.isDiscouraged = false →
      peer.misbehaviorScore < 100 ∧ peer.misbehaviorScore.toInt ≤
        (b.score a).toInt + (if addr = a then score.toInt else 0) + pendingPenalty b.tasks a) ∧
      (peer.isDiscouraged = true → .discourage a ∈ b.tasks ∨ b.Banned a.ip))
    (hbanned : ∀ a, 100 ≤ b.score a → b.Banned a.ip) : (b.record addr score).Accounted := by
  have hscore' : ∀ a, 0 ≤ (b.score a).toInt + if addr = a then score.toInt else 0 := by
    intro a
    have hold := hscore a
    have hnonneg := hadds.1
    split_ifs <;> omega
  rw [Books.record]
  split_ifs with hfull
  · refine accounted_ban (fun a => (toInt_score_insert hadds a) ▸ hscore' a) hpenalty ?_ ?_
    · intro a peer hpeer
      obtain ⟨hopen, hdiscouraged⟩ := hpeers a peer hpeer
      refine ⟨fun hfalse => ⟨(hopen hfalse).1, ?_⟩, fun htrue => ?_⟩
      · rw [toInt_score_insert hadds]
        exact (hopen hfalse).2
      · exact (hdiscouraged htrue).imp_right .inl
    · intro a ha
      rw [score_insert] at ha
      by_cases haddr : addr = a
      · exact .inr haddr.symm
      · rw [if_neg haddr] at ha
        exact .inl (hbanned a ha)
  · refine ⟨fun a => (toInt_score_insert hadds a) ▸ hscore' a, hpenalty, ?_, ?_⟩
    · intro a peer hpeer
      obtain ⟨hopen, hdiscouraged⟩ := hpeers a peer hpeer
      refine ⟨fun hfalse => (hopen hfalse).1, fun hfalse => ?_, hdiscouraged⟩
      rw [toInt_score_insert hadds]
      exact (hopen hfalse).2
    · intro a ha
      rw [score_insert] at ha
      by_cases haddr : addr = a
      · subst haddr
        rw [if_pos rfl] at ha
        exact absurd ha hfull
      · rw [if_neg haddr] at ha
        exact hbanned a ha

/-- A task that is taken from the list and done. -/
lemma Accounted.perform (h : b.Accounted) {i : Nat} {task : Task}
    (htask : b.tasks[i]? = some task)
    (hadds : ∀ addr score, task = .record addr score → AddsExactly (b.score addr) score) :
    ({ b with tasks := b.tasks.eraseIdx i }.perform task).Accounted := by
  have hperm := perm_eraseIdx htask
  have hpenalty : ∀ t ∈ b.tasks.eraseIdx i, ∀ a, 0 ≤ t.penalty a :=
    fun t hmem => h.penalty_nonneg t (List.mem_of_mem_eraseIdx hmem)
  have hkept : ∀ {t}, t ∈ b.tasks → t ≠ task → t ∈ b.tasks.eraseIdx i := by
    intro t hmem hne
    exact (List.mem_cons.mp (hperm.mem_iff.mp hmem)).resolve_left hne
  cases task with
  | record addr score =>
    refine accounted_record (hadds addr score rfl) h.score_nonneg hpenalty ?_ h.banned
    intro a peer hpeer
    have hold := h.peers a peer hpeer
    refine ⟨fun hfalse => ⟨hold.few hfalse, ?_⟩, fun htrue => ?_⟩
    · have hle := hold.recorded hfalse
      rw [pendingPenalty_eraseIdx htask, Task.penalty, ← add_assoc] at hle
      exact hle
    · exact (hold.banned htrue).imp_left fun hmem => hkept hmem (by simp)
  | discourage addr =>
    refine accounted_ban h.score_nonneg hpenalty ?_ fun a ha => .inl (h.banned a ha)
    intro a peer hpeer
    have hold := h.peers a peer hpeer
    refine ⟨fun hfalse => ⟨hold.few hfalse, ?_⟩, fun htrue => ?_⟩
    · have hle := hold.recorded hfalse
      rw [pendingPenalty_eraseIdx htask] at hle
      exact hle.trans_eq (congrArg _ (zero_add _))
    · rcases hold.banned htrue with hmem | hbanned
      · by_cases ha : a = addr
        · exact .inr (.inr ha)
        · exact .inl (hkept hmem (by simpa using ha))
      · exact .inr (.inl hbanned)
  | finishBan addr =>
    refine ⟨h.score_nonneg, hpenalty, fun a peer hpeer => ?_, h.banned⟩
    have hold := h.peers a peer hpeer
    refine ⟨hold.few, fun hfalse => ?_, fun htrue => ?_⟩
    · have hle := hold.recorded hfalse
      rw [pendingPenalty_eraseIdx htask] at hle
      exact hle.trans_eq (congrArg _ (zero_add _))
    · exact (hold.banned htrue).imp_left fun hmem => hkept hmem (by simp)

/-- A penalty that is counted, and is still to be recorded. -/
lemma Accounted.penalize (h : b.Accounted) {peer : Peer} {howMuch : Int32}
    (hpeer : b.manager.lookup addr = some peer)
    (hadds : AddsExactly peer.misbehaviorScore howMuch) :
    (b.penalize addr peer howMuch).Accounted := by
  have hown := h.peers addr peer hpeer
  unfold Books.penalize
  split_ifs with hfull
  · refine ⟨h.score_nonneg, fun task hmem a => ?_, fun a other hother => ?_, h.banned⟩
    · rcases List.mem_append.mp hmem with hmem | hmem
      · exact h.penalty_nonneg task hmem a
      · obtain rfl := List.mem_singleton.mp hmem
        exact le_rfl
    · by_cases ha : a = addr
      · subst ha
        obtain rfl := Option.some.inj ((AList.lookup_insert b.manager).symm.trans hother)
        exact ⟨nofun, nofun, fun _ => .inl (by simp)⟩
      · have hold := h.peers a other ((AList.lookup_insert_ne ha).symm.trans hother)
        refine ⟨hold.few, fun hfalse => ?_, fun htrue => ?_⟩
        · exact (hold.recorded hfalse).trans_eq (congrArg _
            ((pendingPenalty_concat b.tasks (.discourage addr) a).trans (add_zero _)).symm)
        · exact (hold.banned htrue).imp_left fun hmem => List.mem_append_left _ hmem
  · refine ⟨h.score_nonneg, fun task hmem a => ?_, fun a other hother => ?_, h.banned⟩
    · rcases List.mem_append.mp hmem with hmem | hmem
      · exact h.penalty_nonneg task hmem a
      · obtain rfl := List.mem_singleton.mp hmem
        rw [Task.penalty]
        split_ifs
        · exact hadds.1
        · exact le_rfl
    · have hconcat := pendingPenalty_concat b.tasks (.record addr howMuch) a
      by_cases ha : a = addr
      · subst ha
        obtain rfl := Option.some.inj ((AList.lookup_insert b.manager).symm.trans hother)
        refine ⟨fun hfalse => ?_, fun hfalse => ?_, fun htrue => ?_⟩
        · exact Int32.not_le.mp fun hle => hfull ⟨hle, hfalse⟩
        · have hle := hown.recorded hfalse
          have hsum := toInt_add_of_addsExactly hadds
          rw [Task.penalty, if_pos rfl] at hconcat
          change (peer.misbehaviorScore + howMuch).toInt ≤
            (b.score a).toInt + pendingPenalty (b.tasks ++ _) a
          omega
        · exact (hown.banned htrue).imp_left fun hmem => List.mem_append_left _ hmem
      · have hold := h.peers a other ((AList.lookup_insert_ne ha).symm.trans hother)
        refine ⟨hold.few, fun hfalse => ?_, fun htrue => ?_⟩
        · have hle := hold.recorded hfalse
          rw [Task.penalty, if_neg (Ne.symm ha), add_zero] at hconcat
          exact hle.trans_eq (congrArg _ hconcat.symm)
        · exact (hold.banned htrue).imp_left fun hmem => List.mem_append_left _ hmem

/-- Every step keeps the account. -/
lemma Accounted.step (h : b.Accounted) (hstep : Books.Step AddsExactly b b') :
    b'.Accounted := by
  cases hstep with
  | same => exact h
  | tick nanos =>
    exact ⟨h.score_nonneg, h.penalty_nonneg,
      fun a peer hpeer => ⟨(h.peers a peer hpeer).few, (h.peers a peer hpeer).recorded,
        (h.peers a peer hpeer).banned⟩, h.banned⟩
  | join addr peer hzero hopen =>
    refine ⟨h.score_nonneg, h.penalty_nonneg, fun a other hother => ?_, h.banned⟩
    by_cases ha : a = addr
    · subst ha
      obtain rfl := Option.some.inj ((AList.lookup_insert b.manager).symm.trans hother)
      refine ⟨fun _ => by rw [hzero]; decide, fun _ => ?_, fun htrue => by simp [hopen] at htrue⟩
      rw [hzero]
      exact add_nonneg (h.score_nonneg a)
        (pendingPenalty_nonneg fun task hmem => h.penalty_nonneg task hmem a)
    · have hold := h.peers a other ((AList.lookup_insert_ne ha).symm.trans hother)
      exact ⟨hold.few, hold.recorded, hold.banned⟩
  | leave addr =>
    refine ⟨h.score_nonneg, h.penalty_nonneg, fun a other hother => ?_, h.banned⟩
    by_cases ha : a = addr
    · subst ha
      rw [AList.lookup_erase] at hother
      cases hother
    · have hold := h.peers a other ((AList.lookup_erase_ne ha).symm.trans hother)
      exact ⟨hold.few, hold.recorded, hold.banned⟩
  | penalize hpeer hadds => exact h.penalize hpeer hadds
  | record hadds =>
    refine accounted_record hadds h.score_nonneg h.penalty_nonneg ?_ h.banned
    intro a peer hpeer
    have hold := h.peers a peer hpeer
    refine ⟨fun hfalse => ⟨hold.few hfalse, ?_⟩, hold.banned⟩
    have hle := hold.recorded hfalse
    have hnonneg := hadds.1
    split_ifs <;> omega
  | perform htask hadds => exact h.perform htask hadds

/-! ### Bans -/

/-- No ban is longer than a day from now. -/
def WithinDay (b : Books) : Prop :=
  ∀ ip expiry, b.banList.lookup ip = some expiry → expiry ≤ b.now + PeerTable.banTime

/-- The bans of the first books are in the second ones, for as long at least. -/
def KeepsBans (b b' : Books) : Prop :=
  ∀ ip expiry, b.banList.lookup ip = some expiry →
    ∃ expiry', b'.banList.lookup ip = some expiry' ∧ expiry ≤ expiry'

lemma KeepsBans.refl (b : Books) : b.KeepsBans b :=
  fun _ expiry hlookup => ⟨expiry, hlookup, le_rfl⟩

lemma KeepsBans.trans {b'' : Books} (h : b.KeepsBans b') (h' : b'.KeepsBans b'') :
    b.KeepsBans b'' := by
  intro ip expiry hlookup
  obtain ⟨expiry', hlookup', hle⟩ := h ip expiry hlookup
  obtain ⟨expiry'', hlookup'', hle'⟩ := h' ip expiry' hlookup'
  exact ⟨expiry'', hlookup'', hle.trans hle'⟩

/-- A new ban is the longest there can be. -/
lemma WithinDay.ban (h : b.WithinDay) (addr : SocketAddr) :
    b.KeepsBans (b.ban addr) ∧ (b.ban addr).WithinDay := by
  have hself : (b.ban addr).banList.lookup addr.ip = some (b.now + PeerTable.banTime) :=
    AList.lookup_insert _
  have hother : ∀ {ip}, ip ≠ addr.ip → (b.ban addr).banList.lookup ip = b.banList.lookup ip :=
    fun hip => AList.lookup_insert_ne hip
  constructor
  · intro ip expiry hlookup
    by_cases hip : ip = addr.ip
    · subst hip
      exact ⟨_, hself, h _ _ hlookup⟩
    · exact ⟨expiry, (hother hip).trans hlookup, le_rfl⟩
  · intro ip expiry hlookup
    by_cases hip : ip = addr.ip
    · subst hip
      exact (Option.some.inj (hself.symm.trans hlookup)).ge
    · exact h ip expiry ((hother hip).symm.trans hlookup)

lemma WithinDay.record (h : b.WithinDay) (addr : SocketAddr) (score : Int32) :
    b.KeepsBans (b.record addr score) ∧ (b.record addr score).WithinDay := by
  rw [Books.record]
  split_ifs
  · have hrecorded : Books.WithinDay
        { b with scores := b.scores.insert addr (b.score addr + score) } := h
    exact hrecorded.ban addr
  · exact ⟨KeepsBans.refl b, h⟩

lemma WithinDay.step {ok : Int32 → Int32 → Prop} (h : b.WithinDay)
    (hstep : Books.Step ok b b') : b.KeepsBans b' ∧ b'.WithinDay := by
  cases hstep with
  | tick nanos =>
    refine ⟨KeepsBans.refl b, fun ip expiry hlookup => (h ip expiry hlookup).trans ?_⟩
    exact Nat.add_le_add_right (Nat.le_add_right b.now nanos) _
  | penalize hpeer hok =>
    rw [Books.penalize]
    split_ifs <;> exact ⟨KeepsBans.refl b, h⟩
  | record hok => exact h.record _ _
  | @perform i task htask hok =>
    have herased : Books.WithinDay { b with tasks := b.tasks.eraseIdx i } := h
    cases task with
    | record addr score => exact herased.record addr score
    | discourage addr => exact herased.ban addr
    | finishBan addr => exact ⟨KeepsBans.refl b, h⟩
  | _ => exact ⟨KeepsBans.refl b, h⟩

end Books

/-! ### Runs -/

namespace Network

variable [BucketHash] {known saved : AddrMan} {s s' : Network}

/-- In every run in which no score overflows the penalties are accounted for: those of a session
that has not been discouraged are in the peer table or still to be recorded, a discouraged peer has
an entry in the ban list or is about to get one, and so has every address with 100 points in the
table. -/
theorem accounted_of_reachable
    (hrun : Reachable step (fun s e _ => s.Adds Books.AddsExactly e) (init known saved) s) :
    s.books.Accounted := by
  refine hrun.invariant (fun s => s.books.Accounted) ?_ ?_
  · have hzero : ∀ addr, (init known saved).books.score addr = 0 := fun _ => rfl
    refine ⟨fun addr => ?_, nofun, nofun, fun addr hfull => ?_⟩
    · rw [hzero]
      exact le_rfl
    · rw [hzero] at hfull
      exact absurd hfull (by decide)
  · exact fun s e s' hinv hstep hok => hinv.step (books_step hok hstep)

lemma books_step_true {e : NetEvent} (hstep : s.step e = some s') :
    Books.Step (fun _ _ => True) s.books s'.books :=
  books_step (adds_of_forall (fun _ _ => trivial) s e) hstep

lemma withinDay_of_reachable (hrun : Reachable step (fun _ _ _ => True) (init known saved) s) :
    s.books.WithinDay := by
  refine hrun.invariant (fun s => s.books.WithinDay) nofun ?_
  exact fun s e s' hinv hstep _ => (hinv.step (books_step_true hstep)).2

/-- What the peer table has banned stays banned: whatever happens later, the entry is there and does
not end earlier. -/
theorem keepsBans_of_reachable (hrun : Reachable step (fun _ _ _ => True) (init known saved) s)
    (hlater : Reachable step (fun _ _ _ => True) s s') : s.books.KeepsBans s'.books := by
  have hday := withinDay_of_reachable hrun
  refine (hlater.invariant (fun s' => s.books.KeepsBans s'.books ∧ s'.books.WithinDay)
    ⟨Books.KeepsBans.refl _, hday⟩ ?_).1
  rintro s₁ e s₂ ⟨hkeeps, hwithin⟩ hstep -
  obtain ⟨hkeeps', hwithin'⟩ := hwithin.step (books_step_true hstep)
  exact ⟨hkeeps.trans hkeeps', hwithin'⟩

end Network

namespace Sample

/-- A peer connects, and earns 60 points twice; the first ones are recorded. -/
def penalties : List NetEvent :=
  inboundHandshake 0 50000 ++ [.attempt 0 .addPeer, .attempt 0 .initializeNode,
    .misbehaving (peerAddr 50000) 60, .misbehaving (peerAddr 50000) 60, .runTask 0]

/-- A test for `AddsExactly`. -/
def addsExactly (score points : Int32) : Bool :=
  0 ≤ points.toInt && score.toInt + points.toInt < 2 ^ 31

lemma addsExactly_of_test (score points : Int32) (h : addsExactly score points = true) :
    Books.AddsExactly score points := by
  simpa [addsExactly, Books.AddsExactly] using h

/-- The peer is discouraged, its ban is still to come, and 60 points are recorded. -/
lemma exists_reachable_penalties :
    ∃ s, Reachable Network.step (fun s e _ => s.Adds Books.AddsExactly e) (.init .new .new) s ∧
      s.tasks = [.discourage (peerAddr 50000)] ∧
      s.manager.lookup (peerAddr 50000) = some ⟨0, 120, true, .inbound⟩ ∧
      s.table.scores.lookup (peerAddr 50000) = some 60 := by
  have hrun : (Reachable.run Network.step (fun s e _ => s.adds addsExactly e) (.init .new .new)
      penalties).map (fun s => (s.tasks, s.manager.lookup (peerAddr 50000),
        s.table.scores.lookup (peerAddr 50000))) =
      some ([.discourage (peerAddr 50000)], some ⟨0, 120, true, .inbound⟩, some 60) := by
    decide +kernel
  obtain ⟨s, hs, heq⟩ := Option.map_eq_some_iff.mp hrun
  refine ⟨s, Reachable.of_run (fun s e _ h => Network.adds_of_test addsExactly_of_test h)
    .init hs, ?_⟩
  simpa [Prod.ext_iff] using heq

theorem accounted_penalties :
    ∃ s : Network, s.manager.lookup (peerAddr 50000) = some ⟨0, 120, true, .inbound⟩ ∧
      s.table.scores.lookup (peerAddr 50000) = some 60 ∧ s.books.Accounted := by
  obtain ⟨s, hrun, -, hpeer, hscore⟩ := exists_reachable_penalties
  exact ⟨s, hpeer, hscore, Network.accounted_of_reachable hrun⟩

theorem keepsBans_penalties :
    ∃ s s' : Network, s.tasks = [.discourage (peerAddr 50000)] ∧
      s'.tasks = [.finishBan (peerAddr 50000)] ∧ s.books.KeepsBans s'.books := by
  obtain ⟨s, hrun, htasks, -, -⟩ := exists_reachable_penalties
  have hstep : s.step (.runTask 0) =
      some ({ s with tasks := [] }.perform (.discourage (peerAddr 50000))) := by
    simp [Network.step, htasks]
  exact ⟨s, _, htasks, rfl, Network.keepsBans_of_reachable
    (hrun.mono fun _ _ _ _ => trivial) (.step .init hstep trivial)⟩

end Sample

end Bitcrab
