import Bitcrab.Net.Handshake

/-!
# Connections of the node to itself

The inbound end of such a connection answers the version message of the outbound end only if that
one has left its handshake and removed its nonce. It cannot have left it with `Ok`, because nothing
had been sent to it, and the verack that the inbound end then waits for is never sent.
-/

namespace Bitcrab

section

variable [Sha2]

/-! ### The version message of this node is read back -/

/-- The header of a version message. -/
def versionHeader (magic : Magic) (v : Version) : MessageHeader :=
  ⟨magic, .version, UInt32.ofNat (encode v).length, checksum (encode v)⟩

/-- What the outbound end sends first. -/
abbrev versionFrame (magic : Magic) (k : Connection) : List UInt8 :=
  frame magic (.version k.ourVersion)

omit [Sha2] in
lemma withinLimits_ourVersion (k : Connection) : (Message.version k.ourVersion).WithinLimits := by
  have hlen : "/bitcrab:0.1.0/".toByteArray.data.toList.length ≤ maxWireAllocation := by decide
  exact hlen

omit [Sha2] in
lemma length_encode_ourVersion (k : Connection) :
    (encode k.ourVersion).length ≤ maxMessageSize := by
  have hagent : (encodeVarStr "/bitcrab:0.1.0/").length = 16 := by decide
  simp [encode, Connection.ourVersion, Version.ourVersionWithNonce, BitcoinEncode.encode, hagent,
    maxMessageSize]

variable {magic : Magic}

/-- The first bytes of the frame are its header. -/
lemma firstHeader_versionFrame {k : Connection} {inbox rest : List UInt8}
    {hdr : List.Vector UInt8 24} (hframe : inbox ++ rest = versionFrame magic k)
    (h : firstHeader inbox = some hdr) :
    decodeHeader hdr magic = .ok (versionHeader magic k.ourVersion) ∧
      inbox.drop 24 ++ rest = encode k.ourVersion := by
  obtain ⟨hlen, htake⟩ := firstHeader_eq_some.mp h
  have hheader : (encodeHeader magic .version (encode k.ourVersion)).toList.length = 24 :=
    (encodeHeader magic .version (encode k.ourVersion)).2
  have hsplit : inbox.take 24 ++ (inbox.drop 24 ++ rest) =
      (encodeHeader magic .version (encode k.ourVersion)).toList ++ encode k.ourVersion := by
    rw [← List.append_assoc, List.take_append_drop]
    exact hframe
  obtain ⟨hfirst, hsecond⟩ := List.append_inj hsplit (by rw [hheader]; simp [hlen])
  have hhdr : hdr = encodeHeader magic .version (encode k.ourVersion) :=
    Subtype.ext (htake.symm.trans hfirst)
  refine ⟨?_, hsecond⟩
  rw [hhdr]
  exact decodeHeader_encodeHeader magic (by decide) (length_encode_ourVersion k)

lemma length_versionHeader (magic : Magic) (k : Connection) :
    (versionHeader magic k.ourVersion).length.toNat = (encode k.ourVersion).length := by
  have hlen := length_encode_ourVersion k
  exact UInt32.toNat_ofNat_of_lt' (lt_of_le_of_lt hlen (by decide))

/-- The payload is decoded to the version message. -/
lemma gotPayload_ourVersion (h : Handshake) (magic : Magic) (k : Connection)
    (gotVersion gotVerack : Bool) :
    h.gotPayload (versionHeader magic k.ourVersion) (encode k.ourVersion) gotVersion gotVerack =
      { h with phase := .received (.version k.ourVersion) gotVersion gotVerack } := by
  have hverify : verifyChecksum (versionHeader magic k.ourVersion) (encode k.ourVersion) = .ok () :=
    verifyChecksum_checksum _ _ _ _
  have hdecode : Message.decode .version (encode k.ourVersion) = .ok (.version k.ourVersion) :=
    (withinLimits_ourVersion k).decode_encode (length_encode_ourVersion k)
  have hcommand : (versionHeader magic k.ourVersion).command = .version := rfl
  simp only [Handshake.gotPayload, hverify, hcommand, hdecode]

/-! ### The two ends of a connection -/

namespace Handshake

/-- The call has returned with an error. -/
def Over (o : Handshake) : Prop := ∃ e, o.phase = .returned (.error e)

/-- Where the outbound end of a self-connection can be, with what it is still to write of its
version message and its nonce in the set until it leaves. -/
def OutboundAt (magic : Magic) (nonces : Finset UInt64) (o : Handshake) (rest : List UInt8) :
    Prop :=
  match o.phase with
  | .idle => rest = versionFrame magic o.connection
  | .opening => rest = o.sending ∧ o.connection.nonce ∈ nonces
  | .header false false => rest = [] ∧ o.connection.nonce ∈ nonces
  | .ending (.error _) => o.connection.nonce ∈ nonces
  | .returned (.error _) => True
  | _ => False

/-- Where the inbound end can be, with what it has read of the version message of the other end. -/
def InboundAt (magic : Magic) (o i : Handshake) (rest : List UInt8) : Prop :=
  match i.phase with
  | .idle => i.inbox ++ rest = versionFrame magic o.connection
  | .header false false => i.inbox ++ rest = versionFrame magic o.connection
  | .payload header false false => header = versionHeader magic o.connection.ourVersion ∧
    i.inbox ++ rest = encode o.connection.ourVersion
  | .received m false false => m = .version o.connection.ourVersion ∧ i.inbox ++ rest = []
  | .turning true false => i.inbox ++ rest = [] ∧ o.Over
  | .header true false => i.inbox ++ rest = [] ∧ o.Over
  | .ending (.error _) => True
  | .returned (.error _) => True
  | _ => False

/-- The two ends of a self-connection. Until the outbound end has left, nothing is sent to it. -/
structure SelfPair (magic : Magic) (nonces : Finset UInt64) (o i : Handshake) : Prop where
  stream : ∃ rest, OutboundAt magic nonces o rest ∧ InboundAt magic o i rest
  silent : o.Over ∨ (o.inbox = [] ∧ i.sending = [])

variable {nonces nonces' : Finset UInt64} {o o' i i' : Handshake} {e : HandshakeEvent}

lemma connection_of_step (h : o.step magic nonces e = some (o', nonces')) :
    o'.connection = o.connection := by
  cases e <;> simp only [step, gotPayload, gotVersion, gotVerack, endWith] at h <;>
    repeat' (split at h)
  all_goals cases h <;> rfl

/-- A step of a call takes at most its own nonce out of the set. -/
lemma mem_nonces_of_step (h : o.step magic nonces e = some (o', nonces')) {nonce : UInt64}
    (hne : nonce ≠ o.connection.nonce) (hmem : nonce ∈ nonces) : nonce ∈ nonces' := by
  cases e <;> simp only [step] at h <;> repeat' (split at h)
  all_goals cases h
  all_goals first
    | exact hmem
    | exact Finset.mem_insert_of_mem hmem
    | exact Finset.mem_erase.mpr ⟨hne, hmem⟩

lemma OutboundAt.mono {rest : List UInt8} (h : OutboundAt magic nonces o rest)
    (hmem : o.connection.nonce ∈ nonces → o.connection.nonce ∈ nonces') :
    OutboundAt magic nonces' o rest := by
  unfold OutboundAt at h ⊢
  split at h
  · exact h
  · exact ⟨h.1, hmem h.2⟩
  · exact ⟨h.1, hmem h.2⟩
  · exact hmem h
  · exact h
  · exact h.elim

/-- A step of another call. -/
lemma SelfPair.other (h : SelfPair magic nonces o i) {x x' : Handshake}
    (hstep : x.step magic nonces e = some (x', nonces'))
    (hne : o.connection.nonce ≠ x.connection.nonce) : SelfPair magic nonces' o i := by
  obtain ⟨⟨rest, hout, hin⟩, hsilent⟩ := h
  exact ⟨⟨rest, hout.mono (mem_nonces_of_step hstep hne), hin⟩, hsilent⟩

lemma versionFrame_ne_nil (magic : Magic) (k : Connection) : versionFrame magic k ≠ [] := by
  intro hnil
  have hlength := congrArg List.length hnil
  have hheader : (encodeHeader magic .version (encode k.ourVersion)).toList.length = 24 :=
    (encodeHeader magic .version (encode k.ourVersion)).2
  simp only [versionFrame, frame, List.length_append, List.length_nil] at hlength
  change (encodeHeader magic .version (encode k.ourVersion)).toList.length + _ = 0 at hlength
  omega

/-- A step of the outbound end. Before it is over it finds nothing to read. -/
lemma SelfPair.outbound (h : SelfPair magic nonces o i) (hkind : o.connection.isInbound = false)
    (hstep : o.step magic nonces e = some (o', nonces')) : SelfPair magic nonces' o' i := by
  obtain ⟨⟨rest, hout, hin⟩, hsilent⟩ := h
  unfold OutboundAt at hout
  -- the other end depends on this one by its connection and by its being over
  have hinbound : ∀ {o' : Handshake}, o'.connection = o.connection → (o.Over → o'.Over) →
      InboundAt magic o' i rest := by
    intro o' hconnection hover
    unfold InboundAt at hin ⊢
    rw [hconnection]
    split at hin <;> first | exact hin | exact ⟨hin.1, hover hin.2⟩
  cases e with
  | start =>
    simp only [step, hkind] at hstep
    split at hstep
    · rename_i hphase
      cases hstep
      simp only [hphase] at hout
      refine ⟨⟨rest, ⟨hout, Finset.mem_insert_self _ _⟩, hinbound rfl ?_⟩, .inr ?_⟩
      · rintro ⟨e, he⟩
        simp [hphase] at he
      · rcases hsilent with ⟨e, he⟩ | hquiet
        · simp [hphase] at he
        · exact hquiet
    · cases hstep
  | enterLoop =>
    simp only [step] at hstep
    split at hstep
    · rename_i hphase
      split_ifs at hstep with hsent
      cases hstep
      simp only [hphase] at hout
      refine ⟨⟨rest, ⟨hout.1.trans hsent, hout.2⟩, hinbound rfl ?_⟩, .inr ?_⟩
      · rintro ⟨e, he⟩
        simp [hphase] at he
      · rcases hsilent with ⟨e, he⟩ | hquiet
        · simp [hphase] at he
        · exact hquiet
    · cases hstep
  | readHeader =>
    simp only [step] at hstep
    split at hstep
    · rename_i hphase
      rcases hsilent with ⟨e, he⟩ | ⟨hempty, -⟩
      · simp [hphase] at he
      · simp [hempty, firstHeader] at hstep
    · cases hstep
  | readPayload =>
    simp only [step] at hstep
    split at hstep
    · rename_i hphase
      simp [hphase] at hout
    · cases hstep
  | handle =>
    simp only [step] at hstep
    split at hstep
    all_goals first | (rename_i hphase; simp [hphase] at hout) | cases hstep
  | turn =>
    simp only [step] at hstep
    split at hstep
    · rename_i hphase
      simp [hphase] at hout
    · cases hstep
  | fail e =>
    simp only [step, endWith] at hstep
    split at hstep
    · cases hstep
      exact ⟨⟨rest, trivial, hinbound rfl fun _ => ⟨e, rfl⟩⟩, .inl ⟨e, rfl⟩⟩
    · rename_i gotVersion gotVerack hphase
      cases hstep
      have hnonce : o.connection.nonce ∈ nonces := by
        cases gotVersion <;> cases gotVerack <;> simp [hphase] at hout
        exact hout.2
      refine ⟨⟨rest, hnonce, hinbound rfl ?_⟩, ?_⟩
      · rintro ⟨e', he⟩
        simp [hphase] at he
      · rcases hsilent with ⟨e', he⟩ | hquiet
        · simp [hphase] at he
        · exact .inr hquiet
    · rename_i hphase
      simp [hphase] at hout
    · rename_i hphase
      simp [hphase] at hout
    · cases hstep
  | removeNonce =>
    simp only [step] at hstep
    split at hstep
    · rename_i result hphase
      cases hstep
      cases result with
      | ok value => simp [hphase] at hout
      | error e => exact ⟨⟨rest, trivial, hinbound rfl fun _ => ⟨e, rfl⟩⟩, .inl ⟨e, rfl⟩⟩
    · cases hstep

/-- The check of the nonce is passed only when the outbound end is over. -/
lemma OutboundAt.over {rest : List UInt8} (h : OutboundAt magic nonces o rest) (hrest : rest = [])
    (hnonce : o.connection.nonce ∉ nonces) : o.Over := by
  unfold OutboundAt at h
  split at h
  · exact absurd (h.symm.trans hrest) (versionFrame_ne_nil magic o.connection)
  · exact absurd h.2 hnonce
  · exact absurd h.2 hnonce
  · exact absurd h hnonce
  · rename_i e hphase
    exact ⟨e, hphase⟩
  · exact h.elim

/-- A step of the inbound end. -/
lemma SelfPair.inbound (h : SelfPair magic nonces o i) (hkind : i.connection.isInbound = true)
    (hne : o.connection.nonce ≠ i.connection.nonce)
    (hstep : i.step magic nonces e = some (i', nonces')) : SelfPair magic nonces' o i' := by
  obtain ⟨⟨rest, hout, hin⟩, hsilent⟩ := h
  have hout' := hout.mono (mem_nonces_of_step hstep hne)
  unfold InboundAt at hin
  cases e with
  | start =>
    simp only [step, hkind] at hstep
    split at hstep
    · rename_i hphase
      cases hstep
      simp only [hphase] at hin
      exact ⟨⟨rest, hout', hin⟩, hsilent⟩
    · cases hstep
  | enterLoop =>
    simp only [step] at hstep
    split at hstep
    · rename_i hphase
      simp [hphase] at hin
    · cases hstep
  | readHeader =>
    simp only [step] at hstep
    split at hstep
    · rename_i gotVersion gotVerack hphase
      split at hstep
      · cases hstep
      · rename_i hdr hfirst
        cases gotVerack with
        | true => simp [hphase] at hin
        | false =>
          cases gotVersion with
          | true =>
            -- the whole version message has been read
            simp only [hphase, List.append_eq_nil_iff] at hin
            simp [hin.1.1, firstHeader] at hfirst
          | false =>
            simp only [hphase] at hin
            obtain ⟨hheader, hpayload⟩ := firstHeader_versionFrame hin hfirst
            simp only [hheader] at hstep
            cases hstep
            exact ⟨⟨rest, hout', rfl, hpayload⟩, hsilent⟩
    · cases hstep
  | readPayload =>
    simp only [step] at hstep
    split at hstep
    · rename_i header gotVersion gotVerack hphase
      split_ifs at hstep with hlen
      cases gotVersion <;> cases gotVerack <;> simp only [hphase] at hin
      obtain ⟨rfl, hpayload⟩ := hin
      rw [length_versionHeader] at hlen hstep
      have hlength := congrArg List.length hpayload
      rw [List.length_append] at hlength
      obtain rfl : rest = [] := List.eq_nil_of_length_eq_zero (by omega)
      rw [List.append_nil] at hpayload
      simp only [hpayload, List.take_length, List.drop_length, gotPayload_ourVersion] at hstep
      cases hstep
      exact ⟨⟨[], hout', rfl, rfl⟩, hsilent⟩
    · cases hstep
  | handle =>
    simp only [step] at hstep
    split at hstep
    · rename_i v gotVersion gotVerack hphase
      cases hstep
      cases gotVersion <;> cases gotVerack <;> simp only [hphase] at hin
      obtain ⟨hversion, hrest⟩ := hin
      cases hversion
      simp only [List.append_eq_nil_iff] at hrest
      unfold gotVersion
      rw [if_neg (by decide)]
      split_ifs with hmem hold
      · exact ⟨⟨rest, hout', trivial⟩, hsilent⟩
      · exact ⟨⟨rest, hout', trivial⟩, hsilent⟩
      · have hover := hout.over hrest.2 hmem
        exact ⟨⟨rest, hout', by simp [hrest], hover⟩, .inl hover⟩
    · rename_i gotVersion gotVerack hphase
      cases gotVersion <;> cases gotVerack <;> simp [hphase] at hin
    · rename_i m gotVersion gotVerack hnot _ hphase
      cases gotVersion <;> cases gotVerack <;> simp only [hphase] at hin
      exact absurd hin.1 (hnot _)
    · cases hstep
  | turn =>
    simp only [step] at hstep
    split at hstep
    · rename_i gotVersion gotVerack hphase
      cases gotVersion <;> cases gotVerack <;> simp only [hphase] at hin
      split_ifs at hstep with hsent hboth
      · cases hboth
      · cases hstep
        exact ⟨⟨rest, hout', hin⟩, .inl hin.2⟩
    · cases hstep
  | fail e =>
    simp only [step, endWith] at hstep
    split at hstep
    · rename_i hphase
      simp [hphase] at hin
    · cases hstep
      exact ⟨⟨rest, hout', trivial⟩, hsilent⟩
    · cases hstep
      exact ⟨⟨rest, hout', trivial⟩, hsilent⟩
    · split_ifs at hstep
      cases hstep
      exact ⟨⟨rest, hout', trivial⟩, hsilent⟩
    · cases hstep
  | removeNonce =>
    simp only [step] at hstep
    split at hstep
    · rename_i result hphase
      cases hstep
      cases result with
      | ok value => simp [hphase] at hin
      | error e => exact ⟨⟨rest, hout', trivial⟩, hsilent⟩
    · cases hstep

/-- The outbound end writes. -/
lemma SelfPair.writeOutbound (h : SelfPair magic nonces o i) (hwriting : o.isWriting = true)
    (n : Nat) :
    SelfPair magic nonces { o with sending := o.sending.drop n }
      { i with inbox := i.inbox ++ o.sending.take n } := by
  obtain ⟨⟨rest, hout, hin⟩, hsilent⟩ := h
  have hphase : o.phase = .opening := by
    unfold isWriting at hwriting
    unfold OutboundAt at hout
    split at hwriting
    · assumption
    · rename_i hphase
      simp [hphase] at hout
    · cases hwriting
  have hnot : ¬o.Over := by
    rintro ⟨e, he⟩
    simp [hphase] at he
  simp only [OutboundAt, hphase] at hout
  obtain ⟨rfl, hnonce⟩ := hout
  -- what has been written is still to be read
  have hsplit : ∀ bytes, bytes ++ o.sending = (bytes ++ o.sending.take n) ++ o.sending.drop n := by
    intro bytes
    rw [List.append_assoc, List.take_append_drop]
  refine ⟨⟨o.sending.drop n, ?_, ?_⟩, .inr (hsilent.resolve_left hnot)⟩
  · simp only [OutboundAt, hphase]
    exact ⟨trivial, hnonce⟩
  · unfold InboundAt at hin ⊢
    dsimp only
    rw [hsplit] at hin
    split at hin <;> exact hin

/-- The inbound end writes. -/
lemma SelfPair.writeInbound (h : SelfPair magic nonces o i) (hwriting : i.isWriting = true)
    (n : Nat) :
    SelfPair magic nonces { o with inbox := o.inbox ++ i.sending.take n }
      { i with sending := i.sending.drop n } := by
  obtain ⟨⟨rest, hout, hin⟩, -⟩ := h
  have hover : o.Over := by
    unfold isWriting at hwriting
    unfold InboundAt at hin
    split at hwriting
    · rename_i hphase
      simp [hphase] at hin
    · rename_i gotVersion gotVerack hphase
      cases gotVersion <;> cases gotVerack <;> simp only [hphase] at hin
      exact hin.2
    · cases hwriting
  exact ⟨⟨rest, hout, hin⟩, .inl hover⟩

end Handshake

/-! ### All calls -/

namespace Handshakes

/-- The ends of the connections of the node to itself belong together. -/
def Linked (connections : List Connection) : Prop :=
  ∀ (c : Nat) (k : Connection) (d : Nat), connections[c]? = some k → k.otherEnd = some d →
    ∃ k', connections[d]? = some k' ∧ k'.otherEnd = some c ∧ k'.isInbound = !k.isInbound

/-- The nonces of the calls are pairwise distinct. -/
def DistinctNonces (s : Handshakes) : Prop :=
  (s.calls.map fun h => h.connection.nonce).Nodup

/-- Every connection of the node to itself is in one of the states of `SelfPair`. -/
structure SelfConnections (magic : Magic) (s : Handshakes) : Prop where
  linked : Linked (s.calls.map Handshake.connection)
  pairs : ∀ (c : Nat) (o : Handshake) (d : Nat) (i : Handshake), s.calls[c]? = some o →
    s.calls[d]? = some i → o.connection.otherEnd = some d → o.connection.isInbound = false →
      Handshake.SelfPair magic s.nonces o i

variable {s s' : Handshakes} {calls : List Handshake} {c d : Nat} {h h' o i : Handshake}

omit [Sha2] in
/-- What a change of a call keeps of it, it keeps of all calls. -/
lemma map_set_eq {β : Type} {f : Handshake → β} (hc : calls[c]? = some h) (hf : f h' = f h) :
    (calls.set c h').map f = calls.map f := by
  apply List.ext_getElem?
  intro d
  by_cases hd : c = d
  · subst hd
    rw [List.getElem?_map, List.getElem?_map, hc,
      List.getElem?_set_self (List.getElem?_eq_some_iff.mp hc).1]
    exact congrArg some hf
  · rw [List.getElem?_map, List.getElem?_map, List.getElem?_set_ne hd]

omit [Sha2] in
lemma map_connection_set (hc : calls[c]? = some h) (h' : Handshake)
    (hk : h'.connection = h.connection) :
    (calls.set c h').map Handshake.connection = calls.map Handshake.connection :=
  map_set_eq hc hk

omit [Sha2] in
lemma getElem?_deliver (calls : List Handshake) (c d : Nat) (bytes : List UInt8) :
    (calls.modify c fun h => { h with inbox := h.inbox ++ bytes })[d]? =
      (calls[d]?).map fun h => if d = c then { h with inbox := h.inbox ++ bytes } else h := by
  rw [List.getElem?_modify]
  by_cases hd : c = d
  · subst hd
    simp
  · simp [hd, Ne.symm hd]

omit [Sha2] in
/-- Bytes that arrive change nothing but the inbox. -/
lemma map_deliver_eq {β : Type} {f : Handshake → β} (hf : ∀ h inbox, f { h with inbox } = f h)
    (calls : List Handshake) (c : Nat) (bytes : List UInt8) :
    (calls.modify c fun h => { h with inbox := h.inbox ++ bytes }).map f = calls.map f := by
  apply List.ext_getElem?
  intro d
  rw [List.getElem?_map, List.getElem?_map, getElem?_deliver]
  cases calls[d]? with
  | none => rfl
  | some h =>
    by_cases hd : d = c
    · simp [hd, hf]
    · simp [hd]

omit [Sha2] in
lemma map_connection_deliver (calls : List Handshake) (c : Nat) (bytes : List UInt8) :
    (calls.modify c fun h => { h with inbox := h.inbox ++ bytes }).map Handshake.connection =
      calls.map Handshake.connection :=
  map_deliver_eq (fun _ _ => rfl) calls c bytes

omit [Sha2] in
/-- Calls with different numbers have different nonces. -/
lemma DistinctNonces.ne (hdistinct : s.DistinctNonces) (ho : s.calls[c]? = some o)
    (hi : s.calls[d]? = some i) (hne : c ≠ d) : o.connection.nonce ≠ i.connection.nonce := by
  intro heq
  have hlt : c < (s.calls.map fun h => h.connection.nonce).length := by
    rw [List.length_map]
    exact (List.getElem?_eq_some_iff.mp ho).1
  refine hne ((List.getElem?_inj hlt hdistinct).mp ?_)
  rw [List.getElem?_map, List.getElem?_map, ho, hi]
  exact congrArg some heq

omit [Sha2] in
/-- The other end of a call, which is of the other direction. -/
lemma Linked.otherEnd (hlinked : Linked (calls.map Handshake.connection)) (ho : calls[c]? = some o)
    (hi : calls[d]? = some i) (hend : o.connection.otherEnd = some d) :
    i.connection.otherEnd = some c ∧ i.connection.isInbound = !o.connection.isInbound := by
  obtain ⟨k, hk, hback, hkind⟩ := hlinked c o.connection d (by rw [List.getElem?_map, ho]; rfl) hend
  rw [List.getElem?_map, hi] at hk
  obtain rfl := Option.some.inj hk
  exact ⟨hback, hkind⟩

/-- A step of one call. -/
lemma SelfConnections.call (hs : s.SelfConnections magic) (hdistinct : s.DistinctNonces)
    (hc : s.calls[c]? = some h) {e : HandshakeEvent} {nonces' : Finset UInt64}
    (hstep : h.step magic s.nonces e = some (h', nonces')) :
    SelfConnections magic ⟨nonces', s.calls.set c h'⟩ := by
  have hconnection := Handshake.connection_of_step hstep
  have hold : ∀ {d x}, c ≠ d → (s.calls.set c h')[d]? = some x → s.calls[d]? = some x := by
    intro d x hne hx
    rwa [List.getElem?_set_ne hne] at hx
  have hself : ∀ {x}, (s.calls.set c h')[c]? = some x → x = h' := by
    intro x hx
    rw [List.getElem?_set_self (List.getElem?_eq_some_iff.mp hc).1] at hx
    exact (Option.some.inj hx).symm
  refine ⟨?_, ?_⟩
  · rw [map_connection_set hc h' hconnection]
    exact hs.linked
  · intro co o d i ho hi hend hkind
    by_cases hco : c = co
    · subst hco
      obtain rfl := hself ho
      rw [hconnection] at hend hkind
      have hd : c ≠ d := by
        rintro rfl
        have hother := (hs.linked.otherEnd hc hc hend).2
        simp [hkind] at hother
      exact (hs.pairs c h d i hc (hold hd hi) hend hkind).outbound hkind hstep
    · have hoOld := hold hco ho
      by_cases hd : c = d
      · subst hd
        obtain rfl := hself hi
        have hother := (hs.linked.otherEnd hoOld hc hend).2
        rw [hkind] at hother
        exact (hs.pairs co o c h hoOld hc hend hkind).inbound hother
          (hdistinct.ne hoOld hc (Ne.symm hco)) hstep
      · exact (hs.pairs co o d i hoOld (hold hd hi) hend hkind).other hstep
          (hdistinct.ne hoOld hc (Ne.symm hco))

omit [Sha2] in
lemma getElem?_set_cases (hc : calls[c]? = some h) {x : Nat} {y : Handshake}
    (hy : (calls.set c h')[x]? = some y) : (x = c ∧ y = h') ∨ (x ≠ c ∧ calls[x]? = some y) := by
  by_cases hx : c = x
  · subst hx
    rw [List.getElem?_set_self (List.getElem?_eq_some_iff.mp hc).1] at hy
    exact .inl ⟨rfl, (Option.some.inj hy).symm⟩
  · rw [List.getElem?_set_ne hx] at hy
    exact .inr ⟨Ne.symm hx, hy⟩

/-- A call writes to another node. -/
lemma SelfConnections.writeRemote (hs : s.SelfConnections magic) (hc : s.calls[c]? = some h)
    (hremote : h.connection.otherEnd = none) (n : Nat) :
    SelfConnections magic
      { s with calls := s.calls.set c { h with sending := h.sending.drop n } } := by
  refine ⟨?_, ?_⟩
  · dsimp only
    rw [map_connection_set hc { h with sending := h.sending.drop n } rfl]
    exact hs.linked
  · intro co o d i ho hi hend hkind
    rcases getElem?_set_cases hc ho with ⟨-, rfl⟩ | ⟨-, hoOld⟩
    · simp [hremote] at hend
    · rcases getElem?_set_cases hc hi with ⟨rfl, rfl⟩ | ⟨-, hiOld⟩
      · have hback := (hs.linked.otherEnd hoOld hc hend).1
        simp [hremote] at hback
      · exact hs.pairs co o d i hoOld hiOld hend hkind

/-- A call writes to the other end of its connection. -/
lemma SelfConnections.writeSelf (hs : s.SelfConnections magic) (hc : s.calls[c]? = some h)
    (hwriting : h.isWriting = true) (hend : h.connection.otherEnd = some d) (n : Nat) :
    SelfConnections magic { s with
      calls := (s.calls.set c { h with sending := h.sending.drop n }).modify d
        fun h' => { h' with inbox := h'.inbox ++ h.sending.take n } } := by
  refine ⟨?_, ?_⟩
  · rw [map_connection_deliver,
      map_connection_set hc { h with sending := h.sending.drop n } rfl]
    exact hs.linked
  · intro co o' d' i' ho' hi' hend' hkind
    rw [getElem?_deliver] at ho' hi'
    obtain ⟨o, ho, rfl⟩ := Option.map_eq_some_iff.mp ho'
    obtain ⟨i, hi, rfl⟩ := Option.map_eq_some_iff.mp hi'
    have hconnection : (if co = d then { o with inbox := o.inbox ++ h.sending.take n } else o
        : Handshake).connection = o.connection := by
      split_ifs <;> rfl
    rw [hconnection] at hend' hkind
    have hne : d ≠ c := by
      rintro rfl
      have hother := (hs.linked.otherEnd hc hc hend).2
      simp at hother
    rcases getElem?_set_cases hc ho with ⟨rfl, rfl⟩ | ⟨hco, hoOld⟩
    · -- the outbound end writes
      obtain rfl : d' = d := Option.some.inj (hend'.symm.trans hend)
      rcases getElem?_set_cases hc hi with ⟨rfl, -⟩ | ⟨-, hiOld⟩
      · exact absurd rfl hne
      · rw [if_neg (Ne.symm hne), if_pos rfl]
        exact (hs.pairs co h d' i hc hiOld hend hkind).writeOutbound hwriting n
    · rcases getElem?_set_cases hc hi with ⟨rfl, rfl⟩ | ⟨hd', hiOld⟩
      · -- the inbound end writes
        have hback := (hs.linked.otherEnd hoOld hc hend').1
        obtain rfl : co = d := Option.some.inj (hback.symm.trans hend)
        rw [if_pos rfl, if_neg (Ne.symm hne)]
        exact (hs.pairs co o d' h hoOld hc hend' hkind).writeInbound hwriting n
      · have hcod : co ≠ d := by
          rintro rfl
          have hback := (hs.linked.otherEnd hc hoOld hend).1
          exact hd' (Option.some.inj (hend'.symm.trans hback))
        have hdd : d' ≠ d := by
          rintro rfl
          have hback := (hs.linked.otherEnd hc hiOld hend).1
          exact hco (Option.some.inj ((hs.linked.otherEnd hoOld hiOld hend').1.symm.trans hback))
        rw [if_neg hcod, if_neg hdd]
        exact hs.pairs co o d' i hoOld hiOld hend' hkind

/-- Bytes arrive from another node. -/
lemma SelfConnections.receive (hs : s.SelfConnections magic) (hc : s.calls[c]? = some h)
    (hremote : h.connection.otherEnd = none) (bytes : List UInt8) :
    (s.deliver c bytes).SelfConnections magic := by
  refine ⟨?_, ?_⟩
  · rw [deliver, map_connection_deliver]
    exact hs.linked
  · intro co o' d' i' ho' hi' hend' hkind
    rw [deliver, getElem?_deliver] at ho' hi'
    obtain ⟨o, ho, rfl⟩ := Option.map_eq_some_iff.mp ho'
    obtain ⟨i, hi, rfl⟩ := Option.map_eq_some_iff.mp hi'
    have hco : co ≠ c := by
      rintro rfl
      rw [hc, Option.some_inj] at ho
      subst ho
      simp [hremote] at hend'
    rw [if_neg hco] at hend' hkind ⊢
    have hdc : d' ≠ c := by
      rintro rfl
      have hback := (hs.linked.otherEnd ho hi hend').1
      rw [hc, Option.some_inj] at hi
      subst hi
      simp [hremote] at hback
    rw [if_neg hdc]
    exact hs.pairs co o d' i ho hi hend' hkind

omit [Sha2] in
/-- A new call that is linked to nothing, or to another new one. -/
lemma Linked.append {connections added : List Connection} (hlinked : Linked connections)
    (hadded : ∀ (c : Nat) (k : Connection) (d : Nat), added[c]? = some k → k.otherEnd = some d →
      ∃ k', (connections ++ added)[d]? = some k' ∧ k'.otherEnd = some (connections.length + c) ∧
        k'.isInbound = !k.isInbound) : Linked (connections ++ added) := by
  intro c k d hk hend
  rw [List.getElem?_append] at hk
  split_ifs at hk with hc
  · obtain ⟨k', hk', hrest⟩ := hlinked c k d hk hend
    refine ⟨k', ?_, hrest⟩
    rw [List.getElem?_append_left (List.getElem?_eq_some_iff.mp hk').1]
    exact hk'
  · obtain ⟨k', hk', hback, hkind⟩ := hadded (c - connections.length) k d hk hend
    exact ⟨k', hk', by rw [hback]; congr 1; omega, hkind⟩

omit [Sha2] in
/-- The other end of an old call is an old call. -/
lemma Linked.getElem?_old (hlinked : Linked (calls.map Handshake.connection))
    {added : List Handshake}
    (ho : calls[c]? = some o) (hend : o.connection.otherEnd = some d)
    (hi : (calls ++ added)[d]? = some i) : calls[d]? = some i := by
  obtain ⟨k, hk, -⟩ := hlinked c o.connection d (by rw [List.getElem?_map, ho]; rfl) hend
  rw [List.getElem?_map] at hk
  obtain ⟨i', hi', -⟩ := Option.map_eq_some_iff.mp hk
  rw [List.getElem?_append_left (List.getElem?_eq_some_iff.mp hi').1] at hi
  exact hi

/-- A connection with another node. -/
lemma SelfConnections.connect (hs : s.SelfConnections magic) {k : Connection}
    (hremote : k.otherEnd = none) :
    SelfConnections magic { s with calls := s.calls ++ [.new k] } := by
  refine ⟨?_, ?_⟩
  · dsimp only
    rw [List.map_append]
    refine hs.linked.append ?_
    intro c k' d hk' hend
    obtain rfl : k' = k := List.mem_singleton.mp (List.mem_of_getElem? hk')
    simp [hremote] at hend
  · intro c o d i ho hi hend hkind
    dsimp only at ho hi
    rw [List.getElem?_append] at ho
    split_ifs at ho
    · exact hs.pairs c o d i ho (hs.linked.getElem?_old ho hend hi) hend hkind
    · obtain rfl : o = .new k := List.mem_singleton.mp (List.mem_of_getElem? ho)
      simp [Handshake.new, hremote] at hend

/-- A connection of the node to itself. -/
lemma SelfConnections.connectSelf (hs : s.SelfConnections magic) {out inb : Connection}
    (hout : out.connType ≠ .inbound) (hinb : inb.connType = .inbound)
    (hend : out.otherEnd = some (s.calls.length + 1)) (hend' : inb.otherEnd = some s.calls.length) :
    SelfConnections magic { s with calls := s.calls ++ [.new out, .new inb] } := by
  have hcases : ∀ {c h}, (s.calls ++ [Handshake.new out, Handshake.new inb])[c]? = some h →
      s.calls[c]? = some h ∨ (c = s.calls.length ∧ h = .new out) ∨
        (c = s.calls.length + 1 ∧ h = .new inb) := by
    intro c h hc
    rw [List.getElem?_append] at hc
    split_ifs at hc with hlt
    · exact .inl hc
    · right
      obtain ⟨n, rfl⟩ : ∃ n, c = s.calls.length + n := ⟨c - s.calls.length, by omega⟩
      rw [Nat.add_sub_cancel_left] at hc
      match n with
      | 0 => exact .inl ⟨rfl, (Option.some.inj hc).symm⟩
      | 1 => exact .inr ⟨rfl, (Option.some.inj hc).symm⟩
      | n + 2 => simp at hc
  have houtKind : out.isInbound = false := by simp [Connection.isInbound, hout]
  have hinbKind : inb.isInbound = true := by simp [Connection.isInbound, hinb]
  refine ⟨?_, ?_⟩
  · dsimp only
    rw [List.map_append]
    refine hs.linked.append ?_
    intro c k d hk hkend
    match c with
    | 0 =>
      obtain rfl : out = k := Option.some.inj hk
      obtain rfl : s.calls.length + 1 = d := Option.some.inj (hend.symm.trans hkend)
      refine ⟨inb, ?_, by simp [hend'], by simp [houtKind, hinbKind]⟩
      rw [List.getElem?_append_right (by simp)]
      simp [Handshake.new]
    | 1 =>
      obtain rfl : inb = k := Option.some.inj hk
      obtain rfl : s.calls.length = d := Option.some.inj (hend'.symm.trans hkend)
      refine ⟨out, ?_, by simp [hend], by simp [houtKind, hinbKind]⟩
      rw [List.getElem?_append_right (by simp)]
      simp [Handshake.new]
    | n + 2 => simp at hk
  · intro c o d i ho hi hoEnd hkind
    rcases hcases ho with hoOld | ⟨-, rfl⟩ | ⟨-, rfl⟩
    · exact hs.pairs c o d i hoOld (hs.linked.getElem?_old hoOld hoEnd hi) hoEnd hkind
    · obtain rfl : s.calls.length + 1 = d := Option.some.inj (hend.symm.trans hoEnd)
      rcases hcases hi with hiOld | ⟨hlen, -⟩ | ⟨-, rfl⟩
      · have hlt := (List.getElem?_eq_some_iff.mp hiOld).1
        omega
      · omega
      · exact ⟨⟨versionFrame magic out, rfl, rfl⟩, .inr ⟨rfl, rfl⟩⟩
    · simp [Handshake.new, hinbKind] at hkind

lemma selfConnections_step (hs : s.SelfConnections magic) (hdistinct : s.DistinctNonces)
    {e : HandshakesEvent} (hstep : s.step magic e = some s') : s'.SelfConnections magic := by
  cases e with
  | connect k =>
    simp only [step] at hstep
    split_ifs at hstep with hremote
    cases hstep
    exact hs.connect hremote
  | connectSelf out inb =>
    simp only [step] at hstep
    split_ifs at hstep with hkinds
    cases hstep
    obtain ⟨hout, hinb, hend, hend'⟩ := hkinds
    exact hs.connectSelf hout hinb hend hend'
  | receive c bytes =>
    simp only [step] at hstep
    split at hstep
    · rename_i h hc
      split_ifs at hstep with hremote
      cases hstep
      exact hs.receive hc hremote bytes
    · cases hstep
  | write c n =>
    simp only [step] at hstep
    split at hstep
    · rename_i h hc
      split_ifs at hstep with hwriting
      cases hstep
      unfold writeBytes
      split
      · rename_i hremote
        exact hs.writeRemote hc hremote n
      · rename_i d hend
        exact hs.writeSelf hc hwriting.1 hend n
    · cases hstep
  | call c e =>
    simp only [step] at hstep
    split at hstep
    · rename_i h hc
      split at hstep
      · rename_i h' nonces' hcall
        cases hstep
        exact hs.call hdistinct hc hcall
      · cases hstep
    · cases hstep

/-- The connections of the calls stay, and new ones come after them. -/
lemma connections_of_step {e : HandshakesEvent} (hstep : s.step magic e = some s') :
    ∃ added, s'.calls.map Handshake.connection = s.calls.map Handshake.connection ++ added := by
  cases e with
  | connect k =>
    simp only [step] at hstep
    split_ifs at hstep
    cases hstep
    exact ⟨_, List.map_append⟩
  | connectSelf out inb =>
    simp only [step] at hstep
    split_ifs at hstep
    cases hstep
    exact ⟨_, List.map_append⟩
  | receive c bytes =>
    simp only [step] at hstep
    split at hstep
    · split_ifs at hstep
      cases hstep
      exact ⟨[], by rw [deliver, map_connection_deliver, List.append_nil]⟩
    · cases hstep
  | write c n =>
    simp only [step] at hstep
    split at hstep
    · rename_i h hc
      split_ifs at hstep
      cases hstep
      have hset := map_connection_set hc { h with sending := h.sending.drop n } rfl
      refine ⟨[], ?_⟩
      rw [List.append_nil]
      unfold writeBytes
      split
      · exact hset
      · rw [deliver, map_connection_deliver]
        exact hset
    · cases hstep
  | call c e =>
    simp only [step] at hstep
    split at hstep
    · rename_i h hc
      split at hstep
      · rename_i h' nonces' hcall
        cases hstep
        exact ⟨[], by
          rw [List.append_nil, map_connection_set hc h' (Handshake.connection_of_step hcall)]⟩
      · cases hstep
    · cases hstep

lemma distinctNonces_of_step {e : HandshakesEvent} (hstep : s.step magic e = some s')
    (hdistinct : s'.DistinctNonces) : s.DistinctNonces := by
  obtain ⟨added, hadded⟩ := connections_of_step hstep
  have hnonces : ∀ s : Handshakes, (s.calls.map fun h => h.connection.nonce) =
      (s.calls.map Handshake.connection).map Connection.nonce := fun s => by simp
  unfold DistinctNonces at hdistinct ⊢
  rw [hnonces, hadded, List.map_append] at hdistinct
  rw [hnonces]
  exact (List.nodup_append.mp hdistinct).1

lemma selfConnections_of_reachable
    (hrun : Reachable (step magic) (fun _ _ _ => True) init s) (hdistinct : s.DistinctNonces) :
    s.SelfConnections magic := by
  refine hrun.invariant (fun s => s.DistinctNonces → s.SelfConnections magic) ?_ ?_ hdistinct
  · intro _
    refine ⟨?_, ?_⟩
    · intro c k d hk
      simp [init] at hk
    · intro c o d i ho
      simp [init] at ho
  · intro s e s' hs hstep _ hdistinct
    have hbefore := distinctNonces_of_step hstep hdistinct
    exact selfConnections_step (hs hbefore) hbefore hstep

/-- Neither end of a connection of the node to itself returns `Ok`. -/
theorem no_self_connection (magic : Magic) (s : Handshakes)
    (hrun : Reachable (step magic) (fun _ _ _ => True) init s) (hdistinct : s.DistinctNonces)
    (c : Nat) (h : Handshake) (hc : s.calls[c]? = some h)
    (hself : h.connection.otherEnd.isSome = true) : h.phase ≠ .returned (.ok ()) := by
  have hs := selfConnections_of_reachable hrun hdistinct
  obtain ⟨d, hend⟩ := Option.isSome_iff_exists.mp hself
  obtain ⟨k, hk, -⟩ := hs.linked c h.connection d (by rw [List.getElem?_map, hc]; rfl) hend
  rw [List.getElem?_map] at hk
  obtain ⟨h', hd, -⟩ := Option.map_eq_some_iff.mp hk
  obtain ⟨hback, hkind⟩ := hs.linked.otherEnd hc hd hend
  intro hphase
  cases hinbound : h.connection.isInbound with
  | false =>
    obtain ⟨rest, hout, -⟩ := (hs.pairs c h d h' hc hd hend hinbound).stream
    simp [Handshake.OutboundAt, hphase] at hout
  | true =>
    rw [hinbound] at hkind
    obtain ⟨rest, -, hin⟩ := (hs.pairs d h' c h hd hc hback hkind).stream
    simp [Handshake.InboundAt, hphase] at hin

end Handshakes

end

namespace Sample

/-- The ends of a connection of the node to itself. -/
def selfEnds : Connection × Connection :=
  (⟨.outboundFullRelay, some 1, 1700000000, 7, 0⟩, ⟨.inbound, some 0, 1700000000, 8, 0⟩)

/-- The outbound end times out before the inbound end looks for its nonce. -/
def lateCheck : List HandshakesEvent :=
  [.connectSelf selfEnds.1 selfEnds.2, .call 0 .start, .write 0 125, .call 0 .enterLoop,
    .call 1 .start, .call 1 .readHeader, .call 1 .readPayload,
    .call 0 (.fail (.handshakeTimeout 30)), .call 0 .removeNonce, .call 1 .handle]

/-- What is known of a phase. -/
def isPastVersion : HandshakePhase → Bool
  | .turning true false => true
  | _ => false

set_option maxRecDepth 100000 in
/-- The inbound end has passed the check, and still neither end returns `Ok`. -/
theorem no_self_connection_late :
    ∃ s, Reachable (Handshakes.step magic) (fun _ _ _ => True) .init s ∧
      s.calls.map (fun h => isPastVersion h.phase) = [false, true] ∧
      ∀ (c : Nat) (h : Handshake), s.calls[c]? = some h → h.connection.otherEnd.isSome = true →
        h.phase ≠ .returned (.ok ()) := by
  have hrun : (Reachable.run (Handshakes.step magic) (fun _ _ _ => true) .init lateCheck).map
      (fun s => (s.calls.map (fun h => isPastVersion h.phase),
        s.calls.map fun h => h.connection.nonce)) = some ([false, true], [7, 8]) := by
    decide +kernel
  obtain ⟨s, hs, heq⟩ := Option.map_eq_some_iff.mp hrun
  obtain ⟨hphases, hnonces⟩ : s.calls.map (fun h => isPastVersion h.phase) = [false, true] ∧
      (s.calls.map fun h => h.connection.nonce) = [7, 8] := by
    simpa [Prod.ext_iff] using heq
  have hreachable : Reachable (Handshakes.step magic) (fun _ _ _ => True) .init s :=
    Reachable.of_run (fun _ _ _ _ => trivial) .init hs
  have hdistinct : s.DistinctNonces := by
    unfold Handshakes.DistinctNonces
    rw [hnonces]
    decide
  exact ⟨s, hreachable, hphases, fun c h =>
    Handshakes.no_self_connection magic s hreachable hdistinct c h⟩

end Sample

end Bitcrab
