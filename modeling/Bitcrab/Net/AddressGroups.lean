import Bitcrab.Net.AddrMan
import Bitcrab.Net.Messages

/-!
# Groups of gossiped addresses (`net/p2p/messages/addr.rs`, `net/p2p/peer_table.rs`)

An address travels as 16 octets, an IPv4 address in its mapped form. `to_socket_addr` leaves it in
that form, so `get_group` sees the octets that all mapped addresses begin with, and not the network.
-/

namespace Bitcrab

/-! ### Addresses of messages -/

namespace NetAddr

/-- `NetAddr::to_socket_addr`. -/
def toSocketAddr (a : NetAddr) : SocketAddr := ⟨.v6 a.ip, a.port⟩

/-- `NetAddr::from_socket_addr`. -/
def fromSocketAddr (addr : SocketAddr) : NetAddr where
  time := 0
  services := 0
  ip :=
    match addr.ip with
    | .v4 octets => IpAddr.toIpv6Mapped octets
    | .v6 octets => octets
  port := addr.port

lemma toSocketAddr_fromSocketAddr_v4 (octets : List.Vector UInt8 4) (port : UInt16) :
    (fromSocketAddr ⟨.v4 octets, port⟩).toSocketAddr = ⟨.v6 (IpAddr.toIpv6Mapped octets), port⟩ :=
  rfl

end NetAddr

/-! ### One group -/

/-- All mapped addresses are in one group. -/
@[simp] lemma IpAddr.group_toIpv6Mapped (octets : List.Vector UInt8 4) :
    (IpAddr.v6 (toIpv6Mapped octets)).group = [0, 0, 0, 0] := rfl

namespace AddrMan

variable [BucketHash] {m : AddrMan} {bucket : Fin 1024}

/-- `PeerTable::add_addresses`, on the address manager of the table. -/
def addAddresses (m : AddrMan) (addresses : List NetAddr) (source : SocketAddr) : AddrMan :=
  addresses.foldl (fun m addr => m.add addr.toSocketAddr source) m

lemma addAddresses_eq_addMany (m : AddrMan) (addresses : List NetAddr) (source : SocketAddr) :
    m.addAddresses addresses source =
      m.addMany (addresses.map NetAddr.toSocketAddr) source := by
  rw [addAddresses, addMany, List.foldl_map]

lemma Partition.addAddresses (h : m.Partition none) (addresses : List NetAddr)
    (source : SocketAddr) : (m.addAddresses addresses source).Partition none := by
  rw [addAddresses_eq_addMany]
  exact h.addMany _ source

/-- An address gets into its own bucket only. -/
lemma newBuckets_add {addr source : SocketAddr} (hne : bucket ≠ getNewBucket addr source) :
    (m.add addr source).newBuckets bucket = m.newBuckets bucket := by
  have hevict : (m.evictNew (getNewBucket addr source)).newBuckets bucket =
    m.newBuckets bucket := by
    unfold evictNew
    split_ifs
    · split
      · rfl
      · exact Function.update_of_ne hne _ _
    · rfl
  unfold add
  split_ifs
  · rfl
  · exact (Function.update_of_ne hne _ _).trans hevict

/-- Addresses of one group get into one bucket. -/
lemma newBuckets_addAddresses {addresses : List NetAddr} {source : SocketAddr}
    {group : List UInt8} (hgroup : ∀ addr ∈ addresses, addr.toSocketAddr.ip.group = group)
    (hne : bucket.val ≠ (BucketHash.newHash group source.ip.group).toNat % 1024) :
    (m.addAddresses addresses source).newBuckets bucket = m.newBuckets bucket := by
  induction addresses generalizing m with
  | nil => rfl
  | cons addr addresses ih =>
    obtain ⟨haddr, haddresses⟩ := List.forall_mem_cons.mp hgroup
    have hother : bucket ≠ getNewBucket addr.toSocketAddr source := by
      rintro rfl
      exact hne (by rw [← haddr]; rfl)
    calc ((m.add addr.toSocketAddr source).addAddresses addresses source).newBuckets bucket
        = (m.add addr.toSocketAddr source).newBuckets bucket := ih haddresses
      _ = m.newBuckets bucket := newBuckets_add hother

end AddrMan

/-- No IPv4 address has its group after the wire. All of them have the same one, so the IPv4
addresses that a peer gossips compete for one bucket, whatever their networks are. -/
theorem ipv4Groups_lost [BucketHash] (octets : List.Vector UInt8 4) (port : UInt16) :
    (NetAddr.fromSocketAddr ⟨.v4 octets, port⟩).toSocketAddr.ip.group ≠
        (IpAddr.v4 octets).group ∧
      (∀ octets' port', (NetAddr.fromSocketAddr ⟨.v4 octets, port⟩).toSocketAddr.ip.group =
        (NetAddr.fromSocketAddr ⟨.v4 octets', port'⟩).toSocketAddr.ip.group) ∧
      ∀ (m : AddrMan) (addrs : List (List.Vector UInt8 4 × UInt16)) (source : SocketAddr) bucket,
        bucket ≠ AddrMan.getNewBucket
            (NetAddr.fromSocketAddr ⟨.v4 octets, port⟩).toSocketAddr source →
          (m.addAddresses (addrs.map fun a => NetAddr.fromSocketAddr ⟨.v4 a.1, a.2⟩)
            source).newBuckets bucket = m.newBuckets bucket := by
  refine ⟨fun hgroup => ?_, fun _ _ => rfl, fun m addrs source bucket hne => ?_⟩
  · -- four octets against two
    rw [NetAddr.toSocketAddr_fromSocketAddr_v4, IpAddr.group_toIpv6Mapped] at hgroup
    have hlength := congrArg List.length hgroup
    simp [IpAddr.group] at hlength
  · have hgroup : ∀ addr ∈ addrs.map fun a => NetAddr.fromSocketAddr ⟨.v4 a.1, a.2⟩,
        addr.toSocketAddr.ip.group = [0, 0, 0, 0] := by
      intro addr haddr
      obtain ⟨a, -, rfl⟩ := List.mem_map.mp haddr
      rw [NetAddr.toSocketAddr_fromSocketAddr_v4, IpAddr.group_toIpv6Mapped]
    exact AddrMan.newBuckets_addAddresses hgroup fun hsame => hne (Fin.ext hsame)

/-- The group of 1.2.3.4 after the wire is not 1.2. -/
theorem not_group_fromSocketAddr :
    ¬ ∀ (octets : List.Vector UInt8 4) (port : UInt16),
      (NetAddr.fromSocketAddr ⟨.v4 octets, port⟩).toSocketAddr.ip.group =
        (IpAddr.v4 octets).group := by
  intro h
  exact absurd (h ⟨[1, 2, 3, 4], rfl⟩ 8333) (by decide)

end Bitcrab
