import Bitcrab.Lib.Bytes
import Mathlib.Data.Vector.Basic

/-!
# Addresses and kinds of connections (`std::net`, `net/p2p/net_types.rs`)

An IPv4 address has a second form, the IPv6 address that is mapped to it. `normalize` is the form in
which `Connman::connect_addr` uses an address, and `variants` are all of its forms
(`push_address_variants`).
-/

namespace Bitcrab

/-- `IpAddr`, by its octets. -/
inductive IpAddr where
  | v4 (octets : List.Vector UInt8 4)
  | v6 (octets : List.Vector UInt8 16)
  deriving DecidableEq

/-- `SocketAddr`. -/
structure SocketAddr where
  ip : IpAddr
  port : UInt16
  deriving DecidableEq

namespace IpAddr

/-- The first octets of an address that is mapped to an IPv4 address. -/
def mappedHead : List UInt8 := List.replicate 10 0 ++ [0xFF, 0xFF]

/-- `Ipv4Addr::to_ipv6_mapped`. -/
def toIpv6Mapped (octets : List.Vector UInt8 4) : List.Vector UInt8 16 :=
  ⟨mappedHead ++ octets.toList, by simp [mappedHead]⟩

/-- `Ipv6Addr::to_ipv4_mapped`. -/
def toIpv4Mapped (octets : List.Vector UInt8 16) : Option (List.Vector UInt8 4) :=
  if octets.toList.take 12 = mappedHead then some ⟨octets.toList.drop 12, by simp⟩ else none

lemma toIpv4Mapped_toIpv6Mapped (octets : List.Vector UInt8 4) :
    toIpv4Mapped (toIpv6Mapped octets) = some octets := by
  have hlist : (toIpv6Mapped octets).toList = mappedHead ++ octets.toList := rfl
  have hhead : mappedHead.length = 12 := rfl
  have htake : (toIpv6Mapped octets).toList.take 12 = mappedHead := by
    rw [hlist, List.take_left' hhead]
  unfold toIpv4Mapped
  rw [if_pos htake]
  refine congrArg some (Subtype.ext ?_)
  change (toIpv6Mapped octets).toList.drop 12 = octets.toList
  rw [hlist, List.drop_left' hhead]

lemma eq_toIpv6Mapped {octets : List.Vector UInt8 16} {octets' : List.Vector UInt8 4}
    (h : toIpv4Mapped octets = some octets') : octets = toIpv6Mapped octets' := by
  unfold toIpv4Mapped at h
  split_ifs at h with hhead
  obtain rfl := Option.some.inj h
  apply Subtype.ext
  change octets.toList = mappedHead ++ octets.toList.drop 12
  rw [← hhead, List.take_append_drop]

/-- The IPv4 form of an address that has one. -/
def canonical : IpAddr → IpAddr
  | v4 octets => v4 octets
  | v6 octets =>
    match toIpv4Mapped octets with
    | some octets => v4 octets
    | none => v6 octets

/-- `AddrMan::get_group`. -/
def group : IpAddr → List UInt8
  | v4 octets => octets.toList.take 2
  | v6 octets => octets.toList.take 4

end IpAddr

namespace SocketAddr

/-- The address that `Connman::connect_addr` connects to. -/
def normalize (a : SocketAddr) : SocketAddr := ⟨a.ip.canonical, a.port⟩

/-- `SocketAddr::is_ipv4`. -/
def isIpv4 (a : SocketAddr) : Bool :=
  match a.ip with
  | .v4 _ => true
  | .v6 _ => false

/-- What `push_address_variants` adds for an address. -/
def variants (a : SocketAddr) : List SocketAddr :=
  match a.ip with
  | .v4 octets => [a, ⟨.v6 (IpAddr.toIpv6Mapped octets), a.port⟩]
  | .v6 octets =>
    match IpAddr.toIpv4Mapped octets with
    | some octets => [a, ⟨.v4 octets, a.port⟩]
    | none => [a]

/-- The variants of an address are the addresses with the same normal form. -/
lemma mem_variants_iff {a b : SocketAddr} : a ∈ b.variants ↔ a.normalize = b.normalize := by
  obtain ⟨ip, port⟩ := a
  obtain ⟨ip', port'⟩ := b
  cases ip' with
  | v4 octets' =>
    cases ip with
    | v4 octets => simp [variants, normalize, IpAddr.canonical]
    | v6 octets =>
      simp only [variants, normalize, IpAddr.canonical, List.mem_cons, List.not_mem_nil, or_false,
        mk.injEq, reduceCtorEq, false_and, false_or]
      cases hmapped : IpAddr.toIpv4Mapped octets with
      | none =>
        have hne : octets ≠ IpAddr.toIpv6Mapped octets' := by
          rintro rfl
          simp [IpAddr.toIpv4Mapped_toIpv6Mapped] at hmapped
        simp [hne]
      | some mapped =>
        obtain rfl := IpAddr.eq_toIpv6Mapped hmapped
        have hinj : IpAddr.toIpv6Mapped mapped = IpAddr.toIpv6Mapped octets' ↔
          mapped = octets' := by
          constructor
          · intro h
            have hsome := IpAddr.toIpv4Mapped_toIpv6Mapped octets'
            rw [← h, IpAddr.toIpv4Mapped_toIpv6Mapped] at hsome
            exact Option.some.inj hsome
          · rintro rfl
            rfl
        simp [hinj]
  | v6 octets' =>
    cases hmapped' : IpAddr.toIpv4Mapped octets' with
    | none =>
      cases ip with
      | v4 octets => simp [variants, normalize, IpAddr.canonical, hmapped']
      | v6 octets =>
        cases hmapped : IpAddr.toIpv4Mapped octets with
        | none => simp [variants, normalize, IpAddr.canonical, hmapped', hmapped]
        | some mapped =>
          have hne : octets ≠ octets' := by
            rintro rfl
            simp [hmapped'] at hmapped
          simp [variants, normalize, IpAddr.canonical, hmapped', hmapped, hne]
    | some mapped' =>
      cases ip with
      | v4 octets => simp [variants, normalize, IpAddr.canonical, hmapped']
      | v6 octets =>
        cases hmapped : IpAddr.toIpv4Mapped octets with
        | none =>
          have hne : octets ≠ octets' := by
            rintro rfl
            simp [hmapped'] at hmapped
          simp [variants, normalize, IpAddr.canonical, hmapped', hmapped, hne]
        | some mapped =>
          have hiff : octets = octets' ↔ mapped = mapped' := by
            constructor
            · rintro rfl
              rw [hmapped] at hmapped'
              exact Option.some.inj hmapped'
            · rintro rfl
              rw [IpAddr.eq_toIpv6Mapped hmapped, IpAddr.eq_toIpv6Mapped hmapped']
          simp [variants, normalize, IpAddr.canonical, hmapped', hmapped, hiff]

end SocketAddr

/-- `ConnectionType`. -/
inductive ConnectionType where
  | inbound | outboundFullRelay | blockRelayOnly | feeler
  deriving DecidableEq

/-- The most connections of a type: `MAX_INBOUND_CONNECTIONS`,
`MAX_OUTBOUND_FULL_RELAY_CONNECTIONS`, `MAX_BLOCK_RELAY_ONLY_CONNECTIONS` and
`MAX_FEELER_CONNECTIONS`. -/
def ConnectionType.max : ConnectionType → Nat
  | inbound => 125 - 8 - 2
  | outboundFullRelay => 8
  | blockRelayOnly => 2
  | feeler => 1

end Bitcrab
