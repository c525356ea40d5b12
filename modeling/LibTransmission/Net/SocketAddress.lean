import LibTransmission.Net.Address
import Mathlib.Data.List.FinRange
import Mathlib.Algebra.Group.Nat.Basic

/-!
# Valid peer addresses

`tr_socket_address::is_valid_for_peers` decides which addresses, with their `tr_port`, the
session connects to.

* `isValidForPeers_inet_iff` : the IPv4 peers the session accepts;
* `isValidForPeers_of_isGlobalUnicastAddress` : every global unicast IPv6 address is a valid
  peer with any nonzero port.
-/

namespace LibTransmission

/-! ## `tr_port` -/

/-- `tr_port`: a port, as its `uint16_t` value in host byte order (net.h, not under src/). -/
structure Port where
  host : Nat
  host_lt : host < 2 ^ 16
  deriving DecidableEq, Repr

namespace Port

/-- `tr_port::from_host`. -/
def fromHost (h : Nat) : Port := ⟨h % 2 ^ 16, Nat.mod_lt _ (by decide)⟩

/-- `tr_port::empty`. -/
def empty (p : Port) : Bool := p.host = 0

end Port

/-! ## Valid peers -/

namespace Address

/-- `tr_address::is_valid` (net.h): the type is `TR_AF_INET` or `TR_AF_INET6`. -/
def isValid : Address → Bool
  | unknown => false
  | _ => true

/-- `IN6_IS_ADDR_V4MAPPED`: `::ffff:0:0/96`. -/
def in6IsAddrV4mapped (a : Fin 16 → UInt8) : Bool :=
  (List.finRange 10).all (fun i => a (i.castLE (by decide)) = 0) && a 10 = 0xff && a 11 = 0xff

/-- `IN6_IS_ADDR_LINKLOCAL`: `fe80::/10`. -/
def in6IsAddrLinklocal (a : Fin 16 → UInt8) : Bool :=
  (a 0).toNat = 0xfe && ((a 1).toNat &&& 0xc0) = 0x80

/-- `is_ipv4_mapped_address`. -/
def isIpv4MappedAddress : Address → Bool
  | inet6 a => in6IsAddrV4mapped a
  | _ => false

/-- `is_ipv6_link_local_address`. -/
def isIpv6LinkLocalAddress : Address → Bool
  | inet6 a => in6IsAddrLinklocal a
  | _ => false

end Address

/-- `tr_socket_address::is_valid_for_peers`. -/
def isValidForPeers (addr : Address) (port : Port) : Bool :=
  addr.isValid && !port.empty && !addr.isIpv6LinkLocalAddress && !addr.isIpv4MappedAddress &&
    !addr.isMartianAddr

/-- The IPv4 peers the session accepts: a nonzero port, and a first byte other than 0 and 127 and
below 224. -/
theorem isValidForPeers_inet_iff (a : Fin 4 → UInt8) (port : Port) :
    isValidForPeers (.inet a) port = true ↔
      port.host ≠ 0 ∧ (a 0).toNat ≠ 0 ∧ (a 0).toNat ≠ 127 ∧ (a 0).toNat < 224 := by
  simp only [isValidForPeers, Address.isValid, Address.isIpv6LinkLocalAddress,
    Address.isIpv4MappedAddress, Port.empty, Bool.true_and, Bool.not_false, Bool.and_true,
    Bool.and_eq_true, Bool.not_eq_true', Bool.eq_false_iff, ne_eq, decide_eq_true_eq,
    Address.isMartianAddr_inet_iff]
  omega

set_option maxRecDepth 4096 in
theorem land_E0_eq_20_iff : ∀ n < 256, (n &&& 0xE0 = 0x20 ↔ 32 ≤ n ∧ n < 64) := by decide

/-- **Global unicast IPv6 addresses are valid peers.** Every IPv6 address that
`is_global_unicast_address` accepts, `2000::/3`, is a valid peer with any nonzero port: it is not
multicast, link-local, IPv4-mapped, unspecified or loopback. -/
theorem isValidForPeers_of_isGlobalUnicastAddress (a : Fin 16 → UInt8) (port : Port)
    (hglobal : (Address.inet6 a).isGlobalUnicastAddress = true) (hport : port.host ≠ 0) :
    isValidForPeers (.inet6 a) port = true := by
  have h0 : 32 ≤ (a 0).toNat ∧ (a 0).toNat < 64 := by
    simp only [Address.isGlobalUnicastAddress, decide_eq_true_eq] at hglobal
    exact (land_E0_eq_20_iff _ (a 0).toNat_lt_size).mp hglobal
  have hzero : a 0 ≠ 0 := fun h => by rw [h] at h0; exact absurd h0.1 (by decide)
  have hlinklocal : Address.in6IsAddrLinklocal a = false := by
    simp only [Address.in6IsAddrLinklocal, Bool.and_eq_false_iff, decide_eq_false_iff_not]
    exact .inl (by omega)
  have hmapped : Address.in6IsAddrV4mapped a = false := by
    refine Bool.eq_false_iff.mpr fun h => hzero ?_
    simp only [Address.in6IsAddrV4mapped, Bool.and_eq_true, List.all_eq_true,
      decide_eq_true_eq] at h
    exact h.1.1 0 (List.mem_finRange 0)
  have hmartian : (Address.inet6 a).isMartianAddr = false := by
    refine Bool.eq_false_iff.mpr fun h => ?_
    simp only [Address.isMartianAddr, Bool.or_eq_true, Bool.and_eq_true, List.all_eq_true,
      decide_eq_true_eq] at h
    rcases h with h | ⟨h, -⟩
    · omega
    · exact absurd (h 0 (List.mem_finRange 0)) (show ¬(a 0).toNat = 0 by omega)
  simp only [isValidForPeers, Address.isValid, Port.empty, decide_eq_false hport,
    Address.isIpv6LinkLocalAddress, hlinklocal, Address.isIpv4MappedAddress, hmapped, hmartian,
    Bool.not_false, Bool.and_self]

/-- `2001:db8::1` on port 51413. -/
theorem isValidForPeers_of_isGlobalUnicastAddress_documentation_prefix :
    let a : Fin 16 → UInt8 := ![0x20, 0x01, 0x0d, 0xb8, 0, 0, 0, 0, 0, 0, 0, 0, 0, 0, 0, 1]
    (Address.inet6 a).isGlobalUnicastAddress = true ∧ (Port.fromHost 51413).host ≠ 0 ∧
      isValidForPeers (.inet6 a) (Port.fromHost 51413) = true :=
  ⟨by decide, by decide, isValidForPeers_of_isGlobalUnicastAddress _ _ (by decide) (by decide)⟩

end LibTransmission
