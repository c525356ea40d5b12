import Mathlib.Data.Fin.VecNotation

/-!
# Which addresses are global

`tr_address` and two of its classifications in net.cc: `is_martian_addr`, which
`tr_socket_address::is_valid_for_peers` uses to refuse a peer address, and
`tr_address::is_global_unicast_address`.

* `reservedV4` : the special-purpose IPv4 blocks the comments of `is_global_unicast_address` and
  the table of reserved addresses they cite list, as the standard to compare the code with;
* `isMartianAddr_inet_iff` : the martian IPv4 addresses, by their first byte;
* `loopback_and_multicast_pass_as_global` : `127.0.0.1` and `231.0.0.1` are martian, reserved,
  and global unicast.
-/

namespace LibTransmission

/-- `tr_address`: its `type` and, for `TR_AF_INET` and `TR_AF_INET6`, the bytes of `addr.addr4`
and `addr.addr6` in network order. -/
inductive Address
  | inet (a : Fin 4 → UInt8)
  | inet6 (a : Fin 16 → UInt8)
  /-- A `type` other than `TR_AF_INET` and `TR_AF_INET6`. -/
  | unknown

namespace Address

/-! ## The classifications

net.cc reads the address through a pointer to its bytes and compares each byte, promoted to
`int`, with a constant: `(a i).toNat` is that promoted byte. -/

/-- `is_martian_addr`: IPv4 `0.0.0.0/8`, `127.0.0.0/8` and `224.0.0.0/3`; IPv6 multicast, the
unspecified address and loopback. -/
def isMartianAddr : Address → Bool
  | inet a => (a 0).toNat = 0 || (a 0).toNat = 127 || ((a 0).toNat &&& 0xE0) = 0xE0
  | inet6 a => (a 0).toNat = 0xFF ||
      ((List.finRange 15).all (fun i => (a i.castSucc).toNat = 0) &&
        ((a 15).toNat = 0 || (a 15).toNat = 1))
  | unknown => true

/-- `tr_address::is_global_unicast_address`, its tests in the order of the source. -/
def isGlobalUnicastAddress : Address → Bool
  | inet a =>
    let a0 := (a 0).toNat
    let a1 := (a 1).toNat
    let a2 := (a 2).toNat
    if a0 = 0 then false
    else if a0 = 10 then false
    else if a0 = 100 ∧ 64 ≤ a1 ∧ a1 ≤ 127 then false
    else if a0 = 169 ∧ a1 = 254 then false
    else if a0 = 172 ∧ 16 ≤ a1 ∧ a1 ≤ 31 then false
    else if a0 = 192 ∧ a1 = 0 ∧ a2 = 0 then false
    else if a0 = 192 ∧ a1 = 0 ∧ a2 = 2 then false
    else if a0 = 192 ∧ a1 = 88 ∧ a2 = 99 then false
    else if a0 = 192 ∧ a1 = 168 then false
    else if a0 = 198 ∧ 18 ≤ a1 ∧ a1 ≤ 19 then false
    else if a0 = 198 ∧ a1 = 51 ∧ a2 = 100 then false
    else if a0 = 203 ∧ a1 = 0 ∧ a2 = 113 then false
    else if 224 ≤ a0 ∧ a0 ≤ 230 then false
    else if a0 = 233 ∧ a1 = 252 ∧ a2 = 0 then false
    else if 240 ≤ a0 then false
    else true
  | inet6 a => ((a 0).toNat &&& 0xE0) = 0x20
  | unknown => false

/-- The special-purpose IPv4 blocks that the comments of `is_global_unicast_address` name, with
the reserved-address table they cite: `0/8`, `10/8`, `100.64/10`, `127/8`, `169.254/16`,
`172.16/12`, `192.0.0/24`, `192.0.2/24`, `192.88.99/24`, `192.168/16`, `198.18/15`,
`198.51.100/24`, `203.0.113/24`, multicast `224.0.0.0–239.255.255.255`, and `240/4`. -/
def reservedV4 (a : Fin 4 → UInt8) : Bool :=
  let a0 := (a 0).toNat
  let a1 := (a 1).toNat
  let a2 := (a 2).toNat
  decide (a0 = 0 ∨ a0 = 10 ∨ (a0 = 100 ∧ 64 ≤ a1 ∧ a1 ≤ 127) ∨ a0 = 127 ∨
    (a0 = 169 ∧ a1 = 254) ∨ (a0 = 172 ∧ 16 ≤ a1 ∧ a1 ≤ 31) ∨ (a0 = 192 ∧ a1 = 0 ∧ a2 = 0) ∨
    (a0 = 192 ∧ a1 = 0 ∧ a2 = 2) ∨ (a0 = 192 ∧ a1 = 88 ∧ a2 = 99) ∨ (a0 = 192 ∧ a1 = 168) ∨
    (a0 = 198 ∧ 18 ≤ a1 ∧ a1 ≤ 19) ∨ (a0 = 198 ∧ a1 = 51 ∧ a2 = 100) ∨
    (a0 = 203 ∧ a1 = 0 ∧ a2 = 113) ∨ (224 ≤ a0 ∧ a0 ≤ 239) ∨ 240 ≤ a0)

/-! ## IPv4 -/

set_option maxRecDepth 4096 in
theorem land_E0_eq_iff : ∀ n < 256, (n &&& 0xE0 = 0xE0 ↔ 224 ≤ n) := by decide

/-- The martian IPv4 addresses are `0/8`, `127/8` and everything from `224.0.0.0` on. -/
theorem isMartianAddr_inet_iff (a : Fin 4 → UInt8) :
    isMartianAddr (.inet a) = true ↔
      (a 0).toNat = 0 ∨ (a 0).toNat = 127 ∨ 224 ≤ (a 0).toNat := by
  simp [isMartianAddr, land_E0_eq_iff _ (a 0).toNat_lt_size, or_assoc]

end Address

/-- `127.0.0.1` and `231.0.0.1` are martian and reserved, yet global unicast. -/
theorem loopback_and_multicast_pass_as_global :
    Address.isMartianAddr (.inet ![127, 0, 0, 1]) = true ∧
      Address.reservedV4 ![127, 0, 0, 1] = true ∧
      Address.isGlobalUnicastAddress (.inet ![127, 0, 0, 1]) = true ∧
      Address.isMartianAddr (.inet ![231, 0, 0, 1]) = true ∧
      Address.reservedV4 ![231, 0, 0, 1] = true ∧
      Address.isGlobalUnicastAddress (.inet ![231, 0, 0, 1]) = true := by
  decide

end LibTransmission
