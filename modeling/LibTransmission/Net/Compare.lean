import LibTransmission.Net.SocketAddress
import Mathlib.Data.List.OfFn
import Mathlib.Tactic.Ring

/-!
# Ordering addresses

`tr_address::compare`, the three-way comparison behind the `operator<` and `operator==` of
`tr_address`: the address types first, IPv4 before IPv6, then `memcmp` of the address bytes.

* `Endian.load` : the number that bytes in memory hold, on a host of either byte order; network
  order is `big`, the first byte the most significant (`load_big_cons`);
* `memcmp_eq_zero_iff`, `memcmp_swap`, `memcmp_trans` : `memcmp` over buffers of one length is
  zero exactly on equal buffers, antisymmetric and transitive;
* `memcmp_neg_iff` : it orders buffers as the numbers they spell in network order;
* `Address.compare_lex` : `compare` is the lexicographic order on the type and the bytes;
* `Address.compare_strict_total_order` : `compare` is zero exactly on equal addresses,
  antisymmetric and transitive, and orders IPv4 addresses as the 32-bit numbers their bytes spell
  in network order.
-/

namespace LibTransmission

/-! ## Bytes as numbers -/

/-- The byte order of the host running the code. -/
inductive Endian
  | little
  | big
  deriving DecidableEq, Repr

/-- The number bytes spell, least significant first. -/
def leValue : List UInt8 → Nat
  | [] => 0
  | b :: bs => b.toNat + 256 * leValue bs

theorem leValue_lt (bs : List UInt8) : leValue bs < 256 ^ bs.length := by
  induction bs with
  | nil => simp [leValue]
  | cons b bs ih =>
    have hb : b.toNat < 256 := b.toNat_lt_size
    rw [leValue, List.length_cons, Nat.pow_succ]
    omega

theorem leValue_append (xs ys : List UInt8) :
    leValue (xs ++ ys) = leValue xs + 256 ^ xs.length * leValue ys := by
  induction xs with
  | nil => simp [leValue]
  | cons x xs ih =>
    rw [List.cons_append, leValue, leValue, ih, List.length_cons, Nat.pow_succ]
    ring

namespace Endian

/-- The unsigned integer that bytes in memory hold. -/
def load : Endian → List UInt8 → Nat
  | little, bs => leValue bs
  | big, bs => leValue bs.reverse

theorem load_lt (e : Endian) (bs : List UInt8) : e.load bs < 256 ^ bs.length := by
  cases e with
  | little => exact leValue_lt bs
  | big => simpa [load] using leValue_lt bs.reverse

theorem load_big_cons (b : UInt8) (bs : List UInt8) :
    big.load (b :: bs) = b.toNat * 256 ^ bs.length + big.load bs := by
  simp only [load, List.reverse_cons, leValue_append, List.length_reverse, leValue]
  ring

end Endian

/-! ## `memcmp` -/

/-- `memcmp` over two buffers: the sign of the difference of the first bytes that differ, read
as `unsigned char`, and 0 when none does. The C library fixes only the sign of its result; every
statement below is about the sign. -/
def memcmp : List UInt8 → List UInt8 → Int
  | a :: as, b :: bs => if a = b then memcmp as bs else if a.toNat < b.toNat then -1 else 1
  | _, _ => 0

theorem toNat_ne_of_ne {a b : UInt8} (h : a ≠ b) : a.toNat ≠ b.toNat :=
  fun h' => h (UInt8.toNat.inj h')

theorem memcmp_eq_zero_iff : ∀ {as bs : List UInt8}, as.length = bs.length →
    (memcmp as bs = 0 ↔ as = bs)
  | [], [], _ => by simp [memcmp]
  | a :: as, b :: bs, h => by
    have ih : memcmp as bs = 0 ↔ as = bs := memcmp_eq_zero_iff (by simpa using h)
    by_cases hab : a = b
    · simp [memcmp, hab, ih]
    · rw [memcmp, if_neg hab]
      simp only [List.cons.injEq, hab, false_and, iff_false]
      split_ifs <;> decide
  | [], _ :: _, h | _ :: _, [], h => by simp at h

theorem memcmp_swap : ∀ as bs : List UInt8, memcmp bs as = -memcmp as bs
  | a :: as, b :: bs => by
    have hne := @toNat_ne_of_ne a b
    by_cases hab : a = b
    · subst hab; simp only [memcmp, if_true, memcmp_swap as bs]
    · simp only [memcmp, if_neg hab, if_neg (Ne.symm hab)]
      have := hne hab
      split_ifs <;> omega
  | [], [] | [], _ :: _ | _ :: _, [] => by simp [memcmp]

theorem memcmp_trans : ∀ {as bs cs : List UInt8}, memcmp as bs < 0 → memcmp bs cs < 0 →
    memcmp as cs < 0
  | a :: as, b :: bs, c :: cs, h₁, h₂ => by
    simp only [memcmp] at h₁ h₂ ⊢
    by_cases hab : a = b <;> by_cases hbc : b = c
    · subst hab hbc; simpa using memcmp_trans (by simpa using h₁) (by simpa using h₂)
    · subst hab; simpa [hbc] using h₂
    · subst hbc; simpa [hab] using h₁
    · rw [if_neg hab] at h₁; rw [if_neg hbc] at h₂
      have hac : a.toNat < c.toNat := by split_ifs at h₁ h₂ <;> omega
      rw [if_neg fun h => by simp [h] at hac, if_pos hac]
      decide
  | [], _, _, h, _ | _ :: _, [], _, h, _ | _ :: _, _ :: _, [], _, h => by simp [memcmp] at h

theorem memcmp_neg_iff : ∀ {as bs : List UInt8}, as.length = bs.length →
    (memcmp as bs < 0 ↔ Endian.big.load as < Endian.big.load bs)
  | [], [], _ => by simp [memcmp, Endian.load, leValue]
  | a :: as, b :: bs, h => by
    have hlen : as.length = bs.length := by simpa using h
    have hx := Endian.big.load_lt as
    have hy := Endian.big.load_lt bs
    rw [Endian.load_big_cons, Endian.load_big_cons, ← hlen]
    rw [← hlen] at hy
    by_cases hab : a = b
    · subst hab
      simp only [memcmp, if_true, memcmp_neg_iff hlen]
      omega
    · simp only [memcmp, if_neg hab]
      have hne := toNat_ne_of_ne hab
      have key : ∀ {x y : UInt8} {u v : Nat}, x.toNat < y.toNat → u < 256 ^ as.length →
          x.toNat * 256 ^ as.length + u < y.toNat * 256 ^ as.length + v := by
        intro x y u v hxy hu
        have := Nat.mul_le_mul_right (256 ^ as.length) (Nat.succ_le_of_lt hxy)
        rw [Nat.succ_mul] at this
        omega
      split
      · exact iff_of_true (by decide) (key ‹_› hx)
      · exact iff_of_false (by decide) (Nat.not_lt.mpr (key (by omega) hy).le)

/-! ## `tr_address::compare` -/

namespace Address

/-- The bytes of `addr.addr6`: those of an IPv6 address, and for an address of neither type the
zero bytes of a value-initialised `tr_address`, which the model's `unknown` does not keep. -/
def addr6 : Address → Fin 16 → UInt8
  | inet6 a => a
  | _ => fun _ => 0

/-- The `tr_address_type` of an address: `TR_AF_INET`, then `TR_AF_INET6`, then, for the model's
`unknown`, a type after both. -/
def typeIndex : Address → Nat
  | inet _ => 0
  | inet6 _ => 1
  | unknown => 2

/-- `tr_compare_3way` (tr-macros.h, not under src/): -1, 0 or 1 as `a` is below, equal to or
above `b`. -/
def compare3way (a b : Nat) : Int := if a < b then -1 else if b < a then 1 else 0

/-- `tr_address::compare`: the types by `tr_compare_3way`, IPv4 before IPv6, then for two
addresses of one type `memcmp` of `addr.addr4` if the first is IPv4 and of `addr.addr6`
otherwise. -/
def compare (x y : Address) : Int :=
  let val := compare3way x.typeIndex y.typeIndex
  if val ≠ 0 then val
  else
    match x, y with
    | inet a, inet b => memcmp (List.ofFn a) (List.ofFn b)
    | _, _ => memcmp (List.ofFn x.addr6) (List.ofFn y.addr6)

/-- The bytes `compare` reads once the types agree. -/
def key : Address → List UInt8
  | inet a => List.ofFn a
  | x => List.ofFn x.addr6

theorem length_key : ∀ x : Address, x.key.length = if x.typeIndex = 0 then 4 else 16
  | inet a | inet6 a => List.length_ofFn a
  | unknown => List.length_ofFn _

theorem eq_of_key_eq : ∀ {x y : Address}, x.typeIndex = y.typeIndex → x.key = y.key → x = y
  | inet _, inet _, _, h | inet6 _, inet6 _, _, h => congrArg _ (List.ofFn_injective h)
  | unknown, unknown, _, _ => rfl
  | inet _, inet6 _, h, _ | inet _, unknown, h, _ | inet6 _, inet _, h, _
  | inet6 _, unknown, h, _ | unknown, inet _, h, _ | unknown, inet6 _, h, _ => by
    simp [typeIndex] at h

/-- `compare` is the lexicographic order on the type, then the bytes. -/
theorem compare_lex (x y : Address) : x.compare y =
    if x.typeIndex < y.typeIndex then -1
    else if y.typeIndex < x.typeIndex then 1
    else memcmp x.key y.key := by
  cases x <;> cases y <;> rfl

theorem compare_eq_zero_iff (x y : Address) : x.compare y = 0 ↔ x = y := by
  have hlen := length_key x
  have hlen' := length_key y
  rw [compare_lex]
  split_ifs with h₁ h₂
  · exact iff_of_false (by decide) fun h => by subst h; omega
  · exact iff_of_false (by decide) fun h => by subst h; omega
  · have hty : x.typeIndex = y.typeIndex := by omega
    rw [memcmp_eq_zero_iff (by rw [hlen, hlen', hty])]
    exact ⟨eq_of_key_eq hty, fun h => h ▸ rfl⟩

theorem compare_swap (x y : Address) : y.compare x = -x.compare y := by
  rw [compare_lex, compare_lex, memcmp_swap]
  split_ifs <;> omega

theorem compare_neg_iff (x y : Address) : x.compare y < 0 ↔
    x.typeIndex < y.typeIndex ∨ x.typeIndex = y.typeIndex ∧ memcmp x.key y.key < 0 := by
  rw [compare_lex]
  split_ifs <;> omega

theorem compare_trans {x y z : Address} (h₁ : x.compare y < 0) (h₂ : y.compare z < 0) :
    x.compare z < 0 := by
  rw [compare_neg_iff] at h₁ h₂ ⊢
  rcases h₁ with h₁ | ⟨e₁, h₁⟩
  · exact .inl (by rcases h₂ with h₂ | ⟨e₂, -⟩ <;> omega)
  rcases h₂ with h₂ | ⟨e₂, h₂⟩
  · exact .inl (by omega)
  · exact .inr ⟨e₁.trans e₂, memcmp_trans h₁ h₂⟩

/-- **`tr_address::compare` is a strict total order.** It is zero exactly on equal addresses,
antisymmetric and transitive, which is what the ordered containers keyed by `operator<` need, and
it orders IPv4 addresses as the 32-bit numbers their bytes spell in network order. -/
theorem compare_strict_total_order :
    (∀ x y : Address, x.compare y = 0 ↔ x = y) ∧
    (∀ x y : Address, y.compare x = -x.compare y) ∧
    (∀ x y z : Address, x.compare y < 0 → y.compare z < 0 → x.compare z < 0) ∧
    ∀ a b : Fin 4 → UInt8, (inet a).compare (inet b) < 0 ↔
      Endian.big.load (List.ofFn a) < Endian.big.load (List.ofFn b) :=
  ⟨compare_eq_zero_iff, compare_swap, fun _ _ _ => compare_trans, fun a b => by
    show memcmp (List.ofFn a) (List.ofFn b) < 0 ↔ _
    exact memcmp_neg_iff (by simp)⟩

end Address

end LibTransmission
