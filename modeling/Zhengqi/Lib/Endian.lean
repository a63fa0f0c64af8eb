import Zhengqi.Lib.ByteReader

/-!
# Byte order

Numbers in memory on a little-endian host, and the swap that turns one order into the other.
-/

namespace Endian

open ByteReader

/-- The `k` lowest bytes of `n`, the lowest first. -/
def leBytes : (k n : Nat) → List UInt8
  | 0, _ => []
  | k + 1, n => UInt8.ofNat n :: leBytes k (n / 256)

def leNat : List UInt8 → Nat
  | [] => 0
  | b :: bs => b.toNat + 256 * leNat bs

@[simp] theorem length_leBytes (k n : Nat) : (leBytes k n).length = k := by
  induction k generalizing n with
  | zero => rfl
  | succ k ih => rw [leBytes, List.length_cons, ih]

theorem leBytes_leNat (bs : List UInt8) : leBytes bs.length (leNat bs) = bs := by
  induction bs with
  | nil => rfl
  | cons b bs ih =>
    have hb := b.toNat_lt
    have hlow : UInt8.ofNat (b.toNat + 256 * leNat bs) = b := by
      apply UInt8.toNat_inj.1
      rw [UInt8.toNat_ofNat']
      omega
    have hhigh : (b.toNat + 256 * leNat bs) / 256 = leNat bs := by omega
    rw [List.length_cons, leNat, leBytes, hlow, hhigh, ih]

theorem reverse_leBytes (k n : Nat) : (leBytes k n).reverse = beBytes k n := by
  induction k generalizing n with
  | zero => rfl
  | succ k ih => rw [leBytes, List.reverse_cons, ih, beBytes]

theorem beNat_append_singleton (bs : List UInt8) (b : UInt8) : beNat (bs ++ [b]) = beNat bs * 256 + b.toNat := by
  rw [beNat, List.foldl_append]
  rfl

theorem leNat_reverse (bs : List UInt8) : leNat bs = beNat bs.reverse := by
  induction bs with
  | nil => rfl
  | cons b bs ih =>
    rw [leNat, List.reverse_cons, beNat_append_singleton, ih]
    omega

/-- The number whose `k` bytes are those of `n` in the other order. -/
def byteSwap (k n : Nat) : Nat := leNat (leBytes k n).reverse

/-- In memory, the swapped number has the bytes of the number in big-endian order. -/
theorem leBytes_byteSwap (k n : Nat) : leBytes k (byteSwap k n) = beBytes k n := by
  have h := leBytes_leNat (leBytes k n).reverse
  rw [List.length_reverse, length_leBytes] at h
  rw [byteSwap, h, reverse_leBytes]

/-- Bytes that came in big-endian order, loaded and swapped. -/
theorem byteSwap_leNat (bs : List UInt8) : byteSwap bs.length (leNat bs) = beNat bs := by
  rw [byteSwap, leBytes_leNat, leNat_reverse, List.reverse_reverse]

theorem beBytes_beNat (bs : List UInt8) : beBytes bs.length (beNat bs) = bs := by
  have h := leBytes_leNat bs.reverse
  rw [List.length_reverse, leNat_reverse, List.reverse_reverse] at h
  rw [← reverse_leBytes, h, List.reverse_reverse]

theorem leNat_lt (bs : List UInt8) : leNat bs < 256 ^ bs.length := by
  induction bs with
  | nil => exact Nat.one_pos
  | cons b bs ih =>
    have hb := b.toNat_lt
    rw [leNat, List.length_cons, Nat.pow_succ]
    omega

theorem byteSwap_lt (k n : Nat) : byteSwap k n < 256 ^ k := by
  have h := leNat_lt (leBytes k n).reverse
  rwa [List.length_reverse, length_leBytes] at h

end Endian
