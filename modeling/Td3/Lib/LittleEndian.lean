/-
Numbers in memory, least significant byte first: the bytes of a number and the number some bytes
hold are inverse to each other.
-/
import Mathlib.Tactic

namespace Td3.Lib

/-- The `k` bytes of `v` in memory, least significant first. -/
def leBytes : Nat → Nat → List UInt8
  | 0, _ => []
  | k + 1, v => UInt8.ofNat v :: leBytes k (v / 256)

/-- The number in memory whose bytes, least significant first, are these. -/
def leNat : List UInt8 → Nat
  | [] => 0
  | b :: bytes => b.toNat + 256 * leNat bytes

@[simp] theorem length_leBytes : ∀ k v, (leBytes k v).length = k
  | 0, _ => rfl
  | k + 1, v => by rw [leBytes, List.length_cons, length_leBytes k]

theorem leNat_lt : ∀ bytes, leNat bytes < 256 ^ bytes.length
  | [] => by decide
  | b :: bytes => by
    have ih := leNat_lt bytes
    have hb := b.toNat_lt
    rw [leNat, List.length_cons, pow_succ]
    omega

theorem leNat_leBytes : ∀ {k v : Nat}, v < 256 ^ k → leNat (leBytes k v) = v
  | 0, v, h => by
    rw [pow_zero] at h
    simp only [leBytes, leNat]
    omega
  | k + 1, v, h => by
    rw [pow_succ] at h
    have hb : (UInt8.ofNat v).toNat = v % 256 := rfl
    rw [leBytes, leNat, hb, leNat_leBytes (by omega)]
    omega

theorem leBytes_leNat : ∀ bytes, leBytes bytes.length (leNat bytes) = bytes
  | [] => rfl
  | b :: bytes => by
    have hb := b.toNat_lt
    have hd : (b.toNat + 256 * leNat bytes) / 256 = leNat bytes := by omega
    have hm : UInt8.ofNat (b.toNat + 256 * leNat bytes) = b := by
      apply UInt8.toNat_inj.1
      change (b.toNat + 256 * leNat bytes) % 256 = b.toNat
      omega
    rw [List.length_cons, leNat, leBytes, hd, hm, leBytes_leNat bytes]

end Td3.Lib
