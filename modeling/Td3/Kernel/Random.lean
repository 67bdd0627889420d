/-
`kernel/common.c`: `__get_random`, and the addresses the mapping test draws from it. The multiplier does not fit in
32 bits, so the product is taken in 64 and cut off by the assignment.
-/
import Td3.Lib.Congruential
import Td3.Lib.Arm

namespace Td3.Kernel

open Td3.Arm
open Td3.Congruential

/-! ## The generator -/

/-- `__get_random`: the result, and the static variable it leaves. -/
def getRandom (lastValue : Word) : Word × Word :=
  let lastValue := (0x314159265#64 * lastValue.setWidth 64 + 0x1234567#64).setWidth 32
  (lastValue, lastValue)

/-- The static variable after `n` calls. -/
def lastValueAfter (lastValue : Word) : Nat → Word
  | 0 => lastValue
  | n + 1 => (getRandom (lastValueAfter lastValue n)).2

/-- The result of call `n`, counted from 0. -/
def randomResult (lastValue : Word) (n : Nat) : Word := (getRandom (lastValueAfter lastValue n)).1

/-- `bic r0, r0, #0b11` and `bic r0, r0, #0x10000000` of `prv_test_table_walk_fault`: the address the walk visits. -/
def walkAddress (random : Word) : Word := random &&& ~~~0b11#32 &&& ~~~0x10000000#32

/-- What is left of the multiplier in 32 bits. -/
def multiplier : Word := 0x14159265
def increment : Word := 0x1234567

theorem maximal : Maximal multiplier increment := ⟨by decide, by decide⟩

theorem getRandom_eq (lastValue : Word) :
    getRandom lastValue = (next multiplier increment lastValue, next multiplier increment lastValue) := by
  have hword : (0x314159265#64 * lastValue.setWidth 64 + 0x1234567#64).setWidth 32 =
      next multiplier increment lastValue := by
    rw [next, BitVec.setWidth_add _ _ (by decide), BitVec.setWidth_mul _ _ (by decide)]
    simp [multiplier, increment]
  rw [getRandom, hword]

theorem lastValueAfter_eq (lastValue : Word) (n : Nat) :
    lastValueAfter lastValue n = after multiplier increment n lastValue := by
  induction n with
  | zero => rfl
  | succ n ih => rw [lastValueAfter, ih, getRandom_eq, after_succ]

theorem randomResult_eq (lastValue : Word) (n : Nat) :
    randomResult lastValue n = after multiplier increment (n + 1) lastValue := by
  rw [randomResult, lastValueAfter_eq, getRandom_eq, after_succ]

/-- The walk keeps the top bit. -/
theorem walkAddress_msb (random : Word) : (walkAddress random).msb = random.msb := by
  have h3 : (~~~0b11#32).msb = true := by decide
  have h28 : (~~~0x10000000#32).msb = true := by decide
  rw [walkAddress, BitVec.msb_and, BitVec.msb_and, h3, h28, Bool.and_true, Bool.and_true]

/-! ## The period -/

/-- From any start every word comes exactly once in every `2 ^ 32` calls in a row, two calls have one result only
when their distance is a multiple of `2 ^ 32`, and the addresses of the walk have no shorter period either, even
from some call on. -/
theorem getRandom_full_period (lastValue : Word) :
    (∀ n v, ∃! k, k < 2 ^ 32 ∧ randomResult lastValue (n + k) = v) ∧
      (∀ i j, randomResult lastValue i = randomResult lastValue j ↔ i ≡ j [MOD 2 ^ 32]) ∧
      ∀ start p, (∀ n, start ≤ n →
        walkAddress (randomResult lastValue (n + p)) = walkAddress (randomResult lastValue n)) → 2 ^ 32 ∣ p := by
  refine ⟨?_, ?_, ?_⟩
  · intro n v
    have hshift : ∀ k, randomResult lastValue (n + k) =
        after multiplier increment k (randomResult lastValue n) := by
      intro k
      rw [randomResult_eq, randomResult_eq, ← after_add]
      congr 1
      omega
    simp only [hshift]
    exact maximal.existsUnique_after _ v
  · intro i j
    rw [randomResult_eq, randomResult_eq, maximal.after_eq_iff]
    constructor
    · exact Nat.ModEq.add_right_cancel' 1
    · exact Nat.ModEq.add_right 1
  · intro start p hwalk
    have hmsb : ∀ n, start + 1 ≤ n →
        (after multiplier increment (n + p) lastValue).msb = (after multiplier increment n lastValue).msb := by
      intro n hn
      obtain ⟨n, rfl⟩ := Nat.exists_eq_succ_of_ne_zero (show n ≠ 0 by omega)
      have hword := congrArg BitVec.msb (hwalk n (by omega))
      rw [walkAddress_msb, walkAddress_msb, randomResult_eq, randomResult_eq] at hword
      rw [Nat.succ_eq_add_one, Nat.add_right_comm]
      exact hword
    exact maximal.dvd_of_msb_periodic lastValue hmsb

end Td3.Kernel
