/-
Signed 32-bit words against the integers: an operation whose exact result is representable gives
that result, and an arithmetic right shift is a floor division.
-/
import Mathlib.Tactic

namespace Td3.Int32

/-- The integers a signed 32-bit word represents. -/
def InRange (i : Int) : Prop := -2 ^ 31 ≤ i ∧ i < 2 ^ 31

instance (i : Int) : Decidable (InRange i) := inferInstanceAs (Decidable (_ ∧ _))

theorem bmod_eq {i : Int} (h : InRange i) : i.bmod (2 ^ 32) = i :=
  Int.bmod_eq_of_le (by have := h.1; omega) (by have := h.2; omega)

theorem toInt_add {x y : BitVec 32} (h : InRange (x.toInt + y.toInt)) : (x + y).toInt = x.toInt + y.toInt := by
  rw [BitVec.toInt_add, bmod_eq h]

theorem toInt_sub {x y : BitVec 32} (h : InRange (x.toInt - y.toInt)) : (x - y).toInt = x.toInt - y.toInt := by
  rw [BitVec.toInt_sub, bmod_eq h]

theorem toInt_mul {x y : BitVec 32} (h : InRange (x.toInt * y.toInt)) : (x * y).toInt = x.toInt * y.toInt := by
  rw [BitVec.toInt_mul, bmod_eq h]

theorem toInt_sshiftRight (x : BitVec 32) (n : Nat) : (x.sshiftRight n).toInt = x.toInt / 2 ^ n := by
  rw [BitVec.toInt_sshiftRight, Int.shiftRight_eq_div_pow]
  norm_cast

/-- A word below `2^31` is its natural number. -/
theorem toInt_of_lt {x : BitVec 32} {n : Nat} (h : x.toNat = n) (hn : n < 2 ^ 31) : x.toInt = n := by
  rw [BitVec.toInt_eq_toNat_of_lt (by omega), h]

end Td3.Int32
