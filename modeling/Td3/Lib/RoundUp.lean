/-
Division of words rounded upwards by adding `d - 1` first, and its round trip with multiplication by `d`. Both wrap
around: they are exact just where nothing overflows.
-/
import Mathlib.Algebra.Order.Floor.Div
import Mathlib.Data.Nat.Basic
import Mathlib.Tactic.Ring

namespace Td3

section RoundUp

variable {w : Nat}

/-- `(x + (d - 1)) / d` -/
def divUp (d x : BitVec w) : BitVec w := (x + (d - 1)) / d

variable {d x v : BitVec w}

theorem toNat_sub_one (hd : 0 < d.toNat) : (d - 1).toNat = d.toNat - 1 := by
  have hone : 1 < 2 ^ w := by
    have hlt := d.isLt
    omega
  have h1 : (1 : BitVec w).toNat = 1 := by rw [BitVec.ofNat_eq_ofNat, BitVec.toNat_ofNat, Nat.mod_eq_of_lt hone]
  have hle : 1 ≤ d := by
    rw [BitVec.le_def, h1]
    exact hd
  rw [BitVec.toNat_sub_of_le hle, h1]

theorem divUp_of_lt (hd : 0 < d.toNat) (h : x.toNat + (d.toNat - 1) < 2 ^ w) :
    (divUp d x).toNat = (x.toNat + (d.toNat - 1)) / d.toNat := by
  rw [divUp, BitVec.toNat_udiv, BitVec.toNat_add, toNat_sub_one hd, Nat.mod_eq_of_lt h]

/-- After an overflow less than `d` is left. -/
theorem divUp_of_le (hd : 0 < d.toNat) (h : 2 ^ w ≤ x.toNat + (d.toNat - 1)) : (divUp d x).toNat = 0 := by
  have hx := x.isLt
  have hlt := d.isLt
  rw [divUp, BitVec.toNat_udiv, BitVec.toNat_add, toNat_sub_one hd, Nat.mod_eq_sub_mod h, Nat.mod_eq_of_lt (by omega)]
  exact Nat.div_eq_of_lt (by omega)

/-- The quotient is the ceiling just where the sum does not overflow. -/
theorem divUp_eq_ceilDiv_iff (hd : 0 < d.toNat) :
    (divUp d x).toNat = x.toNat ⌈/⌉ d.toNat ↔ x.toNat + (d.toNat - 1) < 2 ^ w := by
  have hceil : x.toNat ⌈/⌉ d.toNat = (x.toNat + (d.toNat - 1)) / d.toNat := by
    rw [Nat.ceilDiv_eq_add_pred_div, Nat.add_sub_assoc hd]
  rw [hceil]
  constructor
  · intro heq
    by_contra hover
    have hlt := d.isLt
    rw [divUp_of_le hd (by omega)] at heq
    have hpos : 0 < (x.toNat + (d.toNat - 1)) / d.toNat := Nat.div_pos (by omega) hd
    omega
  · exact divUp_of_lt hd

/-- A product comes back just where neither the multiplication nor the sum overflows. -/
theorem divUp_mul_iff (hd : 0 < d.toNat) : divUp d (v * d) = v ↔ v.toNat * d.toNat + (d.toNat - 1) < 2 ^ w := by
  constructor
  · intro heq
    have hval : (divUp d (v * d)).toNat = v.toNat := by rw [heq]
    have hprod : v.toNat * d.toNat < 2 ^ w := by
      rw [← hval, divUp, BitVec.toNat_udiv]
      exact (Nat.div_mul_le_self _ _).trans_lt (BitVec.isLt _)
    have hmul : (v * d).toNat = v.toNat * d.toNat := by rw [BitVec.toNat_mul, Nat.mod_eq_of_lt hprod]
    by_contra hover
    rw [divUp_of_le hd (by rw [hmul]; omega)] at hval
    have hlt := d.isLt
    rw [← hval] at hover
    omega
  · intro h
    have hmul : (v * d).toNat = v.toNat * d.toNat := by rw [BitVec.toNat_mul, Nat.mod_eq_of_lt (by omega)]
    apply BitVec.eq_of_toNat_eq
    rw [divUp_of_lt hd (by rw [hmul]; exact h), hmul, Nat.add_comm, Nat.add_mul_div_right _ _ hd,
      Nat.div_eq_of_lt (by omega), Nat.zero_add]

end RoundUp

end Td3
