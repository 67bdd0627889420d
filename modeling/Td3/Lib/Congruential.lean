/-
Linear congruential sequences on words of `w` bits: every word is `a` times the one before plus `c`, with
wrap-around. `n` steps add `1 + a + … + a ^ (n - 1)` times the first difference. When 4 divides `a - 1` the sum has
as many factors 2 as `n` (lifting the exponent), so with an odd `c` the sequence comes back after a multiple of `2 ^ w`
steps and never between, and it takes every value on the way.
-/
import Mathlib.NumberTheory.Multiplicity
import Mathlib.Algebra.Ring.GeomSum
import Mathlib.Data.BitVec
import Mathlib.Tactic.Ring
import Mathlib.Data.Fintype.Card
import Mathlib.Tactic.NormNum

namespace Td3.Congruential

/-! ## Sums of powers -/

/-- The sum of the first `n` powers. -/
def powerSum {R : Type} [CommRing R] (a : R) (n : Nat) : R := ∑ i ∈ Finset.range n, a ^ i

theorem powerSum_succ {R : Type} [CommRing R] (a : R) (n : Nat) : powerSum a (n + 1) = powerSum a n + a ^ n :=
  Finset.sum_range_succ ..

theorem powerSum_mul {R : Type} [CommRing R] (a : R) (n : Nat) : powerSum a n * (a - 1) = a ^ n - 1 :=
  geom_sum_mul a n

theorem emultiplicity_powerSum {a : ℤ} (ha : 4 ∣ a - 1) (n : Nat) :
    emultiplicity 2 (powerSum a n) = emultiplicity 2 (n : ℤ) := by
  by_cases h1 : a = 1
  · subst h1
    simp [powerSum]
  have hodd : ¬2 ∣ a := by omega
  have hlift := Int.two_pow_sub_pow' n ha hodd
  rw [one_pow, ← powerSum_mul, emultiplicity_mul Int.prime_two, add_comm] at hlift
  have hfinite : FiniteMultiplicity 2 (a - 1) := Int.finiteMultiplicity_iff.mpr ⟨by decide, sub_ne_zero.mpr h1⟩
  exact ENat.add_right_injective_of_ne_top (finiteMultiplicity_iff_emultiplicity_ne_top.mp hfinite) hlift

/-- The sum of `n` powers is a multiple of `2 ^ k` when `n` is. -/
theorem two_pow_dvd_powerSum {a : ℤ} (ha : 4 ∣ a - 1) (k n : Nat) : 2 ^ k ∣ powerSum a n ↔ 2 ^ k ∣ n := by
  rw [pow_dvd_iff_le_emultiplicity, emultiplicity_powerSum ha, ← pow_dvd_iff_le_emultiplicity]
  exact_mod_cast Iff.rfl

/-! ## The sequence -/

section Sequence

variable {w : Nat} (a c : BitVec w)

/-- One step. -/
def next (x : BitVec w) : BitVec w := a * x + c

/-- The word after `n` steps from `x`. -/
def after (n : Nat) (x : BitVec w) : BitVec w := (next a c)^[n] x

theorem after_add (m n : Nat) (x : BitVec w) : after a c (m + n) x = after a c m (after a c n x) :=
  Function.iterate_add_apply ..

theorem after_succ (n : Nat) (x : BitVec w) : after a c (n + 1) x = next a c (after a c n x) :=
  Function.iterate_succ_apply' ..

theorem after_eq (n : Nat) (x : BitVec w) : after a c n x = x + powerSum a n * ((a - 1) * x + c) := by
  induction n with
  | zero => simp [after, powerSum]
  | succ n ih =>
    have hpow : a ^ n = powerSum a n * (a - 1) + 1 := by rw [powerSum_mul]; ring
    rw [after_succ, ih, next, powerSum_succ, hpow]
    ring

end Sequence

/-! ## Words as residues -/

section Residues

variable {w : Nat}

theorem intCast_toNat (x : BitVec w) : ((x.toNat : ℤ) : BitVec w) = x := by
  rw [Int.cast_natCast, BitVec.natCast_eq_ofNat, BitVec.ofNat_toNat, BitVec.setWidth_eq]

theorem intCast_eq_zero_iff (z : ℤ) : (z : BitVec w) = 0 ↔ 2 ^ w ∣ z := by
  rw [← BitVec.toInt_inj, BitVec.toInt_intCast, show (0 : BitVec w).toInt = 0 by simp, ← Int.dvd_iff_bmod_eq_zero]
  norm_num

theorem powerSum_intCast (z : ℤ) (n : Nat) : powerSum (z : BitVec w) n = (powerSum z n : ℤ) := by
  simp [powerSum]

end Residues

/-! ## The period -/

/-- The multiplier is one more than a multiple of 4 and the increment is odd. -/
structure Maximal {w : Nat} (a c : BitVec w) : Prop where
  multiplier : a.toNat % 4 = 1
  increment : c.toNat % 2 = 1

section Period

variable {w : Nat} {a c : BitVec w}

/-- What `n` steps add is the sum of `n` powers times an odd number. -/
theorem Maximal.exists_odd (h : Maximal a c) (n : Nat) (x : BitVec w) :
    ∃ d : ℤ, ¬2 ∣ d ∧ after a c n x = x + (powerSum (a.toNat : ℤ) n * d : ℤ) := by
  obtain ⟨ha, hc⟩ := h
  refine ⟨((a.toNat : ℤ) - 1) * x.toNat + c.toNat, ?_, ?_⟩
  · have heven : 2 ∣ ((a.toNat : ℤ) - 1) * x.toNat := Dvd.dvd.mul_right (by omega) _
    omega
  · rw [after_eq, Int.cast_mul, ← powerSum_intCast, Int.cast_add, Int.cast_mul, Int.cast_sub, Int.cast_one,
      intCast_toNat, intCast_toNat, intCast_toNat]

theorem two_pow_dvd_mul_odd {d : ℤ} (hd : ¬2 ∣ d) (k : Nat) (z : ℤ) : 2 ^ k ∣ z * d ↔ 2 ^ k ∣ z := by
  constructor
  · exact Int.prime_two.pow_dvd_of_dvd_mul_right k hd
  · exact fun h => Dvd.dvd.mul_right h d

theorem Maximal.four_dvd (h : Maximal a c) : (4 : ℤ) ∣ (a.toNat : ℤ) - 1 := by
  have := h.multiplier
  omega

theorem Maximal.after_eq_self_iff (h : Maximal a c) (n : Nat) (x : BitVec w) : after a c n x = x ↔ 2 ^ w ∣ n := by
  obtain ⟨d, hd, heq⟩ := h.exists_odd n x
  rw [heq, add_eq_left, intCast_eq_zero_iff, two_pow_dvd_mul_odd hd, two_pow_dvd_powerSum h.four_dvd]

/-- Two words of a sequence are the same exactly when their distance is a multiple of `2 ^ w`. -/
theorem Maximal.after_eq_iff (h : Maximal a c) (i j : Nat) (x : BitVec w) :
    after a c i x = after a c j x ↔ i ≡ j [MOD 2 ^ w] := by
  wlog hij : j ≤ i with hsymm
  · rw [eq_comm, hsymm h j i x (by omega), Nat.ModEq.comm]
  obtain ⟨d, rfl⟩ := Nat.exists_eq_add_of_le hij
  rw [add_comm, after_add, h.after_eq_self_iff, Nat.ModEq.comm, Nat.modEq_iff_dvd' (by omega), Nat.add_sub_cancel]

theorem Maximal.injective (h : Maximal a c) (x : BitVec w) :
    Function.Injective fun k : Fin (2 ^ w) => after a c k x := by
  intro i j hij
  have hmod := (h.after_eq_iff i j x).mp hij
  exact Fin.ext (Nat.ModEq.eq_of_lt_of_lt hmod i.isLt j.isLt)

/-- Every word is met exactly once in `2 ^ w` steps. -/
theorem Maximal.existsUnique_after (h : Maximal a c) (x v : BitVec w) : ∃! k, k < 2 ^ w ∧ after a c k x = v := by
  have hbij : Function.Bijective fun k : Fin (2 ^ w) => BitVec.equivFin (after a c k x) :=
    Finite.injective_iff_bijective.mp (BitVec.equivFin.injective.comp (h.injective x))
  obtain ⟨k, hk⟩ := hbij.surjective (BitVec.equivFin v)
  have hv : after a c k x = v := BitVec.equivFin.injective hk
  refine ⟨k, ⟨k.isLt, hv⟩, ?_⟩
  rintro j ⟨hj, hjv⟩
  have hmod := (h.after_eq_iff j k x).mp (hjv.trans hv.symm)
  exact Nat.ModEq.eq_of_lt_of_lt hmod hj k.isLt

end Period

/-! ## The top bit -/

section TopBit

/-- A number that is no multiple of `2 ^ (w + 1)` has a multiple half way round. -/
theorem exists_mul_modEq_half {w p : Nat} (h : ¬2 ^ (w + 1) ∣ p) : ∃ m, m * p ≡ 2 ^ w [MOD 2 ^ (w + 1)] := by
  obtain ⟨j, hj, hgcd⟩ := (Nat.dvd_prime_pow Nat.prime_two).mp (Nat.gcd_dvd_right p (2 ^ (w + 1)))
  have hne : j ≠ w + 1 := by
    rintro rfl
    exact h (hgcd ▸ Nat.gcd_dvd_left ..)
  have hlt : Nat.gcd p (2 ^ (w + 1)) < 2 ^ (w + 1) := by
    rw [hgcd]
    exact Nat.pow_lt_pow_right (by decide) (by omega)
  obtain ⟨m, hm⟩ := Nat.exists_mul_mod_eq_gcd hlt
  refine ⟨m * 2 ^ (w - j), ?_⟩
  have hmod : p * m ≡ 2 ^ j [MOD 2 ^ (w + 1)] := by
    rw [← hgcd, ← hm.2]
    exact (Nat.mod_modEq _ _).symm
  calc m * 2 ^ (w - j) * p = p * m * 2 ^ (w - j) := by ring
    _ ≡ 2 ^ j * 2 ^ (w - j) [MOD 2 ^ (w + 1)] := hmod.mul_right _
    _ = 2 ^ w := by rw [← Nat.pow_add, show j + (w - j) = w by omega]

variable {w : Nat} {a c : BitVec (w + 1)}

theorem intCast_two_pow_mul_odd {m : ℤ} (hm : ¬2 ∣ m) :
    ((2 ^ w * m : ℤ) : BitVec (w + 1)) = BitVec.twoPow (w + 1) w := by
  have heven : (2 : ℤ) ^ (w + 1) ∣ 2 ^ w * m - 2 ^ w := by
    rw [pow_succ, ← mul_sub_one]
    exact mul_dvd_mul_left _ (by omega)
  have htop : ((2 ^ w * m : ℤ) : BitVec (w + 1)) = ((2 ^ w : ℤ) : BitVec (w + 1)) := by
    rw [← sub_eq_zero, ← Int.cast_sub, intCast_eq_zero_iff]
    exact heven
  have hcast : ((2 ^ w : ℤ) : BitVec (w + 1)) = BitVec.ofNat (w + 1) (2 ^ w) := by
    rw [← BitVec.natCast_eq_ofNat]
    push_cast
    rfl
  rw [htop, hcast]
  apply BitVec.eq_of_toNat_eq
  rw [BitVec.toNat_ofNat, BitVec.toNat_twoPow]

/-- Half a period adds half the range. -/
theorem Maximal.after_half (h : Maximal a c) (x : BitVec (w + 1)) :
    after a c (2 ^ w) x = x + BitVec.twoPow (w + 1) w := by
  obtain ⟨d, hd, heq⟩ := h.exists_odd (2 ^ w) x
  have hlow : (2 : ℤ) ^ w ∣ powerSum (a.toNat : ℤ) (2 ^ w) * d :=
    (two_pow_dvd_mul_odd hd w _).mpr ((two_pow_dvd_powerSum h.four_dvd w _).mpr dvd_rfl)
  have hhigh : ¬(2 : ℤ) ^ (w + 1) ∣ powerSum (a.toNat : ℤ) (2 ^ w) * d := by
    rw [two_pow_dvd_mul_odd hd, two_pow_dvd_powerSum h.four_dvd, Nat.pow_dvd_pow_iff_le_right']
    omega
  obtain ⟨m, hm⟩ := hlow
  rw [hm] at heq hhigh
  have hodd : ¬2 ∣ m := by
    intro hdvd
    exact hhigh (pow_succ (2 : ℤ) w ▸ mul_dvd_mul_left _ hdvd)
  rw [heq, intCast_two_pow_mul_odd hodd]

theorem Maximal.msb_after_half (h : Maximal a c) (x : BitVec (w + 1)) : (after a c (2 ^ w) x).msb = !x.msb := by
  rw [h.after_half, BitVec.msb_eq_decide, BitVec.msb_eq_decide, BitVec.toNat_add, BitVec.toNat_twoPow_of_lt (by omega)]
  have hx := x.isLt
  have hpow : 2 ^ (w + 1) = 2 ^ w + 2 ^ w := by rw [Nat.pow_succ]; omega
  rw [hpow] at hx ⊢
  rw [Nat.add_sub_cancel]
  by_cases hge : 2 ^ w ≤ x.toNat
  · rw [Nat.mod_eq_sub_mod (by omega), Nat.mod_eq_of_lt (by omega)]
    simp [hge]
    omega
  · rw [Nat.mod_eq_of_lt (by omega)]
    simp [hge]

/-- The top bit alone already has no period below `2 ^ (w + 1)`, however late it is looked at. -/
theorem Maximal.dvd_of_msb_periodic (h : Maximal a c) (x : BitVec (w + 1)) {start p : Nat}
    (hp : ∀ n, start ≤ n → (after a c (n + p) x).msb = (after a c n x).msb) : 2 ^ (w + 1) ∣ p := by
  by_contra hnot
  have hmul : ∀ m n, start ≤ n → (after a c (n + m * p) x).msb = (after a c n x).msb := by
    intro m
    induction m with
    | zero =>
      intro n hn
      simp only [Nat.zero_mul, Nat.add_zero]
    | succ m ih =>
      intro n hn
      rw [Nat.succ_mul, ← Nat.add_assoc, hp _ (by omega), ih n hn]
  obtain ⟨m, hm⟩ := exists_mul_modEq_half hnot
  have hsame : after a c (start + m * p) x = after a c (start + 2 ^ w) x :=
    (h.after_eq_iff _ _ x).mpr (Nat.ModEq.add_left start hm)
  have hflip := hmul m start le_rfl
  rw [hsame, show start + 2 ^ w = 2 ^ w + start from Nat.add_comm .., after_add, h.msb_after_half] at hflip
  exact Bool.not_ne_self _ hflip

end TopBit

end Td3.Congruential
