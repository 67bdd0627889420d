/-
The clock that `cotti_i2c_init` programs (driver/src/cotti_i2c.c): PSC, SCLL and SCLH are computed in
32-bit words and written as bytes, with no test of the rates read. For every three rates they are what
the formulas give over the integers, and SCL does not run faster than asked, exactly where both
divisions come out even and their quotients fit the bytes: a remainder makes SCL too fast.
-/
import Td3.Driver.I2cInit
import Mathlib.Tactic

namespace Td3.Driver.I2cInit

open Probe

/-! ## The bytes written -/

/-- The byte written for `x - k` -/
def dividerByte (x k : U32) : Nat := (((x - k).setWidth 8).setWidth 32 : U32).toNat

/-- It is the exact difference where that fits a byte. -/
theorem dividerByte_eq_iff (x : U32) {k : U32} (hk : k.toNat < 256) :
    (dividerByte x k : ℤ) = x.toNat - k.toNat ↔ k.toNat ≤ x.toNat ∧ x.toNat ≤ k.toNat + 255 := by
  have hx := x.isLt
  rw [dividerByte, BitVec.toNat_setWidth, BitVec.toNat_setWidth, BitVec.toNat_sub]
  constructor
  · intro h
    omega
  · rintro ⟨hle, hle'⟩
    omega

/-- The rates, as naturals. -/
def InitValues.fclk (v : InitValues) : Nat := v.fclkRate.toNat
def InitValues.int (v : InitValues) : Nat := v.intClkRate.toNat
def InitValues.bit (v : InitValues) : Nat := v.bitRate.toNat

/-- The registers hold what the formulas give over the integers, and the frequency of SCL that follows
from them is at most the one asked for. -/
def ClockExact (v : InitValues) (writes : List IoWrite) : Prop :=
  ∃ psc scll sclh : Nat,
    (register .i2c I2C_REG_PSC writes).map (·.toNat) = some psc ∧
    (register .i2c I2C_REG_SCLL writes).map (·.toNat) = some scll ∧
    (register .i2c I2C_REG_SCLH writes).map (·.toNat) = some sclh ∧
    (psc : ℤ) = (v.fclk : ℤ) / v.int - 1 ∧
    (scll : ℤ) = (v.int : ℤ) / (2 * v.bit) - 7 ∧
    (sclh : ℤ) = (v.int : ℤ) / (2 * v.bit) - 5 ∧
    (v.fclk : ℚ) / ((psc + 1) * (scll + 7 + sclh + 5)) ≤ v.bit

/-- The call leaves through its labels or stops at an error pointer, or it divides by 0 nowhere and
programs the exact clock. -/
def ExactOrRefused (v : InitValues) (r : InitRun) : Prop :=
  (∃ retval, r.exit = .cleanup retval) ∨ r.exit = .errorPointer ∨
    r.exit ≠ .divisionByZero ∧ ClockExact v r.writes

/-- Both divisions come out even, with quotients that fit. -/
structure RatesFit (v : InitValues) : Prop where
  int_dvd : v.int ∣ v.fclk
  psc : 1 ≤ v.fclk / v.int ∧ v.fclk / v.int ≤ 256
  bit_dvd : 2 * v.bit ∣ v.int
  scl : 7 ≤ v.int / (2 * v.bit) ∧ v.int / (2 * v.bit) ≤ 260

/-- No divisor is 0 in 32 bits. -/
def DivisorsNonzero (v : InitValues) : Prop := v.intClkRate ≠ 0 ∧ v.bitRate * 2 ≠ 0

/-! ## When the clock is exact -/

variable {v : InitValues}

/-- SCL runs at `f / (p * 2q)` with the quotients `p` and `q`: at most `b` only without remainders. -/
theorem scl_le_iff {f i b p q : Nat} (hp : p = f / i) (hq : q = i / (2 * b)) (hp0 : 0 < p) (hq0 : 0 < q) :
    (f : ℚ) / (p * (q + q)) ≤ b ↔ i ∣ f ∧ 2 * b ∣ i := by
  have hpos : (0 : ℚ) < p * (q + q) := by
    have : (0 : ℚ) < p := by exact_mod_cast hp0
    have : (0 : ℚ) < q := by exact_mod_cast hq0
    positivity
  have hcast : (f : ℚ) / (p * (q + q)) ≤ b ↔ f ≤ p * (q * (2 * b)) := by
    rw [div_le_iff₀ hpos, ← @Nat.cast_le ℚ]
    push_cast
    rw [show (b : ℚ) * (p * (q + q)) = p * (q * (2 * b)) by ring]
  have hpi : p * i ≤ f := hp ▸ Nat.div_mul_le_self f i
  have hqb : q * (2 * b) ≤ i := hq ▸ Nat.div_mul_le_self i (2 * b)
  rw [hcast]
  constructor
  · intro h
    have hle : p * (q * (2 * b)) ≤ p * i := Nat.mul_le_mul_left p hqb
    have hi : q * (2 * b) = i := Nat.eq_of_mul_eq_mul_left hp0 (le_antisymm hle (hpi.trans h))
    have hf : p * i = f := le_antisymm hpi (by rw [← hi]; exact h)
    exact ⟨⟨p, by rw [← hf, Nat.mul_comm]⟩, ⟨q, by rw [← hi, Nat.mul_comm]⟩⟩
  · rintro ⟨hif, hbi⟩
    rw [hq, Nat.div_mul_cancel hbi, hp, Nat.div_mul_cancel hif]

theorem toNat_psc (v : InitValues) : (v.fclkRate / v.intClkRate).toNat = v.fclk / v.int := BitVec.toNat_udiv

/-- Below `2^31` the doubling does not wrap; from there on the quotient is 0. -/
theorem toNat_scl (h : v.bit < 2 ^ 31) : (v.intClkRate / (v.bitRate * 2)).toNat = v.int / (2 * v.bit) := by
  have hbit : (v.bitRate * 2).toNat = 2 * v.bit := by
    rw [BitVec.toNat_mul, show (2 : U32).toNat = 2 from rfl, Nat.mod_eq_of_lt, Nat.mul_comm]
    · rfl
    · change v.bit * 2 < 2 ^ 32
      omega
  rw [BitVec.toNat_udiv, hbit]
  rfl

theorem scl_eq_zero (h : 2 ^ 31 ≤ v.bit) : v.int / (2 * v.bit) = 0 := by
  have hint : v.int < 2 ^ 32 := v.intClkRate.isLt
  exact Nat.div_eq_of_lt (by omega)

/-- What the formulas give over the integers are the quotients less a constant. -/
theorem dividers_cast (v : InitValues) : ((v.fclk : ℤ) / v.int = (v.fclk / v.int : Nat)) ∧
    (v.int : ℤ) / (2 * v.bit) = (v.int / (2 * v.bit) : Nat) := by
  constructor
  · rw [Int.natCast_ediv]
  · rw [Int.natCast_ediv]
    rfl

/-- The registers after the writes of `enableWrites` are exact just where the rates fit. -/
theorem clockExact_iff (ws : List IoWrite) : ClockExact v (ws ++ enableWrites (v.fclkRate / v.intClkRate - 1)
    (v.intClkRate / (v.bitRate * 2) - 7) (v.intClkRate / (v.bitRate * 2) - 5)) ↔ RatesFit v := by
  obtain ⟨hpsc, hscll, hsclh, -, -⟩ := register_enableWrites ws (v.fclkRate / v.intClkRate - 1)
    (v.intClkRate / (v.bitRate * 2) - 7) (v.intClkRate / (v.bitRate * 2) - 5)
  have hp := dividerByte_eq_iff (v.fclkRate / v.intClkRate) (k := 1) (by decide)
  rw [toNat_psc, show (1 : U32).toNat = 1 from rfl] at hp
  obtain ⟨hpcast, hqcast⟩ := dividers_cast v
  rw [ClockExact, hpsc, hscll, hsclh, hpcast, hqcast]
  rcases Nat.lt_or_ge v.bit (2 ^ 31) with hbit | hbit
  swap
  · -- the doubling wraps, and the exact quotient is 0
    rw [scl_eq_zero hbit]
    refine iff_of_false ?_ ?_
    · rintro ⟨psc, scll, sclh, -, -, -, -, hscll, -⟩
      omega
    · rintro ⟨-, -, -, hscl⟩
      rw [scl_eq_zero hbit] at hscl
      omega
  have hl := dividerByte_eq_iff (v.intClkRate / (v.bitRate * 2)) (k := 7) (by decide)
  have hh := dividerByte_eq_iff (v.intClkRate / (v.bitRate * 2)) (k := 5) (by decide)
  rw [toNat_scl hbit, show (7 : U32).toNat = 7 from rfl] at hl
  rw [toNat_scl hbit, show (5 : U32).toNat = 5 from rfl] at hh
  -- once the bytes are exact, the divisor of SCL is made of the two quotients
  have hdivisor : ∀ psc scll sclh : Nat, (psc : ℤ) = (v.fclk / v.int : Nat) - 1 →
      (scll : ℤ) = (v.int / (2 * v.bit) : Nat) - 7 → (sclh : ℤ) = (v.int / (2 * v.bit) : Nat) - 5 →
      ((psc : ℚ) + 1) * (scll + 7 + sclh + 5) =
        (v.fclk / v.int : Nat) * ((v.int / (2 * v.bit) : Nat) + (v.int / (2 * v.bit) : Nat)) := by
    intro psc scll sclh hpsc hscll hsclh
    have h1 : psc + 1 = v.fclk / v.int := by omega
    have h2 : scll + 7 = v.int / (2 * v.bit) := by omega
    have h3 : sclh + 5 = v.int / (2 * v.bit) := by omega
    rw [add_assoc ((scll : ℚ) + 7), ← h1]
    nth_rewrite 1 [← h2]
    rw [← h3]
    push_cast
    ring
  constructor
  · rintro ⟨psc, scll, sclh, hb1, hb2, hb3, hpsc', hscll', hsclh', hscl⟩
    obtain rfl := Option.some.inj hb1
    obtain rfl := Option.some.inj hb2
    obtain rfl := Option.some.inj hb3
    obtain ⟨hp1, hp2⟩ := hp.1 hpsc'
    obtain ⟨hl1, -⟩ := hl.1 hscll'
    obtain ⟨-, hh2⟩ := hh.1 hsclh'
    rw [hdivisor _ _ _ hpsc' hscll' hsclh', scl_le_iff rfl rfl (by omega) (by omega)] at hscl
    exact ⟨hscl.1, ⟨hp1, hp2⟩, hscl.2, ⟨hl1, hh2⟩⟩
  · rintro ⟨hint, hpsc, hdvd, hscl⟩
    have hpsc' := hp.2 hpsc
    have hscll' := hl.2 ⟨hscl.1, hscl.2.trans (by decide)⟩
    have hsclh' := hh.2 ⟨le_trans (by decide) hscl.1, hscl.2⟩
    refine ⟨_, _, _, rfl, rfl, rfl, hpsc', hscll', hsclh', ?_⟩
    exact (hdivisor _ _ _ hpsc' hscll' hsclh').symm ▸ (scl_le_iff rfl rfl (by omega) (by omega)).2 ⟨hint, hdvd⟩

theorem clockDividers_eq_none_iff : clockDividers v = none ↔ ¬ DivisorsNonzero v := by
  rw [clockDividers, DivisorsNonzero]
  split_ifs with hint hbit
  · exact iff_of_true rfl fun h => h.1 hint
  · exact iff_of_true rfl fun h => h.2 hbit
  · exact iff_of_false nofun fun h => h ⟨hint, hbit⟩

theorem clockDividers_eq_some {d : U32 × U32 × U32} (h : clockDividers v = some d) :
    DivisorsNonzero v ∧ d = (v.fclkRate / v.intClkRate - 1, v.intClkRate / (v.bitRate * 2) - 7,
      v.intClkRate / (v.bitRate * 2) - 5) := by
  constructor
  · by_contra hzero
    rw [clockDividers_eq_none_iff.2 hzero] at h
    cases h
  · rw [clockDividers] at h
    split_ifs at h
    exact (Option.some.inj h).symm

/-- The clock is exact or refused exactly if a call that comes past the reset of the controller finds no
divisor that is 0, and one that then gets its interrupt finds rates that fit. -/
theorem exactOrRefused_iff (o : ProbeResults) (v : InitValues) (s : ProbeState) :
    ExactOrRefused v (cottiI2cInit o v { s with log := [] }) ↔
      (o.MapsI2c ∧ o.Resets → DivisorsNonzero v ∧ (o.HasIrq → RatesFit v)) := by
  have hrefused : ∀ {r : InitRun}, Fails r → ExactOrRefused v r := by
    rintro r (⟨retval, -, hexit, -⟩ | hexit)
    · exact .inl ⟨retval, hexit⟩
    · exact .inr (.inl hexit)
  rcases mapController_cases o v (s := { s with log := [] }) rfl with ⟨hmap, r, hr, hfails⟩ | ⟨hmap, t, ht, hmapped⟩
  · rw [cottiI2cInit, hr]
    exact iff_of_true (hrefused hfails) fun h => absurd h.1 hmap
  · rw [cottiI2cInit, ht]
    show ExactOrRefused v (setupController o v 0 t) ↔ _
    rcases setupController_cases o v hmapped with ⟨hreset, hexit⟩ | ⟨hreset, hdiv, hexit, -⟩ |
        ⟨psc, scll, sclh, hreset, hdiv, ⟨hirq, hfails⟩ | ⟨hirq, hexit, -, ws, hwrites⟩⟩
    · exact iff_of_true (.inl ⟨0, hexit⟩) fun h => absurd h.2 hreset
    · refine iff_of_false ?_ fun h => clockDividers_eq_none_iff.1 hdiv (h ⟨hmap, hreset⟩).1
      rw [ExactOrRefused, hexit]
      rintro (⟨retval, h⟩ | h | ⟨h, -⟩)
      · cases h
      · cases h
      · exact h rfl
    · exact iff_of_true (hrefused hfails) fun _ => ⟨(clockDividers_eq_some hdiv).1, fun h => absurd h hirq⟩
    · obtain ⟨hnonzero, hd⟩ := clockDividers_eq_some hdiv
      cases hd
      have hexact : ExactOrRefused v (setupController o v 0 t) ↔ RatesFit v := by
        rw [ExactOrRefused, hexit, hwrites, clockExact_iff]
        constructor
        · rintro (⟨retval, h⟩ | h | ⟨-, h⟩)
          · cases h
          · cases h
          · exact h
        · intro h
          refine .inr (.inr ⟨?_, h⟩)
          intro hdiv
          cases hdiv
      rw [hexact]
      constructor
      · intro h _
        exact ⟨hnonzero, fun _ => h⟩
      · intro h
        exact (h ⟨hmap, hreset⟩).2 hirq

/-- The board's rates, with a bit rate of 0. -/
theorem not_exactOrRefused : ¬ ∀ (o : ProbeResults) (v : InitValues) (s : ProbeState),
    ExactOrRefused v (cottiI2cInit o v { s with log := [] }) := by
  intro h
  have hexit : (cottiI2cInit {} { exampleValues with bitRate := 0 } { log := [] }).exit = .divisionByZero := by
    decide
  rcases h {} { exampleValues with bitRate := 0 } {} with ⟨retval, hcleanup⟩ | herror | ⟨hdiv, -⟩
  · rw [hexit] at hcleanup
    cases hcleanup
  · rw [hexit] at herror
    cases herror
  · exact hdiv hexit

/-- The board's own rates fit. -/
example : RatesFit exampleValues := by constructor <;> decide

end Td3.Driver.I2cInit
