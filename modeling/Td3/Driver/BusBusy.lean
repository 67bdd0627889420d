/-
`prv_wait_for_bus_busy` (cotti_i2c.c) over the status words and the mutex states its polls see. The test of BB goes
through a helper that returns a `u8`, and BB is bit 12: the wait never sees it and ends with the first poll that finds
the mutex free, whatever the bus does.
-/
import Td3.Driver.I2cSequence

namespace Td3.Driver

section

variable (status : Nat → BitVec 16) (locked : Nat → Bool)

/-- The loop from poll `n` on, with `i` in its counter: what it returns, and its last poll. -/
def busBusyLoop (n : Nat) (i : BitVec 8) : Int × Nat :=
  if prvIsIrqTriggered (status n) I2C_IRQ_BB ≠ 0 ∨ locked n = true then
    if i = 100 then (-1, n) else busBusyLoop (n + 1) (i + 1)
  else (0, n)
termination_by (100 - i).toNat
decreasing_by bv_omega

/-- Poll `n` reads status word `status n`, and the mutex as `locked n` says. -/
def prvWaitForBusBusy : Int × Nat := busBusyLoop status locked 0 0

/-- Poll `k` sees a free bus: BB clear, and nobody with the mutex. -/
def FreeAt (k : Nat) : Prop := (status k).getLsbD 12 = false ∧ locked k = false

instance (k : Nat) : Decidable (FreeAt status locked k) := by unfold FreeAt; infer_instance

/-- The wait succeeds just when one of its polls sees a free bus, and the last word it read then has BB clear. -/
structure BusWaitSound : Prop where
  result : (prvWaitForBusBusy status locked).1 = if ∃ k ≤ 100, FreeAt status locked k then 0 else -1
  last : (prvWaitForBusBusy status locked).1 = 0 → (status (prvWaitForBusBusy status locked).2).getLsbD 12 = false

variable {status locked}

/-- A round of the loop looks at the mutex alone. -/
theorem busBusyLoop_round (n : Nat) (i : BitVec 8) : busBusyLoop status locked n i =
    if locked n = true then if i = 100 then (-1, n) else busBusyLoop status locked (n + 1) (i + 1) else (0, n) := by
  rw [busBusyLoop]
  simp only [prvIsIrqTriggered_bb, ne_eq, not_true_eq_false, false_or]

/-- Poll `k` ends the wait that starts with poll `n`. -/
def FirstUnlocked (locked : Nat → Bool) (n k : Nat) : Prop :=
  n ≤ k ∧ k ≤ 100 ∧ locked k = false ∧ ∀ j, n ≤ j → j < k → locked j = true

/-- The polls that are left, by induction on their number: the first that finds the mutex free ends the wait, and
poll 100 ends it otherwise. -/
theorem busBusyLoop_cases {n left : Nat} (hn : n + left = 100) :
    (∃ k, FirstUnlocked locked n k ∧ busBusyLoop status locked n (BitVec.ofNat 8 n) = (0, k)) ∨
      (∀ k, n ≤ k → k ≤ 100 → locked k = true) ∧ busBusyLoop status locked n (BitVec.ofNat 8 n) = (-1, 100) := by
  induction left generalizing n with
  | zero =>
    obtain rfl : n = 100 := hn
    rw [busBusyLoop_round]
    cases hlock : locked 100 with
    | false => exact .inl ⟨100, ⟨le_rfl, le_rfl, hlock, fun j hj hj' => by omega⟩, rfl⟩
    | true => exact .inr ⟨fun k hk hk' => by rwa [show k = 100 by omega], rfl⟩
  | succ left ih =>
    have hi : BitVec.ofNat 8 n ≠ 100 := by bv_omega
    have hnext : BitVec.ofNat 8 n + 1 = BitVec.ofNat 8 (n + 1) := (BitVec.ofNat_add ..).symm
    rw [busBusyLoop_round]
    cases hlock : locked n with
    | false => exact .inl ⟨n, ⟨le_rfl, by omega, hlock, fun j hj hj' => by omega⟩, rfl⟩
    | true =>
      rw [if_pos rfl, if_neg hi, hnext]
      have hext : ∀ {P : Nat → Prop}, (∀ j, n + 1 ≤ j → P j → locked j = true) → ∀ j, n ≤ j → P j → locked j = true := by
        intro P hrest j hj hP
        rcases Nat.eq_or_lt_of_le hj with rfl | hlt
        · exact hlock
        · exact hrest j hlt hP
      rcases ih (n := n + 1) (by omega) with ⟨k, ⟨hk, hk100, hfree, hbefore⟩, hrun⟩ | ⟨hall, hrun⟩
      · exact .inl ⟨k, ⟨by omega, hk100, hfree, hext hbefore⟩, hrun⟩
      · exact .inr ⟨hext hall, hrun⟩

theorem FirstUnlocked.unique {n k k' : Nat} (h : FirstUnlocked locked n k) (h' : FirstUnlocked locked n k') : k = k' := by
  obtain ⟨hn, -, hfree, hbefore⟩ := h
  obtain ⟨hn', -, hfree', hbefore'⟩ := h'
  by_contra hne
  rcases Nat.lt_or_gt_of_ne hne with hlt | hlt
  · exact absurd (hbefore' k hn hlt) (by simp [hfree])
  · exact absurd (hbefore k' hn' hlt) (by simp [hfree'])

/-- The wait ends with 0 at the first poll that finds the mutex free. -/
theorem prvWaitForBusBusy_cases :
    (∃ k, FirstUnlocked locked 0 k ∧ prvWaitForBusBusy status locked = (0, k)) ∨
      (∀ k ≤ 100, locked k = true) ∧ prvWaitForBusBusy status locked = (-1, 100) := by
  rcases @busBusyLoop_cases status locked 0 100 rfl with h | ⟨hall, hrun⟩
  · exact .inl h
  · exact .inr ⟨fun k hk => hall k (Nat.zero_le k) hk, hrun⟩

/-- The wait is sound exactly where the poll that finds the mutex free first, if one of the first 101 does, has BB
clear in its status word. -/
theorem busWaitSound_iff (status : Nat → BitVec 16) (locked : Nat → Bool) :
    BusWaitSound status locked ↔ ∀ k, FirstUnlocked locked 0 k → (status k).getLsbD 12 = false := by
  constructor
  · rintro ⟨-, hlast⟩ k hk
    rcases @prvWaitForBusBusy_cases status locked with ⟨k', hk', hrun⟩ | ⟨hall, -⟩
    · rw [hrun] at hlast
      rw [hk.unique hk']
      exact hlast rfl
    · exact absurd (hall k hk.2.1) (by simp [hk.2.2.1])
  · intro hclear
    rcases @prvWaitForBusBusy_cases status locked with ⟨k, hk, hrun⟩ | ⟨hall, hrun⟩
    · have hfree : ∃ k ≤ 100, FreeAt status locked k := ⟨k, hk.2.1, hclear k hk, hk.2.2.1⟩
      constructor
      · rw [hrun, if_pos hfree]
      · intro _
        rw [hrun]
        exact hclear k hk
    · constructor
      · rw [hrun, if_neg]
        rintro ⟨k, hk, -, hfree⟩
        exact absurd (hall k hk) (by simp [hfree])
      · intro hzero
        rw [hrun] at hzero
        cases hzero

/-- The bus is busy at every poll, the mutex is free: the wait returns 0. -/
theorem not_busWaitSound : ¬∀ status locked, BusWaitSound status locked := by
  intro h
  rcases @prvWaitForBusBusy_cases (fun _ => I2C_IRQ_BB) (fun _ => false) with ⟨k, -, hrun⟩ | ⟨hall, -⟩
  · have hlast := (h (fun _ => I2C_IRQ_BB) fun _ => false).last
    rw [hrun] at hlast
    exact absurd (hlast rfl) (by decide)
  · exact absurd (hall 0 (by decide)) (by decide)

/-! ## The wait inside a call -/

section Call

variable {ι : Type} [DecidableEq ι]

theorem callStep_poll (i : ι) (calls : Nat) (r : Request) (o : Outcome) (lock : Option ι) (d : Dev ι) (n : Nat) :
    callStep i calls r o lock d (.poll n) =
      some (if lock.isSome then if n = 100 then .returned r (-1) else .running r (.poll (n + 1)) else .running r .lock,
        lock, d) := by
  rw [callStep, prvIsIrqTriggered_bb]
  cases hlock : lock.isSome with
  | false => simp
  | true =>
    simp only [or_true, if_true]
    split_ifs <;> rfl

/-- The polls of a call of the driver are those of the wait, and the last leads to the mutex or out of the call. -/
theorem callStep_polls (i : ι) (calls : Nat) (r : Request) (o : Outcome) (lock : Nat → Option ι) (dev : Nat → Dev ι)
    {value : Int} {last : Nat}
    (h : prvWaitForBusBusy (fun k => (dev k).status.word) (fun k => (lock k).isSome) = (value, last)) :
    (∀ k < last, callStep i calls r o (lock k) (dev k) (.poll k) = some (.running r (.poll (k + 1)), lock k, dev k)) ∧
      callStep i calls r o (lock last) (dev last) (.poll last) =
        some (if value = 0 then .running r .lock else .returned r (-1), lock last, dev last) := by
  rcases @prvWaitForBusBusy_cases (fun k => (dev k).status.word) (fun k => (lock k).isSome) with
    ⟨k, ⟨-, hk100, hfree, hbefore⟩, hrun⟩ | ⟨hall, hrun⟩
  · obtain ⟨rfl, rfl⟩ := Prod.mk.inj (hrun.symm.trans h)
    constructor
    · intro j hj
      rw [callStep_poll, if_pos (hbefore j (Nat.zero_le j) hj), if_neg (by omega)]
    · rw [callStep_poll, if_neg (Bool.eq_false_iff.mp hfree), if_pos rfl]
  · obtain ⟨rfl, rfl⟩ := Prod.mk.inj (hrun.symm.trans h)
    constructor
    · intro j hj
      rw [callStep_poll, if_pos (hall j (by omega)), if_neg (by omega)]
    · rw [callStep_poll, if_pos (hall 100 le_rfl), if_pos rfl, if_neg (by decide)]

end Call

end

end Td3.Driver
