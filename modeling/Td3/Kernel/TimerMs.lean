/-
`__timer_load_ms` and `__timer_time_ms`: milliseconds to ticks of the timer and back. Both compute in 32 bits. The
product overflows above 4294967 ms, and the 999 that round upwards overflow for a counter among the last 999 values,
where a free-running timer starts: it then has 0 ms left.
-/
import Td3.Kernel.Timer
import Td3.Lib.RoundUp

namespace Td3.Kernel.Devices

open Arm

def timerLoadMs (timer : Fin 8) (value : Word) : Devices → Devices := timerLoadUs timer (value * 1000)

/-- 1 tick is 1 us. -/
def timerTimeMs (timer : Fin 8) (d : Devices) : Word := ((d.timers timer).regs.value + 999) / 1000

variable {timer : Fin 8} {d : Devices}

theorem timerTimeMs_eq : d.timerTimeMs timer = divUp 1000 (d.timers timer).regs.value := rfl

/-- A reset takes the counter from LOAD. -/
theorem value_timerReset : ((d.timerReset timer).timers timer).regs.value = (d.timers timer).regs.load := by
  rw [timerReset, modifyControl, regs_modifyRegs, if_pos rfl]
  dsimp only
  rw [regs_modifyRegs, if_pos rfl]

theorem load_timerLoadMs (value : Word) : ((d.timerLoadMs timer value).timers timer).regs.load = value * 1000 := by
  rw [timerLoadMs, timerLoadUs, regs_modifyRegs, if_pos rfl]

/-- Milliseconds come back just up to 4294966, and the time left is the ceiling just for counters up to
0xFFFFFC18. -/
theorem timer_ms_exact_iff (timer : Fin 8) (d : Devices) (v : Word) :
    (((d.timerLoadMs timer v).timerReset timer).timerTimeMs timer = v ↔ v ≤ 4294966) ∧
      ((d.timerTimeMs timer).toNat = (d.timers timer).regs.value.toNat ⌈/⌉ 1000 ↔
        (d.timers timer).regs.value ≤ 0xFFFFFC18) := by
  have hd : 0 < (1000 : Word).toNat := by decide
  constructor
  · rw [timerTimeMs_eq, value_timerReset, load_timerLoadMs, divUp_mul_iff hd, BitVec.le_def]
    show v.toNat * 1000 + 999 < 2 ^ 32 ↔ v.toNat ≤ 4294966
    omega
  · rw [timerTimeMs_eq, BitVec.le_def]
    refine (divUp_eq_ceilDiv_iff hd).trans ?_
    show (d.timers timer).regs.value.toNat + 999 < 2 ^ 32 ↔ (d.timers timer).regs.value.toNat ≤ 4294966296
    omega

/-- Neither holds everywhere: 4294967 ms come back as 0, and a full counter has 0 ms left. -/
theorem not_timer_ms_exact :
    (¬∀ (timer : Fin 8) (d : Devices) (v : Word),
        ((d.timerLoadMs timer v).timerReset timer).timerTimeMs timer = v) ∧
      ¬∀ (timer : Fin 8) (d : Devices),
        (d.timerTimeMs timer).toNat = (d.timers timer).regs.value.toNat ⌈/⌉ 1000 := by
  constructor
  · intro h
    have h0 := h 0 ⟨fun _ => ⟨⟨0, 0, 0, 0, 0⟩, 0⟩, ⟨0, 0, 0, 0, fun _ => 0⟩, fun _ => 0⟩ 4294967
    rw [timerTimeMs_eq, value_timerReset, load_timerLoadMs] at h0
    exact absurd h0 (by decide)
  · intro h
    have h0 := h 0 ⟨fun _ => ⟨⟨0, 0xFFFFFFFF, 0, 0, 0⟩, 0⟩, ⟨0, 0, 0, 0, fun _ => 0⟩, fun _ => 0⟩
    rw [timerTimeMs_eq] at h0
    exact absurd h0 (by decide)

end Td3.Kernel.Devices
