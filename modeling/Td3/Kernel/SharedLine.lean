/-
The lines of the interrupt controller that two timers share (kernel/int_handlers.c, drivers/timer.c).
`irq_handler` asks the first of the two whether it raised the IRQ, and `__timer_interrupted` answers
with its raw status: a timer that expired with its interrupt disabled answers for the other one, whose
handler is then not called.
-/
import Td3.Kernel.Timer
import Td3.Kernel.DeviceIrq

namespace Td3.Kernel

open Arm

namespace Devices

/-! ## One pass through irq_handler -/

/-- What `irq_handler` returns and leaves, and the timers whose `irq_handler` it calls. -/
structure IrqPass where
  output : Word
  devices : Devices
  called : List (Fin 8)

/-- `TIMERx->irq_handler()`; `handlers` is what the function at each address does. -/
def callTimer (handlers : Word → Devices → Devices) (timer : Fin 8) (d : Devices) : IrqPass :=
  ⟨0, handlers (d.timers timer).irqHandler d, [timer]⟩

/-- `__timer_interrupted(timer)` -/
def interrupted (timer : Fin 8) (d : Devices) : Bool := (d.timers timer).regs.ris &&& 1 ≠ 0

/-- `irq_handler()` with `intAck` in INT_ACK; `none` where it ends in `__critical_error`. -/
def irqPass (handlers : Word → Devices → Devices) (intAck : Word) (d : Devices) : Option IrqPass :=
  let id := intAck &&& 0x3FF
  let either (a b : Fin 8) := if d.interrupted a then d.callTimer handlers a else d.callTimer handlers b
  if id = INT_TIMER_0_AND_1 then some (either 0 1)
  else if id = INT_TIMER_2_AND_3 then some (either 2 3)
  else if id = INT_TIMER_4_AND_5 then some (either 4 5)
  else if id = INT_TIMER_6_AND_7 then some (either 6 7)
  else if id = INT_SOFTWARE then
    some ⟨IRQ_DONT_SWITCH_CONTEXT, { d with gic := d.gic.clearInterrupt id }, []⟩
  else none

/-- The raw status of the timer is set. -/
def Raised (timer : Fin 8) (d : Devices) : Prop := (d.timers timer).regs.ris.getLsbD 0 = true

instance (timer : Fin 8) (d : Devices) : Decidable (d.Raised timer) := inferInstanceAs (Decidable (_ = true))

/-- The timer drives its line: it has expired with its interrupt enabled. -/
def Asserts (timer : Fin 8) (d : Devices) : Prop := d.Raised timer ∧ d.intEnabled timer = true

instance (timer : Fin 8) (d : Devices) : Decidable (d.Asserts timer) := inferInstanceAs (Decidable (_ ∧ _))

/-- The pass calls the handler of a timer of the line `id` that asserted it, and of no other timer. -/
def ServesLine (id : Word) (d : Devices) (p : IrqPass) : Prop :=
  (∃ timer ∈ p.called, timerIntId timer = id) ∧ ∀ timer ∈ p.called, d.Asserts timer

/-! ## Which timer is called -/

variable {handlers : Word → Devices → Devices} {intAck : Word} {d : Devices} {t u : Fin 8}

theorem interrupted_iff : d.interrupted t = true ↔ d.Raised t := by
  rw [interrupted, Raised, decide_eq_true_iff, show (1 : Word) = 1#32 from rfl,
    BitVec.and_one_eq_setWidth_ofBool_getLsbD]
  cases (d.timers t).regs.ris.getLsbD 0 <;> decide

/-- The two timers of a line -/
theorem timers_of_line (hlt : t < u) (hline : timerIntId t = timerIntId u) :
    (t = 0 ∧ u = 1) ∨ (t = 2 ∧ u = 3) ∨ (t = 4 ∧ u = 5) ∨ (t = 6 ∧ u = 7) := by
  revert t u
  decide

/-- The pass calls the first timer of the line if its raw status is set, the second one otherwise. -/
theorem irqPass_shared (hlt : t < u) (hline : timerIntId t = timerIntId u) (hack : intAck &&& 0x3FF = timerIntId t) :
    d.irqPass handlers intAck = some (d.callTimer handlers (if d.interrupted t then t else u)) := by
  simp only [irqPass, hack]
  rcases timers_of_line hlt hline with ⟨rfl, rfl⟩ | ⟨rfl, rfl⟩ | ⟨rfl, rfl⟩ | ⟨rfl, rfl⟩
  · rw [if_pos (by decide), ← apply_ite (d.callTimer handlers)]
  · rw [if_neg (by decide), if_pos (by decide), ← apply_ite (d.callTimer handlers)]
  · rw [if_neg (by decide), if_neg (by decide), if_pos (by decide), ← apply_ite (d.callTimer handlers)]
  · rw [if_neg (by decide), if_neg (by decide), if_neg (by decide), if_pos (by decide),
      ← apply_ite (d.callTimer handlers)]

/-- It is the timer that the handlers of the scheduler's IRQs go by. -/
theorem irqPass_raisedBy {k : Globals} (hris : ∀ timer, (k.timers timer).ris = (d.timers timer).regs.ris)
    (hlt : t < u) (hline : timerIntId t = timerIntId u) (hack : gicGetId k = timerIntId t) :
    (d.irqPass handlers k.intAck).map (·.called) = (Machine.raisedBy k).map ([·]) := by
  have hint : ∀ timer, timerInterrupted timer k = d.interrupted timer := by
    intro timer
    rw [timerInterrupted, hris, interrupted]
  rw [irqPass_shared hlt hline hack, Machine.raisedBy, hack]
  rcases timers_of_line hlt hline with ⟨rfl, rfl⟩ | ⟨rfl, rfl⟩ | ⟨rfl, rfl⟩ | ⟨rfl, rfl⟩
  · simp [hint, callTimer, timerIntId]
  · simp [hint, callTimer, timerIntId, INT_TIMER_0_AND_1, INT_TIMER_2_AND_3]
  · simp [hint, callTimer, timerIntId, INT_TIMER_0_AND_1, INT_TIMER_2_AND_3, INT_TIMER_4_AND_5]
  · simp [hint, callTimer, timerIntId, INT_TIMER_0_AND_1, INT_TIMER_2_AND_3, INT_TIMER_4_AND_5, INT_TIMER_6_AND_7]

/-- Whenever one of the two timers of a line asserts it, the pass calls the handler of such a timer
exactly if the first of the two has not expired with its interrupt disabled. -/
theorem irqPass_servesLine_iff (handlers : Word → Devices → Devices) (hlt : t < u)
    (hline : timerIntId t = timerIntId u) (hack : intAck &&& 0x3FF = timerIntId t)
    (hassert : d.Asserts t ∨ d.Asserts u) :
    (∃ p, d.irqPass handlers intAck = some p ∧ d.ServesLine (timerIntId t) p) ↔
      ¬ (d.Raised t ∧ d.intEnabled t = false) := by
  rw [irqPass_shared hlt hline hack]
  by_cases hraised : d.Raised t
  · rw [if_pos (interrupted_iff.2 hraised)]
    constructor
    · rintro ⟨p, hp, -, hcalled⟩ ⟨-, hdisabled⟩
      obtain rfl := Option.some.inj hp
      have henabled := (hcalled t (List.mem_singleton.2 rfl)).2
      rw [hdisabled] at henabled
      cases henabled
    · intro h
      refine ⟨_, rfl, ⟨t, List.mem_singleton.2 rfl, rfl⟩, ?_⟩
      intro timer htimer
      rw [List.mem_singleton.1 htimer]
      exact ⟨hraised, Bool.of_not_eq_false fun hdisabled => h ⟨hraised, hdisabled⟩⟩
  · rw [if_neg fun h => hraised (interrupted_iff.1 h)]
    refine iff_of_true ⟨_, rfl, ⟨u, List.mem_singleton.2 rfl, hline.symm⟩, ?_⟩ fun h => hraised h.1
    intro timer htimer
    rw [List.mem_singleton.1 htimer]
    exact hassert.resolve_left fun h => hraised h.1

/-! ## A polled timer beside an interrupting one -/

/-- The timer reaches 0. -/
def expire (timer : Fin 8) : Devices → Devices := modifyRegs timer fun r => { r with ris := setBit 0 r.ris }

def exampleReset : Devices := ⟨fun _ => ⟨⟨0, 0, 0x20, 0, 0⟩, 0⟩, ⟨0, 0, 0, 0, fun _ => 0⟩, fun _ => 0⟩

/-- TIMER2 is polled, TIMER3 interrupts; both have expired. -/
def examplePolled : Devices :=
  (((exampleReset.timerInit 2 10000 .oneShot false 0x70010000).timerInit 3 10000 .periodic true 0x70010040).expire
    2).expire 3

/-- TIMER3 alone has expired. -/
theorem irqPass_servesLine_example : ∃ p,
    ((exampleReset.timerInit 3 10000 .periodic true 0x70010040).expire 3).irqPass (fun _ d => d) 37 = some p ∧
      ((exampleReset.timerInit 3 10000 .periodic true 0x70010040).expire 3).ServesLine (timerIntId 2) p :=
  (irqPass_servesLine_iff (fun _ d => d) (show (2 : Fin 8) < 3 by decide) rfl (by decide) (.inr (by decide))).2
    fun h => absurd h.1 (by decide)

theorem not_irqPass_servesLine : ¬ ∀ (handlers : Word → Devices → Devices) (intAck : Word) (d : Devices) (t u : Fin 8),
    t < u → timerIntId t = timerIntId u → intAck &&& 0x3FF = timerIntId t → (d.Asserts t ∨ d.Asserts u) →
      ∃ p, d.irqPass handlers intAck = some p ∧ d.ServesLine (timerIntId t) p := by
  intro h
  obtain ⟨p, hp, -, hcalled⟩ := h (fun _ d => d) 37 examplePolled 2 3 (by decide) rfl (by decide) (.inr (by decide))
  rw [irqPass_shared (show (2 : Fin 8) < 3 by decide) rfl (by decide), if_pos (by decide)] at hp
  obtain rfl := Option.some.inj hp
  have henabled := (hcalled 2 (List.mem_singleton.2 rfl)).2
  exact absurd henabled (by decide)

end Devices

end Td3.Kernel
