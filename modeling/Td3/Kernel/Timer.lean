/-
The drivers of the interrupt controller and of the timers (kernel/drivers/gic.c, timer.c) on their
registers. Two timers share each line of the interrupt controller, and `__timer_disable_int` clears
the line: it silences the other timer too. A timer is deliverable exactly as its last call says where
the last call on its line does not disable what it enabled.
-/
import Td3.Kernel.Scheduler
import Td3.Lib.Register

namespace Td3.Kernel

open Arm

/-! ## Interrupt controller -/

/-- The registers of the interrupt controller that the driver writes, SET_ENABLE as words that read
back what was written. -/
structure Gic where
  cpuControl : Word
  priMask : Word
  eoi : Word
  distControl : Word
  setEnable : Fin 3 → Word

namespace Gic

def prvGicEnable (g : Gic) : Gic :=
  { g with priMask := 0xF <<< 4, cpuControl := setBit 0 g.cpuControl, distControl := setBit 0 g.distControl }

/-- `SET_ENABLE[word] = f(SET_ENABLE[word])` -/
def modifySetEnable (word : Fin 3) (f : Word → Word) (g : Gic) : Gic :=
  { g with setEnable := Function.update g.setEnable word (f (g.setEnable word)) }

def enableInterrupt (id : Word) (g : Gic) : Gic :=
  let g := g.prvGicEnable
  if id ≤ 63 ∧ 32 ≤ id then g.modifySetEnable 1 (setBit (id - 32).toNat)
  else if id ≤ 95 ∧ 64 ≤ id then g.modifySetEnable 2 (setBit (id - 64).toNat)
  else g

/-- The second comparison with 64 is the wrong way round: the lines from 65 on stay enabled. A shift
by 32 or more, for an `id` below 32, gives 0. -/
def disableInterrupt (id : Word) (g : Gic) : Gic :=
  if id ≤ 63 ∧ 32 ≤ id then g.modifySetEnable 1 (clearBit (id - 32).toNat)
  else if id ≤ 95 ∧ id ≤ 64 then g.modifySetEnable 2 (clearBit (id - 64).toNat)
  else g

def clearInterrupt (id : Word) (g : Gic) : Gic := { g with eoi := id }

/-- Line `id` is enabled. -/
def line (id : Word) (g : Gic) : Bool := (g.setEnable (Fin.ofNat 3 (id.toNat / 32))).getLsbD (id.toNat % 32)

end Gic

/-! ## Timers -/

/-- The registers of a timer that the driver uses. -/
structure TimerRegs where
  load : Word
  value : Word
  control : Word
  intclr : Word
  ris : Word

/-- `timer_dev`, without the interrupt ID (`timerIntId`), which never changes. -/
structure TimerDev where
  regs : TimerRegs
  irqHandler : Word

inductive TimerMode where
  | freeRunning
  | oneShot
  | periodic
deriving DecidableEq, Repr

/-- The timers TIMER0 to TIMER7, the interrupt controller and the two system controllers. -/
structure Devices where
  timers : Fin 8 → TimerDev
  gic : Gic
  sysctrl : Fin 2 → Word

namespace Devices

/-- A write to registers of a timer. -/
def modifyRegs (timer : Fin 8) (f : TimerRegs → TimerRegs) (d : Devices) : Devices :=
  { d with timers := Function.update d.timers timer { d.timers timer with regs := f (d.timers timer).regs } }

/-- A write to CONTROL. -/
def modifyControl (timer : Fin 8) (f : Word → Word) : Devices → Devices :=
  modifyRegs timer fun r => { r with control := f r.control }

/-- `SYSCTRL_TIMERx_1M(*sysctrl)`, where the bits of the timer start at `bit`. -/
def sysctrlTimer1M (sysctrl : Fin 2) (bit : Nat) (d : Devices) : Devices :=
  { d with sysctrl := Function.update d.sysctrl sysctrl (clearBit (bit + 1) (setBit bit (d.sysctrl sysctrl))) }

def prvSysctrlEnableTimer : Fin 8 → Devices → Devices
  | 0 => sysctrlTimer1M 0 15
  | 1 => sysctrlTimer1M 0 17
  | 2 => sysctrlTimer1M 0 19
  | 3 => sysctrlTimer1M 0 21
  | 4 => sysctrlTimer1M 1 15
  | 5 => sysctrlTimer1M 1 17
  | 6 => sysctrlTimer1M 1 19
  | 7 => sysctrlTimer1M 1 21

def timerSetMode (timer : Fin 8) : TimerMode → Devices → Devices
  | .periodic => fun d => (d.modifyControl timer (setBit 6)).modifyControl timer (clearBit 0)
  | .oneShot => modifyControl timer (setBit 0)
  | .freeRunning => fun d => (d.modifyControl timer (clearBit 6)).modifyControl timer (clearBit 0)

def timerLoadUs (timer : Fin 8) (value : Word) : Devices → Devices :=
  modifyRegs timer fun r => { r with load := value }

/-- Any write of INTCLR clears the raw interrupt status. -/
def timerClearInterrupt (timer : Fin 8) (d : Devices) : Devices :=
  let d := d.modifyRegs timer fun r => { r with intclr := setBit 0 r.intclr, ris := clearBit 0 r.ris }
  { d with gic := d.gic.clearInterrupt (timerIntId timer) }

def timerEnableInterrupt (timer : Fin 8) (d : Devices) : Devices :=
  let d := d.modifyControl timer (setBit 5)
  { d with gic := d.gic.enableInterrupt (timerIntId timer) }

def timerDisableInt (timer : Fin 8) (d : Devices) : Devices :=
  let d := d.modifyControl timer (clearBit 5)
  { d with gic := d.gic.disableInterrupt (timerIntId timer) }

/-- Sets VALUE and the enable bit. -/
def timerReset (timer : Fin 8) (d : Devices) : Devices :=
  (d.modifyRegs timer fun r => { r with value := r.load }).modifyControl timer (setBit 7)

def timerInit (timer : Fin 8) (value : Word) (mode : TimerMode) (interrupt : Bool) (irqHandler : Word)
    (d : Devices) : Devices :=
  let d := d.modifyControl timer (setBit 1)
  let d := d.modifyControl timer (· &&& ~~~(3#32 <<< 2))
  let d := d.prvSysctrlEnableTimer timer
  let d := d.timerSetMode timer mode
  let d := d.timerLoadUs timer value
  let d := d.timerClearInterrupt timer
  let d := if interrupt then d.timerEnableInterrupt timer else d.timerDisableInt timer
  let d := { d with timers := Function.update d.timers timer { d.timers timer with irqHandler := irqHandler } }
  d.timerReset timer

/-- The timer's interrupt reaches the processor: its CONTROL bit and its line are set. -/
def Deliverable (timer : Fin 8) (d : Devices) : Prop :=
  (d.timers timer).regs.control.getLsbD 5 = true ∧ d.gic.line (timerIntId timer) = true

end Devices

/-- The calls that enable or disable the interrupt of a timer. -/
inductive TimerCall where
  | init (timer : Fin 8) (value : Word) (mode : TimerMode) (interrupt : Bool) (irqHandler : Word)
  | enableInterrupt (timer : Fin 8)
  | disableInt (timer : Fin 8)

namespace TimerCall

def timer : TimerCall → Fin 8
  | init timer .. | enableInterrupt timer | disableInt timer => timer

/-- What the call asks for. -/
def enables : TimerCall → Bool
  | init _ _ _ interrupt _ => interrupt
  | enableInterrupt _ => true
  | disableInt _ => false

def run (d : Devices) : TimerCall → Devices
  | init timer value mode interrupt irqHandler => d.timerInit timer value mode interrupt irqHandler
  | enableInterrupt timer => d.timerEnableInterrupt timer
  | disableInt timer => d.timerDisableInt timer

end TimerCall

/-! ## What the calls do to the interrupts -/

namespace Gic

variable {g : Gic} {id id' : Word}

theorem line_congr {g' : Gic} (h : g'.setEnable = g.setEnable) (id : Word) : g'.line id = g.line id := by
  rw [line, line, h]

/-- A write of bit `k` of a word of SET_ENABLE is one of line `32 * word + k`. -/
theorem line_modifySetEnable {word : Fin 3} {f : Word → Word} {k : Nat} {b : Bool} (hk : k < 32)
    (hf : ∀ j, j < 32 → ∀ reg, (f reg).getLsbD j = if j = k then b else reg.getLsbD j) (hid : id.toNat < 96) :
    (g.modifySetEnable word f).line id = if id.toNat = 32 * word.val + k then b else g.line id := by
  have hword : (Fin.ofNat 3 (id.toNat / 32)).val = id.toNat / 32 := by
    rw [Fin.val_ofNat]
    omega
  rw [line, line, modifySetEnable]
  dsimp only
  by_cases h : Fin.ofNat 3 (id.toNat / 32) = word
  · rw [h, Function.update_self, hf _ (by omega)]
    have hval : id.toNat / 32 = word.val := by rw [← hword, h]
    have hiff : id.toNat % 32 = k ↔ id.toNat = 32 * word.val + k := by omega
    simp only [hiff]
  · rw [Function.update_of_ne h, if_neg]
    intro heq
    apply h
    apply Fin.ext
    omega

theorem enableInterrupt_line (h32 : 32 ≤ id.toNat) (h95 : id.toNat ≤ 95) (hid' : id'.toNat < 96) :
    (g.enableInterrupt id).line id' = if id' = id then true else g.line id' := by
  rw [enableInterrupt]
  by_cases h63 : id.toNat ≤ 63
  · have hsub : (id - 32).toNat = id.toNat - 32 := BitVec.toNat_sub_of_le h32
    rw [if_pos ⟨h63, h32⟩, hsub, line_modifySetEnable (by omega) (fun _ => getLsbD_setBit) hid']
    have hiff : id'.toNat = 32 * (1 : Fin 3).val + (id.toNat - 32) ↔ id' = id := by
      rw [← BitVec.toNat_inj]
      show id'.toNat = 32 * 1 + (id.toNat - 32) ↔ _
      omega
    simp only [hiff]
    rfl
  · have hsub : (id - 64).toNat = id.toNat - 64 := BitVec.toNat_sub_of_le (show 64 ≤ id.toNat by omega)
    rw [if_neg fun h => h63 h.1, if_pos ⟨h95, show 64 ≤ id.toNat by omega⟩, hsub,
      line_modifySetEnable (by omega) (fun _ => getLsbD_setBit) hid']
    have hiff : id'.toNat = 32 * (2 : Fin 3).val + (id.toNat - 64) ↔ id' = id := by
      rw [← BitVec.toNat_inj]
      show id'.toNat = 32 * 2 + (id.toNat - 64) ↔ _
      omega
    simp only [hiff]
    rfl

/-- Line 64 is the only one of the third word that is disabled. -/
theorem disableInterrupt_line (h32 : 32 ≤ id.toNat) (h64 : id.toNat ≤ 64) (hid' : id'.toNat < 96) :
    (g.disableInterrupt id).line id' = if id' = id then false else g.line id' := by
  rw [disableInterrupt]
  by_cases h63 : id.toNat ≤ 63
  · have hsub : (id - 32).toNat = id.toNat - 32 := BitVec.toNat_sub_of_le h32
    rw [if_pos ⟨h63, h32⟩, hsub, line_modifySetEnable (by omega) (fun _ => getLsbD_clearBit) hid']
    have hiff : id'.toNat = 32 * (1 : Fin 3).val + (id.toNat - 32) ↔ id' = id := by
      rw [← BitVec.toNat_inj]
      show id'.toNat = 32 * 1 + (id.toNat - 32) ↔ _
      omega
    simp only [hiff]
  · have hsub : (id - 64).toNat = id.toNat - 64 := BitVec.toNat_sub_of_le (show 64 ≤ id.toNat by omega)
    rw [if_neg fun h => h63 h.1, if_pos ⟨show id.toNat ≤ 95 by omega, h64⟩, hsub,
      line_modifySetEnable (by omega) (fun _ => getLsbD_clearBit) hid']
    have hiff : id'.toNat = 32 * (2 : Fin 3).val + (id.toNat - 64) ↔ id' = id := by
      rw [← BitVec.toNat_inj]
      show id'.toNat = 32 * 2 + (id.toNat - 64) ↔ _
      omega
    simp only [hiff]

/-- The lines from 65 on are never disabled. -/
theorem disableInterrupt_high (h65 : 65 ≤ id.toNat) : g.disableInterrupt id = g := by
  rw [disableInterrupt, if_neg, if_neg]
  · intro h
    exact absurd (show id.toNat ≤ 64 from h.2) (by omega)
  · intro h
    exact absurd (show id.toNat ≤ 63 from h.1) (by omega)

end Gic

namespace Devices

/-- The interrupt-enable bit of CONTROL. -/
def intEnabled (timer : Fin 8) (d : Devices) : Bool := (d.timers timer).regs.control.getLsbD 5

/-- From `d` to `d'` no interrupt of a timer and no line is enabled or disabled. -/
structure SameInterrupts (d d' : Devices) : Prop where
  intEnabled : ∀ timer, d'.intEnabled timer = d.intEnabled timer
  setEnable : d'.gic.setEnable = d.gic.setEnable

variable {timer t : Fin 8} {d d' d'' : Devices}

theorem SameInterrupts.refl : SameInterrupts d d := ⟨fun _ => rfl, rfl⟩

theorem SameInterrupts.trans (h1 : SameInterrupts d d') (h2 : SameInterrupts d' d'') : SameInterrupts d d'' where
  intEnabled t := (h2.intEnabled t).trans (h1.intEnabled t)
  setEnable := h2.setEnable.trans h1.setEnable

theorem regs_modifyRegs (f : TimerRegs → TimerRegs) :
    ((d.modifyRegs timer f).timers t).regs = if t = timer then f (d.timers t).regs else (d.timers t).regs := by
  rw [modifyRegs]
  dsimp only
  by_cases h : t = timer
  · rw [h, Function.update_self, if_pos rfl]
  · rw [Function.update_of_ne h, if_neg h]

theorem intEnabled_modifyControl (f : Word → Word) : (d.modifyControl timer f).intEnabled t =
    if t = timer then (f (d.timers t).regs.control).getLsbD 5 else d.intEnabled t := by
  rw [intEnabled, intEnabled, modifyControl, regs_modifyRegs]
  split_ifs
  · rfl
  · rfl

theorem sameInterrupts_modifyRegs {f : TimerRegs → TimerRegs} (hf : ∀ r, (f r).control = r.control) :
    SameInterrupts d (d.modifyRegs timer f) where
  setEnable := rfl
  intEnabled t := by
    rw [intEnabled, intEnabled, regs_modifyRegs]
    split_ifs
    · rw [hf]
    · rfl

/-- Writes of other bits of CONTROL. -/
theorem sameInterrupts_modifyControl {f : Word → Word} (hf : ∀ reg, (f reg).getLsbD 5 = reg.getLsbD 5) :
    SameInterrupts d (d.modifyControl timer f) where
  setEnable := rfl
  intEnabled t := by
    rw [intEnabled_modifyControl]
    split_ifs
    · exact hf _
    · rfl

theorem sameInterrupts_setBit {k : Nat} (hk : k ≠ 5) : SameInterrupts d (d.modifyControl timer (setBit k)) := by
  apply sameInterrupts_modifyControl
  intro reg
  rw [getLsbD_setBit (by decide), if_neg hk.symm]

theorem sameInterrupts_clearBit {k : Nat} (hk : k ≠ 5) : SameInterrupts d (d.modifyControl timer (clearBit k)) := by
  apply sameInterrupts_modifyControl
  intro reg
  rw [getLsbD_clearBit (by decide), if_neg hk.symm]

theorem sameInterrupts_prescale (timer : Fin 8) : SameInterrupts d (d.modifyControl timer (· &&& ~~~(3#32 <<< 2))) := by
  apply sameInterrupts_modifyControl
  intro reg
  simp

theorem sameInterrupts_prvSysctrlEnableTimer (timer : Fin 8) : SameInterrupts d (d.prvSysctrlEnableTimer timer) := by
  match timer with
  | 0 | 1 | 2 | 3 | 4 | 5 | 6 | 7 => exact ⟨fun _ => rfl, rfl⟩

theorem sameInterrupts_timerSetMode (timer : Fin 8) (mode : TimerMode) :
    SameInterrupts d (d.timerSetMode timer mode) := by
  cases mode with
  | periodic => exact (sameInterrupts_setBit (by decide)).trans (sameInterrupts_clearBit (by decide))
  | oneShot => exact sameInterrupts_setBit (by decide)
  | freeRunning => exact (sameInterrupts_clearBit (by decide)).trans (sameInterrupts_clearBit (by decide))

theorem sameInterrupts_timerLoadUs (timer : Fin 8) (value : Word) : SameInterrupts d (d.timerLoadUs timer value) :=
  sameInterrupts_modifyRegs fun _ => rfl

theorem sameInterrupts_timerClearInterrupt (timer : Fin 8) : SameInterrupts d (d.timerClearInterrupt timer) := by
  have h : SameInterrupts d (d.modifyRegs timer fun r =>
    { r with intclr := setBit 0 r.intclr, ris := clearBit 0 r.ris }) :=
    sameInterrupts_modifyRegs fun _ => rfl
  exact ⟨h.intEnabled, rfl⟩

theorem sameInterrupts_irqHandler (irqHandler : Word) : SameInterrupts d
    { d with timers := Function.update d.timers timer { d.timers timer with irqHandler := irqHandler } } where
  setEnable := rfl
  intEnabled t := by
    rw [intEnabled, intEnabled]
    dsimp only
    by_cases h : t = timer
    · rw [h, Function.update_self]
    · rw [Function.update_of_ne h]

theorem sameInterrupts_timerReset : SameInterrupts d (d.timerReset timer) := by
  have h : SameInterrupts d (d.modifyRegs timer fun r => { r with value := r.load }) :=
    sameInterrupts_modifyRegs fun _ => rfl
  exact h.trans (sameInterrupts_setBit (by decide))

/-- `__timer_init` up to the call that enables or disables the interrupt. -/
def timerConfigure (timer : Fin 8) (value : Word) (mode : TimerMode) (d : Devices) : Devices :=
  let d := d.modifyControl timer (setBit 1)
  let d := d.modifyControl timer (· &&& ~~~(3#32 <<< 2))
  let d := d.prvSysctrlEnableTimer timer
  let d := d.timerSetMode timer mode
  let d := d.timerLoadUs timer value
  d.timerClearInterrupt timer

/-- The rest of it. -/
def timerStart (timer : Fin 8) (irqHandler : Word) (d : Devices) : Devices :=
  let d := { d with timers := Function.update d.timers timer { d.timers timer with irqHandler := irqHandler } }
  d.timerReset timer

theorem sameInterrupts_timerConfigure (value : Word) (mode : TimerMode) :
    SameInterrupts d (d.timerConfigure timer value mode) := by
  have h1 : SameInterrupts d (d.modifyControl timer (setBit 1)) := sameInterrupts_setBit (by decide)
  have h2 := h1.trans (sameInterrupts_prescale timer)
  have h3 := h2.trans (sameInterrupts_prvSysctrlEnableTimer timer)
  have h4 := h3.trans (sameInterrupts_timerSetMode timer mode)
  have h5 := h4.trans (sameInterrupts_timerLoadUs timer value)
  exact h5.trans (sameInterrupts_timerClearInterrupt timer)

theorem sameInterrupts_timerStart (irqHandler : Word) : SameInterrupts d (d.timerStart timer irqHandler) :=
  (sameInterrupts_irqHandler irqHandler).trans sameInterrupts_timerReset

theorem timerIntId_toNat (timer : Fin 8) :
    32 ≤ (timerIntId timer).toNat ∧ (timerIntId timer).toNat ≤ 95 ∧
      (timer < 4 → (timerIntId timer).toNat ≤ 63) ∧ (4 ≤ timer → 65 ≤ (timerIntId timer).toNat) := by
  revert timer
  decide

theorem lt_four_congr {t t' : Fin 8} (h : timerIntId t = timerIntId t') : t < 4 ↔ t' < 4 := by
  revert t t'
  decide

end Devices

/-! ## Deliverability after a list of calls -/

namespace TimerCall

/-- What the call writes into the interrupt-enable bit of a timer. -/
def setsTimer (timer : Fin 8) (c : TimerCall) : Option Bool := if c.timer = timer then some c.enables else none

/-- What a call on the timer, or on the one it shares its line with, asks of the line. -/
def setsLine (timer : Fin 8) (c : TimerCall) : Option Bool :=
  if timerIntId c.timer = timerIntId timer then some c.enables else none

/-- What the driver does to the line: it never clears those of TIMER4 to TIMER7. -/
def writesLine (timer : Fin 8) (c : TimerCall) : Option Bool :=
  (c.setsLine timer).filter fun b => b || timer < 4

variable {d : Devices} {timer : Fin 8}

/-- Each call enables or disables its own timer, and the line with it. -/
theorem run_cases (d : Devices) (c : TimerCall) : ∃ d', d.SameInterrupts d' ∧
    (if c.enables then d'.timerEnableInterrupt c.timer else d'.timerDisableInt c.timer).SameInterrupts (c.run d) := by
  cases c with
  | init timer value mode interrupt irqHandler =>
    exact ⟨_, Devices.sameInterrupts_timerConfigure value mode, Devices.sameInterrupts_timerStart irqHandler⟩
  | enableInterrupt timer => exact ⟨d, .refl, .refl⟩
  | disableInt timer => exact ⟨d, .refl, .refl⟩

theorem overwrites_intEnabled (timer : Fin 8) : Overwrites run (Devices.intEnabled timer) (setsTimer timer) := by
  intro d c
  obtain ⟨d', hbefore, hafter⟩ := run_cases d c
  rw [hafter.intEnabled, setsTimer]
  by_cases h : c.timer = timer
  · rw [if_pos h, Option.getD_some, ← h]
    cases c.enables with
    | true => exact (Devices.intEnabled_modifyControl _).trans ((if_pos rfl).trans (getLsbD_setBit (by decide) _))
    | false => exact (Devices.intEnabled_modifyControl _).trans ((if_pos rfl).trans (getLsbD_clearBit (by decide) _))
  · rw [if_neg h, Option.getD_none, ← hbefore.intEnabled]
    cases c.enables with
    | true => exact (Devices.intEnabled_modifyControl _).trans (if_neg (Ne.symm h))
    | false => exact (Devices.intEnabled_modifyControl _).trans (if_neg (Ne.symm h))

theorem overwrites_line (timer : Fin 8) :
    Overwrites run (fun d => d.gic.line (timerIntId timer)) (writesLine timer) := by
  intro d c
  obtain ⟨d', hbefore, hafter⟩ := run_cases d c
  dsimp only
  rw [Gic.line_congr hafter.setEnable, ← Gic.line_congr hbefore.setEnable, writesLine, setsLine]
  obtain ⟨h32, h95, hlow, hhigh⟩ := Devices.timerIntId_toNat c.timer
  have hid : (timerIntId timer).toNat < 96 := Nat.lt_succ_of_le (Devices.timerIntId_toNat timer).2.1
  cases c.enables with
  | true =>
    refine (Gic.enableInterrupt_line h32 h95 hid).trans ?_
    by_cases h : timerIntId c.timer = timerIntId timer
    · rw [if_pos h, if_pos h.symm]
      rfl
    · rw [if_neg h, if_neg (Ne.symm h)]
      rfl
  | false =>
    by_cases hlt : c.timer < 4
    · refine (Gic.disableInterrupt_line h32 ((hlow hlt).trans (by decide)) hid).trans ?_
      by_cases h : timerIntId c.timer = timerIntId timer
      · rw [if_pos h, if_pos h.symm, Option.filter_some, if_pos]
        · rfl
        · rw [Bool.false_or, decide_eq_true_iff, ← Devices.lt_four_congr h]
          exact hlt
      · rw [if_neg h, if_neg (Ne.symm h)]
        rfl
    · have hsame : (d'.timerDisableInt c.timer).gic = d'.gic := Gic.disableInterrupt_high (hhigh (not_lt.1 hlt))
      refine (congrArg (Gic.line (timerIntId timer)) hsame).trans ?_
      by_cases h : timerIntId c.timer = timerIntId timer
      · rw [if_pos h, Option.filter_some, if_neg]
        · rfl
        · rw [Bool.false_or, decide_eq_true_iff, ← Devices.lt_four_congr h]
          exact hlt
      · rw [if_neg h]
        rfl

/-- The last of the calls on a timer enables it. -/
def LastEnables (timer : Fin 8) (calls : List TimerCall) : Prop := lastSet (setsTimer timer) calls = some true

/-- So does the last of the calls on the two timers of its line. -/
def LineLastEnables (timer : Fin 8) (calls : List TimerCall) : Prop := lastSet (setsLine timer) calls = some true

/-- After the calls each timer that received one is deliverable just when its last call enabled it. -/
def Independent (d : Devices) (calls : List TimerCall) : Prop :=
  ∀ timer, (∃ c ∈ calls, c.timer = timer) → ((calls.foldl run d).Deliverable timer ↔ LastEnables timer calls)

theorem deliverable_foldl {calls : List TimerCall} {b : Bool} (h : lastSet (setsTimer timer) calls = some b) :
    (calls.foldl run d).Deliverable timer ↔
      b = true ∧ (lastSet (writesLine timer) calls).getD (d.gic.line (timerIntId timer)) = true := by
  have hint := (overwrites_intEnabled timer).foldl calls d
  have hline := (overwrites_line timer).foldl calls d
  rw [h] at hint
  rw [← hline]
  exact and_congr_left fun _ => by rw [← Option.getD_some (a := b), ← hint]; rfl

theorem setsTimer_isSome {c : TimerCall} : (c.setsTimer timer).isSome ↔ c.timer = timer := by
  rw [setsTimer]
  split_ifs with h
  · simp [h]
  · simp [h]

theorem setsLine_of_setsTimer {c : TimerCall} {b : Bool} (h : c.setsTimer timer = some b) :
    c.setsLine timer = some b := by
  rw [setsTimer, Option.ite_none_right_eq_some] at h
  rw [setsLine, if_pos (by rw [h.1]), h.2]

theorem writesLine_eq (h : timer < 4) : writesLine timer = setsLine timer := by
  funext c
  rw [writesLine]
  cases c.setsLine timer with
  | none => rfl
  | some b => simp [h]

/-- What the driver writes into a line of TIMER4 to TIMER7 enables it. -/
theorem writesLine_high {c : TimerCall} {b : Bool} (h : ¬ timer < 4) (hc : c.writesLine timer = some b) : b = true := by
  rw [writesLine, Option.filter_eq_some_iff] at hc
  simpa [h] using hc.2

/-- A line that a call of the list enabled is enabled at the end, if the timer is one of TIMER4 to
TIMER7 or the last call on the line enables it. -/
theorem line_of_lastEnables {calls : List TimerCall} (h : LastEnables timer calls)
    (hline : timer < 4 → LineLastEnables timer calls) : lastSet (writesLine timer) calls = some true := by
  by_cases hlt : timer < 4
  · rw [writesLine_eq hlt]
    exact hline hlt
  · obtain ⟨c, hc, hset⟩ := exists_of_lastSet h
    have hwrites : c.writesLine timer = some true := by
      rw [writesLine, setsLine_of_setsTimer hset]
      rfl
    have hsome : (lastSet (writesLine timer) calls).isSome :=
      lastSet_isSome.2 ⟨c, hc, Option.isSome_of_eq_some hwrites⟩
    obtain ⟨b, hb⟩ := Option.isSome_iff_exists.1 hsome
    obtain ⟨c', -, hc'⟩ := exists_of_lastSet hb
    rw [hb, writesLine_high hlt hc']

/-- The timers are independent exactly where the last call on each line that TIMER0 to TIMER3 share
enables it, if the last call on one of the two timers does. -/
theorem timers_independent_iff (d : Devices) (calls : List TimerCall) :
    Independent d calls ↔ ∀ timer, timer < 4 → LastEnables timer calls → LineLastEnables timer calls := by
  constructor
  · intro hind timer hlt hlast
    obtain ⟨c, hc, hset⟩ := exists_of_lastSet hlast
    have htouched : ∃ c ∈ calls, c.timer = timer := ⟨c, hc, setsTimer_isSome.1 (Option.isSome_of_eq_some hset)⟩
    have hdeliv := (deliverable_foldl hlast).1 ((hind timer htouched).2 hlast)
    have hsome : (lastSet (setsLine timer) calls).isSome :=
      lastSet_isSome.2 ⟨c, hc, Option.isSome_of_eq_some (setsLine_of_setsTimer hset)⟩
    obtain ⟨b, hb⟩ := Option.isSome_iff_exists.1 hsome
    rw [writesLine_eq hlt, hb, Option.getD_some] at hdeliv
    rw [LineLastEnables, hb, hdeliv.2]
  · rintro hline timer ⟨c, hc, htimer⟩
    have hsome : (lastSet (setsTimer timer) calls).isSome := lastSet_isSome.2 ⟨c, hc, setsTimer_isSome.2 htimer⟩
    obtain ⟨b, hb⟩ := Option.isSome_iff_exists.1 hsome
    rw [deliverable_foldl hb, LastEnables, hb, Option.some_inj]
    constructor
    · rintro ⟨hb, -⟩
      exact hb
    · rintro rfl
      rw [line_of_lastEnables hb fun hlt => hline timer hlt hb, Option.getD_some]
      exact ⟨rfl, rfl⟩

/-- TIMER0 ticks for the scheduler, and a task disables the interrupt of TIMER1. -/
theorem not_timers_independent :
    ¬ ∀ (d : Devices) (calls : List TimerCall), (∀ c ∈ calls, c.timer < 4) →
      ∀ timer, (∃ c ∈ calls, c.timer = timer) → ((calls.foldl run d).Deliverable timer ↔ LastEnables timer calls) := by
  intro h
  have h0 := (h ⟨fun _ => ⟨⟨0, 0, 0, 0, 0⟩, 0⟩, ⟨0, 0, 0, 0, fun _ => 0⟩, fun _ => 0⟩
    [init 0 10000 .periodic true 0x70010000, disableInt 1] (by decide) 0 ⟨_, List.mem_cons_self, rfl⟩).2 rfl
  exact absurd h0.2 (by decide)

end TimerCall

end Td3.Kernel
