/-
The registers that the drivers reach (kernel/drivers/timer.c, gic.c), and what the tables make of their
addresses. Each lies in a section of `hardware_sections`, which every table has, but for that of the
second system controller: the driver has it at 0x1000A000, and the section for it is at 0x1001A000. So
`__timer_init` of TIMER4 to TIMER7 faults under every table, and no other call does.
-/
import Td3.Kernel.Isolation

namespace Td3.Kernel

open Arm SectionDesc

/-! ## Registers -/

/-- `timer_regs`, as far as the driver uses it -/
inductive TimerRegister where
  | load
  | value
  | control
  | intclr
  | ris
deriving DecidableEq, Repr

/-- `gic_cpu_regs` and `gic_dist_regs`, as far as the driver uses them -/
inductive GicRegister where
  | cpuControl
  | priMask
  | intAck
  | eoi
  | runningInt
  | distControl
  | setEnable (i : Fin 3)
  | swi
deriving DecidableEq, Repr

inductive DeviceRegister where
  | timer (timer : Fin 8) (register : TimerRegister)
  | gic (register : GicRegister)
  | sysctrl0
  | sysctrl1
deriving DecidableEq, Repr

/-- TIMER0_BASE to TIMER7_BASE -/
def timerBase : Fin 8 → Word :=
  ![0x10011000, 0x10011020, 0x10012000, 0x10012020, 0x10018000, 0x10018020, 0x10019000, 0x10019020]

def GIC0_CPU_BASE : Word := 0x1E000000
def GIC0_DIST_BASE : Word := 0x1E001000
def SYSCTRL0_BASE : Word := 0x10001000
def SYSCTRL1_BASE : Word := 0x1000A000

namespace DeviceRegister

/-- The fields in the order of the structures; the bytes that `RSVD` leaves out end below the next word. -/
def addr : DeviceRegister → Word
  | timer i .load => timerBase i
  | timer i .value => timerBase i + 0x04
  | timer i .control => timerBase i + 0x08
  | timer i .intclr => timerBase i + 0x0C
  | timer i .ris => timerBase i + 0x10
  | gic .cpuControl => GIC0_CPU_BASE
  | gic .priMask => GIC0_CPU_BASE + 0x04
  | gic .intAck => GIC0_CPU_BASE + 0x0C
  | gic .eoi => GIC0_CPU_BASE + 0x10
  | gic .runningInt => GIC0_CPU_BASE + 0x14
  | gic .distControl => GIC0_DIST_BASE
  | gic (.setEnable i) => GIC0_DIST_BASE + 0x100 + BitVec.ofNat 32 (4 * i.val)
  | gic .swi => GIC0_DIST_BASE + 0xF00
  | sysctrl0 => SYSCTRL0_BASE
  | sysctrl1 => SYSCTRL1_BASE

end DeviceRegister

/-! ## Accesses of the drivers -/

/-- Accesses to registers, one after the other -/
abbrev Trace := List (Access × DeviceRegister)

namespace Trace

/-- `reg |= bits` and `reg &= ~bits` -/
def modify (register : DeviceRegister) : Trace := [(.load, register), (.store, register)]

def prvGicEnable : Trace :=
  (.store, .gic .priMask) :: (modify (.gic .cpuControl) ++ modify (.gic .distControl))

def gicEnableInterrupt (id : Word) : Trace :=
  prvGicEnable ++
    if id ≤ 63 ∧ 32 ≤ id then modify (.gic (.setEnable 1))
    else if id ≤ 95 ∧ 64 ≤ id then modify (.gic (.setEnable 2))
    else []

def gicDisableInterrupt (id : Word) : Trace :=
  if id ≤ 63 ∧ 32 ≤ id then modify (.gic (.setEnable 1))
  else if id ≤ 95 ∧ id ≤ 64 then modify (.gic (.setEnable 2))
  else []

def gicGetId : Trace := [(.load, .gic .intAck)]

def gicGetPriority : Trace := [(.load, .gic .runningInt)]

def gicClearInterrupt (_id : Word) : Trace := [(.store, .gic .eoi)]

def gicSetSwi : Trace := prvGicEnable ++ [(.store, .gic .swi)]

/-- `SYSCTRL_TIMERx_1M`: one bit is set, the next one cleared. -/
def sysctrlTimer1M (sysctrl : DeviceRegister) : Trace := modify sysctrl ++ modify sysctrl

def prvSysctrlEnableTimer : Fin 8 → Trace
  | 0 => sysctrlTimer1M .sysctrl0
  | 1 => sysctrlTimer1M .sysctrl0
  | 2 => sysctrlTimer1M .sysctrl0
  | 3 => sysctrlTimer1M .sysctrl0
  | 4 => sysctrlTimer1M .sysctrl1
  | 5 => sysctrlTimer1M .sysctrl1
  | 6 => sysctrlTimer1M .sysctrl1
  | 7 => sysctrlTimer1M .sysctrl1

def timerResume (timer : Fin 8) : Trace := modify (.timer timer .control)

def timerPause (timer : Fin 8) : Trace := modify (.timer timer .control)

def timerReset (timer : Fin 8) : Trace :=
  [(.load, .timer timer .load), (.store, .timer timer .value)] ++ modify (.timer timer .control)

def timerLoadUs (timer : Fin 8) (_value : Word) : Trace := [(.store, .timer timer .load)]

def timerLoadMs (timer : Fin 8) (value : Word) : Trace := timerLoadUs timer (value * 1000)

/-- `switch (mode)`, which has no default: 2, 1 and 0 are TIMER_MODE_PERIODIC, TIMER_MODE_ONE_SHOT and
TIMER_MODE_FREE_RUNNING. -/
def timerSetMode (timer : Fin 8) (mode : Word) : Trace :=
  if mode = 2 then modify (.timer timer .control) ++ modify (.timer timer .control)
  else if mode = 1 then modify (.timer timer .control)
  else if mode = 0 then modify (.timer timer .control) ++ modify (.timer timer .control)
  else []

def timerEnableInterrupt (timer : Fin 8) : Trace :=
  modify (.timer timer .control) ++ gicEnableInterrupt (timerIntId timer)

def timerDisableInt (timer : Fin 8) : Trace :=
  modify (.timer timer .control) ++ gicDisableInterrupt (timerIntId timer)

def timerClearInterrupt (timer : Fin 8) : Trace :=
  modify (.timer timer .intclr) ++ gicClearInterrupt (timerIntId timer)

def timerTimeMs (timer : Fin 8) : Trace := [(.load, .timer timer .value)]

def timerTimeUs (timer : Fin 8) : Trace := [(.load, .timer timer .value)]

def timerInterrupted (timer : Fin 8) : Trace := [(.load, .timer timer .ris)]

def timerInit (timer : Fin 8) (value mode interrupt _irqHandler : Word) : Trace :=
  modify (.timer timer .control) ++ modify (.timer timer .control) ++ prvSysctrlEnableTimer timer ++
    timerSetMode timer mode ++ timerLoadUs timer value ++ timerClearInterrupt timer ++
    (if interrupt ≠ 0 then timerEnableInterrupt timer else timerDisableInt timer) ++ timerReset timer

end Trace

/-- The functions of the drivers, with their arguments. The modes and what is compared with 0 are the words
that the caller passes. -/
inductive DriverCall where
  | timerInit (timer : Fin 8) (value mode interrupt irqHandler : Word)
  | timerResume (timer : Fin 8)
  | timerPause (timer : Fin 8)
  | timerReset (timer : Fin 8)
  | timerLoadMs (timer : Fin 8) (value : Word)
  | timerLoadUs (timer : Fin 8) (value : Word)
  | timerSetMode (timer : Fin 8) (mode : Word)
  | timerEnableInterrupt (timer : Fin 8)
  | timerDisableInt (timer : Fin 8)
  | timerClearInterrupt (timer : Fin 8)
  | timerTimeMs (timer : Fin 8)
  | timerTimeUs (timer : Fin 8)
  | timerInterrupted (timer : Fin 8)
  | gicEnableInterrupt (id : Word)
  | gicDisableInterrupt (id : Word)
  | gicGetId
  | gicGetPriority
  | gicClearInterrupt (id : Word)
  | gicSetSwi
deriving DecidableEq, Repr

namespace DriverCall

def trace : DriverCall → Trace
  | timerInit timer value mode interrupt irqHandler => Trace.timerInit timer value mode interrupt irqHandler
  | timerResume timer => Trace.timerResume timer
  | timerPause timer => Trace.timerPause timer
  | timerReset timer => Trace.timerReset timer
  | timerLoadMs timer value => Trace.timerLoadMs timer value
  | timerLoadUs timer value => Trace.timerLoadUs timer value
  | timerSetMode timer mode => Trace.timerSetMode timer mode
  | timerEnableInterrupt timer => Trace.timerEnableInterrupt timer
  | timerDisableInt timer => Trace.timerDisableInt timer
  | timerClearInterrupt timer => Trace.timerClearInterrupt timer
  | timerTimeMs timer => Trace.timerTimeMs timer
  | timerTimeUs timer => Trace.timerTimeUs timer
  | timerInterrupted timer => Trace.timerInterrupted timer
  | gicEnableInterrupt id => Trace.gicEnableInterrupt id
  | gicDisableInterrupt id => Trace.gicDisableInterrupt id
  | gicGetId => Trace.gicGetId
  | gicGetPriority => Trace.gicGetPriority
  | gicClearInterrupt id => Trace.gicClearInterrupt id
  | gicSetSwi => Trace.gicSetSwi

/-- The timers whose clock is enabled in SYSCTRL1 -/
def InitsLateTimer : DriverCall → Prop
  | timerInit timer .. => 4 ≤ timer
  | _ => False

end DriverCall

/-! ## Which calls reach SYSCTRL1 -/

namespace Trace

/-- No access is to SYSCTRL1. -/
def Avoids (trace : Trace) : Prop := ∀ p ∈ trace, p.2 ≠ .sysctrl1

section
variable {trace trace' : Trace} {register : DeviceRegister}

theorem Avoids.append (h : Avoids trace) (h' : Avoids trace') : Avoids (trace ++ trace') := by
  intro p hp
  rcases List.mem_append.1 hp with hp | hp
  · exact h p hp
  · exact h' p hp

theorem avoids_modify (h : register ≠ .sysctrl1) : Avoids (modify register) := by
  simp [Avoids, modify, h]

theorem avoids_prvGicEnable : Avoids prvGicEnable := by
  simp [Avoids, prvGicEnable, modify]

theorem avoids_gicEnableInterrupt (id : Word) : Avoids (gicEnableInterrupt id) := by
  refine avoids_prvGicEnable.append ?_
  split_ifs <;> simp [Avoids, modify]

theorem avoids_gicDisableInterrupt (id : Word) : Avoids (gicDisableInterrupt id) := by
  unfold gicDisableInterrupt
  split_ifs <;> simp [Avoids, modify]

theorem avoids_timerSetMode (timer : Fin 8) (mode : Word) : Avoids (timerSetMode timer mode) := by
  unfold timerSetMode
  split_ifs <;> simp [Avoids, modify]

theorem avoids_timerEnableInterrupt (timer : Fin 8) : Avoids (timerEnableInterrupt timer) :=
  (avoids_modify (by simp)).append (avoids_gicEnableInterrupt _)

theorem avoids_timerDisableInt (timer : Fin 8) : Avoids (timerDisableInt timer) :=
  (avoids_modify (by simp)).append (avoids_gicDisableInterrupt _)

theorem avoids_timerClearInterrupt (timer : Fin 8) : Avoids (timerClearInterrupt timer) := by
  simp [Avoids, timerClearInterrupt, gicClearInterrupt, modify]

theorem avoids_timerReset (timer : Fin 8) : Avoids (timerReset timer) := by
  simp [Avoids, timerReset, modify]

theorem avoids_prvSysctrlEnableTimer {timer : Fin 8} (h : timer < 4) : Avoids (prvSysctrlEnableTimer timer) := by
  have hall : ∀ timer : Fin 8, timer < 4 → prvSysctrlEnableTimer timer = sysctrlTimer1M .sysctrl0 := by decide
  rw [hall timer h]
  simp [Avoids, sysctrlTimer1M, modify]

theorem avoids_timerInit {timer : Fin 8} (h : timer < 4) (value mode interrupt irqHandler : Word) :
    Avoids (timerInit timer value mode interrupt irqHandler) := by
  have hcontrol : Avoids (modify (.timer timer .control)) := avoids_modify (by simp)
  have hload : Avoids (timerLoadUs timer value) := by simp [Avoids, timerLoadUs]
  have hinterrupt : Avoids (if interrupt ≠ 0 then timerEnableInterrupt timer else timerDisableInt timer) := by
    split_ifs
    · exact avoids_timerEnableInterrupt timer
    · exact avoids_timerDisableInt timer
  exact ((((((hcontrol.append hcontrol).append (avoids_prvSysctrlEnableTimer h)).append
    (avoids_timerSetMode timer mode)).append hload).append (avoids_timerClearInterrupt timer)).append
    hinterrupt).append (avoids_timerReset timer)

/-- The clock of a late timer is enabled in SYSCTRL1. -/
theorem sysctrl1_mem_timerInit {timer : Fin 8} (h : 4 ≤ timer) (value mode interrupt irqHandler : Word) :
    (.load, .sysctrl1) ∈ timerInit timer value mode interrupt irqHandler := by
  have hall : ∀ timer : Fin 8, 4 ≤ timer → (Access.load, DeviceRegister.sysctrl1) ∈ prvSysctrlEnableTimer timer := by
    decide
  simp [timerInit, hall timer h]

end
end Trace

open Trace in
/-- Only the initialisation of a late timer -/
theorem DriverCall.avoids_iff (call : DriverCall) : call.trace.Avoids ↔ ¬ call.InitsLateTimer := by
  constructor
  · intro h hlate
    cases call with
    | timerInit timer value mode interrupt irqHandler =>
      exact h _ (sysctrl1_mem_timerInit hlate value mode interrupt irqHandler) rfl
    | _ => exact hlate
  · intro h
    cases call with
    | timerInit timer value mode interrupt irqHandler =>
      exact avoids_timerInit (Fin.not_le.1 h) value mode interrupt irqHandler
    | timerSetMode timer mode => exact avoids_timerSetMode timer mode
    | timerReset timer => exact avoids_timerReset timer
    | timerEnableInterrupt timer => exact avoids_timerEnableInterrupt timer
    | timerDisableInt timer => exact avoids_timerDisableInt timer
    | timerClearInterrupt timer => exact avoids_timerClearInterrupt timer
    | gicEnableInterrupt id => exact avoids_gicEnableInterrupt id
    | gicDisableInterrupt id => exact avoids_gicDisableInterrupt id
    | gicSetSwi => exact avoids_prvGicEnable.append (by simp [Avoids])
    | timerResume timer => exact avoids_modify (by simp)
    | timerPause timer => exact avoids_modify (by simp)
    | timerLoadMs timer value => simp [Avoids, trace, Trace.timerLoadMs, Trace.timerLoadUs]
    | timerLoadUs timer value => simp [Avoids, trace, Trace.timerLoadUs]
    | timerTimeMs timer => simp [Avoids, trace, Trace.timerTimeMs]
    | timerTimeUs timer => simp [Avoids, trace, Trace.timerTimeUs]
    | timerInterrupted timer => simp [Avoids, trace, Trace.timerInterrupted]
    | gicGetId => simp [Avoids, trace, Trace.gicGetId]
    | gicGetPriority => simp [Avoids, trace, Trace.gicGetPriority]
    | gicClearInterrupt id => simp [Avoids, trace, Trace.gicClearInterrupt]

/-! ## Translations -/

/-- The table maps the address to itself, as device memory. -/
def DeviceAt (memory : Nat → Word) (t : Nat) (va : Word) : Prop :=
  ∃ domain attributes, walk memory t va = .smallPage va domain attributes ∧ attributes.ShareableDevice

/-- Whatever register the call reaches is mapped, so that it takes no translation fault. -/
def DriverCall.Mapped (call : DriverCall) (memory : Nat → Word) (t : Nat) : Prop :=
  ∀ p ∈ call.trace, DeviceAt memory t p.2.addr

theorem hardware_device : ∀ s ∈ hardwareSections, s.attributes.ShareableDevice := by decide

namespace DeviceRegister

/-- Registers lie between the vector table and ROM. -/
theorem addr_between (register : DeviceRegister) :
    2 ^ 20 ≤ register.addr.toNat ∧ register.addr.toNat < ldRomOrigin.toNat := by
  cases register with
  | timer i register =>
    revert i
    cases register <;> decide
  | gic register =>
    cases register with
    | setEnable i =>
      revert i
      decide
    | _ => decide
  | sysctrl0 => decide
  | sysctrl1 => decide

/-- The sections for devices have every register but that of SYSCTRL1. -/
theorem touched_iff (register : DeviceRegister) :
    (∃ s ∈ hardwareSections, s.Touches (pageOf register.addr)) ↔ register ≠ .sysctrl1 := by
  cases register with
  | timer i register =>
    simp only [ne_eq, reduceCtorEq, not_false_eq_true, iff_true]
    revert i
    cases register <;> decide
  | gic register =>
    simp only [ne_eq, reduceCtorEq, not_false_eq_true, iff_true]
    cases register with
    | setEnable i =>
      revert i
      decide
    | _ => decide
  | sysctrl0 => decide
  | sysctrl1 => decide

end DeviceRegister

section
variable {k : Link} {b : Boot} {memory : Nat → Word} {p : Nat × List SectionDesc} {va : Word}

/-- Between the vector table and ROM a table has the sections for devices only. -/
theorem touched_hardware (h : k.Linked) (hd : k.KernelApart) (hp : p ∈ k.addressSpaces) (hlo : 2 ^ 20 ≤ va.toNat)
    (hhi : va.toNat < ldRomOrigin.toNat) {s : SectionDesc} (hs : s ∈ p.2) (htouches : s.Touches (pageOf va)) :
    s ∈ hardwareSections := by
  change va.toNat < 0x70010000 at hhi
  unfold Touches pageOf at htouches
  have hkernel : s ∈ k.kernelMap → s ∈ hardwareSections := by
    intro hs
    rcases List.mem_append.1 hs with hs | hs
    · have hid := Link.kernel_identity h s hs
      have haround := Link.kernel_around h s hs
      change _ ∨ 0x70010000 ≤ _ at haround
      rw [hid.pa] at haround
      obtain ⟨v, hv⟩ := hid.aligned
      omega
    · exact hs
  have htask : ∀ T : k.Task, s ∈ T.sections → s ∈ hardwareSections := by
    -- no section of a task lies below ROM
    intro T hs
    have hstart := (T.inTask s hs).le_vma
    have horigin := T.le_origin
    change 0x71020000 ≤ _ at horigin
    omega
  simp only [Link.addressSpaces, List.mem_cons, List.not_mem_nil, or_false] at hp
  rcases hp with rfl | rfl | rfl
  · exact hkernel hs
  · exact (List.mem_append.1 hs).elim hkernel (htask (Link.firstTask h hd))
  · exact (List.mem_append.1 hs).elim hkernel (htask (Link.secondTask h hd))

theorem deviceAt_register (h : k.Linked) (hd : k.KernelApart) (hp : p ∈ k.addressSpaces) (hmaps : Maps memory p.1 p.2)
    {register : DeviceRegister} (hne : register ≠ .sysctrl1) : DeviceAt memory p.1 register.addr := by
  obtain ⟨s, hs, htouches⟩ := (DeviceRegister.touched_iff register).2 hne
  obtain ⟨domain, hwalk⟩ := walk_kernelMap h hd hp hmaps (List.mem_append_right _ hs) htouches
  exact ⟨domain, s.attributes, hwalk, hardware_device s hs⟩

theorem walk_sysctrl1 (h : k.Linked) (hd : k.KernelApart) (hp : p ∈ k.addressSpaces) (hmaps : Maps memory p.1 p.2) :
    walk memory p.1 SYSCTRL1_BASE = .fault := by
  refine hmaps.unmapped _ fun s hs htouches => ?_
  obtain ⟨hlo, hhi⟩ := DeviceRegister.addr_between .sysctrl1
  exact (DeviceRegister.touched_iff .sysctrl1).1 ⟨s, touched_hardware h hd hp hlo hhi hs htouches, htouches⟩ rfl

/-- A table that has been filled maps the registers of a call unless the call reaches SYSCTRL1. -/
theorem DriverCall.mapped_iff (h : k.Linked) (hd : k.KernelApart) (hp : p ∈ k.addressSpaces)
    (hmaps : Maps memory p.1 p.2) (call : DriverCall) : call.Mapped memory p.1 ↔ ¬ call.InitsLateTimer := by
  rw [← call.avoids_iff]
  constructor
  · rintro hmapped ⟨access, register⟩ hmem rfl
    obtain ⟨domain, attributes, hwalk, -⟩ := hmapped _ hmem
    have hfault := walk_sysctrl1 h hd hp hmaps
    rw [show DeviceRegister.sysctrl1.addr = SYSCTRL1_BASE from rfl, hfault] at hwalk
    cases hwalk
  · rintro havoids ⟨access, register⟩ hmem
    exact deviceAt_register h hd hp hmaps (havoids _ hmem)

/-- The table of the kernel after `mmu_init`, and all three after `prv_task_init` -/
theorem boot_maps (h : k.Linked) (hd : k.KernelApart) (hb : Booted k b) :
    ∃ b1 b2, Returns (fun n => mmuInit k n b) b1 ∧ Returns (fun n => prvTaskInit k n b1) b2 ∧
      Maps b1.mmu.mem k.kernelTable1 k.kernelMap ∧ ∀ p ∈ k.addressSpaces, Maps b2.mmu.mem p.1 p.2 := by
  obtain ⟨b1, b2, maps, q, hrun1, hrun2, hkernel, -, hheld, hspaces, -⟩ := boot_spec h hd hb
  exact ⟨b1, b2, hrun1, hrun2, hkernel, hheld.addressSpaces hspaces⟩

/-- Under every table that the kernel has built, exactly the calls that initialise one of TIMER4 to TIMER7
reach a register that is not mapped. -/
theorem driver_registers_mapped_iff (h : k.Linked) (hd : k.KernelApart) (hb : Booted k b) :
    ∃ b1 b2, Returns (fun n => mmuInit k n b) b1 ∧ Returns (fun n => prvTaskInit k n b1) b2 ∧
      ∀ call : DriverCall, (call.Mapped b1.mmu.mem k.kernelTable1 ↔ ¬ call.InitsLateTimer) ∧
        ∀ t ∈ [k.kernelTable1, k.task1.table1, k.task2.table1],
          (call.Mapped b2.mmu.mem t ↔ ¬ call.InitsLateTimer) := by
  obtain ⟨b1, b2, hrun1, hrun2, hkernel, hmaps⟩ := boot_maps h hd hb
  refine ⟨b1, b2, hrun1, hrun2, fun call => ⟨?_, ?_⟩⟩
  · exact call.mapped_iff (p := (k.kernelTable1, k.kernelMap)) h hd List.mem_cons_self hkernel
  · have hall : ∀ p ∈ k.addressSpaces, (call.Mapped b2.mmu.mem p.1 ↔ ¬ call.InitsLateTimer) := fun p hp =>
      call.mapped_iff h hd hp (hmaps p hp)
    simpa [Link.addressSpaces] using hall

end

/-- The first and the fifth timer, under the table of the first task -/
theorem driver_registers_mapped_small : ∃ b1 b2, Returns (fun n => mmuInit exampleLink n exampleBoot) b1 ∧
    Returns (fun n => prvTaskInit exampleLink n b1) b2 ∧
    (DriverCall.timerInit 0 10000 2 1 0x70025000).Mapped b2.mmu.mem exampleTask1.table1 ∧
    ¬ (DriverCall.timerInit 4 10000 2 1 0x70025000).Mapped b2.mmu.mem exampleTask1.table1 := by
  obtain ⟨b1, b2, hrun1, hrun2, hcalls⟩ :=
    driver_registers_mapped_iff exampleLink_linked exampleLink_disjoint.kernelApart exampleBoot_booted
  have htable : exampleTask1.table1 ∈ [exampleLink.kernelTable1, exampleLink.task1.table1, exampleLink.task2.table1] :=
    List.mem_cons_of_mem _ List.mem_cons_self
  refine ⟨b1, b2, hrun1, hrun2, ?_, ?_⟩
  · exact ((hcalls (.timerInit 0 10000 2 1 0x70025000)).2 _ htable).2 (by decide : ¬ (4 : Fin 8) ≤ 0)
  · intro hmapped
    exact ((hcalls (.timerInit 4 10000 2 1 0x70025000)).2 _ htable).1 hmapped (by decide : (4 : Fin 8) ≤ 4)

/-- TIMER4, under the table of the first task -/
theorem not_driver_registers_mapped : ¬ ∀ (k : Link) (b b1 b2 : Boot), k.Linked → k.KernelApart → Booted k b →
    Returns (fun n => mmuInit k n b) b1 → Returns (fun n => prvTaskInit k n b1) b2 → ∀ call : DriverCall,
    ∀ t ∈ [k.kernelTable1, k.task1.table1, k.task2.table1], call.Mapped b2.mmu.mem t := by
  intro hall
  have hd := exampleLink_disjoint.kernelApart
  obtain ⟨b1, b2, hrun1, hrun2, -, hmaps⟩ := boot_maps exampleLink_linked hd exampleBoot_booted
  have hspace : (exampleTask1.table1, exampleLink.taskMap exampleLink.task1Sections) ∈ exampleLink.addressSpaces :=
    List.mem_cons_of_mem _ List.mem_cons_self
  have hmapped := hall exampleLink exampleBoot b1 b2 exampleLink_linked hd exampleBoot_booted hrun1 hrun2
    (.timerInit 4 10000 2 1 0x70025000) exampleTask1.table1 (List.mem_cons_of_mem _ List.mem_cons_self)
  exact (DriverCall.mapped_iff exampleLink_linked hd hspace (hmaps _ hspace) _).1 hmapped (by decide : (4 : Fin 8) ≤ 4)

end Td3.Kernel
