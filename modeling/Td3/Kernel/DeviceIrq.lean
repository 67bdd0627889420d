/-
IRQs of devices: a timer other than TIMER0 whose handler only clears its own interrupt. `IRQ_handler`
still saves into the slot of the last task and dispatches that of the current one, whatever raised the
IRQ. Before the first tick these are one slot, and the task does not notice. After a tick they are
two: the interrupted task is thrown back to where its slot was last saved, and its registers land in
the slot of another task.
-/
import Td3.Kernel.Ticks

namespace Td3.Kernel

open Arm

namespace Machine

variable {L : Layout} {sym : Symbols} (env : Env) {m m' : Machine}

/-! ## One IRQ of a device -/

/-- The timer whose handler `irq_handler` calls. -/
def raisedBy (k : Globals) : Option (Fin 8) :=
  let id := gicGetId k
  if id = INT_TIMER_0_AND_1 then some (if timerInterrupted 0 k then 0 else 1)
  else if id = INT_TIMER_2_AND_3 then some (if timerInterrupted 2 k then 2 else 3)
  else if id = INT_TIMER_4_AND_5 then some (if timerInterrupted 4 k then 4 else 5)
  else if id = INT_TIMER_6_AND_7 then some (if timerInterrupted 6 k then 6 else 7)
  else none

/-- An IRQ of one of TIMER1 to TIMER7, whose handler only clears it. -/
def DeviceIrq (k : Globals) : Prop :=
  ∃ timer, timer ≠ 0 ∧ raisedBy k = some timer ∧ (k.timers timer).irqHandler = .clearInterrupt timer

theorem irqHandler_raisedBy {k : Globals} {timer : Fin 8} (h : raisedBy k = some timer) :
    irqHandler k = some (0, callTimerHandler timer k) := by
  have hcall : ∀ a b : Fin 8, (if timerInterrupted a k then callTimerHandler a k else callTimerHandler b k) =
      callTimerHandler (if timerInterrupted a k then a else b) k :=
    fun a b => (apply_ite (callTimerHandler · k) _ a b).symm
  simp only [raisedBy] at h
  simp only [irqHandler, hcall]
  by_cases h0 : gicGetId k = INT_TIMER_0_AND_1
  · rw [if_pos h0] at h ⊢
    rw [Option.some.inj h]
  rw [if_neg h0] at h ⊢
  by_cases h2 : gicGetId k = INT_TIMER_2_AND_3
  · rw [if_pos h2] at h ⊢
    rw [Option.some.inj h]
  rw [if_neg h2] at h ⊢
  by_cases h4 : gicGetId k = INT_TIMER_4_AND_5
  · rw [if_pos h4] at h ⊢
    rw [Option.some.inj h]
  rw [if_neg h4] at h ⊢
  by_cases h6 : gicGetId k = INT_TIMER_6_AND_7
  · rw [if_pos h6] at h ⊢
    rw [Option.some.inj h]
  rw [if_neg h6] at h
  cases h

theorem irqHandler_device {k : Globals} (h : DeviceIrq k) :
    ∃ k', irqHandler k = some (0, k') ∧ k'.prvCurrentTask = k.prvCurrentTask ∧ k'.prvLastTask = k.prvLastTask := by
  obtain ⟨timer, -, hraised, hhandler⟩ := h
  refine ⟨_, irqHandler_raisedBy hraised, ?_, ?_⟩
  · rw [callTimerHandler, hhandler]
    rfl
  · rw [callTimerHandler, hhandler]
    rfl

/-- Where `m'` is after an IRQ of a device interrupted the task of `m`. -/
structure DeviceHandled (L : Layout) (m m' : Machine) : Prop extends Dispatched L m m' where
  current : m'.kernel.prvCurrentTask = m.kernel.prvCurrentTask
  last : m'.kernel.prvLastTask = m.kernel.prvLastTask
  saved : L.context m'.cpu.mem m.kernel.prvLastTask =
    (L.context m.cpu.mem m.kernel.prvLastTask).save (Kernel.thread m.cpu)
      (savedNeon m.cpu (L.context m.cpu.mem m.kernel.prvLastTask))
  others : ∀ slot, slot < SCHEDULER_MAX_TASKS → slot ≠ m.kernel.prvLastTask →
    L.context m'.cpu.mem slot = L.context m.cpu.mem slot

theorem device_spec (h : Interruptible L m) (hd : DeviceIrq m.kernel) :
    ∃ m', m.interrupt.irqHandlerAsm L env = some m' ∧ DeviceHandled L m m' := by
  obtain ⟨k', hk, hcur, hlast⟩ := irqHandler_device hd
  obtain ⟨m', hm', hk', hdisp, -, hsaved, hmem⟩ := irqHandlerAsm_switch env h hk (hlast ▸ h.last) (hcur ▸ h.current)
  rw [hlast] at hsaved hmem
  refine ⟨m', hm', hdisp, ?_, ?_, hsaved, ?_⟩
  · rw [hk', hcur]
  · rw [hk', hlast]
  · intro slot hs hne
    refine Layout.context_congr fun i hi => hmem i (Layout.not_irqScratch_of_slot hs hi) fun hi' => hne ?_
    exact Layout.slot_unique hi hi'

/-! ## Reachable states -/

/-- The states in which a task runs: after the first dispatch, any work of the tasks, any ticks and any
IRQs of devices. -/
inductive Running (L : Layout) (sym : Symbols) : Machine → Prop where
  | dispatch {m m' : Machine} (env : Env) (hm : Started L sym m) (hirq : m.interrupt.irqHandlerAsm L env = some m') :
    Running L sym m'
  | work {m m' : Machine} (hm : Running L sym m) (hw : Work L m m') : Running L sym m'
  | tick {m m' : Machine} (env : Env) (hm : Running L sym m) (htask : TaskCode m.cpu) (ht : Tick m.kernel)
    (hirq : m.interrupt.irqHandlerAsm L env = some m') : Running L sym m'
  | device {m m' : Machine} (env : Env) (hm : Running L sym m) (htask : TaskCode m.cpu) (hd : DeviceIrq m.kernel)
    (hirq : m.interrupt.irqHandlerAsm L env = some m') : Running L sym m'

theorem Running.ready (h : Running L sym m) : SchedulerReady L m := by
  induction h with
  | dispatch env hm hirq =>
    obtain ⟨hd, hcur, hlast, -, -⟩ := of_handled (start_spec env hm) hirq
    exact hd.ready hm.toSchedulerReady (by rw [hlast]; decide) (by rw [hcur]; decide)
  | work _ hw ih => exact (hw.interruptible ih).toSchedulerReady
  | tick env _ htask ht hirq ih =>
    exact (of_handled (tick_spec env ⟨htask, ih⟩ ht) hirq).ready ih
  | device env _ htask hd hirq ih =>
    have hh := of_handled (device_spec env ⟨htask, ih⟩ hd) hirq
    exact hh.toDispatched.ready ih (hh.last ▸ ih.last) (hh.current ▸ ih.current)

/-! ## What the interrupted task sees -/

/-- The IRQ is transparent: the task goes on as it was, and no context but its own has changed. -/
structure Unaffected (L : Layout) (m m' : Machine) : Prop where
  thread : Kernel.thread m'.cpu = Kernel.thread m.cpu
  others : ∀ slot, slot < SCHEDULER_MAX_TASKS → slot ≠ m.kernel.prvCurrentTask →
    L.context m'.cpu.mem slot = L.context m.cpu.mem slot

/-- A context holds what the registers of the interrupted task are: all of them, as `save_context`
stores them. -/
structure HoldsTask (m : Cpu) (c : TaskContext) : Prop where
  table1Addr : c.table1Addr = m.ttbr0
  spsr : c.spsr = m.cpsr.toWord
  r0ToR12 : c.r0ToR12 = m.r
  sp : c.sp = m.sp .user
  lr : c.lr = m.lr .user
  pc : c.pc = m.pc + 4#32
  neon : neonEnabled m.fpexc = true → c.fpscr = m.fpscr ∧ c.q = m.q

/-- ... or what `load_new_context` makes them. -/
structure LoadsTask (m : Cpu) (c : TaskContext) : Prop where
  table1Addr : c.table1Addr = m.ttbr0
  spsr : m.cpsr.withFc (.ofWord c.spsr) = m.cpsr
  r0ToR12 : c.r0ToR12 = m.r
  sp : c.sp = m.sp .user
  lr : c.lr = m.lr .user
  pc : alignPc m.cpsr (c.pc - 4#32) = m.pc

theorem save_eq_self_iff {m : Cpu} {c : TaskContext} :
    c.save (Kernel.thread m) (savedNeon m c) = c ↔ HoldsTask m c := by
  rw [TaskContext.ext_iff]
  constructor
  · rintro ⟨h1, -, h3, h4, h5, h6, h7, h8, h9⟩
    refine ⟨h1.symm, h3.symm, h4.symm, h5.symm, h6.symm, h7.symm, ?_⟩
    intro hen
    have hneon : savedNeon m c = Kernel.neon m := by rw [savedNeon, if_pos hen]
    rw [hneon] at h8 h9
    exact ⟨h8.symm, h9.symm⟩
  · rintro ⟨h1, h2, h3, h4, h5, h6, h7⟩
    have hneon : savedNeon m c = c.neon := by
      rw [savedNeon]
      split_ifs with hen
      · exact Neon.ext (h7 hen).1.symm (h7 hen).2.symm
      · rfl
    rw [hneon]
    exact ⟨h1.symm, rfl, h2.symm, h3.symm, h4.symm, h5.symm, h6.symm, rfl, rfl⟩

theorem resume_eq_iff {m : Cpu} {c : TaskContext} : c.resume m.cpsr = Kernel.thread m ↔ LoadsTask m c := by
  rw [Thread.ext_iff]
  constructor
  · rintro ⟨h1, h2, h3, h4, h5, h6⟩
    have hpsr : m.cpsr.withFc (.ofWord c.spsr) = m.cpsr := h5
    refine ⟨h6, hpsr, h1, h2, h3, ?_⟩
    rw [← hpsr]
    exact h4
  · rintro ⟨h1, h2, h3, h4, h5, h6⟩
    refine ⟨h3, h4, h5, ?_, h2, h1⟩
    show alignPc (m.cpsr.withFc (.ofWord c.spsr)) (c.pc - 4#32) = m.pc
    rw [h2]
    exact h6

/-- In every state reached, an IRQ of a device is transparent exactly if the last task is the current
one (there has been no tick), or the contexts of both happen to hold the interrupted task already. -/
theorem device_unaffected_iff (hr : Running L sym m) (htask : TaskCode m.cpu) (hd : DeviceIrq m.kernel) :
    ∃ m', m.interrupt.irqHandlerAsm L env = some m' ∧ (Unaffected L m m' ↔
      m.kernel.prvLastTask = m.kernel.prvCurrentTask ∨
        HoldsTask m.cpu (L.context m.cpu.mem m.kernel.prvLastTask) ∧
          LoadsTask m.cpu (L.context m.cpu.mem m.kernel.prvCurrentTask)) := by
  obtain ⟨m', hm', hh⟩ := device_spec env ⟨htask, hr.ready⟩ hd
  refine ⟨m', hm', ?_⟩
  have hthread := hh.thread
  rw [hh.current] at hthread
  by_cases heq : m.kernel.prvLastTask = m.kernel.prvCurrentTask
  · refine iff_of_true ⟨?_, ?_⟩ (.inl heq)
    · rw [hthread, ← heq, hh.saved]
      exact (TaskContext.resume_save_iff htask.aligned).2 ⟨rfl, rfl, rfl, rfl, rfl⟩
    · rw [← heq]
      exact hh.others
  · rw [hh.others _ hr.ready.current (Ne.symm heq)] at hthread
    rw [or_iff_right heq, ← save_eq_self_iff, ← resume_eq_iff]
    constructor
    · intro hu
      refine ⟨?_, ?_⟩
      · rw [← hh.saved]
        exact hu.others _ hr.ready.last heq
      · rw [← hthread]
        exact hu.thread
    · rintro ⟨hsave, hresume⟩
      refine ⟨hthread.trans hresume, ?_⟩
      intro slot hs _
      by_cases hlast : slot = m.kernel.prvLastTask
      · rw [hlast, hh.saved]
        exact hsave
      · exact hh.others slot hs hlast

/-! ## Before and after the first tick -/

/-- A task runs with `r0` in its registers, and an IRQ is raised. -/
def exampleIrq (r0 id : Word) (timers : Fin 8 → Timer) (m : Machine) : Machine where
  cpu := { m.cpu with cpsr := examplePsr 0, pc := 0, r := fun _ => r0 }
  kernel := { m.kernel with intAck := id, timers := timers }

/-- TIMER0 has expired, TIMER2 has expired. -/
def exampleTick (r0 : Word) : Machine → Machine :=
  exampleIrq r0 INT_TIMER_0_AND_1 fun _ => ⟨1, .prvSchedulerChangeTask⟩
def exampleTimer2 (r0 : Word) : Machine → Machine :=
  exampleIrq r0 INT_TIMER_2_AND_3 fun _ => ⟨1, .clearInterrupt 2⟩

theorem work_exampleIrq (r0 id : Word) (timers : Fin 8 → Timer) (m : Machine) :
    Work L m (exampleIrq r0 id timers m) := by
  refine ⟨⟨.inl rfl, rfl, ?_⟩, fun _ _ => rfl, rfl, rfl, rfl⟩
  show alignPc (examplePsr 0) 0 = 0
  rfl

theorem work_exampleTick (r0 : Word) (m : Machine) : Work L m (exampleTick r0 m) := work_exampleIrq ..
theorem work_exampleTimer2 (r0 : Word) (m : Machine) : Work L m (exampleTimer2 r0 m) := work_exampleIrq ..

theorem tick_exampleTick (r0 : Word) (m : Machine) : Tick (exampleTick r0 m).kernel := by
  refine ⟨?_, ?_, rfl⟩
  · show INT_TIMER_0_AND_1 &&& 0x3FF = INT_TIMER_0_AND_1
    decide
  · show decide ((1 : Word) &&& 1 ≠ 0) = true
    decide

theorem device_exampleTimer2 (r0 : Word) (m : Machine) : DeviceIrq (exampleTimer2 r0 m).kernel := by
  have hid : gicGetId (exampleTimer2 r0 m).kernel = INT_TIMER_2_AND_3 := by
    show INT_TIMER_2_AND_3 &&& 0x3FF = INT_TIMER_2_AND_3
    decide
  have hint : timerInterrupted 2 (exampleTimer2 r0 m).kernel = true := by
    show decide ((1 : Word) &&& 1 ≠ 0) = true
    decide
  refine ⟨2, by decide, ?_, rfl⟩
  rw [raisedBy, hid]
  simp [hint, INT_TIMER_0_AND_1, INT_TIMER_2_AND_3]

/-- TIMER2 interrupts slot 0 before the first tick. -/
theorem device_unaffected_first : ∃ m m', Running exampleLayout exampleSymbols m ∧ DeviceIrq m.kernel ∧
    m.interrupt.irqHandlerAsm exampleLayout exampleEnv = some m' ∧ Unaffected exampleLayout m m' := by
  obtain ⟨m0, h0, -, hcur, hlast, -, -⟩ := start_spec exampleEnv started_exampleStart
  have hr := (Running.dispatch exampleEnv started_exampleStart h0).work (work_exampleTimer2 (L := exampleLayout) 7 m0)
  obtain ⟨m', hm', hiff⟩ := device_unaffected_iff (m := exampleTimer2 7 m0) exampleEnv hr
    (work_exampleTimer2 (L := exampleLayout) 7 m0).task (device_exampleTimer2 7 m0)
  exact ⟨_, m', hr, device_exampleTimer2 7 m0, hm', hiff.2 (.inl (hlast.trans hcur.symm))⟩

/-- TIMER2 interrupts slot 1 after the first tick: slot 0, which the tick interrupted with 7 in its
registers, is saved over. -/
theorem not_device_unaffected_tick : ¬ ∀ (L : Layout) (sym : Symbols) (env : Env) (m m' : Machine),
    Running L sym m → TaskCode m.cpu → DeviceIrq m.kernel → m.interrupt.irqHandlerAsm L env = some m' →
      Unaffected L m m' := by
  intro hall
  obtain ⟨m0, h0, -, hcur0, -, -, -⟩ := start_spec exampleEnv started_exampleStart
  have hr0 := (Running.dispatch exampleEnv started_exampleStart h0).work (work_exampleTick (L := exampleLayout) 7 m0)
  obtain ⟨m1, h1, ht⟩ := tick_spec (m := exampleTick 7 m0) exampleEnv
    ⟨(work_exampleTick (L := exampleLayout) 7 m0).task, hr0.ready⟩ (tick_exampleTick 7 m0)
  have hr1 := ((hr0.tick exampleEnv (work_exampleTick (L := exampleLayout) 7 m0).task (tick_exampleTick 7 m0) h1)).work
    (work_exampleTimer2 (L := exampleLayout) 9 m1)
  have hlast : m1.kernel.prvLastTask = 0 := ht.last.trans hcur0
  have hcur : m1.kernel.prvCurrentTask = 1 := by
    rw [ht.current]
    show (m0.kernel.prvCurrentTask + 1) % SCHEDULER_MAX_TASKS = 1
    rw [hcur0]
    rfl
  obtain ⟨m2, h2, hh⟩ := device_spec (m := exampleTimer2 9 m1) exampleEnv
    ⟨(work_exampleTimer2 (L := exampleLayout) 9 m1).task, hr1.ready⟩ (device_exampleTimer2 9 m1)
  have hu := hall _ _ exampleEnv _ _ hr1 (work_exampleTimer2 (L := exampleLayout) 9 m1).task (device_exampleTimer2 9 m1) h2
  have hsame := hu.others 0 (by decide) (by show 0 ≠ m1.kernel.prvCurrentTask; rw [hcur]; decide)
  have h9 := hh.saved
  have h7 := ht.saved
  rw [show (exampleTimer2 9 m1).kernel.prvLastTask = 0 from hlast, hsame] at h9
  rw [show (exampleTick 7 m0).kernel.prvCurrentTask = 0 from hcur0] at h7
  have hr : (7 : Word) = 9 := (congrFun (congrArg TaskContext.r0ToR12 h7) 0).symm.trans
    (congrFun (congrArg TaskContext.r0ToR12 h9) 0)
  exact absurd hr (by decide)

end Machine
end Td3.Kernel
