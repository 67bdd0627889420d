/-
Runs of the scheduler: the first IRQ is the software one `__scheduler_start` raises, every later one
the tick of TIMER0, and between two of them the tasks run. The tick dispatches the slots in turn, each
with its own ASID, and touches no context but that of the task it interrupts.

What a slot resumes to is what it was interrupted with, except for the bits 23 to 8 of the CPSR:
`msr spsr, r0` does not write them, so they come from whatever code the tick interrupted. The task is
resumed as it was exactly if these happen to be equal.
-/
import Td3.Kernel.ContextSwitch

namespace Td3.Kernel

open Arm

namespace Machine

variable {L : Layout} {sym : Symbols} (env : Env) {m m' : Machine}

/-! ## One IRQ -/

/-- A handler that has returned left what its specification says. -/
theorem of_handled {result : Option Machine} {P : Machine → Prop} (hspec : ∃ m', result = some m' ∧ P m')
    (h : result = some m) : P m := by
  obtain ⟨m', hm', hp⟩ := hspec
  obtain rfl := Option.some.inj (hm'.symm.trans h)
  exact hp

/-- What the tasks do between two IRQs: anything to the registers, flags and memory but to the
scheduler's own variables and its stack. -/
structure Work (L : Layout) (m m' : Machine) : Prop where
  task : TaskCode m'.cpu
  context : ∀ slot, slot < SCHEDULER_MAX_TASKS → L.context m'.cpu.mem slot = L.context m.cpu.mem slot
  current : m'.kernel.prvCurrentTask = m.kernel.prvCurrentTask
  last : m'.kernel.prvLastTask = m.kernel.prvLastTask
  irqSp : m'.cpu.sp .irq = m.cpu.sp .irq

theorem Work.interruptible (h : Work L m m') (hm : SchedulerReady L m) : Interruptible L m' := by
  refine ⟨h.task, ?_, ?_, ?_⟩
  · rw [h.last]
    exact hm.last
  · rw [h.current]
    exact hm.current
  · rw [h.irqSp]
    exact hm.irqSp

/-- The IRQ is the one `__gic_set_swi` raises. -/
def SoftwareIrq (k : Globals) : Prop := gicGetId k = INT_SOFTWARE

/-- The IRQ is the tick `__scheduler_start` sets TIMER0 to. -/
structure Tick (k : Globals) : Prop where
  id : gicGetId k = INT_TIMER_0_AND_1
  interrupted : timerInterrupted 0 k = true
  handler : (k.timers 0).irqHandler = .prvSchedulerChangeTask

theorem irqHandler_software {k : Globals} (h : SoftwareIrq k) :
    irqHandler k = some (IRQ_DONT_SWITCH_CONTEXT, gicClearInterrupt INT_SOFTWARE k) := by
  unfold SoftwareIrq at h
  rw [irqHandler, h]
  rfl

theorem irqHandler_tick {k : Globals} (h : Tick k) : irqHandler k = some (0, prvSchedulerChangeTask k) := by
  rw [irqHandler, h.id]
  simp [h.interrupted, callTimerHandler, h.handler]

theorem prvSchedulerChangeTask_current {k : Globals} (h : k.prvCurrentTask < SCHEDULER_MAX_TASKS) :
    (prvSchedulerChangeTask k).prvCurrentTask = (k.prvCurrentTask + 1) % SCHEDULER_MAX_TASKS := by
  show (if k.prvCurrentTask + 1 = SCHEDULER_MAX_TASKS then 0 else k.prvCurrentTask + 1) = _
  split_ifs with hmax
  · rw [hmax, Nat.mod_self]
  · exact (Nat.mod_eq_of_lt (by omega)).symm

theorem Dispatched.ready (h : Dispatched L m m') (hm : SchedulerReady L m)
    (hlast : m'.kernel.prvLastTask < SCHEDULER_MAX_TASKS) (hcur : m'.kernel.prvCurrentTask < SCHEDULER_MAX_TASKS) :
    SchedulerReady L m' := by
  refine ⟨hlast, hcur, ?_⟩
  rw [h.sp .irq (by decide)]
  exact hm.irqSp

/-- The software IRQ dispatches the current slot and saves nothing. -/
theorem software_spec (h : Interruptible L m) (hsoft : SoftwareIrq m.kernel) :
    ∃ m', m.interrupt.irqHandlerAsm L env = some m' ∧ Dispatched L m m' ∧
      m'.kernel.prvCurrentTask = m.kernel.prvCurrentTask ∧ m'.kernel.prvLastTask = m.kernel.prvLastTask ∧
      m'.cpu.fpexc = m.cpu.fpexc ∧
      ∀ slot, slot < SCHEDULER_MAX_TASKS → L.context m'.cpu.mem slot = L.context m.cpu.mem slot := by
  obtain ⟨m', hm', hk, hd, hfp, hmem⟩ := irqHandlerAsm_dispatch env h (irqHandler_software hsoft) h.current
  refine ⟨m', hm', hd, ?_, ?_, hfp, ?_⟩
  · rw [hk]
    rfl
  · rw [hk]
    rfl
  · intro slot hs
    exact Layout.context_congr fun i hi => hmem i (Layout.not_irqScratch_of_slot hs hi)

/-- Where `m'` is after a tick interrupted the task of `m`. -/
structure Ticked (L : Layout) (m m' : Machine) : Prop extends Dispatched L m m' where
  current : m'.kernel.prvCurrentTask = (m.kernel.prvCurrentTask + 1) % SCHEDULER_MAX_TASKS
  last : m'.kernel.prvLastTask = m.kernel.prvCurrentTask
  fpexc : m'.cpu.fpexc = if neonEnabled m.cpu.fpexc then 0 else m.cpu.fpexc
  saved : L.context m'.cpu.mem m.kernel.prvCurrentTask =
    (L.context m.cpu.mem m.kernel.prvCurrentTask).save (Kernel.thread m.cpu)
      (savedNeon m.cpu (L.context m.cpu.mem m.kernel.prvCurrentTask))
  others : ∀ slot, slot < SCHEDULER_MAX_TASKS → slot ≠ m.kernel.prvCurrentTask →
    L.context m'.cpu.mem slot = L.context m.cpu.mem slot

/-- The handler returns from every tick. -/
theorem tick_spec (h : Interruptible L m) (ht : Tick m.kernel) :
    ∃ m', m.interrupt.irqHandlerAsm L env = some m' ∧ Ticked L m m' := by
  have hlt : (prvSchedulerChangeTask m.kernel).prvCurrentTask < SCHEDULER_MAX_TASKS := by
    rw [prvSchedulerChangeTask_current h.current]
    exact Nat.mod_lt _ (by decide)
  obtain ⟨m', hm', hk, hd, hfp, hsaved, hmem⟩ := irqHandlerAsm_switch env h (irqHandler_tick ht) h.current hlt
  refine ⟨m', hm', hd, ?_, ?_, hfp, hsaved, ?_⟩
  · rw [hk, prvSchedulerChangeTask_current h.current]
  · rw [hk]
    rfl
  · intro slot hs hne
    refine Layout.context_congr fun i hi => hmem i (Layout.not_irqScratch_of_slot hs hi) fun hi' => hne ?_
    exact Layout.slot_unique hi hi'

theorem Ticked.ready (h : Ticked L m m') (hm : SchedulerReady L m) : SchedulerReady L m' := by
  refine h.toDispatched.ready hm ?_ ?_
  · rw [h.last]
    exact hm.current
  · rw [h.current]
    exact Nat.mod_lt _ (by decide)

/-- The ASIDs are those `__scheduler_init` gave the slots. -/
def AsidsOk (L : Layout) (m : Machine) : Prop :=
  ∀ slot, slot < SCHEDULER_MAX_TASKS → (L.context m.cpu.mem slot).asid = BitVec.ofNat 32 (slot + 1)

theorem Work.asidsOk (h : Work L m m') (hm : AsidsOk L m) : AsidsOk L m' := by
  intro slot hs
  rw [h.context slot hs]
  exact hm slot hs

theorem Ticked.asidsOk (h : Ticked L m m') (hm : AsidsOk L m) : AsidsOk L m' := by
  intro slot hs
  by_cases heq : slot = m.kernel.prvCurrentTask
  · rw [heq, h.saved]
    exact hm _ (heq ▸ hs)
  · rw [h.others slot hs heq]
    exact hm slot hs

/-- The ASID of a dispatched slot. -/
theorem Dispatched.asid (h : Dispatched L m m') (hm : AsidsOk L m')
    (hcur : m'.kernel.prvCurrentTask < SCHEDULER_MAX_TASKS) :
    m'.cpu.contextidr &&& 0xFF = BitVec.ofNat 32 (m'.kernel.prvCurrentTask + 1) := by
  rw [h.contextidr, hm _ hcur]
  have hlow : ∀ slot, slot < SCHEDULER_MAX_TASKS →
      BitVec.ofNat 32 (slot + 1) &&& 0xFF = BitVec.ofNat 32 (slot + 1) := by decide
  rw [BitVec.and_or_distrib_right, BitVec.and_assoc, hlow _ hcur]
  simp

/-! ## Runs -/

/-- The machine when the software IRQ of `__scheduler_start` is taken. -/
structure Started (L : Layout) (sym : Symbols) (m : Machine) : Prop extends Interruptible L m where
  current0 : m.kernel.prvCurrentTask = 0
  last0 : m.kernel.prvLastTask = 0
  prepared : ∃ mem, Prepared L sym mem ∧
    ∀ slot, slot < SCHEDULER_MAX_TASKS → L.context m.cpu.mem slot = L.context mem slot
  software : SoftwareIrq m.kernel

theorem Started.asidsOk (h : Started L sym m) : AsidsOk L m := by
  obtain ⟨mem, hp, hmem⟩ := h.prepared
  intro slot hs
  rw [hmem slot hs]
  exact hp.asid hs

/-- The first dispatch, of slot 0. -/
theorem start_spec (h : Started L sym m) :
    ∃ m', m.interrupt.irqHandlerAsm L env = some m' ∧ Dispatched L m m' ∧ m'.kernel.prvCurrentTask = 0 ∧
      m'.kernel.prvLastTask = 0 ∧ m'.cpu.fpexc = m.cpu.fpexc ∧
      ∀ slot, slot < SCHEDULER_MAX_TASKS → L.context m'.cpu.mem slot = L.context m.cpu.mem slot := by
  obtain ⟨m', hm', hd, hcur, hlast, hfp, hctx⟩ := software_spec env h.toInterruptible h.software
  exact ⟨m', hm', hd, hcur.trans h.current0, hlast.trans h.last0, hfp, hctx⟩

/-- A run of `n` ticks after the first dispatch: `before k` is when the `k`-th IRQ is taken, `after k`
when it has been handled. -/
structure TickRun (L : Layout) (sym : Symbols) (n : Nat) (before after : Nat → Machine) : Prop where
  started : Started L sym (before 0)
  tick : ∀ k, k < n → Tick (before (k + 1)).kernel
  handled : ∀ k, k ≤ n → ∃ env, (before k).interrupt.irqHandlerAsm L env = some (after k)
  work : ∀ k, k < n → Work L (after k) (before (k + 1))

section
variable {n : Nat} {before after : Nat → Machine} (h : TickRun L sym n before after)
include h

/-- What holds after the `k`-th dispatch. -/
theorem TickRun.invariant {k : Nat} (hk : k ≤ n) :
    SchedulerReady L (after k) ∧ AsidsOk L (after k) ∧ Dispatched L (before k) (after k) ∧
      (after k).kernel.prvCurrentTask = k % SCHEDULER_MAX_TASKS := by
  induction k with
  | zero =>
    obtain ⟨env, he⟩ := h.handled 0 hk
    obtain ⟨hd, hcur, hlast, -, hctx⟩ := of_handled (start_spec env h.started) he
    refine ⟨hd.ready h.started.toSchedulerReady (by rw [hlast]; decide) (by rw [hcur]; decide), ?_, hd, hcur⟩
    intro slot hs
    rw [hctx slot hs]
    exact h.started.asidsOk slot hs
  | succ k ih =>
    obtain ⟨hready, hasids, -, hcur⟩ := ih (by omega)
    obtain ⟨env, he⟩ := h.handled (k + 1) hk
    have hw := h.work k (by omega)
    have hi := hw.interruptible hready
    have ht : Ticked L (before (k + 1)) (after (k + 1)) := of_handled (tick_spec env hi (h.tick k (by omega))) he
    refine ⟨ht.ready hi.toSchedulerReady, ht.asidsOk (hw.asidsOk hasids), ht.toDispatched, ?_⟩
    rw [ht.current, hw.current, hcur, Nat.mod_add_mod]

theorem TickRun.ticked {k : Nat} (hk : k < n) : Ticked L (before (k + 1)) (after (k + 1)) := by
  obtain ⟨env, he⟩ := h.handled (k + 1) hk
  have hi := (h.work k hk).interruptible (h.invariant (by omega)).1
  exact of_handled (tick_spec env hi (h.tick k hk)) he

theorem TickRun.interrupted_current {k : Nat} (hk : k < n) :
    (before (k + 1)).kernel.prvCurrentTask = k % SCHEDULER_MAX_TASKS := by
  rw [(h.work k hk).current]
  exact (h.invariant (by omega)).2.2.2

/-- Until its slot is dispatched again, the context of an interrupted task stays as it was saved. -/
theorem TickRun.context_kept {k j : Nat} (hj : j < SCHEDULER_MAX_TASKS) (hk : k + 1 + j ≤ n) :
    L.context (after (k + 1 + j)).cpu.mem (k % SCHEDULER_MAX_TASKS) =
      (L.context (before (k + 1)).cpu.mem (k % SCHEDULER_MAX_TASKS)).save (Kernel.thread (before (k + 1)).cpu)
        (savedNeon (before (k + 1)).cpu (L.context (before (k + 1)).cpu.mem (k % SCHEDULER_MAX_TASKS))) := by
  have hlt : k % SCHEDULER_MAX_TASKS < SCHEDULER_MAX_TASKS := Nat.mod_lt _ (by decide)
  induction j with
  | zero =>
    have hs := (h.ticked (k := k) (by omega)).saved
    rwa [h.interrupted_current (by omega)] at hs
  | succ j ih =>
    have ht := h.ticked (k := k + 1 + j) (by omega)
    have hne : k % SCHEDULER_MAX_TASKS ≠ (before (k + 1 + j + 1)).kernel.prvCurrentTask := by
      rw [h.interrupted_current (by omega)]
      unfold SCHEDULER_MAX_TASKS at *
      omega
    rw [← ih (by omega) (by omega), ← (h.work (k + 1 + j) (by omega)).context _ hlt]
    exact ht.others _ hlt hne

/-- A slot resumes to the thread it was interrupted as exactly if the tick that dispatches it again
interrupts code with the same bits 23 to 8 in its CPSR. -/
theorem TickRun.resumed_iff {k : Nat} (hk : k + SCHEDULER_MAX_TASKS ≤ n) :
    Kernel.thread (after (k + SCHEDULER_MAX_TASKS)).cpu = Kernel.thread (before (k + 1)).cpu ↔
      (before (k + SCHEDULER_MAX_TASKS)).cpu.cpsr.SameSx (before (k + 1)).cpu.cpsr := by
  have hround : k + 1 + 9 = k + SCHEDULER_MAX_TASKS := rfl
  obtain ⟨-, -, hd, hcur⟩ := h.invariant hk
  have hctx := h.context_kept (k := k) (j := 9) (by decide) (by rw [hround]; exact hk)
  rw [Nat.add_mod_right] at hcur
  have hthread := hd.thread
  rw [hcur, ← hround, hctx] at hthread
  rw [← hround, hthread]
  exact TaskContext.resume_save_iff (h.work k (by omega)).task.aligned

end

/-- Where a run goes on, the IRQs before have been handled as they were, ... -/
theorem handled_extend {n : Nat} {before after : Nat → Machine} {m m' : Machine}
    (h : ∀ k, k ≤ n → ∃ env, (before k).interrupt.irqHandlerAsm L env = some (after k))
    (hm : ∃ env, m.interrupt.irqHandlerAsm L env = some m') {k : Nat} (hk : k ≤ n + 1) :
    ∃ env, (Function.update before (n + 1) m k).interrupt.irqHandlerAsm L env =
      some (Function.update after (n + 1) m' k) := by
  rcases Nat.le_succ_iff.1 hk with hk | rfl
  · rw [Function.update_of_ne (by omega), Function.update_of_ne (by omega)]
    exact h k hk
  · rw [Function.update_self, Function.update_self]
    exact hm

/-- ... and the tasks have worked in between as they did. -/
theorem work_extend {n : Nat} {before after : Nat → Machine} {m m' : Machine}
    (h : ∀ k, k < n → Work L (after k) (before (k + 1))) (hw : Work L (after n) m) {k : Nat} (hk : k < n + 1) :
    Work L (Function.update after (n + 1) m' k) (Function.update before (n + 1) m (k + 1)) := by
  rw [Function.update_of_ne (by omega : k ≠ n + 1)]
  rcases Nat.lt_succ_iff_lt_or_eq.1 hk with hk | rfl
  · rw [Function.update_of_ne (by omega)]
    exact h k hk
  · rw [Function.update_self]
    exact hw

/-- A run goes on with any work of the tasks: the handler never gets stuck. -/
theorem TickRun.extend {n : Nat} {before after : Nat → Machine} (h : TickRun L sym n before after) {m : Machine}
    (hw : Work L (after n) m) (ht : Tick m.kernel) :
    ∃ m', TickRun L sym (n + 1) (Function.update before (n + 1) m) (Function.update after (n + 1) m') := by
  obtain ⟨m', hm', -⟩ := tick_spec ⟨fun _ _ => ⟨0, 0, 0, 0, 0, m.cpu.cpsr, fun _ => 0⟩, fun _ => 0⟩
    (hw.interruptible (h.invariant le_rfl).1) ht
  refine ⟨m', ?_, ?_, fun k hk => handled_extend h.handled ⟨_, hm'⟩ hk, fun k hk => work_extend h.work hw hk⟩
  · rw [Function.update_of_ne (by omega)]
    exact h.started
  · intro k hk
    rcases Nat.lt_succ_iff_lt_or_eq.1 hk with hk | rfl
    · rw [Function.update_of_ne (by omega)]
      exact h.tick k hk
    · rw [Function.update_self]
      exact ht

theorem exists_tickRun {work : Nat → Machine → Machine} (hm : Started L sym m)
    (hwork : ∀ k m, Work L m (work k m) ∧ Tick (work k m).kernel) (n : Nat) :
    ∃ before after, TickRun L sym n before after ∧ ∀ k, k < n → before (k + 1) = work k (after k) := by
  induction n with
  | zero =>
    obtain ⟨m', hm', -⟩ := start_spec ⟨fun _ _ => ⟨0, 0, 0, 0, 0, m.cpu.cpsr, fun _ => 0⟩, fun _ => 0⟩ hm
    refine ⟨fun _ => m, fun _ => m', ⟨hm, ?_, ?_, ?_⟩, ?_⟩
    · intro k hk
      cases hk
    · intro k _
      exact ⟨_, hm'⟩
    · intro k hk
      cases hk
    · intro k hk
      cases hk
  | succ n ih =>
    obtain ⟨before, after, h, hbefore⟩ := ih
    obtain ⟨m', h'⟩ := h.extend (hwork n (after n)).1 (hwork n (after n)).2
    refine ⟨_, _, h', ?_⟩
    intro k hk
    rw [Function.update_of_ne (by omega : k ≠ n + 1)]
    rcases Nat.lt_succ_iff_lt_or_eq.1 hk with hk | rfl
    · rw [Function.update_of_ne (by omega)]
      exact hbefore k hk
    · rw [Function.update_self]

/-- Context switches are transparent: the `k`-th dispatch is of slot `k % SCHEDULER_MAX_TASKS` with its
ASID, a slot dispatched again resumes as it was last interrupted, a tick changes no other context than
that of the slot it switches out, and the handler leaves its stack pointer as it was. -/
structure Transparent (L : Layout) (n : Nat) (before after : Nat → Machine) : Prop where
  current : ∀ k, k ≤ n → (after k).kernel.prvCurrentTask = k % SCHEDULER_MAX_TASKS
  asid : ∀ k, k ≤ n → (after k).cpu.contextidr &&& 0xFF = BitVec.ofNat 32 (k % SCHEDULER_MAX_TASKS + 1)
  resumed : ∀ k, k + SCHEDULER_MAX_TASKS ≤ n →
    Kernel.thread (after (k + SCHEDULER_MAX_TASKS)).cpu = Kernel.thread (before (k + 1)).cpu
  others : ∀ k, k < n → ∀ slot, slot < SCHEDULER_MAX_TASKS → slot ≠ k % SCHEDULER_MAX_TASKS →
    L.context (after (k + 1)).cpu.mem slot = L.context (before (k + 1)).cpu.mem slot
  irqSp : ∀ k, k ≤ n → (after k).cpu.sp .irq = (before k).cpu.sp .irq

/-- A run is transparent exactly if every tick that dispatches a slot again interrupts code whose CPSR
has the bits 23 to 8 (GE, IT[7:2], E, A) the slot was interrupted with. -/
theorem transparent_iff {n : Nat} {before after : Nat → Machine} (h : TickRun L sym n before after) :
    Transparent L n before after ↔ ∀ k, k + SCHEDULER_MAX_TASKS ≤ n →
      (before (k + SCHEDULER_MAX_TASKS)).cpu.cpsr.SameSx (before (k + 1)).cpu.cpsr := by
  constructor
  · intro ht k hk
    exact (h.resumed_iff hk).1 (ht.resumed k hk)
  · intro hsx
    refine ⟨?_, ?_, ?_, ?_, ?_⟩
    · intro k hk
      exact (h.invariant hk).2.2.2
    · intro k hk
      obtain ⟨hready, hasids, hd, hcur⟩ := h.invariant hk
      rw [← hcur]
      exact hd.asid hasids hready.current
    · intro k hk
      exact (h.resumed_iff hk).2 (hsx k hk)
    · intro k hk slot hs hne
      refine (h.ticked hk).others slot hs ?_
      rwa [h.interrupted_current hk]
    · intro k hk
      exact (h.invariant hk).2.2.1.sp .irq (by decide)

/-! ## A run -/

def exampleLayout : Layout where
  contexts := 0x1000
  irqReturn := 0x100
  irqStackLimit := 0x200
  irqStackTop := 0x300
  undStackLimit := 0x400
  undStackTop := 0x500
  contexts_lt := by decide
  irqReturn_lt := by decide
  irqStack_lt := by decide
  undStack_lt := by decide
  irqReturn_contexts := by decide
  irqReturn_irqStack := by decide
  irqStack_contexts := by decide
  undStack_contexts := by decide

def exampleSymbols : Symbols := ⟨0x8001, 0x9000, 0x4000⟩

/-- The status of a task in USR mode and A32 state, with the given GE flags. -/
def examplePsr (ge : BitVec 4) : Psr where
  n := false
  z := false
  c := false
  v := false
  q := false
  itLow := 0
  j := false
  reserved := 0
  ge := ge
  itHigh := 0
  e := false
  a := false
  i := false
  f := false
  t := false
  mode := USR_MODE

def exampleEnv : Env := ⟨fun _ _ => ⟨0, 0, 0, 0, 0, examplePsr 0, fun _ => 0⟩, fun _ => 0⟩

/-- `scheduler_start` has been called with no task added. -/
def exampleStart : Machine where
  cpu := {
    r := fun _ => 0
    sp := fun bank => if bank = .und then addrOf 0x500 else addrOf 0x300
    lr := fun _ => 0
    spsr := fun _ => examplePsr 0
    cpsr := { examplePsr 0 with mode := SYS_MODE }
    pc := 0
    ttbr0 := 0x4000
    contextidr := 0
    fpexc := 0
    fpscr := 0
    q := fun _ => 0
    mem := schedulerInit exampleLayout exampleSymbols fun _ => 0 }
  kernel := {
    prvCurrentTask := 0
    prvLastTask := 0
    timers := fun _ => ⟨0, .prvSchedulerChangeTask⟩
    intAck := INT_SOFTWARE
    eoi := 0 }

/-- Every task sets its GE flags and waits for the tick. -/
def exampleWork (ge : Nat → BitVec 4) (k : Nat) (m : Machine) : Machine where
  cpu := { m.cpu with cpsr := examplePsr (ge k), pc := 0 }
  kernel := { m.kernel with intAck := INT_TIMER_0_AND_1, timers := fun _ => ⟨1, .prvSchedulerChangeTask⟩ }

theorem started_exampleStart : Started exampleLayout exampleSymbols exampleStart := by
  refine ⟨⟨⟨.inr rfl, rfl, by decide⟩, ⟨by decide, by decide, 0x300 - 6, rfl, by decide, by decide⟩⟩, rfl, rfl, ?_, ?_⟩
  · exact ⟨_, .init _, fun _ _ => rfl⟩
  · unfold SoftwareIrq
    decide

theorem work_exampleWork (ge : Nat → BitVec 4) (k : Nat) (m : Machine) :
    Work exampleLayout m (exampleWork ge k m) ∧ Tick (exampleWork ge k m).kernel := by
  refine ⟨⟨⟨.inl rfl, rfl, ?_⟩, fun _ _ => rfl, rfl, rfl, rfl⟩, ⟨?_, ?_, rfl⟩⟩
  · show alignPc (examplePsr (ge k)) 0 = 0
    rfl
  · show INT_TIMER_0_AND_1 &&& 0x3FF = INT_TIMER_0_AND_1
    decide
  · show decide ((1 : Word) &&& 1 ≠ 0) = true
    decide

/-- Where all tasks run with the same GE flags, two rounds of the scheduler are transparent. -/
theorem transparent_same_ge : ∃ before after, TickRun exampleLayout exampleSymbols 20 before after ∧
    Transparent exampleLayout 20 before after := by
  obtain ⟨before, after, h, hbefore⟩ := exists_tickRun started_exampleStart (work_exampleWork fun _ => 0) 20
  refine ⟨before, after, h, (transparent_iff h).2 ?_⟩
  intro k hk
  have hk9 : k + SCHEDULER_MAX_TASKS = (k + 9) + 1 := rfl
  rw [hk9] at hk ⊢
  rw [hbefore k (by omega), hbefore (k + 9) (by omega)]
  exact ⟨rfl, rfl, rfl, rfl, rfl⟩

/-- The task of slot 0 is interrupted with its GE flags set; when the slot is dispatched again they are
those of the task of slot 9, clear. -/
theorem not_transparent_ge : ¬ ∀ (L : Layout) (sym : Symbols) (n : Nat) (before after : Nat → Machine),
    TickRun L sym n before after → Transparent L n before after := by
  intro hall
  obtain ⟨before, after, h, hbefore⟩ :=
    exists_tickRun started_exampleStart (work_exampleWork fun k => if k = 0 then 15 else 0) 10
  have hsx := (h.resumed_iff (k := 0) (by decide)).1 ((hall _ _ _ _ _ h).resumed 0 (by decide))
  have h1 : before (0 + 1) = _ := hbefore 0 (by decide)
  have h10 : before (0 + SCHEDULER_MAX_TASKS) = _ := hbefore 9 (by decide)
  rw [h1, h10] at hsx
  have hge : (0 : BitVec 4) = 15 := hsx.2.1
  exact absurd hge (by decide)

end Machine
end Td3.Kernel
