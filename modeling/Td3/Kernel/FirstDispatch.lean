/-
The first IRQs after `__scheduler_start` has set TIMER0 (kernel/scheduler.c): the software one and the
ticks, in any order.

The software IRQ dispatches slot 0 and saves nothing. A tick that comes before it saves the boot code into
slot 0, and dispatches slot 1: the task that was added first is lost.
-/
import Td3.Kernel.AddTask

namespace Td3.Kernel

open Arm

/-! ## The slots before the start -/

section
variable {L : Layout} {sym : Symbols}

/-- A task was added to the slot: its pc is not that of the idle task. -/
def AddedIn (L : Layout) (sym : Symbols) (mem : Nat → Word) (slot : Nat) : Prop :=
  mem (L.word slot 18) ≠ sym.prvIdleTask + 4

/-- The slots are filled from the first on, with tasks that run in USR mode. -/
structure FilledUp (L : Layout) (sym : Symbols) (mem : Nat → Word) : Prop where
  below : ∀ slot, slot < SCHEDULER_MAX_TASKS → AddedIn L sym mem slot → ∀ i, i < slot → AddedIn L sym mem i
  user : ∀ slot, slot < SCHEDULER_MAX_TASKS → AddedIn L sym mem slot →
    (mem (L.word slot 2)).extractLsb' 0 5 = USR_MODE

theorem FilledUp.init (mem : Nat → Word) : FilledUp L sym (schedulerInit L sym mem) := by
  have hnone : ∀ slot, slot < SCHEDULER_MAX_TASKS → ¬ AddedIn L sym (schedulerInit L sym mem) slot :=
    fun slot hs hadded => hadded (schedulerInit_field (f := .pc) hs)
  exact ⟨fun slot hs hadded => absurd hadded (hnone slot hs), fun slot hs hadded => absurd hadded (hnone slot hs)⟩

theorem FilledUp.add {mem : Nat → Word} (h : FilledUp L sym mem) (entrypoint stackTop table1Addr : Word) {i : Nat}
    (hi : ∀ j, j < i → AddedIn L sym mem j) :
    FilledUp L sym (schedulerAddTaskFrom L sym entrypoint stackTop table1Addr mem i).2 := by
  fun_induction schedulerAddTaskFrom L sym entrypoint stackTop table1Addr mem i with
  | case1 i hlt hfree mem1 spsr mem2 mem3 =>
    -- the slots but the one that is taken keep their pc and status
    have hother : ∀ slot, slot ≠ i → ∀ f : Field,
        Function.update mem3 (L.word i 0) table1Addr (L.word slot f.word) = mem (L.word slot f.word) := by
      intro slot hne f
      have hkept (g : Field) : L.word slot f.word ≠ L.word i g.word := fun h => hne (word_inj.1 h).1
      exact (Function.update_of_ne (hkept .table1Addr) ..).trans ((Function.update_of_ne (hkept .sp) ..).trans
        ((Function.update_of_ne (hkept .spsr) ..).trans (Function.update_of_ne (hkept .pc) ..)))
    have hself (f g : Field) (hg : f ≠ g) : L.word i f.word ≠ L.word i g.word := fun h => hg (word_inj.1 h).2
    have hstatus : Function.update mem3 (L.word i 0) table1Addr (L.word i 2) = spsr :=
      (Function.update_of_ne (hself .spsr .table1Addr (by decide)) ..).trans
        ((Function.update_of_ne (hself .spsr .sp (by decide)) ..).trans (Function.update_self ..))
    have hadded : ∀ slot, slot ≠ i →
        (AddedIn L sym (Function.update mem3 (L.word i 0) table1Addr) slot ↔ AddedIn L sym mem slot) := by
      intro slot hne
      have hpc : Function.update mem3 (L.word i 0) table1Addr (L.word slot 18) = mem (L.word slot 18) :=
        hother slot hne .pc
      rw [AddedIn, AddedIn, hpc]
    -- no slot behind the one that is taken was added to
    have hlast : ∀ slot, slot < SCHEDULER_MAX_TASKS → i < slot → ¬ AddedIn L sym mem slot :=
      fun slot hs hlt' hadd => h.below slot hs hadd i hlt' hfree
    refine ⟨fun slot hs hadd j hj => ?_, fun slot hs hadd => ?_⟩
    · have hle : slot ≤ i := by
        by_contra hgt
        exact hlast slot hs (by omega) ((hadded slot (by omega)).1 hadd)
      exact (hadded j (by omega)).2 (hi j (by omega))
    · by_cases hne : slot = i
      · show (Function.update mem3 (L.word i 0) table1Addr (L.word slot 2)).extractLsb' 0 5 = USR_MODE
        rw [hne, hstatus]
        show spsr.extractLsb' 0 5 = USR_MODE
        simp only [spsr]
        split <;> decide
      · have hkept := hother slot hne .spsr
        exact (congrArg (BitVec.extractLsb' 0 5) hkept).trans (h.user slot hs ((hadded slot hne).1 hadd))
  | case2 i hlt htaken ih =>
    refine ih fun j hj => ?_
    rcases Nat.lt_succ_iff_lt_or_eq.1 hj with hj | rfl
    · exact hi j hj
    · exact htaken
  | case3 => exact h

theorem Prepared.filledUp {mem : Nat → Word} (h : Prepared L sym mem) : FilledUp L sym mem := by
  induction h with
  | init mem => exact .init mem
  | add entrypoint stackTop table1Addr _ ih => exact ih.add entrypoint stackTop table1Addr nofun

end

namespace Machine

variable {L : Layout} {sym : Symbols} (env : Env) {m m' : Machine}

/-! ## One IRQ -/

/-- The IRQs that come once TIMER0 has been started. -/
def StartIrq (k : Globals) : Prop := SoftwareIrq k ∨ Tick k

/-- Where `m'` is after one of them interrupted `m`: a tick alone saves, into the current slot. -/
structure AfterIrq (L : Layout) (m m' : Machine) : Prop extends Dispatched L m m', SchedulerReady L m' where
  kept : ∀ slot, slot < SCHEDULER_MAX_TASKS → SoftwareIrq m.kernel ∨ slot ≠ m.kernel.prvCurrentTask →
    L.context m'.cpu.mem slot = L.context m.cpu.mem slot
  saved : Tick m.kernel → L.context m'.cpu.mem m.kernel.prvCurrentTask =
    (L.context m.cpu.mem m.kernel.prvCurrentTask).save (Kernel.thread m.cpu)
      (savedNeon m.cpu (L.context m.cpu.mem m.kernel.prvCurrentTask))

theorem not_tick_of_software {k : Globals} (h : SoftwareIrq k) : ¬ Tick k := by
  intro ht
  have hid := ht.id
  rw [h] at hid
  revert hid
  decide

theorem startIrq_spec (h : Interruptible L m) (hirq : StartIrq m.kernel) :
    ∃ m', m.interrupt.irqHandlerAsm L env = some m' ∧ AfterIrq L m m' := by
  rcases hirq with hs | ht
  · obtain ⟨m', hm', hd, hcur, hlast, -, hctx⟩ := software_spec env h hs
    refine ⟨m', hm', hd, hd.ready h.toSchedulerReady ?_ ?_, ?_, fun ht => absurd ht (not_tick_of_software hs)⟩
    · rw [hlast]
      exact h.last
    · rw [hcur]
      exact h.current
    · intro slot hslot _
      exact hctx slot hslot
  · obtain ⟨m', hm', hticked⟩ := tick_spec env h ht
    refine ⟨m', hm', hticked.toDispatched, hticked.ready h.toSchedulerReady, ?_, fun _ => hticked.saved⟩
    intro slot hslot hne
    exact hticked.others slot hslot (hne.resolve_left fun hs => not_tick_of_software hs ht)

/-! ## Runs -/

/-- The boot code, in SYS mode, when it has started TIMER0. -/
structure Booted (L : Layout) (sym : Symbols) (m : Machine) : Prop extends Interruptible L m where
  sys : m.cpu.cpsr.mode = SYS_MODE
  current0 : m.kernel.prvCurrentTask = 0
  prepared : ∃ mem, Prepared L sym mem ∧
    ∀ slot, slot < SCHEDULER_MAX_TASKS → L.context m.cpu.mem slot = L.context mem slot

/-- A run of the IRQs numbered 0 to `n`: `before k` is when the `k`-th is taken, `after k` when it has been
handled. -/
structure StartRun (L : Layout) (sym : Symbols) (n : Nat) (before after : Nat → Machine) : Prop where
  booted : Booted L sym (before 0)
  irq : ∀ k, k ≤ n → StartIrq (before k).kernel
  handled : ∀ k, k ≤ n → ∃ env, (before k).interrupt.irqHandlerAsm L env = some (after k)
  work : ∀ k, k < n → Work L (after k) (before (k + 1))

/-- A slot that a task has been added to. -/
def Added (L : Layout) (sym : Symbols) (m : Machine) (slot : Nat) : Prop :=
  slot < SCHEDULER_MAX_TASKS ∧ (L.context m.cpu.mem slot).pc ≠ sym.prvIdleTask + 4

/-- Up to the IRQ that dispatches it for the first time, the context of an added task is the one it was added
with. -/
def KeptUntilDispatch (L : Layout) (sym : Symbols) (n : Nat) (before after : Nat → Machine) : Prop :=
  ∀ slot, Added L sym (before 0) slot → ∀ k, k ≤ n → (∀ j, j < k → (after j).kernel.prvCurrentTask ≠ slot) →
    L.context (before k).cpu.mem slot = L.context (before 0).cpu.mem slot ∧
      L.context (after k).cpu.mem slot = L.context (before 0).cpu.mem slot

section
variable {n : Nat} {before after : Nat → Machine} (h : StartRun L sym n before after)
include h

theorem StartRun.afterIrq {k : Nat} (hk : k ≤ n) : AfterIrq L (before k) (after k) := by
  induction k with
  | zero =>
    obtain ⟨env, he⟩ := h.handled 0 hk
    exact of_handled (startIrq_spec env h.booted.toInterruptible (h.irq 0 hk)) he
  | succ k ih =>
    obtain ⟨env, he⟩ := h.handled (k + 1) hk
    have hi := (h.work k (by omega)).interruptible (ih (by omega)).toSchedulerReady
    exact of_handled (startIrq_spec env hi (h.irq (k + 1) hk)) he

/-- After the software IRQ a tick saves only into the slot that was dispatched last. -/
theorem StartRun.kept_of_software (hsoft : SoftwareIrq (before 0).kernel) : KeptUntilDispatch L sym n before after := by
  intro slot hadded k hk hnot
  induction k with
  | zero => exact ⟨rfl, (h.afterIrq hk).kept slot hadded.1 (.inl hsoft)⟩
  | succ k ih =>
    have hw := h.work k (by omega)
    have hbefore : L.context (before (k + 1)).cpu.mem slot = L.context (before 0).cpu.mem slot := by
      rw [hw.context slot hadded.1]
      exact (ih (by omega) fun j hj => hnot j (by omega)).2
    refine ⟨hbefore, ?_⟩
    -- a tick saves into the current slot, and the slot has not been that so far
    have hne : slot ≠ (before (k + 1)).kernel.prvCurrentTask := by
      rw [hw.current]
      exact (hnot k (by omega)).symm
    rw [(h.afterIrq hk).kept slot hadded.1 (.inr hne), hbefore]

/-- The first slot is added to if any is, with a task that runs in USR mode. -/
theorem StartRun.added_zero {slot : Nat} (hadded : Added L sym (before 0) slot) :
    Added L sym (before 0) 0 ∧ (L.context (before 0).cpu.mem 0).spsr.extractLsb' 0 5 = USR_MODE := by
  obtain ⟨mem, hprepared, hmem⟩ := h.booted.prepared
  have hfilled := hprepared.filledUp
  have h0 : AddedIn L sym mem 0 := by
    have hslot : AddedIn L sym mem slot := by
      have hpc := hadded.2
      rw [hmem slot hadded.1] at hpc
      exact hpc
    rcases Nat.eq_zero_or_pos slot with rfl | hpos
    · exact hslot
    · exact hfilled.below slot hadded.1 hslot 0 hpos
  rw [Added, hmem 0 (by decide)]
  exact ⟨⟨by decide, h0⟩, hfilled.user 0 (by decide) h0⟩

/-- A tick that comes first loses the task of slot 0: the boot code was in SYS mode. -/
theorem StartRun.not_kept_of_tick (ht : Tick (before 0).kernel) {slot : Nat} (hadded : Added L sym (before 0) slot) :
    ¬ KeptUntilDispatch L sym n before after := by
  intro hkept
  obtain ⟨h0, huser⟩ := h.added_zero hadded
  have hsaved := (h.afterIrq (Nat.zero_le n)).saved ht
  rw [h.booted.current0] at hsaved
  have hsame := (hkept 0 h0 0 (Nat.zero_le n) nofun).2
  rw [hsaved] at hsame
  -- what is saved there is the status word of the boot code, and its mode is not the task's
  have hmode : ((before 0).cpu.cpsr.toWord).extractLsb' 0 5 = (before 0).cpu.cpsr.mode :=
    congrArg Psr.mode (Psr.ofWord_toWord _)
  have hspsr : (L.context (before 0).cpu.mem 0).spsr = (before 0).cpu.cpsr.toWord :=
    (congrArg TaskContext.spsr hsame).symm
  rw [hspsr, hmode, h.booted.sys] at huser
  exact absurd huser (by decide)

/-- Every added task keeps its context until it is first dispatched exactly if the first IRQ is the software
one, or no task was added. -/
theorem StartRun.keptUntilDispatch_iff : KeptUntilDispatch L sym n before after ↔
    SoftwareIrq (before 0).kernel ∨ ∀ slot, ¬ Added L sym (before 0) slot := by
  constructor
  · intro hkept
    rcases h.irq 0 (Nat.zero_le n) with hsoft | ht
    · exact .inl hsoft
    · exact .inr fun slot hadded => h.not_kept_of_tick ht hadded hkept
  · rintro (hsoft | hnone)
    · exact h.kept_of_software hsoft
    · exact fun slot hadded => absurd hadded (hnone slot)

end

/-- A run goes on with any work and any of the IRQs: the handler never gets stuck. -/
theorem StartRun.extend {n : Nat} {before after : Nat → Machine} (h : StartRun L sym n before after) {m : Machine}
    (hw : Work L (after n) m) (hirq : StartIrq m.kernel) :
    ∃ m', StartRun L sym (n + 1) (Function.update before (n + 1) m) (Function.update after (n + 1) m') := by
  obtain ⟨m', hm', -⟩ := startIrq_spec ⟨fun _ _ => ⟨0, 0, 0, 0, 0, m.cpu.cpsr, fun _ => 0⟩, fun _ => 0⟩
    (hw.interruptible (h.afterIrq le_rfl).toSchedulerReady) hirq
  refine ⟨m', ?_, ?_, fun k hk => handled_extend h.handled ⟨_, hm'⟩ hk, fun k hk => work_extend h.work hw hk⟩
  · rw [Function.update_of_ne (by omega)]
    exact h.booted
  · intro k hk
    rcases Nat.le_succ_iff.1 hk with hk | rfl
    · rw [Function.update_of_ne (by omega)]
      exact h.irq k hk
    · rw [Function.update_self]
      exact hirq

theorem exists_startRun (hm : Booted L sym m) (hirq : StartIrq m.kernel) :
    ∃ after, StartRun L sym 0 (fun _ => m) after := by
  obtain ⟨m', hm', -⟩ := startIrq_spec ⟨fun _ _ => ⟨0, 0, 0, 0, 0, m.cpu.cpsr, fun _ => 0⟩, fun _ => 0⟩
    hm.toInterruptible hirq
  exact ⟨fun _ => m', hm, fun _ _ => hirq, fun _ _ => ⟨_, hm'⟩, nofun⟩

/-! ## Two runs -/

open Sched (exampleMem exampleMem_eq)

/-- `__scheduler_start` has been called with one task added. -/
def exampleBoot (intAck : Word) : Machine where
  cpu := { exampleStart.cpu with mem := exampleMem }
  kernel := { exampleStart.kernel with intAck, timers := fun _ => ⟨1, .prvSchedulerChangeTask⟩ }

theorem booted_exampleBoot (intAck : Word) : Booted exampleLayout exampleSymbols (exampleBoot intAck) := by
  obtain ⟨⟨htask, hready⟩, -, -, -, -⟩ := started_exampleStart
  have hinterruptible : Interruptible exampleLayout (exampleBoot intAck) :=
    ⟨⟨htask.mode, htask.unmasked, htask.aligned⟩, hready.last, hready.current, hready.irqSp⟩
  exact ⟨hinterruptible, rfl, rfl, _, .add _ _ _ (.init _), fun _ _ => rfl⟩

theorem added_exampleBoot (intAck : Word) : Added exampleLayout exampleSymbols (exampleBoot intAck) 0 := by
  refine ⟨by decide, ?_⟩
  show exampleMem (exampleLayout.word 0 18) ≠ exampleSymbols.prvIdleTask + 4
  rw [exampleMem_eq]
  decide +kernel

/-- The software IRQ, and a tick in the task's code. -/
theorem kept_software_first : ∃ before after, StartRun exampleLayout exampleSymbols 1 before after ∧
    Added exampleLayout exampleSymbols (before 0) 0 ∧
      KeptUntilDispatch exampleLayout exampleSymbols 1 before after := by
  have hsoft : SoftwareIrq (exampleBoot INT_SOFTWARE).kernel := by
    unfold SoftwareIrq
    decide
  obtain ⟨after, h⟩ := exists_startRun (booted_exampleBoot INT_SOFTWARE) (.inl hsoft)
  obtain ⟨hw, ht⟩ := work_exampleWork (fun _ => 0) 0 (after 0)
  obtain ⟨m', h'⟩ := h.extend hw (.inr ht)
  exact ⟨_, _, h', added_exampleBoot _, h'.keptUntilDispatch_iff.2 (.inl hsoft)⟩

/-- The tick comes first. -/
theorem not_kept_tick_first : ¬ ∀ (L : Layout) (sym : Symbols) (n : Nat) (before after : Nat → Machine),
    StartRun L sym n before after → KeptUntilDispatch L sym n before after := by
  intro hall
  have ht : Tick (exampleBoot INT_TIMER_0_AND_1).kernel := ⟨by decide, by decide, rfl⟩
  obtain ⟨after, h⟩ := exists_startRun (booted_exampleBoot INT_TIMER_0_AND_1) (.inr ht)
  exact h.not_kept_of_tick ht (added_exampleBoot _) (hall _ _ _ _ _ h)

end Machine

end Td3.Kernel
