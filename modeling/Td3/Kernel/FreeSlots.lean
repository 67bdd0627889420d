/-
When `__scheduler_add_task` (kernel/scheduler.c) finds a slot, over whole runs of the scheduler: a slot is free
for it as long as its context has the pc that `__scheduler_init` gave it, the address of the idle task, which is
odd, plus 4. The first tick that interrupts the idle task in a slot saves an even pc there, so a slot without a
task that has been run once is never found again.
-/
import Td3.Kernel.FirstDispatch

namespace Td3.Kernel

open Arm

/-! ## One call -/

section
variable (L : Layout) (sym : Symbols)

/-- The call takes a slot that looks free, and writes no other; or it finds none and writes nothing. -/
theorem schedulerAddTaskFrom_spec (args : AddArgs) (mem : Nat → Word) (i : Nat) :
    (∃ slot, slot < SCHEDULER_MAX_TASKS ∧ mem (L.word slot 18) = sym.prvIdleTask + 4 ∧
      (schedulerAddTaskFrom L sym args.entrypoint args.stackTop args.table1Addr mem i).1 = 0 ∧
      (∀ f, (schedulerAddTaskFrom L sym args.entrypoint args.stackTop args.table1Addr mem i).2
        (L.word slot f.word) = args.value f) ∧
      ∀ w, ¬ L.Slot slot w →
        (schedulerAddTaskFrom L sym args.entrypoint args.stackTop args.table1Addr mem i).2 w = mem w) ∨
    (∀ slot, i ≤ slot → slot < SCHEDULER_MAX_TASKS → mem (L.word slot 18) ≠ sym.prvIdleTask + 4) ∧
      schedulerAddTaskFrom L sym args.entrypoint args.stackTop args.table1Addr mem i = (1, mem) := by
  fun_induction schedulerAddTaskFrom L sym args.entrypoint args.stackTop args.table1Addr mem i with
  | case1 i hlt hfree mem1 spsr mem2 mem3 =>
    refine .inl ⟨i, hlt, hfree, rfl, ?_, ?_⟩
    · have hself (f g : Field) (hg : f ≠ g) : L.word i f.word ≠ L.word i g.word := fun h => hg (word_inj.1 h).2
      rintro (_ | _ | _ | _)
      · exact (Function.update_of_ne (hself .pc .table1Addr (by decide)) ..).trans
          ((Function.update_of_ne (hself .pc .sp (by decide)) ..).trans
            ((Function.update_of_ne (hself .pc .spsr (by decide)) ..).trans (Function.update_self ..)))
      · exact (Function.update_of_ne (hself .spsr .table1Addr (by decide)) ..).trans
          ((Function.update_of_ne (hself .spsr .sp (by decide)) ..).trans (Function.update_self ..))
      · exact (Function.update_of_ne (hself .sp .table1Addr (by decide)) ..).trans (Function.update_self ..)
      · exact Function.update_self ..
    · intro w hw
      have hkept {b : Nat} (hb : b < contextWords) : w ≠ L.word i b := by
        rintro rfl
        exact hw (Layout.slot_word hb)
      exact (Function.update_of_ne (hkept (by decide)) ..).trans ((Function.update_of_ne (hkept (by decide)) ..).trans
        ((Function.update_of_ne (hkept (by decide)) ..).trans (Function.update_of_ne (hkept (by decide)) ..)))
  | case2 i hlt htaken ih =>
    refine ih.imp_right ?_
    rintro ⟨hnone, hret⟩
    refine ⟨?_, hret⟩
    intro slot hle hs
    rcases Nat.eq_or_lt_of_le hle with rfl | hgt
    · exact htaken
    · exact hnone slot hgt hs
  | case3 i hge =>
    refine .inr ⟨?_, rfl⟩
    intro slot hle hs
    exact absurd (Nat.lt_of_le_of_lt hle hs) hge

end

namespace Machine

section
variable (L : Layout) (sym : Symbols)

/-- The code that runs calls `__scheduler_add_task`, and no IRQ comes before it returns. -/
def addTask (args : AddArgs) (m : Machine) : Machine :=
  m.exec fun c => { c with
    mem := (schedulerAddTask L sym args.entrypoint args.stackTop args.table1Addr c.mem).2 }

/-- The value of the call -/
def addTaskRet (args : AddArgs) (m : Machine) : Word :=
  (schedulerAddTask L sym args.entrypoint args.stackTop args.table1Addr m.cpu.mem).1

/-! ## Runs -/

/-- The machines reached from `__scheduler_init` by calls of `__scheduler_add_task` for other tasks than the idle
one, whatever else runs, and the IRQs that come once TIMER0 has been started; with the slots into which a call has
put a task, by writing their pc, and those into which a tick has saved what it interrupted. -/
inductive Reached : Machine → Set Nat → Set Nat → Prop where
  | init {m : Machine} {mem : Nat → Word} (ready : SchedulerReady L m) (current : m.kernel.prvCurrentTask = 0)
    (contexts : ∀ slot, slot < SCHEDULER_MAX_TASKS →
      L.context m.cpu.mem slot = L.context (schedulerInit L sym mem) slot) : Reached m ∅ ∅
  | add {m : Machine} {added saved : Set Nat} (h : Reached m added saved) (args : AddArgs)
    (other : args.entrypoint ≠ sym.prvIdleTask) :
    Reached (m.addTask L sym args) (added ∪ {slot | slot < SCHEDULER_MAX_TASKS ∧
      (L.context (m.addTask L sym args).cpu.mem slot).pc ≠ (L.context m.cpu.mem slot).pc}) saved
  | work {m m' : Machine} {added saved : Set Nat} (h : Reached m added saved) (hw : Work L m m') :
    Reached m' added saved
  | irq {m m' : Machine} {added saved : Set Nat} (h : Reached m added saved) (task : TaskCode m.cpu)
    (hirq : StartIrq m.kernel) (handled : ∃ env, m.interrupt.irqHandlerAsm L env = some m') :
    Reached m' added (saved ∪ {slot | Tick m.kernel ∧ slot = m.kernel.prvCurrentTask})

/-- A call returns 0 and puts its task into a slot without a task if there is one; it returns 1 and changes no slot
exactly if there is none. -/
def ReportsFull (m : Machine) (added : Set Nat) : Prop :=
  ∀ args : AddArgs, args.entrypoint ≠ sym.prvIdleTask →
    ((∃ slot, slot < SCHEDULER_MAX_TASKS ∧ slot ∉ added) →
      m.addTaskRet L sym args = 0 ∧ ∃ slot, slot < SCHEDULER_MAX_TASKS ∧ slot ∉ added ∧
        (∀ f : Field, (m.addTask L sym args).cpu.mem (L.word slot f.word) = args.value f) ∧
        ∀ j, j < SCHEDULER_MAX_TASKS → j ≠ slot →
          L.context (m.addTask L sym args).cpu.mem j = L.context m.cpu.mem j) ∧
    ((m.addTaskRet L sym args = 1 ∧ ∀ slot, slot < SCHEDULER_MAX_TASKS →
        L.context (m.addTask L sym args).cpu.mem slot = L.context m.cpu.mem slot) ↔
      ∀ slot, slot < SCHEDULER_MAX_TASKS → slot ∈ added)

end

variable {L : Layout} {sym : Symbols} {m m' : Machine} {added saved : Set Nat}

variable (L sym) in
/-- What a call does to the slots. -/
theorem addTask_cases (args : AddArgs) (m : Machine) :
    (∃ slot, slot < SCHEDULER_MAX_TASKS ∧ (L.context m.cpu.mem slot).pc = sym.prvIdleTask + 4 ∧
      m.addTaskRet L sym args = 0 ∧
      (∀ f : Field, (m.addTask L sym args).cpu.mem (L.word slot f.word) = args.value f) ∧
      ∀ j, j < SCHEDULER_MAX_TASKS → j ≠ slot →
        L.context (m.addTask L sym args).cpu.mem j = L.context m.cpu.mem j) ∨
    (∀ slot, slot < SCHEDULER_MAX_TASKS → (L.context m.cpu.mem slot).pc ≠ sym.prvIdleTask + 4) ∧
      m.addTaskRet L sym args = 1 ∧ (m.addTask L sym args).cpu.mem = m.cpu.mem := by
  rcases schedulerAddTaskFrom_spec L sym args m.cpu.mem 0 with
    ⟨slot, hs, hfree, hret, hstored, hkept⟩ | ⟨hnone, hfull⟩
  · refine .inl ⟨slot, hs, hfree, hret, hstored, ?_⟩
    intro j _ hne
    exact Layout.context_congr fun w hw => hkept w fun hw' => hne (Layout.slot_unique hw hw')
  · exact .inr ⟨fun slot hs => hnone slot (Nat.zero_le _) hs, congrArg Prod.fst hfull, congrArg Prod.snd hfull⟩

theorem Reached.ready (h : Reached L sym m added saved) : SchedulerReady L m := by
  induction h with
  | init ready _ _ => exact ready
  | add _ _ _ ih => exact ⟨ih.last, ih.current, ih.irqSp⟩
  | work _ hw ih => exact (hw.interruptible ih).toSchedulerReady
  | irq _ task hirq handled ih =>
    obtain ⟨env, he⟩ := handled
    exact (of_handled (startIrq_spec env ⟨task, ih⟩ hirq) he).toSchedulerReady

/-- A pc that a tick saves is even. -/
theorem TaskCode.saved_ne (hthumb : sym.prvIdleTask.getLsbD 0 = true) (h : TaskCode m.cpu) :
    m.cpu.pc + 4#32 ≠ sym.prvIdleTask + 4 := by
  intro heq
  have hpc : m.cpu.pc = sym.prvIdleTask := (BitVec.add_left_inj 4).1 heq
  have haligned := h.aligned
  rw [hpc, alignPc] at haligned
  have hbit : (if m.cpu.cpsr.t then sym.prvIdleTask &&& 0xFFFFFFFE else sym.prvIdleTask &&& 0xFFFFFFFC).getLsbD 0 =
      false := by
    split <;> simp
  rw [haligned, hthumb] at hbit
  cases hbit

/-- The slots that look free are those without a task into which nothing has been saved. -/
theorem Reached.pc_iff (hthumb : sym.prvIdleTask.getLsbD 0 = true) (h : Reached L sym m added saved) :
    ∀ slot, slot < SCHEDULER_MAX_TASKS →
      ((L.context m.cpu.mem slot).pc = sym.prvIdleTask + 4 ↔ slot ∉ added ∧ slot ∉ saved) := by
  induction h with
  | init _ _ contexts =>
    intro slot hs
    rw [contexts slot hs]
    exact iff_of_true (schedulerInit_field (f := .pc) hs) ⟨id, id⟩
  | @add m added saved h args other ih =>
    intro slot hs
    rcases addTask_cases L sym args m with ⟨taken, _, hfree, -, hstored, hkept⟩ | ⟨hnone, -, hsame⟩
    · have hpc : (L.context (m.addTask L sym args).cpu.mem taken).pc = args.entrypoint + 4 := hstored .pc
      by_cases heq : slot = taken
      · -- the slot that the call takes
        have hne : args.entrypoint + 4 ≠ sym.prvIdleTask + 4 := fun h => other ((BitVec.add_left_inj 4).1 h)
        rw [heq, hpc]
        refine iff_of_false hne fun hnot => hnot.1 (.inr ⟨heq ▸ hs, ?_⟩)
        rw [hpc, hfree]
        exact hne
      · rw [hkept slot hs heq, ih slot hs]
        simp [hkept slot hs heq]
    · rw [hsame, ih slot hs]
      simp
  | @work m m' added saved h hw ih =>
    intro slot hs
    rw [hw.context slot hs]
    exact ih slot hs
  | @irq m m' added saved h task hirq handled ih =>
    intro slot hs
    obtain ⟨env, he⟩ := handled
    have hafter : AfterIrq L m m' := of_handled (startIrq_spec env ⟨task, h.ready⟩ hirq) he
    by_cases hsaved : Tick m.kernel ∧ slot = m.kernel.prvCurrentTask
    · have hpc : (L.context m'.cpu.mem slot).pc = m.cpu.pc + 4#32 := by
        rw [hsaved.2, hafter.saved hsaved.1]
        rfl
      rw [hpc]
      exact iff_of_false (task.saved_ne hthumb) fun hnot => hnot.2 (.inr hsaved)
    · have hkept : SoftwareIrq m.kernel ∨ slot ≠ m.kernel.prvCurrentTask := by
        rcases hirq with hsoft | htick
        · exact .inl hsoft
        · exact .inr fun heq => hsaved ⟨htick, heq⟩
      rw [hafter.kept slot hs hkept, ih slot hs]
      simp [hsaved]

/-! ## When a call reports a full scheduler -/

/-- A call that finds a slot finds one into which nothing has been saved. -/
theorem Reached.exists_unsaved (hthumb : sym.prvIdleTask.getLsbD 0 = true) (h : Reached L sym m added saved)
    (hreports : ReportsFull L sym m added) (hslot : ∃ slot, slot < SCHEDULER_MAX_TASKS ∧ slot ∉ added) :
    ∃ slot, slot < SCHEDULER_MAX_TASKS ∧ slot ∉ added ∧ slot ∉ saved := by
  have hother : sym.prvIdleTask + 1 ≠ sym.prvIdleTask := by
    intro heq
    have hnat := congrArg BitVec.toNat heq
    rw [BitVec.toNat_add, show (1 : Word).toNat = 1 from rfl] at hnat
    omega
  obtain ⟨hret, -⟩ := (hreports ⟨sym.prvIdleTask + 1, 0, 0⟩ hother).1 hslot
  rcases addTask_cases L sym ⟨sym.prvIdleTask + 1, 0, 0⟩ m with
    ⟨slot, hs, hfree, -⟩ | ⟨-, hfull, -⟩
  · exact ⟨slot, hs, (h.pc_iff hthumb slot hs).1 hfree⟩
  · rw [hret] at hfull
    exact absurd hfull (by decide)

/-- In every state reached a call reports the scheduler full exactly when it is, exactly where every slot has a
task, or some slot without one has had nothing saved into it by a tick. -/
theorem reportsFull_iff (hthumb : sym.prvIdleTask.getLsbD 0 = true) (h : Reached L sym m added saved) :
    ReportsFull L sym m added ↔ (∀ slot, slot < SCHEDULER_MAX_TASKS → slot ∈ added) ∨
      ∃ slot, slot < SCHEDULER_MAX_TASKS ∧ slot ∉ added ∧ slot ∉ saved := by
  have hpc := h.pc_iff hthumb
  constructor
  · intro hreports
    by_cases hall : ∀ slot, slot < SCHEDULER_MAX_TASKS → slot ∈ added
    · exact .inl hall
    · push Not at hall
      exact .inr (h.exists_unsaved hthumb hreports hall)
  · rintro (hall | ⟨slot, hs, hadded, hsaved⟩) args -
    · rcases addTask_cases L sym args m with ⟨slot, hs, hfree, -⟩ | ⟨-, hret, hsame⟩
      · exact absurd (hall slot hs) ((hpc slot hs).1 hfree).1
      · constructor
        · rintro ⟨slot, hs, hnot⟩
          exact absurd (hall slot hs) hnot
        · refine iff_of_true ⟨hret, ?_⟩ hall
          intro slot _
          rw [hsame]
    · rcases addTask_cases L sym args m with ⟨taken, ht, hfree, hret, hstored, hkept⟩ | ⟨hnone, -⟩
      · constructor
        · rintro -
          exact ⟨hret, taken, ht, ((hpc taken ht).1 hfree).1, hstored, hkept⟩
        · rw [hret]
          exact iff_of_false (fun hfull => absurd hfull.1 (by decide)) fun hall => hadded (hall slot hs)
      · exact absurd ((hpc slot hs).2 ⟨hadded, hsaved⟩) (hnone slot hs)

/-! ## Two states -/

theorem reached_exampleStart : Reached exampleLayout exampleSymbols exampleStart ∅ ∅ :=
  .init started_exampleStart.toSchedulerReady rfl fun _ _ => rfl

/-- Before the first tick -/
theorem reportsFull_start : ReportsFull exampleLayout exampleSymbols exampleStart ∅ :=
  (reportsFull_iff (by decide) reached_exampleStart).2 (.inr ⟨0, by decide, id, id⟩)

/-- Without a task, a round of ticks after the software IRQ -/
theorem reached_ticks (k : Nat) (hk : k ≤ SCHEDULER_MAX_TASKS) :
    ∃ m saved, Reached exampleLayout exampleSymbols m ∅ saved ∧ m.kernel.prvCurrentTask = k % SCHEDULER_MAX_TASKS ∧
      ∀ slot, slot < k → slot ∈ saved := by
  induction k with
  | zero =>
    obtain ⟨m, hm, -, hcurrent, -⟩ := start_spec exampleEnv started_exampleStart
    refine ⟨m, _, reached_exampleStart.irq started_exampleStart.toTaskCode (.inl started_exampleStart.software)
      ⟨exampleEnv, hm⟩, hcurrent, ?_⟩
    intro slot hslot
    exact absurd hslot (Nat.not_lt_zero slot)
  | succ k ih =>
    obtain ⟨m, saved, h, hcurrent, hsaved⟩ := ih (by omega)
    obtain ⟨hw, ht⟩ := work_exampleWork (fun _ => 0) 0 m
    obtain ⟨m', hm', hticked⟩ := tick_spec exampleEnv (hw.interruptible h.ready) ht
    have hnow : (exampleWork (fun _ => 0) 0 m).kernel.prvCurrentTask = k :=
      hcurrent.trans (Nat.mod_eq_of_lt (by omega))
    refine ⟨m', _, (h.work hw).irq hw.task (.inr ht) ⟨exampleEnv, hm'⟩, ?_, ?_⟩
    · rw [hticked.current, hnow]
    · intro slot hslot
      rcases Nat.lt_succ_iff_lt_or_eq.1 hslot with hlt | rfl
      · exact .inl (hsaved slot hlt)
      · exact .inr ⟨ht, hnow.symm⟩

/-- After the round every slot is without a task, and the scheduler full. -/
theorem not_reportsFull : ¬ ∀ (L : Layout) (sym : Symbols) (m : Machine) (added saved : Set Nat),
    sym.prvIdleTask.getLsbD 0 = true → Reached L sym m added saved → ReportsFull L sym m added := by
  intro hall
  obtain ⟨m, saved, h, -, hsaved⟩ := reached_ticks SCHEDULER_MAX_TASKS (Nat.le_refl _)
  obtain ⟨slot, hs, -, hunsaved⟩ := h.exists_unsaved (by decide) (hall _ _ m ∅ saved (by decide) h) ⟨0, by decide, id⟩
  exact hunsaved (hsaved slot hs)

end Machine

end Td3.Kernel
