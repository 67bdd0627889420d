/-
What a new task finds in its registers. `__scheduler_init` and `__scheduler_add_task` (kernel/scheduler.c) write the
pc, status, stack pointer, table and ASID of a context and no other word of it: r0 to r12, lr, FPSCR and Q0 to Q15
are what the last tick that saved into the slot left there. Nothing clears them when `__scheduler_init` is called
again, so the next task of the slot starts with them; and the bits 23 to 8 of its CPSR are those of the code that the
IRQ which dispatches it interrupts.

Two histories that end with a call for the same task and slot are compared by what the task's first dispatch and its
first NEON instruction load.
-/
import Td3.Kernel.FreeSlots
import Td3.Kernel.Neon

namespace Td3.Kernel

open Arm

/-! ## What is left in a context -/

/-- The registers of a context that neither `__scheduler_init` nor `__scheduler_add_task` writes -/
@[ext]
structure Leftover where
  r : Fin 13 → Word
  lr : Word
  neon : Neon

namespace Leftover

/-- .bss -/
def zero : Leftover := ⟨fun _ => 0, 0, ⟨0, fun _ => 0⟩⟩

/-- What a tick leaves when it saves the code it interrupted: its NEON registers only if NEON is enabled. -/
def save (m : Cpu) (l : Leftover) : Leftover :=
  ⟨m.r, m.lr .user, if neonEnabled m.fpexc then Kernel.neon m else l.neon⟩

end Leftover

def TaskContext.leftover (c : TaskContext) : Leftover := ⟨c.r0ToR12, c.lr, c.neon⟩

theorem TaskContext.leftover_save (c : TaskContext) (m : Cpu) :
    (c.save (thread m) (savedNeon m c)).leftover = .save m c.leftover := rfl

section
variable {L : Layout} {sym : Symbols} {slot j : Nat}

theorem leftover_congr {mem mem' : Nat → Word}
    (h : ∀ j, j < contextWords → j ≠ 1 → (∀ f : Field, j ≠ f.word) → mem (L.word slot j) = mem' (L.word slot j)) :
    (L.context mem slot).leftover = (L.context mem' slot).leftover := by
  have hword : ∀ j, 3 ≤ j → j < 84 → j ≠ 16 → j ≠ 18 → mem (L.word slot j) = mem' (L.word slot j) := by
    intro j h3 h84 h16 h18
    refine h j h84 (by omega) ?_
    rintro (_ | _ | _ | _)
    · exact h18
    · exact (Nat.lt_of_lt_of_le (by decide) h3).ne'
    · exact h16
    · exact (Nat.lt_of_lt_of_le (by decide) h3).ne'
  refine Leftover.ext ?_ (hword 17 (by decide) (by decide) (by decide) (by decide)) (Neon.ext ?_ ?_)
  · funext i
    exact hword (3 + i) (by omega) (by omega) (by omega) (by omega)
  · exact hword 19 (by decide) (by decide) (by decide) (by decide)
  · funext i
    exact hword (20 + i) (by omega) (by omega) (by omega) (by omega)

theorem schedulerInit_free (hs : slot < SCHEDULER_MAX_TASKS) (mem : Nat → Word) :
    (L.context (schedulerInit L sym mem) slot).pc = sym.prvIdleTask + 4 := schedulerInit_field hs .pc

theorem schedulerInit_word (hj : j < contextWords) (h1 : j ≠ 1) (hf : ∀ f : Field, j ≠ f.word) (mem : Nat → Word) :
    schedulerInit L sym mem (L.word slot j) = mem (L.word slot j) := by
  have hkept {i b : Nat} {v : Word} {mem : Nat → Word} (hb : b < contextWords) (hne : j ≠ b) :
      Function.update mem (L.word i b) v (L.word slot j) = mem (L.word slot j) :=
    Function.update_of_ne (fun heq => hne ((word_eq hj hb).1 heq).2) ..
  have hround (i : Nat) (mem : Nat → Word) : initContext L sym mem i (L.word slot j) = mem (L.word slot j) := by
    have h0 : j ≠ 0 := hf .table1Addr
    have h2 : j ≠ 2 := hf .spsr
    have h16 : j ≠ 16 := hf .sp
    have h18 : j ≠ 18 := hf .pc
    unfold initContext
    rw [hkept (by decide) h1, hkept (by decide) h0, hkept (by decide) h16, hkept (by decide) h2,
      hkept (by decide) h18]
  rw [schedulerInit]
  generalize List.range SCHEDULER_MAX_TASKS = rounds
  induction rounds generalizing mem with
  | nil => rfl
  | cons i rounds ih => exact (ih _).trans (hround i mem)

theorem schedulerAddTaskFrom_word (hj : j < contextWords) (hf : ∀ f : Field, j ≠ f.word)
    (entrypoint stackTop table1Addr : Word) (mem : Nat → Word) (i : Nat) :
    (schedulerAddTaskFrom L sym entrypoint stackTop table1Addr mem i).2 (L.word slot j) = mem (L.word slot j) := by
  have hne (f : Field) (i : Nat) : L.word slot j ≠ L.word i f.word := by
    intro heq
    exact hf f ((word_eq hj (by cases f <;> decide)).1 heq).2
  fun_induction schedulerAddTaskFrom L sym entrypoint stackTop table1Addr mem i with
  | case1 i _ _ mem1 spsr mem2 mem3 =>
    have h3 : mem3 (L.word slot j) = mem2 (L.word slot j) := Function.update_of_ne (hne .sp i) ..
    have h2 : mem2 (L.word slot j) = mem1 (L.word slot j) := Function.update_of_ne (hne .spsr i) ..
    have h1 : mem1 (L.word slot j) = mem (L.word slot j) := Function.update_of_ne (hne .pc i) ..
    exact (Function.update_of_ne (hne .table1Addr i) ..).trans (h3.trans (h2.trans h1))
  | case2 i _ _ ih => exact ih
  | case3 => rfl

end

namespace Machine

/-! ## Histories -/

/-- What happens to the scheduler -/
inductive SchedEvent where
  | init
  | add (args : AddArgs)
  | work
  | start
  | tick

section
variable (L : Layout) (sym : Symbols)

/-- The code that runs calls `__scheduler_init`, and no IRQ comes before it returns. -/
def initTasks (m : Machine) : Machine := m.exec fun c => { c with mem := schedulerInit L sym c.mem }

/-- `start` is the software IRQ that `__scheduler_start` raises; what else `__scheduler_start` does is work. -/
inductive SchedStep : SchedEvent → Machine → Machine → Prop where
  | init (m : Machine) : SchedStep .init m (m.initTasks L sym)
  | add (args : AddArgs) (m : Machine) : SchedStep (.add args) m (m.addTask L sym args)
  | work {m m' : Machine} (hw : Work L m m') : SchedStep .work m m'
  | start {m m' : Machine} (task : TaskCode m.cpu) (soft : SoftwareIrq m.kernel)
    (handled : ∃ env, m.interrupt.irqHandlerAsm L env = some m') : SchedStep .start m m'
  | tick {m m' : Machine} (task : TaskCode m.cpu) (ht : Tick m.kernel)
    (handled : ∃ env, m.interrupt.irqHandlerAsm L env = some m') : SchedStep .tick m m'

/-- What is left in a slot, which had `l`, after an event of `m`. -/
def leftAfter (m : Machine) (e : SchedEvent) (slot : Nat) (l : Leftover) : Leftover :=
  match e with
  | .tick => if slot = m.kernel.prvCurrentTask then .save m.cpu l else l
  | _ => l

/-- A machine reached from the `__scheduler_init` of startup.S, with the events since and what the ticks have left
in each slot. -/
inductive History : Machine → List SchedEvent → (Nat → Leftover) → Prop where
  | boot {m : Machine} {mem : Nat → Word} (ready : SchedulerReady L m) (current : m.kernel.prvCurrentTask = 0)
    (bss : ∀ w, L.Context w → mem w = 0)
    (contexts : ∀ slot, slot < SCHEDULER_MAX_TASKS →
      L.context m.cpu.mem slot = L.context (schedulerInit L sym mem) slot) : History m [] fun _ => .zero
  | step {m m' : Machine} {e : SchedEvent} {events : List SchedEvent} {left : Nat → Leftover}
    (h : History m events left) (hs : SchedStep L sym e m m') :
    History m' (e :: events) fun slot => leftAfter m e slot (left slot)

end

variable {L : Layout} {sym : Symbols} {m m' : Machine} {e : SchedEvent} {slot : Nat}

/-! ## One step -/

theorem SchedStep.startSpec (h : SchedStep L sym .start m m') (hm : SchedulerReady L m) :
    Dispatched L m m' ∧ m'.kernel.prvCurrentTask = m.kernel.prvCurrentTask ∧
      m'.kernel.prvLastTask = m.kernel.prvLastTask ∧ m'.cpu.fpexc = m.cpu.fpexc ∧
      ∀ slot, slot < SCHEDULER_MAX_TASKS → L.context m'.cpu.mem slot = L.context m.cpu.mem slot := by
  cases h with
  | start task soft handled =>
    obtain ⟨env, he⟩ := handled
    exact of_handled (software_spec env ⟨task, hm⟩ soft) he

theorem SchedStep.ticked (h : SchedStep L sym .tick m m') (hm : SchedulerReady L m) : Ticked L m m' := by
  cases h with
  | tick task ht handled =>
    obtain ⟨env, he⟩ := handled
    exact of_handled (tick_spec env ⟨task, hm⟩ ht) he

theorem SchedStep.ready (h : SchedStep L sym e m m') (hm : SchedulerReady L m) : SchedulerReady L m' := by
  cases e with
  | init =>
    cases h
    exact ⟨hm.last, hm.current, hm.irqSp⟩
  | add args =>
    cases h
    exact ⟨hm.last, hm.current, hm.irqSp⟩
  | work =>
    cases h with
    | work hw => exact (hw.interruptible hm).toSchedulerReady
  | start =>
    obtain ⟨hd, hcur, hlast, -⟩ := h.startSpec hm
    exact hd.ready hm (hlast ▸ hm.last) (hcur ▸ hm.current)
  | tick => exact (h.ticked hm).ready hm

/-- Only a tick changes the current slot. -/
theorem SchedStep.current (h : SchedStep L sym e m m') (hm : SchedulerReady L m) (hne : e ≠ .tick) :
    m'.kernel.prvCurrentTask = m.kernel.prvCurrentTask := by
  cases e with
  | init =>
    cases h
    rfl
  | add args =>
    cases h
    rfl
  | work =>
    cases h with
    | work hw => exact hw.current
  | start => exact (h.startSpec hm).2.1
  | tick => exact absurd rfl hne

theorem SchedStep.leftover (h : SchedStep L sym e m m') (hm : SchedulerReady L m)
    (hs : slot < SCHEDULER_MAX_TASKS) :
    (L.context m'.cpu.mem slot).leftover = leftAfter m e slot (L.context m.cpu.mem slot).leftover := by
  cases e with
  | init =>
    cases h
    exact leftover_congr fun j hj h1 hf => schedulerInit_word hj h1 hf m.cpu.mem
  | add args =>
    cases h
    exact leftover_congr fun j hj _ hf => schedulerAddTaskFrom_word hj hf _ _ _ m.cpu.mem 0
  | work =>
    cases h with
    | work hw =>
      rw [hw.context slot hs]
      rfl
  | start =>
    obtain ⟨-, -, -, -, hctx⟩ := h.startSpec hm
    rw [hctx slot hs]
    rfl
  | tick =>
    have hticked := h.ticked hm
    rw [leftAfter]
    split_ifs with heq
    · rw [heq, hticked.saved]
      exact TaskContext.leftover_save _ m.cpu
    · rw [hticked.others slot hs heq]

theorem SchedStep.asidsOk (h : SchedStep L sym e m m') (hm : SchedulerReady L m) (hasids : AsidsOk L m) :
    AsidsOk L m' := by
  cases e with
  | init =>
    cases h
    exact fun slot hs => schedulerInit_asid hs
  | add args =>
    cases h
    exact fun slot hs => (schedulerAddTask_asid _ _ _ m.cpu.mem slot 0).trans (hasids slot hs)
  | work =>
    cases h with
    | work hw => exact hw.asidsOk hasids
  | start =>
    intro slot hs
    obtain ⟨-, -, -, -, hctx⟩ := h.startSpec hm
    rw [hctx slot hs]
    exact hasids slot hs
  | tick => exact (h.ticked hm).asidsOk hasids

/-- A slot with a task is written by `__scheduler_init` and by a tick in it only. -/
theorem SchedStep.context (h : SchedStep L sym e m m') (hm : SchedulerReady L m) (hs : slot < SCHEDULER_MAX_TASKS)
    (hpc : (L.context m.cpu.mem slot).pc ≠ sym.prvIdleTask + 4) (hinit : e ≠ .init)
    (htick : e = .tick → slot ≠ m.kernel.prvCurrentTask) :
    L.context m'.cpu.mem slot = L.context m.cpu.mem slot := by
  cases e with
  | init => exact absurd rfl hinit
  | add args =>
    cases h
    rcases addTask_cases L sym args m with ⟨taken, _, hfree, -, -, hkept⟩ | ⟨-, -, hsame⟩
    · refine hkept slot hs ?_
      rintro rfl
      exact hpc hfree
    · rw [hsame]
  | work =>
    cases h with
    | work hw => exact hw.context slot hs
  | start => exact (h.startSpec hm).2.2.2.2 slot hs
  | tick => exact (h.ticked hm).others slot hs (htick rfl)

/-- What a history keeps. -/
structure HistoryInv (L : Layout) (m : Machine) (left : Nat → Leftover) : Prop where
  ready : SchedulerReady L m
  asids : AsidsOk L m
  leftover : ∀ slot, slot < SCHEDULER_MAX_TASKS → (L.context m.cpu.mem slot).leftover = left slot

theorem History.invariant {events : List SchedEvent} {left : Nat → Leftover} (h : History L sym m events left) :
    HistoryInv L m left := by
  induction h with
  | @boot m mem ready _ bss contexts =>
    refine ⟨ready, ?_, ?_⟩
    · intro slot hs
      rw [contexts slot hs]
      exact schedulerInit_asid hs
    · intro slot hs
      have hzero (j : Nat) (hj : j < contextWords) : mem (L.word slot j) = 0 := by
        refine bss _ ?_
        unfold Layout.Context Layout.word
        unfold contextWords SCHEDULER_MAX_TASKS at *
        omega
      have hleft : (L.context (schedulerInit L sym mem) slot).leftover = (L.context (fun _ => 0) slot).leftover :=
        leftover_congr fun j hj h1 hf => (schedulerInit_word hj h1 hf mem).trans (hzero j hj)
      rw [contexts slot hs, hleft]
      rfl
  | step _ hs ih =>
    refine ⟨hs.ready ih.ready, hs.asidsOk ih.ready ih.asids, ?_⟩
    intro slot hslot
    rw [hs.leftover ih.ready hslot, ih.leftover slot hslot]

/-! ## The first run of a new task -/

section
variable (L : Layout) (sym : Symbols)

/-- The call puts its task into the slot. -/
def TakesSlot (args : AddArgs) (slot : Nat) (m : Machine) : Prop :=
  slot < SCHEDULER_MAX_TASKS ∧
    (L.context (m.addTask L sym args).cpu.mem slot).pc ≠ (L.context m.cpu.mem slot).pc

/-- Where a tick has last interrupted code while the slot was the current one. -/
def lostAfter (m : Machine) (e : SchedEvent) (slot : Nat) (lost : Option Machine) : Option Machine :=
  match e with
  | .tick => if slot = m.kernel.prvCurrentTask then some m else lost
  | _ => lost

/-- From the call to the IRQ that dispatches the slot: no second `__scheduler_init` takes the slot back, and the IRQs
dispatch others. -/
inductive Waiting (slot : Nat) (m : Machine) : Machine → Option Machine → Prop where
  | added : Waiting slot m m none
  | step {m1 m2 : Machine} {lost : Option Machine} {e : SchedEvent} (h : Waiting slot m m1 lost)
    (hs : SchedStep L sym e m1 m2) (hinit : e ≠ .init)
    (other : e = .start ∨ e = .tick → m2.kernel.prvCurrentTask ≠ slot) :
    Waiting slot m m2 (lostAfter m1 e slot lost)

/-- From the dispatch to the first NEON instruction of the slot: nothing else enables NEON there. -/
inductive Unused (slot : Nat) (m : Machine) : Machine → Prop where
  | dispatched : Unused slot m m
  | step {m1 m2 : Machine} {e : SchedEvent} (h : Unused slot m m1) (hs : SchedStep L sym e m1 m2)
    (disabled : e = .work → m1.kernel.prvCurrentTask = slot →
      neonEnabled m2.cpu.fpexc = neonEnabled m1.cpu.fpexc) : Unused slot m m2

/-- A history that ends with the call, and what comes up to the first dispatch of its task. -/
structure FirstRun (slot : Nat) (args : AddArgs) where
  called : Machine
  events : List SchedEvent
  left : Nat → Leftover
  history : History L sym called events left
  takes : TakesSlot L sym args slot called
  interrupted : Machine
  lost : Option Machine
  waiting : Waiting L sym slot (called.addTask L sym args) interrupted lost
  irq : SchedEvent
  isIrq : irq = .start ∨ irq = .tick
  -- `neon_disable()` in `__scheduler_start`
  disabled : irq = .start → neonEnabled interrupted.cpu.fpexc = false
  dispatched : Machine
  dispatch : SchedStep L sym irq interrupted dispatched
  current : dispatched.kernel.prvCurrentTask = slot
  undReady : UndReady L dispatched

/-- What comes from there up to the first NEON instruction of the task, which traps. -/
structure FirstUse (slot : Nat) (dispatched : Machine) where
  trapping : Machine
  unused : Unused L sym slot dispatched trapping
  task : TaskCode trapping.cpu
  current : trapping.kernel.prvCurrentTask = slot
  undReady : UndReady L trapping
  env : Env

end

/-- What `UND_handler` loads. -/
def FirstUse.neon (u : FirstUse L sym slot m) : Neon := Kernel.neon (u.trapping.undefined.undHandler L u.env).cpu

/-- Two first runs of a task start it with the same registers: those that the dispatch loads, and the NEON registers,
however it goes on up to its first NEON instruction. And it is the task that was added that they start, not code that
a tick has saved over it. -/
structure SameStart {args : AddArgs} (a b : FirstRun L sym slot args) : Prop where
  notLost : a.lost = none ∧ b.lost = none
  thread : Kernel.thread a.dispatched.cpu = Kernel.thread b.dispatched.cpu
  asid : a.dispatched.cpu.contextidr &&& 0xFF = b.dispatched.cpu.contextidr &&& 0xFF
  neon : ∀ (u : FirstUse L sym slot a.dispatched) (v : FirstUse L sym slot b.dispatched), u.neon = v.neon

/-- The context of a task that was added where `l` was left. -/
def newContext (args : AddArgs) (slot : Nat) (l : Leftover) : TaskContext where
  table1Addr := args.table1Addr
  asid := BitVec.ofNat 32 (slot + 1)
  spsr := args.value .spsr
  r0ToR12 := l.r
  sp := args.stackTop
  lr := l.lr
  pc := args.entrypoint + 4
  fpscr := l.neon.fpscr
  q := l.neon.q

variable {args : AddArgs} {left : Nat → Leftover}

/-- The slot was free, and has what the call stores. -/
theorem TakesSlot.stored (h : TakesSlot L sym args slot m) : (L.context m.cpu.mem slot).pc = sym.prvIdleTask + 4 ∧
    ∀ f : Field, (m.addTask L sym args).cpu.mem (L.word slot f.word) = args.value f := by
  obtain ⟨hs, hpc⟩ := h
  rcases addTask_cases L sym args m with ⟨taken, _, hfree, -, hstored, hkept⟩ | ⟨-, -, hsame⟩
  · have heq : slot = taken := by
      by_contra hne
      rw [hkept slot hs hne] at hpc
      exact hpc rfl
    rw [heq]
    exact ⟨hfree, hstored⟩
  · rw [hsame] at hpc
    exact absurd rfl hpc

/-- The call writes the context of the slot but for what is left there. -/
theorem TakesSlot.context (h : TakesSlot L sym args slot m) (hinv : HistoryInv L m left) :
    L.context (m.addTask L sym args).cpu.mem slot = newContext args slot (left slot) ∧
      args.entrypoint + 4 ≠ sym.prvIdleTask + 4 := by
  obtain ⟨hfree, hstored⟩ := h.stored
  have hadd : SchedStep L sym (.add args) m (m.addTask L sym args) := .add args m
  have hasid := hadd.asidsOk hinv.ready hinv.asids slot h.1
  have hleft : (L.context (m.addTask L sym args).cpu.mem slot).leftover = left slot :=
    (hadd.leftover hinv.ready h.1).trans (hinv.leftover slot h.1)
  constructor
  · exact TaskContext.ext (hstored .table1Addr) hasid (hstored .spsr) (congrArg Leftover.r hleft) (hstored .sp)
      (congrArg Leftover.lr hleft) (hstored .pc) (congrArg (·.neon.fpscr) hleft) (congrArg (·.neon.q) hleft)
  · intro heq
    exact h.2 ((hstored .pc).trans (heq.trans hfree.symm))

theorem lostAfter_eq_none {lost : Option Machine} (h : lostAfter m e slot lost = none) :
    lost = none ∧ (e = .tick → slot ≠ m.kernel.prvCurrentTask) := by
  cases e with
  | tick =>
    rw [lostAfter] at h
    split_ifs at h with hcur
    exact ⟨h, fun _ => hcur⟩
  | _ => exact ⟨h, nofun⟩

/-- What holds until the dispatch. -/
structure WaitingInv (L : Layout) (slot : Nat) (m m1 : Machine) (lost : Option Machine) : Prop where
  ready : SchedulerReady L m1
  asids : AsidsOk L m1
  kept : lost = none → L.context m1.cpu.mem slot = L.context m.cpu.mem slot

theorem Waiting.invariant {m1 : Machine} {lost : Option Machine} (h : Waiting L sym slot m m1 lost)
    (hm : SchedulerReady L m) (hasids : AsidsOk L m) (hs : slot < SCHEDULER_MAX_TASKS)
    (hpc : (L.context m.cpu.mem slot).pc ≠ sym.prvIdleTask + 4) : WaitingInv L slot m m1 lost := by
  induction h with
  | added => exact ⟨hm, hasids, fun _ => rfl⟩
  | @step m1 m2 lost e _ hstep hinit _ ih =>
    refine ⟨hstep.ready ih.ready, hstep.asidsOk ih.ready ih.asids, ?_⟩
    intro hnone
    obtain ⟨hbefore, htick⟩ := lostAfter_eq_none hnone
    rw [← ih.kept hbefore]
    refine hstep.context ih.ready hs ?_ hinit htick
    rw [ih.kept hbefore]
    exact hpc

/-- What holds from the dispatch to the first NEON instruction. -/
structure UnusedInv (L : Layout) (slot : Nat) (m m1 : Machine) : Prop where
  ready : SchedulerReady L m1
  disabled : m1.kernel.prvCurrentTask = slot → neonEnabled m1.cpu.fpexc = false
  neon : (L.context m1.cpu.mem slot).neon = (L.context m.cpu.mem slot).neon

theorem Unused.invariant {m1 : Machine} (h : Unused L sym slot m m1) (hm : SchedulerReady L m)
    (hs : slot < SCHEDULER_MAX_TASKS) (hen : neonEnabled m.cpu.fpexc = false) : UnusedInv L slot m m1 := by
  induction h with
  | dispatched => exact ⟨hm, fun _ => hen, rfl⟩
  | @step m1 m2 e _ hstep hdisabled ih =>
    refine ⟨hstep.ready ih.ready, ?_, ?_⟩
    · cases e with
      | init =>
        cases hstep
        exact ih.disabled
      | add args =>
        cases hstep
        exact ih.disabled
      | work =>
        intro hcur
        rw [hstep.current ih.ready nofun] at hcur
        rw [hdisabled rfl hcur]
        exact ih.disabled hcur
      | start =>
        obtain ⟨-, hcur, -, hfpexc, -⟩ := hstep.startSpec ih.ready
        rw [hcur, hfpexc]
        exact ih.disabled
      | tick => exact fun _ => (hstep.ticked ih.ready).disabled
    · -- a tick that interrupts the slot leaves the NEON words too: NEON is disabled there
      have hneon := congrArg Leftover.neon (hstep.leftover ih.ready hs)
      refine Eq.trans (hneon.trans ?_) ih.neon
      cases e with
      | tick =>
        rw [leftAfter]
        split_ifs with heq
        · show (if neonEnabled m1.cpu.fpexc then _ else _) = _
          rw [ih.disabled heq.symm]
          rfl
        · rfl
      | _ => rfl

/-! ## What it starts with -/

namespace FirstRun

variable (a : FirstRun L sym slot args)

theorem called_inv : HistoryInv L a.called a.left := a.history.invariant

theorem waiting_inv : WaitingInv L slot (a.called.addTask L sym args) a.interrupted a.lost := by
  have hinv := a.called_inv
  have hadd : SchedStep L sym (.add args) a.called (a.called.addTask L sym args) := .add args a.called
  obtain ⟨hctx, hother⟩ := a.takes.context hinv
  refine a.waiting.invariant (hadd.ready hinv.ready) (hadd.asidsOk hinv.ready hinv.asids) a.takes.1 ?_
  rw [hctx]
  exact hother

/-- The dispatch is that of the slot, and NEON is disabled after it. -/
theorem dispatched_spec : Dispatched L a.interrupted a.dispatched ∧ neonEnabled a.dispatched.cpu.fpexc = false := by
  have hready := a.waiting_inv.ready
  rcases a.isIrq with hirq | hirq
  · obtain ⟨hd, -, -, hfpexc, -⟩ := SchedStep.startSpec (hirq ▸ a.dispatch) hready
    refine ⟨hd, ?_⟩
    rw [hfpexc]
    exact a.disabled hirq
  · have hticked : Ticked L a.interrupted a.dispatched := SchedStep.ticked (hirq ▸ a.dispatch) hready
    exact ⟨hticked.toDispatched, hticked.disabled⟩

theorem irq_ne_init : a.irq ≠ .init := by
  intro heq
  have hirq := a.isIrq
  rw [heq] at hirq
  rcases hirq with hirq | hirq <;> cases hirq

/-- A tick that dispatches the slot interrupts another. -/
theorem ne_interrupted (h : a.irq = .tick) : slot ≠ a.interrupted.kernel.prvCurrentTask := by
  have hready := a.waiting_inv.ready
  have hcur := (SchedStep.ticked (h ▸ a.dispatch) hready).current
  rw [a.current] at hcur
  have hlt := hready.current
  unfold SCHEDULER_MAX_TASKS at hcur hlt
  omega

theorem context_dispatched (h : a.lost = none) :
    L.context a.dispatched.cpu.mem slot = newContext args slot (a.left slot) := by
  obtain ⟨hctx, hother⟩ := a.takes.context a.called_inv
  have hbefore := (a.waiting_inv.kept h).trans hctx
  rw [← hbefore]
  refine a.dispatch.context a.waiting_inv.ready a.takes.1 ?_ a.irq_ne_init a.ne_interrupted
  rw [hbefore]
  exact hother

/-- A new task starts with what the call wrote, what was left in the slot, and the bits of the interrupted code's CPSR
that `msr spsr` does not write. -/
theorem thread_eq (h : a.lost = none) :
    thread a.dispatched.cpu = (newContext args slot (a.left slot)).resume a.interrupted.cpu.cpsr := by
  have hthread := a.dispatched_spec.1.thread
  rw [a.current, a.context_dispatched h] at hthread
  exact hthread

theorem asid_eq : a.dispatched.cpu.contextidr &&& 0xFF = BitVec.ofNat 32 (slot + 1) := by
  have hready := a.waiting_inv.ready
  have hasids := a.dispatch.asidsOk hready a.waiting_inv.asids
  have hasid := a.dispatched_spec.1.asid hasids (a.dispatch.ready hready).current
  rw [a.current] at hasid
  exact hasid

/-- ... and with the NEON registers that were left. -/
theorem neon_eq (h : a.lost = none) (u : FirstUse L sym slot a.dispatched) : u.neon = (a.left slot).neon := by
  have hinv := u.unused.invariant (a.dispatch.ready a.waiting_inv.ready) a.takes.1 a.dispatched_spec.2
  have hr := undefined_spec u.env u.task hinv.ready.current u.undReady (hinv.disabled u.current)
  have hneon := hr.neon
  rw [u.current] at hneon
  rw [FirstUse.neon, hneon, hinv.neon, a.context_dispatched h]
  rfl

/-- It is in USR mode with IRQs unmasked. -/
theorem task (h : a.lost = none) : TaskCode a.dispatched.cpu := by
  have hthread := a.thread_eq h
  have hcpsr : a.dispatched.cpu.cpsr = a.interrupted.cpu.cpsr.withFc (.ofWord (args.value .spsr)) :=
    congrArg Thread.cpsr hthread
  have hpc : a.dispatched.cpu.pc = alignPc (a.interrupted.cpu.cpsr.withFc (.ofWord (args.value .spsr)))
      (args.entrypoint + 4 - 4#32) := congrArg Thread.pc hthread
  have hstatus : (Psr.ofWord (args.value .spsr)).mode = USR_MODE ∧ (Psr.ofWord (args.value .spsr)).i = false := by
    rw [AddArgs.value]
    split_ifs
    · decide
    · decide
  refine ⟨.inl ?_, ?_, ?_⟩
  · rw [hcpsr]
    exact hstatus.1
  · rw [hcpsr]
    exact hstatus.2
  · rw [hcpsr, hpc, alignPc_alignPc]

/-- It may go on with a NEON instruction at once. -/
theorem nonempty_firstUse (h : a.lost = none) : Nonempty (FirstUse L sym slot a.dispatched) :=
  ⟨⟨a.dispatched, .dispatched, a.task h, a.current, a.undReady,
    ⟨fun _ _ => ⟨0, 0, 0, 0, 0, a.dispatched.cpu.cpsr, fun _ => 0⟩, fun _ => 0⟩⟩⟩

end FirstRun

theorem resume_newContext_iff {l l' : Leftover} {p q : Psr} :
    (newContext args slot l).resume p = (newContext args slot l').resume q ↔
      l.r = l'.r ∧ l.lr = l'.lr ∧ p.SameSx q := by
  constructor
  · intro h
    exact ⟨congrArg Thread.r h, congrArg Thread.lr h, Psr.withFc_congr_iff.1 (congrArg Thread.cpsr h)⟩
  · rintro ⟨hr, hlr, hsx⟩
    have hcpsr : p.withFc (.ofWord (args.value .spsr)) = q.withFc (.ofWord (args.value .spsr)) :=
      Psr.withFc_congr_iff.2 hsx
    refine Thread.ext hr rfl hlr ?_ hcpsr rfl
    show alignPc (p.withFc (.ofWord (args.value .spsr))) _ = alignPc (q.withFc (.ofWord (args.value .spsr))) _
    rw [hcpsr]
    rfl

/-- Two first runs that start the task alike found the same in its slot. -/
theorem SameStart.left_eq {a b : FirstRun L sym slot args} (h : SameStart a b) : a.left slot = b.left slot ∧
    a.interrupted.cpu.cpsr.SameSx b.interrupted.cpu.cpsr := by
  obtain ⟨ha, hb⟩ := h.notLost
  have hthread := h.thread
  rw [a.thread_eq ha, b.thread_eq hb] at hthread
  obtain ⟨hr, hlr, hsx⟩ := resume_newContext_iff.1 hthread
  obtain ⟨u⟩ := a.nonempty_firstUse ha
  obtain ⟨v⟩ := b.nonempty_firstUse hb
  have hneon := h.neon u v
  rw [a.neon_eq ha, b.neon_eq hb] at hneon
  exact ⟨Leftover.ext hr hlr hneon, hsx⟩

/-- Two first runs start the task alike exactly where neither loses it to a tick in its slot, the same was left in the
slot, and the IRQs that dispatch it interrupt code with the same bits 23 to 8 in its CPSR. -/
theorem sameStart_iff (a b : FirstRun L sym slot args) : SameStart a b ↔
    (a.lost = none ∧ b.lost = none) ∧ a.left slot = b.left slot ∧
      a.interrupted.cpu.cpsr.SameSx b.interrupted.cpu.cpsr := by
  constructor
  · intro h
    exact ⟨h.notLost, h.left_eq⟩
  · rintro ⟨⟨ha, hb⟩, hleft, hsx⟩
    refine ⟨⟨ha, hb⟩, ?_, a.asid_eq.trans b.asid_eq.symm, ?_⟩
    · rw [a.thread_eq ha, b.thread_eq hb, hleft]
      exact resume_newContext_iff.2 ⟨rfl, rfl, hsx⟩
    · intro u v
      rw [a.neon_eq ha, b.neon_eq hb, hleft]

/-! ## Where the call is lost -/

theorem lostAfter_eq_some {m0 : Machine} {lost : Option Machine} (h : lostAfter m e slot lost = some m0) :
    (e = .tick ∧ slot = m.kernel.prvCurrentTask ∧ m0 = m) ∨
      lost = some m0 ∧ (e = .tick → slot ≠ m.kernel.prvCurrentTask) := by
  cases e with
  | tick =>
    rw [lostAfter] at h
    split_ifs at h with hcur
    · exact .inl ⟨rfl, hcur, (Option.some.inj h).symm⟩
    · exact .inr ⟨h, fun _ => hcur⟩
  | _ => exact .inr ⟨h, nofun⟩

/-- After a tick in its slot, the context is that of the code it interrupted. -/
theorem Waiting.saved (hthumb : sym.prvIdleTask.getLsbD 0 = true) {m1 m0 : Machine} {lost : Option Machine}
    (h : Waiting L sym slot m m1 lost) (hm : SchedulerReady L m) (hs : slot < SCHEDULER_MAX_TASKS)
    (hlost : lost = some m0) :
    SchedulerReady L m1 ∧ TaskCode m0.cpu ∧
      ∃ c n, L.context m1.cpu.mem slot = TaskContext.save (thread m0.cpu) n c := by
  have hready {m1 : Machine} {lost : Option Machine} (h : Waiting L sym slot m m1 lost) : SchedulerReady L m1 := by
    induction h with
    | added => exact hm
    | step _ hstep _ _ ih => exact hstep.ready ih
  refine ⟨hready h, ?_⟩
  induction h with
  | added => cases hlost
  | @step m1 m2 lost e hw hstep hinit _ ih =>
    rcases lostAfter_eq_some hlost with ⟨rfl, hcur, rfl⟩ | ⟨hbefore, htick⟩
    · have hsaved := (hstep.ticked (hready hw)).saved
      rw [← hcur] at hsaved
      cases hstep with
      | tick task _ _ => exact ⟨task, _, _, hsaved⟩
    · obtain ⟨htask, c, n, hctx⟩ := ih hbefore
      refine ⟨htask, c, n, ?_⟩
      rw [← hctx]
      refine hstep.context (hready hw) hs ?_ hinit htick
      rw [hctx]
      exact htask.saved_ne hthumb

/-- What is dispatched then is not the new task: it goes on where the tick came. -/
theorem FirstRun.thread_of_lost (hthumb : sym.prvIdleTask.getLsbD 0 = true) (a : FirstRun L sym slot args) {m : Machine}
    (h : a.lost = some m) :
    thread a.dispatched.cpu = thread m.cpu ↔ a.interrupted.cpu.cpsr.SameSx m.cpu.cpsr := by
  have hadd : SchedStep L sym (.add args) a.called (a.called.addTask L sym args) := .add args a.called
  obtain ⟨hready, htask, c, n, hctx⟩ := a.waiting.saved hthumb (hadd.ready a.called_inv.ready) a.takes.1 h
  have hdispatched : L.context a.dispatched.cpu.mem slot = TaskContext.save (thread m.cpu) n c := by
    rw [← hctx]
    refine a.dispatch.context hready a.takes.1 ?_ a.irq_ne_init a.ne_interrupted
    rw [hctx]
    exact htask.saved_ne hthumb
  have hthread := a.dispatched_spec.1.thread
  rw [a.current, hdispatched] at hthread
  rw [hthread]
  exact TaskContext.resume_save_iff htask.aligned

/-! ## One initialisation -/

/-- A step that leaves a slot free found it free, and saves nothing into it. -/
theorem SchedStep.free (hthumb : sym.prvIdleTask.getLsbD 0 = true) (h : SchedStep L sym e m m')
    (hm : SchedulerReady L m) (hs : slot < SCHEDULER_MAX_TASKS) (hinit : e ≠ .init)
    (hfree : (L.context m'.cpu.mem slot).pc = sym.prvIdleTask + 4) (l : Leftover) :
    (L.context m.cpu.mem slot).pc = sym.prvIdleTask + 4 ∧ leftAfter m e slot l = l := by
  have htick : e = .tick → slot ≠ m.kernel.prvCurrentTask := by
    rintro rfl rfl
    have hsaved := (h.ticked hm).saved
    cases h with
    | tick task _ _ =>
      rw [hsaved] at hfree
      exact task.saved_ne hthumb hfree
  constructor
  · by_contra hpc
    rw [h.context hm hs hpc hinit htick] at hfree
    exact hpc hfree
  · cases e with
    | tick => exact if_neg (htick rfl)
    | _ => rfl

/-- Without a second `__scheduler_init`, nothing has been saved into a slot that a call takes. -/
theorem History.left_zero (hthumb : sym.prvIdleTask.getLsbD 0 = true) {events : List SchedEvent}
    (h : History L sym m events left) (hinit : .init ∉ events) (hs : slot < SCHEDULER_MAX_TASKS)
    (hfree : (L.context m.cpu.mem slot).pc = sym.prvIdleTask + 4) : left slot = .zero := by
  induction h with
  | boot => rfl
  | @step m m' e events left h hstep ih =>
    obtain ⟨hne, hevents⟩ := List.ne_and_not_mem_of_not_mem_cons hinit
    obtain ⟨hbefore, hleft⟩ := hstep.free hthumb h.invariant.ready hs (Ne.symm hne) hfree (left slot)
    exact hleft.trans (ih hevents hbefore)

/-- Where `__scheduler_init` is called once, as startup.S does, the tasks start with zeros. -/
theorem FirstRun.left_zero (hthumb : sym.prvIdleTask.getLsbD 0 = true) (a : FirstRun L sym slot args)
    (hinit : .init ∉ a.events) : a.left slot = .zero :=
  a.history.left_zero hthumb hinit a.takes.1 a.takes.stored.1

/-! ## Two runs -/

def exampleArgs : AddArgs := ⟨0x70010000, 0x70020000, 0x70030000⟩

theorem takesSlot_zero (hfree : (exampleLayout.context m.cpu.mem 0).pc = exampleSymbols.prvIdleTask + 4) :
    TakesSlot exampleLayout exampleSymbols exampleArgs 0 m := by
  have hmem : (m.addTask exampleLayout exampleSymbols exampleArgs).cpu.mem =
      Function.update (Function.update (Function.update (Function.update m.cpu.mem (exampleLayout.word 0 18) 0x70010004)
        (exampleLayout.word 0 2) (exampleArgs.value .spsr)) (exampleLayout.word 0 16) 0x70020000)
        (exampleLayout.word 0 0) 0x70030000 := by
    have hword : m.cpu.mem (exampleLayout.word 0 18) = exampleSymbols.prvIdleTask + 4 := hfree
    show (schedulerAddTaskFrom _ _ _ _ _ m.cpu.mem 0).2 = _
    rw [schedulerAddTaskFrom, dif_pos (by decide), if_pos hword]
    rfl
  have hpc : (m.addTask exampleLayout exampleSymbols exampleArgs).cpu.mem (exampleLayout.word 0 18) = 0x70010004 := by
    rw [hmem, Function.update_of_ne (by decide), Function.update_of_ne (by decide), Function.update_of_ne (by decide),
      Function.update_self]
  refine ⟨by decide, ?_⟩
  rw [hfree]
  show (m.addTask exampleLayout exampleSymbols exampleArgs).cpu.mem (exampleLayout.word 0 18) ≠ _
  rw [hpc]
  decide

theorem history_exampleStart : History exampleLayout exampleSymbols exampleStart [] fun _ => .zero :=
  @History.boot _ _ _ (fun _ => 0) started_exampleStart.toSchedulerReady rfl (fun _ _ => rfl) fun _ _ => rfl

theorem exists_firstRun {called : Machine} {events : List SchedEvent}
    (history : History exampleLayout exampleSymbols called events left)
    (hfree : (exampleLayout.context called.cpu.mem 0).pc = exampleSymbols.prvIdleTask + 4)
    (waiting : Waiting exampleLayout exampleSymbols 0 (called.addTask exampleLayout exampleSymbols exampleArgs) m none)
    (isIrq : e = .start ∨ e = .tick) (disabled : e = .start → neonEnabled m.cpu.fpexc = false)
    (dispatch : SchedStep exampleLayout exampleSymbols e m m') (current : m'.kernel.prvCurrentTask = 0)
    (und : UndReady exampleLayout m') :
    ∃ a : FirstRun exampleLayout exampleSymbols 0 exampleArgs,
      a.lost = none ∧ a.left = left ∧ a.interrupted = m := by
  exact ⟨{
    called, events, left, history, takes := takesSlot_zero hfree, interrupted := m, lost := none, waiting, irq := e
    isIrq, disabled, dispatched := m', dispatch, current, undReady := und }, rfl, rfl, rfl⟩

/-- A round of ticks, from slot 1 on -/
theorem exists_waiting (hm : SchedulerReady exampleLayout m) (hcur : m.kernel.prvCurrentTask = 1) (k : Nat)
    (hk : k < 9) : ∃ m', Waiting exampleLayout exampleSymbols 0 m m' none ∧ SchedulerReady exampleLayout m' ∧
      m'.kernel.prvCurrentTask = k + 1 ∧ m'.cpu.sp .und = m.cpu.sp .und := by
  induction k with
  | zero => exact ⟨m, .added, hm, hcur, rfl⟩
  | succ k ih =>
    obtain ⟨m1, hwait, hready, hcur1, hsp⟩ := ih (by omega)
    obtain ⟨hw, ht⟩ := work_exampleWork (fun _ => 0) 0 m1
    have hready1 := (hw.interruptible hready).toSchedulerReady
    obtain ⟨m2, hm2, hticked⟩ := tick_spec exampleEnv ⟨hw.task, hready1⟩ ht
    have hcur2 : m2.kernel.prvCurrentTask = k + 2 := by
      rw [hticked.current, hw.current, hcur1]
      exact Nat.mod_eq_of_lt (by unfold SCHEDULER_MAX_TASKS; omega)
    have hlost : lostAfter (exampleWork (fun _ => 0) 0 m1) .tick 0 none = none := by
      refine if_neg ?_
      rw [hw.current, hcur1]
      omega
    have hwait1 := hwait.step (.work hw) nofun (by rintro (h | h) <;> cases h)
    have hwait2 := hwait1.step (.tick hw.task ht ⟨exampleEnv, hm2⟩) nofun fun _ => by omega
    rw [show lostAfter m1 .work 0 none = none from rfl, hlost] at hwait2
    exact ⟨m2, hwait2, hticked.ready hready1, hcur2, (hticked.sp .und (by decide)).trans hsp⟩

/-- The task is added at boot, and the software IRQ dispatches it. -/
theorem exists_first_task : ∃ a : FirstRun exampleLayout exampleSymbols 0 exampleArgs,
    a.lost = none ∧ a.left 0 = .zero ∧ a.interrupted.cpu.cpsr = exampleStart.cpu.cpsr := by
  let m : Machine := exampleStart.addTask exampleLayout exampleSymbols exampleArgs
  have htask : TaskCode m.cpu := ⟨.inr rfl, rfl, started_exampleStart.aligned⟩
  have hready : SchedulerReady exampleLayout m :=
    ⟨started_exampleStart.last, started_exampleStart.current, started_exampleStart.irqSp⟩
  have hsoft : SoftwareIrq m.kernel := started_exampleStart.software
  obtain ⟨m', hm', hd, hcur, -, -, -⟩ := software_spec exampleEnv ⟨htask, hready⟩ hsoft
  have hund : UndReady exampleLayout m' := by
    refine ⟨0x500 - 8, ?_, by decide, by decide⟩
    exact (hd.sp .und (by decide)).trans rfl
  obtain ⟨a, hlost, hleft, hm⟩ := exists_firstRun history_exampleStart
    (schedulerInit_free (by decide) _) .added (.inl rfl) (fun _ => by decide)
    (.start htask hsoft ⟨exampleEnv, hm'⟩) hcur hund
  refine ⟨a, hlost, ?_, ?_⟩
  · rw [hleft]
  · rw [hm]
    rfl

/-- A tick has saved the registers of another task into the slot before `__scheduler_init` is called again. -/
theorem exists_next_task : ∃ a : FirstRun exampleLayout exampleSymbols 0 exampleArgs,
    a.lost = none ∧ (a.left 0).r = (fun _ => 1) ∧ a.interrupted.cpu.cpsr = examplePsr 0 := by
  -- the task that is saved
  let first : Machine := { exampleWork (fun _ => 0) 0 exampleStart with
    cpu := { (exampleWork (fun _ => 0) 0 exampleStart).cpu with r := fun _ => 1 } }
  obtain ⟨hw, ht⟩ := work_exampleWork (fun _ => 0) 0 exampleStart
  have hfirst : Work exampleLayout exampleStart first :=
    ⟨⟨hw.task.mode, hw.task.unmasked, hw.task.aligned⟩, hw.context, hw.current, hw.last, hw.irqSp⟩
  have htick : Tick first.kernel := ht
  obtain ⟨m1, hm1, hticked⟩ := tick_spec exampleEnv (hfirst.interruptible started_exampleStart.toSchedulerReady) htick
  have history := ((history_exampleStart.step (.work hfirst)).step (.tick hfirst.task htick ⟨exampleEnv, hm1⟩)).step
    (.init m1)
  -- the next one, up to the tick that dispatches it
  let called : Machine := m1.initTasks exampleLayout exampleSymbols
  let m2 : Machine := called.addTask exampleLayout exampleSymbols exampleArgs
  have hready : SchedulerReady exampleLayout m2 :=
    ((SchedStep.add exampleArgs called : SchedStep exampleLayout exampleSymbols _ _ m2)).ready history.invariant.ready
  have hcur : m2.kernel.prvCurrentTask = 1 := hticked.current
  obtain ⟨m3, hwait, hready3, hcur3, hsp3⟩ := exists_waiting hready hcur 8 (by decide)
  obtain ⟨hw3, ht3⟩ := work_exampleWork (fun _ => 0) 0 m3
  obtain ⟨m4, hm4, hticked4⟩ := tick_spec exampleEnv (hw3.interruptible hready3) ht3
  have hcur4 : m4.kernel.prvCurrentTask = 0 := by
    rw [hticked4.current, hw3.current, hcur3]
    rfl
  have hund : UndReady exampleLayout m4 := by
    refine ⟨0x500 - 8, ?_, by decide, by decide⟩
    exact ((hticked4.sp .und (by decide)).trans hsp3).trans ((hticked.sp .und (by decide)).trans rfl)
  obtain ⟨a, hlost, hleft, hm⟩ := exists_firstRun history (schedulerInit_free (by decide) m1.cpu.mem)
    (hwait.step (.work hw3) nofun (by rintro (h | h) <;> cases h)) (.inr rfl) nofun
    (.tick hw3.task ht3 ⟨exampleEnv, hm4⟩) hcur4 hund
  refine ⟨a, hlost, ?_, ?_⟩
  · rw [hleft]
    rfl
  · rw [hm]
    rfl

/-- The next task of the slot starts with registers of the one before. -/
theorem not_sameStart : ¬ ∀ (L : Layout) (sym : Symbols) (slot : Nat) (args : AddArgs) (a b : FirstRun L sym slot args),
    SameStart a b := by
  intro hall
  obtain ⟨a, -, hleft, -⟩ := exists_first_task
  obtain ⟨b, -, hleft', -⟩ := exists_next_task
  have hr := congrArg Leftover.r (hall _ _ _ _ a b).left_eq.1
  rw [hleft, hleft'] at hr
  have h0 : (0 : Word) = 1 := congrFun hr 0
  exact absurd h0 (by decide)

end Machine

end Td3.Kernel
