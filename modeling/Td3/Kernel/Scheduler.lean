/-
The C side of an IRQ: the scheduler's two indices and its task contexts (kernel/scheduler.c), the
interrupt controller and the timers as far as `irq_handler` (kernel/int_handlers.c) uses them
(kernel/drivers/gic.c, timer.c), and where the linker puts what the assembly handlers address.
-/
import Td3.Lib.Arm

namespace Td3.Kernel

open Arm

/-! ## Interrupt controller and timers -/

def INT_SOFTWARE : Word := 1
def INT_TIMER_0_AND_1 : Word := 36
def INT_TIMER_2_AND_3 : Word := 37
def INT_TIMER_4_AND_5 : Word := 73
def INT_TIMER_6_AND_7 : Word := 74
def INT_ERROR : Word := 1023

/-- The functions a timer's `irq_handler` points to: none, the scheduler's, or one that only clears
the interrupt of its own timer. -/
inductive TimerHandler where
  | prvNoHandler
  | prvSchedulerChangeTask
  | clearInterrupt (timer : Fin 8)
deriving DecidableEq, Repr

structure Timer where
  ris : Word
  irqHandler : TimerHandler
deriving DecidableEq, Repr

/-- `prv_current_task` and `prv_last_task`, the timers, and the interrupt controller's INT_ACK and
EOI registers. -/
structure Globals where
  prvCurrentTask : Nat
  prvLastTask : Nat
  timers : Fin 8 → Timer
  intAck : Word
  eoi : Word

/-- `int_id` of the timers. -/
def timerIntId : Fin 8 → Word := ![INT_TIMER_0_AND_1, INT_TIMER_0_AND_1, INT_TIMER_2_AND_3, INT_TIMER_2_AND_3,
  INT_TIMER_4_AND_5, INT_TIMER_4_AND_5, INT_TIMER_6_AND_7, INT_TIMER_6_AND_7]

def gicGetId (k : Globals) : Word := k.intAck &&& 0x3FF

def gicClearInterrupt (id : Word) (k : Globals) : Globals := { k with eoi := id }

def timerInterrupted (timer : Fin 8) (k : Globals) : Bool := (k.timers timer).ris &&& 1 ≠ 0

/-- Any write of INTCLR clears the raw interrupt status. -/
def timerClearInterrupt (timer : Fin 8) (k : Globals) : Globals :=
  gicClearInterrupt (timerIntId timer) { k with
    timers := Function.update k.timers timer { k.timers timer with ris := (k.timers timer).ris &&& 0xFFFFFFFE } }

/-! ## The scheduler -/

def SCHEDULER_MAX_TASKS : Nat := 10

def prvSchedulerChangeTask (k : Globals) : Globals :=
  let k := timerClearInterrupt 0 k
  let next := k.prvCurrentTask + 1
  { k with prvLastTask := k.prvCurrentTask, prvCurrentTask := if next = SCHEDULER_MAX_TASKS then 0 else next }

/-- `TIMERx->irq_handler()` -/
def callTimerHandler (timer : Fin 8) (k : Globals) : Globals :=
  match (k.timers timer).irqHandler with
  | .prvNoHandler => k
  | .prvSchedulerChangeTask => prvSchedulerChangeTask k
  | .clearInterrupt t => timerClearInterrupt t k

def IRQ_DONT_SWITCH_CONTEXT : Word := 1

/-- `irq_handler()`; `none` where it ends in `__critical_error`, which does not return. -/
def irqHandler (k : Globals) : Option (Word × Globals) :=
  let id := gicGetId k
  let either (a b : Fin 8) := if timerInterrupted a k then callTimerHandler a k else callTimerHandler b k
  if id = INT_TIMER_0_AND_1 then some (0, either 0 1)
  else if id = INT_TIMER_2_AND_3 then some (0, either 2 3)
  else if id = INT_TIMER_4_AND_5 then some (0, either 4 5)
  else if id = INT_TIMER_6_AND_7 then some (0, either 6 7)
  else if id = INT_SOFTWARE then some (IRQ_DONT_SWITCH_CONTEXT, gicClearInterrupt id k)
  else none

/-! ## The memory the handlers address -/

/-- Words of a `task_context`. -/
def contextWords : Nat := 84

/-- Where the linker puts the task contexts, `irq_return` and the stacks of the handlers (as word
numbers; a stack reaches from its limit up to its top), none of them overlapping another. -/
structure Layout where
  contexts : Nat
  irqReturn : Nat
  irqStackLimit : Nat
  irqStackTop : Nat
  undStackLimit : Nat
  undStackTop : Nat
  contexts_lt : contexts + contextWords * SCHEDULER_MAX_TASKS ≤ 2 ^ 30
  irqReturn_lt : irqReturn < 2 ^ 30
  irqStack_lt : irqStackTop < 2 ^ 30
  undStack_lt : undStackTop < 2 ^ 30
  irqReturn_contexts : irqReturn < contexts ∨ contexts + contextWords * SCHEDULER_MAX_TASKS ≤ irqReturn
  irqReturn_irqStack : irqReturn < irqStackLimit ∨ irqStackTop ≤ irqReturn
  irqStack_contexts : irqStackTop ≤ contexts ∨ contexts + contextWords * SCHEDULER_MAX_TASKS ≤ irqStackLimit
  undStack_contexts : undStackTop ≤ contexts ∨ contexts + contextWords * SCHEDULER_MAX_TASKS ≤ undStackLimit

/-- `task_context`; `sp`, `lr` and `pc` are addresses, `q` the 64 words of the 16 vectors. -/
@[ext]
structure TaskContext where
  table1Addr : Word
  asid : Word
  spsr : Word
  r0ToR12 : Fin 13 → Word
  sp : Word
  lr : Word
  pc : Word
  fpscr : Word
  q : Fin 64 → Word

namespace Layout

variable (L : Layout)

/-- Word `j` of `prv_task_contexts[slot]`. -/
def word (slot j : Nat) : Nat := L.contexts + contextWords * slot + j

/-- The words of the context of a slot. -/
def Slot (slot i : Nat) : Prop := L.word slot 0 ≤ i ∧ i < L.word slot contextWords

/-- A word of the IRQ handler's own: of its stack, or `irq_return`. -/
def IrqScratch (i : Nat) : Prop := (L.irqStackLimit ≤ i ∧ i < L.irqStackTop) ∨ i = L.irqReturn

/-- `prv_task_contexts[slot]` -/
def context (mem : Nat → Word) (slot : Nat) : TaskContext where
  table1Addr := mem (L.word slot 0)
  asid := mem (L.word slot 1)
  spsr := mem (L.word slot 2)
  r0ToR12 i := mem (L.word slot (3 + i))
  sp := mem (L.word slot 16)
  lr := mem (L.word slot 17)
  pc := mem (L.word slot 18)
  fpscr := mem (L.word slot 19)
  q i := mem (L.word slot (20 + i))

variable {L}

theorem slot_word {slot j : Nat} (h : j < contextWords) : L.Slot slot (L.word slot j) := by
  unfold Slot word
  unfold contextWords at *
  omega

theorem context_congr {mem mem' : Nat → Word} {slot : Nat} (h : ∀ i, L.Slot slot i → mem i = mem' i) :
    L.context mem slot = L.context mem' slot := by
  have hw : ∀ j, j < contextWords → mem (L.word slot j) = mem' (L.word slot j) := fun j hj => h _ (slot_word hj)
  unfold contextWords at hw
  unfold context
  congr 1
  case e_r0ToR12 | e_q => exact funext fun i => hw _ (by omega)
  all_goals exact hw _ (by decide)

theorem slot_unique {slot slot' i : Nat} (h : L.Slot slot i) (h' : L.Slot slot' i) : slot = slot' := by
  unfold Slot word at h h'
  unfold contextWords at *
  omega

theorem not_irqScratch_of_slot {slot i : Nat} (hs : slot < SCHEDULER_MAX_TASKS) (h : L.Slot slot i) :
    ¬ L.IrqScratch i := by
  have := L.irqReturn_contexts
  have := L.irqStack_contexts
  unfold Slot word at h
  unfold IrqScratch
  unfold SCHEDULER_MAX_TASKS contextWords at *
  omega

end Layout

/-! ## Tasks -/

/-- What the linker gives `__scheduler_init`. -/
structure Symbols where
  prvIdleTask : Word
  stackIdleTask : Word
  kernelTable1Addr : Word

/-- The T bit of a status word. -/
def T_BIT : Word := 0x20

section
variable (L : Layout) (sym : Symbols)

/-- One round of `__scheduler_init`: pc, spsr, sp, table1_addr and asid. -/
def initContext (mem : Nat → Word) (i : Nat) : Nat → Word :=
  let mem := Function.update mem (L.word i 18) (sym.prvIdleTask + 4)
  let mem := Function.update mem (L.word i 2) (SYS_MODE.setWidth 32 ||| T_BIT)
  let mem := Function.update mem (L.word i 16) sym.stackIdleTask
  let mem := Function.update mem (L.word i 0) sym.kernelTable1Addr
  Function.update mem (L.word i 1) (BitVec.ofNat 32 (i + 1))

/-- `__scheduler_init` -/
def schedulerInit (mem : Nat → Word) : Nat → Word := (List.range SCHEDULER_MAX_TASKS).foldl (initContext L sym) mem

/-- `__scheduler_add_task`, from slot `i` on: its value and the memory. -/
def schedulerAddTaskFrom (entrypoint stackTop table1Addr : Word) (mem : Nat → Word) (i : Nat) : Word × (Nat → Word) :=
  if h : i < SCHEDULER_MAX_TASKS then
    if mem (L.word i 18) = sym.prvIdleTask + 4 then
      let mem := Function.update mem (L.word i 18) (entrypoint + 4)
      let spsr : Word := if entrypoint.toNat % 2 = 1 then USR_MODE.setWidth 32 ||| T_BIT else USR_MODE.setWidth 32
      let mem := Function.update mem (L.word i 2) spsr
      let mem := Function.update mem (L.word i 16) stackTop
      (0, Function.update mem (L.word i 0) table1Addr)
    else schedulerAddTaskFrom entrypoint stackTop table1Addr mem (i + 1)
  else (1, mem)
termination_by SCHEDULER_MAX_TASKS - i

def schedulerAddTask (entrypoint stackTop table1Addr : Word) (mem : Nat → Word) : Word × (Nat → Word) :=
  schedulerAddTaskFrom L sym entrypoint stackTop table1Addr mem 0

/-- The memory after `__scheduler_init` and calls of `__scheduler_add_task`. -/
inductive Prepared : (Nat → Word) → Prop where
  | init (mem : Nat → Word) : Prepared (schedulerInit L sym mem)
  | add {mem : Nat → Word} (entrypoint stackTop table1Addr : Word) (h : Prepared mem) :
    Prepared (schedulerAddTask L sym entrypoint stackTop table1Addr mem).2

end

section
variable {L : Layout} {sym : Symbols}

/-- Writing another word of a context leaves the ASIDs. -/
theorem update_word_asid {i j b : Nat} {v : Word} {mem : Nat → Word} (hb : b < contextWords) (h1 : b ≠ 1) :
    Function.update mem (L.word i b) v (L.word j 1) = mem (L.word j 1) := by
  have hne : L.word j 1 ≠ L.word i b := by
    unfold Layout.word
    unfold contextWords at *
    omega
  exact Function.update_of_ne hne ..

theorem asid_word_inj {i j : Nat} : L.word i 1 = L.word j 1 ↔ i = j := by
  unfold Layout.word contextWords
  omega

theorem initContext_asid (mem : Nat → Word) (i j : Nat) :
    initContext L sym mem i (L.word j 1) = if j = i then BitVec.ofNat 32 (i + 1) else mem (L.word j 1) := by
  by_cases hji : j = i
  · rw [if_pos hji, hji, initContext, Function.update_self]
  · rw [if_neg hji, initContext, Function.update_of_ne (mt asid_word_inj.1 hji)]
    simp (disch := decide) only [update_word_asid]

theorem schedulerInit_asid {mem : Nat → Word} {slot : Nat} (hs : slot < SCHEDULER_MAX_TASKS) :
    (L.context (schedulerInit L sym mem) slot).asid = BitVec.ofNat 32 (slot + 1) := by
  have h (n : Nat) (hn : slot < n) :
      (List.range n).foldl (initContext L sym) mem (L.word slot 1) = BitVec.ofNat 32 (slot + 1) := by
    induction n with
    | zero => omega
    | succ n ih =>
      rw [List.range_succ, List.foldl_append, List.foldl_cons, List.foldl_nil, initContext_asid]
      split_ifs with heq
      · rw [heq]
      · exact ih (by omega)
  exact h _ hs

/-- A task's ASID stays what `__scheduler_init` gave its slot. -/
theorem schedulerAddTask_asid (entrypoint stackTop table1Addr : Word) (mem : Nat → Word) (slot i : Nat) :
    (L.context (schedulerAddTaskFrom L sym entrypoint stackTop table1Addr mem i).2 slot).asid =
      (L.context mem slot).asid := by
  fun_induction schedulerAddTaskFrom L sym entrypoint stackTop table1Addr mem i with
  | case1 i _ _ mem1 spsr mem2 mem3 =>
    have h3 : mem3 (L.word slot 1) = mem2 (L.word slot 1) := update_word_asid (by decide) (by decide)
    have h2 : mem2 (L.word slot 1) = mem1 (L.word slot 1) := update_word_asid (by decide) (by decide)
    have h1 : mem1 (L.word slot 1) = mem (L.word slot 1) := update_word_asid (by decide) (by decide)
    exact (update_word_asid (by decide) (by decide)).trans (h3.trans (h2.trans h1))
  | case2 i _ _ ih => exact ih
  | case3 => rfl

theorem Prepared.asid {mem : Nat → Word} (h : Prepared L sym mem) {slot : Nat} (hs : slot < SCHEDULER_MAX_TASKS) :
    (L.context mem slot).asid = BitVec.ofNat 32 (slot + 1) := by
  induction h with
  | init mem => exact schedulerInit_asid hs
  | add e s t _ ih => exact (schedulerAddTask_asid e s t _ slot 0).trans ih

/-! ## What it leaves -/

/-- A word of `prv_task_contexts` -/
def Layout.Context (L : Layout) (w : Nat) : Prop :=
  L.contexts ≤ w ∧ w < L.contexts + contextWords * SCHEDULER_MAX_TASKS

theorem update_word_of_not {i b w : Nat} {v : Word} {mem : Nat → Word} (hi : i < SCHEDULER_MAX_TASKS)
    (hb : b < contextWords) (hw : ¬ L.Context w) : Function.update mem (L.word i b) v w = mem w := by
  refine Function.update_of_ne ?_ ..
  rintro rfl
  apply hw
  unfold Layout.Context Layout.word
  unfold contextWords SCHEDULER_MAX_TASKS at *
  omega

theorem schedulerInit_of_not {w : Nat} (hw : ¬ L.Context w) (mem : Nat → Word) : schedulerInit L sym mem w = mem w := by
  have h (n : Nat) (hn : n ≤ SCHEDULER_MAX_TASKS) : (List.range n).foldl (initContext L sym) mem w = mem w := by
    induction n with
    | zero => rfl
    | succ n ih =>
      have hround (mem : Nat → Word) : initContext L sym mem n w = mem w := by
        have hlt : n < SCHEDULER_MAX_TASKS := hn
        unfold initContext
        rw [update_word_of_not hlt (by decide) hw, update_word_of_not hlt (by decide) hw,
          update_word_of_not hlt (by decide) hw, update_word_of_not hlt (by decide) hw,
          update_word_of_not hlt (by decide) hw]
      rw [List.range_succ, List.foldl_append, List.foldl_cons, List.foldl_nil, hround]
      exact ih (by omega)
  exact h _ (Nat.le_refl _)

theorem schedulerAddTask_of_not {w : Nat} (hw : ¬ L.Context w) (entrypoint stackTop table1Addr : Word)
    (mem : Nat → Word) (i : Nat) : (schedulerAddTaskFrom L sym entrypoint stackTop table1Addr mem i).2 w = mem w := by
  fun_induction schedulerAddTaskFrom L sym entrypoint stackTop table1Addr mem i with
  | case1 i hi _ mem1 spsr mem2 mem3 =>
    have h3 : mem3 w = mem2 w := update_word_of_not hi (by decide) hw
    have h2 : mem2 w = mem1 w := update_word_of_not hi (by decide) hw
    have h1 : mem1 w = mem w := update_word_of_not hi (by decide) hw
    exact (update_word_of_not hi (by decide) hw).trans (h3.trans (h2.trans h1))
  | case2 i _ _ ih => exact ih
  | case3 => rfl

end

/-! ## The machine -/

@[ext]
structure Machine where
  cpu : Cpu
  kernel : Globals

/-- What the compiler and the linker are free to choose: what a call of compiled code leaves in the
scratch registers and below the stack pointer, and the return addresses of `bl`. -/
structure Env where
  junk : Nat → Machine → Cpu.Junk
  returnAddress : Nat → Word

namespace Machine

/-- An instruction. -/
def exec (f : Cpu → Cpu) (m : Machine) : Machine := { m with cpu := f m.cpu }

/-- `__scheduler_get_last_task_context_addr()` and `__scheduler_get_current_task_context_addr()`,
called at `site` with the stack that reaches down to `limit`. -/
def schedulerGetLastTaskContextAddr (L : Layout) (env : Env) (limit site : Nat) (m : Machine) : Machine :=
  m.exec (Cpu.call limit (env.junk site m) (addrOf (L.word m.kernel.prvLastTask 0)))

def schedulerGetCurrentTaskContextAddr (L : Layout) (env : Env) (limit site : Nat) (m : Machine) : Machine :=
  m.exec (Cpu.call limit (env.junk site m) (addrOf (L.word m.kernel.prvCurrentTask 0)))

end Machine

end Td3.Kernel
