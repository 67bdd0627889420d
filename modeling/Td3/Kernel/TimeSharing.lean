/-
The tasks under the scheduler. At every tick of TIMER0 `IRQ_handler` switches to the next slot; between two ticks
the dispatched task executes instructions of its own in user mode, and one whose access aborts goes through
`ABT_handler` and is executed again. In every such run each task has, as far as it can see, the processor and a
flat memory to itself.

The contexts and the stacks of the handlers are in the memory of `cpu`, everything else is in that of `mmu`.
-/
import Td3.Kernel.TaskMemory
import Td3.Kernel.Ticks

namespace Td3.Kernel

open Arm PageTables Aborted

/-! ## The system -/

/-- The machine, with the variables of the kernel and its devices -/
structure System where
  run : Aborted
  kernel : Globals

inductive SystemEvent where
  /-- The dispatched task executes the instruction that it is at, or takes the abort that DFSR reports. -/
  | attempt (env : AbortEnv) (dfsr : Word)
  /-- The kernel stores a word. -/
  | store (i : Nat) (v : Word)
  /-- TIMER0 ticks, with its interrupt in `globals`. -/
  | tick (env : Env) (globals : Globals)

def System.machine (s : System) : Machine := ⟨s.run.cpu, s.kernel⟩

/-- `IRQ_handler` in the dispatched task -/
def System.irq (L : Layout) (env : Env) (s : System) : Option System :=
  (s.machine.interrupt.irqHandlerAsm L env).map fun m => ⟨{ s.run with cpu := m.cpu }, m.kernel⟩

/-- The table of a slot; the slots without a task are idle. -/
def Link.slotTable (k : Link) (slot : Nat) : Option Nat := k.taskTables[slot]?

section
variable (k : Link) (c : Cp15) (L : AbortLayout) (progs : Nat → Program Thread)

/-- Each slot has a program. -/
def systemStep (s : System) : SystemEvent → Option System
  | .attempt env dfsr => some { s with run := attempt c L (progs s.kernel.prvCurrentTask) env dfsr s.run }
  | .store i v => (userStep k c L.mapping s.run.mmu (.kernel i v)).map fun mmu => { s with run.mmu := mmu }
  | .tick env globals => ({ s with kernel := globals } : System).irq k.layout env

variable {k} in
/-- Tasks keep to pages of their own, the kernel to its memory, and no IRQ but the tick comes. -/
def SystemEvent.Allowed (h : k.Linked) (s : System) : SystemEvent → Prop
  | .attempt env dfsr => ∀ t, k.slotTable s.kernel.prvCurrentTask = some t →
    TaskEvent.Allowed c L (progs s.kernel.prvCurrentTask) h t s.run (.attempt env dfsr)
  | .store i v => UserEvent.Allowed L.mapping h s.run.mmu (.kernel i v)
  | .tick _ globals => Machine.Tick globals ∧ globals.prvCurrentTask = s.kernel.prvCurrentTask ∧
    globals.prvLastTask = s.kernel.prvLastTask

end

/-- What the code of a slot can be: with IRQs unmasked, and with the given bits 23 to 8 of CPSR, which
`msr spsr` does not write. -/
structure SlotThread (psr : Psr) (table : Option Nat) (th : Thread) : Prop where
  unmasked : th.cpsr.i = false
  sx : psr.SameSx th.cpsr
  aligned : alignPc th.cpsr th.pc = th.pc
  user : ∀ t, table = some t → UserThread t th
  idle : table = none → th.cpsr.mode = SYS_MODE

theorem SlotThread.of_task {psr : Psr} {t : Nat} {th : Thread} (hi : th.cpsr.i = false) (hsx : psr.SameSx th.cpsr)
    (huser : UserThread t th) : SlotThread psr (some t) th := by
  refine ⟨hi, hsx, huser.aligned, ?_, fun hnone => absurd hnone (Option.some_ne_none t)⟩
  rintro t' ⟨⟩
  exact huser

theorem SlotThread.of_idle {psr : Psr} {th : Thread} (hi : th.cpsr.i = false) (hsx : psr.SameSx th.cpsr)
    (halign : alignPc th.cpsr th.pc = th.pc) (hmode : th.cpsr.mode = SYS_MODE) : SlotThread psr none th :=
  ⟨hi, hsx, halign, fun t htable => absurd htable.symm (Option.some_ne_none t), fun _ => hmode⟩

theorem SlotThread.mode {psr : Psr} {table : Option Nat} {th : Thread} (hth : SlotThread psr table th) :
    th.cpsr.mode = USR_MODE ∨ th.cpsr.mode = SYS_MODE := by
  cases htable : table with
  | none => exact .inr (hth.idle htable)
  | some t => exact .inl (hth.user t htable).mode

/-- Tasks are unprivileged, idle slots use no memory, and neither changes what a context switch does not keep. -/
structure SlotProgram (table : Option Nat) (prog : Program Thread) : Prop where
  unprivileged : ∀ t, table = some t → Unprivileged t prog
  status : ∀ th, (prog th).Leads fun next => next.cpsr.i = th.cpsr.i ∧ th.cpsr.SameSx next.cpsr
  idle : table = none → ∀ th, th.cpsr.mode = SYS_MODE →
    ∃ next, prog th = .plain next ∧ next.cpsr.mode = SYS_MODE ∧ alignPc next.cpsr next.pc = next.pc

/-- The thread of a slot: in the registers while it is dispatched, else in its context. -/
def System.slotThread (k : Link) (psr : Psr) (s : System) (slot : Nat) : Thread :=
  if slot = s.kernel.prvCurrentTask then thread s.run.cpu else (k.layout.context s.run.cpu.mem slot).resume psr

theorem System.slotThread_current (k : Link) (psr : Psr) (s : System) :
    s.slotThread k psr s.kernel.prvCurrentTask = thread s.run.cpu := if_pos rfl

theorem System.slotThread_saved (k : Link) (psr : Psr) {s : System} {slot : Nat}
    (hne : slot ≠ s.kernel.prvCurrentTask) :
    s.slotThread k psr slot = (k.layout.context s.run.cpu.mem slot).resume psr := if_neg hne

/-- The contexts are none of what `ABT_handler` writes. -/
def AbortLayout.SparesContexts (L : AbortLayout) (k : Link) : Prop :=
  ∀ i, k.layout.Context i → (i < L.stackLimit ∨ L.stackTop ≤ i) ∧ i ≠ L.abtReturn

section
variable {k : Link} {c : Cp15} {L : AbortLayout} {h : k.Linked} {m0 m m' : Mmu} {t t' : Nat} {va pa : Word}
  {psr : Psr} {s s' : System}

/-! ## What one task does to another -/

theorem sameSx_trans {p q r : Psr} (h1 : p.SameSx q) (h2 : q.SameSx r) : p.SameSx r := by
  obtain ⟨a1, a2, a3, a4, a5⟩ := h1
  obtain ⟨b1, b2, b3, b4, b5⟩ := h2
  exact ⟨a1.trans b1, a2.trans b2, a3.trans b3, a4.trans b4, a5.trans b5⟩

/-- A store of several bytes, as stores of one byte each that are another task's -/
theorem UserInv.stores_run (hinv : UserInv h m0 m) (hc : Configured c) (hd : k.FramesDisjoint)
    (hmaps : ∀ p ∈ k.addressSpaces, Maps m0.mem p.1 p.2) (ht : t ∈ k.taskTables) (hne : t ≠ t') (bytes : List Word)
    {domain : BitVec 4} {attributes : PageAttributes} (hap : permits attributes.ap false .store = true)
    (hwalk : ∀ i < bytes.length,
      walk m.mem t (va + BitVec.ofNat 32 i) = .smallPage (pa + BitVec.ofNat 32 i) domain attributes) :
    Run (userStep k c true) (fun m e => e.Allowed true h m ∧ ∀ va', ¬ e.StoresTo t' va') m
      { m with mem := putBytes bytes pa m.mem } := by
  induction bytes generalizing m va pa with
  | nil => exact .start
  | cons v vs ih =>
    have hwalk0 := hwalk 0 (by simp)
    simp only [BitVec.add_zero] at hwalk0
    have hstep : userStep k c true m (.store t va v) = some { m with mem := putByte v pa m.mem } := by
      rw [userStep, strb_eq h hc ht hwalk0 hap v]
    have hallowed : (UserEvent.store t va v).Allowed true h m := by
      refine ⟨ht, fun _ hfault => ?_⟩
      rw [hwalk0] at hfault
      cases hfault
    obtain ⟨hinv1, hkeeps⟩ := hinv.step hc hd hmaps hallowed hstep
    have hnext (a : Word) (i : Nat) : a + 1#32 + BitVec.ofNat 32 i = a + BitVec.ofNat 32 (i + 1) := by
      rw [BitVec.add_assoc, Nat.add_comm i 1, BitVec.ofNat_add]
    have hwalk1 : ∀ i < vs.length, walk (putByte v pa m.mem) t (va + 1#32 + BitVec.ofNat 32 i) =
        .smallPage (pa + 1#32 + BitVec.ofNat 32 i) domain attributes := by
      intro i hi
      have hwalki := hwalk (i + 1) (Nat.succ_lt_succ hi)
      rw [hnext, hnext, ← hwalki]
      exact hkeeps t (taskTables_table1s h ht) _ (by rw [hwalki]; simp)
    have hfirst : Run (userStep k c true) (fun m e => e.Allowed true h m ∧ ∀ va', ¬ e.StoresTo t' va') m
        { m with mem := putByte v pa m.mem } :=
      Run.start.step _ ⟨hallowed, fun _ hstores => hne hstores.1⟩ hstep
    exact hfirst.trans (ih hinv1 hwalk1)

/-- What a task does at an instruction changes nothing that the other one can read. -/
theorem Attempted.others_kept {mapping : Bool} {instr : Instr Thread} {th th' : Thread}
    (hattempted : Attempted h c mapping t instr th m th' m') (hinv : UserInv h m0 m) (hc : Configured c)
    (hd : k.FramesDisjoint) (hmaps : ∀ p ∈ k.addressSpaces, Maps m0.mem p.1 p.2) (ht : t ∈ k.taskTables)
    (ht' : t' ∈ k.taskTables) (hne : t ≠ t') {va' byte : Word} (hown : k.OwnPage va')
    (hread : userRead c t' va' m = some byte) : userRead c t' va' m' = some byte := by
  cases hattempted with
  | plain next at_instr => exact hread
  | load va unit size next pa at_instr own fits aligned translated => exact hread
  | store va unit bytes next pa at_instr own fits aligned translated =>
    obtain ⟨domain, attributes, hwalk, hap⟩ := translate_some (hc.uses (taskTables_table1s h ht)) translated
    have hrun := hinv.stores_run hc hd hmaps ht hne bytes hap fun i hi => walk_add hwalk (by omega)
    exact (hinv.separated hc true hd hmaps).own t' ht' va' byte hown hread _
      (hrun.mono fun _ _ hguard => ⟨hguard.1, hguard.2 va'⟩)
  | abort va unit rw at_instr own aligned aborts room =>
    obtain ⟨hinv', hmapped⟩ := hinv.abort fun hmapping hfault => room ⟨hmapping, hfault⟩
    exact hmapped.read_kept hinv hc hd hmaps ht' hown hread
  | unaligned va unit rw at_instr unaligned => exact hread

theorem Attempted.leads {mapping : Bool} {instr : Instr Thread} {th th' : Thread} {P : Thread → Prop}
    (hattempted : Attempted h c mapping t instr th m th' m') (hleads : instr.Leads P) (hth : P th) : P th' := by
  cases hattempted with
  | plain next at_instr =>
    rw [at_instr] at hleads
    exact hleads
  | load va unit size next pa at_instr own fits aligned translated =>
    rw [at_instr] at hleads
    exact hleads _
  | store va unit bytes next pa at_instr own fits aligned translated =>
    rw [at_instr] at hleads
    exact hleads
  | abort va unit rw at_instr own aligned aborts room => exact hth
  | unaligned va unit rw at_instr unaligned => exact hth

/-! ## What the steps keep -/

/-- Neither an instruction nor its abort changes the stack pointers of the handlers, or the contexts. -/
theorem attempt_frame (prog : Program Thread) (env : AbortEnv) (dfsr : Word) {x : Aborted}
    (halign : alignPc x.cpu.cpsr x.cpu.pc = x.cpu.pc) (hsp : x.cpu.sp .abt = addrOf L.stackTop) :
    (∀ b, b ≠ .user → (attempt c L prog env dfsr x).cpu.sp b = x.cpu.sp b) ∧
      ∀ i, i < L.stackLimit ∨ L.stackTop ≤ i → i ≠ L.abtReturn →
        (attempt c L prog env dfsr x).cpu.mem i = x.cpu.mem i := by
  have hset (th : Thread) : (∀ b, b ≠ .user → (x.setThread th).cpu.sp b = x.cpu.sp b) ∧
      ∀ i, i < L.stackLimit ∨ L.stackTop ≤ i → i ≠ L.abtReturn → (x.setThread th).cpu.mem i = x.cpu.mem i := by
    constructor
    · intro b hb
      exact Function.update_of_ne hb ..
    · intro i _ _
      rfl
  have habort (va : Word) := (dataAbort_spec env dfsr va hsp halign).1
  unfold attempt
  split
  · split
    · exact hset _
    · exact ⟨fun b _ => congrFun (habort _).sp b, (habort _).memory⟩
  · split
    · exact hset _
    · exact ⟨fun b _ => congrFun (habort _).sp b, (habort _).memory⟩
  · exact hset _

/-- The contexts are kept. -/
theorem slotThread_attempt (hspares : L.SparesContexts k) {slot : Nat} (hs : slot < SCHEDULER_MAX_TASKS)
    (hne : slot ≠ s.kernel.prvCurrentTask) {x : Aborted}
    (hmem : ∀ i, i < L.stackLimit ∨ L.stackTop ≤ i → i ≠ L.abtReturn → x.cpu.mem i = s.run.cpu.mem i) :
    ({ s with run := x } : System).slotThread k psr slot = s.slotThread k psr slot := by
  have hcontext : k.layout.context x.cpu.mem slot = k.layout.context s.run.cpu.mem slot := by
    refine Layout.context_congr fun i hi => ?_
    have hcontext : k.layout.Context i := by
      unfold Layout.Slot Layout.word at hi
      unfold Layout.Context
      unfold contextWords SCHEDULER_MAX_TASKS at *
      omega
    obtain ⟨houtside, hret⟩ := hspares i hcontext
    exact hmem i houtside hret
  rw [System.slotThread_saved k psr hne, ← hcontext]
  exact System.slotThread_saved k psr hne

/-- A tick switches to the next slot, and every slot has the thread that it had. -/
theorem slotThread_ticked {globals : Globals} {m' : Machine}
    (hticked : Machine.Ticked k.layout ⟨s.run.cpu, globals⟩ m')
    (hcur : globals.prvCurrentTask = s.kernel.prvCurrentTask)
    (hsx : psr.SameSx s.run.cpu.cpsr) (halign : alignPc s.run.cpu.cpsr s.run.cpu.pc = s.run.cpu.pc) {slot : Nat}
    (hs : slot < SCHEDULER_MAX_TASKS) :
    (⟨{ s.run with cpu := m'.cpu }, m'.kernel⟩ : System).slotThread k psr slot = s.slotThread k psr slot := by
  have hcurrent := hticked.current
  have hothers := hticked.others
  have hsaved := hticked.saved
  have hthread := hticked.thread
  dsimp only at hcurrent hothers hsaved hthread
  rw [hcur] at hcurrent hothers hsaved
  have hnext : (s.kernel.prvCurrentTask + 1) % SCHEDULER_MAX_TASKS ≠ s.kernel.prvCurrentTask := by
    unfold SCHEDULER_MAX_TASKS at *
    omega
  unfold System.slotThread
  dsimp only
  by_cases h1 : slot = m'.kernel.prvCurrentTask
  · -- It is resumed in the handler that interrupted another, from which come the bits that `msr spsr` leaves.
    have hne : slot ≠ s.kernel.prvCurrentTask := by rw [h1, hcurrent]; exact hnext
    have hsame : ∀ c : TaskContext, c.resume s.run.cpu.cpsr = c.resume psr := by
      intro c
      unfold TaskContext.resume
      rw [(Psr.withFc_congr_iff (q := s.run.cpu.cpsr)).2 hsx]
    rw [if_pos h1, if_neg hne, hthread, ← h1, hothers slot hs hne, hsame]
  · rw [if_neg h1]
    by_cases h2 : slot = s.kernel.prvCurrentTask
    · rw [if_pos h2, h2, hsaved]
      exact (TaskContext.resume_save_iff halign).2 hsx
    · rw [if_neg h2, hothers slot hs h2]

/-- The handlers have their whole stacks, and every slot has code of its own. -/
structure Scheduled (k : Link) (L : AbortLayout) (psr : Psr) (s : System) : Prop where
  stack : s.run.cpu.sp .abt = addrOf L.stackTop
  ready : Machine.SchedulerReady k.layout s.machine
  slots : ∀ slot, slot < SCHEDULER_MAX_TASKS → SlotThread psr (k.slotTable slot) (s.slotThread k psr slot)

structure SystemInv (h : k.Linked) (m0 : Mmu) (L : AbortLayout) (psr : Psr) (s : System) : Prop extends
    Scheduled k L psr s where
  memory : UserInv h m0 s.run.mmu

/-- The thread of a slot, and what its task sees of memory -/
def SlotSeesFlat (k : Link) (c : Cp15) (psr : Psr) (slot t : Nat) (s : System) (f : Flat Thread) : Prop :=
  f.thread = s.slotThread k psr slot ∧ SeenAs k c t s.run.mmu f.memory

/-- A slot whose thread and readable bytes are kept has made no step of its own. -/
theorem SlotSeesFlat.kept {slot : Nat} {prog : Program Thread} {f' : Flat Thread}
    (hsees : SlotSeesFlat k c psr slot t s' f') (hthread : s'.slotThread k psr slot = s.slotThread k psr slot)
    (hkept : ∀ va, k.OwnPage va → ∀ byte, userRead c t va s.run.mmu = some byte →
      userRead c t va s'.run.mmu = some byte) :
    ∃ f, SlotSeesFlat k c psr slot t s f ∧ Reaches (Flat.step prog) f f' :=
  ⟨f', ⟨hsees.1.trans hthread, hsees.2.mono hkept⟩, .refl⟩

theorem taskTables_nodup (h : k.Linked) : k.taskTables.Nodup :=
  (List.nodup_cons.1 h.distinct).2

theorem slotTable_mem {slot : Nat} (htable : k.slotTable slot = some t) : t ∈ k.taskTables :=
  List.mem_of_getElem? htable

theorem slotTable_lt {slot : Nat} (htable : k.slotTable slot = some t) : slot < SCHEDULER_MAX_TASKS := by
  have hlt : slot < k.taskTables.length := (List.getElem?_eq_some_iff.1 htable).1
  simp only [Link.taskTables, Link.taskSpaces, List.map_cons, List.map_nil, List.length_cons, List.length_nil] at hlt
  unfold SCHEDULER_MAX_TASKS
  omega

theorem slotTable_inj (h : k.Linked) {slot slot' : Nat} (htable : k.slotTable slot = some t)
    (htable' : k.slotTable slot' = some t) : slot = slot' := by
  have hlt : slot < k.taskTables.length := (List.getElem?_eq_some_iff.1 htable).1
  exact (List.getElem?_inj hlt (taskTables_nodup h)).1 (htable.trans htable'.symm)

section
variable {progs : Nat → Program Thread} {env : AbortEnv} {dfsr : Word} {x' : Aborted}

theorem Scheduled.dispatched (hinv : Scheduled k L psr s) :
    SlotThread psr (k.slotTable s.kernel.prvCurrentTask) (thread s.run.cpu) := by
  have hslot := hinv.slots s.kernel.prvCurrentTask hinv.ready.current
  rwa [System.slotThread_current] at hslot

/-- The instruction of an idle slot -/
theorem SystemInv.idle_spec (hinv : SystemInv h m0 L psr s) {prog : Program Thread}
    (htable : k.slotTable s.kernel.prvCurrentTask = none) (hprog : SlotProgram none prog)
    (hx' : x' = attempt c L prog env dfsr s.run) :
    SlotThread psr none (thread x'.cpu) ∧ x'.mmu = s.run.mmu := by
  have hslot := hinv.dispatched
  rw [htable] at hslot
  obtain ⟨next, hnext, hmode, halign⟩ := hprog.idle rfl _ (hslot.idle rfl)
  have hstatus := hprog.status (thread s.run.cpu)
  rw [hnext] at hstatus
  have hset : x' = s.run.setThread next := by
    rw [hx', attempt, hnext]
  rw [hset, thread_setThread]
  refine ⟨.of_idle ?_ (sameSx_trans hslot.sx hstatus.2) halign hmode, rfl⟩
  rw [hstatus.1]
  exact hslot.unmasked

/-- The instruction of a task, or its abort -/
theorem SystemInv.task_spec (hinv : SystemInv h m0 L psr s) (hL : L.Of k) (hc : Configured c)
    {prog : Program Thread} (htable : k.slotTable s.kernel.prvCurrentTask = some t) (hprog : SlotProgram (some t) prog)
    (hallowed : TaskEvent.Allowed c L prog h t s.run (.attempt env dfsr))
    (hx' : x' = attempt c L prog env dfsr s.run) :
    SlotThread psr (some t) (thread x'.cpu) ∧
      Attempted h c L.mapping t (prog (thread s.run.cpu)) (thread s.run.cpu) s.run.mmu (thread x'.cpu) x'.mmu := by
  have hslot := hinv.dispatched
  rw [htable] at hslot
  obtain ⟨hattempted, huser, -⟩ :=
    attempt_spec hL hc (hprog.unprivileged t rfl) (hslot.user t rfl) hinv.stack hallowed hx'
  have hstatus := hattempted.leads (hprog.status _) ⟨rfl, ⟨rfl, rfl, rfl, rfl, rfl⟩⟩
  refine ⟨.of_task ?_ (sameSx_trans hslot.sx hstatus.2) huser, hattempted⟩
  rw [hstatus.1]
  exact hslot.unmasked

/-- The other slots have their contexts. -/
theorem Scheduled.others (hinv : Scheduled k L psr s) (hspares : L.SparesContexts k) {prog : Program Thread}
    (hx' : x' = attempt c L prog env dfsr s.run) {slot : Nat} (hs : slot < SCHEDULER_MAX_TASKS)
    (hne : slot ≠ s.kernel.prvCurrentTask) :
    ({ s with run := x' } : System).slotThread k psr slot = s.slotThread k psr slot := by
  have hmem := (attempt_frame (c := c) (L := L) prog env dfsr hinv.dispatched.aligned hinv.stack).2
  rw [← hx'] at hmem
  exact slotThread_attempt hspares hs hne hmem

/-- An instruction leaves the other slots, the stacks and the scheduler as they are. -/
theorem SystemInv.attempted (hinv : SystemInv h m0 L psr s) (hspares : L.SparesContexts k) {prog : Program Thread}
    (hx' : x' = attempt c L prog env dfsr s.run) (hmemory : UserInv h m0 x'.mmu)
    (hslot : SlotThread psr (k.slotTable s.kernel.prvCurrentTask) (thread x'.cpu)) :
    SystemInv h m0 L psr { s with run := x' } := by
  have hsp := (attempt_frame (c := c) (L := L) prog env dfsr hinv.dispatched.aligned hinv.stack).1
  rw [← hx'] at hsp
  refine ⟨⟨(hsp .abt (by decide)).trans hinv.stack, ⟨hinv.ready.last, hinv.ready.current, ?_⟩, ?_⟩, hmemory⟩
  · obtain ⟨sp, hirq, hroom⟩ := hinv.ready.irqSp
    exact ⟨sp, (hsp .irq (by decide)).trans hirq, hroom⟩
  · intro slot hs
    by_cases hcur : slot = s.kernel.prvCurrentTask
    · have hthread := System.slotThread_current k psr { s with run := x' }
      rw [hcur, hthread]
      exact hslot
    · rw [hinv.others hspares hx' hs hcur]
      exact hinv.slots slot hs

theorem SystemInv.attempt_step (hinv : SystemInv h m0 L psr s) (hL : L.Of k) (hspares : L.SparesContexts k)
    (hprogs : ∀ slot, slot < SCHEDULER_MAX_TASKS → SlotProgram (k.slotTable slot) (progs slot)) (hc : Configured c)
    (hd : k.FramesDisjoint) (hmaps : ∀ p ∈ k.addressSpaces, Maps m0.mem p.1 p.2)
    (hallowed : (SystemEvent.attempt env dfsr).Allowed c L progs h s)
    (hx' : x' = attempt c L (progs s.kernel.prvCurrentTask) env dfsr s.run) :
    SystemInv h m0 L psr { s with run := x' } ∧ ∀ slot t, k.slotTable slot = some t →
      ∀ f', SlotSeesFlat k c psr slot t { s with run := x' } f' →
        ∃ f, SlotSeesFlat k c psr slot t s f ∧ Reaches (Flat.step (progs slot)) f f' := by
  have hprog := hprogs s.kernel.prvCurrentTask hinv.ready.current
  cases hcurrent : k.slotTable s.kernel.prvCurrentTask with
  | none =>
    rw [hcurrent] at hprog
    obtain ⟨hslot, hmmu⟩ := hinv.idle_spec hcurrent hprog hx'
    refine ⟨hinv.attempted hspares hx' (by rw [hmmu]; exact hinv.memory) (by rw [hcurrent]; exact hslot), ?_⟩
    intro slot t htable f' hsees
    have hne : slot ≠ s.kernel.prvCurrentTask := by
      rintro rfl
      rw [hcurrent] at htable
      cases htable
    refine hsees.kept (hinv.others hspares hx' (slotTable_lt htable) hne) ?_
    intro va hown byte hread
    rw [hmmu]
    exact hread
  | some t =>
    rw [hcurrent] at hprog
    obtain ⟨hslot, hattempted⟩ := hinv.task_spec hL hc hcurrent hprog (hallowed t hcurrent) hx'
    have ht := slotTable_mem hcurrent
    obtain ⟨hmemory, hback⟩ := hattempted.seen hinv.memory hc hd hmaps ht
    refine ⟨hinv.attempted hspares hx' hmemory (by rw [hcurrent]; exact hslot), ?_⟩
    intro slot t' htable f' hsees
    by_cases hcur : slot = s.kernel.prvCurrentTask
    · subst hcur
      obtain rfl : t = t' := Option.some.inj (hcurrent.symm.trans htable)
      obtain ⟨th', μ⟩ := f'
      obtain ⟨hthread, hseen⟩ := hsees
      obtain rfl : th' = thread x'.cpu := hthread.trans (System.slotThread_current k psr _)
      obtain ⟨μ0, hseen0, hreach⟩ := hback μ hseen
      exact ⟨⟨thread s.run.cpu, μ0⟩, ⟨(System.slotThread_current k psr s).symm, hseen0⟩, hreach⟩
    · refine hsees.kept (hinv.others hspares hx' (slotTable_lt htable) hcur) ?_
      intro va hown byte hread
      refine hattempted.others_kept hinv.memory hc hd hmaps ht (slotTable_mem htable) ?_ hown hread
      rintro rfl
      exact hcur (slotTable_inj h htable hcurrent)

/-- A tick changes which slot is dispatched, and no thread. -/
theorem SystemInv.tick_step (hinv : SystemInv h m0 L psr s) {globals : Globals} {tickEnv : Env}
    (hallowed : (SystemEvent.tick tickEnv globals).Allowed c L progs h s)
    (hstep : ({ s with kernel := globals } : System).irq k.layout tickEnv = some s') :
    SystemInv h m0 L psr s' ∧ s'.run.mmu = s.run.mmu ∧
      ∀ slot, slot < SCHEDULER_MAX_TASKS → s'.slotThread k psr slot = s.slotThread k psr slot := by
  obtain ⟨htick, hcur, hlast⟩ := hallowed
  have hslot := hinv.dispatched
  have hready : Machine.SchedulerReady k.layout ⟨s.run.cpu, globals⟩ :=
    ⟨hlast ▸ hinv.ready.last, hcur ▸ hinv.ready.current, hinv.ready.irqSp⟩
  obtain ⟨m', hirq, rfl⟩ := Option.map_eq_some_iff.1 hstep
  have hticked : Machine.Ticked k.layout ⟨s.run.cpu, globals⟩ m' :=
    Machine.of_handled (Machine.tick_spec tickEnv ⟨⟨hslot.mode, hslot.unmasked, hslot.aligned⟩, hready⟩ htick) hirq
  have hthreads : ∀ slot, slot < SCHEDULER_MAX_TASKS →
      (⟨{ s.run with cpu := m'.cpu }, m'.kernel⟩ : System).slotThread k psr slot = s.slotThread k psr slot :=
    fun slot hs => slotThread_ticked hticked hcur hslot.sx hslot.aligned hs
  refine ⟨⟨⟨?_, hticked.ready hready, ?_⟩, hinv.memory⟩, rfl, hthreads⟩
  · exact (hticked.sp .abt (by decide)).trans hinv.stack
  · intro slot hs
    rw [hthreads slot hs]
    exact hinv.slots slot hs

theorem SystemInv.step (hinv : SystemInv h m0 L psr s) (hL : L.Of k) (hspares : L.SparesContexts k)
    (hprogs : ∀ slot, slot < SCHEDULER_MAX_TASKS → SlotProgram (k.slotTable slot) (progs slot)) (hc : Configured c)
    (hd : k.FramesDisjoint) (hmaps : ∀ p ∈ k.addressSpaces, Maps m0.mem p.1 p.2) {e : SystemEvent}
    (hallowed : e.Allowed c L progs h s) (hstep : systemStep k c L progs s e = some s') :
    SystemInv h m0 L psr s' ∧ ∀ slot t, k.slotTable slot = some t → ∀ f', SlotSeesFlat k c psr slot t s' f' →
      ∃ f, SlotSeesFlat k c psr slot t s f ∧ Reaches (Flat.step (progs slot)) f f' := by
  cases e with
  | attempt env dfsr =>
    obtain rfl := Option.some.inj hstep
    exact hinv.attempt_step hL hspares hprogs hc hd hmaps hallowed rfl
  | store i v =>
    have hkernel : UserEvent.Allowed L.mapping h s.run.mmu (.kernel i v) := hallowed
    rw [systemStep, Option.map_eq_some_iff] at hstep
    obtain ⟨mmu, hmmu, rfl⟩ := hstep
    refine ⟨⟨⟨hinv.stack, hinv.ready, hinv.slots⟩, (hinv.memory.step hc hd hmaps hkernel hmmu).1⟩, ?_⟩
    intro slot t htable f' hsees
    refine hsees.kept rfl ?_
    exact fun va hown byte hread =>
      hinv.memory.read_kept hc hd hmaps (slotTable_mem htable) hkernel hmmu (fun hstores => hstores) hown hread
  | tick env globals =>
    obtain ⟨hinv', hmmu, hthreads⟩ := hinv.tick_step hallowed hstep
    refine ⟨hinv', ?_⟩
    intro slot t htable f' hsees
    refine hsees.kept (hthreads slot (slotTable_lt htable)) ?_
    intro va hown byte hread
    rw [hmmu]
    exact hread

end

end

def exampleIdle : Program Thread := fun th => .plain { th with pc := nextPc th }

theorem exampleProgram_slot (t : Nat) : SlotProgram (some t) exampleProgram := by
  refine ⟨?_, ?_, fun hnone => absurd hnone (Option.some_ne_none t)⟩
  · rintro t ⟨⟩
    exact exampleProgram_unprivileged t
  · intro th
    unfold exampleProgram
    split_ifs with h0
    · exact ⟨rfl, rfl, rfl, rfl, rfl, rfl⟩
    · exact fun bytes => ⟨rfl, rfl, rfl, rfl, rfl, rfl⟩

theorem exampleIdle_slot : SlotProgram none exampleIdle :=
  ⟨fun t htable => absurd htable.symm (Option.some_ne_none t), fun _ => ⟨rfl, rfl, rfl, rfl, rfl, rfl⟩,
    fun _ _ hmode => ⟨_, rfl, hmode, alignPc_alignPc ..⟩⟩

/-- The second task is saved in slot 1, and the slots from 2 on are idle. -/
def exampleContext (slot j : Nat) : Word :=
  match j with
  | 0 => if slot = 1 then addrOf exampleLink.task2.table1 else 0
  | 2 => if slot = 1 then 0x10 else 0x1F
  | 18 => 0x9004
  | _ => 0

@[irreducible] def exampleContexts (i : Nat) : Word :=
  exampleContext ((i - exampleBootLayout.contexts) / contextWords) ((i - exampleBootLayout.contexts) % contextWords)

theorem exampleContexts_word (slot : Nat) {j : Nat} (hj : j < contextWords) :
    exampleContexts (exampleBootLayout.word slot j) = exampleContext slot j := by
  have hword : exampleBootLayout.word slot j - exampleBootLayout.contexts = contextWords * slot + j := by
    rw [Layout.word, Nat.add_assoc, Nat.add_sub_cancel_left]
  unfold exampleContexts
  rw [hword, Nat.mul_add_div (by decide), Nat.div_eq_of_lt hj, Nat.mul_add_mod, Nat.mod_eq_of_lt hj,
    Nat.add_zero]

theorem exampleContexts_zero (slot : Nat) {j : Nat} (hj : j < contextWords) (h0 : j ≠ 0) (h2 : j ≠ 2)
    (h18 : j ≠ 18) : exampleContexts (exampleBootLayout.word slot j) = 0 := by
  rw [exampleContexts_word slot hj]
  unfold exampleContext
  split
  · contradiction
  · contradiction
  · contradiction
  · rfl

/-- The first task is dispatched, after the boot. -/
def exampleSystem (m : Mmu) : System where
  run := { exampleTask m with
    cpu := { (exampleTask m).cpu with
      sp := Function.update (fun _ => addrOf 500) .irq (addrOf 0x1C008080), mem := exampleContexts } }
  kernel := ⟨0, 9, fun _ => ⟨1, .prvSchedulerChangeTask⟩, 0, 0⟩

theorem exampleSystem_saved (m : Mmu) (psr : Psr) {slot : Nat} (hslot : slot ≠ 0) :
    (exampleSystem m).slotThread exampleLink psr slot =
      ⟨fun _ => 0, 0, 0, alignPc (psr.withFc (.ofWord (exampleContext slot 2))) 0x9000,
        psr.withFc (.ofWord (exampleContext slot 2)), exampleContext slot 0⟩ := by
  have hcontext : exampleBootLayout.context exampleContexts slot =
      ⟨exampleContext slot 0, 0, exampleContext slot 2, fun _ => 0, 0, 0, 0x9004, 0, fun _ => 0⟩ := by
    unfold Layout.context
    congr 1
    case e_r0ToR12 | e_q =>
      exact funext fun i => exampleContexts_zero slot (by unfold contextWords; omega) (by omega) (by omega) (by omega)
    case e_table1Addr | e_spsr | e_pc => exact exampleContexts_word slot (by decide)
    all_goals exact exampleContexts_zero slot (by decide) (by decide) (by decide) (by decide)
  have hlayout : exampleLink.layout = exampleBootLayout := rfl
  have hmem : (exampleSystem m).run.cpu.mem = exampleContexts := rfl
  rw [System.slotThread_saved exampleLink psr (show slot ≠ (exampleSystem m).kernel.prvCurrentTask from hslot),
    hlayout, hmem, hcontext]
  have hpc : (0x9004 : Word) - 4#32 = 0x9000 := by decide
  unfold TaskContext.resume
  rw [hpc]

def exampleProgs (slot : Nat) : Program Thread := if slot < 2 then exampleProgram else exampleIdle

theorem exampleLink_idle {slot : Nat} (hslot : 2 ≤ slot) : exampleLink.slotTable slot = none :=
  List.getElem?_eq_none hslot

theorem exampleProgs_slots (slot : Nat) : SlotProgram (exampleLink.slotTable slot) (exampleProgs slot) := by
  by_cases hslot : slot < 2
  · obtain rfl | rfl : slot = 0 ∨ slot = 1 := by omega
    · exact exampleProgram_slot exampleLink.task1.table1
    · exact exampleProgram_slot exampleLink.task2.table1
  · rw [exampleLink_idle (by omega), exampleProgs, if_neg hslot]
    exact exampleIdle_slot

theorem exampleTaskLayout_spares (mapping : Bool) : (exampleTaskLayout mapping).SparesContexts exampleLink := by
  rintro i ⟨hlo, -⟩
  have hlow : 0x1C196800 ≤ i := hlo
  have hstack : (exampleTaskLayout mapping).stackTop = 500 := rfl
  have hreturn : (exampleTaskLayout mapping).abtReturn = 600 := rfl
  omega

theorem exampleSystem_scheduled (mapping : Bool) (m : Mmu) :
    Scheduled exampleLink (exampleTaskLayout mapping) (Psr.ofWord 0x10) (exampleSystem m) := by
  have hlast : 9 < SCHEDULER_MAX_TASKS := by decide
  refine ⟨rfl, ⟨hlast, Nat.zero_lt_of_lt hlast, 0x1C00807A, rfl, by decide, by decide⟩, ?_⟩
  intro slot _
  have hi : ∀ w : Word, w = 0x10 ∨ w = 0x1F → (Psr.ofWord w).i = false := by
    rintro w (rfl | rfl) <;> decide
  have huser : (Psr.ofWord 0x10).mode = USR_MODE := by decide
  have hidle : (Psr.ofWord 0x1F).mode = SYS_MODE := by decide
  by_cases hslot : slot = 0
  · subst hslot
    exact .of_task (t := exampleLink.task1.table1) (hi 0x10 (.inl rfl)) ⟨rfl, rfl, rfl, rfl, rfl⟩ (exampleTask_user m)
  · rw [exampleSystem_saved m _ hslot]
    by_cases hone : slot = 1
    · subst hone
      exact .of_task (t := exampleLink.task2.table1) (hi 0x10 (.inl rfl)) ⟨rfl, rfl, rfl, rfl, rfl⟩
        ⟨huser, alignPc_alignPc .., rfl⟩
    · have hspsr : exampleContext slot 2 = 0x1F := if_neg hone
      rw [exampleLink_idle (by omega), hspsr]
      exact .of_idle (hi 0x1F (.inr rfl)) ⟨rfl, rfl, rfl, rfl, rfl⟩ (alignPc_alignPc ..) hidle

theorem exampleSystem_r (m : Mmu) (psr : Psr) (slot : Nat) :
    ((exampleSystem m).slotThread exampleLink psr slot).r = fun _ => 0 := by
  by_cases hslot : slot = 0
  · subst hslot
    rfl
  · rw [exampleSystem_saved m psr hslot]

end Td3.Kernel
