/-
What `IRQ_handler` does to a task: each part of the handler has one lemma that says which registers
and which words of memory it changes, and these compose to the context it saves and the one it
resumes. Its own stack and `irq_return` are all else it writes.
-/
import Mathlib.Data.BitVec
import Td3.Kernel.Vector

namespace Td3.Kernel

open Arm

/-! ## Threads and contexts -/

/-- What the code of a task sees of the processor, NEON apart. -/
@[ext]
structure Thread where
  r : Fin 13 → Word
  sp : Word
  lr : Word
  pc : Word
  cpsr : Psr
  ttbr0 : Word

def thread (m : Cpu) : Thread where
  r := m.r
  sp := m.sp .user
  lr := m.lr .user
  pc := m.pc
  cpsr := m.cpsr
  ttbr0 := m.ttbr0

/-- The thread a handler of an IRQ has interrupted. -/
def interruptedThread (m : Cpu) : Thread where
  r := m.r
  sp := m.sp .user
  lr := m.lr .user
  pc := m.lr .irq - 4#32
  cpsr := m.spsr .irq
  ttbr0 := m.ttbr0

/-- FPSCR and the words of Q0 to Q15. -/
@[ext]
structure Neon where
  fpscr : Word
  q : Fin 64 → Word

def neon (m : Cpu) : Neon := ⟨m.fpscr, m.q⟩

/-- FPEXC.EN -/
def neonEnabled (fpexc : Word) : Bool := fpexc &&& 0x40000000 ≠ 0

namespace TaskContext

def neon (c : TaskContext) : Neon := ⟨c.fpscr, c.q⟩

/-- A context after a thread has been saved into it; the ASID stays. -/
def save (t : Thread) (neon : Neon) (c : TaskContext) : TaskContext where
  table1Addr := t.ttbr0
  asid := c.asid
  spsr := t.cpsr.toWord
  r0ToR12 := t.r
  sp := t.sp
  lr := t.lr
  pc := t.pc + 4#32
  fpscr := neon.fpscr
  q := neon.q

/-- The thread a context resumes to in a handler that interrupted code with status `interrupted`. -/
def resume (c : TaskContext) (interrupted : Psr) : Thread where
  r := c.r0ToR12
  sp := c.sp
  lr := c.lr
  pc := alignPc (interrupted.withFc (.ofWord c.spsr)) (c.pc - 4#32)
  cpsr := interrupted.withFc (.ofWord c.spsr)
  ttbr0 := c.table1Addr

/-- A saved context resumes to the thread it was saved from exactly if the bits `msr spsr` leaves
alone are right by themselves. -/
theorem resume_save_iff {t : Thread} {n : Neon} {c : TaskContext} {interrupted : Psr}
    (halign : alignPc t.cpsr t.pc = t.pc) : (c.save t n).resume interrupted = t ↔ interrupted.SameSx t.cpsr := by
  rw [← Psr.withFc_eq_iff]
  constructor
  · intro h
    simpa [resume, save, Psr.ofWord_toWord] using congrArg Thread.cpsr h
  · intro h
    simp [resume, save, Psr.ofWord_toWord, h, halign]

end TaskContext

/-- The NEON registers `save_context` leaves in a context: the old ones unless NEON is enabled. -/
def savedNeon (m : Cpu) (c : TaskContext) : Neon := if neonEnabled m.fpexc then neon m else c.neon

/-! ## The parts of the handler -/

namespace Machine

variable {L : Layout} (env : Env) {m : Machine}

@[simp]
theorem neonIsEnabled_eq (m : Cpu) : neonIsEnabled m = { m with
    r := Function.update m.r 0 (if neonEnabled m.fpexc then 1 else 0)
    cpsr := { m.cpsr with n := (m.fpexc &&& 0x40000000).msb, z := !neonEnabled m.fpexc } } := by
  by_cases h : m.fpexc &&& 0x40000000#32 = 0#32
  · simp [neonIsEnabled, neonEnabled, Cpu.vmrsFpexc, Cpu.tstImm, Cpu.setNZ, Cpu.condEq, Cpu.movImm, Cpu.set, Cpu.get, h]
  · simp [neonIsEnabled, neonEnabled, Cpu.vmrsFpexc, Cpu.tstImm, Cpu.setNZ, Cpu.condEq, Cpu.movImm, Cpu.set, Cpu.get, h]

section
attribute [local simp] exec Cpu.pop Cpu.push Cpu.loadRegs Cpu.gets Cpu.get Cpu.set Cpu.bank Cpu.mrsSpsr Cpu.msrSpsr
  Cpu.strPost Cpu.str Cpu.mrcTtbr0 Cpu.mcrTtbr0 Cpu.mrcContextidr Cpu.mcrContextidr Cpu.mov Cpu.movImm Cpu.addImm
  Cpu.bicImm Cpu.orrImm Cpu.orr Cpu.call Cpu.stmR0R12 Cpu.ldmR0R12 Cpu.cps Cpu.ldr Cpu.ldrPost Cpu.vmrsFpscr
  Cpu.vmsrFpexc Cpu.teqImm Cpu.cmpZero Cpu.setNZ Cpu.condEq Cpu.condGt Cpu.vstmLow Cpu.vstmHigh Cpu.exceptionReturn
  storeWords addrOf_add addrOf_sub wordIndex_addrOf if_neg Nat.add_assoc

variable {s b : Nat}

theorem callIrqHandler_spec {ret : Word} {k : Globals} (hmode : m.cpu.cpsr.mode = IRQ_MODE)
    (hsp : m.cpu.sp .irq = addrOf (s + 6)) (hs : s + 6 < 2 ^ 30) (hlim : L.irqStackLimit ≤ s)
    (hret : L.irqReturn < s ∨ s + 6 ≤ L.irqReturn) (hk : irqHandler m.kernel = some (ret, k)) :
    ∃ psr mem, m.callIrqHandler L env = some ⟨{ m.cpu with cpsr := psr, mem := mem }, k⟩ ∧
      psr.mode = IRQ_MODE ∧ (!psr.z && psr.n == psr.v) = (ret ≠ 0 && !ret.msb) ∧
      ∀ i, i < L.irqStackLimit ∨ s + 6 ≤ i → i ≠ L.irqReturn → mem i = m.cpu.mem i := by
  have hirq := L.irqReturn_lt
  simp only [callIrqHandler, exec, hk, Option.map_some, Option.some.injEq]
  generalize env.junk 3 _ = j
  generalize hx : Cpu.pop _ _ = x
  refine ⟨x.cpsr, x.mem, ?_, ?_, ?_, ?_⟩
  all_goals subst hx
  · simp (disch := omega) [Function.update_of_ne, hmode, hsp]
    funext i
    fin_cases i <;> simp
  · simp [hmode]
  · simp
  · intro i hi hne
    simp (disch := omega) [Function.update_of_ne, hmode, hsp]

/-- `save_context`, its first part -/
theorem saveStatus_spec (hmode : m.cpu.cpsr.mode = IRQ_MODE) (hsp : m.cpu.sp .irq = addrOf (s + 6))
    (hs : s + 6 < 2 ^ 30) (hb : b + contextWords ≤ 2 ^ 30) (hlim : L.irqStackLimit ≤ s)
    (hctx : b = L.word m.kernel.prvLastTask 0) (hd : s + 6 ≤ b ∨ b + contextWords ≤ L.irqStackLimit) :
    ∃ psr mem, m.saveStatus L env = { m with cpu := { m.cpu with
        sp := Function.update m.cpu.sp .irq (addrOf (s + 5)), lr := Function.update m.cpu.lr .irq (addrOf (b + 3)),
        cpsr := psr, mem := mem } } ∧
      psr.mode = IRQ_MODE ∧ mem b = m.cpu.ttbr0 ∧ mem (b + 2) = (m.cpu.spsr .irq).toWord ∧
      mem (s + 5) = m.cpu.lr .irq ∧
      ∀ i, i ≠ b → i ≠ b + 2 → i < L.irqStackLimit ∨ s + 6 ≤ i → mem i = m.cpu.mem i := by
  unfold contextWords at *
  subst hctx
  -- the interrupted registers and what the call of compiled code leaves below them, then the two words of the context
  obtain ⟨stack, hmem⟩ : ∃ stack : Nat → Word, (m.saveStatus L env).cpu.mem =
      Function.update (Function.update
        (fun i => if L.irqStackLimit ≤ i ∧ i < s then stack i else
          storeWords m.cpu.mem s [m.cpu.r 0, m.cpu.r 1, m.cpu.r 2, m.cpu.r 3, m.cpu.r 12, m.cpu.lr .irq] i)
        (L.word m.kernel.prvLastTask 0) m.cpu.ttbr0)
        (L.word m.kernel.prvLastTask 0 + 2) (m.cpu.spsr .irq).toWord := by
    simp only [saveStatus, schedulerGetLastTaskContextAddr]
    generalize env.junk 1 _ = j
    refine ⟨j.stack, ?_⟩
    simp (disch := omega) [Function.update_of_ne, hmode, hsp]
  refine ⟨(m.saveStatus L env).cpu.cpsr, (m.saveStatus L env).cpu.mem, ?_, ?_, ?_, ?_, ?_, ?_⟩
  · simp only [saveStatus, schedulerGetLastTaskContextAddr]
    generalize env.junk 1 _ = j
    simp (disch := omega) [Function.update_of_ne, hmode, hsp]
    funext i
    fin_cases i <;> simp
  · simp [saveStatus, schedulerGetLastTaskContextAddr, hmode]
  · rw [hmem]
    simp (disch := omega) [Function.update_of_ne]
  · rw [hmem, Function.update_self]
  · rw [hmem]
    simp (disch := omega) [Function.update_of_ne]
  · intro i h0 h2 hi
    rw [hmem]
    simp (disch := omega) [Function.update_of_ne]

/-- `load_new_context`, its first part -/
theorem loadStatus_spec (hmode : m.cpu.cpsr.mode = IRQ_MODE) (hsp : m.cpu.sp .irq = addrOf (s + 6))
    (hs : s + 6 < 2 ^ 30) (hb : b + contextWords ≤ 2 ^ 30) (hlim : L.irqStackLimit ≤ s)
    (hctx : b = L.word m.kernel.prvCurrentTask 0) (hd : s + 6 ≤ b ∨ b + contextWords ≤ L.irqStackLimit) :
    ∃ r psr mem, m.loadStatus L env = { m with cpu := { m.cpu with
        r := r, lr := Function.update m.cpu.lr .irq (addrOf (b + 3)),
        spsr := Function.update m.cpu.spsr .irq ((m.cpu.spsr .irq).withFc (.ofWord (m.cpu.mem (b + 2)))),
        cpsr := psr, ttbr0 := m.cpu.mem b, contextidr := m.cpu.contextidr &&& ~~~0xFF ||| m.cpu.mem (b + 1),
        mem := mem } } ∧
      psr.mode = IRQ_MODE ∧ ∀ i, i < L.irqStackLimit ∨ s + 6 ≤ i → mem i = m.cpu.mem i := by
  unfold contextWords at *
  subst hctx
  refine ⟨(m.loadStatus L env).cpu.r, (m.loadStatus L env).cpu.cpsr, (m.loadStatus L env).cpu.mem, ?_, ?_, ?_⟩
  all_goals
    simp only [loadStatus, writeTtbr0WithAsid, schedulerGetCurrentTaskContextAddr]
    generalize env.junk 2 _ = j
  · simp (disch := omega) [Function.update_of_ne, hmode, hsp, BitVec.and_assoc]
  · simp [hmode]
  · intro i hi
    simp (disch := omega) [Function.update_of_ne, hmode, hsp]

/-- `save_context`, its second part -/
theorem saveRegisters_spec (hmode : m.cpu.cpsr.mode = IRQ_MODE) (hsp : m.cpu.sp .irq = addrOf (s + 5))
    (hs : s + 6 < 2 ^ 30) (hb : b + contextWords ≤ 2 ^ 30) (hlr : m.cpu.lr .irq = addrOf (b + 3))
    (hd : s + 6 ≤ b ∨ b + contextWords ≤ s) :
    m.saveRegisters = { m with cpu := { m.cpu with
      r := Function.update m.cpu.r 12 (addrOf (b + 19)), sp := Function.update m.cpu.sp .irq (addrOf (s + 6)),
      lr := Function.update m.cpu.lr .irq (m.cpu.mem (s + 5))
      mem := Function.update (Function.update (Function.update (block m.cpu.mem (b + 3) m.cpu.r)
        (b + 16) (m.cpu.sp .user)) (b + 17) (m.cpu.lr .user)) (b + 18) (m.cpu.mem (s + 5)) } } := by
  unfold contextWords at *
  have hcpsr : ({ m.cpu.cpsr with mode := IRQ_MODE } : Psr) = m.cpu.cpsr := by rw [← hmode]
  simp (disch := first | omega | decide) [Function.update_of_ne, saveRegisters, hmode, hsp, hlr, hcpsr, block_of_not]

/-- `save_context`, its last part -/
theorem saveNeon_spec (hmode : m.cpu.cpsr.mode = IRQ_MODE) (hb : b + contextWords ≤ 2 ^ 30)
    (hr : m.cpu.r 12 = addrOf (b + 19)) :
    ∃ psr r lr, m.saveNeon env = { m with cpu := { m.cpu with
        r := r, lr := Function.update m.cpu.lr .irq lr, cpsr := psr
        fpexc := if neonEnabled m.cpu.fpexc then 0 else m.cpu.fpexc
        mem := if neonEnabled m.cpu.fpexc then block (Function.update m.cpu.mem (b + 19) m.cpu.fpscr) (b + 20) m.cpu.q
          else m.cpu.mem } } ∧
      psr.mode = IRQ_MODE := by
  unfold contextWords at *
  refine ⟨(m.saveNeon env).cpu.cpsr, (m.saveNeon env).cpu.r, (m.saveNeon env).cpu.lr .irq, ?_⟩
  cases h : neonEnabled m.cpu.fpexc with
  | false => simp [saveNeon, h, hmode]
  | true =>
    simp (disch := omega) [Function.update_of_ne, saveNeon, h, hmode, hr, neonDisable]
    exact block_halves ..

/-- `load_new_context`, its last part -/
theorem loadRegisters_spec (hmode : m.cpu.cpsr.mode = IRQ_MODE) (hb : b + contextWords ≤ 2 ^ 30)
    (hlr : m.cpu.lr .irq = addrOf (b + 3)) :
    ∃ lr, m.loadRegisters = { m with cpu := { m.cpu with
      r := fun i => m.cpu.mem (b + 3 + i), sp := Function.update m.cpu.sp .user (m.cpu.mem (b + 16)),
      lr := Function.update (Function.update m.cpu.lr .user (m.cpu.mem (b + 17))) .irq lr,
      cpsr := m.cpu.spsr .irq, pc := alignPc (m.cpu.spsr .irq) (m.cpu.mem (b + 18) - 4#32) } } := by
  unfold contextWords at *
  refine ⟨m.cpu.mem (b + 18), ?_⟩
  simp (disch := first | omega | decide) [Function.update_of_ne, loadRegisters, hmode, hlr, Function.update_comm]

end

/-! ## Saving and dispatching -/

theorem slot_irqStack {slot s : Nat} (h : slot < SCHEDULER_MAX_TASKS) (htop : s + 6 ≤ L.irqStackTop) :
    s + 6 ≤ L.word slot 0 ∨ L.word slot 0 + contextWords ≤ L.irqStackLimit := by
  have := L.irqStack_contexts
  unfold Layout.word contextWords SCHEDULER_MAX_TASKS at *
  omega

theorem slot_le {slot : Nat} (h : slot < SCHEDULER_MAX_TASKS) : L.word slot 0 + contextWords ≤ 2 ^ 30 := by
  have := L.contexts_lt
  unfold Layout.word contextWords SCHEDULER_MAX_TASKS at *
  omega

/-- Memory after `save_context` has stored r0 to r12, sp, lr and pc from word 3 of a context on. -/
def storeThread (mem : Nat → Word) (b : Nat) (t : Thread) : Nat → Word :=
  Function.update (Function.update (Function.update (block mem (b + 3) t.r) (b + 16) t.sp) (b + 17) t.lr) (b + 18)
    (t.pc + 4#32)

/-- ... and FPSCR and Q0 to Q15 from word 19 on. -/
def storeNeon (mem : Nat → Word) (b : Nat) (n : Neon) : Nat → Word :=
  block (Function.update mem (b + 19) n.fpscr) (b + 20) n.q

theorem storeThread_of_not {mem : Nat → Word} {b i : Nat} {t : Thread} (h : i < b + 3 ∨ b + 19 ≤ i) :
    storeThread mem b t i = mem i := by
  rw [storeThread, Function.update_of_ne (by omega), Function.update_of_ne (by omega), Function.update_of_ne (by omega),
    block_of_not (by omega)]

theorem storeNeon_of_not {mem : Nat → Word} {b i : Nat} {n : Neon} (h : i < b + 19 ∨ b + 84 ≤ i) :
    storeNeon mem b n i = mem i := by
  rw [storeNeon, block_of_not (by omega), Function.update_of_ne (by omega)]

theorem context_storeThread {mem : Nat → Word} {slot : Nat} {t : Thread} (htable : mem (L.word slot 0) = t.ttbr0)
    (hspsr : mem (L.word slot 2) = t.cpsr.toWord) :
    L.context (storeThread mem (L.word slot 0) t) slot = (L.context mem slot).save t (L.context mem slot).neon := by
  have hw : ∀ j, L.word slot j = L.word slot 0 + j := fun j => rfl
  generalize L.word slot 0 = b at *
  rw [hw] at hspsr
  unfold Layout.context TaskContext.save TaskContext.neon
  congr 1
  case e_r0ToR12 =>
    funext i
    rw [hw, storeThread, Function.update_of_ne (by omega), Function.update_of_ne (by omega),
      Function.update_of_ne (by omega), ← Nat.add_assoc]
    exact block_at i
  case e_sp | e_lr | e_pc => simp [hw, storeThread]
  case e_q =>
    funext i
    show storeThread mem b t (L.word slot (20 + i)) = mem (L.word slot (20 + i))
    rw [hw, storeThread_of_not (by omega)]
  all_goals rw [hw, storeThread_of_not (by omega)]
  · exact htable
  · exact hspsr

theorem context_storeNeon {mem : Nat → Word} {slot : Nat} {n : Neon} :
    L.context (storeNeon mem (L.word slot 0) n) slot = { L.context mem slot with fpscr := n.fpscr, q := n.q } := by
  have hw : ∀ j, L.word slot j = L.word slot 0 + j := fun j => rfl
  generalize L.word slot 0 = b at *
  unfold Layout.context
  congr 1
  case e_fpscr =>
    rw [hw, storeNeon, block_of_not (by omega), Function.update_self]
  case e_q =>
    funext i
    rw [hw, ← Nat.add_assoc]
    exact block_at i
  case e_r0ToR12 =>
    funext i
    show storeNeon mem b n (L.word slot (3 + i)) = mem (L.word slot (3 + i))
    rw [hw, storeNeon_of_not (by omega)]
  all_goals rw [hw, storeNeon_of_not (by omega)]

/-- The memory `save_context` leaves: the words before the registers were stored, with these. -/
def storeContext (mem : Nat → Word) (b : Nat) (t : Thread) (m : Cpu) : Nat → Word :=
  if neonEnabled m.fpexc then storeNeon (storeThread mem b t) b (neon m) else storeThread mem b t

theorem storeContext_of_not {mem : Nat → Word} {b i : Nat} {t : Thread} {m : Cpu} (h : i < b + 3 ∨ b + 84 ≤ i) :
    storeContext mem b t m i = mem i := by
  rw [storeContext]
  split_ifs
  · rw [storeNeon_of_not (by omega), storeThread_of_not (by omega)]
  · rw [storeThread_of_not (by omega)]

theorem context_storeContext {mem mem1 : Nat → Word} {slot : Nat} {t : Thread} {m : Cpu}
    (htable : mem1 (L.word slot 0) = t.ttbr0) (hspsr : mem1 (L.word slot 2) = t.cpsr.toWord)
    (hother : ∀ j, 3 ≤ j ∨ j = 1 → j < contextWords → mem1 (L.word slot j) = mem (L.word slot j)) :
    L.context (storeContext mem1 (L.word slot 0) t m) slot =
      (L.context mem slot).save t (savedNeon m (L.context mem slot)) := by
  have hasid : (L.context mem1 slot).asid = (L.context mem slot).asid := hother 1 (.inr rfl) (by decide)
  have hneon : (L.context mem1 slot).neon = (L.context mem slot).neon := by
    unfold contextWords at hother
    exact Neon.ext (hother 19 (by omega) (by omega)) (funext fun i => hother (20 + i) (by omega) (by omega))
  rw [storeContext, savedNeon]
  split_ifs
  · rw [context_storeNeon, context_storeThread htable hspsr, TaskContext.save, hasid]
    rfl
  · rw [context_storeThread htable hspsr, hneon, TaskContext.save, hasid]
    rfl

/-- The parts of `save_context` together. -/
theorem saveContext_eq {s b : Nat} (hmode : m.cpu.cpsr.mode = IRQ_MODE) (hsp : m.cpu.sp .irq = addrOf (s + 6))
    (hs : s + 6 < 2 ^ 30) (hb : b + contextWords ≤ 2 ^ 30) (hlim : L.irqStackLimit ≤ s)
    (hctx : b = L.word m.kernel.prvLastTask 0) (hd : s + 6 ≤ b ∨ b + contextWords ≤ L.irqStackLimit) :
    ∃ psr r lr mem1, m.saveContext L env = { m with cpu := { m.cpu with
        r := r, lr := Function.update m.cpu.lr .irq lr, cpsr := psr
        fpexc := if neonEnabled m.cpu.fpexc then 0 else m.cpu.fpexc
        mem := storeContext mem1 b (interruptedThread m.cpu) m.cpu } } ∧
      psr.mode = IRQ_MODE ∧ mem1 b = m.cpu.ttbr0 ∧ mem1 (b + 2) = (m.cpu.spsr .irq).toWord ∧
      ∀ i, i ≠ b → i ≠ b + 2 → i < L.irqStackLimit ∨ s + 6 ≤ i → mem1 i = m.cpu.mem i := by
  obtain ⟨psr1, mem1, h1, hmode1, htable, hspsr, hret, hmem1⟩ := saveStatus_spec env hmode hsp hs hb hlim hctx hd
  have h2 := saveRegisters_spec (m := m.saveStatus L env) (b := b) (s := s) (by rw [h1]; exact hmode1)
    (by rw [h1]; simp) hs hb (by rw [h1]; simp) (by omega)
  obtain ⟨psr3, r3, lr3, h3, hmode3⟩ := saveNeon_spec (m := (m.saveStatus L env).saveRegisters) env (b := b)
    (by rw [h2, h1]; exact hmode1) hb (by rw [h2]; simp)
  have hsp' : Function.update m.cpu.sp .irq (addrOf (s + 6)) = m.cpu.sp := by rw [← hsp, Function.update_eq_self]
  refine ⟨psr3, r3, lr3, mem1, ?_, hmode3, htable, hspsr, hmem1⟩
  rw [saveContext, h3, h2, h1]
  simp [hsp', storeContext, storeNeon, storeThread, interruptedThread, neon, hret]

/-- `save_context` -/
theorem saveContext_spec {s : Nat} (hmode : m.cpu.cpsr.mode = IRQ_MODE) (hsp : m.cpu.sp .irq = addrOf (s + 6))
    (hlim : L.irqStackLimit ≤ s) (htop : s + 6 ≤ L.irqStackTop) (hlast : m.kernel.prvLastTask < SCHEDULER_MAX_TASKS) :
    ∃ psr r lr mem, m.saveContext L env = { m with cpu := { m.cpu with
        r := r, lr := Function.update m.cpu.lr .irq lr, cpsr := psr
        fpexc := if neonEnabled m.cpu.fpexc then 0 else m.cpu.fpexc, mem := mem } } ∧
      psr.mode = IRQ_MODE ∧
      L.context mem m.kernel.prvLastTask = (L.context m.cpu.mem m.kernel.prvLastTask).save (interruptedThread m.cpu)
        (savedNeon m.cpu (L.context m.cpu.mem m.kernel.prvLastTask)) ∧
      ∀ i, ¬ L.Slot m.kernel.prvLastTask i → i < L.irqStackLimit ∨ L.irqStackTop ≤ i → mem i = m.cpu.mem i := by
  have hs : s + 6 < 2 ^ 30 := Nat.lt_of_le_of_lt htop L.irqStack_lt
  have hd := slot_irqStack hlast htop
  obtain ⟨psr, r, lr, mem1, h, hpsr, htable, hspsr, hmem1⟩ :=
    saveContext_eq env hmode hsp hs (slot_le hlast) hlim rfl hd
  refine ⟨psr, r, lr, _, h, hpsr, ?_, ?_⟩
  · refine context_storeContext htable hspsr fun j hj hlt => ?_
    unfold Layout.word contextWords at *
    exact hmem1 _ (by omega) (by omega) (by omega)
  · intro i hslot hi
    unfold Layout.Slot Layout.word contextWords at *
    rw [storeContext_of_not (by omega)]
    exact hmem1 i (by omega) (by omega) (by omega)

/-- `load_new_context`: the context of the current task is dispatched. -/
theorem loadNewContext_spec {s : Nat} (hmode : m.cpu.cpsr.mode = IRQ_MODE) (hsp : m.cpu.sp .irq = addrOf (s + 6))
    (hlim : L.irqStackLimit ≤ s) (htop : s + 6 ≤ L.irqStackTop)
    (hcur : m.kernel.prvCurrentTask < SCHEDULER_MAX_TASKS) :
    (m.loadNewContext L env).kernel = m.kernel ∧
      thread (m.loadNewContext L env).cpu = (L.context m.cpu.mem m.kernel.prvCurrentTask).resume (m.cpu.spsr .irq) ∧
      (m.loadNewContext L env).cpu.contextidr =
        (m.cpu.contextidr &&& ~~~0xFF ||| (L.context m.cpu.mem m.kernel.prvCurrentTask).asid) ∧
      (∀ b, b ≠ .user → (m.loadNewContext L env).cpu.sp b = m.cpu.sp b) ∧
      (m.loadNewContext L env).cpu.fpexc = m.cpu.fpexc ∧ neon (m.loadNewContext L env).cpu = neon m.cpu ∧
      ∀ i, i < L.irqStackLimit ∨ L.irqStackTop ≤ i → (m.loadNewContext L env).cpu.mem i = m.cpu.mem i := by
  have hs : s + 6 < 2 ^ 30 := Nat.lt_of_le_of_lt htop L.irqStack_lt
  have hb := slot_le (L := L) hcur
  have hd := slot_irqStack hcur htop
  obtain ⟨r1, psr1, mem1, h1, hmode1, hmem1⟩ := loadStatus_spec env hmode hsp hs hb hlim rfl hd
  obtain ⟨lr2, h2⟩ := loadRegisters_spec (m := m.loadStatus L env) (b := L.word m.kernel.prvCurrentTask 0)
    (by rw [h1]; exact hmode1) hb (by rw [h1]; simp)
  have hout : ∀ j, j < contextWords →
      mem1 (L.word m.kernel.prvCurrentTask 0 + j) = m.cpu.mem (L.word m.kernel.prvCurrentTask j) := by
    intro j hj
    exact hmem1 _ (by unfold contextWords at *; omega)
  unfold contextWords at hout
  rw [loadNewContext, h2, h1]
  refine ⟨rfl, ?_, rfl, ?_, rfl, rfl, ?_⟩
  · have hr : (fun i : Fin 13 => mem1 (L.word m.kernel.prvCurrentTask 0 + 3 + i)) =
        (L.context m.cpu.mem m.kernel.prvCurrentTask).r0ToR12 := by
      funext i
      rw [Nat.add_assoc]
      exact hout (3 + i) (by omega)
    unfold thread TaskContext.resume
    simp [hr, hout 16, hout 17, hout 18]
    exact ⟨rfl, rfl, rfl, rfl, rfl⟩
  · intro b hne
    exact Function.update_of_ne hne ..
  · intro i hi
    exact hmem1 i (by omega)

/-! ## The handler -/

/-- The IRQ is taken. -/
def interrupt (m : Machine) : Machine := m.exec Cpu.takeIrq

/-- Code a task runs: in USR or SYS mode with IRQs unmasked. -/
structure TaskCode (m : Cpu) : Prop where
  mode : m.cpsr.mode = USR_MODE ∨ m.cpsr.mode = SYS_MODE
  unmasked : m.cpsr.i = false
  aligned : alignPc m.cpsr m.pc = m.pc

/-- The scheduler's indices are in range, and six words are free on the IRQ stack. -/
structure SchedulerReady (L : Layout) (m : Machine) : Prop where
  last : m.kernel.prvLastTask < SCHEDULER_MAX_TASKS
  current : m.kernel.prvCurrentTask < SCHEDULER_MAX_TASKS
  irqSp : ∃ s, m.cpu.sp .irq = addrOf (s + 6) ∧ L.irqStackLimit ≤ s ∧ s + 6 ≤ L.irqStackTop

structure Interruptible (L : Layout) (m : Machine) : Prop extends TaskCode m.cpu, SchedulerReady L m

theorem interruptedThread_interrupt (m : Machine) : interruptedThread m.interrupt.cpu = thread m.cpu := by
  simp [interruptedThread, thread, interrupt, exec, Cpu.takeIrq, Cpu.enter]

/-- What the handler leaves after it interrupted `m` and `irq_handler` left the indices of `m'`: the
current slot is dispatched. -/
structure Dispatched (L : Layout) (m m' : Machine) : Prop where
  thread : thread m'.cpu = (L.context m'.cpu.mem m'.kernel.prvCurrentTask).resume m.cpu.cpsr
  contextidr : m'.cpu.contextidr =
    (m.cpu.contextidr &&& ~~~0xFF ||| (L.context m'.cpu.mem m'.kernel.prvCurrentTask).asid)
  sp : ∀ b, b ≠ .user → m'.cpu.sp b = m.cpu.sp b
  neon : neon m'.cpu = neon m.cpu

/-- `load_new_context` in a handler that interrupted `m`, whatever it did before to r0 to r12, memory and
FPEXC. -/
theorem loadNewContext_dispatched {c : Machine} {s : Nat} (hmode : c.cpu.cpsr.mode = IRQ_MODE)
    (hsp : c.cpu.sp = m.cpu.sp) (hspsr : c.cpu.spsr .irq = m.cpu.cpsr) (hctx : c.cpu.contextidr = m.cpu.contextidr)
    (hneon : neon c.cpu = neon m.cpu) (hs : m.cpu.sp .irq = addrOf (s + 6)) (hlim : L.irqStackLimit ≤ s)
    (htop : s + 6 ≤ L.irqStackTop) (hcur : c.kernel.prvCurrentTask < SCHEDULER_MAX_TASKS) :
    (c.loadNewContext L env).kernel = c.kernel ∧ Dispatched L m (c.loadNewContext L env) ∧
      (c.loadNewContext L env).cpu.fpexc = c.cpu.fpexc ∧
      ∀ i, ¬ L.IrqScratch i → (c.loadNewContext L env).cpu.mem i = c.cpu.mem i := by
  obtain ⟨hk, hthread, hctx', hsp', hfp, hneon', hmem⟩ :=
    loadNewContext_spec env hmode (by rw [hsp]; exact hs) hlim htop hcur
  have hscratch : ∀ i, ¬ L.IrqScratch i → (c.loadNewContext L env).cpu.mem i = c.cpu.mem i := by
    intro i hi
    unfold Layout.IrqScratch at hi
    exact hmem i (by omega)
  have hcontext : L.context (c.loadNewContext L env).cpu.mem c.kernel.prvCurrentTask =
      L.context c.cpu.mem c.kernel.prvCurrentTask :=
    Layout.context_congr fun i hi => hscratch i (Layout.not_irqScratch_of_slot hcur hi)
  refine ⟨hk, ⟨?_, ?_, ?_, ?_⟩, hfp, hscratch⟩
  · rw [hk, hcontext, hthread, hspsr]
  · rw [hk, hcontext, hctx', hctx]
  · intro b hb
    rw [hsp' b hb, hsp]
  · rw [hneon', hneon]

/-- The handler where `irq_handler` returns 0: the context of the last task is saved before that of
the current one is dispatched. -/
theorem irqHandlerAsm_switch {k : Globals} (h : Interruptible L m) (hk : irqHandler m.kernel = some (0, k))
    (hlast : k.prvLastTask < SCHEDULER_MAX_TASKS) (hcur : k.prvCurrentTask < SCHEDULER_MAX_TASKS) :
    ∃ m', m.interrupt.irqHandlerAsm L env = some m' ∧ m'.kernel = k ∧ Dispatched L m m' ∧
      m'.cpu.fpexc = (if neonEnabled m.cpu.fpexc then 0 else m.cpu.fpexc) ∧
      L.context m'.cpu.mem k.prvLastTask = (L.context m.cpu.mem k.prvLastTask).save (Kernel.thread m.cpu)
        (savedNeon m.cpu (L.context m.cpu.mem k.prvLastTask)) ∧
      ∀ i, ¬ L.IrqScratch i → ¬ L.Slot k.prvLastTask i → m'.cpu.mem i = m.cpu.mem i := by
  obtain ⟨s, hsp, hlim, htop⟩ := h.irqSp
  have hret : L.irqReturn < s ∨ s + 6 ≤ L.irqReturn := by have := L.irqReturn_irqStack; omega
  obtain ⟨psr1, mem1, h1, hmode1, hgt, hmem1⟩ := callIrqHandler_spec (m := m.interrupt) env (s := s) rfl hsp
    (Nat.lt_of_le_of_lt htop L.irqStack_lt) hlim hret hk
  obtain ⟨psr2, r2, lr2, mem2, h2, hmode2, hctx2, hmem2⟩ :=
    saveContext_spec (m := ⟨{ m.interrupt.cpu with cpsr := psr1, mem := mem1 }, k⟩) env (s := s) hmode1 hsp
      hlim htop hlast
  obtain ⟨hk3, hd3, hfp3, hmem3⟩ := loadNewContext_dispatched (m := m) env (s := s)
    (c := saveContext L env ⟨{ m.interrupt.cpu with cpsr := psr1, mem := mem1 }, k⟩)
    (by rw [h2]; exact hmode2) (by rw [h2]; rfl) (by rw [h2]; rfl) (by rw [h2]; rfl) (by rw [h2]; rfl) hsp hlim htop
    (by rw [h2]; exact hcur)
  -- what `irq_handler` writes is none of the contexts
  have hsame : L.context mem1 k.prvLastTask = L.context m.cpu.mem k.prvLastTask := by
    refine Layout.context_congr fun i hi => ?_
    have hns := Layout.not_irqScratch_of_slot hlast hi
    unfold Layout.IrqScratch at hns
    exact hmem1 i (by omega) (by omega)
  refine ⟨_, ?_, ?_, hd3, ?_, ?_, ?_⟩
  · have hnot : Cpu.condGt { m.interrupt.cpu with cpsr := psr1, mem := mem1 } = false := hgt.trans (by simp)
    rw [irqHandlerAsm, h1, Option.map_some, hnot]
    rfl
  · rw [hk3, h2]
  · rw [hfp3, h2]
    rfl
  · have hctx3 : ∀ i, L.Slot k.prvLastTask i →
        (loadNewContext L env (saveContext L env ⟨{ m.interrupt.cpu with cpsr := psr1, mem := mem1 }, k⟩)).cpu.mem i =
          mem2 i := by
      intro i hi
      rw [hmem3 i (Layout.not_irqScratch_of_slot hlast hi), h2]
    rw [Layout.context_congr hctx3, hctx2, ← interruptedThread_interrupt, ← hsame]
    rfl
  · intro i hi hslot
    rw [hmem3 i hi, h2]
    unfold Layout.IrqScratch at hi
    exact (hmem2 i hslot (by omega)).trans (hmem1 i (by omega) (by omega))

/-- The handler where `irq_handler` returns `IRQ_DONT_SWITCH_CONTEXT`: the context of the current task
is dispatched and none saved. -/
theorem irqHandlerAsm_dispatch {k : Globals} (h : Interruptible L m)
    (hk : irqHandler m.kernel = some (IRQ_DONT_SWITCH_CONTEXT, k)) (hcur : k.prvCurrentTask < SCHEDULER_MAX_TASKS) :
    ∃ m', m.interrupt.irqHandlerAsm L env = some m' ∧ m'.kernel = k ∧ Dispatched L m m' ∧
      m'.cpu.fpexc = m.cpu.fpexc ∧ ∀ i, ¬ L.IrqScratch i → m'.cpu.mem i = m.cpu.mem i := by
  obtain ⟨s, hsp, hlim, htop⟩ := h.irqSp
  have hret : L.irqReturn < s ∨ s + 6 ≤ L.irqReturn := by have := L.irqReturn_irqStack; omega
  obtain ⟨psr1, mem1, h1, hmode1, hgt, hmem1⟩ := callIrqHandler_spec (m := m.interrupt) env (s := s) rfl hsp
    (Nat.lt_of_le_of_lt htop L.irqStack_lt) hlim hret hk
  obtain ⟨hk3, hd3, hfp3, hmem3⟩ := loadNewContext_dispatched (m := m) env (s := s)
    (c := ⟨{ m.interrupt.cpu with cpsr := psr1, mem := mem1 }, k⟩) hmode1 rfl rfl rfl rfl hsp hlim htop hcur
  refine ⟨_, ?_, hk3, hd3, hfp3, ?_⟩
  · have hgt' : Cpu.condGt { m.interrupt.cpu with cpsr := psr1, mem := mem1 } = true := hgt.trans (by decide)
    rw [irqHandlerAsm, h1, Option.map_some, hgt']
    rfl
  · intro i hi
    rw [hmem3 i hi]
    unfold Layout.IrqScratch at hi
    exact hmem1 i (by omega) (by omega)

end Machine
end Td3.Kernel
