/-
Lazy switching of the NEON registers. NEON is disabled whenever a task is switched out, so that the
first NEON instruction of the next task traps; `UND_handler` then enables NEON, loads the registers of
the current task and retries the instruction. However ticks and NEON instructions interleave, every
task sees a register file of its own.

The invariant: while NEON is enabled the registers are those of the current task, and the contexts
hold those of all others; while it is disabled the contexts hold those of all.
-/
import Td3.Kernel.Ticks

namespace Td3.Kernel

open Arm

namespace Machine

variable {L : Layout} {sym : Symbols} (env : Env) {m m' : Machine}

/-! ## The undefined instruction handler -/

/-- A NEON instruction traps. -/
def undefined (m : Machine) : Machine := m.exec Cpu.takeUndef

theorem neonRetry_eq (m : Cpu) (hmode : m.cpsr.mode = UND_MODE) : neonRetry m = { m with
    r := Function.update m.r 0 (Cpu.stateStep (m.spsr .und))
    cpsr := { m.cpsr with n := ((m.spsr .und).toWord &&& 0x20).msb, z := !(m.spsr .und).t } } := by
  have ht := Psr.toWord_and_t (m.spsr .und)
  cases h : (m.spsr .und).t with
  | false =>
    simp [h] at ht
    simp [neonRetry, Cpu.mrsSpsr, Cpu.tstImm, Cpu.setNZ, Cpu.condEq, Cpu.movImm, Cpu.set, Cpu.get, Cpu.bank, hmode, ht,
      Cpu.stateStep, h]
  | true =>
    simp [h] at ht
    simp [neonRetry, Cpu.mrsSpsr, Cpu.tstImm, Cpu.setNZ, Cpu.condEq, Cpu.movImm, Cpu.set, Cpu.get, Cpu.bank, hmode, ht,
      Cpu.stateStep, h]

section
attribute [local simp] exec Cpu.pop Cpu.push Cpu.loadRegs Cpu.gets Cpu.get Cpu.set Cpu.bank Cpu.ldrPost Cpu.movImm
  Cpu.addImm Cpu.call Cpu.vmsrFpexc Cpu.vmsrFpscr Cpu.vldmLow Cpu.vldmHigh Cpu.teqImm Cpu.setNZ Cpu.condEq Cpu.sub
  Cpu.exceptionReturn storeWords addrOf_add addrOf_sub wordIndex_addrOf if_neg Nat.add_assoc

theorem neonRestore_spec {u b : Nat} (hmode : m.cpu.cpsr.mode = UND_MODE) (hsp : m.cpu.sp .und = addrOf u)
    (hu : u < 2 ^ 30) (hb : b + contextWords ≤ 2 ^ 30) (hctx : b = L.word m.kernel.prvCurrentTask 0)
    (hd : u ≤ b ∨ b + contextWords ≤ L.undStackLimit) :
    ∃ r lr psr mem, m.neonRestore L env = { m with cpu := { m.cpu with
        r := r, lr := Function.update m.cpu.lr .und lr, cpsr := psr, fpexc := 0x40000000
        fpscr := m.cpu.mem (b + 19), q := fun i => m.cpu.mem (b + 20 + i), mem := mem } } ∧
      psr.mode = UND_MODE ∧ (∀ i : Fin 13, 4 ≤ i.val → i.val < 12 → r i = m.cpu.r i) ∧
      ∀ i, i < L.undStackLimit ∨ u ≤ i → mem i = m.cpu.mem i := by
  unfold contextWords at *
  subst hctx
  refine ⟨(m.neonRestore L env).cpu.r, (m.neonRestore L env).cpu.lr .und, (m.neonRestore L env).cpu.cpsr,
    (m.neonRestore L env).cpu.mem, ?_, ?_, ?_, ?_⟩
  all_goals
    simp only [neonRestore, schedulerGetCurrentTaskContextAddr]
    generalize env.junk 0 _ = j
  · simp (disch := omega) [neonEnable, Function.update_of_ne, hmode, hsp]
    funext i
    split_ifs with hi
    · rfl
    · congr 2
      omega
  · simp [neonEnable, hmode]
  · intro i h4 h12
    simp (disch := omega) [neonEnable, hmode, hsp]
  · intro i hi
    simp (disch := omega) [neonEnable, hmode, hsp]

/-- `neon_undef_handler` up to its branch, where NEON is disabled. -/
theorem neonCheck_spec {u : Nat} (hmode : m.cpu.cpsr.mode = UND_MODE) (hsp : m.cpu.sp .und = addrOf (u + 2))
    (hu : u + 2 < 2 ^ 30) (hen : neonEnabled m.cpu.fpexc = false) :
    ∃ psr, m.neonCheck env = { m with cpu := { m.cpu with
        r := Function.update m.cpu.r 0 0, sp := Function.update m.cpu.sp .und (addrOf u)
        lr := Function.update m.cpu.lr .und (env.returnAddress 0), cpsr := psr
        mem := Function.update (Function.update m.cpu.mem u (m.cpu.r 12)) (u + 1) (m.cpu.lr .und) } } ∧
      psr.mode = UND_MODE ∧ psr.z = false := by
  refine ⟨(m.neonCheck env).cpu.cpsr, ?_, ?_, ?_⟩
  · simp (disch := omega) [neonCheck, hmode, hsp, hen]
  · simp [neonCheck, hmode]
  · simp [neonCheck, hmode, hen]

theorem neonUndefHandler_spec {u b : Nat} (hmode : m.cpu.cpsr.mode = UND_MODE) (hsp : m.cpu.sp .und = addrOf (u + 2))
    (hlim : L.undStackLimit ≤ u) (hu : u + 2 < 2 ^ 30) (hb : b + contextWords ≤ 2 ^ 30)
    (hctx : b = L.word m.kernel.prvCurrentTask 0) (hd : u + 2 ≤ b ∨ b + contextWords ≤ L.undStackLimit)
    (hen : neonEnabled m.cpu.fpexc = false) :
    ∃ r psr mem, m.neonUndefHandler L env = { m with cpu := { m.cpu with
        r := r, cpsr := psr, fpexc := 0x40000000, fpscr := m.cpu.mem (b + 19), q := fun i => m.cpu.mem (b + 20 + i)
        mem := mem } } ∧
      psr.mode = UND_MODE ∧ r 0 = Cpu.stateStep (m.cpu.spsr .und) ∧ (∀ i : Fin 13, 4 ≤ i.val → r i = m.cpu.r i) ∧
      ∀ i, i < L.undStackLimit ∨ u + 2 ≤ i → mem i = m.cpu.mem i := by
  obtain ⟨psr1, h1, hmode1, hz1⟩ := neonCheck_spec env hmode hsp hu hen
  have hd' : u ≤ b ∨ b + contextWords ≤ L.undStackLimit := by omega
  obtain ⟨r2, lr2, psr2, mem2, h2, hmode2, hr2, hmem2⟩ := neonRestore_spec (m := m.neonCheck env) env (u := u)
    (b := b) (by rw [h1]; exact hmode1) (by rw [h1]; simp) (by omega) hb (by rw [h1]; exact hctx) hd'
  have h3 := neonRetry_eq ((m.neonCheck env).neonRestore L env).cpu (by rw [h2]; exact hmode2)
  have hcond : (m.neonCheck env).cpu.condEq = false := by rw [h1]; exact hz1
  have hall : m.neonUndefHandler L env =
    (((m.neonCheck env).neonRestore L env).exec neonRetry).exec (Cpu.pop [r12, .lr]) := by
    simp only [neonUndefHandler, hcond, Bool.false_eq_true, if_false]
  simp only [exec] at hall
  rw [h3] at hall
  simp only [h2] at hall
  have h12 : mem2 u = m.cpu.r 12 := by
    rw [hmem2 u (by omega), h1]
    simp
  have hlr : mem2 (u + 1) = m.cpu.lr .und := by
    rw [hmem2 (u + 1) (by omega), h1]
    simp
  have hsp' : Function.update m.cpu.sp .und (addrOf (u + 2)) = m.cpu.sp := by rw [← hsp, Function.update_eq_self]
  have hout : ∀ i, i < L.undStackLimit ∨ u + 2 ≤ i → (m.neonCheck env).cpu.mem i = m.cpu.mem i := by
    intro i hi
    rw [h1]
    simp (disch := omega) [Function.update_of_ne]
  unfold contextWords at *
  refine ⟨(m.neonUndefHandler L env).cpu.r, (m.neonUndefHandler L env).cpu.cpsr, mem2, ?_, ?_, ?_, ?_, ?_⟩
  · rw [hall]
    simp (disch := omega) [hmode2, h1, hlr, hsp']
  · rw [hall]
    simp [hmode2]
  · rw [hall]
    simp [hmode2, h1]
  · intro i hi
    rw [hall]
    by_cases hi12 : i = 12
    · subst hi12
      simp (disch := omega) [hmode2, h1, h12]
    · have hlt : i.val < 12 := by omega
      simp (disch := omega) [hmode2, h1, hr2 i hi hlt]
  · intro i hi
    rw [hmem2 i (by omega), hout i hi]

/-- `UND_handler` where NEON is disabled: the instruction is retried, in the state it is in, with NEON
enabled and the registers of the current task. -/
theorem undHandler_spec {u b : Nat} (hmode : m.cpu.cpsr.mode = UND_MODE) (hsp : m.cpu.sp .und = addrOf (u + 8))
    (hlim : L.undStackLimit ≤ u) (hu : u + 8 < 2 ^ 30) (hb : b + contextWords ≤ 2 ^ 30)
    (hctx : b = L.word m.kernel.prvCurrentTask 0) (hd : u + 8 ≤ b ∨ b + contextWords ≤ L.undStackLimit)
    (hen : neonEnabled m.cpu.fpexc = false) :
    ∃ lr mem, m.undHandler L env = { m with cpu := { m.cpu with
        cpsr := m.cpu.spsr .und, fpexc := 0x40000000, fpscr := m.cpu.mem (b + 19), q := fun i => m.cpu.mem (b + 20 + i)
        pc := alignPc (m.cpu.spsr .und) (m.cpu.lr .und - Cpu.stateStep (m.cpu.spsr .und))
        lr := Function.update m.cpu.lr .und lr, mem := mem } } ∧
      ∀ i, i < L.undStackLimit ∨ u + 8 ≤ i → mem i = m.cpu.mem i := by
  -- `neon_undef_handler` runs on the stack below the six words pushed before it
  generalize hm1 : ((m.exec (Cpu.push [r0, r1, r2, r3, r12])).exec (Cpu.push [.lr])).exec
    (Cpu.movImm .lr (env.returnAddress 2)) = m1
  have h1 : m1 = { m with cpu := { m.cpu with
      sp := Function.update m.cpu.sp .und (addrOf (u + 2)), lr := Function.update m.cpu.lr .und (env.returnAddress 2)
      mem := m1.cpu.mem } } := by
    rw [← hm1]
    simp (disch := omega) [hmode, hsp]
  have hstack : m1.cpu.mem (u + 2) = m.cpu.lr .und ∧ m1.cpu.mem (u + 3) = m.cpu.r 0 ∧ m1.cpu.mem (u + 4) = m.cpu.r 1 ∧
      m1.cpu.mem (u + 5) = m.cpu.r 2 ∧ m1.cpu.mem (u + 6) = m.cpu.r 3 ∧ m1.cpu.mem (u + 7) = m.cpu.r 12 := by
    rw [← hm1]
    simp (disch := omega) [hmode, hsp, Function.update_of_ne]
  have hout : ∀ i, i < u + 2 ∨ u + 8 ≤ i → m1.cpu.mem i = m.cpu.mem i := by
    intro i hi
    rw [← hm1]
    simp (disch := omega) [hmode, hsp, Function.update_of_ne]
  obtain ⟨regs, psr2, mem2, h2, hmode2, hr0, hr4, hmem2⟩ := neonUndefHandler_spec (m := m1) env (u := u) (b := b)
    (by rw [h1]; exact hmode) (by rw [h1]; simp) hlim (by omega) hb (by rw [h1]; exact hctx) (by omega)
    (by rw [h1]; exact hen)
  have hall : m.undHandler L env = ((((m1.neonUndefHandler L env).exec (Cpu.pop [.lr])).exec (Cpu.sub .lr .lr r0)).exec
      (Cpu.pop [r0, r1, r2, r3, r12])).exec (Cpu.exceptionReturn 0) := by
    rw [← hm1]
    rfl
  have hstack2 : ∀ i, u + 2 ≤ i → mem2 i = m1.cpu.mem i := fun i hi => hmem2 i (.inr hi)
  have hsp' : Function.update m.cpu.sp .und (addrOf (u + 8)) = m.cpu.sp := by rw [← hsp, Function.update_eq_self]
  have hspsr : m1.cpu.spsr = m.cpu.spsr := by rw [h1]
  have hregs : ∀ i : Fin 13, 4 ≤ i.val → regs i = m.cpu.r i := by
    intro i hi
    rw [hr4 i hi, h1]
  obtain ⟨hs2, hs3, hs4, hs5, hs6, hs7⟩ := hstack
  obtain ⟨p, rfl⟩ : ∃ p : Psr, psr2 = { p with mode := UND_MODE } := ⟨psr2, by rw [← hmode2]⟩
  simp only [exec, h2] at hall
  unfold contextWords at *
  refine ⟨(m.undHandler L env).cpu.lr .und, (m.undHandler L env).cpu.mem, ?_, ?_⟩
  · rw [hall, h1]
    simp (disch := omega) [hsp', hstack2, hs2, hs3, hs4, hs5, hs6, hs7, hr0, hspsr, hout]
    funext i
    fin_cases i <;> simp [hregs]
  · intro i hi
    rw [hall, ← hout i (by omega), ← hmem2 i (by omega)]
    simp

end

/-- Eight words are free on the stack of UND mode. -/
def UndReady (L : Layout) (m : Machine) : Prop :=
  ∃ u, m.cpu.sp .und = addrOf (u + 8) ∧ L.undStackLimit ≤ u ∧ u + 8 ≤ L.undStackTop

/-- What the handler leaves after a NEON instruction of `m` trapped. -/
structure Retried (L : Layout) (m m' : Machine) : Prop where
  kernel : m'.kernel = m.kernel
  thread : thread m'.cpu = Kernel.thread m.cpu
  enabled : neonEnabled m'.cpu.fpexc = true
  neon : neon m'.cpu = (L.context m.cpu.mem m.kernel.prvCurrentTask).neon
  sp : m'.cpu.sp = m.cpu.sp
  context : ∀ slot, slot < SCHEDULER_MAX_TASKS → L.context m'.cpu.mem slot = L.context m.cpu.mem slot

/-- A NEON instruction that traps is retried at its own address, in A32 and in Thumb state, with NEON
enabled and the registers of the current task. -/
theorem undefined_spec (htask : TaskCode m.cpu) (hcur : m.kernel.prvCurrentTask < SCHEDULER_MAX_TASKS)
    (hund : UndReady L m) (hen : neonEnabled m.cpu.fpexc = false) :
    Retried L m (m.undefined.undHandler L env) := by
  obtain ⟨u, hsp, hlim, htop⟩ := hund
  have hd : u + 8 ≤ L.word m.kernel.prvCurrentTask 0 ∨
      L.word m.kernel.prvCurrentTask 0 + contextWords ≤ L.undStackLimit := by
    have := L.undStack_contexts
    unfold Layout.word contextWords SCHEDULER_MAX_TASKS at *
    omega
  obtain ⟨lr, mem, h, hmem⟩ := undHandler_spec (m := m.undefined) env rfl hsp hlim
    (Nat.lt_of_le_of_lt htop L.undStack_lt) (slot_le hcur) rfl hd hen
  have hback : m.undefined.cpu.lr .und - Cpu.stateStep (m.undefined.cpu.spsr .und) = m.cpu.pc := by
    simp [undefined, exec, Cpu.takeUndef, Cpu.enter]
  rw [hback] at h
  rw [h]
  refine ⟨rfl, ?_, ?_, ?_, ?_, ?_⟩
  · have hpc : alignPc m.cpu.cpsr m.cpu.pc = m.cpu.pc := htask.aligned
    simp [thread, undefined, exec, Cpu.takeUndef, Cpu.enter, hpc]
  · show neonEnabled 0x40000000 = true
    decide
  · refine Neon.ext rfl (funext fun i => ?_)
    show m.cpu.mem (L.word m.kernel.prvCurrentTask 0 + 20 + i) = m.cpu.mem (L.word m.kernel.prvCurrentTask (20 + i))
    rw [Nat.add_assoc]
    rfl
  · rfl
  · intro slot hs
    refine Layout.context_congr fun i hi => hmem i ?_
    have := L.undStack_contexts
    unfold Layout.Slot Layout.word contextWords SCHEDULER_MAX_TASKS at *
    omega

/-! ## Runs -/

/-- A NEON instruction that executed: the slot that ran it, the registers it saw and those it left. -/
structure NeonUse where
  slot : Nat
  seen : Neon
  left : Neon

/-- What a slot last left in its NEON registers, the latest instruction first. -/
def lastLeft (initial : Nat → Neon) : List NeonUse → Nat → Neon
  | [], slot => initial slot
  | use :: uses, slot => if use.slot = slot then use.left else lastLeft initial uses slot

/-- Every instruction saw what its own slot last left. -/
def PrivateFiles (initial : Nat → Neon) : List NeonUse → Prop
  | [] => True
  | use :: uses => use.seen = lastLeft initial uses use.slot ∧ PrivateFiles initial uses

/-- Work of the current task between its NEON instructions. -/
structure PlainWork (L : Layout) (m m' : Machine) : Prop extends Work L m m' where
  fpexc : m'.cpu.fpexc = m.cpu.fpexc
  undSp : m'.cpu.sp .und = m.cpu.sp .und

/-- Runs of work, ticks and NEON instructions after the first dispatch, with the instructions that
executed. An instruction executes where FPEXC.EN is set, changing the registers in any way, and traps
where it is not. -/
inductive NeonRun (L : Layout) (sym : Symbols) (initial : Nat → Neon) : Machine → List NeonUse → Prop where
  | dispatch {m m' : Machine} (env : Env) (hm : Started L sym m) (hund : UndReady L m)
    -- `neon_disable()` in `__scheduler_start`
    (hfpexc : m.cpu.fpexc = 0)
    (hinitial : ∀ slot, slot < SCHEDULER_MAX_TASKS → initial slot = (L.context m.cpu.mem slot).neon)
    (hirq : m.interrupt.irqHandlerAsm L env = some m') : NeonRun L sym initial m' []
  | work {m m' : Machine} {uses : List NeonUse} (hm : NeonRun L sym initial m uses) (hw : PlainWork L m m')
    (hneon : neon m'.cpu = neon m.cpu) : NeonRun L sym initial m' uses
  | tick {m m' : Machine} {uses : List NeonUse} (env : Env) (hm : NeonRun L sym initial m uses)
    (htask : TaskCode m.cpu) (ht : Tick m.kernel) (hirq : m.interrupt.irqHandlerAsm L env = some m') :
    NeonRun L sym initial m' uses
  | trap {m : Machine} {uses : List NeonUse} (env : Env) (hm : NeonRun L sym initial m uses) (htask : TaskCode m.cpu)
    (hen : neonEnabled m.cpu.fpexc = false) : NeonRun L sym initial (m.undefined.undHandler L env) uses
  | execute {m m' : Machine} {uses : List NeonUse} (hm : NeonRun L sym initial m uses)
    (hen : neonEnabled m.cpu.fpexc = true) (hw : PlainWork L m m') :
    NeonRun L sym initial m' (⟨m.kernel.prvCurrentTask, neon m.cpu, neon m'.cpu⟩ :: uses)

/-- Where the register files of the slots are: that of the current one in the registers while NEON is
enabled, all others in the contexts. -/
structure FilesIn (L : Layout) (m : Machine) (files : Nat → Neon) : Prop where
  registers : neonEnabled m.cpu.fpexc = true → neon m.cpu = files m.kernel.prvCurrentTask
  contexts : ∀ slot, slot < SCHEDULER_MAX_TASKS → neonEnabled m.cpu.fpexc = false ∨ slot ≠ m.kernel.prvCurrentTask →
    (L.context m.cpu.mem slot).neon = files slot

theorem FilesIn.work {files : Nat → Neon} (h : FilesIn L m files) (hw : PlainWork L m m')
    (hneon : neon m'.cpu = neon m.cpu) : FilesIn L m' files := by
  refine ⟨?_, ?_⟩
  · rw [hw.fpexc, hneon, hw.current]
    exact h.registers
  · intro slot hs
    rw [hw.fpexc, hw.current, hw.context slot hs]
    exact h.contexts slot hs

/-- NEON is disabled after every tick. -/
theorem Ticked.disabled (h : Ticked L m m') : neonEnabled m'.cpu.fpexc = false := by
  rw [h.fpexc]
  cases hen : neonEnabled m.cpu.fpexc with
  | true => rw [if_pos rfl]; decide
  | false => exact hen

theorem FilesIn.tick {files : Nat → Neon} (h : FilesIn L m files) (ht : Ticked L m m')
    (hcur : m.kernel.prvCurrentTask < SCHEDULER_MAX_TASKS) : FilesIn L m' files := by
  refine ⟨?_, ?_⟩
  · intro hen
    rw [ht.disabled] at hen
    cases hen
  · intro slot hs _
    by_cases heq : slot = m.kernel.prvCurrentTask
    · subst heq
      rw [ht.saved]
      show savedNeon m.cpu _ = _
      rw [savedNeon]
      cases hen : neonEnabled m.cpu.fpexc with
      | true => exact h.registers hen
      | false => exact h.contexts _ hcur (.inl hen)
    · rw [ht.others slot hs heq]
      exact h.contexts slot hs (.inr heq)

theorem FilesIn.trap {files : Nat → Neon} (h : FilesIn L m files) (hr : Retried L m m')
    (hcur : m.kernel.prvCurrentTask < SCHEDULER_MAX_TASKS) (hen : neonEnabled m.cpu.fpexc = false) :
    FilesIn L m' files := by
  refine ⟨?_, ?_⟩
  · intro _
    rw [hr.neon, hr.kernel]
    exact h.contexts _ hcur (.inl hen)
  · intro slot hs _
    rw [hr.context slot hs]
    exact h.contexts slot hs (.inl hen)

theorem FilesIn.execute {initial : Nat → Neon} {uses : List NeonUse} (h : FilesIn L m (lastLeft initial uses))
    (hen : neonEnabled m.cpu.fpexc = true) (hw : PlainWork L m m') :
    FilesIn L m' (lastLeft initial (⟨m.kernel.prvCurrentTask, neon m.cpu, neon m'.cpu⟩ :: uses)) := by
  refine ⟨?_, ?_⟩
  · intro _
    rw [hw.current, lastLeft, if_pos rfl]
  · intro slot hs hne
    rw [hw.fpexc, hw.current, hen] at hne
    have hslot : slot ≠ m.kernel.prvCurrentTask := hne.resolve_left (by decide)
    rw [hw.context slot hs, lastLeft, if_neg (Ne.symm hslot)]
    exact h.contexts slot hs (.inr hslot)

/-- What holds in every state reached. -/
structure NeonInv (L : Layout) (initial : Nat → Neon) (m : Machine) (uses : List NeonUse) : Prop where
  ready : SchedulerReady L m
  und : UndReady L m
  files : FilesIn L m (lastLeft initial uses)
  privateFiles : PrivateFiles initial uses

theorem UndReady.of_sp (h : UndReady L m) (hsp : m'.cpu.sp .und = m.cpu.sp .und) : UndReady L m' := by
  unfold UndReady
  rw [hsp]
  exact h

theorem NeonRun.invariant {initial : Nat → Neon} {uses : List NeonUse} (h : NeonRun L sym initial m uses) :
    NeonInv L initial m uses := by
  induction h with
  | dispatch env hm hund hfpexc hinitial hirq =>
    obtain ⟨hd, hcur, hlast, hfp, hctx⟩ := of_handled (start_spec env hm) hirq
    have hready := hd.ready hm.toSchedulerReady (by rw [hlast]; decide) (by rw [hcur]; decide)
    refine ⟨hready, hund.of_sp (hd.sp .und (by decide)), ⟨?_, ?_⟩, trivial⟩
    · intro hen
      rw [hfp, hfpexc] at hen
      exact absurd hen (by decide)
    · intro slot hs _
      rw [hctx slot hs]
      exact (hinitial slot hs).symm
  | work _ hw hneon ih =>
    exact ⟨(hw.interruptible ih.ready).toSchedulerReady, ih.und.of_sp hw.undSp, ih.files.work hw hneon, ih.privateFiles⟩
  | @tick m m' uses env _ htask ht hirq ih =>
    have hticked : Ticked L m m' := of_handled (tick_spec env ⟨htask, ih.ready⟩ ht) hirq
    exact ⟨hticked.ready ih.ready, ih.und.of_sp (hticked.sp .und (by decide)), ih.files.tick hticked ih.ready.current,
      ih.privateFiles⟩
  | trap env _ htask hen ih =>
    have hr := undefined_spec env htask ih.ready.current ih.und hen
    refine ⟨⟨?_, ?_, ?_⟩, ih.und.of_sp (by rw [hr.sp]), ih.files.trap hr ih.ready.current hen, ih.privateFiles⟩
    · rw [hr.kernel]
      exact ih.ready.last
    · rw [hr.kernel]
      exact ih.ready.current
    · rw [hr.sp]
      exact ih.ready.irqSp
  | execute _ hen hw ih =>
    exact ⟨(hw.interruptible ih.ready).toSchedulerReady, ih.und.of_sp hw.undSp, ih.files.execute hen hw,
      ih.files.registers hen, ih.privateFiles⟩

/-- However ticks and NEON instructions interleave, every instruction that executes sees the registers
its own slot last left, and one that traps is retried at its own address with NEON enabled. -/
theorem neon_private {initial : Nat → Neon} {uses : List NeonUse} (h : NeonRun L sym initial m uses) :
    PrivateFiles initial uses ∧ (neonEnabled m.cpu.fpexc = false → TaskCode m.cpu → ∀ env,
      thread (m.undefined.undHandler L env).cpu = thread m.cpu ∧
        neonEnabled (m.undefined.undHandler L env).cpu.fpexc = true) := by
  have hinv := h.invariant
  refine ⟨hinv.privateFiles, ?_⟩
  intro hen htask env
  have hr := undefined_spec env htask hinv.ready.current hinv.und hen
  exact ⟨hr.thread, hr.enabled⟩

/-! ## A run -/

/-- A NEON instruction that writes all registers. -/
def exampleWrite (n : Neon) (m : Machine) : Machine where
  cpu := { m.cpu with fpscr := n.fpscr, q := n.q, cpsr := examplePsr 0, pc := 4 }
  kernel := m.kernel

theorem plainWork_exampleWork (ge : Nat → BitVec 4) (k : Nat) (m : Machine) :
    PlainWork exampleLayout m (exampleWork ge k m) := ⟨(work_exampleWork ge k m).1, rfl, rfl⟩

theorem plainWork_exampleWrite (n : Neon) (m : Machine) : PlainWork exampleLayout m (exampleWrite n m) := by
  refine ⟨⟨⟨.inl rfl, rfl, ?_⟩, fun _ _ => rfl, rfl, rfl, rfl⟩, rfl, rfl⟩
  show alignPc (examplePsr 0) 4 = 4
  decide

/-- A turn of a task: its first NEON instruction traps, is retried and executes, and a tick ends it. -/
theorem exists_turn {initial : Nat → Neon} {uses : List NeonUse}
    (h : NeonRun exampleLayout exampleSymbols initial m uses) (hen : neonEnabled m.cpu.fpexc = false) :
    ∃ m' use, NeonRun exampleLayout exampleSymbols initial m' (use :: uses) ∧ neonEnabled m'.cpu.fpexc = false := by
  have h1 := h.work (plainWork_exampleWork (fun _ => 0) 0 m) rfl
  have hinv := h1.invariant
  have htask := (plainWork_exampleWork (fun _ => 0) 0 m).task
  have hr := undefined_spec exampleEnv htask hinv.ready.current hinv.und hen
  have h2 := h1.trap exampleEnv htask hen
  generalize (exampleWork (fun _ => 0) 0 m).undefined.undHandler exampleLayout exampleEnv = m2 at hr h2
  have h3 := h2.execute hr.enabled (plainWork_exampleWrite ⟨1, fun _ => 2⟩ m2)
  have h4 := h3.work (plainWork_exampleWork (fun _ => 0) 0 _) rfl
  obtain ⟨m', hm', ht⟩ := tick_spec exampleEnv
    ⟨(plainWork_exampleWork (fun _ => 0) 0 (exampleWrite ⟨1, fun _ => 2⟩ m2)).task, h4.invariant.ready⟩
    (work_exampleWork (fun _ => 0) 0 _).2
  refine ⟨m', _, h4.tick exampleEnv (plainWork_exampleWork (fun _ => 0) 0 _).task (work_exampleWork (fun _ => 0) 0 _).2 hm',
    ht.disabled⟩

/-- Two slots take their turns. -/
theorem neon_private_two_slots : ∃ initial m uses, NeonRun exampleLayout exampleSymbols initial m uses ∧
    uses.length = 2 ∧ PrivateFiles initial uses := by
  obtain ⟨m0, h0, -, -, -, hfp0, -⟩ := start_spec exampleEnv started_exampleStart
  have hund : UndReady exampleLayout exampleStart := ⟨0x500 - 8, rfl, by decide, by decide⟩
  have hr0 : NeonRun exampleLayout exampleSymbols _ m0 [] :=
    .dispatch _ started_exampleStart hund rfl (fun _ _ => rfl) h0
  obtain ⟨m1, use1, hr1, hen1⟩ := exists_turn hr0 (by rw [hfp0]; decide)
  obtain ⟨m2, use2, hr2, -⟩ := exists_turn hr1 hen1
  exact ⟨_, m2, _, hr2, rfl, (neon_private hr2).1⟩

end Machine
end Td3.Kernel
