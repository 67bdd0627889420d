/-
What a task sees of memory. Its instructions run in user mode on the tables that the kernel has filled; one
whose access aborts goes through `ABT_handler` and is executed again, and while the task is switched out the
other task and the kernel use memory too. To the task all this is a flat memory of its own, on which each
instruction is executed once; the bytes of a page that is mapped on demand are those that its frame of free
RAM happens to hold. `mmu_init` has enabled alignment faults, so an access that is not aligned aborts for good.
-/
import Td3.Kernel.AbtHandler
import Td3.Kernel.UserMode
import Td3.Lib.FlatMemory

namespace Td3.Kernel

open Arm PageTables Aborted

/-! ## Steps -/

/-- Code of the task with the table `t`, in user mode -/
structure UserThread (t : Nat) (th : Thread) : Prop where
  mode : th.cpsr.mode = USR_MODE
  aligned : alignPc th.cpsr th.pc = th.pc
  ttbr0 : th.ttbr0 = addrOf t

/-- In user mode neither the mode nor the table can be changed, and an access lies in one page. -/
def Unprivileged (t : Nat) (prog : Program Thread) : Prop :=
  ∀ th, UserThread t th → match prog th with
    | .load va _ size next => va.toNat % 2 ^ 12 + size ≤ 2 ^ 12 ∧ ∀ bytes, UserThread t (next bytes)
    | .store va _ bytes next => va.toNat % 2 ^ 12 + bytes.length ≤ 2 ^ 12 ∧ UserThread t next
    | .plain next => UserThread t next

/-- The address, the unit and the kind of an access -/
def accessed : Instr Thread → Option (Word × Nat × Access)
  | .load va unit _ _ => some (va, unit, .load)
  | .store va unit _ _ => some (va, unit, .store)
  | .plain _ => none

/-- Where an access of user mode goes. With SCTLR.A set, one that is not aligned takes an alignment fault before
anything is translated. -/
def accessPa (c : Cp15) (memory : Nat → Word) (rw : Access) (va : Word) (unit : Nat) : Option Word :=
  if c.sctlr.getLsbD 1 = true ∧ ¬ unit ∣ va.toNat then none else c.translate memory false rw va

/-- What DFSR says of an access that aborts, with SCTLR.A set -/
def accessFault (memory : Nat → Word) (t : Nat) (va : Word) (unit : Nat) : DataFault :=
  if unit ∣ va.toNat then userFault memory t va else .alignment

/-- An abort that `abt_handler` maps a page for, if the access is aligned -/
def Mappable (mapping : Bool) (m : Mmu) (t : Nat) (va : Word) : Prop := mapping = true ∧ walk m.mem t va = .fault

def Aborted.setThread (th : Thread) (x : Aborted) : Aborted := x.exec fun m =>
  { m with
    r := th.r, sp := Function.update m.sp .user th.sp, lr := Function.update m.lr .user th.lr, cpsr := th.cpsr
    pc := th.pc, ttbr0 := th.ttbr0 }

inductive TaskEvent where
  /-- The task executes the instruction that it is at, or takes the abort that DFSR reports. -/
  | attempt (env : AbortEnv) (dfsr : Word)
  /-- While the task is switched out, memory is used by another. -/
  | elsewhere (e : UserEvent)

section
variable (k : Link) (c : Cp15) (L : AbortLayout) (prog : Program Thread)

/-- The registers of CP15 while the task is running -/
def Aborted.cp15 (x : Aborted) : Cp15 := { c with ttbr0 := x.cpu.ttbr0 }

def attempt (env : AbortEnv) (dfsr : Word) (x : Aborted) : Aborted :=
  match prog (thread x.cpu) with
  | .load va unit size next =>
    match accessPa (x.cp15 c) x.mmu.mem .load va unit with
    | some pa => x.setThread (next (readBytes (byteAt x.mmu.mem) pa size))
    | none => (x.takeDataAbort dfsr va).abtHandlerAsm L env
  | .store va unit bytes next =>
    match accessPa (x.cp15 c) x.mmu.mem .store va unit with
    | some pa => { x.setThread next with mmu := { x.mmu with mem := putBytes bytes pa x.mmu.mem } }
    | none => (x.takeDataAbort dfsr va).abtHandlerAsm L env
  | .plain next => x.setThread next

def taskStep (x : Aborted) : TaskEvent → Option Aborted
  | .attempt env dfsr => some (attempt c L prog env dfsr x)
  | .elsewhere e => (userStep k c L.mapping x.mmu e).map fun mmu => { x with mmu := mmu }

/-- DFSR reports the fault of the access. -/
def Reports (dfsr : Word) (m : Mmu) (t : Nat) (va : Word) (unit : Nat) (rw : Access) : Prop :=
  DataFault.ofCode (faultStatus dfsr) = accessFault m.mem t va unit ∧ accessOf dfsr = rw

variable {k} in
/-- The task keeps to pages of its own, and what else uses memory does not run as the task; the pool and free RAM
are not exhausted. -/
def TaskEvent.Allowed (h : k.Linked) (t : Nat) (x : Aborted) : TaskEvent → Prop
  | .attempt _ dfsr => ∀ va unit rw, accessed (prog (thread x.cpu)) = some (va, unit, rw) → k.OwnPage va ∧
    (accessPa (x.cp15 c) x.mmu.mem rw va unit = none → Reports dfsr x.mmu t va unit rw ∧
      (unit ∣ va.toNat → Mappable L.mapping x.mmu t va → (k.pageTables h).Allowed x.mmu (.abort t va rw)))
  | .elsewhere e => e.Allowed L.mapping h x.mmu ∧ ∀ va, ¬ e.StoresTo t va

/-- The byte of every address of a page of its own that the task may load from -/
def SeenAs (t : Nat) (m : Mmu) (μ : Word → Word) : Prop := Flat.Agrees k.OwnPage (fun va => userRead c t va m) μ

end

/-- The build without ENABLE_TESTING -/
structure AbortLayout.Of (L : AbortLayout) (k : Link) : Prop where
  symbols : L.symbols = k.mmuSymbols
  testing : L.testing = false

section
variable {k : Link} {c : Cp15} {L : AbortLayout} {prog : Program Thread} {h : k.Linked} {m0 m m' : Mmu} {t : Nat}
  {va pa : Word} {unit : Nat} {rw : Access} {x x' : Aborted}

/-! ## What an attempt does -/

@[simp] theorem thread_setThread (th : Thread) (x : Aborted) : thread (x.setThread th).cpu = th := by
  simp [thread, setThread, Aborted.exec]

theorem abtHandler_returns (S : MmuSymbols) (ttbr0 : Word) (fault : DataFault) (va : Word) (rw : Access) (m : Mmu) :
    (abtHandler false S ttbr0 fault va rw m).1 = RETURN_TO_SAME := by
  cases fault <;> cases rw <;> rfl

/-- Without ENABLE_TESTING the task is back at the same instruction, and its page may have been mapped. -/
theorem abort_spec (hL : L.Of k) (env : AbortEnv) {dfsr : Word} (hx : UserThread t (thread x.cpu))
    (hsp : x.cpu.sp .abt = addrOf L.stackTop) (hreports : Reports dfsr x.mmu t va unit rw) :
    thread ((x.takeDataAbort dfsr va).abtHandlerAsm L env).cpu = thread x.cpu ∧
      ((x.takeDataAbort dfsr va).abtHandlerAsm L env).mmu =
        (if unit ∣ va.toNat then userAbort k L.mapping t va rw x.mmu else x.mmu) ∧
      ((x.takeDataAbort dfsr va).abtHandlerAsm L env).cpu.sp = x.cpu.sp := by
  obtain ⟨hresumed, hthread, hmmu, -⟩ := dataAbort_spec env dfsr va hsp hx.aligned
  have hhandled : (x.takeDataAbort dfsr va).handled L =
      (RETURN_TO_SAME, if unit ∣ va.toNat then userAbort k L.mapping t va rw x.mmu else x.mmu) := by
    have hret := abtHandler_returns k.mmuSymbols (addrOf t) (accessFault x.mmu.mem t va unit) va rw x.mmu
    rw [handled_takeDataAbort, hL.symbols, hL.testing, show x.cpu.ttbr0 = addrOf t from hx.ttbr0, hreports.1,
      hreports.2, hret]
    unfold accessFault
    by_cases haligned : unit ∣ va.toNat
    · rw [if_pos haligned, if_pos haligned]
      rfl
    · rw [if_neg haligned, if_neg haligned]
      exact congrArg (Prod.mk RETURN_TO_SAME) (ite_self _)
  rw [hhandled] at hthread hmmu
  exact ⟨hthread, hmmu, hresumed.sp⟩

theorem cp15_eq (hx : UserThread t (thread x.cpu)) : x.cp15 c = taskCp15 c t := by
  unfold Aborted.cp15 taskCp15
  rw [show x.cpu.ttbr0 = addrOf t from hx.ttbr0]

theorem setThread_sp (th : Thread) (x : Aborted) : (x.setThread th).cpu.sp .abt = x.cpu.sp .abt := by
  simp [setThread, Aborted.exec]

theorem accessPa_eq (hc : Configured c) : accessPa (taskCp15 c t) m.mem rw va unit =
    if unit ∣ va.toNat then (taskCp15 c t).translate m.mem false rw va else none := by
  have halignment : (taskCp15 c t).sctlr.getLsbD 1 = true := hc.alignment
  unfold accessPa
  rw [halignment]
  split_ifs with hnot haligned haligned
  · exact absurd haligned hnot.2
  · rfl
  · rfl
  · exact absurd ⟨rfl, haligned⟩ hnot

theorem accessPa_some (hc : Configured c) (haccess : accessPa (taskCp15 c t) m.mem rw va unit = some pa) :
    unit ∣ va.toNat ∧ (taskCp15 c t).translate m.mem false rw va = some pa := by
  rw [accessPa_eq hc] at haccess
  exact Option.ite_none_right_eq_some.1 haccess

/-- What is left of the thread and of memory by the instruction at which the task is, or by its abort -/
inductive Attempted (h : k.Linked) (c : Cp15) (mapping : Bool) (t : Nat) (instr : Instr Thread) (th : Thread)
    (m : Mmu) : Thread → Mmu → Prop where
  | plain (next : Thread) (at_instr : instr = .plain next) : Attempted h c mapping t instr th m next m
  | load (va : Word) (unit size : Nat) (next : List Word → Thread) (pa : Word)
    (at_instr : instr = .load va unit size next) (own : k.OwnPage va) (fits : va.toNat % 2 ^ 12 + size ≤ 2 ^ 12)
    (aligned : unit ∣ va.toNat) (translated : (taskCp15 c t).translate m.mem false .load va = some pa) :
    Attempted h c mapping t instr th m (next (readBytes (byteAt m.mem) pa size)) m
  | store (va : Word) (unit : Nat) (bytes : List Word) (next : Thread) (pa : Word)
    (at_instr : instr = .store va unit bytes next) (own : k.OwnPage va)
    (fits : va.toNat % 2 ^ 12 + bytes.length ≤ 2 ^ 12) (aligned : unit ∣ va.toNat)
    (translated : (taskCp15 c t).translate m.mem false .store va = some pa) :
    Attempted h c mapping t instr th m next { m with mem := putBytes bytes pa m.mem }
  | abort (va : Word) (unit : Nat) (rw : Access) (at_instr : accessed instr = some (va, unit, rw))
    (own : k.OwnPage va) (aligned : unit ∣ va.toNat) (aborts : (taskCp15 c t).translate m.mem false rw va = none)
    (room : Mappable mapping m t va → (k.pageTables h).Allowed m (.abort t va rw)) :
    Attempted h c mapping t instr th m th (userAbort k mapping t va rw m)
  | unaligned (va : Word) (unit : Nat) (rw : Access) (at_instr : accessed instr = some (va, unit, rw))
    (unaligned : ¬ unit ∣ va.toNat) : Attempted h c mapping t instr th m th m

/-- An access that aborts -/
theorem Attempted.of_abort {instr : Instr Thread} {th : Thread} {mapping : Bool} (hc : Configured c)
    (haccess : accessed instr = some (va, unit, rw)) (hown : k.OwnPage va)
    (haborts : accessPa (taskCp15 c t) m.mem rw va unit = none)
    (hroom : unit ∣ va.toNat → Mappable mapping m t va → (k.pageTables h).Allowed m (.abort t va rw)) :
    Attempted h c mapping t instr th m th (if unit ∣ va.toNat then userAbort k mapping t va rw m else m) := by
  by_cases haligned : unit ∣ va.toNat
  · rw [accessPa_eq hc, if_pos haligned] at haborts
    rw [if_pos haligned]
    exact .abort va unit rw haccess hown haligned haborts (hroom haligned)
  · rw [if_neg haligned]
    exact .unaligned va unit rw haccess haligned

theorem attempt_eq_abort {env : AbortEnv} {dfsr : Word} (hx : UserThread t (thread x.cpu))
    (haccess : accessed (prog (thread x.cpu)) = some (va, unit, rw))
    (haborts : accessPa (taskCp15 c t) x.mmu.mem rw va unit = none) :
    attempt c L prog env dfsr x = (x.takeDataAbort dfsr va).abtHandlerAsm L env := by
  unfold attempt
  rw [cp15_eq hx]
  cases hinstr : prog (thread x.cpu) with
  | plain next =>
    rw [hinstr] at haccess
    cases haccess
  | load va' unit' size next =>
    rw [hinstr] at haccess
    cases haccess
    simp only [haborts]
  | store va' unit' size next =>
    rw [hinstr] at haccess
    cases haccess
    simp only [haborts]

theorem attempt_spec (hL : L.Of k) (hc : Configured c) (hprog : Unprivileged t prog) {env : AbortEnv} {dfsr : Word}
    (hx : UserThread t (thread x.cpu)) (hsp : x.cpu.sp .abt = addrOf L.stackTop)
    (hallowed : TaskEvent.Allowed c L prog h t x (.attempt env dfsr)) (hx' : x' = attempt c L prog env dfsr x) :
    Attempted h c L.mapping t (prog (thread x.cpu)) (thread x.cpu) x.mmu (thread x'.cpu) x'.mmu ∧
      UserThread t (thread x'.cpu) ∧ x'.cpu.sp .abt = addrOf L.stackTop := by
  subst hx'
  have hnext := hprog _ hx
  unfold TaskEvent.Allowed at hallowed
  rw [cp15_eq hx] at hallowed
  by_cases haborts : ∃ va unit rw, accessed (prog (thread x.cpu)) = some (va, unit, rw) ∧
      accessPa (taskCp15 c t) x.mmu.mem rw va unit = none
  · obtain ⟨va, unit, rw, haccess, hnone⟩ := haborts
    obtain ⟨hown, hreports⟩ := hallowed va unit rw haccess
    obtain ⟨hthread, hmmu, hsp'⟩ := abort_spec hL env hx hsp (hreports hnone).1
    rw [attempt_eq_abort hx haccess hnone, hthread, hmmu, hsp']
    exact ⟨.of_abort hc haccess hown hnone (hreports hnone).2, hx, hsp⟩
  · unfold attempt
    rw [cp15_eq hx]
    cases hinstr : prog (thread x.cpu) with
    | plain next =>
      rw [hinstr] at hnext
      refine ⟨?_, ?_, ?_⟩
      · simp only [thread_setThread]
        exact .plain next rfl
      · simpa using hnext
      · simpa [setThread_sp] using hsp
    | load va unit size next =>
      rw [hinstr] at hnext hallowed haborts
      dsimp only
      cases haccess : accessPa (taskCp15 c t) x.mmu.mem .load va unit with
      | none => exact absurd ⟨va, unit, .load, rfl, haccess⟩ haborts
      | some pa =>
        obtain ⟨haligned, htranslate⟩ := accessPa_some hc haccess
        refine ⟨?_, ?_, ?_⟩
        · simp only [thread_setThread]
          exact .load va unit size next pa rfl (hallowed va unit .load rfl).1 hnext.1 haligned htranslate
        · simpa using hnext.2 _
        · simpa [setThread_sp] using hsp
    | store va unit bytes next =>
      rw [hinstr] at hnext hallowed haborts
      dsimp only
      cases haccess : accessPa (taskCp15 c t) x.mmu.mem .store va unit with
      | none => exact absurd ⟨va, unit, .store, rfl, haccess⟩ haborts
      | some pa =>
        obtain ⟨haligned, htranslate⟩ := accessPa_some hc haccess
        refine ⟨?_, ?_, ?_⟩
        · simp only [thread_setThread]
          exact .store va unit bytes next pa rfl (hallowed va unit .store rfl).1 hnext.1 haligned htranslate
        · simpa using hnext.2
        · simpa [setThread_sp] using hsp

/-! ## Memory as the task sees it -/

section
variable {mapping : Bool} {byte : Word} {domain : BitVec 4} {attributes : PageAttributes}

theorem ownPage_add (hown : k.OwnPage va) {i : Nat} (hi : va.toNat % 2 ^ 12 + i < 2 ^ 12) :
    k.OwnPage (va + BitVec.ofNat 32 i) := by
  have hlt := va.isLt
  have hpage : pageOf (va + BitVec.ofNat 32 i) = pageOf va := by
    unfold pageOf
    rw [BitVec.toNat_add, BitVec.toNat_ofNat]
    omega
  intro s hs
  rw [hpage]
  exact hown s hs

/-- What users of memory other than the task do changes nothing that the task can read. -/
theorem UserInv.read_kept (hinv : UserInv h m0 m) (hc : Configured c) (hd : k.FramesDisjoint)
    (hmaps : ∀ p ∈ k.addressSpaces, Maps m0.mem p.1 p.2) (ht : t ∈ k.taskTables) {e : UserEvent}
    (hallowed : e.Allowed mapping h m) (hstep : userStep k c mapping m e = some m') (hnot : ¬ e.StoresTo t va)
    (hown : k.OwnPage va) (hread : userRead c t va m = some byte) : userRead c t va m' = some byte :=
  (hinv.separated hc mapping hd hmaps).own t ht va byte hown hread m' (Run.start.step e ⟨hallowed, hnot⟩ hstep)

/-- Neither does an abort. -/
theorem Mapped.read_kept (hinv : UserInv h m0 m) (hmapped : Mapped h m m') (hc : Configured c) (hd : k.FramesDisjoint)
    (hmaps : ∀ p ∈ k.addressSpaces, Maps m0.mem p.1 p.2) (ht : t ∈ k.taskTables) (hown : k.OwnPage va)
    (hread : userRead c t va m = some byte) : userRead c t va m' = some byte := by
  have huses := hc.uses (taskTables_table1s h ht)
  obtain ⟨pa, htranslate, rfl⟩ := Option.map_eq_some_iff.1 hread
  obtain ⟨domain, attributes, hwalk, hap⟩ := translate_some huses htranslate
  have hwalk' := hmapped.kept t (taskTables_table1s h ht) va (by rw [hwalk]; simp)
  rw [userRead_eq huses (hwalk'.trans hwalk) hap]
  obtain ⟨p, hp, rfl⟩ := taskTables_taskSpaces ht
  have hbss : k.kernelBss ∈ k.kernelMap := by simp [Link.kernelMap, Link.kernelSections, Link.ramSections]
  refine congrArg some (byteAt_congr (hmapped.memory _ fun htable => ?_))
  exact hinv.own_not_kernel hd hmaps hp hown hwalk hbss (Link.tables_held h htable)

theorem strb_eq (h : k.Linked) (hc : Configured c) (ht : t ∈ k.taskTables)
    (hwalk : walk m.mem t va = .smallPage pa domain attributes) (hap : permits attributes.ap false .store = true)
    (v : Word) : (taskCp15 c t).strb m.mem false v va = some (putByte v pa m.mem) := by
  have htranslate : (taskCp15 c t).translate m.mem false .store va = some pa :=
    (hc.uses (taskTables_table1s h ht)).translate hwalk hap
  rw [Cp15.strb, htranslate]
  rfl

/-- What the task stores, byte after byte: the flat memory before it is the one after it with the old bytes. -/
theorem UserInv.stores (hinv : UserInv h m0 m) (hc : Configured c) (hd : k.FramesDisjoint)
    (hmaps : ∀ p ∈ k.addressSpaces, Maps m0.mem p.1 p.2) (ht : t ∈ k.taskTables) (bytes : List Word)
    (hap : permits attributes.ap false .store = true)
    (hwalk : ∀ i < bytes.length,
      walk m.mem t (va + BitVec.ofNat 32 i) = .smallPage (pa + BitVec.ofNat 32 i) domain attributes)
    (hown : ∀ i < bytes.length, k.OwnPage (va + BitVec.ofNat 32 i)) :
    UserInv h m0 { m with mem := putBytes bytes pa m.mem } ∧
      ∀ μ, SeenAs k c t { m with mem := putBytes bytes pa m.mem } μ →
        ∃ μ0, SeenAs k c t m μ0 ∧ Flat.storeBytes bytes va μ0 = μ := by
  induction bytes generalizing m va pa with
  | nil => exact ⟨hinv, fun μ hseen => ⟨μ, hseen, rfl⟩⟩
  | cons v vs ih =>
    have hwalk0 := hwalk 0 (by simp)
    have hown0 := hown 0 (by simp)
    simp only [BitVec.add_zero] at hwalk0 hown0
    have hstrb := strb_eq h hc ht hwalk0 hap v
    have hstep : userStep k c true m (.store t va v) = some { m with mem := putByte v pa m.mem } := by
      rw [userStep, hstrb]
    have hallowed : (UserEvent.store t va v).Allowed true h m := by
      refine ⟨ht, fun _ hfault => ?_⟩
      rw [hwalk0] at hfault
      cases hfault
    obtain ⟨hinv1, hkeeps⟩ := hinv.step hc hd hmaps hallowed hstep
    have hnext (a : Word) (i : Nat) : a + 1#32 + BitVec.ofNat 32 i = a + BitVec.ofNat 32 (i + 1) := by
      rw [BitVec.add_assoc, Nat.add_comm i 1, BitVec.ofNat_add]
    have hwalk1 : ∀ i < vs.length, walk (putByte v pa m.mem) t (va + 1#32 + BitVec.ofNat 32 i) =
        .smallPage (pa + 1#32 + BitVec.ofNat 32 i) domain attributes := by
      intro i hi
      have hwalki := hwalk (i + 1) (Nat.succ_lt_succ hi)
      rw [hnext, hnext, ← hwalki]
      exact hkeeps t (taskTables_table1s h ht) _ (by rw [hwalki]; simp)
    have hown1 : ∀ i < vs.length, k.OwnPage (va + 1#32 + BitVec.ofNat 32 i) := by
      intro i hi
      rw [hnext]
      exact hown (i + 1) (Nat.succ_lt_succ hi)
    obtain ⟨hinv', hback⟩ := ih hinv1 hwalk1 hown1
    refine ⟨hinv', fun μ hseen => ?_⟩
    obtain ⟨μ1, hseen1, rfl⟩ := hback μ hseen
    obtain ⟨μ0, hseen0, rfl⟩ : ∃ μ0, SeenAs k c t m μ0 ∧ Function.update μ0 va (v &&& 0xFF#32) = μ1 :=
      Flat.Agrees.restore hseen1 hown0 ((hinv.separated hc true hd hmaps).stored t ht va v _ hstrb)
        fun va' hown' hne byte hread =>
          hinv.read_kept hc hd hmaps ht hallowed hstep (fun hstores => hne hstores.2.symm) hown' hread
    exact ⟨μ0, hseen0, rfl⟩

/-! ## Steps and runs -/

/-- An attempt on the tables is an instruction on the flat memory, or nothing there. -/
theorem Attempted.seen {th th' : Thread} (hattempted : Attempted h c mapping t (prog th) th m th' m')
    (hinv : UserInv h m0 m) (hc : Configured c) (hd : k.FramesDisjoint)
    (hmaps : ∀ p ∈ k.addressSpaces, Maps m0.mem p.1 p.2) (ht : t ∈ k.taskTables) :
    UserInv h m0 m' ∧ ∀ μ, SeenAs k c t m' μ →
      ∃ μ0, SeenAs k c t m μ0 ∧ Reaches (Flat.step prog) ⟨th, μ0⟩ ⟨th', μ⟩ := by
  have huses := hc.uses (taskTables_table1s h ht)
  generalize hinstr : prog th = instr at hattempted
  cases hattempted with
  | plain next at_instr =>
    refine ⟨hinv, fun μ hseen => ⟨μ, hseen, 1, ?_⟩⟩
    simp only [Function.iterate_one, Flat.step, hinstr, at_instr]
  | load va unit size next pa at_instr own fits aligned translated =>
    obtain ⟨domain, attributes, hwalk, hap⟩ := translate_some huses translated
    refine ⟨hinv, fun μ hseen => ⟨μ, hseen, 1, ?_⟩⟩
    have hbytes : readBytes μ va size = readBytes (byteAt m.mem) pa size :=
      Flat.Agrees.readBytes_eq hseen (fun i hi => ownPage_add own (by omega)) fun i hi =>
        userRead_eq huses (walk_add hwalk (by omega)) hap
    simp only [Function.iterate_one, Flat.step, hinstr, at_instr, if_pos aligned, hbytes]
  | store va unit bytes next pa at_instr own fits aligned translated =>
    obtain ⟨domain, attributes, hwalk, hap⟩ := translate_some huses translated
    obtain ⟨hinv', hback⟩ := hinv.stores hc hd hmaps ht bytes hap
      (fun i hi => walk_add hwalk (by omega)) fun i hi => ownPage_add own (by omega)
    refine ⟨hinv', fun μ hseen => ?_⟩
    obtain ⟨μ0, hseen0, rfl⟩ := hback μ hseen
    refine ⟨μ0, hseen0, 1, ?_⟩
    simp only [Function.iterate_one, Flat.step, hinstr, at_instr, if_pos aligned]
  | abort va unit rw at_instr own aligned aborts room =>
    obtain ⟨hinv', hmapped⟩ := hinv.abort fun hmapping hfault => room ⟨hmapping, hfault⟩
    refine ⟨hinv', fun μ hseen => ⟨μ, hseen.mono ?_, .refl⟩⟩
    exact fun va hown byte hread => hmapped.read_kept hinv hc hd hmaps ht hown hread
  | unaligned va unit rw at_instr unaligned => exact ⟨hinv, fun μ hseen => ⟨μ, hseen, .refl⟩⟩

/-- The task is in user mode, and ABT mode has its whole stack. -/
structure TaskInv (h : k.Linked) (m0 : Mmu) (L : AbortLayout) (t : Nat) (x : Aborted) : Prop where
  memory : UserInv h m0 x.mmu
  user : UserThread t (thread x.cpu)
  stack : x.cpu.sp .abt = addrOf L.stackTop

/-- The thread, and what it sees of memory -/
def SeesFlat (k : Link) (c : Cp15) (t : Nat) (x : Aborted) (f : Flat Thread) : Prop :=
  f.thread = thread x.cpu ∧ SeenAs k c t x.mmu f.memory

theorem TaskInv.step (hinv : TaskInv h m0 L t x) (hL : L.Of k) (hprog : Unprivileged t prog) (hc : Configured c)
    (hd : k.FramesDisjoint) (hmaps : ∀ p ∈ k.addressSpaces, Maps m0.mem p.1 p.2) (ht : t ∈ k.taskTables)
    {e : TaskEvent} (hallowed : TaskEvent.Allowed c L prog h t x e) (hstep : taskStep k c L prog x e = some x') :
    TaskInv h m0 L t x' ∧ ∀ f', SeesFlat k c t x' f' →
      ∃ f, SeesFlat k c t x f ∧ Reaches (Flat.step prog) f f' := by
  cases e with
  | attempt env dfsr =>
    obtain ⟨hattempted, huser, hstack⟩ :=
      attempt_spec hL hc hprog hinv.user hinv.stack hallowed (Option.some.inj hstep).symm
    refine ⟨⟨(hattempted.seen hinv.memory hc hd hmaps ht).1, huser, hstack⟩, ?_⟩
    rintro ⟨th', μ⟩ ⟨rfl, hseen⟩
    obtain ⟨μ0, hseen0, hreach⟩ := (hattempted.seen hinv.memory hc hd hmaps ht).2 μ hseen
    exact ⟨⟨thread x.cpu, μ0⟩, ⟨rfl, hseen0⟩, hreach⟩
  | elsewhere e =>
    obtain ⟨mmu, hmmu, rfl⟩ := Option.map_eq_some_iff.1 hstep
    refine ⟨⟨(hinv.memory.step hc hd hmaps hallowed.1 hmmu).1, hinv.user, hinv.stack⟩, ?_⟩
    rintro ⟨th', μ⟩ ⟨rfl, hseen⟩
    refine ⟨⟨thread x.cpu, μ⟩, ⟨rfl, hseen.mono ?_⟩, .refl⟩
    exact fun va hown byte hread => hinv.memory.read_kept hc hd hmaps ht hallowed.1 hmmu (hallowed.2 va) hown hread

end

end

/-- The next instruction, of those that are not 16-bit ones -/
def nextPc (th : Thread) : Word := alignPc th.cpsr (th.pc + 4)

/-- A task that stores a byte and then loads it, over and over -/
def exampleProgram : Program Thread := fun th =>
  if th.r 0 = 0 then .store 0x80500010 1 [7] { th with r := Function.update th.r 0 1, pc := nextPc th }
  else .load 0x80500010 1 1 fun bytes => { th with r := Function.update th.r 1 (bytes.headD 0), pc := nextPc th }

theorem alignPc_alignPc (psr : Psr) (a : Word) : alignPc psr (alignPc psr a) = alignPc psr a := by
  unfold alignPc
  split_ifs <;> rw [BitVec.and_assoc, BitVec.and_self]

theorem exampleProgram_unprivileged (t : Nat) : Unprivileged t exampleProgram := by
  intro th hth
  have hnext (r : Fin 13 → Word) : UserThread t { th with r := r, pc := nextPc th } :=
    ⟨hth.mode, alignPc_alignPc .., hth.ttbr0⟩
  unfold exampleProgram
  split_ifs with h0
  · exact ⟨by decide, hnext _⟩
  · exact ⟨by decide, fun bytes => hnext _⟩

def exampleTaskLayout (mapping : Bool) : AbortLayout :=
  { exampleAbortLayout with symbols := exampleLink.mmuSymbols, testing := false, mapping := mapping }

/-- The first task, after the boot -/
def exampleTask (m : Mmu) : Aborted where
  cpu := { exampleMapper.cpu with
    r := fun _ => 0, cpsr := Psr.ofWord 0x10, ttbr0 := addrOf exampleLink.task1.table1 }
  mmu := m
  dfsr := 0
  dfar := 0
  ifsr := 0
  ifar := 0

theorem exampleTask_user (m : Mmu) : UserThread exampleLink.task1.table1 (thread (exampleTask m).cpu) := by
  have haligned : alignPc (Psr.ofWord 0x10) 0x9000 = 0x9000 := by decide
  exact ⟨rfl, haligned, rfl⟩

/-- On a flat memory the task loads what it has stored. -/
theorem exampleProgram_flat {f f' : Flat Thread} (h0 : f.thread.r = fun _ => 0)
    (hreach : Reaches (Flat.step exampleProgram) f f') : f'.thread.r 1 = 0 ∨ f'.thread.r 1 = 7 := by
  obtain ⟨n, rfl⟩ := hreach
  have hstore (g : Flat Thread) (hr0 : g.thread.r 0 = 0) : Flat.step exampleProgram g =
      ⟨{ g.thread with r := Function.update g.thread.r 0 1, pc := nextPc g.thread },
        Function.update g.memory 0x80500010 7⟩ := by
    rw [Flat.step, exampleProgram, if_pos hr0]
    simp only [if_pos (Nat.one_dvd _)]
    rfl
  have hload (g : Flat Thread) (hr0 : g.thread.r 0 ≠ 0) : Flat.step exampleProgram g =
      { g with thread := { g.thread with
        r := Function.update g.thread.r 1 (g.memory 0x80500010), pc := nextPc g.thread } } := by
    rw [Flat.step, exampleProgram, if_neg hr0]
    simp only [if_pos (Nat.one_dvd _)]
    rfl
  have hall : ∀ n, let g := (Flat.step exampleProgram)^[n] f
      (g.thread.r 0 = 0 ∨ g.memory 0x80500010 = 7) ∧ (g.thread.r 1 = 0 ∨ g.thread.r 1 = 7) := by
    intro n
    induction n with
    | zero => exact ⟨.inl (congrFun h0 0), .inl (congrFun h0 1)⟩
    | succ n ih =>
      rw [Function.iterate_succ_apply']
      generalize (Flat.step exampleProgram)^[n] f = g at ih ⊢
      by_cases hr0 : g.thread.r 0 = 0
      · rw [hstore g hr0]
        exact ⟨.inr (by simp), by simpa using ih.2⟩
      · rw [hload g hr0]
        have hmem := ih.1.resolve_left hr0
        exact ⟨.inr hmem, .inr (by simpa using hmem)⟩
  exact (hall n).2

section
variable {k : Link} {c : Cp15} {L : AbortLayout} {prog : Program Thread} {h : k.Linked} {m0 m m' : Mmu} {t : Nat}
  {va pa : Word} {unit : Nat} {rw : Access} {x x' : Aborted} {mapping : Bool}

/-! ## The instruction that is executed again -/

/-- The table permits the access. -/
def Permitted (c : Cp15) (t : Nat) (va : Word) (rw : Access) (m : Mmu) : Prop :=
  (taskCp15 c t).translate m.mem false rw va ≠ none

/-- The access is executed at the next attempt. -/
def Goes (c : Cp15) (t : Nat) (va : Word) (unit : Nat) (rw : Access) (m : Mmu) : Prop :=
  accessPa (taskCp15 c t) m.mem rw va unit ≠ none

theorem goes_iff (hc : Configured c) : Goes c t va unit rw m ↔ unit ∣ va.toNat ∧ Permitted c t va rw m := by
  unfold Goes Permitted
  rw [accessPa_eq hc]
  split_ifs with haligned
  · simp [haligned]
  · simp [haligned]

theorem userAbort_same (hnot : ¬ Mappable mapping m t va) : userAbort k mapping t va rw m = m := by
  unfold userAbort
  cases mapping with
  | false => rfl
  | true =>
    have hwalk : walk m.mem t va ≠ .fault := fun hfault => hnot ⟨rfl, hfault⟩
    rw [if_pos rfl, userFault, if_neg hwalk]
    cases rw <;> rfl

theorem userAbort_permitted (hinv : UserInv h m0 m) (hc : Configured c) (hmappable : Mappable mapping m t va)
    (hroom : (k.pageTables h).Allowed m (.abort t va rw)) : Permitted c t va rw (userAbort k mapping t va rw m) := by
  obtain ⟨rfl, hfault⟩ := hmappable
  obtain ⟨m1, pa, hhandled, -, hexclusive, -⟩ := hinv.owned.demand false hroom hfault
  have heq : userAbort k true t va rw m = m1 := by
    rw [userAbort, if_pos rfl, userFault, if_pos hfault, Link.mmuSymbols_eq h, hhandled]
  have htranslate := hexclusive.accessible (taskCp15 c t) (hc.uses hroom.1) false rw
  unfold Permitted
  rw [heq, htranslate]
  simp

/-- Without ENABLE_MEMORY_MAPPING_FROM_ABORT nothing writes to the tables after the boot. -/
theorem UserInv.walk_same (hinv : UserInv h m0 m) (hc : Configured c) (hd : k.FramesDisjoint)
    (hmaps : ∀ p ∈ k.addressSpaces, Maps m0.mem p.1 p.2) {e : UserEvent} (hallowed : e.Allowed false h m)
    (hstep : userStep k c false m e = some m') (ht : t ∈ k.taskTables) : walk m'.mem t va = walk m.mem t va := by
  have htable := taskTables_table1s h ht
  cases e with
  | store t' va' v =>
    simp only [userStep] at hstep
    split at hstep
    · rename_i mem hmem
      obtain ⟨pa, htranslate, rfl⟩ := Option.map_eq_some_iff.1 hmem
      obtain ⟨p, hp, rfl⟩ := taskTables_taskSpaces hallowed.1
      obtain ⟨domain, attributes, hwalk, hap⟩ :=
        translate_some (hc.uses (taskTables_table1s h hallowed.1)) htranslate
      obtain rfl := Option.some.inj hstep
      exact hinv.owned.inv.walk_congr htable
        (hinv.store_tables hd hmaps (taskSpaces_addressSpaces hp) hwalk hap v)
    · obtain rfl := Option.some.inj hstep
      rfl
  | load t' va' =>
    simp only [userStep] at hstep
    split at hstep
    · obtain rfl := Option.some.inj hstep
      rfl
    · obtain rfl := Option.some.inj hstep
      rfl
  | kernel i v =>
    obtain rfl := Option.some.inj hstep
    have hmem : ∀ j, (k.pageTables h).Tables j → Function.update m.mem i v j = m.mem j := by
      intro j hj
      refine Function.update_of_ne ?_ ..
      rintro rfl
      exact hallowed.2 hj
    exact hinv.owned.inv.walk_congr htable hmem

theorem permitted_congr (h : k.Linked) (hc : Configured c) (ht : t ∈ k.taskTables)
    (hwalk : walk m'.mem t va = walk m.mem t va) : Permitted c t va rw m' ↔ Permitted c t va rw m := by
  have huses : (taskCp15 c t).Uses t := hc.uses (taskTables_table1s h ht)
  unfold Permitted Cp15.translate
  rw [huses.table1, hwalk]

/-- The access aborts, and no page is mapped for it. -/
def Stuck (c : Cp15) (mapping : Bool) (t : Nat) (va : Word) (unit : Nat) (rw : Access) (m : Mmu) : Prop :=
  ¬ (unit ∣ va.toNat ∧ (Permitted c t va rw m ∨ Mappable mapping m t va))

/-- Nothing that uses memory while the task is switched out helps it. -/
theorem Stuck.elsewhere (hstuck : Stuck c mapping t va unit rw m) (hinv : UserInv h m0 m) (hc : Configured c)
    (hd : k.FramesDisjoint) (hmaps : ∀ p ∈ k.addressSpaces, Maps m0.mem p.1 p.2) (ht : t ∈ k.taskTables) {e : UserEvent}
    (hallowed : e.Allowed mapping h m) (hstep : userStep k c mapping m e = some m') :
    Stuck c mapping t va unit rw m' := by
  rintro ⟨haligned, hgoes⟩
  have hnot : ¬ (Permitted c t va rw m ∨ Mappable mapping m t va) := fun hor => hstuck ⟨haligned, hor⟩
  have hwalk : walk m'.mem t va = walk m.mem t va := by
    cases mapping with
    | false => exact hinv.walk_same hc hd hmaps hallowed hstep ht
    | true =>
      refine (hinv.step hc hd hmaps hallowed hstep).2 t (taskTables_table1s h ht) va fun hfault => ?_
      exact hnot (.inr ⟨rfl, hfault⟩)
  unfold Mappable at hnot hgoes
  rw [permitted_congr h hc ht hwalk, hwalk] at hgoes
  exact hnot hgoes

/-- Neither do further attempts. -/
theorem Attempted.stuck {th th' : Thread} {instr : Instr Thread}
    (hattempted : Attempted h c mapping t instr th m th' m') (haccess : accessed instr = some (va, unit, rw))
    (hstuck : Stuck c mapping t va unit rw m) : th' = th ∧ m' = m := by
  have hnone (pa : Word) (haligned : unit ∣ va.toNat) : (taskCp15 c t).translate m.mem false rw va ≠ some pa := by
    intro hsome
    refine hstuck ⟨haligned, .inl ?_⟩
    unfold Permitted
    rw [hsome]
    simp
  cases hattempted with
  | plain next at_instr =>
    rw [at_instr] at haccess
    cases haccess
  | load va' unit' size next pa at_instr own fits aligned translated =>
    rw [at_instr] at haccess
    cases haccess
    exact absurd translated (hnone pa aligned)
  | store va' unit' bytes next pa at_instr own fits aligned translated =>
    rw [at_instr] at haccess
    cases haccess
    exact absurd translated (hnone pa aligned)
  | abort va' unit' rw' at_instr own aligned aborts room =>
    cases haccess.symm.trans at_instr
    exact ⟨rfl, userAbort_same fun hmappable => hstuck ⟨aligned, .inr hmappable⟩⟩
  | unaligned va' unit' rw' at_instr unaligned => exact ⟨rfl, rfl⟩

theorem TaskInv.stuck (hinv : TaskInv h m0 L t x) (hL : L.Of k) (hprog : Unprivileged t prog) (hc : Configured c)
    (hd : k.FramesDisjoint) (hmaps : ∀ p ∈ k.addressSpaces, Maps m0.mem p.1 p.2) (ht : t ∈ k.taskTables)
    (haccess : accessed (prog (thread x.cpu)) = some (va, unit, rw)) (hstuck : Stuck c L.mapping t va unit rw x.mmu)
    (hrun : Run (taskStep k c L prog) (TaskEvent.Allowed c L prog h t) x x') :
    thread x'.cpu = thread x.cpu ∧ Stuck c L.mapping t va unit rw x'.mmu := by
  have hall := hrun.invariant (P := fun y => TaskInv h m0 L t y ∧ thread y.cpu = thread x.cpu ∧
    Stuck c L.mapping t va unit rw y.mmu) ⟨hinv, rfl, hstuck⟩ ?_
  · exact hall.2
  · rintro y e y' ⟨hy, hthread, hstuck⟩ hallowed hstep
    refine ⟨(hy.step hL hprog hc hd hmaps ht hallowed hstep).1, ?_⟩
    cases e with
    | attempt env dfsr =>
      obtain ⟨hattempted, -, -⟩ := attempt_spec hL hc hprog hy.user hy.stack hallowed (Option.some.inj hstep).symm
      rw [hthread] at hattempted
      obtain ⟨hthread', hmmu⟩ := hattempted.stuck haccess hstuck
      rw [hmmu]
      exact ⟨hthread', hstuck⟩
    | elsewhere e =>
      obtain ⟨mmu, hmmu, rfl⟩ := Option.map_eq_some_iff.1 hstep
      exact ⟨hthread, hstuck.elsewhere hy.memory hc hd hmaps ht hallowed.1 hmmu⟩

/-- The abort that a page is mapped for: after it the access is executed. -/
theorem TaskInv.retried (hinv : TaskInv h m0 L t x) (hL : L.Of k) (hc : Configured c) {env : AbortEnv} {dfsr : Word}
    (haccess : accessed (prog (thread x.cpu)) = some (va, unit, rw)) (haligned : unit ∣ va.toNat)
    (haborts : ¬ Permitted c t va rw x.mmu) (hmappable : Mappable L.mapping x.mmu t va)
    (hallowed : TaskEvent.Allowed c L prog h t x (.attempt env dfsr)) :
    thread (attempt c L prog env dfsr x).cpu = thread x.cpu ∧
      Goes c t va unit rw (attempt c L prog env dfsr x).mmu := by
  have hnone : accessPa (taskCp15 c t) x.mmu.mem rw va unit = none := by
    by_contra hne
    exact haborts ((goes_iff hc).1 hne).2
  have hreports := (hallowed va unit rw haccess).2
  rw [cp15_eq hinv.user] at hreports
  obtain ⟨hreported, hroom⟩ := hreports hnone
  obtain ⟨hthread, hmmu, -⟩ := abort_spec hL env hinv.user hinv.stack hreported
  rw [attempt_eq_abort hinv.user haccess hnone, hthread, hmmu, if_pos haligned, goes_iff hc]
  exact ⟨rfl, haligned, userAbort_permitted hinv.memory hc hmappable (hroom haligned hmappable)⟩

/-- Some value of DFSR reports each abort. -/
theorem exists_reports (m : Mmu) (t : Nat) (va : Word) (unit : Nat) (rw : Access) :
    ∃ dfsr, Reports dfsr m t va unit rw := by
  unfold Reports accessFault userFault translationFault
  cases rw with
  | load =>
    split_ifs
    · exact ⟨0x5, rfl, rfl⟩
    · exact ⟨0x7, rfl, rfl⟩
    · exact ⟨0xF, rfl, rfl⟩
    · exact ⟨0x1, rfl, rfl⟩
  | store =>
    split_ifs
    · exact ⟨0x805, rfl, rfl⟩
    · exact ⟨0x807, rfl, rfl⟩
    · exact ⟨0x80F, rfl, rfl⟩
    · exact ⟨0x801, rfl, rfl⟩

end

theorem exampleLink_ownPage : exampleLink.OwnPage 0x80500010 := by
  unfold Link.OwnPage
  decide +kernel

end Td3.Kernel
