/-
From reset to `main` (`_start`, kernel/startup.S): the kernel copies itself to RAM, fills the tables of all
address spaces and loads the tasks. Whatever RAM holds at reset, it returns, and what the results about a
booted system assume of memory is then so: each address space, each image and each slot of the scheduler.

The stack pointers of the modes and `neon_init`, which set registers that no access depends on, are left out.
-/
import Td3.Kernel.CleanStart
import Td3.Kernel.Isolation
import Td3.Kernel.KernelCopy

namespace Td3.Kernel

open Arm SectionDesc PageTables

/-! ## The function -/

/-- `_start` before it branches to `main`, each of its loops run for `n` steps; `c` are the registers at reset.
From `mmu_init` on, the counters that `.kernel_data` has are variables apart from memory. -/
def start (k : Link) (l : KernelLma) (c : Cp15) (n : Nat) (mem : Nat → Word) : Option Boot :=
  (copyKernelSectionsToRam k l c n mem).bind fun mem =>
    (mmuInit k n ⟨⟨mem, mem l.wTable2Qtty, mem l.wRamUsedPages⟩, c⟩).bind (prvTaskInit k n)

/-! ## The contexts -/

section
variable {L : Layout} {sym : Symbols} {mem mem' : Nat → Word} {w : Nat}

/-- A call of `__scheduler_add_task` reads no memory but the contexts. -/
theorem schedulerAddTaskFrom_congr (h : ∀ w, L.Context w → mem' w = mem w) (entrypoint stackTop table1Addr : Word)
    (i : Nat) (hw : L.Context w) : (schedulerAddTaskFrom L sym entrypoint stackTop table1Addr mem' i).2 w =
      (schedulerAddTaskFrom L sym entrypoint stackTop table1Addr mem i).2 w := by
  have hpc {i : Nat} (hi : i < SCHEDULER_MAX_TASKS) : mem' (L.word i 18) = mem (L.word i 18) := by
    apply h
    unfold Layout.Context Layout.word
    unfold contextWords SCHEDULER_MAX_TASKS at *
    omega
  fun_induction schedulerAddTaskFrom L sym entrypoint stackTop table1Addr mem i with
  | case1 i hi hfree mem1 spsr mem2 mem3 =>
    rw [schedulerAddTaskFrom, dif_pos hi, if_pos ((hpc hi).trans hfree)]
    simp only [Function.update_apply, mem1, mem2, mem3, spsr, h w hw, dite_eq_ite]
  | case2 i hi htaken ih =>
    rw [schedulerAddTaskFrom, dif_pos hi, if_neg ((hpc hi).symm ▸ htaken)]
    exact ih
  | case3 i hi =>
    rw [schedulerAddTaskFrom, dif_neg hi]
    exact h w hw

theorem context_of_congr (h : ∀ w, L.Context w → mem' w = mem w) {slot : Nat} (hs : slot < SCHEDULER_MAX_TASKS) :
    L.context mem' slot = L.context mem slot := by
  refine Layout.context_congr ?_
  intro w hw
  apply h
  unfold Layout.Slot Layout.word at hw
  unfold Layout.Context
  unfold contextWords SCHEDULER_MAX_TASKS at *
  omega

variable (sym) in
/-- The call takes slot `i` if it gets there and the slot is free. -/
theorem schedulerAddTaskFrom_free (args : AddArgs) {i : Nat} (hi : i < SCHEDULER_MAX_TASKS)
    (hfree : mem (L.word i 18) = sym.prvIdleTask + 4) :
    (∀ f : Field, (schedulerAddTaskFrom L sym args.entrypoint args.stackTop args.table1Addr mem i).2
      (L.word i f.word) = args.value f) ∧
    ∀ slot, slot ≠ i → ∀ f : Field, (schedulerAddTaskFrom L sym args.entrypoint args.stackTop args.table1Addr mem i).2
      (L.word slot f.word) = mem (L.word slot f.word) := by
  have hword {slot b : Nat} {f : Field} (hb : b < contextWords) : L.word slot f.word = L.word i b ↔
      slot = i ∧ f.word = b := word_eq (by cases f <;> decide) hb
  rw [schedulerAddTaskFrom, dif_pos hi, if_pos hfree]
  simp (disch := decide) only [Function.update_apply, hword]
  constructor
  · intro f
    cases f <;> simp [Field.word, AddArgs.value]
  · intro slot hne f
    simp [hne]

variable (L sym) in
/-- Two calls after `__scheduler_init` put their tasks into the first two slots, and leave the idle task in the
others. -/
theorem schedulerAddTask_twice (mem : Nat → Word) (args1 args2 : AddArgs)
    (hidle : args1.entrypoint ≠ sym.prvIdleTask) (f : Field) :
    (schedulerAddTask L sym args2.entrypoint args2.stackTop args2.table1Addr (schedulerAddTask L sym args1.entrypoint
      args1.stackTop args1.table1Addr (schedulerInit L sym mem)).2).2 (L.word 0 f.word) = args1.value f ∧
    (schedulerAddTask L sym args2.entrypoint args2.stackTop args2.table1Addr (schedulerAddTask L sym args1.entrypoint
      args1.stackTop args1.table1Addr (schedulerInit L sym mem)).2).2 (L.word 1 f.word) = args2.value f ∧
    ∀ slot, 2 ≤ slot → slot < SCHEDULER_MAX_TASKS →
      (schedulerAddTask L sym args2.entrypoint args2.stackTop args2.table1Addr (schedulerAddTask L sym args1.entrypoint
        args1.stackTop args1.table1Addr (schedulerInit L sym mem)).2).2 (L.word slot f.word) = idleValue sym f := by
  have h0 : (0 : Nat) < SCHEDULER_MAX_TASKS := by decide
  have h1 : (1 : Nat) < SCHEDULER_MAX_TASKS := by decide
  have hfree (slot : Nat) (hs : slot < SCHEDULER_MAX_TASKS) :
      schedulerInit L sym mem (L.word slot 18) = sym.prvIdleTask + 4 := schedulerInit_free hs mem
  obtain ⟨hadded1, hother1⟩ := schedulerAddTaskFrom_free sym args1 h0 (hfree 0 h0)
  obtain ⟨hadded2, hother2⟩ := schedulerAddTaskFrom_free sym args2 h1 ((hother1 1 (by decide) .pc).trans
    (hfree 1 h1))
  have htaken : (schedulerAddTask L sym args1.entrypoint args1.stackTop args1.table1Addr
      (schedulerInit L sym mem)).2 (L.word 0 18) ≠ sym.prvIdleTask + 4 := by
    intro heq
    exact hidle ((BitVec.add_left_inj 4).1 ((hadded1 .pc).symm.trans heq))
  rw [schedulerAddTask, schedulerAddTaskFrom, dif_pos h0, if_neg htaken]
  refine ⟨(hother2 0 (by decide) f).trans (hadded1 f), hadded2 f, ?_⟩
  intro slot hle hs
  exact (hother2 slot (by omega) f).trans ((hother1 slot (by omega) f).trans (schedulerInit_field hs f))

end

section
variable {k : Link} {h : k.Linked} {maps : Nat → List SectionDesc} {q t c : Nat} {rom : Nat → Word} {b b' : Boot}

/-- Filling a table writes to the tables only. -/
theorem fill_keeps (hd : k.KernelApart) (hheld : Held k h maps q rom b.mmu)
    (ht : t ∈ [k.kernelTable1, k.task1.table1, k.task2.table1]) {p : Nat × List SectionDesc} (hp : p ∈ k.sectionTables)
    (hcard : (megabytesOf p.2).card ≤ c) (hroom : q + c ≤ 3 * TABLE2_QTTY)
    (hrun : Returns (fun n => b.fill k n p.1 p.2 t) b') {w : Nat} (hw : ¬ (k.pageTables h).Tables w) :
    b'.mmu.mem w = b.mmu.mem w := by
  obtain ⟨n, m', hfill, -, hmemory⟩ := hheld.spaces.fill ht (Link.sectionTable h hd hheld.described hp)
    ((Nat.add_le_add_left hcard q).trans hroom)
  have hreturns : Returns (fun n => mmuFillPageTables k.mmuSymbols (addrOf p.1) (addrOf (p.1 + 4 * p.2.length))
      (addrOf t) n b.mmu) m' := by
    rw [Link.mmuSymbols_eq h]
    exact ⟨n, hfill⟩
  rw [hrun.unique (hreturns.map fun mmu => Boot.mk mmu b.cp15)]
  exact hmemory w hw

theorem fillTask_keeps (hd : k.KernelApart) (T : k.Task) (hr : Ready k h maps q t rom b)
    (hroom : q + 38 ≤ 3 * TABLE2_QTTY) (hrun : Returns (fun n => fillTask k n T.link T.sections b) b') {w : Nat}
    (hw : ¬ (k.pageTables h).Tables w) : b'.mmu.mem w = b.mmu.mem w := by
  have hkernel : (k.kernelSectionsAddr, k.kernelSections) ∈ k.sectionTables := List.mem_cons_self
  have hhardware : (k.hardwareSectionsAddr, hardwareSections) ∈ k.sectionTables :=
    List.mem_cons_of_mem _ List.mem_cons_self
  obtain ⟨m1, hrun1, hheld1, -⟩ :=
    fill_spec hd hr.held T.table1 hkernel (Link.kernelSections_megabytes h) (by omega)
  obtain ⟨m2, hrun2, hheld2, -⟩ :=
    fill_spec (b := { b with mmu := m1 }) hd hheld1 T.table1 hhardware Link.hardwareSections_megabytes (by omega)
  obtain ⟨m3, hrun3, -, -⟩ :=
    fill_spec (b := { b with mmu := m2 }) hd hheld2 T.table1 T.described T.sections_megabytes (by omega)
  rw [hrun.unique (hrun1.bind (hrun2.bind hrun3))]
  calc m3.mem w = m2.mem w := fill_keeps hd hheld2 T.table1 T.described T.sections_megabytes (by omega) hrun3 hw
    _ = m1.mem w := fill_keeps hd hheld1 T.table1 hhardware Link.hardwareSections_megabytes (by omega) hrun2 hw
    _ = b.mmu.mem w := fill_keeps hd hr.held T.table1 hkernel (Link.kernelSections_megabytes h) (by omega) hrun1 hw

/-- Copying the sections of a task leaves the contexts to `__scheduler_add_task`. -/
theorem loadTask_contexts (hd : k.KernelApart) (hr : Ready k h maps q t rom b) (T : k.Task)
    (hmaps : maps T.link.table1 = k.taskMap T.sections) (hrun : Returns (fun n => loadTask k n T.link b) b') {w : Nat}
    (hw : k.layout.Context w) : b'.mmu.mem w = (schedulerAddTask k.layout k.symbols T.link.entrypoint T.link.stackTop
      (addrOf T.link.table1) b.mmu.mem).2 w := by
  have hu : (b.writeTtbr0 (addrOf T.link.table1)).cp15.Uses T.link.table1 := hr.configured.uses (h := h) T.table1
  obtain ⟨mem1, hcopy, -, -, hframe⟩ := copyTask_spec hd hr.held T hmaps hu
  rw [hrun.unique (hcopy.map fun mem => (b.writeTtbr0 (addrOf T.link.table1)).setMem
    (schedulerAddTask k.layout k.symbols T.link.entrypoint T.link.stackTop (addrOf T.link.table1) mem).2)]
  refine schedulerAddTaskFrom_congr ?_ _ _ _ 0 hw
  intro w hw
  exact hframe w fun s hs => T.kernel_not_held hs (.inl (Link.context_held h hw))

/-- The memory after `prv_task_init`: the pages of the kernel but its `.bss` are as before, and the contexts are
those of two calls of `__scheduler_add_task` after `__scheduler_init`. -/
theorem prvTaskInit_memory (hd : k.KernelApart) (hr : Ready k h maps q k.kernelTable1 rom b)
    (hempty1 : maps k.task1.table1 = []) (hempty2 : maps k.task2.table1 = []) (hroom : q + 76 ≤ 3 * TABLE2_QTTY)
    (hrun : Returns (fun n => prvTaskInit k n b) b') :
    (∀ w, ¬ k.kernelBss.Holds w → (∀ s ∈ k.task1Sections ++ k.task2Sections, ¬ s.Holds w) →
      b'.mmu.mem w = b.mmu.mem w) ∧
    ∀ w, k.layout.Context w → b'.mmu.mem w =
      (schedulerAddTask k.layout k.symbols k.task2.entrypoint k.task2.stackTop (addrOf k.task2.table1)
        (schedulerAddTask k.layout k.symbols k.task1.entrypoint k.task1.stackTop (addrOf k.task1.table1)
          (schedulerInit k.layout k.symbols b.mmu.mem)).2).2 w := by
  have hne : k.task2.table1 ≠ k.task1.table1 := by
    have hdistinct := h.distinct
    simp only [List.nodup_cons, List.mem_cons, List.not_mem_nil, or_false] at hdistinct
    exact fun heq => hdistinct.2.1 heq.symm
  let T1 := Link.firstTask h hd
  let T2 := Link.secondTask h hd
  have hinit : Ready k h maps q k.kernelTable1 rom (b.setMem (schedulerInit k.layout k.symbols b.mmu.mem)) :=
    hr.setContexts hd fun w hw => schedulerInit_of_not hw b.mmu.mem
  obtain ⟨m1, hrun1, hready1, hframe1⟩ := fillTask_spec hd T1 hinit hempty1 (by omega)
  obtain ⟨b2, hrun2, hready2, -, hframe2⟩ := loadTask_spec hd hready1 T1 (Function.update_self ..)
  obtain ⟨m3, hrun3, hready3, hframe3⟩ :=
    fillTask_spec hd T2 hready2 ((Function.update_of_ne hne ..).trans hempty2) (by omega)
  obtain ⟨b4, hrun4, -, -, hframe4⟩ := loadTask_spec hd hready3 T2 (Function.update_self ..)
  rw [hrun.unique (hrun1.bind (hrun2.bind (hrun3.bind (hrun4.map (Boot.writeTtbr0 (addrOf k.kernelTable1))))))]
  constructor
  · intro w hbss hsections
    calc b4.mmu.mem w = m3.mem w := hframe4 w hbss fun s hs => hsections s (List.mem_append_right _ hs)
      _ = b2.mmu.mem w := hframe3 w hbss
      _ = m1.mem w := hframe2 w hbss fun s hs => hsections s (List.mem_append_left _ hs)
      _ = schedulerInit k.layout k.symbols b.mmu.mem w := hframe1 w hbss
      _ = b.mmu.mem w := schedulerInit_of_not (fun hcontext => hbss (Link.context_held h hcontext)) b.mmu.mem
  · -- the tables that are filled in between are not the contexts
    have hfill1 : ∀ w, k.layout.Context w → m1.mem w = schedulerInit k.layout k.symbols b.mmu.mem w := fun w hw =>
      fillTask_keeps hd T1 hinit (by omega) hrun1 (Link.context_not_table h hw)
    have hload1 : ∀ w, k.layout.Context w → b2.mmu.mem w = (schedulerAddTask k.layout k.symbols k.task1.entrypoint
        k.task1.stackTop (addrOf k.task1.table1) (schedulerInit k.layout k.symbols b.mmu.mem)).2 w := fun w hw =>
      (loadTask_contexts hd hready1 T1 (Function.update_self ..) hrun2 hw).trans
        (schedulerAddTaskFrom_congr hfill1 _ _ _ 0 hw)
    have hfill2 : ∀ w, k.layout.Context w → m3.mem w = (schedulerAddTask k.layout k.symbols k.task1.entrypoint
        k.task1.stackTop (addrOf k.task1.table1) (schedulerInit k.layout k.symbols b.mmu.mem)).2 w := fun w hw =>
      (fillTask_keeps hd T2 hready2 (by omega) hrun3 (Link.context_not_table h hw)).trans (hload1 w hw)
    intro w hw
    exact (loadTask_contexts hd hready3 T2 (Function.update_self ..) hrun4 hw).trans
      (schedulerAddTaskFrom_congr hfill2 _ _ _ 0 hw)

end

/-! ## From reset -/

/-- The arguments `prv_task_init` adds a task with -/
def TaskLink.addArgs (task : TaskLink) : AddArgs := ⟨task.entrypoint, task.stackTop, addrOf task.table1⟩

/-- The system when `_start` branches to `main`, where `rom` is the memory at reset: the kernel's images are in
RAM, the counters apart, every table translates as its sections say, each task reads its own images, and the
scheduler has the tasks in its first two slots. -/
structure AtMain (k : Link) (l : KernelLma) (rom : Nat → Word) (b : Boot) : Prop where
  images : ∀ p ∈ k.images l, ∀ i < p.1.size.toNat,
    wordIndex (p.1.vma + BitVec.ofNat 32 i) ∉ [l.wTable2Qtty, l.wRamUsedPages] →
      byteAt b.mmu.mem (p.1.vma + BitVec.ofNat 32 i) = byteAt rom (p.2 + BitVec.ofNat 32 i)
  spaces : ∀ p ∈ k.addressSpaces, Maps b.mmu.mem p.1 p.2
  configured : Configured b.cp15
  task1 : ReadsImages b k.task1 rom
  task2 : ReadsImages b k.task2 rom
  prepared : ∃ mem, Prepared k.layout k.symbols mem ∧
    ∀ slot, slot < SCHEDULER_MAX_TASKS → k.layout.context b.mmu.mem slot = k.layout.context mem slot
  slot0 : ∀ f : Field, b.mmu.mem (k.layout.word 0 f.word) = k.task1.addArgs.value f
  slot1 : ∀ f : Field, b.mmu.mem (k.layout.word 1 f.word) = k.task2.addArgs.value f
  idle : ∀ slot, 2 ≤ slot → slot < SCHEDULER_MAX_TASKS → ∀ f : Field,
    b.mmu.mem (k.layout.word slot f.word) = idleValue k.symbols f

section
variable {k : Link} {l : KernelLma} {c : Cp15} {rom : Nat → Word}

theorem ReadsImages.congr {b : Boot} {task : TaskLink} {rom' : Nat → Word} (hreads : ReadsImages b task rom)
    (h : k.Linked) {origin : Word} (hlinked : task.Linked origin) (hrom : ∀ w, k.RomWord w → rom w = rom' w) :
    ReadsImages b task rom' := by
  have hbyte {lma size : Word} (hlma : InRom lma size) {i : Nat} (hi : i < size.toNat) :
      byteAt rom (lma + BitVec.ofNat 32 i) = byteAt rom' (lma + BitVec.ofNat 32 i) :=
    byteAt_congr (hrom _ (Link.romWord_byte h hlma hi))
  refine ⟨?_, ?_, ?_, hreads.bss⟩
  · intro i hi
    rw [hreads.text i hi, hbyte hlinked.textLma hi]
  · intro i hi
    rw [hreads.data i hi, hbyte hlinked.dataLma hi]
  · intro i hi
    rw [hreads.rodata i hi, hbyte hlinked.rodataLma hi]

/-- From reset, with the MMU off and anything in RAM, `_start` gets to `main`. -/
theorem start_from_reset (h : k.Linked) (hd : k.FramesDisjoint) (hl : l.Linked k) (himage : RomImage k l rom)
    (hoff : c.sctlr.getLsbD 0 = false) (hidle : k.task1.entrypoint ≠ k.prvIdleTask) :
    ∃ b, Returns (fun n => start k l c n rom) b ∧ AtMain k l rom b := by
  obtain ⟨mem, hcopy, hloaded⟩ := copyKernelSectionsToRam_spec h hd.kernelApart hl hoff rom
  have hbooted : Booted k ⟨⟨mem, mem l.wTable2Qtty, mem l.wRamUsedPages⟩, c⟩ := hloaded.booted h hl himage c
  obtain ⟨b1, b2, maps, q, hrun1, hrun2, -, hc, hheld, hspaces, htasks⟩ := boot_spec h hd.kernelApart hbooted
  obtain ⟨b1', hrun1', hready, hframe1⟩ := mmuInit_spec (h := h) hd.kernelApart hbooted
  obtain rfl := hrun1.unique hrun1'
  have hdistinct := h.distinct
  simp only [List.nodup_cons, List.mem_cons, List.not_mem_nil, or_false, not_or] at hdistinct
  obtain ⟨⟨hne1, hne2⟩, -, -⟩ := hdistinct
  obtain ⟨hframe2, hcontexts⟩ := prvTaskInit_memory hd.kernelApart hready (Function.update_of_ne (Ne.symm hne1) ..)
    (Function.update_of_ne (Ne.symm hne2) ..) (by decide) hrun2
  obtain ⟨htask1, htask2⟩ := htasks hd
  have hfield {slot : Nat} (hs : slot < SCHEDULER_MAX_TASKS) (f : Field) :
      k.layout.Context (k.layout.word slot f.word) := by
    have hf : f.word < contextWords := by cases f <;> decide
    unfold Layout.Context Layout.word
    unfold contextWords SCHEDULER_MAX_TASKS at *
    omega
  have hslots (f : Field) := schedulerAddTask_twice k.layout k.symbols b1.mmu.mem
    k.task1.addArgs k.task2.addArgs hidle f
  refine ⟨b2, hcopy.bind (hrun1.bind hrun2), ?_, hheld.addressSpaces hspaces, hc, ?_, ?_, ?_, ?_, ?_, ?_⟩
  · intro p hp i hi _
    have hid := Link.kernel_identity h _ (images_kernel hp)
    have hheld := holds_byte hid.valid hid.fixed hi
    rw [hid.pa] at hheld
    have hbss : ¬ k.kernelBss.Holds (wordIndex (p.1.vma + BitVec.ofNat 32 i)) := images_bss hd.kernelApart hp _ hheld
    have hkept := (hframe2 _ hbss fun s hs => hd.kernelApart.tasks _ (images_kernel hp) s hs _ hheld).trans
      (hframe1 _ hbss)
    rw [byteAt_congr hkept, ← hid.pa]
    exact hloaded.images p hp i hi
  · exact ((Link.firstTask h hd.kernelApart).reads hd.kernelApart hheld hc
      (hspaces _ (List.mem_cons_of_mem _ List.mem_cons_self)) htask1).congr h h.task1 hloaded.rom
  · exact ((Link.secondTask h hd.kernelApart).reads hd.kernelApart hheld hc
      (hspaces _ (List.mem_cons_of_mem _ (List.mem_cons_of_mem _ List.mem_cons_self))) htask2).congr h h.task2
      hloaded.rom
  · exact ⟨_, .add _ _ _ (.add _ _ _ (.init b1.mmu.mem)), fun slot hs => context_of_congr hcontexts hs⟩
  · intro f
    exact (hcontexts _ (hfield (by decide) f)).trans (hslots f).1
  · intro f
    exact (hcontexts _ (hfield (by decide) f)).trans (hslots f).2.1
  · intro slot hle hs f
    exact (hcontexts _ (hfield hs f)).trans ((hslots f).2.2 slot hle hs)

end

/-! ## An image with small tasks -/

def exampleLma : KernelLma where
  ldVectorTableLma := 0x70010420
  ldKernelTextLma := 0x70010460
  ldKernelDataLma := 0x70012460
  ldKernelRodataLma := 0x70012560
  ldKernelPublicDataLma := 0x70012730
  ldKernelSyscallLma := 0x70012730
  wTable2Qtty := 0x1C008801
  wRamUsedPages := 0x1C008802

/-- Memory at reset: ROM with the section tables and the counters where their images are, and RAM full of ones -/
def exampleReset (w : Nat) : Word :=
  if 0x1C004958 ≤ w ∧ w < 0x1C0049CC then exampleBoot.mmu.mem (w - 0x1C004958 + 0x1C008C00)
  else if w = 0x1C004919 ∨ w = 0x1C00491A then 0
  else if 0x1C004000 ≤ w ∧ w < 0x1C008000 then BitVec.ofNat 32 w
  else 0xFFFFFFFF

theorem exampleLma_linked : exampleLma.Linked exampleLink := by
  constructor
  · simp only [Link.images, List.forall_mem_cons]
    exact ⟨⟨by decide, by decide⟩, ⟨by decide, by decide⟩, ⟨by decide, by decide⟩, ⟨by decide, by decide⟩,
      ⟨by decide, by decide⟩, ⟨by decide, by decide⟩, by simp⟩
  · simp only [List.forall_mem_cons]
    exact ⟨by decide, by decide, by simp⟩

theorem exampleReset_image : RomImage exampleLink exampleLma exampleReset := by
  constructor
  · refine ⟨exampleBoot.mmu.mem, exampleBoot_booted.described, ?_⟩
    intro i hi
    change i < 0x1D0 at hi
    have hrom : (0x70012560#32 + BitVec.ofNat 32 i).toNat = 0x70012560 + i := by
      rw [BitVec.toNat_add, BitVec.toNat_ofNat, BitVec.toNat_ofNat]
      omega
    have hram : (0x70023000#32 + BitVec.ofNat 32 i).toNat = 0x70023000 + i := by
      rw [BitVec.toNat_add, BitVec.toNat_ofNat, BitVec.toNat_ofNat]
      omega
    have hword : exampleReset ((0x70012560 + i) / 4) = exampleBoot.mmu.mem ((0x70023000 + i) / 4) := by
      have hin : 0x1C004958 ≤ (0x70012560 + i) / 4 ∧ (0x70012560 + i) / 4 < 0x1C0049CC := by omega
      have hsame : (0x70012560 + i) / 4 - 0x1C004958 + 0x1C008C00 = (0x70023000 + i) / 4 := by omega
      rw [exampleReset, if_pos hin, hsame]
    have hmod : (0x70012560 + i) % 4 = (0x70023000 + i) % 4 := by omega
    show byteAt exampleReset (0x70012560#32 + _) = byteAt exampleBoot.mmu.mem (0x70023000#32 + _)
    rw [byteAt, byteAt, wordIndex, wordIndex, hrom, hram, hword, hmod]
  · simp only [List.forall_mem_cons]
    exact ⟨by decide, by decide, by simp⟩

theorem start_from_reset_example : ∃ b,
    Returns (fun n => start exampleLink exampleLma exampleBoot.cp15 n exampleReset) b ∧
      AtMain exampleLink exampleLma exampleReset b :=
  start_from_reset exampleLink_linked exampleLink_disjoint exampleLma_linked exampleReset_image (by decide) (by decide)

end Td3.Kernel
