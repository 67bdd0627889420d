/-
`mmu_init` (kernel/mmu.S) and `prv_task_init` (kernel/startup.S): the tables of the kernel and of both
tasks are filled, and each task's images are copied through its own table. The kernel's own accesses
meanwhile, of `mmu_fill_page_tables` and the scheduler, are to sections that are mapped where they are, so they
are to memory itself here; its stack is left out.
-/
import Td3.Kernel.MemCopy
import Td3.Kernel.MemoryMap

namespace Td3.Kernel

open Arm SectionDesc PageTables

/-! ## The functions -/

/-- Memory with the counters of the page-table builder, and the registers of the MMU -/
structure Boot where
  mmu : Mmu
  cp15 : Cp15

namespace Boot

def setMem (mem : Nat → Word) (b : Boot) : Boot := { b with mmu := { b.mmu with mem := mem } }

/-- `WRITE_TTBR0` -/
def writeTtbr0 (v : Word) (b : Boot) : Boot := { b with cp15 := { b.cp15 with ttbr0 := v } }

/-- `mmu_fill_page_tables`, called for the section table at word `a` and the level-1 table at word `t` -/
def fill (k : Link) (n a : Nat) (ss : List SectionDesc) (t : Nat) (b : Boot) : Option Boot :=
  (mmuFillPageTables k.mmuSymbols (addrOf a) (addrOf (a + 4 * ss.length)) (addrOf t) n b.mmu).map fun mmu =>
    { b with mmu := mmu }

/-- `mmu_init` before it fills the tables -/
def configureTtbcr (b : Boot) : Boot :=
  { b with cp15 := { b.cp15 with ttbcr := b.cp15.ttbcr &&& ~~~0b111#32, dacr := 0x55555555 } }

/-- `mmu_init` after it has filled the tables -/
def enableMmu (table1 : Word) (b : Boot) : Boot :=
  let sctlr := b.cp15.sctlr
  let sctlr := sctlr &&& ~~~(1#32 <<< 30)
  let sctlr := sctlr &&& ~~~(1#32 <<< 29)
  let sctlr := sctlr &&& ~~~(1#32 <<< 28)
  let sctlr := sctlr ||| 1#32 <<< 1
  let sctlr := sctlr ||| 1#32 <<< 0
  { b with cp15 := { b.cp15 with ttbr1 := table1, ttbr0 := table1, sctlr := sctlr } }

end Boot

/-- `mmu_init`, each of its loops run for `n` steps -/
def mmuInit (k : Link) (n : Nat) (b : Boot) : Option Boot :=
  (b.configureTtbcr.fill k n k.kernelSectionsAddr k.kernelSections k.kernelTable1).bind fun b =>
    (b.fill k n k.hardwareSectionsAddr hardwareSections k.kernelTable1).map (Boot.enableMmu (addrOf k.kernelTable1))

/-- `copy_taskX_sections_to_ram` -/
def copyTaskSectionsToRam (task : TaskLink) (c : Cp15) (n : Nat) (mem : Nat → Word) : Option (Nat → Word) :=
  (memcopy c n task.ldTextVma task.ldTextLma task.ldTextSize mem).bind fun mem =>
    (memcopy c n task.ldDataVma task.ldDataLma task.ldDataSize mem).bind fun mem =>
      (memcopy c n task.ldRodataVma task.ldRodataLma task.ldRodataSize mem).bind fun mem =>
        memfill c n task.ldBssVma 0x00 task.ldBssSize mem

def Link.symbols (k : Link) : Symbols := ⟨k.prvIdleTask, k.stackIdleTask, addrOf k.kernelTable1⟩

/-- `prv_task_init` fills the table of a task. -/
def fillTask (k : Link) (n : Nat) (task : TaskLink) (ss : List SectionDesc) (b : Boot) : Option Boot :=
  (b.fill k n k.kernelSectionsAddr k.kernelSections task.table1).bind fun b =>
    (b.fill k n k.hardwareSectionsAddr hardwareSections task.table1).bind fun b =>
      b.fill k n task.sections ss task.table1

/-- `prv_task_init` copies the sections of a task and adds it to the scheduler. -/
def loadTask (k : Link) (n : Nat) (task : TaskLink) (b : Boot) : Option Boot :=
  let b := b.writeTtbr0 (addrOf task.table1)
  (copyTaskSectionsToRam task b.cp15 n b.mmu.mem).map fun mem =>
    b.setMem (schedulerAddTask k.layout k.symbols task.entrypoint task.stackTop (addrOf task.table1) mem).2

/-- `prv_task_init`, each of its loops run for `n` steps -/
def prvTaskInit (k : Link) (n : Nat) (b : Boot) : Option Boot :=
  let b := b.setMem (schedulerInit k.layout k.symbols b.mmu.mem)
  (fillTask k n k.task1 k.task1Sections b).bind fun b =>
    (loadTask k n k.task1 b).bind fun b =>
      (fillTask k n k.task2 k.task2Sections b).bind fun b =>
        (loadTask k n k.task2 b).map (Boot.writeTtbr0 (addrOf k.kernelTable1))

/-! ## What they keep -/

/-- A word of ROM -/
def Link.RomWord (k : Link) (w : Nat) : Prop := k.init.Holds w ∨ k.notExecutableRom.Holds w

/-- Each table `t` translates as the sections `maps t` say, at most `q` tables of the pool are taken, the
section tables are in memory, and ROM is as it was. -/
structure Held (k : Link) (h : k.Linked) (maps : Nat → List SectionDesc) (q : Nat) (rom : Nat → Word) (m : Mmu) :
    Prop where
  spaces : Spaces (k.pageTables h) maps q m
  described : k.Described m.mem
  rom : ∀ w, k.RomWord w → m.mem w = rom w

/-- The registers as `mmu_init` leaves them -/
structure Configured (c : Cp15) : Prop where
  on : c.sctlr.getLsbD 0 = true
  /-- Accesses that are not aligned fault. -/
  alignment : c.sctlr.getLsbD 1 = true
  ttbcr : c.ttbcr.toNat % 8 = 0
  dacr : c.dacr = 0x55555555

/-- After `mmu_init` has returned, with TTBR0 at the table `t` -/
structure Ready (k : Link) (h : k.Linked) (maps : Nat → List SectionDesc) (q t : Nat) (rom : Nat → Word) (b : Boot) :
    Prop where
  held : Held k h maps q rom b.mmu
  configured : Configured b.cp15
  ttbr0 : b.cp15.ttbr0 = addrOf t
  table1 : t ∈ [k.kernelTable1, k.task1.table1, k.task2.table1]
  kernel : k.kernelMap <+: maps t
  apart : (maps t).Pairwise PagesApart

section
variable {k : Link} {h : k.Linked} {maps : Nat → List SectionDesc} {q t c : Nat} {rom mem' : Nat → Word} {m : Mmu}
  {b : Boot}

theorem Configured.uses {c : Cp15} (hc : Configured c) (ht : t ∈ (k.pageTables h).table1s) :
    ({ c with ttbr0 := addrOf t } : Cp15).Uses t := by
  have hlt := (k.pageTables h).table1_lt t ht
  exact Cp15.uses_of_ttbr0 hc.on hc.ttbcr hc.dacr ((k.pageTables h).table1_aligned t ht) (by omega) rfl

theorem Ready.uses (hr : Ready k h maps q t rom b) : b.cp15.Uses t := by
  have hc := hr.configured.uses (h := h) hr.table1
  rw [← hr.ttbr0] at hc
  exact hc

/-- Memory changes, but not in the words of the kernel's `.bss`, its section tables and ROM. -/
theorem Held.setMem (hheld : Held k h maps q rom m)
    (hmem : ∀ w, k.kernelBss.Holds w ∨ k.kernelRodata.Holds w ∨ k.RomWord w → mem' w = m.mem w) :
    Held k h maps q rom { m with mem := mem' } := by
  refine ⟨hheld.spaces.congr (fun i hi => hmem i (.inl (Link.tables_held h hi))) rfl rfl, ?_, ?_⟩
  · exact hheld.described.congr h fun w hw => hmem w (.inr (.inl hw))
  · intro w hw
    exact (hmem w (.inr (.inr hw))).trans (hheld.rom w hw)

theorem rom_bss (hd : k.KernelApart) {w : Nat} (hw : k.RomWord w) : ¬ k.kernelBss.Holds w := by
  have hapart := List.pairwise_iff_getElem.1 hd.kernel
  rcases hw with hw | hw
  · exact hapart 0 7 (by decide : 0 < 10) (by decide : 7 < 10) (by decide) _ hw
  · exact hapart 2 7 (by decide : 2 < 10) (by decide : 7 < 10) (by decide) _ hw

/-- The scheduler writes to the contexts. -/
theorem Held.setContexts (hd : k.KernelApart) (hheld : Held k h maps q rom m)
    (hmem : ∀ w, ¬ k.layout.Context w → mem' w = m.mem w) : Held k h maps q rom { m with mem := mem' } := by
  have hbss : ∀ w, ¬ k.kernelBss.Holds w → mem' w = m.mem w := fun w hw =>
    hmem w fun hcontext => hw (Link.context_held h hcontext)
  refine ⟨hheld.spaces.congr (fun i hi => ?_) rfl rfl, ?_, ?_⟩
  · exact hmem i fun hcontext => Link.context_not_table h hcontext hi
  · exact hheld.described.congr h fun w hw => hbss w (Link.rodata_bss hd _ hw)
  · intro w hw
    exact (hbss w (rom_bss hd hw)).trans (hheld.rom w hw)

theorem Ready.setContexts (hd : k.KernelApart) (hr : Ready k h maps q t rom b)
    (hmem : ∀ w, ¬ k.layout.Context w → mem' w = b.mmu.mem w) : Ready k h maps q t rom (b.setMem mem') :=
  ⟨hr.held.setContexts hd hmem, hr.configured, hr.ttbr0, hr.table1, hr.kernel, hr.apart⟩

/-! ## Filling the tables -/

/-- A call adds its sections to those of its table, and writes to the kernel's `.bss` only. -/
theorem fill_spec (hd : k.KernelApart) (hheld : Held k h maps q rom b.mmu)
    (ht : t ∈ [k.kernelTable1, k.task1.table1, k.task2.table1]) {p : Nat × List SectionDesc} (hp : p ∈ k.sectionTables)
    (hcard : (megabytesOf p.2).card ≤ c) (hroom : q + c ≤ 3 * TABLE2_QTTY) :
    ∃ m', Returns (fun n => b.fill k n p.1 p.2 t) { b with mmu := m' } ∧
      Held k h (Function.update maps t (maps t ++ p.2)) (q + c) rom m' ∧
      ∀ w, ¬ k.kernelBss.Holds w → m'.mem w = b.mmu.mem w := by
  obtain ⟨n, m', hrun, hspaces, hmemory⟩ := hheld.spaces.fill ht (Link.sectionTable h hd hheld.described hp)
    ((Nat.add_le_add_left hcard q).trans hroom)
  have hbss : ∀ w, ¬ k.kernelBss.Holds w → m'.mem w = b.mmu.mem w := fun w hw =>
    hmemory w fun htable => hw (Link.tables_held h htable)
  have hfill : Returns (fun n => mmuFillPageTables k.mmuSymbols (addrOf p.1) (addrOf (p.1 + 4 * p.2.length))
      (addrOf t) n b.mmu) m' := by
    rw [Link.mmuSymbols_eq h]
    exact ⟨n, hrun⟩
  refine ⟨m', hfill.map fun mmu => Boot.mk mmu b.cp15, ⟨?_, ?_, ?_⟩, hbss⟩
  · exact ⟨hspaces.inv, hspaces.maps, hspaces.qtty.trans (Nat.add_le_add_left hcard q), hspaces.used⟩
  · exact hheld.described.congr h fun w hw => hbss w (Link.rodata_bss hd _ hw)
  · intro w hw
    exact (hbss w (rom_bss hd hw)).trans (hheld.rom w hw)

/-- The kernel's sections and the devices, in any table -/
theorem fillKernel_spec (hd : k.KernelApart) (hheld : Held k h maps q rom b.mmu)
    (ht : t ∈ [k.kernelTable1, k.task1.table1, k.task2.table1]) (hempty : maps t = [])
    (hroom : q + 20 ≤ 3 * TABLE2_QTTY) :
    ∃ m', Returns (fun n => (b.fill k n k.kernelSectionsAddr k.kernelSections t).bind fun b =>
        b.fill k n k.hardwareSectionsAddr hardwareSections t) { b with mmu := m' } ∧
      Held k h (Function.update maps t k.kernelMap) (q + 20) rom m' ∧
      ∀ w, ¬ k.kernelBss.Holds w → m'.mem w = b.mmu.mem w := by
  obtain ⟨m1, hrun1, hheld1, hmem1⟩ := fill_spec hd hheld ht (p := (k.kernelSectionsAddr, k.kernelSections))
    List.mem_cons_self (Link.kernelSections_megabytes h) (by omega)
  obtain ⟨m2, hrun2, hheld2, hmem2⟩ := fill_spec (b := { b with mmu := m1 }) hd hheld1 ht
    (p := (k.hardwareSectionsAddr, hardwareSections)) (List.mem_cons_of_mem _ List.mem_cons_self)
    Link.hardwareSections_megabytes (by omega)
  rw [Function.update_self, Function.update_idem, hempty] at hheld2
  exact ⟨m2, hrun1.bind hrun2, hheld2, fun w hw => (hmem2 w hw).trans (hmem1 w hw)⟩

/-- The table of a task is filled while another one is in use. -/
theorem fillTask_spec (hd : k.KernelApart) (T : k.Task) (hr : Ready k h maps q t rom b)
    (hempty : maps T.link.table1 = []) (hroom : q + 38 ≤ 3 * TABLE2_QTTY) :
    ∃ m', Returns (fun n => fillTask k n T.link T.sections b) { b with mmu := m' } ∧
      Ready k h (Function.update maps T.link.table1 (k.taskMap T.sections)) (q + 38) t rom { b with mmu := m' } ∧
      ∀ w, ¬ k.kernelBss.Holds w → m'.mem w = b.mmu.mem w := by
  obtain ⟨m1, hrun1, hheld1, hmem1⟩ := fillKernel_spec hd hr.held T.table1 hempty (by omega)
  obtain ⟨m2, hrun2, hheld2, hmem2⟩ := fill_spec (b := { b with mmu := m1 }) hd hheld1 T.table1 T.described
    T.sections_megabytes (by omega)
  rw [Function.update_self, Function.update_idem] at hheld2
  have hne : t ≠ T.link.table1 := by
    rintro rfl
    have hkernel := hr.kernel
    rw [hempty] at hkernel
    exact absurd (List.prefix_nil.1 hkernel) (List.cons_ne_nil _ _)
  refine ⟨m2, ?_, ⟨hheld2, hr.configured, hr.ttbr0, hr.table1, ?_, ?_⟩, fun w hw => (hmem2 w hw).trans (hmem1 w hw)⟩
  · have hrun := hrun1.bind (g := fun n b => b.fill k n T.link.sections T.sections T.link.table1) hrun2
    simp only [Option.bind_assoc] at hrun
    exact hrun
  · rw [Function.update_of_ne hne]
    exact hr.kernel
  · rw [Function.update_of_ne hne]
    exact hr.apart

/-! ## `mmu_init` -/

/-- Before `mmu_init`: `copy_kernel_sections_to_ram` has cleared the kernel's `.bss`, where the tables are,
and copied the section tables and the counters. -/
structure Booted (k : Link) (b : Boot) : Prop where
  bss : ∀ w, k.kernelBss.vma.toNat ≤ 4 * w → 4 * w + 4 ≤ k.kernelBss.vma.toNat + k.kernelBss.size.toNat →
    b.mmu.mem w = 0
  wTable2Qtty : b.mmu.wTable2Qtty = 0
  wRamUsedPages : b.mmu.wRamUsedPages = 0
  described : k.Described b.mmu.mem

theorem Booted.held (h : k.Linked) (hb : Booted k b) : Held k h (fun _ => []) 0 b.mmu.mem b.mmu := by
  refine ⟨Spaces.start ?_ hb.wTable2Qtty hb.wRamUsedPages, hb.described, fun _ _ => rfl⟩
  intro w hw
  obtain ⟨hlo, hhi⟩ := Link.tables_range h hw
  exact hb.bss w hlo hhi

theorem configured_enableMmu (table1 : Word) (b : Boot) (m : Mmu) :
    Configured (Boot.enableMmu table1 ⟨m, b.configureTtbcr.cp15⟩).cp15 := by
  refine ⟨?_, ?_, ?_, rfl⟩
  · show (_ ||| 1#32 <<< 0).getLsbD 0 = true
    rw [BitVec.getLsbD_or]
    simp
  · show (_ ||| 1#32 <<< 1 ||| 1#32 <<< 0).getLsbD 1 = true
    rw [BitVec.getLsbD_or, BitVec.getLsbD_or]
    simp
  · show (b.cp15.ttbcr &&& ~~~0b111#32).toNat % 8 = 0
    have halign := and_not_low b.cp15.ttbcr 3
    change b.cp15.ttbcr &&& ~~~0b111#32 = _ at halign
    rw [halign, BitVec.toNat_ofNat]
    omega

theorem mmuInit_spec (hd : k.KernelApart) (hb : Booted k b) :
    ∃ b', Returns (fun n => mmuInit k n b) b' ∧
      Ready k h (Function.update (fun _ => []) k.kernelTable1 k.kernelMap) 20 k.kernelTable1 b.mmu.mem b' ∧
      ∀ w, ¬ k.kernelBss.Holds w → b'.mmu.mem w = b.mmu.mem w := by
  have ht : k.kernelTable1 ∈ [k.kernelTable1, k.task1.table1, k.task2.table1] := List.mem_cons_self
  obtain ⟨m', hrun, hheld, hmem⟩ := fillKernel_spec (b := b.configureTtbcr) hd (hb.held h) ht rfl (by decide)
  refine ⟨Boot.enableMmu (addrOf k.kernelTable1) ⟨m', b.configureTtbcr.cp15⟩, ?_,
    ⟨hheld, configured_enableMmu (addrOf k.kernelTable1) b m', rfl, ht, ?_, ?_⟩, hmem⟩
  · have hinit := hrun.map (Boot.enableMmu (addrOf k.kernelTable1))
    simp only [Option.map_bind] at hinit
    exact hinit
  · rw [Function.update_self]
  · rw [Function.update_self]
    exact Link.kernelMap_pagesApart h hd

end

end Td3.Kernel
