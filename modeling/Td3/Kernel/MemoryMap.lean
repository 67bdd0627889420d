/-
The memory map that the sections make up: no two sections of a table have a page in common, the
tables of the MMU and the section tables lie in physical pages that no task has, and the pool has
tables for every megabyte of the address spaces of the kernel and both tasks.
-/
import Td3.Kernel.Sections

namespace Td3.Kernel

open Arm SectionDesc

/-! ## The sections of a task -/

/-- A section in the RAM of a task, and its physical pages, above ROM and below free RAM -/
structure SectionDesc.InTask (origin : Word) (s : SectionDesc) : Prop where
  aligned : 2 ^ 12 ∣ s.vma.toNat
  le_vma : origin.toNat ≤ s.vma.toNat
  vma_le : s.vma.toNat + s.size.toNat ≤ origin.toNat + ldRamLength.toNat
  pa : 2 ^ 12 ∣ s.pa.toNat
  le_pa : ldRomOrigin.toNat ≤ s.pa.toNat
  pa_le : s.pa.toNat + ldRamLength.toNat ≤ 2 ^ 31
  domain : s.domain.toNat < 32
  ap : s.ap.toNat < 8
  mem : s.mem.toNat < 32
  gsx : s.gsx.toNat < 8

/-- The physical addresses as the section tables have them -/
def TaskFrames.Fixed (p : TaskFrames) : Prop :=
  ∀ pa ∈ [p.text, p.data, p.rodata, p.stack, p.bss, p.readingArea],
    2 ^ 12 ∣ pa.toNat ∧ ldRomOrigin.toNat ≤ pa.toNat ∧ pa.toNat + ldRamLength.toNat ≤ 2 ^ 31

theorem task1Frames_fixed : task1Frames.Fixed := by
  unfold TaskFrames.Fixed
  simp only [List.forall_mem_cons]
  exact ⟨by decide, by decide, by decide, by decide, by decide, by decide, by simp⟩

theorem task2Frames_fixed : task2Frames.Fixed := by
  unfold TaskFrames.Fixed
  simp only [List.forall_mem_cons]
  exact ⟨by decide, by decide, by decide, by decide, by decide, by decide, by simp⟩

namespace SectionDesc

section
variable {s s' : SectionDesc} {origin vma size pa : Word} {domain ap gsx : BitVec 8}

theorem InTask.valid (h : s.InTask origin) (horigin : origin.toNat + ldRamLength.toNat < 2 ^ 31) : s.Valid 32 := by
  have hle := h.vma_le
  have hlo := h.le_vma
  have hpa := h.pa_le
  exact ⟨h.aligned, by omega, by omega, fun _ => h.pa, fun _ => by omega, h.domain, h.ap, h.mem, h.gsx⟩

theorem InTask.fixed (h : s.InTask origin) : s.pa ≠ NO_PA := fixed_of_aligned h.pa

theorem taskSection_inTask {p : TaskFrames} (hp : p.Fixed)
    (hpa : pa ∈ [p.text, p.data, p.rodata, p.stack, p.bss, p.readingArea]) (haligned : 2 ^ 12 ∣ vma.toNat)
    (hlo : origin.toNat ≤ vma.toNat) (hhi : vma.toNat + size.toNat ≤ origin.toNat + ldRamLength.toNat)
    (hdomain : domain.toNat < 32) (hap : ap.toNat < 8) (hgsx : gsx.toNat < 8) :
    (taskSection vma size pa domain ap gsx).InTask origin := by
  obtain ⟨h1, h2, h3⟩ := hp pa hpa
  exact ⟨haligned, hlo, hhi, h1, h2, h3, hdomain, hap, (by decide : MEM_WRITE_BACK_WRITE_ALLOCATE.toNat < 32), hgsx⟩

/-- The tasks' RAM comes after everything that is mapped where it is. -/
theorem Identity.pagesApart_task (hs : s.Identity) (hs' : s'.InTask origin)
    (horigin : ldTask1RamOrigin.toNat ≤ origin.toNat) : PagesApart s s' := by
  have hbelow := hs.below
  have hlo := hs'.le_vma
  exact pagesApart_of_le hs'.aligned (by omega)

end

end SectionDesc

namespace TaskLink

variable {k : TaskLink} {origin : Word} {p : TaskFrames}

theorem taskSections_inTask (h : k.Linked origin) (hp : p.Fixed) : ∀ s ∈ k.taskSections p, s.InTask origin := by
  obtain ⟨haligned, htext, hdata, hrodata, hstack, hbss, hreading, hram, -, -, -⟩ := h
  have hvma {vma : Word} (hvma : vma ∈ [k.ldTextVma, k.ldDataVma, k.ldRodataVma, k.ldStackVma, k.ldBssVma,
      k.ldReadingAreaVma]) : 2 ^ 12 ∣ vma.toNat := haligned vma hvma
  intro s hs
  simp only [taskSections, List.mem_cons, List.not_mem_nil, or_false] at hs
  rcases hs with rfl | rfl | rfl | rfl | rfl | rfl
  · exact taskSection_inTask hp (by simp) (hvma (by simp)) htext (by omega) (by decide) (by decide) (by decide)
  · exact taskSection_inTask hp (by simp) (hvma (by simp)) (by omega) (by omega) (by decide) (by decide) (by decide)
  · exact taskSection_inTask hp (by simp) (hvma (by simp)) (by omega) (by omega) (by decide) (by decide) (by decide)
  · exact taskSection_inTask hp (by simp) (hvma (by simp)) (by omega) (by omega) (by decide) (by decide) (by decide)
  · exact taskSection_inTask hp (by simp) (hvma (by simp)) (by omega) (by omega) (by decide) (by decide) (by decide)
  · exact taskSection_inTask hp (by simp) (hvma (by simp)) (by omega) hram (by decide) (by decide) (by decide)

/-- The linker places them one after the other. -/
theorem taskSections_pagesApart (h : k.Linked origin) (hp : p.Fixed) : (k.taskSections p).Pairwise PagesApart := by
  have hin := taskSections_inTask h hp
  have hsorted : (k.taskSections p).Pairwise fun s s' => s.vma.toNat + s.size.toNat ≤ s'.vma.toNat := by
    obtain ⟨-, htext, hdata, hrodata, hstack, hbss, hreading, -, -, -, -⟩ := h
    simp only [taskSections, List.pairwise_cons, List.forall_mem_cons, List.not_mem_nil, false_implies, implies_true,
      List.Pairwise.nil, and_true]
    simp only [text, data, rodata, stack, bss, readingArea, taskSection]
    omega
  refine hsorted.imp_of_mem ?_
  intro s s' _ hs' hle
  exact pagesApart_of_le (hin s' hs').aligned hle

end TaskLink

/-! ## Virtual pages -/

namespace Link

variable {k : Link}

/-- The sections in the kernel's table -/
def kernelMap (k : Link) : List SectionDesc := k.kernelSections ++ hardwareSections

/-- The sections in a task's table -/
def taskMap (k : Link) (ss : List SectionDesc) : List SectionDesc := k.kernelMap ++ ss

theorem kernelMap_identity (h : k.Linked) : ∀ s ∈ k.kernelMap, s.Identity := by
  intro s hs
  rcases List.mem_append.1 hs with hs | hs
  · exact kernel_identity h s hs
  · exact hardware_identity s hs

/-- Devices lie between the vector table and ROM. -/
theorem hardware_between : ∀ s ∈ hardwareSections, 2 ^ 20 ≤ s.pa.toNat ∧
    s.pa.toNat + s.size.toNat ≤ ldRomOrigin.toNat := by
  decide

theorem kernel_around (h : k.Linked) : ∀ s ∈ k.kernelSections,
    s.pa.toNat + s.size.toNat ≤ 2 ^ 20 ∨ ldRomOrigin.toNat ≤ s.pa.toNat := by
  have hvector : k.ldVectorTableSize.toNat ≤ 0x10000 := h.vectorTable
  have hrom := notExecutableRomVma_toNat h
  have hram : ∀ s ∈ k.ramSections, ldRomOrigin.toNat ≤ s.pa.toNat := by
    have hle : ∀ vma ∈ [0x70025000, 0x70022000, 0x70023000, 0x70020000, 0x70031000, 0x70024000, 0x70021000],
        ldRomOrigin.toNat ≤ BitVec.toNat (vma : Word) := by
      simp only [List.forall_mem_cons]
      exact ⟨by decide, by decide, by decide, by decide, by decide, by decide, by decide, by simp⟩
    intro s hs
    apply hle
    simp only [ramSections, List.mem_cons, List.not_mem_nil, or_false] at hs
    rcases hs with rfl | rfl | rfl | rfl | rfl | rfl | rfl <;> simp [kernelText, kernelData, kernelRodata, kernelStack,
      kernelBss, publicData, syscall, kernelSection]
  refine List.forall_mem_cons.2 ⟨.inr (Nat.le_refl _),
    List.forall_mem_cons.2 ⟨.inl ?_, List.forall_mem_cons.2 ⟨.inr ?_, ?_⟩⟩⟩
  · show 0 + k.ldVectorTableSize.toNat ≤ 2 ^ 20
    omega
  · show ldRomOrigin.toNat ≤ k.ldNotExecutableRomVma.toNat
    omega
  · exact fun s hs => .inr (hram s hs)

theorem hardware_framesApart : hardwareSections.Pairwise FramesApart := by
  have hranges : hardwareSections.Pairwise fun s s' =>
      s.pa.toNat + s.size.toNat ≤ s'.pa.toNat ∨ s'.pa.toNat + s'.size.toNat ≤ s.pa.toNat := by decide
  have hpa {s : SectionDesc} (hs : s ∈ hardwareSections) : 2 ^ 12 ∣ s.pa.toNat := by
    have hi := hardware_identity s hs
    exact hi.pa ▸ hi.aligned
  refine hranges.imp_of_mem ?_
  rintro s s' hs hs' (hle | hle)
  · exact framesApart_of_le (hpa hs') hle
  · exact (framesApart_of_le (hpa hs) hle).symm

theorem kernelMap_framesApart (h : k.Linked) (hd : k.KernelApart) : k.kernelMap.Pairwise FramesApart := by
  refine List.pairwise_append.2 ⟨hd.kernel, hardware_framesApart, ?_⟩
  intro s hs s' hs'
  have hi := hardware_identity s' hs'
  have hi' := kernel_identity h s hs
  obtain ⟨hlo, hhi⟩ := hardware_between s' hs'
  rcases kernel_around h s hs with hle | hle
  · exact framesApart_of_le (hi.pa ▸ hi.aligned) (by omega)
  · exact (framesApart_of_le (hi'.pa ▸ hi'.aligned) (by omega)).symm

theorem kernelMap_pagesApart (h : k.Linked) (hd : k.KernelApart) : k.kernelMap.Pairwise PagesApart := by
  refine (kernelMap_framesApart h hd).imp_of_mem ?_
  intro s s' hs hs' hapart
  exact (kernelMap_identity h s hs).pagesApart (kernelMap_identity h s' hs') hapart

/-- Either task, its pages apart from the kernel's -/
structure Task (k : Link) where
  link : TaskLink
  frames : TaskFrames
  origin : Word
  table1 : link.table1 ∈ [k.kernelTable1, k.task1.table1, k.task2.table1]
  described : (link.sections, link.taskSections frames) ∈ k.sectionTables
  linked : link.Linked origin
  fixed : frames.Fixed
  le_origin : ldTask1RamOrigin.toNat ≤ origin.toNat
  origin_lt : origin.toNat + ldRamLength.toNat < 2 ^ 31
  apart : ∀ s ∈ k.kernelSections, ∀ s' ∈ link.taskSections frames, FramesApart s s'

def firstTask (h : k.Linked) (hd : k.KernelApart) : k.Task where
  link := k.task1
  frames := task1Frames
  origin := ldTask1RamOrigin
  table1 := by simp
  described := List.mem_cons_of_mem _ (List.mem_cons_of_mem _ List.mem_cons_self)
  linked := h.task1
  fixed := task1Frames_fixed
  le_origin := Nat.le_refl _
  origin_lt := by decide
  apart := fun s hs s' hs' => hd.tasks s hs s' (List.mem_append_left _ hs')

def secondTask (h : k.Linked) (hd : k.KernelApart) : k.Task where
  link := k.task2
  frames := task2Frames
  origin := ldTask2RamOrigin
  table1 := by simp
  described := List.mem_cons_of_mem _ (List.mem_cons_of_mem _ (List.mem_cons_of_mem _ List.mem_cons_self))
  linked := h.task2
  fixed := task2Frames_fixed
  le_origin := by decide
  origin_lt := by decide
  apart := fun s hs s' hs' => hd.tasks s hs s' (List.mem_append_right _ hs')

theorem FramesDisjoint.task1 (hd : k.FramesDisjoint) : k.task1Sections.Pairwise FramesApart :=
  (List.pairwise_append.1 (List.pairwise_append.1 hd).2.1).1

theorem FramesDisjoint.task2 (hd : k.FramesDisjoint) : k.task2Sections.Pairwise FramesApart :=
  (List.pairwise_append.1 (List.pairwise_append.1 hd).2.1).2.1

theorem tasks_framesApart (hd : k.FramesDisjoint) {s s' : SectionDesc} (hs : s ∈ k.task1Sections)
    (hs' : s' ∈ k.task2Sections) : FramesApart s s' :=
  (List.pairwise_append.1 (List.pairwise_append.1 hd).2.1).2.2 s hs s' hs'

namespace Task

variable (T : k.Task)

def sections : List SectionDesc := T.link.taskSections T.frames

theorem inTask : ∀ s ∈ T.sections, s.InTask T.origin := TaskLink.taskSections_inTask T.linked T.fixed

theorem valid : ∀ s ∈ T.sections, s.Valid 32 := fun s hs => (T.inTask s hs).valid T.origin_lt

theorem map_pagesApart (h : k.Linked) (hd : k.KernelApart) : (k.taskMap T.sections).Pairwise PagesApart := by
  refine List.pairwise_append.2 ⟨kernelMap_pagesApart h hd, TaskLink.taskSections_pagesApart T.linked T.fixed, ?_⟩
  intro s hs s' hs'
  exact (kernelMap_identity h s hs).pagesApart_task (T.inTask s' hs') T.le_origin

theorem map_valid (h : k.Linked) : ∀ s ∈ k.taskMap T.sections, s.Valid 32 ∧ s.pa ≠ NO_PA := by
  intro s hs
  rcases List.mem_append.1 hs with hs | hs
  · exact ⟨(kernelMap_identity h s hs).valid, (kernelMap_identity h s hs).fixed⟩
  · exact ⟨T.valid s hs, (T.inTask s hs).fixed⟩

end Task

/-! ## The tables -/

theorem Linked.table2s_below (h : k.Linked) : 256 * (k.ldPageTable2 + 3 * TABLE2_QTTY) < 2 ^ 30 := by
  have hcontexts := h.contexts
  have hbss := h.bss
  have hend : k.kernelBss.vma.toNat + k.kernelBss.size.toNat ≤ 0x71020000 := h.kernelRam _ (by simp [ramSections])
  omega

theorem Linked.pool_le (h : k.Linked) : k.ldPageTable2 + 3 * TABLE2_QTTY ≤ 2 ^ 22 := by
  have hbelow := h.table2s_below
  omega

theorem Linked.table1_le (h : k.Linked) :
    ∀ t ∈ [k.kernelTable1, k.task1.table1, k.task2.table1], t + 4096 ≤ 2 ^ 30 := by
  intro t ht
  have htable := h.table1s t ht
  have hbelow := h.table2s_below
  omega

theorem freeRam_le : 0x80000 + 0x10000 ≤ 2 ^ 20 := by decide

/-- The tables of the MMU -/
def pageTables (k : Link) (h : k.Linked) : PageTables where
  pool := k.ldPageTable2
  table2s := 3 * TABLE2_QTTY
  freeFrame := 0x80000
  ramPages := 0x10000
  table1s := {t | t ∈ [k.kernelTable1, k.task1.table1, k.task2.table1]}
  pool_lt := h.pool_le
  ram_lt := freeRam_le
  table1_aligned := fun t ht => (h.table1s t ht).1
  table1_lt := h.table1_le
  table1_pool := fun t ht => .inl (h.table1s t ht).2.2

/-- Where `mmu_fill_page_tables` finds the level-2 tables and free RAM -/
def mmuSymbols (k : Link) : MmuSymbols := ⟨addrOf (256 * k.ldPageTable2), ldFreeRamOrigin⟩

theorem mmuSymbols_eq (h : k.Linked) : k.mmuSymbols = (k.pageTables h).symbols :=
  congrArg (MmuSymbols.mk _) (by decide : ldFreeRamOrigin = BitVec.ofNat 32 (2 ^ 12 * 0x80000))

theorem tables_range (h : k.Linked) {w : Nat} (hw : (k.pageTables h).Tables w) :
    k.kernelBss.vma.toNat ≤ 4 * w ∧ 4 * w + 4 ≤ k.kernelBss.vma.toNat + k.kernelBss.size.toNat := by
  have hcontexts := h.contexts
  have hbss := h.bss
  rcases hw with ⟨t, ht, i, hi, rfl⟩ | ⟨hlo, hhi⟩
  · obtain ⟨-, hle, hend⟩ := h.table1s t ht
    omega
  · obtain ⟨-, hle, hend⟩ := h.table1s k.kernelTable1 List.mem_cons_self
    change 256 * k.ldPageTable2 ≤ w at hlo
    change w < 256 * (k.ldPageTable2 + 3 * TABLE2_QTTY) at hhi
    omega

/-- The tables lie in the kernel's `.bss`. -/
theorem tables_held (h : k.Linked) {w : Nat} (hw : (k.pageTables h).Tables w) : k.kernelBss.Holds w :=
  holds_of_le (tables_range h hw).1 (tables_range h hw).2

theorem rodata_bss (hd : k.KernelApart) : FramesApart k.kernelRodata k.kernelBss :=
  List.pairwise_iff_getElem.1 hd.kernel 5 7 (by decide : 5 < 10) (by decide : 7 < 10) (by decide)

/-- The section tables lie in the kernel's `.rodata`. -/
theorem sectionTable_held (h : k.Linked) {p : Nat × List SectionDesc} (hp : p ∈ k.sectionTables) {i : Nat}
    (hlo : p.1 ≤ i)
    (hhi : i < p.1 + 4 * p.2.length) : k.kernelRodata.Holds i := by
  obtain ⟨hstart, hend⟩ := h.sections p hp
  have hpa : k.kernelRodata.pa = k.kernelRodata.vma := rfl
  exact holds_of_le (by rw [hpa]; omega) (by rw [hpa]; omega)

theorem context_held (h : k.Linked) {w : Nat} (hw : k.layout.Context w) : k.kernelBss.Holds w := by
  obtain ⟨hlo, hhi⟩ := hw
  have hcontexts := h.contexts
  have hbss := h.bss
  obtain ⟨-, hle, hend⟩ := h.table1s k.kernelTable1 List.mem_cons_self
  have hpa : k.kernelBss.pa = k.kernelBss.vma := rfl
  exact holds_of_le (by rw [hpa]; omega) (by rw [hpa]; omega)

theorem context_not_table (h : k.Linked) {w : Nat} (hw : k.layout.Context w) : ¬ (k.pageTables h).Tables w := by
  have hcontexts := h.contexts
  have hlo := hw.1
  rintro (⟨t, ht, i, hi, rfl⟩ | ⟨-, hhi⟩)
  · obtain ⟨-, -, hend⟩ := h.table1s t ht
    omega
  · change w < 256 * (k.ldPageTable2 + 3 * TABLE2_QTTY) at hhi
    omega

/-- Memory holds the section tables. -/
def Described (k : Link) (memory : Nat → Word) : Prop :=
  ∀ p ∈ k.sectionTables, ∀ j, (hj : j < p.2.length) → p.2[j].Stored memory (p.1 + 4 * j)

theorem Described.congr (h : k.Linked) {memory memory' : Nat → Word} (hdesc : k.Described memory)
    (hmem : ∀ w, k.kernelRodata.Holds w → memory' w = memory w) : k.Described memory' := by
  intro p hp j hj
  obtain ⟨h0, h1, h2, h3⟩ := hdesc p hp j hj
  have hsame : ∀ i < 4, memory' (p.1 + 4 * j + i) = memory (p.1 + 4 * j + i) := fun i hi =>
    hmem _ (sectionTable_held h hp (by omega) (by omega))
  exact ⟨(hsame 0 (by decide)).trans h0, (hsame 1 (by decide)).trans h1, (hsame 2 (by decide)).trans h2,
    (hsame 3 (by decide)).trans h3⟩

theorem sectionTables_valid (h : k.Linked) (hd : k.KernelApart) :
    ∀ p ∈ k.sectionTables, p.2 ≠ [] ∧ ∀ s ∈ p.2, s.Valid 32 ∧ s.pa ≠ NO_PA := by
  have hkernel : ∀ s ∈ k.kernelMap, s.Valid 32 ∧ s.pa ≠ NO_PA := fun s hs =>
    ⟨(kernelMap_identity h s hs).valid, (kernelMap_identity h s hs).fixed⟩
  have htask : ∀ T : k.Task, ∀ s ∈ T.sections, s.Valid 32 ∧ s.pa ≠ NO_PA := fun T s hs =>
    ⟨T.valid s hs, (T.inTask s hs).fixed⟩
  intro p hp
  simp only [sectionTables, List.mem_cons, List.not_mem_nil, or_false] at hp
  rcases hp with rfl | rfl | rfl | rfl
  · exact ⟨List.cons_ne_nil _ _, fun s hs => hkernel s (List.mem_append_left _ hs)⟩
  · exact ⟨List.cons_ne_nil _ _, fun s hs => hkernel s (List.mem_append_right _ hs)⟩
  · exact ⟨List.cons_ne_nil _ _, htask (firstTask h hd)⟩
  · exact ⟨List.cons_ne_nil _ _, htask (secondTask h hd)⟩

theorem sectionTable (h : k.Linked) (hd : k.KernelApart) {memory : Nat → Word} (hdesc : k.Described memory)
    {p : Nat × List SectionDesc} (hp : p ∈ k.sectionTables) : SectionTable (k.pageTables h) p.1 p.2 memory := by
  obtain ⟨hne, hvalid⟩ := sectionTables_valid h hd p hp
  refine ⟨hne, fun s hs => (hvalid s hs).1, fun s hs => (hvalid s hs).2, hdesc p hp, ?_, ?_⟩
  · have hend := (h.sections p hp).2
    have hram : k.kernelRodata.vma.toNat + k.kernelRodata.size.toNat ≤ 0x71020000 :=
      h.kernelRam _ (List.mem_cons_of_mem _ (List.mem_cons_of_mem _ List.mem_cons_self))
    omega
  · intro i hlo hhi htable
    exact rodata_bss hd _ (sectionTable_held h hp hlo hhi) (tables_held h htable)

/-! ## The pool -/

/-- Vector table, ROM and RAM -/
theorem kernelSections_megabytes (h : k.Linked) : (megabytesOf k.kernelSections).card ≤ 18 := by
  have hvector : k.ldVectorTableSize.toNat ≤ 0x10000 := h.vectorTable
  have hsubset : megabytesOf k.kernelSections ⊆ Finset.Ico 0 1 ∪ Finset.Ico 0x700 0x711 := by
    refine megabytesOf_subset ?_
    intro s hs
    have hid := kernel_identity h s hs
    have hbelow : s.vma.toNat + s.size.toNat ≤ 0x71020000 := hid.below
    rcases kernel_around h s hs with hle | hle
    · rw [hid.pa] at hle
      exact (megabytes_subset hid.valid (Nat.zero_le _) hle).trans Finset.subset_union_left
    · change 0x70010000 ≤ _ at hle
      rw [hid.pa] at hle
      exact (megabytes_subset hid.valid (by omega) (by omega)).trans Finset.subset_union_right
  exact (Finset.card_le_card hsubset).trans (by decide)

theorem hardwareSections_megabytes : (megabytesOf hardwareSections).card ≤ 2 := by decide

theorem Task.sections_megabytes (T : k.Task) : (megabytesOf T.sections).card ≤ 18 := by
  have hsubset : megabytesOf T.sections ⊆ Finset.Ico (T.origin.toNat / 2 ^ 20) (T.origin.toNat / 2 ^ 20 + 18) := by
    refine megabytesOf_subset ?_
    intro s hs
    have hin := T.inTask s hs
    have hlo := hin.le_vma
    have hhi : s.vma.toNat + s.size.toNat ≤ T.origin.toNat + 0x01000000 := hin.vma_le
    exact megabytes_subset (T.valid s hs) (by omega) (by omega)
  refine (Finset.card_le_card hsubset).trans ?_
  rw [Nat.card_Ico, Nat.add_sub_cancel_left]

end Link

end Td3.Kernel
