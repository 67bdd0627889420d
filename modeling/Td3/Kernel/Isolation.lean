/-
The system after `mmu_init` and `prv_task_init`, for any sections that the linker scripts allow and
whose physical pages are disjoint: TTBR0 may point to any of the three tables while the kernel runs,
no page of RAM is common to the tasks, and each task reads its own images.
-/
import Td3.Kernel.TaskImages

namespace Td3.Kernel

open Arm SectionDesc PageTables

/-! ## The address spaces -/

/-- The level-1 tables, each with the sections it has been filled with -/
def Link.addressSpaces (k : Link) : List (Nat × List SectionDesc) :=
  [(k.kernelTable1, k.kernelMap), (k.task1.table1, k.taskMap k.task1Sections),
    (k.task2.table1, k.taskMap k.task2Sections)]

/-- A page of the table has this physical page. -/
def Reachable (memory : Nat → Word) (t frame : Nat) : Prop :=
  ∃ va pa domain attributes, walk memory t va = .smallPage pa domain attributes ∧ pageOf pa = frame

/-- Accesses with TTBR0 at the table `t` -/
def Boot.translateBy (b : Boot) (t : Nat) (privileged : Bool) (access : Access) (va : Word) : Option Word :=
  ({ b.cp15 with ttbr0 := addrOf t } : Cp15).translate b.mmu.mem privileged access va

/-- What separates the address spaces. `common` and `permissions` hold of the kernel's sections and the
devices in every table, whichever TTBR0 points to. -/
structure Isolated (k : Link) (b : Boot) : Prop where
  common : ∀ s ∈ k.kernelSections ++ hardwareSections, ∀ va, s.Touches (pageOf va) → ∀ p ∈ k.addressSpaces,
    ∃ domain, walk b.mmu.mem p.1 va = .smallPage va domain s.attributes
  permissions : ∀ s ∈ k.kernelSections ++ hardwareSections, ∀ va, s.Touches (pageOf va) → ∀ p ∈ k.addressSpaces,
    ∀ privileged access, b.translateBy p.1 privileged access va =
      if permits s.attributes.ap privileged access then some va else none
  shared : ∀ frame, Reachable b.mmu.mem k.task1.table1 frame → Reachable b.mmu.mem k.task2.table1 frame →
    ∃ s ∈ k.kernelSections ++ hardwareSections, s.TouchesFrame frame
  unmapped : ∀ p ∈ k.addressSpaces, ∀ va, (∀ s ∈ p.2, ¬ s.Touches (pageOf va)) → walk b.mmu.mem p.1 va = .fault
  pages : ∀ p ∈ k.addressSpaces, ∀ va, walk b.mmu.mem p.1 va = .fault ∨
    ∃ pa domain attributes, walk b.mmu.mem p.1 va = .smallPage pa domain attributes

section
variable {k : Link} {b : Boot}

theorem addressSpaces_table1 {p : Nat × List SectionDesc} (hp : p ∈ k.addressSpaces) :
    p.1 ∈ [k.kernelTable1, k.task1.table1, k.task2.table1] := by
  simp only [Link.addressSpaces, List.mem_cons, List.not_mem_nil, or_false] at hp
  rcases hp with rfl | rfl | rfl <;> simp

theorem addressSpaces_pagesApart (h : k.Linked) (hd : k.KernelApart) {p : Nat × List SectionDesc}
    (hp : p ∈ k.addressSpaces) : p.2.Pairwise PagesApart ∧ k.kernelMap ⊆ p.2 := by
  simp only [Link.addressSpaces, List.mem_cons, List.not_mem_nil, or_false] at hp
  rcases hp with rfl | rfl | rfl
  · exact ⟨Link.kernelMap_pagesApart h hd, List.Subset.refl _⟩
  · exact ⟨(Link.firstTask h hd).map_pagesApart h hd, List.subset_append_left ..⟩
  · exact ⟨(Link.secondTask h hd).map_pagesApart h hd, List.subset_append_left ..⟩

/-- The tables after both functions, and the images -/
theorem boot_spec (h : k.Linked) (hd : k.KernelApart) (hb : Booted k b) :
    ∃ b1 b2 maps q, Returns (fun n => mmuInit k n b) b1 ∧ Returns (fun n => prvTaskInit k n b1) b2 ∧
      Maps b1.mmu.mem k.kernelTable1 k.kernelMap ∧ Configured b2.cp15 ∧ Held k h maps q b.mmu.mem b2.mmu ∧
      (∀ p ∈ k.addressSpaces, maps p.1 = p.2) ∧
      (k.FramesDisjoint → (Link.firstTask h hd).Loaded b.mmu.mem b2.mmu.mem ∧
        (Link.secondTask h hd).Loaded b.mmu.mem b2.mmu.mem) := by
  have hdistinct := h.distinct
  simp only [List.nodup_cons, List.mem_cons, List.not_mem_nil, or_false, not_or] at hdistinct
  obtain ⟨⟨hne1, hne2⟩, hne12, -⟩ := hdistinct
  obtain ⟨b1, hrun1, hready, -⟩ := mmuInit_spec (h := h) hd hb
  have hkernel := hready.held.spaces.maps k.kernelTable1 hready.table1
  rw [Function.update_self] at hkernel
  obtain ⟨b2, hrun2, hheld2, hc, hloaded⟩ := prvTaskInit_spec hd hready
    (Function.update_of_ne (Ne.symm hne1) ..) (Function.update_of_ne (Ne.symm hne2) ..) (by decide)
  refine ⟨b1, b2, _, _, hrun1, hrun2, hkernel, hc, hheld2, ?_, hloaded⟩
  intro p hp
  simp only [Link.addressSpaces, List.mem_cons, List.not_mem_nil, or_false] at hp
  rcases hp with rfl | rfl | rfl
  · rw [Function.update_of_ne hne2, Function.update_of_ne hne1, Function.update_self]
  · rw [Function.update_of_ne hne12, Function.update_self]
  · rw [Function.update_self]

theorem Held.addressSpaces {h : k.Linked} {maps : Nat → List SectionDesc} {q : Nat} {rom : Nat → Word} {m : Mmu}
    (hheld : Held k h maps q rom m) (hspaces : ∀ p ∈ k.addressSpaces, maps p.1 = p.2) :
    ∀ p ∈ k.addressSpaces, Maps m.mem p.1 p.2 := by
  intro p hp
  rw [← hspaces p hp]
  exact hheld.spaces.maps p.1 (addressSpaces_table1 hp)

/-- The kernel's sections and the devices are mapped where they are, by every table. -/
theorem walk_kernelMap (h : k.Linked) (hd : k.KernelApart) {memory : Nat → Word} {p : Nat × List SectionDesc}
    (hp : p ∈ k.addressSpaces) (hmaps : Maps memory p.1 p.2) {s : SectionDesc} (hs : s ∈ k.kernelMap) {va : Word}
    (htouches : s.Touches (pageOf va)) : ∃ domain, walk memory p.1 va = .smallPage va domain s.attributes := by
  obtain ⟨hapart, hkernel⟩ := addressSpaces_pagesApart h hd hp
  have hwalk := hmaps.walk_eq hapart (hkernel hs) htouches
  rw [(Link.kernelMap_identity h s hs).addrOfVa] at hwalk
  exact hwalk

/-- A page that both tasks reach is not one of the first task's, as it would be one of the second's too. -/
theorem shared_kernel (h : k.Linked) (hd : k.FramesDisjoint) {memory : Nat → Word}
    (hmaps : ∀ p ∈ k.addressSpaces, Maps memory p.1 p.2) {frame : Nat} (h1 : Reachable memory k.task1.table1 frame)
    (h2 : Reachable memory k.task2.table1 frame) : ∃ s ∈ k.kernelMap, s.TouchesFrame frame := by
  have hsection {p : Nat × List SectionDesc} (hp : p ∈ k.addressSpaces) (hvalid : ∀ s ∈ p.2, s.Valid 32 ∧ s.pa ≠ NO_PA)
      (hreach : Reachable memory p.1 frame) : ∃ s ∈ p.2, s.TouchesFrame frame := by
    obtain ⟨va, pa, domain, attributes, hwalk, rfl⟩ := hreach
    have hne : walk memory p.1 va ≠ .fault := by rw [hwalk]; simp
    obtain ⟨s, hs, hframe, domain', hwalk'⟩ := (hmaps p hp).exists_frame (fun s hs => (hvalid s hs).1)
      (fun s hs => (hvalid s hs).2) (addressSpaces_pagesApart h hd.kernelApart hp).1 hne
    rw [hwalk] at hwalk'
    injection hwalk' with hpa
    rw [hpa]
    exact ⟨s, hs, hframe⟩
  obtain ⟨s1, hs1, hframe1⟩ := hsection (p := (k.task1.table1, k.taskMap k.task1Sections))
    (List.mem_cons_of_mem _ List.mem_cons_self) ((Link.firstTask h hd.kernelApart).map_valid h) h1
  obtain ⟨s2, hs2, hframe2⟩ := hsection (p := (k.task2.table1, k.taskMap k.task2Sections))
    (List.mem_cons_of_mem _ (List.mem_cons_of_mem _ List.mem_cons_self))
    ((Link.secondTask h hd.kernelApart).map_valid h) h2
  rcases List.mem_append.1 hs1 with hkernel | htask1
  · exact ⟨s1, hkernel, hframe1⟩
  · rcases List.mem_append.1 hs2 with hkernel | htask2
    · exact ⟨s2, hkernel, hframe2⟩
    · exact absurd hframe2 (Link.tasks_framesApart hd htask1 htask2 frame hframe1)

/-- From memory as `copy_kernel_sections_to_ram` leaves it, `mmu_init` and `prv_task_init` return, and the
address spaces are then isolated. -/
theorem address_spaces_isolated (h : k.Linked) (hd : k.FramesDisjoint) (hb : Booted k b) :
    ∃ b1 b2, Returns (fun n => mmuInit k n b) b1 ∧ Returns (fun n => prvTaskInit k n b1) b2 ∧ Isolated k b2 := by
  obtain ⟨b1, b2, maps, q, hrun1, hrun2, -, hc, hheld, hspaces, -⟩ := boot_spec h hd.kernelApart hb
  have hmaps := hheld.addressSpaces hspaces
  have hcommon : ∀ s ∈ k.kernelMap, ∀ va, s.Touches (pageOf va) → ∀ p ∈ k.addressSpaces,
      ∃ domain, walk b2.mmu.mem p.1 va = .smallPage va domain s.attributes := fun s hs va htouches p hp =>
    walk_kernelMap h hd.kernelApart hp (hmaps p hp) hs htouches
  refine ⟨b1, b2, hrun1, hrun2, hcommon, ?_, fun frame => shared_kernel h hd hmaps,
    fun p hp => (hmaps p hp).unmapped, ?_⟩
  · intro s hs va htouches p hp privileged access
    obtain ⟨domain, hwalk⟩ := hcommon s hs va htouches p hp
    exact (hc.uses (h := h) (addressSpaces_table1 hp)).translate_eq hwalk privileged access
  · intro p hp va
    by_cases htouched : ∃ s ∈ p.2, s.Touches (pageOf va)
    · obtain ⟨s, hs, htouches⟩ := htouched
      obtain ⟨domain, hwalk⟩ := (hmaps p hp).walk_eq (addressSpaces_pagesApart h hd.kernelApart hp).1 hs htouches
      exact .inr ⟨_, domain, _, hwalk⟩
    · exact .inl ((hmaps p hp).unmapped va fun s hs htouches => htouched ⟨s, hs, htouches⟩)

end

/-! ## An image with small tasks -/

def exampleBootLayout : Layout where
  contexts := 0x1C196800
  irqReturn := 0x1C008800
  irqStackLimit := 0x1C008000
  irqStackTop := 0x1C008080
  undStackLimit := 0x1C008200
  undStackTop := 0x1C008280
  contexts_lt := by decide
  irqReturn_lt := by decide
  irqStack_lt := by decide
  undStack_lt := by decide
  irqReturn_contexts := by decide
  irqReturn_irqStack := by decide
  irqStack_contexts := by decide
  undStack_contexts := by decide

def exampleTask1 : TaskLink where
  sections := 0x1C008C44
  table1 := 0x1C04D000
  entrypoint := 0x71020000
  stackTop := 0x71023000
  ldTextVma := 0x71020000
  ldTextLma := 0x70013000
  ldTextSize := 0x124
  ldDataVma := 0x71021000
  ldDataLma := 0x70013124
  ldDataSize := 8
  ldRodataVma := 0x71022000
  ldRodataLma := 0x7001312C
  ldRodataSize := 0
  ldStackVma := 0x71022000
  ldStackSize := 0x1000
  ldBssVma := 0x71023000
  ldBssSize := 6
  ldReadingAreaVma := 0x71024000
  ldReadingAreaSize := 0x10000

def exampleTask2 : TaskLink where
  sections := 0x1C008C5C
  table1 := 0x1C08D000
  entrypoint := 0x72020000
  stackTop := 0x72023000
  ldTextVma := 0x72020000
  ldTextLma := 0x7001312C
  ldTextSize := 0x1204
  ldDataVma := 0x72022000
  ldDataLma := 0x70014330
  ldDataSize := 0
  ldRodataVma := 0x72022000
  ldRodataLma := 0x70014330
  ldRodataSize := 0x10
  ldStackVma := 0x72023000
  ldStackSize := 0x1000
  ldBssVma := 0x72024000
  ldBssSize := 0
  ldReadingAreaVma := 0x72024000
  ldReadingAreaSize := 0x10000

def exampleLink : Link where
  ldInitSize := 0x420
  ldVectorTableSize := 0x40
  ldKernelTextSize := 0x2000
  ldKernelDataSize := 0x100
  ldKernelRodataSize := 0x1D0
  ldKernelStackSize := 0xD00
  ldKernelBssSize := 0x62A000
  ldKernelPublicDataSize := 0
  ldKernelSyscallSize := 0x200
  kernelSectionsAddr := 0x1C008C00
  hardwareSectionsAddr := 0x1C008C28
  kernelTable1 := 0x1C00D000
  ldPageTable2 := 0x1C10D0
  layout := exampleBootLayout
  prvIdleTask := 0x70025001
  stackIdleTask := 0x70020D00
  task1 := exampleTask1
  task2 := exampleTask2

theorem exampleLink_linked : exampleLink.Linked := by
  have htask1 : exampleTask1.Linked ldTask1RamOrigin := by
    refine ⟨?_, by decide, by decide, by decide, by decide, by decide, by decide, by decide, ⟨by decide, by decide⟩,
      ⟨by decide, by decide⟩, ⟨by decide, by decide⟩⟩
    simp only [List.forall_mem_cons]
    exact ⟨by decide, by decide, by decide, by decide, by decide, by decide, by simp⟩
  have htask2 : exampleTask2.Linked ldTask2RamOrigin := by
    refine ⟨?_, by decide, by decide, by decide, by decide, by decide, by decide, by decide, ⟨by decide, by decide⟩,
      ⟨by decide, by decide⟩, ⟨by decide, by decide⟩⟩
    simp only [List.forall_mem_cons]
    exact ⟨by decide, by decide, by decide, by decide, by decide, by decide, by simp⟩
  exact ⟨by decide, by decide, by decide, htask1, htask2, by decide, by decide, by decide, by decide, by decide⟩

theorem exampleLink_disjoint : exampleLink.FramesDisjoint := by
  have hranges : (exampleLink.kernelSections ++ (exampleLink.task1Sections ++ exampleLink.task2Sections)).Pairwise
      fun s s' => s.pa.toNat + s.size.toNat ≤ s'.pa.toNat ∨ s'.pa.toNat + s'.size.toNat ≤ s.pa.toNat := by
    decide +kernel
  have haligned : ∀ s ∈ exampleLink.kernelSections ++ (exampleLink.task1Sections ++ exampleLink.task2Sections),
      2 ^ 12 ∣ s.pa.toNat := by
    decide +kernel
  refine hranges.imp_of_mem ?_
  rintro s s' hs hs' (hle | hle)
  · exact framesApart_of_le (haligned s' hs') hle
  · exact (framesApart_of_le (haligned s hs) hle).symm

/-- The words of a descriptor -/
def SectionDesc.words (s : SectionDesc) : List Word := [s.vma, s.size, s.pa, s.gsx ++ s.mem ++ s.ap ++ s.domain]

/-- ROM with a different word at each address, and the section tables -/
def exampleBoot : Boot where
  mmu := {
    mem := fun w =>
      if 0x1C004000 ≤ w ∧ w < 0x1C008000 then BitVec.ofNat 32 w
      else if 0x1C008C00 ≤ w ∧ w < 0x1C008C74 then
        ((exampleLink.sectionTables.flatMap (·.2)).flatMap SectionDesc.words).getD (w - 0x1C008C00) 0
      else 0
    wTable2Qtty := 0
    wRamUsedPages := 0 }
  cp15 := ⟨0x00C50078, 0, 0, 0, 0⟩

theorem exampleBoot_booted : Booted exampleLink exampleBoot := by
  refine ⟨?_, rfl, rfl, ?_⟩
  · intro w hlo _
    change 0x70031000 ≤ 4 * w at hlo
    have hrom : ¬ (0x1C004000 ≤ w ∧ w < 0x1C008000) := by omega
    have htables : ¬ (0x1C008C00 ≤ w ∧ w < 0x1C008C74) := by omega
    exact (if_neg hrom).trans (if_neg htables)
  · have hstored : ∀ p ∈ exampleLink.sectionTables, ∀ j : Fin p.2.length,
        exampleBoot.mmu.mem (p.1 + 4 * j) = p.2[j].vma ∧ exampleBoot.mmu.mem (p.1 + 4 * j + 1) = p.2[j].size ∧
        exampleBoot.mmu.mem (p.1 + 4 * j + 2) = p.2[j].pa ∧ exampleBoot.mmu.mem (p.1 + 4 * j + 3) =
          p.2[j].gsx ++ p.2[j].mem ++ p.2[j].ap ++ p.2[j].domain := by
      decide +kernel
    intro p hp j hj
    exact hstored p hp ⟨j, hj⟩

theorem address_spaces_isolated_small : ∃ b1 b2, Returns (fun n => mmuInit exampleLink n exampleBoot) b1 ∧
    Returns (fun n => prvTaskInit exampleLink n b1) b2 ∧ Isolated exampleLink b2 :=
  address_spaces_isolated exampleLink_linked exampleLink_disjoint exampleBoot_booted

section
variable {k : Link} {b : Boot}

/-! ## The images -/

/-- A byte that a task reads through its own table -/
def Boot.readBy (b : Boot) (t : Nat) (va : Word) : Option Word :=
  ({ b.cp15 with ttbr0 := addrOf t } : Cp15).ldrb b.mmu.mem false va

/-- The task reads the images that `rom` has of its sections, and zeros in its `.bss`. -/
structure ReadsImages (b : Boot) (task : TaskLink) (rom : Nat → Word) : Prop where
  text : ∀ i < task.ldTextSize.toNat, b.readBy task.table1 (task.ldTextVma + BitVec.ofNat 32 i) =
    some (byteAt rom (task.ldTextLma + BitVec.ofNat 32 i))
  data : ∀ i < task.ldDataSize.toNat, b.readBy task.table1 (task.ldDataVma + BitVec.ofNat 32 i) =
    some (byteAt rom (task.ldDataLma + BitVec.ofNat 32 i))
  rodata : ∀ i < task.ldRodataSize.toNat, b.readBy task.table1 (task.ldRodataVma + BitVec.ofNat 32 i) =
    some (byteAt rom (task.ldRodataLma + BitVec.ofNat 32 i))
  bss : ∀ i < task.ldBssSize.toNat, b.readBy task.table1 (task.ldBssVma + BitVec.ofNat 32 i) = some 0

/-- A task reads what its physical pages hold. -/
theorem Link.Task.reads {h : k.Linked} (hd : k.KernelApart) {maps : Nat → List SectionDesc} {q : Nat}
    {rom rom' : Nat → Word} (hheld : Held k h maps q rom' b.mmu) (hc : Configured b.cp15) (T : k.Task)
    (hmaps : maps T.link.table1 = k.taskMap T.sections) (hloaded : T.Loaded rom b.mmu.mem) :
    ReadsImages b T.link rom := by
  have hread {s : SectionDesc} (hs : s ∈ T.sections) (hap : permits s.attributes.ap false .load = true)
      {value : Nat → Word} (himage : Image s value b.mmu.mem) :
      ∀ i < s.size.toNat, b.readBy T.link.table1 (s.vma + BitVec.ofNat 32 i) = some (value i) := by
    intro i hi
    have htranslate := translate_section hd hheld T hmaps (hc.uses (h := h) T.table1) hs hap hi
    rw [Boot.readBy, Cp15.ldrb, htranslate, Option.map_some, himage i hi]
  have hread_rw : permits (AP_RW_RW.setWidth 3) false .load = true := by decide
  have hread_r : permits (AP_RW_R.setWidth 3) false .load = true := by decide
  exact ⟨hread (text_mem T) hread_r hloaded.text, hread (data_mem T) hread_rw hloaded.data,
    hread (rodata_mem T) hread_r hloaded.rodata, hread (bss_mem T) hread_rw hloaded.bss⟩

/-- When `prv_task_init` has returned, both tasks read their images. -/
theorem task_images_loaded (h : k.Linked) (hd : k.FramesDisjoint) (hb : Booted k b) :
    ∃ b1 b2, Returns (fun n => mmuInit k n b) b1 ∧ Returns (fun n => prvTaskInit k n b1) b2 ∧
      ReadsImages b2 k.task1 b.mmu.mem ∧ ReadsImages b2 k.task2 b.mmu.mem := by
  obtain ⟨b1, b2, maps, q, hrun1, hrun2, -, hc, hheld, hspaces, hloaded⟩ := boot_spec h hd.kernelApart hb
  obtain ⟨hloaded1, hloaded2⟩ := hloaded hd
  refine ⟨b1, b2, hrun1, hrun2, ?_, ?_⟩
  · exact (Link.firstTask h hd.kernelApart).reads hd.kernelApart hheld hc
      (hspaces _ (List.mem_cons_of_mem _ List.mem_cons_self)) hloaded1
  · exact (Link.secondTask h hd.kernelApart).reads hd.kernelApart hheld hc
      (hspaces _ (List.mem_cons_of_mem _ (List.mem_cons_of_mem _ List.mem_cons_self))) hloaded2

end

/-- The first byte of the second task's text -/
theorem task_images_loaded_small : ∃ b1 b2, Returns (fun n => mmuInit exampleLink n exampleBoot) b1 ∧
    Returns (fun n => prvTaskInit exampleLink n b1) b2 ∧ b2.readBy exampleTask2.table1 0x72020000 = some 0x4B := by
  obtain ⟨b1, b2, hrun1, hrun2, -, himages⟩ :=
    task_images_loaded exampleLink_linked exampleLink_disjoint exampleBoot_booted
  exact ⟨b1, b2, hrun1, hrun2, himages.text 0 (by decide)⟩

end Td3.Kernel
