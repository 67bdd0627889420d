/-
The tables of the kernel under demand mapping, with and without ENABLE_TESTING: the sections that the
kernel has, its tasks and the testing code name physical pages below free RAM or none, and the tables lie
below it. So no run of fillings, faults and stores makes two pages share one of free RAM.
-/
import Td3.Kernel.DemandMap

namespace Td3.Kernel

open Arm PageTables SectionDesc

/-! ## Builds -/

/-- The linker's symbols of the testing code. `sections` and `table1` are the words at which its section
table and its level-1 table start. -/
structure TestingLink where
  sections : Nat
  table1 : Nat
  ldTextVma : Word
  ldTextSize : Word
  ldDataVma : Word
  ldDataSize : Word
  ldRodataVma : Word
  ldRodataSize : Word
  ldStackVma : Word
  ldStackSize : Word
  ldBssVma : Word
  ldBssSize : Word

/-- `testing_sections` -/
def TestingLink.testingSections (k : TestingLink) : List SectionDesc :=
  [taskSection k.ldTextVma k.ldTextSize NO_PA DOMAIN_RAM_FREE AP_RW_R NG_S_X,
    taskSection k.ldDataVma k.ldDataSize NO_PA DOMAIN_RAM_FREE AP_RW_RW NG_S_NX,
    taskSection k.ldRodataVma k.ldRodataSize NO_PA DOMAIN_RAM_FREE AP_RW_R NG_S_NX,
    taskSection k.ldStackVma k.ldStackSize NO_PA DOMAIN_STACK AP_RW_RW NG_S_NX,
    taskSection k.ldBssVma k.ldBssSize NO_PA DOMAIN_RAM_FREE AP_RW_RW NG_S_NX]

/-- An image, with the testing code where ENABLE_TESTING is defined -/
structure Build where
  link : Link
  testing : Option TestingLink

namespace Build

variable (b : Build)

def table1s : List Nat :=
  [b.link.kernelTable1, b.link.task1.table1, b.link.task2.table1] ++ (b.testing.map TestingLink.table1).toList

/-- TABLE2_QTTY for the kernel, for each task and for the testing code -/
def table2s : Nat := if b.testing.isSome then 4 * TABLE2_QTTY else 3 * TABLE2_QTTY

def sectionTables : List (Nat × List SectionDesc) :=
  b.link.sectionTables ++ (b.testing.map fun k => (k.sections, k.testingSections)).toList

/-- What the linker scripts say of the tables, those of the testing code among them -/
structure Linked : Prop where
  link : b.link.Linked
  table1s : ∀ t ∈ b.table1s,
    4096 ∣ t ∧ b.link.kernelBss.vma.toNat ≤ 4 * t ∧ t + 4096 ≤ 256 * b.link.ldPageTable2
  contexts : 256 * (b.link.ldPageTable2 + b.table2s) ≤ b.link.layout.contexts

variable {b}

theorem Linked.below (h : b.Linked) : 256 * (b.link.ldPageTable2 + b.table2s) < 0x71020000 / 4 := by
  have hcontexts := h.contexts
  have hbss := h.link.bss
  have hend : b.link.kernelBss.vma.toNat + b.link.kernelBss.size.toNat ≤ 0x71020000 :=
    h.link.kernelRam _ (by simp [Link.ramSections])
  have hwords : 0 < contextWords * SCHEDULER_MAX_TASKS := by decide
  omega

theorem Linked.pool_le (h : b.Linked) : b.link.ldPageTable2 + b.table2s ≤ 2 ^ 22 := by
  have hbelow := h.below
  omega

theorem Linked.table1_le (h : b.Linked) : ∀ t ∈ b.table1s, t + 4096 ≤ 2 ^ 30 := by
  intro t ht
  have htable := h.table1s t ht
  have hbelow := h.below
  omega

def pageTables (b : Build) (h : b.Linked) : PageTables where
  pool := b.link.ldPageTable2
  table2s := b.table2s
  freeFrame := 0x80000
  ramPages := 0x10000
  table1s := {t | t ∈ b.table1s}
  pool_lt := h.pool_le
  ram_lt := Link.freeRam_le
  table1_aligned := fun t ht => (h.table1s t ht).1
  table1_lt := h.table1_le
  table1_pool := fun t ht => .inl (h.table1s t ht).2.2

theorem mmuSymbols_eq (h : b.Linked) : b.link.mmuSymbols = (b.pageTables h).symbols :=
  congrArg (MmuSymbols.mk _) (by decide : ldFreeRamOrigin = BitVec.ofNat 32 (2 ^ 12 * 0x80000))

/-! ## Free RAM -/

/-- The tables are in the kernel's RAM. -/
theorem tables_outside (h : b.Linked) (w : Nat) (hw : (b.pageTables h).Tables w) :
    ¬ (b.pageTables h).FreeFrame (w / 1024) := by
  rintro ⟨hlo, -⟩
  change 0x80000 ≤ w / 1024 at hlo
  have hbelow := h.below
  rcases hw with ⟨t, ht, i, hi, rfl⟩ | ⟨-, hhi⟩
  · obtain ⟨-, -, hend⟩ := h.table1s t ht
    omega
  · change w < 256 * (b.link.ldPageTable2 + b.table2s) at hhi
    omega

theorem outside_of_le (h : b.Linked) {s : SectionDesc} (hs : s.pa.toNat + s.size.toNat ≤ 2 ^ 31) :
    (b.pageTables h).OutsideFreeRam s := by
  rintro - frame ⟨-, hend⟩ ⟨hlo, -⟩
  change 0x80000 ≤ frame at hlo
  omega

/-- No section of the kernel, the devices and the tasks has a page of free RAM, and those of the testing code
have no pages of their own. -/
theorem sectionTables_outside (h : b.Linked) :
    ∀ p ∈ b.sectionTables, ∀ s ∈ p.2, (b.pageTables h).OutsideFreeRam s := by
  have hidentity {s : SectionDesc} (hs : s.Identity) : (b.pageTables h).OutsideFreeRam s := by
    refine outside_of_le h ?_
    have hbelow := hs.below
    change _ ≤ 0x71020000 at hbelow
    rw [hs.pa]
    omega
  have htask {task : TaskLink} {frames : TaskFrames} {origin : Word} (hlinked : task.Linked origin)
      (hfixed : frames.Fixed) : ∀ s ∈ task.taskSections frames, (b.pageTables h).OutsideFreeRam s := by
    intro s hs
    have hin := TaskLink.taskSections_inTask hlinked hfixed s hs
    have hlo := hin.le_vma
    have hhi := hin.vma_le
    have hpa := hin.pa_le
    exact outside_of_le h (by omega)
  intro p hp
  rcases List.mem_append.1 hp with hp | hp
  · simp only [Link.sectionTables, List.mem_cons, List.not_mem_nil, or_false] at hp
    rcases hp with rfl | rfl | rfl | rfl
    · exact fun s hs => hidentity (Link.kernel_identity h.link s hs)
    · exact fun s hs => hidentity (hardware_identity s hs)
    · exact htask h.link.task1 task1Frames_fixed
    · exact htask h.link.task2 task2Frames_fixed
  · obtain ⟨k, -, rfl⟩ := Option.map_eq_some_iff.1 (Option.mem_toList.1 hp)
    intro s hs hpa
    have hfree : ∀ s ∈ k.testingSections, s.pa = NO_PA := by
      simp only [TestingLink.testingSections, List.forall_mem_cons]
      exact ⟨rfl, rfl, rfl, rfl, rfl, by simp⟩
    exact absurd (hfree s hs) hpa

/-! ## What each build does -/

variable (b) in
/-- `mmu_fill_page_tables` is called with a section table of the build, in any order; the pool and free RAM
are not exhausted, and only the two functions write to the tables. -/
def Allowed (h : b.Linked) (m : Mmu) : DemandEvent → Prop
  | .fill t a ss _ => (a, ss) ∈ b.sectionTables ∧ FillCall (b.pageTables h) 32 t a ss m
  | .abort t va rw => (b.pageTables h).Allowed m (.abort t va rw)
  | .store t va v => (b.pageTables h).Allowed m (.store t va v)

theorem Allowed.pageTables {h : b.Linked} {m : Mmu} {e : DemandEvent} (hallowed : b.Allowed h m e) :
    (b.pageTables h).Allowed m e := by
  cases e with
  | fill t a ss n =>
    obtain ⟨hin, hcall⟩ := hallowed
    exact ⟨hcall, sectionTables_outside h (a, ss) hin⟩
  | abort t va rw => exact hallowed
  | store t va v => exact hallowed

variable (b) in
/-- Before the first call: the kernel's `.bss` is cleared, and with it the tables, and so are the counters. -/
structure Cleared (m : Mmu) : Prop where
  bss : ∀ w, b.link.kernelBss.vma.toNat ≤ 4 * w →
    4 * w + 4 ≤ b.link.kernelBss.vma.toNat + b.link.kernelBss.size.toNat → m.mem w = 0
  wTable2Qtty : m.wTable2Qtty = 0
  wRamUsedPages : m.wRamUsedPages = 0

theorem Cleared.owned (h : b.Linked) {m : Mmu} (hcleared : b.Cleared m) : (b.pageTables h).Owned m := by
  refine owned_start ?_ hcleared.wTable2Qtty hcleared.wRamUsedPages
  intro w hw
  have hcontexts := h.contexts
  have hbss := h.link.bss
  have hwords : 0 < contextWords * SCHEDULER_MAX_TASKS := by decide
  rcases hw with ⟨t, ht, i, hi, rfl⟩ | ⟨hlo, hhi⟩
  · obtain ⟨-, hle, hend⟩ := h.table1s t ht
    exact hcleared.bss _ (by omega) (by omega)
  · obtain ⟨-, hle, hend⟩ := h.link.table1s b.link.kernelTable1 List.mem_cons_self
    change 256 * b.link.ldPageTable2 ≤ w at hlo
    change w < 256 * (b.link.ldPageTable2 + b.table2s) at hhi
    exact hcleared.bss _ (by omega) (by omega)

variable (b) in
/-- What a fault leaves: the page of `va` has one of free RAM for itself, and keeps it, and what is stored in
it is read back, until the page is mapped anew. -/
structure Demanded (h : b.Linked) (t : Nat) (va pa : Word) (m : Mmu) : Prop where
  exclusive : (b.pageTables h).Exclusive t va pa m
  kept : ∀ m1, Run ((b.pageTables h).demandStep b.testing.isSome)
    (fun m e => b.Allowed h m e ∧ ¬ e.Remaps t va) m m1 → (b.pageTables h).Exclusive t va pa m1 ∧
      (b.pageTables h).ReadsBack b.testing.isSome (b.Allowed h) t va m1

theorem readsBack_mono {L : PageTables} {testing : Bool} {allowed allowed' : Mmu → DemandEvent → Prop} {t : Nat}
    {va : Word} {m : Mmu} (h : L.ReadsBack testing allowed t va m)
    (himp : ∀ m e, allowed' m e → allowed m e) : L.ReadsBack testing allowed' t va m := by
  intro va1 v hpage
  obtain ⟨m1, hstored, hback⟩ := h va1 v hpage
  refine ⟨m1, hstored, fun m2 hrun => hback m2 (hrun.mono ?_)⟩
  rintro m3 e ⟨hallowed, hkeeps⟩
  exact ⟨himp m3 e hallowed, hkeeps⟩

/-- A fault in a state that the tables have kept: what `Owned.demand` gives, and what follows for each run
from there on. -/
theorem demanded (h : b.Linked) {m : Mmu} {t : Nat} {va : Word} {rw : Access} (howned : (b.pageTables h).Owned m)
    (hallowed : b.Allowed h m (.abort t va rw)) (hfault : walk m.mem t va = .fault) :
    ∃ m' pa, abtHandler b.testing.isSome b.link.mmuSymbols (addrOf t) (translationFault m.mem t va) va rw m =
      (RETURN_TO_SAME, m') ∧ b.Demanded h t va pa m' ∧
      ∀ t' ∈ b.table1s, ∀ va', walk m.mem t' va' ≠ .fault → walk m'.mem t' va' = walk m.mem t' va' := by
  rw [mmuSymbols_eq h]
  obtain ⟨m', pa, hrun, howned', hexclusive, hothers⟩ :=
    howned.demand b.testing.isSome hallowed.pageTables hfault
  refine ⟨m', pa, hrun, ⟨hexclusive, ?_⟩, hothers⟩
  intro m1 hrun1
  have ht : t ∈ (b.pageTables h).table1s := hallowed.1
  have hrun2 : Run ((b.pageTables h).demandStep b.testing.isSome)
      (fun m e => (b.pageTables h).Allowed m e ∧ ¬ e.Remaps t va) m' m1 :=
    hrun1.mono fun m e hguard => ⟨hguard.1.pageTables, hguard.2⟩
  obtain ⟨howned1, hexclusive1⟩ := hexclusive.run howned' ht hrun2
  have hback := hexclusive1.readsBack b.testing.isSome howned1 ht (tables_outside h)
  exact ⟨hexclusive1, readsBack_mono hback fun _ _ => Allowed.pageTables⟩

end Build

/-- From cleared tables on, whatever is filled, faults and is stored in whatever order: the page of the next
fault translates, by a page of free RAM that no other page of any table has, and all that translated before
translates as it did. What is then stored in the page is read back, until it is stored there again through the
same page. -/
theorem demand_mapping_never_aliases {b : Build} (h : b.Linked) {m0 m : Mmu} (hcleared : b.Cleared m0)
    (hrun : Run ((b.pageTables h).demandStep b.testing.isSome) (b.Allowed h) m0 m) {t : Nat} {va : Word}
    {rw : Access} (hallowed : b.Allowed h m (.abort t va rw)) (hfault : walk m.mem t va = .fault) :
    ∃ m' pa, abtHandler b.testing.isSome b.link.mmuSymbols (addrOf t) (translationFault m.mem t va) va rw m =
      (RETURN_TO_SAME, m') ∧ b.Demanded h t va pa m' ∧
      ∀ t' ∈ b.table1s, ∀ va', walk m.mem t' va' ≠ .fault → walk m'.mem t' va' = walk m.mem t' va' :=
  Build.demanded h (owned_run (hcleared.owned h) (hrun.mono fun _ _ => Build.Allowed.pageTables)) hallowed hfault

/-! ## A page of two tables -/

def exampleBuild : Build := ⟨exampleLink, none⟩

theorem exampleBuild_linked : exampleBuild.Linked :=
  ⟨exampleLink_linked, exampleLink_linked.table1s, exampleLink_linked.contexts⟩

/-- The page at 0x60000000 has been mapped by the kernel's table. -/
def exampleFaulted : Mmu :=
  exampleBoot.mmu.mmuFillPteFromVma exampleLink.mmuSymbols (addrOf exampleLink.kernelTable1) 0x60000000

/-- The same page faults under the first task's table, and the kernel's keeps what it has. -/
theorem demand_mapping_never_aliases_small : ∃ m' pa, abtHandler false exampleLink.mmuSymbols
    (addrOf exampleTask1.table1) .sectionTranslation 0x60000000 .store exampleFaulted = (RETURN_TO_SAME, m') ∧
      exampleBuild.Demanded exampleBuild_linked exampleTask1.table1 0x60000000 pa m' ∧
      walk m'.mem exampleLink.kernelTable1 0x60000000 =
        walk exampleFaulted.mem exampleLink.kernelTable1 0x60000000 := by
  have hcleared : exampleBuild.Cleared exampleBoot.mmu :=
    ⟨exampleBoot_booted.bss, exampleBoot_booted.wTable2Qtty, exampleBoot_booted.wRamUsedPages⟩
  have hfirst : walk exampleBoot.mmu.mem exampleLink.kernelTable1 0x60000000 = .fault := by decide +kernel
  have hallowed1 : exampleBuild.Allowed exampleBuild_linked exampleBoot.mmu
      (.abort exampleLink.kernelTable1 0x60000000 .load) :=
    ⟨List.mem_cons_self, fun _ => by decide +kernel, by decide +kernel⟩
  have hrun : Run ((exampleBuild.pageTables exampleBuild_linked).demandStep exampleBuild.testing.isSome)
      (exampleBuild.Allowed exampleBuild_linked) exampleBoot.mmu exampleFaulted := by
    refine .step _ .start hallowed1 ?_
    rw [demandStep, if_pos hfirst, abtHandler_translationFault, ← Build.mmuSymbols_eq exampleBuild_linked]
    rfl
  have hallowed2 : exampleBuild.Allowed exampleBuild_linked exampleFaulted
      (.abort exampleTask1.table1 0x60000000 .store) :=
    ⟨List.mem_cons_of_mem _ List.mem_cons_self, fun _ => by decide +kernel, by decide +kernel⟩
  have hsecond : walk exampleFaulted.mem exampleTask1.table1 0x60000000 = .fault := by decide +kernel
  have hmapped : walk exampleFaulted.mem exampleLink.kernelTable1 0x60000000 ≠ .fault := by decide +kernel
  obtain ⟨m', pa, hhandled, hdemanded, hothers⟩ :=
    demand_mapping_never_aliases exampleBuild_linked hcleared hrun hallowed2 hsecond
  have hcode : translationFault exampleFaulted.mem exampleTask1.table1 0x60000000 = .sectionTranslation := by
    decide +kernel
  rw [hcode] at hhandled
  exact ⟨m', pa, hhandled, hdemanded, hothers _ List.mem_cons_self _ hmapped⟩

/-! ## After `prv_task_init` -/

/-- Tables that map no page of free RAM while none has been handed out -/
theorem Spaces.owned {L : PageTables} {maps : Nat → List SectionDesc} {q : Nat} {m : Mmu} (h : Spaces L maps q m)
    (hnone : ∀ t ∈ L.table1s, ∀ va frame, MapsTo m.mem t va frame → ¬ L.FreeFrame frame) : L.Owned m := by
  refine ⟨h.inv, ?_, ?_, ?_⟩
  · rw [h.used]
    exact Nat.zero_le _
  · intro t ht va frame hmaps hfree
    exact absurd hfree (hnone t ht va frame hmaps)
  · intro t ht t' ht' va va' frame hmaps hmaps' hfree
    exact absurd hfree (hnone t ht va frame hmaps)

section
variable {k : Link} {b : Boot}

theorem Link.build_linked (h : k.Linked) : (⟨k, none⟩ : Build).Linked := ⟨h, h.table1s, h.contexts⟩

theorem addressSpaces_outside (h : k.Linked) (hd : k.KernelApart) : ∀ p ∈ k.addressSpaces, ∀ s ∈ p.2,
    (s.Valid 32 ∧ s.pa ≠ NO_PA) ∧ (k.pageTables h).OutsideFreeRam s := by
  have houtside := Build.sectionTables_outside (Link.build_linked h)
  have hkernel : ∀ s ∈ k.kernelMap, (k.pageTables h).OutsideFreeRam s := by
    intro s hs
    rcases List.mem_append.1 hs with hs | hs
    · exact houtside (k.kernelSectionsAddr, k.kernelSections) (by simp [Build.sectionTables, Link.sectionTables]) s hs
    · exact houtside (k.hardwareSectionsAddr, hardwareSections) (by simp [Build.sectionTables, Link.sectionTables]) s hs
  intro p hp s hs
  simp only [Link.addressSpaces, List.mem_cons, List.not_mem_nil, or_false] at hp
  rcases hp with rfl | rfl | rfl
  · have hidentity := Link.kernelMap_identity h s hs
    exact ⟨⟨hidentity.valid, hidentity.fixed⟩, hkernel s hs⟩
  · refine ⟨(Link.firstTask h hd).map_valid h s hs, ?_⟩
    rcases List.mem_append.1 hs with hs | hs
    · exact hkernel s hs
    · exact houtside (k.task1.sections, k.task1Sections) (by simp [Build.sectionTables, Link.sectionTables]) s hs
  · refine ⟨(Link.secondTask h hd).map_valid h s hs, ?_⟩
    rcases List.mem_append.1 hs with hs | hs
    · exact hkernel s hs
    · exact houtside (k.task2.sections, k.task2Sections) (by simp [Build.sectionTables, Link.sectionTables]) s hs

/-- What the kernel and its tasks have mapped when `prv_task_init` returns is not of free RAM. -/
theorem Held.owned (h : k.Linked) (hd : k.KernelApart) {maps : Nat → List SectionDesc} {q : Nat} {rom : Nat → Word}
    {m : Mmu} (hheld : Held k h maps q rom m) (hspaces : ∀ p ∈ k.addressSpaces, maps p.1 = p.2) :
    (k.pageTables h).Owned m := by
  refine hheld.spaces.owned ?_
  rintro t ht va frame ⟨pa, domain, attributes, hwalk, rfl⟩
  have hspace : ∃ p ∈ k.addressSpaces, p.1 = t := by
    change t ∈ [k.kernelTable1, k.task1.table1, k.task2.table1] at ht
    simp only [List.mem_cons, List.not_mem_nil, or_false] at ht
    rcases ht with rfl | rfl | rfl <;> simp [Link.addressSpaces]
  obtain ⟨p, hp, rfl⟩ := hspace
  have hsections := addressSpaces_outside h hd p hp
  have hmapped : walk m.mem p.1 va ≠ .fault := by
    rw [hwalk]
    simp
  obtain ⟨s, hs, hframe, domain', hwalk'⟩ := (hheld.addressSpaces hspaces p hp).exists_frame
    (fun s hs => (hsections s hs).1.1) (fun s hs => (hsections s hs).1.2) (addressSpaces_pagesApart h hd hp).1 hmapped
  rw [hwalk] at hwalk'
  injection hwalk' with hpa
  rw [hpa]
  exact (hsections s hs).2 (hsections s hs).1.2 _ hframe

/-- So it goes on from there as from cleared tables. -/
theorem boot_demanded (h : k.Linked) (hd : k.KernelApart) (hb : Booted k b) :
    ∃ b1 b2, Returns (fun n => mmuInit k n b) b1 ∧ Returns (fun n => prvTaskInit k n b1) b2 ∧
      ∀ m, Run ((k.pageTables h).demandStep false) ((⟨k, none⟩ : Build).Allowed (Link.build_linked h)) b2.mmu m →
        ∀ t va rw, (⟨k, none⟩ : Build).Allowed (Link.build_linked h) m (.abort t va rw) → walk m.mem t va = .fault →
          ∃ m' pa, abtHandler false k.mmuSymbols (addrOf t) (translationFault m.mem t va) va rw m =
            (RETURN_TO_SAME, m') ∧ (⟨k, none⟩ : Build).Demanded (Link.build_linked h) t va pa m' := by
  obtain ⟨b1, b2, maps, q, hrun1, hrun2, -, -, hheld, hspaces, -⟩ := boot_spec h hd hb
  refine ⟨b1, b2, hrun1, hrun2, ?_⟩
  intro m hrun t va rw hallowed hfault
  have howned : ((⟨k, none⟩ : Build).pageTables (Link.build_linked h)).Owned m :=
    owned_run (hheld.owned h hd hspaces) (hrun.mono fun _ _ => Build.Allowed.pageTables)
  obtain ⟨m', pa, hhandled, hdemanded, -⟩ := Build.demanded (Link.build_linked h) howned hallowed hfault
  exact ⟨m', pa, hhandled, hdemanded⟩

end

end Td3.Kernel
