/-
The section tables (kernel/sections) and what the linker scripts say of the symbols in them: kernel
sections and devices are mapped where they are, and each task's sections, in RAM of its own, to fixed
physical pages. The tables of the MMU, the section tables and the scheduler's contexts lie in sections
of the kernel.
-/
import Td3.Kernel.AddressSpace
import Td3.Kernel.Scheduler

namespace Td3.Kernel

open Arm SectionDesc

/-! ## Constants (inc/kernel/mmu.h) -/

def TABLE2_QTTY : Nat := 550

def DOMAIN_DEVICE : BitVec 8 := 0b0001
def DOMAIN_KERNEL : BitVec 8 := 0b0010
def DOMAIN_RAM_FREE : BitVec 8 := 0b0011
def DOMAIN_STACK : BitVec 8 := 0b0101

def AP_RW_N : BitVec 8 := 0b001
def AP_RW_R : BitVec 8 := 0b010
def AP_RW_RW : BitVec 8 := 0b011
def AP_R_N : BitVec 8 := 0b101

def MEM_SHAREABLE_DEVICE : BitVec 8 := 0b00001
def MEM_WRITE_BACK_WRITE_ALLOCATE : BitVec 8 := 0b00111

def G_S_X : BitVec 8 := 0b010
def G_S_NX : BitVec 8 := 0b011
def NG_S_X : BitVec 8 := 0b110
def NG_S_NX : BitVec 8 := 0b111

/-! ## Regions (linker_script.ld) -/

def ldRomOrigin : Word := 0x70010000
def ldRomLength : Word := 0x10000
def ldTask1RamOrigin : Word := 0x71020000
def ldTask2RamOrigin : Word := 0x72020000
def ldRamLength : Word := 0x01000000
def ldFreeRamOrigin : Word := 0x80000000

/-! ## Symbols -/

/-- The linker's symbols of a task. `sections` and `table1` are the words at which its section table and
its level-1 table start. -/
structure TaskLink where
  sections : Nat
  table1 : Nat
  entrypoint : Word
  stackTop : Word
  ldTextVma : Word
  ldTextLma : Word
  ldTextSize : Word
  ldDataVma : Word
  ldDataLma : Word
  ldDataSize : Word
  ldRodataVma : Word
  ldRodataLma : Word
  ldRodataSize : Word
  ldStackVma : Word
  ldStackSize : Word
  ldBssVma : Word
  ldBssSize : Word
  ldReadingAreaVma : Word
  ldReadingAreaSize : Word

/-- The linker's symbols. The section tables and the level-1 table are given by the words at which they
start, the level-2 tables by the number of the first 1 KB block. -/
structure Link where
  ldInitSize : Word
  ldVectorTableSize : Word
  ldKernelTextSize : Word
  ldKernelDataSize : Word
  ldKernelRodataSize : Word
  ldKernelStackSize : Word
  ldKernelBssSize : Word
  ldKernelPublicDataSize : Word
  ldKernelSyscallSize : Word
  kernelSectionsAddr : Nat
  hardwareSectionsAddr : Nat
  kernelTable1 : Nat
  ldPageTable2 : Nat
  layout : Layout
  prvIdleTask : Word
  stackIdleTask : Word
  task1 : TaskLink
  task2 : TaskLink

/-! ## Section tables -/

/-- A section of the kernel, where its physical address is the virtual one -/
def kernelSection (vma size : Word) (ap gsx : BitVec 8) : SectionDesc :=
  ⟨vma, size, vma, DOMAIN_KERNEL, ap, MEM_WRITE_BACK_WRITE_ALLOCATE, gsx⟩

def deviceSection (vma size : Word) : SectionDesc :=
  ⟨vma, size, vma, DOMAIN_DEVICE, AP_RW_RW, MEM_SHAREABLE_DEVICE, G_S_NX⟩

namespace Link

variable (k : Link)

/-- `ALIGN(4K)` at the end of `.init` -/
def ldNotExecutableRomVma : Word := (ldRomOrigin + k.ldInitSize + 0xFFF) &&& ~~~0xFFF#32

def ldNotExecutableRomSize : Word := ldRomLength - (k.ldNotExecutableRomVma - ldRomOrigin)

def init : SectionDesc := kernelSection ldRomOrigin k.ldInitSize AP_R_N G_S_X
def vectorTable : SectionDesc := kernelSection 0x00000000 k.ldVectorTableSize AP_RW_R G_S_X
def notExecutableRom : SectionDesc := kernelSection k.ldNotExecutableRomVma k.ldNotExecutableRomSize AP_R_N G_S_NX
def kernelText : SectionDesc := kernelSection 0x70025000 k.ldKernelTextSize AP_RW_N G_S_X
def kernelData : SectionDesc := kernelSection 0x70022000 k.ldKernelDataSize AP_RW_N G_S_NX
def kernelRodata : SectionDesc := kernelSection 0x70023000 k.ldKernelRodataSize AP_R_N G_S_NX
def kernelStack : SectionDesc := kernelSection 0x70020000 k.ldKernelStackSize AP_RW_N G_S_NX
def kernelBss : SectionDesc := kernelSection 0x70031000 k.ldKernelBssSize AP_RW_N G_S_NX
def publicData : SectionDesc := kernelSection 0x70024000 k.ldKernelPublicDataSize AP_RW_RW G_S_NX
def syscall : SectionDesc := kernelSection 0x70021000 k.ldKernelSyscallSize AP_RW_R G_S_X

/-- The sections in the kernel's RAM -/
def ramSections : List SectionDesc :=
  [k.kernelText, k.kernelData, k.kernelRodata, k.kernelStack, k.kernelBss, k.publicData, k.syscall]

/-- `kernel_sections` -/
def kernelSections : List SectionDesc := k.init :: k.vectorTable :: k.notExecutableRom :: k.ramSections

end Link

/-- `hardware_sections`: GIC0, SYSCTRL0, SYSCTRL1 and the timers -/
def hardwareSections : List SectionDesc :=
  [deviceSection 0x1E000000 0x10000, deviceSection 0x10001000 0x1000, deviceSection 0x1001A000 0x1000,
    deviceSection 0x10011000 0x1000, deviceSection 0x10012000 0x1000, deviceSection 0x10018000 0x1000,
    deviceSection 0x10019000 0x1000]

/-- The physical addresses in the section table of a task -/
structure TaskFrames where
  text : Word
  data : Word
  rodata : Word
  stack : Word
  bss : Word
  readingArea : Word

def task1Frames : TaskFrames := ⟨0x70F50000, 0x70F51000, 0x70F54000, 0x70F52000, 0x70F53000, 0x70A10000⟩

def task2Frames : TaskFrames := ⟨0x70F40000, 0x70F42000, 0x70F44000, 0x70F45000, 0x70F43000, 0x70A00000⟩

def taskSection (vma size pa : Word) (domain ap gsx : BitVec 8) : SectionDesc :=
  ⟨vma, size, pa, domain, ap, MEM_WRITE_BACK_WRITE_ALLOCATE, gsx⟩

namespace TaskLink

variable (k : TaskLink) (p : TaskFrames)

def text : SectionDesc := taskSection k.ldTextVma k.ldTextSize p.text DOMAIN_RAM_FREE AP_RW_R NG_S_X
def data : SectionDesc := taskSection k.ldDataVma k.ldDataSize p.data DOMAIN_RAM_FREE AP_RW_RW NG_S_NX
def rodata : SectionDesc := taskSection k.ldRodataVma k.ldRodataSize p.rodata DOMAIN_RAM_FREE AP_RW_R NG_S_NX
def stack : SectionDesc := taskSection k.ldStackVma k.ldStackSize p.stack DOMAIN_STACK AP_RW_RW NG_S_NX
def bss : SectionDesc := taskSection k.ldBssVma k.ldBssSize p.bss DOMAIN_RAM_FREE AP_RW_RW NG_S_NX
def readingArea : SectionDesc :=
  taskSection k.ldReadingAreaVma k.ldReadingAreaSize p.readingArea DOMAIN_RAM_FREE AP_RW_N NG_S_NX

def taskSections : List SectionDesc := [k.text p, k.data p, k.rodata p, k.stack p, k.bss p, k.readingArea p]

end TaskLink

/-- `task1_sections` -/
def Link.task1Sections (k : Link) : List SectionDesc := k.task1.taskSections task1Frames

/-- `task2_sections` -/
def Link.task2Sections (k : Link) : List SectionDesc := k.task2.taskSections task2Frames

/-! ## What the linker scripts say -/

/-- An image in ROM -/
def InRom (lma size : Word) : Prop :=
  ldRomOrigin.toNat ≤ lma.toNat ∧ lma.toNat + size.toNat ≤ ldRomOrigin.toNat + ldRomLength.toNat

/-- The sections of a task follow one another in its RAM, each from a page boundary on, and the images of
those that are copied lie in ROM. -/
structure TaskLink.Linked (k : TaskLink) (origin : Word) : Prop where
  aligned : ∀ vma ∈ [k.ldTextVma, k.ldDataVma, k.ldRodataVma, k.ldStackVma, k.ldBssVma, k.ldReadingAreaVma],
    2 ^ 12 ∣ vma.toNat
  text : origin.toNat ≤ k.ldTextVma.toNat
  data : k.ldTextVma.toNat + k.ldTextSize.toNat ≤ k.ldDataVma.toNat
  rodata : k.ldDataVma.toNat + k.ldDataSize.toNat ≤ k.ldRodataVma.toNat
  stack : k.ldRodataVma.toNat + k.ldRodataSize.toNat ≤ k.ldStackVma.toNat
  bss : k.ldStackVma.toNat + k.ldStackSize.toNat ≤ k.ldBssVma.toNat
  readingArea : k.ldBssVma.toNat + k.ldBssSize.toNat ≤ k.ldReadingAreaVma.toNat
  ram : k.ldReadingAreaVma.toNat + k.ldReadingAreaSize.toNat ≤ origin.toNat + ldRamLength.toNat
  textLma : InRom k.ldTextLma k.ldTextSize
  dataLma : InRom k.ldDataLma k.ldDataSize
  rodataLma : InRom k.ldRodataLma k.ldRodataSize

/-- The words at which the section tables start, and the number of their descriptors -/
def Link.sectionTables (k : Link) : List (Nat × List SectionDesc) :=
  [(k.kernelSectionsAddr, k.kernelSections), (k.hardwareSectionsAddr, hardwareSections),
    (k.task1.sections, k.task1Sections), (k.task2.sections, k.task2Sections)]

/-- ROM, the kernel's RAM and that of the tasks hold their sections. `.kernel_bss` starts with the level-1
tables, the level-2 tables follow, TABLE2_QTTY for the kernel and for each task, and the contexts come after
them; the section tables are in `.kernel_rodata`. -/
structure Link.Linked (k : Link) : Prop where
  init : k.ldInitSize.toNat ≤ ldRomLength.toNat
  vectorTable : k.ldVectorTableSize.toNat ≤ ldRomLength.toNat
  kernelRam : ∀ s ∈ k.ramSections, s.vma.toNat + s.size.toNat ≤ ldTask1RamOrigin.toNat
  task1 : k.task1.Linked ldTask1RamOrigin
  task2 : k.task2.Linked ldTask2RamOrigin
  table1s : ∀ t ∈ [k.kernelTable1, k.task1.table1, k.task2.table1],
    4096 ∣ t ∧ k.kernelBss.vma.toNat ≤ 4 * t ∧ t + 4096 ≤ 256 * k.ldPageTable2
  distinct : [k.kernelTable1, k.task1.table1, k.task2.table1].Nodup
  contexts : 256 * (k.ldPageTable2 + 3 * TABLE2_QTTY) ≤ k.layout.contexts
  bss : 4 * (k.layout.contexts + contextWords * SCHEDULER_MAX_TASKS) ≤ k.kernelBss.vma.toNat + k.kernelBss.size.toNat
  sections : ∀ p ∈ k.sectionTables, k.kernelRodata.vma.toNat ≤ 4 * p.1 ∧
    4 * (p.1 + 4 * p.2.length) ≤ k.kernelRodata.vma.toNat + k.kernelRodata.size.toNat

/-- The physical ranges of the kernel's sections, those of ROM among them, and of the tasks' sections, in
whole pages, are pairwise disjoint. Those of the devices are elsewhere. -/
def Link.FramesDisjoint (k : Link) : Prop :=
  (k.kernelSections ++ (k.task1Sections ++ k.task2Sections)).Pairwise FramesApart

/-- The physical ranges of the kernel's sections, in whole pages, are pairwise disjoint, as the linker places
them, and no section of a task has a page of theirs. Those of the tasks may overlap. -/
structure Link.KernelApart (k : Link) : Prop where
  kernel : k.kernelSections.Pairwise FramesApart
  tasks : ∀ s ∈ k.kernelSections, ∀ s' ∈ k.task1Sections ++ k.task2Sections, FramesApart s s'

theorem Link.FramesDisjoint.kernelApart {k : Link} (hd : k.FramesDisjoint) : k.KernelApart :=
  ⟨(List.pairwise_append.1 hd).1, fun s hs s' hs' => (List.pairwise_append.1 hd).2.2 s hs s' hs'⟩

/-! ## Sections mapped where they are -/

namespace SectionDesc

/-- A section of the kernel or a device, below the RAM of the tasks -/
structure Identity (s : SectionDesc) : Prop where
  pa : s.pa = s.vma
  aligned : 2 ^ 12 ∣ s.vma.toNat
  below : s.vma.toNat + s.size.toNat ≤ ldTask1RamOrigin.toNat
  domain : s.domain.toNat < 32
  ap : s.ap.toNat < 8
  mem : s.mem.toNat < 32
  gsx : s.gsx.toNat < 8

section
variable {s s' : SectionDesc} {vma size : Word} {ap gsx : BitVec 8}

theorem fixed_of_aligned (h : 2 ^ 12 ∣ s.pa.toNat) : s.pa ≠ NO_PA := by
  intro hpa
  rw [hpa] at h
  exact absurd h (by decide)

theorem Identity.valid (h : s.Identity) : s.Valid 32 := by
  have hbelow : s.vma.toNat + s.size.toNat ≤ 0x71020000 := h.below
  exact ⟨h.aligned, by omega, by omega, fun _ => h.pa ▸ h.aligned, fun _ => by rw [h.pa]; omega, h.domain, h.ap, h.mem,
    h.gsx⟩

theorem Identity.fixed (h : s.Identity) : s.pa ≠ NO_PA := fixed_of_aligned (h.pa ▸ h.aligned)

theorem Identity.addrOfVa (h : s.Identity) (va : Word) : s.addrOfVa va = va := by
  rw [SectionDesc.addrOfVa, h.pa, BitVec.add_comm, BitVec.sub_add_cancel]

theorem kernelSection_identity (haligned : 2 ^ 12 ∣ vma.toNat)
    (hbelow : vma.toNat + size.toNat ≤ ldTask1RamOrigin.toNat) (hap : ap.toNat < 8) (hgsx : gsx.toNat < 8) :
    (kernelSection vma size ap gsx).Identity :=
  ⟨rfl, haligned, hbelow, (by decide : DOMAIN_KERNEL.toNat < 32), hap,
    (by decide : MEM_WRITE_BACK_WRITE_ALLOCATE.toNat < 32), hgsx⟩

theorem pagesApart_of_le (haligned : 2 ^ 12 ∣ s'.vma.toNat) (h : s.vma.toNat + s.size.toNat ≤ s'.vma.toNat) :
    PagesApart s s' := by
  rintro page ⟨-, h2⟩ ⟨h3, -⟩
  obtain ⟨v, hv⟩ := haligned
  omega

theorem framesApart_of_le (haligned : 2 ^ 12 ∣ s'.pa.toNat) (h : s.pa.toNat + s.size.toNat ≤ s'.pa.toNat) :
    FramesApart s s' := by
  rintro frame ⟨-, h2⟩ ⟨h3, -⟩
  obtain ⟨p, hp⟩ := haligned
  omega

theorem Identity.pagesApart (hs : s.Identity) (hs' : s'.Identity) (h : FramesApart s s') : PagesApart s s' := by
  intro page htouches htouches'
  exact h page ((touchesFrame_of_identity hs.pa page).2 htouches) ((touchesFrame_of_identity hs'.pa page).2 htouches')

/-- A word of the section's range -/
theorem holds_of_le {w : Nat} (hlo : s.pa.toNat ≤ 4 * w) (hhi : 4 * w + 4 ≤ s.pa.toNat + s.size.toNat) : s.Holds w := by
  unfold Holds TouchesFrame
  omega

end

end SectionDesc

theorem hardware_identity : ∀ s ∈ hardwareSections, s.Identity := by
  have h : ∀ s ∈ hardwareSections, s.pa = s.vma ∧ 2 ^ 12 ∣ s.vma.toNat ∧
      s.vma.toNat + s.size.toNat ≤ ldTask1RamOrigin.toNat ∧ s.domain.toNat < 32 ∧ s.ap.toNat < 8 ∧ s.mem.toNat < 32 ∧
      s.gsx.toNat < 8 := by decide
  intro s hs
  obtain ⟨h1, h2, h3, h4, h5, h6, h7⟩ := h s hs
  exact ⟨h1, h2, h3, h4, h5, h6, h7⟩

namespace Link

variable {k : Link}

theorem notExecutableRomVma_toNat (h : k.Linked) :
    k.ldNotExecutableRomVma.toNat = ldRomOrigin.toNat + (k.ldInitSize.toNat + 4095) / 4096 * 4096 := by
  have hinit : k.ldInitSize.toNat ≤ 0x10000 := h.init
  have hsum : (ldRomOrigin + k.ldInitSize + 0xFFF).toNat = 0x70010FFF + k.ldInitSize.toNat := by
    rw [BitVec.toNat_add, BitVec.toNat_add]
    show ((0x70010000 + k.ldInitSize.toNat) % 2 ^ 32 + 0xFFF) % 2 ^ 32 = _
    omega
  have halign : k.ldNotExecutableRomVma = _ := and_not_low (ldRomOrigin + k.ldInitSize + 0xFFF) 12
  rw [halign, BitVec.toNat_ofNat, hsum]
  show _ = 0x70010000 + _
  omega

theorem notExecutableRomSize_toNat (h : k.Linked) :
    k.ldNotExecutableRomSize.toNat = ldRomLength.toNat - (k.ldInitSize.toNat + 4095) / 4096 * 4096 := by
  have hinit : k.ldInitSize.toNat ≤ 0x10000 := h.init
  rw [ldNotExecutableRomSize, BitVec.toNat_sub, BitVec.toNat_sub, notExecutableRomVma_toNat h]
  show (2 ^ 32 - (2 ^ 32 - 0x70010000 + (0x70010000 + _)) % 2 ^ 32 + 0x10000) % 2 ^ 32 = 0x10000 - _
  omega

theorem kernel_identity (h : k.Linked) : ∀ s ∈ k.kernelSections, s.Identity := by
  have hinit : k.ldInitSize.toNat ≤ 0x10000 := h.init
  have hvector : k.ldVectorTableSize.toNat ≤ 0x10000 := h.vectorTable
  have hrom := notExecutableRomVma_toNat h
  have hromSize := notExecutableRomSize_toNat h
  change _ = 0x70010000 + _ at hrom
  change _ = 0x10000 - _ at hromSize
  refine List.forall_mem_cons.2 ⟨?_, List.forall_mem_cons.2 ⟨?_, List.forall_mem_cons.2 ⟨?_, ?_⟩⟩⟩
  · refine kernelSection_identity (by decide) ?_ (by decide) (by decide)
    show 0x70010000 + k.ldInitSize.toNat ≤ 0x71020000
    omega
  · refine kernelSection_identity (by decide) ?_ (by decide) (by decide)
    show 0 + k.ldVectorTableSize.toNat ≤ 0x71020000
    omega
  · refine kernelSection_identity ?_ ?_ (by decide) (by decide)
    · rw [hrom]
      omega
    · show _ ≤ 0x71020000
      omega
  · intro s hs
    have hbelow := h.kernelRam s hs
    simp only [ramSections, List.mem_cons, List.not_mem_nil, or_false] at hs
    rcases hs with rfl | rfl | rfl | rfl | rfl | rfl | rfl <;>
      exact kernelSection_identity (by decide) hbelow (by decide) (by decide)

/-- ROM is mapped as a whole. -/
theorem rom_touched (h : k.Linked) {va : Word} (hlo : ldRomOrigin.toNat ≤ va.toNat)
    (hhi : va.toNat < ldRomOrigin.toNat + ldRomLength.toNat) :
    k.init.Touches (pageOf va) ∨ k.notExecutableRom.Touches (pageOf va) := by
  have hinit : k.ldInitSize.toNat ≤ 0x10000 := h.init
  have hrom := notExecutableRomVma_toNat h
  have hromSize := notExecutableRomSize_toNat h
  change _ = 0x70010000 + _ at hrom
  change _ = 0x10000 - _ at hromSize
  change 0x70010000 ≤ _ at hlo
  change _ < 0x70010000 + 0x10000 at hhi
  show ((0x70010000 < (pageOf va + 1) * 2 ^ 12 ∧ pageOf va * 2 ^ 12 < 0x70010000 + k.ldInitSize.toNat) ∨
    (k.ldNotExecutableRomVma.toNat < (pageOf va + 1) * 2 ^ 12 ∧
      pageOf va * 2 ^ 12 < k.ldNotExecutableRomVma.toNat + k.ldNotExecutableRomSize.toNat))
  unfold pageOf
  omega

end Link

end Td3.Kernel
