/-
The page-table builder (kernel/mmu.S): `mmu_fill_page_tables` and the functions it calls, label by
label. `w_table2_qtty` and `w_ram_used_pages` are variables of their own, apart from memory; the
registers `push` and `pop` keep around the calls are those the calls leave alone here.
-/
import Td3.Lib.ShortDescriptor

namespace Td3.Kernel

open Arm

/-! ## State -/

def PAGE_SIZE : Word := 0x1000
def PTE2_TOTAL : Word := 256
def NO_PA : Word := 0x01

def SECTION_VMA : Word := 0
def SECTION_SIZE : Word := 4
def SECTION_PA : Word := 8
def SECTION_DOMAIN : Word := 12
def SECTION_AP : Word := 13
def SECTION_MEM : Word := 14
def SECTION_GSX : Word := 15
def SECTION_NEXT : Word := 16

/-- Where the linker puts the level-2 tables and the free RAM. -/
structure MmuSymbols where
  ldPageTable2Vma : Word
  ldFreeRamOrigin : Word

/-- Memory and the two counters of the builder. -/
@[ext]
structure Mmu where
  mem : Nat → Word
  wTable2Qtty : Word
  wRamUsedPages : Word

namespace Mmu

/-- `ldr` -/
def ldr (m : Mmu) (a : Word) : Word := m.mem (wordIndex a)

/-- `ldrb` (little endian) -/
def ldrb (m : Mmu) (a : Word) : Word := (m.mem (wordIndex a) >>> (8 * (a.toNat % 4))) &&& 0xFF

/-- `str` -/
def str (m : Mmu) (w a : Word) : Mmu := { m with mem := Function.update m.mem (wordIndex a) w }

/-! ## The functions of an entry -/

/-- `prv_mmu_fill_pte1` -/
def prvMmuFillPte1 (table2Addr domain pte1Addr : Word) (m : Mmu) : Mmu :=
  let pte1 := table2Addr &&& ~~~0x3FF#32
  let pte1 := pte1 ||| domain <<< 5
  let pte1 := pte1 ||| 0x1#32
  m.str pte1 pte1Addr

/-- The entry `prv_mmu_fill_pte2` puts together. -/
def pte2Of (pa ap mem gsx : Word) : Word :=
  let pte2 := pa &&& ~~~0xFFF#32
  let pte2 := pte2 ||| (gsx >>> 1) <<< 10 -- nG and S
  let pte2 := pte2 ||| (ap >>> 2) <<< 9 -- AP[2]
  let pte2 := pte2 ||| (mem >>> 2) <<< 6 -- TEX[2:0]
  let pte2 := pte2 ||| (ap &&& 0b011#32) <<< 4 -- AP[1:0]
  let pte2 := pte2 ||| (mem &&& 0b00011#32) <<< 2 -- C and B
  let pte2 := pte2 ||| 0b10#32
  pte2 ||| (gsx &&& 0b001#32) -- XN

/-- `prv_mmu_fill_pte2` -/
def prvMmuFillPte2 (pa ap mem gsx pte2Addr : Word) (m : Mmu) : Mmu := m.str (pte2Of pa ap mem gsx) pte2Addr

/-- `prv_mmu_assign_free_pa`; it changes no flags. -/
def prvMmuAssignFreePa (S : MmuSymbols) (m : Mmu) : Word × Mmu :=
  (S.ldFreeRamOrigin + m.wRamUsedPages <<< 12, { m with wRamUsedPages := m.wRamUsedPages + 1 })

/-- `prv_mmu_assign_fixed_pa` -/
def prvMmuAssignFixedPa (pa pageNumber : Word) : Word := pa + pageNumber * PAGE_SIZE

end Mmu

/-- `GET_PTE1_INDEX_FROM_VMA` -/
def getPte1IndexFromVma (vma : Word) : Word := vma >>> 20

/-- `GET_PTE2_INDEX_FROM_VMA` -/
def getPte2IndexFromVma (vma : Word) : Word := vma >>> 12 &&& ~~~0xFFFFFF00#32

/-- `GET_TABLE2_ADDR_FROM_PTE1` -/
def getTable2AddrFromPte1 (pte1 : Word) : Word := pte1 &&& ~~~0xFF#32 &&& ~~~0x300#32

/-! ## The loops -/

/-- The labels of `mmu_fill_page_tables` that are jumped to, and its return. -/
inductive FillLabel where
  | loopSectionAddr
  | loopFillPte1
  | loopFillTable2
  | nextSection
  | ret
deriving DecidableEq, Repr

/-- The registers of `mmu_fill_page_tables`, the state they work on, and where it is. -/
structure Fill where
  label : FillLabel
  mmu : Mmu
  sectionEndAddr : Word
  sectionSize : Word
  sectionAddr : Word
  table1Addr : Word
  table2Addr : Word
  pte1Index : Word
  pte2Index : Word
  sectionPagesCounter : Word

namespace Fill

variable (S : MmuSymbols)

/-- From `loop_section_addr` to `loop_fill_pte1` -/
def loopSectionAddr (f : Fill) : Fill :=
  let sectionSize := f.mmu.ldr (f.sectionAddr + SECTION_SIZE)
  { f with
    sectionPagesCounter := 0
    sectionSize := sectionSize
    pte1Index := getPte1IndexFromVma (f.mmu.ldr (f.sectionAddr + SECTION_VMA))
    pte2Index := getPte2IndexFromVma (f.mmu.ldr (f.sectionAddr + SECTION_VMA))
    -- `ble`, signed
    label := if sectionSize.sle 0 then .nextSection else .loopFillPte1 }

/-- `pte1_doesnt_exits`: the next level-2 table of the pool becomes that of the entry. -/
def pte1DoesntExits (f : Fill) : Fill :=
  let table2Addr := S.ldPageTable2Vma + f.mmu.wTable2Qtty <<< 10
  let mmu := { f.mmu with wTable2Qtty := f.mmu.wTable2Qtty + 1 }
  let domain := mmu.ldrb (f.sectionAddr + SECTION_DOMAIN)
  { f with
    table2Addr := table2Addr
    mmu := mmu.prvMmuFillPte1 table2Addr domain (f.table1Addr + f.pte1Index <<< 2), label := .loopFillTable2 }

/-- From `loop_fill_pte1` to `loop_fill_table2` -/
def loopFillPte1 (f : Fill) : Fill :=
  let pte1 := f.mmu.ldr (f.table1Addr + f.pte1Index <<< 2)
  if pte1 = 0 then f.pte1DoesntExits S
  else { f with table2Addr := getTable2AddrFromPte1 pte1, label := .loopFillTable2 }

/-- `loop_fill_table2` up to the call of `prv_mmu_fill_pte2`: the address of the page. The call of
`prv_mmu_assign_free_pa` leaves the flags of the `teq` to the conditional instructions after it. -/
def assignPa (f : Fill) : Word × Mmu :=
  let r0 := f.mmu.ldr (f.sectionAddr + SECTION_PA)
  let eq := r0 = NO_PA
  let (r0, mmu) := if eq then f.mmu.prvMmuAssignFreePa S else (r0, f.mmu)
  let r0 := if ¬ eq then Mmu.prvMmuAssignFixedPa r0 f.sectionPagesCounter else r0
  (r0, mmu)

/-- `loop_fill_table2`, and what follows it up to the next label -/
def loopFillTable2 (f : Fill) : Fill :=
  let (pa, mmu) := f.assignPa S
  let ap := mmu.ldrb (f.sectionAddr + SECTION_AP)
  let mem := mmu.ldrb (f.sectionAddr + SECTION_MEM)
  let gsx := mmu.ldrb (f.sectionAddr + SECTION_GSX)
  let mmu := mmu.prvMmuFillPte2 pa ap mem gsx (f.table2Addr + f.pte2Index <<< 2)
  let f' := { f with
    mmu := mmu, sectionPagesCounter := f.sectionPagesCounter + 1, sectionSize := f.sectionSize - PAGE_SIZE }
  -- `ble` after `subs`, signed
  if f.sectionSize.sle PAGE_SIZE then { f' with label := .nextSection }
  else
    let pte2Index := f.pte2Index + 1
    -- `moveq` and `blt` after `cmp`
    if pte2Index.slt PTE2_TOTAL then { f' with pte2Index := pte2Index, label := .loopFillTable2 }
    else { f' with
      pte2Index := if pte2Index = PTE2_TOTAL then 0 else pte2Index
      pte1Index := f.pte1Index + 1, label := .loopFillPte1 }

/-- `next_section` -/
def nextSection (f : Fill) : Fill :=
  let sectionAddr := f.sectionAddr + SECTION_NEXT
  { f with
    sectionAddr := sectionAddr
    -- `blt`, signed
    label := if sectionAddr.slt f.sectionEndAddr then .loopSectionAddr else .ret }

/-- From a label to the next one. -/
def step (f : Fill) : Fill :=
  match f.label with
  | .loopSectionAddr => f.loopSectionAddr
  | .loopFillPte1 => f.loopFillPte1 S
  | .loopFillTable2 => f.loopFillTable2 S
  | .nextSection => f.nextSection
  | .ret => f

/-- `mmu_fill_page_tables` is called; the other registers hold what the caller had in them, and are set
before they are read. -/
def start (sectionAddr sectionEndAddr table1Addr : Word) (m : Mmu) : Fill where
  label := .loopSectionAddr
  mmu := m
  sectionEndAddr := sectionEndAddr
  sectionSize := 0
  sectionAddr := sectionAddr
  table1Addr := table1Addr
  table2Addr := 0
  pte1Index := 0
  pte2Index := 0
  sectionPagesCounter := 0

end Fill

/-- `mmu_fill_page_tables`, run for `n` labels; `none` where it has not returned yet. -/
def mmuFillPageTables (S : MmuSymbols) (sectionAddr sectionEndAddr table1Addr : Word) (n : Nat) (m : Mmu) :
    Option Mmu :=
  let f := (Fill.step S)^[n] (Fill.start sectionAddr sectionEndAddr table1Addr m)
  if f.label = .ret then some f.mmu else none

end Td3.Kernel
