/-
Data aborts with ENABLE_MEMORY_MAPPING_FROM_ABORT: `abt_handler` (kernel/int_handlers.c) maps the page
of the address by `mmu_fill_pte_from_vma` (kernel/mmu.S), whatever level of the walk has failed. That
is what `mmu_fill_page_tables` does for a section of one page that names no physical address.
-/
import Td3.Kernel.Sections
import Td3.Lib.Translation

namespace Td3.Kernel

open Arm PageTables SectionDesc

/-! ## `mmu_fill_pte_from_vma` -/

def MEM_STRONGLY_ORDERED : BitVec 8 := 0b00000

namespace Mmu

/-- `mmu_fill_pte_from_vma` up to `pte1_ready`: the level-2 table of the address, after what has become of
memory. -/
def table2FromVma (S : MmuSymbols) (pte1Addr : Word) (m : Mmu) : Word × Mmu :=
  let pte1 := m.ldr pte1Addr
  if pte1 = 0 then
    -- `pte1_empty`
    let table2Addr := S.ldPageTable2Vma + m.wTable2Qtty <<< 10
    let m := { m with wTable2Qtty := m.wTable2Qtty + 1 }
    (table2Addr, m.prvMmuFillPte1 table2Addr (DOMAIN_RAM_FREE.setWidth 32) pte1Addr)
  else (getTable2AddrFromPte1 pte1, m)

/-- `mmu_fill_pte_from_vma`, with what TTBR0 holds -/
def mmuFillPteFromVma (S : MmuSymbols) (ttbr0 vma : Word) (m : Mmu) : Mmu :=
  let pte1Index := getPte1IndexFromVma vma
  let pte2Index := getPte2IndexFromVma vma
  let (table2Addr, m) := m.table2FromVma S (ttbr0 + pte1Index <<< 2)
  let pte2Addr := table2Addr + pte2Index <<< 2
  let (pa, m) := m.prvMmuAssignFreePa S
  m.prvMmuFillPte2 pa (AP_RW_RW.setWidth 32) (MEM_STRONGLY_ORDERED.setWidth 32) (G_S_X.setWidth 32) pte2Addr

theorem mmuFillPteFromVma_tables {S : MmuSymbols} {ttbr0 vma : Word} {m : Mmu} {table2 : Word × Mmu}
    (h : table2 = m.table2FromVma S (ttbr0 + getPte1IndexFromVma vma <<< 2)) :
    m.mmuFillPteFromVma S ttbr0 vma = (table2.2.prvMmuAssignFreePa S).2.prvMmuFillPte2
      (table2.2.prvMmuAssignFreePa S).1 (AP_RW_RW.setWidth 32) (MEM_STRONGLY_ORDERED.setWidth 32) (G_S_X.setWidth 32)
      (table2.1 + getPte2IndexFromVma vma <<< 2) := by
  rw [h]
  rfl

end Mmu

/-! ## `abt_handler` -/

/-- `data_fault`; `other` is a code of DFSR that the enumeration does not have. -/
inductive DataFault where
  | alignment
  | cacheMaintenance
  | table1ExternalAbort
  | table2ExternalAbort
  | table1ParityError
  | table2ParityError
  | sectionTranslation
  | pageTranslation
  | accessFlagSection
  | accessFlagPage
  | domainSection
  | domainPage
  | permissionSection
  | permissionPage
  | other
deriving DecidableEq, Repr

def RETURN_TO_SAME : BitVec 8 := 0
def TESTING_ALIGNMENT_FAULT : BitVec 8 := 3
def TESTING_DATA_READ_FAULT : BitVec 8 := 4
def TESTING_DATA_WRITE_FAULT : BitVec 8 := 5

/-- `abt_handler`, with what TTBR0 holds; `testing` where ENABLE_TESTING is defined. What it returns is 0
where the instruction is to be executed again. -/
def abtHandler (testing : Bool) (S : MmuSymbols) (ttbr0 : Word) (fault : DataFault) (addr : Word) (rw : Access)
    (m : Mmu) : BitVec 8 × Mmu :=
  match fault with
  | .alignment => (if testing then TESTING_ALIGNMENT_FAULT else RETURN_TO_SAME, m)
  | .sectionTranslation => (RETURN_TO_SAME, m.mmuFillPteFromVma S ttbr0 addr)
  | .pageTranslation => (RETURN_TO_SAME, m.mmuFillPteFromVma S ttbr0 addr)
  | .permissionPage =>
    match rw with
    | .load => (if testing then TESTING_DATA_READ_FAULT else RETURN_TO_SAME, m)
    | .store => (if testing then TESTING_DATA_WRITE_FAULT else RETURN_TO_SAME, m)
  | _ => (RETURN_TO_SAME, m)

/-- What DFSR says of a walk that faults: the level of the entry that is not there -/
def translationFault (memory : Nat → Word) (t : Nat) (va : Word) : DataFault :=
  if (memory (level1Index t va)).extractLsb' 0 2 = 0 then .sectionTranslation else .pageTranslation

theorem abtHandler_translationFault (testing : Bool) (S : MmuSymbols) (ttbr0 va : Word) (rw : Access) (m : Mmu)
    (memory : Nat → Word) (t : Nat) :
    abtHandler testing S ttbr0 (translationFault memory t va) va rw m =
      (RETURN_TO_SAME, m.mmuFillPteFromVma S ttbr0 va) := by
  unfold translationFault
  split_ifs <;> rfl

/-! ## A section of one page -/

/-- The page of the address, as `mmu_fill_pte_from_vma` maps it -/
def demandSection (va : Word) : SectionDesc where
  vma := BitVec.ofNat 32 (pageOf va * 2 ^ 12)
  size := 0x1000
  pa := NO_PA
  domain := DOMAIN_RAM_FREE
  ap := AP_RW_RW
  mem := MEM_STRONGLY_ORDERED
  gsx := G_S_X

section
variable {L : PageTables} {t : Nat} {m : Mmu} {va : Word}

theorem demandSection_vma (va : Word) : (demandSection va).vma.toNat = pageOf va * 2 ^ 12 := by
  show (BitVec.ofNat 32 (pageOf va * 2 ^ 12)).toNat = _
  unfold pageOf
  rw [BitVec.toNat_ofNat]
  omega

theorem demandSection_valid (va : Word) : (demandSection va).Valid 32 := by
  have hsize : (0x1000 : Word).toNat < 2 ^ 31 := by decide
  have hdomain : DOMAIN_RAM_FREE.toNat < 32 := by decide
  have hap : AP_RW_RW.toNat < 8 := by decide
  have hmem : MEM_STRONGLY_ORDERED.toNat < 32 := by decide
  have hgsx : G_S_X.toNat < 8 := by decide
  refine ⟨?_, hsize, ?_, fun h => absurd rfl h, fun h => absurd rfl h, hdomain, hap, hmem, hgsx⟩
  · rw [demandSection_vma]
    exact Nat.dvd_mul_left _ _
  · rw [demandSection_vma]
    show _ + 0x1000 ≤ _
    unfold pageOf
    omega

theorem demandSection_pageCount (va : Word) : (demandSection va).pageCount = 1 := by
  have hcount : ((0x1000 : Word).toNat + (2 ^ 12 - 1)) / 2 ^ 12 = 1 := by decide
  exact hcount

theorem demandSection_firstPage (va : Word) : (demandSection va).firstPage = pageOf va := by
  rw [firstPage, pageOf, demandSection_vma]
  exact Nat.mul_div_cancel _ (by decide)

theorem demandSection_touches (va : Word) (page : Nat) : (demandSection va).Touches page ↔ page = pageOf va := by
  rw [touches_iff (demandSection_valid va), demandSection_firstPage, demandSection_pageCount]
  omega

theorem demandSection_frames (va : Word) : (demandSection va).frames = 1 := by
  rw [frames_free rfl, demandSection_pageCount]

theorem demandSection_megabytes (va : Word) : (demandSection va).megabytes = {pageOf va / 256} := by
  rw [SectionDesc.megabytes, demandSection_pageCount, demandSection_firstPage]
  rfl

theorem table2FromVma_eq (ht : t ∈ L.table1s) (hroom : m.mem (level1Index t va) = 0 → m.wTable2Qtty.toNat < L.table2s) :
    m.table2FromVma L.symbols (addrOf t + getPte1IndexFromVma va <<< 2) =
      (Fill.tableOf ((L.ensureTable t (demandSection va) (pageOf va) m).mem (t + pageOf va / 256)),
        L.ensureTable t (demandSection va) (pageOf va) m) := by
  have hlt := L.table1_lt t ht
  have hpage := pageOf_lt va
  have hw : t + pageOf va / 256 < 2 ^ 30 := by omega
  have haddr : addrOf t + getPte1IndexFromVma va <<< 2 = addrOf (t + pageOf va / 256) := by
    rw [Fill.getPte1IndexFromVma_eq, addrOf_add_lsl, BitVec.toNat_ofNat, Nat.mod_eq_of_lt (by omega)]
  have hread : m.ldr (addrOf (t + pageOf va / 256)) = m.mem (t + pageOf va / 256) := by
    rw [Mmu.ldr, wordIndex_addrOf hw]
  rw [level1Index_eq] at hroom
  rw [haddr, Mmu.table2FromVma, hread, ensureTable]
  by_cases h0 : m.mem (t + pageOf va / 256) = 0
  · -- a table of the pool is taken, and found again through the entry that is stored
    rw [if_pos h0, if_pos h0]
    have hself : (L.newTable (t + pageOf va / 256) (DOMAIN_RAM_FREE.setWidth 32) m).mem (t + pageOf va / 256) =
        L.entry m.wTable2Qtty.toNat (DOMAIN_RAM_FREE.setWidth 32) := Function.update_self ..
    have hmmu := Fill.prvMmuFillPte1_eq (L := L) (DOMAIN_RAM_FREE.setWidth 32) hw (hroom h0)
    have htable : Fill.tableOf ((L.newTable (t + pageOf va / 256) (DOMAIN_RAM_FREE.setWidth 32) m).mem
        (t + pageOf va / 256)) = L.symbols.ldPageTable2Vma + m.wTable2Qtty <<< 10 := by
      rw [hself, Fill.tableOf_entry (hroom h0) (by decide)]
      exact (Fill.addrOf_block ..).symm
    exact Prod.ext htable.symm hmmu
  · rw [if_neg h0, if_neg h0, Fill.getTable2AddrFromPte1_eq]

/-- The pool has the table that the megabyte of the address may be missing. -/
theorem demandSection_filledTo (hinv : Inv L m)
    (hroom : m.mem (level1Index t va) = 0 → m.wTable2Qtty.toNat < L.table2s) :
    FilledTo L t (demandSection va) {pageOf va / 256} m 0 m := by
  refine .refl hinv ?_
  have hqtty := hinv.qtty
  rw [level1Index_eq] at hroom
  rw [missing, Finset.filter_singleton]
  split_ifs with h0
  · have := hroom h0
    rw [Finset.card_singleton]
    omega
  · rw [Finset.card_empty]
    omega

/-- What the loops of `mmu_fill_page_tables` do for the page -/
theorem mmuFillPteFromVma_eq (hinv : Inv L m) (ht : t ∈ L.table1s)
    (hroom : m.mem (level1Index t va) = 0 → m.wTable2Qtty.toNat < L.table2s) :
    m.mmuFillPteFromVma L.symbols (addrOf t) va = L.fillPage t (demandSection va) 0 m := by
  have hpage := pageOf_lt va
  have hmod : (getPte2IndexFromVma va).toNat = pageOf va % 256 := by
    rw [Fill.getPte2IndexFromVma_eq, BitVec.toNat_ofNat]
    omega
  have hassign : L.assignPa (demandSection va) 0 (L.ensureTable t (demandSection va) (pageOf va) m) =
      (L.ensureTable t (demandSection va) (pageOf va) m).prvMmuAssignFreePa L.symbols := if_pos rfl
  obtain ⟨hensured, hne⟩ := ensureTable_spec ht (demandSection_valid va) hpage (Finset.mem_singleton_self _)
    (demandSection_filledTo hinv hroom)
  have hlevel2 := hensured.inv.page_level2 ⟨t, ht, pageOf va / 256, by omega, rfl⟩ hne (pageOf va)
  have hqtty := hensured.inv.qtty
  have hpool := L.pool_lt
  rw [Mmu.mmuFillPteFromVma, table2FromVma_eq ht hroom, fillPage, demandSection_firstPage, Nat.add_zero]
  dsimp only
  rw [hassign, Fill.tableOf, addrOf_add_lsl, hmod, Mmu.prvMmuFillPte2, Mmu.str, wordIndex_addrOf ?_]
  · rfl
  · have hend := hlevel2.2
    omega

/-- What a call does to the translations: it is a filling of the table with the section of one page. -/
theorem mmuFillPteFromVma_spec (hinv : Inv L m) (ht : t ∈ L.table1s)
    (hroom : m.mem (level1Index t va) = 0 → m.wTable2Qtty.toNat < L.table2s)
    (hram : m.wRamUsedPages.toNat < L.ramPages) :
    ∃ frame, Filled L t [demandSection va] m frame (m.mmuFillPteFromVma L.symbols (addrOf t) va) ∧
      Inv L (m.mmuFillPteFromVma L.symbols (addrOf t) va) ∧
      (m.mmuFillPteFromVma L.symbols (addrOf t) va).wRamUsedPages.toNat = m.wRamUsedPages.toNat + 1 ∧
      ∀ i, ¬ L.Tables i → (m.mmuFillPteFromVma L.symbols (addrOf t) va).mem i = m.mem i := by
  have hcount := demandSection_pageCount va
  have hM : ∀ i ∈ ({pageOf va / 256} : Finset Nat), i < 4096 := by
    intro i hi
    have hpage := pageOf_lt va
    rw [Finset.mem_singleton] at hi
    omega
  have hfilled := fillPage_spec ht (demandSection_valid va) (k := 0) (by omega) hM (demandSection_megabytes va).subset
    (by rw [demandSection_frames]; exact hram) (demandSection_filledTo hinv hroom)
  rw [← mmuFillPteFromVma_eq hinv ht hroom] at hfilled
  have hused := hfilled.used
  rw [if_pos (show (demandSection va).pa = NO_PA from rfl)] at hused
  obtain ⟨frame, hframe⟩ := filled_cons (demandSection_valid va) (Nat.le_refl _)
    (by rw [hcount]; exact hfilled) (filled_nil fun _ => 0)
  exact ⟨frame, hframe, hfilled.inv, hused, hfilled.memory⟩

end

end Td3.Kernel
