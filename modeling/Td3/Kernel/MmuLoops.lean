/-
The loops of `mmu_fill_page_tables` map the pages of a section one by one: from one of the two inner
labels with `k` pages done, the next label that is not `loop_fill_pte1` finds `fillPage` done for page
`k`. What `loop_fill_table2` takes over from the page before is the level-2 table, which is that of the
level-1 entry as long as the megabyte does not end.
-/
import Td3.Kernel.MmuPages
import Td3.Lib.Run

namespace Td3.Kernel

open Arm

/-! ## Reading descriptors -/

section
variable {m : Mmu} {a : Nat} {s : SectionDesc}

theorem ldr_addrOf {k : Nat} (ha : a + k / 4 < 2 ^ 30) (hk : k % 4 = 0) :
    m.ldr (addrOf a + BitVec.ofNat 32 k) = m.mem (a + k / 4) := by
  rw [Mmu.ldr, addrOf_add _ hk, wordIndex_addrOf ha]

theorem ldrb_addrOf {b : Nat} (ha : a + 3 < 2 ^ 30) (hb : b < 4) :
    m.ldrb (addrOf a + BitVec.ofNat 32 (12 + b)) = m.mem (a + 3) >>> (8 * b) &&& 0xFF := by
  have hnat : (addrOf a + BitVec.ofNat 32 (12 + b)).toNat = 4 * a + 12 + b := by
    rw [BitVec.toNat_add, addrOf, BitVec.toNat_ofNat, BitVec.toNat_ofNat]
    omega
  have hindex : (4 * a + 12 + b) / 4 = a + 3 := by omega
  have hshift : (4 * a + 12 + b) % 4 = b := by omega
  rw [Mmu.ldrb, wordIndex, hnat, hindex, hshift]

/-- The bytes of the fourth word of a descriptor -/
theorem Stored_bytes (h : s.Stored m.mem a) (ha : a + 3 < 2 ^ 30) :
    m.ldrb (addrOf a + SECTION_DOMAIN) = s.domain.setWidth 32 ∧ m.ldrb (addrOf a + SECTION_AP) = s.ap.setWidth 32 ∧
      m.ldrb (addrOf a + SECTION_MEM) = s.mem.setWidth 32 ∧ m.ldrb (addrOf a + SECTION_GSX) = s.gsx.setWidth 32 := by
  have hbyte : ∀ (w : Word) (x : BitVec 8) (b : Nat), (∀ i < 8, w.getLsbD (b + i) = x.getLsbD i) →
      w >>> b &&& 0xFF = x.setWidth 32 := by
    intro w x b hw
    have hmask : (0xFF : Word) = BitVec.ofNat 32 (2 ^ 8 - 1) := rfl
    apply BitVec.eq_of_getLsbD_eq
    intro i hi
    rw [BitVec.getLsbD_and, BitVec.getLsbD_ushiftRight, hmask, BitVec.getLsbD_ofNat, Nat.testBit_two_pow_sub_one,
      BitVec.getLsbD_setWidth]
    by_cases h8 : i < 8
    · simp [hi, h8, hw i h8]
    · simp [h8, BitVec.getLsbD_of_ge x i (by omega)]
  have hw : ∀ i, (m.mem (a + 3)).getLsbD i =
    if i < 8 then s.domain.getLsbD i else if i - 8 < 8 then s.ap.getLsbD (i - 8)
      else if i - 8 - 8 < 8 then s.mem.getLsbD (i - 8 - 8) else s.gsx.getLsbD (i - 8 - 8 - 8) := by
    intro i
    rw [h.2.2.2]
    show (s.gsx ++ s.mem ++ s.ap ++ s.domain).getLsbD i = _
    rw [BitVec.getLsbD_append, BitVec.getLsbD_append, BitVec.getLsbD_append]
  refine ⟨?_, ?_, ?_, ?_⟩
  · refine (ldrb_addrOf ha (b := 0) (by decide)).trans (hbyte _ _ _ fun i hi => ?_)
    rw [hw, if_pos (by omega), Nat.mul_zero, Nat.zero_add]
  · refine (ldrb_addrOf ha (b := 1) (by decide)).trans (hbyte _ _ _ fun i hi => ?_)
    rw [hw, if_neg (by omega), if_pos (by omega), Nat.mul_one, Nat.add_sub_cancel_left]
  · refine (ldrb_addrOf ha (b := 2) (by decide)).trans (hbyte _ _ _ fun i hi => ?_)
    rw [hw, if_neg (by omega), if_neg (by omega), if_pos (by omega)]
    congr 1
    omega
  · refine (ldrb_addrOf ha (b := 3) (by decide)).trans (hbyte _ _ _ fun i hi => ?_)
    rw [hw, if_neg (by omega), if_neg (by omega), if_neg (by omega)]
    congr 1
    omega

end

/-! ## The inner loops -/

namespace Fill

/-- The registers in the inner loops, with `k` pages of the section described at word `a` done -/
def pageAt (s : SectionDesc) (a t : Nat) (stop : Word) (k : Nat) (label : FillLabel) (table2 : Word) (m : Mmu) :
    Fill where
  label := label
  mmu := m
  sectionEndAddr := stop
  sectionSize := s.size - BitVec.ofNat 32 (2 ^ 12 * k)
  sectionAddr := addrOf a
  table1Addr := addrOf t
  table2Addr := table2
  pte1Index := BitVec.ofNat 32 ((s.firstPage + k) / 256)
  pte2Index := BitVec.ofNat 32 ((s.firstPage + k) % 256)
  sectionPagesCounter := BitVec.ofNat 32 k

/-- The address of the level-2 table of an entry -/
def tableOf (pte1 : Word) : Word := addrOf (pte1.toNat / 2 ^ 10 * 256)

theorem getPte1IndexFromVma_eq (vma : Word) : getPte1IndexFromVma vma = BitVec.ofNat 32 (pageOf vma / 256) := by
  apply BitVec.eq_of_toNat_eq
  rw [getPte1IndexFromVma, BitVec.toNat_ushiftRight, Nat.shiftRight_eq_div_pow, BitVec.toNat_ofNat, pageOf]
  omega

theorem getPte2IndexFromVma_eq (vma : Word) : getPte2IndexFromVma vma = BitVec.ofNat 32 (pageOf vma % 256) := by
  have hmask : ~~~0xFFFFFF00#32 = BitVec.ofNat 32 (2 ^ 8 - 1) := by decide
  apply BitVec.eq_of_toNat_eq
  rw [getPte2IndexFromVma, hmask, BitVec.toNat_and, BitVec.toNat_ushiftRight, Nat.shiftRight_eq_div_pow,
    BitVec.toNat_ofNat, BitVec.toNat_ofNat, pageOf]
  show _ &&& 2 ^ 8 - 1 = _
  rw [Nat.and_two_pow_sub_one_eq_mod]
  omega

theorem getTable2AddrFromPte1_eq (pte1 : Word) : getTable2AddrFromPte1 pte1 = tableOf pte1 := by
  have hmask : ~~~0xFF#32 &&& ~~~0x300#32 = ~~~BitVec.ofNat 32 (2 ^ 10 - 1) := by decide
  rw [getTable2AddrFromPte1, BitVec.and_assoc, hmask, and_not_low, tableOf, addrOf]
  congr 1
  omega

section
variable {L : PageTables} {s : SectionDesc} {a t k : Nat} {stop table2 : Word} {m : Mmu}

open PageTables

theorem addrOf_block (i : Nat) (w : Word) : addrOf (256 * i) + w <<< 10 = addrOf (256 * (i + w.toNat)) := by
  apply BitVec.eq_of_toNat_eq
  rw [BitVec.toNat_add, BitVec.toNat_shiftLeft, addrOf, addrOf, BitVec.toNat_ofNat, BitVec.toNat_ofNat,
    Nat.shiftLeft_eq]
  omega

/-- `prv_mmu_fill_pte1` with the address of the next table of the pool -/
theorem prvMmuFillPte1_eq {w : Nat} (domain : Word) (hw : w < 2 ^ 30) (hroom : m.wTable2Qtty.toNat < L.table2s) :
    ({ m with wTable2Qtty := m.wTable2Qtty + 1 } : Mmu).prvMmuFillPte1
      (L.symbols.ldPageTable2Vma + m.wTable2Qtty <<< 10) domain (addrOf w) = L.newTable w domain m := by
  have hpool := L.pool_lt
  have haddr : L.symbols.ldPageTable2Vma + m.wTable2Qtty <<< 10 = addrOf (256 * (L.pool + m.wTable2Qtty.toNat)) :=
    addrOf_block ..
  have hlow : addrOf (256 * (L.pool + m.wTable2Qtty.toNat)) &&& ~~~0x3FF#32 =
      addrOf (256 * (L.pool + m.wTable2Qtty.toNat)) := by
    refine (and_not_low _ 10).trans ?_
    rw [addrOf, BitVec.toNat_ofNat]
    congr 1
    omega
  rw [Mmu.prvMmuFillPte1, haddr, hlow, Mmu.str, wordIndex_addrOf hw]
  rfl

theorem tableOf_entry {j : Nat} {domain : Word} (hj : j < L.table2s) (hd : domain.toNat < 32) :
    tableOf (L.entry j domain) = addrOf (256 * (L.pool + j)) := by
  rw [tableOf, entry_table hj hd, Nat.mul_comm]

theorem loopFillPte1_spec (stop table2 : Word) (ht : t ∈ L.table1s) (hs : s.Valid 32) (hk : k < s.pageCount)
    (hstored : s.Stored m.mem a)
    (ha : a + 3 < 2 ^ 30) (hroom : m.mem (t + (s.firstPage + k) / 256) = 0 → m.wTable2Qtty.toNat < L.table2s) :
    step L.symbols (pageAt s a t stop k .loopFillPte1 table2 m) = pageAt s a t stop k .loopFillTable2
      (tableOf ((L.ensureTable t s (s.firstPage + k) m).mem (t + (s.firstPage + k) / 256)))
      (L.ensureTable t s (s.firstPage + k) m) := by
  have hpage := SectionDesc.lastPage_lt hs hk
  have ht30 := L.table1_lt t ht
  have hw : t + (s.firstPage + k) / 256 < 2 ^ 30 := by omega
  have haddr : addrOf t + BitVec.ofNat 32 ((s.firstPage + k) / 256) <<< 2 = addrOf (t + (s.firstPage + k) / 256) := by
    rw [addrOf_add_lsl, BitVec.toNat_ofNat, Nat.mod_eq_of_lt (by omega)]
  have hread : m.ldr (addrOf t + BitVec.ofNat 32 ((s.firstPage + k) / 256) <<< 2) =
    m.mem (t + (s.firstPage + k) / 256) := by
    rw [haddr, Mmu.ldr, wordIndex_addrOf hw]
  show loopFillPte1 L.symbols (pageAt s a t stop k .loopFillPte1 table2 m) = _
  unfold loopFillPte1 ensureTable
  show (if m.ldr (addrOf t + BitVec.ofNat 32 ((s.firstPage + k) / 256) <<< 2) = 0 then _ else _) = _
  rw [hread]
  by_cases h0 : m.mem (t + (s.firstPage + k) / 256) = 0
  · rw [if_pos h0, if_pos h0]
    have hd : (s.domain.setWidth 32 : Word).toNat < 32 := by
      rw [BitVec.toNat_setWidth, Nat.mod_eq_of_lt (Nat.lt_of_lt_of_le s.domain.isLt (by decide))]
      exact hs.domain
    have hself : (L.newTable (t + (s.firstPage + k) / 256) (s.domain.setWidth 32) m).mem (t + (s.firstPage + k) / 256) =
        L.entry m.wTable2Qtty.toNat (s.domain.setWidth 32) := Function.update_self ..
    have hdomain : ({ m with wTable2Qtty := m.wTable2Qtty + 1 } : Mmu).ldrb (addrOf a + SECTION_DOMAIN) =
        s.domain.setWidth 32 := (Stored_bytes (m := m) hstored ha).1
    have hmmu := prvMmuFillPte1_eq (L := L) (s.domain.setWidth 32) hw (hroom h0)
    rw [hself, tableOf_entry (hroom h0) hd, ← addrOf_block, ← hmmu, ← haddr, ← hdomain]
    rfl
  · rw [if_neg h0, if_neg h0, ← getTable2AddrFromPte1_eq, ← hread]
    rfl

/-! ## A page -/

theorem assignPa_eq (stop table2 : Word) (label : FillLabel) (hstored : s.Stored m.mem a) (ha : a + 3 < 2 ^ 30) :
    (pageAt s a t stop k label table2 m).assignPa L.symbols = L.assignPa s k m := by
  have hread : (pageAt s a t stop k label table2 m).mmu.ldr
      ((pageAt s a t stop k label table2 m).sectionAddr + SECTION_PA) = s.pa := by
    refine (ldr_addrOf (m := m) (a := a) (k := 8) (by omega) (by decide)).trans ?_
    exact hstored.2.2.1
  have hfixed : Mmu.prvMmuAssignFixedPa s.pa (BitVec.ofNat 32 k) = s.pa + BitVec.ofNat 32 (k * 2 ^ 12) := by
    rw [Mmu.prvMmuAssignFixedPa, PAGE_SIZE, BitVec.ofNat_mul]
    rfl
  unfold Fill.assignPa PageTables.assignPa
  rw [hread]
  by_cases hpa : s.pa = NO_PA
  · simp only [if_pos hpa, if_neg (not_not.2 hpa)]
    rfl
  · simp only [if_neg hpa, if_pos hpa]
    exact congrArg (·, m) hfixed

theorem assignPa_stored {i : Nat} (h : s.Stored m.mem i) : s.Stored (L.assignPa s k m).2.mem i := by
  rw [assignPa_mem.1]
  exact h

/-- The loop's memory after page `k` -/
theorem fillPte2_eq (hstored : s.Stored m.mem a) (ha : a + 3 < 2 ^ 30)
    (hw : (m.mem (t + (s.firstPage + k) / 256)).toNat / 2 ^ 10 * 256 + (s.firstPage + k) % 256 < 2 ^ 30) :
    ((L.assignPa s k m).2.prvMmuFillPte2 (L.assignPa s k m).1
      ((L.assignPa s k m).2.ldrb (addrOf a + SECTION_AP)) ((L.assignPa s k m).2.ldrb (addrOf a + SECTION_MEM))
      ((L.assignPa s k m).2.ldrb (addrOf a + SECTION_GSX))
      (tableOf (m.mem (t + (s.firstPage + k) / 256)) + BitVec.ofNat 32 ((s.firstPage + k) % 256) <<< 2)) =
    newPage (t + (s.firstPage + k) / 256) (s.firstPage + k) (s.pte2 (L.assignPa s k m).1) (L.assignPa s k m).2 := by
  obtain ⟨-, hap, hmem, hgsx⟩ := Stored_bytes (assignPa_stored (L := L) (k := k) hstored) ha
  have hmod : (BitVec.ofNat 32 ((s.firstPage + k) % 256)).toNat = (s.firstPage + k) % 256 := by
    rw [BitVec.toNat_ofNat]
    omega
  rw [hap, hmem, hgsx, tableOf, addrOf_add_lsl, hmod, Mmu.prvMmuFillPte2, Mmu.str, wordIndex_addrOf hw, newPage,
    assignPa_mem.1]
  rfl

theorem sle_of_lt {x y : Word} (hx : x.toNat < 2 ^ 31) (hy : y.toNat < 2 ^ 31) :
    x.sle y = decide (x.toNat ≤ y.toNat) := by
  rw [BitVec.sle_eq_decide, BitVec.toInt_eq_toNat_of_lt (by omega), BitVec.toInt_eq_toNat_of_lt (by omega)]
  exact decide_eq_decide.2 Int.ofNat_le

theorem slt_of_lt {x y : Word} (hx : x.toNat < 2 ^ 31) (hy : y.toNat < 2 ^ 31) :
    x.slt y = decide (x.toNat < y.toNat) := by
  rw [BitVec.slt_eq_decide, BitVec.toInt_eq_toNat_of_lt (by omega), BitVec.toInt_eq_toNat_of_lt (by omega)]
  exact decide_eq_decide.2 Int.ofNat_lt

/-- The size left when `k` pages are done -/
theorem sectionSize_toNat (hs : s.Valid 32) (hk : k < s.pageCount) :
    (s.size - BitVec.ofNat 32 (2 ^ 12 * k)).toNat = s.size.toNat - 2 ^ 12 * k := by
  have hlt := SectionDesc.lt_pageCount.1 hk
  have hsize := hs.size
  rw [BitVec.toNat_sub, BitVec.toNat_ofNat]
  omega

/-- Where `loop_fill_table2` goes on when it has left `mmu` behind -/
def afterPage (f : Fill) (mmu : Mmu) : Fill :=
  let f' := { f with
    mmu := mmu, sectionPagesCounter := f.sectionPagesCounter + 1, sectionSize := f.sectionSize - PAGE_SIZE }
  if f.sectionSize.sle PAGE_SIZE then { f' with label := .nextSection }
  else if (f.pte2Index + 1).slt PTE2_TOTAL then { f' with pte2Index := f.pte2Index + 1, label := .loopFillTable2 }
  else { f' with
    pte2Index := if f.pte2Index + 1 = PTE2_TOTAL then 0 else f.pte2Index + 1
    pte1Index := f.pte1Index + 1, label := .loopFillPte1 }

theorem afterPage_last {mmu : Mmu} (hs : s.Valid 32) (hk : k + 1 = s.pageCount) :
    (afterPage (pageAt s a t stop k .loopFillTable2 table2 m) mmu) =
      { pageAt s a t stop k .nextSection table2 mmu with
        sectionPagesCounter := BitVec.ofNat 32 k + 1
        sectionSize := s.size - BitVec.ofNat 32 (2 ^ 12 * k) - PAGE_SIZE } := by
  have hsize := sectionSize_toNat hs (k := k) (by omega)
  have hlast : ¬ k + 1 < s.pageCount := by omega
  rw [SectionDesc.lt_pageCount] at hlast
  have hle : (s.size - BitVec.ofNat 32 (2 ^ 12 * k)).sle PAGE_SIZE = true := by
    rw [sle_of_lt (by have := hs.size; omega) (by decide), hsize]
    exact decide_eq_true (show s.size.toNat - 2 ^ 12 * k ≤ 2 ^ 12 by omega)
  exact if_pos hle

theorem afterPage_next {mmu : Mmu} (hs : s.Valid 32) (hk : k + 1 < s.pageCount) :
    (afterPage (pageAt s a t stop k .loopFillTable2 table2 m) mmu) =
      pageAt s a t stop (k + 1) (if (s.firstPage + k) % 256 < 255 then .loopFillTable2 else .loopFillPte1) table2 mmu := by
  have hsize := sectionSize_toNat hs (k := k) (by omega)
  have hlt := SectionDesc.lt_pageCount.1 hk
  have hgt : ¬ (s.size - BitVec.ofNat 32 (2 ^ 12 * k)).sle PAGE_SIZE = true := by
    rw [sle_of_lt (by have := hs.size; omega) (by decide), hsize]
    refine fun h => absurd (of_decide_eq_true h) ?_
    show ¬ s.size.toNat - 2 ^ 12 * k ≤ 2 ^ 12
    omega
  have hnext : s.size - BitVec.ofNat 32 (2 ^ 12 * k) - PAGE_SIZE = s.size - BitVec.ofNat 32 (2 ^ 12 * (k + 1)) := by
    apply BitVec.eq_of_toNat_eq
    have hnext := sectionSize_toNat hs hk
    rw [hnext, BitVec.toNat_sub, hsize]
    show (2 ^ 32 - 2 ^ 12 + _) % 2 ^ 32 = _
    have := hs.size
    omega
  have hcounter : BitVec.ofNat 32 k + 1 = BitVec.ofNat 32 (k + 1) := (BitVec.ofNat_add ..).symm
  have hindex : (BitVec.ofNat 32 ((s.firstPage + k) % 256) + 1 : Word) =
    BitVec.ofNat 32 ((s.firstPage + k) % 256 + 1) :=
    (BitVec.ofNat_add ..).symm
  have hslt : (BitVec.ofNat 32 ((s.firstPage + k) % 256) + 1 : Word).slt PTE2_TOTAL =
      decide ((s.firstPage + k) % 256 < 255) := by
    rw [hindex, slt_of_lt (by rw [BitVec.toNat_ofNat]; omega) (by decide), BitVec.toNat_ofNat]
    exact decide_eq_decide.2 (by show _ < 256 ↔ _; omega)
  rw [afterPage]
  refine (if_neg hgt).trans ?_
  by_cases hmid : (s.firstPage + k) % 256 < 255
  · refine (if_pos (hslt.trans (decide_eq_true hmid))).trans ?_
    have h1 : (s.firstPage + (k + 1)) / 256 = (s.firstPage + k) / 256 := by omega
    have h2 : (s.firstPage + (k + 1)) % 256 = (s.firstPage + k) % 256 + 1 := by omega
    rw [if_pos hmid]
    unfold pageAt
    rw [h1, h2, ← hnext, ← hcounter, ← hindex]
  · have hns : ¬ (BitVec.ofNat 32 ((s.firstPage + k) % 256) + 1 : Word).slt PTE2_TOTAL = true := by
      rw [hslt, decide_eq_false hmid]
      decide
    refine (if_neg hns).trans ?_
    have h1 : (s.firstPage + (k + 1)) / 256 = (s.firstPage + k) / 256 + 1 := by omega
    have h2 : (s.firstPage + (k + 1)) % 256 = 0 := by omega
    have h3 : (BitVec.ofNat 32 ((s.firstPage + k) % 256) + 1 : Word) = PTE2_TOTAL := by
      have h256 : (s.firstPage + k) % 256 + 1 = 256 := by omega
      rw [hindex, h256]
      rfl
    rw [if_neg hmid]
    unfold pageAt
    rw [h1, h2, ← hnext, ← hcounter, BitVec.ofNat_add]
    simp only [h3, if_true]
    rfl

/-- `loop_fill_table2` does `fillPage`. -/
theorem loopFillTable2_eq (stop : Word) (hstored : s.Stored m.mem a) (ha : a + 3 < 2 ^ 30)
    (hw : (m.mem (t + (s.firstPage + k) / 256)).toNat / 2 ^ 10 * 256 + (s.firstPage + k) % 256 < 2 ^ 30)
    (hne : m.mem (t + (s.firstPage + k) / 256) ≠ 0) :
    step L.symbols (pageAt s a t stop k .loopFillTable2 (tableOf (m.mem (t + (s.firstPage + k) / 256))) m) =
      afterPage (pageAt s a t stop k .loopFillTable2 (tableOf (m.mem (t + (s.firstPage + k) / 256))) m)
        (L.fillPage t s k m) := by
  have hassign := assignPa_eq (L := L) (s := s) (t := t) (k := k) stop
    (tableOf (m.mem (t + (s.firstPage + k) / 256))) .loopFillTable2 hstored ha
  have hfill : L.fillPage t s k m = newPage (t + (s.firstPage + k) / 256) (s.firstPage + k)
      (s.pte2 (L.assignPa s k m).1) (L.assignPa s k m).2 := by
    rw [fillPage, ensureTable, if_neg hne]
  rw [hfill, ← fillPte2_eq hstored ha hw, ← hassign]
  rfl

end

/-! ## A section -/

/-- A section whose descriptor lies at word `a`, away from the tables, to be mapped by table `t` from the
state `m` on; the pool has tables for the megabytes `M`. -/
structure SectionCall (L : PageTables) (t a : Nat) (s : SectionDesc) (M : Finset Nat) (m : Mmu) : Prop where
  table1 : t ∈ L.table1s
  valid : s.Valid 32
  stored : s.Stored m.mem a
  lt : a + 4 ≤ 2 ^ 30
  apart : ∀ i, a ≤ i → i < a + 4 → ¬ L.Tables i
  megabytes : s.megabytes ⊆ M
  megabytes_lt : ∀ i ∈ M, i < 4096
  ram : m.wRamUsedPages.toNat + s.frames ≤ L.ramPages

/-- The builder is about to map page `k` of the section. -/
def Ready (t a : Nat) (stop : Word) (s : SectionDesc) (k : Nat) (m : Mmu) (f : Fill) : Prop :=
  (∃ table2, f = pageAt s a t stop k .loopFillPte1 table2 m) ∨
    m.mem (t + (s.firstPage + k) / 256) ≠ 0 ∧
      f = pageAt s a t stop k .loopFillTable2 (tableOf (m.mem (t + (s.firstPage + k) / 256))) m

/-- The builder is done with the section. -/
structure Next (t a : Nat) (stop : Word) (m : Mmu) (f : Fill) : Prop where
  label : f.label = .nextSection
  mmu : f.mmu = m
  sectionAddr : f.sectionAddr = addrOf a
  sectionEndAddr : f.sectionEndAddr = stop
  table1Addr : f.table1Addr = addrOf t

section
variable {L : PageTables} {t a k : Nat} {s : SectionDesc} {M : Finset Nat} {m m1 : Mmu} {stop : Word} {f : Fill}

open PageTables

theorem SectionCall.stored_congr (h : SectionCall L t a s M m) (hmem : ∀ i, ¬ L.Tables i → m1.mem i = m.mem i) :
    s.Stored m1.mem a := by
  obtain ⟨h0, h1, h2, h3⟩ := h.stored
  have hsame : ∀ j < 4, m1.mem (a + j) = m.mem (a + j) := fun j hj => hmem _ (h.apart _ (by omega) (by omega))
  exact ⟨(hsame 0 (by decide)).trans h0, (hsame 1 (by decide)).trans h1, (hsame 2 (by decide)).trans h2,
    (hsame 3 (by decide)).trans h3⟩

theorem SectionCall.megabyte (h : SectionCall L t a s M m) (hk : k < s.pageCount) : (s.firstPage + k) / 256 ∈ M :=
  h.megabytes (Finset.mem_image.2 ⟨k, Finset.mem_range.2 hk, rfl⟩)

/-- With the level-2 table in place, `loop_fill_table2` finishes the page. -/
theorem page_table2 (stop : Word) (h : SectionCall L t a s M m) (hk : k < s.pageCount) (hfill : FilledTo L t s M m k m1)
    (hne : m1.mem (t + (s.firstPage + k) / 256) ≠ 0) :
    ∃ f', Reaches (step L.symbols)
        (pageAt s a t stop k .loopFillTable2 (tableOf (m1.mem (t + (s.firstPage + k) / 256))) m1) f' ∧
      (k + 1 < s.pageCount → Ready t a stop s (k + 1) (L.fillPage t s k m1) f') ∧
      (k + 1 = s.pageCount → Next t a stop (L.fillPage t s k m1) f') := by
  have hpage := SectionDesc.lastPage_lt h.valid hk
  have hw : L.Level1 (t + (s.firstPage + k) / 256) := ⟨t, h.table1, _, by omega, rfl⟩
  have hlevel2 := hfill.inv.page_level2 hw hne (s.firstPage + k)
  have hlt := ((hlevel2.mono hfill.inv.qtty).2.trans_le (Nat.mul_le_mul_left 256 L.pool_lt))
  have hlt' := h.lt
  refine ⟨_, ⟨1, loopFillTable2_eq (L := L) stop (h.stored_congr hfill.memory) (by omega) hlt hne⟩, ?_, ?_⟩
  · intro hnext
    rw [afterPage_next h.valid hnext]
    by_cases hmid : (s.firstPage + k) % 256 < 255
    · have hsame : (s.firstPage + (k + 1)) / 256 = (s.firstPage + k) / 256 := by omega
      have hentry : (L.fillPage t s k m1).mem (t + (s.firstPage + k) / 256) = m1.mem (t + (s.firstPage + k) / 256) := by
        obtain ⟨hmem, hq⟩ := assignPa_mem (L := L) (s := s) (k := k) (m := m1)
        have hinv : Inv L (L.assignPa s k m1).2 := hfill.inv.congr (fun i _ => congrFun hmem i) hq
        rw [fillPage, ensureTable, if_neg hne, newPage_level1 hinv hw (ne_of_eq_of_ne (congrFun hmem _) hne) hw, hmem]
      refine .inr ⟨?_, ?_⟩
      · rw [hsame, hentry]
        exact hne
      · rw [if_pos hmid, hsame, hentry]
    · rw [if_neg hmid]
      exact .inl ⟨_, rfl⟩
  · intro hlast
    rw [afterPage_last h.valid hlast]
    exact ⟨rfl, rfl, rfl, rfl, rfl⟩

/-- One page: the step lemma of the loops -/
theorem page_run (h : SectionCall L t a s M m) (hk : k < s.pageCount) (hfill : FilledTo L t s M m k m1)
    (hf : Ready t a stop s k m1 f) :
    ∃ f', Reaches (step L.symbols) f f' ∧ FilledTo L t s M m (k + 1) (L.fillPage t s k m1) ∧
      (k + 1 < s.pageCount → Ready t a stop s (k + 1) (L.fillPage t s k m1) f') ∧
      (k + 1 = s.pageCount → Next t a stop (L.fillPage t s k m1) f') := by
  have hdone := fillPage_spec h.table1 h.valid hk h.megabytes_lt h.megabytes h.ram hfill
  rcases hf with ⟨table2, rfl⟩ | ⟨hne, rfl⟩
  · have hMk := h.megabyte hk
    have hlt := h.lt
    obtain ⟨h2, hne⟩ := ensureTable_spec h.table1 h.valid (SectionDesc.lastPage_lt h.valid hk) hMk hfill
    have hroom : m1.mem (t + (s.firstPage + k) / 256) = 0 → m1.wTable2Qtty.toNat < L.table2s := by
      intro h0
      have := missing_pos hMk h0
      have := hfill.room
      omega
    have hstep := loopFillPte1_spec stop table2 h.table1 h.valid hk (h.stored_congr hfill.memory)
      (by omega) hroom
    -- the page has its level-2 table now, and `fillPage` finds it
    have hsame : L.fillPage t s k (L.ensureTable t s (s.firstPage + k) m1) = L.fillPage t s k m1 := by
      have hensure : L.ensureTable t s (s.firstPage + k) (L.ensureTable t s (s.firstPage + k) m1) =
          L.ensureTable t s (s.firstPage + k) m1 := if_neg hne
      rw [fillPage, fillPage, hensure]
    obtain ⟨f', hreach, hnext⟩ := page_table2 stop h hk h2 hne
    rw [hsame] at hnext
    exact ⟨f', hreach.head hstep, hdone, hnext⟩
  · obtain ⟨f', hreach, hnext⟩ := page_table2 stop h hk hfill hne
    exact ⟨f', hreach, hdone, hnext⟩

/-- All pages left: the run lemma -/
theorem pages_run (h : SectionCall L t a s M m) {left : Nat} (hleft : k + (left + 1) = s.pageCount)
    (hfill : FilledTo L t s M m k m1) (hf : Ready t a stop s k m1 f) :
    ∃ f', Reaches (step L.symbols) f f' ∧ Next t a stop (L.fillPages t s k (left + 1) m1) f' := by
  induction left generalizing k m1 f with
  | zero =>
    obtain ⟨f', hreach, -, -, hlast⟩ := page_run h (by omega) hfill hf
    exact ⟨f', hreach, hlast hleft⟩
  | succ left ih =>
    obtain ⟨f1, hreach, hdone, hnext, -⟩ := page_run h (by omega) hfill hf
    obtain ⟨f', hreach', hlast⟩ := ih (by omega) hdone (hnext (by omega))
    exact ⟨f', hreach.trans hreach', hlast⟩

/-- From `loop_section_addr` to `next_section` -/
theorem section_run (h : SectionCall L t a s M m) (hinv : Inv L m)
    (hroom : m.wTable2Qtty.toNat + missing m.mem t M ≤ L.table2s) (hlabel : f.label = .loopSectionAddr)
    (hmmu : f.mmu = m) (haddr : f.sectionAddr = addrOf a) (hstop : f.sectionEndAddr = stop)
    (ht : f.table1Addr = addrOf t) :
    ∃ f', Reaches (step L.symbols) f f' ∧ Next t a stop (L.fillSection t s m) f' := by
  have hlt := h.lt
  have hrefl : FilledTo L t s M m 0 m := .refl hinv hroom
  have hstart : step L.symbols f = f.loopSectionAddr := by rw [step, hlabel]
  have hsize : f.mmu.ldr (f.sectionAddr + SECTION_SIZE) = s.size := by
    rw [hmmu, haddr]
    exact (ldr_addrOf (k := 4) (by omega) (by decide)).trans h.stored.2.1
  have hvma : f.mmu.ldr (f.sectionAddr + SECTION_VMA) = s.vma := by
    rw [hmmu, haddr]
    exact (ldr_addrOf (k := 0) (by omega) (by decide)).trans h.stored.1
  have hsle : s.size.sle 0 = decide (s.size.toNat ≤ 0) := sle_of_lt h.valid.size (by decide)
  by_cases h0 : s.size.toNat = 0
  · have hcount : s.pageCount = 0 := by
      unfold SectionDesc.pageCount
      omega
    refine ⟨f.loopSectionAddr, ⟨1, hstart⟩, ?_⟩
    rw [fillSection, hcount]
    refine ⟨?_, hmmu, haddr, hstop, ht⟩
    show (if (f.mmu.ldr (f.sectionAddr + SECTION_SIZE)).sle 0 then FillLabel.nextSection else .loopFillPte1) = _
    rw [hsize, hsle, h0]
    rfl
  · obtain ⟨left, hleft⟩ : ∃ left, 0 + (left + 1) = s.pageCount := by
      refine ⟨s.pageCount - 1, ?_⟩
      unfold SectionDesc.pageCount
      omega
    have hready : f.loopSectionAddr = pageAt s a t stop 0 .loopFillPte1 f.table2Addr m := by
      have hns : ¬ s.size.sle 0 = true := by
        rw [hsle, decide_eq_false (by omega)]
        decide
      rw [loopSectionAddr, hsize, hvma, if_neg hns, getPte1IndexFromVma_eq, getPte2IndexFromVma_eq, pageAt, hmmu, haddr,
        hstop, ht, Nat.mul_zero]
      simp [SectionDesc.firstPage]
    obtain ⟨f', hreach, hnext⟩ := pages_run h hleft hrefl (.inl ⟨_, hready⟩)
    rw [Nat.zero_add] at hleft
    rw [fillSection, ← hleft]
    exact ⟨f', hreach.head hstart, hnext⟩

end

end Fill
end Td3.Kernel
