/-
The sections of the page-table builder, and what it does for one page of one: `fillPage`. After the
first `k` pages of a section the walks of these pages give what the section says, and all other walks
what they gave before.
-/
import Td3.Kernel.MmuTables

namespace Td3.Kernel

open Arm

/-! ## Sections -/

/-- A section descriptor -/
structure SectionDesc where
  vma : Word
  size : Word
  pa : Word
  domain : BitVec 8
  ap : BitVec 8
  mem : BitVec 8
  gsx : BitVec 8

/-- The number of the page an address lies in -/
def pageOf (va : Word) : Nat := va.toNat / 2 ^ 12

theorem pageOf_lt (va : Word) : pageOf va < 2 ^ 20 := by
  unfold pageOf
  omega

namespace SectionDesc

/-- The descriptor at word `a` of memory -/
def Stored (memory : Nat → Word) (a : Nat) (s : SectionDesc) : Prop :=
  memory a = s.vma ∧ memory (a + 1) = s.size ∧ memory (a + 2) = s.pa ∧
    memory (a + 3) = s.gsx ++ s.mem ++ s.ap ++ s.domain

/-- The section reaches into a page. -/
def Touches (s : SectionDesc) (page : Nat) : Prop :=
  s.vma.toNat < (page + 1) * 2 ^ 12 ∧ page * 2 ^ 12 < s.vma.toNat + s.size.toNat

instance (s : SectionDesc) (page : Nat) : Decidable (s.Touches page) := inferInstanceAs (Decidable (_ ∧ _))

/-- What the entry of each of its pages says -/
def attributes (s : SectionDesc) : PageAttributes where
  nG := s.gsx.getLsbD 2
  s := s.gsx.getLsbD 1
  ap := s.ap.setWidth 3
  tex := s.mem.extractLsb' 2 3
  c := s.mem.getLsbD 1
  b := s.mem.getLsbD 0
  xn := s.gsx.getLsbD 0

/-- A descriptor as the section files have them, its domain below `domains`. -/
structure Valid (domains : Nat) (s : SectionDesc) : Prop where
  vma : 2 ^ 12 ∣ s.vma.toNat
  size : s.size.toNat < 2 ^ 31
  vma_le : s.vma.toNat + s.size.toNat ≤ 2 ^ 32
  pa : s.pa ≠ NO_PA → 2 ^ 12 ∣ s.pa.toNat
  pa_le : s.pa ≠ NO_PA → s.pa.toNat + s.size.toNat ≤ 2 ^ 32
  domain : s.domain.toNat < domains
  ap : s.ap.toNat < 8
  mem : s.mem.toNat < 32
  gsx : s.gsx.toNat < 8

def firstPage (s : SectionDesc) : Nat := pageOf s.vma

def pageCount (s : SectionDesc) : Nat := (s.size.toNat + (2 ^ 12 - 1)) / 2 ^ 12

/-- Pages of free RAM -/
def frames (s : SectionDesc) : Nat := if s.pa = NO_PA then s.pageCount else 0

/-- The megabytes its pages lie in -/
def megabytes (s : SectionDesc) : Finset Nat := (Finset.range s.pageCount).image fun k => (s.firstPage + k) / 256

def pte2 (s : SectionDesc) (pa : Word) : Word :=
  Mmu.pte2Of pa (s.ap.setWidth 32) (s.mem.setWidth 32) (s.gsx.setWidth 32)

variable {s : SectionDesc} {domains : Nat}

theorem touches_iff (h : s.Valid domains) (page : Nat) :
    s.Touches page ↔ s.firstPage ≤ page ∧ page < s.firstPage + s.pageCount := by
  obtain ⟨v, hv⟩ := h.vma
  unfold Touches firstPage pageCount
  rw [pageOf, hv]
  omega

theorem lastPage_lt (h : s.Valid domains) {k : Nat} (hk : k < s.pageCount) : s.firstPage + k < 2 ^ 20 := by
  obtain ⟨v, hv⟩ := h.vma
  have := h.vma_le
  unfold pageCount at hk
  unfold firstPage pageOf
  omega

theorem lt_pageCount {k : Nat} : k < s.pageCount ↔ 2 ^ 12 * k < s.size.toNat := by
  unfold pageCount
  omega

theorem frames_free (h : s.pa = NO_PA) : s.frames = s.pageCount := if_pos h

theorem frames_fixed (h : s.pa ≠ NO_PA) : s.frames = 0 := if_neg h

/-! ## The entry of a page -/

theorem getElem_of_lt {b : BitVec 8} {n k : Nat} (h : b.toNat < 2 ^ n) (hk : n ≤ k) (hk8 : k < 8) : b[k] = false := by
  rw [← BitVec.getLsbD_eq_getElem]
  exact Nat.testBit_lt_two_pow (Nat.lt_of_lt_of_le h (Nat.pow_le_pow_right (by decide) hk))

theorem pte2_attributes (h : s.Valid domains) (pa : Word) : PageAttributes.ofEntry (s.pte2 pa) = s.attributes := by
  have hap : ∀ k, 3 ≤ k → (hk : k < 8) → s.ap[k] = false := fun k hk => getElem_of_lt h.ap hk
  have hmem : ∀ k, 5 ≤ k → (hk : k < 8) → s.mem[k] = false := fun k hk => getElem_of_lt h.mem hk
  have hgsx : ∀ k, 3 ≤ k → (hk : k < 8) → s.gsx[k] = false := fun k hk => getElem_of_lt h.gsx hk
  unfold PageAttributes.ofEntry attributes pte2 Mmu.pte2Of
  congr 1
  case e_ap =>
    apply BitVec.eq_of_getLsbD_eq
    intro k hk
    rw [BitVec.getLsbD_cast, BitVec.getLsbD_append]
    have hcases : k = 0 ∨ k = 1 ∨ k = 2 := by omega
    rcases hcases with rfl | rfl | rfl <;> simp [hap, hmem, hgsx]
  case e_tex =>
    apply BitVec.eq_of_getLsbD_eq
    intro k hk
    have hcases : k = 0 ∨ k = 1 ∨ k = 2 := by omega
    rcases hcases with rfl | rfl | rfl <;> simp [hap, hmem, hgsx]
  all_goals simp [hap, hmem, hgsx]

theorem pte2_small (pa : Word) : (s.pte2 pa).getLsbD 1 = true := by
  simp [pte2, Mmu.pte2Of]

theorem shiftLeft_lt {x : Word} {n k : Nat} (hx : x.toNat < 2 ^ n) (hk : n + k ≤ 12) : (x <<< k).toNat < 2 ^ 12 := by
  rw [BitVec.toNat_shiftLeft, Nat.shiftLeft_eq]
  refine Nat.lt_of_le_of_lt (Nat.mod_le ..) (Nat.lt_of_lt_of_le ?_ (Nat.pow_le_pow_right (by decide) hk))
  rw [Nat.pow_add]
  exact Nat.mul_lt_mul_of_pos_right hx (by positivity)

theorem or_lt {x y : Word} (hx : x.toNat < 2 ^ 12) (hy : y.toNat < 2 ^ 12) : (x ||| y).toNat < 2 ^ 12 := by
  rw [BitVec.toNat_or]
  exact Nat.or_lt_two_pow hx hy

theorem and_lt {x y : Word} {n : Nat} (hy : y.toNat < 2 ^ n) : (x &&& y).toNat < 2 ^ n := by
  rw [BitVec.toNat_and]
  exact Nat.and_lt_two_pow _ hy

theorem ushiftRight_lt {b : BitVec 8} {n k : Nat} (h : b.toNat < 2 ^ (n + k)) :
    (b.setWidth 32 >>> k).toNat < 2 ^ n := by
  rw [BitVec.toNat_ushiftRight, Nat.shiftRight_eq_div_pow, BitVec.toNat_setWidth,
    Nat.mod_eq_of_lt (Nat.lt_of_lt_of_le b.isLt (by decide))]
  exact Nat.div_lt_of_lt_mul (by rwa [← Nat.pow_add, Nat.add_comm])

/-- The fields of the entry lie below the frame. -/
theorem pte2_frame (h : s.Valid domains) (pa : Word) : (s.pte2 pa).toNat / 2 ^ 12 = pa.toNat / 2 ^ 12 := by
  have hbase : (pa &&& ~~~0xFFF#32).toNat / 2 ^ 12 = pa.toNat / 2 ^ 12 := by
    have hlow : pa &&& ~~~0xFFF#32 = BitVec.ofNat 32 (pa.toNat / 2 ^ 12 * 2 ^ 12) := and_not_low pa 12
    rw [hlow, BitVec.toNat_ofNat]
    omega
  have hgsx : (s.gsx.setWidth 32 >>> 1 : Word).toNat < 2 ^ 2 := ushiftRight_lt h.gsx
  have hap : (s.ap.setWidth 32 >>> 2 : Word).toNat < 2 ^ 1 := ushiftRight_lt h.ap
  have hmem : (s.mem.setWidth 32 >>> 2 : Word).toNat < 2 ^ 3 := ushiftRight_lt h.mem
  rw [← hbase]
  simp only [pte2, Mmu.pte2Of, BitVec.or_assoc]
  refine toNat_or_div (or_lt (shiftLeft_lt hgsx (by decide)) (or_lt (shiftLeft_lt hap (by decide))
    (or_lt (shiftLeft_lt hmem (by decide)) (or_lt (shiftLeft_lt (and_lt (n := 2) (by decide)) (by decide))
      (or_lt (shiftLeft_lt (and_lt (n := 2) (by decide)) (by decide)) (or_lt (by decide) ?_))))))
  exact Nat.lt_trans (and_lt (n := 1) (by decide)) (by decide)

end SectionDesc

namespace PageTables

open SectionDesc

/-! ## One page -/

/-- The megabytes of `M` without a level-2 table -/
def missing (memory : Nat → Word) (t : Nat) (M : Finset Nat) : Nat := (M.filter fun i => memory (t + i) = 0).card

section
variable (L : PageTables) (t : Nat) (s : SectionDesc)

/-- Where the section maps `va`, if it had `used` pages of free RAM before it. -/
def pageAddr (used : Nat) (va : Word) : Word :=
  if s.pa = NO_PA then
    BitVec.ofNat 32 ((L.freeFrame + used + (pageOf va - s.firstPage)) * 2 ^ 12 + va.toNat % 2 ^ 12)
  else s.pa + (va - s.vma)

def ensureTable (page : Nat) (m : Mmu) : Mmu :=
  if m.mem (t + page / 256) = 0 then L.newTable (t + page / 256) (s.domain.setWidth 32) m else m

def assignPa (k : Nat) (m : Mmu) : Word × Mmu :=
  if s.pa = NO_PA then m.prvMmuAssignFreePa L.symbols else (s.pa + BitVec.ofNat 32 (k * 2 ^ 12), m)

/-- What the loops do for page `k` of the section -/
def fillPage (k : Nat) (m : Mmu) : Mmu :=
  let m := L.ensureTable t s (s.firstPage + k) m
  let r := L.assignPa s k m
  newPage (t + (s.firstPage + k) / 256) (s.firstPage + k) (s.pte2 r.1) r.2

/-- What they do for `n` pages from page `k` on -/
def fillPages (k : Nat) : Nat → Mmu → Mmu
  | 0, m => m
  | n + 1, m => fillPages (k + 1) n (L.fillPage t s k m)

/-- What they do for a section, and for a list of sections -/
def fillSection (m : Mmu) : Mmu := L.fillPages t s 0 s.pageCount m

def fillSections (ss : List SectionDesc) (m : Mmu) : Mmu := ss.foldl (fun m s => L.fillSection t s m) m

/-- `m'` is `m` with the first `k` pages of the section mapped by table `t`; `M` are the megabytes for
which the pool has tables. -/
structure FilledTo (M : Finset Nat) (m : Mmu) (k : Nat) (m' : Mmu) : Prop where
  inv : Inv L m'
  room : m'.wTable2Qtty.toNat + missing m'.mem t M ≤ L.table2s
  used : m'.wRamUsedPages.toNat = m.wRamUsedPages.toNat + if s.pa = NO_PA then k else 0
  mapped : ∀ va, s.firstPage ≤ pageOf va → pageOf va < s.firstPage + k →
    ∃ domain, walk m'.mem t va = .smallPage (L.pageAddr s m.wRamUsedPages.toNat va) domain s.attributes
  unmapped : ∀ va, ¬ (s.firstPage ≤ pageOf va ∧ pageOf va < s.firstPage + k) → walk m'.mem t va = walk m.mem t va
  others : ∀ t' ∈ L.table1s, t' ≠ t → ∀ va, walk m'.mem t' va = walk m.mem t' va
  memory : ∀ i, ¬ L.Tables i → m'.mem i = m.mem i

end

section
variable {L : PageTables} {t : Nat} {s : SectionDesc} {M : Finset Nat} {m m1 : Mmu} {k : Nat}

theorem level1Index_eq (va : Word) : level1Index t va = t + pageOf va / 256 := by
  unfold level1Index pageOf
  omega

theorem FilledTo.refl (h : Inv L m) (hroom : m.wTable2Qtty.toNat + missing m.mem t M ≤ L.table2s) :
    FilledTo L t s M m 0 m := by
  refine ⟨h, hroom, by simp, ?_, fun _ _ => rfl, fun _ _ _ _ => rfl, fun _ _ => rfl⟩
  intro va h1 h2
  omega

theorem missing_newTable {i : Nat} (domain : Word) (hi : i ∈ M) (h0 : m.mem (t + i) = 0) :
    missing (L.newTable (t + i) domain m).mem t M + 1 ≤ missing m.mem t M := by
  have hsub : (M.filter fun j => (L.newTable (t + i) domain m).mem (t + j) = 0) ⊆
      (M.filter fun j => m.mem (t + j) = 0).erase i := by
    intro j hj
    rw [Finset.mem_filter] at hj
    rw [Finset.mem_erase, Finset.mem_filter]
    have hne : j ≠ i := by
      rintro rfl
      exact absurd ((Function.update_self ..).symm.trans hj.2) tableEntry_ne_zero
    refine ⟨hne, hj.1, ?_⟩
    rw [← hj.2]
    exact (Function.update_of_ne (by omega) ..).symm
  have hcard := Finset.card_le_card hsub
  rw [Finset.card_erase_of_mem (Finset.mem_filter.2 ⟨hi, h0⟩)] at hcard
  have hpos : 0 < (M.filter fun j => m.mem (t + j) = 0).card := Finset.card_pos.2 ⟨i, Finset.mem_filter.2 ⟨hi, h0⟩⟩
  unfold missing
  omega

theorem missing_pos {i : Nat} (hi : i ∈ M) (h0 : m.mem (t + i) = 0) : 0 < missing m.mem t M :=
  Finset.card_pos.2 ⟨i, Finset.mem_filter.2 ⟨hi, h0⟩⟩

theorem ensureTable_spec (ht : t ∈ L.table1s) (hs : s.Valid 32) {page : Nat} (hpage : page < 2 ^ 20)
    (hM : page / 256 ∈ M) (h : FilledTo L t s M m k m1) :
    FilledTo L t s M m k (L.ensureTable t s page m1) ∧ (L.ensureTable t s page m1).mem (t + page / 256) ≠ 0 := by
  unfold ensureTable
  by_cases h0 : m1.mem (t + page / 256) = 0
  · rw [if_pos h0]
    have hw : L.Level1 (t + page / 256) := ⟨t, ht, page / 256, by omega, rfl⟩
    have hd : (s.domain.setWidth 32 : Word).toNat < 32 := by
      rw [BitVec.toNat_setWidth, Nat.mod_eq_of_lt (Nat.lt_of_lt_of_le s.domain.isLt (by decide))]
      exact hs.domain
    have hroom : m1.wTable2Qtty.toNat < L.table2s := by
      have := missing_pos hM h0
      have := h.room
      omega
    have hwalk : ∀ t' ∈ L.table1s, ∀ va, walk (L.newTable (t + page / 256) (s.domain.setWidth 32) m1).mem t' va =
        walk m1.mem t' va := fun t' ht' va => newTable_walk h.inv hw hd hroom h0 ht'
    refine ⟨⟨newTable_inv h.inv hw hd hroom, ?_, h.used, ?_, ?_, ?_, ?_⟩, ?_⟩
    · have hmissing := missing_newTable (L := L) (s.domain.setWidth 32) hM h0
      have hq : (L.newTable (t + page / 256) (s.domain.setWidth 32) m1).wTable2Qtty.toNat = m1.wTable2Qtty.toNat + 1 :=
        qtty_succ hroom
      have := h.room
      omega
    · intro va h1 h2
      rw [hwalk t ht]
      exact h.mapped va h1 h2
    · intro va hva
      rw [hwalk t ht]
      exact h.unmapped va hva
    · intro t' ht' hne va
      rw [hwalk t' ht']
      exact h.others t' ht' hne va
    · intro i hi
      refine (Function.update_of_ne ?_ ..).trans (h.memory i hi)
      rintro rfl
      exact hi (.inl hw)
    · refine ne_of_eq_of_ne (Function.update_self ..) ?_
      exact tableEntry_ne_zero
  · rw [if_neg h0]
    exact ⟨h, h0⟩

theorem assignPa_mem : (L.assignPa s k m).2.mem = m.mem ∧ (L.assignPa s k m).2.wTable2Qtty = m.wTable2Qtty := by
  unfold assignPa
  split_ifs <;> exact ⟨rfl, rfl⟩

theorem assignPa_used {n : Nat} (hk : k < s.pageCount)
    (hused : m.wRamUsedPages.toNat = n + if s.pa = NO_PA then k else 0)
    (hram : n + s.frames ≤ L.ramPages) :
    (L.assignPa s k m).2.wRamUsedPages.toNat = n + if s.pa = NO_PA then k + 1 else 0 := by
  unfold assignPa
  by_cases hpa : s.pa = NO_PA
  · rw [if_pos hpa, if_pos hpa]
    rw [if_pos hpa] at hused
    rw [frames_free hpa] at hram
    have := L.ram_lt
    show (m.wRamUsedPages + 1).toNat = n + (k + 1)
    rw [BitVec.toNat_add, hused]
    simp
    omega
  · rw [if_neg hpa, if_neg hpa]
    rw [if_neg hpa] at hused
    exact hused

theorem assignPa_addr {n : Nat} {va : Word} (hs : s.Valid 32) (hk : k < s.pageCount)
    (hused : m.wRamUsedPages.toNat = n + if s.pa = NO_PA then k else 0) (hram : n + s.frames ≤ L.ramPages)
    (hva : pageOf va = s.firstPage + k) :
    BitVec.ofNat 32 ((L.assignPa s k m).1.toNat / 2 ^ 12 * 2 ^ 12 + va.toNat % 2 ^ 12) = L.pageAddr s n va := by
  have hram' := L.ram_lt
  unfold assignPa pageAddr
  by_cases hpa : s.pa = NO_PA
  · rw [if_pos hpa, if_pos hpa]
    rw [if_pos hpa] at hused
    rw [frames_free hpa] at hram
    have hframe : (m.prvMmuAssignFreePa L.symbols).1.toNat / 2 ^ 12 = L.freeFrame + n + k := by
      show (BitVec.ofNat 32 (2 ^ 12 * L.freeFrame) + m.wRamUsedPages <<< 12).toNat / 2 ^ 12 = _
      rw [BitVec.toNat_add, BitVec.toNat_shiftLeft, BitVec.toNat_ofNat, hused, Nat.shiftLeft_eq]
      omega
    rw [hframe, hva, Nat.add_sub_cancel_left]
  · rw [if_neg hpa, if_neg hpa]
    obtain ⟨p, hp⟩ := hs.pa hpa
    obtain ⟨v, hv⟩ := hs.vma
    have hle := hs.pa_le hpa
    have hvle := hs.vma_le
    have hsize := lt_pageCount.1 hk
    unfold firstPage pageOf at hva
    apply BitVec.eq_of_toNat_eq
    rw [BitVec.toNat_ofNat, BitVec.toNat_add, BitVec.toNat_add, BitVec.toNat_sub, BitVec.toNat_ofNat, hp, hv]
    rw [hv] at hva hvle
    rw [hp] at hle
    omega

theorem missing_newPage {w page : Nat} {pte2 : Word} (ht : t ∈ L.table1s) (hM : ∀ i ∈ M, i < 4096) (h : Inv L m)
    (hw : L.Level1 w) (hne : m.mem w ≠ 0) : missing (newPage w page pte2 m).mem t M = missing m.mem t M := by
  unfold missing
  congr 1
  refine Finset.filter_congr fun i hi => ?_
  rw [newPage_level1 h hw hne ⟨t, ht, i, hM i hi, rfl⟩]

/-- The write of the entry of page `k` -/
theorem newPage_filled {m3 : Mmu} {pa : Word} (ht : t ∈ L.table1s) (hs : s.Valid 32) (hpage : s.firstPage + k < 2 ^ 20)
    (hM : ∀ i ∈ M, i < 4096) (h : FilledTo L t s M m k m1) (hmem : m3.mem = m1.mem)
    (hq : m3.wTable2Qtty = m1.wTable2Qtty) (hne : m3.mem (t + (s.firstPage + k) / 256) ≠ 0)
    (hused : m3.wRamUsedPages.toNat = m.wRamUsedPages.toNat + if s.pa = NO_PA then k + 1 else 0)
    (haddr : ∀ va, pageOf va = s.firstPage + k →
      BitVec.ofNat 32 (pa.toNat / 2 ^ 12 * 2 ^ 12 + va.toNat % 2 ^ 12) = L.pageAddr s m.wRamUsedPages.toNat va) :
    FilledTo L t s M m (k + 1) (newPage (t + (s.firstPage + k) / 256) (s.firstPage + k) (s.pte2 pa) m3) := by
  have hw : L.Level1 (t + (s.firstPage + k) / 256) := ⟨t, ht, _, by omega, rfl⟩
  have hinv : Inv L m3 := h.inv.congr (fun i _ => congrFun hmem i) hq
  have hwalk : ∀ t' ∈ L.table1s, ∀ va, t' ≠ t ∨ pageOf va ≠ s.firstPage + k →
      walk (newPage (t + (s.firstPage + k) / 256) (s.firstPage + k) (s.pte2 pa) m3).mem t' va = walk m1.mem t' va := by
    intro t' ht' va hother
    rw [← hmem]
    refine newPage_walk_of_ne hinv hw hne ht' ?_
    rw [level1Index_eq]
    by_contra hboth
    push Not at hboth
    have hlt := pageOf_lt va
    obtain ⟨rfl, hindex⟩ := level1_inj ht' ht (by omega) (by omega) hboth.1
    have hmod : pageOf va % 256 = (s.firstPage + k) % 256 := hboth.2
    rcases hother with hne | hne
    · exact hne rfl
    · omega
  refine ⟨newPage_inv hinv hw hne, ?_, hused, ?_, ?_, ?_, ?_⟩
  · rw [missing_newPage ht hM hinv hw hne, hmem]
    show m3.wTable2Qtty.toNat + _ ≤ _
    rw [hq]
    exact h.room
  · intro va h1 hlt
    by_cases hva : pageOf va = s.firstPage + k
    · have hmod : va.toNat / 2 ^ 12 % 256 = (s.firstPage + k) % 256 := congrArg (· % 256) hva
      have hself := newPage_walk_self hinv hw hne (by rw [level1Index_eq, hva]) hmod (pte2_small (s := s) pa)
      rw [pte2_frame hs, haddr va hva, pte2_attributes hs] at hself
      exact ⟨_, hself⟩
    · rw [hwalk t ht va (.inr hva)]
      exact h.mapped va h1 (by omega)
  · intro va hva
    rw [hwalk t ht va (.inr (by omega))]
    exact h.unmapped va (by omega)
  · intro t' ht' hne' va
    rw [hwalk t' ht' va (.inl hne')]
    exact h.others t' ht' hne' va
  · intro i hi
    refine (newPage_mem ?_).trans ((congrFun hmem i).trans (h.memory i hi))
    rintro rfl
    exact hi (.inr ((hinv.page_level2 hw hne _).mono hinv.qtty))

/-- One more page -/
theorem fillPage_spec (ht : t ∈ L.table1s) (hs : s.Valid 32) (hk : k < s.pageCount) (hM : ∀ i ∈ M, i < 4096)
    (hsM : s.megabytes ⊆ M) (hram : m.wRamUsedPages.toNat + s.frames ≤ L.ramPages) (h : FilledTo L t s M m k m1) :
    FilledTo L t s M m (k + 1) (L.fillPage t s k m1) := by
  have hpage := lastPage_lt hs hk
  have hMk : (s.firstPage + k) / 256 ∈ M := hsM (Finset.mem_image.2 ⟨k, Finset.mem_range.2 hk, rfl⟩)
  obtain ⟨h2, hne⟩ := ensureTable_spec ht hs hpage hMk h
  obtain ⟨hmem, hq⟩ := assignPa_mem (L := L) (s := s) (k := k) (m := L.ensureTable t s (s.firstPage + k) m1)
  exact newPage_filled ht hs hpage hM h2 hmem hq (ne_of_eq_of_ne (congrFun hmem _) hne)
    (assignPa_used hk h2.used hram)
    fun va hva => assignPa_addr hs hk h2.used hram hva

theorem fillPages_spec (ht : t ∈ L.table1s) (hs : s.Valid 32) (hM : ∀ i ∈ M, i < 4096) (hsM : s.megabytes ⊆ M)
    (hram : m.wRamUsedPages.toNat + s.frames ≤ L.ramPages) {n : Nat} (hn : k + n ≤ s.pageCount)
    (h : FilledTo L t s M m k m1) : FilledTo L t s M m (k + n) (L.fillPages t s k n m1) := by
  induction n generalizing k m1 with
  | zero => exact h
  | succ n ih =>
    have hnext := ih (by omega) (fillPage_spec ht hs (by omega) hM hsM hram h)
    rw [Nat.add_right_comm, Nat.add_assoc] at hnext
    exact hnext

theorem fillSection_spec (ht : t ∈ L.table1s) (hs : s.Valid 32) (hM : ∀ i ∈ M, i < 4096) (hsM : s.megabytes ⊆ M)
    (hinv : Inv L m) (hroom : m.wTable2Qtty.toNat + missing m.mem t M ≤ L.table2s)
    (hram : m.wRamUsedPages.toNat + s.frames ≤ L.ramPages) :
    FilledTo L t s M m s.pageCount (L.fillSection t s m) := by
  have hall := fillPages_spec ht hs hM hsM hram (n := s.pageCount) (by omega) (.refl hinv hroom)
  rw [Nat.zero_add] at hall
  exact hall

end
end PageTables
end Td3.Kernel
