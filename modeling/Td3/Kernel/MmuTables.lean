/-
The tables the builder works on: where they lie, what the builder keeps of them between any two of its
steps, and what its two writes do to the walks of all tables. A new level-2 table is empty, so hanging
it below an empty entry changes no walk; an entry written into a level-2 table changes the walks of one
page of one table, as no two entries of level 1 share a level-2 table.
-/
import Td3.Kernel.Mmu

namespace Td3.Kernel

open Arm

/-! ## Layout -/

/-- Where the tables lie: the pool of level-2 tables, at 1 KB block `pool`, free RAM, at page `freeFrame`,
and the level-1 tables, by the word they start at. -/
structure PageTables where
  pool : Nat
  table2s : Nat
  freeFrame : Nat
  ramPages : Nat
  table1s : Set Nat
  pool_lt : pool + table2s ≤ 2 ^ 22
  ram_lt : freeFrame + ramPages ≤ 2 ^ 20
  table1_aligned : ∀ t ∈ table1s, 4096 ∣ t
  table1_lt : ∀ t ∈ table1s, t + 4096 ≤ 2 ^ 30
  table1_pool : ∀ t ∈ table1s, t + 4096 ≤ 256 * pool ∨ 256 * (pool + table2s) ≤ t

namespace PageTables

variable (L : PageTables)

def symbols : MmuSymbols := ⟨addrOf (256 * L.pool), BitVec.ofNat 32 (2 ^ 12 * L.freeFrame)⟩

/-- The word of a level-1 entry -/
def Level1 (w : Nat) : Prop := ∃ t ∈ L.table1s, ∃ i < 4096, w = t + i

/-- The words of the first `n` level-2 tables -/
def Level2 (n w : Nat) : Prop := 256 * L.pool ≤ w ∧ w < 256 * (L.pool + n)

/-- The words of the tables -/
def Tables (w : Nat) : Prop := L.Level1 w ∨ L.Level2 L.table2s w

/-- The entry that points to table `k` of the pool -/
def entry (k : Nat) (domain : Word) : Word := tableEntry (addrOf (256 * (L.pool + k))) domain

variable {L}

theorem Level2.mono {n n' w : Nat} (h : L.Level2 n w) (hn : n ≤ n') : L.Level2 n' w := by
  unfold Level2 at *
  omega

theorem Level1.not_level2 {w : Nat} (h : L.Level1 w) : ¬ L.Level2 L.table2s w := by
  obtain ⟨t, ht, i, hi, rfl⟩ := h
  have := L.table1_pool t ht
  unfold Level2
  omega

theorem level1_index {t : Nat} (ht : t ∈ L.table1s) (va : Word) : L.Level1 (level1Index t va) :=
  ⟨t, ht, va.toNat / 2 ^ 20, by omega, rfl⟩

/-- Level-1 tables are aligned to their size, so their entries are apart. -/
theorem level1_inj {t t' i i' : Nat} (ht : t ∈ L.table1s) (ht' : t' ∈ L.table1s) (hi : i < 4096) (hi' : i' < 4096)
    (h : t + i = t' + i') : t = t' ∧ i = i' := by
  obtain ⟨a, rfl⟩ := L.table1_aligned t ht
  obtain ⟨b, rfl⟩ := L.table1_aligned t' ht'
  omega

section
variable {k : Nat} {domain va : Word}

theorem entry_table (hk : k < L.table2s) (hd : domain.toNat < 32) : (L.entry k domain).toNat / 2 ^ 10 = L.pool + k :=
  tableEntry_table (by have := L.pool_lt; omega) hd

theorem level2Index_entry (hk : k < L.table2s) (hd : domain.toNat < 32) :
    level2Index (L.entry k domain) va = 256 * (L.pool + k) + va.toNat / 2 ^ 12 % 256 := by
  rw [level2Index, entry_table hk hd, Nat.mul_comm]

end

/-! ## Invariant -/

/-- The level-1 entries in use point to level-2 tables already taken from the pool, each to its own, and
the tables not yet taken are empty. -/
structure Inv (L : PageTables) (m : Mmu) : Prop where
  qtty : m.wTable2Qtty.toNat ≤ L.table2s
  entry : ∀ w, L.Level1 w → m.mem w = 0 ∨ ∃ k domain, k < m.wTable2Qtty.toNat ∧ domain.toNat < 32 ∧
    m.mem w = L.entry k domain
  distinct : ∀ w w', L.Level1 w → L.Level1 w' → m.mem w ≠ 0 → m.mem w' ≠ 0 →
    (m.mem w).toNat / 2 ^ 10 = (m.mem w').toNat / 2 ^ 10 → w = w'
  unused : ∀ w, 256 * (L.pool + m.wTable2Qtty.toNat) ≤ w → w < 256 * (L.pool + L.table2s) → m.mem w = 0

section
variable {m : Mmu} {w : Nat} {domain va : Word}

theorem Inv.level2 (h : Inv L m) (hw : L.Level1 w) (hne : m.mem w ≠ 0) :
    L.Level2 m.wTable2Qtty.toNat (level2Index (m.mem w) va) := by
  obtain ⟨k, d, hk, hd, he⟩ := (h.entry w hw).resolve_left hne
  have hq := h.qtty
  rw [he, level2Index_entry (by omega) hd]
  unfold Level2
  omega

theorem Inv.type (h : Inv L m) (hw : L.Level1 w) (hne : m.mem w ≠ 0) : (m.mem w).extractLsb' 0 2 = 1 := by
  obtain ⟨k, d, hk, hd, he⟩ := (h.entry w hw).resolve_left hne
  rw [he]
  exact tableEntry_type

/-- A write outside the tables -/
theorem Inv.congr {m' : Mmu} (h : Inv L m) (hmem : ∀ i, L.Tables i → m'.mem i = m.mem i)
    (hq : m'.wTable2Qtty = m.wTable2Qtty) : Inv L m' := by
  refine ⟨hq ▸ h.qtty, ?_, ?_, ?_⟩
  · intro w hw
    rw [hmem w (.inl hw), hq]
    exact h.entry w hw
  · intro w w' hw hw'
    rw [hmem w (.inl hw), hmem w' (.inl hw')]
    exact h.distinct w w' hw hw'
  · intro w hlo hhi
    rw [hq] at hlo
    rw [hmem w (.inr ⟨by omega, hhi⟩)]
    exact h.unused w hlo hhi

theorem Inv.walk_congr {m' : Mmu} {t : Nat} (h : Inv L m) (ht : t ∈ L.table1s)
    (hmem : ∀ i, L.Tables i → m'.mem i = m.mem i) : walk m'.mem t va = walk m.mem t va := by
  refine Arm.walk_congr (hmem _ (.inl (level1_index ht va))) fun htype => hmem _ (.inr ?_)
  refine Level2.mono (h.level2 (level1_index ht va) ?_) h.qtty
  intro h0
  rw [h0] at htype
  exact absurd htype (by decide)

/-! ## A new level-2 table -/

/-- The next table of the pool becomes that of the entry at word `w`. -/
def newTable (L : PageTables) (w : Nat) (domain : Word) (m : Mmu) : Mmu :=
  { m with
    mem := Function.update m.mem w (L.entry m.wTable2Qtty.toNat domain), wTable2Qtty := m.wTable2Qtty + 1 }

theorem qtty_succ (hroom : m.wTable2Qtty.toNat < L.table2s) : (m.wTable2Qtty + 1).toNat = m.wTable2Qtty.toNat + 1 := by
  have := L.pool_lt
  rw [BitVec.toNat_add]
  simp
  omega

theorem newTable_inv (h : Inv L m) (hw : L.Level1 w) (hd : domain.toNat < 32)
    (hroom : m.wTable2Qtty.toNat < L.table2s) :
    Inv L (L.newTable w domain m) := by
  have hq : (L.newTable w domain m).wTable2Qtty.toNat = m.wTable2Qtty.toNat + 1 := qtty_succ hroom
  have hself : (L.newTable w domain m).mem w = L.entry m.wTable2Qtty.toNat domain := Function.update_self ..
  have hother : ∀ i, i ≠ w → (L.newTable w domain m).mem i = m.mem i := fun i hi => Function.update_of_ne hi ..
  have hnew : ∀ w', L.Level1 w' → m.mem w' ≠ 0 → (m.mem w').toNat / 2 ^ 10 ≠ L.pool + m.wTable2Qtty.toNat := by
    intro w' hw' hne
    obtain ⟨k, d, hk, hd', he⟩ := (h.entry w' hw').resolve_left hne
    rw [he, entry_table (by omega) hd']
    omega
  refine ⟨by rw [hq]; omega, ?_, ?_, ?_⟩
  · intro w' hw'
    by_cases heq : w' = w
    · subst heq
      exact .inr ⟨m.wTable2Qtty.toNat, domain, by rw [hq]; omega, hd, hself⟩
    · rw [hother w' heq, hq]
      rcases h.entry w' hw' with h0 | ⟨k, d, hk, hd', he⟩
      · exact .inl h0
      · exact .inr ⟨k, d, by omega, hd', he⟩
  · intro w1 w2 hw1 hw2 hne1 hne2 heq
    by_cases h1 : w1 = w
    · by_cases h2 : w2 = w
      · rw [h1, h2]
      · rw [h1, hself, entry_table hroom hd, hother w2 h2] at heq
        rw [hother w2 h2] at hne2
        exact absurd heq.symm (hnew w2 hw2 hne2)
    · by_cases h2 : w2 = w
      · rw [h2, hself, entry_table hroom hd, hother w1 h1] at heq
        rw [hother w1 h1] at hne1
        exact absurd heq (hnew w1 hw1 hne1)
      · rw [hother w1 h1] at hne1 heq
        rw [hother w2 h2] at hne2 heq
        exact h.distinct w1 w2 hw1 hw2 hne1 hne2 heq
  · intro i hlo hhi
    rw [hq] at hlo
    rw [hother i]
    · exact h.unused i (by omega) hhi
    · rintro rfl
      exact hw.not_level2 ⟨by omega, hhi⟩

/-- The new table is empty, as the entry was. -/
theorem newTable_walk {t : Nat} (h : Inv L m) (hw : L.Level1 w) (hd : domain.toNat < 32)
    (hroom : m.wTable2Qtty.toNat < L.table2s) (h0 : m.mem w = 0) (ht : t ∈ L.table1s) :
    walk (L.newTable w domain m).mem t va = walk m.mem t va := by
  have hself : (L.newTable w domain m).mem w = L.entry m.wTable2Qtty.toNat domain := Function.update_self ..
  have hother : ∀ i, L.Level2 L.table2s i → (L.newTable w domain m).mem i = m.mem i := by
    rintro i hi
    refine Function.update_of_ne ?_ ..
    rintro rfl
    exact hw.not_level2 hi
  by_cases hindex : level1Index t va = w
  · have hlevel2 : L.Level2 L.table2s (level2Index (L.entry m.wTable2Qtty.toNat domain) va) := by
      rw [level2Index_entry hroom hd]
      unfold Level2
      omega
    have hbefore : walk m.mem t va = .fault := walk_of_zero (by rw [hindex]; exact h0)
    rw [hbefore, walk_of_table (by rw [hindex, hself]; exact tableEntry_type), hindex, hself]
    refine walkLevel2_of_zero ?_
    rw [hother _ hlevel2]
    refine h.unused _ ?_ hlevel2.2
    rw [level2Index_entry hroom hd]
    omega
  · refine Arm.walk_congr (Function.update_of_ne hindex ..) fun htype => hother _ ?_
    refine (h.level2 (level1_index ht va) ?_).mono h.qtty
    intro hzero
    rw [hzero] at htype
    exact absurd htype (by decide)

/-! ## A new page -/

/-- The entry of page `page` (its number) below the entry at word `w` is replaced. -/
def newPage (w page : Nat) (pte2 : Word) (m : Mmu) : Mmu :=
  { m with mem := Function.update m.mem ((m.mem w).toNat / 2 ^ 10 * 256 + page % 256) pte2 }

section
variable {page : Nat} {pte2 : Word}

theorem Inv.page_level2 (h : Inv L m) (hw : L.Level1 w) (hne : m.mem w ≠ 0) (page : Nat) :
    L.Level2 m.wTable2Qtty.toNat ((m.mem w).toNat / 2 ^ 10 * 256 + page % 256) := by
  obtain ⟨k, d, hk, hd, he⟩ := (h.entry w hw).resolve_left hne
  have hq := h.qtty
  rw [he, entry_table (by omega) hd]
  unfold Level2
  omega

theorem newPage_mem {i : Nat} (hi : i ≠ (m.mem w).toNat / 2 ^ 10 * 256 + page % 256) :
    (newPage w page pte2 m).mem i = m.mem i := Function.update_of_ne hi ..

theorem newPage_level1 (h : Inv L m) (hw : L.Level1 w) (hne : m.mem w ≠ 0) {w' : Nat} (hw' : L.Level1 w') :
    (newPage w page pte2 m).mem w' = m.mem w' := by
  refine newPage_mem ?_
  rintro rfl
  exact hw'.not_level2 ((h.page_level2 hw hne page).mono h.qtty)

theorem newPage_inv (h : Inv L m) (hw : L.Level1 w) (hne : m.mem w ≠ 0) : Inv L (newPage w page pte2 m) := by
  refine ⟨h.qtty, ?_, ?_, ?_⟩
  · intro w' hw'
    rw [newPage_level1 h hw hne hw']
    exact h.entry w' hw'
  · intro w1 w2 hw1 hw2
    rw [newPage_level1 h hw hne hw1, newPage_level1 h hw hne hw2]
    exact h.distinct w1 w2 hw1 hw2
  · intro i hlo hhi
    have hlevel2 := h.page_level2 hw hne page
    refine (newPage_mem ?_).trans (h.unused i hlo hhi)
    rintro rfl
    have := hlevel2.2
    have hlo' : 256 * (L.pool + m.wTable2Qtty.toNat) ≤ (m.mem w).toNat / 2 ^ 10 * 256 + page % 256 := hlo
    omega

/-- The walks of the page itself -/
theorem newPage_walk_self {t : Nat} (h : Inv L m) (hw : L.Level1 w) (hne : m.mem w ≠ 0) (hindex : level1Index t va = w)
    (hpage : va.toNat / 2 ^ 12 % 256 = page % 256) (hsmall : pte2.getLsbD 1 = true) :
    walk (newPage w page pte2 m).mem t va =
      .smallPage (BitVec.ofNat 32 (pte2.toNat / 2 ^ 12 * 2 ^ 12 + va.toNat % 2 ^ 12)) ((m.mem w).extractLsb' 5 4)
        (.ofEntry pte2) := by
  have hentry : (newPage w page pte2 m).mem w = m.mem w := newPage_level1 h hw hne hw
  have hpte2 : (newPage w page pte2 m).mem (level2Index (m.mem w) va) = pte2 := by
    rw [level2Index, hpage]
    exact Function.update_self ..
  have hbit : ((newPage w page pte2 m).mem (level2Index (m.mem w) va)).getLsbD 1 = true := by rw [hpte2, hsmall]
  have htype : ((newPage w page pte2 m).mem (level1Index t va)).extractLsb' 0 2 = 1 := by
    rw [hindex, hentry, h.type hw hne]
  rw [walk_of_table htype, hindex, hentry, walkLevel2_of_smallPage hbit, hpte2]

/-- The walks of all other pages -/
theorem newPage_walk_of_ne {t : Nat} (h : Inv L m) (hw : L.Level1 w) (hne : m.mem w ≠ 0) (ht : t ∈ L.table1s)
    (hother : level1Index t va ≠ w ∨ va.toNat / 2 ^ 12 % 256 ≠ page % 256) :
    walk (newPage w page pte2 m).mem t va = walk m.mem t va := by
  have hlevel1 := level1_index ht va
  refine Arm.walk_congr (newPage_level1 h hw hne hlevel1) fun htype => newPage_mem ?_
  have hne' : m.mem (level1Index t va) ≠ 0 := by
    intro hzero
    rw [hzero] at htype
    exact absurd htype (by decide)
  intro heq
  rw [level2Index] at heq
  rcases hother with hindex | hpage
  · exact hindex (h.distinct _ _ hlevel1 hw hne' hne (by omega))
  · omega

end

end
end PageTables
end Td3.Kernel
