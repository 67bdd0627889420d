/-
How far the pool of level-2 tables reaches. Neither `mmu_fill_page_tables` nor `mmu_fill_pte_from_vma` compares
`w_table2_qtty` with the tables that the section files reserve, so what keeps the tables inside is only that
few megabytes are touched: the calls stay in the pool exactly as long as the tables taken at boot and the
level-1 entries that the calls find empty, each counted once, are no more than the pool has. One more gets the
addresses after it.
-/
import Td3.Kernel.SectionDomains

namespace Td3.Kernel

open Arm PageTables SectionDesc

def TABLE2_SIZE : Nat := 0x400

/-! ## Calls -/

/-- The calls of `mmu_fill_pte_from_vma`, each with the level-1 table in TTBR0 and the address of the fault -/
def demandCalls (S : MmuSymbols) (calls : List (Nat × Word)) (m : Mmu) : Mmu :=
  calls.foldl (fun m c => m.mmuFillPteFromVma S (addrOf c.1) c.2) m

/-- The level-1 entries of the calls that are empty before them -/
def freshEntries (m : Mmu) (calls : List (Nat × Word)) : Finset Nat :=
  (calls.map fun c => level1Index c.1 c.2).toFinset.filter fun w => m.mem w = 0

namespace PageTables

/-- A level-2 table at an address lies in the area reserved. -/
def TableInside (L : PageTables) (table2 : Word) : Prop :=
  TABLE2_SIZE * L.pool ≤ table2.toNat ∧ table2.toNat + TABLE2_SIZE ≤ TABLE2_SIZE * L.pool + TABLE2_SIZE * L.table2s

/-- The level-2 tables handed out, which the level-1 entries keep, lie in the area, and memory outside the tables
is as in `m0`. -/
structure InPool (L : PageTables) (m0 m : Mmu) : Prop where
  tables : ∀ w, L.Level1 w → m.mem w ≠ 0 → L.TableInside (getTable2AddrFromPte1 (m.mem w))
  writes : ∀ w, ¬ L.Tables w → m.mem w = m0.mem w

/-- The level-1 tables lie before the pool, and one more table after it would not reach the end of memory. -/
structure Followed (L : PageTables) : Prop where
  room : L.pool + (L.table2s + 1) ≤ 2 ^ 22
  table1s : ∀ t ∈ L.table1s, t + 4096 ≤ 256 * L.pool

/-- The same tables with the block after the pool as one more table -/
def grow (L : PageTables) (h : L.Followed) : PageTables :=
  { L with
    table2s := L.table2s + 1
    pool_lt := h.room
    table1_pool := fun t ht => .inl (h.table1s t ht) }

section
variable {L : PageTables} {m m0 m1 : Mmu} {t k w : Nat} {va d : Word} {calls : List (Nat × Word)}

theorem tableInside_entry (hk : L.pool + k < 2 ^ 22) (hd : d.toNat < 32) :
    L.TableInside (getTable2AddrFromPte1 (L.entry k d)) ↔ k < L.table2s := by
  have haddr : (getTable2AddrFromPte1 (L.entry k d)).toNat = TABLE2_SIZE * (L.pool + k) := by
    rw [Fill.getTable2AddrFromPte1_eq, Fill.tableOf, entry, tableEntry_table hk hd, addrOf, BitVec.toNat_ofNat,
      TABLE2_SIZE]
    omega
  rw [TableInside, haddr, TABLE2_SIZE]
  omega

theorem Inv.inPool (h : Inv L m) : L.InPool m m := by
  refine ⟨?_, fun _ _ => rfl⟩
  intro w hw hne
  obtain ⟨k, d, hk, hd, he⟩ := (h.entry w hw).resolve_left hne
  have hq := h.qtty
  have hpool := L.pool_lt
  rw [he, tableInside_entry (by omega) hd]
  omega

theorem InPool.trans (h : ∀ w, ¬ L.Tables w → m1.mem w = m0.mem w) : L.InPool m1 m ↔ L.InPool m0 m := by
  constructor
  · rintro ⟨htables, hwrites⟩
    exact ⟨htables, fun w hw => (hwrites w hw).trans (h w hw)⟩
  · rintro ⟨htables, hwrites⟩
    exact ⟨htables, fun w hw => (hwrites w hw).trans (h w hw).symm⟩

/-! ## One call -/

/-- A call that finds a table, or room for one -/
theorem call_spec (hinv : Inv L m) (ht : t ∈ L.table1s)
    (hroom : m.mem (level1Index t va) = 0 → m.wTable2Qtty.toNat < L.table2s) :
    Inv L (m.mmuFillPteFromVma L.symbols (addrOf t) va) ∧
      (m.mmuFillPteFromVma L.symbols (addrOf t) va).wTable2Qtty.toNat =
        m.wTable2Qtty.toNat + (if m.mem (level1Index t va) = 0 then 1 else 0) ∧
      (m.mmuFillPteFromVma L.symbols (addrOf t) va).mem (level1Index t va) ≠ 0 ∧
      (∀ w, L.Level1 w → m.mem w ≠ 0 ∨ w ≠ level1Index t va →
        (m.mmuFillPteFromVma L.symbols (addrOf t) va).mem w = m.mem w) ∧
      ∀ w, ¬ L.Tables w → (m.mmuFillPteFromVma L.symbols (addrOf t) va).mem w = m.mem w := by
  have hpage := pageOf_lt va
  have hcreated := mmuFillPteFromVma_created hinv ht hroom
  obtain ⟨hensured, hne⟩ := ensureTable_spec ht (demandSection_valid va) hpage (Finset.mem_singleton_self _)
    (demandSection_filledTo hinv hroom)
  have hw : L.Level1 (t + pageOf va / 256) := ⟨t, ht, _, by omega, rfl⟩
  obtain ⟨hmem, hq⟩ := assignPa_mem (L := L) (s := demandSection va) (k := 0)
    (m := L.ensureTable t (demandSection va) (pageOf va) m)
  have hinv1 : Inv L (L.assignPa (demandSection va) 0 (L.ensureTable t (demandSection va) (pageOf va) m)).2 :=
    hensured.inv.congr (fun i _ => congrFun hmem i) hq
  have hne1 := ne_of_eq_of_ne (congrFun hmem (t + pageOf va / 256)) hne
  have hpage0 : (demandSection va).firstPage + 0 = pageOf va := by rw [demandSection_firstPage, Nat.add_zero]
  rw [mmuFillPteFromVma_eq hinv ht hroom] at hcreated ⊢
  rw [level1Index_eq] at hroom ⊢
  refine ⟨?_, ?_, ?_, ?_, ?_⟩
  · rw [fillPage, hpage0]
    exact newPage_inv hinv1 hw hne1
  · rw [fillPage, hpage0]
    show (L.assignPa (demandSection va) 0 (L.ensureTable t (demandSection va) (pageOf va) m)).2.wTable2Qtty.toNat = _
    rw [hq, ensureTable]
    split_ifs with h0
    · exact qtty_succ (hroom h0)
    · rfl
  · by_cases h0 : m.mem (t + pageOf va / 256) = 0
    · exact (hcreated.created _ (Finset.mem_singleton_self _) h0).1
    · rw [hcreated.kept _ hw h0]
      exact h0
  · rintro w hw' (hkept | hother)
    · exact hcreated.kept w hw' hkept
    · obtain ⟨t', ht', i, hi, rfl⟩ := hw'
      refine hcreated.others t' ht' i hi ?_
      rintro ⟨rfl, hin⟩
      exact hother (by rw [Finset.mem_singleton.1 hin])
  · intro w hout
    rw [fillPage, hpage0]
    refine (newPage_mem ?_).trans ((congrFun hmem w).trans (hensured.memory w hout))
    rintro rfl
    exact hout (.inr ((hinv1.page_level2 hw hne1 _).mono hinv1.qtty))

/-- A call that needs a table when the pool has none left gives the entry the block after it. -/
theorem call_full (hf : L.Followed) (ht : t ∈ L.table1s) (hfull : m.wTable2Qtty.toNat = L.table2s)
    (h0 : m.mem (level1Index t va) = 0) :
    ¬ L.InPool m0 (m.mmuFillPteFromVma L.symbols (addrOf t) va) := by
  have hd : (DOMAIN_RAM_FREE.setWidth 32 : Word).toNat < 32 := by decide
  have hroom : L.pool + m.wTable2Qtty.toNat < 2 ^ 22 := by
    have := hf.room
    omega
  have hpage : pageOf va / 256 < 4096 := by
    have := pageOf_lt va
    omega
  have hw : L.Level1 (level1Index t va) := ⟨t, ht, pageOf va / 256, hpage, level1Index_eq va⟩
  have hlt : level1Index t va < 256 * L.pool := by
    have := hf.table1s t ht
    rw [level1Index_eq]
    omega
  -- the block after the pool, as a table of the pool that has one more
  have hmore : m.mem (level1Index t va) = 0 → m.wTable2Qtty.toNat < (L.grow hf).table2s := by
    intro _
    show m.wTable2Qtty.toNat < L.table2s + 1
    omega
  have htable := table2FromVma_eq (L := L.grow hf) ht hmore
  have hsymbols : (L.grow hf).symbols = L.symbols := rfl
  have hself : ((L.grow hf).ensureTable t (demandSection va) (pageOf va) m).mem (level1Index t va) =
      L.entry m.wTable2Qtty.toNat (DOMAIN_RAM_FREE.setWidth 32) := by
    rw [level1Index_eq] at h0 ⊢
    rw [ensureTable, if_pos h0]
    exact Function.update_self ..
  rw [← level1Index_eq, hself, hsymbols] at htable
  have hindex : wordIndex (Fill.tableOf (L.entry m.wTable2Qtty.toNat (DOMAIN_RAM_FREE.setWidth 32)) +
      getPte2IndexFromVma va <<< 2) = 256 * (L.pool + m.wTable2Qtty.toNat) + pageOf va % 256 := by
    rw [Fill.tableOf, entry, tableEntry_table hroom hd, addrOf_add_lsl, Fill.getPte2IndexFromVma_eq,
      BitVec.toNat_ofNat, wordIndex_addrOf]
    · omega
    · omega
  have hentry : (m.mmuFillPteFromVma L.symbols (addrOf t) va).mem (level1Index t va) =
      L.entry m.wTable2Qtty.toNat (DOMAIN_RAM_FREE.setWidth 32) := by
    rw [Mmu.mmuFillPteFromVma_tables htable.symm]
    refine (Function.update_of_ne ?_ ..).trans hself
    rw [hindex]
    omega
  intro hin
  have hinside := hin.tables _ hw (by rw [hentry]; exact tableEntry_ne_zero)
  rw [hentry, tableInside_entry hroom hd] at hinside
  omega

/-! ## A run -/

/-- The states after each call, up to the last -/
def AllInPool (L : PageTables) (m0 m : Mmu) (calls : List (Nat × Word)) : Prop :=
  ∀ j ≤ calls.length, L.InPool m0 (demandCalls L.symbols (calls.take j) m)

theorem allInPool_cons {c : Nat × Word} : L.AllInPool m0 m (c :: calls) ↔
    L.InPool m0 m ∧ L.AllInPool m0 (m.mmuFillPteFromVma L.symbols (addrOf c.1) c.2) calls := by
  constructor
  · intro h
    refine ⟨h 0 (Nat.zero_le _), ?_⟩
    intro j hj
    exact h (j + 1) (Nat.succ_le_succ hj)
  · rintro ⟨h0, h⟩ j hj
    cases j with
    | zero => exact h0
    | succ j => exact h j (Nat.le_of_succ_le_succ hj)

theorem mem_freshEntries : w ∈ freshEntries m calls ↔ (∃ c ∈ calls, level1Index c.1 c.2 = w) ∧ m.mem w = 0 := by
  rw [freshEntries, Finset.mem_filter, List.mem_toFinset, List.mem_map]

theorem freshEntries_cons_full {c : Nat × Word} (hne : m.mem (level1Index c.1 c.2) ≠ 0)
    (hsame : ∀ c' ∈ calls, m1.mem (level1Index c'.1 c'.2) = m.mem (level1Index c'.1 c'.2)) :
    freshEntries m (c :: calls) = freshEntries m1 calls := by
  ext w
  rw [mem_freshEntries, mem_freshEntries]
  constructor
  · rintro ⟨⟨c', hc', rfl⟩, h0⟩
    rcases List.mem_cons.1 hc' with rfl | hc'
    · exact absurd h0 hne
    · exact ⟨⟨c', hc', rfl⟩, (hsame c' hc').trans h0⟩
  · rintro ⟨⟨c', hc', rfl⟩, h0⟩
    exact ⟨⟨c', List.mem_cons_of_mem _ hc', rfl⟩, (hsame c' hc').symm.trans h0⟩

theorem freshEntries_cons_empty {c : Nat × Word} (h0 : m.mem (level1Index c.1 c.2) = 0)
    (hne : m1.mem (level1Index c.1 c.2) ≠ 0)
    (hsame : ∀ c' ∈ calls, level1Index c'.1 c'.2 ≠ level1Index c.1 c.2 →
      m1.mem (level1Index c'.1 c'.2) = m.mem (level1Index c'.1 c'.2)) :
    (freshEntries m (c :: calls)).card = (freshEntries m1 calls).card + 1 := by
  have hinsert : freshEntries m (c :: calls) = insert (level1Index c.1 c.2) (freshEntries m1 calls) := by
    ext w
    rw [Finset.mem_insert, mem_freshEntries, mem_freshEntries]
    constructor
    · rintro ⟨⟨c', hc', rfl⟩, hc0⟩
      by_cases heq : level1Index c'.1 c'.2 = level1Index c.1 c.2
      · exact .inl heq
      · have hin := (List.mem_cons.1 hc').resolve_left fun h => heq (by rw [h])
        exact .inr ⟨⟨c', hin, rfl⟩, (hsame c' hin heq).trans hc0⟩
    · rintro (rfl | ⟨⟨c', hc', rfl⟩, hc0⟩)
      · exact ⟨⟨c, List.mem_cons_self, rfl⟩, h0⟩
      · have hother : level1Index c'.1 c'.2 ≠ level1Index c.1 c.2 := fun h => hne (h ▸ hc0)
        exact ⟨⟨c', List.mem_cons_of_mem _ hc', rfl⟩, (hsame c' hc' hother).symm.trans hc0⟩
  rw [hinsert, Finset.card_insert_of_notMem]
  rw [mem_freshEntries]
  rintro ⟨-, hzero⟩
  exact hne hzero

/-- Every state of a run is in the pool exactly where the pool has a table for every entry found empty. -/
theorem allInPool_iff (hf : L.Followed) (hinv : Inv L m) (hcalls : ∀ c ∈ calls, c.1 ∈ L.table1s) :
    L.AllInPool m m calls ↔ m.wTable2Qtty.toNat + (freshEntries m calls).card ≤ L.table2s := by
  induction calls generalizing m with
  | nil =>
    constructor
    · intro _
      exact hinv.qtty
    · rintro - j hj
      rw [List.take_nil]
      exact hinv.inPool
  | cons c calls ih =>
    have hc := hcalls c List.mem_cons_self
    have hrest : ∀ c' ∈ calls, c'.1 ∈ L.table1s := fun c' hc' => hcalls c' (List.mem_cons_of_mem _ hc')
    rw [allInPool_cons]
    by_cases hroom : m.mem (level1Index c.1 c.2) = 0 → m.wTable2Qtty.toNat < L.table2s
    · obtain ⟨hinv1, hqtty, hne, hother, hwrites⟩ := call_spec hinv hc hroom
      have hfrom : L.AllInPool m (m.mmuFillPteFromVma L.symbols (addrOf c.1) c.2) calls ↔
          L.AllInPool (m.mmuFillPteFromVma L.symbols (addrOf c.1) c.2)
            (m.mmuFillPteFromVma L.symbols (addrOf c.1) c.2) calls :=
        forall₂_congr fun j _ => (InPool.trans hwrites).symm
      rw [and_iff_right hinv.inPool, hfrom, ih hinv1 hrest, hqtty]
      by_cases h0 : m.mem (level1Index c.1 c.2) = 0
      · rw [if_pos h0, freshEntries_cons_empty h0 hne fun c' hc' hneq =>
          hother _ (level1_index (hrest c' hc') _) (.inr hneq), Nat.add_right_comm, Nat.add_assoc]
      · have hsame : ∀ c' ∈ calls, (m.mmuFillPteFromVma L.symbols (addrOf c.1) c.2).mem (level1Index c'.1 c'.2) =
            m.mem (level1Index c'.1 c'.2) := by
          intro c' hc'
          refine hother _ (level1_index (hrest c' hc') _) ?_
          by_cases heq : level1Index c'.1 c'.2 = level1Index c.1 c.2
          · exact .inl (by rw [heq]; exact h0)
          · exact .inr heq
        rw [if_neg h0, Nat.add_zero, freshEntries_cons_full h0 hsame]
    · -- the pool is empty, and one table more is needed
      rw [Classical.not_imp] at hroom
      obtain ⟨h0, hlt⟩ := hroom
      have hfull : m.wTable2Qtty.toNat = L.table2s := Nat.le_antisymm hinv.qtty (Nat.le_of_not_lt hlt)
      have hpos : 0 < (freshEntries m (c :: calls)).card :=
        Finset.card_pos.2 ⟨_, mem_freshEntries.2 ⟨⟨c, List.mem_cons_self, rfl⟩, h0⟩⟩
      constructor
      · rintro ⟨-, hall⟩
        exact absurd (hall 0 (Nat.zero_le _)) (call_full hf hc hfull h0)
      · intro hle
        omega

/-! ## Runs of faults -/

/-- Each call is made for an address that does not translate. -/
def Faulting (S : MmuSymbols) : List (Nat × Word) → Mmu → Prop
  | [], _ => True
  | c :: calls, m => walk m.mem c.1 c.2 = .fault ∧ Faulting S calls (m.mmuFillPteFromVma S (addrOf c.1) c.2)

/-- Entries that are empty, and different, are found empty, up to the call that has no table left. -/
theorem faulting_of_empty (hinv : Inv L m) (hcalls : ∀ c ∈ calls, c.1 ∈ L.table1s)
    (hempty : ∀ c ∈ calls, m.mem (level1Index c.1 c.2) = 0) (hnodup : (calls.map fun c => level1Index c.1 c.2).Nodup)
    (hroom : m.wTable2Qtty.toNat + calls.length ≤ L.table2s + 1) : Faulting L.symbols calls m := by
  induction calls generalizing m with
  | nil => trivial
  | cons c calls ih =>
    have h0 := hempty c List.mem_cons_self
    refine ⟨walk_of_zero h0, ?_⟩
    rw [List.map_cons, List.nodup_cons] at hnodup
    rw [List.length_cons] at hroom
    cases calls with
    | nil => trivial
    | cons c2 calls =>
      rw [List.length_cons] at hroom
      have hleft : m.mem (level1Index c.1 c.2) = 0 → m.wTable2Qtty.toNat < L.table2s := by
        intro _
        omega
      obtain ⟨hinv1, hqtty, -, hother, -⟩ := call_spec hinv (hcalls c List.mem_cons_self) hleft
      rw [if_pos h0] at hqtty
      refine ih hinv1 (fun c' hc' => hcalls c' (List.mem_cons_of_mem _ hc')) ?_ hnodup.2
        (by rw [hqtty, List.length_cons]; omega)
      intro c' hc'
      rw [hother _ (level1_index (hcalls c' (List.mem_cons_of_mem _ hc')) _) (.inr ?_)]
      · exact hempty c' (List.mem_cons_of_mem _ hc')
      · intro heq
        exact hnodup.1 (heq ▸ List.mem_map_of_mem hc')

theorem freshEntries_card (hempty : ∀ c ∈ calls, m.mem (level1Index c.1 c.2) = 0)
    (hnodup : (calls.map fun c => level1Index c.1 c.2).Nodup) : (freshEntries m calls).card = calls.length := by
  have hall : freshEntries m calls = (calls.map fun c => level1Index c.1 c.2).toFinset := by
    refine Finset.filter_true_of_mem ?_
    intro w hw
    obtain ⟨c, hc, rfl⟩ := List.mem_map.1 (List.mem_toFinset.1 hw)
    exact hempty c hc
  rw [hall, List.toFinset_card_of_nodup hnodup, List.length_map]

/-- The megabytes of a table that have no level-2 table -/
def emptyMegabytes (m : Mmu) (t : Nat) : List Nat := (List.range 4096).filter fun i => decide (m.mem (t + i) = 0)

/-- No more of them than the pool has handed out have one. -/
theorem emptyMegabytes_length (hinv : Inv L m) (ht : t ∈ L.table1s) :
    4096 ≤ (emptyMegabytes m t).length + m.wTable2Qtty.toNat := by
  have hlength : (emptyMegabytes m t).length = ((Finset.range 4096).filter fun i => m.mem (t + i) = 0).card := rfl
  have hused : ((Finset.range 4096).filter fun i => ¬ m.mem (t + i) = 0).card ≤
      (Finset.range m.wTable2Qtty.toNat).card := by
    -- the table of an entry, by its number in the pool
    refine Finset.card_le_card_of_injOn (fun i => (m.mem (t + i)).toNat / 2 ^ 10 - L.pool) ?_ ?_
    · intro i hi
      obtain ⟨hi, hne⟩ := Finset.mem_filter.1 hi
      obtain ⟨k, d, hk, hd, he⟩ := (hinv.entry _ ⟨t, ht, i, Finset.mem_range.1 hi, rfl⟩).resolve_left hne
      have hq := hinv.qtty
      show (m.mem (t + i)).toNat / 2 ^ 10 - L.pool ∈ Finset.range m.wTable2Qtty.toNat
      rw [he, entry_table (by omega) hd, Finset.mem_range]
      omega
    · intro i hi j hj heq
      obtain ⟨hi, hnei⟩ := Finset.mem_filter.1 hi
      obtain ⟨hj, hnej⟩ := Finset.mem_filter.1 hj
      have hpool : ∀ i, i ∈ Finset.range 4096 → m.mem (t + i) ≠ 0 → L.pool ≤ (m.mem (t + i)).toNat / 2 ^ 10 := by
        intro i hi hne
        obtain ⟨k, d, hk, hd, he⟩ := (hinv.entry _ ⟨t, ht, i, Finset.mem_range.1 hi, rfl⟩).resolve_left hne
        have hq := hinv.qtty
        rw [he, entry_table (by omega) hd]
        omega
      have hpi := hpool i hi hnei
      have hpj := hpool j hj hnej
      have hsame := hinv.distinct _ _ ⟨t, ht, i, Finset.mem_range.1 hi, rfl⟩ ⟨t, ht, j, Finset.mem_range.1 hj, rfl⟩ hnei
        hnej (by dsimp only at heq; omega)
      omega
  have hsum := Finset.card_filter_add_card_filter_not (s := Finset.range 4096) fun i => m.mem (t + i) = 0
  rw [Finset.card_range] at hused hsum
  omega

/-- A fault in each of the first `n` of them -/
def emptyCalls (m : Mmu) (t n : Nat) : List (Nat × Word) :=
  ((emptyMegabytes m t).take n).map fun i => (t, BitVec.ofNat 32 (2 ^ 20 * i))

theorem emptyCalls_spec (hinv : Inv L m) (ht : t ∈ L.table1s) (hk : k + m.wTable2Qtty.toNat ≤ 4096) :
    (emptyCalls m t k).length = k ∧ (∀ c ∈ emptyCalls m t k, c.1 = t ∧ m.mem (level1Index c.1 c.2) = 0) ∧
      ((emptyCalls m t k).map fun c => level1Index c.1 c.2).Nodup := by
  have hlength := emptyMegabytes_length hinv ht
  have hindex : ∀ i ∈ emptyMegabytes m t, level1Index t (BitVec.ofNat 32 (2 ^ 20 * i)) = t + i ∧ m.mem (t + i) = 0 := by
    intro i hi
    obtain ⟨hi, h0⟩ := List.mem_filter.1 hi
    rw [List.mem_range] at hi
    refine ⟨?_, of_decide_eq_true h0⟩
    rw [level1Index, BitVec.toNat_ofNat]
    omega
  refine ⟨?_, ?_, ?_⟩
  · rw [emptyCalls, List.length_map, List.length_take]
    omega
  · intro c hc
    obtain ⟨i, hi, rfl⟩ := List.mem_map.1 hc
    obtain ⟨heq, h0⟩ := hindex i (List.mem_of_mem_take hi)
    exact ⟨rfl, by rw [heq]; exact h0⟩
  · have hmap : (emptyCalls m t k).map (fun c => level1Index c.1 c.2) = ((emptyMegabytes m t).take k).map (t + ·) := by
      rw [emptyCalls, List.map_map]
      exact List.map_congr_left fun i hi => (hindex i (List.mem_of_mem_take hi)).1
    have hnodup : (emptyMegabytes m t).Nodup := List.nodup_range.filter _
    rw [hmap]
    exact (hnodup.sublist (List.take_sublist ..)).map fun i j h => Nat.add_left_cancel h

end
end PageTables

/-! ## From boot on -/

section
variable {k : Link} {b : Boot}

theorem Link.Linked.followed (h : k.Linked) : (k.pageTables h).Followed := by
  have hbelow := h.table2s_below
  refine ⟨?_, fun t ht => (h.table1s t ht).2.2⟩
  show k.ldPageTable2 + (3 * TABLE2_QTTY + 1) ≤ 2 ^ 22
  omega

/-- The fills at boot, and any calls after them: every level-2 table handed out lies in `.page_table2`, and no call
writes outside the tables, exactly as long as the tables taken at boot and the level-1 entries that the calls touch
and boot has left empty are at most TABLE2_QTTY for each level-1 table. -/
theorem level2_tables_in_pool_iff (h : k.Linked) (hd : k.KernelApart) (hb : Booted k b) :
    ∃ b1 b2, Returns (fun n => mmuInit k n b) b1 ∧ Returns (fun n => prvTaskInit k n b1) b2 ∧
      ∀ calls : List (Nat × Word), (∀ c ∈ calls, c.1 ∈ [k.kernelTable1, k.task1.table1, k.task2.table1]) →
        ((k.pageTables h).AllInPool b2.mmu b2.mmu calls ↔
          b2.mmu.wTable2Qtty.toNat + (freshEntries b2.mmu calls).card ≤ 3 * TABLE2_QTTY) := by
  obtain ⟨b1, b2, maps, q, hrun1, hrun2, -, -, hheld, -⟩ := boot_spec h hd hb
  exact ⟨b1, b2, hrun1, hrun2, fun calls hcalls => allInPool_iff h.followed hheld.spaces.inv hcalls⟩

end

theorem level2_tables_in_pool_example : ∃ b1 b2, Returns (fun n => mmuInit exampleLink n exampleBoot) b1 ∧
    Returns (fun n => prvTaskInit exampleLink n b1) b2 ∧ ∀ calls : List (Nat × Word),
      (∀ c ∈ calls, c.1 ∈ [exampleLink.kernelTable1, exampleTask1.table1, exampleTask2.table1]) →
        ((exampleLink.pageTables exampleLink_linked).AllInPool b2.mmu b2.mmu calls ↔
          b2.mmu.wTable2Qtty.toNat + (freshEntries b2.mmu calls).card ≤ 1650) :=
  level2_tables_in_pool_iff exampleLink_linked exampleLink_disjoint.kernelApart exampleBoot_booted

/-- The first task faults in megabytes that it has no table for until the pool has given one more than it has. -/
theorem not_level2_tables_in_pool : ¬ ∀ (k : Link) (h : k.Linked) (b b1 b2 : Boot), k.KernelApart → Booted k b →
    Returns (fun n => mmuInit k n b) b1 → Returns (fun n => prvTaskInit k n b1) b2 → ∀ calls : List (Nat × Word),
    (∀ c ∈ calls, c.1 ∈ [k.kernelTable1, k.task1.table1, k.task2.table1]) →
    Faulting (k.pageTables h).symbols calls b2.mmu → (k.pageTables h).AllInPool b2.mmu b2.mmu calls := by
  intro hall
  have hd := exampleLink_disjoint.kernelApart
  obtain ⟨b1, b2, maps, q, hrun1, hrun2, -, -, hheld, -⟩ := boot_spec exampleLink_linked hd exampleBoot_booted
  have hinv := hheld.spaces.inv
  have hq : b2.mmu.wTable2Qtty.toNat ≤ 1650 := hinv.qtty
  have ht : exampleTask1.table1 ∈ (exampleLink.pageTables exampleLink_linked).table1s :=
    List.mem_cons_of_mem _ List.mem_cons_self
  obtain ⟨hlength, hcalls, hnodup⟩ := emptyCalls_spec (k := 1651 - b2.mmu.wTable2Qtty.toNat) hinv ht (by omega)
  have htables : ∀ c ∈ emptyCalls b2.mmu exampleTask1.table1 (1651 - b2.mmu.wTable2Qtty.toNat),
      c.1 ∈ (exampleLink.pageTables exampleLink_linked).table1s := by
    intro c hc
    rw [(hcalls c hc).1]
    exact ht
  have hfaults := faulting_of_empty hinv htables (fun c hc => (hcalls c hc).2) hnodup (by
    rw [hlength]
    show _ ≤ 1650 + 1
    omega)
  have hin := hall exampleLink exampleLink_linked exampleBoot b1 b2 hd exampleBoot_booted hrun1 hrun2 _ htables hfaults
  rw [allInPool_iff exampleLink_linked.followed hinv htables, freshEntries_card (fun c hc => (hcalls c hc).2) hnodup,
    hlength] at hin
  change _ ≤ 1650 at hin
  omega

end Td3.Kernel
