/-
The domain of a page is a field of the level-1 entry of its megabyte, which `mmu_fill_page_tables` and
`mmu_fill_pte_from_vma` write when they find the entry empty and never again. So the first section that is
given a page in a megabyte of a table decides the domain of all later ones there, and sections get the domain
they declare exactly where they agree with it.
-/
import Td3.Kernel.DemandBuild

namespace Td3.Kernel

open Arm PageTables SectionDesc

/-! ## Histories -/

/-- The first section of a history, oldest first, that has a page in megabyte `i` of table `t` -/
def firstFilled (h : List (Nat × SectionDesc)) (t i : Nat) : Option SectionDesc :=
  (h.find? fun p => decide (p.1 = t ∧ i ∈ p.2.megabytes)).map (·.2)

/-- The states that earlier fills leave, each with the sections filled and the tables they were filled into -/
inductive FilledBy (L : PageTables) : List (Nat × SectionDesc) → Mmu → Prop where
  | start {m : Mmu} (hmem : ∀ i, L.Tables i → m.mem i = 0) (hqtty : m.wTable2Qtty = 0) (hused : m.wRamUsedPages = 0) :
    FilledBy L [] m
  | fill {h : List (Nat × SectionDesc)} {m m' : Mmu} {t a n : Nat} {ss : List SectionDesc} (hm : FilledBy L h m)
    (hcall : FillCall L 32 t a ss m)
    (hrun : mmuFillPageTables L.symbols (addrOf a) (addrOf (a + 4 * ss.length)) (addrOf t) n m = some m') :
    FilledBy L (h ++ ss.map (t, ·)) m'
  | demand {h : List (Nat × SectionDesc)} {m : Mmu} {t : Nat} {va : Word} (hm : FilledBy L h m) (ht : t ∈ L.table1s)
    (hroom : m.mem (level1Index t va) = 0 → m.wTable2Qtty.toNat < L.table2s)
    (hram : m.wRamUsedPages.toNat < L.ramPages) :
    FilledBy L (h ++ [(t, demandSection va)]) (m.mmuFillPteFromVma L.symbols (addrOf t) va)
  | other {h : List (Nat × SectionDesc)} {m m' : Mmu} (hm : FilledBy L h m)
    (hmem : ∀ i, L.Tables i → m'.mem i = m.mem i) (hqtty : m'.wTable2Qtty = m.wTable2Qtty)
    (hused : m'.wRamUsedPages = m.wRamUsedPages) : FilledBy L h m'

theorem Built.filledBy {L : PageTables} {m : Mmu} (hm : Built L 32 m) : ∃ h, FilledBy L h m := by
  induction hm with
  | start hmem hqtty hused => exact ⟨[], .start hmem hqtty hused⟩
  | fill _ hcall hrun ih =>
    obtain ⟨h, hfilled⟩ := ih
    exact ⟨_, hfilled.fill hcall hrun⟩
  | other _ hmem hqtty hused ih =>
    obtain ⟨h, hfilled⟩ := ih
    exact ⟨h, hfilled.other hmem hqtty hused⟩

section
variable {L : PageTables} {t a i k n : Nat} {s s0 : SectionDesc} {ss : List SectionDesc} {M P Q : Finset Nat}
  {m m1 m' : Mmu} {h h' : List (Nat × SectionDesc)} {va : Word} {d : BitVec 8}

theorem firstFilled_append :
    firstFilled (h ++ h') t i = (firstFilled h t i).or (firstFilled h' t i) := by
  rw [firstFilled, List.find?_append, Option.map_or]
  rfl

theorem firstFilled_singleton {t' : Nat} :
    firstFilled [(t', s)] t i = if t' = t ∧ i ∈ s.megabytes then some s else none := by
  unfold firstFilled
  rw [List.find?_singleton]
  split_ifs with h1 h2 h2
  · rfl
  · exact absurd (of_decide_eq_true h1) h2
  · exact absurd (decide_eq_true h2) h1
  · rfl

/-! ## What a fill does to the level-1 entries -/

namespace PageTables

/-- The domain of an entry that has just been written -/
theorem entry_domain : (L.entry k (d.setWidth 32)).extractLsb' 5 4 = d.setWidth 4 := by
  rw [entry, tableEntry_domain]
  exact BitVec.setWidth_setWidth_of_le _ (by decide)

/-- The megabytes `P` of table `t` have their level-2 tables; those that had none have got them with domain `d`. -/
structure Created (L : PageTables) (t : Nat) (P : Finset Nat) (d : BitVec 8) (m m' : Mmu) : Prop where
  kept : ∀ w, L.Level1 w → m.mem w ≠ 0 → m'.mem w = m.mem w
  created : ∀ i ∈ P, m.mem (t + i) = 0 → m'.mem (t + i) ≠ 0 ∧ (m'.mem (t + i)).extractLsb' 5 4 = d.setWidth 4
  others : ∀ t' ∈ L.table1s, ∀ i < 4096, ¬ (t = t' ∧ i ∈ P) → m'.mem (t' + i) = m.mem (t' + i)

theorem Created.trans (ht : t ∈ L.table1s) (hQ : ∀ i ∈ Q, i < 4096) (hP : ∀ i ∈ P, i < 4096)
    (h1 : Created L t P d m m1) (h2 : Created L t Q d m1 m') : Created L t (P ∪ Q) d m m' := by
  refine ⟨?_, ?_, ?_⟩
  · intro w hw hne
    have hsame := h1.kept w hw hne
    rw [h2.kept w hw (ne_of_eq_of_ne hsame hne), hsame]
  · intro i hi h0
    by_cases hiP : i ∈ P
    · obtain ⟨hne, hd⟩ := h1.created i hiP h0
      rw [h2.kept _ ⟨t, ht, i, hP i hiP, rfl⟩ hne]
      exact ⟨hne, hd⟩
    · have hiQ := (Finset.mem_union.1 hi).resolve_left hiP
      refine h2.created i hiQ ?_
      rw [h1.others t ht i (hQ i hiQ) fun hboth => hiP hboth.2, h0]
  · intro t' ht' i hi hnot
    rw [h2.others t' ht' i hi fun hboth => hnot ⟨hboth.1, Finset.mem_union_right _ hboth.2⟩,
      h1.others t' ht' i hi fun hboth => hnot ⟨hboth.1, Finset.mem_union_left _ hboth.2⟩]

/-- One page: the step lemma -/
theorem fillPage_created (ht : t ∈ L.table1s) (hs : s.Valid 32) (hk : k < s.pageCount) (hM : s.megabytes ⊆ M)
    (h : FilledTo L t s M m k m1) :
    Created L t {(s.firstPage + k) / 256} s.domain m1 (L.fillPage t s k m1) := by
  have hpage := lastPage_lt hs hk
  have hMk : (s.firstPage + k) / 256 ∈ M := hM (Finset.mem_image.2 ⟨k, Finset.mem_range.2 hk, rfl⟩)
  have hw : L.Level1 (t + (s.firstPage + k) / 256) := ⟨t, ht, _, by omega, rfl⟩
  obtain ⟨h2, hne⟩ := ensureTable_spec ht hs hpage hMk h
  -- the entry of the page leaves level 1 alone
  have hlevel1 : ∀ w, L.Level1 w → (L.fillPage t s k m1).mem w = (L.ensureTable t s (s.firstPage + k) m1).mem w := by
    intro w hw'
    obtain ⟨hmem, hq⟩ := assignPa_mem (L := L) (s := s) (k := k) (m := L.ensureTable t s (s.firstPage + k) m1)
    have hinv : Inv L (L.assignPa s k (L.ensureTable t s (s.firstPage + k) m1)).2 :=
      h2.inv.congr (fun i _ => congrFun hmem i) hq
    rw [fillPage, newPage_level1 hinv hw (ne_of_eq_of_ne (congrFun hmem _) hne) hw', hmem]
  by_cases h0 : m1.mem (t + (s.firstPage + k) / 256) = 0
  · have hself : (L.ensureTable t s (s.firstPage + k) m1).mem (t + (s.firstPage + k) / 256) =
        L.entry m1.wTable2Qtty.toNat (s.domain.setWidth 32) := by
      rw [ensureTable, if_pos h0]
      exact Function.update_self ..
    have hother : ∀ w, w ≠ t + (s.firstPage + k) / 256 →
        (L.ensureTable t s (s.firstPage + k) m1).mem w = m1.mem w := by
      intro w hne'
      rw [ensureTable, if_pos h0]
      exact Function.update_of_ne hne' ..
    refine ⟨?_, ?_, ?_⟩
    · intro w hw' hne'
      rw [hlevel1 w hw', hother]
      rintro rfl
      exact hne' h0
    · intro i hi _
      obtain rfl := Finset.mem_singleton.1 hi
      rw [hlevel1 _ hw, hself]
      exact ⟨tableEntry_ne_zero, entry_domain⟩
    · intro t' ht' i hi hnot
      rw [hlevel1 _ ⟨t', ht', i, hi, rfl⟩, hother]
      intro heq
      obtain ⟨rfl, rfl⟩ := level1_inj ht' ht hi (by omega) heq
      exact hnot ⟨rfl, Finset.mem_singleton_self _⟩
  · have hsame : L.ensureTable t s (s.firstPage + k) m1 = m1 := if_neg h0
    rw [hsame] at hlevel1
    refine ⟨fun w hw' _ => hlevel1 w hw', ?_, fun t' ht' i hi _ => hlevel1 _ ⟨t', ht', i, hi, rfl⟩⟩
    intro i hi hi0
    obtain rfl := Finset.mem_singleton.1 hi
    exact absurd hi0 h0

/-- The megabytes of the pages from `k` to `k + n - 1` -/
def pageMegabytes (s : SectionDesc) (k n : Nat) : Finset Nat :=
  (Finset.Ico k (k + n)).image fun j => (s.firstPage + j) / 256

theorem pageMegabytes_subset (hk : k + n ≤ s.pageCount) : pageMegabytes s k n ⊆ s.megabytes := by
  intro i hi
  obtain ⟨j, hj, rfl⟩ := Finset.mem_image.1 hi
  rw [Finset.mem_Ico] at hj
  exact Finset.mem_image.2 ⟨j, Finset.mem_range.2 (by omega), rfl⟩

theorem pageMegabytes_succ : pageMegabytes s k (n + 1) = {(s.firstPage + k) / 256} ∪ pageMegabytes s (k + 1) n := by
  have hico : Finset.Ico k (k + (n + 1)) = {k} ∪ Finset.Ico (k + 1) (k + 1 + n) := by
    ext j
    simp only [Finset.mem_Ico, Finset.mem_union, Finset.mem_singleton]
    omega
  rw [pageMegabytes, hico, Finset.image_union, Finset.image_singleton]
  rfl

/-- All pages of a section: the run lemma -/
theorem fillPages_created (ht : t ∈ L.table1s) (hs : s.Valid 32) (hMlt : ∀ i ∈ M, i < 4096) (hM : s.megabytes ⊆ M)
    (hram : m.wRamUsedPages.toNat + s.frames ≤ L.ramPages) (hk : k + n ≤ s.pageCount) (h : FilledTo L t s M m k m1) :
    Created L t (pageMegabytes s k n) s.domain m1 (L.fillPages t s k n m1) := by
  induction n generalizing k m1 with
  | zero =>
    refine ⟨fun _ _ _ => rfl, ?_, fun _ _ _ _ _ => rfl⟩
    intro i hi
    obtain ⟨j, hj, -⟩ := Finset.mem_image.1 hi
    rw [Finset.mem_Ico] at hj
    omega
  | succ n ih =>
    have hstep := fillPage_created ht hs (by omega) hM h
    have hrest := ih (by omega) (fillPage_spec ht hs (by omega) hMlt hM hram h)
    have hlt : ∀ i ∈ ({(s.firstPage + k) / 256} : Finset Nat), i < 4096 := by
      intro i hi
      obtain rfl := Finset.mem_singleton.1 hi
      have := lastPage_lt hs (k := k) (by omega)
      omega
    rw [pageMegabytes_succ]
    exact hstep.trans ht (fun i hi => hMlt i (hM (pageMegabytes_subset (by omega) hi))) hlt hrest

theorem fillSection_created (ht : t ∈ L.table1s) (hs : s.Valid 32) (hMlt : ∀ i ∈ M, i < 4096) (hM : s.megabytes ⊆ M)
    (hinv : Inv L m) (hroom : m.wTable2Qtty.toNat + missing m.mem t M ≤ L.table2s)
    (hram : m.wRamUsedPages.toNat + s.frames ≤ L.ramPages) :
    Created L t s.megabytes s.domain m (L.fillSection t s m) := by
  have hall := fillPages_created ht hs hMlt hM hram (k := 0) (n := s.pageCount) (by omega) (.refl hinv hroom)
  have hmegabytes : pageMegabytes s 0 s.pageCount = s.megabytes := by
    rw [pageMegabytes, Nat.zero_add, ← Finset.range_eq_Ico]
    rfl
  rw [hmegabytes] at hall
  exact hall

/-- A call of `mmu_fill_pte_from_vma` -/
theorem mmuFillPteFromVma_created (hinv : Inv L m) (ht : t ∈ L.table1s)
    (hroom : m.mem (level1Index t va) = 0 → m.wTable2Qtty.toNat < L.table2s) :
    Created L t {pageOf va / 256} DOMAIN_RAM_FREE m (m.mmuFillPteFromVma L.symbols (addrOf t) va) := by
  have hone : 0 < (demandSection va).pageCount := by
    rw [demandSection_pageCount]
    exact Nat.one_pos
  have hcreated := fillPage_created ht (demandSection_valid va) hone (demandSection_megabytes va).subset
    (demandSection_filledTo hinv hroom)
  rw [← mmuFillPteFromVma_eq hinv ht hroom, demandSection_firstPage, Nat.add_zero] at hcreated
  exact hcreated

end PageTables

/-! ## The domains of a history -/

/-- Each level-1 entry is empty, or has the domain of the first section that had a page there. -/
structure Recorded (L : PageTables) (h : List (Nat × SectionDesc)) (m : Mmu) : Prop where
  inv : Inv L m
  empty : ∀ t ∈ L.table1s, ∀ i < 4096, firstFilled h t i = none → m.mem (t + i) = 0
  filled : ∀ t ∈ L.table1s, ∀ i < 4096, ∀ s, firstFilled h t i = some s →
    m.mem (t + i) ≠ 0 ∧ (m.mem (t + i)).extractLsb' 5 4 = s.domain.setWidth 4

theorem Recorded.congr (hr : Recorded L h m) (hmem : ∀ i, L.Tables i → m'.mem i = m.mem i)
    (hqtty : m'.wTable2Qtty = m.wTable2Qtty) : Recorded L h m' := by
  refine ⟨hr.inv.congr hmem hqtty, ?_, ?_⟩
  · intro t ht i hi hnone
    rw [hmem _ (.inl ⟨t, ht, i, hi, rfl⟩)]
    exact hr.empty t ht i hi hnone
  · intro t ht i hi s hsome
    rw [hmem _ (.inl ⟨t, ht, i, hi, rfl⟩)]
    exact hr.filled t ht i hi s hsome

/-- A section more: where an entry has been written before, it stays. -/
theorem Recorded.created (hr : Recorded L h m) (hinv : Inv L m') (hc : Created L t s.megabytes s.domain m m') :
    Recorded L (h ++ [(t, s)]) m' := by
  refine ⟨hinv, ?_, ?_⟩
  · intro t' ht' i hi hnone
    rw [firstFilled_append, firstFilled_singleton, Option.or_eq_none_iff] at hnone
    obtain ⟨hold, hnew⟩ := hnone
    have hnot : ¬ (t = t' ∧ i ∈ s.megabytes) := by
      intro hboth
      rw [if_pos hboth] at hnew
      cases hnew
    rw [hc.others t' ht' i hi hnot]
    exact hr.empty t' ht' i hi hold
  · intro t' ht' i hi s0 hsome
    rw [firstFilled_append, firstFilled_singleton, Option.or_eq_some_iff] at hsome
    rcases hsome with hold | ⟨hold, hnew⟩
    · obtain ⟨hne, hd⟩ := hr.filled t' ht' i hi s0 hold
      rw [hc.kept _ ⟨t', ht', i, hi, rfl⟩ hne]
      exact ⟨hne, hd⟩
    · obtain ⟨⟨rfl, hin⟩, heq⟩ := Option.ite_none_right_eq_some.1 hnew
      obtain rfl := Option.some.inj heq
      exact hc.created i hin (hr.empty t ht' i hi hold)

/-- The sections of a list, one after the other -/
theorem Recorded.fillSections (hr : Recorded L h m) (ht : t ∈ L.table1s) (hvalid : ∀ s ∈ ss, s.Valid 32)
    (hMlt : ∀ i ∈ M, i < 4096) (hM : megabytesOf ss ⊆ M)
    (hroom : m.wTable2Qtty.toNat + missing m.mem t M ≤ L.table2s)
    (hram : m.wRamUsedPages.toNat + framesOf ss ≤ L.ramPages) :
    Recorded L (h ++ ss.map (t, ·)) (L.fillSections t ss m) := by
  induction ss generalizing h m with
  | nil =>
    rw [List.map_nil, List.append_nil]
    exact hr
  | cons s ss ih =>
    have hs := hvalid s List.mem_cons_self
    rw [framesOf_cons] at hram
    rw [megabytesOf_cons] at hM
    have hsM : s.megabytes ⊆ M := fun i hi => hM (Finset.mem_union_left _ hi)
    have hfilled := fillSection_spec ht hs hMlt hsM hr.inv hroom (by omega)
    have hcreated := fillSection_created ht hs hMlt hsM hr.inv hroom (by omega)
    have hused : (L.fillSection t s m).wRamUsedPages.toNat + framesOf ss ≤ L.ramPages := by
      have := hfilled.used
      unfold SectionDesc.frames at hram
      omega
    have hrest := ih (hr.created hfilled.inv hcreated) (fun s' hs' => hvalid s' (List.mem_cons_of_mem _ hs'))
      (fun i hi => hM (Finset.mem_union_right _ hi)) hfilled.room hused
    rw [List.append_assoc] at hrest
    exact hrest

theorem Recorded.demand (hr : Recorded L h m) (ht : t ∈ L.table1s)
    (hroom : m.mem (level1Index t va) = 0 → m.wTable2Qtty.toNat < L.table2s)
    (hram : m.wRamUsedPages.toNat < L.ramPages) :
    Recorded L (h ++ [(t, demandSection va)]) (m.mmuFillPteFromVma L.symbols (addrOf t) va) := by
  have hcreated := mmuFillPteFromVma_created hr.inv ht hroom
  obtain ⟨-, -, hinv, -⟩ := mmuFillPteFromVma_spec hr.inv ht hroom hram
  rw [← demandSection_megabytes va] at hcreated
  exact hr.created hinv hcreated

/-- What every history of fills leaves in level 1 -/
theorem FilledBy.recorded (hm : FilledBy L h m) : Recorded L h m := by
  induction hm with
  | start hmem hqtty hused =>
    refine ⟨(Built.start hmem hqtty hused).inv, ?_, ?_⟩
    · intro t ht i hi _
      exact hmem _ (.inl ⟨t, ht, i, hi, rfl⟩)
    · intro t ht i hi s hsome
      cases hsome
  | fill _ hcall hrun ih =>
    rw [fillSections_of_returned ih.inv hcall hrun]
    exact ih.fillSections hcall.table1 hcall.valid (megabytesOf_lt hcall.valid) (Finset.Subset.refl _) hcall.tables
      hcall.ram
  | demand _ ht hroom hram ih => exact ih.demand ht hroom hram
  | other _ hmem hqtty _ ih => exact ih.congr hmem hqtty

end

/-! ## The domain of a page -/

/-- The page of `va` translates, and the level-1 entry that the walk goes through has domain `d`. -/
def HasDomain (m : Mmu) (t : Nat) (va : Word) (d : BitVec 8) : Prop :=
  ∃ pa domain attributes, walk m.mem t va = .smallPage pa domain attributes ∧ domain.toNat = d.toNat

section
variable {L : PageTables} {t a i : Nat} {s : SectionDesc} {ss : List SectionDesc} {m m' : Mmu}
  {h : List (Nat × SectionDesc)} {va : Word} {frame : Nat → Nat} {d : BitVec 8}

theorem mem_megabytes (hs : s.Valid 32) : i ∈ s.megabytes ↔ ∃ va, s.Touches (pageOf va) ∧ pageOf va / 256 = i := by
  constructor
  · intro hi
    obtain ⟨k, hk, rfl⟩ := Finset.mem_image.1 hi
    rw [Finset.mem_range] at hk
    have hpage : pageOf (BitVec.ofNat 32 ((s.firstPage + k) * 2 ^ 12)) = s.firstPage + k := by
      have := lastPage_lt hs hk
      rw [pageOf, BitVec.toNat_ofNat]
      omega
    refine ⟨BitVec.ofNat 32 ((s.firstPage + k) * 2 ^ 12), ?_, ?_⟩
    · rw [hpage, touches_iff hs]
      omega
    · rw [hpage]
  · rintro ⟨va, htouches, rfl⟩
    obtain ⟨hlo, hhi⟩ := (touches_iff hs _).1 htouches
    refine Finset.mem_image.2 ⟨pageOf va - s.firstPage, Finset.mem_range.2 (by omega), ?_⟩
    rw [Nat.add_sub_cancel' hlo]

/-- A page that a call has filled translates; its domain is that of the entry. -/
theorem Filled.hasDomain_iff (hfilled : Filled L t ss m frame m') (hs : s ∈ ss) (htouches : s.Touches (pageOf va)) :
    (m'.mem (level1Index t va)) ≠ 0 ∧
      (HasDomain m' t va d ↔ ((m'.mem (level1Index t va)).extractLsb' 5 4).toNat = d.toNat) := by
  obtain ⟨pa, domain, attributes, hwalk⟩ :
      ∃ pa domain attributes, walk m'.mem t va = .smallPage pa domain attributes := by
    obtain ⟨s', hlast⟩ := exists_lastTouching ⟨s, hs, htouches⟩
    by_cases hpa : s'.pa = NO_PA
    · obtain ⟨domain, hwalk⟩ := hfilled.free s' va hlast hpa
      exact ⟨_, _, _, hwalk⟩
    · obtain ⟨domain, hwalk⟩ := hfilled.fixed s' va hlast hpa
      exact ⟨_, _, _, hwalk⟩
  obtain ⟨htype, -, -, -, hdomain, -⟩ := walk_smallPage_iff.1 hwalk
  refine ⟨?_, ?_, ?_⟩
  · intro h0
    rw [h0] at htype
    exact absurd htype (by decide)
  · rintro ⟨pa', domain', attributes', hwalk', hd⟩
    rw [hwalk] at hwalk'
    injection hwalk' with _ heq
    rw [hdomain, heq, hd]
  · intro hd
    rw [hdomain] at hd
    exact ⟨pa, domain, attributes, hwalk, hd⟩

theorem fillSections_domains_iff (hm : FilledBy L h m) (hcall : FillCall L 32 t a ss m) :
    (∀ s ∈ ss, ∀ va, s.Touches (pageOf va) → HasDomain (L.fillSections t ss m) t va s.domain) ↔
      ∀ s ∈ ss, ∀ i ∈ s.megabytes, ∃ s0, firstFilled (h ++ ss.map (t, ·)) t i = some s0 ∧
        s0.domain.toNat % 16 = s.domain.toNat := by
  obtain ⟨n, frame, hrun, hfilled, -⟩ := fill_run_eq hm.recorded.inv hcall
  have hr := (hm.fill hcall (hrun n (Nat.le_refl n))).recorded
  have hentry : ∀ va s0, firstFilled (h ++ ss.map (t, ·)) t (pageOf va / 256) = some s0 →
      (((L.fillSections t ss m).mem (level1Index t va)).extractLsb' 5 4).toNat = s0.domain.toNat % 16 := by
    intro va s0 hsome
    have hlt : pageOf va / 256 < 4096 := by
      have := pageOf_lt va
      omega
    rw [level1Index_eq, (hr.filled t hcall.table1 _ hlt s0 hsome).2, BitVec.toNat_setWidth]
  constructor
  · intro hall s hs i hi
    obtain ⟨va, htouches, rfl⟩ := (mem_megabytes (hcall.valid s hs)).1 hi
    have hlt : pageOf va / 256 < 4096 := by
      have := pageOf_lt va
      omega
    obtain ⟨hne, hiff⟩ := hfilled.hasDomain_iff (d := s.domain) hs htouches
    have hd := hiff.1 (hall s hs va htouches)
    rw [level1Index_eq] at hne
    cases hf : firstFilled (h ++ ss.map (t, ·)) t (pageOf va / 256) with
    | none => exact absurd (hr.empty t hcall.table1 _ hlt hf) hne
    | some s0 => exact ⟨s0, rfl, (hentry va s0 hf).symm.trans hd⟩
  · intro hall s hs va htouches
    obtain ⟨s0, hsome, hd⟩ := hall s hs _ ((mem_megabytes (hcall.valid s hs)).2 ⟨va, htouches, rfl⟩)
    exact (hfilled.hasDomain_iff hs htouches).2.2 ((hentry va s0 hsome).trans hd)

/-- After a call the pages of a section have its domain, for every section of the list, exactly where the section
first filled into each of their megabytes, by this call or an earlier one, has that domain. -/
theorem section_domains_iff (hm : FilledBy L h m) (hcall : FillCall L 32 t a ss m) :
    ∃ n m', (∀ k, n ≤ k → mmuFillPageTables L.symbols (addrOf a) (addrOf (a + 4 * ss.length)) (addrOf t) k m =
      some m') ∧ ((∀ s ∈ ss, ∀ va, s.Touches (pageOf va) → HasDomain m' t va s.domain) ↔
        ∀ s ∈ ss, ∀ i ∈ s.megabytes, ∃ s0, firstFilled (h ++ ss.map (t, ·)) t i = some s0 ∧
          s0.domain.toNat % 16 = s.domain.toNat) := by
  obtain ⟨n, frame, hrun, -⟩ := fill_run_eq hm.recorded.inv hcall
  exact ⟨n, _, hrun, fillSections_domains_iff hm hcall⟩

end

/-! ## The sections of a task -/

/-- Cleared tables -/
theorem exampleBoot_filledBy : FilledBy (exampleLink.pageTables exampleLink_linked) [] exampleBoot.mmu := by
  refine .start ?_ rfl rfl
  intro i hi
  obtain ⟨hlo, hhi⟩ := Link.tables_range exampleLink_linked hi
  exact exampleBoot_booted.bss i hlo hhi

/-- `task1_sections`, into the table of the first task -/
theorem exampleTask1_call : FillCall (exampleLink.pageTables exampleLink_linked) 32 exampleTask1.table1
    exampleTask1.sections exampleLink.task1Sections exampleBoot.mmu := by
  obtain ⟨hne, hvalid, hfixed, hstored, hbelow, hapart⟩ := Link.sectionTable exampleLink_linked
    exampleLink_disjoint.kernelApart exampleBoot_booted.described
    (p := (exampleTask1.sections, exampleLink.task1Sections)) (by simp [Link.sectionTables, exampleLink])
  refine ⟨List.mem_cons_of_mem _ List.mem_cons_self, hne, hvalid, hstored, hbelow, hapart, ?_, ?_⟩
  · have hmissing : missing exampleBoot.mmu.mem exampleTask1.table1 (megabytesOf exampleLink.task1Sections) ≤
        (megabytesOf exampleLink.task1Sections).card := Finset.card_filter_le _ _
    have hcard : (megabytesOf exampleLink.task1Sections).card ≤ 1650 := by decide +kernel
    change 0 + _ ≤ 1650
    omega
  · rw [framesOf_fixed hfixed]
    decide

theorem section_domains_example : ∃ n m', (∀ k, n ≤ k → mmuFillPageTables
    (exampleLink.pageTables exampleLink_linked).symbols (addrOf exampleTask1.sections)
    (addrOf (exampleTask1.sections + 24)) (addrOf exampleTask1.table1) k exampleBoot.mmu = some m') ∧
    ((∀ s ∈ exampleLink.task1Sections, ∀ va, s.Touches (pageOf va) → HasDomain m' exampleTask1.table1 va s.domain) ↔
      ∀ s ∈ exampleLink.task1Sections, ∀ i ∈ s.megabytes, ∃ s0,
        firstFilled (exampleLink.task1Sections.map (exampleTask1.table1, ·)) exampleTask1.table1 i = some s0 ∧
          s0.domain.toNat % 16 = s.domain.toNat) :=
  section_domains_iff exampleBoot_filledBy exampleTask1_call

/-- The stack of the first task lies in the megabyte of its code. -/
theorem not_section_domains : ¬ ∀ (L : PageTables) (h : List (Nat × SectionDesc)) (t a : Nat) (ss : List SectionDesc)
    (m : Mmu), FilledBy L h m → FillCall L 32 t a ss m → ∃ n m', (∀ k, n ≤ k →
      mmuFillPageTables L.symbols (addrOf a) (addrOf (a + 4 * ss.length)) (addrOf t) k m = some m') ∧
      ∀ s ∈ ss, ∀ va, s.Touches (pageOf va) → HasDomain m' t va s.domain := by
  intro h
  obtain ⟨n, m', hrun, hdomains⟩ := h _ _ _ _ _ _ exampleBoot_filledBy exampleTask1_call
  rw [fillSections_of_returned exampleBoot_filledBy.recorded.inv exampleTask1_call (hrun n (Nat.le_refl n))] at hdomains
  have hstack : exampleTask1.stack task1Frames ∈ exampleLink.task1Sections := by
    simp [Link.task1Sections, TaskLink.taskSections, exampleLink]
  have hmegabyte : 0x710 ∈ (exampleTask1.stack task1Frames).megabytes := by decide +kernel
  obtain ⟨s0, hsome, hd⟩ := (fillSections_domains_iff exampleBoot_filledBy exampleTask1_call).1 hdomains _ hstack _
    hmegabyte
  have hfirst : (firstFilled (([] : List (Nat × SectionDesc)) ++ exampleLink.task1Sections.map (exampleTask1.table1, ·))
      exampleTask1.table1 0x710).map (·.domain) = some DOMAIN_RAM_FREE := by decide +kernel
  rw [hsome] at hfirst
  have heq : s0.domain = DOMAIN_RAM_FREE := Option.some.inj hfirst
  rw [heq] at hd
  exact absurd hd (by decide)

end Td3.Kernel
