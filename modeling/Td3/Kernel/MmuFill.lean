/-
What a call of `mmu_fill_page_tables` does to the translations: the table it is called for maps every
page the sections touch as the last section touching it says, pages of free RAM are handed out once
each, and every other page of every table translates as before.
-/
import Td3.Kernel.MmuLoops

namespace Td3.Kernel

open Arm PageTables

/-! ## Calls -/

def framesOf (ss : List SectionDesc) : Nat := (ss.map SectionDesc.frames).sum

def megabytesOf (ss : List SectionDesc) : Finset Nat := (ss.map SectionDesc.megabytes).foldr (· ∪ ·) ∅

/-- The last section of the list that touches the page -/
def LastTouching (ss : List SectionDesc) (s : SectionDesc) (page : Nat) : Prop :=
  ∃ pre post, ss = pre ++ s :: post ∧ s.Touches page ∧ ∀ s' ∈ post, ¬ s'.Touches page

/-- A call `mmu_fill_page_tables(sections, end, table1)` with the descriptors `ss` from word `a` on, all of
domains below `domains`: they and their end lie below 2^31 and away from the tables, and the pool and
free RAM have what they need. -/
structure FillCall (L : PageTables) (domains t a : Nat) (ss : List SectionDesc) (m : Mmu) : Prop where
  table1 : t ∈ L.table1s
  nonempty : ss ≠ []
  valid : ∀ s ∈ ss, s.Valid domains
  stored : ∀ j, (hj : j < ss.length) → ss[j].Stored m.mem (a + 4 * j)
  below : 4 * (a + 4 * ss.length) < 2 ^ 31
  apart : ∀ i, a ≤ i → i < a + 4 * ss.length → ¬ L.Tables i
  tables : m.wTable2Qtty.toNat + missing m.mem t (megabytesOf ss) ≤ L.table2s
  ram : m.wRamUsedPages.toNat + framesOf ss ≤ L.ramPages

/-- Where a page of free RAM starts, by its number -/
def PageTables.freePage (L : PageTables) (n : Nat) (va : Word) : Word :=
  BitVec.ofNat 32 ((L.freeFrame + n) * 2 ^ 12 + va.toNat % 2 ^ 12)

/-- What the call does to the translations. `frame` gives the pages of free RAM that it hands out. -/
structure Filled (L : PageTables) (t : Nat) (ss : List SectionDesc) (m : Mmu) (frame : Nat → Nat) (m' : Mmu) :
    Prop where
  fixed : ∀ s va, LastTouching ss s (pageOf va) → s.pa ≠ NO_PA →
    ∃ domain, walk m'.mem t va = .smallPage (s.pa + (va - s.vma)) domain s.attributes
  free : ∀ s va, LastTouching ss s (pageOf va) → s.pa = NO_PA →
    ∃ domain, walk m'.mem t va = .smallPage (L.freePage (frame (pageOf va)) va) domain s.attributes
  fresh : ∀ s page, LastTouching ss s page → s.pa = NO_PA →
    m.wRamUsedPages.toNat ≤ frame page ∧ frame page < m'.wRamUsedPages.toNat
  once : ∀ s s' page page', LastTouching ss s page → s.pa = NO_PA → LastTouching ss s' page' → s'.pa = NO_PA →
    frame page = frame page' → page = page'
  unmapped : ∀ va, (∀ s ∈ ss, ¬ s.Touches (pageOf va)) → walk m'.mem t va = walk m.mem t va
  others : ∀ t' ∈ L.table1s, t' ≠ t → ∀ va, walk m'.mem t' va = walk m.mem t' va

/-- What it keeps for the next call, the pool having tables for the megabytes `M` -/
structure Kept (L : PageTables) (t : Nat) (ss : List SectionDesc) (M : Finset Nat) (m m' : Mmu) : Prop where
  inv : Inv L m'
  room : m'.wTable2Qtty.toNat + missing m'.mem t M ≤ L.table2s
  used : m'.wRamUsedPages.toNat = m.wRamUsedPages.toNat + framesOf ss
  memory : ∀ i, ¬ L.Tables i → m'.mem i = m.mem i

/-! ## One section after the other -/

section
variable {L : PageTables} {t a : Nat} {s s0 : SectionDesc} {ss : List SectionDesc} {M : Finset Nat} {m m1 m' : Mmu}
  {page : Nat} {va : Word}

theorem framesOf_cons : framesOf (s :: ss) = s.frames + framesOf ss := rfl

theorem megabytesOf_cons : megabytesOf (s :: ss) = s.megabytes ∪ megabytesOf ss := rfl

theorem lastTouching_cons : LastTouching (s :: ss) s0 page ↔
    LastTouching ss s0 page ∨ s0 = s ∧ s.Touches page ∧ ∀ s' ∈ ss, ¬ s'.Touches page := by
  constructor
  · rintro ⟨pre, post, heq, htouches, hpost⟩
    cases pre with
    | nil =>
      obtain ⟨rfl, rfl⟩ := List.cons.inj heq
      exact .inr ⟨rfl, htouches, hpost⟩
    | cons p pre =>
      obtain ⟨rfl, rfl⟩ := List.cons.inj heq
      exact .inl ⟨pre, post, rfl, htouches, hpost⟩
  · rintro (⟨pre, post, rfl, htouches, hpost⟩ | ⟨rfl, htouches, hpost⟩)
    · exact ⟨s :: pre, post, rfl, htouches, hpost⟩
    · exact ⟨[], ss, rfl, htouches, hpost⟩

theorem LastTouching.exists_touches (h : LastTouching ss s page) : ∃ s' ∈ ss, s'.Touches page := by
  obtain ⟨pre, post, rfl, htouches, -⟩ := h
  exact ⟨s, by simp, htouches⟩

theorem filled_nil (frame : Nat → Nat) : Filled L t [] m frame m := by
  have hnot : ∀ s page, ¬ LastTouching [] s page := by
    intro s page h
    obtain ⟨s', hs', -⟩ := h.exists_touches
    exact absurd hs' List.not_mem_nil
  exact ⟨fun s va h => absurd h (hnot _ _), fun s va h => absurd h (hnot _ _), fun s p h => absurd h (hnot _ _),
    fun s s' p p' h => absurd h (hnot _ _), fun _ _ => rfl, fun _ _ _ _ => rfl⟩

theorem filled_cons (hs : s.Valid 32) (hused : m1.wRamUsedPages.toNat ≤ m'.wRamUsedPages.toNat)
    (h1 : FilledTo L t s M m s.pageCount m1) {frame : Nat → Nat}
    (h2 : Filled L t ss m1 frame m') : ∃ frame', Filled L t (s :: ss) m frame' m' := by
  classical
  have hpages : ∀ p, s.Touches p ↔ s.firstPage ≤ p ∧ p < s.firstPage + s.pageCount :=
    fun p => SectionDesc.touches_iff hs p
  let frame' : Nat → Nat := fun p =>
    if ∃ s' ∈ ss, s'.Touches p then frame p else m.wRamUsedPages.toNat + (p - s.firstPage)
  have hlater : ∀ p, (∃ s' ∈ ss, s'.Touches p) → frame' p = frame p := fun p hp => if_pos hp
  have hfirst : ∀ p, (∀ s' ∈ ss, ¬ s'.Touches p) → frame' p = m.wRamUsedPages.toNat + (p - s.firstPage) :=
    fun p hp => if_neg fun ⟨s', hs', ht'⟩ => hp s' hs' ht'
  have hwalk : ∀ va, s.Touches (pageOf va) → (∀ s' ∈ ss, ¬ s'.Touches (pageOf va)) →
      ∃ domain, walk m'.mem t va = .smallPage (L.pageAddr s m.wRamUsedPages.toNat va) domain s.attributes := by
    intro va htouches hnot
    rw [h2.unmapped va hnot]
    exact h1.mapped va ((hpages _).1 htouches).1 ((hpages _).1 htouches).2
  have hbetween : ∀ p, s.Touches p → s.pa = NO_PA →
    m.wRamUsedPages.toNat + (p - s.firstPage) < m1.wRamUsedPages.toNat := by
    intro p hp hpa
    have := h1.used
    rw [if_pos hpa] at this
    have := (hpages p).1 hp
    omega
  have hmono : m.wRamUsedPages.toNat ≤ m1.wRamUsedPages.toNat := by
    rw [h1.used]
    exact Nat.le_add_right ..
  refine ⟨frame', ?_, ?_, ?_, ?_, ?_, ?_⟩
  · intro s0 va h hpa
    rcases lastTouching_cons.1 h with hrest | ⟨rfl, htouches, hnot⟩
    · exact h2.fixed s0 va hrest hpa
    · obtain ⟨domain, hw⟩ := hwalk va htouches hnot
      rw [pageAddr, if_neg hpa] at hw
      exact ⟨domain, hw⟩
  · intro s0 va h hpa
    rcases lastTouching_cons.1 h with hrest | ⟨rfl, htouches, hnot⟩
    · rw [hlater _ hrest.exists_touches]
      exact h2.free s0 va hrest hpa
    · obtain ⟨domain, hw⟩ := hwalk va htouches hnot
      rw [pageAddr, if_pos hpa, Nat.add_assoc] at hw
      rw [hfirst _ hnot]
      exact ⟨domain, hw⟩
  · intro s0 p h hpa
    rcases lastTouching_cons.1 h with hrest | ⟨rfl, htouches, hnot⟩
    · rw [hlater _ hrest.exists_touches]
      have := h2.fresh s0 p hrest hpa
      omega
    · rw [hfirst _ hnot]
      have := hbetween p htouches hpa
      omega
  · intro s1 s2 p1 p2 hl1 hpa1 hl2 hpa2 heq
    rcases lastTouching_cons.1 hl1 with hrest1 | ⟨rfl, ht1, hnot1⟩
    · rw [hlater _ hrest1.exists_touches] at heq
      rcases lastTouching_cons.1 hl2 with hrest2 | ⟨rfl, ht2, hnot2⟩
      · rw [hlater _ hrest2.exists_touches] at heq
        exact h2.once s1 s2 p1 p2 hrest1 hpa1 hrest2 hpa2 heq
      · rw [hfirst _ hnot2] at heq
        have := h2.fresh s1 p1 hrest1 hpa1
        have := hbetween p2 ht2 hpa2
        omega
    · rw [hfirst _ hnot1] at heq
      rcases lastTouching_cons.1 hl2 with hrest2 | ⟨rfl, ht2, hnot2⟩
      · rw [hlater _ hrest2.exists_touches] at heq
        have := h2.fresh s2 p2 hrest2 hpa2
        have := hbetween p1 ht1 hpa1
        omega
      · rw [hfirst _ hnot2] at heq
        have := (hpages p1).1 ht1
        have := (hpages p2).1 ht2
        omega
  · intro va hnot
    rw [h2.unmapped va fun s' hs' => hnot s' (List.mem_cons_of_mem _ hs')]
    exact h1.unmapped va fun hp => hnot s List.mem_cons_self ((hpages _).2 hp)
  · intro t' ht' hne va
    rw [h2.others t' ht' hne va]
    exact h1.others t' ht' hne va

theorem kept_cons (h1 : FilledTo L t s M m s.pageCount m1) (h2 : Kept L t ss M m1 m') : Kept L t (s :: ss) M m m' := by
  refine ⟨h2.inv, h2.room, ?_, fun i hi => (h2.memory i hi).trans (h1.memory i hi)⟩
  rw [h2.used, h1.used, framesOf_cons, Nat.add_assoc]
  rfl

theorem megabytes_lt (hs : s.Valid 32) : ∀ i ∈ s.megabytes, i < 4096 := by
  intro i hi
  obtain ⟨k, hk, rfl⟩ := Finset.mem_image.1 hi
  have := SectionDesc.lastPage_lt hs (Finset.mem_range.1 hk)
  omega

theorem megabytesOf_lt (hss : ∀ s ∈ ss, s.Valid 32) : ∀ i ∈ megabytesOf ss, i < 4096 := by
  induction ss with
  | nil =>
    intro i hi
    exact absurd hi (Finset.notMem_empty i)
  | cons s ss ih =>
    intro i hi
    rcases Finset.mem_union.1 hi with h | h
    · exact megabytes_lt (hss s List.mem_cons_self) i h
    · exact ih (fun s' hs' => hss s' (List.mem_cons_of_mem _ hs')) i h

theorem addrOf_slt {i j : Nat} (hi : 4 * i < 2 ^ 31) (hj : 4 * j < 2 ^ 31) :
    (addrOf i).slt (addrOf j) = decide (i < j) := by
  have hnat : ∀ k, 4 * k < 2 ^ 31 → (addrOf k).toNat = 4 * k := by
    intro k hk
    rw [addrOf, BitVec.toNat_ofNat]
    omega
  rw [Fill.slt_of_lt (by rw [hnat i hi]; exact hi) (by rw [hnat j hj]; exact hj), hnat i hi, hnat j hj]
  exact decide_eq_decide.2 (by omega)

/-- `next_section` -/
theorem next_step {f : Fill} {stop : Nat} (h : Fill.Next t a (addrOf stop) m f) (ha : 4 * (a + 4) < 2 ^ 31)
    (hstop : 4 * stop < 2 ^ 31) :
    Fill.step L.symbols f = { f with
      sectionAddr := addrOf (a + 4), label := if a + 4 < stop then .loopSectionAddr else .ret } := by
  have haddr : f.sectionAddr + SECTION_NEXT = addrOf (a + 4) := by
    rw [h.sectionAddr]
    exact addrOf_add a (k := 16) (by decide)
  rw [Fill.step, h.label]
  show Fill.nextSection f = _
  rw [Fill.nextSection, haddr, h.sectionEndAddr, addrOf_slt ha hstop]
  simp only [decide_eq_true_eq]

/-- From `loop_section_addr` to the return -/
theorem sections_run {f : Fill} (hne : ss ≠ []) (ht : t ∈ L.table1s) (hvalid : ∀ s ∈ ss, s.Valid 32)
    (hstored : ∀ j, (hj : j < ss.length) → ss[j].Stored m.mem (a + 4 * j))
    (hapart : ∀ i, a ≤ i → i < a + 4 * ss.length → ¬ L.Tables i) (hbelow : 4 * (a + 4 * ss.length) < 2 ^ 31)
    (hM : megabytesOf ss ⊆ M) (hMlt : ∀ i ∈ M, i < 4096) (hinv : Inv L m)
    (hroom : m.wTable2Qtty.toNat + missing m.mem t M ≤ L.table2s)
    (hram : m.wRamUsedPages.toNat + framesOf ss ≤ L.ramPages) (hlabel : f.label = .loopSectionAddr) (hmmu : f.mmu = m)
    (haddr : f.sectionAddr = addrOf a) (hstop : f.sectionEndAddr = addrOf (a + 4 * ss.length))
    (htable : f.table1Addr = addrOf t) :
    ∃ f' frame, Reaches (Fill.step L.symbols) f f' ∧ f'.label = .ret ∧ f'.mmu = L.fillSections t ss m ∧
      Filled L t ss m frame f'.mmu ∧ Kept L t ss M m f'.mmu := by
  induction ss generalizing a m f with
  | nil => exact absurd rfl hne
  | cons s ss ih =>
    have hs := hvalid s List.mem_cons_self
    rw [List.length_cons] at hapart hbelow hstop
    rw [framesOf_cons] at hram
    rw [megabytesOf_cons] at hM
    have hcall : Fill.SectionCall L t a s M m := ⟨ht, hs, hstored 0 (by simp), by omega,
      fun i h1 h2 => hapart i h1 (by omega), fun i hi => hM (Finset.mem_union_left _ hi), hMlt, by omega⟩
    obtain ⟨f1, hreach, hnext⟩ := Fill.section_run hcall hinv hroom hlabel hmmu haddr hstop htable
    have hfilled := fillSection_spec ht hs hMlt hcall.megabytes hinv hroom hcall.ram
    have hstep := next_step (L := L) hnext (by omega) (by omega)
    obtain ⟨m1, hm1⟩ : ∃ m1, m1 = L.fillSection t s m := ⟨_, rfl⟩
    rw [← hm1] at hnext hfilled
    have hmmu1 := hnext.mmu
    cases ss with
    | nil =>
      rw [if_neg (by simp)] at hstep
      have hkept : Kept L t [] M m1 m1 := ⟨hfilled.inv, hfilled.room, rfl, fun _ _ => rfl⟩
      obtain ⟨frame, hframe⟩ := filled_cons hs (Nat.le_refl _) hfilled (filled_nil fun _ => 0)
      rw [← hmmu1] at hm1 hframe hkept hfilled
      exact ⟨_, frame, hreach.trans ⟨1, hstep⟩, rfl, hm1, hframe, kept_cons hfilled hkept⟩
    | cons s' rest =>
      rw [if_pos (by simp)] at hstep
      have hused : m1.wRamUsedPages.toNat + framesOf (s' :: rest) ≤ L.ramPages := by
        have := hfilled.used
        unfold SectionDesc.frames at hram
        omega
      have hstored' : ∀ j, (hj : j < (s' :: rest).length) → (s' :: rest)[j].Stored m1.mem (a + 4 + 4 * j) := by
        intro j hj
        obtain ⟨h0, h1, h2, h3⟩ := hstored (j + 1) (by simpa using hj)
        have hsame : ∀ i < 4, m1.mem (a + 4 + 4 * j + i) = m.mem (a + 4 * (j + 1) + i) := by
          intro i hi
          have heq : a + 4 + 4 * j + i = a + 4 * (j + 1) + i := by omega
          rw [heq]
          exact hfilled.memory _ (hapart _ (by omega) (by simp at hj ⊢; omega))
        exact ⟨(hsame 0 (by decide)).trans h0, (hsame 1 (by decide)).trans h1, (hsame 2 (by decide)).trans h2,
          (hsame 3 (by decide)).trans h3⟩
      have hlen : a + 4 + 4 * (s' :: rest).length = a + 4 * ((s' :: rest).length + 1) := by omega
      obtain ⟨f', frame, hreach', hlabel', heq, hfilled', hkept'⟩ := ih (a := a + 4) (m := m1)
        (f := { f1 with sectionAddr := addrOf (a + 4), label := .loopSectionAddr }) (by simp)
        (fun s0 h0 => hvalid s0 (List.mem_cons_of_mem _ h0)) hstored' (fun i h1 h2 => hapart i (by omega) (by omega))
        (by omega) (fun i hi => hM (Finset.mem_union_right _ hi)) hfilled.inv hfilled.room hused rfl hmmu1 rfl
        (by rw [hlen]; exact hnext.sectionEndAddr) hnext.table1Addr
      obtain ⟨frame', hframe'⟩ := filled_cons hs (by rw [hkept'.used]; exact Nat.le_add_right ..) hfilled hfilled'
      refine ⟨f', frame', (hreach.trans ⟨1, hstep⟩).trans hreach', hlabel', ?_, hframe', kept_cons hfilled hkept'⟩
      rw [heq, hm1]
      rfl

/-- A call does `fillSections`. -/
theorem fill_run_eq (hinv : Inv L m) (h : FillCall L 32 t a ss m) :
    ∃ n frame, (∀ k, n ≤ k → mmuFillPageTables L.symbols (addrOf a) (addrOf (a + 4 * ss.length)) (addrOf t) k m =
      some (L.fillSections t ss m)) ∧ Filled L t ss m frame (L.fillSections t ss m) ∧
      Kept L t ss (megabytesOf ss) m (L.fillSections t ss m) := by
  obtain ⟨f', frame, hreach, hlabel, heq, hfilled, hkept⟩ := sections_run
    (f := Fill.start (addrOf a) (addrOf (a + 4 * ss.length)) (addrOf t) m) h.nonempty h.table1 h.valid h.stored h.apart
    h.below (Finset.Subset.refl _) (megabytesOf_lt h.valid) hinv h.tables h.ram rfl rfl rfl rfl rfl
  obtain ⟨n, hn⟩ := hreach.final (by rw [Fill.step, hlabel])
  rw [← heq]
  refine ⟨n, frame, ?_, hfilled, hkept⟩
  intro k hk
  rw [mmuFillPageTables, hn k hk]
  exact if_pos hlabel

/-- The run of a call, from any state in which the invariant holds -/
theorem fill_run (hinv : Inv L m) (h : FillCall L 32 t a ss m) :
    ∃ n m' frame, (∀ k, n ≤ k → mmuFillPageTables L.symbols (addrOf a) (addrOf (a + 4 * ss.length)) (addrOf t) k m =
      some m') ∧ Filled L t ss m frame m' ∧ Kept L t ss (megabytesOf ss) m m' := by
  obtain ⟨n, frame, hrun, hfilled, hkept⟩ := fill_run_eq hinv h
  exact ⟨n, _, frame, hrun, hfilled, hkept⟩

end

/-! ## Runs of calls -/

/-- The states earlier calls leave, from empty tables on; between calls memory changes outside the tables. -/
inductive Built (L : PageTables) (domains : Nat) : Mmu → Prop where
  | start {m : Mmu} (hmem : ∀ i, L.Tables i → m.mem i = 0) (hqtty : m.wTable2Qtty = 0) (hused : m.wRamUsedPages = 0) :
    Built L domains m
  | fill {m m' : Mmu} {t a n : Nat} {ss : List SectionDesc} (hm : Built L domains m) (h : FillCall L domains t a ss m)
    (hrun : mmuFillPageTables L.symbols (addrOf a) (addrOf (a + 4 * ss.length)) (addrOf t) n m = some m') :
    Built L domains m'
  | other {m m' : Mmu} (hm : Built L domains m) (hmem : ∀ i, L.Tables i → m'.mem i = m.mem i)
    (hqtty : m'.wTable2Qtty = m.wTable2Qtty) (hused : m'.wRamUsedPages = m.wRamUsedPages) : Built L domains m'

/-- A call that has returned has returned. -/
theorem mmuFillPageTables_le {S : MmuSymbols} {addr stop table1 : Word} {m m' : Mmu} {n k : Nat}
    (h : mmuFillPageTables S addr stop table1 n m = some m') (hk : n ≤ k) :
    mmuFillPageTables S addr stop table1 k m = some m' := by
  obtain ⟨hlabel, hmmu⟩ := Option.ite_none_right_eq_some.1 h
  obtain ⟨d, rfl⟩ := Nat.exists_eq_add_of_le' hk
  have hfixed : Fill.step S ((Fill.step S)^[n] (Fill.start addr stop table1 m)) =
      (Fill.step S)^[n] (Fill.start addr stop table1 m) := by rw [Fill.step, hlabel]
  rw [mmuFillPageTables, Function.iterate_add_apply, Function.iterate_fixed hfixed d]
  exact h

theorem fillSections_of_returned {L : PageTables} {t a n : Nat} {ss : List SectionDesc} {m m' : Mmu} (hinv : Inv L m)
    (h : FillCall L 32 t a ss m)
    (hrun : mmuFillPageTables L.symbols (addrOf a) (addrOf (a + 4 * ss.length)) (addrOf t) n m = some m') :
    m' = L.fillSections t ss m := by
  obtain ⟨n', frame, hret, -⟩ := fill_run_eq hinv h
  exact Option.some.inj ((mmuFillPageTables_le hrun (Nat.le_max_left _ n')).symm.trans
    (hret _ (Nat.le_max_right _ n')))

/-- A call that has returned has done what a call does. -/
theorem fill_of_returned {L : PageTables} {t a n : Nat} {ss : List SectionDesc} {m m' : Mmu} (hinv : Inv L m)
    (h : FillCall L 32 t a ss m)
    (hrun : mmuFillPageTables L.symbols (addrOf a) (addrOf (a + 4 * ss.length)) (addrOf t) n m = some m') :
    ∃ frame, Filled L t ss m frame m' ∧ Kept L t ss (megabytesOf ss) m m' := by
  obtain ⟨-, frame, -, hfilled, hkept⟩ := fill_run_eq hinv h
  rw [fillSections_of_returned hinv h hrun]
  exact ⟨frame, hfilled, hkept⟩

theorem Built.inv {L : PageTables} {m : Mmu} (h : Built L 32 m) : Inv L m := by
  induction h with
  | start hmem hqtty hused =>
    have hlevel1 : ∀ w, L.Level1 w → _ := fun w hw => hmem w (.inl hw)
    refine ⟨by rw [hqtty]; exact Nat.zero_le _, fun w hw => .inl (hlevel1 w hw), ?_, ?_⟩
    · intro w w' hw _ hne
      exact absurd (hlevel1 w hw) hne
    · intro w hlo hhi
      exact hmem w (.inr ⟨by rw [hqtty] at hlo; exact hlo, hhi⟩)
  | fill _ h hrun ih =>
    obtain ⟨frame, -, hkept⟩ := fill_of_returned ih h hrun
    exact hkept.inv
  | other _ hmem hqtty _ ih => exact ih.congr hmem hqtty

/-- After earlier calls, a call of `mmu_fill_page_tables` returns and does what `Filled` says, with pages
that lie in free RAM. -/
theorem mmuFillPageTables_spec {L : PageTables} {t a : Nat} {ss : List SectionDesc} {m : Mmu} (hm : Built L 32 m)
    (h : FillCall L 32 t a ss m) :
    ∃ n m' frame, (∀ k, n ≤ k → mmuFillPageTables L.symbols (addrOf a) (addrOf (a + 4 * ss.length)) (addrOf t) k m =
      some m') ∧ Filled L t ss m frame m' ∧ m'.wRamUsedPages.toNat ≤ L.ramPages := by
  obtain ⟨n, m', frame, hrun, hfilled, hkept⟩ := fill_run hm.inv h
  exact ⟨n, m', frame, hrun, hfilled, by rw [hkept.used]; exact h.ram⟩

/-! ## Examples -/

def exampleTables : PageTables where
  pool := 64
  table2s := 4
  freeFrame := 0x80000
  ramPages := 16
  table1s := {4096}
  pool_lt := by decide
  ram_lt := by decide
  table1_aligned := by rintro t rfl; exact Nat.dvd_refl _
  table1_lt := by rintro t rfl; decide
  table1_pool := by rintro t rfl; exact .inl (by decide)

theorem exampleTables_apart {i : Nat} (hi : i < 4096) : ¬ exampleTables.Tables i := by
  rintro (⟨t, rfl, j, hj, rfl⟩ | ⟨hlo, -⟩)
  · omega
  · change 16384 ≤ i at hlo
    omega

/-- Two pages at 0x70000000, the second of which is mapped again to free RAM -/
def exampleSections : List SectionDesc :=
  [⟨0, 0x2000, 0x70000000, 2, 1, 0, 1⟩, ⟨0x1000, 0x1000, NO_PA, 2, 3, 4, 7⟩]

/-- Memory with their descriptors, and nothing else -/
def exampleMmu : Mmu :=
  ⟨fun i => if i < 8 then [0, 0x2000, 0x70000000, 0x01000102, 0x1000, 0x1000, 1, 0x07040302].getD i 0 else 0, 0, 0⟩

theorem exampleMmu_built {domains : Nat} : Built exampleTables domains exampleMmu := by
  refine .start ?_ rfl rfl
  intro i hi
  have hi8 : ¬ i < 8 := fun h => exampleTables_apart (by omega) hi
  exact if_neg hi8

theorem exampleSections_call : FillCall exampleTables 32 4096 0 exampleSections exampleMmu := by
  refine ⟨rfl, by decide, ?_, ?_, by decide, ?_, by decide +kernel, by decide⟩
  · intro s hs
    rcases List.mem_cons.1 hs with rfl | hs
    · exact ⟨by decide, by decide, by decide, fun _ => by decide, fun _ => by decide, by decide, by decide, by decide,
        by decide⟩
    · obtain rfl := List.mem_singleton.1 hs
      exact ⟨by decide, by decide, by decide, fun h => (h rfl).elim, fun h => (h rfl).elim, by decide, by decide,
        by decide, by decide⟩
  · intro j hj
    have hcases : j = 0 ∨ j = 1 := by
      change j < 2 at hj
      omega
    rcases hcases with rfl | rfl <;> exact ⟨rfl, rfl, rfl, by revert hj; decide⟩
  · intro i _ hi
    exact exampleTables_apart (by change i < 8 at hi; omega)

theorem mmuFillPageTables_remap : ∃ n m' frame,
    mmuFillPageTables exampleTables.symbols (addrOf 0) (addrOf 8) (addrOf 4096) n exampleMmu = some m' ∧
      (∃ domain, walk m'.mem 4096 0x123 = .smallPage 0x70000123 domain ⟨false, false, 1, 0, false, false, true⟩) ∧
      ∃ domain, walk m'.mem 4096 0x1123 = .smallPage (exampleTables.freePage frame 0x1123) domain
        ⟨true, true, 3, 1, false, false, true⟩ := by
  obtain ⟨n, m', frame, hrun, hfilled, -⟩ := mmuFillPageTables_spec exampleMmu_built exampleSections_call
  refine ⟨n, m', frame 1, hrun n (Nat.le_refl n), ?_, ?_⟩
  · exact hfilled.fixed ⟨0, 0x2000, 0x70000000, 2, 1, 0, 1⟩ 0x123
      ⟨[], [⟨0x1000, 0x1000, NO_PA, 2, 3, 4, 7⟩], rfl, by decide, by decide⟩ (by decide)
  · exact hfilled.free ⟨0x1000, 0x1000, NO_PA, 2, 3, 4, 7⟩ 0x1123
      ⟨[⟨0, 0x2000, 0x70000000, 2, 1, 0, 1⟩], [], rfl, by decide, by decide⟩ rfl

/-- One page, in domain 32 -/
def domain32Section : SectionDesc := ⟨0, 0x1000, 0, 32, 0, 0, 0⟩

def domain32Mmu : Mmu := ⟨fun i => if i < 4 then [0, 0x1000, 0, 32].getD i 0 else 0, 0, 0⟩

/-- Bit 5 of a domain falls on bit 10 of the entry, the lowest of the level-2 table's address. -/
theorem not_filled_domain32 : ¬ ∀ (L : PageTables) (t a : Nat) (ss : List SectionDesc) (m : Mmu),
    Built L 256 m → FillCall L 256 t a ss m → ∃ n m' frame, (∀ k, n ≤ k →
      mmuFillPageTables L.symbols (addrOf a) (addrOf (a + 4 * ss.length)) (addrOf t) k m = some m') ∧
      Filled L t ss m frame m' ∧ m'.wRamUsedPages.toNat ≤ L.ramPages := by
  intro h
  have hbuilt : Built exampleTables 256 domain32Mmu := by
    refine .start ?_ rfl rfl
    intro i hi
    have hi4 : ¬ i < 4 := fun h => exampleTables_apart (by omega) hi
    exact if_neg hi4
  have hcall : FillCall exampleTables 256 4096 0 [domain32Section] domain32Mmu := by
    refine ⟨rfl, by decide, ?_, ?_, by decide, ?_, by decide +kernel, by decide⟩
    · intro s hs
      obtain rfl := List.mem_singleton.1 hs
      exact ⟨by decide, by decide, by decide, fun _ => by decide, fun _ => by decide, by decide, by decide, by decide,
        by decide⟩
    · intro j hj
      obtain rfl : j = 0 := by
        change j < 1 at hj
        omega
      exact ⟨rfl, rfl, rfl, by revert hj; decide⟩
    · intro i _ hi
      exact exampleTables_apart (by change i < 4 at hi; omega)
  obtain ⟨n, m', frame, hrun, hfilled, -⟩ := h _ _ _ _ _ hbuilt hcall
  obtain ⟨domain, hwalk⟩ := hfilled.fixed domain32Section 0 ⟨[], [], rfl, by decide, by decide⟩ (by decide)
  have hfault : (mmuFillPageTables exampleTables.symbols (addrOf 0) (addrOf 4) (addrOf 4096) 4 domain32Mmu).map
      (fun m => walk m.mem 4096 0) = some .fault := by decide +kernel
  obtain ⟨m4, hm4, hfault⟩ := Option.map_eq_some_iff.1 hfault
  have heq := (mmuFillPageTables_le hm4 (Nat.le_max_right n 4)).symm.trans (hrun _ (Nat.le_max_left n 4))
  rw [← Option.some.inj heq, hfault] at hwalk
  exact Walk.noConfusion hwalk

end Td3.Kernel
