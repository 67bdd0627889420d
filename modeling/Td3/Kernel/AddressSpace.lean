/-
What calls of `mmu_fill_page_tables` for several tables, in any order, make of them: each table
translates as the sections say that it was filled with, and no other page. How far the pool of level-2
tables goes is counted by the megabytes of the calls.
-/
import Td3.Kernel.MmuFill

namespace Td3.Kernel

open Arm PageTables SectionDesc

/-! ## Sections apart -/

namespace SectionDesc

/-- The section reaches into a physical page. -/
def TouchesFrame (s : SectionDesc) (frame : Nat) : Prop :=
  s.pa.toNat < (frame + 1) * 2 ^ 12 ∧ frame * 2 ^ 12 < s.pa.toNat + s.size.toNat

instance (s : SectionDesc) (frame : Nat) : Decidable (s.TouchesFrame frame) := inferInstanceAs (Decidable (_ ∧ _))

/-- The word lies in a physical page of the section. -/
def Holds (s : SectionDesc) (w : Nat) : Prop := s.TouchesFrame (w / 1024)

/-- No virtual page is common to them. -/
def PagesApart (s s' : SectionDesc) : Prop := ∀ page, s.Touches page → ¬ s'.Touches page

/-- No physical page is common to them. -/
def FramesApart (s s' : SectionDesc) : Prop := ∀ frame, s.TouchesFrame frame → ¬ s'.TouchesFrame frame

/-- The physical address at which the section has `va` -/
def addrOfVa (s : SectionDesc) (va : Word) : Word := s.pa + (va - s.vma)

section
variable {s s' : SectionDesc} {va : Word} {domains i : Nat}

theorem FramesApart.symm (h : FramesApart s s') : FramesApart s' s := fun frame hs' hs => h frame hs hs'

theorem addrOfVa_toNat (hs : s.Valid domains) (hpa : s.pa ≠ NO_PA) (htouches : s.Touches (pageOf va)) :
    (s.addrOfVa va).toNat = s.pa.toNat + (va.toNat - s.vma.toNat) ∧ s.vma.toNat ≤ va.toNat := by
  obtain ⟨v, hv⟩ := hs.vma
  obtain ⟨p, hp⟩ := hs.pa hpa
  have hvma_le := hs.vma_le
  have hpa_le := hs.pa_le hpa
  unfold Touches pageOf at htouches
  rw [addrOfVa, BitVec.toNat_add, BitVec.toNat_sub]
  omega

theorem touchesFrame_addrOfVa (hs : s.Valid domains) (hpa : s.pa ≠ NO_PA) (htouches : s.Touches (pageOf va)) :
    s.TouchesFrame (pageOf (s.addrOfVa va)) := by
  obtain ⟨haddr, hle⟩ := addrOfVa_toNat hs hpa htouches
  obtain ⟨v, hv⟩ := hs.vma
  obtain ⟨p, hp⟩ := hs.pa hpa
  unfold Touches pageOf at htouches
  unfold TouchesFrame
  rw [pageOf, haddr]
  omega

/-- The bytes of a section -/
theorem byte_vma (hs : s.Valid domains) (hi : i < s.size.toNat) :
    (s.vma + BitVec.ofNat 32 i).toNat = s.vma.toNat + i ∧ s.Touches (pageOf (s.vma + BitVec.ofNat 32 i)) := by
  have hvma_le := hs.vma_le
  have haddr : (s.vma + BitVec.ofNat 32 i).toNat = s.vma.toNat + i := by
    rw [BitVec.toNat_add, BitVec.toNat_ofNat]
    omega
  refine ⟨haddr, ?_⟩
  unfold Touches
  rw [pageOf, haddr]
  omega

theorem addrOfVa_byte (i : Nat) : s.addrOfVa (s.vma + BitVec.ofNat 32 i) = s.pa + BitVec.ofNat 32 i := by
  rw [addrOfVa, BitVec.add_comm s.vma, BitVec.add_sub_cancel]

theorem byte_pa (hs : s.Valid domains) (hpa : s.pa ≠ NO_PA) (hi : i < s.size.toNat) :
    (s.pa + BitVec.ofNat 32 i).toNat = s.pa.toNat + i := by
  have := hs.pa_le hpa
  rw [BitVec.toNat_add, BitVec.toNat_ofNat]
  omega

theorem holds_byte (hs : s.Valid domains) (hpa : s.pa ≠ NO_PA) (hi : i < s.size.toNat) :
    s.Holds (wordIndex (s.pa + BitVec.ofNat 32 i)) := by
  unfold Holds TouchesFrame
  rw [wordIndex, byte_pa hs hpa hi]
  omega

/-- Where virtual and physical addresses are the same, so are virtual and physical pages. -/
theorem touchesFrame_of_identity (h : s.pa = s.vma) (page : Nat) : s.TouchesFrame page ↔ s.Touches page := by
  unfold TouchesFrame Touches
  rw [h]

end

end SectionDesc

/-! ## The sections of a table -/

/-- The table translates as the sections say, the last one that touches a page deciding it, and no page
that they do not touch. -/
structure Maps (memory : Nat → Word) (t : Nat) (ss : List SectionDesc) : Prop where
  mapped : ∀ s va, LastTouching ss s (pageOf va) →
    ∃ domain, walk memory t va = .smallPage (s.addrOfVa va) domain s.attributes
  unmapped : ∀ va, (∀ s ∈ ss, ¬ s.Touches (pageOf va)) → walk memory t va = .fault

section
variable {L : PageTables} {memory : Nat → Word} {t a : Nat} {s : SectionDesc} {ss ss' : List SectionDesc} {m m' : Mmu}
  {page : Nat} {va : Word} {frame : Nat → Nat}

theorem lastTouching_append : LastTouching (ss ++ ss') s page ↔
    LastTouching ss' s page ∨ LastTouching ss s page ∧ ∀ s' ∈ ss', ¬ s'.Touches page := by
  induction ss with
  | nil =>
    constructor
    · exact .inl
    · rintro (h | ⟨⟨pre, post, heq, -⟩, -⟩)
      · exact h
      · exact absurd heq.symm (by simp)
  | cons s0 ss ih =>
    rw [List.cons_append, lastTouching_cons, lastTouching_cons, ih]
    constructor
    · rintro ((h | ⟨h, hnot⟩) | ⟨rfl, htouches, hnot⟩)
      · exact .inl h
      · exact .inr ⟨.inl h, hnot⟩
      · exact .inr ⟨.inr ⟨rfl, htouches, fun s' hs' => hnot s' (List.mem_append_left _ hs')⟩,
          fun s' hs' => hnot s' (List.mem_append_right _ hs')⟩
    · rintro (h | ⟨h | ⟨rfl, htouches, hnot⟩, hnot'⟩)
      · exact .inl (.inl h)
      · exact .inl (.inr ⟨h, hnot'⟩)
      · refine .inr ⟨rfl, htouches, ?_⟩
        intro s' hs'
        rcases List.mem_append.1 hs' with hs' | hs'
        · exact hnot s' hs'
        · exact hnot' s' hs'

theorem lastTouching_of_pairwise (h : ss.Pairwise PagesApart) (hs : s ∈ ss) (htouches : s.Touches page) :
    LastTouching ss s page := by
  obtain ⟨pre, post, rfl⟩ := List.append_of_mem hs
  obtain ⟨-, hcons, -⟩ := List.pairwise_append.1 h
  exact ⟨pre, post, rfl, htouches, fun s' hs' => (List.pairwise_cons.1 hcons).1 s' hs' page htouches⟩

theorem maps_nil (h : ∀ i < 4096, memory (t + i) = 0) : Maps memory t [] := by
  constructor
  · intro s va h
    obtain ⟨s', hs', -⟩ := h.exists_touches
    exact absurd hs' List.not_mem_nil
  · intro va _
    exact walk_of_zero (h _ (by omega))

/-- A call for the same table -/
theorem Maps.filled (h : Maps m.mem t ss) (hfilled : Filled L t ss' m frame m') (hfixed : ∀ s ∈ ss', s.pa ≠ NO_PA) :
    Maps m'.mem t (ss ++ ss') := by
  constructor
  · intro s va hlast
    rcases lastTouching_append.1 hlast with h' | ⟨h', hnot⟩
    · obtain ⟨pre, post, rfl, -⟩ := id h'
      exact hfilled.fixed s va h' (hfixed s (by simp))
    · rw [hfilled.unmapped va hnot]
      exact h.mapped s va h'
  · intro va hnot
    rw [hfilled.unmapped va fun s hs => hnot s (List.mem_append_right _ hs)]
    exact h.unmapped va fun s hs => hnot s (List.mem_append_left _ hs)

theorem Maps.congr {memory' : Nat → Word} (h : Maps memory t ss) (hwalk : ∀ va, walk memory' t va = walk memory t va) :
    Maps memory' t ss := by
  constructor
  · intro s va hlast
    rw [hwalk]
    exact h.mapped s va hlast
  · intro va hnot
    rw [hwalk]
    exact h.unmapped va hnot

/-- No section of the table hides another. -/
theorem Maps.walk_eq (h : Maps memory t ss) (hapart : ss.Pairwise PagesApart) (hs : s ∈ ss)
    (htouches : s.Touches (pageOf va)) :
    ∃ domain, walk memory t va = .smallPage (s.addrOfVa va) domain s.attributes :=
  h.mapped s va (lastTouching_of_pairwise hapart hs htouches)

/-- A page that the table maps is a page of one of its sections, by its frame too. -/
theorem Maps.exists_frame (h : Maps memory t ss) (hvalid : ∀ s ∈ ss, s.Valid 32) (hfixed : ∀ s ∈ ss, s.pa ≠ NO_PA)
    (hapart : ss.Pairwise PagesApart) (hmapped : walk memory t va ≠ .fault) :
    ∃ s ∈ ss, s.TouchesFrame (pageOf (s.addrOfVa va)) ∧
      ∃ domain, walk memory t va = .smallPage (s.addrOfVa va) domain s.attributes := by
  by_contra hno
  apply hmapped
  apply h.unmapped
  intro s hs htouches
  exact hno ⟨s, hs, touchesFrame_addrOfVa (hvalid s hs) (hfixed s hs) htouches, h.walk_eq hapart hs htouches⟩

/-! ## The pool -/

/-- The same tables with a smaller pool -/
def PageTables.shrink (L : PageTables) (n : Nat) (hn : n ≤ L.table2s) : PageTables :=
  { L with
    table2s := n
    pool_lt := by have := L.pool_lt; omega
    table1_pool := by
      intro t ht
      have := L.table1_pool t ht
      omega }

/-- A call takes no more of the pool than the megabytes that it finds without a table. -/
theorem fill_growth (hinv : Inv L m) (h : FillCall L 32 t a ss m) :
    ∃ n m' frame, (∀ k, n ≤ k → mmuFillPageTables L.symbols (addrOf a) (addrOf (a + 4 * ss.length)) (addrOf t) k m =
      some m') ∧ Filled L t ss m frame m' ∧ Inv L m' ∧
      m'.wTable2Qtty.toNat ≤ m.wTable2Qtty.toNat + (megabytesOf ss).card ∧
      m'.wRamUsedPages.toNat = m.wRamUsedPages.toNat + framesOf ss ∧ ∀ i, ¬ L.Tables i → m'.mem i = m.mem i := by
  -- the bounds of `fill_run` are those of the pool, so the call is run with no more of it than it needs
  let L' := L.shrink (m.wTable2Qtty.toNat + missing m.mem t (megabytesOf ss)) h.tables
  have htables : ∀ {i}, ¬ L.Tables i → ¬ L'.Tables i := by
    rintro i hi (h1 | h2)
    · exact hi (.inl h1)
    · exact hi (.inr (Level2.mono h2 h.tables))
  have hinv' : Inv L' m :=
    ⟨Nat.le_add_right .., hinv.entry, hinv.distinct, fun w hlo hhi => hinv.unused w hlo (by
      have := h.tables
      change w < 256 * (L.pool + (m.wTable2Qtty.toNat + missing m.mem t (megabytesOf ss))) at hhi
      omega)⟩
  have hcall : FillCall L' 32 t a ss m :=
    ⟨h.table1, h.nonempty, h.valid, h.stored, h.below, fun i h1 h2 => htables (h.apart i h1 h2), Nat.le_refl _, h.ram⟩
  obtain ⟨n, m', frame, hrun, hfilled, hkept⟩ := fill_run hinv' hcall
  have hgrowth : m'.wTable2Qtty.toNat ≤ m.wTable2Qtty.toNat + missing m.mem t (megabytesOf ss) := hkept.inv.qtty
  refine ⟨n, m', frame, hrun, ?_, ?_, ?_, hkept.used, fun i hi => hkept.memory i (htables hi)⟩
  · exact ⟨hfilled.fixed, hfilled.free, hfilled.fresh, hfilled.once, hfilled.unmapped, hfilled.others⟩
  · refine ⟨Nat.le_trans hgrowth h.tables, hkept.inv.entry, hkept.inv.distinct, ?_⟩
    intro w hlo hhi
    by_cases hw : w < 256 * (L'.pool + L'.table2s)
    · exact hkept.inv.unused w hlo hw
    · -- beyond the part of the pool that the call could take
      change ¬ w < 256 * (L.pool + (m.wTable2Qtty.toNat + missing m.mem t (megabytesOf ss))) at hw
      have hout : ¬ L'.Tables w := by
        rintro (h1 | h2)
        · exact Level1.not_level2 (L := L) h1 ⟨by omega, hhi⟩
        · exact hw h2.2
      rw [hkept.memory w hout]
      exact hinv.unused w (by omega) hhi
  · exact Nat.le_trans hgrowth (Nat.add_le_add_left (Finset.card_filter_le _ _) _)

/-! ## Several tables -/

/-- Section descriptors in memory as `mmu_fill_page_tables` takes them, all with fixed physical pages -/
structure SectionTable (L : PageTables) (a : Nat) (ss : List SectionDesc) (memory : Nat → Word) : Prop where
  nonempty : ss ≠ []
  valid : ∀ s ∈ ss, s.Valid 32
  fixed : ∀ s ∈ ss, s.pa ≠ NO_PA
  stored : ∀ j, (hj : j < ss.length) → ss[j].Stored memory (a + 4 * j)
  below : 4 * (a + 4 * ss.length) < 2 ^ 31
  apart : ∀ i, a ≤ i → i < a + 4 * ss.length → ¬ L.Tables i

theorem framesOf_fixed (h : ∀ s ∈ ss, s.pa ≠ NO_PA) : framesOf ss = 0 := by
  induction ss with
  | nil => rfl
  | cons s ss ih =>
    rw [framesOf_cons, frames_fixed (h s List.mem_cons_self), ih fun s' hs' => h s' (List.mem_cons_of_mem _ hs')]

/-- Each table `t` has been filled with the sections `maps t`; at most `q` tables of the pool are taken. -/
structure Spaces (L : PageTables) (maps : Nat → List SectionDesc) (q : Nat) (m : Mmu) : Prop where
  inv : Inv L m
  maps : ∀ t ∈ L.table1s, Maps m.mem t (maps t)
  qtty : m.wTable2Qtty.toNat ≤ q
  used : m.wRamUsedPages = 0

variable {maps : Nat → List SectionDesc} {q : Nat}

theorem Spaces.start (hmem : ∀ i, L.Tables i → m.mem i = 0) (hqtty : m.wTable2Qtty = 0) (hused : m.wRamUsedPages = 0) :
    Spaces L (fun _ => []) 0 m := by
  have hbuilt : Built L 32 m := .start hmem hqtty hused
  refine ⟨hbuilt.inv, ?_, ?_, hused⟩
  · intro t ht
    exact maps_nil fun i hi => hmem _ (.inl ⟨t, ht, i, hi, rfl⟩)
  · rw [hqtty]
    exact Nat.le_refl 0

/-- Memory changes outside the tables. -/
theorem Spaces.congr (h : Spaces L maps q m) (hmem : ∀ i, L.Tables i → m'.mem i = m.mem i)
    (hqtty : m'.wTable2Qtty = m.wTable2Qtty) (hused : m'.wRamUsedPages = m.wRamUsedPages) : Spaces L maps q m' := by
  refine ⟨h.inv.congr hmem hqtty, ?_, hqtty ▸ h.qtty, hused.trans h.used⟩
  intro t ht
  exact (h.maps t ht).congr fun va => h.inv.walk_congr ht hmem

/-- A call adds its sections to those of its table, and leaves the other tables. -/
theorem Spaces.fill (h : Spaces L maps q m) (ht : t ∈ L.table1s) (hss : SectionTable L a ss m.mem)
    (hroom : q + (megabytesOf ss).card ≤ L.table2s) :
    ∃ n m', (∀ k, n ≤ k → mmuFillPageTables L.symbols (addrOf a) (addrOf (a + 4 * ss.length)) (addrOf t) k m =
      some m') ∧
      Spaces L (Function.update maps t (maps t ++ ss)) (q + (megabytesOf ss).card) m' ∧
      ∀ i, ¬ L.Tables i → m'.mem i = m.mem i := by
  have hqtty := h.qtty
  have hframes := framesOf_fixed hss.fixed
  have hused : m.wRamUsedPages.toNat = 0 := by
    rw [h.used]
    rfl
  have hmissing : missing m.mem t (megabytesOf ss) ≤ (megabytesOf ss).card := Finset.card_filter_le _ _
  have hcall : FillCall L 32 t a ss m :=
    ⟨ht, hss.nonempty, hss.valid, hss.stored, hss.below, hss.apart, by omega, by omega⟩
  obtain ⟨n, m', frame, hrun, hfilled, hinv, hgrowth, hused', hmemory⟩ := fill_growth h.inv hcall
  refine ⟨n, m', hrun, ⟨hinv, ?_, by omega, ?_⟩, hmemory⟩
  · intro t' ht'
    by_cases heq : t' = t
    · subst heq
      rw [Function.update_self]
      exact (h.maps t' ht').filled hfilled hss.fixed
    · rw [Function.update_of_ne heq]
      exact (h.maps t' ht').congr fun va => hfilled.others t' ht' heq va
  · apply BitVec.eq_of_toNat_eq
    rw [hused', hused, hframes]
    rfl

/-- Megabytes of sections that lie between two -/
theorem megabytesOf_subset {M : Finset Nat} (h : ∀ s ∈ ss, s.megabytes ⊆ M) : megabytesOf ss ⊆ M := by
  induction ss with
  | nil => exact Finset.empty_subset M
  | cons s ss ih =>
    rw [megabytesOf_cons]
    exact Finset.union_subset (h s List.mem_cons_self) (ih fun s' hs' => h s' (List.mem_cons_of_mem _ hs'))

theorem megabytes_subset {lo hi : Nat} (hs : s.Valid 32) (hlo : 2 ^ 20 * lo ≤ s.vma.toNat)
    (hhi : s.vma.toNat + s.size.toNat ≤ 2 ^ 20 * hi) : s.megabytes ⊆ Finset.Ico lo hi := by
  intro i hi'
  obtain ⟨k, hk, rfl⟩ := Finset.mem_image.1 hi'
  have hlt := lt_pageCount.1 (Finset.mem_range.1 hk)
  obtain ⟨v, hv⟩ := hs.vma
  rw [Finset.mem_Ico]
  unfold firstPage pageOf
  omega

end

end Td3.Kernel
