/-
Demand mapping: tables that `mmu_fill_page_tables` fills and `abt_handler` extends, in any order, with
stores through them in between. The two counters are shared by all tables, and what is kept of them is
this: a page of free RAM that some table maps is one below `w_ram_used_pages`, and only one page of one
table has it. So what is stored through a page is read back through it, whatever the other tables do.
-/
import Td3.Kernel.Abort
import Td3.Kernel.Isolation

namespace Td3.Kernel

open Arm PageTables SectionDesc

/-! ## Events -/

/-- The page of `va` is mapped to a physical page. -/
def MapsTo (memory : Nat → Word) (t : Nat) (va : Word) (frame : Nat) : Prop :=
  ∃ pa domain attributes, walk memory t va = .smallPage pa domain attributes ∧ pageOf pa = frame

namespace Mmu

/-- A word stored with TTBR0 at the table `t`; `none` where the walk does not end at a page. -/
def strBy (t : Nat) (va v : Word) (m : Mmu) : Option Mmu :=
  match walk m.mem t va with
  | .smallPage pa _ _ => some (m.str v pa)
  | _ => none

/-- A word loaded with TTBR0 at the table `t` -/
def ldrBy (t : Nat) (va : Word) (m : Mmu) : Option Word :=
  match walk m.mem t va with
  | .smallPage pa _ _ => some (m.ldr pa)
  | _ => none

end Mmu

inductive DemandEvent where
  /-- `mmu_fill_page_tables` is called with the sections `ss` from word `a` on, and returns in `n` labels. -/
  | fill (t a : Nat) (ss : List SectionDesc) (n : Nat)
  /-- With TTBR0 at the table `t`, an access takes a translation fault. -/
  | abort (t : Nat) (va : Word) (rw : Access)
  /-- With TTBR0 at the table `t`, a word is stored. -/
  | store (t : Nat) (va v : Word)

namespace DemandEvent

/-- The page is mapped anew. -/
def Remaps (t : Nat) (va : Word) : DemandEvent → Prop
  | fill t' _ ss _ => t' = t ∧ ∃ s ∈ ss, s.Touches (pageOf va)
  | _ => False

/-- The word is stored, through the same page. -/
def Overwrites (t : Nat) (va : Word) : DemandEvent → Prop
  | store t' va' _ => t' = t ∧ wordIndex va' = wordIndex va
  | _ => False

end DemandEvent

namespace PageTables

section
variable (L : PageTables) (testing : Bool)

/-- A physical page of free RAM -/
def FreeFrame (frame : Nat) : Prop := L.freeFrame ≤ frame ∧ frame < L.freeFrame + L.ramPages

/-- A section with fixed physical pages has none of free RAM. -/
def OutsideFreeRam (s : SectionDesc) : Prop := s.pa ≠ NO_PA → ∀ frame, s.TouchesFrame frame → ¬ L.FreeFrame frame

def demandStep (m : Mmu) : DemandEvent → Option Mmu
  | .fill t a ss n => mmuFillPageTables L.symbols (addrOf a) (addrOf (a + 4 * ss.length)) (addrOf t) n m
  | .abort t va rw =>
    if walk m.mem t va = .fault then
      some (abtHandler testing L.symbols (addrOf t) (translationFault m.mem t va) va rw m).2
    else none
  | .store t va v => m.strBy t va v

/-- The pool and free RAM are not exhausted, and only the two functions write to the tables. -/
def Allowed (m : Mmu) : DemandEvent → Prop
  | .fill t a ss _ => FillCall L 32 t a ss m ∧ ∀ s ∈ ss, L.OutsideFreeRam s
  | .abort t va _ => t ∈ L.table1s ∧ (m.mem (level1Index t va) = 0 → m.wTable2Qtty.toNat < L.table2s) ∧
    m.wRamUsedPages.toNat < L.ramPages
  | .store t va _ => t ∈ L.table1s ∧ ∀ pa domain attributes, walk m.mem t va = .smallPage pa domain attributes →
    ¬ L.Tables (wordIndex pa)

/-- The pages of free RAM that the tables map have been handed out, each to one page of one table. -/
structure Owned (m : Mmu) : Prop where
  inv : Inv L m
  used : m.wRamUsedPages.toNat ≤ L.ramPages
  handedOut : ∀ t ∈ L.table1s, ∀ va frame, MapsTo m.mem t va frame → L.FreeFrame frame →
    frame < L.freeFrame + m.wRamUsedPages.toNat
  once : ∀ t ∈ L.table1s, ∀ t' ∈ L.table1s, ∀ va va' frame, MapsTo m.mem t va frame → MapsTo m.mem t' va' frame →
    L.FreeFrame frame → t = t' ∧ pageOf va = pageOf va'

end

end PageTables

section
variable {L : PageTables} {testing : Bool} {m m' : Mmu} {t : Nat} {va : Word} {ss : List SectionDesc}
  {frame : Nat → Nat} {e : DemandEvent}

/-! ## Filling -/

theorem exists_lastTouching {page : Nat} (h : ∃ s ∈ ss, s.Touches page) : ∃ s, LastTouching ss s page := by
  induction ss with
  | nil =>
    obtain ⟨s, hs, -⟩ := h
    exact absurd hs List.not_mem_nil
  | cons s0 ss ih =>
    by_cases hrest : ∃ s ∈ ss, s.Touches page
    · obtain ⟨s, hlast⟩ := ih hrest
      exact ⟨s, lastTouching_cons.2 (.inl hlast)⟩
    · obtain ⟨s, hs, htouches⟩ := h
      rcases List.mem_cons.1 hs with rfl | hs
      · exact ⟨s, lastTouching_cons.2 (.inr ⟨rfl, htouches, fun s' hs' ht' => hrest ⟨s', hs', ht'⟩⟩)⟩
      · exact absurd ⟨s, hs, htouches⟩ hrest

theorem MapsTo.congr {memory memory' : Nat → Word} (hwalk : walk memory' t va = walk memory t va) {frame : Nat} :
    MapsTo memory' t va frame ↔ MapsTo memory t va frame := by
  unfold MapsTo
  rw [hwalk]

/-- Whatever page of free RAM is mapped after a filling was mapped before it, or has just been handed out. -/
theorem Filled.mapsTo (hfilled : Filled L t ss m frame m') (hvalid : ∀ s ∈ ss, s.Valid 32)
    (houtside : ∀ s ∈ ss, L.OutsideFreeRam s) (hram : m'.wRamUsedPages.toNat ≤ L.ramPages) {t' f : Nat}
    (ht' : t' ∈ L.table1s) (hmaps : MapsTo m'.mem t' va f) (hfree : L.FreeFrame f) :
    MapsTo m.mem t' va f ∨ t' = t ∧ ∃ s, LastTouching ss s (pageOf va) ∧ s.pa = NO_PA ∧
      f = L.freeFrame + frame (pageOf va) := by
  by_cases heq : t' = t
  · subst heq
    by_cases htouched : ∃ s ∈ ss, s.Touches (pageOf va)
    · -- the last section that has the page decides what it is mapped to
      obtain ⟨s, hlast⟩ := exists_lastTouching htouched
      obtain ⟨pre, post, rfl, htouches, -⟩ := id hlast
      have hs : s ∈ pre ++ s :: post := by simp
      obtain ⟨pa, domain, attributes, hwalk, rfl⟩ := hmaps
      by_cases hpa : s.pa = NO_PA
      · obtain ⟨domain', hwalk'⟩ := hfilled.free s va hlast hpa
        have hlt := (hfilled.fresh s _ hlast hpa).2
        have hend := L.ram_lt
        rw [hwalk] at hwalk'
        injection hwalk' with haddr
        refine .inr ⟨rfl, s, hlast, hpa, ?_⟩
        rw [haddr, freePage, pageOf, BitVec.toNat_ofNat]
        omega
      · obtain ⟨domain', hwalk'⟩ := hfilled.fixed s va hlast hpa
        rw [hwalk] at hwalk'
        injection hwalk' with haddr
        rw [haddr] at hfree
        exact absurd hfree (houtside s hs hpa _ (touchesFrame_addrOfVa (hvalid s hs) hpa htouches))
    · refine .inl ((MapsTo.congr (hfilled.unmapped va fun s hs htouches => ?_)).1 hmaps)
      exact htouched ⟨s, hs, htouches⟩
  · exact .inl ((MapsTo.congr (hfilled.others t' ht' heq va)).1 hmaps)

/-- What a filling hands out is beyond what the tables have. -/
theorem PageTables.Owned.filled (h : L.Owned m) (hfilled : Filled L t ss m frame m') (hvalid : ∀ s ∈ ss, s.Valid 32)
    (houtside : ∀ s ∈ ss, L.OutsideFreeRam s) (hinv : Inv L m') (hram : m'.wRamUsedPages.toNat ≤ L.ramPages)
    (hmono : m.wRamUsedPages.toNat ≤ m'.wRamUsedPages.toNat) : L.Owned m' := by
  refine ⟨hinv, hram, ?_, ?_⟩
  · intro t1 ht1 va f hmaps hfree
    rcases hfilled.mapsTo hvalid houtside hram ht1 hmaps hfree with hold | ⟨rfl, s, hlast, hpa, rfl⟩
    · have := h.handedOut t1 ht1 va f hold hfree
      omega
    · have := (hfilled.fresh s _ hlast hpa).2
      omega
  · intro t1 ht1 t2 ht2 va1 va2 f hmaps1 hmaps2 hfree
    rcases hfilled.mapsTo hvalid houtside hram ht1 hmaps1 hfree with hold1 | ⟨rfl, s1, hlast1, hpa1, rfl⟩
    · rcases hfilled.mapsTo hvalid houtside hram ht2 hmaps2 hfree with hold2 | ⟨rfl, s2, hlast2, hpa2, rfl⟩
      · exact h.once t1 ht1 t2 ht2 va1 va2 f hold1 hold2 hfree
      · -- one page was there, and the other has just been handed out
        have := h.handedOut t1 ht1 va1 _ hold1 hfree
        have := (hfilled.fresh s2 _ hlast2 hpa2).1
        omega
    · rcases hfilled.mapsTo hvalid houtside hram ht2 hmaps2 hfree with hold2 | ⟨rfl, s2, hlast2, hpa2, heq⟩
      · have := h.handedOut t2 ht2 va2 _ hold2 hfree
        have := (hfilled.fresh s1 _ hlast1 hpa1).1
        omega
      · exact ⟨rfl, hfilled.once s1 s2 _ _ hlast1 hpa1 hlast2 hpa2 (by omega)⟩

/-! ## Steps -/

/-- What an event does to the tables: a store nothing, and the two functions fill a table. -/
theorem demandStep_cases (h : Inv L m) (hallowed : L.Allowed m e) (hstep : L.demandStep testing m e = some m') :
    (∃ t va v pa domain attributes, e = .store t va v ∧ walk m.mem t va = .smallPage pa domain attributes ∧
      m' = m.str v pa) ∨
    ∃ t ss frame, Filled L t ss m frame m' ∧ (∀ s ∈ ss, s.Valid 32) ∧ (∀ s ∈ ss, L.OutsideFreeRam s) ∧ Inv L m' ∧
      m'.wRamUsedPages.toNat ≤ L.ramPages ∧ m.wRamUsedPages.toNat ≤ m'.wRamUsedPages.toNat ∧
      (∀ i, ¬ L.Tables i → m'.mem i = m.mem i) ∧
      ((∃ a n, e = .fill t a ss n) ∨
        ∃ va rw, e = .abort t va rw ∧ walk m.mem t va = .fault ∧ ss = [demandSection va] ∧
          m' = m.mmuFillPteFromVma L.symbols (addrOf t) va) := by
  cases e with
  | fill t a ss n =>
    obtain ⟨hcall, houtside⟩ := hallowed
    obtain ⟨frame, hfilled, hkept⟩ := fill_of_returned h hcall hstep
    have hused := hkept.used
    have hram := hcall.ram
    exact .inr ⟨t, ss, frame, hfilled, hcall.valid, houtside, hkept.inv, by omega, by omega, hkept.memory,
      .inl ⟨a, n, rfl⟩⟩
  | abort t va rw =>
    obtain ⟨ht, hroom, hram⟩ := hallowed
    rw [demandStep, abtHandler_translationFault] at hstep
    obtain ⟨hfault, heq⟩ := Option.ite_none_right_eq_some.1 hstep
    obtain rfl := Option.some.inj heq
    obtain ⟨frame, hfilled, hinv, hused, hmemory⟩ := mmuFillPteFromVma_spec h ht hroom hram
    refine .inr ⟨t, [demandSection va], frame, hfilled, ?_, ?_, hinv, ?_, ?_, hmemory,
      .inr ⟨va, rw, rfl, hfault, rfl, rfl⟩⟩
    · intro s hs
      obtain rfl := List.mem_singleton.1 hs
      exact demandSection_valid va
    · intro s hs hpa
      obtain rfl := List.mem_singleton.1 hs
      exact absurd rfl hpa
    · show (m.mmuFillPteFromVma L.symbols (addrOf t) va).wRamUsedPages.toNat ≤ _
      omega
    · show _ ≤ (m.mmuFillPteFromVma L.symbols (addrOf t) va).wRamUsedPages.toNat
      omega
  | store t va v =>
    rw [demandStep, Mmu.strBy] at hstep
    split at hstep
    case h_1 pa domain attributes hwalk =>
      exact .inl ⟨t, va, v, pa, domain, attributes, rfl, hwalk, (Option.some.inj hstep).symm⟩
    case h_2 => cases hstep

theorem str_tables {pa v : Word} (hpa : ¬ L.Tables (wordIndex pa)) (i : Nat) (hi : L.Tables i) :
    (m.str v pa).mem i = m.mem i := by
  refine Function.update_of_ne ?_ ..
  rintro rfl
  exact hpa hi

theorem walk_str {pa v : Word} (h : Inv L m) (hpa : ¬ L.Tables (wordIndex pa)) (ht : t ∈ L.table1s) :
    walk (m.str v pa).mem t va = walk m.mem t va :=
  h.walk_congr ht (str_tables hpa)

/-- Every event keeps which page has what. -/
theorem PageTables.Owned.step (h : L.Owned m) (hallowed : L.Allowed m e)
    (hstep : L.demandStep testing m e = some m') : L.Owned m' := by
  rcases demandStep_cases h.inv hallowed hstep with
    ⟨t, va, v, pa, domain, attributes, rfl, hwalk, rfl⟩ |
      ⟨t, ss, frame, hfilled, hvalid, houtside, hinv, hram, hmono, -⟩
  · have hpa := hallowed.2 pa domain attributes hwalk
    refine ⟨h.inv.congr (str_tables hpa) rfl, h.used, ?_, ?_⟩
    · intro t1 ht1 va1 f hmaps
      exact h.handedOut t1 ht1 va1 f ((MapsTo.congr (walk_str h.inv hpa ht1)).1 hmaps)
    · intro t1 ht1 t2 ht2 va1 va2 f hmaps1 hmaps2
      exact h.once t1 ht1 t2 ht2 va1 va2 f ((MapsTo.congr (walk_str h.inv hpa ht1)).1 hmaps1)
        ((MapsTo.congr (walk_str h.inv hpa ht2)).1 hmaps2)
  · exact h.filled hfilled hvalid houtside hinv hram hmono

/-- A page that is mapped stays as it is until it is mapped anew. -/
theorem demandStep_walk (h : L.Owned m) (hallowed : L.Allowed m e) (hstep : L.demandStep testing m e = some m')
    (ht : t ∈ L.table1s) (hkeeps : ¬ e.Remaps t va) (hmapped : walk m.mem t va ≠ .fault) :
    walk m'.mem t va = walk m.mem t va := by
  rcases demandStep_cases h.inv hallowed hstep with
    ⟨t', va', v, pa, domain, attributes, rfl, hwalk, rfl⟩ |
      ⟨t', ss, frame, hfilled, -, -, -, -, -, -, ⟨a, n, rfl⟩ | ⟨va', rw, rfl, hfault, rfl, -⟩⟩
  · exact walk_str h.inv (hallowed.2 pa domain attributes hwalk) ht
  · by_cases heq : t = t'
    · subst heq
      exact hfilled.unmapped va fun s hs htouches => hkeeps ⟨rfl, s, hs, htouches⟩
    · exact hfilled.others t ht heq va
  · by_cases heq : t = t'
    · subst heq
      refine hfilled.unmapped va fun s hs htouches => hmapped ?_
      -- the only page that is filled is one that faults
      obtain rfl := List.mem_singleton.1 hs
      exact walk_fault_samePage ((demandSection_touches va' _).1 htouches) hfault
    · exact hfilled.others t ht heq va

/-! ## The handler -/

/-- The page of `va` is mapped to that of `pa`, one of free RAM that no other page has, and every access to
it translates. -/
structure PageTables.Exclusive (L : PageTables) (t : Nat) (va pa : Word) (m : Mmu) : Prop where
  translates : ∃ domain, walk m.mem t va = .smallPage pa domain (demandSection va).attributes
  accessible : ∀ c : Cp15, c.Uses t → ∀ privileged access, c.translate m.mem privileged access va = some pa
  free : L.FreeFrame (pageOf pa)
  alone : ∀ t' ∈ L.table1s, ∀ va', MapsTo m.mem t' va' (pageOf pa) → t' = t ∧ pageOf va' = pageOf va

theorem demandSection_permits (va : Word) (privileged : Bool) (access : Access) :
    permits (demandSection va).attributes.ap privileged access = true := by
  have hall : ∀ privileged access, permits (AP_RW_RW.setWidth 3) privileged access = true := by
    intro privileged access
    cases privileged <;> cases access <;> decide
  exact hall privileged access

theorem PageTables.Owned.exclusive (h : L.Owned m) {pa : Word} {domain : BitVec 4} (ht : t ∈ L.table1s)
    (hwalk : walk m.mem t va = .smallPage pa domain (demandSection va).attributes) (hfree : L.FreeFrame (pageOf pa)) :
    L.Exclusive t va pa m := by
  refine ⟨⟨domain, hwalk⟩, ?_, hfree, ?_⟩
  · intro c hc privileged access
    exact hc.translate hwalk (demandSection_permits va privileged access)
  · intro t' ht' va' hmaps
    exact h.once t' ht' t ht va' va _ hmaps ⟨pa, domain, _, hwalk, rfl⟩ hfree

variable (testing) in
/-- The page of a fault gets one of free RAM for itself, and what was mapped before is as it was. -/
theorem PageTables.Owned.demand (h : L.Owned m) {rw : Access} (hallowed : L.Allowed m (.abort t va rw))
    (hfault : walk m.mem t va = .fault) :
    ∃ m' pa, abtHandler testing L.symbols (addrOf t) (translationFault m.mem t va) va rw m = (RETURN_TO_SAME, m') ∧
      L.Owned m' ∧ L.Exclusive t va pa m' ∧
      ∀ t' ∈ L.table1s, ∀ va', walk m.mem t' va' ≠ .fault → walk m'.mem t' va' = walk m.mem t' va' := by
  obtain ⟨ht, hroom, hram⟩ := id hallowed
  obtain ⟨frame, hfilled, hinv, hused, hmemory⟩ := mmuFillPteFromVma_spec h.inv ht hroom hram
  have hstep : L.demandStep testing m (.abort t va rw) = some (m.mmuFillPteFromVma L.symbols (addrOf t) va) := by
    rw [demandStep, if_pos hfault, abtHandler_translationFault]
  have howned := h.step hallowed hstep
  have hlast : LastTouching [demandSection va] (demandSection va) (pageOf va) :=
    ⟨[], [], rfl, (demandSection_touches va _).2 rfl, fun s hs => absurd hs List.not_mem_nil⟩
  obtain ⟨domain, hwalk⟩ := hfilled.free _ va hlast rfl
  obtain ⟨hlo, hhi⟩ := hfilled.fresh _ _ hlast rfl
  have hend := L.ram_lt
  have hframe : pageOf (L.freePage (frame (pageOf va)) va) = L.freeFrame + frame (pageOf va) := by
    rw [freePage, pageOf, BitVec.toNat_ofNat]
    omega
  have hfree : L.FreeFrame (pageOf (L.freePage (frame (pageOf va)) va)) := by
    rw [hframe]
    unfold FreeFrame
    omega
  refine ⟨_, _, abtHandler_translationFault .., howned, howned.exclusive ht hwalk hfree, ?_⟩
  intro t' ht' va' hmapped
  exact demandStep_walk h hallowed hstep ht' id hmapped

/-- The page keeps its physical page, and remains alone with it, until it is mapped anew. -/
theorem PageTables.Exclusive.run {pa : Word} (h : L.Exclusive t va pa m) (howned : L.Owned m) (ht : t ∈ L.table1s)
    (hrun : Run (L.demandStep testing) (fun m e => L.Allowed m e ∧ ¬ e.Remaps t va) m m') :
    L.Owned m' ∧ L.Exclusive t va pa m' := by
  obtain ⟨domain, hwalk⟩ := h.translates
  have hinv := hrun.invariant (P := fun m => L.Owned m ∧
    walk m.mem t va = .smallPage pa domain (demandSection va).attributes) ⟨howned, hwalk⟩ ?_
  · exact ⟨hinv.1, hinv.1.exclusive ht hinv.2 h.free⟩
  · rintro m1 e m2 ⟨howned1, hwalk1⟩ ⟨hallowed, hkeeps⟩ hstep
    have hmapped : walk m1.mem t va ≠ .fault := by
      rw [hwalk1]
      simp
    exact ⟨howned1.step hallowed hstep, (demandStep_walk howned1 hallowed hstep ht hkeeps hmapped).trans hwalk1⟩

/-! ## Reading back -/

theorem pageOf_wordIndex (va : Word) : pageOf va = wordIndex va / 1024 := by
  unfold pageOf wordIndex
  omega

/-- Two walks that end in one word of free RAM are those of one word. -/
theorem PageTables.Owned.word_inj (h : L.Owned m) {t' : Nat} {va' pa pa' : Word} {domain domain' : BitVec 4}
    {attributes attributes' : PageAttributes} (ht : t ∈ L.table1s) (ht' : t' ∈ L.table1s)
    (hwalk : walk m.mem t va = .smallPage pa domain attributes)
    (hwalk' : walk m.mem t' va' = .smallPage pa' domain' attributes') (hfree : L.FreeFrame (pageOf pa))
    (heq : wordIndex pa' = wordIndex pa) : t' = t ∧ wordIndex va' = wordIndex va := by
  have hframe : pageOf pa' = pageOf pa := by rw [pageOf_wordIndex, pageOf_wordIndex, heq]
  obtain ⟨htable, hpage⟩ := h.once t' ht' t ht va' va (pageOf pa) ⟨pa', domain', attributes', hwalk', hframe⟩
    ⟨pa, domain, attributes, hwalk, rfl⟩ hfree
  refine ⟨htable, ?_⟩
  have hoffset := walk_offset hwalk
  have hoffset' := walk_offset hwalk'
  unfold pageOf at hpage
  unfold wordIndex at heq ⊢
  omega

variable (testing) in
/-- A word stored through a page with free RAM is read back until it is stored through this page again, or
the page is mapped anew. -/
theorem PageTables.Owned.readBack (hapart : ∀ w, L.Tables w → ¬ L.FreeFrame (w / 1024)) (h : L.Owned m) {pa v : Word}
    {domain : BitVec 4} {attributes : PageAttributes} (ht : t ∈ L.table1s)
    (hwalk : walk m.mem t va = .smallPage pa domain attributes) (hfree : L.FreeFrame (pageOf pa)) :
    ∃ m1, m.strBy t va v = some m1 ∧ ∀ m2, Run (L.demandStep testing)
      (fun m e => L.Allowed m e ∧ ¬ e.Remaps t va ∧ ¬ e.Overwrites t va) m1 m2 → m2.ldrBy t va = some v := by
  have htables : ¬ L.Tables (wordIndex pa) := by
    intro hpa
    rw [pageOf_wordIndex] at hfree
    exact hapart _ hpa hfree
  have hstored : m.strBy t va v = some (m.str v pa) := by
    rw [Mmu.strBy, hwalk]
  refine ⟨m.str v pa, hstored, ?_⟩
  intro m2 hrun
  have hinv : L.Owned m2 ∧ walk m2.mem t va = .smallPage pa domain attributes ∧ m2.mem (wordIndex pa) = v := by
    have hallowed : L.Allowed m (.store t va v) := by
      refine ⟨ht, ?_⟩
      intro pa' domain' attributes' hwalk'
      rw [hwalk] at hwalk'
      injection hwalk' with hpa
      rw [← hpa]
      exact htables
    have hstep : L.demandStep testing m (.store t va v) = some (m.str v pa) := hstored
    have howned := h.step hallowed hstep
    refine hrun.invariant (P := fun m => L.Owned m ∧ walk m.mem t va = .smallPage pa domain attributes ∧
      m.mem (wordIndex pa) = v) ⟨howned, ?_, Function.update_self ..⟩ ?_
    · rw [walk_str h.inv htables ht, hwalk]
    · rintro m3 e m4 ⟨howned, hwalk3, hvalue⟩ ⟨hallowed, hkeeps, hnot⟩ hstep
      have hmapped : walk m3.mem t va ≠ .fault := by
        rw [hwalk3]
        simp
      refine ⟨howned.step hallowed hstep, (demandStep_walk howned hallowed hstep ht hkeeps hmapped).trans hwalk3, ?_⟩
      rcases demandStep_cases howned.inv hallowed hstep with
        ⟨t', va', v', pa', domain', attributes', rfl, hwalk', rfl⟩ | ⟨t', ss, frame, -, -, -, -, -, -, hmemory, -⟩
      · refine (Function.update_of_ne ?_ ..).trans hvalue
        -- a store to the same word goes through the same page of the same table
        intro heq
        exact hnot (howned.word_inj ht hallowed.1 hwalk3 hwalk' hfree heq.symm)
      · -- the two functions write to the tables only
        exact (hmemory _ htables).trans hvalue
  rw [Mmu.ldrBy, hinv.2.1]
  exact congrArg some hinv.2.2

/-- What is stored in the page of `va` is read back until it is stored there again through this page, or the
page is mapped anew. -/
def PageTables.ReadsBack (L : PageTables) (testing : Bool) (allowed : Mmu → DemandEvent → Prop) (t : Nat) (va : Word)
    (m : Mmu) : Prop :=
  ∀ va1 v, pageOf va1 = pageOf va → ∃ m1, m.strBy t va1 v = some m1 ∧ ∀ m2, Run (L.demandStep testing)
    (fun m e => allowed m e ∧ ¬ e.Remaps t va ∧ ¬ e.Overwrites t va1) m1 m2 → m2.ldrBy t va1 = some v

variable (testing) in
theorem PageTables.Exclusive.readsBack {pa : Word} (h : L.Exclusive t va pa m) (howned : L.Owned m)
    (ht : t ∈ L.table1s) (hapart : ∀ w, L.Tables w → ¬ L.FreeFrame (w / 1024)) :
    L.ReadsBack testing L.Allowed t va m := by
  intro va1 v hpage
  obtain ⟨domain, hwalk⟩ := h.translates
  have hwalk1 := walk_samePage hpage hwalk
  have hframe : pageOf (BitVec.ofNat 32 (pa.toNat / 2 ^ 12 * 2 ^ 12 + va1.toNat % 2 ^ 12)) = pageOf pa := by
    unfold pageOf
    rw [BitVec.toNat_ofNat]
    omega
  obtain ⟨m1, hstored, hback⟩ := howned.readBack testing hapart ht hwalk1 (hframe ▸ h.free)
  refine ⟨m1, hstored, fun m2 hrun => hback m2 (hrun.mono ?_)⟩
  rintro m3 e ⟨hallowed, hkeeps, hnot⟩
  refine ⟨hallowed, fun hremaps => hkeeps ?_, hnot⟩
  cases e with
  | fill t' a ss n =>
    rw [DemandEvent.Remaps, ← hpage]
    exact hremaps
  | abort t' va' rw => exact hremaps
  | store t' va' v' => exact hremaps

/-! ## Runs -/

/-- Empty tables -/
theorem owned_start (hmem : ∀ i, L.Tables i → m.mem i = 0) (hqtty : m.wTable2Qtty = 0) (hused : m.wRamUsedPages = 0) :
    L.Owned m := by
  have hnone : ∀ t ∈ L.table1s, ∀ va frame, ¬ MapsTo m.mem t va frame := by
    rintro t ht va frame ⟨pa, domain, attributes, hwalk, -⟩
    rw [walk_of_zero (hmem _ (.inl (level1_index ht va)))] at hwalk
    cases hwalk
  have hbuilt : Built L 32 m := .start hmem hqtty hused
  refine ⟨hbuilt.inv, ?_, ?_, ?_⟩
  · rw [hused]
    exact Nat.zero_le _
  · intro t ht va frame hmaps
    exact absurd hmaps (hnone t ht va frame)
  · intro t ht t' ht' va va' frame hmaps
    exact absurd hmaps (hnone t ht va frame)

theorem owned_run (h : L.Owned m) (hrun : Run (L.demandStep testing) L.Allowed m m') : L.Owned m' :=
  hrun.invariant h fun _ _ _ => PageTables.Owned.step

end

end Td3.Kernel
