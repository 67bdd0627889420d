/-
What the tasks can do to memory once the system has booted. The tasks run in user mode, each with TTBR0
at its own table, and load and store bytes at any address in any order; an access that aborts is left
to `abt_handler`, with or without ENABLE_MEMORY_MAPPING_FROM_ABORT; in between the kernel writes to its
own sections and to the devices, but not to the tables. A byte of a page that is a task's own changes
by that task's stores only, and what no user access may store to changes by the kernel only.
-/
import Td3.Kernel.DemandBuild

namespace Td3.Kernel

open Arm PageTables SectionDesc

/-! ## Steps -/

inductive UserEvent where
  /-- A task stores the low byte of `v` (`strb`), with TTBR0 at the table `t`. -/
  | store (t : Nat) (va v : Word)
  /-- A task loads a byte (`ldrb`). -/
  | load (t : Nat) (va : Word)
  /-- The kernel stores a word. -/
  | kernel (i : Nat) (v : Word)

section
variable (k : Link) (c : Cp15) (mapping : Bool)

/-- With TTBR0 at the table `t` -/
def taskCp15 (t : Nat) : Cp15 := { c with ttbr0 := addrOf t }

/-- What DFSR says of an access that aborts -/
def userFault (memory : Nat → Word) (t : Nat) (va : Word) : DataFault :=
  if walk memory t va = .fault then translationFault memory t va else .permissionPage

/-- The access is to be executed again after `abt_handler`; without ENABLE_MEMORY_MAPPING_FROM_ABORT that does
nothing. -/
def userAbort (t : Nat) (va : Word) (rw : Access) (m : Mmu) : Mmu :=
  if mapping then (abtHandler false k.mmuSymbols (addrOf t) (userFault m.mem t va) va rw m).2 else m

def userStep (m : Mmu) : UserEvent → Option Mmu
  | .store t va v =>
    match (taskCp15 c t).strb m.mem false v va with
    | some mem => some { m with mem := mem }
    | none => some (userAbort k mapping t va .store m)
  | .load t va =>
    match (taskCp15 c t).ldrb m.mem false va with
    | some _ => some m
    | none => some (userAbort k mapping t va .load m)
  | .kernel i v => some { m with mem := Function.update m.mem i v }

/-- The tables in use in user mode, each with its sections -/
def Link.taskSpaces (k : Link) : List (Nat × List SectionDesc) :=
  [(k.task1.table1, k.taskMap k.task1Sections), (k.task2.table1, k.taskMap k.task2Sections)]

def Link.taskTables (k : Link) : List Nat := k.taskSpaces.map Prod.fst

variable {k} in
/-- The pool and free RAM are not exhausted, and the kernel stores to what is mapped for it, but for the
tables. -/
def UserEvent.Allowed (h : k.Linked) (m : Mmu) : UserEvent → Prop
  | .store t va _ => t ∈ k.taskTables ∧
    (mapping = true → walk m.mem t va = .fault → (k.pageTables h).Allowed m (.abort t va .store))
  | .load t va => t ∈ k.taskTables ∧
    (mapping = true → walk m.mem t va = .fault → (k.pageTables h).Allowed m (.abort t va .load))
  | .kernel i _ => (∃ s ∈ k.kernelMap, s.Holds i) ∧ ¬ (k.pageTables h).Tables i

/-- The page is not mapped for the kernel, so what a task has there is its own. -/
def Link.OwnPage (k : Link) (va : Word) : Prop := ∀ s ∈ k.kernelMap, ¬ s.Touches (pageOf va)

/-- The task stores to this address. -/
def UserEvent.StoresTo (t : Nat) (va : Word) : UserEvent → Prop
  | .store t' va' _ => t' = t ∧ va' = va
  | _ => False

/-- The kernel stores to this word. -/
def UserEvent.KernelStoresTo (i : Nat) : UserEvent → Prop
  | .kernel i' _ => i' = i
  | _ => False

end

/-! ## The physical pages of a table -/

section
variable {k : Link}

theorem taskSpaces_addressSpaces {p : Nat × List SectionDesc} (hp : p ∈ k.taskSpaces) : p ∈ k.addressSpaces :=
  List.mem_cons_of_mem _ hp

theorem taskTables_taskSpaces {t : Nat} (ht : t ∈ k.taskTables) : ∃ p ∈ k.taskSpaces, p.1 = t :=
  List.mem_map.1 ht

theorem taskTables_table1s (h : k.Linked) {t : Nat} (ht : t ∈ k.taskTables) : t ∈ (k.pageTables h).table1s :=
  List.mem_cons_of_mem _ ht

/-- The devices' frames are below ROM, and the tasks' are not. -/
theorem Link.Task.map_framesApart (h : k.Linked) (hd : k.KernelApart) (T : k.Task)
    (hT : T.sections.Pairwise FramesApart) : (k.taskMap T.sections).Pairwise FramesApart := by
  refine List.pairwise_append.2 ⟨Link.kernelMap_framesApart h hd, hT, ?_⟩
  intro s hs s' hs'
  rcases List.mem_append.1 hs with hs | hs
  · exact T.apart s hs s' hs'
  · have hend := (Link.hardware_between s hs).2
    have hin := T.inTask s' hs'
    have hstart := hin.le_pa
    exact framesApart_of_le hin.pa (by omega)

theorem addressSpaces_framesApart (h : k.Linked) (hd : k.FramesDisjoint) :
    ∀ p ∈ k.addressSpaces, p.2.Pairwise FramesApart := by
  intro p hp
  simp only [Link.addressSpaces, List.mem_cons, List.not_mem_nil, or_false] at hp
  rcases hp with rfl | rfl | rfl
  · exact Link.kernelMap_framesApart h hd.kernelApart
  · exact (Link.firstTask h hd.kernelApart).map_framesApart h hd.kernelApart (Link.FramesDisjoint.task1 hd)
  · exact (Link.secondTask h hd.kernelApart).map_framesApart h hd.kernelApart (Link.FramesDisjoint.task2 hd)

/-- Of sections apart, one has a frame. -/
theorem section_unique {ss : List SectionDesc} (h : ss.Pairwise FramesApart) {s s' : SectionDesc} (hs : s ∈ ss)
    (hs' : s' ∈ ss) {frame : Nat} (hf : s.TouchesFrame frame) (hf' : s'.TouchesFrame frame) : s = s' := by
  by_contra hne
  have hsymm : Std.Symm FramesApart := ⟨fun _ _ => FramesApart.symm⟩
  exact h.forall hs hs' hne frame hf hf'

/-! ## Where an access goes -/

theorem translate_some {c : Cp15} {t : Nat} (hc : c.Uses t) {memory : Nat → Word} {privileged : Bool} {access : Access}
    {va pa : Word} (h : c.translate memory privileged access va = some pa) :
    ∃ domain attributes, walk memory t va = .smallPage pa domain attributes ∧
      permits attributes.ap privileged access = true := by
  rw [Cp15.translate, if_pos hc.on, hc.table1] at h
  split at h
  · rename_i pa' domain attributes hwalk
    rw [if_pos (hc.client domain)] at h
    obtain ⟨hap, hpa⟩ := Option.ite_none_right_eq_some.1 h
    cases hpa
    exact ⟨domain, attributes, hwalk, hap⟩
  · cases h

/-- Where a user may store, a user may load. -/
theorem permits_load {ap : BitVec 3} (h : permits ap false .store = true) : permits ap false .load = true := by
  revert h
  revert ap
  decide

theorem demandSection_attributes (va va' : Word) : (demandSection va).attributes = (demandSection va').attributes := by
  unfold demandSection SectionDesc.attributes
  rfl

/-- The frame of an address is one of a section of the table, where the section has the address, or one of
free RAM. -/
inductive Backed (h : k.Linked) (ss : List SectionDesc) (va pa : Word) (attributes : PageAttributes) : Prop where
  | ofSection (s : SectionDesc) (mem : s ∈ ss) (touches : s.Touches (pageOf va)) (addr : pa = s.addrOfVa va)
    (attr : attributes = s.attributes)
  | ofFreeRam (free : (k.pageTables h).FreeFrame (pageOf pa))

/-- After the boot, a page is as it was then, or is one that the handler has mapped since. -/
structure UserInv (h : k.Linked) (m0 m : Mmu) : Prop where
  owned : (k.pageTables h).Owned m
  walks : ∀ p ∈ k.addressSpaces, ∀ va, walk m.mem p.1 va = walk m0.mem p.1 va ∨ walk m0.mem p.1 va = .fault ∧
    ∃ pa domain, walk m.mem p.1 va = .smallPage pa domain (demandSection va).attributes ∧
      (k.pageTables h).FreeFrame (pageOf pa)

section
variable {h : k.Linked} {m0 m m' : Mmu} {p p' : Nat × List SectionDesc} {va va' pa pa' : Word}
  {domain domain' : BitVec 4} {attributes attributes' : PageAttributes}

theorem UserInv.backed (hinv : UserInv h m0 m) (hd : k.FramesDisjoint)
    (hmaps : ∀ p ∈ k.addressSpaces, Maps m0.mem p.1 p.2) (hp : p ∈ k.addressSpaces)
    (hwalk : walk m.mem p.1 va = .smallPage pa domain attributes) :
    Backed h p.2 va pa attributes := by
  rcases hinv.walks p hp va with hsame | ⟨-, pa', domain', hnew, hfree⟩
  · rw [hsame] at hwalk
    by_cases htouched : ∃ s ∈ p.2, s.Touches (pageOf va)
    · obtain ⟨s, hs, htouches⟩ := htouched
      obtain ⟨domain', hwalk'⟩ := (hmaps p hp).walk_eq (addressSpaces_pagesApart h hd.kernelApart hp).1 hs htouches
      rw [hwalk] at hwalk'
      injection hwalk' with hpa _ hattr
      exact .ofSection s hs htouches hpa hattr
    · rw [(hmaps p hp).unmapped va fun s hs htouches => htouched ⟨s, hs, htouches⟩] at hwalk
      cases hwalk
  · rw [hwalk] at hnew
    injection hnew with hpa
    rw [← hpa] at hfree
    exact .ofFreeRam hfree

theorem section_frame (hd : k.FramesDisjoint) (hp : p ∈ k.addressSpaces) {s : SectionDesc} (hs : s ∈ p.2)
    (htouches : s.Touches (pageOf va)) :
    s.TouchesFrame (pageOf (s.addrOfVa va)) ∧ ¬ (k.pageTables h).FreeFrame (pageOf (s.addrOfVa va)) := by
  obtain ⟨⟨hvalid, hfixed⟩, houtside⟩ := addressSpaces_outside h hd.kernelApart p hp s hs
  have hframe := touchesFrame_addrOfVa hvalid hfixed htouches
  exact ⟨hframe, houtside hfixed _ hframe⟩

/-- A section has each physical address once. -/
theorem addrOfVa_injective {s : SectionDesc} (heq : s.addrOfVa va = s.addrOfVa va') : va = va' := by
  unfold addrOfVa at heq
  have hsub := (BitVec.add_right_inj s.pa).1 heq
  exact (BitVec.sub_left_inj s.vma).1 hsub

/-- A user stores to no frame of a section that users may not store to. -/
theorem UserInv.store_outside (hinv : UserInv h m0 m) (hd : k.FramesDisjoint)
    (hmaps : ∀ p ∈ k.addressSpaces, Maps m0.mem p.1 p.2) (hp : p ∈ k.addressSpaces)
    (hwalk : walk m.mem p.1 va = .smallPage pa domain attributes) (hap : permits attributes.ap false .store = true)
    {s : SectionDesc} (hs : s ∈ k.kernelMap) (hno : permits s.attributes.ap false .store = false) :
    ¬ s.TouchesFrame (pageOf pa) := by
  have hs' : s ∈ p.2 := (addressSpaces_pagesApart h hd.kernelApart hp).2 hs
  intro hframe
  cases hinv.backed hd hmaps hp hwalk with
  | ofSection s1 hmem htouches hpa hattr =>
    subst hpa hattr
    have heq := section_unique (addressSpaces_framesApart h hd p hp) hs' hmem hframe
      (section_frame (h := h) hd hp hmem htouches).1
    rw [heq, hap] at hno
    cases hno
  | ofFreeRam hfree =>
    obtain ⟨⟨-, hfixed⟩, houtside⟩ := addressSpaces_outside h hd.kernelApart p hp s hs'
    exact houtside hfixed _ hframe hfree

/-- So the tables are out of the users' reach. -/
theorem UserInv.store_not_table (hinv : UserInv h m0 m) (hd : k.FramesDisjoint)
    (hmaps : ∀ p ∈ k.addressSpaces, Maps m0.mem p.1 p.2) (hp : p ∈ k.addressSpaces)
    (hwalk : walk m.mem p.1 va = .smallPage pa domain attributes) (hap : permits attributes.ap false .store = true) :
    ¬ (k.pageTables h).Tables (wordIndex pa) := by
  intro htable
  have hbss : k.kernelBss ∈ k.kernelMap := by simp [Link.kernelMap, Link.kernelSections, Link.ramSections]
  have hno : permits (AP_RW_N.setWidth 3) false .store = false := by decide
  refine hinv.store_outside hd hmaps hp hwalk hap hbss hno ?_
  rw [pageOf_wordIndex]
  exact Link.tables_held h htable

theorem UserInv.store_tables (hinv : UserInv h m0 m) (hd : k.FramesDisjoint)
    (hmaps : ∀ p ∈ k.addressSpaces, Maps m0.mem p.1 p.2) (hp : p ∈ k.addressSpaces)
    (hwalk : walk m.mem p.1 va = .smallPage pa domain attributes) (hap : permits attributes.ap false .store = true)
    (v : Word) : ∀ i, (k.pageTables h).Tables i → putByte v pa m.mem i = m.mem i := by
  intro i hi
  refine putByte_of_ne ?_
  rintro rfl
  exact hinv.store_not_table hd hmaps hp hwalk hap hi

/-- A section that has a page of a task's own is one of the task's. -/
theorem own_section (hp : p ∈ k.taskSpaces) (hown : k.OwnPage va) {s : SectionDesc} (hs : s ∈ p.2)
    (htouches : s.Touches (pageOf va)) :
    p = (k.task1.table1, k.taskMap k.task1Sections) ∧ s ∈ k.task1Sections ∨
      p = (k.task2.table1, k.taskMap k.task2Sections) ∧ s ∈ k.task2Sections := by
  have hnot : s ∉ k.kernelMap := fun hkernel => hown s hkernel htouches
  simp only [Link.taskSpaces, List.mem_cons, List.not_mem_nil, or_false] at hp
  rcases hp with rfl | rfl
  · exact .inl ⟨rfl, (List.mem_append.1 hs).resolve_left hnot⟩
  · exact .inr ⟨rfl, (List.mem_append.1 hs).resolve_left hnot⟩

/-- Two sections with a frame in common, one of them a task's own, are one section of one table. -/
theorem own_section_unique (h : k.Linked) (hd : k.FramesDisjoint) (hp : p ∈ k.taskSpaces) (hp' : p' ∈ k.taskSpaces)
    (hown : k.OwnPage va) {s s' : SectionDesc} (hs : s ∈ p.2) (htouches : s.Touches (pageOf va)) (hs' : s' ∈ p'.2)
    {frame : Nat} (hf : s.TouchesFrame frame) (hf' : s'.TouchesFrame frame) : p' = p ∧ s' = s := by
  have hapart := addressSpaces_framesApart h hd
  have hin := addressSpaces_pagesApart h hd.kernelApart (taskSpaces_addressSpaces hp)
  have hkernel : s' ∉ k.kernelMap := by
    intro hk
    obtain rfl := section_unique (hapart p (taskSpaces_addressSpaces hp)) hs (hin.2 hk) hf hf'
    exact hown s hk htouches
  have hsame : p' = p → p' = p ∧ s' = s := by
    rintro rfl
    exact ⟨rfl, section_unique (hapart p' (taskSpaces_addressSpaces hp')) hs' hs hf' hf⟩
  simp only [Link.taskSpaces, List.mem_cons, List.not_mem_nil, or_false] at hp'
  rcases own_section hp hown hs htouches with ⟨rfl, hs1⟩ | ⟨rfl, hs2⟩
  · rcases hp' with rfl | rfl
    · exact hsame rfl
    · have hs2 := (List.mem_append.1 hs').resolve_left hkernel
      exact absurd hf' (Link.tasks_framesApart hd hs1 hs2 frame hf)
  · rcases hp' with rfl | rfl
    · have hs1 := (List.mem_append.1 hs').resolve_left hkernel
      exact absurd hf (Link.tasks_framesApart hd hs1 hs2 frame hf')
    · exact hsame rfl

/-- A physical address behind a task's own page is behind no other address of any task. -/
theorem UserInv.own_unique (hinv : UserInv h m0 m) (hd : k.FramesDisjoint)
    (hmaps : ∀ p ∈ k.addressSpaces, Maps m0.mem p.1 p.2) (hp : p ∈ k.taskSpaces) (hp' : p' ∈ k.taskSpaces)
    (hown : k.OwnPage va) (hwalk : walk m.mem p.1 va = .smallPage pa domain attributes)
    (hwalk' : walk m.mem p'.1 va' = .smallPage pa domain' attributes') : p'.1 = p.1 ∧ va' = va := by
  have hs := taskSpaces_addressSpaces hp
  have hs' := taskSpaces_addressSpaces hp'
  cases hinv.backed hd hmaps hs hwalk with
  | ofSection s hmem htouches hpa hattr =>
    obtain ⟨hframe, hnotfree⟩ := section_frame (h := h) hd hs hmem htouches
    cases hinv.backed hd hmaps hs' hwalk' with
    | ofSection s' hmem' htouches' hpa' hattr' =>
      have hframe' := (section_frame (h := h) hd hs' hmem' htouches').1
      rw [← hpa'] at hframe'
      rw [← hpa] at hframe
      obtain ⟨rfl, rfl⟩ := own_section_unique h hd hp hp' hown hmem htouches hmem' hframe hframe'
      exact ⟨rfl, addrOfVa_injective (hpa'.symm.trans hpa)⟩
    | ofFreeRam hfree =>
      rw [hpa] at hfree
      exact absurd hfree hnotfree
  | ofFreeRam hfree =>
    obtain ⟨htable, hpage⟩ := hinv.owned.once p'.1 (addressSpaces_table1 hs') p.1 (addressSpaces_table1 hs) va' va _
      ⟨pa, domain', attributes', hwalk', rfl⟩ ⟨pa, domain, attributes, hwalk, rfl⟩ hfree
    refine ⟨htable, ?_⟩
    have hoffset := walk_offset hwalk
    have hoffset' := walk_offset hwalk'
    apply BitVec.eq_of_toNat_eq
    unfold pageOf at hpage
    omega

/-- What is mapped for the kernel is not behind a task's own page. -/
theorem UserInv.own_not_kernel (hinv : UserInv h m0 m) (hd : k.FramesDisjoint)
    (hmaps : ∀ p ∈ k.addressSpaces, Maps m0.mem p.1 p.2) (hp : p ∈ k.taskSpaces) (hown : k.OwnPage va)
    (hwalk : walk m.mem p.1 va = .smallPage pa domain attributes) {s : SectionDesc} (hs : s ∈ k.kernelMap) :
    ¬ s.Holds (wordIndex pa) := by
  have hp' := taskSpaces_addressSpaces hp
  have hs' : s ∈ p.2 := (addressSpaces_pagesApart h hd.kernelApart hp').2 hs
  unfold SectionDesc.Holds
  rw [← pageOf_wordIndex]
  intro hframe
  cases hinv.backed hd hmaps hp' hwalk with
  | ofSection s1 hmem htouches hpa hattr =>
    subst hpa
    have heq := section_unique (addressSpaces_framesApart h hd p hp') hs' hmem hframe
      (section_frame (h := h) hd hp' hmem htouches).1
    rw [← heq] at htouches
    exact hown s hs htouches
  | ofFreeRam hfree =>
    obtain ⟨⟨-, hfixed⟩, houtside⟩ := addressSpaces_outside h hd.kernelApart p hp' s hs'
    exact houtside hfixed _ hframe hfree

/-! ## What a step keeps -/

/-- Memory changes outside the tables. -/
theorem UserInv.congr (hinv : UserInv h m0 m) (hmem : ∀ i, (k.pageTables h).Tables i → m'.mem i = m.mem i)
    (hqtty : m'.wTable2Qtty = m.wTable2Qtty) (hused : m'.wRamUsedPages = m.wRamUsedPages) : UserInv h m0 m' := by
  have howned := hinv.owned
  have hwalk : ∀ t ∈ (k.pageTables h).table1s, ∀ va, walk m'.mem t va = walk m.mem t va := fun t ht va =>
    howned.inv.walk_congr ht hmem
  refine ⟨⟨howned.inv.congr hmem hqtty, by rw [hused]; exact howned.used, ?_, ?_⟩, ?_⟩
  · intro t ht va frame hmapsTo hfree
    rw [hused]
    exact howned.handedOut t ht va frame ((MapsTo.congr (hwalk t ht va)).1 hmapsTo) hfree
  · intro t ht t' ht' va va' frame hmapsTo hmapsTo'
    exact howned.once t ht t' ht' va va' frame ((MapsTo.congr (hwalk t ht va)).1 hmapsTo)
      ((MapsTo.congr (hwalk t' ht' va')).1 hmapsTo')
  · intro p hp va
    rw [hwalk p.1 (addressSpaces_table1 hp)]
    exact hinv.walks p hp va

/-- What `abt_handler` does when a user access aborts: nothing, or the page of the access is mapped. -/
structure Mapped (h : k.Linked) (m m' : Mmu) : Prop where
  memory : ∀ i, ¬ (k.pageTables h).Tables i → m'.mem i = m.mem i
  kept : ∀ t ∈ (k.pageTables h).table1s, ∀ va, walk m.mem t va ≠ .fault → walk m'.mem t va = walk m.mem t va

theorem UserInv.abort (hinv : UserInv h m0 m) {mapping : Bool} {t : Nat} {rw : Access}
    (hroom : mapping = true → walk m.mem t va = .fault → (k.pageTables h).Allowed m (.abort t va rw)) :
    UserInv h m0 (userAbort k mapping t va rw m) ∧ Mapped h m (userAbort k mapping t va rw m) := by
  have hsame : UserInv h m0 m ∧ Mapped h m m := ⟨hinv, fun _ _ => rfl, fun _ _ _ _ => rfl⟩
  unfold userAbort
  cases mapping with
  | false => exact hsame
  | true =>
    rw [if_pos rfl]
    by_cases hfault : walk m.mem t va = .fault
    · have hallowed := hroom rfl hfault
      obtain ⟨ht, htable, hram⟩ := id hallowed
      rw [userFault, if_pos hfault, abtHandler_translationFault, Link.mmuSymbols_eq h]
      obtain ⟨frame, hfilled, -, -, hmemory⟩ := mmuFillPteFromVma_spec hinv.owned.inv ht htable hram
      have hstep : (k.pageTables h).demandStep false m (.abort t va rw) =
          some (m.mmuFillPteFromVma (k.pageTables h).symbols (addrOf t) va) := by
        rw [demandStep, if_pos hfault, abtHandler_translationFault]
      obtain ⟨m1, pa, hhandled, howned, hexclusive, hothers⟩ := hinv.owned.demand false hallowed hfault
      rw [abtHandler_translationFault] at hhandled
      obtain rfl := (Prod.mk.inj hhandled).2
      refine ⟨⟨howned, ?_⟩, hmemory, hothers⟩
      intro p hp va'
      have hp1 := addressSpaces_table1 hp
      by_cases hpage : p.1 = t ∧ pageOf va' = pageOf va
      · obtain ⟨rfl, hpage⟩ := hpage
        obtain ⟨domain, hwalk⟩ := hexclusive.translates
        have hframe : pageOf (BitVec.ofNat 32 (pa.toNat / 2 ^ 12 * 2 ^ 12 + va'.toNat % 2 ^ 12)) = pageOf pa := by
          unfold pageOf
          rw [BitVec.toNat_ofNat]
          omega
        have hwalk' := walk_samePage hpage hwalk
        rw [demandSection_attributes va va'] at hwalk'
        have hfault' : walk m0.mem p.1 va = .fault → walk m0.mem p.1 va' = .fault := walk_fault_samePage hpage
        refine .inr ⟨hfault' ?_, _, domain, hwalk', ?_⟩
        · -- a page that faults now faulted then
          rcases hinv.walks p hp va with hsame | ⟨hfault0, -⟩
          · rw [← hsame]
            exact hfault
          · exact hfault0
        · rw [hframe]
          exact hexclusive.free
      · have hkeep : walk (m.mmuFillPteFromVma (k.pageTables h).symbols (addrOf t) va).mem p.1 va' =
            walk m.mem p.1 va' := by
          by_cases heq : p.1 = t
          · subst heq
            refine hfilled.unmapped va' fun s hs htouches => hpage ⟨rfl, ?_⟩
            obtain rfl := List.mem_singleton.1 hs
            exact (demandSection_touches va _).1 htouches
          · exact hfilled.others p.1 hp1 heq va'
        rw [hkeep]
        exact hinv.walks p hp va'
    · rw [userFault, if_neg hfault]
      cases rw <;> exact hsame

/-! ## Steps and runs -/

/-- What a step does to memory: a user's store to where it may store, the kernel's, or an abort. -/
theorem userStep_cases {c : Cp15} (hc : Configured c) {mapping : Bool} {e : UserEvent} (hinv : UserInv h m0 m)
    (hallowed : e.Allowed mapping h m) (hstep : userStep k c mapping m e = some m') :
    (∃ p ∈ k.taskSpaces, ∃ va v pa domain attributes, e = .store p.1 va v ∧
      walk m.mem p.1 va = .smallPage pa domain attributes ∧ permits attributes.ap false .store = true ∧
      m' = { m with mem := putByte v pa m.mem }) ∨
    (∃ i v, e = .kernel i v ∧ (∃ s ∈ k.kernelMap, s.Holds i) ∧ ¬ (k.pageTables h).Tables i ∧
      m' = { m with mem := Function.update m.mem i v }) ∨
    UserInv h m0 m' ∧ Mapped h m m' := by
  cases e with
  | store t va v =>
    obtain ⟨ht, hroom⟩ := hallowed
    obtain ⟨p, hp, rfl⟩ := taskTables_taskSpaces ht
    simp only [userStep, Cp15.strb] at hstep
    split at hstep
    · rename_i mem hmem
      obtain ⟨pa, htranslate, rfl⟩ := Option.map_eq_some_iff.1 hmem
      obtain ⟨domain, attributes, hwalk, hap⟩ :=
        translate_some (hc.uses (taskTables_table1s h ht)) htranslate
      exact .inl ⟨p, hp, va, v, pa, domain, attributes, rfl, hwalk, hap, (Option.some.inj hstep).symm⟩
    · cases hstep
      exact .inr (.inr (hinv.abort hroom))
  | load t va =>
    obtain ⟨ht, hroom⟩ := hallowed
    simp only [userStep] at hstep
    split at hstep
    · cases hstep
      exact .inr (.inr ⟨hinv, fun _ _ => rfl, fun _ _ _ _ => rfl⟩)
    · cases hstep
      exact .inr (.inr (hinv.abort hroom))
  | kernel i v =>
    obtain ⟨hheld, htable⟩ := hallowed
    exact .inr (.inl ⟨i, v, rfl, hheld, htable, (Option.some.inj hstep).symm⟩)

theorem UserInv.step {c : Cp15} (hc : Configured c) {mapping : Bool} {e : UserEvent} (hinv : UserInv h m0 m)
    (hd : k.FramesDisjoint) (hmaps : ∀ p ∈ k.addressSpaces, Maps m0.mem p.1 p.2) (hallowed : e.Allowed mapping h m)
    (hstep : userStep k c mapping m e = some m') : UserInv h m0 m' ∧
      ∀ t ∈ (k.pageTables h).table1s, ∀ va, walk m.mem t va ≠ .fault → walk m'.mem t va = walk m.mem t va := by
  rcases userStep_cases hc hinv hallowed hstep with
    ⟨p, hp, va, v, pa, domain, attributes, rfl, hwalk, hap, rfl⟩ | ⟨i, v, rfl, -, htable, rfl⟩ | ⟨hinv', hmapped⟩
  · have hmem := hinv.store_tables hd hmaps (taskSpaces_addressSpaces hp) hwalk hap v
    exact ⟨hinv.congr hmem rfl rfl, fun t ht va _ => hinv.owned.inv.walk_congr ht hmem⟩
  · have hmem : ∀ j, (k.pageTables h).Tables j → Function.update m.mem i v j = m.mem j := by
      intro j hj
      refine Function.update_of_ne ?_ ..
      rintro rfl
      exact htable hj
    exact ⟨hinv.congr hmem rfl rfl, fun t ht va _ => hinv.owned.inv.walk_congr ht hmem⟩
  · exact ⟨hinv', hmapped.kept⟩

/-- A byte that a task reads -/
def userRead (c : Cp15) (t : Nat) (va : Word) (m : Mmu) : Option Word := (taskCp15 c t).ldrb m.mem false va

theorem userRead_eq {c : Cp15} {t : Nat} (hc : (taskCp15 c t).Uses t)
    (hwalk : walk m.mem t va = .smallPage pa domain attributes) (hap : permits attributes.ap false .load = true) :
    userRead c t va m = some (byteAt m.mem pa) := by
  unfold userRead Cp15.ldrb
  rw [hc.translate hwalk hap]
  rfl

/-- A byte of a task's own page stays as it is in every step but the task's own stores to it. -/
theorem UserInv.step_own {c : Cp15} (hc : Configured c) {mapping : Bool} {e : UserEvent} (hinv : UserInv h m0 m)
    (hd : k.FramesDisjoint) (hmaps : ∀ p ∈ k.addressSpaces, Maps m0.mem p.1 p.2) (hp : p ∈ k.taskSpaces)
    (hown : k.OwnPage va) (hwalk : walk m.mem p.1 va = .smallPage pa domain attributes)
    (hallowed : e.Allowed mapping h m) (hnot : ¬ e.StoresTo p.1 va) (hstep : userStep k c mapping m e = some m') :
    byteAt m'.mem pa = byteAt m.mem pa := by
  rcases userStep_cases hc hinv hallowed hstep with
    ⟨p', hp', va', v, pa', domain', attributes', rfl, hwalk', hap, rfl⟩ | ⟨i, v, rfl, ⟨s, hs, hheld⟩, -, rfl⟩ |
      ⟨-, hmapped⟩
  · refine byteAt_putByte_of_ne ?_
    rintro rfl
    obtain ⟨htable, hva⟩ := hinv.own_unique hd hmaps hp hp' hown hwalk hwalk'
    exact hnot ⟨htable, hva⟩
  · refine byteAt_congr (Function.update_of_ne ?_ ..)
    rintro rfl
    exact hinv.own_not_kernel hd hmaps hp hown hwalk hs hheld
  · have hbss : k.kernelBss ∈ k.kernelMap := by simp [Link.kernelMap, Link.kernelSections, Link.ramSections]
    refine byteAt_congr (hmapped.memory _ fun htable => ?_)
    exact hinv.own_not_kernel hd hmaps hp hown hwalk hbss (Link.tables_held h htable)

/-- A word that users may not store to stays as it is in every step but the kernel's stores to it. -/
theorem UserInv.step_kernel {c : Cp15} (hc : Configured c) {mapping : Bool} {e : UserEvent} (hinv : UserInv h m0 m)
    (hd : k.FramesDisjoint) (hmaps : ∀ p ∈ k.addressSpaces, Maps m0.mem p.1 p.2) {s : SectionDesc}
    (hs : s ∈ k.kernelMap) (hno : permits s.attributes.ap false .store = false) {i : Nat} (hi : s.Holds i)
    (htable : ¬ (k.pageTables h).Tables i) (hallowed : e.Allowed mapping h m) (hnot : ¬ e.KernelStoresTo i)
    (hstep : userStep k c mapping m e = some m') : m'.mem i = m.mem i := by
  rcases userStep_cases hc hinv hallowed hstep with
    ⟨p', hp', va', v, pa', domain', attributes', rfl, hwalk', hap, rfl⟩ | ⟨j, v, rfl, -, -, rfl⟩ | ⟨-, hmapped⟩
  · refine putByte_of_ne ?_
    rintro rfl
    refine hinv.store_outside hd hmaps (taskSpaces_addressSpaces hp') hwalk' hap hs hno ?_
    rw [pageOf_wordIndex]
    exact hi
  · refine Function.update_of_ne ?_ ..
    rintro rfl
    exact hnot rfl
  · exact hmapped.memory i htable

/-- What separates the tasks from each other and from the kernel, from this state on. -/
structure Separated (h : k.Linked) (c : Cp15) (mapping : Bool) (m : Mmu) : Prop where
  own : ∀ t ∈ k.taskTables, ∀ va byte, k.OwnPage va → userRead c t va m = some byte →
    ∀ m', Run (userStep k c mapping) (fun m e => e.Allowed mapping h m ∧ ¬ e.StoresTo t va) m m' →
      userRead c t va m' = some byte
  stored : ∀ t ∈ k.taskTables, ∀ va v mem, (taskCp15 c t).strb m.mem false v va = some mem →
    userRead c t va { m with mem := mem } = some (v &&& 0xFF)
  kernel : ∀ s ∈ k.kernelMap, permits s.attributes.ap false .store = false → ∀ i, s.Holds i →
    ¬ (k.pageTables h).Tables i →
    ∀ m', Run (userStep k c mapping) (fun m e => e.Allowed mapping h m ∧ ¬ e.KernelStoresTo i) m m' →
      m'.mem i = m.mem i
  tables : ∀ t ∈ [k.kernelTable1, k.task1.table1, k.task2.table1], ∀ va, walk m.mem t va ≠ .fault →
    ∀ m', Run (userStep k c mapping) (UserEvent.Allowed mapping h) m m' → walk m'.mem t va = walk m.mem t va

theorem UserInv.separated {c : Cp15} (hc : Configured c) (mapping : Bool) (hinv : UserInv h m0 m)
    (hd : k.FramesDisjoint) (hmaps : ∀ p ∈ k.addressSpaces, Maps m0.mem p.1 p.2) : Separated h c mapping m := by
  have hloaded : ∀ {t va byte m1}, t ∈ k.taskTables → userRead c t va m1 = some byte →
      ∃ pa domain attributes, walk m1.mem t va = .smallPage pa domain attributes ∧
        permits attributes.ap false .load = true ∧ byteAt m1.mem pa = byte := by
    intro t va byte m1 ht hread
    obtain ⟨pa, htranslate, hbyte⟩ := Option.map_eq_some_iff.1 hread
    obtain ⟨domain, attributes, hwalk, hap⟩ := translate_some (hc.uses (taskTables_table1s h ht)) htranslate
    exact ⟨pa, domain, attributes, hwalk, hap, hbyte⟩
  constructor
  · intro t ht va byte hown hread m' hrun
    obtain ⟨pa, domain, attributes, hwalk, hap, hbyte⟩ := hloaded ht hread
    have hkept : UserInv h m0 m' ∧ walk m'.mem t va = .smallPage pa domain attributes ∧ byteAt m'.mem pa = byte := by
      refine hrun.invariant (P := fun m => UserInv h m0 m ∧ walk m.mem t va = .smallPage pa domain attributes ∧
        byteAt m.mem pa = byte) ⟨hinv, hwalk, hbyte⟩ ?_
      rintro m1 e m2 ⟨hinv1, hwalk1, hbyte1⟩ ⟨hallowed, hnot⟩ hstep
      obtain ⟨hinv2, hkeeps⟩ := hinv1.step hc hd hmaps hallowed hstep
      refine ⟨hinv2, (hkeeps t (taskTables_table1s h ht) va (by rw [hwalk1]; simp)).trans hwalk1, ?_⟩
      obtain ⟨p, hp, rfl⟩ := taskTables_taskSpaces ht
      exact (hinv1.step_own hc hd hmaps hp hown hwalk1 hallowed hnot hstep).trans hbyte1
    rw [userRead_eq (hc.uses (taskTables_table1s h ht)) hkept.2.1 hap, hkept.2.2]
  · intro t ht va v mem hstored
    obtain ⟨pa, htranslate, rfl⟩ := Option.map_eq_some_iff.1 hstored
    obtain ⟨domain, attributes, hwalk, hap⟩ := translate_some (hc.uses (taskTables_table1s h ht)) htranslate
    obtain ⟨p, hp, rfl⟩ := taskTables_taskSpaces ht
    have hmem := hinv.store_tables hd hmaps (taskSpaces_addressSpaces hp) hwalk hap v
    have hsame : walk ({ m with mem := putByte v pa m.mem } : Mmu).mem p.1 va = walk m.mem p.1 va :=
      hinv.owned.inv.walk_congr (taskTables_table1s h ht) hmem
    rw [userRead_eq (hc.uses (taskTables_table1s h ht)) (hsame.trans hwalk) (permits_load hap)]
    exact congrArg some byteAt_putByte_self
  · intro s hs hno i hi htable m' hrun
    have hkept : UserInv h m0 m' ∧ m'.mem i = m.mem i := by
      refine hrun.invariant (P := fun m1 => UserInv h m0 m1 ∧ m1.mem i = m.mem i) ⟨hinv, rfl⟩ ?_
      rintro m1 e m2 ⟨hinv1, hsame⟩ ⟨hallowed, hnot⟩ hstep
      exact ⟨(hinv1.step hc hd hmaps hallowed hstep).1,
        (hinv1.step_kernel hc hd hmaps hs hno hi htable hallowed hnot hstep).trans hsame⟩
    exact hkept.2
  · intro t ht va hmapped m' hrun
    have hkept : UserInv h m0 m' ∧ walk m'.mem t va = walk m.mem t va := by
      refine hrun.invariant (P := fun m1 => UserInv h m0 m1 ∧ walk m1.mem t va = walk m.mem t va) ⟨hinv, rfl⟩ ?_
      rintro m1 e m2 ⟨hinv1, hsame⟩ hallowed hstep
      obtain ⟨hinv2, hkeeps⟩ := hinv1.step hc hd hmaps hallowed hstep
      exact ⟨hinv2, (hkeeps t ht va (by rw [hsame]; exact hmapped)).trans hsame⟩
    exact hkept.2

end

variable {b : Boot}

/-- What the boot leaves, with what every run in user mode keeps of it -/
theorem boot_userInv (h : k.Linked) (hd : k.FramesDisjoint) (hb : Booted k b) :
    ∃ b1 b2, Returns (fun n => mmuInit k n b) b1 ∧ Returns (fun n => prvTaskInit k n b1) b2 ∧ Configured b2.cp15 ∧
      (∀ p ∈ k.addressSpaces, Maps b2.mmu.mem p.1 p.2) ∧ ∀ mapping m,
        Run (userStep k b2.cp15 mapping) (UserEvent.Allowed mapping h) b2.mmu m → UserInv h b2.mmu m := by
  obtain ⟨b1, b2, maps, q, hrun1, hrun2, -, hc, hheld, hspaces, -⟩ := boot_spec h hd.kernelApart hb
  have hmaps := hheld.addressSpaces hspaces
  have hinit : UserInv h b2.mmu b2.mmu := ⟨hheld.owned h hd.kernelApart hspaces, fun _ _ _ => .inl rfl⟩
  refine ⟨b1, b2, hrun1, hrun2, hc, hmaps, fun mapping m hrun => ?_⟩
  exact hrun.invariant hinit fun _ _ _ hi hallowed hstep => (hi.step hc hd hmaps hallowed hstep).1

end

end Td3.Kernel
