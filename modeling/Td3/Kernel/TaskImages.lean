/-
What `prv_task_init` leaves (kernel/startup.S): address spaces that share the kernel's sections and the
devices and no page of RAM besides, and in each task's own pages the images that ROM has of its sections.
Every byte a copy stores goes through the table that was filled just before, to a physical page of
that task; what is loaded comes from ROM, which every table maps.
-/
import Td3.Kernel.TaskInit

namespace Td3.Kernel

open Arm SectionDesc PageTables

/-! ## Accesses through the table of a task -/

section
variable {k : Link} {h : k.Linked} {maps : Nat → List SectionDesc} {q i : Nat} {rom mem' : Nat → Word} {m : Mmu}
  {c : Cp15}
  {s s' : SectionDesc} {lma size : Word}

/-- No physical page of a task is one of the kernel. -/
theorem Link.Task.kernel_not_held (T : k.Task) (hs : s ∈ T.sections) {w : Nat}
    (hw : k.kernelBss.Holds w ∨ k.kernelRodata.Holds w ∨ k.RomWord w) : ¬ s.Holds w := by
  rcases hw with hw | hw | hw | hw
  · exact T.apart k.kernelBss (by simp [Link.kernelSections, Link.ramSections]) s hs _ hw
  · exact T.apart k.kernelRodata (by simp [Link.kernelSections, Link.ramSections]) s hs _ hw
  · exact T.apart k.init (by simp [Link.kernelSections]) s hs _ hw
  · exact T.apart k.notExecutableRom (by simp [Link.kernelSections]) s hs _ hw

/-- Stores into a section of a task -/
theorem Held.setSection (hheld : Held k h maps q rom m) (T : k.Task) (hs : s ∈ T.sections)
    (hmem : ∀ w, ¬ s.Holds w → mem' w = m.mem w) : Held k h maps q rom { m with mem := mem' } :=
  hheld.setMem fun w hw => hmem w (T.kernel_not_held hs hw)

theorem translate_section (hd : k.KernelApart) (hheld : Held k h maps q rom m) (T : k.Task)
    (hmaps : maps T.link.table1 = k.taskMap T.sections) (hu : c.Uses T.link.table1) (hs : s ∈ T.sections)
    {privileged : Bool}
    {access : Access} (hap : permits s.attributes.ap privileged access = true) (hi : i < s.size.toNat) :
    c.translate m.mem privileged access (s.vma + BitVec.ofNat 32 i) = some (s.pa + BitVec.ofNat 32 i) := by
  have hmapped := hheld.spaces.maps T.link.table1 T.table1
  rw [hmaps] at hmapped
  obtain ⟨domain, hwalk⟩ := hmapped.walk_eq (T.map_pagesApart h hd) (List.mem_append_right _ hs)
    (byte_vma (T.valid s hs) hi).2
  rw [addrOfVa_byte] at hwalk
  exact hu.translate hwalk hap

/-- Every byte of an image can be loaded, and is that of ROM. -/
theorem ldrb_rom (hd : k.KernelApart) (hheld : Held k h maps q rom m) (T : k.Task)
    (hmaps : maps T.link.table1 = k.taskMap T.sections) (hu : c.Uses T.link.table1) (hrom : InRom lma size)
    (hi : i < size.toNat) :
    c.ldrb m.mem true (lma + BitVec.ofNat 32 i) = some (byteAt rom (lma + BitVec.ofNat 32 i)) := by
  obtain ⟨hlo, hhi⟩ := hrom
  have haddr : (lma + BitVec.ofNat 32 i).toNat = lma.toNat + i := by
    change _ ≤ 0x70010000 + 0x10000 at hhi
    rw [BitVec.toNat_add, BitVec.toNat_ofNat]
    omega
  have hmapped := hheld.spaces.maps T.link.table1 T.table1
  rw [hmaps] at hmapped
  -- the page belongs to `.init` or to the rest of ROM, which is mapped where it is, readable for the kernel
  have hsection : ∃ s ∈ k.kernelMap, s.Touches (pageOf (lma + BitVec.ofNat 32 i)) ∧
      permits s.attributes.ap true .load = true ∧ (∀ w, s.Holds w → k.RomWord w) := by
    have hstart : ldRomOrigin.toNat ≤ (lma + BitVec.ofNat 32 i).toNat := by
      rw [haddr]
      omega
    have hend : (lma + BitVec.ofNat 32 i).toNat < ldRomOrigin.toNat + ldRomLength.toNat := by
      rw [haddr]
      omega
    rcases Link.rom_touched h hstart hend with ht | ht
    · exact ⟨k.init, by simp [Link.kernelMap, Link.kernelSections], ht,
        (by decide : permits (AP_R_N.setWidth 3) true .load = true),
        fun w hw => .inl hw⟩
    · exact ⟨k.notExecutableRom, by simp [Link.kernelMap, Link.kernelSections], ht,
        (by decide : permits (AP_R_N.setWidth 3) true .load = true), fun w hw => .inr hw⟩
  obtain ⟨s, hs, htouches, hap, hword⟩ := hsection
  have hid := Link.kernelMap_identity h s hs
  obtain ⟨domain, hwalk⟩ := hmapped.walk_eq (T.map_pagesApart h hd) (List.mem_append_left _ hs) htouches
  rw [hid.addrOfVa] at hwalk
  have hholds : s.Holds (wordIndex (lma + BitVec.ofNat 32 i)) := by
    have hpage : wordIndex (lma + BitVec.ofNat 32 i) / 1024 = pageOf (lma + BitVec.ofNat 32 i) := by
      unfold wordIndex pageOf
      omega
    unfold Holds
    rw [hpage]
    exact (touchesFrame_of_identity hid.pa _).2 htouches
  rw [Cp15.ldrb, hu.translate hwalk hap, Option.map_some, byteAt_congr (hheld.rom _ (hword _ hholds))]

/-! ## Images -/

/-- The bytes of the section's physical pages -/
def Image (s : SectionDesc) (value : Nat → Word) (mem : Nat → Word) : Prop :=
  ∀ i < s.size.toNat, byteAt mem (s.pa + BitVec.ofNat 32 i) = value i

theorem Image.congr {value : Nat → Word} {mem : Nat → Word} (himage : Image s value mem) (T : k.Task)
    (hs : s ∈ T.sections)
    (hmem : ∀ w, s.Holds w → mem' w = mem w) : Image s value mem' := by
  intro i hi
  rw [byteAt_congr (hmem _ (holds_byte (T.valid s hs) (T.inTask s hs).fixed hi))]
  exact himage i hi

/-- A round of the loops reaches byte `i` of the section, whatever they have stored in it before. -/
theorem transfer_section (hd : k.KernelApart) (hheld : Held k h maps q rom m) (T : k.Task)
    (hmaps : maps T.link.table1 = k.taskMap T.sections) (hu : c.Uses T.link.table1) (hs : s ∈ T.sections)
    (hap : permits s.attributes.ap true .store = true) {fetch : (Nat → Word) → Word → Option (Word × Word)}
    {r1 value : Nat → Word} (hfetch : ∀ mem', Held k h maps q rom { m with mem := mem' } → ∀ i < s.size.toNat,
      fetch mem' (r1 i) = some (value i, r1 (i + 1))) :
    Transfer c fetch s.Holds m.mem s.vma s.size.toNat r1 value fun i => s.pa + BitVec.ofNat 32 i := by
  have hvalid := T.valid s hs
  have hfixed := (T.inTask s hs).fixed
  refine ⟨?_, ?_, ?_, ?_⟩
  · intro mem' hmem i hi
    exact hfetch mem' (hheld.setSection T hs hmem) i hi
  · intro mem' hmem i hi
    exact translate_section hd (hheld.setSection T hs hmem) T hmaps hu hs hap hi
  · intro i hi
    exact holds_byte hvalid hfixed hi
  · intro i hi j hj heq
    have hi' := byte_pa hvalid hfixed hi
    have hj' := byte_pa hvalid hfixed hj
    rw [heq] at hi'
    omega

/-- `__memcopy` from ROM to a section of the task -/
theorem memcopy_section (hd : k.KernelApart) (hheld : Held k h maps q rom m) (T : k.Task)
    (hmaps : maps T.link.table1 = k.taskMap T.sections) (hu : c.Uses T.link.table1) (hs : s ∈ T.sections)
    (hap : permits s.attributes.ap true .store = true) (hrom : InRom lma s.size) :
    ∃ mem', Returns (fun n => memcopy c n s.vma lma s.size m.mem) mem' ∧
      Image s (fun i => byteAt rom (lma + BitVec.ofNat 32 i)) mem' ∧ ∀ w, ¬ s.Holds w → mem' w = m.mem w := by
  have htransfer : Transfer c (fun mem src => (c.ldrb mem true src).map fun buffer => (buffer, src + 1)) s.Holds m.mem
      s.vma s.size.toNat (fun i => lma + BitVec.ofNat 32 i) (fun i => byteAt rom (lma + BitVec.ofNat 32 i))
      fun i => s.pa + BitVec.ofNat 32 i := by
    refine transfer_section hd hheld T hmaps hu hs hap ?_
    intro mem' hheld' i hi
    have hnext : lma + BitVec.ofNat 32 i + 1 = lma + BitVec.ofNat 32 (i + 1) := by
      rw [BitVec.add_assoc, BitVec.ofNat_add]
      rfl
    rw [ldrb_rom hd hheld' T hmaps hu hrom hi, Option.map_some, hnext]
  obtain ⟨n, mem', hrun, hcopied⟩ := Copy.run_spec htransfer (T.valid s hs).size
  have hstart : lma + BitVec.ofNat 32 0 = lma := BitVec.add_zero lma
  rw [hstart] at hrun
  refine ⟨mem', ⟨n, hrun⟩, ?_, hcopied.frame⟩
  intro i hi
  exact (hcopied.bytes i hi).trans byteAt_and

/-- `__memfill` of a section of the task -/
theorem memfill_section (hd : k.KernelApart) (hheld : Held k h maps q rom m) (T : k.Task)
    (hmaps : maps T.link.table1 = k.taskMap T.sections) (hu : c.Uses T.link.table1) (hs : s ∈ T.sections)
    (hap : permits s.attributes.ap true .store = true) :
    ∃ mem', Returns (fun n => memfill c n s.vma 0x00 s.size m.mem) mem' ∧ Image s (fun _ => 0) mem' ∧
      ∀ w, ¬ s.Holds w → mem' w = m.mem w := by
  have htransfer : Transfer c (fun _ pattern => some (pattern, pattern)) s.Holds m.mem s.vma s.size.toNat
      (fun _ => 0x00) (fun _ => 0x00) fun i => s.pa + BitVec.ofNat 32 i :=
    transfer_section hd hheld T hmaps hu hs hap fun _ _ _ _ => rfl
  obtain ⟨n, mem', hrun, hcopied⟩ := Copy.run_spec htransfer (T.valid s hs).size
  exact ⟨mem', ⟨n, hrun⟩, hcopied.bytes, hcopied.frame⟩

/-! ## Loading a task -/

/-- The images of a task in its physical pages -/
structure Link.Task.Loaded (T : k.Task) (rom mem : Nat → Word) : Prop where
  text : Image (T.link.text T.frames) (fun i => byteAt rom (T.link.ldTextLma + BitVec.ofNat 32 i)) mem
  data : Image (T.link.data T.frames) (fun i => byteAt rom (T.link.ldDataLma + BitVec.ofNat 32 i)) mem
  rodata : Image (T.link.rodata T.frames) (fun i => byteAt rom (T.link.ldRodataLma + BitVec.ofNat 32 i)) mem
  bss : Image (T.link.bss T.frames) (fun _ => 0) mem

section
variable (T : k.Task)

theorem text_mem : T.link.text T.frames ∈ T.sections := List.mem_cons_self

theorem data_mem : T.link.data T.frames ∈ T.sections := List.mem_cons_of_mem _ List.mem_cons_self

theorem rodata_mem : T.link.rodata T.frames ∈ T.sections :=
  List.mem_cons_of_mem _ (List.mem_cons_of_mem _ List.mem_cons_self)

theorem bss_mem : T.link.bss T.frames ∈ T.sections :=
  List.mem_cons_of_mem _ (List.mem_cons_of_mem _ (List.mem_cons_of_mem _ (List.mem_cons_of_mem _ List.mem_cons_self)))

end

theorem Link.Task.Loaded.congr {T : k.Task} {mem : Nat → Word} (hloaded : T.Loaded rom mem)
    (hmem : ∀ s ∈ T.sections, ∀ w, s.Holds w → mem' w = mem w) : T.Loaded rom mem' :=
  ⟨hloaded.text.congr T (text_mem T) (hmem _ (text_mem T)), hloaded.data.congr T (data_mem T) (hmem _ (data_mem T)),
    hloaded.rodata.congr T (rodata_mem T) (hmem _ (rodata_mem T)), hloaded.bss.congr T (bss_mem T) (hmem _ (bss_mem T))⟩

/-- Each copy leaves what the copies before it have stored, where the sections have pages of their own. -/
theorem copyTask_spec (hd : k.KernelApart) (hheld : Held k h maps q rom m) (T : k.Task)
    (hmaps : maps T.link.table1 = k.taskMap T.sections) (hu : c.Uses T.link.table1) :
    ∃ mem', Returns (fun n => copyTaskSectionsToRam T.link c n m.mem) mem' ∧
      (T.sections.Pairwise FramesApart → T.Loaded rom mem') ∧
      Held k h maps q rom { m with mem := mem' } ∧ ∀ w, (∀ s ∈ T.sections, ¬ s.Holds w) → mem' w = m.mem w := by
  have hstore_rw : permits (AP_RW_RW.setWidth 3) true .store = true := by decide
  have hstore_r : permits (AP_RW_R.setWidth 3) true .store = true := by decide
  obtain ⟨mem1, hrun1, htext1, hframe1⟩ := memcopy_section hd hheld T hmaps hu (text_mem T) hstore_r T.linked.textLma
  have hheld1 := hheld.setSection T (text_mem T) hframe1
  obtain ⟨mem2, hrun2, hdata2, hframe2⟩ := memcopy_section hd hheld1 T hmaps hu (data_mem T) hstore_rw T.linked.dataLma
  have hheld2 := hheld1.setSection T (data_mem T) hframe2
  obtain ⟨mem3, hrun3, hrodata3, hframe3⟩ :=
    memcopy_section hd hheld2 T hmaps hu (rodata_mem T) hstore_r T.linked.rodataLma
  have hheld3 := hheld2.setSection T (rodata_mem T) hframe3
  obtain ⟨mem4, hrun4, hbss4, hframe4⟩ := memfill_section hd hheld3 T hmaps hu (bss_mem T) hstore_rw
  refine ⟨mem4, hrun1.bind (hrun2.bind (hrun3.bind hrun4)), ?_, hheld3.setSection T (bss_mem T) hframe4, ?_⟩
  · intro hself
    have happart := List.pairwise_iff_getElem.1 hself
    have htext2 := htext1.congr T (text_mem T) fun w hw =>
      hframe2 w (happart 0 1 (by decide : 0 < 6) (by decide : 1 < 6) (by decide) _ hw)
    have htext3 := htext2.congr T (text_mem T) fun w hw =>
      hframe3 w (happart 0 2 (by decide : 0 < 6) (by decide : 2 < 6) (by decide) _ hw)
    have hdata3 := hdata2.congr T (data_mem T) fun w hw =>
      hframe3 w (happart 1 2 (by decide : 1 < 6) (by decide : 2 < 6) (by decide) _ hw)
    have htext4 := htext3.congr T (text_mem T) fun w hw =>
      hframe4 w (happart 0 4 (by decide : 0 < 6) (by decide : 4 < 6) (by decide) _ hw)
    have hdata4 := hdata3.congr T (data_mem T) fun w hw =>
      hframe4 w (happart 1 4 (by decide : 1 < 6) (by decide : 4 < 6) (by decide) _ hw)
    have hrodata4 := hrodata3.congr T (rodata_mem T) fun w hw =>
      hframe4 w (happart 2 4 (by decide : 2 < 6) (by decide : 4 < 6) (by decide) _ hw)
    exact ⟨htext4, hdata4, hrodata4, hbss4⟩
  · intro w hw
    exact (hframe4 w (hw _ (bss_mem T))).trans ((hframe3 w (hw _ (rodata_mem T))).trans
      ((hframe2 w (hw _ (data_mem T))).trans (hframe1 w (hw _ (text_mem T)))))

variable {b : Boot} {t : Nat}

/-- TTBR0 points to the table of the task, its images are copied, and the scheduler has it. -/
theorem loadTask_spec (hd : k.KernelApart) (hr : Ready k h maps q t rom b) (T : k.Task)
    (hmaps : maps T.link.table1 = k.taskMap T.sections) :
    ∃ b', Returns (fun n => loadTask k n T.link b) b' ∧ Ready k h maps q T.link.table1 rom b' ∧
      (T.sections.Pairwise FramesApart → T.Loaded rom b'.mmu.mem) ∧
      ∀ w, ¬ k.kernelBss.Holds w → (∀ s ∈ T.sections, ¬ s.Holds w) → b'.mmu.mem w = b.mmu.mem w := by
  have hu : (b.writeTtbr0 (addrOf T.link.table1)).cp15.Uses T.link.table1 := hr.configured.uses (h := h) T.table1
  obtain ⟨mem1, hrun, hloaded, hheld1, hframe⟩ := copyTask_spec hd hr.held T hmaps hu
  let mem2 := (schedulerAddTask k.layout k.symbols T.link.entrypoint T.link.stackTop (addrOf T.link.table1) mem1).2
  have hcontexts : ∀ w, ¬ k.layout.Context w → mem2 w = mem1 w := fun w hw => schedulerAddTask_of_not hw _ _ _ mem1 0
  have hbss : ∀ w, ¬ k.kernelBss.Holds w → mem2 w = mem1 w := fun w hw =>
    hcontexts w fun hcontext => hw (Link.context_held h hcontext)
  have hheld2 : Held k h maps q rom { b.mmu with mem := mem2 } :=
    Held.setContexts (m := { b.mmu with mem := mem1 }) hd hheld1 hcontexts
  refine ⟨(b.writeTtbr0 (addrOf T.link.table1)).setMem mem2, ?_, ?_, fun hself => (hloaded hself).congr ?_, ?_⟩
  · exact hrun.map fun mem => (b.writeTtbr0 (addrOf T.link.table1)).setMem
      (schedulerAddTask k.layout k.symbols T.link.entrypoint T.link.stackTop (addrOf T.link.table1) mem).2
  · have hc := hr.configured
    refine ⟨hheld2, ⟨hc.on, hc.alignment, hc.ttbcr, hc.dacr⟩, rfl, T.table1, ?_, ?_⟩
    · rw [hmaps]
      exact List.prefix_append ..
    · rw [hmaps]
      exact T.map_pagesApart h hd
  · intro s hs w hw
    exact hbss w fun hkernel => T.kernel_not_held hs (.inl hkernel) hw
  · intro w hw hsections
    exact (hbss w hw).trans (hframe w hsections)

/-! ## `prv_task_init` -/

/-- Both tasks are loaded one after the other, and TTBR0 points to the kernel's table again. Each has its
images where no page of a task is used twice. -/
theorem prvTaskInit_spec (hd : k.KernelApart) (hr : Ready k h maps q k.kernelTable1 rom b)
    (hempty1 : maps k.task1.table1 = []) (hempty2 : maps k.task2.table1 = []) (hroom : q + 76 ≤ 3 * TABLE2_QTTY) :
    ∃ b', Returns (fun n => prvTaskInit k n b) b' ∧
      Held k h (Function.update (Function.update maps k.task1.table1 (k.taskMap k.task1Sections)) k.task2.table1
        (k.taskMap k.task2Sections)) (q + 76) rom b'.mmu ∧ Configured b'.cp15 ∧
      (k.FramesDisjoint → (Link.firstTask h hd).Loaded rom b'.mmu.mem ∧
        (Link.secondTask h hd).Loaded rom b'.mmu.mem) := by
  have hne : k.task2.table1 ≠ k.task1.table1 := by
    have hdistinct := h.distinct
    simp only [List.nodup_cons, List.mem_cons, List.not_mem_nil, or_false] at hdistinct
    exact fun heq => hdistinct.2.1 heq.symm
  let T1 := Link.firstTask h hd
  let T2 := Link.secondTask h hd
  have hinit : Ready k h maps q k.kernelTable1 rom (b.setMem (schedulerInit k.layout k.symbols b.mmu.mem)) :=
    hr.setContexts hd fun w hw => schedulerInit_of_not hw b.mmu.mem
  obtain ⟨m1, hrun1, hready1, -⟩ := fillTask_spec hd T1 hinit hempty1 (by omega)
  obtain ⟨b2, hrun2, hready2, hloaded2, -⟩ := loadTask_spec hd hready1 T1 (Function.update_self ..)
  -- what follows writes to the kernel's `.bss` and the pages of the second task only
  obtain ⟨m3, hrun3, hready3, hframe3⟩ :=
    fillTask_spec hd T2 hready2 ((Function.update_of_ne hne ..).trans hempty2) (by omega)
  obtain ⟨b4, hrun4, hready4, hloaded4, hframe4⟩ := loadTask_spec hd hready3 T2 (Function.update_self ..)
  refine ⟨b4.writeTtbr0 (addrOf k.kernelTable1), ?_, hready4.held,
    ⟨hready4.configured.on, hready4.configured.alignment, hready4.configured.ttbcr, hready4.configured.dacr⟩, ?_⟩
  · exact hrun1.bind (hrun2.bind (hrun3.bind (hrun4.map (Boot.writeTtbr0 (addrOf k.kernelTable1)))))
  · intro hdisjoint
    refine ⟨(hloaded2 hdisjoint.task1).congr ?_, hloaded4 hdisjoint.task2⟩
    intro s hs w hw
    have hbss : ¬ k.kernelBss.Holds w := fun hkernel => T1.kernel_not_held hs (.inl hkernel) hw
    exact (hframe4 w hbss fun s' hs' => Link.tasks_framesApart hdisjoint hs hs' _ hw).trans (hframe3 w hbss)

end

end Td3.Kernel
