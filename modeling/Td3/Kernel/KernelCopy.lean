/-
`copy_kernel_sections_to_ram` (kernel/sections/kernel_sections.S), the first function that `_start` calls: with
the MMU off, the images that ROM has of the kernel's sections are copied to RAM and `.bss` is cleared,
whatever RAM held. Its stack, which it does not use for what it loads or stores, is left out.
-/
import Td3.Kernel.TaskImages

namespace Td3.Kernel

open Arm SectionDesc

/-! ## The function -/

/-- The linker's symbols for the images of the kernel in ROM, and where `.kernel_data` has the counters of
the page-table builder -/
structure KernelLma where
  ldVectorTableLma : Word
  ldKernelTextLma : Word
  ldKernelDataLma : Word
  ldKernelRodataLma : Word
  ldKernelPublicDataLma : Word
  ldKernelSyscallLma : Word
  wTable2Qtty : Nat
  wRamUsedPages : Nat

/-- `copy_kernel_sections_to_ram`, each of its loops run for `n` steps -/
def copyKernelSectionsToRam (k : Link) (l : KernelLma) (c : Cp15) (n : Nat) (mem : Nat → Word) : Option (Nat → Word) :=
  (memcopy c n k.vectorTable.vma l.ldVectorTableLma k.ldVectorTableSize mem).bind fun mem =>
    (memcopy c n k.kernelText.vma l.ldKernelTextLma k.ldKernelTextSize mem).bind fun mem =>
      (memcopy c n k.kernelData.vma l.ldKernelDataLma k.ldKernelDataSize mem).bind fun mem =>
        (memcopy c n k.kernelRodata.vma l.ldKernelRodataLma k.ldKernelRodataSize mem).bind fun mem =>
          (memcopy c n k.publicData.vma l.ldKernelPublicDataLma k.ldKernelPublicDataSize mem).bind fun mem =>
            (memcopy c n k.syscall.vma l.ldKernelSyscallLma k.ldKernelSyscallSize mem).bind fun mem =>
              memfill c n k.kernelBss.vma 0x00 k.ldKernelBssSize mem

/-- The sections that are copied, each with the address of its image -/
def Link.images (k : Link) (l : KernelLma) : List (SectionDesc × Word) :=
  [(k.vectorTable, l.ldVectorTableLma), (k.kernelText, l.ldKernelTextLma), (k.kernelData, l.ldKernelDataLma),
    (k.kernelRodata, l.ldKernelRodataLma), (k.publicData, l.ldKernelPublicDataLma), (k.syscall, l.ldKernelSyscallLma)]

/-- One image after the other -/
def copyImages (c : Cp15) (n : Nat) : List (SectionDesc × Word) → (Nat → Word) → Option (Nat → Word)
  | [], mem => some mem
  | (s, lma) :: images, mem => (memcopy c n s.vma lma s.size mem).bind (copyImages c n images)

theorem copyKernelSectionsToRam_eq (k : Link) (l : KernelLma) (c : Cp15) (n : Nat) (mem : Nat → Word) :
    copyKernelSectionsToRam k l c n mem =
      (copyImages c n (k.images l) mem).bind (memfill c n k.kernelBss.vma 0x00 k.kernelBss.size) := by
  simp only [Link.images, copyImages, Option.bind_assoc, Option.bind_some]
  rfl

/-! ## Loads and stores with the MMU off -/

section
variable {c : Cp15} {mem : Nat → Word} {s : SectionDesc} {lma : Word}

/-- A round of the loops reaches byte `i` of a section of the kernel. -/
theorem transfer_off (hoff : c.sctlr.getLsbD 0 = false) (hs : s.Identity)
    {fetch : (Nat → Word) → Word → Option (Word × Word)} {r1 value : Nat → Word}
    (hfetch : ∀ mem', (∀ w, ¬ s.Holds w → mem' w = mem w) → ∀ i < s.size.toNat,
      fetch mem' (r1 i) = some (value i, r1 (i + 1))) :
    Transfer c fetch s.Holds mem s.vma s.size.toNat r1 value fun i => s.pa + BitVec.ofNat 32 i := by
  refine ⟨hfetch, ?_, ?_, ?_⟩
  · intro mem' _ i _
    rw [hs.pa]
    exact Cp15.translate_off hoff mem' true .store _
  · intro i hi
    exact holds_byte hs.valid hs.fixed hi
  · intro i hi j hj heq
    have hi' := byte_pa hs.valid hs.fixed hi
    have hj' := byte_pa hs.valid hs.fixed hj
    rw [heq] at hi'
    omega

/-- A byte of an image is in ROM. -/
theorem Link.romWord_byte {k : Link} (h : k.Linked) {size : Word} (hrom : InRom lma size) {i : Nat}
    (hi : i < size.toNat) : k.RomWord (wordIndex (lma + BitVec.ofNat 32 i)) := by
  obtain ⟨hlo, hhi⟩ := hrom
  change _ ≤ 0x70010000 + 0x10000 at hhi
  have haddr : (lma + BitVec.ofNat 32 i).toNat = lma.toNat + i := by
    rw [BitVec.toNat_add, BitVec.toNat_ofNat]
    omega
  have hpage : wordIndex (lma + BitVec.ofNat 32 i) / 1024 = pageOf (lma + BitVec.ofNat 32 i) := by
    unfold wordIndex pageOf
    omega
  have hstart : ldRomOrigin.toNat ≤ (lma + BitVec.ofNat 32 i).toNat := by
    rw [haddr]
    omega
  have hend : (lma + BitVec.ofNat 32 i).toNat < ldRomOrigin.toNat + ldRomLength.toNat := by
    show _ < 0x70010000 + 0x10000
    rw [haddr]
    omega
  unfold Link.RomWord Holds
  rw [hpage]
  refine (Link.rom_touched h hstart hend).imp ?_ ?_
  · exact (touchesFrame_of_identity rfl _).2
  · exact (touchesFrame_of_identity rfl _).2

/-- `__memcopy` from ROM to a section of the kernel -/
theorem memcopy_off {k : Link} (h : k.Linked) (hoff : c.sctlr.getLsbD 0 = false) (hs : s.Identity)
    (hapart : ∀ w, k.RomWord w → ¬ s.Holds w) (hrom : InRom lma s.size) (mem : Nat → Word) :
    ∃ mem', Returns (fun n => memcopy c n s.vma lma s.size mem) mem' ∧
      Image s (fun i => byteAt mem (lma + BitVec.ofNat 32 i)) mem' ∧ ∀ w, ¬ s.Holds w → mem' w = mem w := by
  have htransfer : Transfer c (fun mem src => (c.ldrb mem true src).map fun buffer => (buffer, src + 1)) s.Holds mem
      s.vma s.size.toNat (fun i => lma + BitVec.ofNat 32 i) (fun i => byteAt mem (lma + BitVec.ofNat 32 i))
      fun i => s.pa + BitVec.ofNat 32 i := by
    refine transfer_off hoff hs ?_
    intro mem' hmem i hi
    have hnext : lma + BitVec.ofNat 32 i + 1 = lma + BitVec.ofNat 32 (i + 1) := by
      rw [BitVec.add_assoc, BitVec.ofNat_add]
      rfl
    have hbyte : byteAt mem' (lma + BitVec.ofNat 32 i) = byteAt mem (lma + BitVec.ofNat 32 i) :=
      byteAt_congr (hmem _ (hapart _ (Link.romWord_byte h hrom hi)))
    rw [Cp15.ldrb, Cp15.translate_off hoff, Option.map_some, Option.map_some, hnext, hbyte]
  obtain ⟨n, mem', hrun, hcopied⟩ := Copy.run_spec htransfer hs.valid.size
  have hstart : lma + BitVec.ofNat 32 0 = lma := BitVec.add_zero lma
  rw [hstart] at hrun
  refine ⟨mem', ⟨n, hrun⟩, ?_, hcopied.frame⟩
  intro i hi
  exact (hcopied.bytes i hi).trans byteAt_and

/-- `__memfill` of a section of the kernel -/
theorem memfill_off (hoff : c.sctlr.getLsbD 0 = false) (hs : s.Identity) (mem : Nat → Word) :
    ∃ mem', Returns (fun n => memfill c n s.vma 0x00 s.size mem) mem' ∧ Image s (fun _ => 0) mem' ∧
      ∀ w, ¬ s.Holds w → mem' w = mem w := by
  have htransfer : Transfer c (fun _ pattern => some (pattern, pattern)) s.Holds mem s.vma s.size.toNat
      (fun _ => 0x00) (fun _ => 0x00) fun i => s.pa + BitVec.ofNat 32 i :=
    transfer_off hoff hs fun _ _ _ _ => rfl
  obtain ⟨n, mem', hrun, hcopied⟩ := Copy.run_spec htransfer hs.valid.size
  exact ⟨mem', ⟨n, hrun⟩, hcopied.bytes, hcopied.frame⟩

end

/-! ## All of them -/

section
variable {k : Link} {l : KernelLma} {c : Cp15} {mem mem' : Nat → Word}

/-- What the linker says of the images: they are in ROM, and `.kernel_data` has the counters. -/
structure KernelLma.Linked (l : KernelLma) (k : Link) : Prop where
  images : ∀ p ∈ k.images l, InRom p.2 p.1.size
  counters : ∀ w ∈ [l.wTable2Qtty, l.wRamUsedPages], k.kernelData.vma.toNat ≤ 4 * w ∧
    4 * w + 4 ≤ k.kernelData.vma.toNat + k.kernelData.size.toNat

theorem images_sublist : ((k.images l).map Prod.fst).Sublist k.kernelSections :=
  .cons _ (.cons_cons _ (.cons _ (.cons_cons _ (.cons_cons _ (.cons_cons _ (.cons _ (.cons _
    (.cons_cons _ (.cons_cons _ .slnil)))))))))

/-- Neither an image in ROM nor one already copied is overwritten, where no physical page is used twice. -/
theorem copyImages_spec (h : k.Linked) (hoff : c.sctlr.getLsbD 0 = false) (images : List (SectionDesc × Word))
    (hs : ∀ p ∈ images, p.1.Identity ∧ (∀ w, k.RomWord w → ¬ p.1.Holds w) ∧ InRom p.2 p.1.size)
    (hapart : (images.map Prod.fst).Pairwise FramesApart) (mem : Nat → Word) :
    ∃ mem', Returns (fun n => copyImages c n images mem) mem' ∧
      (∀ p ∈ images, Image p.1 (fun i => byteAt mem (p.2 + BitVec.ofNat 32 i)) mem') ∧
      ∀ w, (∀ p ∈ images, ¬ p.1.Holds w) → mem' w = mem w := by
  induction images generalizing mem with
  | nil => exact ⟨mem, ⟨0, fun _ _ => rfl⟩, fun p hp => absurd hp List.not_mem_nil, fun _ _ => rfl⟩
  | cons p images ih =>
    obtain ⟨s, lma⟩ := p
    rw [List.map_cons, List.pairwise_cons] at hapart
    obtain ⟨⟨hid, hrom, hlma⟩, hrest⟩ := List.forall_mem_cons.1 hs
    obtain ⟨mem1, hrun1, himage1, hframe1⟩ := memcopy_off h hoff hid hrom hlma mem
    obtain ⟨mem2, hrun2, himages2, hframe2⟩ := ih hrest hapart.2 mem1
    refine ⟨mem2, hrun1.bind hrun2, ?_, ?_⟩
    · refine List.forall_mem_cons.2 ⟨?_, ?_⟩
      · intro i hi
        have hheld := holds_byte hid.valid hid.fixed hi
        rw [byteAt_congr (hframe2 _ fun p hp => hapart.1 p.1 (List.mem_map_of_mem hp) _ hheld)]
        exact himage1 i hi
      · intro p hp i hi
        obtain ⟨-, hrom', hlma'⟩ := hrest p hp
        have hword := Link.romWord_byte h hlma' hi
        rw [himages2 p hp i hi]
        exact byteAt_congr (hframe1 _ (hrom _ hword))
    · intro w hw
      obtain ⟨hw1, hw2⟩ := List.forall_mem_cons.1 hw
      exact (hframe2 w hw2).trans (hframe1 w hw1)

/-- ROM is no page of RAM. -/
theorem rom_apart (hd : k.KernelApart) {s : SectionDesc} (hs : s ∈ k.vectorTable :: k.ramSections) {w : Nat}
    (hw : k.RomWord w) : ¬ s.Holds w := by
  have hkernel := hd.kernel
  rw [Link.kernelSections, List.pairwise_cons, List.pairwise_cons, List.pairwise_cons] at hkernel
  obtain ⟨hinit, hvector, hrom, -⟩ := hkernel
  rcases List.mem_cons.1 hs with rfl | hs
  · rcases hw with hw | hw
    · exact hinit _ List.mem_cons_self _ hw
    · exact (hvector _ List.mem_cons_self).symm _ hw
  · rcases hw with hw | hw
    · exact hinit _ (List.mem_cons_of_mem _ (List.mem_cons_of_mem _ hs)) _ hw
    · exact hrom _ hs _ hw

theorem images_ram {p : SectionDesc × Word} (hp : p ∈ k.images l) : p.1 ∈ k.vectorTable :: k.ramSections := by
  simp only [Link.images, List.mem_cons, List.not_mem_nil, or_false] at hp
  rcases hp with rfl | rfl | rfl | rfl | rfl | rfl <;> simp [Link.ramSections]

theorem images_kernel {p : SectionDesc × Word} (hp : p ∈ k.images l) : p.1 ∈ k.kernelSections :=
  images_sublist.subset (List.mem_map_of_mem hp)

theorem images_bss (hd : k.KernelApart) {p : SectionDesc × Word} (hp : p ∈ k.images l) :
    FramesApart p.1 k.kernelBss := by
  have happart := List.pairwise_iff_getElem.1 hd.kernel
  simp only [Link.images, List.mem_cons, List.not_mem_nil, or_false] at hp
  rcases hp with rfl | rfl | rfl | rfl | rfl | rfl
  · exact happart 1 7 (by decide : 1 < 10) (by decide : 7 < 10) (by decide)
  · exact happart 3 7 (by decide : 3 < 10) (by decide : 7 < 10) (by decide)
  · exact happart 4 7 (by decide : 4 < 10) (by decide : 7 < 10) (by decide)
  · exact happart 5 7 (by decide : 5 < 10) (by decide : 7 < 10) (by decide)
  · exact (happart 7 8 (by decide : 7 < 10) (by decide : 8 < 10) (by decide)).symm
  · exact (happart 7 9 (by decide : 7 < 10) (by decide : 9 < 10) (by decide)).symm

/-- The kernel's sections as ROM has them, a cleared `.bss`, and ROM as it was -/
structure KernelLoaded (k : Link) (l : KernelLma) (rom mem : Nat → Word) : Prop where
  images : ∀ p ∈ k.images l, Image p.1 (fun i => byteAt rom (p.2 + BitVec.ofNat 32 i)) mem
  bss : Image k.kernelBss (fun _ => 0) mem
  rom : ∀ w, k.RomWord w → mem w = rom w

/-- From any memory, with the MMU off -/
theorem copyKernelSectionsToRam_spec (h : k.Linked) (hd : k.KernelApart) (hl : l.Linked k)
    (hoff : c.sctlr.getLsbD 0 = false) (rom : Nat → Word) :
    ∃ mem, Returns (fun n => copyKernelSectionsToRam k l c n rom) mem ∧ KernelLoaded k l rom mem := by
  have hsections : ∀ p ∈ k.images l, p.1.Identity ∧ (∀ w, k.RomWord w → ¬ p.1.Holds w) ∧ InRom p.2 p.1.size :=
    fun p hp => ⟨Link.kernel_identity h _ (images_kernel hp), fun _ => rom_apart hd (images_ram hp), hl.images p hp⟩
  have hbss : k.kernelBss ∈ k.kernelSections := by simp [Link.kernelSections, Link.ramSections]
  obtain ⟨mem1, hrun1, himages, hframe1⟩ :=
    copyImages_spec h hoff (k.images l) hsections (hd.kernel.sublist images_sublist) rom
  obtain ⟨mem2, hrun2, hzero, hframe2⟩ := memfill_off hoff (Link.kernel_identity h _ hbss) mem1
  refine ⟨mem2, ?_, ?_, hzero, ?_⟩
  · simp only [copyKernelSectionsToRam_eq]
    exact hrun1.bind hrun2
  · intro p hp i hi
    obtain ⟨hid, -⟩ := hsections p hp
    have hheld := holds_byte hid.valid hid.fixed hi
    rw [byteAt_congr (hframe2 _ (images_bss hd hp _ hheld))]
    exact himages p hp i hi
  · intro w hw
    refine (hframe2 w (rom_apart hd ?_ hw)).trans (hframe1 w fun p hp => rom_apart hd (images_ram hp) hw)
    simp [Link.ramSections]

/-! ## Words -/

/-- A word is its four bytes. -/
theorem word_eq_of_bytes {w : Nat} (hlt : w < 2 ^ 30)
    (hbytes : ∀ j < 4, byteAt mem' (BitVec.ofNat 32 (4 * w + j)) = byteAt mem (BitVec.ofNat 32 (4 * w + j))) :
    mem' w = mem w := by
  apply BitVec.eq_of_getLsbD_eq
  intro i hi
  have haddr : (BitVec.ofNat 32 (4 * w + i / 8)).toNat = 4 * w + i / 8 := by
    rw [BitVec.toNat_ofNat]
    omega
  have hbit (mem : Nat → Word) :
      (byteAt mem (BitVec.ofNat 32 (4 * w + i / 8))).getLsbD (i % 8) = (mem w).getLsbD i := by
    have hword : wordIndex (BitVec.ofNat 32 (4 * w + i / 8)) = w := by
      rw [wordIndex, haddr]
      omega
    have hmod : (4 * w + i / 8) % 4 = i / 8 := by omega
    have hbyte : decide (i % 8 < 8) = true := decide_eq_true (by omega)
    rw [byteAt, hword, haddr, hmod, getLsbD_byte (by omega), hbyte, Bool.true_and, Nat.div_add_mod]
  rw [← hbit mem', ← hbit mem, hbytes (i / 8) (by omega)]

theorem byte_addr {s : SectionDesc} (hs : s.Identity) {a : Nat} (hlo : s.vma.toNat ≤ a)
    (hhi : a < s.vma.toNat + s.size.toNat) : BitVec.ofNat 32 a = s.pa + BitVec.ofNat 32 (a - s.vma.toNat) := by
  have hend := hs.valid.vma_le
  apply BitVec.eq_of_toNat_eq
  rw [byte_pa hs.valid hs.fixed (by omega), hs.pa, BitVec.toNat_ofNat]
  omega

/-- The words in a section of the kernel are those whose bytes it was loaded with. -/
theorem Image.word {s : SectionDesc} {value : Nat → Word} (hs : s.Identity) (himage : Image s value mem')
    (mem : Nat → Word) {w : Nat} (hlo : s.vma.toNat ≤ 4 * w) (hhi : 4 * w + 4 ≤ s.vma.toNat + s.size.toNat)
    (hvalue : ∀ j < 4, byteAt mem (BitVec.ofNat 32 (4 * w + j)) = value (4 * w + j - s.vma.toNat)) :
    mem' w = mem w := by
  have hend := hs.valid.vma_le
  refine word_eq_of_bytes (by omega) ?_
  intro j hj
  rw [hvalue j hj, byte_addr hs (by omega) (by omega)]
  exact himage _ (by omega)

/-! ## Ready for `mmu_init` -/

/-- What the compiler has put into the images: the section tables in that of `.kernel_rodata`, and counters that
are 0 in that of `.kernel_data` -/
structure RomImage (k : Link) (l : KernelLma) (rom : Nat → Word) : Prop where
  rodata : ∃ image, k.Described image ∧ ∀ i < k.ldKernelRodataSize.toNat,
    byteAt rom (l.ldKernelRodataLma + BitVec.ofNat 32 i) = byteAt image (k.kernelRodata.vma + BitVec.ofNat 32 i)
  counters : ∀ w ∈ [l.wTable2Qtty, l.wRamUsedPages], ∀ j < 4,
    byteAt rom (l.ldKernelDataLma + BitVec.ofNat 32 (4 * w + j - k.kernelData.vma.toNat)) = 0

theorem KernelLoaded.word {rom : Nat → Word} (h : k.Linked) (hloaded : KernelLoaded k l rom mem')
    {p : SectionDesc × Word} (hp : p ∈ k.images l) (mem : Nat → Word) {w : Nat} (hlo : p.1.vma.toNat ≤ 4 * w)
    (hhi : 4 * w + 4 ≤ p.1.vma.toNat + p.1.size.toNat)
    (hvalue : ∀ j < 4, byteAt mem (BitVec.ofNat 32 (4 * w + j)) =
      byteAt rom (p.2 + BitVec.ofNat 32 (4 * w + j - p.1.vma.toNat))) : mem' w = mem w :=
  (hloaded.images p hp).word (Link.kernel_identity h _ (images_kernel hp)) mem hlo hhi hvalue

theorem byteAt_zero (pa : Word) : byteAt (fun _ => 0) pa = 0 := by
  show (0#32 >>> (8 * (pa.toNat % 4))) &&& 0xFF#32 = 0
  rw [BitVec.zero_ushiftRight, BitVec.zero_and]
  rfl

/-- The tables of the MMU are empty, the counters are 0, and the section tables are in memory. -/
theorem KernelLoaded.booted {rom : Nat → Word} (h : k.Linked) (hl : l.Linked k) (himage : RomImage k l rom)
    (hloaded : KernelLoaded k l rom mem) (c : Cp15) :
    Booted k ⟨⟨mem, mem l.wTable2Qtty, mem l.wRamUsedPages⟩, c⟩ := by
  have hcounter : ∀ w ∈ [l.wTable2Qtty, l.wRamUsedPages], mem w = 0 := by
    intro w hw
    have hdata : (k.kernelData, l.ldKernelDataLma) ∈ k.images l := by simp [Link.images]
    obtain ⟨hlo, hhi⟩ := hl.counters w hw
    refine hloaded.word h hdata (fun _ => 0) hlo hhi ?_
    intro j hj
    rw [byteAt_zero, himage.counters w hw j hj]
  refine ⟨?_, hcounter _ List.mem_cons_self, hcounter _ (List.mem_cons_of_mem _ List.mem_cons_self), ?_⟩
  · intro w hlo hhi
    have hbss : k.kernelBss ∈ k.kernelSections := by simp [Link.kernelSections, Link.ramSections]
    exact hloaded.bss.word (Link.kernel_identity h _ hbss) (fun _ => 0) hlo hhi fun _ _ => byteAt_zero _
  · obtain ⟨image, hdescribed, hbytes⟩ := himage.rodata
    have hrodata : (k.kernelRodata, l.ldKernelRodataLma) ∈ k.images l := by simp [Link.images]
    have hid : k.kernelRodata.Identity := Link.kernel_identity h _ (images_kernel hrodata)
    have hsame {w : Nat} (hlo : k.kernelRodata.vma.toNat ≤ 4 * w)
        (hhi : 4 * w + 4 ≤ k.kernelRodata.vma.toNat + k.kernelRodata.size.toNat) : mem w = image w := by
      refine hloaded.word h hrodata image hlo hhi ?_
      intro j hj
      have hin : 4 * w + j - k.kernelRodata.vma.toNat < k.kernelRodata.size.toNat := by omega
      rw [byte_addr hid (by omega) (by omega), hbytes _ hin]
      rfl
    intro p hp j hj
    obtain ⟨hstart, hend⟩ := h.sections p hp
    obtain ⟨h0, h1, h2, h3⟩ := hdescribed p hp j hj
    refine ⟨(hsame ?_ ?_).trans h0, (hsame ?_ ?_).trans h1, (hsame ?_ ?_).trans h2, (hsame ?_ ?_).trans h3⟩ <;> omega

end

end Td3.Kernel
