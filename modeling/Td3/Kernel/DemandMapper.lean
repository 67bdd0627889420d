/-
`mmu_fill_pte_from_vma` (kernel/mmu.S) instruction by instruction, against `mmu_fill_page_tables`: what
the copy does to the tables and the two counters is what the boot-time loops do for a section of one
page, whatever the tables hold, and it gives the registers it uses back.

The stack is the memory of the processor here; the tables and the counters are apart from it, as in the
model of the loops.
-/
import Td3.Kernel.Abort

namespace Td3.Kernel

open Arm

/-! ## Instructions -/

/-- The linker's symbols, and where the calls return to. -/
structure MapperSymbols extends MmuSymbols where
  wTable2Qtty : Word
  wRamUsedPages : Word
  returnAddress : Fin 3 → Word

/-- The processor with its stack, and what it maps with. -/
structure Mapper where
  cpu : Cpu
  mmu : Mmu

namespace Mapper

def exec (f : Cpu → Cpu) (x : Mapper) : Mapper := { x with cpu := f x.cpu }

/-- `lsr d, n, #k` -/
def lsr (d n : Reg) (k : Nat) (m : Cpu) : Cpu := m.set (m.get n >>> k) d
/-- `bic d, o` -/
def bic (d o : Reg) (m : Cpu) : Cpu := m.set (m.get d &&& ~~~m.get o) d
/-- `and d, n, #v` -/
def andImm (d n : Reg) (v : Word) (m : Cpu) : Cpu := m.set (m.get n &&& v) d
/-- `orr d, n, o, lsl #k` -/
def orrLsl (d n o : Reg) (k : Nat) (m : Cpu) : Cpu := m.set (m.get n ||| m.get o <<< k) d

/-- `ldr d, [n]` and `str s, [n]` of an entry of the tables -/
def ldr (d n : Reg) (x : Mapper) : Mapper := { x with cpu := x.cpu.set (x.mmu.ldr (x.cpu.get n)) d }
def str (s n : Reg) (x : Mapper) : Mapper := { x with mmu := x.mmu.str (x.cpu.get s) (x.cpu.get n) }

/-- `ldr d, [n]` and `str s, [n]` with `n` at `w_table2_qtty` -/
def ldrTable2Qtty (d : Reg) (x : Mapper) : Mapper := { x with cpu := x.cpu.set x.mmu.wTable2Qtty d }
def strTable2Qtty (s : Reg) (x : Mapper) : Mapper := { x with mmu := { x.mmu with wTable2Qtty := x.cpu.get s } }

/-- `ldr d, [n]` and `str s, [n]` with `n` at `w_ram_used_pages` -/
def ldrRamUsedPages (d : Reg) (x : Mapper) : Mapper := { x with cpu := x.cpu.set x.mmu.wRamUsedPages d }
def strRamUsedPages (s : Reg) (x : Mapper) : Mapper := { x with mmu := { x.mmu with wRamUsedPages := x.cpu.get s } }

/-! ## The functions called -/

/-- `prv_mmu_fill_pte1` -/
def prvMmuFillPte1 (x : Mapper) : Mapper :=
  let x := x.exec (Cpu.movImm (.r 3) 0x3FF)
  let x := x.exec (bic (.r 0) (.r 3))
  let x := x.exec (orrLsl (.r 0) (.r 0) (.r 1) 5)
  let x := x.exec (Cpu.orrImm (.r 0) (.r 0) 0x1)
  x.str (.r 0) (.r 2)

/-- `prv_mmu_fill_pte2` up to the `pop` -/
def pte2Entry (m : Cpu) : Cpu :=
  let m := Cpu.movImm (.r 4) 0xFFF m
  let m := bic (.r 0) (.r 4) m
  let m := m |> Cpu.mov (.r 4) (.r 3) |> lsr (.r 4) (.r 4) 1 |> orrLsl (.r 0) (.r 0) (.r 4) 10
  let m := m |> Cpu.mov (.r 4) (.r 1) |> lsr (.r 4) (.r 4) 2 |> orrLsl (.r 0) (.r 0) (.r 4) 9
  let m := m |> Cpu.mov (.r 4) (.r 2) |> lsr (.r 4) (.r 4) 2 |> orrLsl (.r 0) (.r 0) (.r 4) 6
  let m := m |> Cpu.mov (.r 4) (.r 1) |> andImm (.r 4) (.r 4) 0b011 |> orrLsl (.r 0) (.r 0) (.r 4) 4
  let m := m |> Cpu.mov (.r 4) (.r 2) |> andImm (.r 4) (.r 4) 0b00011 |> orrLsl (.r 0) (.r 0) (.r 4) 2
  let m := Cpu.orrImm (.r 0) (.r 0) 0b10 m
  m |> Cpu.mov (.r 4) (.r 3) |> andImm (.r 4) (.r 4) 0b001 |> orrLsl (.r 0) (.r 0) (.r 4) 0

/-- `prv_mmu_fill_pte2` -/
def prvMmuFillPte2 (x : Mapper) : Mapper :=
  let x := x.exec (Cpu.push [.r 4, .r 12])
  let x := x.exec pte2Entry
  let x := x.exec (Cpu.pop [.r 4, .r 12])
  let x := x.exec (Cpu.ldr (.r 1) .sp 0)
  x.str (.r 0) (.r 1)

/-- `prv_mmu_assign_free_pa` -/
def prvMmuAssignFreePa (S : MapperSymbols) (x : Mapper) : Mapper :=
  let x := x.exec (Cpu.movImm (.r 2) S.wRamUsedPages)
  let x := x.ldrRamUsedPages (.r 1)
  let x := x.exec (Cpu.movImm (.r 0) S.ldFreeRamOrigin)
  let x := x.exec (Cpu.addLsl (.r 0) (.r 0) (.r 1) 12)
  let x := x.exec (Cpu.addImm (.r 1) (.r 1) 1)
  x.strRamUsedPages (.r 1)

/-! ## mmu_fill_pte_from_vma -/

/-- From the entry to the branch at `teq pte1, #0` -/
def pte1Check (x : Mapper) : Mapper :=
  let x := x.exec (Cpu.push [.r 0, .r 1, .r 2, .r 3, .r 4, .r 5, .r 6, .r 7, .r 8, .lr])
  let x := x.exec (lsr (.r 1) (.r 0) 20)
  let x := x.exec (lsr (.r 2) (.r 0) 12)
  let x := x.exec (Cpu.bicImm (.r 2) (.r 2) 0xFFFFFF00)
  let x := x.exec (Cpu.mrcTtbr0 (.r 6))
  let x := x.exec (Cpu.addLsl (.r 6) (.r 6) (.r 1) 2)
  let x := x.ldr (.r 7) (.r 6)
  x.exec (Cpu.teqImm (.r 7) 0)

def pte1Empty (S : MapperSymbols) (x : Mapper) : Mapper :=
  let x := x.exec (Cpu.movImm (.r 5) S.wTable2Qtty)
  let x := x.ldrTable2Qtty (.r 8)
  let x := x.exec (Cpu.movImm (.r 3) S.ldPageTable2Vma)
  let x := x.exec (Cpu.addLsl (.r 3) (.r 3) (.r 8) 10)
  let x := x.exec (Cpu.addImm (.r 8) (.r 8) 1)
  let x := x.strTable2Qtty (.r 8)
  let x := x.exec (Cpu.push [.r 0, .r 1, .r 2, .r 3])
  let x := x.exec (Cpu.mov (.r 0) (.r 3))
  let x := x.exec (Cpu.movImm (.r 1) (DOMAIN_RAM_FREE.setWidth 32))
  let x := x.exec (Cpu.mov (.r 2) (.r 6))
  let x := (x.exec (Cpu.movImm .lr (S.returnAddress 0))).prvMmuFillPte1
  x.exec (Cpu.pop [.r 0, .r 1, .r 2, .r 3])

def pte1Full (x : Mapper) : Mapper :=
  let x := x.exec (Cpu.mov (.r 3) (.r 7))
  let x := x.exec (Cpu.bicImm (.r 3) (.r 3) 0xFF)
  x.exec (Cpu.bicImm (.r 3) (.r 3) 0x300)

def pte1Ready (S : MapperSymbols) (x : Mapper) : Mapper :=
  let x := x.exec (Cpu.addLsl (.r 4) (.r 3) (.r 2) 2)
  let x := x.exec (Cpu.push [.r 4])
  let x := (x.exec (Cpu.movImm .lr (S.returnAddress 1))).prvMmuAssignFreePa S
  let x := x.exec (Cpu.movImm (.r 1) (AP_RW_RW.setWidth 32))
  let x := x.exec (Cpu.movImm (.r 2) (MEM_STRONGLY_ORDERED.setWidth 32))
  let x := x.exec (Cpu.movImm (.r 3) (G_S_X.setWidth 32))
  let x := (x.exec (Cpu.movImm .lr (S.returnAddress 2))).prvMmuFillPte2
  let x := x.exec (Cpu.pop [.r 4])
  let x := x.exec (Cpu.pop [.r 0, .r 1, .r 2, .r 3, .r 4, .r 5, .r 6, .r 7, .r 8, .lr])
  x.exec Cpu.movPcLr

/-- `mmu_fill_pte_from_vma` -/
def mmuFillPteFromVma (S : MapperSymbols) (x : Mapper) : Mapper :=
  let x := x.pte1Check
  let x := if x.cpu.condEq then x.pte1Empty S else x.pte1Full
  x.pte1Ready S

/-! ## What the instructions do -/

variable {S : MapperSymbols} {x : Mapper} {b : Bank} {u : Nat}

section
attribute [local simp] exec lsr bic andImm orrLsl ldr str ldrTable2Qtty strTable2Qtty ldrRamUsedPages strRamUsedPages
  Cpu.pop Cpu.push Cpu.loadRegs Cpu.gets Cpu.get Cpu.set Cpu.bank Cpu.movImm Cpu.mov Cpu.addImm Cpu.addLsl Cpu.bicImm
  Cpu.orrImm Cpu.ldr Cpu.mrcTtbr0 Cpu.movPcLr Cpu.teqImm Cpu.setNZ Cpu.condEq storeWords addrOf_add addrOf_sub
  wordIndex_addrOf
  Nat.add_assoc

theorem pte2Entry_spec (m : Cpu) : ∃ r4, pte2Entry m = { m with
    r := Function.update (Function.update m.r 0 (Mmu.pte2Of (m.r 0) (m.r 1) (m.r 2) (m.r 3))) 4 r4 } := by
  refine ⟨(pte2Entry m).r 4, ?_⟩
  simp [pte2Entry, Mmu.pte2Of]
  funext i
  by_cases h4 : i = 4
  · simp [h4]
  · by_cases h0 : i = 0
    · simp [h0]
    · simp [h0, h4]

/-- The entry goes to the address that the caller has pushed. -/
theorem prvMmuFillPte2_spec (hb : bankOf x.cpu.cpsr.mode = b) (hsp : x.cpu.sp b = addrOf (u + 2))
    (hu : u + 2 < 2 ^ 30) :
    ∃ r mem, prvMmuFillPte2 x = { x with
        cpu := { x.cpu with r := r, mem := mem }
        mmu := x.mmu.prvMmuFillPte2 (x.cpu.r 0) (x.cpu.r 1) (x.cpu.r 2) (x.cpu.r 3) (x.cpu.mem (u + 2)) } ∧
      (∀ i : Fin 13, 4 ≤ i.val → r i = x.cpu.r i) ∧ ∀ i, u + 2 ≤ i → mem i = x.cpu.mem i := by
  have hpush : Cpu.push [.r 4, .r 12] x.cpu = { x.cpu with
      sp := Function.update x.cpu.sp b (addrOf u)
      mem := Function.update (Function.update x.cpu.mem u (x.cpu.r 4)) (u + 1) (x.cpu.r 12) } := by
    simp (disch := omega) [hb, hsp]
  obtain ⟨r4, hentry⟩ := pte2Entry_spec (Cpu.push [.r 4, .r 12] x.cpu)
  have hsp' : Function.update x.cpu.sp b (addrOf (u + 2)) = x.cpu.sp := by rw [← hsp, Function.update_eq_self]
  have hall : prvMmuFillPte2 x = str (.r 0) (.r 1) ((((Mapper.exec pte2Entry
      (x.exec (Cpu.push [.r 4, .r 12]))).exec (Cpu.pop [.r 4, .r 12])).exec (Cpu.ldr (.r 1) .sp 0))) := rfl
  simp only [exec, hentry] at hall
  rw [hpush] at hall
  refine ⟨(prvMmuFillPte2 x).cpu.r, (prvMmuFillPte2 x).cpu.mem, ?_, ?_, ?_⟩
  · rw [hall]
    simp (disch := omega) [hb, hsp', hsp, Function.update_of_ne, Mmu.prvMmuFillPte2]
  · intro i hi
    rw [hall]
    by_cases h4 : i = 4
    · simp (disch := omega) [hb, h4, Function.update_of_ne]
    · by_cases h12 : i = 12
      · simp (disch := omega) [hb, h12]
      · simp (disch := omega) [hb]
  · intro i hi
    rw [hall]
    simp (disch := omega) [hb, Function.update_of_ne]

theorem prvMmuAssignFreePa_spec (S : MapperSymbols) (x : Mapper) : ∃ r, prvMmuAssignFreePa S x = { x with
      cpu := { x.cpu with r := r }, mmu := (x.mmu.prvMmuAssignFreePa S.toMmuSymbols).2 } ∧
    r 0 = (x.mmu.prvMmuAssignFreePa S.toMmuSymbols).1 ∧ ∀ i : Fin 13, 3 ≤ i.val → r i = x.cpu.r i := by
  refine ⟨(prvMmuAssignFreePa S x).cpu.r, ?_, ?_, ?_⟩
  · simp [prvMmuAssignFreePa, Mmu.prvMmuAssignFreePa]
  · simp [prvMmuAssignFreePa, Mmu.prvMmuAssignFreePa]
  · intro i hi
    simp (disch := omega) [prvMmuAssignFreePa]

theorem prvMmuFillPte1_spec (x : Mapper) : ∃ r, prvMmuFillPte1 x = { x with
      cpu := { x.cpu with r := r }, mmu := x.mmu.prvMmuFillPte1 (x.cpu.r 0) (x.cpu.r 1) (x.cpu.r 2) } ∧
    ∀ i : Fin 13, 4 ≤ i.val → r i = x.cpu.r i := by
  refine ⟨(prvMmuFillPte1 x).cpu.r, ?_, ?_⟩
  · simp [prvMmuFillPte1, Mmu.prvMmuFillPte1]
  · intro i hi
    simp (disch := omega) [prvMmuFillPte1]

/-- The registers at the branch, with the ten words of the frame on the stack -/
theorem pte1Check_spec (hb : bankOf x.cpu.cpsr.mode = b) (hsp : x.cpu.sp b = addrOf (u + 14)) (hu : u + 14 < 2 ^ 30) :
    ∃ r psr mem, pte1Check x = { x with cpu := { x.cpu with
        r := r, sp := Function.update x.cpu.sp b (addrOf (u + 4)), cpsr := psr, mem := mem } } ∧
      psr.mode = x.cpu.cpsr.mode ∧ r 0 = x.cpu.r 0 ∧ r 2 = getPte2IndexFromVma (x.cpu.r 0) ∧
      r 6 = x.cpu.ttbr0 + getPte1IndexFromVma (x.cpu.r 0) <<< 2 ∧ r 7 = x.mmu.ldr (r 6) ∧
      psr.z = decide (r 7 = 0) ∧ (∀ i : Fin 13, 9 ≤ i.val → r i = x.cpu.r i) ∧
      (∀ k : Fin 9, mem (u + 4 + k) = x.cpu.r (k.castLE (by decide))) ∧ mem (u + 13) = x.cpu.lr b ∧
      ∀ i, u + 14 ≤ i → mem i = x.cpu.mem i := by
  refine ⟨(pte1Check x).cpu.r, (pte1Check x).cpu.cpsr, (pte1Check x).cpu.mem, ?_, ?_, ?_, ?_, ?_, ?_, ?_, ?_, ?_, ?_, ?_⟩
  · simp (disch := omega) [pte1Check, hb, hsp]
  · simp [pte1Check]
  · simp [pte1Check]
  · simp [pte1Check, getPte2IndexFromVma]
  · simp [pte1Check, getPte1IndexFromVma]
  · simp [pte1Check]
  · simp [pte1Check]
  · intro i hi
    simp (disch := omega) [pte1Check]
  · intro k
    fin_cases k
    all_goals simp (disch := omega) [pte1Check, hb, hsp, Function.update_of_ne]
  · simp (disch := omega) [pte1Check, hb, hsp, Function.update_of_ne]
  · intro i hi
    simp (disch := omega) [pte1Check, hb, hsp, Function.update_of_ne]

theorem pte1Full_spec (x : Mapper) : pte1Full x = { x with cpu := { x.cpu with
    r := Function.update x.cpu.r 3 (getTable2AddrFromPte1 (x.cpu.r 7)) } } := by
  simp [pte1Full, getTable2AddrFromPte1]

theorem pte1Empty_spec (S : MapperSymbols) (hb : bankOf x.cpu.cpsr.mode = b) (hsp : x.cpu.sp b = addrOf (u + 4))
    (hu : u + 4 < 2 ^ 30) :
    ∃ r lr mem, pte1Empty S x = { x with
        cpu := { x.cpu with r := r, lr := Function.update x.cpu.lr b lr, mem := mem }
        mmu := { x.mmu with wTable2Qtty := x.mmu.wTable2Qtty + 1 }.prvMmuFillPte1
          (S.ldPageTable2Vma + x.mmu.wTable2Qtty <<< 10) (DOMAIN_RAM_FREE.setWidth 32) (x.cpu.r 6) } ∧
      r 2 = x.cpu.r 2 ∧ r 3 = S.ldPageTable2Vma + x.mmu.wTable2Qtty <<< 10 ∧
      (∀ i : Fin 13, 9 ≤ i.val → r i = x.cpu.r i) ∧ ∀ i, u + 4 ≤ i → mem i = x.cpu.mem i := by
  -- up to the call
  generalize hm1 : (((((((((((x.exec (Cpu.movImm (.r 5) S.wTable2Qtty)).ldrTable2Qtty (.r 8)).exec
    (Cpu.movImm (.r 3) S.ldPageTable2Vma)).exec (Cpu.addLsl (.r 3) (.r 3) (.r 8) 10)).exec
    (Cpu.addImm (.r 8) (.r 8) 1)).strTable2Qtty (.r 8)).exec (Cpu.push [.r 0, .r 1, .r 2, .r 3])).exec
    (Cpu.mov (.r 0) (.r 3))).exec (Cpu.movImm (.r 1) (DOMAIN_RAM_FREE.setWidth 32))).exec
    (Cpu.mov (.r 2) (.r 6))).exec (Cpu.movImm .lr (S.returnAddress 0))) = x1
  have hall : pte1Empty S x = (prvMmuFillPte1 x1).exec (Cpu.pop [.r 0, .r 1, .r 2, .r 3]) := by
    rw [← hm1]
    rfl
  obtain ⟨r, hcall, hr⟩ := prvMmuFillPte1_spec x1
  rw [hcall] at hall
  have hsp' : Function.update x.cpu.sp b (addrOf (u + 4)) = x.cpu.sp := by rw [← hsp, Function.update_eq_self]
  refine ⟨(pte1Empty S x).cpu.r, (pte1Empty S x).cpu.lr b, (pte1Empty S x).cpu.mem, ?_, ?_, ?_, ?_, ?_⟩
  · rw [hall, ← hm1]
    simp (disch := omega) [hb, hsp', hsp]
  · rw [hall, ← hm1]
    simp (disch := omega) [hb, hsp, Function.update_of_ne]
  · rw [hall, ← hm1]
    simp (disch := omega) [hb, hsp, Function.update_of_ne]
  · intro i hi
    rw [hall]
    have hi4 := hr i (by omega)
    rw [← hm1] at hi4 ⊢
    simp (disch := omega) [hb, hsp] at hi4 ⊢
    exact hi4
  · intro i hi
    rw [hall, ← hm1]
    simp (disch := omega) [hb, hsp, Function.update_of_ne]

/-- The entry of the page, and the frame given back -/
theorem pte1Ready_spec (S : MapperSymbols) (hb : bankOf x.cpu.cpsr.mode = b) (hsp : x.cpu.sp b = addrOf (u + 4))
    (hu : u + 14 < 2 ^ 30) :
    (pte1Ready S x).mmu = (x.mmu.prvMmuAssignFreePa S.toMmuSymbols).2.prvMmuFillPte2
        (x.mmu.prvMmuAssignFreePa S.toMmuSymbols).1 (AP_RW_RW.setWidth 32) (MEM_STRONGLY_ORDERED.setWidth 32)
        (G_S_X.setWidth 32) (x.cpu.r 3 + x.cpu.r 2 <<< 2) ∧
      (∀ k : Fin 9, (pte1Ready S x).cpu.r (k.castLE (by decide)) = x.cpu.mem (u + 4 + k)) ∧
      (∀ i : Fin 13, 9 ≤ i.val → (pte1Ready S x).cpu.r i = x.cpu.r i) ∧
      (pte1Ready S x).cpu.sp = Function.update x.cpu.sp b (addrOf (u + 14)) ∧
      (pte1Ready S x).cpu.lr = Function.update x.cpu.lr b (x.cpu.mem (u + 13)) ∧
      ∀ i, u + 4 ≤ i → (pte1Ready S x).cpu.mem i = x.cpu.mem i := by
  -- up to the first call
  generalize hm1 : ((x.exec (Cpu.addLsl (.r 4) (.r 3) (.r 2) 2)).exec (Cpu.push [.r 4])).exec
    (Cpu.movImm .lr (S.returnAddress 1)) = x1
  obtain ⟨r1, hcall1, hpa, hr1⟩ := prvMmuAssignFreePa_spec S x1
  -- up to the second one
  generalize hm2 : ((((prvMmuAssignFreePa S x1).exec (Cpu.movImm (.r 1) (AP_RW_RW.setWidth 32))).exec
    (Cpu.movImm (.r 2) (MEM_STRONGLY_ORDERED.setWidth 32))).exec (Cpu.movImm (.r 3) (G_S_X.setWidth 32))).exec
    (Cpu.movImm .lr (S.returnAddress 2)) = x2
  have hall : pte1Ready S x = (((prvMmuFillPte2 x2).exec (Cpu.pop [.r 4])).exec
      (Cpu.pop [.r 0, .r 1, .r 2, .r 3, .r 4, .r 5, .r 6, .r 7, .r 8, .lr])).exec Cpu.movPcLr := by
    rw [← hm2, ← hm1]
    rfl
  rw [hcall1] at hm2
  have hb2 : bankOf x2.cpu.cpsr.mode = b := by
    rw [← hm2, ← hm1]
    simp [hb]
  have hsp2 : x2.cpu.sp b = addrOf (u + 1 + 2) := by
    rw [← hm2, ← hm1]
    simp (disch := omega) [hb, hsp]
  obtain ⟨r2, mem2, hcall2, hr2, hmem2⟩ := prvMmuFillPte2_spec hb2 hsp2 (by omega)
  rw [hcall2] at hall
  have hstack : ∀ i, u + 4 ≤ i → mem2 i = x.cpu.mem i := by
    intro i hi
    rw [hmem2 i (by omega), ← hm2, ← hm1]
    simp (disch := omega) [hb, hsp, Function.update_of_ne]
  refine ⟨?_, ?_, ?_, ?_, ?_, ?_⟩
  · have hmmu : (pte1Ready S x).mmu =
        x2.mmu.prvMmuFillPte2 (x2.cpu.r 0) (x2.cpu.r 1) (x2.cpu.r 2) (x2.cpu.r 3) (x2.cpu.mem (u + 1 + 2)) := by
      rw [hall]
      rfl
    rw [← hm1] at hm2 hpa
    rw [hmmu, ← hm2]
    simp (disch := omega) [hb, hsp] at hpa ⊢
    rw [hpa]
  · intro k
    rw [hall]
    fin_cases k
    all_goals simp (disch := omega) [hb2, hsp2, hstack]
  · intro i hi
    have hx2 : x2.cpu.r i = x.cpu.r i := by
      have hi1 := hr1 i (by omega)
      rw [← hm1] at hi1
      rw [← hm2]
      simp (disch := omega) at hi1 ⊢
      exact hi1
    rw [hall]
    simp (disch := omega) [hb2, hr2, hx2]
  · rw [hall, ← hm2, ← hm1]
    simp (disch := omega) [hb, hsp]
  · rw [hall, ← hm2, ← hm1]
    simp (disch := omega) [hb, hsp, hstack]
  · intro i hi
    rw [hall]
    simp [hstack i hi]

end

/-- What the instructions leave: the tables as `Mmu.mmuFillPteFromVma` has them, and the registers as they
were. -/
theorem mmuFillPteFromVma_spec (S : MapperSymbols) (hb : bankOf x.cpu.cpsr.mode = b)
    (hsp : x.cpu.sp b = addrOf (u + 14)) (hu : u + 14 < 2 ^ 30) :
    (mmuFillPteFromVma S x).mmu = x.mmu.mmuFillPteFromVma S.toMmuSymbols x.cpu.ttbr0 (x.cpu.r 0) ∧
      (mmuFillPteFromVma S x).cpu.r = x.cpu.r ∧ (mmuFillPteFromVma S x).cpu.sp = x.cpu.sp ∧
      (mmuFillPteFromVma S x).cpu.lr = x.cpu.lr ∧
      ∀ i, u + 14 ≤ i → (mmuFillPteFromVma S x).cpu.mem i = x.cpu.mem i := by
  obtain ⟨r, psr, mem, hcheck, hmode, -, h2, h6, h7, hz, hhigh, hframe, hlr, hmem⟩ := pte1Check_spec hb hsp hu
  -- at `pte1_ready`, with the level-2 table found or made
  obtain ⟨y, hall, hby, hspy, hmmu, hr2, hhighy, hlry, hmemy⟩ : ∃ y, mmuFillPteFromVma S x = pte1Ready S y ∧
      bankOf y.cpu.cpsr.mode = b ∧ y.cpu.sp = Function.update x.cpu.sp b (addrOf (u + 4)) ∧
      (y.cpu.r 3, y.mmu) = x.mmu.table2FromVma S.toMmuSymbols (r 6) ∧ y.cpu.r 2 = r 2 ∧
      (∀ i : Fin 13, 9 ≤ i.val → y.cpu.r i = r i) ∧ (∀ w, Function.update y.cpu.lr b w =
        Function.update x.cpu.lr b w) ∧ ∀ i, u + 4 ≤ i → y.cpu.mem i = mem i := by
    unfold mmuFillPteFromVma
    rw [hcheck]
    by_cases h0 : x.mmu.ldr (r 6) = 0
    · have heq : psr.z = true := by
        rw [hz, h7]
        exact decide_eq_true h0
      have hbc : bankOf psr.mode = b := by rw [hmode, hb]
      obtain ⟨r', lr', mem', hempty, he2, he3, hehigh, hemem⟩ := pte1Empty_spec S (u := u) (b := b)
        (x := { x with cpu := { x.cpu with
          r := r, sp := Function.update x.cpu.sp b (addrOf (u + 4)), cpsr := psr, mem := mem } })
        hbc (Function.update_self ..) (by omega)
      refine ⟨_, congrArg (pte1Ready S) (if_pos heq), ?_⟩
      rw [hempty]
      refine ⟨hbc, rfl, ?_, he2, hehigh, ?_, hemem⟩
      · unfold Mmu.table2FromVma
        rw [if_pos h0]
        exact Prod.ext he3 rfl
      · intro w
        exact Function.update_idem ..
    · have hne : ¬ psr.z = true := by
        rw [hz, h7]
        exact fun h => h0 (of_decide_eq_true h)
      refine ⟨_, congrArg (pte1Ready S) (if_neg hne), ?_⟩
      rw [pte1Full_spec]
      refine ⟨by rw [← hb, ← hmode], rfl, ?_, ?_, ?_, fun _ => rfl, fun _ _ => rfl⟩
      · unfold Mmu.table2FromVma
        rw [if_neg h0, ← h7]
        simp
      · simp
      · intro i hi
        exact Function.update_of_ne (fun h => by rw [h] at hi; exact absurd hi (by decide)) ..
  obtain ⟨hrmmu, hrlow, hrhigh, hrsp, hrlr, hrmem⟩ := pte1Ready_spec S hby (by rw [hspy, Function.update_self]) hu
  rw [hall]
  refine ⟨?_, ?_, ?_, ?_, ?_⟩
  · rw [h6] at hmmu
    rw [hrmmu, hr2, h2, Mmu.mmuFillPteFromVma_tables hmmu]
  · funext i
    by_cases hi : 9 ≤ i.val
    · rw [hrhigh i hi, hhighy i hi, hhigh i hi]
    · have hk := hrlow ⟨i.val, by omega⟩
      rw [hmemy _ (by show u + 4 ≤ u + 4 + i.val; omega), hframe] at hk
      exact hk
  · rw [hrsp, hspy, Function.update_idem, ← hsp, Function.update_eq_self]
  · rw [hrlr, hlry, hmemy _ (by omega), hlr, Function.update_eq_self]
  · intro i hi
    rw [hrmem i (by omega), hmemy i (by omega), hmem i hi]

end Mapper

/-! ## A section of one page -/

/-- One page from `vma` on, which need not be aligned, with what the abort handler gives its pages -/
def vmaSection (vma : Word) : SectionDesc := { demandSection vma with vma := vma }

namespace Mmu

/-- The state with the descriptor of a section written at word `a` -/
def putSection (a : Nat) (s : SectionDesc) (m : Mmu) : Mmu :=
  { m with mem := Function.update (Function.update (Function.update (Function.update m.mem a s.vma) (a + 1) s.size)
      (a + 2) s.pa) (a + 3) (s.gsx ++ s.mem ++ s.ap ++ s.domain) }

/-- The word of the level-1 entry of an address -/
def entryWord (t vma : Word) : Nat := wordIndex (t + getPte1IndexFromVma vma <<< 2)

/-- Two states with the same counters, and the same memory in the words `P` -/
structure SameOn (P : Nat → Prop) (m1 m : Mmu) : Prop where
  qtty : m1.wTable2Qtty = m.wTable2Qtty
  used : m1.wRamUsedPages = m.wRamUsedPages
  mem : ∀ i, P i → m1.mem i = m.mem i

variable {S : MmuSymbols} {m m1 : Mmu} {t vma w addr : Word} {a : Nat} {s : SectionDesc} {P : Nat → Prop}

theorem putSection_stored (a : Nat) (s : SectionDesc) (m : Mmu) : s.Stored (m.putSection a s).mem a := by
  simp (disch := omega) [SectionDesc.Stored, putSection, Function.update_of_ne]

theorem putSection_sameOn (a : Nat) (s : SectionDesc) (m : Mmu) :
    SameOn (fun i => i < a ∨ a + 4 ≤ i) (m.putSection a s) m := by
  refine ⟨rfl, rfl, ?_⟩
  intro i hi
  simp (disch := omega) only [putSection, Function.update_of_ne]

theorem SameOn.str (h : SameOn P m1 m) (w addr : Word) : SameOn P (m1.str w addr) (m.str w addr) := by
  refine ⟨h.qtty, h.used, ?_⟩
  intro i hi
  simp only [Mmu.str, Function.update_apply, h.mem i hi]

theorem SameOn.assignFreePa (h : SameOn P m1 m) : (m1.prvMmuAssignFreePa S).1 = (m.prvMmuAssignFreePa S).1 ∧
    SameOn P (m1.prvMmuAssignFreePa S).2 (m.prvMmuAssignFreePa S).2 := by
  obtain ⟨hqtty, hused, hmem⟩ := h
  unfold prvMmuAssignFreePa
  rw [hused]
  exact ⟨rfl, hqtty, rfl, hmem⟩

theorem SameOn.table2FromVma (h : SameOn P m1 m) (hP : P (wordIndex addr)) :
    (m1.table2FromVma S addr).1 = (m.table2FromVma S addr).1 ∧
      SameOn P (m1.table2FromVma S addr).2 (m.table2FromVma S addr).2 := by
  have hread : m1.ldr addr = m.ldr addr := h.mem _ hP
  unfold Mmu.table2FromVma
  rw [hread]
  by_cases h0 : m.ldr addr = 0
  · rw [if_pos h0, if_pos h0, h.qtty]
    have hcount : SameOn P { m1 with wTable2Qtty := m.wTable2Qtty + 1 } { m with wTable2Qtty := m.wTable2Qtty + 1 } :=
      ⟨rfl, h.used, h.mem⟩
    exact ⟨rfl, hcount.str _ _⟩
  · rw [if_neg h0, if_neg h0]
    exact ⟨rfl, h⟩

/-- A call reads one word, the level-1 entry: what the other words hold makes no difference to it. -/
theorem SameOn.mmuFillPteFromVma (h : SameOn P m1 m) (hP : P (entryWord t vma)) :
    SameOn P (m1.mmuFillPteFromVma S t vma) (m.mmuFillPteFromVma S t vma) := by
  obtain ⟨htable, h2⟩ := h.table2FromVma (S := S) hP
  obtain ⟨hpa, hassign⟩ := h2.assignFreePa (S := S)
  rw [mmuFillPteFromVma_tables rfl, mmuFillPteFromVma_tables rfl, htable, hpa]
  exact hassign.str _ _

/-! The labels of the loops, each gone through once -/

/-- The registers of the loops on the section of one page at word `a` -/
def onePage (a : Nat) (t vma : Word) (label : FillLabel) (table2Addr sectionSize counter : Word) (m : Mmu) : Fill where
  label := label
  mmu := m
  sectionEndAddr := addrOf (a + 4)
  sectionSize := sectionSize
  sectionAddr := addrOf a
  table1Addr := t
  table2Addr := table2Addr
  pte1Index := getPte1IndexFromVma vma
  pte2Index := getPte2IndexFromVma vma
  sectionPagesCounter := counter

theorem loopSectionAddr_onePage (hstored : (vmaSection vma).Stored m.mem a) (ha : a + 3 < 2 ^ 30) :
    Fill.step S (Fill.start (addrOf a) (addrOf (a + 4)) t m) = onePage a t vma .loopFillPte1 0 PAGE_SIZE 0 m := by
  have hvma : m.ldr (addrOf a + SECTION_VMA) = vma := (ldr_addrOf (k := 0) (by omega) (by decide)).trans hstored.1
  have hsize : m.ldr (addrOf a + SECTION_SIZE) = PAGE_SIZE :=
    (ldr_addrOf (k := 4) (by omega) (by decide)).trans hstored.2.1
  show Fill.loopSectionAddr _ = _
  simp only [Fill.loopSectionAddr, Fill.start, hvma, hsize]
  rfl

theorem loopFillPte1_onePage (hstored : (vmaSection vma).Stored m.mem a) (ha : a + 3 < 2 ^ 30) :
    Fill.step S (onePage a t vma .loopFillPte1 0 PAGE_SIZE 0 m) =
      onePage a t vma .loopFillTable2 (m.table2FromVma S (t + getPte1IndexFromVma vma <<< 2)).1 PAGE_SIZE 0
        (m.table2FromVma S (t + getPte1IndexFromVma vma <<< 2)).2 := by
  obtain ⟨hdomain, -⟩ := Stored_bytes hstored ha
  have hdomain' : ({ m with wTable2Qtty := m.wTable2Qtty + 1 } : Mmu).ldrb (addrOf a + SECTION_DOMAIN) =
    DOMAIN_RAM_FREE.setWidth 32 := hdomain
  show Fill.loopFillPte1 S _ = _
  unfold Fill.loopFillPte1 Mmu.table2FromVma
  by_cases h0 : m.ldr (t + getPte1IndexFromVma vma <<< 2) = 0
  · rw [if_pos h0]
    refine (if_pos h0).trans ?_
    simp only [Fill.pte1DoesntExits, onePage, hdomain']
  · rw [if_neg h0]
    exact if_neg h0

/-- The level-1 entry is written before the descriptor is read again. -/
theorem table2FromVma_stored (hstored : s.Stored m.mem a) (hapart : wordIndex addr < a ∨ a + 4 ≤ wordIndex addr) :
    s.Stored (m.table2FromVma S addr).2.mem a := by
  have hsame : ∀ j < 4, (m.table2FromVma S addr).2.mem (a + j) = m.mem (a + j) := by
    intro j hj
    unfold table2FromVma
    by_cases h0 : m.ldr addr = 0
    · rw [if_pos h0]
      exact Function.update_of_ne (by omega) _ _
    · rw [if_neg h0]
  obtain ⟨h0, h1, h2, h3⟩ := hstored
  exact ⟨(hsame 0 (by omega)).trans h0, (hsame 1 (by omega)).trans h1, (hsame 2 (by omega)).trans h2,
    (hsame 3 (by omega)).trans h3⟩

theorem loopFillTable2_onePage {table2 : Word} (hstored : (vmaSection vma).Stored m.mem a) (ha : a + 3 < 2 ^ 30) :
    Fill.step S (onePage a t vma .loopFillTable2 table2 PAGE_SIZE 0 m) =
      onePage a t vma .nextSection table2 0 1 ((m.prvMmuAssignFreePa S).2.prvMmuFillPte2 (m.prvMmuAssignFreePa S).1
        (AP_RW_RW.setWidth 32) (MEM_STRONGLY_ORDERED.setWidth 32) (G_S_X.setWidth 32)
        (table2 + getPte2IndexFromVma vma <<< 2)) := by
  have hpa : m.ldr (addrOf a + SECTION_PA) = NO_PA :=
    (ldr_addrOf (k := 8) (by omega) (by decide)).trans hstored.2.2.1
  have hstored' : (vmaSection vma).Stored (m.prvMmuAssignFreePa S).2.mem a := hstored
  obtain ⟨-, hap, hmem, hgsx⟩ := Stored_bytes hstored' ha
  have hassign : (onePage a t vma .loopFillTable2 table2 PAGE_SIZE 0 m).assignPa S = m.prvMmuAssignFreePa S := by
    simp only [Fill.assignPa, onePage, hpa]
    rfl
  have hstep : Fill.step S (onePage a t vma .loopFillTable2 table2 PAGE_SIZE 0 m) =
      (onePage a t vma .loopFillTable2 table2 PAGE_SIZE 0 m).loopFillTable2 S := rfl
  rw [hstep, Fill.loopFillTable2, hassign]
  simp only [onePage, hap, hmem, hgsx]
  rfl

theorem nextSection_onePage {table2 : Word} :
    Fill.step S (onePage a t vma .nextSection table2 0 1 m) =
      { onePage a t vma .ret table2 0 1 m with sectionAddr := addrOf (a + 4) } := by
  have hnext : addrOf a + SECTION_NEXT = addrOf (a + 4) := addrOf_add a (k := 16) (by decide)
  have hslt : ¬ (addrOf (a + 4)).slt (addrOf (a + 4)) = true := by
    rw [BitVec.slt_eq_decide]
    simp
  show Fill.nextSection _ = _
  simp only [Fill.nextSection, onePage, hnext, if_neg hslt]

/-- `mmu_fill_page_tables` on the section of one page, whatever the tables hold -/
theorem mmuFillPageTables_onePage (hstored : (vmaSection vma).Stored m.mem a) (ha : a + 3 < 2 ^ 30)
    (hapart : entryWord t vma < a ∨ a + 4 ≤ entryWord t vma) :
    mmuFillPageTables S (addrOf a) (addrOf (a + 4)) t 4 m = some (m.mmuFillPteFromVma S t vma) := by
  have hrun : (Fill.step S)^[4] (Fill.start (addrOf a) (addrOf (a + 4)) t m) =
      { onePage a t vma .ret (m.table2FromVma S (t + getPte1IndexFromVma vma <<< 2)).1 0 1
          (m.mmuFillPteFromVma S t vma) with sectionAddr := addrOf (a + 4) } := by
    show Fill.step S (Fill.step S (Fill.step S (Fill.step S _))) = _
    rw [loopSectionAddr_onePage hstored ha, loopFillPte1_onePage hstored ha,
      loopFillTable2_onePage (table2FromVma_stored hstored hapart) ha, nextSection_onePage, mmuFillPteFromVma_tables rfl]
  rw [mmuFillPageTables, hrun]
  rfl

end Mmu

/-! ## The copy and the original -/

/-- Wherever the descriptor of the page is put, apart from the level-1 entry that is read, the tables and the
counters are as `mmu_fill_page_tables` leaves them, and the caller has its registers back. -/
theorem Mapper.mmuFillPteFromVma_copy (S : MapperSymbols) (x : Mapper) {a u : Nat}
    (hsp : x.cpu.sp (bankOf x.cpu.cpsr.mode) = addrOf (u + 14)) (hu : u + 14 < 2 ^ 30) (ha : a + 3 < 2 ^ 30)
    (hapart : Mmu.entryWord x.cpu.ttbr0 (x.cpu.r 0) < a ∨ a + 4 ≤ Mmu.entryWord x.cpu.ttbr0 (x.cpu.r 0)) :
    (∃ m, (∀ n, 4 ≤ n → mmuFillPageTables S.toMmuSymbols (addrOf a) (addrOf (a + 4)) x.cpu.ttbr0 n
        (x.mmu.putSection a (vmaSection (x.cpu.r 0))) = some m) ∧
      Mmu.SameOn (fun i => i < a ∨ a + 4 ≤ i) m (x.mmuFillPteFromVma S).mmu) ∧
      (x.mmuFillPteFromVma S).cpu.r = x.cpu.r ∧ (x.mmuFillPteFromVma S).cpu.sp = x.cpu.sp := by
  obtain ⟨htables, hr, hsp', -, -⟩ := mmuFillPteFromVma_spec S (b := bankOf x.cpu.cpsr.mode) rfl hsp hu
  refine ⟨⟨(x.mmu.putSection a (vmaSection (x.cpu.r 0))).mmuFillPteFromVma S.toMmuSymbols x.cpu.ttbr0 (x.cpu.r 0),
    ?_, ?_⟩, hr, hsp'⟩
  · intro n hn
    exact mmuFillPageTables_le (Mmu.mmuFillPageTables_onePage (Mmu.putSection_stored ..) ha hapart) hn
  · rw [htables]
    exact (Mmu.putSection_sameOn ..).mmuFillPteFromVma hapart

/-- A fault at an address in the middle of a page, in abort mode -/
def exampleMapper : Mapper where
  cpu := ⟨Function.update (fun _ => 7) 0 0x70003ABC, fun _ => addrOf 500, fun _ => 0x8000, fun _ => Psr.ofWord 0x10,
    Psr.ofWord 0x17, 0x9000, addrOf 4096, 0, 0, 0, fun _ => 0, fun _ => 0⟩
  mmu := ⟨fun _ => 0, 2, 5⟩

def exampleMapperSymbols : MapperSymbols where
  ldPageTable2Vma := addrOf 65536
  ldFreeRamOrigin := 0x80000000
  wTable2Qtty := addrOf 8192
  wRamUsedPages := addrOf 8193
  returnAddress := fun _ => 0

theorem Mapper.mmuFillPteFromVma_copy_example :
    (∃ m, (∀ n, 4 ≤ n → mmuFillPageTables exampleMapperSymbols.toMmuSymbols (addrOf 0) (addrOf 4) (addrOf 4096) n
        (exampleMapper.mmu.putSection 0 (vmaSection 0x70003ABC)) = some m) ∧
      Mmu.SameOn (fun i => i < 0 ∨ 4 ≤ i) m (exampleMapper.mmuFillPteFromVma exampleMapperSymbols).mmu) ∧
      (exampleMapper.mmuFillPteFromVma exampleMapperSymbols).cpu.r = exampleMapper.cpu.r ∧
      (exampleMapper.mmuFillPteFromVma exampleMapperSymbols).cpu.sp = exampleMapper.cpu.sp :=
  mmuFillPteFromVma_copy exampleMapperSymbols exampleMapper (a := 0) (u := 486) rfl (by decide) (by decide)
    (.inr (by decide))

end Td3.Kernel
