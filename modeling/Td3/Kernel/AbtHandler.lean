/-
The exception handlers of kernel/vector_table.S for data and prefetch aborts, instruction by instruction,
with the macros of kernel/mmu_macros.S that they read the fault registers with. Whatever DFSR or IFSR
reports, what has been interrupted gets all of its registers back; the stack of ABT mode and the two
words with the returned values are all else that the handlers write, but for the tables.
-/
import Td3.Kernel.ContextSwitch
import Td3.Kernel.DemandMapper

namespace Td3.Kernel

open Arm Machine

/-! ## Fault codes -/

/-- FS[4:0], bits 10 and 3 to 0 of a fault status register -/
def faultStatus (fsr : Word) : Word := (fsr.extractLsb' 10 1 ++ fsr.extractLsb' 0 4).setWidth 32

/-- `data_fault`, by its codes -/
def DataFault.ofCode (code : Word) : DataFault :=
  if code = 0b00001 then .alignment
  else if code = 0b00100 then .cacheMaintenance
  else if code = 0b01100 then .table1ExternalAbort
  else if code = 0b01110 then .table2ExternalAbort
  else if code = 0b11100 then .table1ParityError
  else if code = 0b11110 then .table2ParityError
  else if code = 0b00101 then .sectionTranslation
  else if code = 0b00111 then .pageTranslation
  else if code = 0b00011 then .accessFlagSection
  else if code = 0b00110 then .accessFlagPage
  else if code = 0b01001 then .domainSection
  else if code = 0b01011 then .domainPage
  else if code = 0b01101 then .permissionSection
  else if code = 0b01111 then .permissionPage
  else .other

/-- `rw_fault` -/
def rwFault (wnr : Word) : Access := if wnr = 0 then .load else .store

/-- `instruction_fault`; `other` is a code of IFSR that the enumeration does not have. -/
inductive InstructionFault where
  | table1ExternalAbort
  | table2ExternalAbort
  | table1ParityError
  | table2ParityError
  | sectionTranslation
  | pageTranslation
  | accessFlagSection
  | accessFlagPage
  | domainSection
  | domainPage
  | permissionSection
  | permissionPage
  | other
deriving DecidableEq, Repr

/-- `instruction_fault`, by its codes -/
def InstructionFault.ofCode (code : Word) : InstructionFault :=
  if code = 0b01100 then .table1ExternalAbort
  else if code = 0b01110 then .table2ExternalAbort
  else if code = 0b11100 then .table1ParityError
  else if code = 0b11110 then .table2ParityError
  else if code = 0b00101 then .sectionTranslation
  else if code = 0b00111 then .pageTranslation
  else if code = 0b00011 then .accessFlagSection
  else if code = 0b00110 then .accessFlagPage
  else if code = 0b01001 then .domainSection
  else if code = 0b01011 then .domainPage
  else if code = 0b01101 then .permissionSection
  else if code = 0b01111 then .permissionPage
  else .other

def TESTING_INSTRUCTION_PERMISSION_ABORT : BitVec 8 := 8

/-- `pref_handler`; `testing` where ENABLE_TESTING is defined -/
def prefHandler (testing : Bool) (fault : InstructionFault) : BitVec 8 :=
  match fault with
  | .permissionSection => if testing then TESTING_INSTRUCTION_PERMISSION_ABORT else RETURN_TO_SAME
  | .permissionPage => if testing then TESTING_INSTRUCTION_PERMISSION_ABORT else RETURN_TO_SAME
  | _ => RETURN_TO_SAME

/-! ## The machine -/

def ABT_MODE : BitVec 5 := 0x17

@[simp] theorem bankOf_abt : bankOf ABT_MODE = .abt := rfl

/-- What the build has for the two handlers: the symbols, the stack of ABT mode with the words it may take,
and the words of `abt_return` and `pref_return` outside of it. `testing` and `mapping` say whether
ENABLE_TESTING and ENABLE_MEMORY_MAPPING_FROM_ABORT are defined. -/
structure AbortLayout where
  symbols : MmuSymbols
  stackLimit : Nat
  stackTop : Nat
  abtReturn : Nat
  prefReturn : Nat
  testing : Bool
  mapping : Bool
  room : stackLimit + 6 ≤ stackTop
  stackTop_lt : stackTop < 2 ^ 30
  abtReturn_lt : abtReturn < 2 ^ 30
  prefReturn_lt : prefReturn < 2 ^ 30
  abtReturn_apart : abtReturn < stackLimit ∨ stackTop ≤ abtReturn
  prefReturn_apart : prefReturn < stackLimit ∨ stackTop ≤ prefReturn

/-- What compiled code leaves behind, and where `__change_saved_op_mode` returns to -/
structure AbortEnv where
  junk : Cpu.Junk
  returnAddress : Word

/-- The processor with the fault registers of CP15, and what it maps with -/
structure Aborted where
  cpu : Cpu
  mmu : Mmu
  dfsr : Word
  dfar : Word
  ifsr : Word
  ifar : Word

namespace Aborted

variable (L : AbortLayout) (env : AbortEnv)

def exec (f : Cpu → Cpu) (x : Aborted) : Aborted := { x with cpu := f x.cpu }

/-! ## mmu_macros.S -/

/-- `READ_DFSR fault, wnr, aux` -/
def readDfsr (fault wnr aux : Reg) (x : Aborted) : Aborted :=
  let x := x.exec fun m => m.set x.dfsr fault
  let x := x.exec (Cpu.mov aux fault)
  let x := x.exec (Cpu.mov wnr fault)
  let x := x.exec (Mapper.andImm fault fault 0xF)
  let x := x.exec (Mapper.lsr aux aux 10)
  let x := x.exec (Mapper.andImm aux aux 1)
  let x := x.exec (Mapper.orrLsl fault fault aux 4)
  let x := x.exec (Mapper.lsr wnr wnr 11)
  x.exec (Mapper.andImm wnr wnr 1)

/-- `READ_DFAR reg` -/
def readDfar (reg : Reg) (x : Aborted) : Aborted := x.exec fun m => m.set x.dfar reg

/-- `READ_IFSR fault, aux` -/
def readIfsr (fault aux : Reg) (x : Aborted) : Aborted :=
  let x := x.exec fun m => m.set x.ifsr fault
  let x := x.exec (Cpu.mov aux fault)
  let x := x.exec (Mapper.andImm fault fault 0xF)
  let x := x.exec (Mapper.lsr aux aux 10)
  let x := x.exec (Mapper.andImm aux aux 1)
  x.exec (Mapper.orrLsl fault fault aux 4)

/-- `READ_IFAR reg` -/
def readIfar (reg : Reg) (x : Aborted) : Aborted := x.exec fun m => m.set x.ifar reg

/-! ## vector_table.S -/

/-- `bl abt_handler`; without ENABLE_MEMORY_MAPPING_FROM_ABORT it returns the same and maps nothing. -/
def callAbtHandler (x : Aborted) : Aborted :=
  let result :=
    abtHandler L.testing L.symbols x.cpu.ttbr0 (.ofCode (x.cpu.r 0)) (x.cpu.r 1) (rwFault (x.cpu.r 2)) x.mmu
  { x with
    cpu := Cpu.call L.stackLimit env.junk (result.1.setWidth 32) x.cpu
    mmu := if L.mapping then result.2 else x.mmu }

/-- What a handler does with the value that is returned -/
def storeReturned (w : Nat) (m : Cpu) : Cpu := m |> Cpu.movImm r1 (addrOf w) |> Cpu.str r0 r1

/-- `ABT_handler` from the comparison on -/
def abtLeave (m : Cpu) : Cpu :=
  let m := m |> Cpu.cmpZero r0 |> Cpu.pop [r0, r1, r2, r3, r12, .lr]
  if m.condGt then Cpu.exceptionReturn 4 m else Cpu.exceptionReturn 8 m

/-- `ABT_handler` -/
def abtHandlerAsm (x : Aborted) : Aborted :=
  let x := x.exec (Cpu.push [r0, r1, r2, r3, r12, .lr])
  let x := x.readDfsr r0 r2 r3
  let x := x.readDfar r1
  let x := x.callAbtHandler L env
  let x := x.exec (storeReturned L.abtReturn)
  x.exec abtLeave

/-- `bl pref_handler` -/
def callPrefHandler (x : Aborted) : Aborted :=
  let ret := prefHandler L.testing (.ofCode (x.cpu.r 0))
  { x with cpu := Cpu.call L.stackLimit env.junk (ret.setWidth 32) x.cpu }

/-- `__change_saved_op_mode` (kernel/common_asm.S), up to its return -/
def changeSavedOpMode (m : Cpu) : Cpu :=
  let m := Cpu.mrsSpsr r1 m
  let m := Cpu.bicImm r1 r1 0x1F m
  let m := Cpu.orr r1 r1 r0 m
  Cpu.msrSpsr r1 m

/-- What ENABLE_TESTING adds to `PREF_handler` -/
def resumeInSysMode (m : Cpu) : Cpu :=
  let m := Cpu.cmpZero r0 m
  let m := if m.condGt then Cpu.movImm r0 (SYS_MODE.setWidth 32) m else m
  if m.condGt then m |> Cpu.movImm .lr env.returnAddress |> changeSavedOpMode else m

/-- `PREF_handler` -/
def prefHandlerAsm (x : Aborted) : Aborted :=
  let x := x.exec (Cpu.push [r0, r1, r2, r3, r12, .lr])
  let x := x.readIfsr r0 r2
  let x := x.readIfar r1
  let x := x.callPrefHandler L env
  let x := x.exec (storeReturned L.prefReturn)
  let x := if L.testing then x.exec (resumeInSysMode env) else x
  let x := x.exec (Cpu.pop [r0, r1, r2, r3, r12, .lr])
  x.exec (Cpu.exceptionReturn 4)

end Aborted

/-! ## What the macros read -/

/-- The masks and shifts of `READ_DFSR` and `READ_IFSR` -/
theorem faultStatus_eq (fsr : Word) : fsr &&& 0xF#32 ||| (fsr >>> 10 &&& 1#32) <<< 4 = faultStatus fsr := by
  have hlow (i : Nat) : (0xF#32).getLsbD i = decide (i < 4) := getLsbD_lowMask (k := 4) (by decide) i
  apply BitVec.eq_of_getLsbD_eq
  intro i hi
  simp only [faultStatus, BitVec.getLsbD_or, BitVec.getLsbD_and, BitVec.getLsbD_shiftLeft, BitVec.getLsbD_ushiftRight,
    BitVec.getLsbD_setWidth, BitVec.getLsbD_append, BitVec.getLsbD_extractLsb', hlow, BitVec.getLsbD_one]
  by_cases h : i < 4
  · simp [h, hi]
  · by_cases h4 : i = 4
    · simp [h4]
    · have h5 : i - 4 ≠ 0 := by omega
      simp [h, h5, hi]

/-- WnR, bit 11 of DFSR -/
def accessOf (dfsr : Word) : Access := if dfsr.getLsbD 11 then .store else .load

theorem rwFault_eq (dfsr : Word) : rwFault (dfsr >>> 11 &&& 1#32) = accessOf dfsr := by
  have hnonzero : BitVec.twoPow 32 0 ≠ 0#32 := by decide
  have hbit : dfsr >>> 11 &&& 1#32 = 0 ↔ dfsr.getLsbD 11 = false := by
    rw [show (1#32 : Word) = BitVec.twoPow 32 0 from rfl, BitVec.and_twoPow, BitVec.getLsbD_ushiftRight]
    cases dfsr.getLsbD (11 + 0) <;> simp [hnonzero]
  unfold rwFault accessOf
  cases h : dfsr.getLsbD 11 with
  | false => rw [if_pos (hbit.2 h)]; rfl
  | true => rw [if_neg fun h0 => by rw [hbit.1 h0] at h; cases h]; rfl

/-- A byte that is returned is positive as a word, unless it is 0. -/
theorem byte_gt (ret : BitVec 8) :
    (!decide (ret.setWidth 32 = 0#32) && !(ret.setWidth 32).msb) = decide (ret ≠ 0) := by
  have hlt := ret.isLt
  have hsize : (ret.setWidth 32).toNat = ret.toNat := by
    rw [BitVec.toNat_setWidth, Nat.mod_eq_of_lt (by omega)]
  have hmsb : (ret.setWidth 32).msb = false := by
    rw [BitVec.msb_eq_decide, hsize, decide_eq_false]
    omega
  have hzero : ret.setWidth 32 = 0#32 ↔ ret = 0 := by
    rw [← BitVec.toNat_inj, ← BitVec.toNat_inj, hsize]
    rfl
  simp [hmsb, hzero]
namespace Aborted

variable {L : AbortLayout} {env : AbortEnv} {x : Aborted}

/-- The frame that a handler pushes at word `s`: what `push` stores, and what the macros after it leave. -/
structure Frame (m : Cpu) (s : Nat) (r : Fin 13 → Word) (mem : Nat → Word) : Prop where
  high : ∀ i : Fin 13, 4 ≤ i.val → r i = m.r i
  low : ∀ k : Fin 4, mem (s + k) = m.r (k.castLE (by decide))
  r12 : mem (s + 4) = m.r 12
  lr : mem (s + 5) = m.lr .abt
  memory : ∀ i, i < s ∨ s + 6 ≤ i → mem i = m.mem i

section
attribute [local simp] exec Cpu.pop Cpu.push Cpu.loadRegs Cpu.gets Cpu.get Cpu.set Cpu.bank Cpu.mrsSpsr Cpu.msrSpsr
  Cpu.mov Cpu.movImm Cpu.bicImm Cpu.orr Cpu.call Cpu.str Cpu.cmpZero Cpu.condGt Cpu.exceptionReturn Mapper.lsr
  Mapper.andImm Mapper.orrLsl readDfsr readDfar readIfsr readIfar storeReturned storeWords addrOf_add addrOf_sub
  wordIndex_addrOf Nat.add_assoc

/-- The macros of `ABT_handler`, with the frame on the stack -/
theorem abtEntry_spec {s : Nat} (hmode : x.cpu.cpsr.mode = ABT_MODE) (hsp : x.cpu.sp .abt = addrOf (s + 6))
    (hs : s + 6 < 2 ^ 30) :
    ∃ r mem, ((x.exec (Cpu.push [r0, r1, r2, r3, r12, .lr])).readDfsr r0 r2 r3).readDfar r1 = { x with
        cpu := { x.cpu with r := r, sp := Function.update x.cpu.sp .abt (addrOf s), mem := mem } } ∧
      r 0 = faultStatus x.dfsr ∧ r 1 = x.dfar ∧ r 2 = x.dfsr >>> 11 &&& 1#32 ∧ Frame x.cpu s r mem := by
  generalize hy : ((x.exec (Cpu.push [r0, r1, r2, r3, r12, .lr])).readDfsr r0 r2 r3).readDfar r1 = y
  refine ⟨y.cpu.r, y.cpu.mem, ?_, ?_, ?_, ?_, ?_, ?_, ?_, ?_, ?_⟩
  all_goals subst hy
  · simp (disch := omega) [hmode, hsp]
  · simp [← faultStatus_eq]
  · simp
  · simp
  · intro i hi
    simp (disch := omega)
  · intro k
    fin_cases k
    all_goals simp (disch := omega) [hmode, hsp, Function.update_of_ne]
  · simp (disch := omega) [hmode, hsp, Function.update_of_ne]
  · simp (disch := omega) [hmode, hsp, Function.update_of_ne]
  · intro i hi
    simp (disch := omega) [hmode, hsp, Function.update_of_ne]

/-- The macros of `PREF_handler` -/
theorem prefEntry_spec {s : Nat} (hmode : x.cpu.cpsr.mode = ABT_MODE) (hsp : x.cpu.sp .abt = addrOf (s + 6))
    (hs : s + 6 < 2 ^ 30) :
    ∃ r mem, ((x.exec (Cpu.push [r0, r1, r2, r3, r12, .lr])).readIfsr r0 r2).readIfar r1 = { x with
        cpu := { x.cpu with r := r, sp := Function.update x.cpu.sp .abt (addrOf s), mem := mem } } ∧
      r 0 = faultStatus x.ifsr ∧ Frame x.cpu s r mem := by
  generalize hy : ((x.exec (Cpu.push [r0, r1, r2, r3, r12, .lr])).readIfsr r0 r2).readIfar r1 = y
  refine ⟨y.cpu.r, y.cpu.mem, ?_, ?_, ?_, ?_, ?_, ?_, ?_⟩
  all_goals subst hy
  · simp (disch := omega) [hmode, hsp]
  · simp [← faultStatus_eq]
  · intro i hi
    simp (disch := omega)
  · intro k
    fin_cases k
    all_goals simp (disch := omega) [hmode, hsp, Function.update_of_ne]
  · simp (disch := omega) [hmode, hsp, Function.update_of_ne]
  · simp (disch := omega) [hmode, hsp, Function.update_of_ne]
  · intro i hi
    simp (disch := omega) [hmode, hsp, Function.update_of_ne]

/-- The call, and the returned value stored -/
theorem callStore_spec (env : AbortEnv) (limit : Nat) (ret : Word) {m : Cpu} {s w : Nat}
    (hmode : m.cpsr.mode = ABT_MODE) (hsp : m.sp .abt = addrOf s) (hs : s < 2 ^ 30) (hw : w < 2 ^ 30) :
    ∃ r lr psr mem, storeReturned w (Cpu.call limit env.junk ret m) = { m with
        r := r, lr := Function.update m.lr .abt lr, cpsr := psr, mem := mem } ∧
      psr.mode = ABT_MODE ∧ r 0 = ret ∧ (∀ i : Fin 13, 4 ≤ i.val → i.val < 12 → r i = m.r i) ∧ mem w = ret ∧
      ∀ i, i < limit ∨ s ≤ i → i ≠ w → mem i = m.mem i := by
  generalize hy : storeReturned w _ = y
  refine ⟨y.r, y.lr .abt, y.cpsr, y.mem, ?_, ?_, ?_, ?_, ?_, ?_⟩
  all_goals subst hy
  · simp (disch := omega) [hmode]
  · simp [hmode]
  · simp
  · intro i hi hi12
    simp (disch := omega) [hmode]
  · simp (disch := omega) [hmode]
  · intro i hi hne
    simp (disch := omega) [hmode, hsp, Function.update_of_ne]
    omega

/-- `pop` of the frame: the registers that the call may have changed are back. -/
theorem popFrame_spec {m m0 : Cpu} {s : Nat} {r : Fin 13 → Word} {mem : Nat → Word} (hmode : m.cpsr.mode = ABT_MODE)
    (hsp : m.sp .abt = addrOf s) (hs : s + 6 < 2 ^ 30) (hframe : Frame m0 s r mem)
    (hmem : ∀ i, s ≤ i → i < s + 6 → m.mem i = mem i) (hr : ∀ i : Fin 13, 4 ≤ i.val → i.val < 12 → m.r i = r i) :
    Cpu.pop [r0, r1, r2, r3, r12, .lr] m = { m with
      r := m0.r, sp := Function.update m.sp .abt (addrOf (s + 6)), lr := Function.update m.lr .abt (m0.lr .abt) } := by
  have hlow (k : Fin 4) : m.mem (s + k) = m0.r (k.castLE (by decide)) :=
    (hmem _ (by omega) (by omega)).trans (hframe.low k)
  have hr12 : m.mem (s + 4) = m0.r 12 := (hmem _ (by omega) (by omega)).trans hframe.r12
  have hlr : m.mem (s + 5) = m0.lr .abt := (hmem _ (by omega) (by omega)).trans hframe.lr
  have hpop : Cpu.pop [r0, r1, r2, r3, r12, .lr] m = { m with
      r := (Cpu.pop [r0, r1, r2, r3, r12, .lr] m).r, sp := Function.update m.sp .abt (addrOf (s + 6))
      lr := Function.update m.lr .abt (m.mem (s + 5)) } := by
    simp (disch := omega) [hmode, hsp]
  have hlow' (k : Fin 4) : (Cpu.pop [r0, r1, r2, r3, r12, .lr] m).r (k.castLE (by decide)) = m.mem (s + k) := by
    fin_cases k
    all_goals simp (disch := omega) [hmode, hsp]
  have hback : (Cpu.pop [r0, r1, r2, r3, r12, .lr] m).r = m0.r := by
    funext i
    by_cases hi : i.val < 4
    · exact (hlow' ⟨i, hi⟩).trans (hlow ⟨i, hi⟩)
    · by_cases hi12 : i = 12
      · subst hi12
        simp (disch := omega) [hmode, hsp, hr12]
      · have h := (hr i (by omega) (by omega)).trans (hframe.high i (by omega))
        simp (disch := omega) [hmode, hsp, h]
  rw [hpop, hback, hlr]

end

theorem exceptionReturn_abt {m : Cpu} (hmode : m.cpsr.mode = ABT_MODE) (k : Word) : Cpu.exceptionReturn k m =
    { m with cpsr := m.spsr .abt, pc := alignPc (m.spsr .abt) (m.lr .abt - k) } := by
  simp [Cpu.exceptionReturn, Cpu.get, Cpu.bank, hmode]

/-- `ABT_handler` after the call: 4 is subtracted where the value is positive. -/
theorem abtLeave_spec {m m0 : Cpu} {s : Nat} {r : Fin 13 → Word} {mem : Nat → Word} {ret : BitVec 8}
    (hmode : m.cpsr.mode = ABT_MODE) (hsp : m.sp .abt = addrOf s) (hs : s + 6 < 2 ^ 30) (hframe : Frame m0 s r mem)
    (hmem : ∀ i, s ≤ i → i < s + 6 → m.mem i = mem i) (hr : ∀ i : Fin 13, 4 ≤ i.val → i.val < 12 → m.r i = r i)
    (hret : m.r 0 = ret.setWidth 32) : abtLeave m = { m with
      r := m0.r, sp := Function.update m.sp .abt (addrOf (s + 6)), lr := Function.update m.lr .abt (m0.lr .abt)
      cpsr := m.spsr .abt, pc := alignPc (m.spsr .abt) (m0.lr .abt - if ret = 0 then 8 else 4) } := by
  have hpop := popFrame_spec (m := Cpu.cmpZero r0 m) hmode hsp hs hframe hmem hr
  have hgt : (!decide (m.r 0 = 0#32) && !(m.r 0).msb) = decide (ret ≠ 0) := by rw [hret, byte_gt]
  have hcond : Cpu.condGt (Cpu.pop [r0, r1, r2, r3, r12, .lr] (Cpu.cmpZero r0 m)) = decide (ret ≠ 0) := by
    rw [hpop, ← hgt]
    show (!_ && ((m.r 0).msb == false)) = _
    rw [beq_false]
    rfl
  simp only [abtLeave, hcond]
  rw [hpop]
  by_cases h0 : ret = 0
  · rw [if_neg (by simp [h0]), if_pos h0]
    refine (exceptionReturn_abt ?_ 8).trans ?_
    · exact hmode
    · simp [Cpu.cmpZero]
  · rw [if_pos (decide_eq_true h0), if_neg h0]
    refine (exceptionReturn_abt ?_ 4).trans ?_
    · exact hmode
    · simp [Cpu.cmpZero]

/-- What `abt_handler` returns and maps, with what DFSR and DFAR hold -/
def handled (L : AbortLayout) (x : Aborted) : BitVec 8 × Mmu :=
  let result :=
    abtHandler L.testing L.symbols x.cpu.ttbr0 (.ofCode (faultStatus x.dfsr)) x.dfar (accessOf x.dfsr) x.mmu
  (result.1, if L.mapping then result.2 else x.mmu)

/-- `ABT_handler` -/
theorem abtHandlerAsm_spec (env : AbortEnv) (hmode : x.cpu.cpsr.mode = ABT_MODE)
    (hsp : x.cpu.sp .abt = addrOf L.stackTop) :
    ∃ mem, x.abtHandlerAsm L env = { x with
        cpu := { x.cpu with
          cpsr := x.cpu.spsr .abt
          pc := alignPc (x.cpu.spsr .abt) (x.cpu.lr .abt - if (x.handled L).1 = 0 then 8 else 4), mem := mem }
        mmu := (x.handled L).2 } ∧
      mem L.abtReturn = (x.handled L).1.setWidth 32 ∧
      ∀ i, i < L.stackLimit ∨ L.stackTop ≤ i → i ≠ L.abtReturn → mem i = x.cpu.mem i := by
  have hroom := L.room
  have htop := L.stackTop_lt
  have hapart := L.abtReturn_apart
  obtain ⟨s, hs⟩ : ∃ s, L.stackTop = s + 6 := ⟨L.stackTop - 6, by omega⟩
  rw [hs] at hsp hapart ⊢
  obtain ⟨regs, mem1, hentry, h0, h1, h2, hframe⟩ := abtEntry_spec hmode hsp (by omega)
  -- the call, with the arguments that the macros have read
  generalize hm : { x.cpu with r := regs, sp := Function.update x.cpu.sp .abt (addrOf s), mem := mem1 } = m at hentry
  have hmodem : m.cpsr.mode = ABT_MODE := by rw [← hm, hmode]
  have hspm : m.sp .abt = addrOf s := by rw [← hm]; simp
  obtain ⟨regs', lr, psr, mem2, hcall, hpsr, hr0, hhigh, hret, hmem2⟩ := callStore_spec env L.stackLimit
    ((x.handled L).1.setWidth 32) hmodem hspm (by omega) L.abtReturn_lt
  have hcalled : callAbtHandler L env { x with cpu := m } = { x with
      cpu := Cpu.call L.stackLimit env.junk ((x.handled L).1.setWidth 32) m, mmu := (x.handled L).2 } := by
    rw [← hm]
    simp only [callAbtHandler, h0, h1, h2, rwFault_eq]
    rfl
  have hleave := abtLeave_spec (m := { m with
    r := regs', lr := Function.update m.lr .abt lr, cpsr := psr, mem := mem2 }) hpsr hspm (by omega) hframe
    (fun i hi hi6 => (hmem2 i (by omega) (by omega)).trans (by rw [← hm]))
    (fun i hi hi12 => (hhigh i hi hi12).trans (by rw [← hm])) hr0
  have hall : x.abtHandlerAsm L env = { x with
      cpu := abtLeave { m with r := regs', lr := Function.update m.lr .abt lr, cpsr := psr, mem := mem2 }
      mmu := (x.handled L).2 } := by
    simp only [abtHandlerAsm]
    rw [hentry, hcalled]
    simp only [exec]
    rw [hcall]
  have hsp' : Function.update (Function.update x.cpu.sp .abt (addrOf s)) .abt (addrOf (s + 6)) = x.cpu.sp := by
    rw [Function.update_idem, ← hsp, Function.update_eq_self]
  have hlr' : Function.update (Function.update x.cpu.lr .abt lr) .abt (x.cpu.lr .abt) = x.cpu.lr := by
    rw [Function.update_idem, Function.update_eq_self]
  refine ⟨mem2, ?_, hret, ?_⟩
  · rw [hall, hleave, ← hm]
    simp only [hsp', hlr']
  · intro i hi hne
    rw [hmem2 i (by omega) hne, ← hm]
    exact hframe.memory i (by omega)

/-- The status word that a prefetch abort returns to: with ENABLE_TESTING, in SYS mode where the value is
positive. -/
def prefReturnStatus (testing : Bool) (ret : BitVec 8) (psr : Psr) : Psr :=
  if testing = true ∧ ret ≠ 0 then { psr with mode := SYS_MODE } else psr

theorem changeSavedOpMode_spec {m : Cpu} (hmode : m.cpsr.mode = ABT_MODE) (h0 : m.r 0 = SYS_MODE.setWidth 32) :
    ∃ w, changeSavedOpMode m = { m with
      r := Function.update m.r 1 w, spsr := Function.update m.spsr .abt { m.spsr .abt with mode := SYS_MODE } } := by
  have hpsr := congrArg (Function.update m.spsr .abt) ((m.spsr .abt).withFc_mode SYS_MODE)
  refine ⟨(changeSavedOpMode m).r 1, ?_⟩
  simp [changeSavedOpMode, Cpu.mrsSpsr, Cpu.bicImm, Cpu.orr, Cpu.msrSpsr, Cpu.set, Cpu.get, Cpu.bank, hmode, h0]
  exact hpsr

theorem resumeInSysMode_spec (env : AbortEnv) {m : Cpu} {ret : BitVec 8} (hmode : m.cpsr.mode = ABT_MODE)
    (h0 : m.r 0 = ret.setWidth 32) :
    ∃ r lr psr, resumeInSysMode env m = { m with
        r := r, lr := Function.update m.lr .abt lr, cpsr := psr
        spsr := Function.update m.spsr .abt (prefReturnStatus true ret (m.spsr .abt)) } ∧
      psr.mode = ABT_MODE ∧ ∀ i : Fin 13, 4 ≤ i.val → i.val < 12 → r i = m.r i := by
  have hcond : Cpu.condGt (Cpu.cmpZero r0 m) = decide (ret ≠ 0) := by
    rw [← byte_gt, ← h0]
    show (!_ && ((m.r 0).msb == false)) = _
    rw [beq_false]
    rfl
  by_cases hret : ret = 0
  · refine ⟨m.r, m.lr .abt, (Cpu.cmpZero r0 m).cpsr, ?_, hmode, fun _ _ _ => rfl⟩
    have hall : resumeInSysMode env m = Cpu.cmpZero r0 m := by simp [resumeInSysMode, hcond, hret]
    have hnot : ¬ (true = true ∧ ret ≠ 0) := fun h => h.2 hret
    rw [hall, prefReturnStatus, if_neg hnot, Function.update_eq_self, Function.update_eq_self]
    rfl
  · rw [decide_eq_true hret] at hcond
    have hcond' : Cpu.condGt (Cpu.movImm r0 (SYS_MODE.setWidth 32) (Cpu.cmpZero r0 m)) = true := hcond
    have hall : resumeInSysMode env m = changeSavedOpMode (Cpu.movImm .lr env.returnAddress
        (Cpu.movImm r0 (SYS_MODE.setWidth 32) (Cpu.cmpZero r0 m))) := by
      simp only [resumeInSysMode, hcond, hcond', if_true]
    obtain ⟨w, hchanged⟩ := changeSavedOpMode_spec (m := Cpu.movImm .lr env.returnAddress
      (Cpu.movImm r0 (SYS_MODE.setWidth 32) (Cpu.cmpZero r0 m))) hmode rfl
    rw [hchanged] at hall
    refine ⟨Function.update (Function.update m.r 0 (SYS_MODE.setWidth 32)) 1 w, env.returnAddress,
      (Cpu.cmpZero r0 m).cpsr, hall.trans ?_, hmode, ?_⟩
    · rw [prefReturnStatus, if_pos ⟨rfl, hret⟩]
      simp [Cpu.movImm, Cpu.set, Cpu.bank, Cpu.cmpZero, hmode]
    · intro i hi hi12
      rw [Function.update_of_ne, Function.update_of_ne]
      · rintro rfl
        exact absurd hi (by decide)
      · rintro rfl
        exact absurd hi (by decide)

/-- `PREF_handler` -/
theorem prefHandlerAsm_spec (env : AbortEnv) {ret : BitVec 8} {resumed : Psr} (hmode : x.cpu.cpsr.mode = ABT_MODE)
    (hsp : x.cpu.sp .abt = addrOf L.stackTop) (hret : ret = prefHandler L.testing (.ofCode (faultStatus x.ifsr)))
    (hresumed : resumed = prefReturnStatus L.testing ret (x.cpu.spsr .abt)) :
    ∃ mem, x.prefHandlerAsm L env = { x with cpu := { x.cpu with
        spsr := Function.update x.cpu.spsr .abt resumed, cpsr := resumed
        pc := alignPc resumed (x.cpu.lr .abt - 4), mem := mem } } ∧
      mem L.prefReturn = ret.setWidth 32 ∧
      ∀ i, i < L.stackLimit ∨ L.stackTop ≤ i → i ≠ L.prefReturn → mem i = x.cpu.mem i := by
  have hroom := L.room
  have htop := L.stackTop_lt
  have hapart := L.prefReturn_apart
  obtain ⟨s, hs⟩ : ∃ s, L.stackTop = s + 6 := ⟨L.stackTop - 6, by omega⟩
  rw [hs] at hsp hapart ⊢
  obtain ⟨regs, mem1, hentry, h0, hframe⟩ := prefEntry_spec hmode hsp (by omega)
  generalize hm : { x.cpu with r := regs, sp := Function.update x.cpu.sp .abt (addrOf s), mem := mem1 } = m at hentry
  have hmodem : m.cpsr.mode = ABT_MODE := by rw [← hm, hmode]
  have hspm : m.sp .abt = addrOf s := by rw [← hm]; simp
  obtain ⟨regs', lr, psr, mem2, hcall, hpsr, hr0, hhigh, hstored, hmem2⟩ := callStore_spec env L.stackLimit
    (ret.setWidth 32) hmodem hspm (by omega) L.prefReturn_lt
  have hcalled : callPrefHandler L env { x with cpu := m } = { x with
      cpu := Cpu.call L.stackLimit env.junk (ret.setWidth 32) m } := by
    rw [← hm, hret]
    simp only [callPrefHandler, h0]
  -- with or without what ENABLE_TESTING adds
  generalize hstate : { m with r := regs', lr := Function.update m.lr .abt lr, cpsr := psr, mem := mem2 } = m2 at hcall
  obtain ⟨regs3, lr3, psr3, hsys, hpsr3, hr3⟩ : ∃ regs3 lr3 psr3, (if L.testing then resumeInSysMode env m2 else m2) =
      { m with
        r := regs3, lr := Function.update m.lr .abt lr3, cpsr := psr3
        spsr := Function.update m.spsr .abt resumed, mem := mem2 } ∧ psr3.mode = ABT_MODE ∧
      ∀ i : Fin 13, 4 ≤ i.val → i.val < 12 → regs3 i = regs' i := by
    have hspsr : m.spsr = x.cpu.spsr := by rw [← hm]
    cases htesting : L.testing with
    | false =>
      refine ⟨regs', lr, psr, ?_, hpsr, fun _ _ _ => rfl⟩
      have hsame : resumed = m.spsr .abt := by
        rw [hresumed, htesting, hspsr]
        exact if_neg fun h => Bool.noConfusion h.1
      rw [hsame, Function.update_eq_self, ← hstate]
      rfl
    | true =>
      obtain ⟨regs3, lr3, psr3, hspec, hpsr3, hr3⟩ := resumeInSysMode_spec env (m := m2)
        (by rw [← hstate]; exact hpsr) (by rw [← hstate]; exact hr0)
      refine ⟨regs3, lr3, psr3, ?_, hpsr3, ?_⟩
      · rw [if_pos rfl, hspec, hresumed, htesting, ← hspsr, ← hstate]
        simp only [Function.update_idem]
      · intro i hi hi12
        rw [hr3 i hi hi12, ← hstate]
  have hpop := popFrame_spec (m := { m with
    r := regs3, lr := Function.update m.lr .abt lr3, cpsr := psr3
    spsr := Function.update m.spsr .abt resumed, mem := mem2 }) hpsr3 hspm (by omega) hframe
    (fun i hi hi6 => (hmem2 i (by omega) (by omega)).trans (by rw [← hm]))
    (fun i hi hi12 => ((hr3 i hi hi12).trans (hhigh i hi hi12)).trans (by rw [← hm]))
  have hall : x.prefHandlerAsm L env = { x with
      cpu := Cpu.exceptionReturn 4 (Cpu.pop [r0, r1, r2, r3, r12, .lr] { m with
        r := regs3, lr := Function.update m.lr .abt lr3, cpsr := psr3
        spsr := Function.update m.spsr .abt resumed, mem := mem2 }) } := by
    simp only [prefHandlerAsm]
    rw [hentry, hcalled]
    simp only [exec]
    rw [hcall, ← hsys]
    cases L.testing <;> rfl
  have hsp' : Function.update (Function.update x.cpu.sp .abt (addrOf s)) .abt (addrOf (s + 6)) = x.cpu.sp := by
    rw [Function.update_idem, ← hsp, Function.update_eq_self]
  have hlr' : Function.update (Function.update x.cpu.lr .abt lr3) .abt (x.cpu.lr .abt) = x.cpu.lr := by
    rw [Function.update_idem, Function.update_eq_self]
  refine ⟨mem2, ?_, hstored, ?_⟩
  · rw [hall, hpop, exceptionReturn_abt (by exact hpsr3), ← hm]
    simp only [hsp', hlr', Function.update_self]
  · intro i hi hne
    rw [hmem2 i (by omega) hne, ← hm]
    exact hframe.memory i (by omega)

/-! ## From the abort to the return -/

/-- A data abort is taken: the link register is 8 past the instruction, in both states. -/
def takeDataAbort (dfsr dfar : Word) (x : Aborted) : Aborted :=
  { x with cpu := Cpu.enter ABT_MODE true (x.cpu.pc + 8) x.cpu, dfsr := dfsr, dfar := dfar }

/-- A prefetch abort is taken: the link register is 4 past the instruction, in both states. -/
def takePrefetchAbort (ifsr ifar : Word) (x : Aborted) : Aborted :=
  { x with cpu := Cpu.enter ABT_MODE true (x.cpu.pc + 4) x.cpu, ifsr := ifsr, ifar := ifar }

theorem handled_takeDataAbort (dfsr dfar : Word) : (x.takeDataAbort dfsr dfar).handled L =
    ((abtHandler L.testing L.symbols x.cpu.ttbr0 (.ofCode (faultStatus dfsr)) dfar (accessOf dfsr) x.mmu).1,
      if L.mapping then
        (abtHandler L.testing L.symbols x.cpu.ttbr0 (.ofCode (faultStatus dfsr)) dfar (accessOf dfsr) x.mmu).2
      else x.mmu) := rfl

/-- What an abort leaves to what it has interrupted, its thread apart: `w` is the word that the returned value is
stored to. -/
structure Resumed (L : AbortLayout) (w : Nat) (x y : Aborted) : Prop where
  neon : Kernel.neon y.cpu = Kernel.neon x.cpu
  fpexc : y.cpu.fpexc = x.cpu.fpexc
  contextidr : y.cpu.contextidr = x.cpu.contextidr
  sp : y.cpu.sp = x.cpu.sp
  banks : ∀ b, b ≠ .abt → y.cpu.lr b = x.cpu.lr b ∧ y.cpu.spsr b = x.cpu.spsr b
  memory : ∀ i, i < L.stackLimit ∨ L.stackTop ≤ i → i ≠ w → y.cpu.mem i = x.cpu.mem i

theorem dataAbort_spec (env : AbortEnv) (dfsr dfar : Word) (hsp : x.cpu.sp .abt = addrOf L.stackTop)
    (halign : alignPc x.cpu.cpsr x.cpu.pc = x.cpu.pc) :
    Resumed L L.abtReturn x ((x.takeDataAbort dfsr dfar).abtHandlerAsm L env) ∧
      thread ((x.takeDataAbort dfsr dfar).abtHandlerAsm L env).cpu = { thread x.cpu with
        pc := if ((x.takeDataAbort dfsr dfar).handled L).1 = 0 then x.cpu.pc
          else alignPc x.cpu.cpsr (x.cpu.pc + 4) } ∧
      ((x.takeDataAbort dfsr dfar).abtHandlerAsm L env).mmu = ((x.takeDataAbort dfsr dfar).handled L).2 ∧
      ((x.takeDataAbort dfsr dfar).abtHandlerAsm L env).cpu.mem L.abtReturn =
        ((x.takeDataAbort dfsr dfar).handled L).1.setWidth 32 := by
  have hlr : (x.takeDataAbort dfsr dfar).cpu.lr .abt = x.cpu.pc + 8 := by
    simp [takeDataAbort, Cpu.enter]
  have hspsr : (x.takeDataAbort dfsr dfar).cpu.spsr .abt = x.cpu.cpsr := by
    simp [takeDataAbort, Cpu.enter]
  obtain ⟨mem, hall, hret, hmem⟩ := abtHandlerAsm_spec env (x := x.takeDataAbort dfsr dfar) rfl hsp
  rw [hspsr, hlr] at hall
  rw [hall]
  refine ⟨⟨rfl, rfl, rfl, rfl, ?_, hmem⟩, ?_, rfl, hret⟩
  · intro b hb
    exact ⟨Function.update_of_ne hb .., Function.update_of_ne hb ..⟩
  · refine Thread.ext rfl rfl ?_ ?_ rfl rfl
    · simp [thread, takeDataAbort, Cpu.enter]
    · have hnext : x.cpu.pc + 8 - 4 = x.cpu.pc + 4 := by bv_omega
      show alignPc _ _ = _
      split_ifs
      · rw [BitVec.add_sub_cancel, halign]
      · rw [hnext]

theorem prefetchAbort_spec (env : AbortEnv) {ret : BitVec 8} (ifsr ifar : Word)
    (hsp : x.cpu.sp .abt = addrOf L.stackTop) (halign : alignPc x.cpu.cpsr x.cpu.pc = x.cpu.pc)
    (hret : ret = prefHandler L.testing (.ofCode (faultStatus ifsr))) :
    Resumed L L.prefReturn x ((x.takePrefetchAbort ifsr ifar).prefHandlerAsm L env) ∧
      thread ((x.takePrefetchAbort ifsr ifar).prefHandlerAsm L env).cpu = { thread x.cpu with
        cpsr := prefReturnStatus L.testing ret x.cpu.cpsr } ∧
      ((x.takePrefetchAbort ifsr ifar).prefHandlerAsm L env).mmu = x.mmu ∧
      ((x.takePrefetchAbort ifsr ifar).prefHandlerAsm L env).cpu.mem L.prefReturn = ret.setWidth 32 := by
  have hlr : (x.takePrefetchAbort ifsr ifar).cpu.lr .abt = x.cpu.pc + 4 := by
    simp [takePrefetchAbort, Cpu.enter]
  have hspsr : (x.takePrefetchAbort ifsr ifar).cpu.spsr .abt = x.cpu.cpsr := by
    simp [takePrefetchAbort, Cpu.enter]
  obtain ⟨mem, hall, hstored, hmem⟩ := prefHandlerAsm_spec env (x := x.takePrefetchAbort ifsr ifar) rfl hsp
    hret (by rw [hspsr])
  have ht : (prefReturnStatus L.testing ret x.cpu.cpsr).t = x.cpu.cpsr.t := by
    unfold prefReturnStatus
    split_ifs <;> rfl
  have hpc : alignPc (prefReturnStatus L.testing ret x.cpu.cpsr) x.cpu.pc = x.cpu.pc := by
    unfold alignPc at halign ⊢
    rw [ht, halign]
  rw [hlr, BitVec.add_sub_cancel, hpc] at hall
  rw [hall]
  refine ⟨⟨rfl, rfl, rfl, rfl, ?_, hmem⟩, ?_, rfl, hstored⟩
  · intro b hb
    exact ⟨Function.update_of_ne hb .., (Function.update_of_ne hb ..).trans (Function.update_of_ne hb ..)⟩
  · refine Thread.ext rfl rfl ?_ rfl rfl rfl
    simp [thread, takePrefetchAbort, Cpu.enter]

/-- Whatever the fault registers hold: the interrupted code has all that it had, and goes on at the instruction
that has aborted, or at the next one where `abt_handler` says so, or in SYS mode where `pref_handler` says so. -/
theorem aborts_resume (L : AbortLayout) (env : AbortEnv) (x : Aborted) (hsp : x.cpu.sp .abt = addrOf L.stackTop)
    (halign : alignPc x.cpu.cpsr x.cpu.pc = x.cpu.pc) :
    (∀ dfsr dfar ret mmu, (ret, mmu) = abtHandler L.testing L.symbols x.cpu.ttbr0 (.ofCode (faultStatus dfsr)) dfar
        (accessOf dfsr) x.mmu → ∃ y, (x.takeDataAbort dfsr dfar).abtHandlerAsm L env = y ∧
      Resumed L L.abtReturn x y ∧
      thread y.cpu =
        { thread x.cpu with pc := if ret = 0 then x.cpu.pc else alignPc x.cpu.cpsr (x.cpu.pc + 4) } ∧
      y.mmu = (if L.mapping then mmu else x.mmu) ∧ y.cpu.mem L.abtReturn = ret.setWidth 32) ∧
    ∀ ifsr ifar ret, ret = prefHandler L.testing (.ofCode (faultStatus ifsr)) →
      ∃ y, (x.takePrefetchAbort ifsr ifar).prefHandlerAsm L env = y ∧ Resumed L L.prefReturn x y ∧
        thread y.cpu = { thread x.cpu with cpsr := prefReturnStatus L.testing ret x.cpu.cpsr } ∧
        y.mmu = x.mmu ∧ y.cpu.mem L.prefReturn = ret.setWidth 32 := by
  constructor
  · intro dfsr dfar ret mmu hret
    have hhandled : (x.takeDataAbort dfsr dfar).handled L = (ret, if L.mapping then mmu else x.mmu) := by
      rw [handled_takeDataAbort, ← hret]
    have hspec := dataAbort_spec env dfsr dfar hsp halign
    rw [hhandled] at hspec
    exact ⟨_, rfl, hspec⟩
  · intro ifsr ifar ret hret
    exact ⟨_, rfl, prefetchAbort_spec env ifsr ifar hsp halign hret⟩

/-- A task in the middle of ENABLE_TESTING -/
def exampleAborted : Aborted where
  cpu := { exampleMapper.cpu with cpsr := Psr.ofWord 0x10 }
  mmu := exampleMapper.mmu
  dfsr := 0
  dfar := 0
  ifsr := 0
  ifar := 0

def exampleAbortLayout : AbortLayout where
  symbols := exampleMapperSymbols.toMmuSymbols
  stackLimit := 372
  stackTop := 500
  abtReturn := 600
  prefReturn := 601
  testing := true
  mapping := true
  room := by decide
  stackTop_lt := by decide
  abtReturn_lt := by decide
  prefReturn_lt := by decide
  abtReturn_apart := .inr (by decide)
  prefReturn_apart := .inr (by decide)

def exampleAbortEnv : AbortEnv := ⟨⟨1, 2, 3, 4, 5, Psr.ofWord 0xF0000000, fun _ => 6⟩, 7⟩

/-- A store that is not permitted is skipped, and a fetch that is not permitted is made again in SYS mode. -/
theorem aborts_resume_example :
    (∃ y, (exampleAborted.takeDataAbort 0x80F 0x70003ABC).abtHandlerAsm exampleAbortLayout exampleAbortEnv = y ∧
      thread y.cpu = { thread exampleAborted.cpu with pc := 0x9004 } ∧ y.cpu.mem 600 = 5) ∧
    ∃ y, (exampleAborted.takePrefetchAbort 0xF 0x9000).prefHandlerAsm exampleAbortLayout exampleAbortEnv = y ∧
      thread y.cpu = { thread exampleAborted.cpu with cpsr := { Psr.ofWord 0x10 with mode := SYS_MODE } } := by
  obtain ⟨hdata, hprefetch⟩ := aborts_resume exampleAbortLayout exampleAbortEnv exampleAborted rfl rfl
  obtain ⟨y, hy, -, hthread, -, hstored⟩ := hdata 0x80F 0x70003ABC _ _ rfl
  obtain ⟨y', hy', -, hthread', -⟩ := hprefetch 0xF 0x9000 _ rfl
  exact ⟨⟨y, hy, hthread, hstored⟩, y', hy', hthread'⟩

end Aborted

end Td3.Kernel
