/-
Which word `SVC_handler` (kernel/vector_table.S) takes the address of a system call from, for every value a
task can have in r7. The handler compares r7 with nothing: it adds `r7, lsl #2` to the address of
`syscall_table` (kernel/syscalls.S), so the two high bits of r7 are lost and the rest may lead anywhere.
-/
import Td3.Kernel.Syscall

namespace Td3.Kernel

open Arm

/-! ## The table -/

/-- The functions named in `syscall_table` -/
inductive SyscallFunction where
  | criticalError
  | readPrivilegedData
  | writePrivilegedData
  | noSyscall
  | getRandom
  | testingSyscall0
  | testingSyscall1
  | testingSyscall2
  | testingSyscall3
  | testingSyscall4
  | testingSyscall5
  | testingSyscall6
  | testingSyscall7
  | timerInit
  | timerResume
  | timerPause
  | timerReset
  | timerLoadMs
  | timerLoadUs
  | timerSetMode
  | timerEnableInterrupt
  | timerDisableInt
  | timerClearInterrupt
  | timerTimeMs
  | timerTimeUs
  | timerInterrupted
  | gicEnableInterrupt
  | gicDisableInterrupt
  | gicGetId
  | gicGetPriority
  | gicClearInterrupt
  | gicSetSwi
  | schedulerInit
  | schedulerAddTask
  | schedulerStart
deriving DecidableEq, Repr

/-- `syscall_table`, ten entries a row -/
def syscallTable : List SyscallFunction := List.flatten [
  [.criticalError, .readPrivilegedData, .writePrivilegedData, .noSyscall, .noSyscall, .noSyscall, .noSyscall,
    .noSyscall, .noSyscall, .noSyscall],
  [.getRandom, .noSyscall, .noSyscall, .noSyscall, .noSyscall, .noSyscall, .noSyscall, .noSyscall,
    .noSyscall, .noSyscall],
  [.testingSyscall0, .testingSyscall1, .testingSyscall2, .testingSyscall3, .testingSyscall4,
    .testingSyscall5, .testingSyscall6, .testingSyscall7, .noSyscall, .noSyscall],
  [.timerInit, .timerResume, .timerPause, .timerReset, .timerLoadMs, .timerLoadUs, .timerSetMode,
    .timerEnableInterrupt, .timerDisableInt, .timerClearInterrupt],
  [.timerTimeMs, .timerTimeUs, .timerInterrupted, .noSyscall, .noSyscall, .noSyscall, .noSyscall, .noSyscall,
    .noSyscall, .noSyscall],
  [.gicEnableInterrupt, .gicDisableInterrupt, .gicGetId, .gicGetPriority, .gicClearInterrupt, .gicSetSwi,
    .noSyscall, .noSyscall, .noSyscall, .noSyscall],
  [.schedulerInit, .schedulerAddTask, .schedulerStart, .noSyscall, .noSyscall, .noSyscall, .noSyscall,
    .noSyscall, .noSyscall, .noSyscall],
  [.noSyscall, .noSyscall, .noSyscall, .noSyscall, .noSyscall, .noSyscall, .noSyscall, .noSyscall,
    .noSyscall, .noSyscall]]

theorem syscallTable_length : syscallTable.length = syscallTableLength := by decide

/-- A linked image: where the functions of the table are, no two at one address, and the table inside the address
space. -/
structure SyscallImage extends SyscallKernel where
  address : SyscallFunction → Word
  address_injective : Function.Injective address
  table_le : syscallTable + syscallTableLength ≤ 2 ^ 30

/-- The memory holds the table as it was linked. -/
def SyscallImage.Loaded (K : SyscallImage) (m : Cpu) : Prop :=
  ∀ i f, syscallTable[i]? = some f → m.mem (K.syscallTable + i) = K.address f

/-- What a number that the table does not have may end in -/
def SyscallFunction.Refuses (f : SyscallFunction) : Prop := f = .noSyscall ∨ f = .criticalError

instance (f : SyscallFunction) : Decidable f.Refuses := inferInstanceAs (Decidable (_ ∨ _))

/-- From any state of a task with this value in r7, the handler calls a function whose address it takes from an
entry of the table; a number that the table does not have ends in `__no_syscall` or an error. -/
def SyscallImage.DispatchesInTable (K : SyscallImage) (n : Word) : Prop :=
  ∀ u : Cpu, u.cpsr.mode = USR_MODE → u.r 7 = n → K.Loaded u →
    ∃ entry i f, (SvcMachine.svcHandler K.toSyscallKernel ⟨Cpu.takeSvc u, []⟩).calls =
        [(entry.mem (K.syscallTable + i), entry)] ∧
      syscallTable[i]? = some f ∧ (syscallTableLength ≤ n.toNat → f.Refuses)

/-! ## The word the handler reads -/

/-- Addresses are taken modulo the size of the address space. -/
theorem wordIndex_addrOf_mod (i : Nat) : wordIndex (addrOf i) = i % 2 ^ 30 := by
  rw [wordIndex, addrOf, BitVec.toNat_ofNat]
  omega

namespace SvcMachine

variable (K : SyscallKernel) (m : Cpu)

section
attribute [local simp] Cpu.srsfdSys Cpu.cpsid Cpu.cpsie Cpu.cps Cpu.push Cpu.gets Cpu.get Cpu.set Cpu.bank Cpu.movImm
  Cpu.addLsl Cpu.ldr addrOf_add_lsl wordIndex_addrOf_mod

theorem svcEnter_target : (svcEnter K m).r 12 = (svcEnter K m).mem ((K.syscallTable + (m.r 7).toNat) % 2 ^ 30) := by
  simp [svcEnter, Function.update_of_ne]

/-- The frame is the only memory that the handler writes before the call. -/
theorem svcEnter_mem {t : Nat} (hsp : m.sp .user = addrOf (t + 8)) (ht : t + 8 < 2 ^ 30) {j : Nat}
    (hj : j < t ∨ t + 8 ≤ j) : (svcEnter K m).mem j = m.mem j := by
  have hsp8 : m.sp .user - 8#32 = addrOf (t + 6) := by
    rw [hsp]
    exact addrOf_sub _ (by decide) (by omega)
  have hsp32 : addrOf (t + 6) - 24#32 = addrOf t := addrOf_sub _ (by decide) (by omega)
  have h6 : (t + 6) % 2 ^ 30 = t + 6 := Nat.mod_eq_of_lt (by omega)
  have h0 : t % 2 ^ 30 = t := Nat.mod_eq_of_lt (by omega)
  simp only [svcEnter, Cpu.cps, Cpu.cpsie, Cpu.ldr, Cpu.addLsl, Cpu.movImm, Cpu.set, Cpu.push, Cpu.gets, Cpu.get,
    Cpu.bank, Cpu.cpsid, Cpu.srsfdSys, hsp8, bankOf_sys, Function.update_self, List.length_cons, List.length_nil,
    List.map_cons, List.map_nil, Nat.reduceAdd, Nat.reduceMul, hsp32, wordIndex_addrOf_mod, h6, h0]
  rw [storeWords_of_not (by simp; omega), storeWords_of_not (by simp; omega)]

end

/-- The call of the handler -/
theorem svcHandler_calls (calls : List (Word × Cpu)) : (svcHandler K ⟨m, calls⟩).calls =
    calls ++ [((svcEnter K m).mem ((K.syscallTable + (m.r 7).toNat) % 2 ^ 30), svcEnter K m)] := by
  rw [← svcEnter_target]
  rfl

end SvcMachine

/-! ## The numbers that stay in the table -/

namespace SyscallImage

variable (K : SyscallImage)

/-- Fewer functions than words: some word is the address of none of them. -/
theorem exists_not_address : ∃ x : Word, ∀ f, K.address f ≠ x := by
  have hmem : ∀ f : SyscallFunction, f ∈ syscallTable := fun f => by cases f <;> decide
  by_contra hall
  push Not at hall
  have hsub : (List.range 81).map (BitVec.ofNat 32) ⊆ syscallTable.map K.address := by
    intro x _
    obtain ⟨f, rfl⟩ := hall x
    exact List.mem_map_of_mem (hmem f)
  have hnodup : ((List.range 81).map (BitVec.ofNat 32)).Nodup := by decide +kernel
  have hlen := (List.subperm_of_subset hnodup hsub).length_le
  rw [List.length_map, List.length_map, syscallTable_length, List.length_range] at hlen
  exact absurd hlen (by decide)

/-- The numbers of the table, and those that the two lost bits bring to an entry that refuses them -/
def StaysInTable (n : Word) : Prop :=
  n.toNat < syscallTableLength ∨ ∃ f, syscallTable[n.toNat % 2 ^ 30]? = some f ∧ f.Refuses

variable {K}

theorem dispatchesInTable_of_staysInTable {n : Word} (h : StaysInTable n) : K.DispatchesInTable n := by
  rintro u - rfl -
  have hle := K.table_le
  obtain ⟨f, hf, hrefuses⟩ : ∃ f, syscallTable[(u.r 7).toNat % 2 ^ 30]? = some f ∧
      (syscallTableLength ≤ (u.r 7).toNat → f.Refuses) := by
    rcases h with hlt | ⟨f, hf, hrefuses⟩
    · have hlen : (u.r 7).toNat % 2 ^ 30 < syscallTable.length := by
        rw [syscallTable_length]
        exact Nat.lt_of_le_of_lt (Nat.mod_le _ _) hlt
      exact ⟨_, List.getElem?_eq_getElem hlen, fun hge => absurd hlt (by omega)⟩
    · exact ⟨f, hf, fun _ => hrefuses⟩
  have hlt : (u.r 7).toNat % 2 ^ 30 < syscallTableLength := by
    rw [← syscallTable_length]
    exact (List.getElem?_eq_some_iff.1 hf).1
  have hindex : (K.syscallTable + (u.r 7).toNat) % 2 ^ 30 = K.syscallTable + (u.r 7).toNat % 2 ^ 30 := by omega
  refine ⟨SvcMachine.svcEnter K.toSyscallKernel (Cpu.takeSvc u), (u.r 7).toNat % 2 ^ 30, f, ?_, hf, hrefuses⟩
  rw [SvcMachine.svcHandler_calls, ← hindex]
  rfl

/-- A task with its stack at word `s` and a number in r7, over this memory -/
def taskCpu (n : Word) (s : Nat) (mem : Nat → Word) : Cpu :=
  { exampleCaller with r := fun _ => n, sp := fun _ => addrOf s, mem := mem }

/-- Room for a frame away from the table and from another word -/
theorem exists_room (T idx : Nat) : ∃ t, t + 8 < 2 ^ 30 ∧ (t + 8 ≤ T ∨ T + syscallTableLength ≤ t) ∧
    (idx < t ∨ t + 8 ≤ idx) := by
  unfold syscallTableLength
  by_cases h0 : (8 ≤ T ∨ T + 80 ≤ 0) ∧ 8 ≤ idx
  · exact ⟨0, by omega, by omega, by omega⟩
  by_cases h1 : (108 ≤ T ∨ T + 80 ≤ 100) ∧ (idx < 100 ∨ 108 ≤ idx)
  · exact ⟨100, by omega, by omega, by omega⟩
  exact ⟨200, by omega, by omega, by omega⟩

theorem not_dispatchesInTable {n : Word} (h : ¬ StaysInTable n) : ¬ K.DispatchesInTable n := by
  intro hall
  unfold StaysInTable at h
  push Not at h
  obtain ⟨hge, hentry⟩ := h
  obtain ⟨x, hx⟩ := K.exists_not_address
  have hle := K.table_le
  generalize hidx : (K.syscallTable + n.toNat) % 2 ^ 30 = idx
  obtain ⟨t, ht, htable, hword⟩ := exists_room K.syscallTable idx
  -- the table as it was linked, and no address of a function anywhere else
  let mem : Nat → Word := fun j =>
    if K.syscallTable ≤ j then (syscallTable[j - K.syscallTable]?).elim x K.address else x
  have hloaded : K.Loaded (taskCpu n (t + 8) mem) := by
    intro i f hf
    show mem (K.syscallTable + i) = K.address f
    simp only [mem, Nat.le_add_right, if_true, Nat.add_sub_cancel_left, hf, Option.elim_some]
  have hmode : exampleCaller.cpsr.mode = USR_MODE := by decide
  obtain ⟨entry, i, f, hcalls, hf, hrefuses⟩ := hall (taskCpu n (t + 8) mem) hmode rfl hloaded
  have hi : i < syscallTableLength := by
    rw [← syscallTable_length]
    exact (List.getElem?_eq_some_iff.1 hf).1
  rw [SvcMachine.svcHandler_calls, List.nil_append, List.cons.injEq, Prod.mk.injEq] at hcalls
  obtain ⟨⟨htarget, hentryEq⟩, -⟩ := hcalls
  have hmem : ∀ j, j < t ∨ t + 8 ≤ j → entry.mem j = mem j := by
    intro j hj
    rw [← hentryEq]
    exact SvcMachine.svcEnter_mem _ _ rfl ht hj
  rw [hentryEq] at htarget
  have htarget' : mem idx = K.address f := by
    rw [← hmem idx hword, ← hidx]
    refine Eq.trans htarget ?_
    rw [hmem _ (by omega)]
    exact hloaded i f hf
  have hfs := hrefuses hge
  -- the word read is an entry that does not refuse, or none at all
  by_cases hin : K.syscallTable ≤ idx
  · simp only [mem, hin, if_true] at htarget'
    cases hg : syscallTable[idx - K.syscallTable]? with
    | none =>
      rw [hg, Option.elim_none] at htarget'
      exact hx f htarget'.symm
    | some g =>
      have hlt := (List.getElem?_eq_some_iff.1 hg).1
      rw [syscallTable_length] at hlt
      unfold syscallTableLength at hlt hle
      have hmod : n.toNat % 2 ^ 30 = idx - K.syscallTable := by omega
      rw [hg, Option.elim_some] at htarget'
      have hgf : g = f := K.address_injective htarget'
      rw [← hmod, hgf] at hg
      exact hentry f hg hfs
  · simp only [mem, hin, if_false] at htarget'
    exact hx f htarget'.symm

end SyscallImage

/-! ## An image -/

/-- Functions of one instruction each, from 0x70010000 on -/
def imageAddress (f : SyscallFunction) : Word := 0x70010000#32 + BitVec.ofNat 32 (4 * f.ctorIdx)

theorem imageAddress_injective : Function.Injective imageAddress := by
  intro f g h
  have hlt (f : SyscallFunction) : f.ctorIdx < 35 := by cases f <;> decide
  have hf := hlt f
  have hg := hlt g
  have hindex : f.ctorIdx = g.ctorIdx := by
    have hoffset := congrArg BitVec.toNat ((BitVec.add_right_inj _).1 h)
    simp only [BitVec.toNat_ofNat] at hoffset
    omega
  rw [← SyscallFunction.ofNat_ctorIdx f, hindex, SyscallFunction.ofNat_ctorIdx]

def exampleImage : SyscallImage where
  syscallTable := 1000
  functions := fun _ m => m
  address := imageAddress
  address_injective := imageAddress_injective
  table_le := by decide

end Td3.Kernel
