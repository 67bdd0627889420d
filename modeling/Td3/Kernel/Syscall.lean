/-
System calls: the stubs syscall0 to syscall7 (kernel/syscalls.S), `SVC_handler`
(kernel/vector_table.S), and the function of the syscall table they run. The stubs move the arguments
beyond the fourth from the caller's stack to r4 to r6; the handler pushes these as the stack arguments
of the function, on the caller's own stack, above them what it has to keep.

A function that keeps to the procedure call standard may overwrite its stack arguments. What the
handler pops there into r4 to r6 is then wrong, and it is the stub that restores just these.
-/
import Td3.Lib.Arm

namespace Td3.Kernel

open Arm

/-! ## The handler -/

/-- Words of `syscall_table`. -/
def syscallTableLength : Nat := 80

/-- Where the linker puts `syscall_table` (its word number), and what the compiled functions do, by
address: the state at the return of a function from that at its first instruction. -/
structure SyscallKernel where
  syscallTable : Nat
  functions : Word → Cpu → Cpu

/-- The processor, and the functions that were called with the states they were called in. -/
structure SvcMachine where
  cpu : Cpu
  calls : List (Word × Cpu)

namespace SvcMachine

variable (K : SyscallKernel)

def exec (f : Cpu → Cpu) (m : SvcMachine) : SvcMachine := { m with cpu := f m.cpu }

/-- `blx n` -/
def blx (n : Reg) (m : SvcMachine) : SvcMachine :=
  { cpu := K.functions (m.cpu.get n) m.cpu, calls := m.calls ++ [(m.cpu.get n, m.cpu)] }

/-- `SVC_handler` up to `blx r12` -/
def svcEnter (m : Cpu) : Cpu :=
  let m := m |> Cpu.srsfdSys |> Cpu.cpsid |> Cpu.cps SYS_MODE
  let m := Cpu.push [.r 4, .r 5, .r 6, .r 11, .r 12, .lr] m
  let m := Cpu.movImm (.r 12) (addrOf K.syscallTable) m
  let m := Cpu.addLsl (.r 12) (.r 12) (.r 7) 2 m
  let m := Cpu.ldr (.r 12) (.r 12) 0 m
  m |> Cpu.cpsie |> Cpu.cps SYS_MODE

/-- The rest of `SVC_handler` -/
def svcLeave (m : Cpu) : Cpu :=
  let m := m |> Cpu.cpsid |> Cpu.cps SYS_MODE
  let m := Cpu.pop [.r 4, .r 5, .r 6, .r 11, .r 12, .lr] m
  m |> Cpu.rfe

/-- `SVC_handler` -/
def svcHandler (m : SvcMachine) : SvcMachine := ((m.exec (svcEnter K)).blx K (.r 12)).exec svcLeave

end SvcMachine

/-! ## The stubs -/

section
variable (K : SyscallKernel)

/-- A stub, with its `svc` at word `svc`, from its first instruction to the caller's next one: it saves
`regs`, moves arguments and the syscall number where the handler has them, and returns. `none` where
the handler returns elsewhere than behind the `svc`. -/
def syscallStub (regs : List (Fin 13)) (marshal : Cpu → Cpu) (svc : Nat) (m : Cpu) : Option SvcMachine :=
  let m := marshal (Cpu.push (regs.map Reg.r) m)
  let m := SvcMachine.svcHandler K ⟨Cpu.takeSvc { m with pc := addrOf svc }, []⟩
  if m.cpu.pc = addrOf (svc + 1) then some ((m.exec (Cpu.pop (regs.map Reg.r))).exec Cpu.movPcLr) else none

def syscall0 : Nat → Cpu → Option SvcMachine := syscallStub K [7] (Cpu.mov (.r 7) (.r 0))
def syscall1 : Nat → Cpu → Option SvcMachine := syscallStub K [7] (Cpu.mov (.r 7) (.r 1))
def syscall2 : Nat → Cpu → Option SvcMachine := syscallStub K [7] (Cpu.mov (.r 7) (.r 2))
def syscall3 : Nat → Cpu → Option SvcMachine := syscallStub K [7] (Cpu.mov (.r 7) (.r 3))
def syscall4 : Nat → Cpu → Option SvcMachine := syscallStub K [7] (Cpu.ldr (.r 7) .sp 4)
def syscall5 : Nat → Cpu → Option SvcMachine :=
  syscallStub K [4, 7] fun m => m |> Cpu.ldr (.r 4) .sp 8 |> Cpu.ldr (.r 7) .sp 12
def syscall6 : Nat → Cpu → Option SvcMachine :=
  syscallStub K [4, 5, 7] fun m => m |> Cpu.ldr (.r 4) .sp 12 |> Cpu.ldr (.r 5) .sp 16 |> Cpu.ldr (.r 7) .sp 20
def syscall7 : Nat → Cpu → Option SvcMachine :=
  syscallStub K [4, 5, 6, 7] fun m =>
    m |> Cpu.ldr (.r 4) .sp 16 |> Cpu.ldr (.r 5) .sp 20 |> Cpu.ldr (.r 6) .sp 24 |> Cpu.ldr (.r 7) .sp 28

/-- `syscallN` -/
def syscallN : Fin 8 → Nat → Cpu → Option SvcMachine :=
  ![syscall0 K, syscall1 K, syscall2 K, syscall3 K, syscall4 K, syscall5 K, syscall6 K, syscall7 K]

end

/-! ## The procedure call standard -/

/-- Argument `k` of a call, with the stack pointer at word `s`. -/
def argument (m : Cpu) (s k : Nat) : Word := if h : k < 4 then m.r ⟨k, by omega⟩ else m.mem (s + (k - 4))

/-- A function of `args` arguments called on a stack whose words below word `top` are the frames of its
callers, and which keeps to the procedure call standard: it preserves r4 to r11 and the stack pointer,
and writes of its callers' frames at most its own stack arguments. -/
structure Aapcs (args top : Nat) (f : Cpu → Cpu) : Prop where
  calleeSaved : ∀ m : Cpu, m.cpsr.mode = SYS_MODE → ∀ i : Fin 13, 4 ≤ i.val → i.val ≤ 11 → (f m).r i = m.r i
  sp : ∀ m : Cpu, m.cpsr.mode = SYS_MODE → (f m).sp .user = m.sp .user
  frames : ∀ m : Cpu, m.cpsr.mode = SYS_MODE → ∀ i, wordIndex (m.sp .user) + (args - 4) ≤ i → i < top →
    (f m).mem i = m.mem i

/-! ## The handler's frame -/

namespace SvcMachine

variable {K : SyscallKernel} {m : Cpu}

section
attribute [local simp] Cpu.srsfdSys Cpu.cpsid Cpu.cpsie Cpu.cps Cpu.push Cpu.pop Cpu.gets Cpu.get Cpu.set Cpu.bank
  Cpu.movImm Cpu.addLsl Cpu.ldr Cpu.loadRegs Cpu.rfe storeWords addrOf_add addrOf_sub addrOf_add_lsl wordIndex_addrOf
  Nat.add_assoc

/-- The handler enters the function of the table in SYS mode, with r4 to r6 as the stack arguments. -/
theorem svcEnter_spec {t : Nat} (hmode : m.cpsr.mode = SVC_MODE) (hsp : m.sp .user = addrOf (t + 8))
    (ht : t + 8 < 2 ^ 30)
    (htable : K.syscallTable + (m.r 7).toNat < 2 ^ 30)
    (hd : K.syscallTable + (m.r 7).toNat < t ∨ t + 8 ≤ K.syscallTable + (m.r 7).toNat) :
    svcEnter K m = { m with
      r := Function.update m.r 12 (m.mem (K.syscallTable + (m.r 7).toNat))
      sp := Function.update m.sp .user (addrOf t)
      cpsr := { m.cpsr with i := false, mode := SYS_MODE }
      mem := storeWords (storeWords m.mem (t + 6) [m.lr .svc, (m.spsr .svc).toWord]) t
        [m.r 4, m.r 5, m.r 6, m.r 11, m.r 12, m.lr .user] } := by
  simp (disch := omega) [svcEnter, hmode, hsp, Function.update_of_ne]

/-- What the handler restores from its frame. -/
theorem svcLeave_spec {t : Nat} (hsp : m.sp .user = addrOf t) (ht : t + 8 < 2 ^ 30) :
    svcLeave m = { m with
      r := Function.update (Function.update (Function.update (Function.update (Function.update m.r 4 (m.mem t))
        5 (m.mem (t + 1))) 6 (m.mem (t + 2))) 11 (m.mem (t + 3))) 12 (m.mem (t + 4))
      sp := Function.update m.sp .user (addrOf (t + 8)), lr := Function.update m.lr .user (m.mem (t + 5))
      cpsr := .ofWord (m.mem (t + 7)), pc := alignPc (.ofWord (m.mem (t + 7))) (m.mem (t + 6)) } := by
  simp (disch := omega) [svcLeave, hsp]

end

/-- The state a function of the table is entered in, by a task whose state at the `svc` is `u`. -/
structure EnteredFrom (t : Nat) (u entry : Cpu) : Prop where
  mode : entry.cpsr.mode = SYS_MODE
  sp : entry.sp .user = addrOf t
  r : ∀ i, i ≠ 12 → entry.r i = u.r i
  frame : entry.mem t = u.r 4 ∧ entry.mem (t + 1) = u.r 5 ∧ entry.mem (t + 2) = u.r 6
  above : ∀ i, t + 8 ≤ i → entry.mem i = u.mem i

/-- The state the handler returns to the task in, from the function's state `out` at its return. -/
structure ReturnedTo (args t : Nat) (u out m : Cpu) : Prop where
  r0 : m.r 0 = out.r 0
  -- of r4 to r6 only those that are no arguments
  r : ∀ i : Fin 13, 4 ≤ i.val → i.val ≤ 11 → args ≤ i.val ∨ 7 ≤ i.val → m.r i = u.r i
  sp : m.sp .user = addrOf (t + 8)
  lr : m.lr .user = u.lr .user
  cpsr : m.cpsr = u.cpsr
  pc : m.pc = u.pc + 4#32
  mem : m.mem = out.mem

theorem svcHandler_spec {u : Cpu} {args top t svc : Nat} (calls : List (Word × Cpu))
    (hstate : u.cpsr.t = false) (hpc : u.pc = addrOf svc)
    (hsp : u.sp .user = addrOf (t + 8)) (htop : t + 8 ≤ top) (hlt : top < 2 ^ 30) (hargs : args ≤ 7)
    (htable : K.syscallTable + (u.r 7).toNat < 2 ^ 30)
    (hd : K.syscallTable + (u.r 7).toNat < t ∨ t + 8 ≤ K.syscallTable + (u.r 7).toNat)
    (hf : Aapcs args top (K.functions (u.mem (K.syscallTable + (u.r 7).toNat)))) :
    ∃ entry, EnteredFrom t u entry ∧
      (svcHandler K ⟨Cpu.takeSvc u, calls⟩).calls = calls ++ [(u.mem (K.syscallTable + (u.r 7).toNat), entry)] ∧
      ReturnedTo args t u (K.functions (u.mem (K.syscallTable + (u.r 7).toNat)) entry)
        (svcHandler K ⟨Cpu.takeSvc u, calls⟩).cpu := by
  have henter := svcEnter_spec (K := K) (m := Cpu.takeSvc u) (t := t) rfl hsp (by omega) htable hd
  generalize hentry : svcEnter K (Cpu.takeSvc u) = entry at henter
  generalize hptr : u.mem (K.syscallTable + (u.r 7).toNat) = ptr at hf
  have hr12 : entry.r 12 = ptr := by
    rw [henter, ← hptr]
    simp [Cpu.takeSvc, Cpu.enter]
  have hmem : entry.mem = storeWords (storeWords u.mem (t + 6) [u.pc + 4#32, u.cpsr.toWord]) t
      [u.r 4, u.r 5, u.r 6, u.r 11, u.r 12, u.lr .user] := by
    rw [henter]
    simp [Cpu.takeSvc, Cpu.enter, Cpu.stateStep, hstate]
  have hmemAt : ∀ k, (hk : k < 6) → entry.mem (t + k) = [u.r 4, u.r 5, u.r 6, u.r 11, u.r 12, u.lr .user][k] := by
    intro k hk
    rw [hmem]
    exact storeWords_at hk
  have hentered : EnteredFrom t u entry := by
    refine ⟨?_, ?_, ?_, ⟨hmemAt 0 (by decide), hmemAt 1 (by decide), hmemAt 2 (by decide)⟩, ?_⟩
    · rw [henter]
    · rw [henter]
      simp
    · intro i hi
      rw [henter]
      exact Function.update_of_ne hi ..
    · intro i hi
      rw [hmem, storeWords_of_not (.inr (by simpa using by omega)), storeWords_of_not (.inr (by simpa using by omega))]
  have hhandler : svcHandler K ⟨Cpu.takeSvc u, calls⟩ =
    ⟨svcLeave (K.functions ptr entry), calls ++ [(ptr, entry)]⟩ := by
    rw [← hr12, ← hentry]
    rfl
  refine ⟨entry, hentered, by rw [hhandler], ?_⟩
  rw [hhandler]
  have hleave := svcLeave_spec (m := K.functions ptr entry) ((hf.sp entry hentered.mode).trans hentered.sp) (by omega)
  have hindex : wordIndex (entry.sp .user) = t := by rw [hentered.sp, wordIndex_addrOf (by omega)]
  -- the function leaves the handler's frame beyond its own arguments
  have hframe : ∀ i, t + (args - 4) ≤ i → i < t + 8 → (K.functions ptr entry).mem i = entry.mem i := by
    intro i hi hi8
    exact hf.frames entry hentered.mode i (by rw [hindex]; exact hi) (by omega)
  have hword : ∀ k, (hk : k < 6) → args ≤ 4 + k → (K.functions ptr entry).mem (t + k) =
      [u.r 4, u.r 5, u.r 6, u.r 11, u.r 12, u.lr .user][k] := by
    intro k hk hargs
    rw [hframe _ (by omega) (by omega), hmemAt k hk]
  have hsrs : ∀ k, (hk : k < 2) → (K.functions ptr entry).mem (t + 6 + k) = [u.pc + 4#32, u.cpsr.toWord][k] := by
    intro k hk
    rw [hframe _ (by omega) (by omega), hmem, storeWords_of_not (.inr (by simp)), storeWords_at hk]
  have hcpsr : Psr.ofWord ((K.functions ptr entry).mem (t + 7)) = u.cpsr := by
    rw [hsrs 1 (by decide)]
    exact Psr.ofWord_toWord _
  have hreturn : (K.functions ptr entry).mem (t + 6) = addrOf (svc + 1) := by
    rw [hsrs 0 (by decide)]
    show u.pc + 4#32 = addrOf (svc + 1)
    rw [hpc, addrOf_add _ (by decide)]
  rw [hcpsr, hreturn, alignPc_addrOf hstate] at hleave
  show ReturnedTo args t u (K.functions ptr entry) (svcLeave (K.functions ptr entry))
  rw [hleave]
  refine ⟨?_, ?_, ?_, ?_, rfl, ?_, rfl⟩
  · simp
  · intro i h4 h11 hnot
    by_cases hi11 : i = 11
    · subst hi11
      exact hword 3 (by decide) hargs
    by_cases hi6 : i = 6
    · subst hi6
      exact hword 2 (by decide) (hnot.resolve_right (by decide))
    by_cases hi5 : i = 5
    · subst hi5
      exact hword 1 (by decide) (hnot.resolve_right (by decide))
    by_cases hi4 : i = 4
    · subst hi4
      exact hword 0 (by decide) (hnot.resolve_right (by decide))
    have hi12 : i ≠ 12 := by
      rintro rfl
      exact absurd h11 (by decide)
    simp [hi4, hi5, hi6, hi11, hi12, hf.calleeSaved entry hentered.mode i h4 h11, hentered.r]
  · simp
  · exact Eq.trans (by simp) (hword 5 (by decide) (by omega))
  · rw [hpc, addrOf_add _ (by decide)]

end SvcMachine

/-! ## A stub's frame -/

section
variable {K : SyscallKernel}

open SvcMachine

theorem bank_user {m : Cpu} (hmode : m.cpsr.mode = USR_MODE ∨ m.cpsr.mode = SYS_MODE) : m.bank = .user := by
  unfold Cpu.bank
  rcases hmode with h | h
  · rw [h, bankOf_usr]
  · rw [h, bankOf_sys]

theorem push_spec {m : Cpu} (regs : List (Fin 13)) {t : Nat} (hbank : m.bank = .user)
    (hsp : m.sp .user = addrOf (t + regs.length)) (ht : t < 2 ^ 30) :
    Cpu.push (regs.map Reg.r) m = { m with
      sp := Function.update m.sp .user (addrOf t), mem := storeWords m.mem t (regs.map m.r) } := by
  have hsub : addrOf (t + regs.length) - BitVec.ofNat 32 (4 * regs.length) = addrOf t := by
    rw [addrOf_sub _ (by omega) (by omega)]
    congr 1
    omega
  have hgets : m.gets (regs.map Reg.r) = regs.map m.r := by rw [Cpu.gets, List.map_map]; rfl
  have hget : m.get .sp = addrOf (t + regs.length) := by rw [Cpu.get, hbank, hsp]
  simp only [Cpu.push, List.length_map, hget, hsub, wordIndex_addrOf ht, hgets]
  rw [Cpu.set]
  show ({ m with sp := Function.update m.sp m.bank _, mem := _ } : Cpu) = _
  rw [hbank]

theorem pop_spec {m : Cpu} (regs : List (Fin 13)) {t : Nat} (hbank : m.bank = .user) (hsp : m.sp .user = addrOf t)
    (ht : t < 2 ^ 30) (hnodup : regs.Nodup) :
    ∃ r, Cpu.pop (regs.map Reg.r) m = { m with sp := Function.update m.sp .user (addrOf (t + regs.length)), r := r } ∧
      (∀ i, i ∉ regs → r i = m.r i) ∧ ∀ k, (hk : k < regs.length) → r regs[k] = m.mem (t + k) := by
  have hget : m.get .sp = addrOf t := by rw [Cpu.get, hbank, hsp]
  have hadd : addrOf t + BitVec.ofNat 32 (4 * regs.length) = addrOf (t + regs.length) := by
    rw [addrOf_add _ (by omega)]
    congr 1
    omega
  have hset : m.set (addrOf (t + regs.length)) .sp =
      { m with sp := Function.update m.sp .user (addrOf (t + regs.length)) } := by rw [Cpu.set, hbank]
  simp only [Cpu.pop, List.length_map, hget, hadd, wordIndex_addrOf ht, hset]
  refine ⟨_, Cpu.loadRegs_eq t, ?_, ?_⟩
  · intro i hi
    exact Cpu.loadRegs_of_notMem hi
  · intro k hk
    exact Cpu.loadRegs_at hnodup hk

/-- What a stub does from the state `m` it is entered in: the function runs in state `entry`, and the
stub returns in state `final`. -/
structure Marshalled (K : SyscallKernel) (args s : Nat) (values : Nat → Word) (ptr : Word) (m entry final : Cpu) :
    Prop where
  mode : entry.cpsr.mode = SYS_MODE
  arguments : ∀ k, k < args → argument entry (wordIndex (entry.sp .user)) k = values k
  above : ∀ i, s ≤ i → entry.mem i = m.mem i
  r0 : final.r 0 = (K.functions ptr entry).r 0
  r : ∀ i : Fin 13, 4 ≤ i.val → i.val ≤ 11 → final.r i = m.r i
  sp : final.sp .user = m.sp .user
  lr : final.lr .user = m.lr .user
  returned : final.cpsr = { m.cpsr with t := (m.lr .user).getLsbD 0 } ∧
    final.pc = alignPc { m.cpsr with t := (m.lr .user).getLsbD 0 } (m.lr .user)
  mem : final.mem = (K.functions ptr entry).mem

/-- A stub of a function of `args` arguments, which leaves the registers `r1` when it has moved these
where the handler expects them. -/
theorem syscallStub_spec {regs : List (Fin 13)} {marshal : Cpu → Cpu} {m : Cpu} {args t : Nat} {r1 : Fin 13 → Word}
    (svc : Nat) (values : Nat → Word) (hmode : m.cpsr.mode = USR_MODE ∨ m.cpsr.mode = SYS_MODE)
    (hstate : m.cpsr.t = false)
    (hsp : m.sp .user = addrOf (t + 8 + regs.length)) (hs : t + 8 + regs.length < 2 ^ 30)
    (hnodup : regs.Nodup) (hregs : ∀ i ∈ regs, 4 ≤ i.val ∧ i.val ≤ 7)
    (hmarshal : marshal (Cpu.push (regs.map Reg.r) m) = { Cpu.push (regs.map Reg.r) m with r := r1 })
    (hkept : ∀ i, i ∉ regs → r1 i = m.r i) (hargs : args ≤ 7)
    (hcover : ∀ i : Fin 13, 4 ≤ i.val → i.val < args → i ∈ regs)
    (hvalues : ∀ i : Fin 13, i.val < args → r1 i = values i)
    (htable : K.syscallTable + (r1 7).toNat < 2 ^ 30)
    (hd : K.syscallTable + (r1 7).toNat < t ∨ t + 8 + regs.length ≤ K.syscallTable + (r1 7).toNat)
    (hf : Aapcs args (t + 8 + regs.length) (K.functions (m.mem (K.syscallTable + (r1 7).toNat)))) :
    ∃ entry final, syscallStub K regs marshal svc m =
        some ⟨final, [(m.mem (K.syscallTable + (r1 7).toNat), entry)]⟩ ∧
      Marshalled K args (t + 8 + regs.length) values (m.mem (K.syscallTable + (r1 7).toNat)) m entry final := by
  have hpush := push_spec regs (t := t + 8) (bank_user hmode) hsp (by omega)
  generalize hu : { marshal (Cpu.push (regs.map Reg.r) m) with pc := addrOf svc } = u
  have hu' : u = { m with
      r := r1, sp := Function.update m.sp .user (addrOf (t + 8)), mem := storeWords m.mem (t + 8) (regs.map m.r)
      pc := addrOf svc } := by
    rw [← hu, hmarshal, hpush]
  have hmemTable : u.mem (K.syscallTable + (u.r 7).toNat) = m.mem (K.syscallTable + (r1 7).toNat) := by
    rw [hu']
    show storeWords m.mem (t + 8) (regs.map m.r) (K.syscallTable + (r1 7).toNat) = _
    exact storeWords_of_not (by rw [List.length_map]; omega)
  obtain ⟨entry, hentered, hcalls, hret⟩ := svcHandler_spec [] (u := u) (t := t) (by rw [hu']; exact hstate)
    (by rw [hu']) (by rw [hu']; simp) (by omega) hs hargs (by rw [hu']; exact htable)
    (by rw [hu']; show K.syscallTable + (r1 7).toNat < t ∨ t + 8 ≤ K.syscallTable + (r1 7).toNat; omega)
    (by rw [hmemTable]; exact hf)
  rw [hmemTable] at hcalls hret
  generalize hback : svcHandler K ⟨Cpu.takeSvc u, []⟩ = back at hcalls hret
  have hbackPc : back.cpu.pc = addrOf (svc + 1) := by
    rw [hret.pc, hu']
    exact addrOf_add svc (by decide)
  have hbackPsr : back.cpu.cpsr = m.cpsr := by
    rw [hret.cpsr, hu']
  obtain ⟨r2, hpop, hr2, hr2At⟩ := pop_spec (m := back.cpu) regs (t := t + 8)
    (bank_user (by rw [hbackPsr]; exact hmode)) hret.sp (by omega) hnodup
  have hindex : wordIndex (entry.sp .user) = t := by rw [hentered.sp, wordIndex_addrOf (by omega)]
  -- the words of the stub's frame are what it pushed
  have hframe : ∀ k, (hk : k < regs.length) → back.cpu.mem (t + 8 + k) = m.r regs[k] := by
    intro k hk
    rw [hret.mem, hf.frames entry hentered.mode _ (by rw [hindex]; omega) (by omega), hentered.above _ (by omega), hu']
    show storeWords m.mem (t + 8) (regs.map m.r) (t + 8 + k) = _
    rw [storeWords_at (by rw [List.length_map]; exact hk), List.getElem_map]
  have hfinal : (Cpu.pop (regs.map Reg.r) back.cpu).movPcLr = { back.cpu with
      sp := Function.update back.cpu.sp .user (addrOf (t + 8 + regs.length)), r := r2
      cpsr := { m.cpsr with t := (m.lr .user).getLsbD 0 }
      pc := alignPc { m.cpsr with t := (m.lr .user).getLsbD 0 } (m.lr .user) } := by
    have hlr : back.cpu.get .lr = m.lr .user := by
      rw [Cpu.get, bank_user (by rw [hbackPsr]; exact hmode), hret.lr, hu']
    rw [hpop]
    show ({ back.cpu with
      sp := _, r := _, cpsr := { back.cpu.cpsr with t := (back.cpu.get .lr).getLsbD 0 },
      pc := alignPc { back.cpu.cpsr with t := (back.cpu.get .lr).getLsbD 0 } (back.cpu.get .lr) } : Cpu) = _
    rw [hbackPsr, hlr]
  refine ⟨entry, (Cpu.pop (regs.map Reg.r) back.cpu).movPcLr, ?_, ?_⟩
  · simp only [syscallStub, hu, hback, hbackPc, if_true, exec, hcalls, List.nil_append]
  rw [hfinal]
  have hr1 : ∀ i, i ≠ 12 → entry.r i = r1 i := by
    intro i hi
    rw [hentered.r i hi, hu']
  refine ⟨hentered.mode, ?_, ?_, ?_, ?_, ?_, ?_, ⟨rfl, rfl⟩, hret.mem⟩
  · intro k hk
    obtain ⟨h4, h5, h6⟩ := hentered.frame
    rw [hu'] at h4 h5 h6
    rw [hindex, argument]
    split_ifs with hlt
    · rw [hr1 _ (Fin.ne_of_val_ne (by simp; omega))]
      exact hvalues ⟨k, by omega⟩ hk
    have hstack : k = 4 ∨ k = 5 ∨ k = 6 := by omega
    rcases hstack with rfl | rfl | rfl
    · exact h4.trans (hvalues 4 hk)
    · exact h5.trans (hvalues 5 hk)
    · exact h6.trans (hvalues 6 hk)
  · intro i hi
    rw [hentered.above i (by omega), hu']
    exact storeWords_of_not (.inr (by rw [List.length_map]; exact hi))
  · exact (hr2 0 fun h0 => absurd (hregs 0 h0).1 (by decide)).trans hret.r0
  · intro i h4 h11
    by_cases hi : i ∈ regs
    · obtain ⟨k, hk, rfl⟩ := List.getElem_of_mem hi
      exact (hr2At k hk).trans (hframe k hk)
    · have hnot : args ≤ i.val := by
        by_contra hlt
        exact hi (hcover i h4 (by omega))
      have hback : back.cpu.r i = u.r i := hret.r i h4 h11 (.inl hnot)
      show r2 i = m.r i
      rw [hr2 i hi, hback, hu']
      exact hkept i hi
  · rw [hsp]
    simp
  · show back.cpu.lr .user = m.lr .user
    rw [hret.lr, hu']

/-- A caller of a stub in state `c`, with its stack pointer at word `s`, that calls entry `id` of the table,
a function of `args` arguments, and continues at `ret`. The stack has room for the frames of the stub
and the handler, away from the table. -/
structure SyscallCaller (K : SyscallKernel) (args s : Nat) (id ret : Word) (c : Cpu) : Prop where
  mode : c.cpsr.mode = USR_MODE ∨ c.cpsr.mode = SYS_MODE
  aligned : alignPc c.cpsr ret = ret
  sp : c.sp .user = addrOf s
  room : 12 ≤ s
  above : s + 4 < 2 ^ 30
  number : argument c s args = id
  number_lt : id.toNat < syscallTableLength
  table : K.syscallTable + syscallTableLength ≤ s - 12 ∨ s ≤ K.syscallTable
  table_lt : K.syscallTable + syscallTableLength ≤ 2 ^ 30
  aapcs : Aapcs args s (K.functions (c.mem (K.syscallTable + id.toNat)))

/-- What a call of a stub does for this caller: function `ptr` is entered in state `entry`, and the caller
continues in state `final`. -/
structure SyscallDone (K : SyscallKernel) (args s : Nat) (ret ptr : Word) (c entry final : Cpu) : Prop where
  mode : entry.cpsr.mode = SYS_MODE
  arguments : ∀ k, k < args → argument entry (wordIndex (entry.sp .user)) k = argument c s k
  above : ∀ i, s ≤ i → entry.mem i = c.mem i
  r0 : final.r 0 = (K.functions ptr entry).r 0
  r : ∀ i : Fin 13, 4 ≤ i.val → i.val ≤ 11 → final.r i = c.r i
  sp : final.sp .user = c.sp .user
  lr : final.lr .user = (Cpu.blA32 ret c).lr .user
  cpsr : final.cpsr = c.cpsr
  pc : final.pc = ret
  mem : ∀ i, s ≤ i → final.mem i = (K.functions ptr entry).mem i

section
variable {args s svc : Nat} {id ret : Word} {c entry final : Cpu}

theorem Marshalled.done {ptr : Word} (h : Marshalled K args s (argument c s) ptr (Cpu.blA32 ret c) entry final)
    (hmode : c.cpsr.mode = USR_MODE ∨ c.cpsr.mode = SYS_MODE) (hret : alignPc c.cpsr ret = ret) :
    SyscallDone K args s ret ptr c entry final := by
  obtain ⟨hstate, halign⟩ := returnLink_state hret
  have hlr : (Cpu.blA32 ret c).lr .user = Cpu.returnLink c.cpsr ret := by
    show Function.update c.lr c.bank (Cpu.returnLink c.cpsr ret) .user = _
    rw [bank_user hmode]
    exact Function.update_self ..
  have hpsr : { (Cpu.blA32 ret c).cpsr with t := ((Cpu.blA32 ret c).lr .user).getLsbD 0 } = c.cpsr := by
    rw [hlr, hstate]
    rfl
  have hreturned := h.returned
  rw [hpsr, hlr, halign] at hreturned
  exact ⟨h.mode, h.arguments, h.above, h.r0, h.r, h.sp, h.lr, hreturned.1, hreturned.2, fun i _ => congrFun h.mem i⟩

/-- A call of a stub that leaves the registers `r1` when it has moved its arguments. -/
theorem syscallStub_done {regs : List (Fin 13)} {marshal : Cpu → Cpu} (h : SyscallCaller K args s id ret c)
    (r1 : Fin 13 → Word) (hnodup : regs.Nodup) (hregs : ∀ i ∈ regs, 4 ≤ i.val ∧ i.val ≤ 7) (hlen : regs.length ≤ 4)
    (hargs : args ≤ 7) (hcover : ∀ i : Fin 13, 4 ≤ i.val → i.val < args → i ∈ regs)
    (hmarshal : ∀ m t, t + regs.length + 4 < 2 ^ 30 → m.bank = .user → m.sp .user = addrOf t → m.r = c.r →
      (∀ k, m.mem (t + regs.length + k) = c.mem (s + k)) → marshal m = { m with r := r1 })
    (hid : r1 7 = argument c s args) (hkept : ∀ i, i ∉ regs → r1 i = c.r i)
    (hstack : ∀ i : Fin 13, 4 ≤ i.val → i.val < args → r1 i = argument c s i) :
    ∃ entry final, syscallStub K regs marshal svc (Cpu.blA32 ret c) =
        some ⟨final, [(c.mem (K.syscallTable + id.toNat), entry)]⟩ ∧
      SyscallDone K args s ret (c.mem (K.syscallTable + id.toNat)) c entry final := by
  obtain ⟨t, rfl⟩ : ∃ t, s = t + 8 + regs.length := ⟨s - 8 - regs.length, by have := h.room; omega⟩
  have habove := h.above
  have htable := h.table
  have htable' := h.table_lt
  have hlt := h.number_lt
  have hpush := push_spec (m := Cpu.blA32 ret c) regs (t := t + 8) (bank_user h.mode) h.sp (by omega)
  have hmarshal' : marshal (Cpu.push (regs.map Reg.r) (Cpu.blA32 ret c)) =
      { Cpu.push (regs.map Reg.r) (Cpu.blA32 ret c) with r := r1 } := by
    rw [hpush]
    refine hmarshal _ (t + 8) (by omega) (bank_user h.mode) (by simp) rfl ?_
    intro k
    exact storeWords_of_not (.inr (by rw [List.length_map]; omega))
  have hvalues : ∀ i : Fin 13, i.val < args → r1 i = argument c (t + 8 + regs.length) i := by
    intro i hi
    by_cases h4 : i.val < 4
    · rw [argument, dif_pos h4]
      exact hkept i fun h => absurd (hregs i h).1 (by omega)
    · exact hstack i (by omega) hi
  rw [h.number] at hid
  subst hid
  obtain ⟨entry, final, hrun, hmarshalled⟩ := syscallStub_spec (K := K) (m := Cpu.blA32 ret c) svc
    (argument c (t + 8 + regs.length)) h.mode rfl h.sp (by omega) hnodup hregs hmarshal' hkept hargs
    hcover hvalues (by omega) (by omega) h.aapcs
  exact ⟨entry, final, hrun, hmarshalled.done h.mode h.aligned⟩

/-- The stubs of up to three arguments find the syscall number in a register. -/
theorem movStub_done {n : Nat} (hn : n < 4) (h : SyscallCaller K n s id ret c) :
    ∃ entry final, syscallStub K [7] (Cpu.mov (.r 7) (.r ⟨n, by omega⟩)) svc (Cpu.blA32 ret c) =
        some ⟨final, [(c.mem (K.syscallTable + id.toNat), entry)]⟩ ∧
      SyscallDone K n s ret (c.mem (K.syscallTable + id.toNat)) c entry final := by
  refine syscallStub_done h (Function.update c.r 7 (c.r ⟨n, by omega⟩)) (by decide) (by decide) (by decide)
    (by omega) ?_ ?_ ?_ ?_ ?_
  · intro i h4 hi
    omega
  · intro m t _ _ _ hr _
    simp [Cpu.mov, Cpu.get, Cpu.set, hr]
  · rw [argument, dif_pos hn]
    simp
  · intro i hi
    exact Function.update_of_ne (by simpa using hi) ..
  · intro i h4 hi
    omega

/-- The loads of a stub that finds its arguments on the stack, from word `k` of the stack on. -/
def ldrArguments : List (Fin 13) → Nat → Cpu → Cpu
  | [], _, m => m
  | d :: regs, k, m => ldrArguments regs (k + 1) (Cpu.ldr (.r d) .sp (4 * k) m)

theorem ldrArguments_eq (regs : List (Fin 13)) {m : Cpu} {t k : Nat} (hbank : m.bank = .user)
    (hsp : m.sp .user = addrOf t) (ht : t + k + regs.length < 2 ^ 30) :
    ldrArguments regs k m = Cpu.loadRegs (regs.map Reg.r) (t + k) m := by
  induction regs generalizing k m with
  | nil => rfl
  | cons d regs ih =>
    rw [List.length_cons] at ht
    have hload : Cpu.ldr (.r d) .sp (4 * k) m = m.set (m.mem (t + k)) (.r d) := by
      rw [Cpu.ldr, Cpu.get, hbank, hsp, addrOf_add _ (by omega), wordIndex_addrOf (by omega)]
      congr 2
      omega
    rw [ldrArguments, hload]
    exact ih hbank hsp (by omega)

/-- The others find it on the stack, with the arguments after the fourth. -/
theorem ldrStub_done (regs : List (Fin 13)) (h : SyscallCaller K (3 + regs.length) s id ret c) (hnodup : regs.Nodup)
    (hregs : ∀ i ∈ regs, 4 ≤ i.val ∧ i.val ≤ 7) (hlen : regs.length ≤ 4) (hpos : 0 < regs.length)
    (hstack : ∀ k : Fin regs.length, k.val + 1 < regs.length → regs[k].val = 4 + k)
    (hlast : regs[regs.length - 1] = 7) :
    ∃ entry final, syscallStub K regs (ldrArguments regs regs.length) svc (Cpu.blA32 ret c) =
        some ⟨final, [(c.mem (K.syscallTable + id.toNat), entry)]⟩ ∧
      SyscallDone K (3 + regs.length) s ret (c.mem (K.syscallTable + id.toNat)) c entry final := by
  have hat : ∀ i : Fin 13, 4 ≤ i.val → i.val < 3 + regs.length →
      ∃ k, ∃ hk : k < regs.length, i = regs[k] ∧ s + (i.val - 4) = s + k := by
    intro i h4 hi
    refine ⟨i.val - 4, by omega, Fin.ext ?_, rfl⟩
    have := hstack ⟨i.val - 4, by omega⟩ (by simp; omega)
    simp at this ⊢
    omega
  refine syscallStub_done h (Cpu.loadRegs (regs.map Reg.r) s c).r hnodup hregs hlen (by omega) ?_ ?_ ?_ ?_ ?_
  · intro i h4 hi
    obtain ⟨k, hk, rfl, -⟩ := hat i h4 hi
    exact List.getElem_mem hk
  · intro m t ht hbank hsp hr hmem
    rw [ldrArguments_eq regs hbank hsp (by omega), Cpu.loadRegs_eq]
    congr 1
    funext i
    by_cases hi : i ∈ regs
    · obtain ⟨k, hk, rfl⟩ := List.getElem_of_mem hi
      rw [Cpu.loadRegs_at hnodup hk, Cpu.loadRegs_at hnodup hk, hmem]
    · rw [Cpu.loadRegs_of_notMem hi, Cpu.loadRegs_of_notMem hi, hr]
  · rw [← hlast, Cpu.loadRegs_at hnodup, argument, dif_neg (by omega)]
    congr 1
    omega
  · intro i hi
    exact Cpu.loadRegs_of_notMem hi
  · intro i h4 hi
    rw [argument, dif_neg (by omega)]
    obtain ⟨k, hk, rfl, hword⟩ := hat i h4 hi
    rw [Cpu.loadRegs_at hnodup hk, hword]

/-- `syscallN`, called with the syscall number as the argument after the others, runs the function of the
table once, in SYS mode and with its arguments in place, and returns to the caller with the function's
result and everything else as the call found it. -/
theorem syscallN_spec (n : Fin 8) (h : SyscallCaller K n s id ret c) :
    ∃ entry final, syscallN K n svc (Cpu.blA32 ret c) = some ⟨final, [(c.mem (K.syscallTable + id.toNat), entry)]⟩ ∧
      SyscallDone K n s ret (c.mem (K.syscallTable + id.toNat)) c entry final := by
  fin_cases n
  · exact movStub_done (by decide) h
  · exact movStub_done (by decide) h
  · exact movStub_done (by decide) h
  · exact movStub_done (by decide) h
  · exact ldrStub_done [7] h (by decide) (by decide) (by decide) (by decide) (by decide) rfl
  · exact ldrStub_done [4, 7] h (by decide) (by decide) (by decide) (by decide) (by decide) rfl
  · exact ldrStub_done [4, 5, 7] h (by decide) (by decide) (by decide) (by decide) (by decide) rfl
  · exact ldrStub_done [4, 5, 6, 7] h (by decide) (by decide) (by decide) (by decide) (by decide) rfl

end
end

/-! ## An example -/

/-- A kernel each of whose functions returns the sum of its first and its fifth argument. -/
def exampleKernel : SyscallKernel where
  syscallTable := 1000
  functions := fun _ m => { m with
    r := Function.update m.r 0 (argument m (wordIndex (m.sp .user)) 0 + argument m (wordIndex (m.sp .user)) 4) }

/-- A task in USR mode about to call entry 3 of the table with arguments 20, 0, 0, 0 and 22. -/
def exampleCaller : Cpu where
  r := Function.update (fun _ => 0) 0 20
  sp := fun _ => addrOf 500
  lr := fun _ => 0
  spsr := fun _ => Psr.ofWord 0
  cpsr := Psr.ofWord 0x10
  pc := 0x8000
  ttbr0 := 0
  contextidr := 0
  fpexc := 0
  fpscr := 0
  q := fun _ => 0
  mem := Function.update (Function.update (fun _ => 0) 500 22) 501 3

theorem exampleKernel_aapcs {args top : Nat} (ptr : Word) : Aapcs args top (exampleKernel.functions ptr) := by
  refine ⟨?_, fun _ _ => rfl, fun _ _ _ _ _ => rfl⟩
  intro m _ i h4 _
  refine Function.update_of_ne ?_ ..
  rintro rfl
  exact absurd h4 (by decide)

theorem syscallN_spec_sum :
    ∃ entry final, syscallN exampleKernel 5 64 (Cpu.blA32 0x8000 exampleCaller) = some ⟨final, [(0, entry)]⟩ ∧
      final.r 0 = 42 ∧ final.pc = 0x8000 ∧ final.cpsr.mode = USR_MODE := by
  have hcaller : SyscallCaller exampleKernel 5 500 3 0x8000 exampleCaller :=
    ⟨.inl (by decide), by decide, rfl, by decide, by decide, by decide, by decide, .inr (by decide), by decide,
      exampleKernel_aapcs _⟩
  obtain ⟨entry, final, hrun, hdone⟩ : ∃ entry final,
      syscallN exampleKernel 5 64 (Cpu.blA32 0x8000 exampleCaller) = some ⟨final, [(0, entry)]⟩ ∧
        SyscallDone exampleKernel 5 500 0x8000 0 exampleCaller entry final := syscallN_spec 5 hcaller
  refine ⟨entry, final, hrun, ?_, hdone.pc, ?_⟩
  · rw [hdone.r0]
    show argument entry (wordIndex (entry.sp .user)) 0 + argument entry (wordIndex (entry.sp .user)) 4 = 42
    rw [hdone.arguments 0 (by decide), hdone.arguments 4 (by decide)]
    decide
  · rw [hdone.cpsr]
    decide

end Td3.Kernel
