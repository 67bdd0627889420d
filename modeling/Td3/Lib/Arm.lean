/-
ARMv7-A machine state and the instructions hand-written exception handlers are made of, as functions
on the state: banked stack pointers, link registers and saved program status words, block transfers,
exception entry and return, coprocessor registers, and calls of compiled code that follow the
procedure call standard.

Memory is word-addressed: word `i` is the one at address `4 * i`. `addrOf i` is that address, and
pointer arithmetic on it is arithmetic on `i`.
-/
import Mathlib.Tactic

namespace Td3.Arm

abbrev Word := BitVec 32

theorem getLsbD_lowMask {k : Nat} (hk : k ≤ 32) (i : Nat) :
    (BitVec.ofNat 32 (2 ^ k - 1)).getLsbD i = decide (i < k) := by
  rw [BitVec.getLsbD_ofNat, Nat.testBit_two_pow_sub_one]
  by_cases hi : i < k
  · simp [hi, show i < 32 by omega]
  · simp [hi]

/-! ## Program status words -/

/-- A program status word, field by field from bit 31 to bit 0. -/
structure Psr where
  n : Bool
  z : Bool
  c : Bool
  v : Bool
  q : Bool
  itLow : BitVec 2
  j : Bool
  reserved : BitVec 4
  ge : BitVec 4
  itHigh : BitVec 6
  e : Bool
  a : Bool
  i : Bool
  f : Bool
  t : Bool
  mode : BitVec 5
deriving DecidableEq, Repr

namespace Psr

def toWord (p : Psr) : Word :=
  (BitVec.ofBool p.n ++ BitVec.ofBool p.z ++ BitVec.ofBool p.c ++ BitVec.ofBool p.v ++ BitVec.ofBool p.q ++ p.itLow ++
    BitVec.ofBool p.j ++ p.reserved ++ p.ge ++ p.itHigh ++ BitVec.ofBool p.e ++ BitVec.ofBool p.a ++
    BitVec.ofBool p.i ++ BitVec.ofBool p.f ++ BitVec.ofBool p.t ++ p.mode).cast rfl

def ofWord (w : Word) : Psr where
  n := w.getLsbD 31
  z := w.getLsbD 30
  c := w.getLsbD 29
  v := w.getLsbD 28
  q := w.getLsbD 27
  itLow := w.extractLsb' 25 2
  j := w.getLsbD 24
  reserved := w.extractLsb' 20 4
  ge := w.extractLsb' 16 4
  itHigh := w.extractLsb' 10 6
  e := w.getLsbD 9
  a := w.getLsbD 8
  i := w.getLsbD 7
  f := w.getLsbD 6
  t := w.getLsbD 5
  mode := w.extractLsb' 0 5

theorem ofWord_toWord (p : Psr) : ofWord p.toWord = p := by
  have hbit : ∀ (w : Nat) (x : BitVec w) (k : Nat) (h : w = 32), (x.cast h).getLsbD k = x.getLsbD k := by
    intro w x k h; subst h; rfl
  unfold ofWord toWord
  congr 1
  case e_itLow | e_reserved | e_ge | e_itHigh | e_mode =>
    ext k hk
    simp only [BitVec.getElem_extractLsb', hbit, BitVec.getLsbD_append]
    simp (disch := omega) only [if_pos, if_neg]
    rw [← BitVec.getLsbD_eq_getElem]
    congr 1
    omega
  all_goals
    simp only [hbit, BitVec.getLsbD_append, Nat.reduceLT, if_true, if_false, Nat.reduceSub]
    simp

/-- The T bit of a stored word. -/
theorem toWord_and_t (p : Psr) : (p.toWord &&& 0x20 = 0) ↔ p.t = false := by
  have ht : p.toWord.getLsbD 5 = p.t := congrArg Psr.t (ofWord_toWord p)
  have h20 : (0x20 : Word) = BitVec.twoPow 32 5 := by decide
  rw [h20, BitVec.and_twoPow, ht]
  cases p.t with
  | false => simp
  | true => simpa using (by decide : BitVec.twoPow 32 5 ≠ 0#32)

/-- `msr psr_fc, new`: the flags and the control byte are replaced. -/
def withFc (old new : Psr) : Psr :=
  { new with reserved := old.reserved, ge := old.ge, itHigh := old.itHigh, e := old.e, a := old.a }

/-- The bits 23 to 8 of two status words agree: those `msr psr_fc` leaves. -/
def SameSx (p q : Psr) : Prop :=
  p.reserved = q.reserved ∧ p.ge = q.ge ∧ p.itHigh = q.itHigh ∧ p.e = q.e ∧ p.a = q.a

instance (p q : Psr) : Decidable (p.SameSx q) := by unfold SameSx; infer_instance

theorem withFc_congr_iff {p q new : Psr} : p.withFc new = q.withFc new ↔ p.SameSx q := by
  rw [withFc, withFc, SameSx]
  constructor
  · intro h
    exact ⟨(congrArg reserved h :), (congrArg ge h :), (congrArg itHigh h :), (congrArg e h :), (congrArg a h :)⟩
  · rintro ⟨h1, h2, h3, h4, h5⟩
    rw [h1, h2, h3, h4, h5]

theorem withFc_eq_iff {old new : Psr} : old.withFc new = new ↔ old.SameSx new :=
  (withFc_congr_iff : old.withFc new = new.withFc new ↔ old.SameSx new)

@[simp] theorem withFc_self (p : Psr) : p.withFc p = p := rfl

/-- The mode of a status word replaced, by `bic`, `orr` and `msr` -/
theorem withFc_mode (p : Psr) (mode : BitVec 5) :
    p.withFc (.ofWord (p.toWord &&& ~~~0x1F#32 ||| mode.setWidth 32)) = { p with mode := mode } := by
  have hmask (i : Nat) : (0x1F#32).getLsbD i = decide (i < 5) := getLsbD_lowMask (k := 5) (by decide) i
  have hbit (i : Nat) (h5 : 5 ≤ i) :
      (p.toWord &&& ~~~0x1F#32 ||| mode.setWidth 32).getLsbD i = p.toWord.getLsbD i := by
    have hlt : ¬ i < 5 := by omega
    simp only [BitVec.getLsbD_or, BitVec.getLsbD_and, BitVec.getLsbD_not, BitVec.getLsbD_setWidth, hmask, hlt,
      BitVec.getLsbD_of_ge mode i h5]
    by_cases hi : i < 32
    · simp [hi]
    · simp [hi, BitVec.getLsbD_of_ge _ _ (Nat.le_of_not_lt hi)]
  have hlow : (p.toWord &&& ~~~0x1F#32 ||| mode.setWidth 32).extractLsb' 0 5 = mode := by
    ext i hi
    simp only [BitVec.getElem_extractLsb', BitVec.getLsbD_or, BitVec.getLsbD_and, BitVec.getLsbD_not,
      BitVec.getLsbD_setWidth, hmask]
    simp [hi, show i < 32 by omega]
  have hword :
      ofWord (p.toWord &&& ~~~0x1F#32 ||| mode.setWidth 32) = { ofWord p.toWord with mode := mode } := by
    have hfield (start len : Nat) (h5 : 5 ≤ start) :
        (p.toWord &&& ~~~0x1F#32 ||| mode.setWidth 32).extractLsb' start len = p.toWord.extractLsb' start len := by
      ext i hi
      simp only [BitVec.getElem_extractLsb', hbit (start + i) (by omega)]
    simp (disch := decide) only [ofWord, hbit, hfield, hlow]
  rw [hword, ofWord_toWord]
  rfl

end Psr

/-- The register banks; USR and SYS share one. -/
inductive Bank where
  | user
  | fiq
  | irq
  | svc
  | mon
  | abt
  | und
deriving DecidableEq, Repr

def USR_MODE : BitVec 5 := 0x10
def IRQ_MODE : BitVec 5 := 0x12
def SVC_MODE : BitVec 5 := 0x13
def UND_MODE : BitVec 5 := 0x1B
def SYS_MODE : BitVec 5 := 0x1F

/-- The bank of a mode. -/
def bankOf (mode : BitVec 5) : Bank :=
  if mode = 0x11 then .fiq
  else if mode = IRQ_MODE then .irq
  else if mode = SVC_MODE then .svc
  else if mode = 0x16 then .mon
  else if mode = 0x17 then .abt
  else if mode = UND_MODE then .und
  else .user

/-! ## The state -/

-- for numerals in `Fin` of these sizes: registers of a device, timers, core registers
instance neZero_three : NeZero 3 := ⟨by decide⟩
instance neZero_eight : NeZero 8 := ⟨by decide⟩
instance neZero_thirteen : NeZero 13 := ⟨by decide⟩

/-- The processor: `r` holds r0 to r12 (their FIQ bank is left out), `q` the 64 words of Q0 to Q15. -/
@[ext]
structure Cpu where
  r : Fin 13 → Word
  sp : Bank → Word
  lr : Bank → Word
  spsr : Bank → Psr
  cpsr : Psr
  pc : Word
  ttbr0 : Word
  contextidr : Word
  fpexc : Word
  fpscr : Word
  q : Fin 64 → Word
  mem : Nat → Word

/-- The registers an instruction names. -/
inductive Reg where
  | r (i : Fin 13)
  | sp
  | lr
deriving DecidableEq, Repr

def wordIndex (a : Word) : Nat := a.toNat / 4

def addrOf (i : Nat) : Word := BitVec.ofNat 32 (4 * i)

/-- A branch target, aligned to the instructions of the state. -/
def alignPc (psr : Psr) (a : Word) : Word := if psr.t then a &&& 0xFFFFFFFE else a &&& 0xFFFFFFFC

/-- Memory with the words of a list from word `i` on. -/
def storeWords (mem : Nat → Word) : Nat → List Word → Nat → Word
  | _, [] => mem
  | i, w :: ws => storeWords (Function.update mem i w) (i + 1) ws

/-- Memory with the words of `f` from word `i` on. -/
def block {n : Nat} (mem : Nat → Word) (i : Nat) (f : Fin n → Word) : Nat → Word :=
  fun j => if h : i ≤ j ∧ j - i < n then f ⟨j - i, h.2⟩ else mem j

@[simp] theorem bankOf_irq : bankOf IRQ_MODE = .irq := rfl
@[simp] theorem bankOf_sys : bankOf SYS_MODE = .user := rfl
@[simp] theorem bankOf_usr : bankOf USR_MODE = .user := rfl
@[simp] theorem bankOf_svc : bankOf SVC_MODE = .svc := rfl
@[simp] theorem bankOf_und : bankOf UND_MODE = .und := rfl

namespace Cpu

def bank (m : Cpu) : Bank := bankOf m.cpsr.mode

def get (m : Cpu) : Reg → Word
  | .r i => m.r i
  | .sp => m.sp m.bank
  | .lr => m.lr m.bank

def set (m : Cpu) (v : Word) : Reg → Cpu
  | .r i => { m with r := Function.update m.r i v }
  | .sp => { m with sp := Function.update m.sp m.bank v }
  | .lr => { m with lr := Function.update m.lr m.bank v }

/-! ## Data processing and status -/

def movImm (d : Reg) (v : Word) (m : Cpu) : Cpu := m.set v d
def mov (d n : Reg) (m : Cpu) : Cpu := m.set (m.get n) d
def addImm (d n : Reg) (v : Word) (m : Cpu) : Cpu := m.set (m.get n + v) d
def sub (d n o : Reg) (m : Cpu) : Cpu := m.set (m.get n - m.get o) d
def bicImm (d n : Reg) (v : Word) (m : Cpu) : Cpu := m.set (m.get n &&& ~~~v) d
def orrImm (d n : Reg) (v : Word) (m : Cpu) : Cpu := m.set (m.get n ||| v) d
def orr (d n o : Reg) (m : Cpu) : Cpu := m.set (m.get n ||| m.get o) d
/-- `add d, n, o, lsl #k` -/
def addLsl (d n o : Reg) (k : Nat) (m : Cpu) : Cpu := m.set (m.get n + m.get o <<< k) d

/-- The flags N and Z of a result. -/
def setNZ (v : Word) (m : Cpu) : Cpu := { m with cpsr := { m.cpsr with n := v.msb, z := v = 0 } }

/-- `cmp n, #0` -/
def cmpZero (n : Reg) (m : Cpu) : Cpu :=
  { m with cpsr := { m.cpsr with n := (m.get n).msb, z := m.get n = 0, c := true, v := false } }
/-- `teq n, #v` -/
def teqImm (n : Reg) (v : Word) (m : Cpu) : Cpu := m.setNZ (m.get n ^^^ v)
/-- `tst n, #v` -/
def tstImm (n : Reg) (v : Word) (m : Cpu) : Cpu := m.setNZ (m.get n &&& v)

def condEq (m : Cpu) : Bool := m.cpsr.z
def condGt (m : Cpu) : Bool := !m.cpsr.z && m.cpsr.n == m.cpsr.v

/-- `cps #mode` -/
def cps (mode : BitVec 5) (m : Cpu) : Cpu := { m with cpsr := { m.cpsr with mode := mode } }
/-- `cpsid i` and `cpsie i` -/
def cpsid (m : Cpu) : Cpu := { m with cpsr := { m.cpsr with i := true } }
def cpsie (m : Cpu) : Cpu := { m with cpsr := { m.cpsr with i := false } }

def mrsSpsr (d : Reg) (m : Cpu) : Cpu := m.set (m.spsr m.bank).toWord d

/-- `msr spsr, n`: the assembler takes `spsr` without a field suffix for `spsr_fc`, so bits 23 to 8
keep their value. -/
def msrSpsr (n : Reg) (m : Cpu) : Cpu :=
  { m with spsr := Function.update m.spsr m.bank ((m.spsr m.bank).withFc (.ofWord (m.get n))) }

def mrcTtbr0 (d : Reg) (m : Cpu) : Cpu := m.set m.ttbr0 d
def mcrTtbr0 (n : Reg) (m : Cpu) : Cpu := { m with ttbr0 := m.get n }
def mrcContextidr (d : Reg) (m : Cpu) : Cpu := m.set m.contextidr d
def mcrContextidr (n : Reg) (m : Cpu) : Cpu := { m with contextidr := m.get n }
def vmrsFpexc (d : Reg) (m : Cpu) : Cpu := m.set m.fpexc d
def vmsrFpexc (n : Reg) (m : Cpu) : Cpu := { m with fpexc := m.get n }
def vmrsFpscr (d : Reg) (m : Cpu) : Cpu := m.set m.fpscr d
def vmsrFpscr (n : Reg) (m : Cpu) : Cpu := { m with fpscr := m.get n }

/-! ## Loads and stores -/

/-- `ldr d, [n, #k]` -/
def ldr (d n : Reg) (k : Nat) (m : Cpu) : Cpu := m.set (m.mem (wordIndex (m.get n + BitVec.ofNat 32 k))) d

/-- `str s, [n]` -/
def str (s n : Reg) (m : Cpu) : Cpu := { m with mem := Function.update m.mem (wordIndex (m.get n)) (m.get s) }

/-- `ldr d, [n], #4` -/
def ldrPost (d n : Reg) (m : Cpu) : Cpu := (m.set (m.get n + 4#32) n).set (m.mem (wordIndex (m.get n))) d

/-- `str s, [n], #4` -/
def strPost (s n : Reg) (m : Cpu) : Cpu := (m.str s n).set (m.get n + 4#32) n

/-- `stmea n!, {r0-r12}` -/
def stmR0R12 (n : Reg) (m : Cpu) : Cpu :=
  { m with mem := block m.mem (wordIndex (m.get n)) m.r }.set (m.get n + 52#32) n

/-- `ldmfd n!, {r0-r12}`, `n` being another register. -/
def ldmR0R12 (n : Reg) (m : Cpu) : Cpu :=
  { m with r := fun i => m.mem (wordIndex (m.get n) + i) }.set (m.get n + 52#32) n

/-- `vstmia n!, {Q0-Q7}` and `vstmia n!, {Q8-Q15}` -/
def vstmLow (n : Reg) (m : Cpu) : Cpu :=
  { m with mem := block m.mem (wordIndex (m.get n)) fun i : Fin 32 => m.q (i.castLE (by decide)) }.set
    (m.get n + 128#32) n
def vstmHigh (n : Reg) (m : Cpu) : Cpu :=
  { m with mem := block m.mem (wordIndex (m.get n)) fun i : Fin 32 => m.q (Fin.natAdd 32 i) }.set
    (m.get n + 128#32) n

/-- `vldmia n!, {Q0-Q7}` and `vldmia n!, {Q8-Q15}` -/
def vldmLow (n : Reg) (m : Cpu) : Cpu :=
  { m with q := fun i => if i.val < 32 then m.mem (wordIndex (m.get n) + i) else m.q i }.set (m.get n + 128#32) n
def vldmHigh (n : Reg) (m : Cpu) : Cpu :=
  { m with q := fun i => if i.val < 32 then m.q i else m.mem (wordIndex (m.get n) + (i - 32)) }.set
    (m.get n + 128#32) n

/-- The values of registers, in order. -/
def gets (m : Cpu) (regs : List Reg) : List Word := regs.map m.get

/-- Load registers from consecutive words. -/
def loadRegs : List Reg → Nat → Cpu → Cpu
  | [], _, m => m
  | d :: regs, i, m => loadRegs regs (i + 1) (m.set (m.mem i) d)

/-- `push {regs}`, the registers in ascending order. -/
def push (regs : List Reg) (m : Cpu) : Cpu :=
  let sp := m.get .sp - BitVec.ofNat 32 (4 * regs.length)
  { m with mem := storeWords m.mem (wordIndex sp) (m.gets regs) }.set sp .sp

/-- `pop {regs}`, the registers in ascending order, `sp` not among them. -/
def pop (regs : List Reg) (m : Cpu) : Cpu :=
  let sp := m.get .sp
  loadRegs regs (wordIndex sp) (m.set (sp + BitVec.ofNat 32 (4 * regs.length)) .sp)

/-! ## Exceptions -/

/-- Exception entry into `mode`, with the given return address: A32 state, no IT block, IRQs masked,
asynchronous aborts masked where the exception does so. -/
def enter (mode : BitVec 5) (maskAborts : Bool) (returnAddress : Word) (m : Cpu) : Cpu :=
  { m with
    lr := Function.update m.lr (bankOf mode) returnAddress, spsr := Function.update m.spsr (bankOf mode) m.cpsr
    cpsr := { m.cpsr with
      itLow := 0, j := false, itHigh := 0, e := false, a := m.cpsr.a || maskAborts, i := true,
      t := false, mode := mode } }

/-- An IRQ is taken: the link register is 4 past the next instruction, in both states. -/
def takeIrq (m : Cpu) : Cpu := enter IRQ_MODE true (m.pc + 4#32) m

/-- The length of the step past an undefined instruction or an `svc`. -/
def stateStep (psr : Psr) : Word := if psr.t then 2#32 else 4#32

/-- An undefined instruction: the link register is 4 past it, or 2 in Thumb state. -/
def takeUndef (m : Cpu) : Cpu := enter UND_MODE false (m.pc + stateStep m.cpsr) m

/-- `svc`: the link register is the next instruction. -/
def takeSvc (m : Cpu) : Cpu := enter SVC_MODE false (m.pc + stateStep m.cpsr) m

/-- `subs pc, lr, #k`, and `movs pc, lr` with `k` = 0. -/
def exceptionReturn (k : Word) (m : Cpu) : Cpu :=
  { m with cpsr := m.spsr m.bank, pc := alignPc (m.spsr m.bank) (m.get .lr - k) }

/-- `srsfd sp!, #SYS_MODE`: the return state of the exception goes onto the stack of SYS mode. -/
def srsfdSys (m : Cpu) : Cpu :=
  let sp := m.sp .user - 8#32
  { m with
    mem := storeWords m.mem (wordIndex sp) [m.get .lr, (m.spsr m.bank).toWord], sp := Function.update m.sp .user sp }

/-- `rfe sp!` -/
def rfe (m : Cpu) : Cpu :=
  let sp := m.get .sp
  let psr := Psr.ofWord (m.mem (wordIndex sp + 1))
  { m.set (sp + 8#32) .sp with cpsr := psr, pc := alignPc psr (m.mem (wordIndex sp)) }

/-! ## Calls -/

/-- The return address `bl` and `blx` leave: the low bit is the state to return to. -/
def returnLink (psr : Psr) (a : Word) : Word := if psr.t then a ||| 1 else a

/-- A call of A32 code that is to return to `a`. -/
def blA32 (a : Word) (m : Cpu) : Cpu :=
  { m.set (returnLink m.cpsr a) .lr with cpsr := { m.cpsr with t := false } }

/-- `mov pc, lr` in A32 state -/
def movPcLr (m : Cpu) : Cpu :=
  let psr := { m.cpsr with t := (m.get .lr).getLsbD 0 }
  { m with cpsr := psr, pc := alignPc psr (m.get .lr) }

/-- What compiled code leaves in the registers and the flags it need not preserve, and in the stack
below its caller's stack pointer. -/
structure Junk where
  r1 : Word
  r2 : Word
  r3 : Word
  r12 : Word
  lr : Word
  flags : Psr
  stack : Nat → Word

/-- A call of compiled code that returns `ret` and changes no other memory than its stack, which
reaches down to word `limit`. -/
def call (limit : Nat) (j : Junk) (ret : Word) (m : Cpu) : Cpu :=
  { m with
    r := Function.update (Function.update (Function.update (Function.update (Function.update m.r 12 j.r12) 3 j.r3)
      2 j.r2) 1 j.r1) 0 ret
    lr := Function.update m.lr m.bank j.lr
    cpsr := { m.cpsr with
      n := j.flags.n, z := j.flags.z, c := j.flags.c, v := j.flags.v, q := j.flags.q, ge := j.flags.ge }
    mem := fun i => if limit ≤ i ∧ i < wordIndex (m.get .sp) then j.stack i else m.mem i }

end Cpu

/-! ## Addresses and blocks -/

theorem addrOf_add (i : Nat) {k : Nat} (h : k % 4 = 0) : addrOf i + BitVec.ofNat 32 k = addrOf (i + k / 4) := by
  rw [addrOf, addrOf, ← BitVec.ofNat_add]
  congr 1
  omega

theorem addrOf_sub (i : Nat) {k : Nat} (h : k % 4 = 0) (hi : k / 4 ≤ i) :
    addrOf i - BitVec.ofNat 32 k = addrOf (i - k / 4) := by
  have : addrOf i = addrOf (i - k / 4) + BitVec.ofNat 32 k := by
    rw [addrOf_add _ h]
    congr 1
    omega
  rw [this, BitVec.add_sub_cancel]

theorem addrOf_add_lsl (i : Nat) (w : Word) : addrOf i + w <<< 2 = addrOf (i + w.toNat) := by
  have hw : w <<< 2 = addrOf w.toNat := by
    apply BitVec.eq_of_toNat_eq
    rw [BitVec.toNat_shiftLeft, addrOf, BitVec.toNat_ofNat, Nat.shiftLeft_eq, Nat.mul_comm]
  rw [hw, addrOf, addrOf, addrOf, ← BitVec.ofNat_add]
  congr 1
  omega

theorem wordIndex_addrOf {i : Nat} (h : i < 2 ^ 30) : wordIndex (addrOf i) = i := by
  rw [wordIndex, addrOf, BitVec.toNat_ofNat, Nat.mod_eq_of_lt (by omega)]
  omega

theorem alignPc_alignPc (psr : Psr) (a : Word) : alignPc psr (alignPc psr a) = alignPc psr a := by
  unfold alignPc
  split_ifs
  · rw [BitVec.and_assoc, BitVec.and_self]
  · rw [BitVec.and_assoc, BitVec.and_self]

theorem alignPc_addrOf {psr : Psr} (h : psr.t = false) (i : Nat) : alignPc psr (addrOf i) = addrOf i := by
  have hlow : addrOf i &&& 3#32 = 0#32 := by
    apply BitVec.eq_of_toNat_eq
    rw [BitVec.toNat_and, addrOf, BitVec.toNat_ofNat]
    show 4 * i % 2 ^ 32 &&& 2 ^ 2 - 1 = 0
    rw [Nat.and_two_pow_sub_one_eq_mod]
    omega
  rw [alignPc, h, if_neg (by decide)]
  calc addrOf i &&& 0xFFFFFFFC = addrOf i &&& 3#32 ||| addrOf i &&& 0xFFFFFFFC := by rw [hlow, BitVec.zero_or]
    _ = addrOf i &&& (3#32 ||| 0xFFFFFFFC) := BitVec.and_or_distrib_left.symm
    _ = addrOf i := by rw [(by decide : 3#32 ||| 0xFFFFFFFC = BitVec.allOnes 32), BitVec.and_allOnes]

/-- The low bit of a return address selects the state it was called from. -/
theorem returnLink_state {psr : Psr} {a : Word} (h : alignPc psr a = a) :
    (Cpu.returnLink psr a).getLsbD 0 = psr.t ∧ alignPc psr (Cpu.returnLink psr a) = a := by
  unfold alignPc Cpu.returnLink at *
  cases ht : psr.t with
  | false =>
    rw [ht, if_neg (by decide)] at h
    rw [if_neg (by decide)]
    refine ⟨?_, ?_⟩
    · rw [← h]
      simp
    · simpa using h
  | true =>
    rw [ht, if_pos rfl] at h
    refine ⟨?_, ?_⟩
    · simp
    · rw [if_pos rfl, if_pos rfl, BitVec.and_or_distrib_right, h]
      simp

section
variable {mem : Nat → Word} {i : Nat} {ws : List Word}

theorem storeWords_of_not {j : Nat} (h : j < i ∨ i + ws.length ≤ j) : storeWords mem i ws j = mem j := by
  induction ws generalizing mem i with
  | nil => rfl
  | cons w ws ih =>
    rw [List.length_cons] at h
    rw [storeWords, ih (by omega), Function.update_of_ne (by omega)]

theorem storeWords_at {k : Nat} (h : k < ws.length) : storeWords mem i ws (i + k) = ws[k] := by
  induction ws generalizing mem i k with
  | nil => exact absurd h (Nat.not_lt_zero k)
  | cons w ws ih =>
    cases k with
    | zero =>
      rw [storeWords, storeWords_of_not (.inl (by omega))]
      exact Function.update_self ..
    | succ k =>
      have hk : k < ws.length := Nat.lt_of_succ_lt_succ h
      rw [storeWords, List.getElem_cons_succ, ← ih (i := i + 1) hk]
      congr 1
      omega

end

namespace Cpu

section
variable {regs : List (Fin 13)} {m : Cpu}

/-- Loads into r0 to r12 change these only. -/
theorem loadRegs_eq (i : Nat) :
    loadRegs (regs.map Reg.r) i m = { m with r := (loadRegs (regs.map Reg.r) i m).r } := by
  induction regs generalizing i m with
  | nil => rfl
  | cons d regs ih => exact ih (m := m.set (m.mem i) (.r d)) (i + 1)

theorem loadRegs_of_notMem {i : Nat} {d : Fin 13} (h : d ∉ regs) : (loadRegs (regs.map Reg.r) i m).r d = m.r d := by
  induction regs generalizing i m with
  | nil => rfl
  | cons e regs ih =>
    rw [List.mem_cons, not_or] at h
    refine (ih (m := m.set (m.mem i) (.r e)) h.2).trans ?_
    exact Function.update_of_ne h.1 ..

theorem loadRegs_at {i k : Nat} (hnodup : regs.Nodup) (h : k < regs.length) :
    (loadRegs (regs.map Reg.r) i m).r regs[k] = m.mem (i + k) := by
  induction regs generalizing i k m with
  | nil => exact absurd h (Nat.not_lt_zero k)
  | cons e regs ih =>
    rw [List.nodup_cons] at hnodup
    cases k with
    | zero =>
      refine (loadRegs_of_notMem (m := m.set (m.mem i) (.r e)) hnodup.1).trans ?_
      exact Function.update_self ..
    | succ k =>
      refine (ih (m := m.set (m.mem i) (.r e)) (i := i + 1) hnodup.2 (Nat.lt_of_succ_lt_succ h)).trans ?_
      show m.mem (i + 1 + k) = m.mem (i + (k + 1))
      congr 1
      omega

end

end Cpu

section
variable {n : Nat} {mem : Nat → Word} {i : Nat} {f : Fin n → Word}

theorem block_at (k : Fin n) : block mem i f (i + k) = f k := by
  have h : i ≤ i + k.val ∧ i + k.val - i < n := ⟨by omega, by omega⟩
  rw [block, dif_pos h]
  congr 1
  exact Fin.ext (by simp)

theorem block_of_not {j : Nat} (h : j < i ∨ i + n ≤ j) : block mem i f j = mem j := by
  rw [block, dif_neg (by omega)]

end

/-- The two halves of the NEON registers, one after the other. -/
theorem block_halves (mem : Nat → Word) (i : Nat) (q : Fin 64 → Word) (h : 32 ≤ 64) :
    block (block mem i fun k : Fin 32 => q (k.castLE h)) (i + 32) (fun k : Fin 32 => q (k.addNat 32)) =
      block mem i q := by
  funext j
  rcases Nat.lt_or_ge j i with h1 | h1
  · rw [block_of_not (.inl (by omega)), block_of_not (.inl h1), block_of_not (.inl h1)]
  obtain ⟨k, rfl⟩ := Nat.exists_eq_add_of_le h1
  rcases Nat.lt_or_ge k 32 with h2 | h2
  · rw [block_of_not (.inl (by omega))]
    exact (block_at ⟨k, h2⟩).trans (block_at (f := q) ⟨k, by omega⟩).symm
  obtain ⟨k, rfl⟩ := Nat.exists_eq_add_of_le h2
  rcases Nat.lt_or_ge k 32 with h3 | h3
  · rw [← Nat.add_assoc, block_at ⟨k, h3⟩, Nat.add_assoc]
    refine Eq.trans ?_ (block_at (f := q) ⟨32 + k, by omega⟩).symm
    exact congrArg q (Fin.ext (Nat.add_comm k 32))
  · rw [block_of_not (.inr (by omega)), block_of_not (.inr (by omega)), block_of_not (.inr (by omega))]

end Td3.Arm
