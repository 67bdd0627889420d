/-
Loads and stores of bytes with the MMU of ARMv7-A: the registers of CP15 that say which table
translates an address and who may access the page, and the byte of word-addressed memory that `ldrb`
and `strb` reach (little endian).
-/
import Td3.Lib.ShortDescriptor

namespace Td3.Arm

/-! ## Bytes -/

/-- `ldrb` -/
def byteAt (mem : Nat → Word) (pa : Word) : Word := (mem (wordIndex pa) >>> (8 * (pa.toNat % 4))) &&& 0xFF#32

/-- Byte `k` of the word is replaced by the low byte of `v`. -/
def insertByte (w v : Word) (k : Nat) : Word := (w &&& ~~~(0xFF#32 <<< (8 * k))) ||| (v &&& 0xFF#32) <<< (8 * k)

/-- `strb` -/
def putByte (v pa : Word) (mem : Nat → Word) : Nat → Word :=
  Function.update mem (wordIndex pa) (insertByte (mem (wordIndex pa)) v (pa.toNat % 4))

section
variable {w v pa pb : Word} {i j k : Nat} {mem mem' : Nat → Word}

theorem getLsbD_lowByte (h : i < 32) : (0xFF#32).getLsbD i = decide (i < 8) := by
  rw [BitVec.getLsbD_ofNat, show (0xFF : Nat) = 2 ^ 8 - 1 from rfl, Nat.testBit_two_pow_sub_one]
  simp [h]

theorem getLsbD_insertByte (hi : i < 32) : (insertByte w v k).getLsbD i =
    if 8 * k ≤ i ∧ i < 8 * k + 8 then v.getLsbD (i - 8 * k) else w.getLsbD i := by
  have hsub : i - 8 * k < 32 := by omega
  rw [insertByte, BitVec.getLsbD_or, BitVec.getLsbD_and, BitVec.getLsbD_not, BitVec.getLsbD_shiftLeft,
    BitVec.getLsbD_shiftLeft, BitVec.getLsbD_and, getLsbD_lowByte hsub]
  split_ifs with h
  · have hge : ¬ i < 8 * k := by omega
    have hlt : i - 8 * k < 8 := by omega
    simp [hi, hge, hlt]
  · by_cases hge : i < 8 * k
    · simp [hi, hge]
    · have hlt : ¬ i - 8 * k < 8 := by omega
      simp [hi, hlt]

theorem getLsbD_byte (hi : i < 32) :
    ((w >>> (8 * k)) &&& 0xFF#32).getLsbD i = (decide (i < 8) && w.getLsbD (8 * k + i)) := by
  rw [BitVec.getLsbD_and, BitVec.getLsbD_ushiftRight, getLsbD_lowByte hi, Bool.and_comm]

theorem byte_insertByte_self (hk : k < 4) : (insertByte w v k >>> (8 * k)) &&& 0xFF#32 = v &&& 0xFF#32 := by
  apply BitVec.eq_of_getLsbD_eq
  intro i hi
  rw [getLsbD_byte hi, BitVec.getLsbD_and, getLsbD_lowByte hi, Bool.and_comm]
  by_cases h8 : i < 8
  · rw [getLsbD_insertByte (by omega), if_pos (by omega), Nat.add_sub_cancel_left]
  · simp [h8]

theorem byte_insertByte_of_ne (hj : j < 4) (hne : j ≠ k) :
    (insertByte w v k >>> (8 * j)) &&& 0xFF#32 = (w >>> (8 * j)) &&& 0xFF#32 := by
  apply BitVec.eq_of_getLsbD_eq
  intro i hi
  rw [getLsbD_byte hi, getLsbD_byte hi]
  by_cases h8 : i < 8
  · rw [getLsbD_insertByte (by omega), if_neg (by omega)]
  · simp [h8]

theorem byteAt_putByte_self : byteAt (putByte v pa mem) pa = v &&& 0xFF#32 := by
  rw [byteAt, putByte, Function.update_self]
  exact byte_insertByte_self (Nat.mod_lt _ (by decide))

theorem byteAt_putByte_of_ne (h : pb ≠ pa) : byteAt (putByte v pa mem) pb = byteAt mem pb := by
  by_cases hword : wordIndex pb = wordIndex pa
  · have hne : pb.toNat % 4 ≠ pa.toNat % 4 := by
      intro hmod
      apply h
      apply BitVec.eq_of_toNat_eq
      unfold wordIndex at hword
      omega
    rw [byteAt, byteAt, putByte, hword, Function.update_self]
    exact byte_insertByte_of_ne (Nat.mod_lt _ (by decide)) hne
  · rw [byteAt, byteAt, putByte, Function.update_of_ne hword]

theorem putByte_of_ne (h : i ≠ wordIndex pa) : putByte v pa mem i = mem i := Function.update_of_ne h ..

theorem byteAt_congr (h : mem' (wordIndex pa) = mem (wordIndex pa)) : byteAt mem' pa = byteAt mem pa := by
  rw [byteAt, byteAt, h]

/-- A byte is its own low byte. -/
theorem byteAt_and : byteAt mem pa &&& 0xFF#32 = byteAt mem pa := by
  rw [byteAt, BitVec.and_assoc, BitVec.and_self]

end

/-! ## Accesses -/

/-- The registers of CP15 that a translation depends on. -/
structure Cp15 where
  sctlr : Word
  ttbcr : Word
  ttbr0 : Word
  ttbr1 : Word
  dacr : Word

inductive Access where
  | load
  | store
deriving DecidableEq, Repr

/-- What AP[2:0] permits, with SCTLR.AFE = 0. -/
def permits (ap : BitVec 3) (privileged : Bool) : Access → Bool
  | .load =>
    if ap = 0b000 ∨ ap = 0b100 then false
    else if ap = 0b001 ∨ ap = 0b101 then privileged
    else true
  | .store =>
    if ap = 0b011 then true
    else if ap = 0b001 ∨ ap = 0b010 then privileged
    else false

/-- What DACR says about a domain: 1 for a client, whose accesses the entries permit or not, and 3 for a
manager, whose accesses are not checked. -/
def domainAccess (dacr : Word) (domain : BitVec 4) : BitVec 2 := dacr.extractLsb' (2 * domain.toNat) 2

namespace Cp15

variable (c : Cp15)

/-- The word at which the level-1 table starts that translates `va`; N is TTBCR[2:0]. -/
def table1Of (va : Word) : Nat :=
  let n := c.ttbcr.toNat % 8
  if va.toNat < 2 ^ (32 - n) then c.ttbr0.toNat / 2 ^ (14 - n) * 2 ^ (14 - n) / 4 else c.ttbr1.toNat / 2 ^ 14 * 2 ^ 12

/-- The physical address of an access, `none` where it aborts. -/
def translate (mem : Nat → Word) (privileged : Bool) (access : Access) (va : Word) : Option Word :=
  if c.sctlr.getLsbD 0 then
    match walk mem (c.table1Of va) va with
    | .smallPage pa domain attributes =>
      if domainAccess c.dacr domain = 1 then if permits attributes.ap privileged access then some pa else none
      else if domainAccess c.dacr domain = 3 then some pa
      else none
    | _ => none
  else some va

/-- `ldrb` -/
def ldrb (mem : Nat → Word) (privileged : Bool) (va : Word) : Option Word :=
  (c.translate mem privileged .load va).map (byteAt mem)

/-- `strb` -/
def strb (mem : Nat → Word) (privileged : Bool) (v va : Word) : Option (Nat → Word) :=
  (c.translate mem privileged .store va).map fun pa => putByte v pa mem

/-- The MMU is on, the table at word `t` translates every address, and every domain is a client. -/
structure Uses (t : Nat) : Prop where
  on : c.sctlr.getLsbD 0 = true
  table1 : ∀ va, c.table1Of va = t
  client : ∀ domain, domainAccess c.dacr domain = 1

variable {c}

/-- With the MMU off every access reaches its own address. -/
theorem translate_off (hoff : c.sctlr.getLsbD 0 = false) (mem : Nat → Word) (privileged : Bool) (access : Access)
    (va : Word) : c.translate mem privileged access va = some va := by
  rw [Cp15.translate, hoff]
  rfl

theorem Uses.translate_eq {t : Nat} (h : c.Uses t) {mem : Nat → Word} {va pa : Word} {domain : BitVec 4}
    {attributes : PageAttributes} (hwalk : walk mem t va = .smallPage pa domain attributes) (privileged : Bool)
    (access : Access) :
    c.translate mem privileged access va = if permits attributes.ap privileged access then some pa else none := by
  rw [Cp15.translate, if_pos h.on, h.table1, hwalk]
  exact if_pos (h.client domain)

theorem Uses.translate {t : Nat} (h : c.Uses t) {mem : Nat → Word} {va pa : Word} {domain : BitVec 4}
    {attributes : PageAttributes} (hwalk : walk mem t va = .smallPage pa domain attributes) {privileged : Bool}
    {access : Access} (hap : permits attributes.ap privileged access = true) :
    c.translate mem privileged access va = some pa := by
  rw [h.translate_eq hwalk, if_pos hap]

/-- TTBCR.N = 0 and a table aligned to its size -/
theorem uses_of_ttbr0 {t : Nat} (hon : c.sctlr.getLsbD 0 = true) (hn : c.ttbcr.toNat % 8 = 0)
    (hdacr : c.dacr = 0x55555555) (ht : 4096 ∣ t) (hlt : t < 2 ^ 30) (httbr : c.ttbr0 = addrOf t) : c.Uses t := by
  refine ⟨hon, ?_, ?_⟩
  · intro va
    obtain ⟨i, rfl⟩ := ht
    unfold table1Of
    have haddr : c.ttbr0.toNat = 2 ^ 14 * i := by
      rw [httbr, addrOf, BitVec.toNat_ofNat]
      omega
    rw [hn, haddr]
    have := va.isLt
    have hall : va.toNat < 2 ^ (32 - 0) := this
    show (if va.toNat < 2 ^ (32 - 0) then 2 ^ 14 * i / 2 ^ 14 * 2 ^ 14 / 4 else _) = 4096 * i
    rw [if_pos hall]
    omega
  · intro domain
    rw [hdacr]
    revert domain
    decide

end Cp15
end Td3.Arm
