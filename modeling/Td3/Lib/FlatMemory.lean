/-
Programs on a flat memory: every address has a byte, and an instruction of a thread loads or stores bytes at
consecutive addresses, or does without memory. An instruction that is not aligned is never executed. A machine
whose memory is translated refines it when what it reads agrees with the flat memory at every address that it can
read.
-/
import Td3.Lib.Run
import Td3.Lib.Translation

namespace Td3.Arm

variable {θ : Type*}

/-- What an instruction does to a thread; what a load leads to depends on the bytes. The address is to be a multiple
of `unit`, the size of what is loaded or stored at once. -/
inductive Instr (θ : Type*) where
  | load (va : Word) (unit size : Nat) (next : List Word → θ)
  | store (va : Word) (unit : Nat) (bytes : List Word) (next : θ)
  | plain (next : θ)

/-- The instruction that each thread is at -/
abbrev Program (θ : Type*) := θ → Instr θ

/-- What holds of every thread that the instruction can lead to -/
def Instr.Leads (P : θ → Prop) : Instr θ → Prop
  | .load _ _ _ next => ∀ bytes, P (next bytes)
  | .store _ _ _ next => P next
  | .plain next => P next

/-- The `size` bytes from `a` on -/
def readBytes (read : Word → Word) (a : Word) (size : Nat) : List Word :=
  (List.range size).map fun i => read (a + BitVec.ofNat 32 i)

/-- `strb` of each byte, from `pa` on -/
def putBytes : List Word → Word → (Nat → Word) → Nat → Word
  | [], _, mem => mem
  | v :: vs, pa, mem => putBytes vs (pa + 1#32) (putByte v pa mem)

structure Flat (θ : Type*) where
  thread : θ
  memory : Word → Word

namespace Flat

/-- The low byte of each word, from `a` on -/
def storeBytes : List Word → Word → (Word → Word) → Word → Word
  | [], _, μ => μ
  | v :: vs, a, μ => storeBytes vs (a + 1#32) (Function.update μ a (v &&& 0xFF#32))

def step (prog : Program θ) (f : Flat θ) : Flat θ :=
  match prog f.thread with
  | .load va unit size next => if unit ∣ va.toNat then { f with thread := next (readBytes f.memory va size) } else f
  | .store va unit bytes next => if unit ∣ va.toNat then ⟨next, storeBytes bytes va f.memory⟩ else f
  | .plain next => { f with thread := next }

/-- A flat memory that has every byte which can be read at an address of `own` -/
def Agrees (own : Word → Prop) (read : Word → Option Word) (μ : Word → Word) : Prop :=
  ∀ va, own va → ∀ byte, read va = some byte → μ va = byte

variable {own : Word → Prop} {read read' : Word → Option Word} {μ : Word → Word} {va pa v : Word} {size : Nat}

theorem exists_agrees (own : Word → Prop) (read : Word → Option Word) : ∃ μ, Agrees own read μ := by
  refine ⟨fun va => (read va).getD 0, ?_⟩
  intro va _ byte hb
  dsimp only
  rw [hb]
  rfl

theorem Agrees.mono (h : Agrees own read' μ)
    (hread : ∀ va, own va → ∀ byte, read va = some byte → read' va = some byte) : Agrees own read μ :=
  fun va hown byte hb => h va hown byte (hread va hown byte hb)

/-- Before a store, the byte that it replaces can be put back. -/
theorem Agrees.restore (h : Agrees own read' μ) (hown : own va) (hstored : read' va = some (v &&& 0xFF#32))
    (hread : ∀ va', own va' → va' ≠ va → ∀ byte, read va' = some byte → read' va' = some byte) :
    ∃ μ0, Agrees own read μ0 ∧ Function.update μ0 va (v &&& 0xFF#32) = μ := by
  refine ⟨Function.update μ va ((read va).getD 0), ?_, ?_⟩
  · intro va' hown' byte hb
    by_cases heq : va' = va
    · subst heq
      rw [Function.update_self, hb]
      rfl
    · rw [Function.update_of_ne heq]
      exact h va' hown' byte (hread va' hown' heq byte hb)
  · rw [Function.update_idem, ← h va hown _ hstored, Function.update_eq_self]

theorem Agrees.readBytes_eq (h : Agrees own read μ) {mem : Word → Word}
    (hown : ∀ i < size, own (va + BitVec.ofNat 32 i))
    (hread : ∀ i < size, read (va + BitVec.ofNat 32 i) = some (mem (pa + BitVec.ofNat 32 i))) :
    readBytes μ va size = readBytes mem pa size := by
  refine List.map_congr_left ?_
  intro i hi
  rw [List.mem_range] at hi
  exact h _ (hown i hi) _ (hread i hi)

end Flat

end Td3.Arm
