/-
The memory tests of `task1` and `task2` (task1/task1.c, task2/task2.c) over memory with stuck bits. Both read a word,
write another, read it again and write the first back. `task2_memtest` writes the complement and so finds every stuck
bit; `task1_memtest` writes one pattern and finds the bits that are stuck at the other level.
-/
import Td3.Lib.Arm
import Td3.Lib.StuckAt

namespace Td3.Kernel

open Arm

/-- Word `i` is the one at address `4 * i`. -/
abbrev TestedMemory := FaultyMemory Nat 32

/-! ## The tests -/

/-- `none` where the access aborts: the address is not aligned. -/
def readPrivilegedData (addr : Word) (m : TestedMemory) : Option Word :=
  if addr.toNat % 4 = 0 then some (m.cells (wordIndex addr)) else none

def writePrivilegedData (addr value : Word) (m : TestedMemory) : Option TestedMemory :=
  if addr.toNat % 4 = 0 then some (m.write (wordIndex addr) value) else none

/-- `&addr[mem_index]` -/
def elementAddr (addr : Word) (memIndex : Nat) : Word := addr + BitVec.ofNat 32 (4 * memIndex)

/-- The loop from round `mem_index` on; `written` gives what the test writes over the word it read. -/
def memtestLoop (written : Word → Word) (addr : Word) (memSize memIndex : Nat) (m : TestedMemory) :
    Option (Bool × TestedMemory) :=
  (readPrivilegedData (elementAddr addr memIndex) m).bind fun readBefore =>
  (writePrivilegedData (elementAddr addr memIndex) (written readBefore) m).bind fun m =>
  (readPrivilegedData (elementAddr addr memIndex) m).bind fun readAfter =>
  (writePrivilegedData (elementAddr addr memIndex) readBefore m).bind fun m =>
    if readAfter ≠ written readBefore then some (false, m)
    else if memIndex + 1 < memSize then memtestLoop written addr memSize (memIndex + 1) m
    else some (true, m)
termination_by memSize - memIndex

/-- What the two tests share. `mem_size` is in bytes. -/
def memtest (written : Word → Word) (memOrigin memSize : Word) : TestedMemory → Option (Bool × TestedMemory) :=
  memtestLoop written memOrigin (memSize.toNat / 4) 0

def PATTERN : Word := 0x55AA55AA

def task1Memtest : Word → Word → TestedMemory → Option (Bool × TestedMemory) := memtest fun _ => PATTERN

def task2Memtest : Word → Word → TestedMemory → Option (Bool × TestedMemory) := memtest fun readBefore => ~~~readBefore

/-! ## What a round finds -/

variable {written : Word → Word} {addr memOrigin memSize : Word} {m : TestedMemory}

/-- The fault of word `i` of the region. -/
def regionFault (m : TestedMemory) (memOrigin : Word) (i : Nat) : Fault 32 :=
  m.fault (wordIndex (elementAddr memOrigin i))

/-- Word `i` of the region takes what the test writes over it. -/
def Passes (written : Word → Word) (m : TestedMemory) (memOrigin : Word) (i : Nat) : Prop :=
  (regionFault m memOrigin i).held (written (m.cells (wordIndex (elementAddr memOrigin i)))) =
    written (m.cells (wordIndex (elementAddr memOrigin i)))

instance (i : Nat) : Decidable (Passes written m memOrigin i) := by unfold Passes; infer_instance

theorem elementAddr_aligned (h : addr.toNat % 4 = 0) (i : Nat) : (elementAddr addr i).toNat % 4 = 0 := by
  rw [elementAddr, BitVec.toNat_add, BitVec.toNat_ofNat]
  omega

/-- One round: the memory is as it was, and the word is compared. -/
theorem memtestLoop_round (h : addr.toNat % 4 = 0) (n i : Nat) :
    memtestLoop written addr n i m =
      if Passes written m addr i then
        if i + 1 < n then memtestLoop written addr n (i + 1) m else some (true, m)
      else some (false, m) := by
  have ha := elementAddr_aligned h i
  rw [memtestLoop]
  simp only [readPrivilegedData, writePrivilegedData, if_pos ha, Option.bind_some, FaultyMemory.cells_write_self,
    FaultyMemory.write_restore]
  by_cases hp : Passes written m addr i
  · rw [if_pos hp]
    exact if_neg (not_not.mpr hp)
  · rw [if_neg hp]
    exact if_pos hp

/-- The rounds that are left, by induction on their number. -/
theorem memtestLoop_eq (h : addr.toNat % 4 = 0) {n i left : Nat} (hleft : i + left + 1 = n) :
    ∃ ok, memtestLoop written addr n i m = some (ok, m) ∧
      (ok = true ↔ ∀ j, i ≤ j → j < n → Passes written m addr j) := by
  induction left generalizing i with
  | zero =>
    rw [memtestLoop_round h, if_neg (show ¬i + 1 < n by omega)]
    have hlast : (∀ j, i ≤ j → j < n → Passes written m addr j) ↔ Passes written m addr i := by
      constructor
      · intro hall
        exact hall i le_rfl (by omega)
      · intro hp j hj hjn
        rwa [show j = i by omega]
    rw [hlast]
    split_ifs with hp
    · exact ⟨true, rfl, by simp [hp]⟩
    · exact ⟨false, rfl, by simp [hp]⟩
  | succ left ih =>
    obtain ⟨ok, hrest, hok⟩ := ih (show i + 1 + left + 1 = n by omega)
    rw [memtestLoop_round h, if_pos (show i + 1 < n by omega), hrest]
    split_ifs with hp
    · refine ⟨ok, rfl, hok.trans ?_⟩
      constructor
      · intro hall j hj hjn
        rcases Nat.eq_or_lt_of_le hj with rfl | hlt
        · exact hp
        · exact hall j hlt hjn
      · intro hall j hj hjn
        exact hall j (by omega) hjn
    · refine ⟨false, rfl, ?_⟩
      constructor
      · intro hfalse
        cases hfalse
      · intro hall
        exact absurd (hall i le_rfl (by omega)) hp

/-- The memory is as it was on every way out, and the test succeeds just where every word of the region takes what
is written over it. -/
theorem memtest_eq (h : memOrigin.toNat % 4 = 0) (hsize : 4 ≤ memSize.toNat) :
    ∃ ok, memtest written memOrigin memSize m = some (ok, m) ∧
      (ok = true ↔ ∀ i < memSize.toNat / 4, Passes written m memOrigin i) := by
  obtain ⟨ok, hrun, hok⟩ := @memtestLoop_eq written memOrigin m h (memSize.toNat / 4) 0 (memSize.toNat / 4 - 1) (by omega)
  refine ⟨ok, hrun, hok.trans ?_⟩
  simp only [Nat.zero_le, true_implies]

/-! ## The two tests -/

/-- Zeros, with bit 0 of word 1 stuck there. -/
def stuckLow : TestedMemory where
  fault i := if i = 1 then ⟨1, 0⟩ else ⟨0, 0⟩
  cells _ := 0
  cells_held i := by
    split_ifs
    · rfl
    · rfl

/-- `task2_memtest` succeeds exactly where no word of the region has a stuck bit. -/
theorem task2Memtest_iff (m : TestedMemory) (memOrigin memSize : Word) (horigin : memOrigin.toNat % 4 = 0)
    (hsize : 4 ≤ memSize.toNat) :
    ∃ ok, task2Memtest memOrigin memSize m = some (ok, m) ∧
      (ok = true ↔ ∀ i < memSize.toNat / 4, (regionFault m memOrigin i).stuck = 0) := by
  obtain ⟨ok, hrun, hok⟩ := @memtest_eq (fun readBefore => ~~~readBefore) memOrigin memSize m horigin hsize
  refine ⟨ok, hrun, hok.trans ?_⟩
  have hword : ∀ i, Passes (fun readBefore => ~~~readBefore) m memOrigin i ↔ (regionFault m memOrigin i).stuck = 0 :=
    fun i => Fault.held_not_iff (m.cells_held _)
  simp only [hword]

/-- The stuck bit is in the last of two words. -/
theorem task2Memtest_iff_stuckLow : task2Memtest 0 8 stuckLow = some (false, stuckLow) := by
  obtain ⟨ok, hrun, hok⟩ := task2Memtest_iff stuckLow 0 8 (by decide) (by decide)
  have hfail : ok ≠ true := by
    intro h
    exact absurd (hok.mp h 1 (by decide)) (by decide)
  rw [hrun, Bool.eq_false_of_not_eq_true hfail]

/-- `task1_memtest` succeeds exactly where every bit of the region can hold its bit of the pattern. -/
theorem task1Memtest_iff (m : TestedMemory) (memOrigin memSize : Word) (horigin : memOrigin.toNat % 4 = 0)
    (hsize : 4 ≤ memSize.toNat) :
    ∃ ok, task1Memtest memOrigin memSize m = some (ok, m) ∧
      (ok = true ↔ ∀ i < memSize.toNat / 4, ∀ b < 32, (regionFault m memOrigin i).CanHold b (PATTERN.getLsbD b)) := by
  obtain ⟨ok, hrun, hok⟩ := @memtest_eq (fun _ => PATTERN) memOrigin memSize m horigin hsize
  refine ⟨ok, hrun, hok.trans ?_⟩
  have hword : ∀ i, Passes (fun _ => PATTERN) m memOrigin i ↔
      ∀ b < 32, (regionFault m memOrigin i).CanHold b (PATTERN.getLsbD b) := fun i => Fault.held_eq_iff
  simp only [hword]

theorem task1Memtest_iff_stuckLow : ∃ ok, task1Memtest 0 8 stuckLow = some (ok, stuckLow) ∧
    (ok = true ↔ ∀ i < 2, ∀ b < 32, (regionFault stuckLow 0 i).CanHold b (PATTERN.getLsbD b)) :=
  task1Memtest_iff stuckLow 0 8 (by decide) (by decide)

/-- Bit 0 of the pattern is 0: a bit stuck there is not found. -/
theorem not_task1Memtest_sound :
    ¬∀ (m m' : TestedMemory) (memOrigin memSize : Word), memOrigin.toNat % 4 = 0 → 4 ≤ memSize.toNat →
      task1Memtest memOrigin memSize m = some (true, m') →
      (∀ i < memSize.toNat / 4, ∀ b < 32,
        (regionFault m memOrigin i).CanHold b false ∧ (regionFault m memOrigin i).CanHold b true) ∧ m' = m := by
  intro h
  obtain ⟨ok, hrun, hok⟩ := @memtest_eq (fun _ => PATTERN) 0 8 stuckLow (by decide) (by decide)
  have hpass : ok = true := hok.mpr (by decide)
  rw [hpass] at hrun
  have hbit := ((h stuckLow stuckLow 0 8 (by decide) (by decide) hrun).1 1 (by decide) 0 (by decide)).2
  exact absurd ((Fault.canHold_iff (by decide)).mp hbit) (by decide)

end Td3.Kernel
