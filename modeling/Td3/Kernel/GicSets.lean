/-
Enabling and disabling a line of the interrupt controller (kernel/drivers/gic.c) as set operations on
SET_ENABLE, over any list of calls with any ids. The range test of `__gic_disable_interrupt` for the
third word has its second comparison the wrong way round: of the lines 64 to 95 it disables only the
first, and it lets ids below 32 through to a shift by far more than a word.
-/
import Td3.Kernel.Timer

namespace Td3.Kernel

open Arm

/-! ## Calls -/

/-- The calls of the driver that write SET_ENABLE. -/
inductive GicCall where
  | enableInterrupt (id : Word)
  | disableInterrupt (id : Word)
deriving DecidableEq, Repr

namespace GicCall

def id : GicCall → Word
  | enableInterrupt id | disableInterrupt id => id

def enables : GicCall → Bool
  | enableInterrupt _ => true
  | disableInterrupt _ => false

def run (g : Gic) : GicCall → Gic
  | enableInterrupt id => g.enableInterrupt id
  | disableInterrupt id => g.disableInterrupt id

/-- The counts of the shifts of `1U` that the call evaluates. -/
def shifts : GicCall → List Word
  | enableInterrupt id =>
    if id ≤ 63 ∧ 32 ≤ id then [id - 32] else if id ≤ 95 ∧ 64 ≤ id then [id - 64] else []
  | disableInterrupt id =>
    if id ≤ 63 ∧ 32 ≤ id then [id - 32] else if id ≤ 95 ∧ id ≤ 64 then [id - 64] else []

/-- The ids that the driver's two words cover. -/
def Covered (id : Word) : Prop := 32 ≤ id.toNat ∧ id.toNat ≤ 95

/-- What the call asks for line `id`. -/
def asks (id : Word) (c : GicCall) : Option Bool := if c.id = id then some c.enables else none

/-- What it writes: a line from 65 on is never disabled. -/
def writes (id : Word) (c : GicCall) : Option Bool := (c.asks id).filter fun b => b || id.toNat ≤ 64

/-- The calls are set operations: each line is what its last call asks for, the calls with ids the
driver does not cover leave SET_ENABLE alone wherever they come, and no count reaches 32. -/
structure SetOperations (g : Gic) (calls : List GicCall) : Prop where
  line : ∀ id, Covered id → (calls.foldl run g).line id = (lastSet (asks id) calls).getD (g.line id)
  frame : ∀ before c after, calls = before ++ c :: after → ¬ Covered c.id →
    (run (before.foldl run g) c).setEnable = (before.foldl run g).setEnable
  shifts : ∀ c ∈ calls, ∀ n ∈ c.shifts, n.toNat < 32

/-! ## One call -/

variable {g : Gic} {id : Word} {c : GicCall}

theorem enable_uncovered (h : ¬ Covered id) : (g.enableInterrupt id).setEnable = g.setEnable := by
  rw [Gic.enableInterrupt, if_neg, if_neg]
  · rfl
  · rintro ⟨h95, h64⟩
    exact h ⟨le_trans (by decide) (show 64 ≤ id.toNat from h64), h95⟩
  · rintro ⟨h63, h32⟩
    exact h ⟨h32, le_trans (show id.toNat ≤ 63 from h63) (by decide)⟩

theorem count_low (h : id.toNat < 32) : 32 ≤ (id - 64).toNat := by
  rw [BitVec.toNat_sub, show (64 : Word).toNat = 64 from rfl]
  omega

/-- The count of an id below 32 is far beyond the word: the bit shifted out is no bit at all. -/
theorem disable_low (h : id.toNat < 32) : g.disableInterrupt id = g := by
  have hclear : clearBit (id - 64).toNat (g.setEnable 2) = g.setEnable 2 := by
    rw [clearBit, BitVec.shiftLeft_eq_zero (count_low h), BitVec.not_zero, BitVec.and_allOnes]
  rw [Gic.disableInterrupt, if_neg, if_pos, Gic.modifySetEnable, hclear, Function.update_eq_self]
  · exact ⟨show id.toNat ≤ 95 by omega, show id.toNat ≤ 64 by omega⟩
  · rintro ⟨-, h32⟩
    exact absurd (show 32 ≤ id.toNat from h32) (by omega)

theorem run_uncovered (g : Gic) (h : ¬ Covered c.id) : (run g c).setEnable = g.setEnable := by
  cases c with
  | enableInterrupt id => exact enable_uncovered h
  | disableInterrupt id =>
    rcases Nat.lt_or_ge id.toNat 32 with hlow | hlow
    · rw [run, disable_low hlow]
    · rw [run, Gic.disableInterrupt_high]
      by_contra hlt
      exact h ⟨hlow, show id.toNat ≤ 95 by omega⟩

/-- Line by line, a call writes what it asks for, apart from the lines it cannot disable. -/
theorem overwrites_line (hid : Covered id) : Overwrites run (Gic.line id) (writes id) := by
  intro g c
  have hlt : id.toNat < 96 := Nat.lt_succ_of_le hid.2
  by_cases heq : c.id = id
  · rw [writes, asks, if_pos heq]
    cases c with
    | enableInterrupt id' =>
      obtain rfl : id' = id := heq
      exact (Gic.enableInterrupt_line hid.1 hid.2 hlt).trans (if_pos rfl)
    | disableInterrupt id' =>
      obtain rfl : id' = id := heq
      by_cases h64 : id'.toNat ≤ 64
      · refine ((Gic.disableInterrupt_line hid.1 h64 hlt).trans (if_pos rfl)).trans ?_
        rw [Option.filter_some, if_pos (by simpa [enables] using h64)]
        rfl
      · rw [run, Gic.disableInterrupt_high (by omega), Option.filter_some, if_neg (by simpa [enables] using h64)]
        rfl
  · rw [writes, asks, if_neg heq, Option.filter_none, Option.getD_none]
    by_cases hc : Covered c.id
    · cases c with
      | enableInterrupt id' => exact (Gic.enableInterrupt_line hc.1 hc.2 hlt).trans (if_neg (Ne.symm heq))
      | disableInterrupt id' =>
        by_cases h64 : id'.toNat ≤ 64
        · exact (Gic.disableInterrupt_line hc.1 h64 hlt).trans (if_neg (Ne.symm heq))
        · rw [run, Gic.disableInterrupt_high (by omega)]
    · exact Gic.line_congr (run_uncovered g hc) id

/-- The only counts that reach 32 are those of disabling an id below 32. -/
theorem shifts_lt_iff : (∀ n ∈ c.shifts, n.toNat < 32) ↔ (c.enables = false → 32 ≤ c.id.toNat) := by
  cases c with
  | enableInterrupt id =>
    refine iff_of_true ?_ (fun h => by cases h)
    intro n hn
    rw [shifts] at hn
    split_ifs at hn with h1 h2
    · rw [List.mem_singleton.1 hn, BitVec.toNat_sub_of_le h1.2]
      have : id.toNat ≤ 63 := h1.1
      show id.toNat - 32 < 32
      omega
    · rw [List.mem_singleton.1 hn, BitVec.toNat_sub_of_le h2.2]
      have : id.toNat ≤ 95 := h2.1
      show id.toNat - 64 < 32
      omega
    · cases hn
  | disableInterrupt id =>
    rw [shifts]
    constructor
    · rintro h -
      by_contra hlow
      have hlow : id.toNat < 32 := not_le.1 hlow
      rw [if_neg, if_pos] at h
      · exact absurd (h _ List.mem_cons_self) (not_lt.2 (count_low hlow))
      · exact ⟨show id.toNat ≤ 95 by omega, show id.toNat ≤ 64 by omega⟩
      · rintro ⟨-, h32⟩
        exact absurd (show 32 ≤ id.toNat from h32) (by omega)
    · intro h n hn
      have h32 : 32 ≤ id.toNat := h rfl
      split_ifs at hn with h1 h2
      · rw [List.mem_singleton.1 hn, BitVec.toNat_sub_of_le h1.2]
        have : id.toNat ≤ 63 := h1.1
        show id.toNat - 32 < 32
        omega
      · have h64 : id.toNat = 64 := by
          have hle : id.toNat ≤ 64 := h2.2
          have hnot : ¬ id.toNat ≤ 63 := fun h63 => h1 ⟨h63, h32⟩
          omega
        rw [List.mem_singleton.1 hn, BitVec.eq_of_toNat_eq (show id.toNat = (64 : Word).toNat from h64)]
        decide
      · cases hn

/-! ## A list of calls -/

variable {calls : List GicCall}

theorem writes_eq_asks (h : id.toNat ≤ 64) : writes id = asks id := by
  funext c
  rw [writes]
  cases c.asks id with
  | none => rfl
  | some b =>
    rw [Option.filter_some, if_pos (by simp [h])]

theorem writes_eq_some (h : 65 ≤ id.toNat) {b : Bool} :
    c.writes id = some b ↔ b = true ∧ c = enableInterrupt id := by
  have hle : ¬ id.toNat ≤ 64 := by omega
  rw [writes, Option.filter_eq_some_iff, asks, Option.ite_none_right_eq_some, Option.some_inj]
  cases c with
  | enableInterrupt id' => cases b <;> simp [GicCall.id, enables, hle]
  | disableInterrupt id' => cases b <;> simp [GicCall.id, enables, hle]

/-- A line from 65 on is enabled at the end exactly if it was at the start or any call enables it. -/
theorem line_high (h : 65 ≤ id.toNat) (h95 : id.toNat ≤ 95) :
    (calls.foldl run g).line id = true ↔ g.line id = true ∨ enableInterrupt id ∈ calls := by
  rw [(overwrites_line ⟨by omega, h95⟩).foldl]
  cases hlast : lastSet (writes id) calls with
  | none =>
    rw [Option.getD_none, or_iff_left]
    intro hmem
    have hsome : (lastSet (writes id) calls).isSome :=
      lastSet_isSome.2 ⟨_, hmem, Option.isSome_of_eq_some ((writes_eq_some h).2 ⟨rfl, rfl⟩)⟩
    rw [hlast] at hsome
    cases hsome
  | some b =>
    obtain ⟨c, hc, hset⟩ := exists_of_lastSet hlast
    obtain ⟨rfl, rfl⟩ := (writes_eq_some h).1 hset
    exact iff_of_true rfl (.inr hc)

theorem asks_eq_some {b : Bool} : c.asks id = some b ↔ c.id = id ∧ c.enables = b := by
  rw [asks, Option.ite_none_right_eq_some, Option.some_inj]

/-- A line from 65 on is right at the end exactly if it is not one that was enabled, at the start or
by a call, and then disabled by its last call. -/
theorem line_high_iff (h : 65 ≤ id.toNat) (h95 : id.toNat ≤ 95) :
    (calls.foldl run g).line id = (lastSet (asks id) calls).getD (g.line id) ↔
      (lastSet (asks id) calls = some false → g.line id = false ∧ enableInterrupt id ∉ calls) := by
  rw [Bool.eq_iff_iff, line_high h h95]
  cases hlast : lastSet (asks id) calls with
  | none =>
    refine iff_of_true ?_ (fun h => by cases h)
    rw [Option.getD_none, or_iff_left]
    intro hmem
    have hsome : (lastSet (asks id) calls).isSome :=
      lastSet_isSome.2 ⟨_, hmem, Option.isSome_of_eq_some (asks_eq_some.2 ⟨rfl, rfl⟩)⟩
    rw [hlast] at hsome
    cases hsome
  | some b =>
    obtain ⟨c, hc, hset⟩ := exists_of_lastSet hlast
    rw [Option.getD_some]
    cases b with
    | true =>
      refine iff_of_true (iff_of_true (.inr ?_) rfl) (fun h => by cases h)
      cases c with
      | enableInterrupt id' =>
        obtain rfl : id' = id := (asks_eq_some.1 hset).1
        exact hc
      | disableInterrupt id' => cases (asks_eq_some.1 hset).2
    | false => simp

/-- The driver's calls are set operations exactly if none of them disables an id below 32, and no line
from 65 to 95 whose last call disables it was enabled before. -/
theorem setOperations_iff (g : Gic) (calls : List GicCall) : SetOperations g calls ↔
    (∀ c ∈ calls, c.enables = false → 32 ≤ c.id.toNat) ∧
      ∀ id : Word, 65 ≤ id.toNat → id.toNat ≤ 95 → lastSet (asks id) calls = some false →
        g.line id = false ∧ enableInterrupt id ∉ calls := by
  constructor
  · rintro ⟨hline, -, hshifts⟩
    refine ⟨fun c hc => shifts_lt_iff.1 (hshifts c hc), ?_⟩
    intro id h65 h95
    exact (line_high_iff h65 h95).1 (hline id ⟨by omega, h95⟩)
  · rintro ⟨hlow, hhigh⟩
    refine ⟨?_, fun _ _ _ _ hc => run_uncovered _ hc, fun c hc => shifts_lt_iff.2 (hlow c hc)⟩
    intro id hid
    rcases Nat.lt_or_ge id.toNat 65 with h64 | h65
    · rw [(overwrites_line hid).foldl, writes_eq_asks (by omega)]
    · exact (line_high_iff h65 hid.2).2 (hhigh id h65 hid.2)

/-- A task enables the line of TIMER4 and TIMER5, and disables it. -/
theorem not_setOperations : ¬ ∀ (g : Gic) (calls : List GicCall), SetOperations g calls := by
  intro h
  have h := (h ⟨0, 0, 0, 0, fun _ => 0⟩ [enableInterrupt INT_TIMER_4_AND_5, disableInterrupt INT_TIMER_4_AND_5]).line
    INT_TIMER_4_AND_5 (by constructor <;> decide)
  exact absurd h (by decide)

end GicCall

end Td3.Kernel
