/-
Memory with stuck bits: a write leaves the stuck bits of a cell at their level. A cell takes a value whole just where
no bit is stuck at the other level, and takes both a value it holds and its complement just where no bit is stuck.
Writing back what a cell held restores the memory, whatever was written in between.
-/
import Mathlib.Logic.Function.Basic
import Mathlib.Data.BitVec

namespace Td3

/-! ## Cells -/

/-- The stuck bits of a cell, and the level of each. -/
structure Fault (w : Nat) where
  stuck : BitVec w
  level : BitVec w

namespace Fault

variable {w : Nat} {f : Fault w} {v : BitVec w} {b : Nat} {x : Bool}

/-- What the cell holds after a write of `v`. -/
def held (f : Fault w) (v : BitVec w) : BitVec w := (v &&& ~~~f.stuck) ||| (f.level &&& f.stuck)

/-- Bit `b` of the cell can be brought to `x`. -/
def CanHold (f : Fault w) (b : Nat) (x : Bool) : Prop := ∃ v, (f.held v).getLsbD b = x

theorem getLsbD_held (hb : b < w) :
    (f.held v).getLsbD b = if f.stuck.getLsbD b then f.level.getLsbD b else v.getLsbD b := by
  rw [held, BitVec.getLsbD_or, BitVec.getLsbD_and, BitVec.getLsbD_and, BitVec.getLsbD_not, decide_eq_true hb]
  cases f.stuck.getLsbD b with
  | true => simp
  | false => simp

@[simp] theorem held_held : f.held (f.held v) = f.held v := by
  apply BitVec.eq_of_getLsbD_eq
  intro b hb
  rw [getLsbD_held hb, getLsbD_held hb]
  split_ifs <;> rfl

theorem canHold_iff (hb : b < w) : f.CanHold b x ↔ (f.stuck.getLsbD b = true → f.level.getLsbD b = x) := by
  constructor
  · rintro ⟨v, hv⟩ hstuck
    rwa [getLsbD_held hb, if_pos hstuck] at hv
  · intro h
    refine ⟨BitVec.fill w x, ?_⟩
    rw [getLsbD_held hb]
    split_ifs with hstuck
    · exact h hstuck
    · simp [hb]

/-- The cell takes `v` whole. -/
theorem held_eq_iff : f.held v = v ↔ ∀ b < w, f.CanHold b (v.getLsbD b) := by
  constructor
  · intro h b hb
    exact ⟨v, by rw [h]⟩
  · intro h
    apply BitVec.eq_of_getLsbD_eq
    intro b hb
    rw [getLsbD_held hb]
    split_ifs with hstuck
    · exact (canHold_iff hb).mp (h b hb) hstuck
    · rfl

theorem stuck_eq_zero_iff : f.stuck = 0 ↔ ∀ b < w, f.CanHold b false ∧ f.CanHold b true := by
  constructor
  · intro h b hb
    simp [canHold_iff hb, h]
  · intro h
    apply BitVec.eq_of_getLsbD_eq
    intro b hb
    obtain ⟨h0, h1⟩ := h b hb
    rw [canHold_iff hb] at h0 h1
    cases hstuck : f.stuck.getLsbD b with
    | false => simp
    | true => exact absurd ((h0 hstuck).symm.trans (h1 hstuck)) (by decide)

/-- A cell that holds `v` takes the complement too just where no bit is stuck. -/
theorem held_not_iff (h : f.held v = v) : f.held (~~~v) = ~~~v ↔ f.stuck = 0 := by
  rw [held_eq_iff, stuck_eq_zero_iff]
  have hv := held_eq_iff.mp h
  constructor
  · intro hnot b hb
    have h1 := hv b hb
    have h2 := hnot b hb
    rw [BitVec.getLsbD_not, decide_eq_true hb, Bool.true_and] at h2
    cases hbit : v.getLsbD b with
    | false => exact ⟨hbit ▸ h1, by simpa [hbit] using h2⟩
    | true => exact ⟨by simpa [hbit] using h2, hbit ▸ h1⟩
  · intro hboth b hb
    cases (~~~v).getLsbD b with
    | false => exact (hboth b hb).1
    | true => exact (hboth b hb).2

end Fault

/-! ## Memory -/

/-- Cells that hold what their stuck bits allow. -/
@[ext]
structure FaultyMemory (ι : Type) (w : Nat) where
  fault : ι → Fault w
  cells : ι → BitVec w
  cells_held : ∀ i, (fault i).held (cells i) = cells i

namespace FaultyMemory

variable {ι : Type} [DecidableEq ι] {w : Nat} {m : FaultyMemory ι w} {i : ι} {u v : BitVec w}

def write (m : FaultyMemory ι w) (i : ι) (v : BitVec w) : FaultyMemory ι w where
  fault := m.fault
  cells := Function.update m.cells i ((m.fault i).held v)
  cells_held j := by
    by_cases h : j = i
    · rw [h, Function.update_self, Fault.held_held]
    · rw [Function.update_of_ne h]
      exact m.cells_held j

@[simp] theorem fault_write : (m.write i v).fault = m.fault := rfl

@[simp] theorem cells_write_self : (m.write i v).cells i = (m.fault i).held v := Function.update_self ..

theorem write_write : (m.write i u).write i v = m.write i v := by
  refine FaultyMemory.ext rfl ?_
  exact Function.update_idem ..

theorem write_cells_self : m.write i (m.cells i) = m := by
  refine FaultyMemory.ext rfl ?_
  show Function.update m.cells i ((m.fault i).held (m.cells i)) = m.cells
  rw [m.cells_held i, Function.update_eq_self]

/-- What a cell held is restored after any write. -/
theorem write_restore : (m.write i v).write i (m.cells i) = m := by
  rw [write_write, write_cells_self]

end FaultyMemory

end Td3
