/-
Ring buffers: cells written in turn, the write index going back to the first cell behind the last one. Read from
the write index on, the cells are the last values written, oldest first, whatever the index was at the start.
-/
import Mathlib.Data.List.Rotate

namespace Td3

/-- Cells, and the index of the one that is written next. -/
structure Ring (α : Type) where
  cells : List α
  index : Nat
  index_lt : index < cells.length

namespace Ring

variable {α : Type}

/-- The index behind this one. -/
def next (index length : Nat) : Nat := if length ≤ index + 1 then 0 else index + 1

theorem next_eq_mod {index length : Nat} (h : index < length) : next index length = (index + 1) % length := by
  unfold next
  split
  · rw [show index + 1 = length by omega, Nat.mod_self]
  · exact (Nat.mod_eq_of_lt (by omega)).symm

theorem next_lt {index length : Nat} (h : index < length) : next index length < length := by
  rw [next_eq_mod h]
  exact Nat.mod_lt _ (by omega)

theorem push_index_lt (r : Ring α) (x : α) : next r.index r.cells.length < (r.cells.set r.index x).length := by
  rw [List.length_set]
  exact next_lt r.index_lt

/-- The oldest value is overwritten. -/
def push (r : Ring α) (x : α) : Ring α where
  cells := r.cells.set r.index x
  index := next r.index r.cells.length
  index_lt := r.push_index_lt x

def pushAll (r : Ring α) (xs : List α) : Ring α := xs.foldl push r

/-- The values, oldest first. -/
def contents (r : Ring α) : List α := r.cells.rotate r.index

theorem length_contents (r : Ring α) : r.contents.length = r.cells.length := List.length_rotate ..

theorem contents_perm (r : Ring α) : r.contents.Perm r.cells := List.rotate_perm ..

theorem length_cells_push (r : Ring α) (x : α) : (r.push x).cells.length = r.cells.length := List.length_set ..

theorem contents_push (r : Ring α) (x : α) : (r.push x).contents = r.contents.tail ++ [x] := by
  have hlt := r.index_lt
  have hpush : (r.push x).contents = (r.cells.set r.index x).rotate (r.index + 1) := by
    unfold contents push
    simp only
    rw [next_eq_mod hlt, ← List.rotate_mod (r.cells.set r.index x) (r.index + 1), List.length_set]
  have hrest : r.contents.tail = r.cells.drop (r.index + 1) ++ r.cells.take r.index := by
    rw [contents, List.rotate_eq_drop_append_take hlt.le, List.drop_eq_getElem_cons hlt, List.cons_append,
      List.tail_cons]
  rw [hpush, hrest, List.rotate_eq_drop_append_take (by rw [List.length_set]; omega), List.drop_set_of_lt (by omega),
    List.take_set, List.take_succ_eq_append_getElem hlt, List.append_assoc]
  congr 1
  rw [List.set_append_right _ _ (by rw [List.length_take]; omega), List.length_take, Nat.min_eq_left hlt.le,
    Nat.sub_self, List.set_cons_zero]

/-- After any number of values the contents are the last ones of what was there and what was written. -/
theorem contents_pushAll (r : Ring α) (xs : List α) : (r.pushAll xs).contents = (r.contents ++ xs).drop xs.length := by
  induction xs generalizing r with
  | nil => simp [pushAll]
  | cons x xs ih =>
    have hne : r.contents ≠ [] := by
      apply List.ne_nil_of_length_pos
      rw [length_contents]
      exact Nat.zero_lt_of_lt r.index_lt
    have hih := ih (r.push x)
    rw [contents_push] at hih
    obtain ⟨oldest, rest, hcontents⟩ := List.exists_cons_of_ne_nil hne
    rw [hcontents, List.tail_cons] at hih
    rw [pushAll, List.foldl_cons, ← pushAll, hih, hcontents, List.length_cons, List.cons_append, List.drop_succ_cons,
      List.append_assoc]
    rfl

end Ring

end Td3
