/-
Copies into a buffer, one after another: what the buffer holds when each copy starts where the one
before it ended.
-/
import Mathlib.Tactic

namespace Td3.Lib

/-- `memcpy(&buffer[offset], source, length)`. -/
structure Copy where
  offset : Nat
  length : Nat
  source : Nat → UInt8

/-- The copy of a list of bytes. -/
def Copy.ofList (offset : Nat) (bytes : List UInt8) : Copy := ⟨offset, bytes.length, fun i => bytes.getD i 0⟩

def Copy.apply (buffer : Nat → UInt8) (c : Copy) : Nat → UInt8 :=
  fun i => if c.offset ≤ i ∧ i < c.offset + c.length then c.source (i - c.offset) else buffer i

/-- The buffer after copies. -/
def afterCopies (buffer : Nat → UInt8) (copies : List Copy) : Nat → UInt8 := copies.foldl Copy.apply buffer

/-- The buffer starts with these bytes. -/
def Holds (buffer : Nat → UInt8) (bytes : List UInt8) : Prop := ∀ i (h : i < bytes.length), buffer i = bytes[i]

theorem holds_nil (buffer : Nat → UInt8) : Holds buffer [] := fun i h => absurd h (Nat.not_lt_zero i)

/-- A copy behind what the buffer starts with adds its bytes to it. -/
theorem Holds.copy {buffer : Nat → UInt8} {bytes more : List UInt8} (h : Holds buffer bytes) {c : Copy}
    (ho : c.offset = bytes.length) (hl : c.length = more.length) (hs : ∀ i (h : i < more.length), c.source i = more[i]) :
    Holds (Copy.apply buffer c) (bytes ++ more) := by
  intro i hi
  rw [List.length_append] at hi
  unfold Copy.apply
  by_cases hlt : i < bytes.length
  · rw [if_neg (by omega), List.getElem_append_left hlt]
    exact h i hlt
  · rw [if_pos (by omega), List.getElem_append_right (by omega), ho]
    exact hs _ (by omega)

theorem Holds.copy_ofList {buffer : Nat → UInt8} {bytes : List UInt8} (h : Holds buffer bytes) (more : List UInt8) :
    Holds (Copy.apply buffer (Copy.ofList bytes.length more)) (bytes ++ more) := by
  refine h.copy rfl rfl fun i hi => ?_
  change more.getD i 0 = more[i]
  rw [List.getD_eq_getElem?_getD, List.getElem?_eq_getElem hi, Option.getD_some]

/-- Copies leave the buffer behind them as it is. -/
theorem afterCopies_of_ends {copies : List Copy} {i : Nat} (h : ∀ c ∈ copies, c.offset + c.length ≤ i)
    (buffer : Nat → UInt8) : afterCopies buffer copies i = buffer i := by
  induction copies generalizing buffer with
  | nil => rfl
  | cons c copies ih =>
    have hc := h c (List.mem_cons_self ..)
    change afterCopies (Copy.apply buffer c) copies i = buffer i
    rw [ih (fun c hc => h c (List.mem_cons_of_mem _ hc))]
    exact if_neg (by omega)

theorem holds_iff_map_range {buffer : Nat → UInt8} {bytes : List UInt8} :
    Holds buffer bytes ↔ (List.range bytes.length).map buffer = bytes := by
  constructor
  · intro h
    apply List.ext_getElem
    · simp
    · intro i h₁ h₂
      rw [List.getElem_map, List.getElem_range]
      exact h i h₂
  · intro h i hi
    have hget := List.getElem_of_eq h.symm hi
    rw [hget, List.getElem_map, List.getElem_range]

theorem Holds.left {buffer : Nat → UInt8} {bytes more : List UInt8} (h : Holds buffer (bytes ++ more)) :
    Holds buffer bytes := fun i hi => by
  rw [h i (by rw [List.length_append]; omega), List.getElem_append_left hi]

/-- Of two lists a buffer starts with, one goes on as the other. -/
theorem Holds.prefix_or_prefix {buffer : Nat → UInt8} {bytes bytes' : List UInt8} (h : Holds buffer bytes)
    (h' : Holds buffer bytes') : bytes <+: bytes' ∨ bytes' <+: bytes := by
  rw [← holds_iff_map_range.1 h, ← holds_iff_map_range.1 h']
  rcases Nat.le_total bytes.length bytes'.length with hle | hle
  · left
    obtain ⟨k, hk⟩ := Nat.exists_eq_add_of_le hle
    rw [hk, List.range_add, List.map_append]
    exact List.prefix_append _ _
  · right
    obtain ⟨k, hk⟩ := Nat.exists_eq_add_of_le hle
    rw [hk, List.range_add, List.map_append]
    exact List.prefix_append _ _

end Td3.Lib
