/-
Device registers: single bits set and cleared in a word, and what a bit holds after a list of calls
each of which writes it or leaves it alone. What the last call that wrote it put there stays.
-/
import Td3.Lib.Arm

namespace Td3

/-! ## Bits of a word -/

namespace Arm

/-- `reg |= (1U << k)` -/
def setBit (k : Nat) (reg : Word) : Word := reg ||| 1#32 <<< k

/-- `reg &= ~(1U << k)` -/
def clearBit (k : Nat) (reg : Word) : Word := reg &&& ~~~(1#32 <<< k)

theorem getLsbD_one_shiftLeft {j k : Nat} (hj : j < 32) : (1#32 <<< k).getLsbD j = decide (j = k) := by
  rw [BitVec.getLsbD_shiftLeft, BitVec.getLsbD_one]
  rcases Nat.lt_trichotomy j k with h | rfl | h
  · simp [h, h.ne]
  · simp [hj]
  · simp [hj, h.ne', Nat.not_lt.2 h.le, Nat.sub_eq_zero_iff_le, h]

theorem getLsbD_setBit {j k : Nat} (hj : j < 32) (reg : Word) :
    (setBit k reg).getLsbD j = if j = k then true else reg.getLsbD j := by
  rw [setBit, BitVec.getLsbD_or, getLsbD_one_shiftLeft hj]
  split_ifs with h
  · simp [h]
  · simp [h]

theorem getLsbD_clearBit {j k : Nat} (hj : j < 32) (reg : Word) :
    (clearBit k reg).getLsbD j = if j = k then false else reg.getLsbD j := by
  rw [clearBit, BitVec.getLsbD_and, BitVec.getLsbD_not, getLsbD_one_shiftLeft hj]
  split_ifs with h
  · simp [h]
  · simp [h, hj]

end Arm

/-! ## What the last write leaves -/

section
variable {σ α β : Type*} {step : σ → α → σ} {view : σ → β} {set : α → Option β}

/-- Each action overwrites the view with a value of its own, or leaves it. -/
def Overwrites (step : σ → α → σ) (view : σ → β) (set : α → Option β) : Prop :=
  ∀ s a, view (step s a) = (set a).getD (view s)

/-- What the last of the actions that overwrite the view writes. -/
def lastSet (set : α → Option β) (as : List α) : Option β := (as.filterMap set).getLast?

theorem lastSet_concat (as : List α) (a : α) : lastSet set (as ++ [a]) = (set a).or (lastSet set as) := by
  rw [lastSet, lastSet, List.filterMap_append, List.getLast?_append]
  cases h : set a with
  | none => simp [h]
  | some b => simp [h]

theorem lastSet_isSome {as : List α} : (lastSet set as).isSome ↔ ∃ a ∈ as, (set a).isSome := by
  rw [lastSet, List.getLast?_isSome]
  constructor
  · intro hne
    obtain ⟨b, hb⟩ := List.exists_mem_of_ne_nil _ hne
    obtain ⟨a, ha, hab⟩ := List.mem_filterMap.1 hb
    exact ⟨a, ha, Option.isSome_iff_exists.2 ⟨b, hab⟩⟩
  · rintro ⟨a, ha, h⟩
    obtain ⟨b, hab⟩ := Option.isSome_iff_exists.1 h
    exact List.ne_nil_of_mem (List.mem_filterMap.2 ⟨a, ha, hab⟩)

theorem exists_of_lastSet {as : List α} {b : β} (h : lastSet set as = some b) : ∃ a ∈ as, set a = some b :=
  List.mem_filterMap.1 (List.mem_of_getLast? h)

/-- After a list of actions the view is what the last of them that overwrites it wrote. -/
theorem Overwrites.foldl (h : Overwrites step view set) (as : List α) (s : σ) :
    view (as.foldl step s) = (lastSet set as).getD (view s) := by
  induction as using List.reverseRecOn with
  | nil => rfl
  | append_singleton as a ih =>
    rw [List.foldl_append, List.foldl_cons, List.foldl_nil, h, ih, lastSet_concat]
    cases set a with
    | none => rfl
    | some b => rfl

end

end Td3
