/-
`TempSensor::read_sensor` (server/src/temp_sensor.cpp) as iterations over its locals, with the elements of
`temps` that each one reads and writes.

`current_sample` outlives a change of the window: it is wrapped at the end of an iteration, against the
size of that one.
-/
import Td3.Lib.Decimal

namespace Td3.Server

open Td3.Decimal

/-! ## The source functions -/

/-- The locals of `read_sensor`, and `shm[0].temp`, with exact rationals for `float`. An array of no
elements stands for NULL. -/
structure Sampling where
  temps : List ℚ := []
  currentSample : Nat := 0
  prevSamples : Nat := 0
  shmTemp : ℚ := 0
deriving DecidableEq

/-- What an iteration finds: `samples_moving_average_filter`, whether a `reallocarray()` succeeds, and
`str_temp` after the `read()`. -/
structure Iteration where
  samples : Nat
  allocates : Bool := true
  strTemp : List UInt8 := []

/-- An access to `temps[index]` while it has this many elements -/
structure Access where
  index : Nat
  allocated : Nat
deriving DecidableEq, Repr

/-- `temps` at the `read()`: a new window starts with all its elements at 25. -/
def Sampling.window (s : Sampling) (it : Iteration) : List ℚ :=
  if s.prevSamples = it.samples then s.temps else if it.allocates then List.replicate it.samples 25 else []

/-- The accesses of an iteration, in their order. -/
def Sampling.accesses (s : Sampling) (it : Iteration) : List Access :=
  if it.samples = 0 then []
  else
    let allocated := (s.window it).length
    (if s.prevSamples = it.samples then [] else (List.range it.samples).map fun i => ⟨i, allocated⟩) ++
      ⟨s.currentSample, allocated⟩ :: (List.range it.samples).map fun i => ⟨i, allocated⟩

/-- `current_sample` after the `next:` label. -/
def Sampling.nextSample (s : Sampling) (it : Iteration) : Nat :=
  if it.samples ≤ s.currentSample + 1 then 0 else s.currentSample + 1

/-- An iteration of the loop. -/
def Sampling.iterate (s : Sampling) (it : Iteration) : Sampling :=
  if it.samples = 0 then { s with currentSample := s.nextSample it }
  else
    let temps := (s.window it).set s.currentSample (atof it.strTemp)
    { temps
      currentSample := s.nextSample it
      prevSamples := it.samples
      shmTemp := (temps.take it.samples).sum / it.samples }

/-- The accesses of a run of the loop. -/
def Sampling.allAccesses : Sampling → List Iteration → List Access
  | _, [] => []
  | s, it :: its => s.accesses it ++ (s.iterate it).allAccesses its

/-! ## Accesses in range -/

def Access.InRange (a : Access) : Prop := a.index < a.allocated

/-- The iteration does nothing, or has a window that holds the write index. -/
def Sampling.Fits (s : Sampling) (it : Iteration) : Prop :=
  it.samples = 0 ∨ (s.prevSamples = it.samples ∨ it.allocates = true) ∧ s.currentSample < it.samples

instance (s : Sampling) (it : Iteration) : Decidable (s.Fits it) := inferInstanceAs (Decidable (_ ∨ _))

/-- Every iteration of a run fits. -/
def Sampling.AllFit : Sampling → List Iteration → Prop
  | _, [] => True
  | s, it :: its => s.Fits it ∧ (s.iterate it).AllFit its

/-- The window has the size of the last iteration that used it. -/
def Sampling.Sized (s : Sampling) : Prop := s.temps.length = s.prevSamples

/-- With the window sized, it has `samples` elements in an iteration that has one. -/
theorem Sampling.Sized.window {s : Sampling} (h : s.Sized) {it : Iteration}
    (ha : s.prevSamples = it.samples ∨ it.allocates = true) : (s.window it).length = it.samples := by
  unfold Sampling.window
  split
  · rename_i heq
    rw [← heq]
    exact h
  · rename_i hne
    rw [if_pos (ha.resolve_left hne), List.length_replicate]

theorem Sampling.Sized.iterate {s : Sampling} (h : s.Sized) {it : Iteration} (hf : s.Fits it) :
    (s.iterate it).Sized := by
  unfold Sampling.iterate
  split
  · exact h
  · rename_i hne
    have hlength := h.window (hf.resolve_left hne).1
    simpa [Sampling.Sized] using hlength

/-- An iteration stays in range exactly where it fits. -/
theorem Sampling.Sized.accesses_iff {s : Sampling} (h : s.Sized) (it : Iteration) :
    (∀ a ∈ s.accesses it, a.InRange) ↔ s.Fits it := by
  unfold Sampling.accesses Sampling.Fits
  split
  · rename_i h0
    simp [h0]
  · rename_i hne
    simp only [hne, false_or, List.mem_append, List.mem_cons]
    constructor
    · intro hrange
      have hwrite : s.currentSample < (s.window it).length := hrange ⟨_, _⟩ (.inr (.inl rfl))
      -- without its memory the window has no elements at all
      have halloc : s.prevSamples = it.samples ∨ it.allocates = true := by
        by_contra hnone
        push Not at hnone
        rw [Sampling.window, if_neg hnone.1, if_neg hnone.2] at hwrite
        exact absurd hwrite (Nat.not_lt_zero _)
      refine ⟨halloc, ?_⟩
      rw [h.window halloc] at hwrite
      exact hwrite
    · rintro ⟨halloc, hindex⟩ a ha
      have hlength := h.window halloc
      rw [hlength] at ha
      rcases ha with ha | rfl | ha
      · split at ha
        · cases ha
        · obtain ⟨i, hi, rfl⟩ := List.mem_map.1 ha
          exact List.mem_range.1 hi
      · exact hindex
      · obtain ⟨i, hi, rfl⟩ := List.mem_map.1 ha
        exact List.mem_range.1 hi

theorem Sampling.Sized.allAccesses_iff {s : Sampling} (h : s.Sized) (its : List Iteration) :
    (∀ a ∈ s.allAccesses its, a.InRange) ↔ s.AllFit its := by
  induction its generalizing s with
  | nil => simp [Sampling.allAccesses, Sampling.AllFit]
  | cons it its ih =>
    rw [Sampling.allAccesses, Sampling.AllFit, List.forall_mem_append, h.accesses_iff]
    refine and_congr_right fun hf => ?_
    exact ih (h.iterate hf)

/-- The thread stays inside `temps` exactly when every iteration with a window gets it, and starts with the
write index below its size. -/
theorem accesses_inRange_iff (its : List Iteration) :
    (∀ a ∈ Sampling.allAccesses {} its, a.InRange) ↔ Sampling.AllFit {} its := by
  have h : Sampling.Sized {} := rfl
  exact h.allAccesses_iff its

/-- A window of 5 and, four readings later, one of 2: the write goes to `temps[4]`. -/
theorem not_accesses_inRange :
    ¬ ∀ its : List Iteration, (∀ it ∈ its, it.allocates = true) → ∀ a ∈ Sampling.allAccesses {} its, a.InRange := by
  intro h
  have hits := h (List.replicate 4 { samples := 5 } ++ [{ samples := 2 }]) (by simp)
  rw [accesses_inRange_iff] at hits
  exact absurd hits.2.2.2.2.1 (by decide)

/-! ## Windows that are in range -/

/-- The write index is below the window that the next iteration of the same size finds. -/
theorem Sampling.nextSample_lt (s : Sampling) {it : Iteration} (h : it.samples ≠ 0) :
    s.nextSample it < it.samples := by
  unfold Sampling.nextSample
  split <;> omega

/-- A window that only grows, and always gets its memory, is never left. -/
theorem Sampling.Sized.of_growing {s : Sampling} (h : s.Sized) {its : List Iteration}
    (halloc : ∀ it ∈ its, it.allocates = true) (hgrow : (its.map (·.samples)).Pairwise (· ≤ ·))
    (hindex : ∀ it ∈ its, it.samples = 0 ∨ s.currentSample < it.samples) :
    ∀ a ∈ s.allAccesses its, a.InRange := by
  rw [h.allAccesses_iff]
  induction its generalizing s with
  | nil => trivial
  | cons it its ih =>
    rw [List.map_cons, List.pairwise_cons] at hgrow
    have hfits : s.Fits it :=
      (hindex it List.mem_cons_self).imp id fun hlt => ⟨.inr (halloc it List.mem_cons_self), hlt⟩
    refine ⟨hfits, ih (h.iterate hfits) (fun it' hit' => halloc it' (List.mem_cons_of_mem _ hit')) hgrow.2 ?_⟩
    intro it' hit'
    have hle : it.samples ≤ it'.samples := hgrow.1 _ (List.mem_map_of_mem hit')
    by_cases h0 : it'.samples = 0
    · exact .inl h0
    · right
      have hnext : (s.iterate it).currentSample = s.nextSample it := by
        unfold Sampling.iterate
        split <;> rfl
      rw [hnext]
      by_cases hit0 : it.samples = 0
      · have : s.nextSample it = 0 := if_pos (by omega)
        omega
      · have := s.nextSample_lt hit0
        omega

end Td3.Server
