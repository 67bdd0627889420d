/-
What `TempSensor::read_sensor` (server/src/temp_sensor.cpp) publishes, with exact rationals for `float`: from the
iteration on that finds a new window size, the mean of the last readings, the window being filled up with 25. The
locals `temps` and `current_sample` are a ring buffer, started anywhere in the window.

An iteration that finds a size of 0 starts no window: where the size before it comes back, so do its readings.
-/
import Td3.Lib.Ring
import Td3.Server.TempSensor

namespace Td3.Server

open Td3.Decimal

/-! ## What is published -/

/-- The iterations of the loop. -/
def Sampling.run : Sampling → List Iteration → Sampling
  | s, [] => s
  | s, it :: its => (s.iterate it).run its

/-- The readings of the iterations. -/
def readings (its : List Iteration) : List ℚ := its.map fun it => atof it.strTemp

/-- The size of the last iteration that had a window. -/
def lastSize (its : List Iteration) : Option Nat := ((its.map (·.samples)).filter (· ≠ 0)).getLast?

/-- The mean of the last readings of a window of `n`, with 25 for those that it lacks. -/
def windowMean (n : Nat) (xs : List ℚ) : ℚ := ((xs.drop (xs.length - n)).sum + 25 * ((n - xs.length : Nat) : ℚ)) / n

theorem lastSize_cons (it : Iteration) (its : List Iteration) :
    lastSize (it :: its) = (lastSize its).or (if it.samples = 0 then none else some it.samples) := by
  unfold lastSize
  by_cases h0 : it.samples = 0
  · simp [h0]
  · rw [List.map_cons, List.filter_cons_of_pos (by simpa using h0), List.getLast?_cons, if_neg h0]
    cases ((its.map (·.samples)).filter (· ≠ 0)).getLast? <;> rfl

/-- The loop remembers the size of the last window. -/
theorem Sampling.run_prevSamples (s : Sampling) (its : List Iteration) :
    (s.run its).prevSamples = (lastSize its).getD s.prevSamples := by
  induction its generalizing s with
  | nil => rfl
  | cons it its ih =>
    rw [Sampling.run, ih, lastSize_cons]
    have hnext : (s.iterate it).prevSamples = if it.samples = 0 then s.prevSamples else it.samples := by
      unfold Sampling.iterate
      split <;> rfl
    rw [hnext]
    cases lastSize its with
    | none => split <;> rfl
    | some n => rfl

/-! ## The window as a ring -/

/-- The loop holds the ring as a window of `n`, and has published its mean. -/
structure Sampling.Holds (s : Sampling) (n : Nat) (r : Ring ℚ) : Prop where
  temps : s.temps = r.cells
  index : s.currentSample = r.index
  size : s.prevSamples = n
  length : r.cells.length = n
  published : s.shmTemp = r.contents.sum / n

/-- An iteration writes its reading into the ring that it finds as its window. -/
theorem Sampling.holds_iterate {s : Sampling} {it : Iteration} {r : Ring ℚ} (hwindow : s.window it = r.cells)
    (hindex : s.currentSample = r.index) (hlength : r.cells.length = it.samples) :
    (s.iterate it).Holds it.samples (r.push (atof it.strTemp)) := by
  have hne : it.samples ≠ 0 := by
    have hlt := r.index_lt
    omega
  have hpush : (r.push (atof it.strTemp)).cells.length = it.samples := (r.length_cells_push _).trans hlength
  unfold Sampling.iterate
  rw [if_neg hne]
  constructor
  · show (s.window it).set s.currentSample (atof it.strTemp) = r.cells.set r.index (atof it.strTemp)
    rw [hwindow, hindex]
  · show s.nextSample it = Ring.next r.index r.cells.length
    rw [Sampling.nextSample, hindex, Ring.next, hlength]
  · rfl
  · exact hpush
  · show (((s.window it).set s.currentSample (atof it.strTemp)).take it.samples).sum / (it.samples : ℚ) = _
    have hcells : (s.window it).set s.currentSample (atof it.strTemp) = (r.push (atof it.strTemp)).cells := by
      rw [hwindow, hindex]
      rfl
    rw [hcells, List.take_of_length_le hpush.le, (Ring.contents_perm _).sum_eq]

/-- While the size stays, each iteration pushes its reading. -/
theorem Sampling.Holds.run {s : Sampling} {n : Nat} {r : Ring ℚ} (h : s.Holds n r) {its : List Iteration}
    (hsize : ∀ it ∈ its, it.samples = n) : (s.run its).Holds n (r.pushAll (readings its)) := by
  induction its generalizing s r with
  | nil => exact h
  | cons it its ih =>
    have hn : it.samples = n := hsize it List.mem_cons_self
    have hwindow : s.window it = r.cells := by
      rw [Sampling.window, if_pos (h.size.trans hn.symm)]
      exact h.temps
    have hnext := Sampling.holds_iterate hwindow h.index (h.length.trans hn.symm)
    rw [hn] at hnext
    exact ih hnext fun it hit => hsize it (List.mem_cons_of_mem _ hit)

/-- The mean of a ring that was filled with 25 at first. -/
theorem sum_contents_pushAll {r : Ring ℚ} {n : Nat} (hcells : r.cells = List.replicate n 25) (xs : List ℚ) :
    (r.pushAll xs).contents.sum / n = windowMean n xs := by
  have hcontents : r.contents = List.replicate n 25 := by rw [Ring.contents, hcells, List.rotate_replicate]
  rw [Ring.contents_pushAll, hcontents, List.drop_append, List.length_replicate, List.drop_replicate, List.sum_append,
    List.sum_replicate, nsmul_eq_mul, windowMean]
  congr 1
  ring

/-- A new window publishes the mean of the readings. -/
theorem Sampling.run_new_window {s : Sampling} {its : List Iteration} {n : Nat} (hne : its ≠ [])
    (hsize : ∀ it ∈ its, it.samples = n) (hnew : s.prevSamples ≠ n) (hindex : s.currentSample < n)
    (halloc : ∀ it ∈ its.head?, it.allocates = true) : (s.run its).shmTemp = windowMean n (readings its) := by
  obtain ⟨it, rest, rfl⟩ := List.exists_cons_of_ne_nil hne
  obtain rfl : it.samples = n := hsize it List.mem_cons_self
  have hwindow : s.window it = List.replicate it.samples 25 := by
    rw [Sampling.window, if_neg hnew, if_pos (halloc it rfl)]
  let r : Ring ℚ := ⟨List.replicate it.samples 25, s.currentSample, by rwa [List.length_replicate]⟩
  have hfirst : (s.iterate it).Holds it.samples (r.push (atof it.strTemp)) :=
    Sampling.holds_iterate hwindow rfl List.length_replicate
  have hrun := hfirst.run fun it hit => hsize it (List.mem_cons_of_mem _ hit)
  rw [Sampling.run, hrun.published]
  exact sum_contents_pushAll (r := r) rfl (readings (it :: rest))

/-- After each iteration from the one on that finds a new window size, with the write index below it, what is
published is the mean of the last readings. -/
theorem movingAverage_windowMean {pre its : List Iteration} {n : Nat} (hne : its ≠ [])
    (hsize : ∀ it ∈ its, it.samples = n) (hnew : lastSize pre ≠ some n) (hn : 1 ≤ n)
    (hindex : (Sampling.run {} pre).currentSample < n) (halloc : ∀ it ∈ its.head?, it.allocates = true) :
    ((Sampling.run {} pre).run its).shmTemp = windowMean n (readings its) := by
  have hprev : (Sampling.run {} pre).prevSamples ≠ n := by
    rw [Sampling.run_prevSamples]
    cases hlast : lastSize pre with
    | none => exact fun h => absurd h (Nat.ne_of_lt hn)
    | some m => exact fun h => hnew (hlast.trans (congrArg some h))
  exact Sampling.run_new_window hne hsize hprev hindex halloc

/-- A window of 1 and then one of 2 -/
theorem movingAverage_windowMean_two :
    ((Sampling.run {} [{ samples := 1 }]).run [{ samples := 2 }, { samples := 2 }, { samples := 2 }]).shmTemp =
      windowMean 2 [0, 0, 0] := by
  have h0 : atof [] = 0 := by simp [atof, readSign, readFraction]
  have hindex : (Sampling.run {} [{ samples := 1 }]).currentSample < 2 := by decide
  have hmean : ((Sampling.run {} [{ samples := 1 }]).run
      [{ samples := 2 }, { samples := 2 }, { samples := 2 }]).shmTemp = windowMean 2 (readings _) :=
    movingAverage_windowMean (by simp) (by simp) (by decide) (by decide) hindex (by simp)
  simpa [readings, h0] using hmean

/-- The sizes 2, 2, 0 and 2, and readings of 0: the fourth iteration starts no new window. -/
theorem not_movingAverage_windowMean :
    ¬ ∀ (pre its : List Iteration) (n : Nat), its ≠ [] → (∀ it ∈ pre ++ its, it.allocates = true) →
      (∀ it ∈ its, it.samples = n) → (∀ it ∈ pre.getLast?, it.samples ≠ n) → 1 ≤ n →
      (Sampling.run {} pre).currentSample < n →
      ((Sampling.run {} pre).run its).shmTemp = windowMean n (readings its) := by
  intro h
  have hmean := h [{ samples := 2 }, { samples := 2 }, { samples := 0 }] [{ samples := 2 }] 2 (by simp) (by simp)
    (by simp) (by simp) (by decide) (by decide)
  have h0 : atof [] = 0 := by simp [atof, readSign, readFraction]
  norm_num [Sampling.run, Sampling.iterate, Sampling.window, Sampling.nextSample, windowMean, readings, h0] at hmean

end Td3.Server
