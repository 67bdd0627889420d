/-
`Sem` (server/lib_src/sem.cpp) as the bracket of a section, `sem--; section; sem++`, in any number of
processes: the accept children, the parent in `update_configuration`, the sensor thread.

The two operators drop what `Sem::op` returns, so a process whose `semop()` was interrupted by a signal
enters its section without having decremented the semaphore.
-/
import Td3.Lib.Run
import Mathlib.Tactic

namespace Td3.Server

/-! ## The source functions -/

/-- How a call of `semop()` ends: the operation was done, or a signal handler ran (`EINTR`). -/
inductive SemopResult where
  | done
  | interrupted
deriving DecidableEq, Repr

/-- `semop(semid, &sop, 1)` with this `sem_op`: the returned `int` and the semaphore's value; `none`
while it blocks. -/
def semop (value : Nat) (semOp : Int) : SemopResult → Option (Int × Nat)
  | .done => if 0 ≤ value + semOp then some (0, (value + semOp).toNat) else none
  | .interrupted => some (-1, value)

/-- `Sem::op(op)` -/
def Sem.op (value : Nat) (op : Int) (result : SemopResult) : Option (Int × Nat) :=
  (semop value op result).map fun (ret, value) => (if ret = -1 then -1 else 0, value)

theorem Sem.op_down (value : Nat) : Sem.op value (-1) .done = if 0 < value then some (0, value - 1) else none := by
  unfold Sem.op semop
  by_cases h : 0 < value
  · have h0 : (0 : Int) ≤ value + -1 := by omega
    have hsub : ((value : Int) + -1).toNat = value - 1 := by omega
    rw [if_pos h, if_pos h0, hsub]
    rfl
  · have h0 : ¬ (0 : Int) ≤ value + -1 := by omega
    rw [if_neg h, if_neg h0]
    rfl

theorem Sem.op_up (value : Nat) : Sem.op value 1 .done = some (0, value + 1) := by
  unfold Sem.op semop
  have h0 : (0 : Int) ≤ value + 1 := by omega
  rw [if_pos h0]
  rfl

/-- Where a process is; each operator is its `op` and then its `get`. -/
inductive Place where
  | outside
  | dec
  | decGet
  | critical
  | inc
  | incGet
deriving DecidableEq, Repr

/-- The semaphore and the processes. `Sem::Sem` sets a new semaphore to 1. -/
structure Sections (ι : Type) where
  value : Nat := 1
  place : ι → Place := fun _ => .outside

section
variable {ι : Type} [DecidableEq ι]

def Sections.move (s : Sections ι) (i : ι) (p : Place) : Sections ι := { s with place := Function.update s.place i p }

@[simp] theorem Sections.move_self (s : Sections ι) (i : ι) (p : Place) : (s.move i p).place i = p :=
  Function.update_self ..

theorem Sections.move_other (s : Sections ι) {i j : ι} (h : j ≠ i) (p : Place) : (s.move i p).place j = s.place j :=
  Function.update_of_ne h ..

/-- The next step of process `i`; `result` is that of its `semop()`, if it is at one. -/
def sectionStep (s : Sections ι) : ι × SemopResult → Option (Sections ι)
  | (i, result) =>
    match s.place i with
    | .outside => some (s.move i .dec)
    -- what `op` returned is dropped
    | .dec => (Sem.op s.value (-1) result).map fun (_, value) => { s.move i .decGet with value := value }
    | .decGet => some (s.move i .critical)
    | .critical => some (s.move i .inc)
    | .inc => (Sem.op s.value 1 result).map fun (_, value) => { s.move i .incGet with value := value }
    | .incGet => some (s.move i .outside)

/-! ## Mutual exclusion -/

/-- At most one process is in its section, and the semaphore is at 0 or 1. -/
def Sections.Exclusive (s : Sections ι) : Prop :=
  (∀ i j, s.place i = .critical → s.place j = .critical → i = j) ∧ (s.value = 0 ∨ s.value = 1)

/-- Behind its `op(-1)` and not yet behind its `op(1)`. -/
def Place.holds : Place → Bool
  | .decGet | .critical | .inc => true
  | _ => false

/-- An `op(-1)` is interrupted only where the semaphore is at 0 and no process is to increment it. -/
def Sections.Sound (s : Sections ι) (a : ι × SemopResult) : Prop :=
  s.place a.1 = .dec → a.2 = .interrupted → s.value = 0 ∧ ∀ j, (s.place j).holds = false

/-- The semaphore and its holders make one at most. -/
structure Sections.Inv (s : Sections ι) : Prop where
  value : s.value ≤ 1
  one : ∀ i, (s.place i).holds = true → s.value = 0 ∧ ∀ j, (s.place j).holds = true → j = i

omit [DecidableEq ι] in
theorem Sections.Inv.exclusive {s : Sections ι} (h : s.Inv) : s.Exclusive := by
  refine ⟨fun i j hi hj => ?_, by have := h.value; omega⟩
  exact (h.one j (by rw [hj]; rfl)).2 i (by rw [hi]; rfl)

omit [DecidableEq ι] in
theorem Sections.Inv.init : Sections.Inv ({} : Sections ι) := ⟨le_refl 1, nofun⟩

/-- A process that holds as much as before. -/
theorem Sections.Inv.move {s : Sections ι} (h : s.Inv) {i : ι} {p : Place} (hp : p.holds = (s.place i).holds) :
    (s.move i p).Inv := by
  have hh : ∀ j, ((s.move i p).place j).holds = (s.place j).holds := by
    intro j
    rcases eq_or_ne j i with rfl | hj
    · rw [s.move_self, hp]
    · rw [s.move_other hj]
  refine ⟨h.value, fun j hj => ?_⟩
  simp only [hh] at hj ⊢
  exact h.one j hj

/-- What a step does to the semaphore. -/
theorem sectionStep_cases {s t : Sections ι} {i : ι} {result : SemopResult} (h : sectionStep s (i, result) = some t) :
    (∃ p, p.holds = (s.place i).holds ∧ s.place i ≠ .dec ∧ t = s.move i p) ∨
    (s.place i = .dec ∧ result = .done ∧ 0 < s.value ∧ t = { s.move i .decGet with value := s.value - 1 }) ∨
    (s.place i = .dec ∧ result = .interrupted ∧ t = s.move i .decGet) ∨
    (s.place i = .inc ∧ result = .done ∧ t = { s.move i .incGet with value := s.value + 1 }) ∨
    (s.place i = .inc ∧ result = .interrupted ∧ t = s.move i .incGet) := by
  unfold sectionStep at h
  cases hp : s.place i with
  | outside | decGet | critical | incGet =>
    simp only [hp, Option.some.injEq] at h
    refine .inl ⟨_, ?_, nofun, h.symm⟩
    rfl
  | dec =>
    cases result with
    | done =>
      simp only [hp, Sem.op_down] at h
      by_cases hv : 0 < s.value
      · simp only [if_pos hv, Option.map_some, Option.some.injEq] at h
        exact .inr (.inl ⟨rfl, rfl, hv, h.symm⟩)
      · simp only [if_neg hv, Option.map_none] at h
        cases h
    | interrupted =>
      simp only [hp] at h
      cases h
      exact .inr (.inr (.inl ⟨rfl, rfl, rfl⟩))
  | inc =>
    cases result with
    | done =>
      simp only [hp, Sem.op_up, Option.map_some, Option.some.injEq] at h
      exact .inr (.inr (.inr (.inl ⟨rfl, rfl, h.symm⟩)))
    | interrupted =>
      simp only [hp] at h
      cases h
      exact .inr (.inr (.inr (.inr ⟨rfl, rfl, rfl⟩)))

theorem Sections.Inv.step {s t : Sections ι} {a : ι × SemopResult} (h : s.Inv) (hg : s.Sound a)
    (hs : sectionStep s a = some t) : t.Inv := by
  obtain ⟨i, result⟩ := a
  rcases sectionStep_cases hs with ⟨p, hp, -, rfl⟩ | ⟨hd, -, hv, rfl⟩ | ⟨hd, hr, rfl⟩ | ⟨hi, -, rfl⟩ | ⟨hi, -, rfl⟩
  · exact h.move hp
  · have hv1 := h.value
    refine ⟨by simp only; omega, fun j hj => ⟨by simp only; omega, fun k hk => ?_⟩⟩
    -- the one the semaphore stood for is `i` now
    have honly : ∀ k, ((s.move i .decGet).place k).holds = true → k = i := by
      intro k hk
      by_contra hne
      rw [s.move_other hne] at hk
      have := (h.one k hk).1
      omega
    rw [honly j hj, honly k hk]
  · obtain ⟨hv, hnone⟩ := hg hd hr
    have honly : ∀ k, ((s.move i .decGet).place k).holds = true → k = i := by
      intro k hk
      by_contra hne
      rw [s.move_other hne, hnone k] at hk
      cases hk
    exact ⟨h.value, fun j hj => ⟨hv, fun k hk => by rw [honly j hj, honly k hk]⟩⟩
  all_goals
    obtain ⟨hv, honly⟩ := h.one i (by rw [hi]; rfl)
    have hnone : ∀ k, ((s.move i .incGet).place k).holds = false := by
      intro k
      rcases eq_or_ne k i with rfl | hk
      · rw [s.move_self]
        rfl
      · rw [s.move_other hk, ← Bool.not_eq_true]
        exact fun hh => hk (honly k hh)
    refine ⟨?_, fun j hj => ?_⟩
    · simp only [Sections.move, hv]
      omega
    · rw [hnone j] at hj
      cases hj

/-- In every run whose interrupted `op(-1)`s are sound, at most one process is in its section and the
semaphore is at 0 or 1. -/
theorem sections_exclusive {s : Sections ι} (h : Run sectionStep Sections.Sound {} s) : s.Exclusive :=
  (h.invariant Sections.Inv.init fun _ _ _ hi hg hs => hi.step hg hs).exclusive

/-! ## An interrupted `op(-1)` elsewhere -/

/-- A process that holds goes on to increment the semaphore. -/
theorem Sections.release {s : Sections ι} {i : ι} (h : (s.place i).holds = true) :
    ∃ t, Run sectionStep Sections.Sound s t ∧ t.value = s.value + 1 ∧ ∀ j, j ≠ i → t.place j = s.place j := by
  have hsound {u : Sections ι} (hu : u.place i ≠ .dec) : u.Sound (i, .done) := fun hd => absurd hd hu
  have hinc : ∀ u : Sections ι, u.place i = .inc → ∃ t, Run sectionStep Sections.Sound u t ∧ t.value = u.value + 1 ∧
      ∀ j, j ≠ i → t.place j = u.place j := by
    intro u hu
    refine ⟨{ u.move i .incGet with value := u.value + 1 },
      Run.start.step (i, .done) (hsound (by rw [hu]; nofun)) ?_, rfl,
      fun j hj => u.move_other hj _⟩
    simp only [sectionStep, hu, Sem.op, semop]
    rw [if_pos (by omega)]
    rfl
  have hcrit : ∀ u : Sections ι, u.place i = .critical → ∃ t, Run sectionStep Sections.Sound u t ∧
      t.value = u.value + 1 ∧ ∀ j, j ≠ i → t.place j = u.place j := by
    intro u hu
    obtain ⟨t, ht, hv, hj⟩ := hinc (u.move i .inc) (u.move_self i _)
    refine ⟨t, (Run.start.step (i, .done) (hsound (by rw [hu]; nofun)) ?_).trans ht, hv, fun j hne => ?_⟩
    · simp only [sectionStep, hu]
    · rw [hj j hne, u.move_other hne]
  cases hp : s.place i with
  | decGet =>
    obtain ⟨t, ht, hv, hj⟩ := hcrit (s.move i .critical) (s.move_self i _)
    refine ⟨t, (Run.start.step (i, .done) (hsound (by rw [hp]; nofun)) ?_).trans ht, hv, fun j hne => ?_⟩
    · simp only [sectionStep, hp]
    · rw [hj j hne, s.move_other hne]
  | critical => exact hcrit s hp
  | inc => exact hinc s hp
  | _ =>
    rw [hp] at h
    cases h

/-- The condition is exact: after a step from a state that sound steps reached, everything that sound
steps reach is exclusive if and only if the step was sound. -/
theorem sound_iff {s t : Sections ι} (h : Run sectionStep Sections.Sound {} s) {a : ι × SemopResult}
    (ht : sectionStep s a = some t) :
    (∀ u, Run sectionStep Sections.Sound t u → u.Exclusive) ↔ s.Sound a := by
  constructor
  · intro hall hd hr
    by_contra hne
    obtain ⟨i, result⟩ := a
    obtain rfl : t = s.move i .decGet := by
      rcases sectionStep_cases ht with ⟨-, -, hi, -⟩ | ⟨-, hr', -⟩ | ⟨-, -, rfl⟩ | ⟨hi, -⟩ | ⟨hi, -⟩
      · exact absurd hd hi
      · cases hr.symm.trans hr'
      · rfl
      · cases hi.symm.trans hd
      · cases hi.symm.trans hd
    obtain ⟨u, hu, hv, hother⟩ := (s.move i .decGet).release (i := i) (by rw [s.move_self]; rfl)
    rcases Nat.eq_zero_or_pos s.value with h0 | h0
    · obtain ⟨j, hj⟩ : ∃ j, (s.place j).holds = true := by
        by_contra hnone
        push Not at hnone
        exact hne ⟨h0, fun j => by simpa using hnone j⟩
      have hji : j ≠ i := by
        rintro rfl
        rw [hd] at hj
        cases hj
      obtain ⟨w, hw, hwv, -⟩ := u.release (i := j) (by rw [hother j hji, s.move_other hji]; exact hj)
      have := (hall w (hu.trans hw)).2
      simp only [Sections.move] at hv
      omega
    · have := (hall u hu).2
      simp only [Sections.move] at hv
      omega
  · intro hg u hu
    exact sections_exclusive ((h.step a hg ht).trans hu)

end

/-! ## Two processes -/

instance (s : Sections (Fin 2)) (a : Fin 2 × SemopResult) : Decidable (s.Sound a) := by
  unfold Sections.Sound
  infer_instance

/-- The first process enters and leaves, the second enters after it. -/
theorem sections_exclusive_in_turn : ∃ s : Sections (Fin 2), s.place 1 = .critical ∧ s.Exclusive := by
  have hrun : (runList sectionStep Sections.Sound {}
      (List.replicate 6 ((0 : Fin 2), SemopResult.done) ++ List.replicate 3 (1, .done))).map (fun s => s.place 1) =
      some .critical := by
    decide
  obtain ⟨s, hs, hp⟩ := Option.map_eq_some_iff.1 hrun
  exact ⟨s, hp, sections_exclusive (Run.of_runList hs)⟩

/-- A signal interrupts the second process while it waits for the first: both are in their sections. -/
theorem not_sections_exclusive :
    ¬ ∀ s : Sections (Fin 2), Run sectionStep (fun _ _ => True) {} s → s.Exclusive := by
  intro h
  have hrun : (runList sectionStep (fun _ _ => True) {}
      (List.replicate 3 ((0 : Fin 2), SemopResult.done) ++ [(1, .done), (1, .interrupted), (1, .done)])).map
        (fun s => (s.place 0, s.place 1)) = some (.critical, .critical) := by
    decide
  obtain ⟨s, hs, hp⟩ := Option.map_eq_some_iff.1 hrun
  simp only [Prod.mk.injEq] at hp
  exact absurd ((h s (Run.of_runList hs)).1 0 1 hp.1 hp.2) (by decide)

end Td3.Server
