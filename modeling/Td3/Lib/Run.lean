/-
Runs of a step function under a guard on each step, and the rule that carries an invariant along
them: what holds initially and is kept by every guarded step holds in every state reached. For a step
function without choice, the states reached by iterating it.
-/
import Mathlib.Logic.Function.Iterate

namespace Td3

section
variable {σ α : Type*} (step : σ → α → Option σ) (guard : σ → α → Prop)

/-- The states reached from `s` by steps that all meet the guard. -/
inductive Run (s : σ) : σ → Prop where
  | start : Run s s
  | step {t u : σ} (a : α) : Run s t → guard t a → step t a = some u → Run s u

/-- The state after a list of actions, if each meets the guard. -/
def runList [∀ s a, Decidable (guard s a)] : σ → List α → Option σ
  | s, [] => some s
  | s, a :: as => if guard s a then (step s a).bind fun t => runList t as else none

variable {step guard}

theorem Run.invariant {P : σ → Prop} {s t : σ} (h : Run step guard s t) (h0 : P s)
    (hstep : ∀ t a u, P t → guard t a → step t a = some u → P u) : P t := by
  induction h with
  | start => exact h0
  | step a _ hg ht ih => exact hstep _ a _ ih hg ht

theorem Run.trans {s t u : σ} (h1 : Run step guard s t) (h2 : Run step guard t u) : Run step guard s u := by
  induction h2 with
  | start => exact h1
  | step a _ hg hs ih => exact ih.step a hg hs

theorem Run.mono {guard' : σ → α → Prop} {s t : σ} (h : Run step guard s t) (hguard : ∀ t a, guard t a → guard' t a) :
    Run step guard' s t := by
  induction h with
  | start => exact .start
  | step a _ hg ht ih => exact ih.step a (hguard _ a hg) ht

theorem Run.of_runList [∀ s a, Decidable (guard s a)] : ∀ {as : List α} {s t : σ},
    runList step guard s as = some t → Run step guard s t
  | [], s, t, h => by cases h; exact .start
  | a :: as, s, t, h => by
    rw [runList, Option.ite_none_right_eq_some] at h
    obtain ⟨hg, h⟩ := h
    obtain ⟨u, hu, ht⟩ := Option.bind_eq_some_iff.1 h
    exact (Run.start.step a hg hu).trans (Run.of_runList ht)

/-- Where every guarded step keeps the invariant, and those that count lower the rank that none raises, no list of
them has more that count than the rank. -/
theorem countP_le_of_runList [∀ s a, Decidable (guard s a)] {P : σ → Prop} {rank : σ → Nat} {counts : α → Bool}
    (hstep : ∀ s a t, P s → guard s a → step s a = some t → P t ∧ rank t + (counts a).toNat ≤ rank s) :
    ∀ {as : List α} {s t : σ}, P s → runList step guard s as = some t → as.countP counts + rank t ≤ rank s ∧ P t
  | [], s, t, hs, h => by
    cases h
    exact ⟨by simp, hs⟩
  | a :: as, s, t, hs, h => by
    rw [runList, Option.ite_none_right_eq_some] at h
    obtain ⟨hg, h⟩ := h
    obtain ⟨u, hu, ht⟩ := Option.bind_eq_some_iff.1 h
    obtain ⟨hPu, hle⟩ := hstep s a u hs hg hu
    obtain ⟨hrest, hPt⟩ := countP_le_of_runList hstep hPu ht
    refine ⟨?_, hPt⟩
    rw [List.countP_cons]
    cases hc : counts a with
    | true =>
      rw [hc, Bool.toNat_true] at hle
      rw [if_pos rfl]
      omega
    | false =>
      rw [hc, Bool.toNat_false] at hle
      rw [if_neg Bool.false_ne_true]
      omega

/-- Where some guarded step keeps the invariant and lowers the rank as long as the goal is not reached, a run
leads there. -/
theorem Run.exists_of_rank {P goal : σ → Prop} {rank : σ → Nat}
    (hstep : ∀ s, P s → ¬ goal s → ∃ a t, guard s a ∧ step s a = some t ∧ P t ∧ rank t < rank s) {s : σ} (h : P s) :
    ∃ t, Run step guard s t ∧ goal t := by
  induction hn : rank s using Nat.strongRecOn generalizing s with
  | ind n ih =>
    by_cases hgoal : goal s
    · exact ⟨s, .start, hgoal⟩
    · obtain ⟨a, t, hg, ht, hP, hlt⟩ := hstep s h hgoal
      obtain ⟨u, hrun, hu⟩ := ih (rank t) (by omega) hP rfl
      exact ⟨u, (Run.start.step a hg ht).trans hrun, hu⟩

end

section
variable {σ : Type*} {step : σ → σ} {s t u : σ}

/-- Some number of steps leads from `s` to `t`. -/
def Reaches (step : σ → σ) (s t : σ) : Prop := ∃ n, step^[n] s = t

theorem Reaches.refl : Reaches step s s := ⟨0, rfl⟩

theorem Reaches.trans (h1 : Reaches step s t) (h2 : Reaches step t u) : Reaches step s u := by
  obtain ⟨n1, rfl⟩ := h1
  obtain ⟨n2, rfl⟩ := h2
  exact ⟨n2 + n1, Function.iterate_add_apply ..⟩

theorem Reaches.head (h : step s = t) (h2 : Reaches step t u) : Reaches step s u := Reaches.trans ⟨1, h⟩ h2

/-- A state without a further step is reached once and for all. -/
theorem Reaches.final (h : Reaches step s t) (ht : step t = t) : ∃ n, ∀ k, n ≤ k → step^[k] s = t := by
  obtain ⟨n, rfl⟩ := h
  refine ⟨n, fun k hk => ?_⟩
  obtain ⟨d, rfl⟩ := Nat.exists_eq_add_of_le' hk
  rw [Function.iterate_add_apply]
  exact Function.iterate_fixed ht d

/-- Backward simulation: where each guarded step ends at something related, it starts at something related from
which the other machine gets there, in any number of steps. -/
theorem Run.backward {α τ : Type*} {step : σ → α → Option σ} {guard : σ → α → Prop} {P : σ → Prop} {R : σ → τ → Prop}
    {other : τ → τ} (hstep : ∀ s a t, P s → guard s a → step s a = some t →
      P t ∧ ∀ v, R t v → ∃ u, R s u ∧ Reaches other u v) {s t : σ} (h : Run step guard s t) (hs : P s) :
    P t ∧ ∀ v, R t v → ∃ u, R s u ∧ Reaches other u v := by
  induction h with
  | start => exact ⟨hs, fun v hv => ⟨v, hv, .refl⟩⟩
  | step a _ hguard ht ih =>
    obtain ⟨hP, hback⟩ := hstep _ a _ ih.1 hguard ht
    refine ⟨hP, fun v hv => ?_⟩
    obtain ⟨w, hw, hreach⟩ := hback v hv
    obtain ⟨u, hu, hreach'⟩ := ih.2 w hw
    exact ⟨u, hu, hreach'.trans hreach⟩

end

section
variable {α β : Type*} {f : Nat → Option α} {a : α} {b : β}

/-- From some number of steps on, `f` has returned `a`. -/
def Returns (f : Nat → Option α) (a : α) : Prop := ∃ n, ∀ k, n ≤ k → f k = some a

theorem Returns.unique {a' : α} (h : Returns f a) (h' : Returns f a') : a = a' := by
  obtain ⟨n, hn⟩ := h
  obtain ⟨n', hn'⟩ := h'
  have heq : some a = some a' := (hn (max n n') (by omega)).symm.trans (hn' (max n n') (by omega))
  exact Option.some.inj heq

theorem Returns.bind {g : Nat → α → Option β} (h : Returns f a) (h' : Returns (fun k => g k a) b) :
    Returns (fun k => (f k).bind (g k)) b := by
  obtain ⟨n, hn⟩ := h
  obtain ⟨n', hn'⟩ := h'
  refine ⟨max n n', ?_⟩
  intro k hk
  show (f k).bind (g k) = some b
  rw [hn k (by omega)]
  exact hn' k (by omega)

theorem Returns.map (g : α → β) (h : Returns f a) : Returns (fun k => (f k).map g) (g a) := by
  obtain ⟨n, hn⟩ := h
  refine ⟨n, ?_⟩
  intro k hk
  show (f k).map g = some (g a)
  rw [hn k hk]
  rfl

end

end Td3
