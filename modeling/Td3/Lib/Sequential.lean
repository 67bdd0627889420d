/-
Objects that answer one call after the other, and logs of calls in the order they took effect: a log
is legal when the object, given its requests one by one, gives its answers and ends in the state named.
Two calls of one log are ordered by any time at which the one had taken effect and the other had not.
-/
import Mathlib.Data.List.Basic

namespace Td3

section
variable {σ ρ β κ : Type*}

/-- What an object does with a request: its answer, and the state after it. -/
abbrev Object (σ ρ β : Type*) := ρ → σ → β × σ

/-- The answers to a list of requests, and the state after the last. -/
def Object.replay (o : Object σ ρ β) : List ρ → σ → List β × σ
  | [], s => ([], s)
  | r :: rs, s => ((o r s).1 :: (Object.replay o rs (o r s).2).1, (Object.replay o rs (o r s).2).2)

/-- A call that took effect, under a name of its own. -/
structure Entry (κ ρ β : Type*) where
  id : κ
  request : ρ
  answer : β
deriving DecidableEq, Repr

/-- The log is what the object does from `s` on, and leaves it at `t`. -/
def Legal (o : Object σ ρ β) (s : σ) (log : List (Entry κ ρ β)) (t : σ) : Prop :=
  o.replay (log.map Entry.request) s = (log.map Entry.answer, t)

variable {o : Object σ ρ β} {s t : σ} {log log' : List (Entry κ ρ β)}

theorem Object.replay_append (o : Object σ ρ β) (l m : List ρ) (s : σ) :
    o.replay (l ++ m) s = ((o.replay l s).1 ++ (o.replay m (o.replay l s).2).1, (o.replay m (o.replay l s).2).2) := by
  induction l generalizing s with
  | nil => rfl
  | cons r rs ih => simp only [List.cons_append, Object.replay, ih]

theorem Legal.nil : Legal o s ([] : List (Entry κ ρ β)) s := rfl

/-- One more call, answered in the state the log leaves. -/
theorem Legal.snoc (h : Legal o s log t) (id : κ) (r : ρ) :
    Legal o s (log ++ [⟨id, r, (o r t).1⟩]) (o r t).2 := by
  unfold Legal at h ⊢
  rw [List.map_append, Object.replay_append, h, List.map_append]
  rfl

/-- What had taken effect comes before what had not. -/
theorem Entry.before (h : log <+: log') {e e' : Entry κ ρ β} (he : e ∈ log) (he' : e' ∈ log') (hne : e' ∉ log) :
    ∃ j k : Nat, j < k ∧ log'[j]? = some e ∧ log'[k]? = some e' := by
  obtain ⟨rest, rfl⟩ := h
  obtain ⟨j, hj⟩ := List.mem_iff_getElem?.1 he
  have hrest : e' ∈ rest := (List.mem_append.1 he').resolve_left hne
  obtain ⟨k, hk⟩ := List.mem_iff_getElem?.1 hrest
  have hlt : j < log.length := (List.getElem?_eq_some_iff.1 hj).1
  refine ⟨j, log.length + k, by omega, ?_, ?_⟩
  · rw [List.getElem?_append_left hlt, hj]
  · rw [List.getElem?_append_right (by omega), Nat.add_sub_cancel_left, hk]

end

end Td3
