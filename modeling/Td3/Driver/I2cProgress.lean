/-
How long a call of `cotti_i2c_read` or `cotti_i2c_write` takes, whatever the controller does and however
the waits end. In its `prv_wakeup` it waits for the clock, without a limit; each step after that brings it
nearer to its return, so it makes at most 121 of them; and only the call that holds the mutex can keep
another from going on, which ends its transaction without the controller or the handler if need be, each
wait having a time limit.
-/
import Td3.Driver.I2cIndex

namespace Td3.Driver

/-! ## The steps a call has left -/

/-- An upper bound on the steps from a place of a call to its return. -/
def Pc.rank : Pc → Nat
  | .poll k => 20 + (101 - k)
  | .lock => 20
  | .setSlave => 19
  | .setLen => 18
  | .setCnt => 17
  | .storeReg => 16
  | .storeVal => 15
  | .clearFifo => 14
  | .startTx => 13
  | .waitLen => 12
  | .waitStopTx => 11
  | .reinitStopTx _ => 10
  | .setLenRx => 9
  | .setCntRx => 8
  | .startRx => 7
  | .waitRead => 6
  | .waitStopRx => 5
  | .reinitRead _ => 4
  | .reinitStopRx _ => 3
  | .unlock _ => 2
  | .load => 1

def CallerState.rank : CallerState → Nat
  | .running _ pc => pc.rank
  | _ => 0

/-- The bus is looked at up to 101 times. -/
def CallerState.Polls : CallerState → Prop
  | .running _ (.poll k) => k ≤ 100
  | _ => True

section
variable {ι : Type} [DecidableEq ι]

theorem callStep_rank {i : ι} {n : Nat} {r : Request} {o : Outcome} {lock lock' : Option ι} {d d' : Dev ι} {pc : Pc}
    {next : CallerState} (hp : (CallerState.running r pc).Polls)
    (hs : callStep i n r o lock d pc = some (next, lock', d')) : next.rank < pc.rank ∧ next.Polls := by
  cases pc with
  | poll k =>
    change k ≤ 100 at hp
    simp only [callStep] at hs
    split_ifs at hs with hbusy hk
    · cases hs
      exact ⟨by simp only [CallerState.rank, Pc.rank]; omega, trivial⟩
    · cases hs
      constructor
      · simp only [CallerState.rank, Pc.rank]
        omega
      · change k + 1 ≤ 100
        omega
    · cases hs
      exact ⟨by simp only [CallerState.rank, Pc.rank]; omega, trivial⟩
  | lock =>
    simp only [callStep] at hs
    split_ifs at hs
    cases hs
    exact ⟨Nat.lt_succ_self _, trivial⟩
  | waitLen | waitStopTx | waitRead | waitStopRx =>
    simp only [callStep, Option.ite_none_right_eq_some, Option.some.injEq] at hs
    obtain ⟨-, hs⟩ := hs
    cases hs
    cases o <;> constructor <;> simp [CallerState.rank, Pc.rank, CallerState.Polls]
  | reinitStopTx ok | unlock ok =>
    cases r <;> cases hs <;> cases ok <;> constructor <;>
      simp [CallerState.rank, Pc.rank, CallerState.Polls]
  | _ =>
    cases r <;> cases hs <;> constructor <;> simp [CallerState.rank, Pc.rank, CallerState.Polls]

/-- A call can go on, except to take a mutex that another holds: a wait whose condition does not hold
can time out. -/
theorem callStep_enabled {i : ι} {n : Nat} {r : Request} {lock : Option ι} {d : Dev ι} {pc : Pc}
    (hl : pc = .lock → lock = none) : ∃ o, (callStep i n r o lock d pc).isSome = true := by
  have hwait : ∀ c : Bool, ∃ o : Outcome, o.possible c = true := by
    intro c
    cases c with
    | true => exact ⟨.met, rfl⟩
    | false => exact ⟨.timeout, rfl⟩
  cases pc with
  | lock => exact ⟨.met, by simp [callStep, hl rfl]⟩
  | poll k =>
    refine ⟨.met, ?_⟩
    simp only [callStep]
    split_ifs <;> rfl
  | waitLen | waitStopTx | waitRead | waitStopRx =>
    obtain ⟨o, ho⟩ := hwait _
    refine ⟨o, ?_⟩
    simp only [callStep]
    rw [if_pos ho]
    rfl
  | unlock ok =>
    cases r <;> exact ⟨.met, rfl⟩
  | _ => exact ⟨.met, rfl⟩

end

/-! ## Counting them -/

/-- The system, and how many steps each caller has made in its last call. -/
structure Counted (ι : Type) where
  bus : Bus ι := {}
  own : ι → Nat := fun _ => 0

section
variable {ι : Type} [DecidableEq ι]

def Counted.nextOwn (c : Counted ι) : Action ι → ι → Nat
  | .call i _ => Function.update c.own i 0
  | .step i _ => Function.update c.own i (c.own i + 1)
  | _ => c.own

def countedStep (c : Counted ι) (a : Action ι) : Option (Counted ι) :=
  (busStep c.bus a).map fun bus => ⟨bus, c.nextOwn a⟩

structure Counted.Inv (c : Counted ι) : Prop where
  exclusive : c.bus.Exclusive
  polls : ∀ i, (c.bus.callers i).state.Polls
  own : ∀ i, c.own i + (c.bus.callers i).state.rank ≤ 121

omit [DecidableEq ι] in
theorem Counted.Inv.init : Counted.Inv ({} : Counted ι) where
  exclusive i := by
    constructor
    · rintro ⟨⟩
    · rintro ⟨⟩
  polls _ := trivial
  own _ := Nat.zero_le _

theorem Counted.Inv.step {c c' : Counted ι} {a : Action ι} (h : c.Inv) (hs : countedStep c a = some c') : c'.Inv := by
  obtain ⟨bus, hb, rfl⟩ := Option.map_eq_some_iff.1 hs
  have hex := h.exclusive.busStep hb
  cases a with
  | call i r =>
    simp only [busStep] at hb
    split at hb
    · cases hb
    · cases hb
      refine ⟨hex, fun j => ?_, fun j => ?_⟩
      · by_cases hj : j = i
        · subst hj
          simp only [Function.update_self]
          exact Nat.zero_le _
        · simpa only [Function.update_of_ne hj] using h.polls j
      · unfold Counted.nextOwn
        by_cases hj : j = i
        · subst hj
          simp only [Function.update_self]
          exact le_refl 121
        · simpa only [Function.update_of_ne hj] using h.own j
  | step i o =>
    simp only [busStep] at hb
    split at hb
    · rename_i r pc hst
      obtain ⟨⟨next, lock, d⟩, hcs, rfl⟩ := Option.map_eq_some_iff.1 hb
      have hpoll := h.polls i
      rw [hst] at hpoll
      obtain ⟨hrank, hnext⟩ := callStep_rank hpoll hcs
      refine ⟨hex, fun j => ?_, fun j => ?_⟩
      · by_cases hj : j = i
        · subst hj
          simpa only [Function.update_self] using hnext
        · simpa only [Function.update_of_ne hj] using h.polls j
      · unfold Counted.nextOwn
        by_cases hj : j = i
        · subst hj
          have hown := h.own j
          rw [hst] at hown
          simp only [Function.update_self]
          change _ + pc.rank ≤ 121 at hown
          omega
        · simpa only [Function.update_of_ne hj] using h.own j
    · cases hb
  | isr =>
    obtain ⟨d, -, rfl⟩ := Option.map_eq_some_iff.1 hb
    exact ⟨hex, h.polls, h.own⟩
  | event e =>
    obtain ⟨d, -, rfl⟩ := Option.map_eq_some_iff.1 hb
    exact ⟨hex, h.polls, h.own⟩

/-! ## Going on -/

omit [DecidableEq ι] in
/-- The caller is in no call. -/
def Counted.Done (c : Counted ι) (i : ι) : Prop := ∀ r pc, (c.bus.callers i).state ≠ .running r pc

/-- The step is one of caller `i`'s own, or of the caller that holds the mutex at the start. -/
def Action.OfCallers (i : ι) (holder : Option ι) : Action ι → Prop
  | .step j _ => j = i ∨ holder = some j
  | _ => False

/-- A caller that has the mutex, or finds it free, goes on to its return by itself. -/
theorem Counted.Inv.goes_on {i : ι} (n : Nat) {c : Counted ι} (h : c.Inv) (hr : (c.bus.callers i).state.rank ≤ n)
    (hl : c.bus.lock = none ∨ c.bus.lock = some i) :
    ∃ c', Run countedStep (fun _ a => ∃ o, a = .step i o) c c' ∧ c'.Done i ∧
      (c'.bus.lock = none ∨ c'.bus.lock = some i) := by
  induction n generalizing c with
  | zero =>
    refine ⟨c, .start, ?_, hl⟩
    intro r pc hst
    rw [hst] at hr
    have hpos : 0 < pc.rank := by cases pc <;> simp [Pc.rank]
    change pc.rank ≤ 0 at hr
    omega
  | succ n ih =>
    by_cases hdone : c.Done i
    · exact ⟨c, .start, hdone, hl⟩
    · simp only [Counted.Done, not_forall, not_not] at hdone
      obtain ⟨r, pc, hst⟩ := hdone
      have hfree : pc = .lock → c.bus.lock = none := by
        rintro rfl
        refine hl.resolve_right fun hi => ?_
        have hin := (h.exclusive i).1 hi
        rw [hst] at hin
        cases hin
      obtain ⟨o, ho⟩ := callStep_enabled (i := i) (n := (c.bus.callers i).calls) (r := r) (d := c.bus.dev) hfree
      obtain ⟨⟨next, lock, d⟩, hcs⟩ := Option.isSome_iff_exists.1 ho
      have hpoll := h.polls i
      rw [hst] at hpoll hr
      have hrank := (callStep_rank hpoll hcs).1
      have hstep : countedStep c (.step i o) = some
          ⟨⟨Function.update c.bus.callers i ⟨(c.bus.callers i).calls, next⟩, lock, d⟩, c.nextOwn (.step i o)⟩ := by
        unfold countedStep busStep
        simp only [hst, hcs, Option.map_some]
      obtain ⟨c', hrun, hd, hl'⟩ := ih (h.step hstep) (by
        simp only [Function.update_self]
        change pc.rank ≤ n + 1 at hr
        omega) (by
        have hex := h.exclusive i
        rw [hst] at hex
        have hothers := (callStep_lock hex hcs).2
        show lock = none ∨ lock = some i
        cases hlock : lock with
        | none => exact .inl rfl
        | some j =>
          by_cases hj : j = i
          · exact .inr (by rw [hj])
          · have hj' := (hothers j hj).1 hlock
            rcases hl with hl | hl
            · rw [hl] at hj'
              cases hj'
            · rw [hl] at hj'
              exact absurd (Option.some.inj hj').symm hj)
      exact ⟨c', (Run.start.step _ ⟨o, rfl⟩ hstep).trans hrun, hd, hl'⟩

/-- Each caller's call can come to its return by steps of that caller and of the one that holds the mutex. -/
theorem Counted.Inv.returns {c : Counted ι} (hinv : c.Inv) (i : ι) :
    ∃ c', Run countedStep (fun _ a => a.OfCallers i c.bus.lock) c c' ∧ c'.Done i := by
  have halone : ∀ {c1 c2 : Counted ι}, Run countedStep (fun _ a => ∃ o, a = .step i o) c1 c2 →
      Run countedStep (fun _ a => a.OfCallers i c.bus.lock) c1 c2 := fun hr =>
    hr.mono (by rintro _ _ ⟨o, rfl⟩; exact .inl rfl)
  cases hl : c.bus.lock with
  | none =>
    obtain ⟨c', hrun, hd, -⟩ := hinv.goes_on _ (le_refl _) (i := i) (.inl hl)
    exact ⟨c', by rw [← hl]; exact halone hrun, hd⟩
  | some j =>
    obtain ⟨c1, hrun, hd, hl1⟩ := hinv.goes_on _ (le_refl _) (i := j) (.inr hl)
    have hinv1 : c1.Inv := hrun.invariant hinv fun _ _ _ hi _ hs => hi.step hs
    have hfree : c1.bus.lock = none := by
      refine hl1.resolve_right fun hj => ?_
      have hin := (hinv1.exclusive j).1 hj
      unfold CallerState.inside at hin
      split at hin
      · rename_i r pc hst
        exact hd r pc hst
      · cases hin
    obtain ⟨c2, hrun2, hd2, -⟩ := hinv1.goes_on _ (le_refl _) (i := i) (.inl hfree)
    refine ⟨c2, Run.trans (hrun.mono ?_) ?_, hd2⟩
    · rintro _ _ ⟨o, rfl⟩
      exact .inr rfl
    · rw [← hl]
      exact halone hrun2

end

/-! ## The wait for the clock -/

/-- The callers that are in `prv_wakeup`, each with the call that it makes, and the clock's register -/
structure Waking (ι : Type) where
  clkctrl : BitVec 32 := 0
  waking : ι → Option Request := fun _ => none
  counted : Counted ι := {}

inductive WakeAction (ι : Type) where
  /-- A caller enters `prv_wakeup` and enables the clock. -/
  | enter (i : ι) (r : Request)
  /-- One test of its loop -/
  | test (i : ι)
  /-- The hardware changes the register. -/
  | clock (clkctrl : BitVec 32)
  /-- A step after `prv_wakeup` -/
  | after (a : Action ι)

section
variable {ι : Type} [DecidableEq ι]

/-- `prv_wakeup` of each caller, before the steps of its call; IDLEST is read-only. -/
def wakeStep (w : Waking ι) : WakeAction ι → Option (Waking ι)
  | .enter i r =>
    match (w.counted.bus.callers i).state with
    | .running .. => none
    | _ =>
      if w.waking i = none then some { w with
        clkctrl := CLK_I2C2_ENABLE ||| w.clkctrl &&& CLK_IDLEST, waking := Function.update w.waking i (some r) }
      else none
  | .test i =>
    match w.waking i with
    | none => none
    | some r =>
      if prvIsClkDisabled w.clkctrl ≠ 0 then some w
      else (countedStep w.counted (.call i r)).map fun c =>
        { w with waking := Function.update w.waking i none, counted := c }
  | .clock clkctrl => some { w with clkctrl := clkctrl }
  | .after (.call ..) => none
  | .after a => (countedStep w.counted a).map fun c => { w with counted := c }

omit [DecidableEq ι] in
/-- The caller is in no call. -/
def Waking.Done (w : Waking ι) (i : ι) : Prop := w.waking i = none ∧ w.counted.Done i

/-- As `Action.OfCallers` -/
def WakeAction.OfCallers (i : ι) (holder : Option ι) : WakeAction ι → Prop
  | .test j => j = i
  | .after a => a.OfCallers i holder
  | _ => False

structure Waking.Inv (w : Waking ι) : Prop where
  counted : w.counted.Inv
  before : ∀ i r, w.waking i = some r → w.counted.Done i

omit [DecidableEq ι] in
theorem Waking.Inv.init : Waking.Inv ({} : Waking ι) := ⟨.init, nofun⟩

/-- Only a call of its own takes a caller into one. -/
theorem Counted.Done.step {c c' : Counted ι} {a : Action ι} {i : ι} (h : c.Done i) (ha : ∀ r, a ≠ .call i r)
    (hs : countedStep c a = some c') : c'.Done i := by
  obtain ⟨bus, hb, rfl⟩ := Option.map_eq_some_iff.1 hs
  cases a with
  | call j r =>
    have hji : i ≠ j := by
      rintro rfl
      exact ha r rfl
    simp only [busStep] at hb
    split at hb
    · cases hb
    · cases hb
      simpa only [Counted.Done, Function.update_of_ne hji] using h
  | step j o =>
    simp only [busStep] at hb
    split at hb
    · rename_i r pc hst
      have hji : i ≠ j := by
        rintro rfl
        exact h r pc hst
      obtain ⟨⟨next, lock, d⟩, -, rfl⟩ := Option.map_eq_some_iff.1 hb
      simpa only [Counted.Done, Function.update_of_ne hji] using h
    · cases hb
  | isr =>
    obtain ⟨d, -, rfl⟩ := Option.map_eq_some_iff.1 hb
    exact h
  | event e =>
    obtain ⟨d, -, rfl⟩ := Option.map_eq_some_iff.1 hb
    exact h

theorem Waking.Inv.step {w w' : Waking ι} {a : WakeAction ι} (h : w.Inv) (hs : wakeStep w a = some w') : w'.Inv := by
  cases a with
  | enter i r =>
    simp only [wakeStep] at hs
    split at hs
    · cases hs
    · rename_i hnot
      simp only [Option.ite_none_right_eq_some, Option.some.injEq] at hs
      obtain ⟨-, rfl⟩ := hs
      refine ⟨h.counted, fun j r' hj => ?_⟩
      by_cases hji : j = i
      · subst hji
        exact fun r pc hst => hnot _ _ hst
      · simp only [Function.update_of_ne hji] at hj
        exact h.before j r' hj
  | test i =>
    simp only [wakeStep] at hs
    split at hs
    · cases hs
    · split_ifs at hs
      · cases hs
        exact h
      · obtain ⟨c, hc, rfl⟩ := Option.map_eq_some_iff.1 hs
        refine ⟨h.counted.step hc, fun j r' hj => ?_⟩
        by_cases hji : j = i
        · subst hji
          simp only [Function.update_self] at hj
          cases hj
        · simp only [Function.update_of_ne hji] at hj
          refine (h.before j r' hj).step ?_ hc
          rintro r ⟨⟩
          exact hji rfl
  | clock v =>
    cases hs
    exact ⟨h.counted, h.before⟩
  | after a =>
    cases a with
    | call i r => cases hs
    | step i o =>
      obtain ⟨c, hc, rfl⟩ := Option.map_eq_some_iff.1 hs
      exact ⟨h.counted.step hc, fun j r hj => (h.before j r hj).step (by rintro r ⟨⟩) hc⟩
    | isr =>
      obtain ⟨c, hc, rfl⟩ := Option.map_eq_some_iff.1 hs
      exact ⟨h.counted.step hc, fun j r hj => (h.before j r hj).step (by rintro r ⟨⟩) hc⟩
    | event e =>
      obtain ⟨c, hc, rfl⟩ := Option.map_eq_some_iff.1 hs
      exact ⟨h.counted.step hc, fun j r hj => (h.before j r hj).step (by rintro r ⟨⟩) hc⟩

theorem Counted.Done.call {c : Counted ι} {i : ι} (h : c.Done i) (r : Request) :
    countedStep c (.call i r) = some ⟨{ c.bus with
      callers := Function.update c.bus.callers i ⟨(c.bus.callers i).calls + 1, .running r (.poll 0)⟩ },
      c.nextOwn (.call i r)⟩ := by
  unfold countedStep busStep
  cases hst : (c.bus.callers i).state with
  | running r' pc => exact absurd hst (h r' pc)
  | idle => simp only [hst, Option.map_some]
  | returned r' v => simp only [hst, Option.map_some]

/-- The steps after `prv_wakeup` are those of the calls. -/
theorem Waking.lift {i : ι} {holder : Option ι} (w : Waking ι) {c c' : Counted ι}
    (h : Run countedStep (fun _ a => a.OfCallers i holder) c c') :
    Run wakeStep (fun _ a => a.OfCallers i holder) { w with counted := c } { w with counted := c' } := by
  induction h with
  | start => exact .start
  | step a _ ha hs ih =>
    cases a with
    | step j o => exact ih.step (.after (.step j o)) ha (by simp only [wakeStep, hs, Option.map_some])
    | call j r => exact ha.elim
    | isr => exact ha.elim
    | event e => exact ha.elim

/-- While the clock is disabled, a caller in `prv_wakeup` does not get out of it by steps of the callers. -/
theorem Waking.stays {i : ι} {holder : Option ι} {r : Request} {w w' : Waking ι} (hr : w.waking i = some r)
    (hclock : prvIsClkDisabled w.clkctrl ≠ 0) (h : Run wakeStep (fun _ a => a.OfCallers i holder) w w') :
    w'.waking i = some r ∧ prvIsClkDisabled w'.clkctrl ≠ 0 := by
  refine h.invariant (P := fun w => w.waking i = some r ∧ prvIsClkDisabled w.clkctrl ≠ 0) ⟨hr, hclock⟩ ?_
  rintro w a w' ⟨hr, hclock⟩ ha hs
  cases a with
  | enter j r => exact ha.elim
  | clock v => exact ha.elim
  | test j =>
    obtain rfl : j = i := ha
    simp only [wakeStep, hr, if_pos hclock, Option.some.injEq] at hs
    subst hs
    exact ⟨hr, hclock⟩
  | after a =>
    cases a with
    | call j r => cases hs
    | step j o | isr | event e =>
      obtain ⟨c, -, rfl⟩ := Option.map_eq_some_iff.1 hs
      exact ⟨hr, hclock⟩

/-- In every run, whatever the events and however the waits end, a call makes at most 121 steps after its
`prv_wakeup`; and from every state reached, each caller's call can come to its return by steps of that caller
and of the one that holds the mutex alone, exactly if it has left `prv_wakeup` or the clock is enabled. -/
theorem calls_return {w : Waking ι} (h : Run wakeStep (fun _ _ => True) {} w) (i : ι) :
    w.counted.own i ≤ 121 ∧
      ((∃ w', Run wakeStep (fun _ a => a.OfCallers i w.counted.bus.lock) w w' ∧ w'.Done i) ↔
        (w.waking i = none ∨ prvIsClkDisabled w.clkctrl = 0)) := by
  have hinv : w.Inv := h.invariant Waking.Inv.init fun _ _ _ hi _ hs => hi.step hs
  have hown := hinv.counted.own i
  refine ⟨by omega, ?_, ?_⟩
  · rintro ⟨w', hrun, hdone, -⟩
    by_contra hnot
    push Not at hnot
    obtain ⟨r, hr⟩ := Option.ne_none_iff_exists'.1 hnot.1
    rw [(Waking.stays hr hnot.2 hrun).1] at hdone
    cases hdone
  · intro hclock
    cases hr : w.waking i with
    | none =>
      obtain ⟨c', hrun, hd⟩ := hinv.counted.returns i
      exact ⟨{ w with counted := c' }, w.lift hrun, hr, hd⟩
    | some r =>
      have hzero : prvIsClkDisabled w.clkctrl = 0 := hclock.resolve_left (by simp [hr])
      have hcall := hinv.before i r hr
      have hcall := (hinv.before i r hr).call r
      generalize hc : (⟨{ w.counted.bus with
        callers := Function.update w.counted.bus.callers i
          ⟨(w.counted.bus.callers i).calls + 1, .running r (.poll 0)⟩ },
        w.counted.nextOwn (.call i r)⟩ : Counted ι) = c at hcall
      have hlock : c.bus.lock = w.counted.bus.lock := by rw [← hc]
      have hstep : wakeStep w (.test i) =
          some { w with waking := Function.update w.waking i none, counted := c } := by
        simp only [wakeStep, hr, hzero, ne_eq, not_true_eq_false, if_false, hcall, Option.map_some]
      obtain ⟨c', hrun, hd⟩ := (hinv.counted.step hcall).returns i
      rw [hlock] at hrun
      have htest : Run wakeStep (fun _ a => a.OfCallers i w.counted.bus.lock) w
          { w with waking := Function.update w.waking i none, counted := c } := Run.start.step (.test i) rfl hstep
      have hall := htest.trans (Waking.lift { w with waking := Function.update w.waking i none } hrun)
      exact ⟨_, hall, Function.update_self .., hd⟩

end

local instance neZero_three : NeZero 3 := ⟨by decide⟩

/-- Caller 0 waits for a slave that never answers, and caller 1 for the mutex; caller 2 has just enabled the
clock. -/
theorem calls_return_example : ∃ w : Waking (Fin 3), Run wakeStep (fun _ _ => True) {} w ∧
    (w.counted.bus.callers 0).state = .running (.write 0x27 0xF4 0x76) .waitLen ∧
    (w.counted.bus.callers 1).state = .running (.read 0xFA 0x76) .lock ∧ w.waking 2 = some (.read 0xFA 0x76) ∧
    (∃ w', Run wakeStep (fun _ a => a.OfCallers 1 w.counted.bus.lock) w w' ∧ w'.Done 1) ∧
    ¬ ∃ w', Run wakeStep (fun _ a => a.OfCallers 2 w.counted.bus.lock) w w' ∧ w'.Done 2 := by
  have hrun : (runList wakeStep (fun _ _ => True) ({} : Waking (Fin 3))
      (.enter 0 (.write 0x27 0xF4 0x76) :: .test 0 :: .enter 1 (.read 0xFA 0x76) :: .test 1 :: .after (.step 1 .met) ::
        List.replicate 9 (.after (.step 0 .met)) ++ [.clock CLK_IDLEST, .enter 2 (.read 0xFA 0x76), .test 2])).map
        (fun w => ((w.counted.bus.callers 0).state, (w.counted.bus.callers 1).state, w.waking 1, w.waking 2,
          prvIsClkDisabled w.clkctrl)) =
      some (.running (.write 0x27 0xF4 0x76) .waitLen, .running (.read 0xFA 0x76) .lock, none,
        some (.read 0xFA 0x76), CLK_IDLEST) := by
    decide +kernel
  obtain ⟨w, hw, he⟩ := Option.map_eq_some_iff.1 hrun
  simp only [Prod.mk.injEq] at he
  obtain ⟨h0, h1, hleft, hin, hclock⟩ := he
  have hreached : Run wakeStep (fun _ _ => True) {} w := .of_runList hw
  have hdisabled : CLK_IDLEST ≠ 0 := by decide
  refine ⟨w, hreached, h0, h1, hin, (calls_return hreached 1).2.2 (.inl hleft), fun hreturns => ?_⟩
  rcases (calls_return hreached 2).2.1 hreturns with hnone | hzero
  · rw [hin] at hnone
    cases hnone
  · exact hdisabled (hclock.symm.trans hzero)

end Td3.Driver
