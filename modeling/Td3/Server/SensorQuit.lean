/-
The end of the sensor thread (server/src/temp_sensor.cpp): `TempSensor::~TempSensor` sends it SIGALRM and then
SIGUSR2 and joins it, wherever it is in the loop of `read_sensor`, from the end of the constructor on, where the
main thread has SIGALRM blocked and every SIGALRM is for the sensor thread.

SIGALRM ends a wait that has begun and is lost on a thread that is not there yet. What wakes the thread up then
is its timer: so the join comes to its end unless the period disarmed the timer, or the timer went off before
the wait. In `sem--` the thread waits too, until another process gives the semaphore back or a signal comes:
the operator drops the `EINTR`. The read of the device is taken to return.
-/
import Td3.Lib.Run
import Td3.Server.Sem
import Td3.Server.SensorTimer

namespace Td3.Server

/-! ## The source functions -/

/-- The sensor thread in `read_sensor`: at the test of `quit`; before each read of the shared memory; before the
sensor is read; before `sem--`; blocked in it; before the value is stored and `sem++`; at `next`; before the timer
is set; before the wait; in it; returned. -/
inductive SensorPlace where
  | test
  | readSamples
  | readPeriod
  | sample
  | callSem
  | inSem
  | store
  | next
  | setTimer
  | callWait
  | wait
  | returned
deriving DecidableEq, Repr

/-- The main thread: serving, and at the three calls of `~TempSensor`. -/
inductive JoinPlace where
  | serving
  | sendAlarm
  | sendUsr2
  | join
  | joined
deriving DecidableEq, Repr

/-- Both threads, the semaphore, whether the timer is armed, and the signals that are sent but not taken yet. -/
structure Quitting where
  main : JoinPlace := .serving
  sem : Nat := 1
  place : SensorPlace := .test
  samples : Int := 0
  period : Int := 0
  quit : Bool := false
  timer : Bool := false
  alarm : Bool := false
  usr2 : Bool := false
deriving DecidableEq, Repr

/-- A step of the main thread; the timer goes off; the sensor thread takes a signal, or goes on, reading this
value where it reads the shared memory; another process takes the semaphore, or gives it back. -/
inductive QuitAct where
  | main
  | expire
  | alarm
  | usr2
  | sensor (value : Int)
  | otherDown
  | otherUp
deriving DecidableEq, Repr

/-- A step of the two threads, the timer or a signal -/
def QuitAct.own : QuitAct → Bool
  | .otherDown | .otherUp => false
  | _ => true

/-- Whether the timer is armed after `setitimer()` with this value: one it refuses changes nothing. -/
def Timeval.armed (t : Timeval) (before : Bool) : Bool :=
  if 0 ≤ t.sec ∧ 0 ≤ t.usec ∧ t.usec < 1000000 then t.sec ≠ 0 || t.usec ≠ 0 else before

/-- `set_timer_single_shot(period * 1000)` with a `time_t` of `w` bits -/
def timerAfter (w : Nat) (period : Int) (before : Bool) : Bool :=
  (setTimerSingleShot w (wrap 32 (period * 1000))).armed before

/-- The sensor thread by itself -/
def Quitting.sensor (w : Nat) (value : Int) (s : Quitting) : Option Quitting :=
  match s.place with
  | .test => some { s with place := if s.quit then .returned else .readSamples }
  | .readSamples => some { s with samples := value, place := .readPeriod }
  | .readPeriod => some { s with period := value, place := if s.samples = 0 then .next else .sample }
  | .sample => some { s with place := .callSem }
  | .callSem =>
    match Sem.op s.sem (-1) .done with
    | some (_, sem) => some { s with sem := sem, place := .store }
    | none => some { s with place := .inSem }
  | .inSem => (Sem.op s.sem (-1) .done).map fun (_, sem) => { s with sem := sem, place := .store }
  | .store => (Sem.op s.sem 1 .done).map fun (_, sem) => { s with sem := sem, place := .next }
  | .next => some { s with place := .setTimer }
  | .setTimer => some { s with timer := timerAfter w s.period s.timer, place := .callWait }
  | .callWait => some { s with place := .wait }
  | .wait | .returned => none

/-- Where the thread is after a signal handler: `sigwait()` has returned from SIGALRM, and a blocked `semop()`
from either signal, without having decremented. -/
def SensorPlace.afterAlarm : SensorPlace → SensorPlace
  | .wait => .test
  | .inSem => .store
  | p => p

def SensorPlace.afterUsr2 : SensorPlace → SensorPlace
  | .inSem => .store
  | p => p

def quitStep (w : Nat) (s : Quitting) : QuitAct → Option Quitting
  | .main =>
    match s.main with
    | .serving => some { s with main := .sendAlarm }
    | .sendAlarm => some { s with main := .sendUsr2, alarm := true }
    | .sendUsr2 => some { s with main := .join, usr2 := true }
    | .join => if s.place = .returned then some { s with main := .joined } else none
    | .joined => none
  | .expire => if s.timer then some { s with timer := false, alarm := true } else none
  | .alarm =>
    -- `sigwait()` returns, or `alarm_handler` runs
    if s.alarm ∧ s.place ≠ .returned then some { s with alarm := false, place := s.place.afterAlarm } else none
  -- `sigusr2_handler`, also inside `sigwait()`, which goes on
  | .usr2 =>
    if s.usr2 ∧ s.place ≠ .returned then some { s with usr2 := false, quit := true, place := s.place.afterUsr2 }
    else none
  | .sensor value => s.sensor w value
  | .otherDown => (Sem.op s.sem (-1) .done).map fun (_, sem) => { s with sem := sem }
  | .otherUp => (Sem.op s.sem 1 .done).map fun (_, sem) => { s with sem := sem }

/-- What the steps around the store can be: the semaphore taken, waited for, or given back. -/
theorem sensor_sem {w : Nat} {v : Int} {s t : Quitting}
    (hp : s.place = .callSem ∨ s.place = .inSem ∨ s.place = .store) (h : s.sensor w v = some t) :
    ∃ sem place, t = { s with sem := sem, place := place } ∧ ((s.place = .callSem ∧ (place = .store ∨ place = .inSem)) ∨
      (s.place = .inSem ∧ place = .store) ∨ (s.place = .store ∧ place = .next)) := by
  unfold Quitting.sensor at h
  rcases hp with hp | hp | hp
  · simp only [hp, Sem.op_down] at h
    by_cases hsem : 0 < s.sem
    · simp only [if_pos hsem, Option.some.injEq] at h
      exact ⟨_, _, h.symm, .inl ⟨hp, .inl rfl⟩⟩
    · simp only [if_neg hsem, Option.some.injEq] at h
      exact ⟨s.sem, _, h.symm, .inl ⟨hp, .inr rfl⟩⟩
  · simp only [hp, Sem.op_down] at h
    by_cases hsem : 0 < s.sem
    · simp only [if_pos hsem, Option.map_some, Option.some.injEq] at h
      exact ⟨_, _, h.symm, .inr (.inl ⟨hp, rfl⟩)⟩
    · simp only [if_neg hsem, Option.map_none] at h
      cases h
  · simp only [hp, Sem.op_up, Option.map_some, Option.some.injEq] at h
    exact ⟨_, _, h.symm, .inr (.inr ⟨hp, rfl⟩)⟩

theorem sensor_frame {w : Nat} {v : Int} {s t : Quitting} (h : s.sensor w v = some t) :
    t.main = s.main ∧ t.quit = s.quit ∧ t.alarm = s.alarm ∧ t.usr2 = s.usr2 := by
  cases hp : s.place with
  | callSem | inSem | store =>
    obtain ⟨sem, place, rfl, -⟩ := sensor_sem (by simp [hp]) h
    exact ⟨rfl, rfl, rfl, rfl⟩
  | wait | returned =>
    simp only [Quitting.sensor, hp] at h
    cases h
  | test | readSamples | readPeriod | sample | next | setTimer | callWait =>
    simp only [Quitting.sensor, hp, Option.some.injEq] at h
    subst h
    exact ⟨rfl, rfl, rfl, rfl⟩

/-- The other processes change the semaphore only. -/
theorem quitStep_other {w : Nat} {s t : Quitting} {a : QuitAct} (ha : a.own = false) (h : quitStep w s a = some t) :
    ∃ sem, t = { s with sem := sem } := by
  cases a with
  | otherDown =>
    obtain ⟨⟨_, sem⟩, -, rfl⟩ := Option.map_eq_some_iff.1 h
    exact ⟨sem, rfl⟩
  | otherUp =>
    rw [quitStep, Sem.op_up] at h
    exact ⟨s.sem + 1, (Option.some.inj h).symm⟩
  | _ => cases ha

/-! ## In time -/

/-- Every period that is read can be told to the timer, a signal is taken before the thread goes on, and the
timer does not go off between its start and the wait. -/
def Quitting.InTime (w : Nat) (s : Quitting) : QuitAct → Prop
  | .sensor value => s.alarm = false ∧ s.usr2 = false ∧ (s.place = .readPeriod → Timed w value)
  | .expire => s.place ≠ .callWait
  | _ => True

instance Quitting.decidableInTime (w : Nat) (s : Quitting) (a : QuitAct) : Decidable (s.InTime w a) := by
  cases a <;> unfold Quitting.InTime Timed <;> infer_instance

theorem timerAfter_of_timed {w : Nat} (hw : 0 < w) {period : Int} (h : Timed w period) (before : Bool) :
    timerAfter w period before = true := by
  obtain ⟨⟨husec0, husec⟩, hpos, heq⟩ := setTimerSingleShot_arms hw h
  have hperiod := h.1
  have hsec : 0 ≤ (setTimerSingleShot w (wrap 32 (period * 1000))).sec := by omega
  have hne : (setTimerSingleShot w (wrap 32 (period * 1000))).sec ≠ 0 := by omega
  unfold timerAfter Timeval.armed
  rw [if_pos ⟨hsec, husec0, husec⟩]
  simp [hne]

/-! ## How much is left -/

/-- The steps to the end of the thread, once `quit` is set -/
def SensorPlace.rank : SensorPlace → Nat
  | .readSamples => 11
  | .readPeriod => 10
  | .sample => 9
  | .callSem => 8
  | .inSem => 7
  | .store => 6
  | .next => 5
  | .setTimer => 4
  | .callWait => 3
  | .wait => 2
  | .test => 1
  | .returned => 0

/-- An armed timer counts twice: it goes off, and its signal is taken. -/
def Quitting.rank (s : Quitting) : Nat :=
  3 * s.place.rank + 2 * s.timer.toNat + s.alarm.toNat + s.usr2.toNat + if s.main = .join then 1 else 0

/-- Both signals have been sent. -/
def Quitting.Told (s : Quitting) : Prop := (s.main = .join ∨ s.main = .joined) ∧ (s.usr2 = true ∨ s.quit = true)

theorem sensor_rank {w : Nat} {v : Int} {s t : Quitting} (hquit : s.quit = true) (h : s.sensor w v = some t) :
    t.rank < s.rank := by
  have hsensor := h
  unfold Quitting.sensor at h
  cases hp : s.place with
  | test =>
    simp only [hp, hquit, if_true, Option.some.injEq] at h
    subst h
    simp only [Quitting.rank, SensorPlace.rank, hp]
    omega
  | setTimer =>
    simp only [hp, Option.some.injEq] at h
    subst h
    have hle := (timerAfter w s.period s.timer).toNat_le
    simp only [Quitting.rank, SensorPlace.rank, hp]
    omega
  | readPeriod =>
    simp only [hp, Option.some.injEq] at h
    subst h
    have hnext : (if s.samples = 0 then SensorPlace.next else .sample).rank ≤ 9 := by
      split <;> simp [SensorPlace.rank]
    have hp' : SensorPlace.readPeriod.rank = 10 := rfl
    simp only [Quitting.rank, hp]
    omega
  | wait | returned =>
    simp only [hp] at h
    cases h
  | callSem | inSem | store =>
    obtain ⟨sem, place, rfl, hplace⟩ := sensor_sem (by simp [hp]) hsensor
    simp only [hp, reduceCtorEq, false_and, true_and, false_or, or_false] at hplace
    have hlt : place.rank < s.place.rank := by
      rw [hp]
      rcases hplace with rfl | rfl <;> decide
    simp only [Quitting.rank]
    omega
  | readSamples | sample | next | callWait =>
    simp only [hp, Option.some.injEq] at h
    subst h
    simp only [Quitting.rank, SensorPlace.rank, hp]
    omega

theorem SensorPlace.afterAlarm_rank (p : SensorPlace) : p.afterAlarm.rank ≤ p.rank := by
  cases p <;> simp [SensorPlace.afterAlarm, SensorPlace.rank]

theorem SensorPlace.afterUsr2_rank (p : SensorPlace) : p.afterUsr2.rank ≤ p.rank := by
  cases p <;> simp [SensorPlace.afterUsr2, SensorPlace.rank]

/-- Once both signals are sent, every step but the others' brings the end nearer, the thread's own ones when it has
taken SIGUSR2. -/
theorem Quitting.Told.step {w : Nat} {s t : Quitting} {a : QuitAct} (h : s.Told)
    (ha : ∀ v, a = .sensor v → s.usr2 = false) (hs : quitStep w s a = some t) :
    t.Told ∧ t.rank + a.own.toNat ≤ s.rank := by
  obtain ⟨hmain, hsent⟩ := h
  cases a with
  | main =>
    rcases hmain with hmain | hmain
    · simp only [quitStep, hmain, Option.ite_none_right_eq_some, Option.some.injEq] at hs
      obtain ⟨hp, rfl⟩ := hs
      refine ⟨⟨.inr rfl, hsent⟩, ?_⟩
      simp [Quitting.rank, hmain, QuitAct.own]
    · simp only [quitStep, hmain] at hs
      cases hs
  | expire =>
    simp only [quitStep, Option.ite_none_right_eq_some, Option.some.injEq] at hs
    obtain ⟨ht, rfl⟩ := hs
    refine ⟨⟨hmain, hsent⟩, ?_⟩
    have hle := s.alarm.toNat_le
    simp only [Quitting.rank, ht, QuitAct.own, Bool.toNat_true, Bool.toNat_false]
    omega
  | alarm =>
    simp only [quitStep, Option.ite_none_right_eq_some, Option.some.injEq] at hs
    obtain ⟨⟨halarm, -⟩, rfl⟩ := hs
    refine ⟨⟨hmain, hsent⟩, ?_⟩
    have hplace := s.place.afterAlarm_rank
    simp only [Quitting.rank, halarm, QuitAct.own, Bool.toNat_true, Bool.toNat_false]
    omega
  | usr2 =>
    simp only [quitStep, Option.ite_none_right_eq_some, Option.some.injEq] at hs
    obtain ⟨⟨husr2, -⟩, rfl⟩ := hs
    refine ⟨⟨hmain, .inr rfl⟩, ?_⟩
    have hplace := s.place.afterUsr2_rank
    simp only [Quitting.rank, husr2, QuitAct.own, Bool.toNat_true, Bool.toNat_false]
    omega
  | sensor v =>
    have husr2 := ha v rfl
    have hquit : s.quit = true := hsent.resolve_left (by simp [husr2])
    obtain ⟨hm, hq, -⟩ := sensor_frame hs
    exact ⟨⟨by rwa [hm], .inr (by rwa [hq])⟩, sensor_rank hquit hs⟩
  | otherDown | otherUp =>
    obtain ⟨sem, rfl⟩ := quitStep_other rfl hs
    exact ⟨⟨hmain, hsent⟩, le_refl _⟩

theorem Quitting.rank_le (s : Quitting) : s.rank ≤ 38 := by
  have hplace : s.place.rank ≤ 11 := by
    cases s.place <;> simp [SensorPlace.rank]
  have ht := s.timer.toNat_le
  have ha := s.alarm.toNat_le
  have hu := s.usr2.toNat_le
  unfold Quitting.rank
  split <;> omega

/-- The join comes after both signals. -/
def Quitting.Informed (s : Quitting) : Prop := s.main = .join ∨ s.main = .joined → s.usr2 = true ∨ s.quit = true

theorem Quitting.Informed.step {w : Nat} {s t : Quitting} {a : QuitAct} (h : s.Informed)
    (hs : quitStep w s a = some t) : t.Informed := by
  cases a with
  | main =>
    unfold quitStep at hs
    cases hm : s.main with
    | serving | sendAlarm =>
      simp only [hm, Option.some.injEq] at hs
      subst hs
      simp [Quitting.Informed]
    | sendUsr2 =>
      simp only [hm, Option.some.injEq] at hs
      subst hs
      exact fun _ => .inl rfl
    | join =>
      simp only [hm, Option.ite_none_right_eq_some, Option.some.injEq] at hs
      obtain ⟨-, rfl⟩ := hs
      exact fun _ => h (.inl hm)
    | joined =>
      simp only [hm] at hs
      cases hs
  | usr2 =>
    simp only [quitStep, Option.ite_none_right_eq_some, Option.some.injEq] at hs
    obtain ⟨-, rfl⟩ := hs
    exact fun _ => .inr rfl
  | expire | alarm =>
    simp only [quitStep, Option.ite_none_right_eq_some, Option.some.injEq] at hs
    obtain ⟨-, rfl⟩ := hs
    exact h
  | sensor v =>
    obtain ⟨hm, hq, -, hu⟩ := sensor_frame hs
    unfold Quitting.Informed
    rw [hm, hq, hu]
    exact h
  | otherDown | otherUp =>
    obtain ⟨sem, rfl⟩ := quitStep_other rfl hs
    exact h

theorem told_of_run {w : Nat} {guard : Quitting → QuitAct → Prop} {s : Quitting} (h : Run (quitStep w) guard {} s)
    (hjoin : s.main = .join) : s.Told := by
  have hinformed : s.Informed := h.invariant (by simp [Quitting.Informed]) fun _ _ _ hi _ hs => hi.step hs
  exact ⟨.inl hjoin, hinformed (.inl hjoin)⟩

/-! ## The join in time -/

/-- With the period of this pass read, and the timer not yet set -/
def SensorPlace.timing : SensorPlace → Bool
  | .sample | .callSem | .inSem | .store | .next | .setTimer => true
  | _ => false

/-- What is told to the timer stays as it was read. -/
theorem sensor_timing {w : Nat} {v : Int} {s t : Quitting} (hp : s.place.timing = true) (h : s.sensor w v = some t) :
    (∃ sem place, place.timing = true ∧ t = { s with sem := sem, place := place }) ∨
      (s.place = .setTimer ∧ t = { s with timer := timerAfter w s.period s.timer, place := .callWait }) := by
  cases hplace : s.place with
  | sample | next =>
    simp only [Quitting.sensor, hplace, Option.some.injEq] at h
    exact .inl ⟨s.sem, _, rfl, h.symm⟩
  | callSem | inSem | store =>
    obtain ⟨sem, place, rfl, hnext⟩ := sensor_sem (by simp [hplace]) h
    refine .inl ⟨sem, place, ?_, rfl⟩
    rcases hnext with ⟨-, rfl | rfl⟩ | ⟨-, rfl⟩ | ⟨-, rfl⟩ <;> rfl
  | setTimer =>
    simp only [Quitting.sensor, hplace, Option.some.injEq] at h
    exact .inr ⟨rfl, h.symm⟩
  | test | readSamples | readPeriod | callWait | wait | returned =>
    rw [hplace] at hp
    cases hp

/-- What holds in every run in time: the period read is one the timer can be told, and something will end the
wait. -/
structure Quitting.Timely (w : Nat) (s : Quitting) : Prop where
  period : s.place.timing = true → Timed w s.period
  callWait : s.place = .callWait → s.timer = true
  wait : s.place = .wait → s.timer = true ∨ s.alarm = true

theorem Quitting.Timely.init (w : Nat) : Quitting.Timely w {} := by
  constructor <;> simp [SensorPlace.timing]

theorem Quitting.Timely.main {w : Nat} {s t : Quitting} (h : s.Timely w) (hs : quitStep w s .main = some t) :
    t.Timely w := by
  unfold quitStep at hs
  cases hm : s.main with
  | serving | sendUsr2 =>
    simp only [hm, Option.some.injEq] at hs
    subst hs
    exact ⟨h.period, h.callWait, h.wait⟩
  | sendAlarm =>
    simp only [hm, Option.some.injEq] at hs
    subst hs
    exact ⟨h.period, h.callWait, fun _ => .inr rfl⟩
  | join =>
    simp only [hm, Option.ite_none_right_eq_some, Option.some.injEq] at hs
    obtain ⟨-, rfl⟩ := hs
    exact ⟨h.period, h.callWait, h.wait⟩
  | joined =>
    simp only [hm] at hs
    cases hs

/-- The thread on its way from one place to the next -/
theorem Quitting.Timely.sensor {w : Nat} (hw : 0 < w) {s t : Quitting} (h : s.Timely w) {v : Int}
    (hv : s.place = .readPeriod → Timed w v) (hs : s.sensor w v = some t) : t.Timely w := by
  by_cases htiming : s.place.timing = true
  · have hperiod := h.period htiming
    rcases sensor_timing htiming hs with ⟨sem, place, hplace, rfl⟩ | ⟨-, rfl⟩
    · refine ⟨fun _ => hperiod, ?_, ?_⟩
      · rintro (rfl : place = _)
        cases hplace
      · rintro (rfl : place = _)
        cases hplace
    · exact ⟨by simp [SensorPlace.timing], fun _ => timerAfter_of_timed hw hperiod _, by simp⟩
  · unfold Quitting.sensor at hs
    cases hp : s.place with
    | test =>
      simp only [hp, Option.some.injEq] at hs
      subst hs
      cases hq : s.quit with
      | true => constructor <;> simp [SensorPlace.timing]
      | false => constructor <;> simp [SensorPlace.timing]
    | readSamples =>
      simp only [hp, Option.some.injEq] at hs
      subst hs
      constructor <;> simp [SensorPlace.timing]
    | readPeriod =>
      simp only [hp, Option.some.injEq] at hs
      subst hs
      refine ⟨fun _ => hv hp, ?_, ?_⟩
      · intro hc
        split at hc <;> cases hc
      · intro hc
        split at hc <;> cases hc
    | callWait =>
      simp only [hp, Option.some.injEq] at hs
      subst hs
      exact ⟨by simp [SensorPlace.timing], by simp, fun _ => .inl (h.callWait hp)⟩
    | wait | returned =>
      simp only [hp] at hs
      cases hs
    | sample | callSem | inSem | store | next | setTimer => exact absurd (by rw [hp]; rfl) htiming

/-! A signal takes the thread out of a wait, and nowhere else. -/

@[simp] theorem SensorPlace.afterAlarm_timing (p : SensorPlace) : p.afterAlarm.timing = p.timing := by
  cases p <;> rfl

@[simp] theorem SensorPlace.afterUsr2_timing (p : SensorPlace) : p.afterUsr2.timing = p.timing := by
  cases p <;> rfl

@[simp] theorem SensorPlace.afterAlarm_wait (p : SensorPlace) : p.afterAlarm ≠ .wait := by
  cases p <;> simp [SensorPlace.afterAlarm]

@[simp] theorem SensorPlace.afterAlarm_callWait (p : SensorPlace) : p.afterAlarm = .callWait ↔ p = .callWait := by
  cases p <;> simp [SensorPlace.afterAlarm]

@[simp] theorem SensorPlace.afterUsr2_wait (p : SensorPlace) : p.afterUsr2 = .wait ↔ p = .wait := by
  cases p <;> simp [SensorPlace.afterUsr2]

@[simp] theorem SensorPlace.afterUsr2_callWait (p : SensorPlace) : p.afterUsr2 = .callWait ↔ p = .callWait := by
  cases p <;> simp [SensorPlace.afterUsr2]

theorem Quitting.Timely.step {w : Nat} (hw : 0 < w) {s t : Quitting} (h : s.Timely w) {a : QuitAct}
    (hg : s.InTime w a) (hs : quitStep w s a = some t) : t.Timely w := by
  cases a with
  | main => exact h.main hs
  | expire =>
    simp only [quitStep, Option.ite_none_right_eq_some, Option.some.injEq] at hs
    obtain ⟨-, rfl⟩ := hs
    exact ⟨h.period, fun hc => absurd hc hg, fun _ => .inr rfl⟩
  | alarm =>
    simp only [quitStep, Option.ite_none_right_eq_some, Option.some.injEq] at hs
    obtain ⟨-, rfl⟩ := hs
    exact ⟨by simpa using h.period, by simpa using h.callWait, by simp⟩
  | usr2 =>
    simp only [quitStep, Option.ite_none_right_eq_some, Option.some.injEq] at hs
    obtain ⟨-, rfl⟩ := hs
    exact ⟨by simpa using h.period, by simpa using h.callWait, by simpa using h.wait⟩
  | sensor v => exact h.sensor hw hg.2.2 hs
  | otherDown | otherUp =>
    obtain ⟨sem, rfl⟩ := quitStep_other rfl hs
    exact ⟨h.period, h.callWait, h.wait⟩

theorem timed_one {w : Nat} (hw : w = 32 ∨ w = 64) : Timed w 1 := by
  rcases hw with rfl | rfl
  · exact ⟨by decide, by decide, by decide⟩
  · exact ⟨by decide, by decide, by decide⟩

/-- The thread waits in `sem--`, with the semaphore in the hands of another process. -/
def Quitting.Blocked (s : Quitting) : Prop := s.place = .inSem ∧ s.sem = 0

theorem sensor_isSome {w : Nat} {v : Int} {s : Quitting} (hwait : s.place ≠ .wait) (hreturned : s.place ≠ .returned)
    (hsem : ¬ s.Blocked) : (s.sensor w v).isSome = true := by
  unfold Quitting.sensor
  cases hp : s.place with
  | wait => exact absurd hp hwait
  | returned => exact absurd hp hreturned
  | inSem =>
    have hpos : 0 < s.sem := Nat.pos_of_ne_zero fun h0 => hsem ⟨hp, h0⟩
    simp [Sem.op_down, hpos]
  | callSem =>
    by_cases hpos : 0 < s.sem
    · simp [Sem.op_down, hpos]
    · simp [Sem.op_down, hpos]
  | store => simp [Sem.op_up]
  | _ => rfl

/-- Until the join has returned, some step can be taken in time, unless the thread waits for the semaphore. -/
theorem Quitting.Timely.goes_on {w : Nat} (hw : w = 32 ∨ w = 64) {s : Quitting} (h : s.Timely w)
    (hjoin : s.main = .join) (hsem : ¬ s.Blocked) :
    ∃ a : QuitAct, a.own = true ∧ s.InTime w a ∧ (quitStep w s a).isSome = true := by
  by_cases hp : s.place = .returned
  · exact ⟨.main, rfl, trivial, by simp [quitStep, hjoin, hp]⟩
  · by_cases husr2 : s.usr2 = true
    · exact ⟨.usr2, rfl, trivial, by simp [quitStep, husr2, hp]⟩
    · by_cases halarm : s.alarm = true
      · exact ⟨.alarm, rfl, trivial, by simp [quitStep, halarm, hp]⟩
      · rw [Bool.not_eq_true] at husr2 halarm
        by_cases hwait : s.place = .wait
        · have htimer : s.timer = true := (h.wait hwait).resolve_right (by simp [halarm])
          have hne : s.place ≠ .callWait := by simp [hwait]
          exact ⟨.expire, rfl, hne, by simp [quitStep, htimer]⟩
        · exact ⟨.sensor 1, rfl, ⟨halarm, husr2, fun _ => timed_one hw⟩, sensor_isSome hwait hp hsem⟩

/-- The thread waits, with the timer armed for ten seconds, when both signals have been sent. -/
def waiting : Quitting where
  main := .join
  place := .wait
  samples := 5
  period := 10
  timer := true
  alarm := true
  usr2 := true

theorem waiting_run : Run (quitStep 32) (Quitting.InTime 32) {} waiting := by
  have hlist : runList (quitStep 32) (Quitting.InTime 32) {} [.sensor 0, .sensor 5, .sensor 10, .sensor 0, .sensor 0,
    .sensor 0, .sensor 0, .sensor 0, .sensor 0, .main, .main, .main] = some waiting := by decide
  exact .of_runList hlist

/-- No SIGALRM is on its way, and the thread waits for one, or is going to without a timer. -/
def Quitting.WakeLost (w : Nat) (s : Quitting) : Prop :=
  s.alarm = false ∧ s.timer = false ∧ (s.place = .wait ∨ s.place = .callWait ∨
    (s.place.timing = true ∧ timerAfter w s.period false = false))

instance Quitting.decidableWakeLost (w : Nat) (s : Quitting) : Decidable (s.WakeLost w) :=
  inferInstanceAs (Decidable (_ ∧ _))

theorem Quitting.WakeLost.step {w : Nat} {s t : Quitting} {a : QuitAct} (h : s.WakeLost w) (hjoin : s.main = .join)
    (hs : quitStep w s a = some t) : t.WakeLost w ∧ t.main = .join := by
  obtain ⟨halarm, htimer, hplace⟩ := h
  cases a with
  | main =>
    simp only [quitStep, hjoin, Option.ite_none_right_eq_some] at hs
    rw [hs.1] at hplace
    simp [SensorPlace.timing] at hplace
  | expire => simp [quitStep, htimer] at hs
  | alarm => simp [quitStep, halarm] at hs
  | usr2 =>
    simp only [quitStep, Option.ite_none_right_eq_some, Option.some.injEq] at hs
    obtain ⟨-, rfl⟩ := hs
    exact ⟨⟨halarm, htimer, by simpa using hplace⟩, hjoin⟩
  | sensor v =>
    simp only [quitStep] at hs
    rcases hplace with hp | hp | ⟨htiming, hperiod⟩
    · simp only [Quitting.sensor, hp] at hs
      cases hs
    · simp only [Quitting.sensor, hp, Option.some.injEq] at hs
      subst hs
      exact ⟨⟨halarm, htimer, .inl rfl⟩, hjoin⟩
    · rcases sensor_timing htiming hs with ⟨sem, place, hnext, rfl⟩ | ⟨-, rfl⟩
      · exact ⟨⟨halarm, htimer, .inr (.inr ⟨hnext, hperiod⟩)⟩, hjoin⟩
      · rw [htimer]
        exact ⟨⟨halarm, hperiod, .inr (.inl rfl)⟩, hjoin⟩
  | otherDown | otherUp =>
    obtain ⟨sem, rfl⟩ := quitStep_other rfl hs
    exact ⟨⟨halarm, htimer, hplace⟩, hjoin⟩

/-- The other processes keep away from the semaphore, but one gives it back where the thread waits for it. -/
def Quitting.Helped (s : Quitting) : QuitAct → Prop
  | .otherDown => False
  | .otherUp => s.Blocked
  | _ => True

/-- The rank, with the semaphore still to be given back -/
def Quitting.helpRank (s : Quitting) : Nat := 2 * s.rank + if s.sem = 0 then 1 else 0

theorem Quitting.helpRank_lt {s t : Quitting} (h : t.rank < s.rank) : t.helpRank < s.helpRank := by
  unfold Quitting.helpRank
  split <;> split <;> omega

section
variable {w : Nat} {s : Quitting}

/-- With the timer about to go off, or the signal on its way, no wake-up is lost. -/
theorem Quitting.not_wakeLost_of_alarm (h : s.alarm = true) : ¬ s.WakeLost w := by
  rintro ⟨halarm, -⟩
  rw [h] at halarm
  cases halarm

/-- The thread by itself, where its timer is not armed and no SIGUSR2 is left to take -/
theorem Quitting.Told.sensor_nearer (hw : w = 32 ∨ w = 64) (htold : s.Told) (hwake : ¬ s.WakeLost w)
    (husr2 : s.usr2 = false) (htimer : s.timer = false) (hwait : s.place ≠ .wait) (hreturned : s.place ≠ .returned)
    (hsem : ¬ s.Blocked) : ∃ t, s.sensor w 1 = some t ∧ (t.Told ∧ ¬ t.WakeLost w) ∧ t.rank < s.rank := by
  have hquit : s.quit = true := htold.2.resolve_left (by simp [husr2])
  obtain ⟨t, ht⟩ := Option.isSome_iff_exists.1 (sensor_isSome (w := w) (v := 1) hwait hreturned hsem)
  obtain ⟨htold', hlt⟩ := htold.step (a := .sensor 1) (fun _ _ => husr2) ht
  refine ⟨t, ht, ⟨htold', ?_⟩, hlt⟩
  by_cases halarm : s.alarm = true
  · exact Quitting.not_wakeLost_of_alarm ((sensor_frame ht).2.2.1.trans halarm)
  · rw [Bool.not_eq_true] at halarm
    -- only the timer can wake the thread up
    by_cases htiming : s.place.timing = true
    · have hperiod : ¬ timerAfter w s.period false = false :=
        fun hp => hwake ⟨halarm, htimer, .inr (.inr ⟨htiming, hp⟩)⟩
      rcases sensor_timing htiming ht with ⟨sem, place, hplace, rfl⟩ | ⟨-, rfl⟩
      · rintro ⟨-, -, rfl | rfl | ⟨-, hlost⟩⟩
        · cases hplace
        · cases hplace
        · exact hperiod hlost
      · rintro ⟨-, hlost, -⟩
        rw [htimer] at hlost
        exact hperiod hlost
    · unfold Quitting.sensor at ht
      cases hp : s.place with
      | test =>
        simp only [hp, hquit, if_true, Option.some.injEq] at ht
        subst ht
        simp [Quitting.WakeLost, SensorPlace.timing]
      | readSamples =>
        simp only [hp, Option.some.injEq] at ht
        subst ht
        simp [Quitting.WakeLost, SensorPlace.timing]
      | readPeriod =>
        simp only [hp, Option.some.injEq] at ht
        subst ht
        have harmed : timerAfter w 1 false = true := timerAfter_of_timed (by omega) (timed_one hw) false
        rintro ⟨-, -, hc | hc | ⟨-, hc⟩⟩
        · split at hc <;> cases hc
        · split at hc <;> cases hc
        · rw [harmed] at hc
          cases hc
      | callWait => exact absurd ⟨halarm, htimer, .inr (.inl hp)⟩ hwake
      | wait => exact absurd hp hwait
      | returned => exact absurd hp hreturned
      | sample | callSem | inSem | store | next | setTimer => exact absurd (by rw [hp]; rfl) htiming

/-- Where no wake-up is lost, the join can be brought nearer to its end. -/
theorem Quitting.Told.nearer (hw : w = 32 ∨ w = 64) (htold : s.Told) (hwake : ¬ s.WakeLost w)
    (hne : s.main ≠ .joined) :
    ∃ a t, s.Helped a ∧ quitStep w s a = some t ∧ (t.Told ∧ ¬ t.WakeLost w) ∧ t.helpRank < s.helpRank := by
  have hjoin : s.main = .join := htold.1.resolve_right hne
  have hnear : ∀ a t, s.Helped a → a.own = true → (∀ v, a = .sensor v → s.usr2 = false) → quitStep w s a = some t →
      ¬ t.WakeLost w →
      ∃ a t, s.Helped a ∧ quitStep w s a = some t ∧ (t.Told ∧ ¬ t.WakeLost w) ∧ t.helpRank < s.helpRank := by
    rintro a t hhelped hown ha ht hwake'
    obtain ⟨htold', hle⟩ := htold.step ha ht
    rw [hown] at hle
    exact ⟨a, t, hhelped, ht, ⟨htold', hwake'⟩, Quitting.helpRank_lt hle⟩
  by_cases hp : s.place = .returned
  · refine hnear .main { s with main := .joined } trivial rfl (by simp) (by simp [quitStep, hjoin, hp]) ?_
    simp [Quitting.WakeLost, SensorPlace.timing, hp]
  · by_cases husr2 : s.usr2 = true
    · refine hnear .usr2 { s with usr2 := false, quit := true, place := s.place.afterUsr2 } trivial rfl (by simp)
        (by simp [quitStep, husr2, hp]) ?_
      simpa [Quitting.WakeLost] using hwake
    · rw [Bool.not_eq_true] at husr2
      by_cases htimer : s.timer = true
      · exact hnear .expire { s with timer := false, alarm := true } trivial rfl (by simp) (by simp [quitStep, htimer])
          (Quitting.not_wakeLost_of_alarm rfl)
      · rw [Bool.not_eq_true] at htimer
        by_cases hwait : s.place = .wait
        · have halarm : s.alarm = true := by
            by_contra hno
            exact hwake ⟨by simpa using hno, htimer, .inl hwait⟩
          refine hnear .alarm { s with alarm := false, place := .test } trivial rfl (by simp)
            (by simp [quitStep, halarm, hwait, SensorPlace.afterAlarm]) ?_
          simp [Quitting.WakeLost, SensorPlace.timing]
        · by_cases hsem : s.Blocked
          · refine ⟨.otherUp, { s with sem := s.sem + 1 }, hsem, by simp [quitStep, Sem.op_up], ⟨htold, hwake⟩, ?_⟩
            simp [Quitting.helpRank, Quitting.rank, hsem.2]
          · obtain ⟨t, ht, hnext, hlt⟩ := htold.sensor_nearer hw hwake husr2 htimer hwait hp hsem
            exact ⟨.sensor 1, t, trivial, ht, hnext, Quitting.helpRank_lt hlt⟩

end

/-- The join can still come to its end exactly where no wake-up is lost: from a state where one is, no run leads
there, whatever the other processes do, and from any other one leads there in which they do no more than give the
semaphore back where the thread waits for it. -/
theorem join_can_return_iff {w : Nat} (hw : w = 32 ∨ w = 64) {s : Quitting}
    (h : Run (quitStep w) (fun _ _ => True) {} s) (hjoin : s.main = .join) :
    ((∃ t, Run (quitStep w) (fun _ _ => True) s t ∧ t.main = .joined) ↔ ¬ s.WakeLost w) ∧
      (¬ s.WakeLost w → ∃ t, Run (quitStep w) Quitting.Helped s t ∧ t.main = .joined) := by
  have hhelped : ¬ s.WakeLost w → ∃ t, Run (quitStep w) Quitting.Helped s t ∧ t.main = .joined := by
    intro hwake
    have hstep : ∀ s : Quitting, s.Told ∧ ¬ s.WakeLost w → ¬ s.main = .joined → ∃ a t, s.Helped a ∧
        quitStep w s a = some t ∧ (t.Told ∧ ¬ t.WakeLost w) ∧ t.helpRank < s.helpRank := by
      rintro s ⟨htold, hwake⟩ hne
      exact htold.nearer hw hwake hne
    exact Run.exists_of_rank hstep ⟨told_of_run h hjoin, hwake⟩
  refine ⟨⟨?_, fun hwake => ?_⟩, hhelped⟩
  · rintro ⟨t, hrun, hjoined⟩ hlost
    have ht : t.WakeLost w ∧ t.main = .join :=
      hrun.invariant (P := fun s => s.WakeLost w ∧ s.main = .join) ⟨hlost, hjoin⟩ fun _ _ _ hs _ hstep =>
        hs.1.step hs.2 hstep
    rw [ht.2] at hjoined
    cases hjoined
  · obtain ⟨t, hrun, ht⟩ := hhelped hwake
    exact ⟨t, hrun.mono fun _ _ _ => trivial, ht⟩

/-- A period of 0 was read: the thread waits without a timer, and the destructor's SIGALRM came before the wait. In
`waiting` the wake-up is not lost. -/
theorem join_can_return_iff_lost : (∃ s, Run (quitStep 32) (fun _ _ => True) {} s ∧ s.main = .join ∧
    ¬ ∃ t, Run (quitStep 32) (fun _ _ => True) s t ∧ t.main = .joined) ∧
      ∃ t, Run (quitStep 32) Quitting.Helped waiting t ∧ t.main = .joined := by
  have hlist : (runList (quitStep 32) (fun _ _ => True) {} [.sensor 0, .sensor 5, .sensor 0, .sensor 0, .sensor 0,
    .sensor 0, .sensor 0, .main, .main, .alarm, .sensor 0, .sensor 0, .main]).map
      (fun s => (s.main, decide (s.WakeLost 32))) = some (.join, true) := by
    decide
  obtain ⟨s, hs, he⟩ := Option.map_eq_some_iff.1 hlist
  simp only [Prod.mk.injEq, decide_eq_true_eq] at he
  have hrun : Run (quitStep 32) (fun _ _ => True) {} s := .of_runList hs
  refine ⟨⟨s, hrun, he.1, fun hjoin => ?_⟩, ?_⟩
  · exact (join_can_return_iff (.inl rfl) hrun he.1).1.1 hjoin he.2
  · exact (join_can_return_iff (.inl rfl) (waiting_run.mono fun _ _ _ => trivial) rfl).2 (by decide)

end Td3.Server
