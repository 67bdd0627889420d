/-
The sensor thread's timer (server/src/temp_sensor.cpp, server/lib_src/signal.cpp) beside the main thread,
which fills the shared memory: the server's constructor starts the thread before it writes `data`, and
`update_configuration` changes one integer after the other, while the thread reads them without a lock.
-/
import Td3.Lib.Run
import Td3.Server.Config

namespace Td3.Server

/-! ## The source functions -/

/-- The value of an expression in a signed type of `w` bits, which wraps. -/
def wrap (w : Nat) (i : Int) : Int := i.bmod (2 ^ w)

/-- `it_value`: seconds and microseconds. -/
structure Timeval where
  sec : Int := 0
  usec : Int := 0
deriving DecidableEq, Repr

/-- `Signal::set_timer_single_shot(msec)` with a `time_t` of `w` bits: the `it_value` it gives to
`setitimer()`. -/
def setTimerSingleShot (w : Nat) (msec : Int) : Timeval where
  sec := msec.tdiv 1000
  usec := (wrap w (msec * 1000)).tmod 1000000

/-- The main thread: in the constructor before `shm << data`, outside `update_configuration`, in its loop
with the lines left, or in its branch without a file with the defaults left to write. -/
inductive MainThread where
  | constructor
  | running
  | updating (lines : List (List UInt8))
  | defaults (keys : List Key)

/-- The sensor thread in `read_sensor`: before each read of the shared memory, before the timer is set,
and about to block in `wait_and_ignore(SIGALRM)`. -/
inductive SensorThread where
  | readSamples
  | readPeriod
  | setTimer
  | wait
deriving DecidableEq, Repr

/-- Both threads. A new shared memory is zeroed. -/
structure Sensing where
  main : MainThread := .constructor
  shm : ServerData := {}
  sensor : SensorThread := .readSamples
  samples : Int := 0
  period : Int := 0
  itValue : Timeval := {}

/-- A step: of the main thread, which may start an update with the contents of the configuration file, or
of the sensor thread. -/
inductive SensingAct where
  | main
  | update (file : Option (List UInt8))
  | sensor

def mainStep (s : Sensing) : Option Sensing :=
  match s.main with
  | .constructor => some { s with shm := {}, main := .running }
  | .running => none
  | .updating [] => some { s with main := .running }
  | .updating (line :: lines) =>
    (updateLine line s.shm).map fun shm => { s with shm, main := .updating lines }
  | .defaults [] => some { s with main := .running }
  | .defaults (k :: ks) => some { s with shm := k.set s.shm k.default, main := .defaults ks }

def updateStep (s : Sensing) (file : Option (List UInt8)) : Option Sensing :=
  match s.main, file with
  | .running, none => some { s with main := .defaults keys }
  | .running, some bytes => some { s with main := .updating (CString.fgetsAll 255 bytes) }
  | _, _ => none

/-- `period * 1000` is an `int`. -/
def sensorStep (w : Nat) (s : Sensing) : Sensing :=
  match s.sensor with
  | .readSamples => { s with samples := s.shm.samplesMovingAverageFilter, sensor := .readPeriod }
  | .readPeriod => { s with period := s.shm.sensorPeriod, sensor := .setTimer }
  | .setTimer => { s with itValue := setTimerSingleShot w (wrap 32 (s.period * 1000)), sensor := .wait }
  | .wait => { s with sensor := .readSamples }

def sensingStep (w : Nat) (s : Sensing) : SensingAct → Option Sensing
  | .main => mainStep s
  | .update file => updateStep s file
  | .sensor => some (sensorStep w s)

/-! ## The timer -/

/-- A value that arms the timer, for exactly this many seconds. -/
def Timeval.Arms (t : Timeval) (seconds : Int) : Prop :=
  (0 ≤ t.usec ∧ t.usec < 1000000) ∧ 0 < t.sec * 1000000 + t.usec ∧
    t.sec * 1000000 + t.usec = seconds * 1000000

instance (t : Timeval) (seconds : Int) : Decidable (t.Arms seconds) := inferInstanceAs (Decidable (_ ∧ _))

/-- A period that can be told in milliseconds in an `int` and in microseconds in a `time_t`. -/
def Timed (w : Nat) (period : Int) : Prop := 1 ≤ period ∧ period * 1000 < 2 ^ 31 ∧ period * 1000000 < 2 ^ (w - 1)

theorem wrap_eq {w : Nat} {i : Int} (hw : 0 < w) (h0 : 0 ≤ i) (h : i < 2 ^ (w - 1)) : wrap w i = i := by
  obtain ⟨v, rfl⟩ := Nat.exists_eq_succ_of_ne_zero hw.ne'
  rw [Nat.succ_sub_one] at h
  refine Int.bmod_eq_of_le ?_ ?_
  · have hneg : -(((2 ^ (v + 1) : Nat) : Int) / 2) ≤ 0 := by
      rw [Left.neg_nonpos_iff]
      positivity
    exact hneg.trans h0
  · push_cast
    rw [pow_succ]
    omega

theorem setTimerSingleShot_arms {w : Nat} (hw : 0 < w) {period : Int} (h : Timed w period) :
    (setTimerSingleShot w (wrap 32 (period * 1000))).Arms period := by
  obtain ⟨hpos, hmsec, husec⟩ := h
  have hm : wrap 32 (period * 1000) = period * 1000 := wrap_eq (by decide) (by omega) hmsec
  have hu : wrap w (period * 1000 * 1000) = period * 1000000 := by
    rw [mul_assoc]
    exact wrap_eq hw (by omega) husec
  rw [hm]
  unfold setTimerSingleShot
  rw [hu, Int.mul_tdiv_cancel _ (by decide), Int.mul_tmod_left]
  unfold Timeval.Arms
  dsimp only
  omega

/-- Microseconds that wrapped around in 32 bits are no whole number of seconds. -/
theorem usec_ne_zero {period : Int} (hpos : 1 ≤ period) (hmsec : period * 1000 < 2 ^ 31)
    (hover : 2 ^ 31 ≤ period * 1000000) : (wrap 32 (period * 1000000)).tmod 1000000 ≠ 0 := by
  intro h
  have hdvd : (1000000 : Int) ∣ wrap 32 (period * 1000000) := Int.dvd_of_tmod_eq_zero h
  unfold wrap at hdvd
  obtain ⟨q, hq⟩ := hdvd
  have hle := Int.bmod_lt (x := period * 1000000) (m := 2 ^ 32) (by decide)
  have hge := Int.le_bmod (x := period * 1000000) (m := 2 ^ 32) (by decide)
  obtain ⟨k, hk⟩ : ∃ k, period * 1000000 = (period * 1000000).bmod (2 ^ 32) + 2 ^ 32 * k :=
    ⟨_, (Int.bmod_add_bdiv _ _).symm⟩
  omega

theorem Timed.of_arms {w : Nat} (hw : w = 32 ∨ w = 64) {period : Int}
    (h : (setTimerSingleShot w (wrap 32 (period * 1000))).Arms period) : Timed w period := by
  obtain ⟨⟨husec0, husec⟩, hpos, heq⟩ := h
  have hperiod : 1 ≤ period := by omega
  have hle : wrap 32 (period * 1000) < 2 ^ 31 := Int.bmod_lt (m := 2 ^ 32) (by decide)
  have hsec : (setTimerSingleShot w (wrap 32 (period * 1000))).sec = period := by omega
  have hmsec : period * 1000 < 2 ^ 31 := by
    by_contra hover
    change (wrap 32 (period * 1000)).tdiv 1000 = period at hsec
    have hdiv := Int.mul_tdiv_add_tmod (wrap 32 (period * 1000)) 1000
    have hmod := Int.lt_tmod_of_pos (wrap 32 (period * 1000)) (show (0 : Int) < 1000 by decide)
    rw [hsec] at hdiv
    have hnonneg : 0 ≤ (wrap 32 (period * 1000)).tmod 1000 := Int.tmod_nonneg _ (by omega)
    omega
  have hm : wrap 32 (period * 1000) = period * 1000 := wrap_eq (by decide) (by omega) hmsec
  refine ⟨hperiod, hmsec, ?_⟩
  rcases hw with rfl | rfl
  · by_contra hover
    have husec' : (setTimerSingleShot 32 (wrap 32 (period * 1000))).usec = 0 := by omega
    unfold setTimerSingleShot at husec'
    rw [hm, mul_assoc] at husec'
    exact usec_ne_zero hperiod hmsec (by omega) husec'
  · omega

theorem arms_iff {w : Nat} (hw : w = 32 ∨ w = 64) (period : Int) :
    (setTimerSingleShot w (wrap 32 (period * 1000))).Arms period ↔ Timed w period :=
  ⟨Timed.of_arms hw, setTimerSingleShot_arms (by omega)⟩

/-! ## The sensor thread among the others -/

/-- About to block, the thread has set the timer from the period it read. -/
def Sensing.Set (w : Nat) (s : Sensing) : Prop :=
  s.sensor = .wait → s.itValue = setTimerSingleShot w (wrap 32 (s.period * 1000))

/-- The main thread leaves the locals of the sensor thread alone. -/
theorem mainStep_sensor {s t : Sensing} (h : mainStep s = some t ∨ ∃ file, updateStep s file = some t) :
    t.sensor = s.sensor ∧ t.period = s.period ∧ t.itValue = s.itValue := by
  rcases h with h | ⟨file, h⟩
  · unfold mainStep at h
    split at h
    · cases h; exact ⟨rfl, rfl, rfl⟩
    · cases h
    · cases h; exact ⟨rfl, rfl, rfl⟩
    · obtain ⟨shm, -, rfl⟩ := Option.map_eq_some_iff.1 h
      exact ⟨rfl, rfl, rfl⟩
    · cases h; exact ⟨rfl, rfl, rfl⟩
    · cases h; exact ⟨rfl, rfl, rfl⟩
  · unfold updateStep at h
    split at h
    · cases h; exact ⟨rfl, rfl, rfl⟩
    · cases h; exact ⟨rfl, rfl, rfl⟩
    · cases h

theorem Sensing.Set.step {w : Nat} {s t : Sensing} (h : s.Set w) {a : SensingAct} (hs : sensingStep w s a = some t) :
    t.Set w := by
  have hmain : (mainStep s = some t ∨ ∃ file, updateStep s file = some t) → t.Set w := by
    intro hm hwait
    obtain ⟨hsensor, hperiod, hvalue⟩ := mainStep_sensor hm
    rw [hvalue, hperiod]
    exact h (hsensor ▸ hwait)
  cases a with
  | main => exact hmain (.inl hs)
  | update file => exact hmain (.inr ⟨file, hs⟩)
  | sensor =>
    cases hs
    unfold sensorStep
    split <;> intro hwait
    · cases hwait
    · cases hwait
    · rfl
    · cases hwait

/-- In every run of both threads, and whatever the configuration file: about to block, the sensor thread has
armed the timer for the period it read exactly when that is a second or more and fits. -/
theorem armed_iff {w : Nat} (hw : w = 32 ∨ w = 64) {s : Sensing}
    (hrun : Run (sensingStep w) (fun _ _ => True) {} s) (hwait : s.sensor = .wait) :
    s.itValue.Arms s.period ↔ Timed w s.period := by
  have hset : s.Set w := hrun.invariant nofun fun _ _ _ h _ hs => h.step hs
  rw [hset hwait]
  exact arms_iff hw s.period

/-! ## Two runs -/

/-- The constructor, an update without a file, and an iteration: 1000 seconds. -/
def defaultRun : List SensingAct :=
  [.main, .update none, .main, .main, .main, .main, .main, .sensor, .sensor, .sensor]

theorem armed_default :
    ∃ s, Run (sensingStep 32) (fun _ _ => True) {} s ∧ s.sensor = .wait ∧ s.itValue.Arms 1000 := by
  have hrun : (runList (sensingStep 32) (fun _ _ => True) {} defaultRun).isSome = true := by decide
  obtain ⟨s, hs⟩ := Option.isSome_iff_exists.1 hrun
  have hwait : s.sensor = .wait ∧ s.period = 1000 := by
    cases hs
    exact ⟨rfl, rfl⟩
  obtain ⟨hwait, hperiod⟩ := hwait
  refine ⟨s, .of_runList hs, hwait, ?_⟩
  rw [← hperiod]
  refine (armed_iff (.inl rfl) (.of_runList hs) hwait).2 ?_
  rw [hperiod]
  exact ⟨by decide, by decide, by decide⟩

/-- The thread's first iteration may come before any configuration: it blocks with the timer disarmed. -/
theorem not_armed :
    ¬ ∀ w s, (w = 32 ∨ w = 64) → Run (sensingStep w) (fun _ _ => True) {} s → s.sensor = .wait →
      s.itValue.Arms s.period := by
  intro h
  have hrun : runList (sensingStep 64) (fun _ _ => True) {} [.sensor, .sensor, .sensor] =
    some { sensor := .wait } := rfl
  exact absurd (h 64 _ (.inr rfl) (.of_runList hrun) rfl) (by decide)

end Td3.Server
