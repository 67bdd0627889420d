/-
The slaves behind the I2C driver, and what concurrent callers of `cotti_i2c_read` and
`cotti_i2c_write` find there. A call reaches its slave at one step of its transaction: a write when the
handler puts the value into DATA, a read when the controller receives the byte. In the order of these
steps the calls are calls of the `I2cBus` that bmp280.c is written over, each made at once.

A call is logged at that step, with what it is to return, and no step reads the log.
-/
import Td3.Lib.Sequential
import Td3.Driver.Bmp280
import Td3.Driver.I2cOutcomes

namespace Td3.Driver

/-! ## The slaves -/

/-- What the slaves do with a byte stored at a register, and with a register that is asked for. -/
structure Slaves (σ : Type) where
  put (slave reg value : BitVec 8) : σ → σ
  fetch (slave reg : BitVec 8) : σ → BitVec 8 × σ

/-- The driver's calls, each made at once. -/
def Slaves.bus {σ : Type} (p : Slaves σ) : I2cBus σ where
  read address slave s := (((p.fetch slave address s).1).setWidth 32, (p.fetch slave address s).2)
  write value regAddress slave s := (0, p.put slave regAddress value s)

def I2cBus.object {σ : Type} (bus : I2cBus σ) : Object σ Request Int
  | .read address slave, s => ((bus.read address slave s).1.toInt, (bus.read address slave s).2)
  | .write value regAddress slave, s =>
    ((bus.write value regAddress slave s).1.toInt, (bus.write value regAddress slave s).2)

/-- The slaves of bmp280.c's sensor: one, which answers at every address. -/
def Registers.slaves : Slaves Registers where
  put _ reg value regs := Function.update regs reg value
  fetch _ reg regs := (regs reg, regs)

theorem Registers.slaves_bus : Registers.slaves.bus = sensorBus := rfl

/-- The driver and the slaves: each slave's register pointer, and whether the next byte is the first
after a START. -/
structure Wired (ι σ : Type) where
  bus : Bus ι := {}
  slaves : σ
  pointers : BitVec 8 → BitVec 8
  first : Bool := true
  effects : List (Entry (ι × Nat) Request Int) := []

section
variable {ι σ : Type}

/-- The last call of `i`, as logged. -/
def Wired.entry (w : Wired ι σ) (i : ι) (r : Request) (answer : Int) : Entry (ι × Nat) Request Int where
  id := (i, (w.bus.callers i).calls)
  request := r
  answer := answer

/-- The log with the call that holds the mutex. -/
def Wired.log (w : Wired ι σ) (answer : Int) : List (Entry (ι × Nat) Request Int) :=
  match w.bus.lock with
  | some i =>
    match (w.bus.callers i).state with
    | .running r _ => w.effects ++ [w.entry i r answer]
    | _ => w.effects
  | none => w.effects

/-- A slave takes a byte: the first after a START is the register, the next goes into it. -/
def Wired.take (p : Slaves σ) (w : Wired ι σ) (byte : BitVec 8) : Wired ι σ :=
  let slave := w.bus.dev.slave
  if w.first then { w with pointers := Function.update w.pointers slave byte, first := false }
  else { w with slaves := p.put slave (w.pointers slave) byte w.slaves, effects := w.log 0 }

/-- The slaves' part in a step of the system; none where they would send another byte. -/
def Wired.wire (p : Slaves σ) (w : Wired ι σ) : Action ι → Option (Wired ι σ)
  | .step i _ =>
    match (w.bus.callers i).state with
    | .running _ .startTx => some { w with first := true }
    | _ => some w
  | .isr =>
    match w.bus.dev.isr with
    | .xrdyWrite _ => some (w.take p (w.bus.dev.gWrite w.bus.dev.gLen.toNat))
    | _ => some w
  | .event (.rrdy _ byte) =>
    let slave := w.bus.dev.slave
    let sent := p.fetch slave (w.pointers slave) w.slaves
    if byte = sent.1 then some { w with slaves := sent.2, effects := w.log byte.toNat } else none
  | _ => some w

def wiredStep [DecidableEq ι] (p : Slaves σ) (w : Wired ι σ) (a : Action ι) : Option (Wired ι σ) :=
  (busStep w.bus a).bind fun bus => (w.wire p a).map fun w' => { w' with bus := bus }

/-- No wait times out or is interrupted, a caller goes on only when the handler is not running, and the
handler stores no byte while some caller has unlocked the mutex and not yet loaded `g_read`. -/
def Wired.Smooth (w : Wired ι σ) (a : Action ι) : Prop :=
  match a with
  | .step _ o => o = .met ∧ w.bus.dev.isr = .idle
  | .isr => w.bus.KeepsLoads .isr
  | _ => True

instance Wired.decidableSmooth [Fintype ι] [DecidableEq ι] (w : Wired ι σ) : ∀ a, Decidable (w.Smooth a)
  | .step _ o => inferInstanceAs (Decidable (o = .met ∧ w.bus.dev.isr = .idle))
  | .isr => inferInstanceAs (Decidable (w.bus.KeepsLoads .isr))
  | .call .. | .event _ => inferInstanceAs (Decidable True)

/-! ## Where a call stands -/

/-- The register a call names. -/
def Request.reg : Request → BitVec 8
  | .read address _ => address
  | .write _ regAddress _ => regAddress

def Request.isRead : Request → Bool
  | .read .. => true
  | .write .. => false

/-- The call has reached its slave. -/
def Applied (r : Request) (d : Dev ι) : Pc → Prop
  | .waitLen | .waitStopTx => r.isRead = false ∧ d.pending + d.owed = 0
  | .reinitStopTx _ => r.isRead = false
  | .waitRead => ∀ t ∈ d.transfers, t.left = 0
  | .waitStopRx | .reinitRead _ | .reinitStopRx _ | .unlock _ | .load => True
  | _ => False

/-- The slave knows the register. -/
def Wired.Pointed (w : Wired ι σ) (r : Request) : Prop :=
  w.bus.dev.slave = r.slave ∧ w.pointers r.slave = r.reg

/-- What the slave of call `r` knows of it, at each place inside the mutex. -/
def Wired.Selected (w : Wired ι σ) (r : Request) : Pc → Prop
  | .waitLen | .waitStopTx => w.bus.dev.slave = r.slave ∧
    (w.bus.dev.pending + w.bus.dev.owed = r.bytes.length ∧ w.first = true ∨
      w.bus.dev.pending + w.bus.dev.owed < r.bytes.length ∧ w.first = false ∧ w.pointers r.slave = r.reg)
  | .reinitStopTx _ => w.Pointed r
  | .setLenRx | .setCntRx | .startRx | .waitRead => r.isRead = true ∧ w.Pointed r
  | .waitStopRx | .reinitRead _ | .reinitStopRx _ | .load => r.isRead = true
  | _ => True

/-- What call number `n` of `i` is to return. -/
def Dev.Answers (d : Dev ι) (i : ι) (n : Nat) (v : Int) : Request → Prop
  | .write .. => v = 0
  | .read .. => ∃ byte, d.received i n = some byte ∧ v = byte.toNat

/-- Call number `n` of `i` is not in the log. -/
def Unlogged (log : List (Entry (ι × Nat) Request Int)) (i : ι) (n : Nat) : Prop := ∀ e ∈ log, e.id ≠ (i, n)

/-- The last call of `i` is in the log when it has reached its slave, with what it is to return. -/
def Recorded (log : List (Entry (ι × Nat) Request Int)) (d : Dev ι) (i : ι) (c : Caller) : Prop :=
  match c.state with
  | .idle => Unlogged log i c.calls
  | .running r pc =>
    (Applied r d pc → ∃ v, d.Answers i c.calls v r ∧ ⟨(i, c.calls), r, v⟩ ∈ log) ∧
      (¬ Applied r d pc → Unlogged log i c.calls)
  | .returned r v => (0 ≤ v → ⟨(i, c.calls), r, v⟩ ∈ log) ∧ (v < 0 → Unlogged log i c.calls)

/-- What the invariant says of one caller. -/
structure Wired.Place (w : Wired ι σ) (i : ι) (c : Caller) : Prop where
  wire : ∀ r pc, c.state = .running r pc → pc.critical = true → ∃ base, Wire base r w.bus.dev pc
  selected : ∀ r pc, c.state = .running r pc → w.Selected r pc
  recorded : Recorded w.effects w.bus.dev i c

structure Wired.Inv (p : Slaves σ) (s0 : σ) (w : Wired ι σ) : Prop where
  bus : Driver.Inv w.bus
  free : w.bus.lock = none → NoXrdy w.bus.dev
  legal : Legal p.bus.object s0 w.effects w.slaves
  once : (w.effects.map Entry.id).Nodup
  invoked : ∀ e ∈ w.effects, e.id.2 ≤ (w.bus.callers e.id.1).calls
  place : ∀ i, w.Place i (w.bus.callers i)

/-! ## The bytes of a transmission -/

/-- What is left to send, by what has been sent. -/
theorem Sending.left {all : List (BitVec 8 × BitVec 8)} {d : Dev ι} (h : Sending all d) :
    d.pending + d.owed + d.sent.length = all.length := by
  have hw := congrArg List.length h.wire
  simp only [List.length_append, Dev.unsent, List.length_map, List.length_reverse, List.length_range] at hw
  omega

/-- The byte the handler is about to put into DATA is the first of the call's that are left. -/
theorem Sending.next {base : List (BitVec 8 × BitVec 8)} {r : Request} {d : Dev ι} {irq : IrqStatus}
    (h : Sending (base ++ r.wire) d) (hi : d.isr = .xrdyWrite irq) (hle : d.pending + d.owed ≤ r.bytes.length) :
    0 < d.pending + d.owed ∧
      r.bytes[r.bytes.length - (d.pending + d.owed)]? = some (d.gWrite d.gLen.toNat) := by
  have hx : d.status.xrdy = true := h.hand (by simp [hi, Isr.xrdyPre])
  have hp : d.pending = 1 := by simp [Dev.pending, hx, hi, Isr.xrdyHeld]
  have hl : d.gLen.toNat = d.owed := by
    have hlen := h.len
    simp only [hi, Isr.lowered, hp] at hlen
    omega
  have hsent : d.sent.length = base.length + (r.bytes.length - (d.pending + d.owed)) := by
    have hleft := h.left
    rw [List.length_append, Request.wire, List.length_map] at hleft
    omega
  refine ⟨by omega, ?_⟩
  -- the byte at that place on the bus, read off both sides
  have hw := congrArg (fun l => l[d.sent.length]?) h.wire
  simp only [Dev.unsent_succ (d := d) (show d.pending + d.owed = d.owed + 1 by omega)] at hw
  rw [List.getElem?_append_right (le_refl _), Nat.sub_self, hsent, List.getElem?_append_right (by omega),
    Nat.add_sub_cancel_left, Request.wire, List.getElem?_map] at hw
  obtain ⟨b, hb, he⟩ := Option.map_eq_some_iff.1 hw.symm
  have hbyte : b = d.gWrite d.owed := congrArg Prod.snd he
  rw [hl, ← hbyte]
  exact hb

theorem isrStep_sends_none {d d' : Dev ι} (hs : isrStep d = some d') (hi : ∀ irq, d.isr ≠ .xrdyWrite irq) :
    d'.sent = d.sent := by
  unfold isrStep at hs
  split at hs <;> simp only [Option.some.injEq] at hs <;> subst hs <;> grind

/-! ## Callers away from the mutex -/

theorem Applied.outside {r : Request} {pc : Pc} (hc : pc.critical = false) (d d' : Dev ι) :
    Applied r d' pc ↔ Applied r d pc := by
  cases pc <;> first | exact Iff.rfl | cases hc

theorem Wired.Selected.outside {w : Wired ι σ} {r : Request} {pc : Pc} (hc : pc.critical = false)
    (h : w.Selected r pc) (w' : Wired ι σ) : w'.Selected r pc := by
  cases pc <;> first | exact h | cases hc

theorem Dev.Answers.congr {d d' : Dev ι} {i : ι} {n : Nat} {v : Int} {r : Request}
    (hr : d'.received i n = d.received i n) (h : d.Answers i n v r) : d'.Answers i n v r := by
  cases r with
  | read a b => simpa only [Dev.Answers, hr] using h
  | write a b c => exact h

/-- A log that is the same on the caller's last call, and a device that is the same on its byte. -/
theorem Recorded.congr {log log' : List (Entry (ι × Nat) Request Int)} {d d' : Dev ι} {i : ι} {c : Caller}
    (h : Recorded log d i c) (hin : ∀ e ∈ log, e ∈ log') (hun : Unlogged log i c.calls → Unlogged log' i c.calls)
    (hr : d'.received i c.calls = d.received i c.calls)
    (ha : ∀ r pc, c.state = .running r pc → (Applied r d' pc ↔ Applied r d pc)) : Recorded log' d' i c := by
  unfold Recorded at h ⊢
  split at h
  · exact hun h
  · rename_i r pc hst
    refine ⟨fun hap => ?_, fun hap => ?_⟩
    · obtain ⟨v, hv, he⟩ := h.1 ((ha r pc hst).1 hap)
      exact ⟨v, hv.congr hr, hin _ he⟩
    · exact hun (h.2 fun hap' => hap ((ha r pc hst).2 hap'))
  · exact ⟨fun hv => hin _ (h.1 hv), fun hv => hun (h.2 hv)⟩

/-- A step of others, which logs no call of this caller. -/
theorem Wired.Place.outside {w w' : Wired ι σ} {i : ι} {c : Caller} (h : w.Place i c)
    (hc : ∀ r pc, c.state = .running r pc → pc.critical = false) (hin : ∀ e ∈ w.effects, e ∈ w'.effects)
    (hun : Unlogged w.effects i c.calls → Unlogged w'.effects i c.calls)
    (hr : w'.bus.dev.received i c.calls = w.bus.dev.received i c.calls) : w'.Place i c where
  wire r pc hst hcr := by
    rw [hc r pc hst] at hcr
    cases hcr
  selected r pc hst := (h.selected r pc hst).outside (hc r pc hst) w'
  recorded := h.recorded.congr hin hun hr fun r pc hst => Applied.outside (hc r pc hst) _ _

theorem Unlogged.append {log : List (Entry (ι × Nat) Request Int)} {i : ι} {n : Nat}
    {e : Entry (ι × Nat) Request Int} (h : Unlogged log i n) (he : e.id ≠ (i, n)) : Unlogged (log ++ [e]) i n := by
  intro e' he'
  rcases List.mem_append.1 he' with he' | he'
  · exact h e' he'
  · rw [List.mem_singleton.1 he']
    exact he

/-! ## The handler and the controller -/

theorem Inv.phase_at {s : Bus ι} (h : Driver.Inv s) {i : ι} {r : Request} {pc : Pc}
    (hst : (s.callers i).state = .running r pc) (hc : pc.critical = true) :
    PhaseInv (pc.phase i (s.callers i).calls r) s.dev := by
  have hl : s.lock = some i := (h.holder i).2 ⟨r, pc, hst, hc⟩
  simpa only [Bus.phase, hl, hst] using h.phase

/-- Only the holder of the mutex is at a place inside it. -/
theorem Inv.other {s : Bus ι} (h : Driver.Inv s) {i j : ι} (hl : s.lock = some i) (hj : j ≠ i) {r : Request} {pc : Pc}
    (hst : (s.callers j).state = .running r pc) : pc.critical = false := by
  cases hc : pc.critical with
  | false => rfl
  | true =>
    have := (h.holder j).2 ⟨r, pc, hst, hc⟩
    rw [hl] at this
    exact absurd (Option.some.inj this).symm hj

/-- A step of the device by which no byte reaches a slave and none leaves it. -/
theorem Wired.Place.keep {w : Wired ι σ} {i : ι} {c : Caller} (h : w.Place i c) {d : Dev ι}
    (hslave : d.slave = w.bus.dev.slave) (hsent : d.sent = w.bus.dev.sent)
    (hr : d.received i c.calls = w.bus.dev.received i c.calls)
    (hwire : ∀ base r pc, c.state = .running r pc → pc.critical = true → Wire base r w.bus.dev pc → Wire base r d pc)
    (hleft : ∀ r, c.state = .running r .waitRead →
      ((∀ t ∈ d.transfers, t.left = 0) ↔ ∀ t ∈ w.bus.dev.transfers, t.left = 0)) :
    Wired.Place { w with bus := { w.bus with dev := d } } i c := by
  have hcount : ∀ r pc, c.state = .running r pc → pc = .waitLen ∨ pc = .waitStopTx →
      d.pending + d.owed = w.bus.dev.pending + w.bus.dev.owed := by
    intro r pc hst hpc
    have hcr : pc.critical = true := by rcases hpc with rfl | rfl <;> rfl
    obtain ⟨base, hw⟩ := h.wire r pc hst hcr
    have hw' := hwire base r pc hst hcr hw
    have h1 : Sending (base ++ r.wire) w.bus.dev := by rcases hpc with rfl | rfl <;> exact hw
    have h2 : Sending (base ++ r.wire) d := by rcases hpc with rfl | rfl <;> exact hw'
    have hl1 := h1.left
    have hl2 := h2.left
    rw [hsent] at hl2
    omega
  refine ⟨fun r pc hst hcr => ?_, fun r pc hst => ?_, ?_⟩
  · obtain ⟨base, hw⟩ := h.wire r pc hst hcr
    exact ⟨base, hwire base r pc hst hcr hw⟩
  · have hsel := h.selected r pc hst
    cases pc
    case waitLen | waitStopTx =>
      have heq := hcount r _ hst (by simp)
      unfold Wired.Selected at hsel ⊢
      simp only [heq, hslave]
      exact hsel
    all_goals first
      | exact hsel
      | (unfold Wired.Selected Wired.Pointed at hsel ⊢; simp only [hslave]; exact hsel)
  · refine h.recorded.congr (fun _ he => he) id hr fun r pc hst => ?_
    cases pc
    case waitLen | waitStopTx =>
      have heq := hcount r _ hst (by simp)
      unfold Applied
      rw [heq]
    case waitRead => exact hleft r hst
    all_goals exact Iff.rfl

/-- The same for all callers. -/
theorem Wired.Inv.keep {p : Slaves σ} {s0 : σ} {w : Wired ι σ} (h : w.Inv p s0) {d : Dev ι}
    (hbus : Driver.Inv { w.bus with dev := d }) (hfree : w.bus.lock = none → NoXrdy d)
    (hplace : ∀ i, Wired.Place { w with bus := { w.bus with dev := d } } i (w.bus.callers i)) :
    Wired.Inv p s0 { w with bus := { w.bus with dev := d } } where
  bus := hbus
  free := hfree
  legal := h.legal
  once := h.once
  invoked := h.invoked
  place := hplace

theorem Wired.log_held {w : Wired ι σ} {i : ι} {r : Request} {pc : Pc} (hl : w.bus.lock = some i)
    (hst : (w.bus.callers i).state = .running r pc) (v : Int) :
    w.log v = w.effects ++ [w.entry i r v] := by
  unfold Wired.log
  simp only [hl, hst]

/-- Logging the last call of a caller that is not in the log. -/
theorem Wired.Inv.append {p : Slaves σ} {s0 : σ} {w : Wired ι σ} (h : w.Inv p s0) {i : ι} {r : Request} {v : Int}
    (hun : Unlogged w.effects i (w.bus.callers i).calls) :
    ((w.effects ++ [w.entry i r v]).map Entry.id).Nodup ∧
      ∀ e ∈ w.effects ++ [w.entry i r v], e.id.2 ≤ (w.bus.callers e.id.1).calls := by
  constructor
  · rw [List.map_append, List.nodup_append]
    refine ⟨h.once, List.nodup_singleton _, ?_⟩
    intro a ha b hb
    obtain ⟨e, he, rfl⟩ := List.mem_map.1 ha
    rw [List.mem_singleton.1 hb]
    exact hun e he
  · intro e he
    rcases List.mem_append.1 he with he | he
    · exact h.invoked e he
    · rw [List.mem_singleton.1 he]
      exact le_refl _

/-- While the handler has a byte to write, a call is transmitting. -/
theorem Wired.Inv.transmitting {p : Slaves σ} {s0 : σ} {w : Wired ι σ} (h : w.Inv p s0) {irq : IrqStatus}
    (hi : w.bus.dev.isr = .xrdyWrite irq) :
    ∃ i r pc base, w.bus.lock = some i ∧ (w.bus.callers i).state = .running r pc ∧ (pc = .waitLen ∨ pc = .waitStopTx) ∧
      Sending (base ++ r.wire) w.bus.dev := by
  have hnone : ¬ NoXrdy w.bus.dev := by
    rintro ⟨hpre, -⟩
    rw [hi] at hpre
    cases hpre
  cases hl : w.bus.lock with
  | none => exact absurd (h.free hl) hnone
  | some i =>
    obtain ⟨r, pc, hst, hc⟩ := (h.bus.holder i).1 hl
    obtain ⟨base, hw⟩ := (h.place i).wire r pc hst hc
    refine ⟨i, r, pc, base, rfl, hst, ?_⟩
    cases pc
    case waitLen => exact ⟨.inl rfl, hw⟩
    case waitStopTx => exact ⟨.inr rfl, hw⟩
    all_goals exact absurd hw.1 hnone

/-- A step by which the last call of `i` reaches its slave, or only tells it the register: the other
callers have no part in it. -/
theorem Wired.Inv.others {p : Slaves σ} {s0 : σ} {w w' : Wired ι σ} (h : w.Inv p s0) {i j : ι}
    (hl : w.bus.lock = some i) (hj : j ≠ i) {r : Request} {v : Int}
    (heff : w'.effects = w.effects ∨ w'.effects = w.effects ++ [w.entry i r v])
    (hr : w'.bus.dev.received j (w.bus.callers j).calls = w.bus.dev.received j (w.bus.callers j).calls) :
    w'.Place j (w.bus.callers j) := by
  refine (h.place j).outside (fun r' pc' hst => h.bus.other hl hj hst) ?_ ?_ hr
  · intro e he
    rcases heff with heff | heff
    · rw [heff]
      exact he
    · rw [heff]
      exact List.mem_append_left _ he
  · intro hun
    rcases heff with heff | heff
    · rw [heff]
      exact hun
    · rw [heff]
      exact hun.append fun he => hj (congrArg Prod.fst he).symm

/-- The place of a call that is transmitting. -/
theorem Wired.Place.sending {w : Wired ι σ} {i : ι} {c : Caller} {r : Request} {pc : Pc}
    (hst : c.state = .running r pc) (hpc : pc = .waitLen ∨ pc = .waitStopTx)
    {base : List (BitVec 8 × BitVec 8)} (hw : Sending (base ++ r.wire) w.bus.dev) (hsel : w.Selected r .waitLen)
    (hin : Applied r w.bus.dev .waitLen → ∃ v, w.bus.dev.Answers i c.calls v r ∧ ⟨(i, c.calls), r, v⟩ ∈ w.effects)
    (hun : ¬ Applied r w.bus.dev .waitLen → Unlogged w.effects i c.calls) : w.Place i c := by
  constructor
  · intro r' pc' hst' _
    rw [hst] at hst'
    cases hst'
    exact ⟨base, by rcases hpc with rfl | rfl <;> exact hw⟩
  · intro r' pc' hst'
    rw [hst] at hst'
    cases hst'
    rcases hpc with rfl | rfl <;> exact hsel
  · unfold Recorded
    simp only [hst]
    rcases hpc with rfl | rfl <;> exact ⟨hin, hun⟩

/-- A byte put into DATA, the first of the transmission's that are left. -/
structure Wired.Put (w : Wired ι σ) (i : ι) (r : Request) (pc : Pc) (base : List (BitVec 8 × BitVec 8)) (d : Dev ι) :
    Prop where
  lock : w.bus.lock = some i
  state : (w.bus.callers i).state = .running r pc
  place : pc = .waitLen ∨ pc = .waitStopTx
  selected : w.Selected r .waitLen
  unlogged : ¬ Applied r w.bus.dev .waitLen → Unlogged w.effects i (w.bus.callers i).calls
  sending : Sending (base ++ r.wire) d
  slave : d.slave = w.bus.dev.slave
  received : d.received = w.bus.dev.received
  left : d.pending + d.owed + 1 = w.bus.dev.pending + w.bus.dev.owed
  byte : r.bytes[r.bytes.length - (w.bus.dev.pending + w.bus.dev.owed)]? =
    some (w.bus.dev.gWrite w.bus.dev.gLen.toNat)

theorem Wired.Inv.put {p : Slaves σ} {s0 : σ} {w : Wired ι σ} (h : w.Inv p s0) {irq : IrqStatus}
    (hi : w.bus.dev.isr = .xrdyWrite irq) {d : Dev ι} (hs : isrStep w.bus.dev = some d) :
    ∃ i r pc base, w.Put i r pc base d := by
  obtain ⟨i, r, pc, base, hl, hst, hpc, hsend⟩ := h.transmitting hi
  have hcr : pc.critical = true := by rcases hpc with rfl | rfl <;> rfl
  have hphase := h.bus.phase_at hst hcr
  have htx : Transmitting w.bus.dev := by rcases hpc with rfl | rfl <;> exact hphase
  have hsend' : Sending (base ++ r.wire) d := hsend.isrStep htx.noRead.pre hs
  have hsel : w.Selected r .waitLen := by
    have hsel := (h.place i).selected r pc hst
    rcases hpc with rfl | rfl <;> exact hsel
  have hun : ¬ Applied r w.bus.dev .waitLen → Unlogged w.effects i (w.bus.callers i).calls := by
    have hrec := (h.place i).recorded
    unfold Recorded at hrec
    simp only [hst] at hrec
    rcases hpc with rfl | rfl <;> exact hrec.2
  have hle : w.bus.dev.pending + w.bus.dev.owed ≤ r.bytes.length := by
    rcases hsel.2 with ⟨heq, -⟩ | ⟨hlt, -⟩ <;> omega
  have hsent : d.sent = w.bus.dev.sent ++ [(w.bus.dev.slave, w.bus.dev.gWrite w.bus.dev.gLen.toNat)] := by
    simp only [isrStep, hi, Option.some.injEq] at hs
    rw [← hs]
  have hleft : d.pending + d.owed + 1 = w.bus.dev.pending + w.bus.dev.owed := by
    have hl1 := hsend.left
    have hl2 := hsend'.left
    rw [hsent, List.length_append, List.length_singleton] at hl2
    omega
  exact ⟨i, r, pc, base, hl, hst, hpc, hsel, hun, hsend', (isrStep_args hs).1, (isrStep_frame hs).2.1, hleft,
    (hsend.next hi hle).2⟩

/-- The first byte tells the slave the register. -/
theorem Wired.Inv.register {p : Slaves σ} {s0 : σ} {w : Wired ι σ} (h : w.Inv p s0) {i : ι} {r : Request} {pc : Pc}
    {base : List (BitVec 8 × BitVec 8)} {d : Dev ι} (hput : w.Put i r pc base d)
    (hbus : Driver.Inv { w.bus with dev := d }) (hfirst : w.first = true)
    (heq : w.bus.dev.pending + w.bus.dev.owed = r.bytes.length) :
    Wired.Inv p s0 { w.take p (w.bus.dev.gWrite w.bus.dev.gLen.toNat) with bus := { w.bus with dev := d } } := by
  obtain ⟨hl, hst, hpc, hsel, hun, hsend, hslave, hrec, hleft, hbyte⟩ := hput
  have hreg : w.bus.dev.gWrite w.bus.dev.gLen.toNat = r.reg := by
    rw [heq, Nat.sub_self] at hbyte
    cases r <;> exact (Option.some.inj hbyte).symm
  -- a write has its value still to go
  have hnot : ∀ d' : Dev ι, r.bytes.length ≤ d'.pending + d'.owed + 1 → ¬ Applied r d' .waitLen := by
    rintro d' hge ⟨hread, h0⟩
    cases r with
    | read a b => cases hread
    | write a b c =>
      simp only [Request.bytes, List.length_cons, List.length_nil] at hge
      omega
  rw [Wired.take, if_pos hfirst, hreg]
  refine ⟨hbus, (by rw [hl]; rintro ⟨⟩), h.legal, h.once, h.invoked, ?_⟩
  intro j
  rcases eq_or_ne j i with rfl | hj
  · refine Wired.Place.sending hst hpc hsend ?_ (fun hap => absurd hap (hnot d (by omega)))
      (fun _ => hun (hnot _ (by omega)))
    refine ⟨hslave.trans hsel.1, .inr ⟨by show d.pending + d.owed < _; omega, rfl, ?_⟩⟩
    show Function.update w.pointers w.bus.dev.slave r.reg r.slave = r.reg
    rw [hsel.1, Function.update_self]
  · exact h.others hl hj (r := r) (v := 0) (.inl rfl) (by rw [hrec])

/-- The second byte is a write's value. -/
theorem Wired.Inv.value {p : Slaves σ} {s0 : σ} {w : Wired ι σ} (h : w.Inv p s0) {i : ι} {r : Request} {pc : Pc}
    {base : List (BitVec 8 × BitVec 8)} {d : Dev ι} (hput : w.Put i r pc base d)
    (hbus : Driver.Inv { w.bus with dev := d }) (hfirst : w.first = false)
    (hlt : w.bus.dev.pending + w.bus.dev.owed < r.bytes.length) (hptr : w.pointers r.slave = r.reg) :
    Wired.Inv p s0 { w.take p (w.bus.dev.gWrite w.bus.dev.gLen.toNat) with bus := { w.bus with dev := d } } := by
  obtain ⟨hl, hst, hpc, hsel, hun, hsend, hslave, hrec, hleft, hbyte⟩ := hput
  obtain ⟨value, regAddress, slave, rfl⟩ : ∃ a b c, r = .write a b c := by
    cases r with
    | read a b =>
      simp only [Request.bytes, List.length_singleton] at hlt
      omega
    | write a b c => exact ⟨a, b, c, rfl⟩
  simp only [Request.bytes, List.length_cons, List.length_nil] at hlt hbyte
  have hone : w.bus.dev.pending + w.bus.dev.owed = 1 := by omega
  have hval : w.bus.dev.gWrite w.bus.dev.gLen.toNat = value := by
    rw [hone] at hbyte
    exact (Option.some.inj hbyte).symm
  have hdone : d.pending + d.owed = 0 := by omega
  obtain ⟨honce, hinv⟩ := h.append (r := .write value regAddress slave) (v := 0) (hun fun hap => by
    have := hap.2
    omega)
  rw [Wired.take, if_neg (by rw [hfirst]; exact Bool.false_ne_true), hval, w.log_held hl hst,
    show w.bus.dev.slave = slave from hsel.1, show w.pointers slave = regAddress from hptr]
  refine ⟨hbus, (by rw [hl]; rintro ⟨⟩), ?_, honce, hinv, ?_⟩
  · exact h.legal.snoc (i, (w.bus.callers i).calls) (Request.write value regAddress slave)
  · intro j
    rcases eq_or_ne j i with rfl | hj
    · refine Wired.Place.sending hst hpc hsend ?_ (fun _ => ⟨0, rfl, ?_⟩) (fun hno => absurd ⟨rfl, hdone⟩ hno)
      · refine ⟨hslave.trans hsel.1, .inr ⟨?_, hfirst, hptr⟩⟩
        show d.pending + d.owed < 2
        omega
      · exact List.mem_append_right _ (List.mem_singleton_self _)
    · exact h.others hl hj (.inr rfl) (by rw [hrec])

theorem Wired.Inv.byte {p : Slaves σ} {s0 : σ} {w : Wired ι σ} (h : w.Inv p s0) {irq : IrqStatus}
    (hi : w.bus.dev.isr = .xrdyWrite irq) {d : Dev ι} (hs : isrStep w.bus.dev = some d)
    (hbus : Driver.Inv { w.bus with dev := d }) :
    Wired.Inv p s0 { w.take p (w.bus.dev.gWrite w.bus.dev.gLen.toNat) with bus := { w.bus with dev := d } } := by
  obtain ⟨i, r, pc, base, hput⟩ := h.put hi hs
  rcases hput.selected.2 with ⟨heq, hfirst⟩ | ⟨hlt, hfirst, hptr⟩
  · exact h.register hput hbus hfirst heq
  · exact h.value hput hbus hfirst hlt hptr

theorem Wired.Inv.isrStep {p : Slaves σ} {s0 : σ} {w w' : Wired ι σ} (h : w.Inv p s0) (hk : w.bus.KeepsLoads .isr)
    {d : Dev ι} (hs : isrStep w.bus.dev = some d) (hw : w.wire p .isr = some w') :
    Wired.Inv p s0 { w' with bus := { w.bus with dev := d } } := by
  have hbus := h.bus.isrStep hk hs
  by_cases hi : ∃ irq, w.bus.dev.isr = .xrdyWrite irq
  · obtain ⟨irq, hi⟩ := hi
    simp only [Wired.wire, hi, Option.some.injEq] at hw
    subst hw
    exact h.byte hi hs hbus
  · have hi' : ∀ irq, w.bus.dev.isr ≠ .xrdyWrite irq := fun irq he => hi ⟨irq, he⟩
    obtain rfl : w = w' := by
      cases hisr : w.bus.dev.isr <;> simp only [Wired.wire, hisr, Option.some.injEq] at hw
      case xrdyWrite irq => exact absurd hisr (hi' irq)
      all_goals exact hw
    obtain ⟨ht, hr, -, -⟩ := isrStep_frame hs
    refine h.keep hbus (fun hl => ((h.free hl).isrStep hs).1) fun i => ?_
    refine (h.place i).keep (isrStep_args hs).1 (isrStep_sends_none hs hi') (by rw [hr]) ?_ (fun r _ => by rw [ht])
    intro base r pc hst hcr hwire
    exact hwire.isrStep (h.bus.phase_at hst hcr) hs

/-- Only a reception is owed a byte. -/
theorem PhaseInv.owes_byte {ph : Phase ι} {d : Dev ι} (h : PhaseInv ph d) {t : Transfer ι} (ht : t ∈ d.transfers)
    (hd : t.dir = .rx) (hl : 0 < t.left) : ∃ i n, ph = .receiving i n ∧ d.transfers = [⟨i, n, .rx, 1⟩] := by
  have hne : d.transfers ≠ [] := List.ne_nil_of_mem ht
  have hnz : ¬ ∀ u ∈ d.transfers, u.left = 0 := fun h0 => by
    have := h0 t ht
    omega
  cases ph with
  | quiet => exact absurd h.none hne
  | transmitting =>
    rw [Transmitting.dir h t ht] at hd
    cases hd
  | between => exact absurd h.1.none hne
  | primed => exact absurd h.1.none hne
  | receiving i n =>
    cases h.2 with
    | owed htr => exact ⟨i, n, rfl, htr⟩
    | raised h0 => exact absurd h0 hnz
    | inHand h0 => exact absurd h0 hnz
    | stored h0 => exact absurd h0 hnz
    | counted h0 => exact absurd h0 hnz
  | stopping i n => exact absurd h.2.2.1 hnz
  | done i n => exact absurd h.1.none hne
  | failed => exact h.elim

variable [DecidableEq ι]

theorem eventStep_receives_none {d d' : Dev ι} {e : Event} (hs : eventStep d e = some d') (he : ∀ k b, e ≠ .rrdy k b) :
    d'.received = d.received := by
  rcases eventStep_cases hs with ⟨k, t, -, -, -, -, -, rfl⟩ | ⟨k, t, b, hrrdy, -⟩ | ⟨k, t, -, -, -, rfl⟩ |
    ⟨st, -, -, -, rfl⟩
  · rfl
  · exact absurd hrrdy (he k b)
  · rfl
  · rfl

/-- An event other than the byte of a reception leaves what is owed to it. -/
theorem ReadToken.left_iff {i : ι} {n : Nat} {d d' : Dev ι} {e : Event} (h : ReadToken i n d)
    (hs : Driver.eventStep d e = some d') (he : ∀ k b, e ≠ .rrdy k b) :
    (∀ t ∈ d'.transfers, t.left = 0) ↔ ∀ t ∈ d.transfers, t.left = 0 := by
  have hdone : (∀ t ∈ d.transfers, t.left = 0) →
      ((∀ t ∈ d'.transfers, t.left = 0) ↔ ∀ t ∈ d.transfers, t.left = 0) := by
    intro hl
    obtain ⟨st, l, hl', -, rfl⟩ := eventStep_left hl hs
    exact iff_of_true hl' hl
  cases h with
  | owed htr =>
    have honly : ∀ {k : Nat} {t : Transfer ι}, d.transfers[k]? = some t → t = ⟨i, n, .rx, 1⟩ := by
      intro k t hk
      have hmem := List.mem_of_getElem? hk
      rwa [htr, List.mem_singleton] at hmem
    rcases eventStep_cases hs with ⟨k, t, -, hk, hd, -, -, -⟩ | ⟨k, t, b, hrrdy, -⟩ | ⟨k, t, -, hk, h0, -⟩ |
      ⟨st, -, -, -, rfl⟩
    · rw [honly hk] at hd
      cases hd
    · exact absurd hrrdy (he k b)
    · rw [honly hk] at h0
      cases h0
    · exact Iff.rfl
  | raised hl => exact hdone hl
  | inHand hl => exact hdone hl
  | stored hl => exact hdone hl
  | counted hl => exact hdone hl

theorem byte_toInt (b : BitVec 8) : (b.setWidth 32).toInt = b.toNat := by
  have hlt : b.toNat < 2 ^ 8 := b.isLt
  rw [BitVec.toInt_eq_toNat_of_lt] <;> rw [BitVec.toNat_setWidth] <;> omega

/-- A byte is received by the call that holds the mutex and waits for it. -/
theorem Inv.receive {s : Bus ι} (h : Driver.Inv s) {k : Nat} {b : BitVec 8} {d : Dev ι}
    (hs : Driver.eventStep s.dev (.rrdy k b) = some d) :
    ∃ i r, s.lock = some i ∧ (s.callers i).state = .running r .waitRead ∧
      ¬ (∀ t ∈ s.dev.transfers, t.left = 0) ∧ (∀ t ∈ d.transfers, t.left = 0) ∧
      d.received i (s.callers i).calls = some b ∧ ∀ j n, j ≠ i → d.received j n = s.dev.received j n := by
  simp only [Driver.eventStep] at hs
  split at hs
  · rename_i t ht
    obtain ⟨⟨hd, hl, -⟩, hs⟩ := Option.ite_none_right_eq_some.1 hs
    cases hs
    obtain ⟨i, n, hph, htr⟩ := h.phase.owes_byte (List.mem_of_getElem? ht) hd hl
    obtain ⟨hlock, r, hst⟩ := Bus.phase_receiving hph
    have hn : n = (s.callers i).calls := by
      simp only [Bus.phase, hlock, hst, Pc.phase, Phase.receiving.injEq, true_and] at hph
      exact hph.symm
    have hk : k < 1 := by
      have := (List.getElem?_eq_some_iff.1 ht).1
      rwa [htr] at this
    obtain rfl : k = 0 := by omega
    obtain rfl : t = ⟨i, n, .rx, 1⟩ := by
      have hmem := List.mem_of_getElem? ht
      rwa [htr, List.mem_singleton] at hmem
    refine ⟨i, r, hlock, hst, ?_, ?_, ?_, ?_⟩
    · simp [htr]
    · simp [htr]
    · simp only [hn, Function.update_self]
    · intro j m hj
      simp only [Function.update_of_ne hj]
  · cases hs

/-- A slave sends the byte of its register. -/
theorem Wired.Inv.receive {p : Slaves σ} {s0 : σ} {w w' : Wired ι σ} (h : w.Inv p s0) {k : Nat} {b : BitVec 8}
    {d : Dev ι} (hs : Driver.eventStep w.bus.dev (.rrdy k b) = some d) (hw : w.wire p (.event (.rrdy k b)) = some w') :
    Wired.Inv p s0 { w' with bus := { w.bus with dev := d } } := by
  have hbus := h.bus.eventStep hs
  obtain ⟨i, r, hl, hst, hbefore, hafter, hrec, hother⟩ := h.bus.receive hs
  obtain ⟨hread, hsl, hptr⟩ := (h.place i).selected r _ hst
  obtain ⟨base, hwire⟩ := (h.place i).wire r _ hst rfl
  have hwire' : Wire base r d .waitRead := hwire.eventStep (h.bus.phase_at hst rfl) hs
  have hun : Unlogged w.effects i (w.bus.callers i).calls := by
    have hrecorded := (h.place i).recorded
    unfold Recorded at hrecorded
    simp only [hst] at hrecorded
    exact hrecorded.2 hbefore
  obtain ⟨address, slave, rfl⟩ : ∃ a b, r = .read a b := by
    cases r with
    | read a b => exact ⟨a, b, rfl⟩
    | write a b c => cases hread
  simp only [Wired.wire, Option.ite_none_right_eq_some, Option.some.injEq] at hw
  obtain ⟨hbyte, rfl⟩ := hw
  rw [show w.bus.dev.slave = slave from hsl, show w.pointers slave = address from hptr] at hbyte ⊢
  obtain ⟨honce, hinv⟩ := h.append (r := .read address slave) (v := b.toNat) hun
  rw [w.log_held hl hst]
  refine ⟨hbus, (by rw [hl]; rintro ⟨⟩), ?_, honce, hinv, ?_⟩
  · have hleg := h.legal.snoc (i, (w.bus.callers i).calls) (Request.read address slave)
    have hans : (p.bus.object (Request.read address slave) w.slaves).1 = b.toNat := by
      show ((p.fetch slave address w.slaves).1.setWidth 32).toInt = _
      rw [← hbyte, byte_toInt]
    rw [hans] at hleg
    exact hleg
  · intro j
    rcases eq_or_ne j i with rfl | hj
    · constructor
      · intro r' pc' hst' _
        rw [hst] at hst'
        cases hst'
        exact ⟨base, hwire'⟩
      · intro r' pc' hst'
        rw [hst] at hst'
        cases hst'
        exact ⟨rfl, (eventStep_args hs).1.trans hsl, hptr⟩
      · unfold Recorded
        simp only [hst]
        refine ⟨fun _ => ⟨b.toNat, ⟨b, hrec, rfl⟩, ?_⟩, fun hno => absurd hafter hno⟩
        exact List.mem_append_right _ (List.mem_singleton_self _)
    · exact h.others hl hj (.inr rfl) (hother j _ hj)

theorem Wired.Inv.eventStep {p : Slaves σ} {s0 : σ} {w w' : Wired ι σ} (h : w.Inv p s0) {e : Event} {d : Dev ι}
    (hs : Driver.eventStep w.bus.dev e = some d) (hw : w.wire p (.event e) = some w') :
    Wired.Inv p s0 { w' with bus := { w.bus with dev := d } } := by
  by_cases he : ∃ k b, e = .rrdy k b
  · obtain ⟨k, b, rfl⟩ := he
    exact h.receive hs hw
  · have he' : ∀ k b, e ≠ .rrdy k b := fun k b heq => he ⟨k, b, heq⟩
    obtain rfl : w = w' := by
      cases e <;> simp only [Wired.wire, Option.some.injEq] at hw
      case rrdy k b => exact absurd rfl (he' k b)
      all_goals exact hw
    have hfree : w.bus.lock = none → NoXrdy d := by
      intro hl
      have hq := h.bus.phase
      simp only [Bus.phase, hl] at hq
      exact ((h.free hl).eventStep (by simp [Quiet.none hq]) hs).1
    refine h.keep (h.bus.eventStep hs) hfree fun i => ?_
    refine (h.place i).keep (eventStep_args hs).1 (eventStep_sent hs) ?_ ?_ ?_
    · rw [eventStep_receives_none hs he']
    · intro base r pc hst hcr hwire
      exact hwire.eventStep (h.bus.phase_at hst hcr) hs
    · intro r hst
      have htok : ReadToken i (w.bus.callers i).calls w.bus.dev := (h.bus.phase_at hst rfl).2
      exact htok.left_iff hs he'

/-! ## The callers -/

/-- A caller moves and leaves the device as it is. -/
theorem Wired.Inv.away {p : Slaves σ} {s0 : σ} {w : Wired ι σ} (h : w.Inv p s0) {i : ι} {c : Caller} {lock : Option ι}
    (hbus : Driver.Inv ⟨Function.update w.bus.callers i c, lock, w.bus.dev⟩)
    (hfree : lock = none → NoXrdy w.bus.dev) (hcalls : (w.bus.callers i).calls ≤ c.calls) (hplace : w.Place i c) :
    Wired.Inv p s0 { w with bus := ⟨Function.update w.bus.callers i c, lock, w.bus.dev⟩ } := by
  refine ⟨hbus, hfree, h.legal, h.once, ?_, ?_⟩
  · intro e he
    have hle := h.invoked e he
    rcases eq_or_ne e.id.1 i with heq | hne
    · rw [heq] at hle ⊢
      simp only [Function.update_self]
      omega
    · simpa only [Function.update_of_ne hne] using hle
  · intro j
    rcases eq_or_ne j i with rfl | hj
    · simp only [Function.update_self]
      exact ⟨hplace.wire, hplace.selected, hplace.recorded⟩
    · simp only [Function.update_of_ne hj]
      exact ⟨(h.place j).wire, (h.place j).selected, (h.place j).recorded⟩

omit [DecidableEq ι] in
/-- A call that has not reached its slave, at a place outside the mutex. -/
theorem Wired.Place.waiting {w : Wired ι σ} {i : ι} {n : Nat} {r : Request} {pc : Pc}
    (hpc : (∃ k, pc = .poll k) ∨ pc = .lock) (hun : Unlogged w.effects i n) :
    w.Place i ⟨n, .running r pc⟩ := by
  constructor
  · rintro r' pc' ⟨⟩ hcr
    rcases hpc with ⟨k, rfl⟩ | rfl <;> cases hcr
  · rintro r' pc' ⟨⟩
    rcases hpc with ⟨k, rfl⟩ | rfl <;> trivial
  · rcases hpc with ⟨k, rfl⟩ | rfl <;> exact ⟨fun hap => hap.elim, fun _ => hun⟩

theorem Wired.Inv.call {p : Slaves σ} {s0 : σ} {w : Wired ι σ} (h : w.Inv p s0) {i : ι} {r : Request}
    (hbus : Driver.Inv { w.bus with
      callers := Function.update w.bus.callers i ⟨(w.bus.callers i).calls + 1, .running r (.poll 0)⟩ }) :
    Wired.Inv p s0 { w with bus := { w.bus with
      callers := Function.update w.bus.callers i ⟨(w.bus.callers i).calls + 1, .running r (.poll 0)⟩ } } := by
  refine h.away hbus h.free (by show _ ≤ _ + 1; omega) (.waiting (.inl ⟨0, rfl⟩) ?_)
  intro e he heq
  have hle : (w.bus.callers i).calls + 1 ≤ (w.bus.callers i).calls := by
    have hle := h.invoked e he
    rwa [heq] at hle
  omega

/-- A step of a call outside the mutex. -/
theorem Wired.Inv.uncritical {p : Slaves σ} {s0 : σ} {w : Wired ι σ} (h : w.Inv p s0) {i : ι} {r : Request} {pc : Pc}
    (hst : (w.bus.callers i).state = .running r pc) (hc : pc.critical = false) {next : CallerState} {lock : Option ι}
    {d : Dev ι} (hs : callStep i (w.bus.callers i).calls r .met w.bus.lock w.bus.dev pc = some (next, lock, d))
    (hbus : Driver.Inv ⟨Function.update w.bus.callers i ⟨(w.bus.callers i).calls, next⟩, lock, d⟩) :
    Wired.Inv p s0 { w with
      bus := ⟨Function.update w.bus.callers i ⟨(w.bus.callers i).calls, next⟩, lock, d⟩ } := by
  have hrec := (h.place i).recorded
  unfold Recorded at hrec
  simp only [hst] at hrec
  cases pc with
  | poll k =>
    have hun : Unlogged w.effects i (w.bus.callers i).calls := hrec.2 id
    simp only [callStep] at hs
    split at hs
    · split at hs
      · cases hs
        refine h.away hbus h.free (le_refl _) ⟨?_, ?_, fun hv => absurd hv (by omega), fun _ => hun⟩
        · rintro r' pc' ⟨⟩
        · rintro r' pc' ⟨⟩
      · cases hs
        exact h.away hbus h.free (le_refl _) (.waiting (.inl ⟨k + 1, rfl⟩) hun)
    · cases hs
      exact h.away hbus h.free (le_refl _) (.waiting (.inr rfl) hun)
  | lock =>
    have hun : Unlogged w.effects i (w.bus.callers i).calls := hrec.2 id
    simp only [callStep] at hs
    split at hs
    · cases hs
    · rename_i hn
      cases hs
      have hx := h.free (by simpa using hn)
      refine h.away hbus (by rintro ⟨⟩) (le_refl _) ⟨?_, ?_, fun hap => hap.elim, fun _ => hun⟩
      · rintro r' pc' ⟨⟩ -
        exact ⟨w.bus.dev.sent, hx, rfl, by constructor <;> simp⟩
      · rintro r' pc' ⟨⟩
        trivial
  | load =>
    cases hs
    have hread : r.isRead = true := (h.place i).selected r _ hst
    obtain ⟨v, hv, he⟩ := hrec.1 trivial
    refine h.away hbus h.free (le_refl _) ⟨?_, ?_, ?_⟩
    · rintro r' pc' ⟨⟩
    · rintro r' pc' ⟨⟩
    cases r with
    | read a b =>
      obtain ⟨byte, hb, rfl⟩ := hv
      rw [h.bus.loads i _ hst] at hb
      cases hb
      exact ⟨fun _ => he, fun hneg => absurd hneg (by omega)⟩
    | write a b c => cases hread
  | _ => cases hc

/-- A step inside the mutex: what the slave knows of the call, and whether the call has reached it. -/
theorem Wired.Place.callStep {w : Wired ι σ} (w' : Wired ι σ) {i : ι} {n : Nat} {r : Request} {pc pc' : Pc}
    {base : List (BitVec 8 × BitVec 8)} {lock lock' : Option ι} {d : Dev ι} (hc : pc.critical = true)
    (hi : w.bus.dev.isr = .idle) (hwire : Wire base r w.bus.dev pc) (hsel : w.Selected r pc)
    (hp : PhaseInv (pc.phase i n r) w.bus.dev)
    (hs : callStep i n r .met lock w.bus.dev pc = some (.running r pc', lock', d)) (hdev : w'.bus.dev = d)
    (hptr : w'.pointers = w.pointers) (hfirst : pc = .startTx → w'.first = true)
    (hsame : pc ≠ .startTx → w'.first = w.first) :
    w'.Selected r pc' ∧ (Applied r d pc' ↔ Applied r w.bus.dev pc) := by
  have hwire' : Wire base r d pc' := (hwire.callStep hc hi hp hs).1 pc' rfl
  cases pc with
  | poll k => cases hc
  | lock => cases hc
  | load => cases hc
  | setSlave | setLen | storeReg | storeVal | clearFifo =>
    cases hs
    exact ⟨trivial, Iff.rfl⟩
  | setCnt =>
    cases r <;> cases hs <;> exact ⟨trivial, Iff.rfl⟩
  | startTx =>
    cases hs
    obtain ⟨-, hbase, hprep⟩ := hwire
    have hcount : (w.bus.dev.start i n .tx).pending + (w.bus.dev.start i n .tx).owed = r.bytes.length := by
      have hleft := Sending.left hwire'
      rw [show (w.bus.dev.start i n .tx).sent = base from hbase, List.length_append, Request.wire,
        List.length_map] at hleft
      omega
    constructor
    · unfold Wired.Selected
      rw [hdev]
      exact ⟨hprep.slave (by simp), .inl ⟨hcount, hfirst rfl⟩⟩
    · refine iff_of_false ?_ id
      rintro ⟨-, h0⟩
      rw [hcount] at h0
      cases r <;> cases h0
  | waitLen =>
    simp only [Driver.callStep, Option.ite_none_right_eq_some, Option.some.injEq] at hs
    obtain ⟨-, hs⟩ := hs
    cases hs
    have hsel' := hsel
    unfold Wired.Selected at hsel' ⊢
    rw [hdev, hptr, hsame (by simp)]
    exact ⟨hsel', Iff.rfl⟩
  | waitStopTx =>
    simp only [Driver.callStep, Option.ite_none_right_eq_some, Option.some.injEq] at hs
    obtain ⟨-, hs⟩ := hs
    cases hs
    -- all the bytes are out
    have hcount : w.bus.dev.pending + w.bus.dev.owed = 0 := by
      have hleft := Sending.left hwire
      rw [show w.bus.dev.sent = base ++ r.wire from hwire'.2.1] at hleft
      omega
    obtain ⟨hsl, ⟨heq, -⟩ | ⟨-, -, hreg⟩⟩ := hsel
    · rw [hcount] at heq
      cases r <;> cases heq
    · constructor
      · unfold Wired.Selected Wired.Pointed
        rw [hdev, hptr]
        exact ⟨hsl, hreg⟩
      · unfold Applied
        exact ⟨fun hr => ⟨hr, hcount⟩, fun hr => hr.1⟩
  | reinitStopTx ok =>
    cases ok with
    | false => exact hp.elim
    | true =>
      cases r with
      | read a b =>
        cases hs
        constructor
        · unfold Wired.Selected Wired.Pointed at hsel ⊢
          rw [hdev, hptr]
          exact ⟨rfl, hsel⟩
        · exact iff_of_false id Bool.noConfusion
      | write a b c =>
        cases hs
        exact ⟨trivial, iff_of_true trivial rfl⟩
  | setLenRx | setCntRx =>
    cases hs
    refine ⟨?_, Iff.rfl⟩
    unfold Wired.Selected Wired.Pointed at hsel ⊢
    rw [hdev, hptr]
    exact hsel
  | startRx =>
    cases hs
    constructor
    · unfold Wired.Selected Wired.Pointed at hsel ⊢
      rw [hdev, hptr]
      exact hsel
    · refine iff_of_false (fun hap => ?_) id
      have hone := hap ⟨i, n, .rx, w.bus.dev.cnt.toNat⟩ (List.mem_append_right _ (by simp))
      rw [show w.bus.dev.cnt = 1 from hp.2.2] at hone
      cases hone
  | waitRead =>
    simp only [Driver.callStep, Option.ite_none_right_eq_some, Option.some.injEq] at hs
    obtain ⟨ho, hs⟩ := hs
    cases hs
    obtain ⟨-, hl, -⟩ := hp.2.taken (by simpa [Outcome.possible] using ho)
    exact ⟨hsel.1, iff_of_true trivial hl⟩
  | waitStopRx =>
    simp only [Driver.callStep, Option.ite_none_right_eq_some, Option.some.injEq] at hs
    obtain ⟨-, hs⟩ := hs
    cases hs
    exact ⟨hsel, Iff.rfl⟩
  | reinitRead ok =>
    cases hs
    exact ⟨hsel, Iff.rfl⟩
  | reinitStopRx ok =>
    cases hs
    exact ⟨trivial, Iff.rfl⟩
  | unlock ok =>
    cases ok with
    | false => exact hp.elim
    | true =>
      cases r with
      | read a b =>
        cases hs
        exact ⟨rfl, Iff.rfl⟩
      | write a b c => cases hs

/-- Inside the mutex a call returns by unlocking it. -/
theorem callStep_returned {i : ι} {n : Nat} {r r' : Request} {v : Int} {o : Outcome} {lock lock' : Option ι}
    {d d' : Dev ι} {pc : Pc} (hc : pc.critical = true)
    (hs : callStep i n r o lock d pc = some (.returned r' v, lock', d')) : ∃ ok, pc = .unlock ok := by
  cases pc <;> cases r <;> grind [callStep, Pc.critical]

/-- A step inside the mutex; a START makes the next byte the first. -/
theorem Wired.Inv.critical {p : Slaves σ} {s0 : σ} {w : Wired ι σ} (h : w.Inv p s0) {i : ι} {r : Request} {pc : Pc}
    (hst : (w.bus.callers i).state = .running r pc) (hc : pc.critical = true) (hi : w.bus.dev.isr = .idle)
    {next : CallerState} {lock : Option ι} {d : Dev ι}
    (hs : callStep i (w.bus.callers i).calls r .met w.bus.lock w.bus.dev pc = some (next, lock, d))
    (hbus : Driver.Inv ⟨Function.update w.bus.callers i ⟨(w.bus.callers i).calls, next⟩, lock, d⟩) {first : Bool}
    (hfirst : pc = .startTx → first = true) (hsame : pc ≠ .startTx → first = w.first) :
    Wired.Inv p s0 { w with
      first := first, bus := ⟨Function.update w.bus.callers i ⟨(w.bus.callers i).calls, next⟩, lock, d⟩ } := by
  have hl : w.bus.lock = some i := (h.bus.holder i).2 ⟨r, pc, hst, hc⟩
  have hp := h.bus.phase_at hst hc
  obtain ⟨base, hwire⟩ := (h.place i).wire r pc hst hc
  have hsel := (h.place i).selected r pc hst
  have hrec := (h.place i).recorded
  unfold Recorded at hrec
  simp only [hst] at hrec
  obtain ⟨hrun, hret⟩ := hwire.callStep hc hi hp hs
  obtain ⟨-, hreceived, -⟩ := callStep_frame hs
  have hsame' : ∀ v, w.bus.dev.Answers i (w.bus.callers i).calls v r → d.Answers i (w.bus.callers i).calls v r :=
    fun v hv => hv.congr (by rw [hreceived])
  have hplace : Wired.Place { w with
        first := first, bus := ⟨Function.update w.bus.callers i ⟨(w.bus.callers i).calls, next⟩, lock, d⟩ }
      i ⟨(w.bus.callers i).calls, next⟩ ∧ (lock = none → NoXrdy d) := by
    -- a step that goes on keeps the log's word on the call
    have hon : ∀ pc', next = .running r pc' → Wired.Place { w with
          first := first, bus := ⟨Function.update w.bus.callers i ⟨(w.bus.callers i).calls, next⟩, lock, d⟩ }
        i ⟨(w.bus.callers i).calls, next⟩ := by
      rintro pc' rfl
      obtain ⟨hsel', hap⟩ := Wired.Place.callStep { w with
        first := first, bus := ⟨Function.update w.bus.callers i ⟨(w.bus.callers i).calls, .running r pc'⟩, lock, d⟩ }
        hc hi hwire hsel hp hs rfl rfl hfirst hsame
      constructor
      · rintro r' pc'' ⟨⟩ -
        exact ⟨base, hrun pc' rfl⟩
      · rintro r' pc'' ⟨⟩
        exact hsel'
      · constructor
        · intro ha
          obtain ⟨v, hv, he⟩ := hrec.1 (hap.1 ha)
          exact ⟨v, hsame' v hv, he⟩
        · exact fun hna => hrec.2 fun ha => hna (hap.2 ha)
    cases callStep_phase hc hp hs with
    | on pc' hcr held phase => exact ⟨hon pc' rfl, by rw [held, hl]; rintro ⟨⟩⟩
    | load free quiet byte => exact ⟨hon .load rfl, fun _ => (hrun .load rfl).1⟩
    | written free quiet write =>
      refine ⟨⟨nofun, nofun, ?_⟩, fun _ => (hret 0 rfl).1⟩
      obtain ⟨ok, rfl⟩ := callStep_returned hc hs
      obtain ⟨v, hv, he⟩ := hrec.1 trivial
      refine ⟨fun _ => ?_, fun hneg => absurd hneg (by omega)⟩
      cases r with
      | read a b => exact absurd rfl (write a b)
      | write a b c =>
        obtain rfl : v = 0 := hv
        exact he
  refine ⟨hbus, hplace.2, h.legal, h.once, ?_, ?_⟩
  · intro e he
    have hle := h.invoked e he
    rcases eq_or_ne e.id.1 i with heq | hne
    · rw [heq] at hle ⊢
      simpa only [Function.update_self] using hle
    · simpa only [Function.update_of_ne hne] using hle
  · intro j
    rcases eq_or_ne j i with rfl | hj
    · simp only [Function.update_self]
      exact hplace.1
    · simp only [Function.update_of_ne hj]
      exact h.others hl hj (r := r) (v := 0) (.inl rfl) (by show d.received _ _ = _; rw [hreceived])

/-! ## Runs -/

omit [DecidableEq ι] in
theorem Wired.Inv.init (p : Slaves σ) (s0 : σ) (pointers : BitVec 8 → BitVec 8) :
    Wired.Inv p s0 ({ slaves := s0, pointers := pointers } : Wired ι σ) where
  bus := Driver.Inv.init
  free _ := ⟨rfl, by simp⟩
  legal := Legal.nil
  once := List.nodup_nil
  invoked := nofun
  place i := ⟨nofun, nofun, nofun⟩

theorem Wired.Inv.step {p : Slaves σ} {s0 : σ} {w w' : Wired ι σ} {a : Action ι} (h : w.Inv p s0) (hg : w.Smooth a)
    (hs : wiredStep p w a = some w') : w'.Inv p s0 := by
  obtain ⟨bus, hb, hs⟩ := Option.bind_eq_some_iff.1 hs
  obtain ⟨w1, hw, rfl⟩ := Option.map_eq_some_iff.1 hs
  cases a with
  | call i r =>
    cases hw
    have hbus := h.bus.busStep (a := .call i r) trivial (by rintro ⟨⟩) hb
    simp only [busStep] at hb
    split at hb
    · cases hb
    · cases hb
      exact h.call hbus
  | step i o =>
    obtain ⟨rfl, hi⟩ := hg
    have hbus := h.bus.busStep (a := .step i .met) rfl (by rintro ⟨⟩) hb
    simp only [busStep] at hb
    split at hb
    · rename_i r pc hst
      obtain ⟨⟨next, lock, d⟩, hcs, rfl⟩ := Option.map_eq_some_iff.1 hb
      simp only [Wired.wire, hst] at hw
      cases hcr : pc.critical with
      | true =>
        by_cases hpc : pc = .startTx
        · subst hpc
          cases hw
          exact h.critical hst hcr hi hcs hbus (fun _ => rfl) (fun hne => absurd rfl hne)
        · obtain rfl : w = w1 := by
            cases pc <;> first | exact Option.some.inj hw | exact absurd rfl hpc
          exact h.critical hst hcr hi hcs hbus (fun heq => absurd heq hpc) (fun _ => rfl)
      | false =>
        obtain rfl : w = w1 := by
          cases pc <;> first | exact Option.some.inj hw | cases hcr
        exact h.uncritical hst hcr hcs hbus
    · cases hb
  | isr =>
    obtain ⟨d, hd, rfl⟩ := Option.map_eq_some_iff.1 hb
    exact h.isrStep hg hd hw
  | event e =>
    obtain ⟨d, hd, rfl⟩ := Option.map_eq_some_iff.1 hb
    exact h.eventStep hd hw

omit [DecidableEq ι] in
theorem Wired.log_prefix (w : Wired ι σ) (v : Int) : w.effects <+: w.log v := by
  unfold Wired.log
  split
  · split
    · exact List.prefix_append _ _
    · exact List.prefix_rfl
  · exact List.prefix_rfl

omit [DecidableEq ι] in
theorem Wired.wire_effects {p : Slaves σ} {w w' : Wired ι σ} {a : Action ι} (h : w.wire p a = some w') :
    w.effects <+: w'.effects := by
  unfold Wired.wire at h
  split at h
  · split at h <;> cases h <;> exact List.prefix_rfl
  · split at h
    · cases h
      unfold Wired.take
      split_ifs
      · exact List.prefix_rfl
      · exact w.log_prefix 0
    · cases h
      exact List.prefix_rfl
  · obtain ⟨-, h⟩ := Option.ite_none_right_eq_some.1 h
    cases h
    exact w.log_prefix _
  · cases h
    exact List.prefix_rfl

/-- The log only grows. -/
theorem Wired.effects_run {p : Slaves σ} {w w' : Wired ι σ} (h : Run (wiredStep p) Wired.Smooth w w') :
    w.effects <+: w'.effects := by
  induction h with
  | start => exact List.prefix_rfl
  | step a _ _ hs ih =>
    obtain ⟨bus, -, hs⟩ := Option.bind_eq_some_iff.1 hs
    obtain ⟨w1, hw, rfl⟩ := Option.map_eq_some_iff.1 hs
    have hgrow := Wired.wire_effects hw
    exact ih.trans hgrow

/-- The log is a run of the bus on which each call is made at once: it leaves the slaves as they are,
has each call once, and has the last call of a caller with what it returned, if it returned no error. -/
structure Wired.Linearized (p : Slaves σ) (s0 : σ) (w : Wired ι σ) : Prop where
  legal : Legal p.bus.object s0 w.effects w.slaves
  once : (w.effects.map Entry.id).Nodup
  made : ∀ e ∈ w.effects, e.id.2 ≤ (w.bus.callers e.id.1).calls
  answered : ∀ i r v, (w.bus.callers i).state = .returned r v → 0 ≤ v → w.entry i r v ∈ w.effects
  refused : ∀ i r v, (w.bus.callers i).state = .returned r v → v < 0 →
    ∀ e ∈ w.effects, e.id ≠ (i, (w.bus.callers i).calls)

omit [DecidableEq ι] in
theorem Wired.Inv.linearized {p : Slaves σ} {s0 : σ} {w : Wired ι σ} (h : w.Inv p s0) : w.Linearized p s0 := by
  refine ⟨h.legal, h.once, h.invoked, fun i r v hst => ?_, fun i r v hst => ?_⟩
  · have hrec := (h.place i).recorded
    unfold Recorded at hrec
    simp only [hst] at hrec
    exact hrec.1
  · have hrec := (h.place i).recorded
    unfold Recorded at hrec
    simp only [hst] at hrec
    exact hrec.2

/-- `cotti_i2c_read` and `cotti_i2c_write`, called by any number of callers, are linearizable: in every
run, what the calls return and what they leave in the slaves is what the same calls do one at a time, in
an order that a longer run only adds to, and in which a call that had reached its slave comes before every call
made later. -/
theorem calls_linearizable {p : Slaves σ} {s0 : σ} {pointers : BitVec 8 → BitVec 8} {w : Wired ι σ}
    (h : Run (wiredStep p) Wired.Smooth { slaves := s0, pointers := pointers } w) :
    w.Linearized p s0 ∧ ∀ w', Run (wiredStep p) Wired.Smooth w w' → w'.Linearized p s0 ∧ w.effects <+: w'.effects ∧
      ∀ e ∈ w.effects, ∀ e' ∈ w'.effects, (w.bus.callers e'.id.1).calls < e'.id.2 →
        ∃ j k : Nat, j < k ∧ w'.effects[j]? = some e ∧ w'.effects[k]? = some e' := by
  have hinv : w.Inv p s0 := h.invariant (Wired.Inv.init p s0 pointers) fun _ _ _ hi hg hs => hi.step hg hs
  refine ⟨hinv.linearized, fun w' h' => ?_⟩
  have hinv' : w'.Inv p s0 := h'.invariant hinv fun _ _ _ hi hg hs => hi.step hg hs
  have hgrows := Wired.effects_run h'
  refine ⟨hinv'.linearized, hgrows, fun e he e' he' hlater => ?_⟩
  refine Entry.before hgrows he he' fun hmem => ?_
  have hle := hinv.invoked e' hmem
  omega

end

local instance neZero_two : NeZero 2 := ⟨by decide⟩

/-- Caller 0 writes a register of the sensor and caller 1 reads it, caller 1 having looked at the mutex
before caller 0 took it. -/
def writeAndRead : List (Action (Fin 2)) :=
  let steps (i : Fin 2) (n : Nat) := List.replicate n (Action.step i .met)
  let isr (n : Nat) := List.replicate n (.isr : Action (Fin 2))
  .call 0 (.write 0x27 0xF4 0x76) :: .call 1 (.read 0xF4 0x76) :: steps 1 1 ++ steps 0 9 ++
    .event (.xrdy 0) :: isr 8 ++ .event (.xrdy 0) :: isr 8 ++ .event (.ardy 0) :: isr 7 ++ steps 0 4 ++
  steps 1 7 ++ .event (.xrdy 0) :: isr 8 ++ .event (.ardy 0) :: isr 7 ++ steps 1 6 ++
    .event (.rrdy 0 0x27) :: isr 9 ++ .event (.ardy 0) :: isr 7 ++ steps 1 6

theorem calls_linearizable_example : ∃ w : Wired (Fin 2) Registers,
    (w.bus.callers 0).state = .returned (.write 0x27 0xF4 0x76) 0 ∧
    (w.bus.callers 1).state = .returned (.read 0xF4 0x76) 0x27 ∧ w.Linearized Registers.slaves fun _ => 0 := by
  have hrun : (runList (wiredStep Registers.slaves) Wired.Smooth
      ({ slaves := fun _ => 0, pointers := fun _ => 0 } : Wired (Fin 2) Registers) writeAndRead).map
        (fun w => ((w.bus.callers 0).state, (w.bus.callers 1).state)) =
      some (.returned (.write 0x27 0xF4 0x76) 0, .returned (.read 0xF4 0x76) 0x27) := by
    decide +kernel
  obtain ⟨w, hw, he⟩ := Option.map_eq_some_iff.1 hrun
  simp only [Prod.mk.injEq] at he
  exact ⟨w, he.1, he.2, (calls_linearizable (Run.of_runList hw)).1⟩

end Td3.Driver
