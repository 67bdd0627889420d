/-
What concurrent callers of `cotti_i2c_read` get. While no wait times out or is interrupted, the
mutex orders the transactions, and each START has its ARDY consumed before the next: `PhaseInv`
says, for every place the holder of the mutex may be at, where the one ARDY and the one RRDY of its
transaction are. So `g_read` is the holder's own byte when it unlocks the mutex. The byte is loaded
after that, and it is still the caller's own where no ISR stored another one in between.
-/
import Td3.Driver.I2c
import Mathlib.Tactic

namespace Td3.Driver

/-! ## Where the interrupts are -/

/-- The ISR has an RRDY in hand that it has not completed `comp_read` for. -/
def Isr.rrdyPre : Isr → Bool
  | .ardy irq | .rrdyLen irq => irq.rrdy
  | .rrdyStore _ | .rrdyComplete _ => true
  | _ => false

/-- The ISR has completed `comp_read` for an RRDY it has still to acknowledge. -/
def Isr.rrdyHeld : Isr → Bool
  | .xrdyLen irq | .xrdyWrite irq | .ack irq => irq.rrdy
  | _ => false

/-- The ISR has an ARDY in hand that it has not completed `comp_stop` for. -/
def Isr.ardyPre : Isr → Bool
  | .ardy irq => irq.ardy
  | _ => false

/-- The ISR has completed `comp_stop` for an ARDY it has still to acknowledge. -/
def Isr.ardyHeld : Isr → Bool
  | .rrdyLen irq | .rrdyStore irq | .rrdyComplete irq | .xrdyLen irq | .xrdyWrite irq | .ack irq => irq.ardy
  | _ => false

/-- The ISR stores `g_read` only for an RRDY. -/
def Isr.Ok : Isr → Prop
  | .rrdyStore irq | .rrdyComplete irq => irq.rrdy = true
  | _ => True

section
variable {ι : Type}

/-- No RRDY is on its way to `comp_read`. -/
structure NoRead (d : Dev ι) : Prop where
  pre : d.isr.rrdyPre = false
  stale : d.status.rrdy = true → d.isr.rrdyHeld = true
  comp : d.compRead = 0

/-- The ARDY owed to the last START: still with the controller or on its way to the ISR, in the
ISR's hand, or counted in `comp_stop`. -/
inductive StopToken (d : Dev ι) : Prop where
  | owed (comp : d.compStop = 0) (pre : d.isr.ardyPre = false) (one : d.transfers.length ≤ 1)
    (stale : d.transfers ≠ [] → d.status.ardy = true → d.isr.ardyHeld = true)
  | inHand (comp : d.compStop = 0) (pre : d.isr.ardyPre = true) (none : d.transfers = [])
  | counted (comp : d.compStop = 1) (pre : d.isr.ardyPre = false) (none : d.transfers = [])
    (stale : d.status.ardy = true → d.isr.ardyHeld = true)

/-- Nothing is owed to any START, and no completion is signalled. -/
structure Quiet (d : Dev ι) : Prop where
  noRead : NoRead d
  none : d.transfers = []
  comp : d.compStop = 0
  pre : d.isr.ardyPre = false
  stale : d.status.ardy = true → d.isr.ardyHeld = true

/-- After the START of a transmission. An ISR pass that held an RRDY of an earlier transaction has
ended by the time this one's ARDY is taken. -/
structure Transmitting (d : Dev ι) : Prop where
  noRead : NoRead d
  stop : StopToken d
  dir : ∀ t ∈ d.transfers, t.dir = .tx
  fresh : d.isr.ardyPre = true ∨ d.compStop = 1 → d.isr.rrdyHeld = false

/-- The RRDY owed to a reception of call `n` of `i`, and the byte it stands for. -/
inductive ReadToken (i : ι) (n : Nat) (d : Dev ι) : Prop where
  | owed (transfers : d.transfers = [⟨i, n, .rx, 1⟩]) (status : d.status.rrdy = false)
    (pre : d.isr.rrdyPre = false) (held : d.isr.rrdyHeld = false) (comp : d.compRead = 0)
  | raised (left : ∀ t ∈ d.transfers, t.left = 0) (status : d.status.rrdy = true) (pre : d.isr.rrdyPre = false)
    (held : d.isr.rrdyHeld = false) (comp : d.compRead = 0) (byte : d.received i n = some d.data)
  | inHand (left : ∀ t ∈ d.transfers, t.left = 0) (pre : d.isr.rrdyPre = true)
    (early : ∀ irq, d.isr ≠ .rrdyComplete irq) (comp : d.compRead = 0) (byte : d.received i n = some d.data)
  | stored (left : ∀ t ∈ d.transfers, t.left = 0) (irq : IrqStatus) (isr : d.isr = .rrdyComplete irq)
    (comp : d.compRead = 0) (byte : d.received i n = some d.gRead)
  | counted (left : ∀ t ∈ d.transfers, t.left = 0) (pre : d.isr.rrdyPre = false)
    (stale : d.status.rrdy = true → d.isr.rrdyHeld = true) (comp : d.compRead = 1)
    (byte : d.received i n = some d.gRead)

/-! ## The phases of a call -/

/-- What the holder of the mutex is doing, for a reception with its call. -/
inductive Phase (ι : Type) where
  | quiet
  | transmitting
  | between
  | primed
  | receiving (i : ι) (n : Nat)
  | stopping (i : ι) (n : Nat)
  | done (i : ι) (n : Nat)
  | failed

/-- The phase of call number `n` of `i` at each place inside the mutex. -/
def Pc.phase (i : ι) (n : Nat) (r : Request) : Pc → Phase ι
  | .waitLen | .waitStopTx => .transmitting
  | .reinitStopTx true | .setLenRx | .setCntRx => .between
  | .startRx => .primed
  | .waitRead => .receiving i n
  | .waitStopRx => .stopping i n
  | .reinitRead true | .reinitStopRx true => .done i n
  | .unlock true => match r with | .read .. => .done i n | .write .. => .quiet
  | .reinitStopTx false | .reinitRead false | .reinitStopRx false | .unlock false => .failed
  | _ => .quiet

def PhaseInv : Phase ι → Dev ι → Prop
  | .quiet, d => Quiet d
  | .transmitting, d => Transmitting d
  | .between, d => Quiet d ∧ d.isr.rrdyHeld = false
  | .primed, d => Quiet d ∧ d.isr.rrdyHeld = false ∧ d.cnt = 1
  | .receiving i n, d => StopToken d ∧ ReadToken i n d
  | .stopping i n, d =>
    StopToken d ∧ NoRead d ∧ (∀ t ∈ d.transfers, t.left = 0) ∧ d.received i n = some d.gRead
  | .done i n, d => Quiet d ∧ d.received i n = some d.gRead
  | .failed, _ => False

/-! ## The ISR keeps the phase -/

theorem isrStep_ok {d d' : Dev ι} (h : isrStep d = some d') (hok : d.isr.Ok) : d'.isr.Ok := by
  unfold isrStep at h
  split at h <;> simp only [Option.some.injEq] at h <;> subst h <;> grind [Isr.Ok]

theorem NoRead.isrStep {d d' : Dev ι} (h : NoRead d) (hs : isrStep d = some d') : NoRead d' := by
  obtain ⟨h1, h2, h3⟩ := h
  unfold Driver.isrStep at hs
  split at hs <;> simp only [Option.some.injEq] at hs <;> subst hs <;> constructor <;>
    grind [Isr.rrdyPre, Isr.rrdyHeld, IrqStatus.ack]

theorem StopToken.isrStep {d d' : Dev ι} (h : StopToken d) (hs : isrStep d = some d') : StopToken d' := by
  unfold Driver.isrStep at hs
  split at hs <;> simp only [Option.some.injEq] at hs <;> subst hs <;>
    grind [StopToken, Isr.ardyPre, Isr.ardyHeld, IrqStatus.ack]

/-- An ISR without an RRDY in hand stores no byte. -/
theorem NoRead.isrStep_gRead {d d' : Dev ι} (h : NoRead d) (hs : Driver.isrStep d = some d') :
    d'.gRead = d.gRead ∧ (d.isr.rrdyHeld = false → d'.isr.rrdyHeld = false) := by
  obtain ⟨h1, -, -⟩ := h
  unfold Driver.isrStep at hs
  split at hs <;> simp only [Option.some.injEq] at hs <;> subst hs <;> constructor <;>
    grind [Isr.rrdyPre, Isr.rrdyHeld]

theorem Quiet.isrStep {d d' : Dev ι} (h : Quiet d) (hs : isrStep d = some d') :
    Quiet d' ∧ d'.gRead = d.gRead ∧ (d.isr.rrdyHeld = false → d'.isr.rrdyHeld = false) := by
  have hn := h.noRead.isrStep hs
  refine ⟨?_, h.noRead.isrStep_gRead hs⟩
  obtain ⟨-, h2, h3, h4, h5⟩ := h
  unfold Driver.isrStep at hs
  split at hs <;> simp only [Option.some.injEq] at hs <;> subst hs <;> refine ⟨hn, ?_, ?_, ?_, ?_⟩ <;>
    grind [Isr.ardyPre, Isr.ardyHeld, IrqStatus.ack]

theorem Transmitting.isrStep {d d' : Dev ι} (h : Transmitting d) (hs : isrStep d = some d') : Transmitting d' := by
  have hn := h.noRead.isrStep hs
  have ht := h.stop.isrStep hs
  obtain ⟨⟨p1, p2, p3⟩, h2, h3, h4⟩ := h
  unfold Driver.isrStep at hs
  split at hs <;> simp only [Option.some.injEq] at hs <;> subst hs <;>
    refine ⟨hn, ht, ?_, ?_⟩ <;> grind [Isr.rrdyPre, Isr.rrdyHeld, Isr.ardyPre, StopToken]

theorem ReadToken.isrStep {i : ι} {n : Nat} {d d' : Dev ι} (h : ReadToken i n d) (hok : d.isr.Ok)
    (hs : isrStep d = some d') : ReadToken i n d' := by
  unfold Driver.isrStep at hs
  split at hs <;> simp only [Option.some.injEq] at hs <;> subst hs <;>
    grind [ReadToken, Isr.Ok, Isr.rrdyPre, Isr.rrdyHeld, IrqStatus.ack]

theorem isrStep_frame {d d' : Dev ι} (hs : isrStep d = some d') :
    d'.transfers = d.transfers ∧ d'.received = d.received ∧ d'.cnt = d.cnt ∧
      (d'.gRead = d.gRead ∨ ∃ irq, d.isr = .rrdyStore irq) := by
  unfold Driver.isrStep at hs
  split at hs <;> simp only [Option.some.injEq] at hs <;> subst hs <;> grind

theorem PhaseInv.isrStep {p : Phase ι} {d d' : Dev ι} (h : PhaseInv p d) (hok : d.isr.Ok)
    (hs : isrStep d = some d') : PhaseInv p d' := by
  obtain ⟨ht, hr, hcnt, hg⟩ := isrStep_frame hs
  cases p with
  | quiet => exact (Quiet.isrStep h hs).1
  | transmitting => exact Transmitting.isrStep h hs
  | between =>
    obtain ⟨hq, -, hh⟩ := h.1.isrStep hs
    exact ⟨hq, hh h.2⟩
  | primed =>
    obtain ⟨hq, -, hh⟩ := h.1.isrStep hs
    exact ⟨hq, hh h.2.1, by rw [hcnt]; exact h.2.2⟩
  | receiving i n => exact ⟨h.1.isrStep hs, h.2.isrStep hok hs⟩
  | stopping i n =>
    obtain ⟨h1, h2, h3, h4⟩ := h
    refine ⟨h1.isrStep hs, h2.isrStep hs, by rwa [ht], ?_⟩
    rcases hg with hg | ⟨irq, hg⟩
    · rwa [hr, hg]
    · have := h2.pre
      rw [hg] at this
      cases this
  | done i n =>
    obtain ⟨hq, hgr, -⟩ := h.1.isrStep hs
    exact ⟨hq, by rw [hr, hgr]; exact h.2⟩
  | failed => exact h

/-! ## Starting a transaction and taking what it is owed -/

/-- The places between taking the mutex and giving it back. -/
def Pc.critical : Pc → Bool
  | .poll _ | .lock | .load => false
  | _ => true

theorem Quiet.congr {d d' : Dev ι} (h : Quiet d) (hi : d'.isr = d.isr) (hs : d'.status = d.status)
    (ht : d'.transfers = d.transfers) (hr : d'.compRead = d.compRead) (hc : d'.compStop = d.compStop) : Quiet d' :=
  ⟨⟨by rw [hi]; exact h.noRead.pre, by rw [hs, hi]; exact h.noRead.stale, by rw [hr]; exact h.noRead.comp⟩,
    by rw [ht]; exact h.none, by rw [hc]; exact h.comp, by rw [hi]; exact h.pre, by rw [hs, hi]; exact h.stale⟩

theorem Quiet.startTx {d : Dev ι} (h : Quiet d) (i : ι) (n : Nat) : Transmitting (d.start i n .tx) where
  noRead := ⟨h.noRead.pre, h.noRead.stale, h.noRead.comp⟩
  stop := .owed h.comp h.pre (by simp [Dev.start, h.none]) (fun _ => h.stale)
  dir := by simp [Dev.start, h.none]
  fresh := by
    rintro (hp | hc)
    · rw [show (d.start i n .tx).isr = d.isr from rfl, h.pre] at hp; cases hp
    · rw [show (d.start i n .tx).compStop = d.compStop from rfl, h.comp] at hc; cases hc

theorem Quiet.startRx {d : Dev ι} (h : Quiet d) (hh : d.isr.rrdyHeld = false) (hcnt : d.cnt = 1) (i : ι) (n : Nat) :
    StopToken (d.start i n .rx) ∧ ReadToken i n (d.start i n .rx) := by
  have hst : d.status.rrdy = false := by
    by_contra hne
    have := h.noRead.stale (by simpa using hne)
    rw [hh] at this
    cases this
  refine ⟨.owed h.comp h.pre (by simp [Dev.start, h.none]) (fun _ => h.stale), ?_⟩
  exact .owed (by simp [Dev.start, h.none, hcnt]) hst h.noRead.pre hh h.noRead.comp

/-- Taking the ARDY of a transaction leaves nothing owed. -/
theorem StopToken.taken {d : Dev ι} (h : StopToken d) (hn : NoRead d) (hc : 0 < d.compStop) :
    Quiet { d with compStop := d.compStop - 1 } ∧ d.compStop = 1 := by
  cases h with
  | owed comp => omega
  | inHand comp => omega
  | counted comp pre hnil stale => exact ⟨⟨⟨hn.pre, hn.stale, hn.comp⟩, hnil, by simp [comp], pre, stale⟩, comp⟩

theorem StopToken.congr {d : Dev ι} (h : StopToken d) (c : Nat) : StopToken { d with compRead := c } := by
  cases h with
  | owed comp pre one stale => exact .owed comp pre one stale
  | inHand comp pre hnil => exact .inHand comp pre hnil
  | counted comp pre hnil stale => exact .counted comp pre hnil stale

/-- Taking the RRDY of a reception leaves its byte in `g_read`. -/
theorem ReadToken.taken {i : ι} {n : Nat} {d : Dev ι} (h : ReadToken i n d) (hc : 0 < d.compRead) :
    NoRead { d with compRead := d.compRead - 1 } ∧ (∀ t ∈ d.transfers, t.left = 0) ∧
      d.received i n = some d.gRead := by
  cases h with
  | owed _ _ _ _ comp => omega
  | raised _ _ _ _ comp => omega
  | inHand _ _ _ comp => omega
  | stored _ _ _ comp => omega
  | counted left pre stale comp byte => exact ⟨⟨pre, stale, by simp [comp]⟩, left, byte⟩

/-! ## The invariant -/

/-- The phase of the holder of the mutex. -/
def Bus.phase (s : Bus ι) : Phase ι :=
  match s.lock with
  | none => .quiet
  | some i =>
    match (s.callers i).state with
    | .running r pc => pc.phase i (s.callers i).calls r
    | _ => .quiet

/-- A call of `cotti_i2c_read` that returned a non-negative value returned the byte the controller
received in its own transaction. -/
def OwnBytes (s : Bus ι) : Prop :=
  ∀ i address slave value, (s.callers i).state = .returned (.read address slave) value → 0 ≤ value →
    ∃ byte, s.dev.received i (s.callers i).calls = some byte ∧ value = byte.toNat

structure Inv (s : Bus ι) : Prop where
  isr : s.dev.isr.Ok
  holder : ∀ i, s.lock = some i ↔ ∃ r pc, (s.callers i).state = .running r pc ∧ pc.critical = true
  phase : PhaseInv s.phase s.dev
  loads : ∀ i r, (s.callers i).state = .running r .load →
    s.dev.received i (s.callers i).calls = some s.dev.gRead
  own : OwnBytes s

/-- No wait times out or is interrupted. -/
def Action.Untimed : Action ι → Prop
  | .step _ o => o = .met
  | _ => True

instance (a : Action ι) : Decidable a.Untimed := by
  cases a <;> unfold Action.Untimed <;> infer_instance

/-- The ISR is about to store `g_read`. -/
def Isr.storing : Isr → Bool
  | .rrdyStore _ => true
  | _ => false

/-- The caller has unlocked the mutex and not yet loaded `g_read`. -/
def CallerState.loading : CallerState → Bool
  | .running _ .load => true
  | _ => false

/-- The step is not the ISR's store to `g_read` while some caller has unlocked the mutex and not
yet loaded it. -/
def Bus.KeepsLoads (s : Bus ι) (a : Action ι) : Prop :=
  a = .isr → s.dev.isr.storing = true → ∀ i, (s.callers i).state.loading = false

instance [Fintype ι] [DecidableEq ι] (s : Bus ι) (a : Action ι) : Decidable (s.KeepsLoads a) :=
  inferInstanceAs (Decidable (_ → _ → ∀ _, _))

theorem Inv.init : Inv ({} : Bus ι) where
  isr := trivial
  holder i := by simp
  phase := ⟨⟨rfl, by simp, rfl⟩, rfl, rfl, rfl, by simp⟩
  loads i r h := by simp at h
  own i a b v h := by simp at h

/-- A caller in no critical place has not got the mutex. -/
theorem Inv.not_holder {s : Bus ι} (h : Inv s) {i : ι}
    (hc : ∀ r pc, (s.callers i).state = .running r pc → pc.critical = false) : s.lock ≠ some i := by
  intro hl
  obtain ⟨r, pc, hs, hcr⟩ := (h.holder i).1 hl
  rw [hc r pc hs] at hcr
  cases hcr

theorem Pc.phase_receiving {i j : ι} {m n : Nat} {r : Request} {pc : Pc} (h : pc.phase j m r = .receiving i n) :
    pc = .waitRead ∧ j = i := by
  unfold Pc.phase at h
  split at h
  case h_7 => cases h; exact ⟨rfl, rfl⟩
  case h_11 => cases r <;> cases h
  all_goals cases h

/-- While a byte is owed, it is owed to the holder. -/
theorem Bus.phase_receiving {s : Bus ι} {i : ι} {n : Nat} (h : s.phase = .receiving i n) :
    s.lock = some i ∧ ∃ r, (s.callers i).state = .running r .waitRead := by
  unfold Bus.phase at h
  split at h
  · cases h
  · rename_i j hl
    split at h
    · rename_i r pc hs
      obtain ⟨rfl, rfl⟩ := Pc.phase_receiving h
      exact ⟨hl, r, hs⟩
    · cases h

/-- The phase depends on the mutex and its holder only. -/
theorem Bus.phase_congr {s s' : Bus ι} (hl : s'.lock = s.lock)
    (hc : ∀ i, s.lock = some i → s'.callers i = s.callers i) :
    s'.phase = s.phase := by
  unfold Bus.phase
  rw [hl]
  cases hlock : s.lock with
  | none => rfl
  | some i => simp only [hc i hlock]

/-- A step of the device that keeps the phase, the byte of every call but the holder's, and
`g_read` wherever a caller is about to load it. -/
theorem Inv.device {s : Bus ι} (h : Inv s) {d : Dev ι} (hok : d.isr.Ok) (hp : PhaseInv s.phase d)
    (hr : ∀ i n, s.phase ≠ .receiving i n → d.received i n = s.dev.received i n)
    (hg : d.gRead = s.dev.gRead ∨ ∀ i r, (s.callers i).state ≠ .running r .load) : Inv { s with dev := d } := by
  have hne : ∀ i, (∀ r, (s.callers i).state ≠ .running r .waitRead) →
      d.received i (s.callers i).calls = s.dev.received i (s.callers i).calls := fun i hw =>
    hr i _ fun hph => by
      obtain ⟨-, r, hs⟩ := Bus.phase_receiving hph
      exact hw r hs
  refine ⟨hok, h.holder, hp, fun i r hs => ?_, fun i a b v hs hv => ?_⟩
  · rcases hg with hg | hg
    · show d.received i _ = some d.gRead
      rw [hne i (fun r' hs' => by rw [hs] at hs'; cases hs'), hg]
      exact h.loads i r hs
    · exact absurd hs (hg i r)
  · obtain ⟨byte, hb, hv⟩ := h.own i a b v hs hv
    exact ⟨byte, by rw [← hb]; exact hne i (fun r' hs' => by rw [hs] at hs'; cases hs'), hv⟩

theorem Inv.isrStep {s : Bus ι} (h : Inv s) (hk : s.KeepsLoads .isr) {d : Dev ι} (hs : isrStep s.dev = some d) :
    Inv { s with dev := d } := by
  obtain ⟨-, hr, -, hg⟩ := isrStep_frame hs
  refine h.device (isrStep_ok hs h.isr) (h.phase.isrStep h.isr hs) (fun i n _ => by rw [hr]) ?_
  rcases hg with hg | hg
  · exact .inl hg
  · obtain ⟨irq, hg⟩ := hg
    refine .inr fun i r hs => ?_
    have := hk rfl (by rw [hg]; rfl) i
    rw [hs] at this
    cases this

/-! ## The controller keeps the phase -/

variable [DecidableEq ι]

/-- What an event does, with its guards. -/
theorem eventStep_cases {d d' : Dev ι} {e : Event} (h : eventStep d e = some d') :
    (∃ k t, e = .xrdy k ∧ d.transfers[k]? = some t ∧ t.dir = .tx ∧ 0 < t.left ∧ d.status.xrdy = false ∧ d' = { d with
      status := { d.status with xrdy := true }, transfers := d.transfers.set k { t with left := t.left - 1 } }) ∨
    (∃ k t b, e = .rrdy k b ∧ d.transfers[k]? = some t ∧ t.dir = .rx ∧ 0 < t.left ∧ d.status.rrdy = false ∧
      d' = { d with
        status := { d.status with rrdy := true }, data := b
        transfers := d.transfers.set k { t with left := t.left - 1 }
        received := Function.update d.received t.owner (Function.update (d.received t.owner) t.call (some b)) }) ∨
    (∃ k t, e = .ardy k ∧ d.transfers[k]? = some t ∧ t.left = 0 ∧ d' = { d with
      status := { d.status with ardy := true }, transfers := d.transfers.eraseIdx k }) ∨
    (∃ st : IrqStatus, st.rrdy = d.status.rrdy ∧ st.ardy = d.status.ardy ∧ st.xrdy = d.status.xrdy ∧
      d' = { d with status := st }) := by
  cases e with
  | xrdy k =>
    simp only [eventStep] at h
    split at h
    · rename_i t ht
      simp only [Option.ite_none_right_eq_some, Option.some.injEq] at h
      exact .inl ⟨k, t, rfl, ht, h.1.1, h.1.2.1, h.1.2.2, h.2.symm⟩
    · cases h
  | rrdy k b =>
    simp only [eventStep] at h
    split at h
    · rename_i t ht
      simp only [Option.ite_none_right_eq_some, Option.some.injEq] at h
      exact .inr (.inl ⟨k, t, b, rfl, ht, h.1.1, h.1.2.1, h.1.2.2, h.2.symm⟩)
    · cases h
  | ardy k =>
    simp only [eventStep] at h
    split at h
    · rename_i t ht
      simp only [Option.ite_none_right_eq_some, Option.some.injEq] at h
      exact .inr (.inr (.inl ⟨k, t, rfl, ht, h.1, h.2.symm⟩))
    · cases h
  | nack | al | bb busy =>
    simp only [eventStep, Option.some.injEq] at h
    refine .inr (.inr (.inr ⟨_, ?_, ?_, ?_, h.symm⟩)) <;> rfl

theorem NoRead.eventStep {d d' : Dev ι} {e : Event} (h : NoRead d) (hrx : ∀ t ∈ d.transfers, t.dir = .tx ∨ t.left = 0)
    (hs : eventStep d e = some d') : NoRead d' := by
  obtain ⟨h1, h2, h3⟩ := h
  rcases eventStep_cases hs with ⟨k, t, -, -, -, -, -, rfl⟩ | ⟨k, t, b, -, ht, hd, hl, -, rfl⟩ | ⟨k, t, -, -, -, rfl⟩ |
    ⟨st, hr, -, -, rfl⟩
  · exact ⟨h1, h2, h3⟩
  · rcases hrx t (List.mem_of_getElem? ht) with h | h
    · rw [hd] at h; cases h
    · omega
  · exact ⟨h1, h2, h3⟩
  · exact ⟨h1, by rwa [hr], h3⟩

omit [DecidableEq ι] in
/-- A data event changes one transfer and leaves ARDY alone. -/
theorem StopToken.data {d d' : Dev ι} {k : Nat} {t : Transfer ι} (h : StopToken d) (ht : d.transfers[k]? = some t)
    (hisr : d'.isr = d.isr) (hcomp : d'.compStop = d.compStop) (hardy : d'.status.ardy = d.status.ardy)
    (hlen : d'.transfers.length = d.transfers.length) : StopToken d' := by
  have hne : d.transfers ≠ [] := by
    intro hnil
    rw [hnil] at ht
    cases ht
  cases h with
  | owed comp pre one stale =>
    refine .owed (hcomp.trans comp) (by rw [hisr]; exact pre) (by rw [hlen]; exact one) ?_
    intro _ ha
    rw [hisr]
    exact stale hne (hardy.symm.trans ha)
  | inHand _ _ hnil => exact absurd hnil hne
  | counted _ _ hnil _ => exact absurd hnil hne

theorem StopToken.eventStep {d d' : Dev ι} {e : Event} (h : StopToken d) (hs : eventStep d e = some d') :
    StopToken d' := by
  rcases eventStep_cases hs with ⟨k, t, -, ht, -, -, -, rfl⟩ | ⟨k, t, b, -, ht, -, -, -, rfl⟩ | ⟨k, t, -, ht, -, rfl⟩ |
    ⟨st, -, ha, -, rfl⟩
  · exact h.data ht rfl rfl rfl (List.length_set ..)
  · exact h.data ht rfl rfl rfl (List.length_set ..)
  · cases h with
    | owed comp pre one stale =>
      -- the one transfer ends with its ARDY
      have hnil : d.transfers.eraseIdx k = [] := by
        have hk := (List.getElem?_eq_some_iff.1 ht).1
        rw [← List.length_eq_zero_iff, List.length_eraseIdx_of_lt hk]
        omega
      exact .owed comp pre (by simp [hnil]) (fun hne => absurd hnil hne)
    | inHand _ _ hnil => rw [hnil] at ht; cases ht
    | counted _ _ hnil _ => rw [hnil] at ht; cases ht
  · cases h with
    | owed comp pre one stale => exact .owed comp pre one (by simpa [ha] using stale)
    | inHand comp pre hnil => exact .inHand comp pre hnil
    | counted comp pre hnil stale => exact .counted comp pre hnil (by simpa [ha] using stale)

theorem Quiet.eventStep {d d' : Dev ι} {e : Event} (h : Quiet d) (hs : eventStep d e = some d') :
    Quiet d' ∧ d'.gRead = d.gRead ∧ d'.received = d.received ∧ d'.isr = d.isr ∧ d'.cnt = d.cnt := by
  obtain ⟨hn, hnil, hc, hp, hst⟩ := h
  rcases eventStep_cases hs with ⟨k, t, -, ht, -, -, -, rfl⟩ | ⟨k, t, b, -, ht, -, -, -, rfl⟩ | ⟨k, t, -, ht, -, rfl⟩ |
    ⟨st, hr, ha, -, rfl⟩
  · rw [hnil] at ht; cases ht
  · rw [hnil] at ht; cases ht
  · rw [hnil] at ht; cases ht
  · exact ⟨⟨⟨hn.pre, by simpa [hr] using hn.stale, hn.comp⟩, hnil, hc, hp, by simpa [ha] using hst⟩, rfl, rfl, rfl, rfl⟩

theorem Transmitting.eventStep {d d' : Dev ι} {e : Event} (h : Transmitting d) (hs : eventStep d e = some d') :
    Transmitting d' := by
  have hn := h.noRead.eventStep (fun t ht => .inl (h.dir t ht)) hs
  have ht := h.stop.eventStep hs
  obtain ⟨-, -, hdir, hf⟩ := h
  rcases eventStep_cases hs with ⟨k, t, -, hk, hd, -, -, rfl⟩ | ⟨k, t, b, -, hk, hd, -, -, rfl⟩ | ⟨k, t, -, -, -, rfl⟩ |
    ⟨st, -, -, -, rfl⟩
  · refine ⟨hn, ht, fun u hu => ?_, hf⟩
    rcases List.mem_or_eq_of_mem_set hu with hu | rfl
    · exact hdir u hu
    · exact hd
  · rw [hdir t (List.mem_of_getElem? hk)] at hd
    cases hd
  · exact ⟨hn, ht, fun u hu => hdir u (List.mem_of_mem_eraseIdx hu), hf⟩
  · exact ⟨hn, ht, hdir, hf⟩

/-- Once no data event is owed, an event is an ARDY or leaves the transfers alone. -/
theorem eventStep_left {d d' : Dev ι} {e : Event} (hl : ∀ t ∈ d.transfers, t.left = 0)
    (hs : eventStep d e = some d') :
    ∃ st l, (∀ t ∈ l, t.left = 0) ∧ st.rrdy = d.status.rrdy ∧ d' = { d with status := st, transfers := l } := by
  rcases eventStep_cases hs with ⟨k, t, -, hk, -, h0, -, rfl⟩ | ⟨k, t, b, -, hk, -, h0, -, rfl⟩ | ⟨k, t, -, -, -, rfl⟩ |
    ⟨st, hr, -, -, rfl⟩
  · have := hl t (List.mem_of_getElem? hk)
    omega
  · have := hl t (List.mem_of_getElem? hk)
    omega
  · exact ⟨{ d.status with ardy := true }, _, fun u hu => hl u (List.mem_of_mem_eraseIdx hu), rfl, rfl⟩
  · exact ⟨st, _, hl, hr, rfl⟩

theorem ReadToken.eventStep {i : ι} {n : Nat} {d d' : Dev ι} {e : Event} (h : ReadToken i n d)
    (hs : eventStep d e = some d') : ReadToken i n d' := by
  cases h with
  | owed htr hst hp hh hc =>
    rcases eventStep_cases hs with ⟨k, t, -, hk, hd, -, -, rfl⟩ | ⟨k, t, b, -, hk, -, -, -, rfl⟩ |
      ⟨k, t, -, hk, h0, rfl⟩ | ⟨st, hr, -, -, rfl⟩
    all_goals try
      obtain rfl : t = ⟨i, n, .rx, 1⟩ := by
        have := List.mem_of_getElem? hk
        rwa [htr, List.mem_singleton] at this
    · cases hd
    · refine .raised ?_ rfl hp hh hc (by simp)
      intro u hu
      have hk0 : k < 1 := by
        have := (List.getElem?_eq_some_iff.1 hk).1
        rwa [htr] at this
      obtain rfl : k = 0 := by omega
      simp only [htr, List.set_cons_zero, List.mem_singleton] at hu
      rw [hu]
    · cases h0
    · exact .owed htr (by rwa [hr]) hp hh hc
  | raised hl hst hp hh hc hb =>
    obtain ⟨st, l, hl', hr, rfl⟩ := eventStep_left hl hs
    exact .raised hl' (by rwa [hr]) hp hh hc hb
  | inHand hl hp he hc hb =>
    obtain ⟨st, l, hl', hr, rfl⟩ := eventStep_left hl hs
    exact .inHand hl' hp he hc hb
  | stored hl irq hi hc hb =>
    obtain ⟨st, l, hl', hr, rfl⟩ := eventStep_left hl hs
    exact .stored hl' irq hi hc hb
  | counted hl hp hst hc hb =>
    obtain ⟨st, l, hl', hr, rfl⟩ := eventStep_left hl hs
    exact .counted hl' hp (by simpa [hr] using hst) hc hb

theorem PhaseInv.eventStep {p : Phase ι} {d d' : Dev ι} {e : Event} (h : PhaseInv p d)
    (hs : eventStep d e = some d') : PhaseInv p d' := by
  cases p with
  | quiet => exact (Quiet.eventStep h hs).1
  | transmitting => exact Transmitting.eventStep h hs
  | between =>
    obtain ⟨hq, -, -, hi, -⟩ := h.1.eventStep hs
    exact ⟨hq, by rw [hi]; exact h.2⟩
  | primed =>
    obtain ⟨hq, -, -, hi, hcnt⟩ := h.1.eventStep hs
    exact ⟨hq, by rw [hi]; exact h.2.1, by rw [hcnt]; exact h.2.2⟩
  | receiving i n => exact ⟨StopToken.eventStep h.1 hs, ReadToken.eventStep h.2 hs⟩
  | stopping i n =>
    obtain ⟨h1, h2, h3, h4⟩ := h
    have hs1 := h1.eventStep hs
    have hs2 := h2.eventStep (fun t ht => .inr (h3 t ht)) hs
    obtain ⟨st, l, hl, -, rfl⟩ := eventStep_left h3 hs
    exact ⟨hs1, hs2, hl, h4⟩
  | done i n =>
    obtain ⟨hq, hg, hr, -⟩ := h.1.eventStep hs
    exact ⟨hq, by rw [hr, hg]; exact h.2⟩
  | failed => exact h

/-! ## A caller's step moves the phase on -/

theorem callStep_frame {i : ι} {n : Nat} {r : Request} {o : Outcome} {lock lock' : Option ι} {d d' : Dev ι}
    {pc : Pc} {next : CallerState} (hs : callStep i n r o lock d pc = some (next, lock', d')) :
    d'.gRead = d.gRead ∧ d'.received = d.received ∧ d'.isr = d.isr := by
  cases pc <;> cases r <;> grind [callStep, Dev.start]

/-- How a call's step ends: at its next place with the mutex still held, or with the mutex free
and, for a read, its own byte in `g_read`. -/
inductive Moved (i : ι) (n : Nat) (r : Request) (lock lock' : Option ι) (d' : Dev ι) : CallerState → Prop where
  | on (pc : Pc) (critical : pc.critical = true) (held : lock' = lock) (phase : PhaseInv (pc.phase i n r) d') :
    Moved i n r lock lock' d' (.running r pc)
  | load (free : lock' = none) (quiet : Quiet d') (byte : d'.received i n = some d'.gRead) :
    Moved i n r lock lock' d' (.running r .load)
  | written (free : lock' = none) (quiet : Quiet d') (write : ∀ a b, r ≠ .read a b) :
    Moved i n r lock lock' d' (.returned r 0)

theorem callStep_phase {i : ι} {n : Nat} {r : Request} {lock lock' : Option ι} {d d' : Dev ι} {pc : Pc}
    {next : CallerState} (hc : pc.critical = true) (h : PhaseInv (pc.phase i n r) d)
    (hs : callStep i n r .met lock d pc = some (next, lock', d')) : Moved i n r lock lock' d' next := by
  cases pc with
  | poll k => cases hc
  | lock => cases hc
  | load => cases hc
  | setSlave | setLen | clearFifo | storeVal | storeReg =>
    cases hs
    exact .on _ rfl rfl (Quiet.congr h rfl rfl rfl rfl rfl)
  | setCnt =>
    cases hs
    cases r <;> exact .on _ rfl rfl (Quiet.congr h rfl rfl rfl rfl rfl)
  | startTx =>
    cases hs
    exact .on _ rfl rfl (Quiet.startTx h i n)
  | waitLen =>
    simp only [callStep, Option.ite_none_right_eq_some, Option.some.injEq] at hs
    obtain ⟨-, hs⟩ := hs
    cases hs
    exact .on _ rfl rfl h
  | waitStopTx =>
    simp only [callStep, Option.ite_none_right_eq_some, Option.some.injEq] at hs
    obtain ⟨ho, hs⟩ := hs
    cases hs
    have hpos : 0 < d.compStop := by simpa [Outcome.possible] using ho
    obtain ⟨hq, h1⟩ := StopToken.taken h.stop h.noRead hpos
    exact .on _ rfl rfl ⟨hq, h.fresh (.inr h1)⟩
  | reinitStopTx ok =>
    cases hs
    cases ok with
    | false => exact h.elim
    | true =>
      have hq : Quiet { d with compStop := 0 } := h.1.congr rfl rfl rfl rfl h.1.comp.symm
      cases r with
      | read a b => exact .on _ rfl rfl ⟨hq, h.2⟩
      | write a b c => exact .on _ rfl rfl hq
  | setLenRx =>
    cases hs
    exact .on _ rfl rfl ⟨h.1.congr rfl rfl rfl rfl rfl, h.2⟩
  | setCntRx =>
    cases hs
    exact .on _ rfl rfl ⟨h.1.congr rfl rfl rfl rfl rfl, h.2, rfl⟩
  | startRx =>
    cases hs
    exact .on _ rfl rfl (Quiet.startRx h.1 h.2.1 h.2.2 i n)
  | waitRead =>
    simp only [callStep, Option.ite_none_right_eq_some, Option.some.injEq] at hs
    obtain ⟨ho, hs⟩ := hs
    cases hs
    obtain ⟨hn, hl, hb⟩ := h.2.taken (by simpa [Outcome.possible] using ho)
    exact .on _ rfl rfl ⟨h.1.congr _, hn, hl, hb⟩
  | waitStopRx =>
    simp only [callStep, Option.ite_none_right_eq_some, Option.some.injEq] at hs
    obtain ⟨ho, hs⟩ := hs
    cases hs
    obtain ⟨h1, h2, -, h4⟩ := h
    exact .on _ rfl rfl ⟨(h1.taken h2 (by simpa [Outcome.possible] using ho)).1, h4⟩
  | reinitRead ok =>
    cases hs
    cases ok with
    | false => exact h.elim
    | true => exact .on _ rfl rfl ⟨h.1.congr rfl rfl rfl h.1.noRead.comp.symm rfl, h.2⟩
  | reinitStopRx ok =>
    cases hs
    cases ok with
    | false => exact h.elim
    | true =>
      have hq : Quiet { d with compStop := 0 } := h.1.congr rfl rfl rfl rfl h.1.comp.symm
      cases r with
      | read a b => exact .on _ rfl rfl ⟨hq, h.2⟩
      | write a b c => exact .on _ rfl rfl hq
  | unlock ok =>
    cases hs
    cases ok with
    | false => exact h.elim
    | true =>
      cases r with
      | read a b => exact .load rfl h.1 h.2
      | write a b c => exact .written rfl h nofun

/-! ## The system -/

/-- The byte of a reception changes only while it is owed. -/
theorem eventStep_frame {p : Phase ι} {d d' : Dev ι} {e : Event} (h : PhaseInv p d) (hs : eventStep d e = some d') :
    d'.gRead = d.gRead ∧ d'.isr = d.isr ∧ ∀ i n, p ≠ .receiving i n → d'.received i n = d.received i n := by
  rcases eventStep_cases hs with ⟨k, t, -, -, -, -, -, rfl⟩ | ⟨k, t, b, -, hk, hd, hl, -, rfl⟩ | ⟨k, t, -, -, -, rfl⟩ |
    ⟨st, -, -, -, rfl⟩
  · exact ⟨rfl, rfl, fun _ _ _ => rfl⟩
  · refine ⟨rfl, rfl, fun i n hne => ?_⟩
    have hmem := List.mem_of_getElem? hk
    have hnone : d.transfers ≠ [] := List.ne_nil_of_mem hmem
    have howed : (∀ t ∈ d.transfers, t.left = 0) → False := fun h0 => by
      have := h0 t hmem
      omega
    cases p with
    | quiet => exact absurd h.none hnone
    | transmitting =>
      rw [h.dir t hmem] at hd
      cases hd
    | between => exact absurd h.1.none hnone
    | primed => exact absurd h.1.none hnone
    | receiving j m =>
      cases h.2 with
      | owed htr =>
        rw [htr, List.mem_singleton] at hmem
        subst hmem
        -- only call `m` of `j` is owed a byte
        by_cases hj : i = j
        · subst hj
          have hn : n ≠ m := fun hn => hne (by rw [hn])
          simp [hn]
        · simp [hj]
      | raised h0 => exact (howed h0).elim
      | inHand h0 => exact (howed h0).elim
      | stored h0 => exact (howed h0).elim
      | counted h0 => exact (howed h0).elim
    | stopping j m => exact (howed h.2.2.1).elim
    | done j m => exact absurd h.1.none hnone
    | failed => exact h.elim
  · exact ⟨rfl, rfl, fun _ _ _ => rfl⟩
  · exact ⟨rfl, rfl, fun _ _ _ => rfl⟩

/-- A caller moves, and with it the mutex and the device, the bytes received and `g_read` staying as
they are. -/
theorem Inv.update {s : Bus ι} (h : Inv s) {i : ι} {c : Caller} {lock : Option ι} {d : Dev ι}
    (hi : d.isr = s.dev.isr) (hr : d.received = s.dev.received) (hg : d.gRead = s.dev.gRead)
    (hself : lock = some i ↔ ∃ r pc, c.state = .running r pc ∧ pc.critical = true)
    (hother : ∀ j, j ≠ i → (lock = some j ↔ s.lock = some j))
    (hphase : PhaseInv (Bus.phase ⟨Function.update s.callers i c, lock, d⟩) d)
    (hload : ∀ r, c.state = .running r .load → d.received i c.calls = some d.gRead)
    (hown : ∀ a b v, c.state = .returned (.read a b) v → 0 ≤ v →
      ∃ byte, d.received i c.calls = some byte ∧ v = byte.toNat) :
    Inv ⟨Function.update s.callers i c, lock, d⟩ where
  isr := by rw [hi]; exact h.isr
  holder j := by
    rcases eq_or_ne j i with rfl | hj
    · simpa only [Function.update_self] using hself
    · simpa only [Function.update_of_ne hj] using (hother j hj).trans (h.holder j)
  phase := hphase
  loads j r hs := by
    rcases eq_or_ne j i with rfl | hj
    · simp only [Function.update_self] at hs ⊢
      exact hload r hs
    · simp only [Function.update_of_ne hj, hr, hg] at hs ⊢
      exact h.loads j r hs
  own j a b v hs hv := by
    rcases eq_or_ne j i with rfl | hj
    · simp only [Function.update_self] at hs ⊢
      exact hown a b v hs hv
    · simp only [Function.update_of_ne hj, hr] at hs ⊢
      exact h.own j a b v hs hv

/-- A caller that does not hold the mutex moves to a place outside it. -/
theorem Inv.outside {s : Bus ι} (h : Inv s) {i : ι} (hi : s.lock ≠ some i) {c : Caller}
    (hc : ∀ r pc, c.state = .running r pc → pc.critical = false)
    (hload : ∀ r, c.state = .running r .load → s.dev.received i c.calls = some s.dev.gRead)
    (hown : ∀ a b v, c.state = .returned (.read a b) v → 0 ≤ v →
      ∃ byte, s.dev.received i c.calls = some byte ∧ v = byte.toNat) :
    Inv { s with callers := Function.update s.callers i c } := by
  refine h.update rfl rfl rfl (iff_of_false hi ?_) (fun _ _ => Iff.rfl) ?_ hload hown
  · rintro ⟨r, pc, hs, hcr⟩
    rw [hc r pc hs] at hcr
    cases hcr
  · have hph : Bus.phase { s with callers := Function.update s.callers i c } = s.phase := by
      refine Bus.phase_congr rfl fun j hj => ?_
      have hne : j ≠ i := fun e => hi (by rw [← e]; exact hj)
      exact Function.update_of_ne hne _ _
    rw [hph]
    exact h.phase

theorem Inv.eventStep {s : Bus ι} (h : Inv s) {e : Event} {d : Dev ι} (hs : eventStep s.dev e = some d) :
    Inv { s with dev := d } := by
  obtain ⟨hg, hi, hr⟩ := eventStep_frame h.phase hs
  exact h.device (by rw [hi]; exact h.isr) (h.phase.eventStep hs) hr (.inl hg)

/-- A step of the holder of the mutex. -/
theorem Inv.critical {s : Bus ι} (h : Inv s) {i : ι} {r : Request} {pc : Pc}
    (hst : (s.callers i).state = .running r pc) (hc : pc.critical = true) {next : CallerState} {lock : Option ι}
    {d : Dev ι} (hs : callStep i (s.callers i).calls r .met s.lock s.dev pc = some (next, lock, d)) :
    Inv ⟨Function.update s.callers i ⟨(s.callers i).calls, next⟩, lock, d⟩ := by
  have hl : s.lock = some i := (h.holder i).2 ⟨r, pc, hst, hc⟩
  have hph : s.phase = pc.phase i (s.callers i).calls r := by
    unfold Bus.phase
    simp only [hl, hst]
  obtain ⟨hg, hr, hi⟩ := callStep_frame hs
  have hne : ∀ j, j ≠ i → s.lock ≠ some j := by
    intro j hj h'
    rw [hl] at h'
    exact hj (Option.some.inj h').symm
  cases callStep_phase hc (hph ▸ h.phase) hs with
  | on pc' hcr held phase =>
    subst held
    refine h.update hi hr hg (iff_of_true hl ⟨r, pc', rfl, hcr⟩) (fun _ _ => Iff.rfl) ?_ ?_ nofun
    · simpa only [Bus.phase, hl, Function.update_self] using phase
    · intro r' hs'
      cases hs'
      cases hcr
  | load free quiet byte =>
    subst free
    refine h.update hi hr hg (iff_of_false nofun ?_) (fun j hj => iff_of_false nofun (hne j hj)) quiet
      (fun _ _ => byte) nofun
    rintro ⟨r', pc', hs', hcr⟩
    cases hs'
    cases hcr
  | written free quiet write =>
    subst free
    refine h.update hi hr hg (iff_of_false nofun nofun) (fun j hj => iff_of_false nofun (hne j hj)) quiet nofun ?_
    intro a b v hs' _
    cases hs'
    exact absurd rfl (write a b)

/-- Taking the mutex. -/
theorem Inv.lock {s : Bus ι} (h : Inv s) {i : ι} {r : Request} (hl : s.lock = none) :
    Inv ⟨Function.update s.callers i ⟨(s.callers i).calls, .running r .setSlave⟩, some i, s.dev⟩ := by
  refine h.update rfl rfl rfl (iff_of_true rfl ⟨r, .setSlave, rfl, rfl⟩) (fun j hj => ?_) ?_ ?_ nofun
  · rw [hl]
    exact iff_of_false (fun e => hj (Option.some.inj e).symm) nofun
  · have hp := h.phase
    simp only [Bus.phase, hl] at hp
    simp only [Bus.phase, Function.update_self]
    exact hp
  · intro r' hs'
    cases hs'

theorem Inv.busStep {s s' : Bus ι} {a : Action ι} (h : Inv s) (hu : a.Untimed) (hk : s.KeepsLoads a)
    (hs : busStep s a = some s') : Inv s' := by
  cases a with
  | call i r =>
    simp only [Driver.busStep] at hs
    split at hs
    · cases hs
    · rename_i hrun
      cases hs
      refine h.outside (h.not_holder fun r' pc hs => absurd hs (hrun r' pc)) ?_ ?_ nofun
      · intro r' pc hs'
        cases hs'
        rfl
      · intro r' hs'
        cases hs'
  | step i o =>
    cases hu
    simp only [Driver.busStep] at hs
    split at hs
    · rename_i r pc hst
      obtain ⟨⟨next, lock, d⟩, hcs, rfl⟩ := Option.map_eq_some_iff.1 hs
      cases hcr : pc.critical with
      | true => exact h.critical hst hcr hcs
      | false =>
        have hi : s.lock ≠ some i := h.not_holder fun r' pc' hs' => by
          rw [hst] at hs'
          cases hs'
          exact hcr
        cases pc with
        | poll k =>
          simp only [callStep] at hcs
          split at hcs
          · split at hcs
            · cases hcs
              refine h.outside hi nofun nofun ?_
              intro a b v hs' hv
              cases hs'
              omega
            · cases hcs
              exact h.outside hi (fun _ _ hs' => by cases hs'; rfl) (fun _ hs' => by cases hs') nofun
          · cases hcs
            exact h.outside hi (fun _ _ hs' => by cases hs'; rfl) (fun _ hs' => by cases hs') nofun
        | lock =>
          simp only [callStep] at hcs
          split at hcs
          · cases hcs
          · rename_i hn
            cases hcs
            exact h.lock (by simpa using hn)
        | load =>
          cases hcs
          refine h.outside hi nofun nofun ?_
          intro a b v hs' _
          cases hs'
          exact ⟨s.dev.gRead, h.loads i _ hst, rfl⟩
        | _ => cases hcr
    · cases hs
  | isr =>
    obtain ⟨d, hd, rfl⟩ := Option.map_eq_some_iff.1 hs
    exact h.isrStep hk hd
  | event e =>
    obtain ⟨d, hd, rfl⟩ := Option.map_eq_some_iff.1 hs
    exact h.eventStep hd

/-- In every run in which no wait times out or is interrupted and the ISR never stores `g_read`
between some caller's unlock and its load, every read returns its own byte. -/
theorem reads_own_byte {s : Bus ι} (h : Run busStep (fun s a => a.Untimed ∧ s.KeepsLoads a) {} s) : OwnBytes s :=
  (h.invariant Inv.init fun _ _ _ hi hg hs => hi.busStep hg.1 hg.2 hs).own

end

/-! ## Two reads -/

/-- A read by caller `i`, up to the load of `g_read`: the controller transmits the register's
address, receives `byte`, and each event is handled in a pass of its own. -/
def readUpToLoad (i : Fin 2) (byte : BitVec 8) : List (Action (Fin 2)) :=
  let steps (n : Nat) := List.replicate n (Action.step i .met)
  let isr (n : Nat) := List.replicate n (.isr : Action (Fin 2))
  .call i (.read 0xFA 0x76) :: steps 8 ++ .event (.xrdy 0) :: isr 8 ++ .event (.ardy 0) :: isr 7 ++ steps 6 ++
    .event (.rrdy 0 byte) :: isr 9 ++ .event (.ardy 0) :: isr 7 ++ steps 5

/-- One read after the other, each caller gets its own byte. -/
theorem reads_own_byte_in_turn :
    ∃ s : Bus (Fin 2), (s.callers 0).state = .returned (.read 0xFA 0x76) 0x11 ∧
      (s.callers 1).state = .returned (.read 0xFA 0x76) 0x22 ∧ OwnBytes s := by
  have hrun : (runList busStep (fun s a => Action.Untimed a ∧ s.KeepsLoads a) {}
      (readUpToLoad 0 0x11 ++ .step 0 .met :: readUpToLoad 1 0x22 ++ [.step 1 .met])).map
        (fun s => ((s.callers 0).state, (s.callers 1).state)) =
      some (.returned (.read 0xFA 0x76) 0x11, .returned (.read 0xFA 0x76) 0x22) := by
    decide +kernel
  obtain ⟨s, hs, he⟩ := Option.map_eq_some_iff.1 hrun
  simp only [Prod.mk.injEq] at he
  exact ⟨s, he.1, he.2, reads_own_byte (Run.of_runList hs)⟩

/-- Between caller 0's unlock and its load of `g_read`, caller 1 reads: caller 0 returns caller 1's
byte. -/
theorem reads_mixed : ¬ ∀ s : Bus (Fin 2), Run busStep (fun _ a => a.Untimed) {} s → OwnBytes s := by
  intro h
  have hrun : (runList busStep (fun _ a => Action.Untimed a) {}
      (readUpToLoad 0 0x11 ++ readUpToLoad 1 0x22 ++ [.step 0 .met])).map
        (fun s => ((s.callers 0).state, s.dev.received 0 (s.callers 0).calls)) =
      some (.returned (.read 0xFA 0x76) 0x22, some 0x11) := by
    decide +kernel
  obtain ⟨s, hs, he⟩ := Option.map_eq_some_iff.1 hrun
  simp only [Prod.mk.injEq] at he
  obtain ⟨byte, hb, hv⟩ := h s (Run.of_runList hs) 0 _ _ _ he.1 (by decide)
  rw [he.2] at hb
  cases hb
  revert hv
  decide

end Td3.Driver
