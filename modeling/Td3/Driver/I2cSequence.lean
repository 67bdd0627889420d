/-
What one caller's sequence of `cotti_i2c_write` and `cotti_i2c_read` calls puts on the bus, while no
wait times out or is interrupted: the bytes of each call, in the order of the calls, whichever way the
events are grouped into invocations of the handler and passes of its loop. Wherever a call waits, the
controller owes it an event that ends the wait, or the handler has one in hand.

The AM335x has one core, and the handler runs on it to its end: the caller goes on between two
invocations of the handler, not inside one.
-/
import Td3.Driver.I2cProgress

namespace Td3.Driver

/-- The bus of one caller, and the calls it has made. -/
structure Session where
  bus : Bus Unit := {}
  calls : List Request := []

def sessionStep (t : Session) (a : Action Unit) : Option Session :=
  (busStep t.bus a).map fun bus => ⟨bus, match a with | .call _ r => t.calls ++ [r] | _ => t.calls⟩

/-- A wait of the caller ends with its condition met, and it goes on only when the handler is not
running. -/
def Session.Smooth (t : Session) : Action Unit → Prop
  | .step _ o => o = .met ∧ t.bus.dev.isr = .idle
  | _ => True

instance (t : Session) (a : Action Unit) : Decidable (t.Smooth a) := by
  cases a <;> unfold Session.Smooth <;> infer_instance

/-- What a call returned: 0, or for a read the byte received in it. -/
def Dev.Answer (d : Dev Unit) (n : Nat) (v : Int) : Request → Prop
  | .write .. => v = 0
  | .read .. => ∃ byte, d.received () n = some byte ∧ v = byte.toNat

/-! ## The invariant -/

/-- Where the caller is in its sequence of calls. -/
def Session.Place (calls : List Request) (n : Nat) (d : Dev Unit) : CallerState → Prop
  | .idle => calls = [] ∧ Rest [] d
  | .running r (.poll _) | .running r .lock =>
    ∃ made, calls = made ++ [r] ∧ Rest (made.flatMap Request.wire) d
  | .running r .load => (∃ a b, r = .read a b) ∧ ∃ made, calls = made ++ [r] ∧
    Rest (made.flatMap Request.wire ++ r.wire) d
  | .running r pc => ∃ made, calls = made ++ [r] ∧ Wire (made.flatMap Request.wire) r d pc
  | .returned r v => calls.getLast? = some r ∧ Rest (calls.flatMap Request.wire) d ∧ d.Answer n v r

structure Session.Inv (t : Session) : Prop where
  bus : Driver.Inv t.bus
  count : (t.bus.callers ()).calls = t.calls.length
  place : Session.Place t.calls t.calls.length t.bus.dev (t.bus.callers ()).state

theorem Session.Inv.init : Session.Inv {} := ⟨Driver.Inv.init, rfl, rfl, ⟨rfl, by simp⟩, rfl, rfl⟩

/-- `prv_is_irq_triggered` returns a `u8`, so it never sees BB, bit 12. -/
theorem prvIsIrqTriggered_bb (status : BitVec 16) : prvIsIrqTriggered status I2C_IRQ_BB = 0 := by
  rw [prvIsIrqTriggered, BitVec.setWidth_and]
  exact BitVec.and_zero

/-- The one caller has the mutex at the places inside it, and nobody has it elsewhere. -/
theorem Inv.free {s : Bus Unit} (h : Driver.Inv s)
    (hs : ∀ r pc, (s.callers ()).state = .running r pc → pc.critical = false) : s.lock = none ∧ Quiet s.dev := by
  have hl : s.lock = none := by
    by_contra hne
    obtain ⟨i, hi⟩ := Option.ne_none_iff_exists'.1 hne
    exact h.not_holder hs hi
  have hp := h.phase
  simp only [Bus.phase, hl] at hp
  exact ⟨hl, hp⟩

theorem Inv.phaseInv {s : Bus Unit} (h : Driver.Inv s) {r : Request} {pc : Pc}
    (hs : (s.callers ()).state = .running r pc) (n : Nat) (hn : (s.callers ()).calls = n) :
    PhaseInv (pc.phase () n r) s.dev := by
  subst hn
  cases hc : pc.critical with
  | true =>
    have hl : s.lock = some () := (h.holder ()).2 ⟨r, pc, hs, hc⟩
    simpa only [Bus.phase, hl, hs] using h.phase
  | false =>
    have hq := (h.free fun r' pc' hs' => by rw [hs] at hs'; cases hs'; exact hc).2
    cases pc <;> first | exact hq | cases hc

/-- The handler stores no byte while the one caller is about to load one. -/
theorem Inv.keepsLoads {s : Bus Unit} (h : Driver.Inv s) (a : Action Unit) : s.KeepsLoads a := by
  rintro - hst ⟨⟩
  cases hl : (s.callers ()).state.loading with
  | false => rfl
  | true =>
    obtain ⟨r, hs⟩ : ∃ r, (s.callers ()).state = .running r .load := by
      unfold CallerState.loading at hl
      split at hl
      · exact ⟨_, ‹_›⟩
      · cases hl
    have hpre := (h.free fun r' pc' hs' => by rw [hs] at hs'; cases hs'; rfl).2.noRead.pre
    cases hi : s.dev.isr <;> simp_all [Isr.storing, Isr.rrdyPre]

/-! ## The handler and the controller -/

theorem Rest.isrStep {all : List (BitVec 8 × BitVec 8)} {d d' : Dev Unit} (h : Rest all d) (hq : Quiet d)
    (hs : isrStep d = some d') : Rest all d' := by
  obtain ⟨hx, hsent, hlen⟩ := h
  exact ⟨(hx.isrStep hs).1, (hx.isrStep hs).2.trans hsent, ((isrStep_args hs).2.2.2 hq.noRead.pre hx.pre).trans hlen⟩

theorem Rest.eventStep {all : List (BitVec 8 × BitVec 8)} {d d' : Dev Unit} {e : Event} (h : Rest all d)
    (hq : Quiet d) (hs : eventStep d e = some d') : Rest all d' := by
  obtain ⟨hx, hsent, hlen⟩ := h
  have hx' := hx.eventStep (by simp [hq.none]) hs
  exact ⟨hx'.1, hx'.2.trans hsent, (eventStep_args hs).2.2.2.1.trans hlen⟩

/-- A step of the device keeps the place of the caller, if it keeps what the place says of the wire. -/
theorem Session.Place.device {t : Session} {d : Dev Unit} (h : t.Inv)
    (hrest : ∀ all, Quiet t.bus.dev → Rest all t.bus.dev → Rest all d)
    (hwire : ∀ base r pc, PhaseInv (pc.phase () t.calls.length r) t.bus.dev → Wire base r t.bus.dev pc →
    Wire base r d pc)
    (hans : ∀ r v, (t.bus.callers ()).state = .returned r v → d.received = t.bus.dev.received) :
    Session.Place t.calls t.calls.length d (t.bus.callers ()).state := by
  have hp := h.place
  cases hs : (t.bus.callers ()).state with
  | idle =>
    rw [hs] at hp
    exact ⟨hp.1, hrest _ (h.bus.free fun r pc hs' => by rw [hs] at hs'; cases hs').2 hp.2⟩
  | returned r v =>
    rw [hs] at hp
    refine ⟨hp.1, hrest _ (h.bus.free fun r pc hs' => by rw [hs] at hs'; cases hs').2 hp.2.1, ?_⟩
    have hr := hans r v hs
    have ha := hp.2.2
    cases r <;> simpa only [Dev.Answer, hr] using ha
  | running r pc =>
    rw [hs] at hp
    have hphase := h.bus.phaseInv hs _ h.count
    cases pc
    case poll | lock =>
      obtain ⟨made, hm, hr⟩ := hp
      exact ⟨made, hm, hrest _ hphase hr⟩
    case load =>
      obtain ⟨hread, made, hm, hr⟩ := hp
      exact ⟨hread, made, hm, hrest _ hphase hr⟩
    all_goals
      obtain ⟨made, hm, hw⟩ := hp
      exact ⟨made, hm, hwire _ _ _ hphase hw⟩

theorem Session.Inv.isrStep {t : Session} (h : t.Inv) {d : Dev Unit} (hs : isrStep t.bus.dev = some d) :
    Session.Inv { t with bus := { t.bus with dev := d } } where
  bus := h.bus.isrStep (h.bus.keepsLoads .isr) hs
  count := h.count
  place := Session.Place.device (t := t) h (fun _ hq hr => hr.isrStep hq hs) (fun _ _ _ hp hw => hw.isrStep hp hs)
    fun _ _ _ => (isrStep_frame hs).2.1

theorem Session.Inv.eventStep {t : Session} (h : t.Inv) {e : Event} {d : Dev Unit}
    (hs : eventStep t.bus.dev e = some d) : Session.Inv { t with bus := { t.bus with dev := d } } where
  bus := h.bus.eventStep hs
  count := h.count
  place := Session.Place.device (t := t) h (fun _ hq hr => hr.eventStep hq hs) (fun _ _ _ hp hw => hw.eventStep hp hs)
    fun r v hst => ((h.bus.free fun r pc hs' => by rw [hst] at hs'; cases hs').2.eventStep hs).2.2.1

/-! ## The caller -/

theorem Session.Inv.call {t : Session} (h : t.Inv) (r : Request) (hb : Driver.Inv
      { t.bus with callers := Function.update t.bus.callers () ⟨(t.bus.callers ()).calls + 1, .running r (.poll 0)⟩ })
    (hrun : ∀ r pc, (t.bus.callers ()).state ≠ .running r pc) :
    Session.Inv ⟨{ t.bus with
      callers := Function.update t.bus.callers () ⟨(t.bus.callers ()).calls + 1, .running r (.poll 0)⟩ },
      t.calls ++ [r]⟩ := by
  refine ⟨hb, by simp [h.count], ?_⟩
  have hp := h.place
  simp only [Function.update_self]
  cases hs : (t.bus.callers ()).state with
  | idle =>
    rw [hs] at hp
    exact ⟨t.calls, rfl, by rw [hp.1]; exact hp.2⟩
  | running r pc => exact absurd hs (hrun r pc)
  | returned r v =>
    rw [hs] at hp
    exact ⟨t.calls, rfl, hp.2.1⟩

/-- What a step of the call leaves of the invariant. -/
theorem Session.Place.callStep {t : Session} (h : t.Inv) (hi : t.bus.dev.isr = .idle) {r : Request} {pc : Pc}
    (hst : (t.bus.callers ()).state = .running r pc) {next : CallerState} {lock : Option Unit} {d : Dev Unit}
    (hs : callStep () (t.bus.callers ()).calls r .met t.bus.lock t.bus.dev pc = some (next, lock, d)) :
    Session.Place t.calls t.calls.length d next := by
  have hp := h.place
  rw [hst] at hp
  have hphase := h.bus.phaseInv hst _ rfl
  cases hc : pc.critical with
  | true =>
    obtain ⟨made, hm, hw⟩ : ∃ made, t.calls = made ++ [r] ∧ Wire (made.flatMap Request.wire) r t.bus.dev pc := by
      cases pc <;> first | exact hp | cases hc
    obtain ⟨hrun, hret⟩ := hw.callStep hc hi hphase hs
    cases callStep_phase hc hphase hs with
    | on pc' hc' held phase =>
      have := hrun pc' rfl
      cases pc' <;> first | exact ⟨made, hm, this⟩ | cases hc'
    | load free quiet byte => exact ⟨callStep_load hs, made, hm, hrun _ rfl⟩
    | written free quiet write =>
      refine ⟨by simp [hm], ?_, ?_⟩
      · simpa [hm] using hret 0 rfl
      · cases r with
        | read a b => exact absurd rfl (write a b)
        | write a b c => rfl
  | false =>
    have hl := (h.bus.free fun r' pc' hs' => by rw [hst] at hs'; cases hs'; exact hc).1
    cases pc with
    | poll k =>
      obtain ⟨made, hm, hr⟩ := hp
      simp only [Driver.callStep, prvIsIrqTriggered_bb, hl] at hs
      cases hs
      exact ⟨made, hm, hr⟩
    | lock =>
      obtain ⟨made, hm, hr⟩ := hp
      simp only [Driver.callStep, hl] at hs
      cases hs
      exact ⟨made, hm, hr.1, hr.2.1, by constructor <;> simp⟩
    | load =>
      obtain ⟨⟨a, b, rfl⟩, made, hm, hr⟩ := hp
      cases hs
      have hbyte := h.bus.loads () _ hst
      rw [h.count] at hbyte
      exact ⟨by simp [hm], by simpa [hm] using hr, _, hbyte, rfl⟩
    | _ => cases hc

theorem Session.Inv.step {t t' : Session} {a : Action Unit} (h : t.Inv) (hg : t.Smooth a)
    (hs : sessionStep t a = some t') : t'.Inv := by
  obtain ⟨bus, hb, rfl⟩ := Option.map_eq_some_iff.1 hs
  have hu : a.Untimed := by
    cases a with
    | step i o => exact hg.1
    | _ => trivial
  have hinv := h.bus.busStep hu (h.bus.keepsLoads a) hb
  cases a with
  | call i r =>
    simp only [busStep] at hb
    split at hb
    · cases hb
    · rename_i hrun
      cases hb
      exact h.call r hinv hrun
  | step i o =>
    obtain rfl : o = .met := hg.1
    simp only [busStep] at hb
    split at hb
    · rename_i r pc hst
      obtain ⟨⟨next, lock, d⟩, hcs, rfl⟩ := Option.map_eq_some_iff.1 hb
      exact ⟨hinv, by simpa using h.count, by simpa using Session.Place.callStep h hg.2 hst hcs⟩
    · cases hb
  | isr =>
    obtain ⟨d, hd, rfl⟩ := Option.map_eq_some_iff.1 hb
    exact h.isrStep hd
  | event e =>
    obtain ⟨d, hd, rfl⟩ := Option.map_eq_some_iff.1 hb
    exact h.eventStep hd

/-- `g_write` is indexed at 0 or 1 only. -/
theorem Session.Inv.index {t : Session} (h : t.Inv) {irq : IrqStatus} (hi : t.bus.dev.isr = .xrdyWrite irq) :
    t.bus.dev.gLen.toNat ≤ 1 := by
  have hnone : ¬ NoXrdy t.bus.dev := by
    rintro ⟨hpre, -⟩
    rw [hi] at hpre
    cases hpre
  have hp := h.place
  cases hs : (t.bus.callers ()).state with
  | idle =>
    rw [hs] at hp
    exact absurd hp.2.1 hnone
  | returned r v =>
    rw [hs] at hp
    exact absurd hp.2.1.1 hnone
  | running r pc =>
    rw [hs] at hp
    cases pc
    case waitLen | waitStopTx =>
      obtain ⟨made, -, hw⟩ := hp
      have hlen := hw.len
      have hmost := hw.most
      rw [hi] at hlen
      simp only [Isr.lowered] at hlen
      omega
    case load =>
      obtain ⟨-, made, -, hx, -⟩ := hp
      exact absurd hx hnone
    all_goals
      obtain ⟨made, -, hx, -⟩ := hp
      exact absurd hx hnone

/-! ## The handler comes to rest -/

section
variable {ι : Type}

/-- The handler is not running, and no interrupt is raised. -/
def Dev.Resting (d : Dev ι) : Prop := d.isr = .idle ∧ d.status.enabled = false

instance (d : Dev ι) : Decidable d.Resting := inferInstanceAs (Decidable (_ ∧ _))

/-- Another pass of the loop, if this one leaves an interrupt raised -/
def IrqStatus.again (s irq : IrqStatus) : Nat := if (s.ack irq).enabled then 12 else 0

/-- The steps of the handler until it rests -/
def Dev.work (d : Dev ι) : Nat :=
  match d.isr with
  | .idle => if d.status.enabled then 15 else 0
  | .check => if d.status.enabled then 14 else 2
  | .ardy irq => d.status.again irq + 9
  | .rrdyLen irq => d.status.again irq + 8
  | .rrdyStore irq => d.status.again irq + 7
  | .rrdyComplete irq => d.status.again irq + 6
  | .xrdyLen irq => d.status.again irq + 5
  | .xrdyWrite irq => d.status.again irq + 4
  | .ack irq => d.status.again irq + 3

theorem IrqStatus.again_self (s : IrqStatus) : s.again s = 0 := by
  simp [IrqStatus.again, IrqStatus.ack, IrqStatus.enabled]

theorem Dev.work_le (d : Dev ι) : d.work ≤ 21 := by
  have hagain (irq : IrqStatus) : d.status.again irq ≤ 12 := by
    unfold IrqStatus.again
    split <;> omega
  unfold Dev.work
  split
  case h_1 | h_2 => split <;> omega
  all_goals
    rename_i irq _
    have := hagain irq
    omega

theorem isrStep_work {d : Dev ι} (h : ¬ d.Resting) : ∃ d', isrStep d = some d' ∧ d'.work < d.work := by
  unfold isrStep
  cases hi : d.isr with
  | idle =>
    have he : d.status.enabled = true := by
      by_contra hne
      exact h ⟨hi, by simpa using hne⟩
    exact ⟨_, rfl, by simp [Dev.work, hi, he]⟩
  | check =>
    refine ⟨_, rfl, ?_⟩
    cases he : d.status.enabled with
    | true => simp [Dev.work, hi, he, IrqStatus.again_self]
    | false => simp [Dev.work, hi, he]
  | ack irq =>
    refine ⟨_, rfl, ?_⟩
    cases he : (d.status.ack irq).enabled <;> simp [Dev.work, hi, he, IrqStatus.again]
  | rrdyLen irq | xrdyLen irq =>
    refine ⟨_, rfl, ?_⟩
    split <;> simp [Dev.work, hi]
  | ardy irq | rrdyStore irq | rrdyComplete irq | xrdyWrite irq => exact ⟨_, rfl, by simp [Dev.work, hi]⟩

/-! ## What a waiting call is owed -/

/-- The places where a call waits, after a START -/
def Pc.started (pc : Pc) : Prop := pc ∈ [.waitLen, .waitStopTx, .waitRead, .waitStopRx]

/-- The ARDY of the last START is with the controller, on its way to the handler, or counted. -/
structure StopDue (d : Dev ι) : Prop where
  fresh : d.transfers ≠ [] → d.isr.ardyHeld = false
  due : d.transfers ≠ [] ∨ (d.status.ardy = true ∧ d.isr.ardyHeld = false) ∨ 0 < d.compStop

theorem StopDue.isrStep {d d' : Dev ι} (h : StopDue d) (ht : StopToken d) (hs : isrStep d = some d') : StopDue d' := by
  obtain ⟨h1, h2⟩ := h
  unfold Driver.isrStep at hs
  split at hs <;> simp only [Option.some.injEq] at hs <;> subst hs <;> constructor <;>
    grind [StopToken, Isr.ardyPre, Isr.ardyHeld, IrqStatus.ack]

/-- An event that a START owes, not an error or the state of the bus -/
def Event.OfTransfer : Event → Prop
  | .xrdy _ | .rrdy .. | .ardy _ => True
  | _ => False

instance (e : Event) : Decidable e.OfTransfer := by
  cases e <;> unfold Event.OfTransfer <;> infer_instance

/-- The data events and the ARDYs that are owed -/
def Dev.owing (d : Dev ι) : Nat := (d.transfers.map fun t => t.left + 1).sum

theorem PhaseInv.stopToken {i : ι} {n : Nat} {r : Request} {pc : Pc} {d : Dev ι} (hpc : pc.started)
    (h : PhaseInv (pc.phase i n r) d) : StopToken d := by
  simp only [Pc.started, List.mem_cons, List.not_mem_nil, or_false] at hpc
  rcases hpc with rfl | rfl | rfl | rfl
  · exact Transmitting.stop h
  · exact Transmitting.stop h
  · exact h.1
  · exact h.1

variable [DecidableEq ι]

theorem StopDue.eventStep {d d' : Dev ι} {e : Event} (h : StopDue d) (ht : StopToken d)
    (hs : eventStep d e = some d') : StopDue d' := by
  obtain ⟨h1, h2⟩ := h
  rcases eventStep_cases hs with ⟨k, t, -, hk, -, -, -, rfl⟩ | ⟨k, t, b, -, hk, -, -, -, rfl⟩ | ⟨k, t, -, hk, -, rfl⟩ |
    ⟨st, -, ha, -, rfl⟩
  · obtain ⟨hone, rfl, -, -⟩ := ht.single hk
    have hne : d.transfers ≠ [] := by simp [hone]
    exact ⟨fun _ => h1 hne, .inl (by simp [hone])⟩
  · obtain ⟨hone, rfl, -, -⟩ := ht.single hk
    have hne : d.transfers ≠ [] := by simp [hone]
    exact ⟨fun _ => h1 hne, .inl (by simp [hone])⟩
  · obtain ⟨hone, rfl, -, -⟩ := ht.single hk
    have hne : d.transfers ≠ [] := by simp [hone]
    exact ⟨fun _ => h1 hne, .inr (.inl ⟨rfl, h1 hne⟩)⟩
  · exact ⟨h1, by rw [ha]; exact h2⟩

/-- Each event is one less to come. -/
theorem eventStep_owing {d d' : Dev ι} {e : Event} (he : e.OfTransfer) (hs : eventStep d e = some d') :
    d'.owing < d.owing := by
  have hsplit {k : Nat} {t : Transfer ι} (hk : d.transfers[k]? = some t) :
      k < d.transfers.length ∧ d.transfers = d.transfers.take k ++ t :: d.transfers.drop (k + 1) := by
    obtain ⟨hlt, rfl⟩ := List.getElem?_eq_some_iff.1 hk
    exact ⟨hlt, by rw [← List.drop_eq_getElem_cons hlt, List.take_append_drop]⟩
  have howing {k : Nat} {t : Transfer ι} (hk : d.transfers[k]? = some t) : d.owing =
      ((d.transfers.take k).map fun t => t.left + 1).sum + (t.left + 1) +
        ((d.transfers.drop (k + 1)).map fun t => t.left + 1).sum := by
    unfold Dev.owing
    conv_lhs => rw [(hsplit hk).2]
    rw [List.map_append, List.map_cons, List.sum_append, List.sum_cons]
    omega
  have hset {k : Nat} {t : Transfer ι} (hk : d.transfers[k]? = some t) (hleft : 0 < t.left) :
      ((d.transfers.set k { t with left := t.left - 1 }).map fun t => t.left + 1).sum < d.owing := by
    rw [howing hk, List.set_eq_take_append_cons_drop, if_pos (hsplit hk).1, List.map_append, List.map_cons,
      List.sum_append, List.sum_cons]
    dsimp only
    omega
  cases e with
  | xrdy k | rrdy k byte =>
    simp only [eventStep] at hs
    split at hs
    · rename_i t hk
      simp only [Option.ite_none_right_eq_some, Option.some.injEq] at hs
      obtain ⟨⟨-, hleft, -⟩, rfl⟩ := hs
      exact hset hk hleft
    · cases hs
  | ardy k =>
    simp only [eventStep] at hs
    split at hs
    · rename_i t hk
      simp only [Option.ite_none_right_eq_some, Option.some.injEq] at hs
      obtain ⟨-, rfl⟩ := hs
      show ((d.transfers.eraseIdx k).map fun t => t.left + 1).sum < d.owing
      rw [howing hk, List.eraseIdx_eq_take_drop_succ, List.map_append, List.sum_append]
      omega
    · cases hs
  | nack | al | bb => exact he.elim

/-- Where a call can go on with a wait's condition met -/
theorem callStep_met {i : ι} {n : Nat} {r : Request} {lock : Option ι} {d : Dev ι} {pc : Pc}
    (hl : pc = .lock → lock = none) (hw : pc = .waitLen → d.gLen = 0) (hr : pc = .waitRead → 0 < d.compRead)
    (hs : pc = .waitStopTx ∨ pc = .waitStopRx → 0 < d.compStop) :
    ∃ next lock' d', callStep i n r .met lock d pc = some (next, lock', d') := by
  have hsome : (callStep i n r .met lock d pc).isSome = true := by
    cases pc with
    | lock => simp [callStep, hl rfl]
    | poll k =>
      simp only [callStep]
      split_ifs <;> rfl
    | waitLen => simp [callStep, Outcome.possible, hw rfl]
    | waitRead => simp [callStep, Outcome.possible, hr rfl]
    | waitStopTx => simp [callStep, Outcome.possible, hs (.inl rfl)]
    | waitStopRx => simp [callStep, Outcome.possible, hs (.inr rfl)]
    | unlock ok => cases r <;> rfl
    | _ => rfl
  obtain ⟨⟨next, lock', d'⟩, h⟩ := Option.isSome_iff_exists.1 hsome
  exact ⟨next, lock', d', h⟩

/-- What a step leaves of the call -/
theorem callStep_next {i : ι} {n : Nat} {r : Request} {o : Outcome} {lock lock' : Option ι} {d d' : Dev ι} {pc : Pc}
    {next : CallerState} (hs : callStep i n r o lock d pc = some (next, lock', d')) :
    (∃ pc', next = .running r pc') ∨ ∃ v, next = .returned r v := by
  cases r <;> cases pc <;> grind [callStep]

theorem StopDue.callStep {i : ι} {n : Nat} {r r' : Request} {lock lock' : Option ι} {d d' : Dev ι} {pc pc' : Pc}
    (hi : d.isr = .idle) (h : pc.started → StopDue d)
    (hs : callStep i n r .met lock d pc = some (.running r' pc', lock', d')) (hpc' : pc'.started) : StopDue d' := by
  have hstart (dir : Dir) : StopDue (d.start i n dir) :=
    ⟨fun _ => by rw [show (d.start i n dir).isr = d.isr from rfl, hi]; rfl, .inl (by simp [Dev.start])⟩
  cases pc with
  | startTx =>
    cases hs
    exact hstart .tx
  | startRx =>
    cases hs
    exact hstart .rx
  | waitLen | waitRead =>
    simp only [Driver.callStep, Option.ite_none_right_eq_some, Option.some.injEq] at hs
    obtain ⟨-, hs⟩ := hs
    cases hs
    obtain ⟨h1, h2⟩ := h (by simp [Pc.started])
    exact ⟨h1, h2⟩
  | _ =>
    exfalso
    simp only [Pc.started, List.mem_cons, List.not_mem_nil, or_false] at hpc'
    rcases hpc' with rfl | rfl | rfl | rfl <;> cases r <;> grind [Driver.callStep]

/-- The controller can raise an event that it owes. -/
theorem StopToken.owes {d : Dev ι} (h : StopToken d) (hrest : d.Resting) (hne : d.transfers ≠ []) :
    ∃ e d', e.OfTransfer ∧ Driver.eventStep d e = some d' := by
  obtain ⟨t, ts, hts⟩ := List.exists_cons_of_ne_nil hne
  obtain ⟨hone, -⟩ := h.single (k := 0) (t := t) (by simp [hts])
  obtain ⟨hi, he⟩ := hrest
  simp only [IrqStatus.enabled, Bool.or_eq_false_iff] at he
  have hget : d.transfers[0]? = some t := by simp [hone]
  by_cases hleft : t.left = 0
  · exact ⟨.ardy 0, _, trivial, by rw [Driver.eventStep, hget]; exact if_pos hleft⟩
  · have hpos : 0 < t.left := by omega
    cases hdir : t.dir with
    | tx => exact ⟨.xrdy 0, _, trivial, by rw [Driver.eventStep, hget]; exact if_pos ⟨hdir, hpos, he.1.1.1.1⟩⟩
    | rx => exact ⟨.rrdy 0 0, _, trivial, by rw [Driver.eventStep, hget]; exact if_pos ⟨hdir, hpos, he.1.1.1.2⟩⟩

end

/-! ## The call goes on -/

theorem StopToken.few {ι : Type} {d : Dev ι} (h : StopToken d) : d.transfers.length ≤ 1 := by
  cases h with
  | owed _ _ one => exact one
  | inHand _ _ none => simp [none]
  | counted _ _ none => simp [none]

/-- A START is for two bytes at most, and one ARDY. -/
theorem PhaseInv.owing_le {ι : Type} {p : Phase ι} {d : Dev ι} (h : PhaseInv p d)
    (hmost : p = .transmitting → d.owed ≤ 2) : d.owing ≤ 3 := by
  have hnone (hnil : d.transfers = []) : d.owing ≤ 3 := by simp [Dev.owing, hnil]
  have hstop (ht : StopToken d) (hleft : d.owed ≤ 2) : d.owing ≤ 3 := by
    have hfew := ht.few
    have hsum : d.owing = d.owed + d.transfers.length := by
      simp [Dev.owing, Dev.owed, List.sum_map_add]
    omega
  have hzero (hleft : ∀ t ∈ d.transfers, t.left = 0) : d.owed = 0 := by
    rw [Dev.owed, List.sum_eq_zero_iff]
    simpa using hleft
  cases p with
  | quiet => exact hnone (Quiet.none h)
  | transmitting => exact hstop (Transmitting.stop h) (hmost rfl)
  | between => exact hnone h.1.none
  | primed => exact hnone h.1.none
  | receiving i n =>
    refine hstop h.1 ?_
    cases h.2 with
    | owed transfers => simp [Dev.owed, transfers]
    | raised left | inHand left | stored left | counted left => simp [hzero left]
  | stopping i n => exact hstop h.1 (by simp [hzero h.2.2.1])
  | done i n => exact hnone h.1.none
  | failed => exact h.elim

/-- The bus is looked at 101 times at most, and a call that waits is owed an ARDY. -/
structure Session.Going (t : Session) : Prop where
  polls : (t.bus.callers ()).state.Polls
  due : ∀ r pc, (t.bus.callers ()).state = .running r pc → pc.started → StopDue t.bus.dev

theorem Session.Going.init : Session.Going {} := ⟨trivial, nofun⟩

/-- Where the wait of the one caller is, the ARDY is too. -/
theorem Session.Inv.stopToken {t : Session} (h : t.Inv) {r : Request} {pc : Pc}
    (hst : (t.bus.callers ()).state = .running r pc) (hpc : pc.started) : StopToken t.bus.dev :=
  (h.bus.phaseInv hst _ rfl).stopToken hpc

theorem Session.Going.step {t t' : Session} {a : Action Unit} (h : t.Going) (hinv : t.Inv) (hg : t.Smooth a)
    (hs : sessionStep t a = some t') : t'.Going := by
  obtain ⟨bus, hb, rfl⟩ := Option.map_eq_some_iff.1 hs
  cases a with
  | call i r =>
    simp only [busStep] at hb
    split at hb
    · cases hb
    · cases hb
      refine ⟨Nat.zero_le 100, ?_⟩
      rintro r' pc' hst hpc
      simp only [Function.update_self, CallerState.running.injEq] at hst
      rw [← hst.2] at hpc
      simp [Pc.started] at hpc
  | step i o =>
    obtain ⟨rfl, hidle⟩ := hg
    simp only [busStep] at hb
    split at hb
    · rename_i r pc hst
      obtain ⟨⟨next, lock, d⟩, hcs, rfl⟩ := Option.map_eq_some_iff.1 hb
      have hpoll := h.polls
      rw [hst] at hpoll
      refine ⟨by simpa using (callStep_rank hpoll hcs).2, ?_⟩
      rintro r' pc' hst' hpc'
      simp only [Function.update_self] at hst'
      subst hst'
      exact StopDue.callStep hidle (h.due r pc hst) hcs hpc'
    · cases hb
  | isr =>
    obtain ⟨d, hd, rfl⟩ := Option.map_eq_some_iff.1 hb
    exact ⟨h.polls, fun r pc hst hpc => (h.due r pc hst hpc).isrStep (hinv.stopToken hst hpc) hd⟩
  | event e =>
    obtain ⟨d, hd, rfl⟩ := Option.map_eq_some_iff.1 hb
    exact ⟨h.polls, fun r pc hst hpc => (h.due r pc hst hpc).eventStep (hinv.stopToken hst hpc) hd⟩

/-- The call in progress goes on: with the events that the controller owes it, and with the handler where an
interrupt is raised. -/
def Session.Serves (t : Session) : Action Unit → Prop
  | .call .. => False
  | .step _ o => o = .met ∧ t.bus.dev.isr = .idle
  | .isr => ¬ t.bus.dev.Resting
  | .event e => e.OfTransfer

instance (t : Session) (a : Action Unit) : Decidable (t.Serves a) := by
  cases a <;> unfold Session.Serves <;> infer_instance

theorem Session.Serves.smooth {t : Session} {a : Action Unit} (h : t.Serves a) : t.Smooth a := by
  cases a with
  | call i r => exact h.elim
  | step i o => exact h
  | isr => trivial
  | event e => trivial

/-- The steps of the call, before each of them the events owed, and after each of these the handler -/
def Session.rank (t : Session) : Nat :=
  100 * (t.bus.callers ()).state.rank + 22 * t.bus.dev.owing + t.bus.dev.work

theorem Session.Inv.owing_le {t : Session} (h : t.Inv) : t.bus.dev.owing ≤ 3 := by
  have hquiet (hs : ∀ r pc, (t.bus.callers ()).state ≠ .running r pc) : t.bus.dev.owing ≤ 3 :=
    PhaseInv.owing_le (p := .quiet) (h.bus.free fun r pc hst => absurd hst (hs r pc)).2 nofun
  cases hst : (t.bus.callers ()).state with
  | idle => exact hquiet fun r pc hrun => by rw [hst] at hrun; cases hrun
  | returned r v => exact hquiet fun r pc hrun => by rw [hst] at hrun; cases hrun
  | running r pc =>
    refine (h.bus.phaseInv hst _ rfl).owing_le fun htx => ?_
    have hp := h.place
    rw [hst] at hp
    rcases Pc.phase_transmitting htx with rfl | rfl
    · obtain ⟨made, -, hw⟩ := hp
      exact le_trans (Nat.le_add_left ..) (Sending.most hw)
    · obtain ⟨made, -, hw⟩ := hp
      exact le_trans (Nat.le_add_left ..) (Sending.most hw)

/-- Every such step is one less. -/
theorem Session.Inv.rank_lt {t t' : Session} (h : t.Inv) (hgo : t.Going) {a : Action Unit} (ha : t.Serves a)
    (hs : sessionStep t a = some t') : t'.rank < t.rank := by
  have hfew := (h.step ha.smooth hs).owing_le
  obtain ⟨bus, hb, rfl⟩ := Option.map_eq_some_iff.1 hs
  unfold Session.rank
  cases a with
  | call i r => exact ha.elim
  | step i o =>
    simp only [busStep] at hb
    split at hb
    · rename_i r pc hst
      obtain ⟨⟨next, lock, d⟩, hcs, rfl⟩ := Option.map_eq_some_iff.1 hb
      have hpoll := hgo.polls
      rw [hst] at hpoll
      have hrank := (callStep_rank hpoll hcs).1
      have hwork := d.work_le
      simp only [Function.update_self, hst, CallerState.rank] at hfew hrank ⊢
      omega
    · cases hb
  | isr =>
    obtain ⟨d, hd, rfl⟩ := Option.map_eq_some_iff.1 hb
    obtain ⟨d', hd', hlt⟩ := isrStep_work ha
    obtain rfl : d = d' := Option.some.inj (hd.symm.trans hd')
    have hsame := (isrStep_frame hd).1
    simp only [Dev.owing, hsame]
    omega
  | event e =>
    obtain ⟨d, hd, rfl⟩ := Option.map_eq_some_iff.1 hb
    have hlt := eventStep_owing ha hd
    have hwork := d.work_le
    dsimp only
    omega

theorem Session.Inv.rank_le {t : Session} (h : t.Inv) : t.rank ≤ 12187 := by
  have hcaller : (t.bus.callers ()).state.rank ≤ 121 := by
    cases (t.bus.callers ()).state with
    | running r pc => cases pc <;> grind [CallerState.rank, Pc.rank]
    | _ => exact Nat.zero_le _
  have howing := h.owing_le
  have hwork := t.bus.dev.work_le
  unfold Session.rank
  omega

/-- A wait whose condition does not hold, with the handler at rest, is owed an event. -/
theorem Session.Inv.owes {t : Session} (h : t.Inv) (hgo : t.Going) (hrest : t.bus.dev.Resting) {r : Request} {pc : Pc}
    (hst : (t.bus.callers ()).state = .running r pc)
    (hwait : (pc = .waitLen ∧ t.bus.dev.gLen ≠ 0) ∨ (pc = .waitRead ∧ t.bus.dev.compRead = 0) ∨
      ((pc = .waitStopTx ∨ pc = .waitStopRx) ∧ t.bus.dev.compStop = 0)) : t.bus.dev.transfers ≠ [] := by
  obtain ⟨hi, he⟩ := hrest
  simp only [IrqStatus.enabled, Bool.or_eq_false_iff] at he
  have hp := h.place
  have hphase := h.bus.phaseInv hst _ rfl
  rw [hst] at hp
  rcases hwait with ⟨rfl, hlen⟩ | ⟨rfl, hcomp⟩ | ⟨hpc, hcomp⟩
  · obtain ⟨made, -, hw⟩ := hp
    intro hnil
    have heq := Sending.len hw
    rw [hi] at heq
    simp [Isr.lowered, Dev.pending, Dev.owed, hnil, he] at heq
    exact hlen (BitVec.eq_of_toNat_eq (by simpa using heq))
  · cases hphase.2 with
    | owed transfers => simp [transfers]
    | raised _ status => simp [he] at status
    | inHand _ pre => simp [hi, Isr.rrdyPre] at pre
    | stored _ irq isr => simp [hi] at isr
    | counted _ _ _ comp => omega
  · have hdue := hgo.due r pc hst (by rcases hpc with rfl | rfl <;> simp [Pc.started])
    rcases hdue.due with hne | ⟨hardy, -⟩ | hcount
    · exact hne
    · simp [he] at hardy
    · omega

/-- Some step can be taken in the call. -/
theorem Session.Inv.goes_on {t : Session} (h : t.Inv) (hgo : t.Going) {r : Request} {pc : Pc}
    (hst : (t.bus.callers ()).state = .running r pc) : ∃ a t', t.Serves a ∧ sessionStep t a = some t' ∧
      t'.calls = t.calls ∧ ((∃ pc', (t'.bus.callers ()).state = .running r pc') ∨
        ∃ v, (t'.bus.callers ()).state = .returned r v) := by
  by_cases hrest : t.bus.dev.Resting
  · have hidle := hrest.1
    by_cases hwait : (pc = .waitLen ∧ t.bus.dev.gLen ≠ 0) ∨ (pc = .waitRead ∧ t.bus.dev.compRead = 0) ∨
        ((pc = .waitStopTx ∨ pc = .waitStopRx) ∧ t.bus.dev.compStop = 0)
    · -- the controller's turn
      have hpc : pc.started := by
        rcases hwait with ⟨rfl, -⟩ | ⟨rfl, -⟩ | ⟨rfl | rfl, -⟩ <;> simp [Pc.started]
      obtain ⟨e, d, he, hd⟩ := (h.stopToken hst hpc).owes hrest (h.owes hgo hrest hst hwait)
      refine ⟨.event e, ⟨{ t.bus with dev := d }, t.calls⟩, he, ?_, rfl, .inl ⟨pc, hst⟩⟩
      simp [sessionStep, busStep, hd]
    · -- the caller's
      have hlock : pc = .lock → t.bus.lock = none := by
        rintro rfl
        exact (h.bus.free fun r' pc' hs' => by rw [hst] at hs'; cases hs'; rfl).1
      obtain ⟨next, lock, d, hcs⟩ := callStep_met (i := ()) (n := (t.bus.callers ()).calls) (r := r) (d := t.bus.dev)
        hlock (by rintro rfl; simpa using hwait) (by rintro rfl; simp at hwait; omega)
        (by rintro (rfl | rfl) <;> · simp at hwait; omega)
      have hstep : sessionStep t (.step () .met) = some ⟨⟨Function.update t.bus.callers ()
          ⟨(t.bus.callers ()).calls, next⟩, lock, d⟩, t.calls⟩ := by
        simp [sessionStep, busStep, hst, hcs]
      exact ⟨.step () .met, _, ⟨rfl, hidle⟩, hstep, rfl, by simpa using callStep_next hcs⟩
  · -- the handler's
    obtain ⟨d, hd, -⟩ := isrStep_work hrest
    refine ⟨.isr, ⟨{ t.bus with dev := d }, t.calls⟩, hrest, ?_, rfl, .inl ⟨pc, hst⟩⟩
    simp [sessionStep, busStep, hd]

/-- In the last of these calls, or just returned from it -/
structure Session.InCall (calls : List Request) (r : Request) (t : Session) : Prop where
  inv : t.Inv
  going : t.Going
  calls : t.calls = calls
  state : (∃ pc, (t.bus.callers ()).state = .running r pc) ∨ ∃ v, (t.bus.callers ()).state = .returned r v

/-- From everywhere in a call, a run in which the controller raises the events owed leads to its return. -/
theorem Session.InCall.returns {calls : List Request} {r : Request} {t : Session} (h : t.InCall calls r) :
    ∃ t', Run sessionStep Session.Serves t t' ∧ t'.calls = calls ∧
      ∃ v, (t'.bus.callers ()).state = .returned r v := by
  have hstep : ∀ s : Session, s.InCall calls r → ¬ (s.calls = calls ∧ ∃ v, (s.bus.callers ()).state = .returned r v) →
      ∃ a u, s.Serves a ∧ sessionStep s a = some u ∧ u.InCall calls r ∧ u.rank < s.rank := by
    intro s hs hnot
    obtain ⟨pc, hrun⟩ := hs.state.resolve_right fun hret => hnot ⟨hs.calls, hret⟩
    obtain ⟨a, u, ha, hu, hcalls, hnext⟩ := hs.inv.goes_on hs.going hrun
    exact ⟨a, u, ha, hu, ⟨hs.inv.step ha.smooth hu, hs.going.step hs.inv ha.smooth hu, hcalls.trans hs.calls, hnext⟩,
      hs.inv.rank_lt hs.going ha hu⟩
  exact Run.exists_of_rank hstep h

/-- No run goes on in the call for ever. -/
theorem Session.Inv.served_le {t t' : Session} (h : t.Inv) (hgo : t.Going) {as : List (Action Unit)}
    (hrun : runList sessionStep Session.Serves t as = some t') : as.length ≤ 12187 := by
  have hstep : ∀ s a u, Session.Inv s ∧ s.Going → s.Serves a → sessionStep s a = some u →
      (u.Inv ∧ u.Going) ∧ u.rank + true.toNat ≤ s.rank := by
    rintro s a u ⟨hs, hs'⟩ ha hu
    exact ⟨⟨hs.step ha.smooth hu, hs'.step hs ha.smooth hu⟩, hs.rank_lt hs' ha hu⟩
  have hle := (countP_le_of_runList hstep ⟨h, hgo⟩ hrun).1
  have hrank := h.rank_le
  rw [List.countP_true] at hle
  omega

/-- In every run: the handler indexes `g_write` at 0 or 1 only; whenever the caller is not in a call, the
bus has carried the bytes of its calls in their order, `g_len` is 0, no completion is signalled, the mutex is
free, and the last call returned 0 or the byte received in it; and from everywhere in a call its return can
be reached with the events that the controller owes, while nothing can put it off for ever. -/
theorem calls_transfer {t : Session} (h : Run sessionStep Session.Smooth {} t) :
    (∀ irq, t.bus.dev.isr = .xrdyWrite irq → t.bus.dev.gLen.toNat ≤ 1) ∧
    ((∀ r pc, (t.bus.callers ()).state ≠ .running r pc) →
      t.bus.dev.sent = t.calls.flatMap Request.wire ∧ t.bus.dev.gLen = 0 ∧ t.bus.dev.compRead = 0 ∧
        t.bus.dev.compStop = 0 ∧ t.bus.lock = none ∧
        ∀ r v, (t.bus.callers ()).state = .returned r v →
          t.calls.getLast? = some r ∧ t.bus.dev.Answer t.calls.length v r) ∧
    ∀ r pc, (t.bus.callers ()).state = .running r pc →
      (∃ t', Run sessionStep Session.Serves t t' ∧ t'.calls = t.calls ∧
        ∃ v, (t'.bus.callers ()).state = .returned r v) ∧
      ∀ as t', runList sessionStep Session.Serves t as = some t' → as.length ≤ 12187 := by
  obtain ⟨hi, hgo⟩ : t.Inv ∧ t.Going := h.invariant (P := fun t => t.Inv ∧ t.Going) ⟨.init, .init⟩
    fun _ _ _ hi hg hs => ⟨hi.1.step hg hs, hi.2.step hi.1 hg hs⟩
  refine ⟨fun irq => hi.index, fun hrun => ?_, fun r pc hst => ⟨?_, fun as t' => hi.served_le hgo⟩⟩
  case refine_2 => exact Session.InCall.returns ⟨hi, hgo, rfl, .inl ⟨pc, hst⟩⟩
  obtain ⟨hl, hq⟩ := hi.bus.free fun r pc hs => absurd hs (hrun r pc)
  have hp := hi.place
  cases hs : (t.bus.callers ()).state with
  | idle =>
    rw [hs] at hp
    obtain ⟨hnil, -, hsent, hlen⟩ := hp
    exact ⟨by rw [hnil]; exact hsent, hlen, hq.noRead.comp, hq.comp, hl, nofun⟩
  | running r pc => exact absurd hs (hrun r pc)
  | returned r v =>
    rw [hs] at hp
    obtain ⟨hlast, ⟨-, hsent, hlen⟩, hans⟩ := hp
    refine ⟨hsent, hlen, hq.noRead.comp, hq.comp, hl, ?_⟩
    rintro r' v' ⟨⟩
    exact ⟨hlast, hans⟩

/-- A write whose two XRDYs are handled in one invocation, and a read whose ARDY comes with its RRDY. -/
def writeThenRead (byte : BitVec 8) : List (Action Unit) :=
  let steps (n : Nat) := List.replicate n (Action.step () .met)
  let isr (n : Nat) := List.replicate n (.isr : Action Unit)
  .call () (.write 0x27 0xF4 0x76) :: steps 9 ++ .event (.xrdy 0) :: isr 7 ++ .event (.xrdy 0) :: isr 6 ++
    .event (.ardy 0) :: isr 6 ++ steps 4 ++
  .call () (.read 0xFA 0x76) :: steps 8 ++ .event (.xrdy 0) :: isr 8 ++ .event (.ardy 0) :: isr 7 ++ steps 6 ++
    .event (.rrdy 0 byte) :: .event (.ardy 0) :: isr 9 ++ steps 6

/-- The two calls have returned; and in the middle of the first one, its return can be reached. -/
theorem calls_transfer_example :
    (∃ t, Run sessionStep Session.Smooth {} t ∧ t.calls = [.write 0x27 0xF4 0x76, .read 0xFA 0x76] ∧
      (t.bus.callers ()).state = .returned (.read 0xFA 0x76) 0x5A ∧
      t.bus.dev.sent = [(0x76, 0xF4), (0x76, 0x27), (0x76, 0xFA)]) ∧
    ∃ t, Run sessionStep Session.Smooth {} t ∧ (t.bus.callers ()).state = .running (.write 0x27 0xF4 0x76) .waitLen ∧
      ∃ t', Run sessionStep Session.Serves t t' ∧ t'.calls = t.calls ∧
        ∃ v, (t'.bus.callers ()).state = .returned (.write 0x27 0xF4 0x76) v := by
  have hrun : (runList sessionStep Session.Smooth {} (writeThenRead 0x5A)).map
        (fun t => (t.calls, (t.bus.callers ()).state)) =
      some ([.write 0x27 0xF4 0x76, .read 0xFA 0x76], .returned (.read 0xFA 0x76) 0x5A) := by
    decide +kernel
  have hmid : (runList sessionStep Session.Smooth {} ((writeThenRead 0x5A).take 10)).map
        (fun t => (t.bus.callers ()).state) = some (.running (.write 0x27 0xF4 0x76) .waitLen) := by
    decide +kernel
  obtain ⟨t, ht, he⟩ := Option.map_eq_some_iff.1 hrun
  obtain ⟨t1, ht1, he1⟩ := Option.map_eq_some_iff.1 hmid
  simp only [Prod.mk.injEq] at he
  have hsent := ((calls_transfer (Run.of_runList ht)).2.1 (fun r pc => by rw [he.2]; nofun)).1
  rw [he.1] at hsent
  exact ⟨⟨t, .of_runList ht, he.1, he.2, hsent⟩, t1, .of_runList ht1, he1,
    ((calls_transfer (Run.of_runList ht1)).2.2 _ _ he1).1⟩

end Td3.Driver
