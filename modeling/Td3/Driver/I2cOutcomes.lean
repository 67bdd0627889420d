/-
What `cotti_i2c_write` and `cotti_i2c_read` return for every way their waits may end. A wait's result
is only compared with 0, which is a timeout; a signal (`-ERESTARTSYS`) passes for a met condition. So
the value returned tells the truth about the transaction only for some outcomes (`completes`), and only
when no earlier call left an event or a completion behind (`Settled`).

The AM335x has one core, and the handler runs on it to its end: a caller goes on between two
invocations of the handler, not inside one.
-/
import Td3.Driver.I2cTransmit

namespace Td3.Driver

/-! ## The history of a call -/

/-- How the waits of a caller's last call ended since it took the mutex, and what the bus had carried
by then. -/
structure Log where
  outcomes : List Outcome := []
  base : List (BitVec 8 × BitVec 8) := []

/-- The bus, with a history for each caller. -/
structure Traced (ι : Type) where
  bus : Bus ι := {}
  logs : ι → Log := fun _ => {}

/-- The places where a call waits. -/
def Pc.waits : Pc → Bool
  | .waitLen | .waitStopTx | .waitRead | .waitStopRx => true
  | _ => false

def Log.next (l : Log) (o : Outcome) (sent : List (BitVec 8 × BitVec 8)) : Pc → Log
  | .lock => ⟨[], sent⟩
  | pc => if pc.waits then ⟨l.outcomes ++ [o], l.base⟩ else l

/-- The outcomes that make the value returned true: a write is not interrupted in its wait for the
stop; a read that is interrupted in its wait for the byte has both its stops met. -/
def completes : Request → List Outcome → Bool
  | .write .., [_, .interrupted] => false
  | .read .., [_, o2, .interrupted, o4] => decide (o4 = .timeout) || (decide (o2 = .met) && decide (o4 = .met))
  | _, _ => true

section
variable {ι : Type}

/-- The controller owes nothing to an earlier call, and no completion that `r` waits for is
signalled. -/
def Settled (d : Dev ι) (r : Request) : Prop :=
  d.transfers = [] ∧ d.compStop = 0 ∧ d.status.xrdy = false ∧ d.status.rrdy = false ∧ d.status.ardy = false ∧
    match r with
    | .read .. => d.compRead = 0
    | .write .. => True

/-- A call that is not to return -1: a write put both its bytes on the bus after it took the mutex and
its ARDY was raised; a read received a byte. -/
def Dev.Completed (d : Dev ι) (i : ι) (n : Nat) (base : List (BitVec 8 × BitVec 8)) (v : Int) : Request → Prop
  | .write value regAddress slave =>
    v = 0 ∧ base ++ (Request.write value regAddress slave).wire <+: d.sent ∧ ∀ t ∈ d.transfers, t.owner = i → t.call ≠ n
  | .read .. => 0 ≤ v ∧ v ≤ 255 ∧ (d.received i n).isSome

/-- The device, but for `comp_read`. -/
def Dev.forget (d : Dev ι) : Dev ι := { d with compRead := 0 }

theorem isrStep_forget {d d' : Dev ι} (hp : d.isr.rrdyPre = false) (hs : isrStep d = some d') :
    isrStep d.forget = some d'.forget := by
  unfold isrStep at hs
  split at hs <;> simp only [Option.some.injEq] at hs <;> subst hs <;>
    simp_all [isrStep, Dev.forget, Isr.rrdyPre]
  split <;> rfl

variable [DecidableEq ι]

def tracedStep (t : Traced ι) (a : Action ι) : Option (Traced ι) :=
  (busStep t.bus a).map fun bus => ⟨bus,
    match a with
    | .step i o =>
      match (t.bus.callers i).state with
      | .running _ pc => Function.update t.logs i ((t.logs i).next o t.bus.dev.sent pc)
      | _ => t.logs
    | _ => t.logs⟩

/-- The mutex is taken from a settled device, and a wait ends in a way that completes. -/
def CallerState.Sound (d : Dev ι) (l : Log) (o : Outcome) : CallerState → Prop
  | .running r pc => (pc = .lock → Settled d r) ∧ (pc.waits = true → completes r (l.outcomes ++ [o]) = true)
  | _ => True

/-- A caller goes on only when the handler is not running, and in a sound way. -/
def Traced.Sound (t : Traced ι) : Action ι → Prop
  | .step i o => t.bus.dev.isr = .idle ∧ (t.bus.callers i).state.Sound t.bus.dev (t.logs i) o
  | _ => True

instance (d : Dev ι) (r : Request) : Decidable (Settled d r) := by
  cases r <;> unfold Settled <;> infer_instance

instance (d : Dev ι) (l : Log) (o : Outcome) (c : CallerState) : Decidable (c.Sound d l o) := by
  cases c <;> unfold CallerState.Sound <;> infer_instance

instance (t : Traced ι) : ∀ a, Decidable (t.Sound a)
  | .step i o => inferInstanceAs
      (Decidable (t.bus.dev.isr = .idle ∧ (t.bus.callers i).state.Sound t.bus.dev (t.logs i) o))
  | .call .. | .isr | .event _ => inferInstanceAs (Decidable True)

instance (d : Dev ι) (i : ι) (n : Nat) (base : List (BitVec 8 × BitVec 8)) (v : Int) (r : Request) :
    Decidable (d.Completed i n base v r) := by
  cases r <;> unfold Dev.Completed <;> infer_instance

/-! ## What a write does not look at -/

theorem eventStep_forget {d d' : Dev ι} {e : Event} (hs : eventStep d e = some d') :
    eventStep d.forget e = some d'.forget := by
  cases e with
  | xrdy k | rrdy k b | ardy k =>
    simp only [eventStep, Dev.forget] at hs ⊢
    split at hs
    · simp only [Option.ite_none_right_eq_some, Option.some.injEq] at hs
      obtain ⟨hg, rfl⟩ := hs
      exact if_pos hg
    · cases hs
  | nack | al | bb b =>
    cases hs
    rfl

/-- The places of a read after its first transmission. -/
def Pc.rx : Pc → Bool
  | .setLenRx | .setCntRx | .startRx | .waitRead | .waitStopRx | .reinitRead _ | .reinitStopRx _ | .load => true
  | _ => false

theorem callStep_forget {i : ι} {n : Nat} {r : Request} {o : Outcome} {lock lock' : Option ι} {d d' : Dev ι} {pc : Pc}
    {next : CallerState} (hc : pc.critical = true) (hp : pc.rx = false)
    (hs : callStep i n r o lock d pc = some (next, lock', d')) :
    callStep i n r o lock d.forget pc = some (next, lock', d'.forget) := by
  cases pc with
  | waitLen | waitStopTx =>
    simp only [callStep, Option.ite_none_right_eq_some, Option.some.injEq] at hs ⊢
    obtain ⟨ho, hs⟩ := hs
    cases hs
    exact ⟨ho, rfl⟩
  | setSlave | setLen | setCnt | storeReg | storeVal | clearFifo | startTx | reinitStopTx ok | unlock ok =>
    cases r <;> cases hs <;> rfl
  | poll k | lock => cases hc
  | _ => cases hp

/-! ## A write -/

/-- The way out after a timeout. -/
def Pc.failing : Pc → Bool
  | .reinitStopTx ok | .reinitRead ok | .reinitStopRx ok | .unlock ok => !ok
  | _ => false

/-- The number of waits behind a call at its place. -/
def Pc.waited : Pc → Option Nat
  | .setSlave | .setLen | .setCnt | .storeReg | .storeVal | .clearFifo | .startTx | .waitLen => some 0
  | .waitStopTx => some 1
  | .reinitStopTx _ | .setLenRx | .setCntRx | .startRx | .waitRead => some 2
  | .waitStopRx => some 3
  | _ => none

/-- A write in the mutex, on its way to 0. -/
structure Writing (i : ι) (n : Nat) (l : Log) (r : Request) (d : Dev ι) (pc : Pc) : Prop where
  tx : pc.rx = false
  waited : ∀ k, pc.waited = some k → l.outcomes.length = k
  phase : PhaseInv (pc.phase i n r) d.forget
  wire : Wire l.base r d.forget pc

/-- Where a step of a call in the mutex leads: to its next place, to the load of a read that received
its byte, or out, with a value that tells the truth. -/
inductive Stepped (P : Pc → Prop) (i : ι) (n : Nat) (base : List (BitVec 8 × BitVec 8)) (r : Request)
    (lock lock' : Option ι) (d' : Dev ι) : CallerState → Prop where
  | on (pc : Pc) (critical : pc.critical = true) (held : lock' = lock) (next : pc.failing = true ∨ P pc) :
    Stepped P i n base r lock lock' d' (.running r pc)
  | load (free : lock' = none) (read : ∃ a b, r = .read a b) (got : (d'.received i n).isSome) :
    Stepped P i n base r lock lock' d' (.running r .load)
  | returned (v : Int) (free : lock' = none) (value : v = -1 ∨ d'.Completed i n base v r) :
    Stepped P i n base r lock lock' d' (.returned r v)

/-- On the way out after a timeout the call returns -1. -/
theorem callStep_failing {P : Pc → Prop} {i : ι} {n : Nat} {base : List (BitVec 8 × BitVec 8)} {r : Request}
    {o : Outcome} {lock lock' : Option ι} {d d' : Dev ι} {pc : Pc} {next : CallerState} (hf : pc.failing = true)
    (hs : callStep i n r o lock d pc = some (next, lock', d')) : Stepped P i n base r lock lock' d' next := by
  cases pc with
  | reinitStopTx ok | reinitRead ok | reinitStopRx ok | unlock ok =>
    obtain rfl : ok = false := by simpa [Pc.failing] using hf
    cases r <;> cases hs <;> first | exact .on _ rfl rfl (.inl rfl) | exact .returned _ rfl (.inl rfl)
  | _ => cases hf

/-- Only a wait looks at the outcome. -/
theorem callStep_outcome {i : ι} {n : Nat} {r : Request} {o : Outcome} {lock : Option ι} {d : Dev ι} {pc : Pc}
    (hw : pc.waits = false) : callStep i n r o lock d pc = callStep i n r .met lock d pc := by
  cases pc <;> first | rfl | cases hw

theorem callStep_tx {i : ι} {n : Nat} {a b c : BitVec 8} {r : Request} {lock lock' : Option ι} {d d' : Dev ι}
    {pc pc' : Pc}
    (hc : pc.critical = true) (hp : pc.rx = false)
    (hs : callStep i n (.write a b c) .met lock d pc = some (.running r pc', lock', d')) : pc'.rx = false := by
  cases pc with
  | poll k | lock => cases hc
  | waitLen | waitStopTx =>
    simp only [callStep, Option.ite_none_right_eq_some, Option.some.injEq] at hs
    obtain ⟨-, hs⟩ := hs
    cases hs
    rfl
  | setSlave | setLen | setCnt | storeReg | storeVal | clearFifo | startTx | reinitStopTx ok =>
    cases hs
    rfl
  | unlock ok => cases hs
  | _ => cases hp

/-- A write's step that ends no wait other than by its condition. -/
theorem Writing.met {i : ι} {n : Nat} {l l' : Log} {a b c : BitVec 8} {lock lock' : Option ι} {d d' : Dev ι} {pc : Pc}
    {next : CallerState} (h : Writing i n l (.write a b c) d pc) (hi : d.isr = .idle) (hc : pc.critical = true)
    (hl : l'.base = l.base)
    (hw : ∀ pc' k, next = .running (.write a b c) pc' → pc'.waited = some k → l'.outcomes.length = k)
    (hs : callStep i n (.write a b c) .met lock d pc = some (next, lock', d')) :
    Stepped (Writing i n l' (.write a b c) d') i n l.base (.write a b c) lock lock' d' next := by
  have hs' := callStep_forget hc h.tx hs
  obtain ⟨hrun, hret⟩ := h.wire.callStep hc (show d.forget.isr = .idle from hi) h.phase hs'
  cases callStep_phase hc h.phase hs' with
  | on pc' hc' held phase =>
    refine .on pc' hc' held (.inr ⟨?_, fun k => hw pc' k rfl, phase, ?_⟩)
    · exact callStep_tx hc h.tx hs
    · rw [hl]
      exact hrun pc' rfl
  | load free quiet byte =>
    obtain ⟨a', b', hr⟩ := callStep_load hs
    cases hr
  | written free quiet write =>
    obtain ⟨-, hsent, -⟩ := hret 0 rfl
    refine .returned 0 free (.inr ⟨rfl, ?_, ?_⟩)
    · rw [show d'.sent = _ from hsent]
    · intro t ht
      rw [show d'.transfers = [] from quiet.none] at ht
      cases ht

theorem Writing.callStep {i : ι} {n : Nat} {l : Log} {a b c : BitVec 8} {o : Outcome} {lock lock' : Option ι}
    {d d' : Dev ι} {pc : Pc} {next : CallerState} (h : Writing i n l (.write a b c) d pc)
    (hi : d.isr = .idle) (hc : pc.critical = true)
    (ho : pc.waits = true → completes (.write a b c) (l.outcomes ++ [o]) = true)
    (hs : callStep i n (.write a b c) o lock d pc = some (next, lock', d')) :
    Stepped (Writing i n (l.next o d.sent pc) (.write a b c) d') i n l.base (.write a b c) lock lock' d' next := by
  cases pc with
  | poll k => cases hc
  | lock => cases hc
  | load => cases hc
  | setLenRx | setCntRx | startRx | waitRead | waitStopRx | reinitRead ok | reinitStopRx ok => exact absurd h.tx nofun
  | waitLen =>
    have hlen : l.outcomes = [] := List.length_eq_zero_iff.1 (h.waited 0 rfl)
    simp only [Driver.callStep, Option.ite_none_right_eq_some, Option.some.injEq] at hs
    obtain ⟨-, hs⟩ := hs
    cases hs
    by_cases ht : o = .timeout
    · rw [if_pos ht]
      exact .on _ rfl rfl (.inl rfl)
    · rw [if_neg ht]
      refine .on _ rfl rfl (.inr ⟨rfl, ?_, h.phase, h.wire⟩)
      rintro k ⟨⟩
      simp [Log.next, Pc.waits, hlen]
  | waitStopTx =>
    obtain ⟨o1, hlen⟩ := List.length_eq_one_iff.1 (h.waited 1 rfl)
    have ho' := ho rfl
    rw [hlen] at ho'
    cases o with
    | interrupted => cases ho'
    | timeout =>
      simp only [Driver.callStep, Option.ite_none_right_eq_some, Option.some.injEq] at hs
      obtain ⟨-, hs⟩ := hs
      cases hs
      exact .on _ rfl rfl (.inl rfl)
    | met =>
      refine h.met hi hc rfl ?_ hs
      rintro pc' k rfl hk
      simp only [Driver.callStep, Option.ite_none_right_eq_some, Option.some.injEq] at hs
      obtain ⟨-, hs⟩ := hs
      cases hs
      cases hk
      simp [Log.next, Pc.waits, hlen]
  | unlock ok =>
    rw [callStep_outcome rfl] at hs
    refine h.met hi hc rfl ?_ hs
    rintro pc' k rfl hk
    cases hs
  | setSlave | setLen | setCnt | storeReg | storeVal | clearFifo | startTx | reinitStopTx ok =>
    rw [callStep_outcome rfl] at hs
    refine h.met hi hc rfl ?_ hs
    rintro pc' k rfl hk
    cases hs
    first | exact h.waited _ hk | cases hk

omit [DecidableEq ι] in
theorem Writing.isrStep {i : ι} {n : Nat} {l : Log} {r : Request} {d d' : Dev ι} {pc : Pc} (h : Writing i n l r d pc)
    (hok : d.isr.Ok) (hs : isrStep d = some d') : Writing i n l r d' pc := by
  have hpre : d.isr.rrdyPre = false := by
    refine (h.phase.noRead fun j m hc => ?_).pre
    rw [(Pc.phase_receiving hc).1] at h
    cases h.tx
  have hs' := isrStep_forget hpre hs
  exact ⟨h.tx, h.waited, h.phase.isrStep hok hs', h.wire.isrStep h.phase hs'⟩

theorem Writing.eventStep {i : ι} {n : Nat} {l : Log} {r : Request} {d d' : Dev ι} {e : Event} {pc : Pc}
    (h : Writing i n l r d pc) (hs : eventStep d e = some d') : Writing i n l r d' pc := by
  have hs' := eventStep_forget hs
  exact ⟨h.tx, h.waited, h.phase.eventStep hs', h.wire.eventStep h.phase hs'⟩

/-! ## A read -/

/-- All that the controller owes, it owes to call `n` of `i`, and what it received is its byte. -/
structure Mine (i : ι) (n : Nat) (d : Dev ι) : Prop where
  own : ∀ t ∈ d.transfers, t.owner = i ∧ t.call = n
  got : 0 < d.compRead ∨ d.status.rrdy = true ∨ d.isr.rrdyPre = true → (d.received i n).isSome

/-- What a read at its place knows, by the way its first waits ended. Where the stop of the
transmission was not waited for, nothing orders its ARDY and the reception's. -/
def Received (i : ι) (n : Nat) (r : Request) (os : List Outcome) (d : Dev ι) : Pc → Prop
  | .reinitStopTx true => os[1]? = some .met → PhaseInv .between d
  | .setLenRx => os[1]? = some .met → PhaseInv .between d
  | .setCntRx => os[1]? = some .met → PhaseInv .between d
  | .startRx => os[1]? = some .met → PhaseInv .primed d
  | .waitRead => os[1]? = some .met → PhaseInv (.receiving i n) d
  | .waitStopRx =>
    (os[2]? = some .interrupted ∨ (d.received i n).isSome) ∧
      (os[1]? = some .met → (d.received i n).isSome ∨ PhaseInv (.receiving i n) d)
  | .reinitRead _ | .reinitStopRx _ | .unlock _ => (d.received i n).isSome
  | pc => PhaseInv (pc.phase i n r) d

/-- A read in the mutex, on its way to a byte. -/
structure Reading (i : ι) (n : Nat) (l : Log) (r : Request) (d : Dev ι) (pc : Pc) : Prop where
  waited : ∀ k, pc.waited = some k → l.outcomes.length = k
  mine : Mine i n d
  received : Received i n r l.outcomes d pc

omit [DecidableEq ι] in
theorem Mine.isrStep {i : ι} {n : Nat} {d d' : Dev ι} (h : Mine i n d) (hs : isrStep d = some d') : Mine i n d' := by
  obtain ⟨h1, h2⟩ := h
  unfold Driver.isrStep at hs
  split at hs <;> simp only [Option.some.injEq] at hs <;> subst hs <;> constructor <;>
    grind [Isr.rrdyPre, IrqStatus.ack]

/-- A byte received stays received. -/
theorem eventStep_received {d d' : Dev ι} {e : Event} (hs : eventStep d e = some d') (i : ι) (n : Nat)
    (h : (d.received i n).isSome) : (d'.received i n).isSome := by
  rcases eventStep_cases hs with ⟨k, t, -, -, -, -, -, rfl⟩ | ⟨k, t, b, -, -, -, -, -, rfl⟩ | ⟨k, t, -, -, -, rfl⟩ |
    ⟨st, -, -, -, rfl⟩
  · exact h
  · by_cases hi : i = t.owner
    · subst hi
      by_cases hn : n = t.call
      · subst hn
        simp
      · simpa [hn] using h
    · simpa [hi] using h
  · exact h
  · exact h

/-- The calls with a transfer after an event had one before it. -/
theorem eventStep_transfers {d d' : Dev ι} {e : Event} (hs : eventStep d e = some d') :
    ∀ t ∈ d'.transfers, ∃ t' ∈ d.transfers, t'.owner = t.owner ∧ t'.call = t.call := by
  have hset {k : Nat} {t : Transfer ι} (ht : d.transfers[k]? = some t) (left : Nat) :
      ∀ u ∈ d.transfers.set k { t with left := left }, ∃ u' ∈ d.transfers, u'.owner = u.owner ∧ u'.call = u.call := by
    intro u hu
    rcases List.mem_or_eq_of_mem_set hu with hu | rfl
    · exact ⟨u, hu, rfl, rfl⟩
    · exact ⟨t, List.mem_of_getElem? ht, rfl, rfl⟩
  rcases eventStep_cases hs with ⟨k, t, -, hk, -, -, -, rfl⟩ | ⟨k, t, b, -, hk, -, -, -, rfl⟩ | ⟨k, t, -, -, -, rfl⟩ |
    ⟨st, -, -, -, rfl⟩
  · exact hset hk _
  · exact hset hk _
  · exact fun u hu => ⟨u, List.mem_of_mem_eraseIdx hu, rfl, rfl⟩
  · exact fun u hu => ⟨u, hu, rfl, rfl⟩

theorem Mine.eventStep {i : ι} {n : Nat} {d d' : Dev ι} {e : Event} (h : Mine i n d) (hs : eventStep d e = some d') :
    Mine i n d' := by
  constructor
  · intro t ht
    obtain ⟨t', ht', ho, hc⟩ := eventStep_transfers hs t ht
    rw [← ho, ← hc]
    exact h.own t' ht'
  · intro hg
    rcases eventStep_cases hs with ⟨k, t, -, -, -, -, -, rfl⟩ | ⟨k, t, b, -, hk, -, -, -, rfl⟩ | ⟨k, t, -, -, -, rfl⟩ |
      ⟨st, hr, -, -, rfl⟩
    · exact h.got hg
    · obtain ⟨rfl, rfl⟩ := h.own t (List.mem_of_getElem? hk)
      simp
    · exact h.got hg
    · exact h.got (by simpa [hr] using hg)

omit [DecidableEq ι] in
/-- A step of the device that keeps every phase and the bytes received keeps what a read knows. -/
theorem Received.device {i : ι} {n : Nat} {r : Request} {os : List Outcome} {d d' : Dev ι} {pc : Pc}
    (h : Received i n r os d pc) (hp : ∀ p : Phase ι, PhaseInv p d → PhaseInv p d')
    (hr : (d.received i n).isSome → (d'.received i n).isSome) : Received i n r os d' pc := by
  cases pc
  case reinitStopTx ok =>
    cases ok with
    | false => exact hp .failed h
    | true => exact fun ho => hp _ (h ho)
  case setLenRx | setCntRx | startRx | waitRead => exact fun ho => hp _ (h ho)
  case waitStopRx => exact ⟨h.1.imp_right hr, fun ho => (h.2 ho).imp hr (hp _)⟩
  case reinitRead | reinitStopRx | unlock => exact hr h
  case waitLen | waitStopTx => exact hp .transmitting h
  all_goals exact hp .quiet h

omit [DecidableEq ι] in
theorem Mine.start {i : ι} {n : Nat} {d : Dev ι} (h : Mine i n d) (dir : Dir) : Mine i n (d.start i n dir) where
  own t ht := by
    rcases List.mem_append.1 ht with ht | ht
    · exact h.own t ht
    · rw [List.mem_singleton.1 ht]
      exact ⟨rfl, rfl⟩
  got := h.got

omit [DecidableEq ι] in
/-- Once the ARDY of a reception is taken, its byte was received. -/
theorem ReadToken.received {i : ι} {n : Nat} {d : Dev ι} (h : ReadToken i n d) (hs : StopToken d)
    (hc : 0 < d.compStop) : (d.received i n).isSome := by
  have hnil : d.transfers = [] := by
    cases hs with
    | owed comp => omega
    | inHand comp => omega
    | counted _ _ none => exact none
  cases h with
  | owed transfers => rw [hnil] at transfers; cases transfers
  | raised _ _ _ _ _ byte => rw [byte]; rfl
  | inHand _ _ _ _ byte => rw [byte]; rfl
  | stored _ _ _ _ byte => rw [byte]; rfl
  | counted _ _ _ _ byte => rw [byte]; rfl

theorem Reading.callStep {i : ι} {n : Nat} {l : Log} {a b : BitVec 8} {o : Outcome} {lock lock' : Option ι}
    {d d' : Dev ι} {pc : Pc} {next : CallerState} (h : Reading i n l (.read a b) d pc) (hc : pc.critical = true)
    (ho : pc.waits = true → completes (.read a b) (l.outcomes ++ [o]) = true)
    (hs : callStep i n (.read a b) o lock d pc = some (next, lock', d')) :
    Stepped (Reading i n (l.next o d.sent pc) (.read a b) d') i n l.base (.read a b) lock lock' d' next := by
  obtain ⟨hwaited, hmine, hrec⟩ := h
  cases pc with
  | poll k => cases hc
  | lock => cases hc
  | load => cases hc
  | setSlave | setLen | setCnt | storeReg | storeVal | clearFifo | startTx =>
    rw [callStep_outcome rfl] at hs
    have hm := callStep_phase hc hrec hs
    cases hs
    cases hm with
    | on _ _ _ phase =>
      refine .on _ rfl rfl (.inr ⟨hwaited, ?_, phase⟩)
      first | exact ⟨hmine.own, hmine.got⟩ | exact hmine.start .tx
  | waitLen =>
    have hlen : l.outcomes = [] := List.length_eq_zero_iff.1 (hwaited 0 rfl)
    simp only [Driver.callStep, Option.ite_none_right_eq_some, Option.some.injEq] at hs
    obtain ⟨-, hs⟩ := hs
    cases hs
    by_cases ht : o = .timeout
    · rw [if_pos ht]
      exact .on _ rfl rfl (.inl rfl)
    · rw [if_neg ht]
      refine .on _ rfl rfl (.inr ⟨?_, hmine, hrec⟩)
      rintro k ⟨⟩
      simp [Log.next, Pc.waits, hlen]
  | waitStopTx =>
    obtain ⟨o1, hlen⟩ := List.length_eq_one_iff.1 (hwaited 1 rfl)
    have hm : o = .met → PhaseInv (Phase.between : Phase ι) d' := by
      rintro rfl
      have hm := callStep_phase hc hrec hs
      simp only [Driver.callStep, Option.ite_none_right_eq_some, Option.some.injEq] at hs
      obtain ⟨-, hs⟩ := hs
      cases hs
      cases hm with
      | on _ _ _ phase => exact phase
    simp only [Driver.callStep, Option.ite_none_right_eq_some, Option.some.injEq] at hs
    obtain ⟨-, hs⟩ := hs
    cases hs
    by_cases ht : o = .timeout
    · subst ht
      exact .on _ rfl rfl (.inl rfl)
    · simp only [ht, ne_eq, not_false_eq_true, decide_true]
      refine .on _ rfl rfl (.inr ⟨?_, ⟨hmine.own, hmine.got⟩, ?_⟩)
      · rintro k ⟨⟩
        simp [Log.next, Pc.waits, hlen]
      · intro ho
        refine hm ?_
        simpa [Log.next, Pc.waits, hlen] using ho
  | reinitStopTx ok =>
    cases hs
    cases ok with
    | false => exact .on _ rfl rfl (.inl rfl)
    | true =>
      refine .on _ rfl rfl (.inr ⟨hwaited, ⟨hmine.own, hmine.got⟩, fun ho => ?_⟩)
      exact ⟨(hrec ho).1.congr rfl rfl rfl rfl (hrec ho).1.comp.symm, (hrec ho).2⟩
  | setLenRx =>
    cases hs
    refine .on _ rfl rfl (.inr ⟨hwaited, ⟨hmine.own, hmine.got⟩, fun ho => ?_⟩)
    exact ⟨(hrec ho).1.congr rfl rfl rfl rfl rfl, (hrec ho).2⟩
  | setCntRx =>
    cases hs
    refine .on _ rfl rfl (.inr ⟨hwaited, ⟨hmine.own, hmine.got⟩, fun ho => ?_⟩)
    exact ⟨(hrec ho).1.congr rfl rfl rfl rfl rfl, (hrec ho).2, rfl⟩
  | startRx =>
    cases hs
    refine .on _ rfl rfl (.inr ⟨hwaited, hmine.start .rx, fun ho => ?_⟩)
    exact Quiet.startRx (hrec ho).1 (hrec ho).2.1 (hrec ho).2.2 i n
  | waitRead =>
    obtain ⟨o1, o2, hlen⟩ := List.length_eq_two.1 (hwaited 2 rfl)
    simp only [Driver.callStep, Option.ite_none_right_eq_some, Option.some.injEq] at hs
    obtain ⟨hpos, hs⟩ := hs
    cases hs
    cases o with
    | timeout => exact .on _ rfl rfl (.inl rfl)
    | met =>
      have hgot := hmine.got (.inl (by simpa [Outcome.possible] using hpos))
      refine .on _ rfl rfl (.inr ⟨?_, ⟨hmine.own, fun _ => hgot⟩, .inr hgot, fun _ => .inl hgot⟩)
      rintro k ⟨⟩
      simp [Log.next, Pc.waits, hlen]
    | interrupted =>
      have hzero : d.compRead = 0 := by simpa [Outcome.possible] using hpos
      have hd : { d with compRead := d.compRead - 1 } = d := by
        rw [hzero, Nat.zero_sub, ← hzero]
      rw [hd]
      refine .on _ rfl rfl (.inr ⟨?_, hmine, .inl ?_, fun ho => .inr (hrec ?_)⟩)
      · rintro k ⟨⟩
        simp [Log.next, Pc.waits, hlen]
      · simp [Log.next, Pc.waits, hlen]
      · simpa [Log.next, Pc.waits, hlen] using ho
  | waitStopRx =>
    obtain ⟨o1, o2, o3, hlen⟩ := List.length_eq_three.1 (hwaited 3 rfl)
    have ho' := ho rfl
    rw [hlen] at ho' hrec
    simp only [Driver.callStep, Option.ite_none_right_eq_some, Option.some.injEq] at hs
    obtain ⟨hpos, hs⟩ := hs
    cases hs
    by_cases ht : o = .timeout
    · subst ht
      exact .on _ rfl rfl (.inl rfl)
    · have hgot : (d.received i n).isSome := by
        rcases hrec.1 with h3 | hgot
        · obtain rfl : o3 = .interrupted := by simpa using h3
          obtain ⟨rfl, rfl⟩ : o2 = .met ∧ o = .met := by simpa [completes, ht] using ho'
          rcases hrec.2 rfl with hgot | ⟨hstop, htoken⟩
          · exact hgot
          · exact htoken.received hstop (by simpa [Outcome.possible] using hpos)
        · exact hgot
      simp only [ht, ne_eq, not_false_eq_true, decide_true]
      exact .on _ rfl rfl (.inr ⟨by rintro _ ⟨⟩, ⟨hmine.own, fun _ => hgot⟩, hgot⟩)
  | reinitRead ok | reinitStopRx ok =>
    cases hs
    cases ok with
    | false => exact .on _ rfl rfl (.inl rfl)
    | true => exact .on _ rfl rfl (.inr ⟨by rintro _ ⟨⟩, ⟨hmine.own, fun _ => hrec⟩, hrec⟩)
  | unlock ok =>
    cases hs
    cases ok with
    | false => exact .returned _ rfl (.inl rfl)
    | true => exact .load rfl ⟨a, b, rfl⟩ hrec

/-! ## The system -/

/-- What a call in the mutex knows. -/
def Held (i : ι) (n : Nat) (l : Log) (r : Request) (d : Dev ι) (pc : Pc) : Prop :=
  match r with
  | .write .. => Writing i n l r d pc
  | .read .. => Reading i n l r d pc

structure Traced.Inv (t : Traced ι) : Prop where
  isr : t.bus.dev.isr.Ok
  holder : ∀ i, t.bus.lock = some i ↔ ∃ r pc, (t.bus.callers i).state = .running r pc ∧ pc.critical = true
  held : ∀ i r pc, (t.bus.callers i).state = .running r pc → pc.critical = true →
    pc.failing = true ∨ Held i (t.bus.callers i).calls (t.logs i) r t.bus.dev pc
  loads : ∀ i r, (t.bus.callers i).state = .running r .load →
    (∃ a b, r = .read a b) ∧ (t.bus.dev.received i (t.bus.callers i).calls).isSome
  returned : ∀ i r v, (t.bus.callers i).state = .returned r v →
    v = -1 ∨ t.bus.dev.Completed i (t.bus.callers i).calls (t.logs i).base v r

omit [DecidableEq ι] in
theorem Traced.Inv.init : Traced.Inv ({} : Traced ι) := by
  constructor <;> simp [Isr.Ok]

omit [DecidableEq ι] in
/-- What a call completed stays completed: bytes stay sent and received, and no new transfer is its. -/
theorem Dev.Completed.mono {d d' : Dev ι} {i : ι} {n : Nat} {base : List (BitVec 8 × BitVec 8)} {v : Int} {r : Request}
    (h : d.Completed i n base v r) (hs : d.sent <+: d'.sent) (hr : (d.received i n).isSome → (d'.received i n).isSome)
    (ht : ∀ t ∈ d'.transfers, t.owner = i → ∃ t' ∈ d.transfers, t'.owner = t.owner ∧ t'.call = t.call) :
    d'.Completed i n base v r := by
  cases r with
  | read a b => exact ⟨h.1, h.2.1, hr h.2.2⟩
  | write a b c =>
    refine ⟨h.1, h.2.1.trans hs, fun t hmem ho => ?_⟩
    obtain ⟨t', hmem', ho', hc'⟩ := ht t hmem ho
    rw [← hc']
    exact h.2.2 t' hmem' (ho'.trans ho)

omit [DecidableEq ι] in
theorem Traced.Inv.device {t : Traced ι} (h : t.Inv) {d : Dev ι} (hok : d.isr.Ok)
    (hheld : ∀ i n l r pc, Held i n l r t.bus.dev pc → Held i n l r d pc) (hs : t.bus.dev.sent <+: d.sent)
    (hr : ∀ i n, (t.bus.dev.received i n).isSome → (d.received i n).isSome)
    (ht : ∀ u ∈ d.transfers, ∃ u' ∈ t.bus.dev.transfers, u'.owner = u.owner ∧ u'.call = u.call) :
    Traced.Inv { t with bus := { t.bus with dev := d } } where
  isr := hok
  holder := h.holder
  held i r pc hst hc := (h.held i r pc hst hc).imp_right (hheld _ _ _ _ _)
  loads i r hst := ⟨(h.loads i r hst).1, hr _ _ (h.loads i r hst).2⟩
  returned i r v hst := (h.returned i r v hst).imp_right fun hd => hd.mono hs (hr _ _) fun u hu _ => ht u hu

omit [DecidableEq ι] in
theorem isrStep_sent {d d' : Dev ι} (hs : isrStep d = some d') : d.sent <+: d'.sent := by
  unfold isrStep at hs
  split at hs <;> simp only [Option.some.injEq] at hs <;> subst hs <;> try split
  all_goals first | exact List.prefix_rfl | exact List.prefix_append _ _

theorem eventStep_sent {d d' : Dev ι} {e : Event} (hs : eventStep d e = some d') : d'.sent = d.sent := by
  rcases eventStep_cases hs with ⟨k, t, -, -, -, -, -, rfl⟩ | ⟨k, t, b, -, -, -, -, -, rfl⟩ | ⟨k, t, -, -, -, rfl⟩ |
    ⟨st, -, -, -, rfl⟩ <;> rfl

omit [DecidableEq ι] in
theorem Traced.Inv.isrStep {t : Traced ι} (h : t.Inv) {d : Dev ι} (hs : isrStep t.bus.dev = some d) :
    Traced.Inv { t with bus := { t.bus with dev := d } } := by
  obtain ⟨ht, hr, -, -⟩ := isrStep_frame hs
  refine h.device (isrStep_ok hs h.isr) (fun i n l r pc hh => ?_) (isrStep_sent hs) (fun i n => by rw [hr]; exact id)
    fun u hu => ⟨u, by rwa [ht] at hu, rfl, rfl⟩
  cases r with
  | write a b c => exact Writing.isrStep hh h.isr hs
  | read a b =>
    exact ⟨hh.waited, hh.mine.isrStep hs, hh.received.device (fun _ hp => hp.isrStep h.isr hs) (by rw [hr]; exact id)⟩

theorem Traced.Inv.eventStep {t : Traced ι} (h : t.Inv) {e : Event} {d : Dev ι}
    (hs : eventStep t.bus.dev e = some d) : Traced.Inv { t with bus := { t.bus with dev := d } } := by
  refine h.device (by rw [(eventStep_args hs).2.2.2.2.2]; exact h.isr) (fun i n l r pc hh => ?_)
    (by rw [eventStep_sent hs]) (eventStep_received hs) (eventStep_transfers hs)
  cases r with
  | write a b c => exact Writing.eventStep hh hs
  | read a b =>
    exact ⟨hh.waited, hh.mine.eventStep hs,
      hh.received.device (fun _ hp => hp.eventStep hs) (eventStep_received hs i n)⟩

/-- A caller moves, and with it the mutex, the device and its history. A device that another caller
holds the mutex of stays as it is. -/
theorem Traced.Inv.update {t : Traced ι} (h : t.Inv) {i : ι} {c : Caller} {lock : Option ι} {d : Dev ι} {l : Log}
    (hok : d.isr.Ok) (hself : lock = some i ↔ ∃ r pc, c.state = .running r pc ∧ pc.critical = true)
    (hother : ∀ j, j ≠ i → (lock = some j ↔ t.bus.lock = some j))
    (hkeep : ∀ j, j ≠ i → t.bus.lock = some j → d = t.bus.dev)
    (hr : d.received = t.bus.dev.received) (hs : d.sent = t.bus.dev.sent)
    (ht : ∀ u ∈ d.transfers, u ∈ t.bus.dev.transfers ∨ u.owner = i)
    (hheld : ∀ r pc, c.state = .running r pc → pc.critical = true → pc.failing = true ∨ Held i c.calls l r d pc)
    (hload : ∀ r, c.state = .running r .load → (∃ a b, r = .read a b) ∧ (d.received i c.calls).isSome)
    (hret : ∀ r v, c.state = .returned r v → v = -1 ∨ d.Completed i c.calls l.base v r) :
    Traced.Inv ⟨⟨Function.update t.bus.callers i c, lock, d⟩, Function.update t.logs i l⟩ where
  isr := hok
  holder j := by
    rcases eq_or_ne j i with rfl | hj
    · simpa only [Function.update_self] using hself
    · simpa only [Function.update_of_ne hj] using (hother j hj).trans (h.holder j)
  held j r pc hst hc := by
    rcases eq_or_ne j i with rfl | hj
    · simp only [Function.update_self] at hst ⊢
      exact hheld r pc hst hc
    · simp only [Function.update_of_ne hj] at hst ⊢
      rw [hkeep j hj ((h.holder j).2 ⟨r, pc, hst, hc⟩)]
      exact h.held j r pc hst hc
  loads j r hst := by
    rcases eq_or_ne j i with rfl | hj
    · simp only [Function.update_self] at hst ⊢
      exact hload r hst
    · simp only [Function.update_of_ne hj, hr] at hst ⊢
      exact h.loads j r hst
  returned j r v hst := by
    rcases eq_or_ne j i with rfl | hj
    · simp only [Function.update_self] at hst ⊢
      exact hret r v hst
    · simp only [Function.update_of_ne hj] at hst ⊢
      refine (h.returned j r v hst).imp_right fun hd => hd.mono (by rw [hs]) (by rw [hr]; exact id) fun u hu ho => ?_
      rcases ht u hu with hu | hu
      · exact ⟨u, hu, rfl, rfl⟩
      · exact absurd (ho.symm.trans hu) hj

omit [DecidableEq ι] in
theorem Traced.Inv.not_holder {t : Traced ι} (h : t.Inv) {i : ι}
    (hc : ∀ r pc, (t.bus.callers i).state = .running r pc → pc.critical = false) : t.bus.lock ≠ some i := by
  intro hl
  obtain ⟨r, pc, hs, hcr⟩ := (h.holder i).1 hl
  rw [hc r pc hs] at hcr
  cases hcr

/-- A caller outside the mutex stays outside. -/
theorem Traced.Inv.outside {t : Traced ι} (h : t.Inv) {i : ι} (hi : t.bus.lock ≠ some i) {c : Caller} {l : Log}
    (hc : ∀ r pc, c.state = .running r pc → pc.critical = false)
    (hload : ∀ r, c.state ≠ .running r .load)
    (hret : ∀ r v, c.state = .returned r v → v = -1 ∨ t.bus.dev.Completed i c.calls l.base v r) :
    Traced.Inv ⟨{ t.bus with callers := Function.update t.bus.callers i c }, Function.update t.logs i l⟩ := by
  refine h.update h.isr (iff_of_false hi ?_) (fun _ _ => Iff.rfl) (fun _ _ _ => rfl) rfl rfl (fun _ hu => .inl hu) ?_
    (fun r hs => absurd hs (hload r)) hret
  · rintro ⟨r, pc, hs, hcr⟩
    rw [hc r pc hs] at hcr
    cases hcr
  · intro r pc hs hcr
    rw [hc r pc hs] at hcr
    cases hcr

omit [DecidableEq ι] in
/-- The history a call starts its transaction with. -/
theorem Settled.held {d : Dev ι} {r : Request} (h : Settled d r) (hi : d.isr = .idle) (i : ι) (n : Nat) :
    Held i n ⟨[], d.sent⟩ r d .setSlave := by
  obtain ⟨hnil, hstop, hx, hr, ha, hread⟩ := h
  cases r with
  | write a b c =>
    refine ⟨rfl, ?_, ⟨⟨?_, ?_, rfl⟩, hnil, hstop, ?_, ?_⟩, ⟨?_, ?_⟩, rfl, ?_⟩
    · rintro k ⟨⟩
      rfl
    · simp [Dev.forget, hi, Isr.rrdyPre]
    · simp [Dev.forget, hr]
    · simp [Dev.forget, hi, Isr.ardyPre]
    · simp [Dev.forget, ha]
    · simp [Dev.forget, hi, Isr.xrdyPre]
    · simp [Dev.forget, hx]
    · constructor <;> simp
  | read a b =>
    refine ⟨?_, ⟨by simp [hnil], ?_⟩, ⟨⟨?_, by simp [hr], hread⟩, hnil, hstop, ?_, by simp [ha]⟩⟩
    · rintro k ⟨⟩
      rfl
    · simp [show d.compRead = 0 from hread, hr, hi, Isr.rrdyPre]
    · simp [hi, Isr.rrdyPre]
    · simp [hi, Isr.ardyPre]

/-- Taking the mutex. -/
theorem Traced.Inv.lock {t : Traced ι} (h : t.Inv) {i : ι} {r : Request} (hl : t.bus.lock = none)
    (hi : t.bus.dev.isr = .idle) (hset : Settled t.bus.dev r) :
    Traced.Inv ⟨⟨Function.update t.bus.callers i ⟨(t.bus.callers i).calls, .running r .setSlave⟩, some i, t.bus.dev⟩,
      Function.update t.logs i ⟨[], t.bus.dev.sent⟩⟩ := by
  refine h.update h.isr (iff_of_true rfl ⟨r, .setSlave, rfl, rfl⟩) (fun j hj => ?_) (fun _ _ _ => rfl) rfl rfl
    (fun _ hu => .inl hu) ?_ nofun nofun
  · rw [hl]
    exact iff_of_false (fun e => hj (Option.some.inj e).symm) nofun
  · rintro r' pc ⟨⟩ -
    exact .inr (hset.held hi i _)

theorem callStep_others {i : ι} {n : Nat} {r : Request} {o : Outcome} {lock lock' : Option ι} {d d' : Dev ι} {pc : Pc}
    {next : CallerState} (hs : callStep i n r o lock d pc = some (next, lock', d')) :
    d'.sent = d.sent ∧ ∀ u ∈ d'.transfers, u ∈ d.transfers ∨ u.owner = i := by
  cases pc <;> cases r <;> grind [callStep, Dev.start]

/-- A step of the holder of the mutex. -/
theorem Traced.Inv.critical {t : Traced ι} (h : t.Inv) {i : ι} {o : Outcome} (hg : t.Sound (.step i o)) {r : Request}
    {pc : Pc} (hst : (t.bus.callers i).state = .running r pc) (hc : pc.critical = true) {next : CallerState}
    {lock : Option ι} {d : Dev ι}
    (hs : callStep i (t.bus.callers i).calls r o t.bus.lock t.bus.dev pc = some (next, lock, d)) :
    Traced.Inv ⟨⟨Function.update t.bus.callers i ⟨(t.bus.callers i).calls, next⟩, lock, d⟩,
      Function.update t.logs i ((t.logs i).next o t.bus.dev.sent pc)⟩ := by
  have hl : t.bus.lock = some i := (h.holder i).2 ⟨r, pc, hst, hc⟩
  have hne : ∀ j, j ≠ i → t.bus.lock ≠ some j := by
    intro j hj h'
    rw [hl] at h'
    exact hj (Option.some.inj h').symm
  obtain ⟨-, hr, hisr⟩ := callStep_frame hs
  obtain ⟨hsent, htr⟩ := callStep_others hs
  have hok : d.isr.Ok := by
    rw [hisr]
    exact h.isr
  have hbase : ((t.logs i).next o t.bus.dev.sent pc).base = (t.logs i).base := by
    cases pc <;> first | rfl | cases hc
  have hgo := hg.2
  rw [hst] at hgo
  have hstep : Stepped (Held i (t.bus.callers i).calls ((t.logs i).next o t.bus.dev.sent pc) r d) i
      (t.bus.callers i).calls (t.logs i).base r t.bus.lock lock d next := by
    rcases h.held i r pc hst hc with hf | hh
    · exact callStep_failing hf hs
    · cases r with
      | write a b c => exact Writing.callStep hh hg.1 hc hgo.2 hs
      | read a b => exact Reading.callStep hh hc hgo.2 hs
  cases hstep with
  | on pc' hc' held hnext =>
    subst held
    refine h.update hok (iff_of_true hl ⟨r, pc', rfl, hc'⟩) (fun _ _ => Iff.rfl) (fun j hj hj' => absurd hj' (hne j hj))
      hr hsent htr ?_ ?_ nofun
    · rintro r' pc'' ⟨⟩ -
      exact hnext
    · rintro r' ⟨⟩
      cases hc'
  | load free read got =>
    subst free
    refine h.update hok (iff_of_false nofun ?_) (fun j hj => iff_of_false nofun (hne j hj))
      (fun j hj hj' => absurd hj' (hne j hj)) hr hsent htr ?_ ?_ nofun
    · rintro ⟨r', pc', ⟨⟩, hcr⟩
      cases hcr
    · rintro r' pc' ⟨⟩ hcr
      cases hcr
    · rintro r' ⟨⟩
      exact ⟨read, got⟩
  | returned v free value =>
    subst free
    refine h.update hok (iff_of_false nofun nofun) (fun j hj => iff_of_false nofun (hne j hj))
      (fun j hj hj' => absurd hj' (hne j hj)) hr hsent htr nofun nofun ?_
    rintro r' v' ⟨⟩
    rw [hbase]
    exact value

theorem Traced.Inv.step {t t' : Traced ι} {a : Action ι} (h : t.Inv) (hg : t.Sound a) (hs : tracedStep t a = some t') :
    t'.Inv := by
  obtain ⟨bus, hb, rfl⟩ := Option.map_eq_some_iff.1 hs
  cases a with
  | call i r =>
    simp only [busStep] at hb
    split at hb
    · cases hb
    · rename_i hrun
      cases hb
      have hi := h.not_holder fun r' pc hs' => absurd hs' (hrun r' pc)
      have hout := h.outside hi (c := ⟨(t.bus.callers i).calls + 1, .running r (.poll 0)⟩) (l := t.logs i)
        (by rintro r' pc ⟨⟩; rfl) (by rintro _ ⟨⟩) (by rintro _ _ ⟨⟩)
      simpa only [Function.update_eq_self] using hout
  | step i o =>
    simp only [busStep] at hb
    split at hb
    · rename_i r pc hst
      obtain ⟨⟨next, lock, d⟩, hcs, rfl⟩ := Option.map_eq_some_iff.1 hb
      simp only [hst]
      cases hcr : pc.critical with
      | true => exact h.critical hg hst hcr hcs
      | false =>
        have hi : t.bus.lock ≠ some i := h.not_holder fun r' pc' hs' => by
          rw [hst] at hs'
          cases hs'
          exact hcr
        cases pc with
        | poll k =>
          simp only [callStep] at hcs
          split at hcs
          · split at hcs
            · cases hcs
              refine h.outside hi (by rintro _ _ ⟨⟩) (by rintro _ ⟨⟩) ?_
              rintro r' v ⟨⟩
              exact .inl rfl
            · cases hcs
              exact h.outside hi (by rintro r' pc ⟨⟩; rfl) (by rintro _ ⟨⟩) (by rintro _ _ ⟨⟩)
          · cases hcs
            exact h.outside hi (by rintro r' pc ⟨⟩; rfl) (by rintro _ ⟨⟩) (by rintro _ _ ⟨⟩)
        | lock =>
          have hgo := hg.2
          rw [hst] at hgo
          simp only [callStep] at hcs
          split at hcs
          · cases hcs
          · rename_i hn
            cases hcs
            exact h.lock (by simpa using hn) hg.1 (hgo.1 rfl)
        | load =>
          cases hcs
          obtain ⟨⟨a, b, rfl⟩, hgot⟩ := h.loads i r hst
          refine h.outside hi (by rintro _ _ ⟨⟩) (by rintro _ ⟨⟩) ?_
          rintro r' v ⟨⟩
          exact .inr ⟨Int.natCast_nonneg _, by have := t.bus.dev.gRead.isLt; omega, hgot⟩
        | _ => cases hcr
    · cases hb
  | isr =>
    obtain ⟨d, hd, rfl⟩ := Option.map_eq_some_iff.1 hb
    exact h.isrStep hd
  | event e =>
    obtain ⟨d, hd, rfl⟩ := Option.map_eq_some_iff.1 hb
    exact h.eventStep hd

/-- In every run whose calls take the mutex from a settled device and whose waits end in a way that
completes, a call that has returned has released the mutex, and it returned -1 or completed. -/
theorem calls_complete {t : Traced ι} (h : Run tracedStep Traced.Sound {} t) (i : ι) (r : Request) (v : Int)
    (hs : (t.bus.callers i).state = .returned r v) :
    t.bus.lock ≠ some i ∧ (v = -1 ∨ t.bus.dev.Completed i (t.bus.callers i).calls (t.logs i).base v r) := by
  have hi : t.Inv := h.invariant Traced.Inv.init fun _ _ _ hi hg hs => hi.step hg hs
  refine ⟨hi.not_holder fun r' pc hs' => ?_, hi.returned i r v hs⟩
  rw [hs] at hs'
  cases hs'

end

/-- A write that is interrupted before its first XRDY, and waits for its stop. -/
theorem calls_complete_interrupted : ∃ t : Traced Unit,
    (t.bus.callers ()).state = .returned (.write 0x27 0xF4 0x76) 0 ∧
    [(0x76, 0xF4), (0x76, 0x27)] <+: t.bus.dev.sent := by
  let steps (n : Nat) := List.replicate n (Action.step () .met)
  let xrdy : List (Action Unit) := .event (.xrdy 0) :: List.replicate 8 .isr
  have hrun : (runList tracedStep Traced.Sound {}
      (.call () (.write 0x27 0xF4 0x76) :: steps 9 ++ .step () .interrupted :: xrdy ++ xrdy ++ .event (.ardy 0) ::
        List.replicate 7 .isr ++ steps 3)).map (fun t => ((t.bus.callers ()).state, (t.logs ()).base)) =
      some (.returned (.write 0x27 0xF4 0x76) 0, []) := by
    decide +kernel
  obtain ⟨t, ht, he⟩ := Option.map_eq_some_iff.1 hrun
  simp only [Prod.mk.injEq] at he
  rcases (calls_complete (Run.of_runList ht) () _ _ he.1).2 with hv | ⟨-, hsent, -⟩
  · cases hv
  · rw [he.2] at hsent
    exact ⟨t, he.1, hsent⟩

/-! ## The other outcomes -/

/-- A call of the only caller, each of its waits ended as listed and preceded by the events that make
its condition hold. -/
def callWith (r : Request) : List Outcome → List (Action Unit)
  | os =>
    let steps (n : Nat) := List.replicate n (Action.step () .met)
    let isr (n : Nat) := List.replicate n (.isr : Action Unit)
    let xrdy : List (Action Unit) := .event (.xrdy 0) :: isr 8
    let ardy : List (Action Unit) := .event (.ardy 0) :: isr 7
    match r, os with
    | .write .., [o1, o2] =>
      .call () r :: steps 9 ++ (if o1 = .met then xrdy ++ xrdy else []) ++ [.step () o1, .step () o2] ++ steps 2
    | .read .., [o1, o2, o3, o4] =>
      .call () r :: steps 8 ++ (if o1 = .met then xrdy else []) ++ .step () o1 ::
        (if o2 = .met then (if o1 = .met then ardy else xrdy ++ ardy) else []) ++ .step () o2 :: steps 4 ++ .step () o3 ::
        (if o4 = .met then (if o1 = .met then ardy else xrdy ++ ardy) else []) ++ .step () o4 :: steps 4
    | _, _ => []

/-- The other outcomes make a call return 0 that did not complete: here for the calls the driver
makes of the sensor's registers, each the first call on the bus. -/
theorem incomplete_outcomes {r : Request} (hr : r = .write 0x27 0xF4 0x76 ∨ r = .read 0xFA 0x76) {os : List Outcome}
    (hos : completes r os = false) (ht : .timeout ∉ os) :
    ∃ t : Traced Unit, Run tracedStep (fun _ _ => True) {} t ∧ (t.bus.callers ()).state = .returned r 0 ∧
      (t.logs ()).outcomes = os ∧ ¬ t.bus.dev.Completed () (t.bus.callers ()).calls (t.logs ()).base 0 r := by
  have hrun : ((runList tracedStep (fun _ _ => True) {} (callWith r os)).any fun t : Traced Unit =>
      decide ((t.bus.callers ()).state = .returned r 0 ∧ (t.logs ()).outcomes = os ∧
        ¬ t.bus.dev.Completed () (t.bus.callers ()).calls (t.logs ()).base 0 r)) = true := by
    rcases hr with rfl | rfl
    · unfold completes at hos
      split at hos
      · rename_i o1 hw
        cases hw
        cases o1 <;> first | exact absurd ht (by decide) | decide +kernel
      · rename_i hr
        cases hr
      · cases hos
    · unfold completes at hos
      split at hos
      · rename_i hw
        cases hw
      · rename_i o1 o2 o4 hr
        cases o1 <;> cases o2 <;> cases o4 <;>
          first | exact absurd hos (by decide) | exact absurd ht (by decide) | decide +kernel
      · cases hos
  obtain ⟨t, hrun, he⟩ := (Option.any_eq_true _ _).1 hrun
  exact ⟨t, Run.of_runList hrun, of_decide_eq_true he⟩

/-- A write whose waits are both interrupted returns 0 with nothing sent. -/
theorem not_calls_complete : ¬ ∀ t : Traced Unit, Run tracedStep (fun _ _ => True) {} t → ∀ r v,
    (t.bus.callers ()).state = .returned r v →
      t.bus.lock ≠ some () ∧ (v = -1 ∨ t.bus.dev.Completed () (t.bus.callers ()).calls (t.logs ()).base v r) := by
  intro h
  have hos : completes (.write 0x27 0xF4 0x76) [.interrupted, .interrupted] = false := rfl
  obtain ⟨t, hrun, hs, -, hc⟩ := incomplete_outcomes (.inl rfl) hos (by decide)
  rcases (h t hrun _ _ hs).2 with hv | hv
  · cases hv
  · exact hc hv

/-- A write that is met in all its waits, after one that timed out before its first XRDY: the late
ARDY of the first is taken for the stop of the second. -/
theorem unsettled_incomplete : ∃ t : Traced Unit, Run tracedStep (fun _ _ => True) {} t ∧
    (t.bus.callers ()).state = .returned (.write 0x27 0xF4 0x76) 0 ∧ (t.logs ()).outcomes = [.met, .met] ∧
    ¬ t.bus.dev.Completed () (t.bus.callers ()).calls (t.logs ()).base 0 (.write 0x27 0xF4 0x76) := by
  let steps (n : Nat) := List.replicate n (Action.step () .met)
  let xrdy : List (Action Unit) := .event (.xrdy 0) :: List.replicate 8 .isr
  let call : List (Action Unit) := .call () (.write 0x27 0xF4 0x76) :: steps 9
  have hrun : ((runList tracedStep (fun _ _ => True) {}
      (call ++ .step () .timeout :: steps 2 ++ xrdy ++ xrdy ++ .event (.ardy 0) :: List.replicate 7 .isr ++
        call ++ xrdy ++ xrdy ++ steps 4)).any fun t : Traced Unit =>
      decide ((t.bus.callers ()).state = .returned (.write 0x27 0xF4 0x76) 0 ∧ (t.logs ()).outcomes = [.met, .met] ∧
        ¬ t.bus.dev.Completed () (t.bus.callers ()).calls (t.logs ()).base 0 (.write 0x27 0xF4 0x76))) = true := by
    decide +kernel
  obtain ⟨t, hrun, he⟩ := (Option.any_eq_true _ _).1 hrun
  exact ⟨t, Run.of_runList hrun, of_decide_eq_true he⟩

end Td3.Driver
