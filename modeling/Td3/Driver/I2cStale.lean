/-
Where the events come from that end the waits of `cotti_i2c_read` and `cotti_i2c_write`, in runs in which
waits time out and the controller's events for a timed-out START arrive in any later call.

`comp_stop`, `comp_read` and `g_len` only count. So each count is kept together with the STARTs whose events
it counted, and what an ISR pass counts is safe as long as the holder of the mutex waits for that START, or
is about to drop the count.
-/
import Td3.Driver.I2cRead

namespace Td3.Driver

/-! ## Counts and the STARTs they stand for -/

/-- A START: of call number `call` of caller `owner`, for transmission or reception. -/
structure Start (ι : Type) where
  owner : ι
  call : Nat
  dir : Dir
deriving DecidableEq, Repr

def Transfer.start {ι : Type} (t : Transfer ι) : Start ι := ⟨t.owner, t.call, t.dir⟩

/-- The STARTs that set these bits of a status word. -/
structure Causes (ι : Type) where
  xrdy : List (Start ι) := []
  rrdy : List (Start ι) := []
  ardy : List (Start ι) := []
deriving DecidableEq, Repr

/-- The STARTs behind IRQSTATUS and the word the ISR holds; those completed to `comp_stop` and `comp_read`
since these were last reinitialised, and those `g_len` was decremented for since it was last set. -/
structure Origins (ι : Type) where
  status : Causes ι := {}
  held : Causes ι := {}
  stop : List (Start ι) := []
  read : List (Start ι) := []
  len : List (Start ι) := []
deriving DecidableEq, Repr

section
variable {ι : Type}

/-- The START a transfer at this place of the controller's list belongs to. -/
def Dev.startAt (d : Dev ι) (k : Nat) : List (Start ι) := (d.transfers[k]?.map Transfer.start).toList

/-- The origins after a step of the ISR. -/
def Origins.isr (g : Origins ι) (d : Dev ι) : Origins ι :=
  match d.isr with
  | .check => { g with held := g.status }
  | .ardy irq => if irq.ardy then { g with stop := g.stop ++ g.held.ardy } else g
  | .rrdyLen irq => if irq.rrdy then { g with len := g.len ++ g.held.rrdy } else g
  | .rrdyComplete _ => { g with read := g.read ++ g.held.rrdy }
  | .xrdyLen irq => if irq.xrdy then { g with len := g.len ++ g.held.xrdy } else g
  | .ack irq =>
    { g with
      status.xrdy := if irq.xrdy then [] else g.status.xrdy
      status.rrdy := if irq.rrdy then [] else g.status.rrdy
      status.ardy := if irq.ardy then [] else g.status.ardy }
  | _ => g

/-- The origins after an event of the controller. An ARDY may find the bit of another one set. -/
def Origins.event (g : Origins ι) (d : Dev ι) : Event → Origins ι
  | .xrdy k => { g with status.xrdy := d.startAt k }
  | .rrdy k _ => { g with status.rrdy := d.startAt k }
  | .ardy k => { g with status.ardy := g.status.ardy ++ d.startAt k }
  | _ => g

/-- The origins after a call's step at this place. -/
def Origins.caller (g : Origins ι) : Pc → Origins ι
  | .setLen | .setLenRx => { g with len := [] }
  | .reinitStopTx _ | .reinitStopRx _ => { g with stop := [] }
  | .reinitRead _ => { g with read := [] }
  | _ => g

/-- The system with the origins of its counts. -/
structure Tracked (ι : Type) where
  bus : Bus ι := {}
  origins : Origins ι := {}

variable [DecidableEq ι]

def Tracked.nextOrigins (t : Tracked ι) : Action ι → Origins ι
  | .isr => t.origins.isr t.bus.dev
  | .event e => t.origins.event t.bus.dev e
  | .step i _ =>
    match (t.bus.callers i).state with
    | .running _ pc => t.origins.caller pc
    | _ => t.origins
  | .call .. => t.origins

def trackedStep (t : Tracked ι) (a : Action ι) : Option (Tracked ι) :=
  (busStep t.bus a).map fun bus => { bus, origins := t.nextOrigins a }

/-! ## Own events -/

/-- At least one event, and each of them of this START. -/
def OnlyFrom (k : Start ι) (l : List (Start ι)) : Prop := l ≠ [] ∧ ∀ k' ∈ l, k' = k

/-- A wait whose condition holds has it from events of its own START only. -/
def Tracked.WaitsOwn (t : Tracked ι) (i : ι) (n : Nat) : Pc → Prop
  | .waitLen => t.bus.dev.gLen = 0 → OnlyFrom ⟨i, n, .tx⟩ t.origins.len
  | .waitStopTx => 0 < t.bus.dev.compStop → OnlyFrom ⟨i, n, .tx⟩ t.origins.stop
  | .waitRead => 0 < t.bus.dev.compRead → OnlyFrom ⟨i, n, .rx⟩ t.origins.read
  | .waitStopRx => 0 < t.bus.dev.compStop → OnlyFrom ⟨i, n, .rx⟩ t.origins.stop
  | _ => True

/-- Every wait that its condition ends is ended by events of its own START. -/
def Tracked.OwnEvents (t : Tracked ι) : Prop :=
  ∀ i r pc, (t.bus.callers i).state = .running r pc → t.WaitsOwn i (t.bus.callers i).calls pc

/-! ## Safe deliveries -/

/-- `comp_stop` may count an event of this START while the holder of the mutex is here: it waits for that
START's ARDY, or is about to reinitialise `comp_stop`. -/
def Pc.mayStop (i : ι) (n : Nat) (k : Start ι) : Pc → Bool
  | .waitLen | .waitStopTx => k = ⟨i, n, .tx⟩
  | .waitRead | .waitStopRx => k = ⟨i, n, .rx⟩
  | .reinitStopTx _ | .reinitRead _ | .reinitStopRx _ => true
  | _ => false

/-- `comp_read` may: the holder waits for the START's RRDY, or reinitialises `comp_read` before another wait
for it. -/
def Pc.mayRead (i : ι) (n : Nat) (k : Start ι) : Pc → Bool
  | .waitRead => k = ⟨i, n, .rx⟩
  | .waitStopRx | .reinitRead _ => true
  | _ => false

/-- `g_len` may: the holder waits for the START's XRDY, or sets `g_len` before it waits for it. -/
def Pc.mayLen (i : ι) (n : Nat) (k : Start ι) : Pc → Bool
  | .waitLen => k = ⟨i, n, .tx⟩
  | .setCnt | .storeReg | .storeVal | .clearFifo | .startTx => false
  | _ => true

/-- The same for the holder of the mutex; `free` is for a mutex that is free. -/
def Bus.may (s : Bus ι) (p : ι → Nat → Start ι → Pc → Bool) (free : Bool) (k : Start ι) : Bool :=
  match s.lock with
  | none => free
  | some i =>
    match (s.callers i).state with
    | .running _ pc => p i (s.callers i).calls k pc
    | _ => free

/-- What a step of the ISR counts is of STARTs that the counter may count now. -/
def Tracked.Counts (t : Tracked ι) : Isr → Prop
  | .ardy irq => irq.ardy = true → ∀ k ∈ t.origins.held.ardy, t.bus.may Pc.mayStop false k = true
  | .rrdyLen irq => irq.rrdy = true → ∀ k ∈ t.origins.held.rrdy, t.bus.may Pc.mayLen true k = true
  | .rrdyComplete _ => ∀ k ∈ t.origins.held.rrdy, t.bus.may Pc.mayRead false k = true
  | .xrdyLen irq => irq.xrdy = true → ∀ k ∈ t.origins.held.xrdy, t.bus.may Pc.mayLen true k = true
  | _ => True

instance Tracked.decidableCounts (t : Tracked ι) : ∀ isr, Decidable (t.Counts isr)
  | .ardy _ | .rrdyLen _ | .xrdyLen _ => inferInstanceAs (Decidable (_ → _))
  | .rrdyComplete _ => inferInstanceAs (Decidable (∀ k ∈ t.origins.held.rrdy, t.bus.may Pc.mayRead false k = true))
  | .idle | .check | .rrdyStore _ | .xrdyWrite _ | .ack _ => inferInstanceAs (Decidable True)

/-- Every event is counted in time. -/
def Tracked.Sound (t : Tracked ι) : Action ι → Prop
  | .isr => t.Counts t.bus.dev.isr
  | _ => True

instance Tracked.decidableSound (t : Tracked ι) : ∀ a, Decidable (t.Sound a)
  | .isr => inferInstanceAs (Decidable (t.Counts _))
  | .call .. | .step .. | .event _ => inferInstanceAs (Decidable True)

/-! ## What the origins say of the device -/

/-- The status word the ISR holds -/
def Isr.word : Isr → Option IrqStatus
  | .idle | .check => none
  | .ardy irq | .rrdyLen irq | .rrdyStore irq | .rrdyComplete irq | .xrdyLen irq | .xrdyWrite irq | .ack irq => some irq

/-- A set bit of a status word has causes, the bit of a data event has one. -/
structure Causes.Of (c : Causes ι) (irq : IrqStatus) : Prop where
  xrdy : irq.xrdy = true → c.xrdy.length = 1
  rrdy : irq.rrdy = true → c.rrdy.length = 1
  ardy : irq.ardy = true → c.ardy ≠ []

/-- The origins of the device's bits and completions: none is without one. -/
structure Origins.Of (g : Origins ι) (d : Dev ι) : Prop where
  ok : d.isr.Ok
  status : g.status.Of d.status
  held : ∀ irq, d.isr.word = some irq → g.held.Of irq
  stop : d.compStop ≤ g.stop.length
  read : d.compRead ≤ g.read.length

omit [DecidableEq ι] in
theorem Origins.Of.isrStep {g : Origins ι} {d d' : Dev ι} (h : g.Of d) (hs : isrStep d = some d') :
    (g.isr d).Of d' := by
  obtain ⟨hok, hstatus, hheld, hstop, hread⟩ := h
  have hok' := isrStep_ok hs hok
  -- the word is passed on, with what set its bits
  have hnext : ∀ irq, d.isr.word = some irq → ∀ w, some irq = some w → g.held.Of w := by
    rintro irq hw _ ⟨⟩
    exact hheld irq hw
  unfold Driver.isrStep at hs
  unfold Origins.isr
  cases hi : d.isr with
  | idle =>
    simp only [hi, Option.some.injEq] at hs
    subst hs
    exact ⟨trivial, hstatus, nofun, hstop, hread⟩
  | check =>
    simp only [hi, Option.some.injEq] at hs
    subst hs
    refine ⟨hok', hstatus, fun irq hw => ?_, hstop, hread⟩
    dsimp only at hw
    split at hw
    · cases hw
      exact hstatus
    · cases hw
  | ardy irq =>
    simp only [hi, Option.some.injEq] at hs
    subst hs
    have hword := hnext irq (by rw [hi]; rfl)
    cases ha : irq.ardy with
    | false =>
      simp only [ha, Bool.false_eq_true, if_false] at hok' ⊢
      exact ⟨hok', hstatus, hword, hstop, hread⟩
    | true =>
      simp only [ha, if_true] at hok' ⊢
      refine ⟨hok', hstatus, hword, ?_, hread⟩
      -- one completion, and at least one START behind it
      have hpos := List.length_pos_of_ne_nil ((hword irq rfl).ardy ha)
      rw [List.length_append]
      dsimp only
      omega
  | rrdyLen irq =>
    simp only [hi, Option.some.injEq] at hs
    have hword := hnext irq (by rw [hi]; rfl)
    dsimp only
    split at hs
    · rename_i hr
      subst hs
      rw [if_pos hr]
      exact ⟨hok', hstatus, hword, hstop, hread⟩
    · rename_i hr
      subst hs
      rw [if_neg hr]
      exact ⟨hok', hstatus, hword, hstop, hread⟩
  | rrdyStore irq =>
    simp only [hi, Option.some.injEq] at hs
    subst hs
    exact ⟨hok', hstatus, hnext irq (by rw [hi]; rfl), hstop, hread⟩
  | rrdyComplete irq =>
    simp only [hi, Option.some.injEq] at hs
    subst hs
    have hword := hnext irq (by rw [hi]; rfl)
    have hone := (hword irq rfl).rrdy (by rw [hi] at hok; exact hok)
    refine ⟨hok', hstatus, hword, hstop, ?_⟩
    dsimp only
    rw [List.length_append]
    omega
  | xrdyLen irq =>
    simp only [hi, Option.some.injEq] at hs
    have hword := hnext irq (by rw [hi]; rfl)
    dsimp only
    split at hs
    · rename_i hx
      subst hs
      rw [if_pos hx]
      exact ⟨hok', hstatus, hword, hstop, hread⟩
    · rename_i hx
      subst hs
      rw [if_neg hx]
      exact ⟨hok', hstatus, hword, hstop, hread⟩
  | xrdyWrite irq =>
    simp only [hi, Option.some.injEq] at hs
    subst hs
    exact ⟨hok', hstatus, hnext irq (by rw [hi]; rfl), hstop, hread⟩
  | ack irq =>
    simp only [hi, Option.some.injEq] at hs
    subst hs
    refine ⟨hok', ⟨fun hx => ?_, fun hr => ?_, fun ha => ?_⟩, nofun, hstop, hread⟩
    · obtain ⟨hx, hirq⟩ := Bool.and_eq_true_iff.1 hx
      dsimp only
      rw [if_neg (by simpa using hirq)]
      exact hstatus.xrdy hx
    · obtain ⟨hr, hirq⟩ := Bool.and_eq_true_iff.1 hr
      dsimp only
      rw [if_neg (by simpa using hirq)]
      exact hstatus.rrdy hr
    · obtain ⟨ha, hirq⟩ := Bool.and_eq_true_iff.1 ha
      dsimp only
      rw [if_neg (by simpa using hirq)]
      exact hstatus.ardy ha

omit [DecidableEq ι] in
theorem Dev.startAt_length {d : Dev ι} {k : Nat} {t : Transfer ι} (h : d.transfers[k]? = some t) :
    (d.startAt k).length = 1 := by
  rw [Dev.startAt, h]
  rfl

theorem Origins.Of.eventStep {g : Origins ι} {d d' : Dev ι} {e : Event} (h : g.Of d) (hs : eventStep d e = some d') :
    (g.event d e).Of d' := by
  obtain ⟨hok, hstatus, hheld, hstop, hread⟩ := h
  unfold Driver.eventStep at hs
  cases e with
  | xrdy k =>
    dsimp only at hs
    split at hs
    · rename_i t ht
      split at hs
      · cases hs
        exact ⟨hok, ⟨fun _ => Dev.startAt_length ht, hstatus.rrdy, hstatus.ardy⟩, hheld, hstop, hread⟩
      · cases hs
    · cases hs
  | rrdy k byte =>
    dsimp only at hs
    split at hs
    · rename_i t ht
      split at hs
      · cases hs
        exact ⟨hok, ⟨hstatus.xrdy, fun _ => Dev.startAt_length ht, hstatus.ardy⟩, hheld, hstop, hread⟩
      · cases hs
    · cases hs
  | ardy k =>
    dsimp only at hs
    split at hs
    · rename_i t ht
      split at hs
      · cases hs
        refine ⟨hok, ⟨hstatus.xrdy, hstatus.rrdy, fun _ => ?_⟩, hheld, hstop, hread⟩
        apply List.append_ne_nil_of_right_ne_nil
        rw [← List.length_pos_iff, Dev.startAt_length ht]
        exact Nat.one_pos
      · cases hs
    · cases hs
  | nack | al | bb busy =>
    cases hs
    exact ⟨hok, ⟨hstatus.xrdy, hstatus.rrdy, hstatus.ardy⟩, hheld, hstop, hread⟩

/-- A call's step touches none of this but the counts, which it lowers, or drops with their origins. -/
theorem Origins.Of.callStep {g : Origins ι} {d d' : Dev ι} {i : ι} {n : Nat} {r : Request} {o : Outcome}
    {lock lock' : Option ι} {pc : Pc} {next : CallerState} (h : g.Of d)
    (hs : callStep i n r o lock d pc = some (next, lock', d')) : (g.caller pc).Of d' := by
  obtain ⟨hok, hstatus, hheld, hstop, hread⟩ := h
  have hkeep : d'.isr = d.isr ∧ d'.status = d.status := by
    cases pc <;> cases r <;> grind [Driver.callStep, Dev.start]
  have hcounts : d'.compStop ≤ (g.caller pc).stop.length ∧ d'.compRead ≤ (g.caller pc).read.length := by
    cases pc <;> cases r <;> grind [Driver.callStep, Dev.start, Origins.caller]
  have hcauses : (g.caller pc).status = g.status ∧ (g.caller pc).held = g.held := by
    cases pc <;> exact ⟨rfl, rfl⟩
  refine ⟨?_, ?_, ?_, hcounts.1, hcounts.2⟩
  · rw [hkeep.1]
    exact hok
  · rw [hcauses.1, hkeep.2]
    exact hstatus
  · rw [hkeep.1, hcauses.2]
    exact hheld

/-! ## What the holder of the mutex finds -/

/-- Between the setting of `g_len` and the end of the wait for it -/
def Pc.countsLen : Pc → Bool
  | .setCnt | .storeReg | .storeVal | .clearFifo | .startTx | .waitLen => true
  | _ => false

theorem Pc.critical_of_countsLen {pc : Pc} (h : pc.countsLen = true) : pc.critical = true := by
  cases pc with
  | setCnt | storeReg | storeVal | clearFifo | startTx | waitLen => rfl
  | _ => cases h

/-- While the holder of the mutex is here: what was counted may have been, and `g_len` is what it was set to
less what was counted. -/
structure Tracked.Held (t : Tracked ι) : Prop where
  stop : ∀ k ∈ t.origins.stop, t.bus.may Pc.mayStop false k = true
  read : ∀ k ∈ t.origins.read, t.bus.may Pc.mayRead false k = true
  len : ∀ k ∈ t.origins.len, t.bus.may Pc.mayLen true k = true

/-- The holder of the mutex is the caller between its two ends. -/
structure Tracked.Inv (t : Tracked ι) : Prop where
  origins : t.origins.Of t.bus.dev
  holder : ∀ i r pc, (t.bus.callers i).state = .running r pc → (pc.critical = true ↔ t.bus.lock = some i)
  running : ∀ i, t.bus.lock = some i → ∃ r pc, (t.bus.callers i).state = .running r pc
  held : t.Held
  gLen : ∀ i r pc, (t.bus.callers i).state = .running r pc → pc.countsLen = true →
    t.bus.dev.gLen = prvSetCountLen r.count - BitVec.ofNat 16 t.origins.len.length

theorem Tracked.Inv.init : Tracked.Inv ({} : Tracked ι) where
  origins := ⟨trivial, ⟨nofun, nofun, nofun⟩, nofun, le_refl 0, le_refl 0⟩
  holder := nofun
  running := nofun
  held := ⟨nofun, nofun, nofun⟩
  gLen := nofun

theorem Request.setCount_ne_zero (r : Request) : prvSetCountLen r.count ≠ 0 := by
  cases r with
  | read =>
    show prvSetCountLen 1 ≠ 0
    decide
  | write =>
    show prvSetCountLen 2 ≠ 0
    decide

omit [DecidableEq ι] in
/-- The holder at its place -/
theorem Bus.may_eq {s : Bus ι} {i : ι} {r : Request} {pc : Pc} (hl : s.lock = some i)
    (hst : (s.callers i).state = .running r pc) (p : ι → Nat → Start ι → Pc → Bool) (free : Bool) (k : Start ι) :
    s.may p free k = p i (s.callers i).calls k pc := by
  rw [Bus.may, hl]
  simp only [hst]

/-- Where the holder's place admits one START only, what was counted is that START's. -/
theorem Bus.onlyFrom_of_may {s : Bus ι} {i : ι} {r : Request} {pc : Pc} (hl : s.lock = some i)
    (hst : (s.callers i).state = .running r pc) {p : ι → Nat → Start ι → Pc → Bool} {free : Bool} {own : Start ι}
    (hp : ∀ k, p i (s.callers i).calls k pc = decide (k = own)) {l : List (Start ι)} (hne : l ≠ [])
    (hmay : ∀ k ∈ l, s.may p free k = true) : OnlyFrom own l := by
  refine ⟨hne, fun k hk => ?_⟩
  have hk := hmay k hk
  rw [Bus.may_eq hl hst, hp] at hk
  exact of_decide_eq_true hk

theorem Tracked.Inv.ownEvents {t : Tracked ι} (h : t.Inv) : t.OwnEvents := by
  intro i r pc hst
  have hcritical : pc.critical = true → t.bus.lock = some i := (h.holder i r pc hst).1
  unfold Tracked.WaitsOwn
  cases pc with
  | waitLen =>
    intro hzero
    have hne : t.origins.len ≠ [] := by
      intro hnil
      have hlen := h.gLen i r _ hst rfl
      rw [hzero, hnil, List.length_nil, BitVec.sub_zero] at hlen
      exact r.setCount_ne_zero hlen.symm
    exact Bus.onlyFrom_of_may (hcritical rfl) hst (fun _ => rfl) hne h.held.len
  | waitStopTx =>
    intro hpos
    have hne : t.origins.stop ≠ [] := List.length_pos_iff.1 (hpos.trans_le h.origins.stop)
    exact Bus.onlyFrom_of_may (hcritical rfl) hst (fun _ => rfl) hne h.held.stop
  | waitRead =>
    intro hpos
    have hne : t.origins.read ≠ [] := List.length_pos_iff.1 (hpos.trans_le h.origins.read)
    exact Bus.onlyFrom_of_may (hcritical rfl) hst (fun _ => rfl) hne h.held.read
  | waitStopRx =>
    intro hpos
    have hne : t.origins.stop ≠ [] := List.length_pos_iff.1 (hpos.trans_le h.origins.stop)
    exact Bus.onlyFrom_of_may (hcritical rfl) hst (fun _ => rfl) hne h.held.stop
  | _ => trivial

/-! ## Steps of the holder -/

/-- What was counted may have been, with call `n` of caller `i` at this place. -/
structure Origins.Allowed (g : Origins ι) (i : ι) (n : Nat) (pc : Pc) : Prop where
  stop : ∀ k ∈ g.stop, pc.mayStop i n k = true
  read : ∀ k ∈ g.read, pc.mayRead i n k = true
  len : ∀ k ∈ g.len, pc.mayLen i n k = true

/-- How a step of the holder ends: at its next place inside, or outside with nothing counted. -/
inductive HolderStep (i : ι) (n : Nat) (r : Request) (g : Origins ι) (d' : Dev ι) (lock' : Option ι) :
    CallerState → Prop where
  | inside (pc : Pc) (critical : pc.critical = true) (lock : lock' = some i) (allowed : g.Allowed i n pc)
    (gLen : pc.countsLen = true → d'.gLen = prvSetCountLen r.count - BitVec.ofNat 16 g.len.length) :
    HolderStep i n r g d' lock' (.running r pc)
  | outside (next : CallerState) (state : ∀ r pc, next = .running r pc → pc.critical = false) (lock : lock' = none)
    (stop : g.stop = []) (read : g.read = []) : HolderStep i n r g d' lock' next

/-- A list none of whose members may be there -/
theorem eq_nil_of_forall {α : Type*} {p : α → Bool} {l : List α} (h : ∀ k ∈ l, p k = true) (hp : ∀ k, p k = false) :
    l = [] := by
  refine List.eq_nil_iff_forall_not_mem.2 fun k hk => ?_
  have hpk := h k hk
  rw [hp k] at hpk
  cases hpk

theorem callStep_holder {g : Origins ι} {d d' : Dev ι} {i : ι} {n : Nat} {r : Request} {o : Outcome}
    {lock' : Option ι} {pc : Pc} {next : CallerState} (hc : pc.critical = true) (h : g.Allowed i n pc)
    (hlen : pc.countsLen = true → d.gLen = prvSetCountLen r.count - BitVec.ofNat 16 g.len.length)
    (hs : callStep i n r o (some i) d pc = some (next, lock', d')) :
    HolderStep i n r (g.caller pc) d' lock' next := by
  -- where nothing may be counted, everything follows
  have never : ∀ {α : Type _} {p q : α → Bool} {l : List α}, (∀ k ∈ l, p k = true) → (∀ k, p k = false) →
      ∀ k ∈ l, q k = true := by
    intro α p q l hl hp k hk
    rw [eq_nil_of_forall hl hp] at hk
    cases hk
  cases pc with
  | poll | lock | load => cases hc
  | setSlave =>
    cases hs
    exact .inside _ rfl rfl ⟨h.stop, h.read, h.len⟩ fun h => by cases h
  | setLen =>
    cases hs
    exact .inside _ rfl rfl ⟨h.stop, h.read, List.forall_mem_nil _⟩ fun _ => (BitVec.sub_zero _).symm
  | setCnt =>
    cases hs
    cases r <;> exact .inside _ rfl rfl ⟨h.stop, h.read, h.len⟩ fun _ => hlen rfl
  | storeReg | storeVal | clearFifo =>
    cases hs
    exact .inside _ rfl rfl ⟨h.stop, h.read, h.len⟩ fun _ => hlen rfl
  | startTx =>
    cases hs
    exact .inside _ rfl rfl ⟨never h.stop fun _ => rfl, h.read, never h.len fun _ => rfl⟩ fun _ => hlen rfl
  | waitLen =>
    simp only [callStep, Option.ite_none_right_eq_some, Option.some.injEq] at hs
    obtain ⟨-, hs⟩ := hs
    cases hs
    split
    · -- timed out: what comes before the reinitialisation is dropped by it
      exact .inside _ rfl rfl ⟨fun _ _ => rfl, h.read, fun _ _ => rfl⟩ fun h => by cases h
    · exact .inside _ rfl rfl ⟨h.stop, h.read, fun _ _ => rfl⟩ fun h => by cases h
  | waitStopTx =>
    simp only [callStep, Option.ite_none_right_eq_some, Option.some.injEq] at hs
    obtain ⟨-, hs⟩ := hs
    cases hs
    exact .inside _ rfl rfl ⟨fun _ _ => rfl, h.read, h.len⟩ fun h => by cases h
  | reinitStopTx ok =>
    cases hs
    cases r with
    | write => exact .inside _ rfl rfl ⟨List.forall_mem_nil _, h.read, h.len⟩ fun h => by cases h
    | read =>
      cases ok with
      | false => exact .inside _ rfl rfl ⟨List.forall_mem_nil _, h.read, h.len⟩ fun h => by cases h
      | true => exact .inside _ rfl rfl ⟨List.forall_mem_nil _, h.read, h.len⟩ fun h => by cases h
  | setLenRx =>
    cases hs
    exact .inside _ rfl rfl ⟨h.stop, h.read, List.forall_mem_nil _⟩ fun h => by cases h
  | setCntRx =>
    cases hs
    exact .inside _ rfl rfl ⟨h.stop, h.read, h.len⟩ fun h => by cases h
  | startRx =>
    cases hs
    exact .inside _ rfl rfl ⟨never h.stop fun _ => rfl, never h.read fun _ => rfl, h.len⟩ fun h => by cases h
  | waitRead =>
    simp only [callStep, Option.ite_none_right_eq_some, Option.some.injEq] at hs
    obtain ⟨-, hs⟩ := hs
    cases hs
    split
    · exact .inside _ rfl rfl ⟨fun _ _ => rfl, fun _ _ => rfl, h.len⟩ fun h => by cases h
    · exact .inside _ rfl rfl ⟨h.stop, fun _ _ => rfl, h.len⟩ fun h => by cases h
  | waitStopRx =>
    simp only [callStep, Option.ite_none_right_eq_some, Option.some.injEq] at hs
    obtain ⟨-, hs⟩ := hs
    cases hs
    exact .inside _ rfl rfl ⟨fun _ _ => rfl, h.read, h.len⟩ fun h => by cases h
  | reinitRead ok =>
    cases hs
    exact .inside _ rfl rfl ⟨fun _ _ => rfl, List.forall_mem_nil _, h.len⟩ fun h => by cases h
  | reinitStopRx ok =>
    cases hs
    exact .inside _ rfl rfl ⟨List.forall_mem_nil _, h.read, h.len⟩ fun h => by cases h
  | unlock ok =>
    cases hs
    refine .outside _ ?_ rfl (eq_nil_of_forall h.stop fun _ => rfl) (eq_nil_of_forall h.read fun _ => rfl)
    intro r' pc' hnext
    cases r with
    | read =>
      cases ok with
      | false => cases hnext
      | true =>
        cases hnext
        rfl
    | write => cases hnext

/-! ## Steps of the system -/

omit [DecidableEq ι] in
/-- What may be counted depends on the mutex and its holder only. -/
theorem Bus.may_congr {s s' : Bus ι} (hl : s'.lock = s.lock) (hc : ∀ i, s.lock = some i → s'.callers i = s.callers i)
    (p : ι → Nat → Start ι → Pc → Bool) (free : Bool) (k : Start ι) : s'.may p free k = s.may p free k := by
  unfold Bus.may
  rw [hl]
  cases h : s.lock with
  | none => rfl
  | some i => simp only [hc i h]

theorem Tracked.Held.congr {t t' : Tracked ι} (h : t.Held) (hl : t'.bus.lock = t.bus.lock)
    (hc : ∀ i, t.bus.lock = some i → t'.bus.callers i = t.bus.callers i) (ho : t'.origins = t.origins) : t'.Held := by
  refine ⟨fun k hk => ?_, fun k hk => ?_, fun k hk => ?_⟩
  all_goals rw [ho] at hk; rw [Bus.may_congr hl hc]
  · exact h.stop k hk
  · exact h.read k hk
  · exact h.len k hk

/-- A step of the ISR in time -/
theorem Tracked.Held.isrStep {t : Tracked ι} (h : t.Held) (hg : t.Sound .isr) (d : Dev ι) :
    Tracked.Held { bus := { t.bus with dev := d }, origins := t.origins.isr t.bus.dev } := by
  obtain ⟨hstop, hread, hlen⟩ := h
  change t.Counts t.bus.dev.isr at hg
  unfold Origins.isr
  cases hi : t.bus.dev.isr with
  | idle | rrdyStore irq | xrdyWrite irq => exact ⟨hstop, hread, hlen⟩
  | check => exact ⟨hstop, hread, hlen⟩
  | ack irq => exact ⟨hstop, hread, hlen⟩
  | ardy irq =>
    rw [hi] at hg
    dsimp only
    split
    · rename_i ha
      exact ⟨List.forall_mem_append.2 ⟨hstop, hg ha⟩, hread, hlen⟩
    · exact ⟨hstop, hread, hlen⟩
  | rrdyLen irq =>
    rw [hi] at hg
    dsimp only
    split
    · rename_i hr
      exact ⟨hstop, hread, List.forall_mem_append.2 ⟨hlen, hg hr⟩⟩
    · exact ⟨hstop, hread, hlen⟩
  | rrdyComplete irq =>
    rw [hi] at hg
    exact ⟨hstop, List.forall_mem_append.2 ⟨hread, hg⟩, hlen⟩
  | xrdyLen irq =>
    rw [hi] at hg
    dsimp only
    split
    · rename_i hx
      exact ⟨hstop, hread, List.forall_mem_append.2 ⟨hlen, hg hx⟩⟩
    · exact ⟨hstop, hread, hlen⟩

omit [DecidableEq ι] in
/-- Each decrement of `g_len` has one origin. -/
theorem Origins.Of.isrStep_gLen {g : Origins ι} {d d' : Dev ι} (h : g.Of d) (hs : Driver.isrStep d = some d') :
    (d'.gLen = d.gLen ∧ (g.isr d).len = g.len) ∨
      (d'.gLen = d.gLen - 1 ∧ (g.isr d).len.length = g.len.length + 1) := by
  unfold Driver.isrStep at hs
  unfold Origins.isr
  cases hi : d.isr with
  | rrdyLen irq =>
    simp only [hi, Option.some.injEq] at hs
    have hirq := h.held irq (by rw [hi]; rfl)
    dsimp only
    split at hs
    · rename_i hr
      subst hs
      rw [if_pos hr]
      exact .inr ⟨rfl, by rw [List.length_append, hirq.rrdy hr]⟩
    · rename_i hr
      subst hs
      rw [if_neg hr]
      exact .inl ⟨rfl, rfl⟩
  | xrdyLen irq =>
    simp only [hi, Option.some.injEq] at hs
    have hirq := h.held irq (by rw [hi]; rfl)
    dsimp only
    split at hs
    · rename_i hx
      subst hs
      rw [if_pos hx]
      exact .inr ⟨rfl, by rw [List.length_append, hirq.xrdy hx]⟩
    · rename_i hx
      subst hs
      rw [if_neg hx]
      exact .inl ⟨rfl, rfl⟩
  | ardy irq =>
    simp only [hi, Option.some.injEq] at hs
    subst hs
    refine .inl ⟨rfl, ?_⟩
    dsimp only
    split <;> rfl
  | idle | check | rrdyStore irq | rrdyComplete irq | xrdyWrite irq | ack irq =>
    simp only [hi, Option.some.injEq] at hs
    subst hs
    exact .inl ⟨rfl, rfl⟩

theorem Tracked.Inv.isrStep {t : Tracked ι} (h : t.Inv) (hg : t.Sound .isr) {d : Dev ι}
    (hs : Driver.isrStep t.bus.dev = some d) :
    Tracked.Inv { bus := { t.bus with dev := d }, origins := t.origins.isr t.bus.dev } where
  origins := h.origins.isrStep hs
  holder := h.holder
  running := h.running
  held := h.held.isrStep hg d
  gLen i r pc hst hc := by
    have hlen := h.gLen i r pc hst hc
    rcases h.origins.isrStep_gLen hs with ⟨hd, hl⟩ | ⟨hd, hl⟩
    · simp only [hd, hl]
      exact hlen
    · simp only [hd, hl, hlen, BitVec.ofNat_add]
      exact BitVec.sub_sub ..

theorem Tracked.Inv.eventStep {t : Tracked ι} (h : t.Inv) {e : Event} {d : Dev ι}
    (hs : Driver.eventStep t.bus.dev e = some d) :
    Tracked.Inv { bus := { t.bus with dev := d }, origins := t.origins.event t.bus.dev e } := by
  have hkeep : d.gLen = t.bus.dev.gLen := by
    rcases eventStep_cases hs with ⟨k, t, -, -, -, -, -, rfl⟩ | ⟨k, t, b, -, -, -, -, -, rfl⟩ | ⟨k, t, -, -, -, rfl⟩ |
      ⟨st, -, -, -, rfl⟩ <;> rfl
  have horigins : (t.origins.event t.bus.dev e).stop = t.origins.stop ∧
      (t.origins.event t.bus.dev e).read = t.origins.read ∧ (t.origins.event t.bus.dev e).len = t.origins.len := by
    cases e <;> exact ⟨rfl, rfl, rfl⟩
  obtain ⟨hstop, hread, hlen⟩ := horigins
  refine ⟨h.origins.eventStep hs, h.holder, h.running, ⟨?_, ?_, ?_⟩, ?_⟩
  · intro k hk
    exact h.held.stop k (hstop ▸ hk)
  · intro k hk
    exact h.held.read k (hread ▸ hk)
  · intro k hk
    exact h.held.len k (hlen ▸ hk)
  · intro i r pc hst hc
    simp only [hkeep, hlen]
    exact h.gLen i r pc hst hc

/-- A caller without the mutex moves outside of it. -/
theorem Tracked.Inv.outside {t : Tracked ι} (h : t.Inv) {i : ι} (hi : t.bus.lock ≠ some i) {c : Caller}
    (hc : ∀ r pc, c.state = .running r pc → pc.critical = false) :
    Tracked.Inv { bus := { t.bus with callers := Function.update t.bus.callers i c }, origins := t.origins } := by
  have hother : ∀ j, t.bus.lock = some j → Function.update t.bus.callers i c j = t.bus.callers j := by
    intro j hj
    exact Function.update_of_ne (fun e => hi (by rw [hj, e])) ..
  refine ⟨h.origins, ?_, ?_, h.held.congr rfl hother rfl, ?_⟩
  · intro j r pc hst
    by_cases hij : j = i
    · subst hij
      simp only [Function.update_self] at hst
      rw [hc r pc hst]
      exact iff_of_false nofun hi
    · simp only [Function.update_of_ne hij] at hst
      exact h.holder j r pc hst
  · intro j hj
    obtain ⟨r, pc, hst⟩ := h.running j hj
    exact ⟨r, pc, by simp only [hother j hj, hst]⟩
  · intro j r pc hst hcounts
    by_cases hij : j = i
    · subst hij
      simp only [Function.update_self] at hst
      have hcritical := Pc.critical_of_countsLen hcounts
      rw [hc r pc hst] at hcritical
      cases hcritical
    · simp only [Function.update_of_ne hij] at hst
      exact h.gLen j r pc hst hcounts

/-- One caller is between its two ends, and what was counted may have been with it there. -/
theorem Tracked.Inv.inside {callers : ι → Caller} {g : Origins ι} {d : Dev ι} {i : ι} {n : Nat} {r : Request} {pc : Pc}
    (hothers : ∀ j r' pc', j ≠ i → (callers j).state = .running r' pc' → pc'.critical = false) (horigins : g.Of d)
    (hc : pc.critical = true) (hallowed : g.Allowed i n pc)
    (hlen : pc.countsLen = true → d.gLen = prvSetCountLen r.count - BitVec.ofNat 16 g.len.length) :
    Tracked.Inv
      { bus := { callers := Function.update callers i ⟨n, .running r pc⟩, lock := some i, dev := d }
        origins := g } := by
  have hmay : ∀ p free k, Bus.may ⟨Function.update callers i ⟨n, .running r pc⟩, some i, d⟩ p free k = p i n k pc := by
    intro p free k
    have hself : (Function.update callers i ⟨n, .running r pc⟩ i).state = .running r pc := by rw [Function.update_self]
    rw [Bus.may_eq rfl hself]
    simp only [Function.update_self]
  refine ⟨horigins, ?_, ?_, ⟨?_, ?_, ?_⟩, ?_⟩
  · intro j r' pc' hst'
    by_cases hij : j = i
    · subst hij
      simp only [Function.update_self] at hst'
      cases hst'
      exact iff_of_true hc rfl
    · simp only [Function.update_of_ne hij] at hst'
      rw [hothers j r' pc' hij hst']
      exact iff_of_false nofun fun e => hij (Option.some.inj e).symm
  · rintro j ⟨⟩
    exact ⟨r, pc, by simp only [Function.update_self]⟩
  · intro k hk
    rw [hmay]
    exact hallowed.stop k hk
  · intro k hk
    rw [hmay]
    exact hallowed.read k hk
  · intro k hk
    rw [hmay]
    exact hallowed.len k hk
  · intro j r' pc' hst' hcounts
    by_cases hij : j = i
    · subst hij
      simp only [Function.update_self] at hst'
      cases hst'
      exact hlen hcounts
    · simp only [Function.update_of_ne hij] at hst'
      have hcritical := Pc.critical_of_countsLen hcounts
      rw [hothers j r' pc' hij hst'] at hcritical
      cases hcritical

/-- The mutex is free, and nothing is counted. -/
theorem Tracked.Inv.released {callers : ι → Caller} {g : Origins ι} {d : Dev ι}
    (hout : ∀ j r pc, (callers j).state = .running r pc → pc.critical = false) (horigins : g.Of d) (hstop : g.stop = [])
    (hread : g.read = []) : Tracked.Inv { bus := { callers := callers, lock := none, dev := d }, origins := g } := by
  refine ⟨horigins, ?_, nofun, ⟨?_, ?_, fun _ _ => rfl⟩, ?_⟩
  · intro j r pc hst
    refine iff_of_false ?_ nofun
    rw [hout j r pc hst]
    nofun
  · intro k hk
    simp only [hstop] at hk
    cases hk
  · intro k hk
    simp only [hread] at hk
    cases hk
  · intro j r pc hst hcounts
    have hcritical := Pc.critical_of_countsLen hcounts
    rw [hout j r pc hst] at hcritical
    cases hcritical

/-- A step of the holder of the mutex -/
theorem Tracked.Inv.critical {t : Tracked ι} (h : t.Inv) {i : ι} {o : Outcome} {r : Request} {pc : Pc}
    (hst : (t.bus.callers i).state = .running r pc) (hc : pc.critical = true) {next : CallerState}
    {lock : Option ι} {d : Dev ι}
    (hs : callStep i (t.bus.callers i).calls r o t.bus.lock t.bus.dev pc = some (next, lock, d)) :
    Tracked.Inv
      { bus := { callers := Function.update t.bus.callers i ⟨(t.bus.callers i).calls, next⟩, lock := lock, dev := d }
        origins := t.origins.caller pc } := by
  have hl : t.bus.lock = some i := (h.holder i r pc hst).1 hc
  have hallowed : t.origins.Allowed i (t.bus.callers i).calls pc := by
    refine ⟨fun k hk => ?_, fun k hk => ?_, fun k hk => ?_⟩
    · rw [← Bus.may_eq hl hst Pc.mayStop false]
      exact h.held.stop k hk
    · rw [← Bus.may_eq hl hst Pc.mayRead false]
      exact h.held.read k hk
    · rw [← Bus.may_eq hl hst Pc.mayLen true]
      exact h.held.len k hk
  have horigins := h.origins.callStep hs
  rw [hl] at hs
  have hothers : ∀ j r' pc', j ≠ i → (t.bus.callers j).state = .running r' pc' → pc'.critical = false := by
    intro j r' pc' hij hst'
    by_contra hcritical
    rw [Bool.not_eq_false] at hcritical
    have hj := (h.holder j r' pc' hst').1 hcritical
    rw [hl] at hj
    exact hij (Option.some.inj hj).symm
  cases callStep_holder hc hallowed (h.gLen i r pc hst) hs with
  | inside pc' hc' hlock hallowed' hlen' =>
    subst hlock
    exact .inside hothers horigins hc' hallowed' hlen'
  | outside _ hout hlock hstop hread =>
    subst hlock
    refine .released ?_ horigins hstop hread
    intro j r' pc' hst'
    by_cases hij : j = i
    · subst hij
      simp only [Function.update_self] at hst'
      exact hout r' pc' hst'
    · simp only [Function.update_of_ne hij] at hst'
      exact hothers j r' pc' hij hst'

/-- Taking the mutex -/
theorem Tracked.Inv.lock {t : Tracked ι} (h : t.Inv) {i : ι} {r : Request} (hl : t.bus.lock = none) :
    Tracked.Inv
      { bus :=
          { callers := Function.update t.bus.callers i ⟨(t.bus.callers i).calls, .running r .setSlave⟩
            lock := some i
            dev := t.bus.dev }
        origins := t.origins } := by
  have hfree : ∀ p k, ¬ t.bus.may p false k = true := by
    intro p k
    rw [Bus.may, hl]
    nofun
  refine .inside ?_ h.origins rfl ⟨?_, ?_, fun _ _ => rfl⟩ nofun
  · intro j r' pc _ hst
    by_contra hcritical
    rw [Bool.not_eq_false] at hcritical
    have hj := (h.holder j r' pc hst).1 hcritical
    rw [hl] at hj
    cases hj
  · intro k hk
    exact absurd (h.held.stop k hk) (hfree _ k)
  · intro k hk
    exact absurd (h.held.read k hk) (hfree _ k)

theorem Tracked.Inv.step {t t' : Tracked ι} {a : Action ι} (h : t.Inv) (hg : t.Sound a)
    (hs : trackedStep t a = some t') : t'.Inv := by
  obtain ⟨bus, hbus, rfl⟩ := Option.map_eq_some_iff.1 hs
  cases a with
  | call i r =>
    simp only [busStep] at hbus
    split at hbus
    · cases hbus
    · rename_i hrun
      cases hbus
      refine h.outside (fun hl => ?_) fun r' pc hst => ?_
      · obtain ⟨r', pc, hst⟩ := h.running i hl
        exact hrun r' pc hst
      · cases hst
        rfl
  | step i o =>
    simp only [busStep] at hbus
    split at hbus
    · rename_i r pc hst
      obtain ⟨⟨next, lock, d⟩, hcs, rfl⟩ := Option.map_eq_some_iff.1 hbus
      simp only [Tracked.nextOrigins, hst]
      cases hc : pc.critical with
      | true => exact h.critical hst hc hcs
      | false =>
        have hi : t.bus.lock ≠ some i := by
          intro hl
          have hcritical := (h.holder i r pc hst).2 hl
          rw [hc] at hcritical
          cases hcritical
        cases pc with
        | poll k =>
          simp only [callStep] at hcs
          split at hcs
          · split at hcs
            · cases hcs
              exact h.outside hi (by rintro _ _ ⟨⟩)
            · cases hcs
              refine h.outside hi fun _ _ hst' => ?_
              cases hst'
              rfl
          · cases hcs
            refine h.outside hi fun _ _ hst' => ?_
            cases hst'
            rfl
        | lock =>
          simp only [callStep] at hcs
          split at hcs
          · cases hcs
          · rename_i hfree
            cases hcs
            exact h.lock (by simpa using hfree)
        | load =>
          cases hcs
          exact h.outside hi (by rintro _ _ ⟨⟩)
        | _ => cases hc
    · cases hbus
  | isr =>
    obtain ⟨d, hd, rfl⟩ := Option.map_eq_some_iff.1 hbus
    exact h.isrStep hg hd
  | event e =>
    obtain ⟨d, hd, rfl⟩ := Option.map_eq_some_iff.1 hbus
    exact h.eventStep hd

/-- In every run, with any waits that time out and any late events, in which what the ISR counts is either of
the START that the holder of the mutex waits for or about to be dropped by it, every wait is ended by events
of its own START. -/
theorem waits_own_events {t : Tracked ι} (h : Run trackedStep Tracked.Sound {} t) : t.OwnEvents :=
  (h.invariant Tracked.Inv.init fun _ _ _ hi hg hs => hi.step hg hs).ownEvents

end

/-! ## Two runs -/

/-- A write up to its wait for `comp_stop`, with its XRDYs and the `early` actions before them. -/
def writeUpToStop (early : List (Action Unit)) : List (Action Unit) :=
  let isr (n : Nat) := List.replicate n (.isr : Action Unit)
  .call () (.write 0x27 0xF4 0x76) :: List.replicate 9 (.step () .met) ++ early ++
    .event (.xrdy 0) :: isr 8 ++ .event (.xrdy 0) :: isr 8 ++ [.step () .met]

/-- The ARDY and its pass of the ISR -/
def ardyPass : List (Action Unit) := .event (.ardy 0) :: List.replicate 7 .isr

/-- The wait for `comp_stop` times out; its ARDY comes before the `reinit_completion`. The next write waits
for its own. -/
theorem waits_own_events_after_timeout :
    ∃ t : Tracked Unit, (t.bus.callers ()).state = .running (.write 0x27 0xF4 0x76) .waitStopTx ∧
      t.bus.dev.compStop = 1 ∧ t.OwnEvents := by
  have hrun : (runList trackedStep Tracked.Sound {} (writeUpToStop [] ++ .step () .timeout :: ardyPass ++
      [.step () .met, .step () .met] ++ writeUpToStop [] ++ ardyPass)).map
        (fun t => ((t.bus.callers ()).state, t.bus.dev.compStop)) =
      some (.running (.write 0x27 0xF4 0x76) .waitStopTx, 1) := by
    decide +kernel
  obtain ⟨t, ht, he⟩ := Option.map_eq_some_iff.1 hrun
  simp only [Prod.mk.injEq] at he
  exact ⟨t, he.1, he.2, waits_own_events (Run.of_runList ht)⟩

/-- The ARDY comes in the next write, which returns on it. -/
theorem not_waits_own_events :
    ¬ ∀ t : Tracked Unit, Run trackedStep (fun _ _ => True) {} t → t.OwnEvents := by
  intro h
  have hrun : (runList trackedStep (fun _ _ => True) {} (writeUpToStop [] ++
      [.step () .timeout, .step () .met, .step () .met] ++ writeUpToStop ardyPass)).map
        (fun t => (t.bus.callers (), t.bus.dev.compStop, t.origins.stop)) =
      some (⟨2, .running (.write 0x27 0xF4 0x76) .waitStopTx⟩, 1, [⟨(), 1, .tx⟩]) := by
    decide +kernel
  obtain ⟨t, ht, he⟩ := Option.map_eq_some_iff.1 hrun
  simp only [Prod.mk.injEq] at he
  obtain ⟨hcaller, hstop, hfrom⟩ := he
  have hown := h t (Run.of_runList ht) () _ _ (by rw [hcaller])
  rw [hcaller] at hown
  obtain ⟨-, hall⟩ := hown (by rw [hstop]; exact Nat.one_pos)
  rw [hfrom] at hall
  exact absurd (hall _ List.mem_cons_self) (by decide)

end Td3.Driver
