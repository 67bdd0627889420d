/-
The index `g_len` of the ISR into `g_write`, over any runs: waits time out, and the controller raises the events it
still owes to a START in any later call. `g_len` is set for one START and counts any START's data events. It counts
down to 0 and no further as long as no event is counted for a START made before `g_len` was last set.
-/
import Td3.Driver.I2cStale
import Td3.Driver.I2cTransmit

namespace Td3.Driver

/-! ## Events raised and not yet counted -/

/-- The ISR has lowered `g_len` for the XRDY it has in hand. -/
def Isr.xrdyCounted : Isr → Bool
  | .xrdyWrite _ => true
  | .ack irq => irq.xrdy
  | _ => false

/-- The same for an RRDY. -/
def Isr.rrdyCounted : Isr → Bool
  | .rrdyStore _ | .rrdyComplete _ => true
  | .xrdyLen irq | .xrdyWrite irq | .ack irq => irq.rrdy
  | _ => false

section
variable {ι : Type}

/-- The data events that the controller has raised and the ISR has not counted. -/
def Dev.raised (d : Dev ι) : Nat :=
  (if d.status.xrdy && !d.isr.xrdyCounted then 1 else 0) + if d.status.rrdy && !d.isr.rrdyCounted then 1 else 0

/-- The data events owed to the STARTs made since `g_len` was last set, those from place `late` on. -/
def Dev.due (d : Dev ι) (late : Nat) : Nat := ((d.transfers.drop late).map Transfer.left).sum

/-- The ISR lowers `g_len` only where it is not 0, and reads `g_write` at 0 or 1. -/
structure Dev.IndexSafe (d : Dev ι) : Prop where
  rrdy : ∀ irq, d.isr = .rrdyLen irq → irq.rrdy = true → d.gLen ≠ 0
  xrdy : ∀ irq, d.isr = .xrdyLen irq → irq.xrdy = true → d.gLen ≠ 0
  write : ∀ irq, d.isr = .xrdyWrite irq → d.gLen = 0 ∨ d.gLen = 1

/-! ## Runs -/

/-- The count that the next step of a call passes to `prv_set_count`. -/
def CallerState.sets : CallerState → Option (BitVec 16)
  | .running r .setLen => some r.count
  | .running _ .setLenRx => some 1
  | _ => none

/-- The system; the transfers before place `late` are of STARTs made before `g_len` was last set. -/
structure Dated (ι : Type) where
  bus : Bus ι := {}
  late : Nat := 0

/-- The place of the transfer whose data event this is. -/
def Event.data : Event → Option Nat
  | .xrdy k | .rrdy k _ => some k
  | _ => none

/-- The ARDY of a transfer takes it from the list. -/
def Event.nextLate (late : Nat) : Event → Nat
  | .ardy k => if k < late then late - 1 else late
  | _ => late

def Dated.nextLate (t : Dated ι) : Action ι → Nat
  | .step i _ => if (t.bus.callers i).state.sets.isSome then t.bus.dev.transfers.length else t.late
  | .event e => e.nextLate t.late
  | _ => t.late

def datedStep [DecidableEq ι] (t : Dated ι) (a : Action ι) : Option (Dated ι) :=
  (busStep t.bus a).map fun bus => ⟨bus, t.nextLate a⟩

/-- `g_len` may be set to this count: the ISR has counted every event raised, and is not about to use a lowered
`g_len` as an index that the count takes out of bounds. -/
structure Dev.MaySet (d : Dev ι) (count : BitVec 16) : Prop where
  counted : d.raised = 0
  index : d.isr.lowered + (prvSetCountLen count).toNat ≤ 2

instance (d : Dev ι) (count : BitVec 16) : Decidable (d.MaySet count) :=
  decidable_of_iff (d.raised = 0 ∧ d.isr.lowered + (prvSetCountLen count).toNat ≤ 2)
    ⟨fun h => ⟨h.1, h.2⟩, fun h => ⟨h.counted, h.index⟩⟩

/-- No data event of a START is counted after a later setting of `g_len`: none is raised after it, and none is left to
count at it. -/
def Dated.InTime (t : Dated ι) : Action ι → Prop
  | .step i _ => ∀ count ∈ (t.bus.callers i).state.sets, t.bus.dev.MaySet count
  | .event e => ∀ k ∈ e.data, t.late ≤ k
  | _ => True

instance Dated.decidableInTime (t : Dated ι) : ∀ a, Decidable (t.InTime a)
  -- not by trying every count
  | .step i _ => Option.decidableForallMem (t.bus.callers i).state.sets
  | .event e => Option.decidableForallMem e.data
  | .call .. | .isr => inferInstanceAs (Decidable True)

/-! ## The ISR -/

/-- What the ISR has in hand is still in IRQSTATUS. -/
structure Dev.InHand (d : Dev ι) : Prop where
  ok : d.isr.Ok
  xrdy : ∀ irq, d.isr.word = some irq → irq.xrdy = true → d.status.xrdy = true
  rrdy : ∀ irq, d.isr.word = some irq → irq.rrdy = true → d.status.rrdy = true
  write : ∀ irq, d.isr = .xrdyWrite irq → irq.xrdy = true

variable {d d' : Dev ι}

theorem Dev.InHand.isrStep (h : d.InHand) (hs : isrStep d = some d') : d'.InHand := by
  obtain ⟨hok, hx, hr, hw⟩ := h
  have hok' := isrStep_ok hs hok
  unfold Driver.isrStep at hs
  split at hs <;> simp only [Option.some.injEq] at hs <;> subst hs <;> constructor <;>
    grind [Isr.word, IrqStatus.ack]

/-- A step of the ISR counts an event it has in hand, or leaves `g_len` and the events raised alone. -/
theorem isrStep_counts (h : d.InHand) (hs : isrStep d = some d') :
    (d'.gLen = d.gLen ∧ d'.raised = d.raised ∧ d'.isr.lowered = 0) ∨
      (d'.gLen = d.gLen - 1 ∧ d'.raised + 1 = d.raised ∧ d'.isr.lowered ≤ 1) := by
  obtain ⟨hok, hx, hr, hw⟩ := h
  unfold Driver.isrStep at hs
  split at hs <;> simp only [Option.some.injEq] at hs <;> subst hs <;>
    grind [Isr.word, IrqStatus.ack, Dev.raised, Isr.xrdyCounted, Isr.rrdyCounted, Isr.lowered, Isr.Ok]

/-! ## The controller -/

/-- One event fewer is due where a transfer from place `late` on gives one up. -/
theorem sum_left_set {l : List (Transfer ι)} {t : Transfer ι} {k late : Nat} (ht : l[k]? = some t) (hk : late ≤ k)
    (hleft : 0 < t.left) :
    (((l.set k { t with left := t.left - 1 }).drop late).map Transfer.left).sum + 1 =
      ((l.drop late).map Transfer.left).sum := by
  induction l generalizing k late with
  | nil => cases ht
  | cons u l ih =>
    cases k with
    | zero =>
      obtain rfl : late = 0 := by omega
      cases ht
      simp only [List.set_cons_zero, List.drop_zero, List.map_cons, List.sum_cons]
      omega
    | succ k =>
      rw [List.getElem?_cons_succ] at ht
      cases late with
      | zero =>
        have hrest := ih ht (Nat.zero_le k)
        simp only [List.set_cons_succ, List.drop_zero, List.map_cons, List.sum_cons] at hrest ⊢
        omega
      | succ late => exact ih ht (by omega)

/-- A transfer with nothing left changes nothing when it goes. -/
theorem sum_left_eraseIdx {l : List (Transfer ι)} {t : Transfer ι} {k late : Nat} (ht : l[k]? = some t)
    (hleft : t.left = 0) :
    (((l.eraseIdx k).drop (if k < late then late - 1 else late)).map Transfer.left).sum =
      ((l.drop late).map Transfer.left).sum := by
  induction l generalizing k late with
  | nil => cases ht
  | cons u l ih =>
    cases k with
    | zero =>
      cases ht
      cases late with
      | zero => simp [hleft]
      | succ late => simp
    | succ k =>
      rw [List.getElem?_cons_succ] at ht
      cases late with
      | zero => simpa using @ih k 0 ht
      | succ late =>
        have hrest := @ih k late ht
        by_cases hlt : k < late
        · rw [if_pos hlt] at hrest
          rw [if_pos (by omega), Nat.add_sub_cancel, List.drop_succ_cons, ← hrest]
          obtain ⟨late, rfl⟩ := Nat.exists_eq_succ_of_ne_zero (show late ≠ 0 by omega)
          rfl
        · rw [if_neg hlt] at hrest
          rw [if_neg (by omega)]
          exact hrest

variable [DecidableEq ι]

theorem Dev.InHand.eventStep (h : d.InHand) {e : Event} (hs : eventStep d e = some d') : d'.InHand := by
  obtain ⟨hok, hx, hr, hw⟩ := h
  rcases eventStep_cases hs with ⟨k, t, -, -, -, -, -, rfl⟩ | ⟨k, t, b, -, -, -, -, -, rfl⟩ | ⟨k, t, -, -, -, rfl⟩ |
    ⟨st, hstr, -, hstx, rfl⟩
  · exact ⟨hok, fun _ _ _ => rfl, hr, hw⟩
  · exact ⟨hok, hx, fun _ _ _ => rfl, hw⟩
  · exact ⟨hok, hx, hr, hw⟩
  · exact ⟨hok, fun irq hi hirq => hstx.trans (hx irq hi hirq), fun irq hi hirq => hstr.trans (hr irq hi hirq), hw⟩

omit [DecidableEq ι] in
/-- An event that was not raised yet was not counted. -/
theorem Dev.InHand.xrdyCounted (h : d.InHand) (hx : d.status.xrdy = false) : d.isr.xrdyCounted = false := by
  obtain ⟨-, hhand, -, hwrite⟩ := h
  cases hi : d.isr with
  | xrdyWrite irq =>
    have hset := hhand irq (by rw [hi]; rfl) (hwrite irq hi)
    rw [hx] at hset
    cases hset
  | ack irq =>
    cases hirq : irq.xrdy with
    | false => exact hirq
    | true =>
      have hset := hhand irq (by rw [hi]; rfl) hirq
      rw [hx] at hset
      cases hset
  | _ => rfl

omit [DecidableEq ι] in
theorem Dev.InHand.rrdyCounted (h : d.InHand) (hr : d.status.rrdy = false) : d.isr.rrdyCounted = false := by
  obtain ⟨hok, -, hhand, -⟩ := h
  have hfalse : ∀ irq, d.isr.word = some irq → irq.rrdy = false := by
    intro irq hi
    by_contra hirq
    have hset := hhand irq hi (by simpa using hirq)
    rw [hr] at hset
    cases hset
  cases hi : d.isr with
  | rrdyStore irq | rrdyComplete irq =>
    rw [hi] at hok
    exact absurd ((hfalse irq (by rw [hi]; rfl)).symm.trans hok) (by decide)
  | xrdyLen irq | xrdyWrite irq | ack irq => exact hfalse irq (by rw [hi]; rfl)
  | _ => rfl

theorem eventStep_ardy {k : Nat} (hs : eventStep d (.ardy k) = some d') :
    d'.transfers.length + 1 = d.transfers.length := by
  rw [eventStep] at hs
  split at hs
  · rename_i t ht
    have hlt := (List.getElem?_eq_some_iff.1 ht).1
    split at hs
    · cases hs
      rw [List.length_eraseIdx, if_pos hlt]
      omega
    · cases hs
  · cases hs

/-- An event in time only moves from the events due to the events raised. -/
theorem eventStep_counts (h : d.InHand) {e : Event} {late : Nat} (hs : eventStep d e = some d')
    (hlate : ∀ k ∈ e.data, late ≤ k) :
    d'.due (e.nextLate late) + d'.raised = d.due late + d.raised ∧
      (late = d.transfers.length → e.nextLate late = d'.transfers.length ∧ d'.raised = d.raised) := by
  have hfresh : ∀ {k t}, d.transfers[k]? = some t → late ≤ k → late ≠ d.transfers.length := by
    intro k t ht hk hlen
    have hlt := (List.getElem?_eq_some_iff.1 ht).1
    omega
  rcases eventStep_cases hs with ⟨k, t, rfl, ht, -, hleft, hx, rfl⟩ | ⟨k, t, b, rfl, ht, -, hleft, hr, rfl⟩ |
    ⟨k, t, rfl, ht, hleft, rfl⟩ | ⟨st, hstr, -, hstx, rfl⟩
  · have hk := hlate k rfl
    have hdue := sum_left_set ht hk hleft
    have hnot := h.xrdyCounted hx
    refine ⟨?_, fun hlen => absurd hlen (hfresh ht hk)⟩
    simp only [Dev.due, Dev.raised, Event.nextLate, hx, hnot] at hdue ⊢
    simp only [Bool.false_and, Bool.not_false, Bool.and_self, Bool.false_eq_true, if_false, if_true]
    omega
  · have hk := hlate k rfl
    have hdue := sum_left_set ht hk hleft
    have hnot := h.rrdyCounted hr
    refine ⟨?_, fun hlen => absurd hlen (hfresh ht hk)⟩
    simp only [Dev.due, Dev.raised, Event.nextLate, hr, hnot] at hdue ⊢
    simp only [Bool.false_and, Bool.not_false, Bool.and_self, Bool.false_eq_true, if_false, if_true]
    omega
  · refine ⟨?_, ?_⟩
    · rw [Dev.due, Dev.due, Event.nextLate, sum_left_eraseIdx ht hleft]
      rfl
    · intro hlen
      have hlt := (List.getElem?_eq_some_iff.1 ht).1
      rw [Event.nextLate, if_pos (by omega), List.length_eraseIdx, if_pos hlt, hlen]
      exact ⟨rfl, rfl⟩
  · have hnext : e.nextLate late = late := by
      cases e with
      | ardy k =>
        have hlen := eventStep_ardy hs
        dsimp only at hlen
        omega
      | _ => rfl
    have hraised : Dev.raised { d with status := st } = d.raised := by simp only [Dev.raised, hstr, hstx]
    rw [hnext, hraised]
    exact ⟨rfl, fun hlen => ⟨hlen, rfl⟩⟩

/-! ## The callers -/

omit [DecidableEq ι] in
/-- The place of a call is inside the mutex. -/
def CallerState.inside : CallerState → Bool
  | .running _ pc => pc.critical
  | _ => false

/-- Between the setting of `g_len` and the START it is set for: the count, and whether CNT has it. -/
def CallerState.prepares : CallerState → Option (BitVec 16 × Bool)
  | .running r .setCnt => some (r.count, false)
  | .running r .storeReg | .running r .storeVal | .running r .clearFifo | .running r .startTx => some (r.count, true)
  | .running _ .setCntRx => some (1, false)
  | .running _ .startRx => some (1, true)
  | _ => none

/-- A step that leaves all of this alone. -/
structure Dev.SameIndex (d d' : Dev ι) : Prop where
  isr : d'.isr = d.isr
  status : d'.status = d.status
  transfers : d'.transfers = d.transfers
  gLen : d'.gLen = d.gLen

omit [DecidableEq ι] in
theorem Dev.SameIndex.raised (h : d.SameIndex d') : d'.raised = d.raised := by
  rw [Dev.raised, Dev.raised, h.isr, h.status]

omit [DecidableEq ι] in
theorem Dev.SameIndex.due (h : d.SameIndex d') (late : Nat) : d'.due late = d.due late := by
  rw [Dev.due, Dev.due, h.transfers]

omit [DecidableEq ι] in
theorem Dev.InHand.congr (h : d.InHand) (hisr : d'.isr = d.isr) (hstatus : d'.status = d.status) : d'.InHand := by
  obtain ⟨hok, hx, hr, hw⟩ := h
  constructor
  · rwa [hisr]
  · rwa [hisr, hstatus]
  · rwa [hisr, hstatus]
  · rwa [hisr]

/-- What a step of a call does to `g_len` and the STARTs. -/
inductive IndexStep (state next : CallerState) (d d' : Dev ι) : Prop where
  | set (count : BitVec 16) (sets : state.sets = some count) (prepares : next.prepares = some (count, false))
    (bound : count = 1 ∨ count = 2) (dev : d' = { d with gLen := prvSetCountLen count })
  | prepare (count : BitVec 16) (b : Bool) (sets : state.sets = none) (before : state.prepares = some (count, b))
    (prepares : next.prepares = some (count, true)) (same : d.SameIndex d')
    (cnt : (b = true → d.cnt = count) → d'.cnt = count)
  | start (count : BitVec 16) (t : Transfer ι) (sets : state.sets = none) (before : state.prepares = some (count, true))
    (prepares : next.prepares = none) (left : t.left = d.cnt.toNat) (dev : d' = { d with transfers := d.transfers ++ [t] })
  | other (sets : state.sets = none) (before : state.prepares = none) (prepares : next.prepares = none)
    (same : d.SameIndex d') (cnt : d'.cnt = d.cnt)

theorem callStep_index {i : ι} {n : Nat} {r : Request} {o : Outcome} {lock lock' : Option ι} {pc : Pc}
    {next : CallerState} (hs : callStep i n r o lock d pc = some (next, lock', d')) :
    IndexStep (.running r pc) next d d' := by
  cases pc with
  | setLen =>
    cases hs
    exact .set r.count rfl rfl (by cases r <;> simp [Request.count]) rfl
  | setLenRx =>
    cases hs
    exact .set 1 rfl rfl (.inl rfl) rfl
  | setCnt =>
    cases hs
    exact .prepare r.count false rfl rfl (by cases r <;> rfl) ⟨rfl, rfl, rfl, rfl⟩ fun _ => rfl
  | setCntRx =>
    cases hs
    exact .prepare 1 false rfl rfl rfl ⟨rfl, rfl, rfl, rfl⟩ fun _ => rfl
  | storeReg | storeVal | clearFifo =>
    cases hs
    exact .prepare r.count true rfl rfl rfl ⟨rfl, rfl, rfl, rfl⟩ fun hcnt => hcnt rfl
  | startTx =>
    cases hs
    exact .start r.count _ rfl rfl rfl rfl rfl
  | startRx =>
    cases hs
    exact .start 1 _ rfl rfl rfl rfl rfl
  | setSlave | reinitRead ok | reinitStopRx ok | load =>
    cases hs
    exact .other rfl rfl rfl ⟨rfl, rfl, rfl, rfl⟩ rfl
  | poll k =>
    simp only [callStep] at hs
    split_ifs at hs <;> cases hs <;> exact .other rfl rfl rfl ⟨rfl, rfl, rfl, rfl⟩ rfl
  | lock =>
    simp only [callStep] at hs
    split_ifs at hs
    cases hs
    exact .other rfl rfl rfl ⟨rfl, rfl, rfl, rfl⟩ rfl
  | waitLen | waitStopTx | waitRead | waitStopRx =>
    simp only [callStep, Option.ite_none_right_eq_some, Option.some.injEq] at hs
    obtain ⟨-, hs⟩ := hs
    cases hs
    refine .other rfl rfl ?_ ⟨rfl, rfl, rfl, rfl⟩ rfl
    cases o <;> rfl
  | reinitStopTx ok =>
    cases hs
    refine .other rfl rfl ?_ ⟨rfl, rfl, rfl, rfl⟩ rfl
    cases r with
    | read => cases ok <;> rfl
    | write => rfl
  | unlock ok =>
    cases hs
    refine .other rfl rfl ?_ ⟨rfl, rfl, rfl, rfl⟩ rfl
    cases r with
    | read => cases ok <;> rfl
    | write => rfl

theorem callStep_lock {i : ι} {n : Nat} {r : Request} {o : Outcome} {lock lock' : Option ι} {pc : Pc}
    {next : CallerState} (hl : lock = some i ↔ pc.critical = true)
    (hs : callStep i n r o lock d pc = some (next, lock', d')) :
    (lock' = some i ↔ next.inside = true) ∧ ∀ j, j ≠ i → (lock' = some j ↔ lock = some j) := by
  cases pc <;> cases r <;> grind [callStep, Pc.critical, CallerState.inside]

/-- The holder of the mutex is the one caller inside it. -/
def Bus.Exclusive (s : Bus ι) : Prop := ∀ i, s.lock = some i ↔ (s.callers i).state.inside = true

theorem CallerState.inside_of_prepares {state : CallerState} {p : BitVec 16 × Bool} (h : state.prepares = some p) :
    state.inside = true := by
  unfold CallerState.prepares at h
  split at h <;> first | rfl | cases h

theorem CallerState.inside_of_sets {state : CallerState} {count : BitVec 16} (h : state.sets = some count) :
    state.inside = true := by
  unfold CallerState.sets at h
  split at h <;> first | rfl | cases h

theorem Bus.Exclusive.busStep {s s' : Bus ι} {a : Action ι} (h : s.Exclusive) (hs : busStep s a = some s') :
    s'.Exclusive := by
  intro j
  cases a with
  | call i r =>
    simp only [Driver.busStep] at hs
    split at hs
    · cases hs
    · rename_i hrun
      cases hs
      by_cases hij : j = i
      · subst hij
        have hout : (s.callers j).state.inside = false := by
          cases hst : (s.callers j).state with
          | running r' pc => exact absurd hst (hrun r' pc)
          | idle => rfl
          | returned r' v => rfl
        simp only [Function.update_self, h j, hout]
        rfl
      · simp only [Function.update_of_ne hij]
        exact h j
  | step i o =>
    simp only [Driver.busStep] at hs
    split at hs
    · rename_i r pc hst
      obtain ⟨⟨next, lock, d⟩, hcs, rfl⟩ := Option.map_eq_some_iff.1 hs
      have hi := h i
      rw [hst] at hi
      obtain ⟨hself, hothers⟩ := callStep_lock hi hcs
      by_cases hij : j = i
      · subst hij
        simp only [Function.update_self]
        exact hself
      · simp only [Function.update_of_ne hij]
        exact (hothers j hij).trans (h j)
    · cases hs
  | isr =>
    obtain ⟨d, -, rfl⟩ := Option.map_eq_some_iff.1 hs
    exact h j
  | event e =>
    obtain ⟨d, -, rfl⟩ := Option.map_eq_some_iff.1 hs
    exact h j

omit [DecidableEq ι] in
theorem Bus.Exclusive.eq {s : Bus ι} (h : s.Exclusive) {i j : ι} (hi : (s.callers i).state.inside = true)
    (hj : (s.callers j).state.inside = true) : i = j := by
  have hli := (h i).2 hi
  rw [(h j).2 hj] at hli
  exact (Option.some.inj hli).symm

/-! ## The invariant -/

/-- A START is prepared: nothing is due or raised, and `g_len` and CNT are what it takes. -/
structure Dated.Ready (t : Dated ι) (count : BitVec 16) (cntSet : Bool) : Prop where
  late : t.late = t.bus.dev.transfers.length
  raised : t.bus.dev.raised = 0
  gLen : t.bus.dev.gLen = count
  cnt : cntSet = true → t.bus.dev.cnt = count

structure Dated.Inv (t : Dated ι) : Prop where
  exclusive : t.bus.Exclusive
  hand : t.bus.dev.InHand
  balance : t.bus.dev.due t.late + t.bus.dev.raised ≤ t.bus.dev.gLen.toNat
  index : t.bus.dev.gLen.toNat + t.bus.dev.isr.lowered ≤ 2
  ready : ∀ i count cntSet, (t.bus.callers i).state.prepares = some (count, cntSet) → t.Ready count cntSet

omit [DecidableEq ι] in
theorem Dated.Inv.init : Dated.Inv ({} : Dated ι) where
  exclusive i := by
    constructor
    · intro h
      cases h
    · intro h
      cases h
  hand := ⟨trivial, nofun, nofun, nofun⟩
  balance := le_rfl
  index := Nat.zero_le 2
  ready := nofun

theorem toNat_sub_one_of_pos {x : BitVec 16} (h : 0 < x.toNat) : (x - 1).toNat + 1 = x.toNat := by
  bv_omega

omit [DecidableEq ι] in
theorem Dated.Inv.isrStep {t : Dated ι} (h : t.Inv) {d : Dev ι} (hs : isrStep t.bus.dev = some d) :
    Dated.Inv ⟨{ t.bus with dev := d }, t.late⟩ := by
  obtain ⟨hexcl, hhand, hbalance, hindex, hready⟩ := h
  obtain ⟨htransfers, -⟩ := isrStep_frame hs
  have hdue : d.due t.late = t.bus.dev.due t.late := by rw [Dev.due, Dev.due, htransfers]
  have hcnt := (isrStep_args hs).2.1
  rcases isrStep_counts hhand hs with ⟨hlen, hraised, hlow⟩ | ⟨hlen, hraised, hlow⟩
  · refine ⟨hexcl, hhand.isrStep hs, ?_, ?_, ?_⟩
    · show d.due t.late + d.raised ≤ d.gLen.toNat
      rwa [hdue, hraised, hlen]
    · show d.gLen.toNat + d.isr.lowered ≤ 2
      rw [hlen, hlow]
      omega
    · intro i count cntSet hprep
      obtain ⟨h1, h2, h3, h4⟩ := hready i count cntSet hprep
      exact ⟨h1.trans (by rw [htransfers]), hraised.trans h2, hlen.trans h3, fun hset => hcnt.trans (h4 hset)⟩
  · have hpos : 0 < t.bus.dev.gLen.toNat := by omega
    have hsub := toNat_sub_one_of_pos hpos
    refine ⟨hexcl, hhand.isrStep hs, ?_, ?_, ?_⟩
    · show d.due t.late + d.raised ≤ d.gLen.toNat
      rw [hdue, hlen]
      omega
    · show d.gLen.toNat + d.isr.lowered ≤ 2
      rw [hlen]
      omega
    · intro i count cntSet hprep
      -- nothing was raised that could have been counted
      have hnone := (hready i count cntSet hprep).raised
      omega

theorem Dated.Inv.eventStep {t : Dated ι} (h : t.Inv) {e : Event} (hg : t.InTime (.event e)) {d : Dev ι}
    (hs : eventStep t.bus.dev e = some d) : Dated.Inv ⟨{ t.bus with dev := d }, e.nextLate t.late⟩ := by
  obtain ⟨hexcl, hhand, hbalance, hindex, hready⟩ := h
  obtain ⟨hsum, hprepared⟩ := eventStep_counts hhand hs hg
  obtain ⟨-, hcnt, -, hlen, -, hisr⟩ := eventStep_args hs
  refine ⟨hexcl, hhand.eventStep hs, ?_, ?_, ?_⟩
  · show d.due (e.nextLate t.late) + d.raised ≤ d.gLen.toNat
    rwa [hsum, hlen]
  · show d.gLen.toNat + d.isr.lowered ≤ 2
    rwa [hlen, hisr]
  · intro i count cntSet hprep
    obtain ⟨h1, h2, h3, h4⟩ := hready i count cntSet hprep
    obtain ⟨hlate, hraised⟩ := hprepared h1
    exact ⟨hlate, hraised.trans h2, hlen.trans h3, fun hset => hcnt.trans (h4 hset)⟩

/-- A step of a call: while its caller is inside the mutex, nobody else prepares a START. -/
theorem Dated.Inv.callStep {t : Dated ι} (h : t.Inv) {i : ι} {o : Outcome} (hg : t.InTime (.step i o))
    {r : Request} {pc : Pc} (hst : (t.bus.callers i).state = .running r pc) {next : CallerState} {lock : Option ι}
    {d : Dev ι} (hs : callStep i (t.bus.callers i).calls r o t.bus.lock t.bus.dev pc = some (next, lock, d))
    (hexcl : Bus.Exclusive ⟨Function.update t.bus.callers i ⟨(t.bus.callers i).calls, next⟩, lock, d⟩) :
    Dated.Inv ⟨⟨Function.update t.bus.callers i ⟨(t.bus.callers i).calls, next⟩, lock, d⟩,
      t.nextLate (.step i o)⟩ := by
  have honly : ∀ {j : ι} {p : BitVec 16 × Bool}, (t.bus.callers i).state.inside = true →
      (Function.update t.bus.callers i ⟨(t.bus.callers i).calls, next⟩ j).state.prepares = some p →
        next.prepares = some p := by
    intro j p hin hprep
    by_cases hij : j = i
    · rwa [hij, Function.update_self] at hprep
    · rw [Function.update_of_ne hij] at hprep
      exact absurd (h.exclusive.eq (CallerState.inside_of_prepares hprep) hin) hij
  have hkeep : (t.bus.callers i).state.sets = none → t.nextLate (.step i o) = t.late := by
    intro hsets
    rw [Dated.nextLate, hsets]
    rfl
  have hbalance : t.bus.dev.SameIndex d → d.due t.late + d.raised ≤ d.gLen.toNat := by
    intro same
    rw [same.due, same.raised, same.gLen]
    exact h.balance
  have hindex : t.bus.dev.SameIndex d → d.gLen.toNat + d.isr.lowered ≤ 2 := by
    intro same
    rw [same.gLen, same.isr]
    exact h.index
  have hstep := callStep_index hs
  rw [← hst] at hstep
  cases hstep with
  | set count sets prepares bound dev =>
    obtain ⟨hcounted, hindex⟩ := hg count sets
    have hlate : t.nextLate (.step i o) = t.bus.dev.transfers.length := by
      rw [Dated.nextLate, sets]
      rfl
    have hcount : prvSetCountLen count = count := by
      rcases bound with rfl | rfl
      · rfl
      · rfl
    subst dev
    rw [hlate]
    refine ⟨hexcl, h.hand.congr rfl rfl, ?_, ?_, ?_⟩
    · show ((t.bus.dev.transfers.drop t.bus.dev.transfers.length).map Transfer.left).sum + t.bus.dev.raised ≤ _
      rw [List.drop_length, hcounted]
      exact Nat.zero_le _
    · show (prvSetCountLen count).toNat + t.bus.dev.isr.lowered ≤ 2
      omega
    · intro j count' cntSet hprep
      have hp := honly (CallerState.inside_of_sets sets) hprep
      rw [prepares] at hp
      cases hp
      exact ⟨rfl, hcounted, hcount, nofun⟩
  | prepare count b sets before prepares same cnt =>
    obtain ⟨h1, h2, h3, h4⟩ := h.ready i count b before
    rw [hkeep sets]
    refine ⟨hexcl, h.hand.congr same.isr same.status, hbalance same, hindex same, ?_⟩
    intro j count' cntSet hprep
    have hp := honly (CallerState.inside_of_prepares before) hprep
    rw [prepares] at hp
    cases hp
    exact ⟨h1.trans (by rw [same.transfers]), same.raised.trans h2, same.gLen.trans h3, fun _ => cnt h4⟩
  | start count u sets before prepares left dev =>
    obtain ⟨h1, h2, h3, h4⟩ := h.ready i count true before
    subst dev
    rw [hkeep sets]
    refine ⟨hexcl, h.hand.congr rfl rfl, ?_, h.index, ?_⟩
    · show (((t.bus.dev.transfers ++ [u]).drop t.late).map Transfer.left).sum + t.bus.dev.raised ≤ t.bus.dev.gLen.toNat
      rw [h1, List.drop_left, h2, h3, List.map_singleton, List.sum_singleton, left, h4 rfl]
      exact le_rfl
    · intro j count' cntSet hprep
      have hp := honly (CallerState.inside_of_prepares before) hprep
      rw [prepares] at hp
      cases hp
  | other sets before prepares same cnt =>
    rw [hkeep sets]
    refine ⟨hexcl, h.hand.congr same.isr same.status, hbalance same, hindex same, ?_⟩
    intro j count cntSet hprep
    by_cases hij : j = i
    · simp only [hij, Function.update_self, prepares] at hprep
      cases hprep
    · simp only [Function.update_of_ne hij] at hprep
      obtain ⟨h1, h2, h3, h4⟩ := h.ready j count cntSet hprep
      exact ⟨h1.trans (by rw [same.transfers]), same.raised.trans h2, same.gLen.trans h3, fun hset => cnt.trans (h4 hset)⟩

theorem Dated.Inv.step {t t' : Dated ι} {a : Action ι} (h : t.Inv) (hg : t.InTime a) (hs : datedStep t a = some t') :
    t'.Inv := by
  obtain ⟨bus, hbus, rfl⟩ := Option.map_eq_some_iff.1 hs
  have hexcl := h.exclusive.busStep hbus
  cases a with
  | call i r =>
    simp only [busStep] at hbus
    split at hbus
    · cases hbus
    · cases hbus
      refine ⟨hexcl, h.hand, h.balance, h.index, ?_⟩
      intro j count cntSet hprep
      by_cases hij : j = i
      · subst hij
        simp only [Function.update_self] at hprep
        cases hprep
      · simp only [Function.update_of_ne hij] at hprep
        obtain ⟨h1, h2, h3, h4⟩ := h.ready j count cntSet hprep
        exact ⟨h1, h2, h3, h4⟩
  | step i o =>
    simp only [busStep] at hbus
    split at hbus
    · rename_i r pc hst
      obtain ⟨⟨next, lock, d⟩, hcs, rfl⟩ := Option.map_eq_some_iff.1 hbus
      exact h.callStep hg hst hcs hexcl
    · cases hbus
  | isr =>
    obtain ⟨d, hd, rfl⟩ := Option.map_eq_some_iff.1 hbus
    exact h.isrStep hd
  | event e =>
    obtain ⟨d, hd, rfl⟩ := Option.map_eq_some_iff.1 hbus
    exact h.eventStep hg hd

omit [DecidableEq ι] in
/-- What the ISR has in hand was raised, and is counted in `g_len`. -/
theorem Dated.Inv.indexSafe {t : Dated ι} (h : t.Inv) : t.bus.dev.IndexSafe := by
  obtain ⟨-, hhand, hbalance, hindex, -⟩ := h
  constructor
  · intro irq hi hirq hzero
    have hraised : 0 < t.bus.dev.raised := by
      have hst := hhand.rrdy irq (by rw [hi]; rfl) hirq
      simp [Dev.raised, hst, hi, Isr.rrdyCounted]
    rw [hzero] at hbalance
    simp only [BitVec.toNat_ofNat, BitVec.ofNat_eq_ofNat] at hbalance
    omega
  · intro irq hi hirq hzero
    have hraised : 0 < t.bus.dev.raised := by
      have hst := hhand.xrdy irq (by rw [hi]; rfl) hirq
      simp [Dev.raised, hst, hi, Isr.xrdyCounted]
    rw [hzero] at hbalance
    simp only [BitVec.toNat_ofNat, BitVec.ofNat_eq_ofNat] at hbalance
    omega
  · intro irq hi
    rw [hi, Isr.lowered] at hindex
    rw [← BitVec.toNat_inj, ← BitVec.toNat_inj]
    simp only [BitVec.toNat_ofNat, BitVec.ofNat_eq_ofNat]
    omega

/-- In every run, with any waits that time out and any late events, in which no event of a START is counted after
`g_len` was set again, `g_len` never wraps and `g_write` is read at 0 or 1 only. -/
theorem index_in_bounds {t : Dated ι} (h : Run datedStep Dated.InTime {} t) : t.bus.dev.IndexSafe :=
  (h.invariant Dated.Inv.init fun _ _ _ hi hg hs => hi.step hg hs).indexSafe

/-- The places only watch: the states reached are those of the system. -/
theorem dated_run_iff (s : Bus ι) :
    (∃ t : Dated ι, Run datedStep (fun _ _ => True) {} t ∧ t.bus = s) ↔ Run busStep (fun _ _ => True) {} s := by
  constructor
  · rintro ⟨t, ht, rfl⟩
    induction ht with
    | start => exact .start
    | step a _ _ hs ih =>
      obtain ⟨bus, hbus, rfl⟩ := Option.map_eq_some_iff.1 hs
      exact ih.step a trivial hbus
  · intro h
    induction h with
    | start => exact ⟨{}, .start, rfl⟩
    | step a _ _ hs ih =>
      obtain ⟨t, ht, rfl⟩ := ih
      exact ⟨⟨_, t.nextLate a⟩, ht.step a trivial (by rw [datedStep, hs]; rfl), rfl⟩

end

/-! ## Two runs -/

/-- A write whose wait for its XRDYs times out before any of them -/
def timedOutWrite : List (Action Unit) :=
  .call () (.write 0x27 0xF4 0x76) :: List.replicate 9 (.step () .met) ++
    [.step () .timeout, .step () .met, .step () .met]

/-- An XRDY of the transfer at place `k`, and `n` steps of the ISR -/
def lateXrdy (k n : Nat) : List (Action Unit) := .event (.xrdy k) :: List.replicate n .isr

/-- One of the XRDYs comes before the next call sets `g_len`, the other never; the next call's own finds 1 in `g_len`. -/
theorem index_in_bounds_after_timeout :
    ∃ t : Dated Unit, t.late = 1 ∧ t.bus.dev.isr = .xrdyLen { xrdy := true } ∧ t.bus.dev.gLen = 1 ∧
      t.bus.dev.IndexSafe := by
  have hrun : (runList datedStep Dated.InTime {} (timedOutWrite ++ lateXrdy 0 8 ++ .call () (.read 0xD0 0x76) ::
      List.replicate 8 (.step () .met) ++ lateXrdy 1 4)).map (fun t => (t.late, t.bus.dev.isr, t.bus.dev.gLen)) =
        some (1, .xrdyLen { xrdy := true }, 1) := by
    decide +kernel
  obtain ⟨t, ht, he⟩ := Option.map_eq_some_iff.1 hrun
  simp only [Prod.mk.injEq] at he
  exact ⟨t, he.1, he.2.1, he.2.2, index_in_bounds (Run.of_runList ht)⟩

/-- Both come after a read has set `g_len` to 1: the second finds 0 in it. -/
theorem not_index_in_bounds : ¬∀ s : Bus Unit, Run busStep (fun _ _ => True) {} s → s.dev.IndexSafe := by
  intro h
  have hrun : (runList busStep (fun _ _ => True) {} (timedOutWrite ++ .call () (.read 0xD0 0x76) ::
      List.replicate 4 (.step () .met) ++ lateXrdy 0 8 ++ lateXrdy 0 4)).map (fun s => (s.dev.isr, s.dev.gLen)) =
        some (.xrdyLen { xrdy := true }, 0) := by
    decide +kernel
  obtain ⟨s, hs, he⟩ := Option.map_eq_some_iff.1 hrun
  simp only [Prod.mk.injEq] at he
  exact (h s (Run.of_runList hs)).xrdy _ he.1 rfl he.2

end Td3.Driver
