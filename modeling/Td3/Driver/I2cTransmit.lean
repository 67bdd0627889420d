/-
The transmitting side of the I2C driver, for any way the waits end: where the XRDYs of a START are, and
which bytes of `g_write` are still to go into DATA.
-/
import Td3.Driver.I2cRead

namespace Td3.Driver

/-! ## Where the XRDY is -/

/-- The ISR has an XRDY in hand that it has not written a byte for. -/
def Isr.xrdyPre : Isr → Bool
  | .ardy irq | .rrdyLen irq | .rrdyStore irq | .rrdyComplete irq | .xrdyLen irq => irq.xrdy
  | .xrdyWrite _ => true
  | _ => false

/-- The ISR has written a byte for an XRDY it has still to acknowledge. -/
def Isr.xrdyHeld : Isr → Bool
  | .ack irq => irq.xrdy
  | _ => false

/-- The ISR has lowered `g_len` for a byte it is about to write. -/
def Isr.lowered : Isr → Nat
  | .xrdyWrite _ => 1
  | _ => 0

/-- The bytes a call puts on the bus, in their order. -/
def Request.bytes : Request → List (BitVec 8)
  | .read address _ => [address]
  | .write value regAddress _ => [regAddress, value]

/-- The same, each with the slave address it goes to. -/
def Request.wire (r : Request) : List (BitVec 8 × BitVec 8) := r.bytes.map fun b => (r.slave, b)

section
variable {ι : Type}

/-- The data events owed to all transfers. -/
def Dev.owed (d : Dev ι) : Nat := (d.transfers.map Transfer.left).sum

/-- 1 while an XRDY was raised and no byte is written for it. -/
def Dev.pending (d : Dev ι) : Nat := if d.status.xrdy && !d.isr.xrdyHeld then 1 else 0

/-- What the outstanding XRDYs will put on the bus, the upper value of `g_write` first. -/
def Dev.unsent (d : Dev ι) : List (BitVec 8 × BitVec 8) :=
  (List.range (d.pending + d.owed)).reverse.map fun j => (d.slave, d.gWrite j)

/-- No XRDY is on its way to the ISR. -/
structure NoXrdy (d : Dev ι) : Prop where
  pre : d.isr.xrdyPre = false
  stale : d.status.xrdy = true → d.isr.xrdyHeld = true

/-- A transmission that leaves the bus at `all`: `g_len` counts the bytes left, and once the ARDY is
in the ISR's hand no XRDY is outside it. -/
structure Sending (all : List (BitVec 8 × BitVec 8)) (d : Dev ι) : Prop where
  hand : d.isr.xrdyPre = true ∨ d.isr.xrdyHeld = true → d.status.xrdy = true
  ok : ∀ irq, d.isr = .xrdyWrite irq → irq.xrdy = true
  len : d.gLen.toNat + d.isr.lowered = d.pending + d.owed
  most : d.pending + d.owed ≤ 2
  wire : d.sent ++ d.unsent = all
  fresh : d.isr.ardyPre = true ∨ 0 < d.compStop → d.status.xrdy = true →
    d.isr.xrdyPre = true ∨ d.isr.xrdyHeld = true

/-- The stores a call has made when it is at a place before the START. -/
structure Prepared (r : Request) (pc : Pc) (d : Dev ι) : Prop where
  slave : pc ≠ .setSlave → d.slave = r.slave
  len : pc ∉ [.setSlave, .setLen] → d.gLen.toNat = r.bytes.length
  cnt : pc ∉ [.setSlave, .setLen, .setCnt] → d.cnt.toNat = r.bytes.length
  reg : ∀ value regAddress slave, r = .write value regAddress slave →
    pc ∉ [.setSlave, .setLen, .setCnt, .storeReg] → d.gWrite 1 = regAddress
  val : pc ∉ [.setSlave, .setLen, .setCnt, .storeReg, .storeVal] → r.bytes.getLast? = some (d.gWrite 0)

/-- The ISR has lowered `g_len` for an RRDY that it has not completed `comp_read` for. -/
def Isr.rrdyLate : Isr → Bool
  | .rrdyStore _ | .rrdyComplete _ => true
  | _ => false

/-- `g_len` counts the byte of a reception until the ISR has it. -/
def RxLen (d : Dev ι) : Prop := d.gLen = if d.compRead = 0 ∧ d.isr.rrdyLate = false then 1 else 0

/-- The bus at `all`, with nothing left in `g_len`. -/
def Rest (all : List (BitVec 8 × BitVec 8)) (d : Dev ι) : Prop := NoXrdy d ∧ d.sent = all ∧ d.gLen = 0

/-- Call `r` at its place `pc` in the mutex, the bus being at `base` when it took it: what it has put on
the bus, and what is left in `g_len`. -/
def Wire (base : List (BitVec 8 × BitVec 8)) (r : Request) (d : Dev ι) : Pc → Prop
  | .waitLen | .waitStopTx => Sending (base ++ r.wire) d
  | .waitRead => NoXrdy d ∧ d.sent = base ++ r.wire ∧ RxLen d
  | .setCntRx | .startRx => NoXrdy d ∧ d.sent = base ++ r.wire ∧ d.gLen = 1
  | .reinitStopTx _ | .setLenRx | .waitStopRx | .reinitRead _ | .reinitStopRx _ | .unlock _ | .load =>
    Rest (base ++ r.wire) d
  | pc => NoXrdy d ∧ d.sent = base ∧ Prepared r pc d

/-! ## The ISR -/

theorem Dev.unsent_succ {d : Dev ι} {m : Nat} (h : d.pending + d.owed = m + 1) :
    d.unsent = (d.slave, d.gWrite m) :: (List.range m).reverse.map fun j => (d.slave, d.gWrite j) := by
  simp only [Dev.unsent, h, List.range_succ, List.reverse_append, List.reverse_cons, List.reverse_nil,
    List.nil_append, List.cons_append, List.map_cons]

theorem NoXrdy.isrStep {d d' : Dev ι} (h : NoXrdy d) (hs : isrStep d = some d') : NoXrdy d' ∧ d'.sent = d.sent := by
  obtain ⟨h1, h2⟩ := h
  unfold Driver.isrStep at hs
  split at hs <;> simp only [Option.some.injEq] at hs <;> subst hs <;> refine ⟨⟨?_, ?_⟩, ?_⟩ <;>
    grind [Isr.xrdyPre, Isr.xrdyHeld, IrqStatus.ack]

/-- What a step of the ISR does to a transmission, without an RRDY in its way: the byte for an XRDY
goes out in two steps, and the rest leaves `g_len`, the events owed and the bytes sent as they are. -/
theorem Sending.isrStep {all : List (BitVec 8 × BitVec 8)} {d d' : Dev ι} (h : Sending all d)
    (hn : d.isr.rrdyPre = false) (hs : isrStep d = some d') : Sending all d' := by
  obtain ⟨hand, ok, len, most, wire, fresh⟩ := h
  unfold Driver.isrStep at hs
  split at hs <;> rename_i hi <;> simp only [Option.some.injEq] at hs <;> subst hs
  case h_8 irq =>
    have hx : d.status.xrdy = true := hand (by simp [hi, Isr.xrdyPre])
    have hp : d.pending = 1 := by simp [Dev.pending, hx, hi, Isr.xrdyHeld]
    have hl : d.gLen.toNat = d.owed := by
      simp only [hi, Isr.lowered, hp] at len
      omega
    have hm : d.owed ≤ 2 := by omega
    have hu := Dev.unsent_succ (d := d) (show d.pending + d.owed = d.owed + 1 by omega)
    rw [hu] at wire
    refine ⟨by simp [hx], by rintro _ ⟨⟩, ?_, ?_, ?_, ?_⟩ <;>
      simp_all [Isr.lowered, Isr.xrdyHeld, Isr.xrdyPre, Dev.pending, Dev.unsent, Dev.owed]
  case h_7 irq =>
    split
    · rename_i hx
      have hst : d.status.xrdy = true := hand (by simp [hi, Isr.xrdyPre, hx])
      have hp : d.pending = 1 := by simp [Dev.pending, hst, hi, Isr.xrdyHeld]
      have hl : (d.gLen - 1).toNat + 1 = d.gLen.toNat := by
        simp only [hi, Isr.lowered, hp] at len
        bv_omega
      refine ⟨by simp [hst], by simp [hx], ?_, ?_, ?_, ?_⟩ <;>
        simp_all [Isr.lowered, Isr.xrdyHeld, Isr.xrdyPre, Dev.pending, Dev.unsent, Dev.owed]
    · rename_i hx
      refine ⟨?_, by rintro _ ⟨⟩, ?_, ?_, ?_, ?_⟩ <;>
        simp_all [Isr.lowered, Isr.xrdyHeld, Isr.xrdyPre, Dev.pending, Dev.unsent, Dev.owed, Isr.ardyPre]
  case h_2 =>
    split
    · refine ⟨?_, by rintro _ ⟨⟩, ?_, ?_, ?_, ?_⟩ <;>
        simp_all [Isr.lowered, Isr.xrdyHeld, Isr.xrdyPre, Dev.pending, Dev.unsent, Dev.owed, Isr.ardyPre]
    · refine ⟨?_, by rintro _ ⟨⟩, ?_, ?_, ?_, ?_⟩ <;>
        simp_all [Isr.lowered, Isr.xrdyHeld, Isr.xrdyPre, Dev.pending, Dev.unsent, Dev.owed, Isr.ardyPre]
  case h_3 irq =>
    refine ⟨?_, by rintro _ ⟨⟩, ?_, ?_, ?_, ?_⟩
    case refine_5 =>
      -- the completion counted here is that of the ARDY in hand
      simp only [hi, Isr.ardyPre, Isr.xrdyPre, Isr.xrdyHeld] at fresh ⊢
      rintro (hp | hc) hx
      · cases hp
      · refine fresh ?_ hx
        cases ha : irq.ardy with
        | true => exact .inl rfl
        | false => exact .inr (by simpa [ha] using hc)
    all_goals
      simp_all [Isr.lowered, Isr.xrdyHeld, Isr.xrdyPre, Dev.pending, Dev.unsent, Dev.owed]
  all_goals
    refine ⟨?_, ?_, ?_, ?_, ?_, ?_⟩ <;>
      simp_all [Isr.lowered, Isr.xrdyHeld, Isr.xrdyPre, Dev.pending, Dev.unsent, Dev.owed, Isr.ardyPre, Isr.rrdyPre,
        IrqStatus.ack]

theorem isrStep_args {d d' : Dev ι} (hs : isrStep d = some d') :
    d'.slave = d.slave ∧ d'.cnt = d.cnt ∧ d'.gWrite = d.gWrite ∧
      (d.isr.rrdyPre = false → d.isr.xrdyPre = false → d'.gLen = d.gLen) := by
  unfold Driver.isrStep at hs
  split at hs <;> simp only [Option.some.injEq] at hs <;> subst hs <;>
    grind [Isr.rrdyPre, Isr.xrdyPre]

theorem Prepared.congr {r : Request} {pc : Pc} {d d' : Dev ι} (h : Prepared r pc d) (h1 : d'.slave = d.slave)
    (h2 : d'.cnt = d.cnt) (h3 : d'.gWrite = d.gWrite) (h4 : d'.gLen = d.gLen) : Prepared r pc d' := by
  obtain ⟨p1, p2, p3, p4, p5⟩ := h
  constructor <;> simpa only [h1, h2, h3, h4]

theorem RxLen.isrStep {i : ι} {n : Nat} {d d' : Dev ι} (h : RxLen d) (ht : ReadToken i n d) (hx : NoXrdy d)
    (hs : isrStep d = some d') : RxLen d' := by
  have hpre := hx.pre
  unfold Driver.isrStep at hs
  split at hs <;> simp only [Option.some.injEq] at hs <;> subst hs <;>
    grind [RxLen, ReadToken, Isr.rrdyLate, Isr.rrdyPre, Isr.xrdyPre]

/-- Outside a reception no RRDY is on its way. -/
theorem PhaseInv.noRead {p : Phase ι} {d : Dev ι} (h : PhaseInv p d) (hp : ∀ i n, p ≠ .receiving i n) : NoRead d := by
  cases p with
  | quiet => exact Quiet.noRead h
  | transmitting => exact Transmitting.noRead h
  | between => exact h.1.noRead
  | primed => exact h.1.noRead
  | receiving i n => exact absurd rfl (hp i n)
  | stopping i n => exact h.2.1
  | done i n => exact h.1.noRead
  | failed => exact h.elim

theorem Wire.isrStep {base : List (BitVec 8 × BitVec 8)} {i : ι} {n : Nat} {r : Request} {pc : Pc} {d d' : Dev ι}
    (h : Wire base r d pc) (hp : PhaseInv (pc.phase i n r) d) (hs : isrStep d = some d') : Wire base r d' pc := by
  obtain ⟨hslave, hcnt, hw, hl⟩ := isrStep_args hs
  cases pc
  case waitLen | waitStopTx => exact Sending.isrStep h (Transmitting.noRead hp).pre hs
  case waitRead =>
    obtain ⟨hx, hsent, hlen⟩ := h
    exact ⟨(hx.isrStep hs).1, (hx.isrStep hs).2.trans hsent, hlen.isrStep hp.2 hx hs⟩
  all_goals
    obtain ⟨hx, hsent, hlast⟩ := h
    have hg := hl (hp.noRead fun _ _ hc => nomatch (Pc.phase_receiving hc).1).pre hx.pre
    refine ⟨(hx.isrStep hs).1, (hx.isrStep hs).2.trans hsent, ?_⟩
  all_goals first
    | exact hlast.congr hslave hcnt hw hg
    | exact hg.trans hlast

/-- Outside a transmission no XRDY is owed. -/
theorem PhaseInv.noTx {p : Phase ι} {d : Dev ι} (h : PhaseInv p d) (hp : p ≠ .transmitting) :
    ∀ t ∈ d.transfers, t.dir = .rx ∨ t.left = 0 := by
  cases p with
  | quiet => simp [Quiet.none h]
  | transmitting => exact absurd rfl hp
  | between => simp [h.1.none]
  | primed => simp [h.1.none]
  | receiving i n =>
    intro t ht
    cases h.2 with
    | owed transfers =>
      rw [transfers, List.mem_singleton] at ht
      rw [ht]
      exact .inl rfl
    | raised left => exact .inr (left t ht)
    | inHand left => exact .inr (left t ht)
    | stored left => exact .inr (left t ht)
    | counted left => exact .inr (left t ht)
  | stopping i n => exact fun t ht => .inr (h.2.2.1 t ht)
  | done i n => simp [h.1.none]
  | failed => exact h.elim

theorem Pc.phase_transmitting {i : ι} {n : Nat} {r : Request} {pc : Pc} (h : pc.phase i n r = .transmitting) :
    pc = .waitLen ∨ pc = .waitStopTx := by
  unfold Pc.phase at h
  split at h
  case h_1 => exact .inl rfl
  case h_2 => exact .inr rfl
  case h_11 => cases r <;> cases h
  all_goals cases h

/-- The ARDY of a transmission, taken while the handler is not running: all bytes are out. -/
theorem Sending.taken {all : List (BitVec 8 × BitVec 8)} {d : Dev ι} (h : Sending all d) (ht : Transmitting d)
    (hi : d.isr = .idle) (hc : 0 < d.compStop) : NoXrdy d ∧ d.sent = all ∧ d.gLen = 0 := by
  have hst : d.status.xrdy = false := by
    by_contra hne
    have := h.fresh (.inr hc) (by simpa using hne)
    simp [hi, Isr.xrdyPre, Isr.xrdyHeld] at this
  have hnil : d.transfers = [] := by
    cases ht.stop with
    | owed comp => omega
    | inHand comp => omega
    | counted _ _ none => exact none
  have hp : d.pending = 0 := by simp [Dev.pending, hst]
  have ho : d.owed = 0 := by simp [Dev.owed, hnil]
  refine ⟨⟨by rw [hi]; rfl, by simp [hst]⟩, ?_, ?_⟩
  · have := h.wire
    rwa [Dev.unsent, hp, ho, List.range_zero, List.reverse_nil, List.map_nil, List.append_nil] at this
  · have := h.len
    rw [hp, ho] at this
    exact BitVec.eq_of_toNat_eq (by simpa using (Nat.add_eq_zero_iff.1 this).1)

/-- An event that a transfer raises finds it alone, its ARDY not yet in the ISR's hand. -/
theorem StopToken.single {d : Dev ι} (h : StopToken d) {k : Nat} {t : Transfer ι} (ht : d.transfers[k]? = some t) :
    d.transfers = [t] ∧ k = 0 ∧ d.compStop = 0 ∧ d.isr.ardyPre = false := by
  cases h with
  | owed comp pre one stale =>
    obtain ⟨hk, rfl⟩ := List.getElem?_eq_some_iff.1 ht
    obtain rfl : k = 0 := by omega
    exact ⟨List.eq_getElem_of_length_eq_one _ (by omega), rfl, comp, pre⟩
  | inHand _ _ hnil => rw [hnil] at ht; cases ht
  | counted _ _ hnil _ => rw [hnil] at ht; cases ht

/-! ## The stores before the START -/

/-- The START of a call that has made its stores and finds no XRDY on its way. -/
theorem Prepared.startTx {r : Request} {d : Dev ι} (h : Prepared r .startTx d) (hx : NoXrdy d) (hq : Quiet d)
    (hi : d.isr = .idle) (i : ι) (n : Nat) : Sending (d.sent ++ r.wire) (d.start i n .tx) := by
  obtain ⟨hslave, hlen, hcnt, hreg, hval⟩ := h
  have hst : d.status.xrdy = false := by
    by_contra hne
    have := hx.stale (by simpa using hne)
    rw [hi] at this
    cases this
  have hp : (d.start i n .tx).pending = 0 := by simp [Dev.start, Dev.pending, hst]
  have ho : (d.start i n .tx).owed = r.bytes.length := by
    simp [Dev.start, Dev.owed, hq.none, hcnt]
  refine ⟨?_, ?_, ?_, ?_, ?_, ?_⟩
  · simp [Dev.start, hi, Isr.xrdyPre, Isr.xrdyHeld]
  · simp [Dev.start, hi]
  · rw [hp, ho]
    simpa [Dev.start, hi, Isr.lowered] using hlen
  · rw [hp, ho]
    cases r <;> simp [Request.bytes]
  · rw [Dev.unsent, hp, ho]
    cases r <;> simp_all [Request.wire, Request.bytes, Dev.start, List.range_succ]
  · simp [Dev.start, hst]

/-! ## Events and stores -/

variable [DecidableEq ι]

theorem NoXrdy.eventStep {d d' : Dev ι} {e : Event} (h : NoXrdy d)
    (htx : ∀ t ∈ d.transfers, t.dir = .rx ∨ t.left = 0) (hs : eventStep d e = some d') :
    NoXrdy d' ∧ d'.sent = d.sent := by
  obtain ⟨h1, h2⟩ := h
  rcases eventStep_cases hs with ⟨k, t, -, ht, hd, hl, -, rfl⟩ | ⟨k, t, b, -, -, -, -, -, rfl⟩ | ⟨k, t, -, -, -, rfl⟩ |
    ⟨st, -, -, hx, rfl⟩
  · rcases htx t (List.mem_of_getElem? ht) with h | h
    · rw [hd] at h; cases h
    · omega
  · exact ⟨⟨h1, h2⟩, rfl⟩
  · exact ⟨⟨h1, h2⟩, rfl⟩
  · exact ⟨⟨h1, by rwa [hx]⟩, rfl⟩

theorem Sending.eventStep {all : List (BitVec 8 × BitVec 8)} {d d' : Dev ι} {e : Event} (h : Sending all d)
    (ht : Transmitting d) (hs : eventStep d e = some d') : Sending all d' := by
  obtain ⟨hand, ok, len, most, wire, fresh⟩ := h
  rcases eventStep_cases hs with ⟨k, t, -, hk, -, hl, hx, rfl⟩ | ⟨k, t, b, -, hk, hd, -, -, rfl⟩ |
    ⟨k, t, -, hk, h0, rfl⟩ | ⟨st, -, -, hx, rfl⟩
  · obtain ⟨hone, rfl, hc, hp⟩ := ht.stop.single hk
    have hpre : d.isr.xrdyPre = false ∧ d.isr.xrdyHeld = false := by
      simpa [hx] using hand
    have hsum : 1 + (t.left - 1) = t.left := by omega
    refine ⟨fun _ => rfl, ok, ?_, ?_, ?_, ?_⟩
    · simpa [Dev.pending, Dev.owed, hone, hx, hpre.2, hsum] using len
    · simpa [Dev.pending, Dev.owed, hone, hx, hpre.2, hsum] using most
    · simpa [Dev.unsent, Dev.pending, Dev.owed, hone, hx, hpre.2, hsum] using wire
    · simp [hp, hc]
  · rw [ht.dir t (List.mem_of_getElem? hk)] at hd
    cases hd
  · obtain ⟨hone, rfl, -, -⟩ := ht.stop.single hk
    refine ⟨hand, ok, ?_, ?_, ?_, fresh⟩
    · simpa [Dev.pending, Dev.owed, hone, h0] using len
    · simpa [Dev.pending, Dev.owed, hone, h0] using most
    · simpa [Dev.unsent, Dev.pending, Dev.owed, hone, h0] using wire
  · refine ⟨by rwa [hx], ok, ?_, ?_, ?_, by rwa [hx]⟩
    · simpa [Dev.pending, Dev.owed, hx] using len
    · simpa [Dev.pending, Dev.owed, hx] using most
    · simpa [Dev.unsent, Dev.pending, Dev.owed, hx] using wire

theorem Prepared.step {r : Request} {i : ι} {n : Nat} {o : Outcome} {lock lock' : Option ι} {d d' : Dev ι}
    {pc pc' : Pc} (h : Prepared r pc d) (hpc : pc ∈ [.setSlave, .setLen, .setCnt, .storeReg, .storeVal, .clearFifo])
    (hs : callStep i n r o lock d pc = some (.running r pc', lock', d')) : Prepared r pc' d' := by
  obtain ⟨h1, h2, h3, h4, h5⟩ := h
  cases r <;> simp only [List.mem_cons, List.not_mem_nil, or_false] at hpc <;>
    rcases hpc with rfl | rfl | rfl | rfl | rfl | rfl <;> cases hs <;> constructor <;>
    simp_all [Request.slave, Request.bytes, Request.count, prvSetCountLen]

theorem eventStep_args {d d' : Dev ι} {e : Event} (hs : eventStep d e = some d') :
    d'.slave = d.slave ∧ d'.cnt = d.cnt ∧ d'.gWrite = d.gWrite ∧ d'.gLen = d.gLen ∧ d'.compRead = d.compRead ∧
      d'.isr = d.isr := by
  rcases eventStep_cases hs with ⟨k, t, -, -, -, -, -, rfl⟩ | ⟨k, t, b, -, -, -, -, -, rfl⟩ | ⟨k, t, -, -, -, rfl⟩ |
    ⟨st, -, -, -, rfl⟩ <;> exact ⟨rfl, rfl, rfl, rfl, rfl, rfl⟩

theorem Wire.eventStep {base : List (BitVec 8 × BitVec 8)} {i : ι} {n : Nat} {r : Request} {pc : Pc} {d d' : Dev ι}
    {e : Event} (h : Wire base r d pc) (hp : PhaseInv (pc.phase i n r) d) (hs : eventStep d e = some d') :
    Wire base r d' pc := by
  obtain ⟨hslave, hcnt, hw, hg, hr, hi⟩ := eventStep_args hs
  cases pc
  case waitLen | waitStopTx => exact Sending.eventStep h hp hs
  all_goals
    obtain ⟨hx, hsent, hlast⟩ := h
    have hx' := hx.eventStep (hp.noTx fun hc => by
      rcases Pc.phase_transmitting hc with hc | hc <;> cases hc) hs
    refine ⟨hx'.1, hx'.2.trans hsent, ?_⟩
  all_goals first
    | exact hlast.congr hslave hcnt hw hg
    | exact hg.trans hlast
    | (unfold RxLen at hlast ⊢; rwa [hg, hr, hi])

/-! ## A caller's step -/

/-- Only a read loads `g_read`. -/
theorem callStep_load {i : ι} {n : Nat} {r r' : Request} {o : Outcome} {lock lock' : Option ι} {d d' : Dev ι} {pc : Pc}
    (hs : callStep i n r o lock d pc = some (.running r' .load, lock', d')) : ∃ a b, r = .read a b := by
  cases r with
  | read a b => exact ⟨a, b, rfl⟩
  | write a b c => cases pc <;> grind [callStep]

theorem Wire.callStep {base : List (BitVec 8 × BitVec 8)} {i : ι} {n : Nat} {r : Request} {pc : Pc}
    {lock lock' : Option ι} {d d' : Dev ι} {next : CallerState} (hc : pc.critical = true) (hi : d.isr = .idle)
    (h : Wire base r d pc) (hp : PhaseInv (pc.phase i n r) d)
    (hs : callStep i n r .met lock d pc = some (next, lock', d')) :
    (∀ pc', next = .running r pc' → Wire base r d' pc') ∧ (∀ v, next = .returned r v → Rest (base ++ r.wire) d') := by
  cases pc with
  | poll k => cases hc
  | lock => cases hc
  | load => cases hc
  | setSlave | setLen | setCnt | storeReg | storeVal | clearFifo =>
    obtain ⟨hx, hsent, hprep⟩ := h
    constructor
    · rintro pc' rfl
      have hprep' := hprep.step (by simp) hs
      cases r <;> cases hs <;> exact ⟨⟨hx.pre, hx.stale⟩, hsent, hprep'⟩
    · rintro v rfl
      cases hs
  | startTx =>
    obtain ⟨hx, rfl, hprep⟩ := h
    cases hs
    exact ⟨fun _ hn => by cases hn; exact hprep.startTx hx hp hi i n, by rintro _ ⟨⟩⟩
  | waitLen =>
    simp only [Driver.callStep, Option.ite_none_right_eq_some, Option.some.injEq] at hs
    obtain ⟨-, hs⟩ := hs
    cases hs
    exact ⟨fun _ hn => by cases hn; exact h, by rintro _ ⟨⟩⟩
  | waitStopTx =>
    simp only [Driver.callStep, Option.ite_none_right_eq_some, Option.some.injEq] at hs
    obtain ⟨ho, hs⟩ := hs
    cases hs
    obtain ⟨hx, hsent, hlen⟩ := Sending.taken h hp hi (by simpa [Outcome.possible] using ho)
    exact ⟨fun _ hn => by cases hn; exact ⟨⟨hx.pre, hx.stale⟩, hsent, hlen⟩, by rintro _ ⟨⟩⟩
  | setLenRx =>
    obtain ⟨hx, hsent, -⟩ := h
    cases hs
    exact ⟨fun _ hn => by cases hn; exact ⟨⟨hx.pre, hx.stale⟩, hsent, rfl⟩, by rintro _ ⟨⟩⟩
  | setCntRx =>
    obtain ⟨hx, hsent, hlen⟩ := h
    cases hs
    exact ⟨fun _ hn => by cases hn; exact ⟨⟨hx.pre, hx.stale⟩, hsent, hlen⟩, by rintro _ ⟨⟩⟩
  | startRx =>
    obtain ⟨hx, hsent, hlen⟩ := h
    cases hs
    have hcomp : d.compRead = 0 := hp.1.noRead.comp
    have hlen' : RxLen (d.start i n .rx) := by
      simpa [RxLen, Dev.start, hcomp, hi, Isr.rrdyLate] using hlen
    exact ⟨fun _ hn => by cases hn; exact ⟨⟨hx.pre, hx.stale⟩, hsent, hlen'⟩, by rintro _ ⟨⟩⟩
  | waitRead =>
    simp only [Driver.callStep, Option.ite_none_right_eq_some, Option.some.injEq] at hs
    obtain ⟨ho, hs⟩ := hs
    cases hs
    obtain ⟨hx, hsent, hlen⟩ := h
    have hcomp : 0 < d.compRead := by simpa [Outcome.possible] using ho
    have hlen' : d.gLen = 0 := by
      rwa [RxLen, if_neg (by omega)] at hlen
    exact ⟨fun _ hn => by cases hn; exact ⟨⟨hx.pre, hx.stale⟩, hsent, hlen'⟩, by rintro _ ⟨⟩⟩
  | waitStopRx =>
    simp only [Driver.callStep, Option.ite_none_right_eq_some, Option.some.injEq] at hs
    obtain ⟨-, hs⟩ := hs
    cases hs
    obtain ⟨hx, hsent, hlen⟩ := h
    exact ⟨fun _ hn => by cases hn; exact ⟨⟨hx.pre, hx.stale⟩, hsent, hlen⟩, by rintro _ ⟨⟩⟩
  | reinitStopTx ok | reinitRead ok | reinitStopRx ok | unlock ok =>
    cases ok with
    | false => exact hp.elim
    | true =>
      obtain ⟨hx, hsent, hlen⟩ := h
      cases r <;> cases hs <;> constructor <;> rintro _ ⟨⟩ <;> exact ⟨⟨hx.pre, hx.stale⟩, hsent, hlen⟩

end

end Td3.Driver
