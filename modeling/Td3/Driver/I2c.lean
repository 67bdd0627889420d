/-
The I2C driver (driver/src/cotti_i2c.c) as a step system: any number of callers of
`cotti_i2c_read` and `cotti_i2c_write`, the ISR, and the controller's events, each mutex operation,
wait and access to a shared variable being one step.

A call begins here where its `prv_wakeup` has returned, which touches none of this state: a wait without a
limit, until the hardware reports that the clock is enabled (`wakeStep` has it, before the steps below).
-/
import Td3.Lib.Run

namespace Td3.Driver

/-! ## The clock -/

def CLK_I2C2_ENABLE : BitVec 32 := 0x02
def CLK_IDLEST : BitVec 32 := 3 <<< 16

/-- `prv_is_clk_disabled`, of what the clock's register holds -/
def prvIsClkDisabled (clkctrl : BitVec 32) : BitVec 32 := clkctrl &&& CLK_IDLEST

/-! ## The controller -/

/-- The bits of IRQSTATUS the driver looks at. -/
structure IrqStatus where
  bb : Bool := false
  xrdy : Bool := false
  rrdy : Bool := false
  ardy : Bool := false
  nack : Bool := false
  al : Bool := false
deriving DecidableEq, Repr

def I2C_IRQ_BB : BitVec 16 := 1 <<< 12
def I2C_IRQ_XRDY : BitVec 16 := 1 <<< 4
def I2C_IRQ_RRDY : BitVec 16 := 1 <<< 3
def I2C_IRQ_ARDY : BitVec 16 := 1 <<< 2
def I2C_IRQ_NACK : BitVec 16 := 1 <<< 1
def I2C_IRQ_AL : BitVec 16 := 1 <<< 0

def IrqStatus.word (s : IrqStatus) : BitVec 16 :=
  let bit (b : Bool) (w : BitVec 16) := if b then w else 0
  bit s.bb I2C_IRQ_BB ||| bit s.xrdy I2C_IRQ_XRDY ||| bit s.rrdy I2C_IRQ_RRDY ||| bit s.ardy I2C_IRQ_ARDY |||
    bit s.nack I2C_IRQ_NACK ||| bit s.al I2C_IRQ_AL

/-- One of the enabled interrupts: all but BB. -/
def IrqStatus.enabled (s : IrqStatus) : Bool := s.xrdy || s.rrdy || s.nack || s.ardy || s.al

/-- IRQSTATUS after a write of `irq`: the bits written as 1 are cleared, BB is read-only. -/
def IrqStatus.ack (s irq : IrqStatus) : IrqStatus where
  bb := s.bb
  xrdy := s.xrdy && !irq.xrdy
  rrdy := s.rrdy && !irq.rrdy
  ardy := s.ardy && !irq.ardy
  nack := s.nack && !irq.nack
  al := s.al && !irq.al

inductive Dir where
  | tx
  | rx
deriving DecidableEq, Repr

/-- What the controller still owes to a START: `left` data events, then one ARDY. The START is the
one of call number `call` of caller `owner`. -/
structure Transfer (ι : Type) where
  owner : ι
  call : Nat
  dir : Dir
  left : Nat
deriving DecidableEq, Repr

/-! ## The shared state -/

/-- Where the ISR is; in a pass of its loop it holds the status word it read. -/
inductive Isr where
  | idle
  | check
  | ardy (irq : IrqStatus)
  | rrdyLen (irq : IrqStatus)
  | rrdyStore (irq : IrqStatus)
  | rrdyComplete (irq : IrqStatus)
  | xrdyLen (irq : IrqStatus)
  | xrdyWrite (irq : IrqStatus)
  | ack (irq : IrqStatus)
deriving DecidableEq, Repr

/-- The driver's static variables, the ISR, and the controller's registers. `sent` are the bytes
put into DATA, each with the slave address it goes to; `received owner call` is the byte the
controller received in the transaction of that call. -/
structure Dev (ι : Type) where
  gRead : BitVec 8 := 0
  gWrite : Nat → BitVec 8 := fun _ => 0
  gLen : BitVec 16 := 0
  compRead : Nat := 0
  compStop : Nat := 0
  isr : Isr := .idle
  slave : BitVec 8 := 0
  cnt : BitVec 16 := 0
  data : BitVec 8 := 0
  status : IrqStatus := {}
  transfers : List (Transfer ι) := []
  sent : List (BitVec 8 × BitVec 8) := []
  received : ι → Nat → Option (BitVec 8) := fun _ _ => none

/-- A call of the driver. -/
inductive Request where
  | read (address slave : BitVec 8)
  | write (value regAddress slave : BitVec 8)
deriving DecidableEq, Repr

def Request.slave : Request → BitVec 8
  | .read _ slave => slave
  | .write _ _ slave => slave

/-- The count a call programs first. -/
def Request.count : Request → BitVec 16
  | .read .. => 1
  | .write .. => 2

/-- The next step of a call; `ok` tells the way out of a transaction from the way out of a
timeout. -/
inductive Pc where
  | poll (i : Nat)
  | lock
  | setSlave
  | setLen
  | setCnt
  | storeReg
  | storeVal
  | clearFifo
  | startTx
  | waitLen
  | waitStopTx
  | reinitStopTx (ok : Bool)
  | setLenRx
  | setCntRx
  | startRx
  | waitRead
  | waitStopRx
  | reinitRead (ok : Bool)
  | reinitStopRx (ok : Bool)
  | unlock (ok : Bool)
  | load
deriving DecidableEq, Repr

inductive CallerState where
  | idle
  | running (r : Request) (pc : Pc)
  | returned (r : Request) (value : Int)
deriving DecidableEq, Repr

/-- A caller, and the number of calls it has made. -/
structure Caller where
  calls : Nat := 0
  state : CallerState := .idle
deriving DecidableEq, Repr

structure Bus (ι : Type) where
  callers : ι → Caller := fun _ => {}
  lock : Option ι := none
  dev : Dev ι := {}

/-! ## The ISR -/

/-- One step of `prv_isr`: its invocation, or the next step of its loop. -/
def isrStep {ι : Type} (d : Dev ι) : Option (Dev ι) :=
  match d.isr with
  | .idle => some { d with isr := .check }
  | .check => some { d with isr := if d.status.enabled then .ardy d.status else .idle }
  | .ardy irq => some { d with compStop := if irq.ardy then d.compStop + 1 else d.compStop, isr := .rrdyLen irq }
  | .rrdyLen irq =>
    some (if irq.rrdy then { d with gLen := d.gLen - 1, isr := .rrdyStore irq } else { d with isr := .xrdyLen irq })
  | .rrdyStore irq => some { d with gRead := d.data, isr := .rrdyComplete irq }
  | .rrdyComplete irq => some { d with compRead := d.compRead + 1, isr := .xrdyLen irq }
  | .xrdyLen irq =>
    some (if irq.xrdy then { d with gLen := d.gLen - 1, isr := .xrdyWrite irq } else { d with isr := .ack irq })
  -- `wake_up_interruptible` lets the waiter look at its condition again, which it may do at any time
  | .xrdyWrite irq => some { d with sent := d.sent ++ [(d.slave, d.gWrite d.gLen.toNat)], isr := .ack irq }
  | .ack irq => some { d with status := d.status.ack irq, isr := .check }

/-! ## The controller's events -/

inductive Event where
  | xrdy (k : Nat)
  | rrdy (k : Nat) (byte : BitVec 8)
  | ardy (k : Nat)
  | nack
  | al
  | bb (busy : Bool)
deriving DecidableEq, Repr

/-- An event of the controller: a data event of the `k`-th transfer it still owes events to, once
the one before it was acknowledged; the ARDY after the last of them; or one of the others. -/
def eventStep {ι : Type} [DecidableEq ι] (d : Dev ι) : Event → Option (Dev ι)
  | .xrdy k =>
    match d.transfers[k]? with
    | some t =>
      if t.dir = .tx ∧ 0 < t.left ∧ d.status.xrdy = false then
        some { d with
          status := { d.status with xrdy := true }, transfers := d.transfers.set k { t with left := t.left - 1 } }
      else none
    | none => none
  | .rrdy k byte =>
    match d.transfers[k]? with
    | some t =>
      if t.dir = .rx ∧ 0 < t.left ∧ d.status.rrdy = false then
        some { d with
          status := { d.status with rrdy := true }, data := byte
          transfers := d.transfers.set k { t with left := t.left - 1 }
          received := Function.update d.received t.owner
            (Function.update (d.received t.owner) t.call (some byte)) }
      else none
    | none => none
  | .ardy k =>
    match d.transfers[k]? with
    | some t =>
      if t.left = 0 then some { d with status := { d.status with ardy := true }, transfers := d.transfers.eraseIdx k }
      else none
    | none => none
  | .nack => some { d with status := { d.status with nack := true } }
  | .al => some { d with status := { d.status with al := true } }
  | .bb busy => some { d with status := { d.status with bb := busy } }

/-! ## The callers -/

/-- How a wait ends: its condition holds, its time is over, or a signal arrived. -/
inductive Outcome where
  | met
  | timeout
  | interrupted
deriving DecidableEq, Repr

/-- A wait ends with `met` when its condition holds, and only then (so the other two leave a
completion, which is then 0, as it is). -/
def Outcome.possible (o : Outcome) (condition : Bool) : Bool := decide (o = .met) == condition

/-- `prv_is_irq_triggered(irq)`, which returns a `u8`. -/
def prvIsIrqTriggered (status irq : BitVec 16) : BitVec 8 := (status &&& irq).setWidth 8

/-- `prv_set_count(count)` stores this in `g_len`. -/
def prvSetCountLen (count : BitVec 16) : BitVec 16 := if count ≤ 2 then count else 2

section
variable {ι : Type}

/-- A write of CON with START. -/
def Dev.start (d : Dev ι) (owner : ι) (call : Nat) (dir : Dir) : Dev ι :=
  { d with transfers := d.transfers ++ [⟨owner, call, dir, d.cnt.toNat⟩] }

/-- One step of call number `n` of caller `i`: its next state, the mutex and the device. -/
def callStep [DecidableEq ι] (i : ι) (n : Nat) (r : Request) (o : Outcome) (lock : Option ι) (d : Dev ι) :
    Pc → Option (CallerState × Option ι × Dev ι)
  | .poll k =>
    if prvIsIrqTriggered d.status.word I2C_IRQ_BB ≠ 0 ∨ lock.isSome then
      if k = 100 then some (.returned r (-1), lock, d) else some (.running r (.poll (k + 1)), lock, d)
    else some (.running r .lock, lock, d)
  | .lock => if lock.isSome then none else some (.running r .setSlave, some i, d)
  | .setSlave => some (.running r .setLen, lock, { d with slave := r.slave })
  | .setLen => some (.running r .setCnt, lock, { d with gLen := prvSetCountLen r.count })
  | .setCnt =>
    let next := match r with | .read .. => Pc.storeVal | .write .. => .storeReg
    some (.running r next, lock, { d with cnt := r.count })
  | .storeReg =>
    let reg := match r with | .read address _ => address | .write _ regAddress _ => regAddress
    some (.running r .storeVal, lock, { d with gWrite := Function.update d.gWrite 1 reg })
  | .storeVal =>
    let value := match r with | .read address _ => address | .write value _ _ => value
    some (.running r .clearFifo, lock, { d with gWrite := Function.update d.gWrite 0 value })
  | .clearFifo => some (.running r .startTx, lock, { d with data := 0 })
  | .startTx => some (.running r .waitLen, lock, d.start i n .tx)
  | .waitLen =>
    if o.possible (d.gLen = 0) then
      some (.running r (if o = .timeout then .reinitStopTx false else .waitStopTx), lock, d)
    else none
  | .waitStopTx =>
    if o.possible (0 < d.compStop) then
      some (.running r (.reinitStopTx (o ≠ .timeout)), lock, { d with compStop := d.compStop - 1 })
    else none
  | .reinitStopTx ok =>
    let next := match r with | .read .. => if ok then Pc.setLenRx else .unlock false | .write .. => .unlock ok
    some (.running r next, lock, { d with compStop := 0 })
  | .setLenRx => some (.running r .setCntRx, lock, { d with gLen := prvSetCountLen 1 })
  | .setCntRx => some (.running r .startRx, lock, { d with cnt := 1 })
  | .startRx => some (.running r .waitRead, lock, d.start i n .rx)
  | .waitRead =>
    if o.possible (0 < d.compRead) then
      some (.running r (if o = .timeout then .reinitRead false else .waitStopRx), lock,
        { d with compRead := d.compRead - 1 })
    else none
  | .waitStopRx =>
    if o.possible (0 < d.compStop) then
      some (.running r (.reinitRead (o ≠ .timeout)), lock, { d with compStop := d.compStop - 1 })
    else none
  | .reinitRead ok => some (.running r (.reinitStopRx ok), lock, { d with compRead := 0 })
  | .reinitStopRx ok => some (.running r (.unlock ok), lock, { d with compStop := 0 })
  | .unlock ok =>
    let next := match r with
      | .read .. => if ok then CallerState.running r .load else .returned r (-1)
      | .write .. => .returned r (if ok then 0 else -1)
    some (next, none, d)
  | .load => some (.returned r d.gRead.toNat, lock, d)

/-! ## The system -/

inductive Action (ι : Type) where
  | call (i : ι) (r : Request)
  | step (i : ι) (o : Outcome)
  | isr
  | event (e : Event)
deriving DecidableEq, Repr

/-- One step of the system: a caller that is not in a call makes one, a call goes on, the ISR is
invoked or goes on, or the controller raises an event. -/
def busStep [DecidableEq ι] (s : Bus ι) : Action ι → Option (Bus ι)
  | .call i r =>
    match (s.callers i).state with
    | .running .. => none
    | _ => some { s with callers := Function.update s.callers i ⟨(s.callers i).calls + 1, .running r (.poll 0)⟩ }
  | .step i o =>
    match (s.callers i).state with
    | .running r pc =>
      (callStep i (s.callers i).calls r o s.lock s.dev pc).map fun (next, lock, dev) =>
        { callers := Function.update s.callers i ⟨(s.callers i).calls, next⟩, lock := lock, dev := dev }
    | _ => none
  | .isr => (isrStep s.dev).map fun dev => { s with dev := dev }
  | .event e => (eventStep s.dev e).map fun dev => { s with dev := dev }

end

end Td3.Driver
