/-
`cotti_i2c_init` (driver/src/cotti_i2c.c) with the values it reads and the registers it writes: whether
what it returns is true, and whether the clock it programs is the one the device tree asks for.

`prv_wakeup` is taken to return. A division by zero ends the call, as the use of an error pointer does.
-/
import Td3.Driver.I2c
import Td3.Driver.Probe

namespace Td3.Driver.I2cInit

open Probe

/-! ## Registers -/

abbrev U32 := BitVec 32


def I2C_REG_SYSC : U32 := 0x10
def I2C_REG_IRQENABLE_SET : U32 := 0x2C
def I2C_REG_CON : U32 := 0xA4
def I2C_REG_PSC : U32 := 0xB0
def I2C_REG_SCLL : U32 := 0xB4
def I2C_REG_SCLH : U32 := 0xB8

def I2C_BIT_ENABLE : U32 := 1 <<< 15
def I2C_BIT_MASTER_MODE : U32 := 1 <<< 10
def I2C_BIT_TX : U32 := 1 <<< 9

def I2C_BIT_RESET : U32 := 1 <<< 1
def I2C_BIT_WAKEUP : U32 := 1 <<< 2
def I2C_BIT_NOIDLE : U32 := 1 <<< 3
def I2C_BIT_CLKACTIVITY : U32 := 3 <<< 8

/-- The mappings the driver writes through. -/
inductive IoMap where
  | clk
  | controlModule
  | i2c
deriving DecidableEq, Repr

inductive IoWrite where
  | iowrite8 (value : BitVec 8) (map : IoMap) (offset : U32)
  | iowrite16 (value : BitVec 16) (map : IoMap) (offset : U32)
  | iowrite32 (value : U32) (map : IoMap) (offset : U32)
deriving DecidableEq, Repr

open IoWrite

/-- The value the write puts into a register. -/
def IoWrite.puts (map : IoMap) (offset : U32) : IoWrite → Option U32
  | iowrite8 value m o => if m = map ∧ o = offset then some (value.setWidth 32) else none
  | iowrite16 value m o => if m = map ∧ o = offset then some (value.setWidth 32) else none
  | iowrite32 value m o => if m = map ∧ o = offset then some value else none

/-- What a register holds after the writes, if they reach it. -/
def register (map : IoMap) (offset : U32) (writes : List IoWrite) : Option U32 :=
  (writes.filterMap (·.puts map offset)).getLast?

/-! ## cotti_i2c_init -/

/-- What the device tree, `clk_get_rate` and CON hold. -/
structure InitValues where
  clkRegOffset : U32
  bitRate : U32
  intClkRate : U32
  pins : Fin 4 → U32
  fclkRate : U32
  con : U32

/-- How a call ends: with `return 0`, through the label `pdev_error`, or not at all. -/
inductive InitExit where
  | success
  | cleanup (retval : Int)
  | errorPointer
  | divisionByZero
deriving DecidableEq, Repr

/-- What a call returns. -/
def InitExit.retval : InitExit → Option Int
  | success => some 0
  | cleanup retval => some retval
  | errorPointer => none
  | divisionByZero => none

structure InitRun where
  exit : InitExit
  state : ProbeState
  writes : List IoWrite

/-- What is left through a label; the controller keeps what was written. -/
def leave (label : Int → ProbeState → Option Int × ProbeState) (retval : Int) (s : ProbeState) (writes : List IoWrite) :
    InitRun :=
  ⟨.cleanup retval, (label retval s).2, writes⟩

/-- The writes of `prv_reset_i2c()` -/
def prvResetI2cWrites (o : ProbeResults) (con : U32) : List IoWrite :=
  [iowrite32 (con &&& ~~~I2C_BIT_ENABLE) .i2c I2C_REG_CON, iowrite32 I2C_BIT_RESET .i2c I2C_REG_SYSC,
    iowrite32 I2C_BIT_ENABLE .i2c I2C_REG_CON] ++
  if prvResetI2c o.isResetting = 0 then [iowrite32 0 .i2c I2C_REG_CON] else []

/-- `psc`, `scll` and `sclh`; `none` where a divisor is 0. -/
def clockDividers (v : InitValues) : Option (U32 × U32 × U32) :=
  if v.intClkRate = 0 then none
  else if v.bitRate * 2 = 0 then none
  else some (v.fclkRate / v.intClkRate - 1, v.intClkRate / (v.bitRate * 2) - 7, v.intClkRate / (v.bitRate * 2) - 5)

/-- The pins, and `prv_wakeup()`. -/
def wakeupWrites (v : InitValues) : List IoWrite :=
  [iowrite32 (v.pins 1) .controlModule (v.pins 0), iowrite32 (v.pins 3) .controlModule (v.pins 2),
    iowrite32 CLK_I2C2_ENABLE .clk v.clkRegOffset]

/-- The internal clock and SCL, the enable bit and the interrupts. -/
def enableWrites (psc scll sclh : U32) : List IoWrite :=
  [iowrite8 (psc.setWidth 8) .i2c I2C_REG_PSC, iowrite8 (scll.setWidth 8) .i2c I2C_REG_SCLL,
    iowrite8 (sclh.setWidth 8) .i2c I2C_REG_SCLH,
    iowrite32 (I2C_BIT_ENABLE ||| I2C_BIT_MASTER_MODE ||| I2C_BIT_TX) .i2c I2C_REG_CON,
    iowrite16 (I2C_IRQ_XRDY ||| I2C_IRQ_RRDY ||| I2C_IRQ_NACK ||| I2C_IRQ_ARDY ||| I2C_IRQ_AL) .i2c
      I2C_REG_IRQENABLE_SET]

/-- `cotti_i2c_init` up to the mapping of the controller: the way out, or what `retval` is there. -/
def mapController (o : ProbeResults) (v : InitValues) (s : ProbeState) : Except InitRun (Int × ProbeState) :=
  if o.hasParent = false then .error (leave pdevError (-1) s [])
  else if o.hasProperties = false then .error (leave pdevError (-1) s [])
  else
    let retval := o.readProperties
    if retval ≠ 0 then .error (leave pdevError retval s [])
    else if o.parseClkNode = false then .error (leave pdevError (-1) s [])
    else
      let s := s.acquire .clkNode
      if o.parsePinmuxNode = false then .error (leave clkNodeError (-1) s [])
      else
        let s := s.acquire .pinmuxNode
        match o.clkGet with
        | .null => .error (leave pinmuxNodeError (-1) s [])
        | .error => .error ⟨.errorPointer, s, []⟩
        | .valid =>
          let s := (s.acquire .fclk).release .fclk
          if o.mapClk = false then .error (leave pinmuxNodeError (-1) { s with clkPtr := .null } [])
          else
            let s := { s.acquire .clkMap with clkPtr := .valid }
            if o.mapControlModule = false then
              .error (leave clkPtrError (-1) { s with controlModulePtr := .null } [])
            else
              let s := { s.acquire .controlModuleMap with controlModulePtr := .valid }
              match o.mapI2c with
              | .null => .error (leave controlModulePtrError (-1) { s with i2cPtr := .null } [])
              | .error => .error ⟨.errorPointer, { s with i2cPtr := .error }, wakeupWrites v⟩
              | .valid => .ok (retval, { s.acquire .i2cMap with i2cPtr := .valid })

/-- `cotti_i2c_init` once the controller is mapped. -/
def setupController (o : ProbeResults) (v : InitValues) (retval : Int) (s : ProbeState) : InitRun :=
  let writes := wakeupWrites v ++ prvResetI2cWrites o v.con
  if prvResetI2c o.isResetting ≠ 0 then leave i2cPtrError retval s writes
  else
    let writes := writes ++ [iowrite32 (I2C_BIT_CLKACTIVITY ||| I2C_BIT_NOIDLE ||| I2C_BIT_WAKEUP) .i2c I2C_REG_SYSC]
    match clockDividers v with
    | none => ⟨.divisionByZero, s, writes⟩
    | some (psc, scll, sclh) =>
      let writes := writes ++ enableWrites psc scll sclh
      if o.platformGetIrq < 0 then leave i2cPtrError o.platformGetIrq s writes
      else if o.requestIrq.retval < 0 then leave i2cPtrError o.requestIrq.retval s writes
      else ⟨.success, ((s.acquire .irq).release .pinmuxNode).release .clkNode, writes⟩

/-- `cotti_i2c_init(pdev)` -/
def cottiI2cInit (o : ProbeResults) (v : InitValues) (s : ProbeState) : InitRun :=
  match mapController o v s with
  | .error r => r
  | .ok (retval, s) => setupController o v retval s

/-! ## Resources -/

/-- Up to the mapping, the call acquires and releases what the probe's model of it does. -/
theorem mapController_probe (o : ProbeResults) (v : InitValues) (s : ProbeState) :
    Probe.cottiI2cInit o s = match mapController o v s with
      | .error r => (r.exit.retval, r.state)
      | .ok (retval, s) => cottiI2cSetup o retval s := by
  unfold Probe.cottiI2cInit mapController
  cases o.hasParent with
  | false => rfl
  | true =>
  cases o.hasProperties with
  | false => rfl
  | true =>
  dsimp only
  by_cases hread : o.readProperties = 0
  swap
  · simp only [ne_eq, hread, not_false_eq_true, if_true, if_false, Bool.true_eq_false]
    rfl
  simp only [ne_eq, hread, not_true_eq_false, if_false, Bool.true_eq_false]
  cases o.parseClkNode with
  | false => rfl
  | true =>
  cases o.parsePinmuxNode with
  | false => rfl
  | true =>
  cases o.clkGet with
  | null => rfl
  | error => rfl
  | valid =>
  cases o.mapClk with
  | false => rfl
  | true =>
  cases o.mapControlModule with
  | false => rfl
  | true =>
  cases o.mapI2c with
  | null => rfl
  | error => rfl
  | valid => rfl

/-- So does the whole call, where it divides by 0 nowhere. -/
theorem cottiI2cInit_probe {o : ProbeResults} {v : InitValues} {s : ProbeState}
    (h : (cottiI2cInit o v s).exit ≠ .divisionByZero) :
    Probe.cottiI2cInit o s = ((cottiI2cInit o v s).exit.retval, (cottiI2cInit o v s).state) := by
  rw [mapController_probe o v s]
  unfold cottiI2cInit at h ⊢
  cases hmap : mapController o v s with
  | error r => rfl
  | ok mapped =>
    rw [hmap] at h
    obtain ⟨retval, t⟩ := mapped
    dsimp only at h ⊢
    unfold setupController at h ⊢
    unfold cottiI2cSetup
    by_cases hreset : prvResetI2c o.isResetting ≠ 0
    · simp only [if_pos hreset]
      rfl
    simp only [if_neg hreset] at h ⊢
    cases hdiv : clockDividers v with
    | none =>
      rw [hdiv] at h
      exact absurd rfl h
    | some d =>
      obtain ⟨psc, scll, sclh⟩ := d
      by_cases hget : o.platformGetIrq < 0
      · simp only [if_pos hget]
        rfl
      by_cases hrequest : o.requestIrq.retval < 0
      · simp only [if_neg hget, if_pos hrequest]
        rfl
      · simp only [if_neg hget, if_neg hrequest]
        rfl

/-! ## What it tells its caller -/

/-- Every call succeeded. -/
def AllSucceed (o : ProbeResults) : Prop := o.MapsI2c ∧ o.Resets ∧ o.HasIrq

/-- The controller is enabled, and its interrupt is installed. -/
structure Running (r : InitRun) : Prop where
  con : register .i2c I2C_REG_CON r.writes = some (I2C_BIT_ENABLE ||| I2C_BIT_MASTER_MODE ||| I2C_BIT_TX)
  irqEnable : (register .i2c I2C_REG_IRQENABLE_SET r.writes).isSome = true
  irq : r.state.log.filter (·.resource = .irq) = [.acquire .irq]

/-- The call returns 0 just when every step succeeded and the controller runs, and where it leaves
through the labels it returns an error and no pointer is kept. -/
structure Truthful (o : ProbeResults) (r : InitRun) : Prop where
  zero_iff : r.exit.retval = some 0 ↔ AllSucceed o ∧ Running r
  cleanup : ∀ retval, r.exit = .cleanup retval →
    retval ≠ 0 ∧ r.state.i2cPtr = .null ∧ r.state.clkPtr = .null ∧ r.state.controlModulePtr = .null

variable {o : ProbeResults} {v : InitValues} {s : ProbeState}

/-- The call fails: its way out is an error of a label with every pointer NULL, or the use of an error
pointer. -/
def Fails (r : InitRun) : Prop :=
  (∃ retval, retval ≠ 0 ∧ r.exit = .cleanup retval ∧
    r.state.i2cPtr = .null ∧ r.state.clkPtr = .null ∧ r.state.controlModulePtr = .null) ∨ r.exit = .errorPointer

theorem fails_leave {label : Int → ProbeState → Option Int × ProbeState} {retval : Int} {writes : List IoWrite}
    (h : retval ≠ 0) (hlabel : (label retval s).2.i2cPtr = .null ∧ (label retval s).2.clkPtr = .null ∧
      (label retval s).2.controlModulePtr = .null) : Fails (leave label retval s writes) :=
  .inl ⟨retval, h, rfl, hlabel⟩

theorem truthful_of_fails {r : InitRun} (h : Fails r) (hnot : ¬ AllSucceed o) : Truthful o r := by
  rcases h with ⟨retval, hne, hexit, hnull⟩ | hexit
  · refine ⟨iff_of_false ?_ fun h => hnot h.1, ?_⟩
    · rw [hexit]
      intro h0
      exact hne (Option.some.inj h0)
    · intro retval' hexit'
      rw [hexit] at hexit'
      cases hexit'
      exact ⟨hne, hnull⟩
  · refine ⟨iff_of_false ?_ fun h => hnot h.1, ?_⟩
    · rw [hexit]
      nofun
    · rw [hexit]
      nofun

/-- Before the controller is mapped the call fails, or gets there with 0 in `retval`. -/
theorem mapController_cases (o : ProbeResults) (v : InitValues) (hs : s.log = []) :
    (¬ o.MapsI2c ∧ ∃ r, mapController o v s = .error r ∧ Fails r) ∨
      (o.MapsI2c ∧ ∃ t, mapController o v s = .ok (0, t) ∧ t.Mapped) := by
  obtain ⟨clkPtr, controlModulePtr, i2cPtr, deviceClass, deviceCreated, log⟩ := s
  cases hs
  unfold mapController ProbeResults.MapsI2c ProbeResults.MapsNodes ProbeResults.HasNodes
  cases hparent : o.hasParent with
  | false => exact .inl ⟨by simp, _, rfl, fails_leave (by decide) ⟨rfl, rfl, rfl⟩⟩
  | true =>
  cases hproperties : o.hasProperties with
  | false => exact .inl ⟨by simp, _, rfl, fails_leave (by decide) ⟨rfl, rfl, rfl⟩⟩
  | true =>
  dsimp only
  by_cases hread : o.readProperties = 0
  swap
  · rw [if_neg (by decide), if_neg (by decide), if_pos hread]
    exact .inl ⟨fun h => hread h.1.1.2.2.1, _, rfl, fails_leave hread ⟨rfl, rfl, rfl⟩⟩
  rw [if_neg (by decide), if_neg (by decide), if_neg (not_not_intro hread), hread]
  cases hclk : o.parseClkNode with
  | false => exact .inl ⟨by simp, _, rfl, fails_leave (by decide) ⟨rfl, rfl, rfl⟩⟩
  | true =>
  cases hpinmux : o.parsePinmuxNode with
  | false => exact .inl ⟨by simp, _, rfl, fails_leave (by decide) ⟨rfl, rfl, rfl⟩⟩
  | true =>
  cases hget : o.clkGet with
  | null => exact .inl ⟨by simp, _, rfl, fails_leave (by decide) ⟨rfl, rfl, rfl⟩⟩
  | error => exact .inl ⟨by simp, _, rfl, .inr rfl⟩
  | valid =>
  cases hmapClk : o.mapClk with
  | false => exact .inl ⟨by simp, _, rfl, fails_leave (by decide) ⟨rfl, rfl, rfl⟩⟩
  | true =>
  cases hmapControl : o.mapControlModule with
  | false => exact .inl ⟨by simp, _, rfl, fails_leave (by decide) ⟨rfl, rfl, rfl⟩⟩
  | true =>
  cases hmap : o.mapI2c with
  | null => exact .inl ⟨by simp, _, rfl, fails_leave (by decide) ⟨rfl, rfl, rfl⟩⟩
  | error => exact .inl ⟨by simp, _, rfl, .inr rfl⟩
  | valid => exact .inr ⟨by simp, _, rfl, rfl, rfl, rfl, rfl⟩

theorem register_append (map : IoMap) (offset : U32) (ws ws' : List IoWrite) :
    register map offset (ws ++ ws') = (register map offset ws').or (register map offset ws) := by
  rw [register, register, register, List.filterMap_append, List.getLast?_append]

/-- What the controller's registers hold in the end. -/
theorem register_enableWrites (ws : List IoWrite) (psc scll sclh : U32) :
    register .i2c I2C_REG_PSC (ws ++ enableWrites psc scll sclh) = some ((psc.setWidth 8).setWidth 32) ∧
      register .i2c I2C_REG_SCLL (ws ++ enableWrites psc scll sclh) = some ((scll.setWidth 8).setWidth 32) ∧
      register .i2c I2C_REG_SCLH (ws ++ enableWrites psc scll sclh) = some ((sclh.setWidth 8).setWidth 32) ∧
      register .i2c I2C_REG_CON (ws ++ enableWrites psc scll sclh) =
        some (I2C_BIT_ENABLE ||| I2C_BIT_MASTER_MODE ||| I2C_BIT_TX) ∧
      (register .i2c I2C_REG_IRQENABLE_SET (ws ++ enableWrites psc scll sclh)).isSome = true := by
  simp only [register_append]
  exact ⟨rfl, rfl, rfl, rfl, rfl⟩

/-- The ways on from the mapping: the reset times out, a divisor is 0, the interrupt fails, or the
controller runs. -/
theorem setupController_cases (o : ProbeResults) (v : InitValues) {t : ProbeState} (ht : t.Mapped) :
    (¬ o.Resets ∧ (setupController o v 0 t).exit = .cleanup 0) ∨
      (o.Resets ∧ clockDividers v = none ∧ (setupController o v 0 t).exit = .divisionByZero ∧
        ¬ Running (setupController o v 0 t)) ∨
      ∃ psc scll sclh, o.Resets ∧ clockDividers v = some (psc, scll, sclh) ∧
        ((¬ o.HasIrq ∧ Fails (setupController o v 0 t)) ∨
          (o.HasIrq ∧ (setupController o v 0 t).exit = .success ∧ Running (setupController o v 0 t) ∧
            ∃ ws, (setupController o v 0 t).writes = ws ++ enableWrites psc scll sclh)) := by
  unfold setupController
  by_cases hreset : o.Resets
  swap
  · rw [if_pos fun h0 => hreset ((prvResetI2c_eq_zero_iff o).1 h0)]
    exact .inl ⟨hreset, rfl⟩
  have hzero := (prvResetI2c_eq_zero_iff o).2 hreset
  rw [if_neg (not_not_intro hzero)]
  refine .inr ?_
  cases hdiv : clockDividers v with
  | none =>
    refine .inl ⟨hreset, rfl, rfl, ?_⟩
    rintro ⟨hcon, -, -⟩
    -- the reset leaves CON at 0
    rw [prvResetI2cWrites, if_pos hzero] at hcon
    simp only [register_append] at hcon
    exact absurd (Option.some.inj hcon) (by decide)
  | some d =>
    obtain ⟨psc, scll, sclh⟩ := d
    refine .inr ⟨psc, scll, sclh, hreset, rfl, ?_⟩
    by_cases hget : o.platformGetIrq < 0
    · refine .inl ⟨fun hirq => absurd hirq.1 (not_le.2 hget), ?_⟩
      simp only [if_pos hget]
      exact fails_leave hget.ne ⟨rfl, rfl, rfl⟩
    by_cases hrequest : o.requestIrq.retval < 0
    · refine .inl ⟨?_, ?_⟩
      · rintro ⟨-, hok⟩
        rw [hok] at hrequest
        exact absurd hrequest (by decide)
      · simp only [if_neg hget, if_pos hrequest]
        exact fails_leave hrequest.ne ⟨rfl, rfl, rfl⟩
    refine .inr ⟨⟨not_lt.1 hget, ?_⟩, ?_⟩
    · by_contra hne
      exact hrequest (CallResult.retval_neg hne)
    · simp only [if_neg hget, if_neg hrequest]
      obtain ⟨-, -, -, hcon, hirqEnable⟩ := register_enableWrites (wakeupWrites v ++ prvResetI2cWrites o v.con ++
        [iowrite32 (I2C_BIT_CLKACTIVITY ||| I2C_BIT_NOIDLE ||| I2C_BIT_WAKEUP) .i2c I2C_REG_SYSC]) psc scll sclh
      refine ⟨trivial, ⟨hcon, hirqEnable, ?_⟩, _, rfl⟩
      show (t.log ++ _ ++ _ ++ _).filter _ = _
      rw [ht.log]
      rfl

/-- The call is truthful exactly if it does not come as far as a reset that times out: 0 is left in
`retval` there from the last read of a property. -/
theorem cottiI2cInit_truthful_iff (o : ProbeResults) (v : InitValues) (s : ProbeState) :
    Truthful o (cottiI2cInit o v { s with log := [] }) ↔ ¬ (o.MapsI2c ∧ ¬ o.Resets) := by
  rcases mapController_cases o v (s := { s with log := [] }) rfl with ⟨hmap, r, hr, hfails⟩ | ⟨hmap, t, ht, hmapped⟩
  · rw [cottiI2cInit, hr]
    exact iff_of_true (truthful_of_fails hfails fun h => hmap h.1) fun h => hmap h.1
  · rw [cottiI2cInit, ht]
    show Truthful o (setupController o v 0 t) ↔ _
    rcases setupController_cases o v hmapped with ⟨hreset, hexit⟩ | ⟨hreset, -, hexit, hnot⟩ |
        ⟨psc, scll, sclh, hreset, -, ⟨hirq, hfails⟩ | ⟨hirq, hexit, hrunning, -⟩⟩
    · exact iff_of_false (fun h => (h.cleanup 0 hexit).1 rfl) fun h => h ⟨hmap, hreset⟩
    · refine iff_of_true ⟨iff_of_false ?_ fun h => hnot h.2, ?_⟩ fun h => h.2 hreset
      · rw [hexit]
        nofun
      · rw [hexit]
        nofun
    · exact iff_of_true (truthful_of_fails hfails fun h => hirq h.2.2) fun h => h.2 hreset
    · refine iff_of_true ⟨iff_of_true ?_ ⟨⟨hmap, hreset, hirq⟩, hrunning⟩, ?_⟩ fun h => h.2 hreset
      · rw [hexit]
        rfl
      · rw [hexit]
        nofun

/-- The device tree of the board, with its clock of 48 MHz. -/
def exampleValues : InitValues := ⟨12, 100000, 12000000, ![0x154, 0x32, 0x150, 0x32], 48000000, 0⟩

/-- The controller does not come out of its reset. -/
theorem not_cottiI2cInit_truthful : ¬ ∀ (o : ProbeResults) (v : InitValues) (s : ProbeState),
    Truthful o (cottiI2cInit o v { s with log := [] }) := by
  intro h
  have hexit : (cottiI2cInit { isResetting := fun _ => true } exampleValues { log := [] }).exit = .cleanup 0 := by
    decide
  exact ((h { isResetting := fun _ => true } exampleValues {}).cleanup 0 hexit).1 rfl

end Td3.Driver.I2cInit
