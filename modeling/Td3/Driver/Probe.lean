/-
`driver_probe` and `driver_remove` (driver/src/driver.c) with the functions they call in cotti_i2c.c,
bmp280.c and char_device.c, as what they acquire and release for each way their kernel calls can end.

`class_create`, `device_create`, `clk_get` and `devm_platform_ioremap_resource` report an error by an error
pointer, which is not NULL.
-/
import Mathlib.Tactic

namespace Td3.Driver.Probe

/-! ## Kernel calls -/

/-- What a call that returns an `int` ends with: 0, or minus this error number. -/
inductive CallResult where
  | ok
  | error (errno : Nat)
deriving DecidableEq, Repr

def CallResult.retval : CallResult → Int
  | .ok => 0
  | .error errno => -(errno + 1)

/-- The pointer a call returns, or a variable holds. -/
inductive Pointer where
  | valid
  | null
  | error
deriving DecidableEq, Repr

inductive Resource where
  | clkNode
  | pinmuxNode
  | sensorNode
  | fclk
  | clkMap
  | controlModuleMap
  | i2cMap
  | irq
  | deviceName
  | chrdevRegion
  | deviceClass
  | device
  | cdev
deriving DecidableEq, Repr

instance : Fintype Resource :=
  .ofList [.clkNode, .pinmuxNode, .sensorNode, .fclk, .clkMap, .controlModuleMap, .i2cMap, .irq, .deviceName,
    .chrdevRegion, .deviceClass, .device, .cdev] (by intro r; cases r <;> decide)

inductive ResourceEvent where
  | acquire (r : Resource)
  | release (r : Resource)
deriving DecidableEq, Repr

def ResourceEvent.resource : ResourceEvent → Resource
  | .acquire r => r
  | .release r => r

/-- How the calls of one `driver_probe` end. `isResetting` is what the polls in `prv_reset_i2c` see,
`isConnected` what `bmp280_is_connected` finds on a mapped controller. -/
structure ProbeResults where
  hasParent : Bool := true
  hasProperties : Bool := true
  readClkRegOffset : CallResult := .ok
  readClkFreq : CallResult := .ok
  readIntClkFreq : CallResult := .ok
  readPins : CallResult := .ok
  parseClkNode : Bool := true
  parsePinmuxNode : Bool := true
  clkGet : Pointer := .valid
  mapClk : Bool := true
  mapControlModule : Bool := true
  mapI2c : Pointer := .valid
  isResetting : Nat → Bool := fun _ => false
  platformGetIrq : Int := 0
  requestIrq : CallResult := .ok
  getSensorNode : Bool := true
  readReg : CallResult := .ok
  isConnected : Bool := true
  kmalloc : Bool := true
  allocChrdevRegion : CallResult := .ok
  classCreate : Pointer := .valid
  deviceCreate : Pointer := .valid
  cdevAdd : CallResult := .ok

/-- The static pointers of the driver, and what was acquired and released. -/
structure ProbeState where
  clkPtr : Pointer := .null
  controlModulePtr : Pointer := .null
  i2cPtr : Pointer := .null
  deviceClass : Pointer := .null
  deviceCreated : Bool := false
  log : List ResourceEvent := []
deriving DecidableEq, Repr

def ProbeState.acquire (s : ProbeState) (r : Resource) : ProbeState := { s with log := s.log ++ [.acquire r] }

def ProbeState.release (s : ProbeState) (r : Resource) : ProbeState := { s with log := s.log ++ [.release r] }

/-! ## cotti_i2c.c -/

/-- The polls of `prv_reset_i2c()`, with so many left after this one. -/
def prvResetPolls (isResetting : Nat → Bool) : Nat → Int
  | 0 => if isResetting 10 then -1 else 0
  | left + 1 => if isResetting (10 - (left + 1)) then prvResetPolls isResetting left else 0

/-- `prv_reset_i2c()` -/
def prvResetI2c (isResetting : Nat → Bool) : Int := prvResetPolls isResetting 10

/-! The labels that `cotti_i2c_init` leaves through -/

def pdevError (retval : Int) (s : ProbeState) : Option Int × ProbeState :=
  (some retval, { s with i2cPtr := .null, clkPtr := .null, controlModulePtr := .null })

def clkNodeError (retval : Int) (s : ProbeState) := pdevError retval (s.release .clkNode)

def pinmuxNodeError (retval : Int) (s : ProbeState) := clkNodeError retval (s.release .pinmuxNode)

def clkPtrError (retval : Int) (s : ProbeState) := pinmuxNodeError retval (s.release .clkMap)

def controlModulePtrError (retval : Int) (s : ProbeState) := clkPtrError retval (s.release .controlModuleMap)

def i2cPtrError (retval : Int) (s : ProbeState) := controlModulePtrError retval (s.release .i2cMap)

/-- `retval` after the reads of the properties, which stop at the first that fails. -/
def ProbeResults.readProperties (o : ProbeResults) : Int :=
  if o.readClkRegOffset.retval ≠ 0 then o.readClkRegOffset.retval
  else if o.readClkFreq.retval ≠ 0 then o.readClkFreq.retval
  else if o.readIntClkFreq.retval ≠ 0 then o.readIntClkFreq.retval
  else o.readPins.retval

/-- `cotti_i2c_init` once the controller is mapped and `prv_wakeup()` has returned: a reset, and the interrupt;
`retval` is what the last read of a property left. -/
def cottiI2cSetup (o : ProbeResults) (retval : Int) (s : ProbeState) : Option Int × ProbeState :=
  if prvResetI2c o.isResetting ≠ 0 then i2cPtrError retval s
  else if o.platformGetIrq < 0 then i2cPtrError o.platformGetIrq s
  else if o.requestIrq.retval < 0 then i2cPtrError o.requestIrq.retval s
  else (some 0, ((s.acquire .irq).release .pinmuxNode).release .clkNode)

/-- `cotti_i2c_init(pdev)`: its value, `none` where it uses an error pointer. -/
def cottiI2cInit (o : ProbeResults) (s : ProbeState) : Option Int × ProbeState :=
  if o.hasParent = false then pdevError (-1) s
  else if o.hasProperties = false then pdevError (-1) s
  else
    let retval := o.readProperties
    if retval ≠ 0 then pdevError retval s
    else if o.parseClkNode = false then pdevError (-1) s
    else
      let s := s.acquire .clkNode
      if o.parsePinmuxNode = false then clkNodeError (-1) s
      else
        let s := s.acquire .pinmuxNode
        match o.clkGet with
        | .null => pinmuxNodeError (-1) s
        | .error => (none, s)
        | .valid =>
          let s := (s.acquire .fclk).release .fclk
          if o.mapClk = false then pinmuxNodeError (-1) { s with clkPtr := .null }
          else
            let s := { s.acquire .clkMap with clkPtr := .valid }
            if o.mapControlModule = false then clkPtrError (-1) { s with controlModulePtr := .null }
            else
              let s := { s.acquire .controlModuleMap with controlModulePtr := .valid }
              match o.mapI2c with
              | .null => controlModulePtrError (-1) { s with i2cPtr := .null }
              | .error => (none, { s with i2cPtr := .error })
              | .valid => cottiI2cSetup o retval { s.acquire .i2cMap with i2cPtr := .valid }

/-- `cotti_i2c_deinit()` -/
def cottiI2cDeinit (s : ProbeState) : ProbeState :=
  let s := if s.clkPtr = .null then s else s.release .clkMap
  let s := if s.controlModulePtr = .null then s else s.release .controlModuleMap
  let s := if s.i2cPtr = .null then s else s.release .i2cMap
  s.release .irq

/-! ## bmp280.c -/

/-- `bmp280_init(pdev)`: its value, `none` where the controller is not mapped. -/
def bmp280Init (o : ProbeResults) (s : ProbeState) : Option Int × ProbeState :=
  if o.getSensorNode = false then (some (-1), s)
  else
    let s := s.acquire .sensorNode
    if o.readReg.retval ≠ 0 then (some o.readReg.retval, s.release .sensorNode)
    else if s.i2cPtr ≠ .valid then (none, s)
    else if o.isConnected = false then (some (-1), s.release .sensorNode)
    else (some 0, s)

/-! ## char_device.c -/

/-- `device_destroy(device_class, device_number)`: `none` where the class is an error pointer. -/
def deviceDestroy (s : ProbeState) : Option ProbeState :=
  if s.deviceClass = .error then none
  else if s.deviceCreated then some { s.release .device with deviceCreated := false } else some s

/-- `class_destroy(device_class)` -/
def classDestroy (s : ProbeState) : ProbeState := if s.deviceClass = .valid then s.release .deviceClass else s

/-- `unregister_chrdev(device_number, device_name)` looks for a region of 256 minors of the major
`device_number`; there is none. -/
def unregisterChrdev (s : ProbeState) : ProbeState := s

def chrdevError (s : ProbeState) : ProbeState := (unregisterChrdev s).release .deviceName

/-- `char_device_create(name)`. A class that is an error pointer makes `device_create` return one. -/
def charDeviceCreate (o : ProbeResults) (s : ProbeState) : Option Int × ProbeState :=
  if o.kmalloc = false then (some (-1), s)
  else
    let s := s.acquire .deviceName
    if o.allocChrdevRegion.retval ≠ 0 then (some o.allocChrdevRegion.retval, s.release .deviceName)
    else
      let s := { s.acquire .chrdevRegion with deviceClass := o.classCreate }
      if o.classCreate = .null then (some (-1), chrdevError s)
      else
        let s := if o.classCreate = .valid then s.acquire .deviceClass else s
        let device := if o.classCreate = .valid then o.deviceCreate else .error
        if device = .null then (some (-1), chrdevError (classDestroy s))
        else
          let s := if device = .valid then { s.acquire .device with deviceCreated := true } else s
          if o.cdevAdd.retval ≠ 0 then
            match deviceDestroy s with
            | none => (none, s)
            | some s => (some o.cdevAdd.retval, chrdevError (classDestroy s))
          else (some 0, s.acquire .cdev)

/-- `char_device_remove()` -/
def charDeviceRemove (s : ProbeState) : Option ProbeState :=
  (deviceDestroy s).map fun s => (unregisterChrdev (classDestroy s)).release .deviceName

/-! ## driver.c -/

/-- `driver_probe(pdev)`. `bmp280_deinit` acquires and releases nothing. -/
def driverProbe (o : ProbeResults) (s : ProbeState) : Option Int × ProbeState :=
  match cottiI2cInit o s with
  | (some 0, s) =>
    match bmp280Init o s with
    | (some 0, s) =>
      match charDeviceCreate o s with
      | (some 0, s) => (some 0, s)
      | (some retval, s) => (some retval, cottiI2cDeinit s)
      | (none, s) => (none, s)
    | (some retval, s) => (some retval, cottiI2cDeinit s)
    | (none, s) => (none, s)
  | (retval, s) => (retval, s)

/-- `driver_remove(pdev)` -/
def driverRemove (s : ProbeState) : Option ProbeState := (charDeviceRemove s).map cottiI2cDeinit

/-- What the kernel releases by itself after a probe that failed, or a remove: a managed mapping. -/
def devresReleaseAll (s : ProbeState) : ProbeState :=
  if .acquire .i2cMap ∈ s.log then s.release .i2cMap else s

/-- A probe, from these static pointers, and the remove that follows one that succeeds. -/
def probeAndRemove (o : ProbeResults) (s : ProbeState) : ProbeState :=
  match driverProbe o s with
  | (some 0, s) => ((driverRemove s).map devresReleaseAll).getD s
  | (some _, s) => devresReleaseAll s
  | (none, s) => s

/-! ## Balance -/

/-- The resource was not touched, or acquired and then released once. -/
def ReleasedOnce (log : List ResourceEvent) (r : Resource) : Prop :=
  log.filter (·.resource = r) = [] ∨ log.filter (·.resource = r) = [.acquire r, .release r]

instance (log : List ResourceEvent) (r : Resource) : Decidable (ReleasedOnce log r) :=
  inferInstanceAs (Decidable (_ ∨ _))

/-- The resources that the driver itself acquires and releases: all but the managed mapping. -/
def Balanced (log : List ResourceEvent) : Prop := ∀ r, r ≠ .i2cMap → ReleasedOnce log r

/-- The parent, the properties and the nodes are all found. -/
def ProbeResults.HasNodes (o : ProbeResults) : Prop :=
  o.hasParent = true ∧ o.hasProperties = true ∧ o.readProperties = 0 ∧ o.parseClkNode = true ∧ o.parsePinmuxNode = true

/-- The clock node and the pinmux node are mapped. -/
def ProbeResults.MapsNodes (o : ProbeResults) : Prop :=
  o.HasNodes ∧ o.clkGet = .valid ∧ o.mapClk = true ∧ o.mapControlModule = true

/-- An error pointer of `clk_get` or of `devm_platform_ioremap_resource` is used. -/
def ProbeResults.UsesErrorPointer (o : ProbeResults) : Prop :=
  o.HasNodes ∧ o.clkGet = .error ∨ o.MapsNodes ∧ o.mapI2c = .error

/-- The controller is mapped. -/
def ProbeResults.MapsI2c (o : ProbeResults) : Prop := o.MapsNodes ∧ o.mapI2c = .valid

/-- The interrupt is got and requested. -/
def ProbeResults.HasIrq (o : ProbeResults) : Prop := 0 ≤ o.platformGetIrq ∧ o.requestIrq = .ok

/-- The sensor is found. -/
def ProbeResults.HasSensor (o : ProbeResults) : Prop :=
  o.getSensorNode = true ∧ o.readReg = .ok ∧ o.isConnected = true

/-- One of the first 11 polls finds the controller out of its reset. -/
def ProbeResults.Resets (o : ProbeResults) : Prop := ∃ i ≤ 10, o.isResetting i = false

/-- The probe ends before the controller is mapped, with no error pointer used; or after its reset, for want
of the interrupt or of the sensor. -/
def ProbeResults.Unwinds (o : ProbeResults) : Prop :=
  ¬ o.UsesErrorPointer ∧ (¬ o.MapsI2c ∨ o.Resets ∧ ¬ (o.HasIrq ∧ o.HasSensor))

/-! ## The I2C controller -/

theorem prvResetPolls_eq_zero_iff (isResetting : Nat → Bool) {left : Nat} (h : left ≤ 10) :
    prvResetPolls isResetting left = 0 ↔ ∃ i, 10 - left ≤ i ∧ i ≤ 10 ∧ isResetting i = false := by
  induction left with
  | zero =>
    rw [prvResetPolls]
    constructor
    · intro h0
      refine ⟨10, by omega, le_refl _, ?_⟩
      cases h10 : isResetting 10 with
      | false => rfl
      | true => rw [h10] at h0; cases h0
    · rintro ⟨i, hi, hi', hf⟩
      obtain rfl : i = 10 := by omega
      rw [hf]
      rfl
  | succ left ih =>
    rw [prvResetPolls]
    cases hp : isResetting (10 - (left + 1)) with
    | false => exact iff_of_true rfl ⟨_, le_refl _, by omega, hp⟩
    | true =>
      rw [if_pos rfl, ih (by omega)]
      constructor
      · rintro ⟨i, hi, hi', hf⟩
        exact ⟨i, by omega, hi', hf⟩
      · rintro ⟨i, hi, hi', hf⟩
        have hne : i ≠ 10 - (left + 1) := by
          rintro rfl
          rw [hp] at hf
          cases hf
        exact ⟨i, by omega, hi', hf⟩

theorem prvResetI2c_eq_zero_iff (o : ProbeResults) : prvResetI2c o.isResetting = 0 ↔ o.Resets := by
  rw [prvResetI2c, prvResetPolls_eq_zero_iff _ (le_refl 10)]
  constructor
  · rintro ⟨i, -, hi, hf⟩
    exact ⟨i, hi, hf⟩
  · rintro ⟨i, hi, hf⟩
    exact ⟨i, by omega, hi, hf⟩

theorem CallResult.retval_eq_zero_iff (r : CallResult) : r.retval = 0 ↔ r = .ok := by
  cases r with
  | ok => exact iff_of_true rfl rfl
  | error errno => exact iff_of_false (by simp only [CallResult.retval]; omega) nofun

theorem CallResult.retval_neg {r : CallResult} (h : r ≠ .ok) : r.retval < 0 := by
  cases r with
  | ok => exact absurd rfl h
  | error errno =>
    simp only [CallResult.retval]
    omega

/-- What is logged up to the mapping of the controller. -/
def mappedLog : List ResourceEvent :=
  [.acquire .clkNode, .acquire .pinmuxNode, .acquire .fclk, .release .fclk, .acquire .clkMap,
    .acquire .controlModuleMap, .acquire .i2cMap]

/-- What the labels log from the mapping of the controller on. -/
def unwoundLog : List ResourceEvent :=
  mappedLog ++ [.release .i2cMap, .release .controlModuleMap, .release .clkMap, .release .pinmuxNode, .release .clkNode]

/-- What is logged up to the end of a set-up of the controller. -/
def setupLog : List ResourceEvent :=
  List.append mappedLog [.acquire .irq, .release .pinmuxNode, .release .clkNode]

/-- What `cotti_i2c_deinit` logs where the controller is set up. -/
def deinitLog : List ResourceEvent :=
  [.release .clkMap, .release .controlModuleMap, .release .i2cMap, .release .irq]

/-- The controller has just been mapped. -/
structure ProbeState.Mapped (s : ProbeState) : Prop where
  clk : s.clkPtr = .valid
  controlModule : s.controlModulePtr = .valid
  i2c : s.i2cPtr = .valid
  log : s.log = mappedLog

/-- What was acquired before the mapping of the controller is released. -/
def Unwound (log : List ResourceEvent) : Prop := (∀ r, ReleasedOnce log r) ∧ .acquire .i2cMap ∉ log

instance (log : List ResourceEvent) : Decidable (Unwound log) := inferInstanceAs (Decidable (_ ∧ _))

/-- Without its node, its properties or the nodes they name the controller is not set up, and nothing is kept. -/
theorem cottiI2cInit_of_noNodes (o : ProbeResults) {s : ProbeState} (hs : s.log = []) (hnodes : ¬ o.HasNodes) :
    ∃ retval t, cottiI2cInit o s = (some retval, t) ∧ retval ≠ 0 ∧ Unwound t.log := by
  obtain ⟨clkPtr, controlModulePtr, i2cPtr, deviceClass, deviceCreated, log⟩ := s
  cases hs
  have hnone : Unwound [] := by decide
  unfold cottiI2cInit
  by_cases hparent : o.hasParent = false
  · rw [if_pos hparent]
    exact ⟨-1, _, rfl, by decide, hnone⟩
  rw [if_neg hparent]
  by_cases hproperties : o.hasProperties = false
  · rw [if_pos hproperties]
    exact ⟨-1, _, rfl, by decide, hnone⟩
  rw [if_neg hproperties]
  dsimp only
  by_cases hread : o.readProperties ≠ 0
  · rw [if_pos hread]
    exact ⟨_, _, rfl, hread, hnone⟩
  rw [if_neg hread]
  by_cases hclk : o.parseClkNode = false
  · rw [if_pos hclk]
    exact ⟨-1, _, rfl, by decide, hnone⟩
  rw [if_neg hclk]
  by_cases hpinmux : o.parsePinmuxNode = false
  · have hclean : Unwound [.acquire .clkNode, .release .clkNode] := by decide
    rw [if_pos hpinmux]
    exact ⟨-1, _, rfl, by decide, hclean⟩
  · refine absurd ⟨?_, ?_, ?_, ?_, ?_⟩ hnodes
    · simpa using hparent
    · simpa using hproperties
    · simpa using hread
    · simpa using hclk
    · simpa using hpinmux

/-- The ways `cotti_i2c_init` can take to the mapping of the controller -/
theorem cottiI2cInit_cases (o : ProbeResults) {s : ProbeState} (hs : s.log = []) :
    (¬ o.UsesErrorPointer ∧ ¬ o.MapsI2c ∧
      ∃ retval t, cottiI2cInit o s = (some retval, t) ∧ retval ≠ 0 ∧ Unwound t.log) ∨
    (o.UsesErrorPointer ∧ ∃ t, cottiI2cInit o s = (none, t) ∧ ¬ ReleasedOnce t.log .clkNode) ∨
    (¬ o.UsesErrorPointer ∧ o.MapsI2c ∧ ∃ t, cottiI2cInit o s = cottiI2cSetup o 0 t ∧ t.Mapped) := by
  obtain ⟨clkPtr, controlModulePtr, i2cPtr, deviceClass, deviceCreated, log⟩ := s
  cases hs
  unfold cottiI2cInit ProbeResults.UsesErrorPointer ProbeResults.MapsI2c ProbeResults.MapsNodes
  by_cases hnodes : o.HasNodes
  · have hnodes' := hnodes
    obtain ⟨hparent, hproperties, hread, hclk, hpinmux⟩ := hnodes'
    simp only [hparent, hproperties, hread, hclk, hpinmux, Bool.true_eq_false, if_false, ne_eq, not_true_eq_false,
      hnodes, true_and]
    cases hget : o.clkGet with
    | null =>
      have hclean : Unwound [.acquire .clkNode, .acquire .pinmuxNode, .release .pinmuxNode, .release .clkNode] := by
        decide
      exact .inl ⟨nofun, nofun, _, _, rfl, by decide, hclean⟩
    | error =>
      -- the error pointer passes the test for NULL, and is used with the nodes still held
      have hleak : ¬ ReleasedOnce [.acquire .clkNode, .acquire .pinmuxNode] .clkNode := by decide
      exact .inr (.inl ⟨.inl rfl, _, rfl, hleak⟩)
    | valid =>
      simp only [reduceCtorEq, false_or, true_and]
      cases hmapClk : o.mapClk with
      | false =>
        have hclean : Unwound [.acquire .clkNode, .acquire .pinmuxNode, .acquire .fclk, .release .fclk,
          .release .pinmuxNode, .release .clkNode] := by decide
        exact .inl ⟨nofun, nofun, _, _, rfl, by decide, hclean⟩
      | true =>
        cases hmapControl : o.mapControlModule with
        | false =>
          have hclean : Unwound [.acquire .clkNode, .acquire .pinmuxNode, .acquire .fclk, .release .fclk,
            .acquire .clkMap, .release .clkMap, .release .pinmuxNode, .release .clkNode] := by decide
          exact .inl ⟨nofun, nofun, _, _, rfl, by decide, hclean⟩
        | true =>
          simp only [Bool.true_eq_false, if_false, true_and]
          cases hmap : o.mapI2c with
          | null =>
            have hclean : Unwound [.acquire .clkNode, .acquire .pinmuxNode, .acquire .fclk, .release .fclk,
              .acquire .clkMap, .acquire .controlModuleMap, .release .controlModuleMap, .release .clkMap,
              .release .pinmuxNode, .release .clkNode] := by decide
            exact .inl ⟨nofun, nofun, _, _, rfl, by decide, hclean⟩
          | error =>
            have hleak : ¬ ReleasedOnce [.acquire .clkNode, .acquire .pinmuxNode, .acquire .fclk, .release .fclk,
              .acquire .clkMap, .acquire .controlModuleMap] .clkNode := by decide
            exact .inr (.inl ⟨rfl, _, rfl, hleak⟩)
          | valid => exact .inr (.inr ⟨nofun, rfl, _, rfl, rfl, rfl, rfl, rfl⟩)
  · refine .inl ⟨?_, ?_, ?_⟩
    · rintro (⟨h, -⟩ | ⟨⟨h, -⟩, -⟩) <;> exact hnodes h
    · rintro ⟨⟨h, -⟩, -⟩
      exact hnodes h
    · exact cottiI2cInit_of_noNodes o rfl hnodes

/-- What becomes of the controller once it is mapped: its reset fails and 0 is returned nonetheless, or the
interrupt fails, or it is set up. -/
theorem cottiI2cSetup_cases (o : ProbeResults) {s : ProbeState} (h : s.Mapped) :
    (¬ o.Resets ∧ ∃ t, cottiI2cSetup o 0 s = (some 0, t) ∧ t.i2cPtr = .null ∧ t.clkPtr = .null ∧
      t.controlModulePtr = .null ∧ t.log = unwoundLog) ∨
    (o.Resets ∧ ¬ o.HasIrq ∧ ∃ retval t, cottiI2cSetup o 0 s = (some retval, t) ∧ retval ≠ 0 ∧ t.log = unwoundLog) ∨
    (o.Resets ∧ o.HasIrq ∧ ∃ t, cottiI2cSetup o 0 s = (some 0, t) ∧ t.i2cPtr = .valid ∧ t.clkPtr = .valid ∧
      t.controlModulePtr = .valid ∧
      t.log = setupLog) := by
  have hunwound : ∀ retval, (i2cPtrError retval s).2.log = unwoundLog := by
    intro retval
    show s.log ++ _ ++ _ ++ _ ++ _ ++ _ = _
    rw [h.log]
    rfl
  unfold cottiI2cSetup
  by_cases hreset : o.Resets
  · rw [if_neg (not_not_intro ((prvResetI2c_eq_zero_iff o).2 hreset))]
    simp only [hreset, not_true_eq_false, false_and, true_and, false_or]
    split
    · rename_i hget
      exact .inl ⟨fun hirq => absurd hirq.1 (by omega), o.platformGetIrq, _, rfl, by omega, hunwound o.platformGetIrq⟩
    · split
      · rename_i hrequest
        refine .inl ⟨fun hirq => ?_, o.requestIrq.retval, _, rfl, by omega, hunwound o.requestIrq.retval⟩
        rw [hirq.2] at hrequest
        exact absurd hrequest (by decide)
      · rename_i hget hrequest
        refine .inr ⟨⟨by omega, ?_⟩, _, rfl, h.i2c, h.clk, h.controlModule, ?_⟩
        · by_contra hne
          exact hrequest (CallResult.retval_neg hne)
        · show s.log ++ _ ++ _ ++ _ = _
          rw [h.log]
          rfl
  · rw [if_pos fun h0 => hreset ((prvResetI2c_eq_zero_iff o).1 h0)]
    exact .inl ⟨hreset, _, rfl, rfl, rfl, rfl, hunwound 0⟩

/-! ## The node of the sensor -/

/-- What was done with the node of the sensor. -/
def ProbeState.sensorLog (s : ProbeState) : List ResourceEvent := s.log.filter (·.resource = .sensorNode)

@[simp] theorem sensorLog_acquire (s : ProbeState) {r : Resource} (h : r ≠ .sensorNode) :
    (s.acquire r).sensorLog = s.sensorLog := by
  simp [ProbeState.sensorLog, ProbeState.acquire, List.filter_append, ResourceEvent.resource, h]

@[simp] theorem sensorLog_release (s : ProbeState) {r : Resource} (h : r ≠ .sensorNode) :
    (s.release r).sensorLog = s.sensorLog := by
  simp [ProbeState.sensorLog, ProbeState.release, List.filter_append, ResourceEvent.resource, h]

theorem cottiI2cDeinit_sensorLog (s : ProbeState) : (cottiI2cDeinit s).sensorLog = s.sensorLog := by
  unfold cottiI2cDeinit
  dsimp only
  rw [sensorLog_release _ (by decide)]
  split <;> split <;> split <;> simp

theorem classDestroy_sensorLog (s : ProbeState) : (classDestroy s).sensorLog = s.sensorLog := by
  unfold classDestroy
  split <;> simp

theorem deviceDestroy_sensorLog {s t : ProbeState} (h : deviceDestroy s = some t) : t.sensorLog = s.sensorLog := by
  unfold deviceDestroy at h
  split at h
  · cases h
  · split at h
    · cases h
      exact sensorLog_release s (by decide)
    · cases h
      rfl

theorem chrdevError_sensorLog (s : ProbeState) : (chrdevError s).sensorLog = s.sensorLog :=
  sensorLog_release s (by decide)

theorem charDeviceCreate_sensorLog (o : ProbeResults) (s : ProbeState) :
    (charDeviceCreate o s).2.sensorLog = s.sensorLog := by
  have hname : (s.acquire .deviceName).sensorLog = s.sensorLog := sensorLog_acquire s (by decide)
  unfold charDeviceCreate
  dsimp only
  split
  · rfl
  · split
    · rw [sensorLog_release _ (by decide), hname]
    · have hregion : ({ (s.acquire .deviceName).acquire .chrdevRegion with deviceClass := o.classCreate } :
          ProbeState).sensorLog = s.sensorLog := (sensorLog_acquire _ (by decide)).trans hname
      generalize ({ (s.acquire .deviceName).acquire .chrdevRegion with deviceClass := o.classCreate } :
          ProbeState) = s1 at *
      split
      · rw [chrdevError_sensorLog, hregion]
      · have hclass : (if o.classCreate = .valid then s1.acquire .deviceClass else s1).sensorLog = s.sensorLog := by
          split
          · rw [sensorLog_acquire _ (by decide), hregion]
          · exact hregion
        generalize (if o.classCreate = .valid then s1.acquire .deviceClass else s1) = s2 at *
        generalize (if o.classCreate = .valid then o.deviceCreate else Pointer.error) = device
        split
        · rw [chrdevError_sensorLog, classDestroy_sensorLog, hclass]
        · have hdevice : (if device = .valid then { s2.acquire .device with deviceCreated := true } else s2).sensorLog =
              s.sensorLog := by
            split
            · exact (sensorLog_acquire _ (by decide)).trans hclass
            · exact hclass
          generalize (if device = .valid then { s2.acquire .device with deviceCreated := true } else s2) = s3 at *
          split
          · split
            · exact hdevice
            · rename_i hdestroy
              rw [chrdevError_sensorLog, classDestroy_sensorLog, deviceDestroy_sensorLog hdestroy, hdevice]
          · rw [sensorLog_acquire _ (by decide), hdevice]

theorem driverRemove_sensorLog {s t : ProbeState} (h : driverRemove s = some t) : t.sensorLog = s.sensorLog := by
  obtain ⟨u, hu, rfl⟩ := Option.map_eq_some_iff.1 h
  obtain ⟨v, hv, rfl⟩ := Option.map_eq_some_iff.1 hu
  rw [cottiI2cDeinit_sensorLog, sensorLog_release _ (by decide)]
  exact (classDestroy_sensorLog v).trans (deviceDestroy_sensorLog hv)

theorem devresReleaseAll_sensorLog (s : ProbeState) : (devresReleaseAll s).sensorLog = s.sensorLog := by
  unfold devresReleaseAll
  split
  · exact sensorLog_release s (by decide)
  · rfl

/-! ## The probe -/

/-- What `bmp280_init` does on a controller that is mapped -/
theorem bmp280Init_cases (o : ProbeResults) {s : ProbeState} (h : s.i2cPtr = .valid) :
    (¬ o.HasSensor ∧ ∃ retval t, bmp280Init o s = (some retval, t) ∧ retval ≠ 0 ∧
      ∃ log, (log = [] ∨ log = [.acquire .sensorNode, .release .sensorNode]) ∧ t = { s with log := s.log ++ log }) ∨
    (o.HasSensor ∧ bmp280Init o s = (some 0, s.acquire .sensorNode)) := by
  unfold bmp280Init ProbeResults.HasSensor
  dsimp only
  split
  · rename_i hnode
    exact .inl ⟨by simp [hnode], -1, s, rfl, by decide, [], .inl rfl, by rw [List.append_nil]⟩
  · rename_i hnode
    split
    · rename_i hreg
      refine .inl ⟨?_, o.readReg.retval, _, rfl, hreg, _, .inr rfl, ?_⟩
      · rintro ⟨-, hok, -⟩
        exact hreg ((CallResult.retval_eq_zero_iff _).2 hok)
      · simp [ProbeState.acquire, ProbeState.release]
    · rename_i hreg
      have hreg := (CallResult.retval_eq_zero_iff _).1 (Decidable.not_not.1 hreg)
      rw [if_neg (not_not_intro (show (s.acquire .sensorNode).i2cPtr = .valid from h))]
      split
      · rename_i hconn
        refine .inl ⟨by simp [hconn], -1, _, rfl, by decide, _, .inr rfl, ?_⟩
        simp [ProbeState.acquire, ProbeState.release]
      · rename_i hconn
        exact .inr ⟨⟨by simpa using hnode, hreg, by simpa using hconn⟩, rfl⟩

section
variable {o : ProbeResults} {s t u : ProbeState} {retval : Int}

theorem probeAndRemove_of_init_none (hinit : cottiI2cInit o s = (none, t)) : probeAndRemove o s = t := by
  rw [probeAndRemove, driverProbe, hinit]

theorem probeAndRemove_of_fails (hprobe : driverProbe o s = (some retval, t)) (hne : retval ≠ 0) :
    probeAndRemove o s = devresReleaseAll t := by
  rw [probeAndRemove, hprobe]
  split
  · rename_i heq
    cases heq
    exact absurd rfl hne
  · rename_i heq
    cases heq
    rfl
  · rename_i heq
    cases heq

theorem probeAndRemove_of_init_fails (hinit : cottiI2cInit o s = (some retval, t)) (hne : retval ≠ 0) :
    probeAndRemove o s = devresReleaseAll t := by
  refine probeAndRemove_of_fails ?_ hne
  rw [driverProbe, hinit]
  split
  · rename_i heq
    cases heq
    exact absurd rfl hne
  · rename_i heq
    cases heq
    rfl

theorem probeAndRemove_of_bmp280_none (hinit : cottiI2cInit o s = (some 0, t)) (hbmp : bmp280Init o t = (none, u)) :
    probeAndRemove o s = u := by
  rw [probeAndRemove, driverProbe, hinit]
  simp only [hbmp]

theorem probeAndRemove_of_bmp280_fails (hinit : cottiI2cInit o s = (some 0, t))
    (hbmp : bmp280Init o t = (some retval, u)) (hne : retval ≠ 0) :
    probeAndRemove o s = devresReleaseAll (cottiI2cDeinit u) := by
  refine probeAndRemove_of_fails ?_ hne
  rw [driverProbe, hinit]
  simp only [hbmp]

/-- After `bmp280_init` nothing touches the node of the sensor any more. -/
theorem probeAndRemove_sensorLog (hinit : cottiI2cInit o s = (some 0, t)) (hbmp : bmp280Init o t = (some 0, u)) :
    (probeAndRemove o s).sensorLog = u.sensorLog := by
  have hcreate := charDeviceCreate_sensorLog o u
  rcases hchar : charDeviceCreate o u with ⟨ret, v⟩
  replace hcreate : v.sensorLog = u.sensorLog := by
    rw [hchar] at hcreate
    exact hcreate
  cases ret with
  | none =>
    have hprobe : driverProbe o s = (none, v) := by
      rw [driverProbe, hinit]
      simp only [hbmp, hchar]
    rw [probeAndRemove, hprobe]
    exact hcreate
  | some ret =>
    by_cases h0 : ret = 0
    · subst h0
      have hprobe : driverProbe o s = (some 0, v) := by
        rw [driverProbe, hinit]
        simp only [hbmp, hchar]
      rw [probeAndRemove, hprobe]
      cases hremove : driverRemove v with
      | none =>
        simp only [hremove]
        exact hcreate
      | some w =>
        simp only [hremove, Option.map_some, Option.getD_some]
        rw [devresReleaseAll_sensorLog, driverRemove_sensorLog hremove, hcreate]
    · have hprobe : driverProbe o s = (some ret, cottiI2cDeinit v) := by
        rw [driverProbe, hinit]
        simp only [hbmp, hchar]
      rw [probeAndRemove_of_fails hprobe h0, devresReleaseAll_sensorLog, cottiI2cDeinit_sensorLog, hcreate]

end

theorem devresReleaseAll_log {s : ProbeState} (h : .acquire .i2cMap ∈ s.log) :
    (devresReleaseAll s).log = s.log ++ [.release .i2cMap] := by
  rw [devresReleaseAll, if_pos h]
  rfl

/-- The reset has failed: the probe goes on without a controller, and does not come to a balance. -/
theorem not_balanced_of_reset {o : ProbeResults} {s t : ProbeState} (hinit : cottiI2cInit o s = (some 0, t))
    (hi2c : t.i2cPtr = .null) (hclk : t.clkPtr = .null) (hcontrol : t.controlModulePtr = .null)
    (hlog : t.log = unwoundLog) : ¬ Balanced (probeAndRemove o s).log := by
  have hirq : ∀ log, log = [] ∨ log = [.acquire .sensorNode, .release .sensorNode] →
      ¬ ReleasedOnce (unwoundLog ++ log ++ [.release .irq] ++ [.release .i2cMap]) .irq := by
    rintro log (rfl | rfl) <;> decide
  have hdeinit : ∀ log, (cottiI2cDeinit { t with log := t.log ++ log }).log = unwoundLog ++ log ++ [.release .irq] := by
    intro log
    simp only [cottiI2cDeinit, hi2c, hclk, hcontrol, if_true, ProbeState.release, hlog]
  have hunbalanced : ∀ log, log = [] ∨ log = [.acquire .sensorNode, .release .sensorNode] →
      ¬ Balanced (devresReleaseAll (cottiI2cDeinit { t with log := t.log ++ log })).log := by
    intro log hcase hbalanced
    have hmem : ResourceEvent.acquire .i2cMap ∈ (cottiI2cDeinit { t with log := t.log ++ log }).log := by
      rw [hdeinit]
      exact List.mem_append_left _ (List.mem_append_left _ (by decide))
    rw [devresReleaseAll_log hmem, hdeinit] at hbalanced
    exact hirq log hcase (hbalanced .irq (by decide))
  by_cases hnode : o.getSensorNode = false
  · have hbmp : bmp280Init o t = (some (-1), { t with log := t.log ++ [] }) := by
      simp only [bmp280Init, hnode, if_true, List.append_nil]
    rw [probeAndRemove_of_bmp280_fails hinit hbmp (by decide)]
    exact hunbalanced _ (.inl rfl)
  · by_cases hreg : o.readReg.retval = 0
    · -- the sensor is asked for its identity through a mapping that is gone
      have hbmp : bmp280Init o t = (none, t.acquire .sensorNode) := by
        have hnull : (t.acquire .sensorNode).i2cPtr ≠ .valid := by
          rw [show (t.acquire .sensorNode).i2cPtr = .null from hi2c]
          nofun
        rw [bmp280Init, if_neg hnode]
        dsimp only
        rw [if_neg (not_not_intro hreg), if_pos hnull]
      rw [probeAndRemove_of_bmp280_none hinit hbmp]
      intro hbalanced
      have hleak : ¬ ReleasedOnce (unwoundLog ++ [.acquire .sensorNode]) .sensorNode := by decide
      have hsensor := hbalanced .sensorNode (by decide)
      rw [ProbeState.acquire, hlog] at hsensor
      exact hleak hsensor
    · have hbmp : bmp280Init o t =
          (some o.readReg.retval, { t with log := t.log ++ [.acquire .sensorNode, .release .sensorNode] }) := by
        simp [bmp280Init, hnode, hreg, ProbeState.acquire, ProbeState.release]
      rw [probeAndRemove_of_bmp280_fails hinit hbmp hreg]
      exact hunbalanced _ (.inr rfl)

section
variable {o : ProbeResults} {s u : ProbeState} (hinit : cottiI2cInit o s = (some 0, u))
  (hlog : u.log = setupLog)
include hinit hlog

/-- The controller is set up, and the sensor is not there: the log, the managed mapping last. -/
theorem log_of_bmp280_fails {retval : Int} {log : List ResourceEvent} (hi2c : u.i2cPtr = .valid)
    (hclk : u.clkPtr = .valid) (hcontrol : u.controlModulePtr = .valid)
    (hbmp : bmp280Init o u = (some retval, { u with log := u.log ++ log })) (hne : retval ≠ 0) :
    (probeAndRemove o s).log = setupLog ++ log ++ deinitLog ++ [.release .i2cMap] := by
  have hdeinit : (cottiI2cDeinit { u with log := u.log ++ log }).log = setupLog ++ log ++ deinitLog := by
    simp [cottiI2cDeinit, hi2c, hclk, hcontrol, ProbeState.release, hlog, deinitLog]
  have hmem : ResourceEvent.acquire .i2cMap ∈ (cottiI2cDeinit { u with log := u.log ++ log }).log := by
    rw [hdeinit]
    exact List.mem_append_left _ (List.mem_append_left _ (by decide))
  rw [probeAndRemove_of_bmp280_fails hinit hbmp hne, devresReleaseAll_log hmem, hdeinit]

/-- The sensor is there: its node is never released. -/
theorem sensorNode_kept (hbmp : bmp280Init o u = (some 0, u.acquire .sensorNode)) :
    ¬ ReleasedOnce (probeAndRemove o s).log .sensorNode := by
  have hkept := probeAndRemove_sensorLog hinit hbmp
  have hleak : (u.acquire .sensorNode).sensorLog = [.acquire .sensorNode] := by
    have hfilter : (setupLog ++ [ResourceEvent.acquire .sensorNode]).filter (·.resource = .sensorNode) =
        [.acquire .sensorNode] := by
      decide
    rw [ProbeState.sensorLog, ProbeState.acquire, hlog]
    exact hfilter
  rw [hleak, ProbeState.sensorLog] at hkept
  rw [ReleasedOnce, hkept]
  decide

end

/-- After a probe, and the remove that follows one that succeeds, everything is released once exactly when the
probe ends before the controller is mapped, with no error pointer used. Leaving the managed mapping aside,
which the kernel releases by itself, the same holds of a probe that fails after the reset for want of the
interrupt or of the sensor. A probe that succeeds, or fails later, never comes to a balance. -/
theorem probe_balanced_iff (o : ProbeResults) (s : ProbeState) :
    (Balanced (probeAndRemove o { s with log := [] }).log ↔ o.Unwinds) ∧
      ((∀ r, ReleasedOnce (probeAndRemove o { s with log := [] }).log r) ↔ ¬ o.UsesErrorPointer ∧ ¬ o.MapsI2c) := by
  rcases cottiI2cInit_cases o (s := { s with log := [] }) rfl with
    ⟨hptr, hmap, retval, t, hinit, hne, hunwound, hi2c⟩ | ⟨hptr, t, hinit, hleak⟩ | ⟨hptr, hmap, t, hinit, hmapped⟩
  · rw [probeAndRemove_of_init_fails hinit hne, devresReleaseAll, if_neg hi2c]
    exact ⟨iff_of_true (fun r _ => hunwound r) ⟨hptr, .inl hmap⟩, iff_of_true hunwound ⟨hptr, hmap⟩⟩
  · rw [probeAndRemove_of_init_none hinit]
    exact ⟨iff_of_false (fun h => hleak (h .clkNode (by decide))) fun h => h.1 hptr,
      iff_of_false (fun h => hleak (h .clkNode)) fun h => h.1 hptr⟩
  · suffices h : (Balanced (probeAndRemove o { s with log := [] }).log ↔ o.Resets ∧ ¬ (o.HasIrq ∧ o.HasSensor)) ∧
        ¬ ∀ r, ReleasedOnce (probeAndRemove o { s with log := [] }).log r by
      rw [h.1, ProbeResults.Unwinds]
      exact ⟨by simp only [hptr, hmap, not_false_eq_true, not_true_eq_false, false_or, true_and],
        iff_of_false h.2 fun h => h.2 hmap⟩
    rcases cottiI2cSetup_cases o hmapped with ⟨hreset, u, hsetup, hi2c, hclk, hcontrol, hlog⟩ |
        ⟨hreset, hirq, retval, u, hsetup, hne, hlog⟩ | ⟨hreset, hirq, u, hsetup, hi2c, hclk, hcontrol, hlog⟩
    · have hun := not_balanced_of_reset (hinit.trans hsetup) hi2c hclk hcontrol hlog
      exact ⟨iff_of_false hun fun h => hreset h.1, fun h => hun fun r _ => h r⟩
    · have hmem : ResourceEvent.acquire .i2cMap ∈ u.log := by
        rw [hlog]
        decide
      rw [probeAndRemove_of_init_fails (hinit.trans hsetup) hne, devresReleaseAll_log hmem, hlog]
      have hbalanced : Balanced (unwoundLog ++ [.release .i2cMap]) := by unfold Balanced; decide
      have htwice : ¬ ReleasedOnce (unwoundLog ++ [.release .i2cMap]) .i2cMap := by decide
      exact ⟨iff_of_true hbalanced ⟨hreset, fun h => hirq h.1⟩, fun h => htwice (h .i2cMap)⟩
    · rcases bmp280Init_cases o hi2c with ⟨hsensor, retval, v, hbmp, hne, log, hcase, rfl⟩ | ⟨hsensor, hbmp⟩
      · rw [log_of_bmp280_fails (hinit.trans hsetup) hlog hi2c hclk hcontrol hbmp hne]
        refine ⟨iff_of_true ?_ ⟨hreset, fun h => hsensor h.2⟩, fun h => ?_⟩
        · unfold Balanced
          rcases hcase with rfl | rfl <;> decide
        · have htwice := h .i2cMap
          revert htwice
          rcases hcase with rfl | rfl <;> decide
      · have hun := sensorNode_kept (hinit.trans hsetup) hlog hbmp
        exact ⟨iff_of_false (fun h => hun (h .sensorNode (by decide))) fun h => h.2 ⟨hirq, hsensor⟩, fun h => hun (h _)⟩

/-- A probe in which every call succeeds, and its remove, leave the node of the sensor, the region of device
numbers and the character device behind. -/
theorem not_probe_balanced : ¬ ∀ o : ProbeResults, Balanced (probeAndRemove o {}).log := by
  intro h
  have hlog : ¬ Balanced (probeAndRemove {} {}).log := by unfold Balanced; decide
  exact hlog (h {})

end Td3.Driver.Probe
