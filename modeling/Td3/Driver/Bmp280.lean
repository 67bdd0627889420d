/-
The BMP280 driver (driver/src/bmp280.c) over an arbitrary I2C bus, and its temperature compensation
against the datasheet's formula in exact integers.

Both calibration words `dig_T2` and `dig_T3` are signed in the datasheet; the driver assembles them
from their bytes as `msb << 8 | lsb`, so it computes the datasheet's temperature for every reading
exactly on the chips where both words are below `0x8000`.
-/
import Td3.Lib.Int32

namespace Td3.Driver

open Td3.Int32

/-! ## The source functions -/

abbrev S32 := BitVec 32

def BMP280_REG_DIG_T1_LSB : BitVec 8 := 0x88
def BMP280_REG_DIG_T1_MSB : BitVec 8 := 0x89
def BMP280_REG_DIG_T2_LSB : BitVec 8 := 0x8A
def BMP280_REG_DIG_T2_MSB : BitVec 8 := 0x8B
def BMP280_REG_DIG_T3_LSB : BitVec 8 := 0x8C
def BMP280_REG_DIG_T3_MSB : BitVec 8 := 0x8D
def BMP280_REG_ID : BitVec 8 := 0xD0
def BMP280_REG_CTRL_MEAS : BitVec 8 := 0xF4
def BMP280_REG_CONFIG : BitVec 8 := 0xF5
def BMP280_REG_TEMP_MSB : BitVec 8 := 0xFA
def BMP280_REG_TEMP_LSB : BitVec 8 := 0xFB
def BMP280_REG_TEMP_XLSB : BitVec 8 := 0xFC

def BMP280_TEMP_OVERSAMPLING_X1 : S32 := 1 <<< 5
def BMP280_ID : BitVec 8 := 0x58
def BMP280_ERROR : S32 := -6666

/-- `NORMAL` of `bmp280_mode` and `FREQ_1` of `bmp280_freq`; an ioctl passes any `int` as either. -/
def NORMAL : S32 := 3
def SLEEP : S32 := 0
def FREQ_1 : S32 := 5

/-- The temperature units; an ioctl may store any other `int`. -/
inductive Bmp280Unit where
  | CELSIUS
  | KELVIN
  | FAHRENHEIT
  | other (unit : S32)
deriving DecidableEq, Repr

/-- The calls of the I2C driver: `cotti_i2c_read(address, slave_address)` and
`cotti_i2c_write(value, reg_address, slave_address)`, over the state of the bus. -/
structure I2cBus (σ : Type) where
  read : BitVec 8 → BitVec 8 → σ → S32 × σ
  write : BitVec 8 → BitVec 8 → BitVec 8 → σ → S32 × σ

/-- The static variables of bmp280.c, and the bus. -/
structure Bmp280 (σ : Type) where
  bus : σ
  digT1 : S32 := 0
  digT2 : S32 := 0
  digT3 : S32 := 0
  slaveAddress : BitVec 32 := 0
  gUnit : Bmp280Unit := .CELSIUS

section
variable {σ : Type} (bus : I2cBus σ)

def cottiI2cRead (address : BitVec 8) : StateM (Bmp280 σ) S32 := fun s =>
  let (value, b) := bus.read address (s.slaveAddress.setWidth 8) s.bus
  (value, { s with bus := b })

def cottiI2cWrite (value regAddress : BitVec 8) : StateM (Bmp280 σ) S32 := fun s =>
  let (value, b) := bus.write value regAddress (s.slaveAddress.setWidth 8) s.bus
  (value, { s with bus := b })

def bmp280SetMode (mode : S32) : StateM (Bmp280 σ) S32 :=
  cottiI2cWrite bus ((mode ||| BMP280_TEMP_OVERSAMPLING_X1).setWidth 8) BMP280_REG_CTRL_MEAS

def bmp280SetFrequency (freq : S32) : StateM (Bmp280 σ) S32 :=
  cottiI2cWrite bus ((freq <<< 5).setWidth 8) BMP280_REG_CONFIG

def bmp280SetUnit (unit : Bmp280Unit) : StateM (Bmp280 σ) Unit := fun s => ((), { s with gUnit := unit })

def bmp280Deinit : StateM (Bmp280 σ) Unit := do
  let _ ← bmp280SetMode bus SLEEP

def bmp280IsConnected : StateM (Bmp280 σ) Bool := do
  -- `id` is a `u8`: it is never equal to -1, and a failed read leaves 0xFF in it
  let id := (← cottiI2cRead bus BMP280_REG_ID).setWidth 8
  return id = BMP280_ID

/-- A calibration word, `read(msb) << 8 | read(lsb)`. -/
def readDig (msb lsb : BitVec 8) : StateM (Bmp280 σ) S32 := do
  let high ← cottiI2cRead bus msb
  let low ← cottiI2cRead bus lsb
  return high <<< 8 ||| low

/-- The device tree's "temperature_sensor" child, and what reading its "reg" property gives. -/
abbrev SensorNode := Option (Except S32 (BitVec 32))

def bmp280Init (temp_sensor_node : SensorNode) : StateM (Bmp280 σ) S32 := do
  match temp_sensor_node with
  | none => return -1
  | some (.error retval) => return retval
  | some (.ok reg) =>
    modify fun s => { s with slaveAddress := reg }
    if !(← bmp280IsConnected bus) then return -1
    let digT1 ← readDig bus BMP280_REG_DIG_T1_MSB BMP280_REG_DIG_T1_LSB
    modify fun s => { s with digT1 }
    let digT2 ← readDig bus BMP280_REG_DIG_T2_MSB BMP280_REG_DIG_T2_LSB
    modify fun s => { s with digT2 }
    let digT3 ← readDig bus BMP280_REG_DIG_T3_MSB BMP280_REG_DIG_T3_LSB
    modify fun s => { s with digT3 }
    let _ ← bmp280SetFrequency bus FREQ_1
    let _ ← bmp280SetMode bus NORMAL
    return 0

/-- The temperature in hundredths of a degree Celsius, in `s32` arithmetic. -/
def compensate (digT1 digT2 digT3 rawTemp : S32) : S32 :=
  let var1 := (((rawTemp.sshiftRight 3 - digT1 <<< 1)) * digT2).sshiftRight 11
  let var2 := ((((rawTemp.sshiftRight 4 - digT1) * (rawTemp.sshiftRight 4 - digT1)).sshiftRight 12) *
    digT3).sshiftRight 14
  ((var1 + var2) * 5 + 128).sshiftRight 8

/-- The `switch` on the unit. -/
def convert (temp : S32) : Bmp280Unit → S32
  | .CELSIUS => temp
  | .FAHRENHEIT => (temp * 9).sdiv 5 + 3200
  | .KELVIN => temp + 27315
  | .other _ => temp

def bmp280ReadTemperature : StateM (Bmp280 σ) S32 := do
  let d1 ← cottiI2cRead bus BMP280_REG_TEMP_MSB
  if d1 = -1 then return BMP280_ERROR
  let d2 ← cottiI2cRead bus BMP280_REG_TEMP_LSB
  if d2 = -1 then return BMP280_ERROR
  let d3 ← cottiI2cRead bus BMP280_REG_TEMP_XLSB
  if d3 = -1 then return BMP280_ERROR
  let rawTemp := (d1 <<< 16 ||| d2 <<< 8 ||| d3).sshiftRight 4
  let s ← get
  return convert (compensate s.digT1 s.digT2 s.digT3 rawTemp) s.gUnit

end

/-! ## A sensor that answers -/

/-- The sensor's registers. -/
abbrev Registers := BitVec 8 → BitVec 8

/-- A bus whose transfers all succeed, to a sensor with the given registers. -/
def sensorBus : I2cBus Registers where
  read address _ regs := ((regs address).setWidth 32, regs)
  write value address _ regs := (0, Function.update regs address value)

/-- The calibration words as the driver assembles them. -/
def digWord (regs : Registers) (msb lsb : BitVec 8) : S32 :=
  (regs msb).setWidth 32 <<< 8 ||| (regs lsb).setWidth 32

/-- The raw value as the driver assembles it. -/
def rawWord (regs : Registers) : S32 :=
  ((regs BMP280_REG_TEMP_MSB).setWidth 32 <<< 16 ||| (regs BMP280_REG_TEMP_LSB).setWidth 32 <<< 8 |||
    (regs BMP280_REG_TEMP_XLSB).setWidth 32).sshiftRight 4

theorem bmp280Init_sensorBus (reg : BitVec 32) (s : Bmp280 Registers) (hid : s.bus BMP280_REG_ID = BMP280_ID) :
    ∃ regs, bmp280Init sensorBus (some (.ok reg)) s = (0,
      { s with bus := regs, slaveAddress := reg,
               digT1 := digWord s.bus BMP280_REG_DIG_T1_MSB BMP280_REG_DIG_T1_LSB,
               digT2 := digWord s.bus BMP280_REG_DIG_T2_MSB BMP280_REG_DIG_T2_LSB,
               digT3 := digWord s.bus BMP280_REG_DIG_T3_MSB BMP280_REG_DIG_T3_LSB }) := by
  have hc : bmp280IsConnected sensorBus { s with slaveAddress := reg } = (true, { s with slaveAddress := reg }) := by
    show (decide (((s.bus BMP280_REG_ID).setWidth 32).setWidth 8 = BMP280_ID), _) = (true, _)
    rw [hid]; rfl
  unfold bmp280Init
  simp only [bind, StateT.bind, modify, modifyGet, MonadStateOf.modifyGet, StateT.modifyGet, pure]
  rw [hc]
  exact ⟨_, rfl⟩

theorem bmp280ReadTemperature_sensorBus (s : Bmp280 Registers) (hu : s.gUnit = .CELSIUS) :
    (bmp280ReadTemperature sensorBus s).1 = compensate s.digT1 s.digT2 s.digT3 (rawWord s.bus) := by
  have hne : ∀ b : BitVec 8, ¬ b.setWidth 32 = (-1 : S32) := by decide
  have hr : ∀ a, cottiI2cRead sensorBus a s = ((s.bus a).setWidth 32, s) := fun _ => rfl
  unfold bmp280ReadTemperature
  simp only [bind, StateT.bind, hr, hne, if_false, get, getThe, MonadStateOf.get, StateT.get, pure, hu]
  rfl

/-! ## The datasheet's formula -/

section Formula
variable (digT1 digT2 digT3 adcT : Int)

/-- The datasheet's `var1`, `var2` and temperature, in exact integers. -/
def var1 : Int := (adcT / 2 ^ 3 - digT1 * 2) * digT2 / 2 ^ 11

def var2 : Int := (adcT / 2 ^ 4 - digT1) * (adcT / 2 ^ 4 - digT1) / 2 ^ 12 * digT3 / 2 ^ 14

def temperature : Int := ((var1 digT1 digT2 adcT + var2 digT1 digT3 adcT) * 5 + 128) / 2 ^ 8

/-- The exact intermediate results fit in 32 signed bits (the quotients are smaller than what they
divide). -/
structure FormulaFits : Prop where
  double : InRange (digT1 * 2)
  diff1 : InRange (adcT / 2 ^ 3 - digT1 * 2)
  prod1 : InRange ((adcT / 2 ^ 3 - digT1 * 2) * digT2)
  diff2 : InRange (adcT / 2 ^ 4 - digT1)
  square : InRange ((adcT / 2 ^ 4 - digT1) * (adcT / 2 ^ 4 - digT1))
  prod2 : InRange ((adcT / 2 ^ 4 - digT1) * (adcT / 2 ^ 4 - digT1) / 2 ^ 12 * digT3)
  sum : InRange (var1 digT1 digT2 adcT + var2 digT1 digT3 adcT)
  times5 : InRange ((var1 digT1 digT2 adcT + var2 digT1 digT3 adcT) * 5)
  plus128 : InRange ((var1 digT1 digT2 adcT + var2 digT1 digT3 adcT) * 5 + 128)

end Formula

/-- Where the exact intermediate results fit, the driver's arithmetic is exact. -/
theorem compensate_toInt {t1 t2 t3 raw : S32} (h : FormulaFits t1.toInt t2.toInt t3.toInt raw.toInt) :
    (compensate t1 t2 t3 raw).toInt = temperature t1.toInt t2.toInt t3.toInt raw.toInt := by
  have hdouble : (t1 <<< 1).toInt = t1.toInt * 2 := by
    rw [BitVec.shiftLeft_eq_mul_twoPow]
    exact toInt_mul h.double
  have hdiff1 : (raw.sshiftRight 3 - t1 <<< 1).toInt = raw.toInt / 2 ^ 3 - t1.toInt * 2 := by
    rw [toInt_sub (by rw [toInt_sshiftRight, hdouble]; exact h.diff1), toInt_sshiftRight, hdouble]
  have hvar1 : (((raw.sshiftRight 3 - t1 <<< 1) * t2).sshiftRight 11).toInt = var1 t1.toInt t2.toInt raw.toInt := by
    rw [toInt_sshiftRight, toInt_mul (by rw [hdiff1]; exact h.prod1), hdiff1]; rfl
  have hdiff2 : (raw.sshiftRight 4 - t1).toInt = raw.toInt / 2 ^ 4 - t1.toInt := by
    rw [toInt_sub (by rw [toInt_sshiftRight]; exact h.diff2), toInt_sshiftRight]
  have hsquare : ((raw.sshiftRight 4 - t1) * (raw.sshiftRight 4 - t1)).toInt =
      (raw.toInt / 2 ^ 4 - t1.toInt) * (raw.toInt / 2 ^ 4 - t1.toInt) := by
    rw [toInt_mul (by rw [hdiff2]; exact h.square), hdiff2]
  have hvar2 : (((((raw.sshiftRight 4 - t1) * (raw.sshiftRight 4 - t1)).sshiftRight 12) * t3).sshiftRight 14).toInt =
      var2 t1.toInt t3.toInt raw.toInt := by
    rw [toInt_sshiftRight, toInt_mul (by rw [toInt_sshiftRight, hsquare]; exact h.prod2), toInt_sshiftRight,
      hsquare]; rfl
  unfold compensate temperature
  have h5 : (5 : S32).toInt = 5 := rfl
  have h128 : (128 : S32).toInt = 128 := rfl
  rw [toInt_sshiftRight, toInt_add, toInt_mul, toInt_add, hvar1, hvar2, h5, h128]
  · rw [hvar1, hvar2]; exact h.sum
  · rw [toInt_add (by rw [hvar1, hvar2]; exact h.sum), hvar1, hvar2, h5]; exact h.times5
  · rw [toInt_mul, toInt_add, hvar1, hvar2, h5, h128]
    · exact h.plus128
    · rw [hvar1, hvar2]; exact h.sum
    · rw [toInt_add (by rw [hvar1, hvar2]; exact h.sum), hvar1, hvar2, h5]; exact h.times5

/-! ## The words the driver assembles -/

/-- The calibration word at `msb`, `lsb` as the sensor holds it. -/
def calibrationWord (regs : Registers) (msb lsb : BitVec 8) : BitVec 16 := regs msb ++ regs lsb

/-- The 20-bit raw temperature. -/
def rawTemperature (regs : Registers) : Nat :=
  (regs BMP280_REG_TEMP_MSB).toNat * 2 ^ 12 + (regs BMP280_REG_TEMP_LSB).toNat * 2 ^ 4 +
    (regs BMP280_REG_TEMP_XLSB).toNat / 2 ^ 4

theorem digWord_toNat (regs : Registers) (msb lsb : BitVec 8) :
    (digWord regs msb lsb).toNat = (calibrationWord regs msb lsb).toNat := by
  have h1 := (regs msb).isLt
  have h2 := (regs lsb).isLt
  have h3 : (regs msb).toNat <<< 8 < 2 ^ 32 := by rw [Nat.shiftLeft_eq]; omega
  simp only [digWord, calibrationWord, BitVec.toNat_or, BitVec.toNat_shiftLeft, BitVec.toNat_setWidth,
    BitVec.toNat_append, Nat.mod_eq_of_lt (show (regs msb).toNat < 2 ^ 32 by omega),
    Nat.mod_eq_of_lt (show (regs lsb).toNat < 2 ^ 32 by omega), Nat.mod_eq_of_lt h3]

/-- A calibration word is read as unsigned. -/
theorem digWord_toInt (regs : Registers) (msb lsb : BitVec 8) :
    (digWord regs msb lsb).toInt = (calibrationWord regs msb lsb).toNat :=
  toInt_of_lt (digWord_toNat regs msb lsb) (by have := (calibrationWord regs msb lsb).isLt; omega)

theorem bytes_toNat (a b c : BitVec 8) :
    (a.setWidth 32 <<< 16 ||| b.setWidth 32 <<< 8 ||| c.setWidth 32).toNat =
      (a.toNat * 2 ^ 8 + b.toNat) * 2 ^ 8 + c.toNat := by
  have h1 := a.isLt
  have h2 := b.isLt
  have h3 : b.toNat <<< 8 < 2 ^ 16 := by rw [Nat.shiftLeft_eq]; omega
  have h4 : a.toNat <<< 16 + b.toNat <<< 8 = (a.toNat * 2 ^ 8 + b.toNat) <<< 8 := by
    simp only [Nat.shiftLeft_eq]; omega
  simp only [BitVec.toNat_or, BitVec.toNat_shiftLeft, BitVec.toNat_setWidth]
  rw [Nat.mod_eq_of_lt (show a.toNat < 2 ^ 32 by omega), Nat.mod_eq_of_lt (show b.toNat < 2 ^ 32 by omega),
    Nat.mod_eq_of_lt (show c.toNat < 2 ^ 32 by omega),
    Nat.mod_eq_of_lt (show a.toNat <<< 16 < 2 ^ 32 by rw [Nat.shiftLeft_eq]; omega),
    Nat.mod_eq_of_lt (show b.toNat <<< 8 < 2 ^ 32 by omega), ← Nat.shiftLeft_add_eq_or_of_lt h3, h4,
    ← Nat.shiftLeft_add_eq_or_of_lt c.isLt, Nat.shiftLeft_eq]

theorem rawWord_toInt (regs : Registers) : (rawWord regs).toInt = rawTemperature regs := by
  have h1 := (regs BMP280_REG_TEMP_MSB).isLt
  have h2 := (regs BMP280_REG_TEMP_LSB).isLt
  have h3 := (regs BMP280_REG_TEMP_XLSB).isLt
  unfold rawWord rawTemperature
  rw [toInt_sshiftRight, toInt_of_lt (bytes_toNat _ _ _) (by omega)]
  omega

/-! ## When the driver computes the datasheet's temperature -/

/-- The sensor's calibration, with `dig_T2` and `dig_T3` signed. -/
structure Calibration where
  digT1 : BitVec 16
  digT2 : BitVec 16
  digT3 : BitVec 16

def calibration (regs : Registers) : Calibration where
  digT1 := calibrationWord regs BMP280_REG_DIG_T1_MSB BMP280_REG_DIG_T1_LSB
  digT2 := calibrationWord regs BMP280_REG_DIG_T2_MSB BMP280_REG_DIG_T2_LSB
  digT3 := calibrationWord regs BMP280_REG_DIG_T3_MSB BMP280_REG_DIG_T3_LSB

/-- What the datasheet gives for a raw value. -/
def Calibration.temperature (c : Calibration) (adcT : Int) : Int :=
  Driver.temperature c.digT1.toNat c.digT2.toInt c.digT3.toInt adcT

/-- The datasheet's intermediate results for a raw value fit. -/
def Calibration.Fits (c : Calibration) (adcT : Int) : Prop :=
  FormulaFits c.digT1.toNat c.digT2.toInt c.digT3.toInt adcT

/-- The value `bmp280_read_temperature` returns for a raw value after `bmp280_init`. -/
theorem bmp280_read_after_init (reg : BitVec 32) (s : Bmp280 Registers) (hid : s.bus BMP280_REG_ID = BMP280_ID)
    (hu : s.gUnit = .CELSIUS) (regs : Registers) :
    (bmp280ReadTemperature sensorBus { (bmp280Init sensorBus (some (.ok reg)) s).2 with bus := regs }).1 =
      compensate (digWord s.bus BMP280_REG_DIG_T1_MSB BMP280_REG_DIG_T1_LSB)
        (digWord s.bus BMP280_REG_DIG_T2_MSB BMP280_REG_DIG_T2_LSB)
        (digWord s.bus BMP280_REG_DIG_T3_MSB BMP280_REG_DIG_T3_LSB) (rawWord regs) := by
  obtain ⟨regs', h⟩ := bmp280Init_sensorBus reg s hid
  rw [h]
  exact bmp280ReadTemperature_sensorBus _ hu

/-- Every raw value can be read. -/
theorem exists_rawTemperature {n : Nat} (hn : n < 2 ^ 20) : ∃ regs, rawTemperature regs = n := by
  refine ⟨fun a => if a = BMP280_REG_TEMP_MSB then .ofNat 8 (n / 2 ^ 12)
    else if a = BMP280_REG_TEMP_LSB then .ofNat 8 (n / 2 ^ 4) else .ofNat 8 (n % 2 ^ 4 * 2 ^ 4), ?_⟩
  have h1 : BMP280_REG_TEMP_LSB ≠ BMP280_REG_TEMP_MSB := by decide
  have h2 : BMP280_REG_TEMP_XLSB ≠ BMP280_REG_TEMP_MSB := by decide
  have h3 : BMP280_REG_TEMP_XLSB ≠ BMP280_REG_TEMP_LSB := by decide
  simp only [rawTemperature, if_true, h1, h2, h3, if_false, BitVec.toNat_ofNat]
  omega

/-- Raw values that make the formula's differences `m`, close to zero. -/
theorem formula_near (t1 t2 t3 : Int) {m : Int} (h1 : 0 ≤ t1 ∧ t1 < 2 ^ 16) (h2 : -2 ^ 16 ≤ t2 ∧ t2 < 2 ^ 16)
    (h3 : -2 ^ 16 ≤ t3 ∧ t3 < 2 ^ 16) (hm : m = 1 ∨ m = -1 ∨ m = 256 ∨ m = -256) :
    FormulaFits t1 t2 t3 (16 * (t1 + m)) ∧
      temperature t1 t2 t3 (16 * (t1 + m)) =
        ((2 * m * t2 / 2 ^ 11 + m * m / 2 ^ 12 * t3 / 2 ^ 14) * 5 + 128) / 2 ^ 8 := by
  have e1 : 16 * (t1 + m) / 2 ^ 3 - t1 * 2 = 2 * m := by omega
  have e2 : 16 * (t1 + m) / 2 ^ 4 - t1 = m := by omega
  have v1 : var1 t1 t2 (16 * (t1 + m)) = 2 * m * t2 / 2 ^ 11 := by rw [var1, e1]
  have v2 : var2 t1 t3 (16 * (t1 + m)) = m * m / 2 ^ 12 * t3 / 2 ^ 14 := by rw [var2, e2]
  refine ⟨?_, by rw [temperature, v1, v2]⟩
  have hfit : InRange (t1 * 2) ∧ InRange (2 * m) ∧ InRange (2 * m * t2) ∧ InRange m ∧ InRange (m * m) ∧
      InRange (m * m / 2 ^ 12 * t3) ∧ InRange (2 * m * t2 / 2 ^ 11 + m * m / 2 ^ 12 * t3 / 2 ^ 14) ∧
      InRange ((2 * m * t2 / 2 ^ 11 + m * m / 2 ^ 12 * t3 / 2 ^ 14) * 5) ∧
      InRange ((2 * m * t2 / 2 ^ 11 + m * m / 2 ^ 12 * t3 / 2 ^ 14) * 5 + 128) := by
    unfold InRange
    rcases hm with rfl | rfl | rfl | rfl <;> omega
  obtain ⟨f1, f2, f3, f4, f5, f6, f7, f8, f9⟩ := hfit
  exact ⟨f1, e1 ▸ f2, e1 ▸ f3, by rwa [e2], by rwa [e2], by rwa [e2], v1 ▸ v2 ▸ f7, v1 ▸ v2 ▸ f8, v1 ▸ v2 ▸ f9⟩

theorem toInt_toNat (x : BitVec 16) :
    (x.toNat < 0x8000 ∧ x.toInt = x.toNat) ∨ (0x8000 ≤ x.toNat ∧ x.toInt = x.toNat - 0x10000) := by
  have := x.isLt
  rw [BitVec.toInt_eq_toNat_cond]
  split <;> omega

/-- On a chip whose `dig_T2` or `dig_T3` is negative, some reading whose exact intermediates fit
comes out wrong. -/
theorem exists_wrong {c : Calibration} (h : ¬ (c.digT2.toNat < 0x8000 ∧ c.digT3.toNat < 0x8000)) :
    ∃ n : Nat, n < 2 ^ 20 ∧ c.Fits n ∧ FormulaFits c.digT1.toNat c.digT2.toNat c.digT3.toNat n ∧
      temperature c.digT1.toNat c.digT2.toNat c.digT3.toNat n ≠ c.temperature n := by
  have h1 := c.digT1.isLt
  have h2 := c.digT2.isLt
  have h3 := c.digT3.isLt
  have s2 := toInt_toNat c.digT2
  have s3 := toInt_toNat c.digT3
  -- `m = ±1` keeps `dig_T3` out of the result, `m = ±256` shows it
  obtain ⟨m, hm, hr⟩ : ∃ m : Int, (m = 1 ∨ m = -1 ∨ m = 256 ∨ m = -256) ∧
      0 ≤ c.digT1.toNat + m ∧ c.digT1.toNat + m < 2 ^ 16 ∧ (c.digT2.toNat < 0x8000 ↔ m * m ≠ 1) := by
    by_cases hT2 : c.digT2.toNat < 0x8000 <;> by_cases hT1 : c.digT1.toNat < 0x8000
    · exact ⟨256, by simp, by omega, by omega, by simp [hT2]⟩
    · exact ⟨-256, by simp, by omega, by omega, by simp [hT2]⟩
    · exact ⟨1, by simp, by omega, by omega, by simp [hT2]⟩
    · exact ⟨-1, by simp, by omega, by omega, by simp [hT2]⟩
  obtain ⟨n, hn⟩ := Int.eq_ofNat_of_zero_le (show 0 ≤ 16 * ((c.digT1.toNat : Int) + m) by omega)
  obtain ⟨fs, ts⟩ := formula_near c.digT1.toNat c.digT2.toInt c.digT3.toInt (by omega) (by omega) (by omega) hm
  obtain ⟨fu, tu⟩ := formula_near c.digT1.toNat c.digT2.toNat c.digT3.toNat (by omega) (by omega) (by omega) hm
  rw [hn] at fs ts fu tu
  refine ⟨n, by omega, fs, fu, ?_⟩
  rw [Calibration.temperature, ts, tu]
  rcases hm with rfl | rfl | rfl | rfl <;> omega

/-- The driver returns the datasheet's temperature, for every reading whose exact intermediates
fit, exactly on the chips whose calibration words `dig_T2` and `dig_T3` are not negative. -/
theorem bmp280_temperature_iff (reg : BitVec 32) (s : Bmp280 Registers) (hid : s.bus BMP280_REG_ID = BMP280_ID)
    (hu : s.gUnit = .CELSIUS) :
    (∀ regs, (calibration s.bus).Fits (rawTemperature regs) →
      (bmp280ReadTemperature sensorBus { (bmp280Init sensorBus (some (.ok reg)) s).2 with bus := regs }).1.toInt =
        (calibration s.bus).temperature (rawTemperature regs)) ↔
      (calibration s.bus).digT2.toNat < 0x8000 ∧ (calibration s.bus).digT3.toNat < 0x8000 := by
  have hcode : ∀ regs, FormulaFits (calibration s.bus).digT1.toNat (calibration s.bus).digT2.toNat
      (calibration s.bus).digT3.toNat (rawTemperature regs) →
      (bmp280ReadTemperature sensorBus { (bmp280Init sensorBus (some (.ok reg)) s).2 with bus := regs }).1.toInt =
        temperature (calibration s.bus).digT1.toNat (calibration s.bus).digT2.toNat
          (calibration s.bus).digT3.toNat (rawTemperature regs) := by
    intro regs hf
    rw [bmp280_read_after_init reg s hid hu regs, compensate_toInt] <;>
      rw [digWord_toInt, digWord_toInt, digWord_toInt, rawWord_toInt]
    · rfl
    · exact hf
  constructor
  · intro h
    by_contra hc
    obtain ⟨n, hn, hfs, hfu, hne⟩ := exists_wrong hc
    obtain ⟨regs, rfl⟩ := exists_rawTemperature hn
    exact hne ((hcode regs hfu).symm.trans (h regs hfs))
  · rintro ⟨hT2, hT3⟩ regs hf
    have s2 := toInt_toNat (calibration s.bus).digT2
    have s3 := toInt_toNat (calibration s.bus).digT3
    have e2 : (calibration s.bus).digT2.toInt = (calibration s.bus).digT2.toNat := by omega
    have e3 : (calibration s.bus).digT3.toInt = (calibration s.bus).digT3.toNat := by omega
    rw [Calibration.Fits, e2, e3] at hf
    rw [hcode regs hf, Calibration.temperature, e2, e3]

/-- The sensor with `dig_T1` = 27504, `dig_T2` = 26435 and the given `dig_T3`, and nothing else but
its identification. -/
def exampleSensor (digT3 : BitVec 16) : Registers := fun a =>
  if a = BMP280_REG_ID then BMP280_ID
  else if a = BMP280_REG_DIG_T1_MSB then 0x6B
  else if a = BMP280_REG_DIG_T1_LSB then 0x70
  else if a = BMP280_REG_DIG_T2_MSB then 0x67
  else if a = BMP280_REG_DIG_T2_LSB then 0x43
  else if a = BMP280_REG_DIG_T3_MSB then digT3.extractLsb' 8 8
  else if a = BMP280_REG_DIG_T3_LSB then digT3.extractLsb' 0 8
  else if a = BMP280_REG_TEMP_MSB then 0x7E
  else if a = BMP280_REG_TEMP_LSB then 0xED
  else 0

/-- With `dig_T3` = 1000 and the raw value 519888 both are 25.23 °C. -/
theorem bmp280_temperature_positive_digT3 :
    (bmp280ReadTemperature sensorBus
      { (bmp280Init sensorBus (some (.ok 0x76)) { bus := exampleSensor 1000 }).2 with bus := exampleSensor 1000 }).1.toInt =
        (calibration (exampleSensor 1000)).temperature (rawTemperature (exampleSensor 1000)) :=
  (bmp280_temperature_iff 0x76 { bus := exampleSensor 1000 } rfl rfl).2 (by decide +kernel) (exampleSensor 1000)
    (by constructor <;> decide +kernel)

/-- With `dig_T3` = -1000 and the raw value 519888 the datasheet's temperature is 25.08 °C, and the
driver returns 29.83 °C. -/
theorem bmp280_temperature_wrong_negative_digT3 :
    ¬ ∀ (reg : BitVec 32) (s : Bmp280 Registers) (regs : Registers), s.bus BMP280_REG_ID = BMP280_ID →
      s.gUnit = .CELSIUS → (calibration s.bus).Fits (rawTemperature regs) →
      (bmp280ReadTemperature sensorBus { (bmp280Init sensorBus (some (.ok reg)) s).2 with bus := regs }).1.toInt =
        (calibration s.bus).temperature (rawTemperature regs) := by
  intro h
  have hw := h 0x76 { bus := exampleSensor (-1000) } (exampleSensor (-1000)) rfl rfl
    (by constructor <;> decide +kernel)
  exact absurd hw (by decide +kernel)

end Td3.Driver
