/-
From the sensor's registers to the client: what `bmp280_read_temperature` computes, `char_device_read` prints,
`TempSensor::read_sensor` decodes and averages and `response_update` prints again. The transfers on the bus
succeed, and `float` is exact.

Only the negative temperatures that are no whole degrees lose anything on their way but the last rounding: their
hundredths.
-/
import Td3.Driver.Bmp280
import Td3.Driver.CharDevice
import Td3.Server.MovingAverage
import Td3.Server.UpdateJson

namespace Td3.Server

open Td3.Decimal
open Td3.Driver (Bmp280 Registers Calibration sensorBus bmp280Init bmp280ReadTemperature charDeviceRead calibration
  rawTemperature digWord)

/-! ## The measurements -/

/-- The driver, and the sensor thread with its buffer for the text -/
structure Thermometer where
  driver : Bmp280 Registers
  strTemp : List UInt8
  sampling : Sampling := {}

/-- What an iteration meets: the sensor's registers, the size of the window, and whether its memory is granted. -/
structure Measurement where
  regs : Registers
  samples : Nat
  allocates : Bool := true

/-- An iteration of `read_sensor`, down to the sensor. -/
def Thermometer.measure (t : Thermometer) (m : Measurement) : Thermometer :=
  -- without a window the device is not read
  if m.samples = 0 then { t with sampling := t.sampling.iterate ⟨m.samples, m.allocates, t.strTemp⟩ }
  else
    let (temperature, driver) := bmp280ReadTemperature sensorBus { t.driver with bus := m.regs }
    let copied := (charDeviceRead temperature.toInt t.strTemp.length).2
    let strTemp := copied ++ t.strTemp.drop copied.length
    { driver, strTemp, sampling := t.sampling.iterate ⟨m.samples, m.allocates, strTemp⟩ }

def Thermometer.run : Thermometer → List Measurement → Thermometer
  | t, [] => t
  | t, m :: ms => (t.measure m).run ms

/-! ## What arrives of a temperature -/

/-- A negative temperature with hundredths -/
def Lossy (temperature : Int) : Prop := temperature < 0 ∧ ¬ (100 : Int) ∣ temperature

instance Lossy.decidable (temperature : Int) : Decidable (Lossy temperature) := inferInstanceAs (Decidable (_ ∧ _))

/-- What `read_sensor` decodes of a temperature in hundredths -/
def decoded (temperature : Int) : ℚ := if Lossy temperature then (temperature.tdiv 100 : Int) else temperature / 100

/-- The driver tells it from an error, and its text fits. -/
def Printable (temperature : Int) : Prop := (-27315 ≤ temperature ∧ temperature ≤ 99999) ∧ temperature ≠ -6666

theorem readSensor_decoded {temperature : Int} (h : Printable temperature) {strTemp : List UInt8}
    (hl : strTemp.length = 20) : Driver.readSensor strTemp temperature = decoded temperature := by
  obtain ⟨s, hs⟩ := Driver.readSensor_eq h.1 h.2 hl
  rw [hs]
  unfold decoded
  split_ifs with hlossy
  · exact Driver.atof_text_neg hlossy.1 hlossy.2 s
  · by_cases h0 : 0 ≤ temperature
    · exact Driver.atof_text_nonneg h0 s
    · have hdvd : (100 : Int) ∣ temperature := by
        by_contra hno
        exact hlossy ⟨by omega, hno⟩
      exact Driver.atof_text_neg_whole (by omega) hdvd s

/-- A lossy temperature arrives less than a degree too high. -/
theorem abs_decoded_sub_le (temperature : Int) :
    |decoded temperature - temperature / 100| ≤ if Lossy temperature then 1 else 0 := by
  unfold decoded
  split_ifs with hlossy
  · obtain ⟨h0, -, -⟩ | ⟨-, hq, hr⟩ := Driver.tdiv_tmod_cases temperature
    · exact absurd hlossy.1 (by omega)
    · have hlo : 100 * temperature.tdiv 100 ≤ temperature + 100 := by omega
      have hhi : temperature ≤ 100 * temperature.tdiv 100 := by omega
      have hlo' : (100 : ℚ) * (temperature.tdiv 100 : Int) ≤ temperature + 100 := by exact_mod_cast hlo
      have hhi' : (temperature : ℚ) ≤ 100 * (temperature.tdiv 100 : Int) := by exact_mod_cast hhi
      rw [abs_le]
      constructor <;> linarith
  · rw [sub_self, abs_zero]

theorem abs_sum_decoded_le (ts : List Int) :
    |(ts.map decoded).sum - (ts.map fun t : Int => (t / 100 : ℚ)).sum| ≤ ts.countP fun t => Lossy t := by
  induction ts with
  | nil => simp
  | cons t ts ih =>
    have ht := abs_decoded_sub_le t
    have hcount : ((t :: ts).countP (fun t => Lossy t) : ℚ) =
        (if Lossy t then 1 else 0) + (ts.countP fun t => Lossy t : Nat) := by
      rw [List.countP_cons]
      by_cases hlossy : Lossy t
      · simp [hlossy, add_comm]
      · simp [hlossy]
    rw [hcount, List.map_cons, List.map_cons, List.sum_cons, List.sum_cons]
    calc |decoded t + (ts.map decoded).sum - (t / 100 + (ts.map fun t : Int => (t / 100 : ℚ)).sum)|
        = |(decoded t - t / 100) + ((ts.map decoded).sum - (ts.map fun t : Int => (t / 100 : ℚ)).sum)| := by
          congr 1
          ring
      _ ≤ |decoded t - t / 100| + |(ts.map decoded).sum - (ts.map fun t : Int => (t / 100 : ℚ)).sum| := abs_add_le _ _
      _ ≤ _ := add_le_add ht ih

/-- The lossy temperatures among the last `n` -/
def lossyCount (n : Nat) (ts : List Int) : Nat := (ts.drop (ts.length - n)).countP fun t => Lossy t

theorem windowMean_decoded (n : Nat) (ts : List Int) :
    |windowMean n (ts.map decoded) - windowMean n (ts.map fun t : Int => (t / 100 : ℚ))| ≤ lossyCount n ts / n := by
  have hsum := abs_sum_decoded_le (ts.drop (ts.length - n))
  have hdiff : windowMean n (ts.map decoded) - windowMean n (ts.map fun t : Int => (t / 100 : ℚ)) =
      (((ts.drop (ts.length - n)).map decoded).sum -
        ((ts.drop (ts.length - n)).map fun t : Int => (t / 100 : ℚ)).sum) / n := by
    simp only [windowMean, List.length_map, List.map_drop]
    ring
  rw [hdiff, abs_div, Nat.abs_cast]
  exact div_le_div_of_nonneg_right hsum (Nat.cast_nonneg n)

/-! ## The iterations -/

/-- The driver has read the calibration of this sensor, and its unit is as it was. -/
structure Calibrated (driver : Bmp280 Registers) (c : Calibration) : Prop where
  unit : driver.gUnit = .CELSIUS
  digT1 : driver.digT1.toInt = c.digT1.toNat
  digT2 : driver.digT2.toInt = c.digT2.toInt
  digT3 : driver.digT3.toInt = c.digT3.toInt

/-- `bmp280_init` on a chip whose second and third calibration words are not negative -/
theorem calibrated_init {reg : BitVec 32} {s : Bmp280 Registers} (hid : s.bus Driver.BMP280_REG_ID = Driver.BMP280_ID)
    (hu : s.gUnit = .CELSIUS) (h2 : (calibration s.bus).digT2.toNat < 0x8000)
    (h3 : (calibration s.bus).digT3.toNat < 0x8000) :
    Calibrated (bmp280Init sensorBus (some (.ok reg)) s).2 (calibration s.bus) := by
  obtain ⟨regs, hinit⟩ := Driver.bmp280Init_sensorBus reg s hid
  have s2 := Driver.toInt_toNat (calibration s.bus).digT2
  have s3 := Driver.toInt_toNat (calibration s.bus).digT3
  rw [hinit]
  constructor
  · exact hu
  · exact Driver.digWord_toInt _ _ _
  · have hword := Driver.digWord_toInt s.bus Driver.BMP280_REG_DIG_T2_MSB Driver.BMP280_REG_DIG_T2_LSB
    change ((digWord s.bus _ _).toInt : Int) = ((calibration s.bus).digT2.toNat : Int) at hword
    show (digWord s.bus _ _).toInt = _
    omega
  · have hword := Driver.digWord_toInt s.bus Driver.BMP280_REG_DIG_T3_MSB Driver.BMP280_REG_DIG_T3_LSB
    change ((digWord s.bus _ _).toInt : Int) = ((calibration s.bus).digT3.toNat : Int) at hword
    show (digWord s.bus _ _).toInt = _
    omega

/-- What the datasheet gives for the sensor's registers -/
def Measurement.temperature (c : Calibration) (m : Measurement) : Int := c.temperature (rawTemperature m.regs)

theorem Calibrated.read {driver : Bmp280 Registers} {c : Calibration} (h : Calibrated driver c) (regs : Registers)
    (hfits : c.Fits (rawTemperature regs)) :
    (bmp280ReadTemperature sensorBus { driver with bus := regs }).1.toInt = c.temperature (rawTemperature regs) ∧
      Calibrated (bmp280ReadTemperature sensorBus { driver with bus := regs }).2 c := by
  have hstate : (bmp280ReadTemperature sensorBus { driver with bus := regs }).2 = { driver with bus := regs } := by
    have hne : ∀ b : BitVec 8, ¬ b.setWidth 32 = (-1 : Driver.S32) := by decide
    have hr : ∀ a, Driver.cottiI2cRead sensorBus a { driver with bus := regs } =
        ((regs a).setWidth 32, { driver with bus := regs }) := fun _ => rfl
    unfold bmp280ReadTemperature
    simp only [bind, StateT.bind, hr, hne, if_false, get, getThe, MonadStateOf.get, StateT.get, pure]
    rfl
  constructor
  · rw [Driver.bmp280ReadTemperature_sensorBus { driver with bus := regs } h.unit, Driver.compensate_toInt]
    · rw [h.digT1, h.digT2, h.digT3, Driver.rawWord_toInt]
      rfl
    · rw [h.digT1, h.digT2, h.digT3, Driver.rawWord_toInt]
      exact hfits
  · rw [hstate]
    exact ⟨h.unit, h.digT1, h.digT2, h.digT3⟩

/-- The measurement fits into the driver's arithmetic and its text. -/
def Measurement.Arrives (c : Calibration) (m : Measurement) : Prop :=
  c.Fits (rawTemperature m.regs) ∧ Printable (m.temperature c)

/-- The driver knows its sensor, and the buffer has its 20 bytes. -/
def Thermometer.Ready (c : Calibration) (t : Thermometer) : Prop := Calibrated t.driver c ∧ t.strTemp.length = 20

theorem length_charDeviceRead_le (temperature : Int) (count : Nat) :
    (charDeviceRead temperature count).2.length ≤ count := by
  unfold charDeviceRead
  split
  · exact Nat.zero_le _
  · refine (List.length_take_le _ _).trans ?_
    exact Nat.min_le_left _ _

/-- An iteration with a window pushes what is decoded of the temperature. -/
theorem Thermometer.Ready.measure {c : Calibration} {t : Thermometer} (h : t.Ready c) {m : Measurement}
    (hm : m.Arrives c) (hsamples : m.samples ≠ 0) : (t.measure m).Ready c ∧ ∃ it : Iteration,
      it.samples = m.samples ∧ it.allocates = m.allocates ∧ atof it.strTemp = decoded (m.temperature c) ∧
      (t.measure m).sampling = t.sampling.iterate it := by
  obtain ⟨hcalibrated, hlength⟩ := h
  obtain ⟨hread, hnext⟩ := hcalibrated.read m.regs hm.1
  have hdecoded := readSensor_decoded hm.2 hlength
  cases hr : bmp280ReadTemperature sensorBus { t.driver with bus := m.regs } with
  | mk temperature driver =>
    rw [hr] at hread hnext
    have hmeasure : t.measure m = ⟨driver, (charDeviceRead temperature.toInt t.strTemp.length).2 ++
        t.strTemp.drop (charDeviceRead temperature.toInt t.strTemp.length).2.length,
        t.sampling.iterate ⟨m.samples, m.allocates, (charDeviceRead temperature.toInt t.strTemp.length).2 ++
          t.strTemp.drop (charDeviceRead temperature.toInt t.strTemp.length).2.length⟩⟩ := by
      unfold Thermometer.measure
      rw [if_neg hsamples, hr]
    rw [hmeasure]
    refine ⟨⟨hnext, ?_⟩, _, rfl, rfl, ?_, rfl⟩
    · have hle := length_charDeviceRead_le temperature.toInt t.strTemp.length
      rw [List.length_append, List.length_drop]
      omega
    · have hT : temperature.toInt = m.temperature c := hread
      rw [hT]
      exact hdecoded

/-- A run of measurements is a run of iterations that read what is decoded. -/
theorem Thermometer.Ready.run {c : Calibration} {t : Thermometer} (h : t.Ready c) {ms : List Measurement}
    (hms : ∀ m ∈ ms, m.Arrives c ∧ m.samples ≠ 0) : ∃ its : List Iteration,
      (t.run ms).sampling = t.sampling.run its ∧ its.map (·.samples) = ms.map (·.samples) ∧
      its.map (·.allocates) = ms.map (·.allocates) ∧
      readings its = (ms.map (Measurement.temperature c)).map decoded := by
  induction ms generalizing t with
  | nil => exact ⟨[], rfl, rfl, rfl, rfl⟩
  | cons m ms ih =>
    obtain ⟨⟨harrives, hsamples⟩, hrest⟩ := List.forall_mem_cons.1 hms
    obtain ⟨hnext, it, hs, ha, hdecoded, hit⟩ := h.measure harrives hsamples
    obtain ⟨its, hrun, hss, has, hreadings⟩ := ih hnext hrest
    refine ⟨it :: its, ?_, ?_, ?_, ?_⟩
    · rw [Thermometer.run, hrun, hit]
      rfl
    · rw [List.map_cons, List.map_cons, hs, hss]
    · rw [List.map_cons, List.map_cons, ha, has]
    · simp only [readings, List.map_cons] at hreadings ⊢
      rw [hdecoded, hreadings]

/-! ## What the client reads -/

/-- After any measurements with a window of `n` from a new one on, the client finds in the JSON the mean of the
datasheet's last `n` temperatures, the window filled up with 25: up to half a hundredth, and up to a degree for
each `n`-th of them that is negative and no whole number. -/
theorem client_reads_mean {c : Calibration} {t : Thermometer} (hready : t.Ready c) {n : Nat}
    (hnew : t.sampling.prevSamples ≠ n) (hindex : t.sampling.currentSample < n) {ms : List Measurement} (hne : ms ≠ [])
    (hms : ∀ m ∈ ms, m.samples = n ∧ m.allocates = true ∧ m.Arrives c) {d : ServerData} (h : d.Values)
    (htemp : d.temp = (t.run ms).sampling.shmTemp) :
    ∃ temp, (∀ files, ((loaded files (responseUpdate d h)).bind fun f => Json.readObject f.bytes).bind
        (List.lookup tempName) = some temp) ∧
      |temp - windowMean n ((ms.map (Measurement.temperature c)).map fun t : Int => (t / 100 : ℚ))| ≤
        1 / 200 + lossyCount n (ms.map (Measurement.temperature c)) / n := by
  obtain ⟨its, hrun, hsamples, hallocates, hreadings⟩ := hready.run fun m hm =>
    ⟨(hms m hm).2.2, by have := (hms m hm).1; omega⟩
  have hits : ∀ it ∈ its, it.samples = n := by
    intro it hit
    have hmem := List.mem_map_of_mem (f := Iteration.samples) hit
    rw [hsamples] at hmem
    obtain ⟨m, hm, heq⟩ := List.mem_map.1 hmem
    rw [← heq]
    exact (hms m hm).1
  have halloc : ∀ it ∈ its, it.allocates = true := by
    intro it hit
    have hmem := List.mem_map_of_mem (f := Iteration.allocates) hit
    rw [hallocates] at hmem
    obtain ⟨m, hm, heq⟩ := List.mem_map.1 hmem
    rw [← heq]
    exact (hms m hm).2.1
  have hne' : its ≠ [] := by
    rintro rfl
    exact hne (List.map_eq_nil_iff.1 hsamples.symm)
  have hmean : d.temp = windowMean n ((ms.map (Measurement.temperature c)).map decoded) := by
    rw [htemp, hrun, Sampling.run_new_window hne' hits hnew hindex fun it hit => halloc it (List.mem_of_mem_head? hit),
      hreadings]
  refine ⟨fixed2 d.temp, ?_, ?_⟩
  · intro files
    rw [readObject_body files h]
    rfl
  · have hround := abs_fixed2_sub_le d.temp
    have hlossy := windowMean_decoded n (ms.map (Measurement.temperature c))
    rw [← hmean] at hlossy
    exact (abs_sub_le _ d.temp _).trans (add_le_add hround hlossy)

/-- A thermometer with `dig_T3` = 1000, at its first measurement -/
def exampleThermometer : Thermometer where
  driver := (bmp280Init sensorBus (some (.ok 0x76)) { bus := Driver.exampleSensor 1000 }).2
  strTemp := List.replicate 20 0

theorem exampleThermometer_ready : exampleThermometer.Ready (calibration (Driver.exampleSensor 1000)) :=
  ⟨calibrated_init rfl rfl (by decide) (by decide), List.length_replicate⟩

/-- 25.23 °C and a window of two -/
def exampleMeasurement : Measurement := ⟨Driver.exampleSensor 1000, 2, true⟩

theorem exampleMeasurement_arrives : exampleMeasurement.Arrives (calibration (Driver.exampleSensor 1000)) := by
  constructor
  · constructor <;> decide +kernel
  · unfold Printable
    decide +kernel

def exampleData : ServerData := { temp := (exampleThermometer.run [exampleMeasurement]).sampling.shmTemp }

theorem exampleData_values : exampleData.Values := by
  constructor
  · decide
  · decide +kernel

theorem client_reads_mean_example : ∃ temp,
    (∀ files, ((loaded files (responseUpdate exampleData exampleData_values)).bind fun f =>
        Json.readObject f.bytes).bind (List.lookup tempName) = some temp) ∧
      |temp - windowMean 2 (([exampleMeasurement].map (Measurement.temperature
        (calibration (Driver.exampleSensor 1000)))).map fun t : Int => (t / 100 : ℚ))| ≤
        1 / 200 + lossyCount 2 ([exampleMeasurement].map (Measurement.temperature
          (calibration (Driver.exampleSensor 1000)))) / 2 := by
  refine client_reads_mean exampleThermometer_ready (by decide) (by decide) (List.cons_ne_nil _ _) ?_
    exampleData_values rfl
  rintro m hm
  rw [List.mem_singleton.1 hm]
  exact ⟨rfl, rfl, exampleMeasurement_arrives⟩

end Td3.Server
