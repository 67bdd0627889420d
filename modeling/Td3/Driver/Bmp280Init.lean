/-
`bmp280_init` (driver/src/bmp280.c) where the bus may fail: a transaction that fails returns -1, and only
that of the sensor's ID is looked at. The calibration words are assembled from whatever came back, and
the two writes of the configuration may both have failed when 0 is returned.
-/
import Td3.Driver.Bmp280

namespace Td3.Driver

/-! ## Transactions -/

/-- A transaction, by the register of the sensor it reads or writes. -/
inductive Transaction where
  | read (address slave : BitVec 8)
  | write (value regAddress slave : BitVec 8)
deriving DecidableEq, Repr

/-- How each transaction ends: the byte a read gets, if it succeeds, and whether a write does. -/
structure Outcomes where
  read : BitVec 8 → Option (BitVec 8)
  write : BitVec 8 → Bool

/-- What `cotti_i2c_read` returns. -/
def readResult : Option (BitVec 8) → S32
  | some byte => byte.setWidth 32
  | none => -1

/-- What `cotti_i2c_write` returns. -/
def writeResult (ok : Bool) : S32 := if ok then 0 else -1

/-- A bus on which the transactions end so; its state is the list of those issued. -/
def Outcomes.bus (p : Outcomes) : I2cBus (List Transaction) where
  read address slave issued := (readResult (p.read address), issued ++ [.read address slave])
  write value regAddress slave issued := (writeResult (p.write regAddress), issued ++ [.write value regAddress slave])

/-- The reads of the calibration, in the order of the source. -/
def calibrationRegisters : List (BitVec 8) :=
  [BMP280_REG_DIG_T1_MSB, BMP280_REG_DIG_T1_LSB, BMP280_REG_DIG_T2_MSB, BMP280_REG_DIG_T2_LSB,
    BMP280_REG_DIG_T3_MSB, BMP280_REG_DIG_T3_LSB]

/-- What `bmp280_init` issues once the sensor has answered. -/
def configuration (slave : BitVec 8) : List Transaction :=
  calibrationRegisters.map (.read · slave) ++
    [.write ((FREQ_1 <<< 5).setWidth 8) BMP280_REG_CONFIG slave,
      .write ((NORMAL ||| BMP280_TEMP_OVERSAMPLING_X1).setWidth 8) BMP280_REG_CTRL_MEAS slave]

/-- The calibration is read and the configuration written. -/
structure Outcomes.Configures (p : Outcomes) : Prop where
  reads : ∀ address ∈ calibrationRegisters, (p.read address).isSome = true
  config : p.write BMP280_REG_CONFIG = true
  ctrlMeas : p.write BMP280_REG_CTRL_MEAS = true

/-- The sensor answers with its ID, every other transaction succeeds, and the calibration words are
those of the bytes read. -/
structure Configured (p : Outcomes) (s : Bmp280 (List Transaction)) : Prop extends p.Configures where
  id : p.read BMP280_REG_ID = some BMP280_ID
  words : ∃ regs : Registers, (∀ address ∈ calibrationRegisters, p.read address = some (regs address)) ∧
    s.digT1.toNat = (calibrationWord regs BMP280_REG_DIG_T1_MSB BMP280_REG_DIG_T1_LSB).toNat ∧
    s.digT2.toNat = (calibrationWord regs BMP280_REG_DIG_T2_MSB BMP280_REG_DIG_T2_LSB).toNat ∧
    s.digT3.toNat = (calibrationWord regs BMP280_REG_DIG_T3_MSB BMP280_REG_DIG_T3_LSB).toNat

/-! ## bmp280_init -/

variable {p : Outcomes} {s : Bmp280 (List Transaction)}

/-- The sensor counts as connected exactly if its ID is read: the -1 of a failed read is 0xFF in a byte. -/
theorem bmp280IsConnected_bus (p : Outcomes) (s : Bmp280 (List Transaction)) :
    bmp280IsConnected p.bus s = (decide (p.read BMP280_REG_ID = some BMP280_ID),
      { s with bus := s.bus ++ [.read BMP280_REG_ID (s.slaveAddress.setWidth 8)] }) := by
  have hbyte : (readResult (p.read BMP280_REG_ID)).setWidth 8 = BMP280_ID ↔ p.read BMP280_REG_ID = some BMP280_ID := by
    cases p.read BMP280_REG_ID with
    | none => exact iff_of_false (by decide) nofun
    | some byte =>
      rw [readResult, Option.some_inj, BitVec.setWidth_setWidth_of_le _ (by decide), BitVec.setWidth_eq]
  exact Prod.ext (decide_eq_decide.2 hbyte) rfl

/-- A calibration word of the outcomes -/
def Outcomes.dig (p : Outcomes) (msb lsb : BitVec 8) : S32 :=
  readResult (p.read msb) <<< 8 ||| readResult (p.read lsb)

theorem readDig_bus (p : Outcomes) (msb lsb : BitVec 8) (s : Bmp280 (List Transaction)) :
    readDig p.bus msb lsb s = (p.dig msb lsb, { s with
      bus := s.bus ++ [.read msb (s.slaveAddress.setWidth 8)] ++ [.read lsb (s.slaveAddress.setWidth 8)] }) := rfl

theorem bmp280Init_bus (p : Outcomes) (reg : BitVec 32) (s : Bmp280 (List Transaction)) :
    bmp280Init p.bus (some (.ok reg)) s =
      if p.read BMP280_REG_ID = some BMP280_ID then
        (0, { s with bus := s.bus ++ [.read BMP280_REG_ID (reg.setWidth 8)] ++ configuration (reg.setWidth 8),
                     slaveAddress := reg,
                     digT1 := p.dig BMP280_REG_DIG_T1_MSB BMP280_REG_DIG_T1_LSB,
                     digT2 := p.dig BMP280_REG_DIG_T2_MSB BMP280_REG_DIG_T2_LSB,
                     digT3 := p.dig BMP280_REG_DIG_T3_MSB BMP280_REG_DIG_T3_LSB })
      else (-1, { s with bus := s.bus ++ [.read BMP280_REG_ID (reg.setWidth 8)], slaveAddress := reg }) := by
  unfold bmp280Init
  simp only [bind, StateT.bind, modify, modifyGet, MonadStateOf.modifyGet, StateT.modifyGet, pure]
  rw [bmp280IsConnected_bus]
  by_cases hid : p.read BMP280_REG_ID = some BMP280_ID
  · rw [if_pos hid, decide_eq_true hid]
    simp only [StateT.bind, readDig_bus, Bool.not_true, Bool.false_eq_true, if_false, StateT.modifyGet]
    simp [cottiI2cWrite, bmp280SetFrequency, bmp280SetMode, Outcomes.bus, bind, pure, configuration,
      calibrationRegisters]
    rfl
  · rw [if_neg hid, decide_eq_false hid]
    rfl

/-- Where the bytes are read, the word is theirs. -/
theorem dig_toNat {regs : Registers} {msb lsb : BitVec 8} (hmsb : p.read msb = some (regs msb))
    (hlsb : p.read lsb = some (regs lsb)) : (p.dig msb lsb).toNat = (calibrationWord regs msb lsb).toNat := by
  rw [Outcomes.dig, hmsb, hlsb]
  exact digWord_toNat regs msb lsb

theorem exists_registers (h : p.Configures) :
    ∃ regs : Registers, ∀ address ∈ calibrationRegisters, p.read address = some (regs address) := by
  refine ⟨fun address => (p.read address).getD 0, ?_⟩
  intro address hmem
  obtain ⟨byte, hbyte⟩ := Option.isSome_iff_exists.1 (h.reads address hmem)
  show p.read address = some ((p.read address).getD 0)
  rw [hbyte, Option.getD_some]

/-- `bmp280_init` returns 0 only with a configured sensor exactly if, once the sensor has answered with its
ID, none of the eight transactions that follow fails. -/
theorem bmp280Init_configured_iff (p : Outcomes) (node : SensorNode) (s : Bmp280 (List Transaction))
    (hnode : node ≠ some (.error 0)) :
    ((bmp280Init p.bus node s).1 = 0 → Configured p (bmp280Init p.bus node s).2) ↔
      ((∃ reg, node = some (.ok reg)) → p.read BMP280_REG_ID = some BMP280_ID → p.Configures) := by
  have hne : (-1 : S32) ≠ 0 := by decide
  rcases node with _ | retval | reg
  · refine iff_of_true ?_ ?_
    · intro h
      exact absurd h hne
    · rintro ⟨reg, hreg⟩
      cases hreg
  · refine iff_of_true ?_ ?_
    · intro h
      exact absurd (congrArg (fun r => some (Except.error r)) (show retval = 0 from h)) hnode
    · rintro ⟨reg, hreg⟩
      cases hreg
  · rw [bmp280Init_bus]
    by_cases hid : p.read BMP280_REG_ID = some BMP280_ID
    · rw [if_pos hid]
      constructor
      · intro h _ _
        exact (h rfl).toConfigures
      · intro h _
        have hconf := h ⟨reg, rfl⟩ hid
        obtain ⟨regs, hregs⟩ := exists_registers hconf
        refine ⟨hconf, hid, regs, hregs, ?_, ?_, ?_⟩
        · exact dig_toNat (hregs _ (by decide)) (hregs _ (by decide))
        · exact dig_toNat (hregs _ (by decide)) (hregs _ (by decide))
        · exact dig_toNat (hregs _ (by decide)) (hregs _ (by decide))
    · rw [if_neg hid]
      refine iff_of_true ?_ fun _ h => absurd h hid
      intro h
      exact absurd h hne

/-- Every transaction succeeds, and every register holds 0x58. -/
theorem bmp280Init_configured_example : Configured ⟨fun _ => some BMP280_ID, fun _ => true⟩
    (bmp280Init (Outcomes.bus ⟨fun _ => some BMP280_ID, fun _ => true⟩) (some (.ok 0x76)) ⟨[], 0, 0, 0, 0, .CELSIUS⟩).2 :=
  (bmp280Init_configured_iff ⟨fun _ => some BMP280_ID, fun _ => true⟩ (some (.ok 0x76))
    ⟨[], 0, 0, 0, 0, .CELSIUS⟩ (by intro h; cases h)).2 (fun _ _ => ⟨by decide, rfl, rfl⟩) rfl

/-- The sensor answers with its ID, and nothing after that succeeds. -/
theorem not_bmp280Init_configured : ¬ ∀ (p : Outcomes) (node : SensorNode) (s : Bmp280 (List Transaction)),
    node ≠ some (.error 0) → (bmp280Init p.bus node s).1 = 0 → Configured p (bmp280Init p.bus node s).2 := by
  intro h
  have hconf := h ⟨fun a => if a = BMP280_REG_ID then some BMP280_ID else none, fun _ => false⟩ (some (.ok 0x76))
    ⟨[], 0, 0, 0, 0, .CELSIUS⟩ (by intro hnode; cases hnode) (by rw [bmp280Init_bus]; rfl)
  exact absurd hconf.config (by decide)

end Td3.Driver
