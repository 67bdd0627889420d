/-
One temperature from three transactions (`bmp280_read_temperature` in driver/src/bmp280.c), while the
sensor goes on replacing its sample. Each byte is one of the sample that is current when its register is
read; nothing holds the sample from the first read to the last, so the three may be of three samples.
-/
import Td3.Driver.Bmp280

namespace Td3.Driver

/-! ## The raw value -/

section
variable {σ : Type} (bus : I2cBus σ)

/-- `bmp280_read_temperature` up to the raw value; `none` where a read fails. -/
def readRawTemp : StateM (Bmp280 σ) (Option S32) := do
  let d1 ← cottiI2cRead bus BMP280_REG_TEMP_MSB
  if d1 = -1 then return none
  let d2 ← cottiI2cRead bus BMP280_REG_TEMP_LSB
  if d2 = -1 then return none
  let d3 ← cottiI2cRead bus BMP280_REG_TEMP_XLSB
  if d3 = -1 then return none
  return some ((d1 <<< 16 ||| d2 <<< 8 ||| d3).sshiftRight 4)

/-- What is made of it. -/
def finishTemperature (raw : Option S32) (s : Bmp280 σ) : S32 :=
  match raw with
  | none => BMP280_ERROR
  | some rawTemp => convert (compensate s.digT1 s.digT2 s.digT3 rawTemp) s.gUnit

theorem bmp280ReadTemperature_eq (s : Bmp280 σ) : bmp280ReadTemperature bus s =
    (finishTemperature (readRawTemp bus s).1 (readRawTemp bus s).2, (readRawTemp bus s).2) := by
  unfold bmp280ReadTemperature readRawTemp
  obtain ⟨d1, s1, h1⟩ : ∃ d t, cottiI2cRead bus BMP280_REG_TEMP_MSB s = (d, t) := ⟨_, _, rfl⟩
  simp only [bind, StateT.bind, h1]
  split_ifs
  · rfl
  obtain ⟨d2, s2, h2⟩ : ∃ d t, cottiI2cRead bus BMP280_REG_TEMP_LSB s1 = (d, t) := ⟨_, _, rfl⟩
  simp only [bind, StateT.bind, h2]
  split_ifs
  · rfl
  obtain ⟨d3, s3, h3⟩ : ∃ d t, cottiI2cRead bus BMP280_REG_TEMP_XLSB s2 = (d, t) := ⟨_, _, rfl⟩
  simp only [bind, StateT.bind, h3]
  split_ifs
  · rfl
  · rfl

end

/-! ## A sensor that free-runs -/

/-- The registers that hold a sample of 20 bits. -/
def sampleRegisters (sample : BitVec 20) : Registers := fun address =>
  if address = BMP280_REG_TEMP_MSB then .ofNat 8 (sample.toNat / 2 ^ 12)
  else if address = BMP280_REG_TEMP_LSB then .ofNat 8 (sample.toNat / 2 ^ 4)
  else if address = BMP280_REG_TEMP_XLSB then .ofNat 8 (sample.toNat % 2 ^ 4 * 2 ^ 4)
  else 0

/-- The sample current at each instant, and for a transaction begun at an instant how long it takes to
the read of the register, how long from there on, and whether it fails. -/
structure Schedule where
  sample : Nat → BitVec 20
  before : Nat → Nat
  after : Nat → Nat
  fails : Nat → Bool

namespace Schedule

/-- The instant at which a transaction begun at `now` reads the register. -/
def readAt (sch : Schedule) (now : Nat) : Nat := now + sch.before now

/-- The instant at which it has returned. -/
def next (sch : Schedule) (now : Nat) : Nat := sch.readAt now + sch.after now + 1

/-- The bus to this sensor; its state is the current instant. -/
def bus (sch : Schedule) : I2cBus Nat where
  read address _ now :=
    (if sch.fails now then -1 else (sampleRegisters (sch.sample (sch.readAt now)) address).setWidth 32, sch.next now)
  write _ _ _ now := (if sch.fails now then -1 else 0, sch.next now)

/-- The instants of the three reads of a call begun at `now`. -/
def first (sch : Schedule) (now : Nat) : Nat := sch.readAt now
def second (sch : Schedule) (now : Nat) : Nat := sch.readAt (sch.next now)
def third (sch : Schedule) (now : Nat) : Nat := sch.readAt (sch.next (sch.next now))

/-- The sensor holds the sample at some instant from `now` to `later`. -/
def Held (sch : Schedule) (now later : Nat) (sample : BitVec 20) : Prop :=
  ∃ t, now ≤ t ∧ t ≤ later ∧ sch.sample t = sample

/-- Every raw value that a call reads is a sample held during the call. -/
def FromOneSample (sch : Schedule) (s : Bmp280 Nat) : Prop :=
  ∀ raw, (readRawTemp sch.bus s).1 = some raw →
    ∃ sample, sch.Held s.bus (readRawTemp sch.bus s).2.bus sample ∧ raw.toInt = sample.toNat

/-- The registers as the three reads of a call find them. -/
def registersRead (sch : Schedule) (now : Nat) : Registers := fun address =>
  if address = BMP280_REG_TEMP_MSB then sampleRegisters (sch.sample (sch.first now)) address
  else if address = BMP280_REG_TEMP_LSB then sampleRegisters (sch.sample (sch.second now)) address
  else sampleRegisters (sch.sample (sch.third now)) address

variable {sch : Schedule} {s : Bmp280 Nat}

theorem instants (sch : Schedule) (now : Nat) : now ≤ sch.first now ∧ sch.first now < sch.second now ∧
    sch.second now < sch.third now ∧ sch.third now < sch.next (sch.next (sch.next now)) := by
  simp only [first, second, third, next, readAt]
  omega

/-- The call returns after its third transaction, with the value of the registers it found. -/
theorem readRawTemp_bus {raw : S32} (h : (readRawTemp sch.bus s).1 = some raw) :
    raw = rawWord (sch.registersRead s.bus) ∧
      (readRawTemp sch.bus s).2.bus = sch.next (sch.next (sch.next s.bus)) := by
  have hread : ∀ (address : BitVec 8) (s : Bmp280 Nat), cottiI2cRead sch.bus address s =
      (if sch.fails s.bus then -1 else (sampleRegisters (sch.sample (sch.readAt s.bus)) address).setWidth 32,
        { s with bus := sch.next s.bus }) := fun _ _ => rfl
  have hbyte : ∀ b : BitVec 8, b.setWidth 32 ≠ (-1 : S32) := by decide
  unfold readRawTemp at h ⊢
  simp only [bind, StateT.bind, hread] at h ⊢
  cases h1 : sch.fails s.bus with
  | true =>
    rw [h1] at h
    cases h
  | false =>
  simp only [h1, Bool.false_eq_true, if_false, hbyte, bind, StateT.bind, hread] at h ⊢
  cases h2 : sch.fails (sch.next s.bus) with
  | true =>
    rw [h2] at h
    cases h
  | false =>
  simp only [h2, Bool.false_eq_true, if_false, hbyte, bind, StateT.bind, hread] at h ⊢
  cases h3 : sch.fails (sch.next (sch.next s.bus)) with
  | true =>
    rw [h3] at h
    cases h
  | false =>
  simp only [h3, Bool.false_eq_true, if_false, hbyte] at h ⊢
  exact ⟨(Option.some.inj h).symm, rfl⟩

theorem tempRegisters_ne : BMP280_REG_TEMP_LSB ≠ BMP280_REG_TEMP_MSB ∧
    BMP280_REG_TEMP_XLSB ≠ BMP280_REG_TEMP_MSB ∧ BMP280_REG_TEMP_XLSB ≠ BMP280_REG_TEMP_LSB := by decide

/-- The raw value has the high byte of the first sample, the middle byte of the second and the low bits
of the third. -/
theorem rawTemperature_registersRead (sch : Schedule) (now : Nat) : rawTemperature (sch.registersRead now) =
    (sch.sample (sch.first now)).toNat / 2 ^ 12 * 2 ^ 12 +
      (sch.sample (sch.second now)).toNat / 2 ^ 4 % 2 ^ 8 * 2 ^ 4 + (sch.sample (sch.third now)).toNat % 2 ^ 4 := by
  obtain ⟨h1, h2, h3⟩ := tempRegisters_ne
  have hfirst := (sch.sample (sch.first now)).isLt
  simp only [rawTemperature, registersRead, sampleRegisters, if_true, h1, h2, h3, if_false, BitVec.toNat_ofNat]
  omega

/-- A sample that the three bytes fit: the high byte of the first sample is its own, and so on. -/
def Fits (sch : Schedule) (now : Nat) (sample : BitVec 20) : Prop :=
  (∀ address, sch.registersRead now address = sampleRegisters sample address)

theorem rawTemperature_sampleRegisters (sample : BitVec 20) :
    rawTemperature (sampleRegisters sample) = sample.toNat := by
  obtain ⟨h1, h2, h3⟩ := tempRegisters_ne
  have hlt := sample.isLt
  simp only [rawTemperature, sampleRegisters, if_true, h1, h2, h3, if_false, BitVec.toNat_ofNat]
  omega

/-- The bytes determine the value and the value the bytes. -/
theorem fits_iff {now : Nat} {sample : BitVec 20} :
    sch.Fits now sample ↔ rawTemperature (sch.registersRead now) = sample.toNat := by
  constructor
  · intro h
    rw [← rawTemperature_sampleRegisters, funext h]
  · intro h address
    rw [rawTemperature_registersRead] at h
    rw [registersRead]
    split_ifs with hmsb hlsb
    · rw [hmsb, sampleRegisters, sampleRegisters, if_pos rfl, if_pos rfl]
      congr 1
      omega
    · have h1 := tempRegisters_ne.1
      rw [hlsb, sampleRegisters, sampleRegisters, if_neg h1, if_neg h1, if_pos rfl, if_pos rfl]
      apply BitVec.eq_of_toNat_eq
      rw [BitVec.toNat_ofNat, BitVec.toNat_ofNat]
      omega
    · rw [sampleRegisters, sampleRegisters, if_neg hmsb, if_neg hmsb, if_neg hlsb, if_neg hlsb]
      split_ifs
      · congr 1
        omega
      · rfl

/-- A raw value is put together from the samples current at the three reads. It is one that the sensor held
during the call exactly if one of those it held has these three bytes, as it has if the sample is not
replaced between the first read and the last. -/
theorem readRawTemp_sample_iff (sch : Schedule) (s : Bmp280 Nat) (raw : S32)
    (h : (readRawTemp sch.bus s).1 = some raw) :
    raw.toInt = ((sch.sample (sch.first s.bus)).toNat / 2 ^ 12 * 2 ^ 12 +
      (sch.sample (sch.second s.bus)).toNat / 2 ^ 4 % 2 ^ 8 * 2 ^ 4 +
      (sch.sample (sch.third s.bus)).toNat % 2 ^ 4 : Nat) ∧
    ((∃ sample, sch.Held s.bus (readRawTemp sch.bus s).2.bus sample ∧ raw.toInt = sample.toNat) ↔
      ∃ sample, sch.Held s.bus (readRawTemp sch.bus s).2.bus sample ∧ sch.Fits s.bus sample) ∧
    ((∀ t, sch.first s.bus ≤ t → t ≤ sch.third s.bus → sch.sample t = sch.sample (sch.first s.bus)) →
      ∃ sample, sch.Held s.bus (readRawTemp sch.bus s).2.bus sample ∧ raw.toInt = sample.toNat) := by
  obtain ⟨rfl, hend⟩ := readRawTemp_bus h
  obtain ⟨hfirst, hsecond, hthird, hlast⟩ := sch.instants s.bus
  have hraw := rawWord_toInt (sch.registersRead s.bus)
  refine ⟨?_, ?_, ?_⟩
  · rw [hraw, rawTemperature_registersRead]
  · simp only [hraw, fits_iff, Nat.cast_inj]
  · intro hsame
    refine ⟨sch.sample (sch.first s.bus), ⟨_, hfirst, ?_, rfl⟩, ?_⟩
    · rw [hend]
      omega
    · rw [hraw, rawTemperature_registersRead, hsame _ hsecond.le hthird.le, hsame _ (by omega) le_rfl]
      have hlt := (sch.sample (sch.first s.bus)).isLt
      congr 1
      omega

/-- The sensor replaces its sample before the first read, at 1, and after the last one, at 7. -/
def replacedOutside : Schedule where
  sample t := if t < 1 then 0x11111 else if t ≤ 7 then 0x7FFFF else 0x80000
  before _ := 1
  after _ := 1
  fails _ := false

theorem readRawTemp_sample_example :
    ∃ sample, replacedOutside.Held 0 9 sample ∧ (0x7FFFF : S32).toInt = sample.toNat := by
  refine (readRawTemp_sample_iff replacedOutside ⟨0, 0, 0, 0, 0, .CELSIUS⟩ 0x7FFFF (by decide)).2.2 ?_
  intro t hfirst hthird
  have hlo : 1 ≤ t := hfirst
  have hhi : t ≤ 7 := hthird
  have hsample : replacedOutside.sample t = 0x7FFFF := by
    show (if t < 1 then 0x11111 else if t ≤ 7 then 0x7FFFF else 0x80000) = (0x7FFFF : BitVec 20)
    rw [if_neg (Nat.not_lt.2 hlo), if_pos hhi]
  exact hsample

/-- The sample goes from 0x7FFFF to 0x80000 after the first read: 0x7F000 is read. -/
theorem not_fromOneSample : ¬ ∀ (sch : Schedule) (s : Bmp280 Nat), sch.FromOneSample s := by
  intro h
  obtain ⟨sample, ⟨t, -, -, ht⟩, hsample⟩ := h ⟨fun t => if t = 0 then 0x7FFFF else 0x80000, fun _ => 0, fun _ => 0,
    fun _ => false⟩ ⟨0, 0, 0, 0, 0, .CELSIUS⟩ 0x7F000 (by decide)
  have hcases : sample = 0x7FFFF ∨ sample = 0x80000 := by
    by_cases h0 : t = 0
    · exact .inl (ht.symm.trans (if_pos h0))
    · exact .inr (ht.symm.trans (if_neg h0))
  rcases hcases with rfl | rfl
  · exact absurd hsample (by decide)
  · exact absurd hsample (by decide)

end Schedule

end Td3.Driver
