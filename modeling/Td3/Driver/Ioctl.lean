/-
`char_device_ioctl` (driver/src/char_device.c): sequences of calls with any command and any argument, over a bus that
may refuse or lose each write. The argument goes through a cast to an enumeration, a shift or an `or`, and the cut to
the byte of the register, and nothing checks it on the way: a mode other than the three enumerators and a frequency
above 7 are written as they come out.
-/
import Td3.Driver.Bmp280Init

namespace Td3.Driver

/-! ## The source functions -/

/-- `_IOR`: direction, size, type and number. -/
def IOR (type nr size : BitVec 32) : BitVec 32 := 2 <<< 30 ||| size <<< 16 ||| type <<< 8 ||| nr

def MAGIC_NUMBER : BitVec 32 := 0x63
def IOCTL_CMD_SET_FREQ : BitVec 32 := IOR MAGIC_NUMBER 1 4
def IOCTL_CMD_SET_MODE : BitVec 32 := IOR MAGIC_NUMBER 2 4
def IOCTL_CMD_SET_UNIT : BitVec 32 := IOR MAGIC_NUMBER 3 4

def FORCED : S32 := 1

/-- The cast to `bmp280_unit`. -/
def bmp280Unit (operation : S32) : Bmp280Unit :=
  if operation = 0 then .CELSIUS
  else if operation = 1 then .KELVIN
  else if operation = 2 then .FAHRENHEIT
  else .other operation

section
variable {σ : Type} (bus : I2cBus σ)

/-- `arg` is what `copy_from_user` copies into `operation`, `none` where it fails. -/
def charDeviceIoctl (cmd : BitVec 32) (arg : Option S32) : StateM (Bmp280 σ) S32 :=
  match arg with
  | none => return -1
  | some operation =>
    if cmd = IOCTL_CMD_SET_FREQ then do
      let retval ← bmp280SetFrequency bus operation
      return if retval ≠ 0 then -1 else 0
    else if cmd = IOCTL_CMD_SET_MODE then do
      let retval ← bmp280SetMode bus operation
      return if retval ≠ 0 then -1 else 0
    else if cmd = IOCTL_CMD_SET_UNIT then do
      bmp280SetUnit (bmp280Unit operation)
      return 0
    else return -1

end

/-! ## Sequences of calls -/

/-- What becomes of a write: whether the driver reports success, and whether the sensor gets it. A busy bus does
neither, and a write that times out may still be sent. -/
structure WriteOutcome where
  ok : Bool
  reached : Bool
deriving DecidableEq, Repr

def WriteOutcome.refused : WriteOutcome := ⟨false, false⟩

/-- A bus on which a write ends so; its state is the list of the writes the sensor got. An ioctl reads nothing. -/
def WriteOutcome.bus (w : WriteOutcome) : I2cBus (List Transaction) where
  read _ _ got := (-1, got)
  write value regAddress slave got :=
    (writeResult w.ok, if w.reached then got ++ [.write value regAddress slave] else got)

/-- A call, and what becomes of the write it makes, if it makes one. -/
structure IoctlCall where
  cmd : BitVec 32
  arg : Option S32
  outcome : WriteOutcome

def IoctlCall.run (c : IoctlCall) : StateM (Bmp280 (List Transaction)) S32 := charDeviceIoctl c.outcome.bus c.cmd c.arg

def runCalls (s : Bmp280 (List Transaction)) (calls : List IoctlCall) : Bmp280 (List Transaction) :=
  calls.foldl (fun s c => (c.run s).2) s

/-! ## What the registers should get -/

/-- CTRL_MEAS with temperature oversampling x1, no pressure measurement, and one of the enumerators as the mode. -/
structure ValidCtrlMeas (value : BitVec 8) : Prop where
  temperature : value.extractLsb' 5 3 = 1
  pressure : value.extractLsb' 2 3 = 0
  mode : ∃ m ∈ [SLEEP, FORCED, NORMAL], value.extractLsb' 0 2 = m.setWidth 2

/-- CONFIG with the frequency in its upper three bits and nothing below. -/
def EncodesFrequency (value : BitVec 8) (freq : S32) : Prop := value.toNat = 2 ^ 5 * freq.toNat

def Transaction.Valid (arg : Option S32) : Transaction → Prop
  | .read .. => True
  | .write value regAddress _ =>
    (regAddress = BMP280_REG_CTRL_MEAS → ValidCtrlMeas value) ∧
      (regAddress = BMP280_REG_CONFIG → ∃ operation, arg = some operation ∧ EncodesFrequency value operation)

/-- The argument is a mode or a frequency that no register value stands for. -/
def IoctlCall.Unencodable (c : IoctlCall) : Prop :=
  ∃ operation, c.arg = some operation ∧
    (c.cmd = IOCTL_CMD_SET_MODE ∧ operation ∉ [SLEEP, FORCED, NORMAL] ∨
      c.cmd = IOCTL_CMD_SET_FREQ ∧ ∀ value, ¬EncodesFrequency value operation)

/-- What the sensor gets of a call is valid, and a call with an argument that cannot be encoded returns -1 and writes
nothing. -/
structure IoctlCall.Safe (s : Bmp280 (List Transaction)) (c : IoctlCall) : Prop where
  written : ∃ new, (c.run s).2.bus = s.bus ++ new ∧ (∀ t ∈ new, t.Valid c.arg) ∧ (c.Unencodable → new = [])
  rejected : c.Unencodable → (c.run s).1 = -1

/-! ## What a call does -/

theorem encodesFrequency_iff (freq : S32) : (∃ value, EncodesFrequency value freq) ↔ freq.toNat < 8 := by
  constructor
  · rintro ⟨value, h⟩
    have hlt := value.isLt
    rw [EncodesFrequency] at h
    omega
  · intro h
    refine ⟨BitVec.ofNat 8 (2 ^ 5 * freq.toNat), ?_⟩
    rw [EncodesFrequency, BitVec.toNat_ofNat]
    omega

theorem shift_encodesFrequency {freq : S32} (h : freq.toNat < 8) : EncodesFrequency ((freq <<< 5).setWidth 8) freq := by
  rw [EncodesFrequency, BitVec.toNat_setWidth, BitVec.toNat_shiftLeft, Nat.shiftLeft_eq]
  omega

theorem or_validCtrlMeas {mode : S32} (h : mode ∈ [SLEEP, FORCED, NORMAL]) :
    ValidCtrlMeas ((mode ||| BMP280_TEMP_OVERSAMPLING_X1).setWidth 8) := by
  simp only [List.mem_cons, List.not_mem_nil, or_false] at h
  rcases h with rfl | rfl | rfl
  · exact ⟨by decide, by decide, SLEEP, by decide, by decide⟩
  · exact ⟨by decide, by decide, FORCED, by decide, by decide⟩
  · exact ⟨by decide, by decide, NORMAL, by decide, by decide⟩

variable {s : Bmp280 (List Transaction)} {c : IoctlCall}

/-- The value and the register of the write a call makes. -/
def IoctlCall.request (c : IoctlCall) : Option (BitVec 8 × BitVec 8) :=
  c.arg.bind fun operation =>
    if c.cmd = IOCTL_CMD_SET_FREQ then some ((operation <<< 5).setWidth 8, BMP280_REG_CONFIG)
    else if c.cmd = IOCTL_CMD_SET_MODE then
      some ((operation ||| BMP280_TEMP_OVERSAMPLING_X1).setWidth 8, BMP280_REG_CTRL_MEAS)
    else none

/-- A write, and what the call makes of its result. -/
theorem write_bus (w : WriteOutcome) (value reg : BitVec 8) (s : Bmp280 (List Transaction)) :
    let after := (cottiI2cWrite w.bus value reg >>= fun retval => pure (if retval ≠ 0 then (-1 : S32) else 0)) s
    after.1 = writeResult w.ok ∧
      after.2.bus = s.bus ++ if w.reached then [.write value reg (s.slaveAddress.setWidth 8)] else [] := by
  obtain ⟨ok, reached⟩ := w
  constructor
  · cases ok with
    | true => rfl
    | false => rfl
  · cases reached with
    | true => rfl
    | false => exact (List.append_nil _).symm

/-- A call that makes a write returns what the bus reports, and the sensor gets the write if it is sent. -/
theorem run_of_request {value reg : BitVec 8} (h : c.request = some (value, reg)) :
    (c.run s).1 = writeResult c.outcome.ok ∧
      (c.run s).2.bus =
        s.bus ++ if c.outcome.reached then [.write value reg (s.slaveAddress.setWidth 8)] else [] := by
  obtain ⟨cmd, arg, w⟩ := c
  cases arg with
  | none => cases h
  | some operation =>
    simp only [IoctlCall.request, Option.bind_some] at h
    simp only [IoctlCall.run, charDeviceIoctl]
    split_ifs at h with hfreq hmode
    · obtain ⟨rfl, rfl⟩ := Prod.mk.inj (Option.some.inj h)
      rw [if_pos hfreq]
      exact write_bus w _ _ s
    · obtain ⟨rfl, rfl⟩ := Prod.mk.inj (Option.some.inj h)
      rw [if_neg hfreq, if_pos hmode]
      exact write_bus w _ _ s

/-- Any other call leaves the bus alone. -/
theorem run_of_no_request (h : c.request = none) : (c.run s).2.bus = s.bus := by
  obtain ⟨cmd, arg, w⟩ := c
  cases arg with
  | none => rfl
  | some operation =>
    simp only [IoctlCall.request, Option.bind_some] at h
    simp only [IoctlCall.run, charDeviceIoctl]
    split_ifs at h with hfreq hmode
    rw [if_neg hfreq, if_neg hmode]
    split_ifs
    · rfl
    · rfl

/-- An argument that cannot be encoded is written all the same. -/
theorem IoctlCall.Unencodable.request (h : c.Unencodable) : ∃ value reg, c.request = some (value, reg) := by
  obtain ⟨operation, harg, ⟨hmode, -⟩ | ⟨hfreq, -⟩⟩ := h
  · have hne : c.cmd ≠ IOCTL_CMD_SET_FREQ := by rw [hmode]; decide
    exact ⟨_, _, by rw [IoctlCall.request, harg, Option.bind_some, if_neg hne, if_pos hmode]⟩
  · exact ⟨_, _, by rw [IoctlCall.request, harg, Option.bind_some, if_pos hfreq]⟩

/-- Any other argument is encoded right. -/
theorem valid_of_request {value reg slave : BitVec 8} (h : c.request = some (value, reg)) (hc : ¬c.Unencodable) :
    (Transaction.write value reg slave).Valid c.arg := by
  rw [IoctlCall.request, Option.bind_eq_some_iff] at h
  obtain ⟨operation, harg, h⟩ := h
  rw [harg]
  split_ifs at h with hfreq hmode
  · obtain ⟨rfl, rfl⟩ := Prod.mk.inj (Option.some.inj h)
    have hlt : operation.toNat < 8 := by
      rw [← encodesFrequency_iff]
      by_contra hnone
      exact hc ⟨operation, harg, .inr ⟨hfreq, not_exists.mp hnone⟩⟩
    exact ⟨fun heq => absurd heq (by decide), fun _ => ⟨operation, rfl, shift_encodesFrequency hlt⟩⟩
  · obtain ⟨rfl, rfl⟩ := Prod.mk.inj (Option.some.inj h)
    have hmem : operation ∈ [SLEEP, FORCED, NORMAL] := by
      by_contra hnot
      exact hc ⟨operation, harg, .inl ⟨hmode, hnot⟩⟩
    exact ⟨fun _ => or_validCtrlMeas hmem, fun heq => absurd heq (by decide)⟩

/-- A call is safe just where its argument can be encoded or the bus refuses the write. -/
theorem IoctlCall.safe_iff (s : Bmp280 (List Transaction)) (c : IoctlCall) :
    c.Safe s ↔ (c.Unencodable → c.outcome = .refused) := by
  constructor
  · rintro ⟨⟨new, hbus, -, hnone⟩, hrejected⟩ hc
    obtain ⟨value, reg, hreq⟩ := hc.request
    obtain ⟨hresult, hgot⟩ := @run_of_request s c value reg hreq
    rw [hrejected hc] at hresult
    rw [hgot, hnone hc] at hbus
    rcases hw : c.outcome with ⟨ok, reached⟩
    rw [hw] at hresult hbus
    cases ok with
    | true => exact absurd hresult (show (-1 : S32) ≠ writeResult true by decide)
    | false =>
      cases reached with
      | true => simp at hbus
      | false => rfl
  · intro hrefused
    cases hreq : c.request with
    | none =>
      have hnot : ¬c.Unencodable := by
        intro hc
        obtain ⟨value, reg, hsome⟩ := hc.request
        rw [hreq] at hsome
        cases hsome
      exact ⟨⟨[], by rw [run_of_no_request hreq, List.append_nil], by simp, fun _ => rfl⟩, fun hc => absurd hc hnot⟩
    | some request =>
      obtain ⟨value, reg⟩ := request
      obtain ⟨hresult, hgot⟩ := @run_of_request s c value reg hreq
      refine ⟨⟨_, hgot, ?_, ?_⟩, ?_⟩
      · intro t ht
        by_cases hc : c.Unencodable
        · rw [hrefused hc] at ht
          simp [WriteOutcome.refused] at ht
        · split_ifs at ht
          · rw [List.mem_singleton] at ht
            rw [ht]
            exact valid_of_request hreq hc
          · simp at ht
      · intro hc
        rw [hrefused hc]
        rfl
      · intro hc
        rw [hresult, hrefused hc]
        rfl

/-! ## Whole sequences -/

/-- Every call of the sequence is safe where it is made. -/
def CallsSafe (s : Bmp280 (List Transaction)) (calls : List IoctlCall) : Prop :=
  ∀ pre c post, calls = pre ++ c :: post → c.Safe (runCalls s pre)

/-- A sequence is safe exactly where the bus refuses the write of every call whose argument cannot be encoded. -/
theorem callsSafe_iff (s : Bmp280 (List Transaction)) (calls : List IoctlCall) :
    CallsSafe s calls ↔ ∀ c ∈ calls, c.Unencodable → c.outcome = .refused := by
  constructor
  · intro h c hc
    obtain ⟨pre, post, heq⟩ := List.append_of_mem hc
    exact (c.safe_iff _).mp (h pre c post heq)
  · rintro h pre c post rfl
    exact (c.safe_iff _).mpr (h c (by simp))

/-- Mode 4 turns the pressure measurement on. -/
theorem not_callsSafe : ¬∀ s calls, CallsSafe s calls := by
  intro h
  have hsafe := h ⟨[], 0, 0, 0, 0x76, .CELSIUS⟩ [⟨IOCTL_CMD_SET_MODE, some 4, ⟨true, true⟩⟩] [] _ [] rfl
  have hrefused := (IoctlCall.safe_iff _ _).mp hsafe ⟨4, rfl, .inl ⟨rfl, by decide⟩⟩
  exact absurd hrefused (by decide)

end Td3.Driver
