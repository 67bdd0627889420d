/-
`char_device_read` (driver/src/char_device.c) and the line of `TempSensor::read_sensor`
(server/src/temp_sensor.cpp) that decodes its text.

The text is `"%d.%02d\n"` of the C quotient and remainder by 100. The remainder of a negative
temperature carries a sign of its own, at which the decoder stops: the whole degrees arrive, the
hundredths do not.
-/
import Td3.Lib.CString
import Td3.Lib.Decimal

namespace Td3.Driver

open Td3.CString Td3.Decimal

/-! ## The source functions -/

def newline : UInt8 := 10

/-- `snprintf(out_string, size, ...)` of a text: what `out_string` holds up to its NUL. -/
def snprintf (size : Nat) (text : List UInt8) : List UInt8 := text.take (size - 1) ++ [0]

/-- "%d.%02d\n" of a temperature in hundredths. -/
def temperatureText (temperature : Int) : List UInt8 :=
  formatInt 0 (temperature.tdiv 100) ++ point :: (formatInt 2 (temperature.tmod 100) ++ [newline])

/-- `char_device_read(file, user_buffer, count, offs)` when `bmp280_read_temperature` returns
`temperature`: its value, and the bytes copied to the user. -/
def charDeviceRead (temperature : Int) (count : Nat) : Int × List UInt8 :=
  if temperature = -6666 then (-1, [])
  else
    let outString := snprintf 10 (temperatureText temperature)
    let toCopy := min count ((strlen outString).getD 0 + 1)
    (toCopy, outString.take toCopy)

/-- The temperature `read_sensor` stores after a `read(fd, str_temp, sizeof(str_temp))`, where
`strTemp` holds the contents of `str_temp` before it. -/
def readSensor (strTemp : List UInt8) (temperature : Int) : ℚ :=
  let copied := (charDeviceRead temperature strTemp.length).2
  atof (copied ++ strTemp.drop copied.length)

/-! ## The text -/

/-- C's quotient and remainder by 100, sign by sign. -/
theorem tdiv_tmod_cases (t : Int) :
    (0 ≤ t ∧ t.tdiv 100 = t / 100 ∧ t.tmod 100 = t % 100) ∨
      (t < 0 ∧ t.tdiv 100 = -(-t / 100) ∧ t.tmod 100 = -(-t % 100)) := by
  rcases le_or_gt 0 t with h | h
  · exact .inl ⟨h, Int.tdiv_eq_ediv_of_nonneg h, Int.tmod_eq_emod_of_nonneg h⟩
  · have h0 : 0 ≤ -t := by omega
    refine .inr ⟨h, ?_, ?_⟩
    · rw [← Int.tdiv_eq_ediv_of_nonneg h0, Int.neg_tdiv, neg_neg]
    · rw [← Int.tmod_eq_emod_of_nonneg h0, Int.neg_tmod, neg_neg]

/-- A quotient and remainder by 100 as the text spells them. -/
theorem temperatureText_eq (t : Int) :
    temperatureText t = signText (t.tdiv 100 < 0) ++ (decimal (t.tdiv 100).natAbs ++
      point :: (formatInt 2 (t.tmod 100) ++ [newline])) := by
  simp [temperatureText, formatInt]

theorem zero_not_mem_temperatureText (t : Int) : 0 ∉ temperatureText t := by
  simp [temperatureText, zero_not_mem_formatInt, point, newline]

theorem temperatureText_length {t : Int} (h : -27315 ≤ t ∧ t ≤ 99999) : (temperatureText t).length ≤ 9 := by
  have hs : ∀ b : Bool, (signText b).length ≤ 1 := by decide
  have hc := tdiv_tmod_cases t
  have hq : (decimal (t.tdiv 100).natAbs).length ≤ 3 := decimal_length_le (by decide) (by omega)
  have hr : (decimal (t.tmod 100).natAbs).length ≤ 2 := decimal_length_le (by decide) (by omega)
  have := hs (decide (t.tdiv 100 < 0))
  have := hs (decide (t.tmod 100 < 0))
  simp only [temperatureText, List.length_append, List.length_cons, List.length_nil, formatInt_length]
  omega

/-- The whole text reaches `str_temp`, with its NUL. -/
theorem readSensor_eq {t : Int} (h : -27315 ≤ t ∧ t ≤ 99999) (he : t ≠ -6666) {strTemp : List UInt8}
    (hl : strTemp.length = 20) : ∃ s, readSensor strTemp t = atof (temperatureText t ++ s) := by
  have hlen := temperatureText_length h
  have hsn : snprintf 10 (temperatureText t) = temperatureText t ++ [0] := by
    rw [snprintf, List.take_of_length_le (by omega)]
  have hcopy : (charDeviceRead t strTemp.length).2 = temperatureText t ++ [0] := by
    rw [charDeviceRead, if_neg he]
    simp only [hsn, strlen_terminated (zero_not_mem_temperatureText t), Option.getD_some]
    exact List.take_of_length_le (by simp; omega)
  unfold readSensor
  simp only [hcopy, List.append_assoc]
  exact ⟨_, rfl⟩

/-! ## What is decoded -/

/-- The two digits of a remainder. -/
theorem formatInt_two {r : Nat} (h : r < 100) : (formatInt 2 r).length = 2 ∧ number (formatInt 2 r) = r := by
  have hd : (decimal r).length ≤ 2 := decimal_length_le (by decide) (by omega)
  refine ⟨?_, number_formatInt 2 r⟩
  rw [formatInt_natCast, List.length_append, List.length_replicate]
  omega

/-- A quotient and a remainder that is not negative are read as `q + r / 100`, away from zero. -/
theorem atof_text {t : Int} {r : Nat} (hr : t.tmod 100 = r) (hlt : r < 100) (s : List UInt8) :
    atof (temperatureText t ++ s) =
      (if t.tdiv 100 < 0 then -1 else 1) * ((t.tdiv 100).natAbs + (r : ℚ) / 100) := by
  obtain ⟨hlen, hnum⟩ := formatInt_two hlt
  have hf : ∀ d ∈ formatInt 2 (r : Int), isDigit d = true := fun d hd => isDigit_of_mem_formatInt hd
  have h := atof_printed (t.tdiv 100 < 0) (t.tdiv 100).natAbs _ hf (c := newline) (by decide) (by decide) s
  rw [hlen, hnum] at h
  rw [temperatureText_eq, hr]
  simp only [List.append_assoc, List.cons_append, List.nil_append]
  rw [h]
  simp only [decide_eq_true_eq]
  norm_num

/-- A non-negative temperature is read with its hundredths. -/
theorem atof_text_nonneg {t : Int} (h : 0 ≤ t) (s : List UInt8) : atof (temperatureText t ++ s) = t / 100 := by
  obtain ⟨-, hq, hr⟩ | ⟨h', -, -⟩ := tdiv_tmod_cases t
  · obtain ⟨n, rfl⟩ := Int.eq_ofNat_of_zero_le h
    rw [atof_text (r := n % 100) (by omega) (by omega), if_neg (by omega), hq]
    have hn : ((n : Int) / 100).natAbs = n / 100 := by omega
    have hdm : ((n / 100 : Nat) : ℚ) * 100 + (n % 100 : Nat) = n := by exact_mod_cast Nat.div_add_mod' n 100
    rw [hn, Int.cast_natCast]
    linarith
  · omega

/-- A negative temperature of whole degrees is read exactly. -/
theorem atof_text_neg_whole {t : Int} (h : t < 0) (hdvd : (100 : Int) ∣ t) (s : List UInt8) :
    atof (temperatureText t ++ s) = t / 100 := by
  obtain ⟨k, rfl⟩ := hdvd
  obtain ⟨h', -, -⟩ | ⟨-, hq, hr⟩ := tdiv_tmod_cases (100 * k)
  · omega
  · have hqk : (100 * k).tdiv 100 = k := by omega
    rw [atof_text (r := 0) (by omega) (by decide), if_pos (by omega), hqk]
    have hn : (k.natAbs : ℚ) = -k := by
      rw [Nat.cast_natAbs, abs_of_neg (by omega), Int.cast_neg]
    push_cast
    rw [hn]
    ring

/-- A negative temperature with hundredths is read as its whole degrees: the number ends at the
sign of the remainder. -/
theorem atof_text_neg {t : Int} (h : t < 0) (hdvd : ¬ (100 : Int) ∣ t) (s : List UInt8) :
    atof (temperatureText t ++ s) = t.tdiv 100 := by
  obtain ⟨h', -, -⟩ | ⟨-, hq, hr⟩ := tdiv_tmod_cases t
  · omega
  · obtain ⟨ds, hds⟩ := formatInt_neg 2 (show t.tmod 100 < 0 by omega)
    have hp := atof_printed (t.tdiv 100 < 0) (t.tdiv 100).natAbs [] nofun (c := minus) (by decide)
      (by decide) (ds ++ newline :: s)
    rw [temperatureText_eq, hds]
    simp only [List.append_assoc, List.cons_append, List.nil_append] at hp ⊢
    rw [hp]
    have hn : (((t.tdiv 100).natAbs : ℚ)) = -(t.tdiv 100 : Int) := by
      rw [Nat.cast_natAbs, abs_of_nonpos (by omega), Int.cast_neg]
    have h0 : number [] = 0 := rfl
    rw [hn, h0]
    by_cases hneg : t.tdiv 100 < 0
    · simp [hneg]
    · have : t.tdiv 100 = 0 := by omega
      simp [this]

/-! ## When a temperature survives -/

/-- The temperature arrives unchanged, whatever `str_temp` held before. -/
def RoundTrip (t : Int) : Prop := ∀ strTemp : List UInt8, strTemp.length = 20 → readSensor strTemp t = t / 100

/-- A temperature from -273.15 to 999.99 °C arrives unchanged exactly when it is not negative or a
whole number of degrees. -/
theorem temperature_roundTrip_iff (t : Int) (h : -27315 ≤ t ∧ t ≤ 99999) : RoundTrip t ↔ 0 ≤ t ∨ (100 : Int) ∣ t := by
  constructor
  · intro hrt
    by_contra hc
    obtain ⟨hneg, hdvd⟩ := not_or.1 hc
    -- -66.66 is the driver's error value: nothing is copied
    by_cases he : t = -6666
    · subst he
      have := hrt (List.replicate 20 0) rfl
      revert this
      decide +kernel
    · have hl : (List.replicate 20 (0 : UInt8)).length = 20 := List.length_replicate
      obtain ⟨s, hs⟩ := readSensor_eq h he hl
      have := hrt _ hl
      rw [hs, atof_text_neg (by omega) hdvd, eq_div_iff (by norm_num)] at this
      have hmul : t.tdiv 100 * 100 = t := by exact_mod_cast this
      exact hdvd ⟨t.tdiv 100, by omega⟩
  · intro hc strTemp hl
    obtain ⟨s, hs⟩ := readSensor_eq h (by rintro rfl; revert hc; decide) hl
    rw [hs]
    by_cases h0 : 0 ≤ t
    · exact atof_text_nonneg h0 s
    · exact atof_text_neg_whole (by omega) (hc.resolve_left h0) s

/-- 25.08 °C arrives unchanged. -/
theorem roundTrip_2508 : RoundTrip 2508 := (temperature_roundTrip_iff 2508 (by decide)).2 (Or.inl (by decide))

/-- -1.50 °C is printed as "-1.-50" and read as -1. -/
theorem not_roundTrip_minus_150 : ¬ ∀ t : Int, -27315 ≤ t ∧ t ≤ 99999 → RoundTrip t := by
  intro h
  have := h (-150) (by decide) (List.replicate 20 0) rfl
  revert this
  decide +kernel

end Td3.Driver
