/-
`HttpServer::response_update` (server/src/httpserver.cpp): the JSON text of `serverData`. Whatever values
its fields hold, the text fits into `res.route`, is sent as raw data, and reads back as those values, the
temperature to a hundredth.

The fields are read without the semaphore, each at its own moment: nothing here relates one to another.
-/
import Td3.Lib.Json
import Td3.Server.Clients
import Td3.Server.Response

namespace Td3.Server

open Td3.CString Td3.Decimal Td3.Json Td3.Reader

/-! ## The source function -/

/-- What `sprintf` prints into `res.route`. -/
def updateText (d : ServerData) : List UInt8 :=
  List.flatten [
    ascii ['{', '"', 'b', 'a', 'c', 'k', 'l', 'o', 'g', '"', ':', ' '], formatInt 0 d.backlog,
    ascii [',', '"', 'm', 'a', 'x', '_', 'c', 'l', 'i', 'e', 'n', 't', 's', '"', ':', ' '], formatInt 0 d.maxClients,
    ascii [',', '"', 's', 'e', 'n', 's', 'o', 'r', '_', 'p', 'e', 'r', 'i', 'o', 'd', '"', ':', ' '],
    formatInt 0 d.sensorPeriod,
    ascii [',', '"', 's', 'a', 'm', 'p', 'l', 'e', 's', '_', 'm', 'o', 'v', 'i', 'n', 'g', '_', 'a', 'v', 'e', 'r', 'a',
      'g', 'e', '_', 'f', 'i', 'l', 't', 'e', 'r', '"', ':', ' '], formatInt 0 d.samplesMovingAverageFilter,
    ascii [',', '"', 'c', 'l', 'i', 'e', 'n', 't', 's', '"', ':', ' '], formatInt 0 d.clientCount,
    ascii [',', '"', 't', 'e', 'm', 'p', '"', ':', ' '], formatFixed2 d.temp,
    ascii ['}']]

/-- The values of the fields: `int`s, and a `float` that is a number. -/
structure ServerData.Values (d : ServerData) : Prop where
  ints : ∀ v ∈ [d.backlog, d.maxClients, d.sensorPeriod, d.samplesMovingAverageFilter, d.clientCount],
    -2 ^ 31 ≤ v ∧ v < 2 ^ 31
  temp : |d.temp| < 2 ^ 128

/-! ## The text -/

def clientsName : List UInt8 := ascii ['c', 'l', 'i', 'e', 'n', 't', 's']
def tempName : List UInt8 := ascii ['t', 'e', 'm', 'p']

/-- A text that starts with a sign or a digit -/
def StartsNumber (text : List UInt8) : Prop := ∃ c s, text = c :: s ∧ (c = minus ∨ isDigit c = true)

theorem startsNumber_decimal (neg : Bool) (n : Nat) (s : List UInt8) :
    StartsNumber (signText neg ++ (decimal n ++ s)) := by
  cases neg with
  | true => exact ⟨minus, decimal n ++ s, rfl, .inl rfl⟩
  | false =>
    obtain ⟨c, ds, hds⟩ := List.exists_cons_of_ne_nil (decimal_ne_nil n)
    have hc : isDigit c = true := isDigit_of_mem_decimal (n := n) (by simp [hds])
    exact ⟨c, ds ++ s, by rw [hds]; rfl, .inr hc⟩

theorem StartsNumber.white {text : List UInt8} (h : StartsNumber text) (rest : List UInt8) :
    Stops isWhite (text ++ rest) := by
  obtain ⟨c, s, rfl, hc⟩ := h
  intro d hd
  rw [← Option.some.inj hd]
  rcases hc with rfl | hc
  · decide
  · have hne (e : UInt8) (he : isDigit e = false) : c ≠ e := ne_of_isDigit hc he
    simp [isWhite, hne 32 (by decide), hne 9 (by decide), hne 10 (by decide), hne 13 (by decide)]

theorem startsNumber_formatInt (i : Int) : StartsNumber (formatInt 0 i) := by
  have h := startsNumber_decimal (i < 0) i.natAbs []
  simpa [formatInt] using h

/-- A member that is printed with `%d` -/
def intMember (name : List UInt8) (i : Int) (hname : ∀ c ∈ name, isPlain c = true) : Member :=
  ⟨name, formatInt 0 i, i, hname, reads_formatInt i, (startsNumber_formatInt i).white⟩

/-- A member that is printed with `%.2f` -/
def fixedMember (name : List UInt8) (q : ℚ) (hname : ∀ c ∈ name, isPlain c = true) : Member :=
  ⟨name, formatFixed2 q, fixed2 q, hname, (reads_formatFixed2 q).mono fun _ h => h.1,
    (startsNumber_decimal ..).white⟩

theorem keys_plain : ∀ k ∈ keys, ∀ c ∈ k.name, isPlain c = true := by
  have h : keys.all (fun k => k.name.all isPlain) = true := by decide
  exact fun k hk c hc => List.all_eq_true.1 (List.all_eq_true.1 h k hk) c hc

theorem clientsName_plain : ∀ c ∈ clientsName, isPlain c = true := List.all_eq_true.1 (by decide)

theorem tempName_plain : ∀ c ∈ tempName, isPlain c = true := List.all_eq_true.1 (by decide)

/-- The members of the text: the four settings, the clients and the temperature -/
def updateMembers (d : ServerData) : List Member :=
  [intMember backlogKey.name d.backlog (keys_plain _ (by simp [keys])),
    intMember maxClientsKey.name d.maxClients (keys_plain _ (by simp [keys])),
    intMember sensorPeriodKey.name d.sensorPeriod (keys_plain _ (by simp [keys])),
    intMember samplesMovingAverageFilterKey.name d.samplesMovingAverageFilter (keys_plain _ (by simp [keys])),
    intMember clientsName d.clientCount clientsName_plain, fixedMember tempName d.temp tempName_plain]

theorem updateText_eq (d : ServerData) : updateText d = object (updateMembers d) := by
  simp only [updateText, object, updateMembers, List.map_cons, List.map_nil, joined, intMember, fixedMember, memberText,
    List.flatten_cons, List.flatten_nil, List.append_assoc, List.append_nil]
  rfl

/-! ## The response -/

theorem formatInt_length_le {i : Int} (h : -2 ^ 31 ≤ i ∧ i < 2 ^ 31) : (formatInt 0 i).length ≤ 11 := by
  have hsign : (signText (i < 0)).length ≤ 1 := by
    unfold signText
    split <;> simp
  have hdigits : (decimal i.natAbs).length ≤ 10 := decimal_length_le (by omega) (by omega)
  rw [formatInt_length]
  omega

/-- A `float` has 39 digits before the point at most. -/
theorem formatFixed2_length_le {q : ℚ} (h : |q| < 2 ^ 128) : (formatFixed2 q).length ≤ 43 := by
  have hlt : hundredths q < 100 * 2 ^ 128 + 1 := hundredths_lt (by exact_mod_cast h)
  have hsign : (signText (q < 0)).length ≤ 1 := by
    unfold signText
    split <;> simp
  have hdigits : (decimal (hundredths q / 100)).length ≤ 39 := decimal_length_le (by omega) (by omega)
  simp only [formatFixed2, List.length_append, List.length_cons, List.length_nil]
  omega

/-- `sprintf` stays inside `res.route`. -/
theorem updateText_fits {d : ServerData} (h : d.Values) : (updateText d).length < ROUTE_SIZE := by
  obtain ⟨hbacklog, hmax, hperiod, hsamples, hcount, -⟩ := by
    simpa only [List.forall_mem_cons] using h.ints
  have h1 := formatInt_length_le hbacklog
  have h2 := formatInt_length_le hmax
  have h3 := formatInt_length_le hperiod
  have h4 := formatInt_length_le hsamples
  have h5 := formatInt_length_le hcount
  have h6 := formatFixed2_length_le h.temp
  simp only [updateText, ascii, List.flatten_cons, List.flatten_nil, List.length_append, List.length_map,
    List.length_cons, List.length_nil, ROUTE_SIZE]
  omega

theorem zero_not_mem_formatFixed2 (q : ℚ) : 0 ∉ formatFixed2 q := by
  have hsign : (0 : UInt8) ∉ signText (q < 0) := by
    unfold signText
    split <;> simp [minus]
  have hfraction : (0 : UInt8) ∉ [digit (hundredths q % 100 / 10), digit (hundredths q % 10)] := fun hmem =>
    absurd (isDigit_fraction (hundredths q) 0 hmem) (by decide)
  have hpoint : (0 : UInt8) ≠ point := by decide
  simp only [formatFixed2, List.mem_append, List.mem_cons, hsign, zero_not_mem_decimal, hpoint, false_or]
  simpa using hfraction

theorem updateText_noNul (d : ServerData) : 0 ∉ updateText d := by
  simp only [updateText, ascii, List.flatten_cons, List.flatten_nil, List.mem_append, zero_not_mem_formatInt,
    zero_not_mem_formatFixed2, false_or, or_false, List.not_mem_nil]
  decide

/-- `response_update()`. -/
def responseUpdate (d : ServerData) (h : d.Values) : HttpResponse where
  route := updateText d
  mimeType := .JSON
  code := .OK
  conn := .CLOSE
  fits := updateText_fits h
  noNul := updateText_noNul d

/-- The text is no route: no file is opened for it. -/
theorem loaded_responseUpdate (files : List UInt8 → Option File) {d : ServerData} (h : d.Values) :
    loaded files (responseUpdate d h) = some { bytes := updateText d } := by
  have hhead : (updateText d).head? ≠ some slash := by
    rw [updateText_eq]
    exact fun hslash => absurd (Option.some.inj hslash) (by decide : openBrace ≠ slash)
  exact if_neg hhead

/-- The body, read as JSON -/
theorem readObject_body (files : List UInt8 → Option File) {d : ServerData} (h : d.Values) :
    (loaded files (responseUpdate d h)).bind (fun f => readObject f.bytes) =
      some ((keys.map fun k => (k.name, (k.get d : ℚ))) ++ [(clientsName, (d.clientCount : ℚ)),
        (tempName, fixed2 d.temp)]) := by
  have hread : readObject (updateText d) = some ((updateMembers d).map fun m => (m.name, m.value)) := by
    rw [updateText_eq]
    exact readObject_object (List.cons_ne_nil _ _)
  rw [loaded_responseUpdate files h, Option.bind_some]
  exact hread

/-- Whoever reads the body as JSON finds the five `int`s, and the temperature to half a hundredth. -/
theorem update_read_back (d : ServerData) (h : d.Values) : ∃ temp : ℚ, |temp - d.temp| ≤ 1 / 200 ∧
    ∀ files, (loaded files (responseUpdate d h)).bind (fun f => readObject f.bytes) =
      some ((keys.map fun k => (k.name, (k.get d : ℚ))) ++ [(clientsName, (d.clientCount : ℚ)), (tempName, temp)]) :=
  ⟨fixed2 d.temp, abs_fixed2_sub_le d.temp, fun files => readObject_body files h⟩

/-- One client, at three eighths of a degree below zero -/
def coldData : ServerData := keys.foldl (fun d k => k.set d k.default) { clientCount := 1, temp := -3 / 8 }

theorem coldData_values : coldData.Values := by
  constructor
  · decide
  · norm_num [coldData, keys, backlogKey, maxClientsKey, sensorPeriodKey, samplesMovingAverageFilterKey]

theorem update_read_back_cold : ∃ temp : ℚ, |temp + 3 / 8| ≤ 1 / 200 ∧
    ∀ files, (loaded files (responseUpdate coldData coldData_values)).bind (fun f => readObject f.bytes) =
      some ((keys.map fun k => (k.name, (k.default : ℚ))) ++ [(clientsName, 1), (tempName, temp)]) := by
  obtain ⟨temp, hdist, hread⟩ := update_read_back coldData coldData_values
  refine ⟨temp, ?_, ?_⟩
  · have htemp : coldData.temp = -(3 / 8) := by
      norm_num [coldData, keys, backlogKey, maxClientsKey, sensorPeriodKey, samplesMovingAverageFilterKey]
    rwa [htemp, sub_neg_eq_add] at hdist
  · intro files
    have hnames : (keys.map fun k => (k.name, (k.get coldData : ℚ))) =
        keys.map fun k => (k.name, (k.default : ℚ)) := rfl
    have hcount : (coldData.clientCount : ℚ) = 1 := by norm_num [coldData, keys, backlogKey, maxClientsKey,
      sensorPeriodKey, samplesMovingAverageFilterKey]
    rw [hread files, hnames, hcount]

end Td3.Server
