/-
What `HttpServer::update_configuration` (server/src/httpserver.cpp) makes of a whole file: each key ends with the
last effective value of at least 1 that the file gives it, and keeps its old value where there is none. So the
first update leaves a 0 of the constructor where the file has no such value for a key.
-/
import Td3.Server.Update

namespace Td3.Server

open Td3.CString

/-! ## What a line sets -/

/-- The effective value that a line gives a key. -/
def Key.setting (k : Key) (line : List UInt8) : Option Int :=
  match tokens equals (lineChars line) with
  | name :: value :: _ => if name = k.name then some (k.changedValue value) else none
  | _ => none

/-- The last effective value of at least 1 that the lines give a key. -/
def Key.lastSetting (k : Key) (lines : List (List UInt8)) : Option Int :=
  ((lines.filterMap k.setting).filter (1 ≤ ·)).getLast?

/-- A line with a delimiter has a key and a value. -/
def WellFormed (line : List UInt8) : Prop :=
  equals ∈ lineChars line → 2 ≤ (tokens equals (lineChars line)).length

instance (line : List UInt8) : Decidable (WellFormed line) := inferInstanceAs (Decidable (_ → _))

/-- The line names none of the four keys. -/
def UnknownKey (line : List UInt8) : Prop := ∀ k ∈ keys, (tokens equals (lineChars line)).head? ≠ some k.name

instance (line : List UInt8) : Decidable (UnknownKey line) := inferInstanceAs (Decidable (∀ _ ∈ _, _))

/-! ## One line -/

theorem keys_name_inj {k k' : Key} (hk : k ∈ keys) (hk' : k' ∈ keys) (h : k.name = k'.name) : k = k' := by
  simp only [keys, List.mem_cons, List.not_mem_nil, or_false] at hk hk'
  rcases hk with rfl | rfl | rfl | rfl <;> rcases hk' with rfl | rfl | rfl | rfl <;>
    first
    | rfl
    | exact absurd h (by decide)

theorem keys_get_set {k k' : Key} (hk : k ∈ keys) (hk' : k' ∈ keys) (d : ServerData) (v : Int) :
    k'.get (k.set d v) = if k.name = k'.name then v else k'.get d := by
  simp only [keys, List.mem_cons, List.not_mem_nil, or_false] at hk hk'
  rcases hk with rfl | rfl | rfl | rfl <;> rcases hk' with rfl | rfl | rfl | rfl <;> rfl

/-- `serverData` is its four values, `client_count` and `temp`. -/
theorem serverData_ext {d e : ServerData} (h : ∀ k ∈ keys, k.get d = k.get e) (hcount : d.clientCount = e.clientCount)
    (htemp : d.temp = e.temp) : d = e := by
  have h1 : d.backlog = e.backlog := h backlogKey (by simp [keys])
  have h2 : d.maxClients = e.maxClients := h maxClientsKey (by simp [keys])
  have h3 : d.sensorPeriod = e.sensorPeriod := h sensorPeriodKey (by simp [keys])
  have h4 : d.samplesMovingAverageFilter = e.samplesMovingAverageFilter :=
    h samplesMovingAverageFilterKey (by simp [keys])
  cases d
  cases e
  simp_all

theorem keys_keep_temp {k : Key} (h : k ∈ keys) (d : ServerData) (v : Int) : (k.set d v).temp = d.temp := by
  simp only [keys, List.mem_cons, List.not_mem_nil, or_false] at h
  rcases h with rfl | rfl | rfl | rfl <;> rfl

/-- A value below 1 is dropped, and one that is there already is not written again. -/
theorem Key.get_update {k k' : Key} (hk : k ∈ keys) (hk' : k' ∈ keys) (value : List UInt8) (d : ServerData) :
    k'.get (k.update value d) =
      if k.name = k'.name ∧ 1 ≤ k.changedValue value then k.changedValue value else k'.get d := by
  unfold Key.update
  simp only
  split
  · rename_i heq
    split
    · rename_i hname
      rw [← keys_name_inj hk hk' hname.1, heq]
    · rfl
  · split
    · rename_i hpos
      rw [keys_get_set hk hk']
      simp only [hpos, and_true]
    · rename_i hneg
      rw [if_neg fun h => hneg h.2]

/-- A round of the loop by the tokens of its line. -/
theorem updateLine_tokens (line : List UInt8) (d : ServerData) :
    updateLine line d =
      if equals ∉ lineChars line then some d
      else
        match tokens equals (lineChars line) with
        | [] => none
        | name :: values =>
          match keys.find? (·.name = name) with
          | none => some d
          | some k => values.head?.map fun value => k.update value d := by
  unfold updateLine
  split
  · rfl
  · rw [tokens_strtok]
    cases strtok equals (lineChars line) with
    | none => rfl
    | some r =>
      obtain ⟨name, rest⟩ := r
      simp only
      cases keys.find? (·.name = name) with
      | none => rfl
      | some k =>
        simp only
        rw [tokens_strtok]
        cases strtok equals rest <;> rfl

/-- What a line does to each of the four values. -/
theorem updateLine_get {line : List UInt8} {d d' : ServerData} (h : updateLine line d = some d') {k : Key}
    (hk : k ∈ keys) : k.get d' = ((k.setting line).filter (1 ≤ ·)).getD (k.get d) := by
  rw [updateLine_tokens] at h
  unfold Key.setting
  split at h
  · -- without a delimiter there is at most one token
    rename_i hno
    cases h
    have hone : ∃ t, tokens equals (lineChars line) = t ∧ t.length ≤ 1 := by
      refine ⟨_, rfl, ?_⟩
      rw [tokens, List.splitOn_eq_singleton hno]
      exact List.length_filter_le _ _
    obtain ⟨t, ht, hlen⟩ := hone
    rw [ht]
    cases t with
    | nil => rfl
    | cons name values =>
      obtain rfl : values = [] := by
        rw [List.length_cons] at hlen
        exact List.length_eq_zero_iff.1 (by omega)
      rfl
  · cases ht : tokens equals (lineChars line) with
    | nil =>
      rw [ht] at h
      cases h
    | cons name values =>
      rw [ht] at h
      simp only at h
      cases hfind : keys.find? (·.name = name) with
      | none =>
        rw [hfind] at h
        cases h
        have hne : name ≠ k.name := by
          rintro rfl
          have hno := List.find?_eq_none.1 hfind k hk
          simp at hno
        cases values <;> simp [hne]
      | some k' =>
        have hname : k'.name = name := by simpa using List.find?_some hfind
        have hk' : k' ∈ keys := List.mem_of_find?_eq_some hfind
        rw [hfind] at h
        obtain ⟨value, hvalue, rfl⟩ := Option.map_eq_some_iff.1 h
        cases values with
        | nil => cases hvalue
        | cons v values =>
          obtain rfl : v = value := by simpa using hvalue
          rw [Key.get_update hk' hk, hname]
          simp only
          by_cases heq : name = k.name
          · obtain rfl : k' = k := keys_name_inj hk' hk (hname.trans heq)
            rw [if_pos heq, Option.filter_some]
            by_cases hpos : 1 ≤ k'.changedValue v <;> simp [heq, hpos]
          · simp [heq]

/-- A line leaves `client_count` and `temp` alone. -/
theorem updateLine_frame {line : List UInt8} {d d' : ServerData} (h : updateLine line d = some d') :
    d'.clientCount = d.clientCount ∧ d'.temp = d.temp := by
  rw [updateLine_tokens] at h
  split at h
  · cases h
    exact ⟨rfl, rfl⟩
  · split at h
    · cases h
    · split at h
      · cases h
        exact ⟨rfl, rfl⟩
      · rename_i k hfind
        obtain ⟨value, -, rfl⟩ := Option.map_eq_some_iff.1 h
        have hk := List.mem_of_find?_eq_some hfind
        rcases k.update_cases value d with hu | ⟨-, hu⟩
        · rw [hu]
          exact ⟨rfl, rfl⟩
        · rw [hu]
          exact ⟨keys_keep hk d _, keys_keep_temp hk d _⟩

theorem updateLine_isSome {line : List UInt8} (h : WellFormed line) (d : ServerData) :
    ∃ d', updateLine line d = some d' := by
  rw [updateLine_tokens]
  split
  · exact ⟨d, rfl⟩
  · rename_i hmem
    have hlen := h (Decidable.not_not.1 hmem)
    match ht : tokens equals (lineChars line), hlen with
    | name :: value :: _, _ =>
      simp only
      split
      · exact ⟨d, rfl⟩
      · exact ⟨_, rfl⟩

theorem updateLine_unknown {line : List UInt8} (hform : WellFormed line) (h : UnknownKey line) (d : ServerData) :
    updateLine line d = some d := by
  obtain ⟨d', hd'⟩ := updateLine_isSome hform d
  have hnone : ∀ k ∈ keys, k.setting line = none := by
    intro k hk
    have hk := h k hk
    unfold Key.setting
    split
    · rename_i name value rest ht
      rw [ht, List.head?_cons, ne_eq, Option.some.injEq] at hk
      rw [if_neg hk]
    · rfl
  obtain ⟨hcount, htemp⟩ := updateLine_frame hd'
  rw [hd', serverData_ext ?_ hcount htemp]
  intro k hk
  rw [updateLine_get hd' hk, hnone k hk]
  rfl

/-! ## All the lines -/

theorem Key.lastSetting_cons (k : Key) (line : List UInt8) (lines : List (List UInt8)) :
    k.lastSetting (line :: lines) = (k.lastSetting lines).or ((k.setting line).filter (1 ≤ ·)) := by
  unfold Key.lastSetting
  cases hs : k.setting line with
  | none => simp [hs]
  | some v =>
    rw [List.filterMap_cons, hs, Option.filter_some]
    simp only
    by_cases hv : 1 ≤ v
    · rw [List.filter_cons_of_pos (by simpa using hv), List.getLast?_cons, if_pos (by simpa using hv)]
      cases ((lines.filterMap k.setting).filter (1 ≤ ·)).getLast? <;> rfl
    · rw [List.filter_cons_of_neg (by simpa using hv), if_neg (by simpa using hv), Option.or_none]

/-- The last value wins. -/
theorem updateLines_get {lines : List (List UInt8)} {d : ServerData} (h : (updateLines lines d).2 = true) {k : Key}
    (hk : k ∈ keys) : k.get (updateLines lines d).1 = (k.lastSetting lines).getD (k.get d) := by
  induction lines generalizing d with
  | nil => rfl
  | cons line lines ih =>
    rw [updateLines] at h ⊢
    cases hline : updateLine line d with
    | none =>
      rw [hline] at h
      cases h
    | some d' =>
      rw [hline] at h
      simp only at h ⊢
      rw [ih h, updateLine_get hline hk, Key.lastSetting_cons]
      cases k.lastSetting lines <;> rfl

theorem updateLines_frame (lines : List (List UInt8)) (d : ServerData) :
    (updateLines lines d).1.clientCount = d.clientCount ∧ (updateLines lines d).1.temp = d.temp := by
  induction lines generalizing d with
  | nil => exact ⟨rfl, rfl⟩
  | cons line lines ih =>
    rw [updateLines]
    cases hline : updateLine line d with
    | none => exact ⟨rfl, rfl⟩
    | some d' =>
      obtain ⟨hcount, htemp⟩ := updateLine_frame hline
      exact ⟨(ih d').1.trans hcount, (ih d').2.trans htemp⟩

theorem updateLines_wellFormed {lines : List (List UInt8)} (h : ∀ line ∈ lines, WellFormed line) (d : ServerData) :
    (updateLines lines d).2 = true := by
  induction lines generalizing d with
  | nil => rfl
  | cons line lines ih =>
    obtain ⟨d', hd'⟩ := updateLine_isSome (h line List.mem_cons_self) d
    rw [updateLines, hd']
    exact ih (fun line hline => h line (List.mem_cons_of_mem _ hline)) d'

/-- A second pass over the same lines finds every last value in place. -/
theorem updateLines_idem {lines : List (List UInt8)} {d : ServerData} (h : (updateLines lines d).2 = true)
    (h' : (updateLines lines (updateLines lines d).1).2 = true) :
    (updateLines lines (updateLines lines d).1).1 = (updateLines lines d).1 := by
  obtain ⟨hcount, htemp⟩ := updateLines_frame lines (updateLines lines d).1
  refine serverData_ext ?_ hcount htemp
  intro k hk
  rw [updateLines_get h' hk, updateLines_get h hk]
  cases k.lastSetting lines <;> rfl

/-- The values after an update of a file whose lines fit the buffer and have a key and a value each; a second
update with the same file changes nothing. -/
theorem updateConfiguration_settings {bytes : List UInt8} (hfit : ∀ line ∈ textLines bytes, line.length < 255)
    (hform : ∀ line ∈ textLines bytes, WellFormed line) (d : ServerData) :
    ∃ d', updateConfiguration (some bytes) d = (d', true) ∧
      (∀ k ∈ keys, k.get d' = (k.lastSetting (textLines bytes)).getD (k.get d)) ∧
      (∀ line ∈ textLines bytes, UnknownKey line → ∀ e, updateLine line e = some e) ∧
      d'.clientCount = d.clientCount ∧ d'.temp = d.temp ∧
      updateConfiguration (some bytes) d' = (d', true) := by
  have hlines : fgetsAll 255 bytes = textLines bytes := fgetsAll_eq_textLines hfit
  have hret : ∀ e, (updateLines (textLines bytes) e).2 = true := updateLines_wellFormed hform
  have hupdate : ∀ e, updateConfiguration (some bytes) e = ((updateLines (textLines bytes) e).1, true) := by
    intro e
    rw [updateConfiguration, hlines, ← hret e]
  obtain ⟨hcount, htemp⟩ := updateLines_frame (textLines bytes) d
  refine ⟨_, hupdate d, ?_, ?_, hcount, htemp, ?_⟩
  · intro k hk
    exact updateLines_get (hret d) hk
  · intro line hline hunknown e
    exact updateLine_unknown (hform line hline) hunknown e
  · rw [hupdate, updateLines_idem (hret d) (hret _)]

/-- "max_clients=5", a comment, "x=1", "max_clients=-7" and "backlog=0" -/
def settingsFile : List UInt8 :=
  maxClientsKey.name ++ ascii ['=', '5', '\n', '#', '\n', 'x', '=', '1', '\n'] ++ maxClientsKey.name ++
    ascii ['=', '-', '7', '\n'] ++ backlogKey.name ++ ascii ['=', '0']

theorem updateConfiguration_settings_file : ∃ d', updateConfiguration (some settingsFile) {} = (d', true) ∧
    d'.maxClients = 5 ∧ d'.backlog = 2 ∧ d'.sensorPeriod = 0 := by
  have hfit : ∀ line ∈ textLines settingsFile, line.length < 255 := by decide +kernel
  obtain ⟨d', hd', hget, -⟩ := updateConfiguration_settings hfit (by decide +kernel) {}
  have hmax : maxClientsKey.lastSetting (textLines settingsFile) = some 5 := by decide +kernel
  have hbacklog : backlogKey.lastSetting (textLines settingsFile) = some 2 := by decide +kernel
  have hperiod : sensorPeriodKey.lastSetting (textLines settingsFile) = none := by decide +kernel
  refine ⟨d', hd', ?_, ?_, ?_⟩
  · exact (hget maxClientsKey (by simp [keys])).trans (by rw [hmax]; rfl)
  · exact (hget backlogKey (by simp [keys])).trans (by rw [hbacklog]; rfl)
  · exact (hget sensorPeriodKey (by simp [keys])).trans (by rw [hperiod]; rfl)

/-! ## Positive values -/

/-- `backlog`, `max_clients`, `sensor_period` and `samples_moving_average_filter` are at least 1. -/
def Configured (d : ServerData) : Prop := ∀ k ∈ keys, 1 ≤ k.get d

instance (d : ServerData) : Decidable (Configured d) := inferInstanceAs (Decidable (∀ _ ∈ _, _))

/-- What stands in the shared memory when an update starts, beside its file: the clients and the sensor have
written `client_count` and `temp`. -/
structure LaterUpdate where
  file : Option (List UInt8)
  clientCount : Int
  temp : ℚ

/-- The updates after the first one. -/
def laterUpdates : List LaterUpdate → ServerData → ServerData
  | [], d => d
  | u :: us, d => laterUpdates us (updateConfiguration u.file { d with clientCount := u.clientCount, temp := u.temp }).1

theorem keys_default_pos {k : Key} (hk : k ∈ keys) : 1 ≤ k.default := by
  simp only [keys, List.mem_cons, List.not_mem_nil, or_false] at hk
  rcases hk with rfl | rfl | rfl | rfl <;> decide

/-- Without a file every value is its default. -/
theorem updateConfiguration_absent {k : Key} (hk : k ∈ keys) (d : ServerData) :
    k.get (updateConfiguration none d).1 = k.default := by
  simp only [keys, List.mem_cons, List.not_mem_nil, or_false] at hk
  rcases hk with rfl | rfl | rfl | rfl <;> rfl

/-- An update keeps positive values, also where it does not return. -/
theorem Configured.update {d : ServerData} (h : Configured d) (file : Option (List UInt8)) :
    Configured (updateConfiguration file d).1 := by
  cases file with
  | none =>
    intro k hk
    rw [updateConfiguration_absent hk]
    exact keys_default_pos hk
  | some bytes =>
    refine updateLines_invariant (P := Configured) (fun k hk value d hd => ?_) _ d h
    intro k' hk'
    rw [Key.get_update hk hk']
    split
    · rename_i hpos
      exact hpos.2
    · exact hd k' hk'

theorem Configured.laterUpdates {d : ServerData} (h : Configured d) (us : List LaterUpdate) :
    Configured (laterUpdates us d) := by
  induction us generalizing d with
  | nil => exact h
  | cons u us ih =>
    have hd : Configured { d with clientCount := u.clientCount, temp := u.temp } := by
      intro k hk
      have hpos := h k hk
      simp only [keys, List.mem_cons, List.not_mem_nil, or_false] at hk
      rcases hk with rfl | rfl | rfl | rfl <;> exact hpos
    exact ih (hd.update u.file)

theorem Key.lastSetting_isSome_iff (k : Key) (lines : List (List UInt8)) :
    (∃ v, k.lastSetting lines = some v ∧ 1 ≤ v) ↔ ∃ line ∈ lines, ∃ v, k.setting line = some v ∧ 1 ≤ v := by
  constructor
  · rintro ⟨v, hv, hpos⟩
    have hmem := List.mem_filter.1 (List.mem_of_getLast? hv)
    obtain ⟨line, hline, hs⟩ := List.mem_filterMap.1 hmem.1
    exact ⟨line, hline, v, hs, hpos⟩
  · rintro ⟨line, hline, v, hs, hpos⟩
    have hmem : v ∈ (lines.filterMap k.setting).filter (1 ≤ ·) := by
      rw [List.mem_filter]
      exact ⟨List.mem_filterMap.2 ⟨line, hline, hs⟩, decide_eq_true hpos⟩
    cases hlast : k.lastSetting lines with
    | none =>
      rw [List.getLast?_eq_none_iff.1 hlast] at hmem
      cases hmem
    | some w =>
      exact ⟨w, rfl, of_decide_eq_true (List.mem_filter.1 (List.mem_of_getLast? hlast)).2⟩

/-- After a first update of zeros, a value is positive exactly where the file sets it. -/
theorem configured_first_iff {bytes : List UInt8} (h : (updateConfiguration (some bytes) {}).2 = true) :
    Configured (updateConfiguration (some bytes) {}).1 ↔
      ∀ k ∈ keys, ∃ line ∈ fileLines bytes, ∃ v, k.setting line = some v ∧ 1 ≤ v := by
  refine forall_congr' fun k => imp_congr_right fun hk => ?_
  have hzero : k.get {} = 0 := by
    simp only [keys, List.mem_cons, List.not_mem_nil, or_false] at hk
    rcases hk with rfl | rfl | rfl | rfl <;> rfl
  have hget : k.get (updateConfiguration (some bytes) {}).1 = (k.lastSetting (fileLines bytes)).getD (k.get {}) :=
    updateLines_get h hk
  rw [← Key.lastSetting_isSome_iff, hget, hzero]
  cases k.lastSetting (fileLines bytes) <;> simp

/-- The four values are positive after the first update and ever after exactly where the configuration file
cannot be opened, or gives each of them an effective value of at least 1. -/
theorem configured_iff {first : Option (List UInt8)} (h : (updateConfiguration first {}).2 = true) :
    (∀ us, Configured (laterUpdates us (updateConfiguration first {}).1)) ↔
      ∀ bytes, first = some bytes → ∀ k ∈ keys, ∃ line ∈ fileLines bytes, ∃ v, k.setting line = some v ∧ 1 ≤ v := by
  constructor
  · rintro hall bytes rfl
    exact (configured_first_iff h).1 (hall [])
  · intro hfile us
    refine Configured.laterUpdates ?_ us
    cases first with
    | none => decide
    | some bytes => exact (configured_first_iff h).2 (hfile bytes rfl)

/-- No file at first, and the file above at a later update -/
theorem configured_absent : Configured (laterUpdates [⟨some settingsFile, 1, 20⟩] (updateConfiguration none {}).1) := by
  have hreturned : (updateConfiguration none {}).2 = true := rfl
  exact (configured_iff hreturned).2 (by rintro _ ⟨⟩) [⟨some settingsFile, 1, 20⟩]

/-- "max_clients=5" and no other key: the backlog stays 0. -/
theorem not_configured : ¬ ∀ first : Option (List UInt8), (updateConfiguration first {}).2 = true →
    ∀ us, Configured (laterUpdates us (updateConfiguration first {}).1) := by
  intro h
  have hmax := h (some (maxClientsKey.name ++ ascii ['=', '5'])) (by decide) []
  exact absurd hmax (by decide)

end Td3.Server
