/-
`HttpServer::update_configuration` (server/src/httpserver.cpp) as a section of the semaphore: on which
files it comes to its `sem++`.

A line with a delimiter but no key, or with one of the keys but no value, gives `strcmp` or `atoi` the
null pointer of `strtok`, and the process ends with the semaphore taken.
-/
import Td3.Server.Config
import Td3.Server.Sem

namespace Td3.Server

open Td3.CString

/-! ## The section -/

/-- A call of `update_configuration`: `serverData` and the semaphore's value after it, how often it
released the semaphore, and whether it returned. -/
structure Update where
  data : ServerData
  value : Nat
  releases : Nat
  returned : Bool
deriving DecidableEq, Repr

/-- `sem--; ...; sem++`, where the two `semop()` end with `dec` and `inc`; `none` while the first one
blocks. A process that ends inside does not come to the `sem++`. -/
def updateSection (file : Option (List UInt8)) (value : Nat) (dec inc : SemopResult) (d : ServerData) :
    Option Update :=
  (Sem.op value (-1) dec).bind fun (_, value) =>
    match updateConfiguration file d with
    | (data, false) => some { data, value, releases := 0, returned := false }
    | (data, true) => (Sem.op value 1 inc).map fun (ret, value) =>
        { data, value, releases := if ret = -1 then 0 else 1, returned := true }

/-- The call returned and released the semaphore once, whose value is what it was. -/
def Update.Balanced (u : Update) (value : Nat) : Prop := u.returned = true ∧ u.releases = 1 ∧ u.value = value

instance (u : Update) (value : Nat) : Decidable (u.Balanced value) := inferInstanceAs (Decidable (_ ∧ _))

/-! ## The lines that are not survived -/

/-- A line of delimiters around nothing, or around one of the keys -/
def NoValue (line : List UInt8) : Prop :=
  ∃ i name j, 0 < i + j ∧ lineChars line = List.replicate i equals ++ (name ++ List.replicate j equals) ∧
    (name = [] ∨ ∃ k ∈ keys, k.name = name)

/-- The lines of a file, as `fgets` cuts them -/
def fileLines (bytes : List UInt8) : List (List UInt8) := fgetsAll 255 bytes

theorem keys_name {k : Key} (h : k ∈ keys) : k.name ≠ [] ∧ equals ∉ k.name := by
  simp only [keys, List.mem_cons, List.not_mem_nil, or_false] at h
  rcases h with rfl | rfl | rfl | rfl <;> decide

/-- What is looked up by its name is found where a key has that name. -/
theorem find_key {name : List UInt8} (h : ∃ k ∈ keys, k.name = name) :
    ∃ k, keys.find? (·.name = name) = some k := by
  rw [← Option.isSome_iff_exists, List.find?_isSome]
  obtain ⟨k, hk, rfl⟩ := h
  exact ⟨k, hk, decide_eq_true rfl⟩

theorem updateLine_of_noValue {line : List UInt8} (h : NoValue line) (d : ServerData) : updateLine line d = none := by
  obtain ⟨i, name, j, hij, hline, hname⟩ := h
  have hmem : equals ∈ lineChars line := by
    rw [hline]
    rcases Nat.add_pos_iff_pos_or_pos.1 hij with hi | hj
    · exact List.mem_append_left _ (List.mem_replicate.2 ⟨hi.ne', rfl⟩)
    · exact List.mem_append_right _ (List.mem_append_right _ (List.mem_replicate.2 ⟨hj.ne', rfl⟩))
  rw [updateLine, if_neg (not_not_intro hmem), hline]
  rcases hname with rfl | hk
  · rw [List.nil_append, ← List.replicate_add, strtok_eq_none_iff.2 ⟨_, rfl⟩]
  · obtain ⟨k', hk', rfl⟩ := hk
    obtain ⟨k, hfind⟩ := find_key ⟨k', hk', rfl⟩
    rw [strtok_replicate (keys_name hk').1 (keys_name hk').2]
    simp only [hfind, strtok_eq_none_iff.2 ⟨_, rfl⟩, Option.map_none]

theorem noValue_of_updateLine {line : List UInt8} {d : ServerData} (h : updateLine line d = none) : NoValue line := by
  unfold updateLine at h
  split at h
  · cases h
  · rename_i hmem
    have hmem := Decidable.not_not.1 hmem
    split at h
    · -- no key
      rename_i hkey
      obtain ⟨n, hn⟩ := strtok_eq_none_iff.1 hkey
      rw [hn] at hmem
      have hpos := Nat.pos_of_ne_zero (List.mem_replicate.1 hmem).1
      exact ⟨n, [], 0, hpos, by simpa using hn, .inl rfl⟩
    · rename_i key rest hkey
      split at h
      · cases h
      · -- a key without a value
        rename_i k hfind
        have hname : k.name = key := by simpa using List.find?_some hfind
        have hknown := List.mem_of_find?_eq_some hfind
        obtain ⟨n, rfl⟩ := strtok_eq_none_iff.1 (Option.map_eq_none_iff.1 h)
        obtain ⟨-, hno, i, ⟨hs, -⟩ | hs⟩ := strtok_eq_some hkey
        · rw [hs] at hmem
          have hi : equals ∈ List.replicate i equals := (List.mem_append.1 hmem).resolve_right hno
          have hpos := Nat.pos_of_ne_zero (List.mem_replicate.1 hi).1
          exact ⟨i, key, 0, hpos, by simpa using hs, .inr ⟨k, hknown, hname⟩⟩
        · exact ⟨i, key, n + 1, by omega, hs, .inr ⟨k, hknown, hname⟩⟩

theorem updateLine_eq_none_iff (line : List UInt8) (d : ServerData) : updateLine line d = none ↔ NoValue line :=
  ⟨noValue_of_updateLine, fun h => updateLine_of_noValue h d⟩

/-- The loop comes to its end unless a line stops it. -/
theorem updateLines_returned (lines : List (List UInt8)) (d : ServerData) :
    (updateLines lines d).2 = true ↔ ∀ line ∈ lines, ¬ NoValue line := by
  induction lines generalizing d with
  | nil => simp [updateLines]
  | cons line lines ih =>
    rw [updateLines, List.forall_mem_cons]
    cases hline : updateLine line d with
    | none =>
      have hno := (updateLine_eq_none_iff line d).1 hline
      simp [hno]
    | some d' =>
      have hok : ¬ NoValue line := by
        rw [← updateLine_eq_none_iff line d, hline]
        exact Option.some_ne_none d'
      simp only [ih, hok, not_false_eq_true, true_and]

theorem updateConfiguration_returned (file : Option (List UInt8)) (d : ServerData) :
    (updateConfiguration file d).2 = true ↔ ∀ bytes, file = some bytes → ∀ line ∈ fileLines bytes, ¬ NoValue line := by
  cases file with
  | none => simp [updateConfiguration]
  | some bytes =>
    rw [updateConfiguration, updateLines_returned]
    simp [fileLines]

/-! ## The semaphore after it -/

/-- What the call does to the semaphore it was given -/
theorem updateSection_cases {file : Option (List UInt8)} {value : Nat} {dec inc : SemopResult} {d : ServerData}
    {u : Update} (h : updateSection file value dec inc d = some u) :
    u.returned = (updateConfiguration file d).2 ∧
      (u.returned = true →
        u.releases = (if inc = .done then 1 else 0) ∧
        (u.value : Int) = value - (if dec = .done then 1 else 0) + (if inc = .done then 1 else 0)) := by
  obtain ⟨⟨ret, held⟩, hdec, h⟩ := Option.bind_eq_some_iff.1 h
  have hheld : (held : Int) = value - (if dec = .done then 1 else 0) := by
    unfold Sem.op semop at hdec
    cases dec with
    | done =>
      simp only at hdec
      split at hdec
      · cases hdec
        simp only [if_true]
        omega
      · cases hdec
    | interrupted =>
      cases hdec
      simp
  rcases hu : updateConfiguration file d with ⟨data, returned⟩
  simp only [hu] at h
  cases returned with
  | false =>
    cases h
    exact ⟨rfl, nofun⟩
  | true =>
    obtain ⟨⟨ret', after⟩, hinc, rfl⟩ := Option.map_eq_some_iff.1 h
    refine ⟨rfl, fun _ => ?_⟩
    unfold Sem.op semop at hinc
    cases inc with
    | done =>
      simp only at hinc
      rw [if_pos (by omega)] at hinc
      cases hinc
      refine ⟨rfl, ?_⟩
      simp only [if_true, ← hheld]
      omega
    | interrupted =>
      cases hinc
      refine ⟨rfl, ?_⟩
      simpa using hheld

/-- A call returns with the semaphore released once and as it was exactly when no line of the file stops it
and neither `semop()` is interrupted. -/
theorem updateSection_balanced_iff {file : Option (List UInt8)} {value : Nat} {dec inc : SemopResult} {d : ServerData}
    {u : Update} (h : updateSection file value dec inc d = some u) :
    u.Balanced value ↔
      (∀ bytes, file = some bytes → ∀ line ∈ fileLines bytes, ¬ NoValue line) ∧ dec = .done ∧ inc = .done := by
  obtain ⟨hreturned, hvalue⟩ := updateSection_cases h
  rw [← updateConfiguration_returned file d, ← hreturned, Update.Balanced]
  refine and_congr_right fun hret => ?_
  obtain ⟨hrel, hval⟩ := hvalue hret
  rw [hrel]
  cases dec <;> cases inc <;> simp at hval ⊢ <;> omega

/-! ## Two files -/

/-- "max_clients=5", a comment without a delimiter, and a key that is not known -/
def plainFile : List UInt8 :=
  ascii ['m', 'a', 'x', '_', 'c', 'l', 'i', 'e', 'n', 't', 's', '=', '5'] ++ [newline] ++ ascii ['#', 'x'] ++ [newline] ++
    ascii ['x', '=']

theorem updateSection_balanced_plain :
    ∃ u, updateSection (some plainFile) 1 .done .done {} = some u ∧ u.Balanced 1 := by
  have hrun : (updateSection (some plainFile) 1 .done .done {}).isSome = true := by decide
  obtain ⟨u, hu⟩ := Option.isSome_iff_exists.1 hrun
  refine ⟨u, hu, (updateSection_balanced_iff hu).2 ⟨?_, rfl, rfl⟩⟩
  rintro bytes ⟨⟩ line hline
  rw [← updateLine_eq_none_iff line {}]
  have hlines : ∀ line ∈ fileLines plainFile, updateLine line {} ≠ none := by decide
  exact hlines line hline

/-- "backlog=" ends the process, and the semaphore stays at 0. -/
theorem not_updateSection_balanced :
    ¬ ∀ (bytes : List UInt8) (value : Nat) (d : ServerData) (u : Update),
      updateSection (some bytes) value .done .done d = some u → u.Balanced value := by
  intro h
  have hu : updateSection (some (backlogKey.name ++ [equals])) 1 .done .done {} = some ⟨{}, 0, 0, false⟩ := by decide
  exact absurd (h _ 1 {} _ hu) (by decide)

end Td3.Server
