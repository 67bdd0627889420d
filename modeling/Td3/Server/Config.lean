/-
`HttpServer::update_configuration` (server/src/httpserver.cpp) on the contents of the configuration
file, over `serverData`.

A null pointer given to `strcmp` or `atoi` ends the process inside its section.
-/
import Td3.Lib.CString
import Td3.Lib.Decimal
import Td3.Server.Request

namespace Td3.Server

open Td3.CString Td3.Decimal

/-! ## The source functions -/

def DEFAULT_BACKLOG : Int := 2
def DEFAULT_MAX_CLIENTS : Int := 1000
def DEFAULT_SENSOR_PERIOD : Int := 1000
def DEFAULT_SAMPLES_MOVING_AVERAGE_FILTER : Int := 5

/-- `serverData` as the server's constructor leaves it, with exact rationals for `float`. -/
structure ServerData where
  backlog : Int := 0
  maxClients : Int := 0
  sensorPeriod : Int := 0
  samplesMovingAverageFilter : Int := 0
  clientCount : Int := 0
  temp : ℚ := 0
deriving DecidableEq, Repr

/-- A key of the configuration file: its name, its default value and its field of `serverData`. -/
structure Key where
  name : List UInt8
  default : Int
  get : ServerData → Int
  set : ServerData → Int → ServerData

def backlogKey : Key where
  name := ascii ['b', 'a', 'c', 'k', 'l', 'o', 'g']
  default := DEFAULT_BACKLOG
  get := ServerData.backlog
  set d v := { d with backlog := v }

def maxClientsKey : Key where
  name := ascii ['m', 'a', 'x', '_', 'c', 'l', 'i', 'e', 'n', 't', 's']
  default := DEFAULT_MAX_CLIENTS
  get := ServerData.maxClients
  set d v := { d with maxClients := v }

def sensorPeriodKey : Key where
  name := ascii ['s', 'e', 'n', 's', 'o', 'r', '_', 'p', 'e', 'r', 'i', 'o', 'd']
  default := DEFAULT_SENSOR_PERIOD
  get := ServerData.sensorPeriod
  set d v := { d with sensorPeriod := v }

def samplesMovingAverageFilterKey : Key where
  name := ascii ['s', 'a', 'm', 'p', 'l', 'e', 's', '_', 'm', 'o', 'v', 'i', 'n', 'g', '_', 'a', 'v', 'e', 'r', 'a', 'g',
    'e', '_', 'f', 'i', 'l', 't', 'e', 'r']
  default := DEFAULT_SAMPLES_MOVING_AVERAGE_FILTER
  get := ServerData.samplesMovingAverageFilter
  set d v := { d with samplesMovingAverageFilter := v }

/-- The keys, in the order they are compared. -/
def keys : List Key := [backlogKey, maxClientsKey, sensorPeriodKey, samplesMovingAverageFilterKey]

/-- `changed_value` for a value of the file. -/
def Key.changedValue (k : Key) (value : List UInt8) : Int := if atoi value ≠ 0 then atoi value else k.default

/-- What a line with this key and value does. -/
def Key.update (k : Key) (value : List UInt8) (d : ServerData) : ServerData :=
  let changedValue := k.changedValue value
  if changedValue = k.get d then d else if 1 ≤ changedValue then k.set d changedValue else d

def newline : UInt8 := 10
def equals : UInt8 := 61

/-- The string in `buffer` after `fgets` and the `strcspn`. -/
def lineChars (line : List UInt8) : List UInt8 := (chars line).takeWhile (· ≠ newline)

/-- A round of the loop on a line; `none` where a null pointer is dereferenced. -/
def updateLine (line : List UInt8) (d : ServerData) : Option ServerData :=
  if equals ∉ lineChars line then some d
  else
    match strtok equals (lineChars line) with
    | none => none
    | some (key, rest) =>
      match keys.find? (·.name = key) with
      | none => some d
      | some k => (strtok equals rest).map fun (value, _) => k.update value d

/-- The loop: `serverData` after it, and whether it came to its end. -/
def updateLines : List (List UInt8) → ServerData → ServerData × Bool
  | [], d => (d, true)
  | line :: lines, d =>
    match updateLine line d with
    | none => (d, false)
    | some d => updateLines lines d

/-- `update_configuration()` with the contents of the configuration file, `none` where it cannot be
opened: `serverData` after it, and whether it returned. -/
def updateConfiguration (file : Option (List UInt8)) (d : ServerData) : ServerData × Bool :=
  match file with
  | none =>
    ({ d with
      backlog := DEFAULT_BACKLOG
      maxClients := DEFAULT_MAX_CLIENTS
      sensorPeriod := DEFAULT_SENSOR_PERIOD
      samplesMovingAverageFilter := DEFAULT_SAMPLES_MOVING_AVERAGE_FILTER }, true)
  | some bytes => updateLines (fgetsAll 255 bytes) d

/-! ## What an update keeps -/

theorem keys_keep {k : Key} (h : k ∈ keys) (d : ServerData) (v : Int) : (k.set d v).clientCount = d.clientCount := by
  simp only [keys, List.mem_cons, List.not_mem_nil, or_false] at h
  rcases h with rfl | rfl | rfl | rfl <;> rfl

theorem Key.update_cases (k : Key) (value : List UInt8) (d : ServerData) :
    k.update value d = d ∨ 1 ≤ k.changedValue value ∧ k.update value d = k.set d (k.changedValue value) := by
  unfold Key.update
  simp only
  split
  · exact .inl rfl
  · split
    · rename_i h
      exact .inr ⟨h, rfl⟩
    · exact .inl rfl

theorem Key.changedValue_lt {k : Key} (h : k ∈ keys) (value : List UInt8) : k.changedValue value < 2 ^ 31 := by
  have ha := atoi_le value
  have hd : k.default < 2 ^ 31 := by
    simp only [keys, List.mem_cons, List.not_mem_nil, or_false] at h
    rcases h with rfl | rfl | rfl | rfl <;> decide
  unfold Key.changedValue
  split <;> omega

/-- What holds of `serverData` and is kept by every update of a key holds after the lines. -/
theorem updateLines_invariant {P : ServerData → Prop} (hk : ∀ k ∈ keys, ∀ value d, P d → P (k.update value d)) :
    ∀ (lines : List (List UInt8)) (d : ServerData), P d → P (updateLines lines d).1
  | [], _, h => h
  | line :: lines, d, h => by
    rw [updateLines]
    unfold updateLine
    split
    · exact h
    · rename_i d' hd
      refine updateLines_invariant hk lines d' ?_
      split at hd
      · cases hd
        exact h
      · split at hd
        · cases hd
        · split at hd
          · cases hd
            exact h
          · rename_i k hf
            obtain ⟨v, -, rfl⟩ := Option.map_eq_some_iff.1 hd
            exact hk k (List.mem_of_find?_eq_some hf) _ d h

/-- An update leaves `client_count` alone. -/
theorem updateConfiguration_clientCount (file : Option (List UInt8)) (d : ServerData) :
    (updateConfiguration file d).1.clientCount = d.clientCount := by
  cases file with
  | none => rfl
  | some bytes =>
    refine updateLines_invariant (P := fun d' => d'.clientCount = d.clientCount) (fun k hk value d' h => ?_) _ d rfl
    rcases k.update_cases value d' with hu | ⟨-, hu⟩
    · rw [hu]
      exact h
    · rw [hu, keys_keep hk, h]

end Td3.Server
