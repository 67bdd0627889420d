/-
HTTP messages whose lines end in a newline: a status line, fields `name: value`, an empty line and a body of
`Content-Length` bytes; how a peer reads one message, and a stream of them.
-/
import Td3.Lib.Decimal
import Td3.Lib.Reader

namespace Td3.Http

open Td3.Decimal Td3.Reader

/-! ## Reading -/

def lineEnd : UInt8 := 10
def colon : UInt8 := 58
def blank : UInt8 := 32

/-- A message as it is read -/
structure Reply where
  status : List UInt8
  fields : List (List UInt8 × List UInt8)
  body : List UInt8
deriving DecidableEq, Repr

def readLine : Reader UInt8 (List UInt8) := bind (span (· ≠ lineEnd)) fun line => map (fun _ => line) (expect [lineEnd])

/-- A name up to a colon; the value is the rest of the line, without the blanks before it. -/
def readField : Reader UInt8 (List UInt8 × List UInt8) :=
  bind (span fun c => c ≠ colon && c ≠ lineEnd) fun name => bind (expect [colon]) fun _ =>
    bind (span (· = blank)) fun _ => map (fun value => (name, value)) readLine

/-- Whether another field follows, or the empty line -/
def readMore : Reader UInt8 Bool := fun s => if s.head? = some lineEnd then some (false, s.tail) else some (true, s)

/-- The length of the body, by the field of this name -/
def announced (lengthName : List UInt8) (fields : List (List UInt8 × List UInt8)) : Option Nat :=
  (fields.lookup lengthName).bind fun value => if value ≠ [] ∧ value.all isDigit then some (number value) else none

def readBody (lengthName status : List UInt8) (fields : List (List UInt8 × List UInt8)) : Reader UInt8 Reply := fun s =>
  (announced lengthName fields).bind fun n => map (Reply.mk status fields) (count n) s

def readReply (lengthName : List UInt8) : Reader UInt8 Reply := fun s =>
  bind readLine (fun status =>
    bind (many readField readMore s.length) fun fields => readBody lengthName status fields) s

/-- The messages of a stream, up to its end -/
def readReplies (lengthName s : List UInt8) : Option (List Reply) := all (readReply lengthName) s.length s

/-! ## Writing -/

/-- `name: value`, and the end of the line -/
def fieldText (field : List UInt8 × List UInt8) : List UInt8 :=
  field.1 ++ ([colon] ++ ([blank] ++ (field.2 ++ [lineEnd])))

def Reply.text (r : Reply) : List UInt8 :=
  (r.status ++ [lineEnd]) ++ (joined [] [lineEnd] (r.fields.map fun field => (fieldText field, field)) ++ r.body)

/-- A message that its lines can carry, and that announces its body -/
structure Reply.WellFormed (lengthName : List UInt8) (r : Reply) : Prop where
  status : lineEnd ∉ r.status
  some_field : r.fields ≠ []
  name : ∀ field ∈ r.fields, field.1 ≠ [] ∧ colon ∉ field.1 ∧ lineEnd ∉ field.1
  value : ∀ field ∈ r.fields, lineEnd ∉ field.2 ∧ field.2.head? ≠ some blank
  length : announced lengthName r.fields = some r.body.length

/-! ## What is written is read -/

theorem reads_line {line : List UInt8} (h : lineEnd ∉ line) :
    Reads readLine (line ++ [lineEnd]) line fun _ => True := by
  have hend : Reads (expect [lineEnd]) [lineEnd] () fun _ => True := reads_expect
  have hspan : Reads (span (· ≠ lineEnd)) line line (Stops (· ≠ lineEnd)) := by
    refine reads_span fun c hc => ?_
    have hne : c ≠ lineEnd := fun heq => h (heq ▸ hc)
    exact decide_eq_true hne
  refine hspan.bind (hend.map fun _ => line) ?_
  intro rest _ c hc
  rw [← Option.some.inj hc]
  exact decide_eq_false (not_not.2 rfl)

theorem reads_field {field : List UInt8 × List UInt8} (hcolon : colon ∉ field.1) (hname : lineEnd ∉ field.1)
    (hvalue : lineEnd ∉ field.2) (hblank : field.2.head? ≠ some blank) :
    Reads readField (fieldText field) field fun _ => True := by
  have hcol : Reads (expect [colon]) [colon] () fun _ => True := reads_expect
  have hspan : Reads (span fun c => c ≠ colon && c ≠ lineEnd) field.1 field.1
      (Stops fun c => c ≠ colon && c ≠ lineEnd) := by
    refine reads_span fun c hc => ?_
    have hne : c ≠ colon := fun heq => hcolon (heq ▸ hc)
    have hne' : c ≠ lineEnd := fun heq => hname (heq ▸ hc)
    simp [hne, hne']
  have hspace : Reads (span (· = blank)) [blank] [blank] (Stops (· = blank)) := reads_span (by simp)
  have hline := (reads_line hvalue).map fun value => (field.1, value)
  refine hspan.bind (hcol.bind (hspace.bind hline ?_) fun _ _ => trivial) ?_
  · intro rest _ c hc
    cases hv : field.2 with
    | nil =>
      rw [hv] at hc
      rw [← Option.some.inj hc]
      decide
    | cons d value =>
      rw [hv] at hc hblank
      rw [← Option.some.inj hc]
      exact decide_eq_false fun heq => hblank (congrArg some heq)
  · intro rest _ c hc
    rw [← Option.some.inj hc]
    decide

theorem fieldText_head {field : List UInt8 × List UInt8} (hne : field.1 ≠ []) (hname : lineEnd ∉ field.1)
    (rest : List UInt8) : readMore (fieldText field ++ rest) = some (true, fieldText field ++ rest) := by
  obtain ⟨c, name, hc⟩ := List.exists_cons_of_ne_nil hne
  have hcne : c ≠ lineEnd := fun heq => hname (by simp [hc, heq])
  refine if_neg ?_
  rw [fieldText, hc]
  exact fun heq => hcne (Option.some.inj heq)

theorem fieldText_ne {field : List UInt8 × List UInt8} (hne : field.1 ≠ []) : fieldText field ≠ [] :=
  List.append_ne_nil_of_left_ne_nil hne _

section
variable {lengthName : List UInt8} {r : Reply}

theorem reads_fields (h : r.WellFormed lengthName) {n : Nat} (hn : r.fields.length ≤ n) :
    Reads (many readField readMore n) (joined [] [lineEnd] (r.fields.map fun field => (fieldText field, field)))
      r.fields fun _ => True := by
  have hsnd : (r.fields.map fun field => (fieldText field, field)).map Prod.snd = r.fields := by
    rw [List.map_map]
    exact List.map_id _
  have hitem : ∀ p ∈ r.fields.map fun field => (fieldText field, field), Reads readField p.1 p.2 fun _ => True := by
    intro p hp
    obtain ⟨field, hfield, rfl⟩ := List.mem_map.1 hp
    obtain ⟨-, hcolon, hname⟩ := h.name field hfield
    exact reads_field hcolon hname (h.value field hfield).1 (h.value field hfield).2
  have hmore : ∀ p ∈ r.fields.map fun field => (fieldText field, field), ∀ rest,
      readMore ([] ++ (p.1 ++ rest)) = some (true, p.1 ++ rest) := by
    intro p hp rest
    obtain ⟨field, hfield, rfl⟩ := List.mem_map.1 hp
    exact fieldText_head (h.name field hfield).1 (h.name field hfield).2.2 rest
  have hfin : Reads readMore [lineEnd] false fun _ => True := fun rest _ => rfl
  have hread := reads_many (by simpa using h.some_field) (by simpa using hn) hitem hmore hfin (fun _ => trivial)
    fun _ _ => trivial
  rwa [hsnd] at hread

theorem reads_body (h : r.WellFormed lengthName) :
    Reads (readBody lengthName r.status r.fields) r.body r fun _ => True := by
  intro rest _
  have hcount : Reads (count r.body.length) r.body r.body fun _ => True := reads_count
  rw [readBody, h.length, Option.bind_some]
  exact hcount.map (Reply.mk r.status r.fields) rest trivial

theorem Reply.length_fields (h : r.WellFormed lengthName) : r.fields.length ≤ r.text.length := by
  have hjoined := length_le_joined [] [lineEnd] (r.fields.map fun field => (fieldText field, field)) fun p hp => by
    obtain ⟨field, hfield, rfl⟩ := List.mem_map.1 hp
    exact fieldText_ne (h.name field hfield).1
  rw [List.length_map] at hjoined
  simp only [Reply.text, List.length_append]
  omega

/-- A message is read back, whatever follows it. -/
theorem reads_reply (h : r.WellFormed lengthName) : Reads (readReply lengthName) r.text r fun _ => True := by
  intro rest _
  have hfuel : r.fields.length ≤ (r.text ++ rest).length := by
    have hle := Reply.length_fields h
    rw [List.length_append]
    omega
  have hhead := (reads_fields h hfuel).bind (reads_body h) fun _ _ => trivial
  exact (reads_line h.status).bind hhead (fun _ _ => trivial) rest trivial

theorem Reply.text_ne (r : Reply) : r.text ≠ [] := by
  simp [Reply.text]

/-- So is a stream of messages, one after another. -/
theorem readReplies_flatten {rs : List Reply} (h : ∀ r ∈ rs, r.WellFormed lengthName) :
    readReplies lengthName (rs.map Reply.text).flatten = some rs := by
  have hitems : ∀ p ∈ rs.map fun r => (r.text, r), Reads (readReply lengthName) p.1 p.2 fun _ => True := by
    intro p hp
    obtain ⟨r, hr, rfl⟩ := List.mem_map.1 hp
    exact reads_reply (h r hr)
  have hne : ∀ p ∈ rs.map fun r => (r.text, r), p.1 ≠ [] := by
    intro p hp
    obtain ⟨r, -, rfl⟩ := List.mem_map.1 hp
    exact r.text_ne
  have hlength : rs.length ≤ (rs.map Reply.text).flatten.length := by
    rw [List.length_flatten, List.map_map]
    calc rs.length = (rs.map fun _ => 1).sum := by simp
      _ ≤ (rs.map (List.length ∘ Reply.text)).sum := List.sum_le_sum fun r _ => List.length_pos_iff.2 r.text_ne
  have hread := all_flatten (by simpa using hlength) hne hitems
  rw [List.map_map, List.map_map] at hread
  simpa [readReplies, Function.comp_def] using hread

end

end Td3.Http
