/-
JSON objects of numbers: what a reader of JSON makes of a text (strings without escapes, numbers without an
exponent, spaces where the grammar has them, nothing behind the object), and that it reads back what
is printed with `%d` and `%.2f`.
-/
import Td3.Lib.Decimal
import Td3.Lib.Reader

namespace Td3.Json

open Td3.Decimal Td3.Reader

/-! ## Reading -/

def quote : UInt8 := 34
def colon : UInt8 := 58
def comma : UInt8 := 44
def openBrace : UInt8 := 123
def closeBrace : UInt8 := 125
def backslash : UInt8 := 92

def isWhite (c : UInt8) : Bool := c = 32 || c = 9 || c = 10 || c = 13

/-- The characters a string has without an escape -/
def isPlain (c : UInt8) : Bool := c ≠ quote && c ≠ backslash && 32 ≤ c

def readSpaces : Reader UInt8 (List UInt8) := span isWhite

def readString : Reader UInt8 (List UInt8) :=
  bind (expect [quote]) fun _ => bind (span isPlain) fun s => map (fun _ => s) (expect [quote])

/-- The digits of an integer: no zero before another one -/
def readInteger : Reader UInt8 (List UInt8) := fun s =>
  let ds := s.takeWhile isDigit
  if ds = [] ∨ (ds.head? = some (digit 0) ∧ ds ≠ [digit 0]) then none else some (ds, s.dropWhile isDigit)

/-- A point with digits behind it, or nothing -/
def readFractionPart : Reader UInt8 (List UInt8) := fun s =>
  if s.head? = some point then
    bind (expect [point]) (fun _ => bind (span isDigit) fun ds s => if ds = [] then none else some (ds, s)) s
  else some ([], s)

def readMinus : Reader UInt8 Bool := fun s => if s.head? = some minus then some (true, s.tail) else some (false, s)

def readNumber : Reader UInt8 ℚ :=
  bind readMinus fun neg => bind readInteger fun ds => map (fun fs =>
    (if neg then -1 else 1) * (number ds + number fs / 10 ^ fs.length)) readFractionPart

/-- A name and its number -/
def readMember : Reader UInt8 (List UInt8 × ℚ) :=
  bind readSpaces fun _ => bind readString fun name => bind readSpaces fun _ => bind (expect [colon]) fun _ =>
    bind readSpaces fun _ => bind readNumber fun v => map (fun _ => (name, v)) readSpaces

/-- A comma, or the end of the object -/
def readMore : Reader UInt8 Bool
  | c :: s => if c = comma then some (true, s) else if c = closeBrace then some (false, s) else none
  | [] => none

/-- The members of an object with at least one -/
def readObject (s : List UInt8) : Option (List (List UInt8 × ℚ)) :=
  match bind readSpaces (fun _ => bind (expect [openBrace]) fun _ => bind (many readMember readMore s.length)
    fun ms => map (fun _ => ms) readSpaces) s with
  | some (ms, []) => some ms
  | _ => none

/-! ## What is printed is read -/

/-- Neither a digit nor a point goes on with the number. -/
def EndsNumber (rest : List UInt8) : Prop := Stops isDigit rest ∧ rest.head? ≠ some point

theorem reads_integer (n : Nat) : Reads readInteger (decimal n) (decimal n) (Stops isDigit) := by
  intro rest hrest
  have hspan := reads_span (fun c hc => isDigit_of_mem_decimal (n := n) hc) rest hrest
  rw [span, Option.some.injEq, Prod.mk.injEq] at hspan
  have hinteger : ¬ (decimal n = [] ∨ ((decimal n).head? = some (digit 0) ∧ decimal n ≠ [digit 0])) := by
    rintro (hnil | ⟨hhead, hne⟩)
    · exact decimal_ne_nil n hnil
    · rcases decimal_head n with heq | hother
      · exact hne heq
      · exact hother hhead
  unfold readInteger
  simp only [hspan.1, hspan.2, if_neg hinteger]

theorem reads_minus (neg : Bool) : Reads readMinus (signText neg) neg fun rest => rest.head? ≠ some minus := by
  intro rest hrest
  cases neg with
  | true => rfl
  | false => exact if_neg hrest

theorem decimal_append_head (n : Nat) (text : List UInt8) : (decimal n ++ text).head? ≠ some minus := by
  obtain ⟨c, ds, hds⟩ := List.exists_cons_of_ne_nil (decimal_ne_nil n)
  have hc : isDigit c = true := isDigit_of_mem_decimal (n := n) (by simp [hds])
  rw [hds]
  exact fun heq => ne_of_isDigit hc (by decide : isDigit minus = false) (Option.some.inj heq)

theorem reads_noFraction : Reads readFractionPart [] [] EndsNumber := by
  rintro rest ⟨-, hpoint⟩
  show readFractionPart rest = some ([], rest)
  rw [readFractionPart, if_neg hpoint]

theorem reads_fraction {ds : List UInt8} (hne : ds ≠ []) (hd : ∀ c ∈ ds, isDigit c = true) :
    Reads readFractionPart (point :: ds) ds (Stops isDigit) := by
  intro rest hrest
  have hdigits :
      Reads (bind (span isDigit) fun ds s => if ds = [] then none else some (ds, s)) ds ds (Stops isDigit) := by
    intro rest hrest
    rw [Reader.bind, reads_span hd rest hrest, Option.bind_some]
    exact if_neg hne
  have hpoint : Reads (expect [point]) [point] () fun _ => True := reads_expect
  have hfraction : Reads (bind (expect [point]) fun _ => bind (span isDigit) fun ds s =>
      if ds = [] then none else some (ds, s)) ([point] ++ ds) ds (Stops isDigit) :=
    hpoint.bind hdigits fun _ _ => trivial
  rw [readFractionPart, if_pos (by rfl)]
  exact hfraction rest hrest

/-- `%d` -/
theorem reads_formatInt (i : Int) : Reads readNumber (formatInt 0 i) i EndsNumber := by
  have htext : formatInt 0 i = signText (i < 0) ++ (decimal i.natAbs ++ []) := by
    simp [formatInt]
  have hvalue : ((if decide (i < 0) = true then -1 else 1) *
      ((number (decimal i.natAbs) : ℚ) + number [] / 10 ^ ([] : List UInt8).length)) = i := by
    rw [number_decimal]
    have hnil : number [] = 0 := rfl
    rw [hnil, Nat.cast_zero, zero_div, add_zero]
    by_cases hneg : i < 0
    · rw [if_pos (decide_eq_true hneg)]
      have habs : (i.natAbs : Int) = -i := by omega
      have hcast : ((i.natAbs : Int) : ℚ) = -i := by rw [habs]; push_cast; rfl
      rw [Int.cast_natCast] at hcast
      rw [hcast]
      ring
    · rw [if_neg (by simpa using hneg)]
      have habs : (i.natAbs : Int) = i := by omega
      have hcast : ((i.natAbs : Int) : ℚ) = i := by rw [habs]
      rw [Int.cast_natCast] at hcast
      rw [hcast, one_mul]
  rw [htext, ← hvalue]
  refine (reads_minus _).bind ((reads_integer i.natAbs).bind (reads_noFraction.map _) ?_) ?_
  · exact fun rest hrest => hrest.1
  · intro rest _
    rw [List.append_assoc]
    exact decimal_append_head _ _

/-- `%.2f` -/
theorem reads_formatFixed2 (q : ℚ) : Reads readNumber (formatFixed2 q) (fixed2 q) (Stops isDigit) := by
  have hvalue : ((if decide (q < 0) = true then -1 else 1) * ((number (decimal (hundredths q / 100)) : ℚ) +
      number [digit (hundredths q % 100 / 10), digit (hundredths q % 10)] / 10 ^ 2)) = fixed2 q := by
    rw [number_decimal, number_fraction, fixed2]
    have hsplit : (hundredths q : ℚ) = 100 * (hundredths q / 100 : Nat) + (hundredths q % 100 : Nat) := by
      exact_mod_cast (Nat.div_add_mod (hundredths q) 100).symm
    rw [hsplit]
    simp only [decide_eq_true_eq]
    ring
  rw [← hvalue]
  refine (reads_minus _).bind ((reads_integer _).bind ((reads_fraction (List.cons_ne_nil _ _)
    (isDigit_fraction (hundredths q))).map _) ?_) ?_
  · intro rest _ c hc
    have hpoint : c = point := (Option.some.inj hc).symm
    rw [hpoint]
    decide
  · intro rest _
    rw [List.append_assoc]
    exact decimal_append_head _ _

/-! ## Objects -/

/-- A member as `"name": number` -/
def memberText (name text : List UInt8) : List UInt8 := [quote] ++ (name ++ ([quote] ++ ([colon] ++ ([32] ++ text))))

theorem reads_string {name : List UInt8} (hname : ∀ d ∈ name, isPlain d = true) :
    Reads readString ([quote] ++ (name ++ [quote])) name fun _ => True := by
  have hquote : Reads (expect [quote]) [quote] () fun _ => True := reads_expect
  refine hquote.bind ((reads_span hname).bind (hquote.map fun _ => name) ?_) fun _ _ => trivial
  intro _ _ c hc
  have heq : c = quote := (Option.some.inj hc).symm
  rw [heq]
  decide

theorem reads_noSpaces : Reads readSpaces [] [] (Stops isWhite) :=
  reads_span fun _ hc => absurd hc List.not_mem_nil

/-- What may come after a number in an object -/
def EndsMember (rest : List UInt8) : Prop := EndsNumber rest ∧ Stops isWhite rest

theorem stops_cons {p : UInt8 → Bool} {c : UInt8} (h : p c = false) (rest : List UInt8) : Stops p (c :: rest) := by
  intro d hd
  rw [← Option.some.inj hd]
  exact h

theorem stops_append {p : UInt8 → Bool} {c : UInt8} (h : p c = false) (text rest : List UInt8) :
    Stops p (([c] ++ text) ++ rest) := stops_cons h (text ++ rest)

theorem isWhite_punctuation : isWhite quote = false ∧ isWhite colon = false ∧ isWhite openBrace = false := by decide

theorem reads_member {name text : List UInt8} {v : ℚ} (hname : ∀ c ∈ name, isPlain c = true)
    (htext : Reads readNumber text v EndsNumber) (hwhite : ∀ rest, Stops isWhite (text ++ rest)) :
    Reads readMember (memberText name text) (name, v) EndsMember := by
  have hcolon : Reads (expect [colon]) [colon] () fun _ => True := reads_expect
  have hspace : Reads readSpaces [32] [32] (Stops isWhite) := reads_span (by simp [isWhite])
  have hvalue :
      Reads (bind readNumber fun v => map (fun _ => (name, v)) readSpaces) (text ++ []) (name, v) EndsMember :=
    htext.bind (reads_noSpaces.map _ |>.mono fun _ h => h.2) fun _ h => h.1
  have hmember : memberText name text =
      [] ++ (([quote] ++ (name ++ [quote])) ++ ([] ++ ([colon] ++ ([32] ++ (text ++ []))))) := by
    simp [memberText]
  rw [hmember]
  refine reads_noSpaces.bind ((reads_string hname).bind (reads_noSpaces.bind (hcolon.bind (hspace.bind hvalue ?_)
    fun _ _ => trivial) fun rest _ => ?_) fun _ _ => trivial) fun rest _ => ?_
  · intro rest _
    rw [List.append_nil]
    exact hwhite rest
  · exact stops_append isWhite_punctuation.2.1 _ rest
  · exact stops_append isWhite_punctuation.1 _ rest

/-- A member of an object, as it is printed and read -/
structure Member where
  name : List UInt8
  text : List UInt8
  value : ℚ
  plain : ∀ c ∈ name, isPlain c = true
  number : Reads readNumber text value EndsNumber
  white : ∀ rest, Stops isWhite (text ++ rest)

/-- The members between braces, with commas between them -/
def object (ms : List Member) : List UInt8 :=
  openBrace :: joined [comma] [closeBrace] (ms.map fun m => (memberText m.name m.text, m.name, m.value))

theorem readObject_object {ms : List Member} (hne : ms ≠ []) :
    readObject (object ms) = some (ms.map fun m => (m.name, m.value)) := by
  have hends (c : UInt8) (hc : c = comma ∨ c = closeBrace) (rest : List UInt8) : EndsMember (c :: rest) := by
    rcases hc with rfl | rfl
    · exact ⟨⟨stops_cons (by decide) rest, by simp [comma, point]⟩, stops_cons (by decide) rest⟩
    · exact ⟨⟨stops_cons (by decide) rest, by simp [closeBrace, point]⟩, stops_cons (by decide) rest⟩
  have hmembers : Reads (many readMember readMore (object ms).length)
      (joined [comma] [closeBrace] (ms.map fun m => (memberText m.name m.text, m.name, m.value)))
      ((ms.map fun m => (memberText m.name m.text, m.name, m.value)).map Prod.snd) (Stops isWhite) := by
    refine reads_many (by simpa using hne) ?_ ?_ (fun _ _ _ => rfl) (fun _ _ => rfl)
      (fun rest => hends comma (.inl rfl) rest) fun rest _ => hends closeBrace (.inr rfl) rest
    · refine (length_le_joined [comma] [closeBrace] _ ?_).trans (Nat.le_succ _)
      intro p hp
      obtain ⟨m, -, rfl⟩ := List.mem_map.1 hp
      exact List.cons_ne_nil _ _
    · intro p hp
      obtain ⟨m, -, rfl⟩ := List.mem_map.1 hp
      exact reads_member m.plain m.number m.white
  have hbrace : Reads (expect [openBrace]) [openBrace] () fun _ => True := reads_expect
  have htext : object ms = [] ++ ([openBrace] ++ (joined [comma] [closeBrace]
      (ms.map fun m => (memberText m.name m.text, m.name, m.value)) ++ [])) := by
    rw [List.append_nil]
    rfl
  have hobject : Reads (bind readSpaces fun _ => bind (expect [openBrace]) fun _ =>
      bind (many readMember readMore (object ms).length) fun ms => map (fun _ => ms) readSpaces)
      ([] ++ ([openBrace] ++ (joined [comma] [closeBrace]
        (ms.map fun m => (memberText m.name m.text, m.name, m.value)) ++ [])))
      ((ms.map fun m => (memberText m.name m.text, m.name, m.value)).map Prod.snd) (Stops isWhite) := by
    refine reads_noSpaces.bind (hbrace.bind (hmembers.bind (reads_noSpaces.map fun _ => _) fun rest h => h)
      fun _ _ => trivial) fun rest _ => ?_
    exact stops_append isWhite_punctuation.2.2 _ rest
  have hread := hobject [] (fun _ hc => absurd hc (by simp))
  rw [List.append_nil, ← htext] at hread
  rw [readObject, hread, List.map_map]
  rfl

end Td3.Json
