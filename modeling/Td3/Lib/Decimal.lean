/-
Decimal text as C prints and reads it: `%d` with a minimum width, `atoi`, and `atof` on the decimal
notation in exact rationals (neither rounding to a `double`, nor hexadecimal, infinities and NaNs).

What `atof` reads from a printed integer followed by a point is that integer, whatever follows the
digits after the point (`atof_printed`).
-/
import Mathlib.Tactic

namespace Td3.Decimal

/-! ## Printing -/

def digit (d : Nat) : UInt8 := UInt8.ofNat (48 + d)

def minus : UInt8 := 45
def plus : UInt8 := 43
def point : UInt8 := 46

/-- The digits of a natural number, at least one. -/
def decimal (n : Nat) : List UInt8 := if n = 0 then [digit 0] else (Nat.digits 10 n).reverse.map digit

def signText (neg : Bool) : List UInt8 := if neg then [minus] else []

/-- `%0<width>d`: zeros between the sign and the digits fill up to `width` characters; `%d` has
width 0. -/
def formatInt (width : Nat) (i : Int) : List UInt8 :=
  let sign := signText (i < 0)
  let digits := decimal i.natAbs
  sign ++ List.replicate (width - (sign.length + digits.length)) (digit 0) ++ digits

/-! ## Reading -/

def isDigit (c : UInt8) : Bool := 48 ≤ c && c ≤ 57

/-- `isspace` in the C locale. -/
def isSpace (c : UInt8) : Bool := c = 32 || (9 ≤ c && c ≤ 13)

/-- The number a digit string denotes. -/
def number (ds : List UInt8) : Nat := ds.foldl (fun n c => 10 * n + (c.toNat - 48)) 0

/-- An optional sign, and what follows it. -/
def readSign : List UInt8 → Bool × List UInt8
  | c :: s => if c = minus then (true, s) else if c = plus then (false, s) else (false, c :: s)
  | [] => (false, [])

/-- The digits of an optional fraction, and what follows it. -/
def readFraction : List UInt8 → List UInt8 × List UInt8
  | c :: s => if c = point then (s.takeWhile isDigit, s.dropWhile isDigit) else ([], c :: s)
  | [] => ([], [])

/-- The value of an optional exponent. -/
def readExponent : List UInt8 → Int
  | c :: s =>
    if c = 101 ∨ c = 69 then
      let (neg, s) := readSign s
      if neg then -number (s.takeWhile isDigit) else number (s.takeWhile isDigit)
    else 0
  | [] => 0

/-- `atof(s)`; the value is 0 where no number starts `s`. -/
def atof (s : List UInt8) : ℚ :=
  let (neg, s) := readSign (s.dropWhile isSpace)
  let whole := s.takeWhile isDigit
  let (frac, s) := readFraction (s.dropWhile isDigit)
  if whole = [] ∧ frac = [] then 0
  else (if neg then -1 else 1) * (number whole + number frac / 10 ^ frac.length) * 10 ^ readExponent s

/-- `atoi(s)`, with a `long` of 32 bits: a number that does not fit is the greatest or the least
`int`. -/
def atoi (s : List UInt8) : Int :=
  let (neg, s) := readSign (s.dropWhile isSpace)
  let n : Int := number (s.takeWhile isDigit)
  max (-2 ^ 31) (min (2 ^ 31 - 1) (if neg then -n else n))

/-! ## Digits -/

theorem atoi_le (s : List UInt8) : atoi s ≤ 2 ^ 31 - 1 := by
  unfold atoi
  simp only
  omega

theorem isDigit_digit : ∀ d, d < 10 → isDigit (digit d) = true := by decide

theorem digit_toNat : ∀ d, d < 10 → (digit d).toNat - 48 = d := by decide

theorem isDigit_iff (c : UInt8) : isDigit c = true ↔ 48 ≤ c.toNat ∧ c.toNat ≤ 57 := by
  simp [isDigit, UInt8.le_iff_toNat_le]

theorem not_isSpace {c : UInt8} (h : isDigit c = true) : isSpace c = false := by
  rw [isDigit_iff] at h
  have h32 : c ≠ 32 := by rintro rfl; exact absurd h.1 (by decide)
  simp [isSpace, UInt8.le_iff_toNat_le, h32]
  omega

theorem ne_of_isDigit {c d : UInt8} (h : isDigit c = true) (hd : isDigit d = false) : c ≠ d := by
  rintro rfl
  rw [h] at hd
  cases hd

theorem number_append (ds : List UInt8) (c : UInt8) : number (ds ++ [c]) = 10 * number ds + (c.toNat - 48) := by
  simp [number]

theorem number_replicate_zero (k : Nat) (ds : List UInt8) : number (List.replicate k (digit 0) ++ ds) = number ds := by
  induction k with
  | zero => rfl
  | succ k ih => exact ih

theorem decimal_ne_nil (n : Nat) : decimal n ≠ [] := by
  unfold decimal
  split
  · simp
  · rename_i h
    simpa using Nat.digits_ne_nil_iff_ne_zero.2 h

theorem isDigit_of_mem_decimal {n : Nat} {c : UInt8} (h : c ∈ decimal n) : isDigit c = true := by
  unfold decimal at h
  split at h
  · rw [List.mem_singleton] at h
    exact h ▸ isDigit_digit 0 (by decide)
  · obtain ⟨d, hd, rfl⟩ := List.mem_map.1 h
    exact isDigit_digit d (Nat.digits_lt_base (by decide) (List.mem_reverse.1 hd))

theorem number_digits : ∀ ds : List Nat, (∀ d ∈ ds, d < 10) → number (ds.reverse.map digit) = Nat.ofDigits 10 ds
  | [], _ => rfl
  | d :: ds, h => by
    have hd := h d (List.mem_cons_self ..)
    rw [List.reverse_cons, List.map_append, List.map_singleton, number_append, digit_toNat d hd,
      number_digits ds (fun e he => h e (List.mem_cons_of_mem _ he)), Nat.ofDigits_cons]
    omega

theorem number_decimal (n : Nat) : number (decimal n) = n := by
  unfold decimal
  split
  · rename_i h; rw [h]; rfl
  · rw [number_digits _ (fun d hd => Nat.digits_lt_base (by decide) hd), Nat.ofDigits_digits]

theorem decimal_length_le {n k : Nat} (hk : 0 < k) (h : n < 10 ^ k) : (decimal n).length ≤ k := by
  unfold decimal
  split
  · exact hk
  · rw [List.length_map, List.length_reverse]
    exact (Nat.digits_length_le_iff (by decide) n).2 h

/-! ## Printed integers -/

theorem formatInt_natCast (width n : Nat) :
    formatInt width n = List.replicate (width - (decimal n).length) (digit 0) ++ decimal n := by
  have h : ¬ (n : Int) < 0 := by omega
  simp [formatInt, signText, h]

/-- A negative integer starts with its sign. -/
theorem formatInt_neg (width : Nat) {i : Int} (h : i < 0) : ∃ ds, formatInt width i = minus :: ds := by
  simp [formatInt, signText, h]

theorem isDigit_of_mem_formatInt {width n : Nat} {c : UInt8} (h : c ∈ formatInt width n) : isDigit c = true := by
  rw [formatInt_natCast, List.mem_append] at h
  rcases h with h | h
  · exact List.eq_of_mem_replicate h ▸ isDigit_digit 0 (by decide)
  · exact isDigit_of_mem_decimal h

theorem number_formatInt (width n : Nat) : number (formatInt width n) = n := by
  rw [formatInt_natCast, number_replicate_zero, number_decimal]

/-- A printed integer takes its sign and its digits, or `width` characters. -/
theorem formatInt_length (width : Nat) (i : Int) :
    (formatInt width i).length = max width ((signText (i < 0)).length + (decimal i.natAbs).length) := by
  simp only [formatInt, List.length_append, List.length_replicate]
  omega

theorem zero_not_mem_decimal (n : Nat) : 0 ∉ decimal n := fun h => by
  have := isDigit_of_mem_decimal h
  revert this
  decide

theorem zero_not_mem_formatInt (width : Nat) (i : Int) : 0 ∉ formatInt width i := by
  have h1 : (0 : UInt8) ∉ signText (i < 0) := by cases (decide (i < 0)) <;> decide
  have h2 : ∀ k, (0 : UInt8) ∉ List.replicate k (digit 0) := fun k h => by
    have := List.eq_of_mem_replicate h
    revert this
    decide
  simp only [formatInt, List.mem_append, h1, h2, zero_not_mem_decimal, or_self, not_false_eq_true]

/-! ## What is read from printed text -/

theorem takeWhile_digits {ds : List UInt8} {c : UInt8} {s : List UInt8} (h : ∀ d ∈ ds, isDigit d = true)
    (hc : isDigit c = false) : (ds ++ c :: s).takeWhile isDigit = ds ∧ (ds ++ c :: s).dropWhile isDigit = c :: s := by
  constructor
  · rw [List.takeWhile_append_of_pos h, List.takeWhile_cons_of_neg (by simp [hc]), List.append_nil]
  · rw [List.dropWhile_append_of_pos h, List.dropWhile_cons_of_neg (by simp [hc])]

theorem readSign_signText (neg : Bool) {ds : List UInt8} (h : ∀ d ∈ ds, isDigit d = true) (hne : ds ≠ [])
    (s : List UInt8) : readSign ((signText neg ++ (ds ++ s)).dropWhile isSpace) = (neg, ds ++ s) := by
  cases ds with
  | nil => exact absurd rfl hne
  | cons d ds =>
    have hd := h d (List.mem_cons_self ..)
    have hm : d ≠ minus := ne_of_isDigit hd (by decide)
    have hp : d ≠ plus := ne_of_isDigit hd (by decide)
    cases neg with
    | true => rfl
    | false =>
      show readSign ((d :: (ds ++ s)).dropWhile isSpace) = (false, d :: (ds ++ s))
      rw [List.dropWhile_cons_of_neg (by simp [not_isSpace hd]), readSign, if_neg hm, if_neg hp]

/-- A printed number, a point and some digits, up to a character that ends the number. -/
theorem atof_printed (neg : Bool) (n : Nat) (frac : List UInt8) (hf : ∀ d ∈ frac, isDigit d = true) {c : UInt8}
    (hc : isDigit c = false) (he : c ≠ 101 ∧ c ≠ 69) (s : List UInt8) :
    atof (signText neg ++ (decimal n ++ point :: (frac ++ c :: s))) =
      (if neg then -1 else 1) * (n + number frac / 10 ^ frac.length) := by
  have hd : ∀ d ∈ decimal n, isDigit d = true := fun d hd => isDigit_of_mem_decimal hd
  have hp : isDigit point = false := by decide
  obtain ⟨hw, hr⟩ := takeWhile_digits (s := frac ++ c :: s) hd hp
  obtain ⟨hfw, hfr⟩ := takeWhile_digits (s := s) hf hc
  have hexp : readExponent (c :: s) = 0 := by simp [readExponent, he.1, he.2]
  unfold atof
  simp only [readSign_signText neg hd (decimal_ne_nil n), hw, hr, readFraction, if_true, hfw, hfr, hexp,
    decimal_ne_nil, false_and, if_false, number_decimal, zpow_zero, mul_one]

/-! ## Two decimals -/

/-- The nearest natural number, of two the even one -/
def roundHalfEven (q : ℚ) : Nat :=
  let n := ⌊q⌋₊
  if q - n < 1 / 2 then n else if 1 / 2 < q - n then n + 1 else if n % 2 = 0 then n else n + 1

/-- The hundredths that `%.2f` prints of a number -/
def hundredths (q : ℚ) : Nat := roundHalfEven (100 * |q|)

/-- `%.2f`, for a number that is not a zero with a sign -/
def formatFixed2 (q : ℚ) : List UInt8 :=
  signText (q < 0) ++ (decimal (hundredths q / 100) ++
    point :: [digit (hundredths q % 100 / 10), digit (hundredths q % 10)])

/-- The number that is printed -/
def fixed2 (q : ℚ) : ℚ := (if q < 0 then -1 else 1) * (hundredths q / 100)

theorem abs_roundHalfEven_sub_le {q : ℚ} (h : 0 ≤ q) : |(roundHalfEven q : ℚ) - q| ≤ 1 / 2 := by
  have hlo := Nat.floor_le h
  have hhi := Nat.lt_floor_add_one q
  unfold roundHalfEven
  simp only
  rw [abs_le]
  split_ifs <;> push_cast <;> constructor <;> linarith

/-- Printing moves a number by half a hundredth at most. -/
theorem abs_fixed2_sub_le (q : ℚ) : |fixed2 q - q| ≤ 1 / 200 := by
  have hround := abs_roundHalfEven_sub_le (mul_nonneg (by norm_num : (0 : ℚ) ≤ 100) (abs_nonneg q))
  change abs ((hundredths q : ℚ) - 100 * |q|) ≤ 1 / 2 at hround
  unfold fixed2
  rw [abs_le] at hround ⊢
  split_ifs with hneg
  · rw [abs_of_neg hneg] at hround
    constructor <;> linarith
  · rw [abs_of_nonneg (not_lt.1 hneg)] at hround
    constructor <;> linarith

theorem hundredths_lt {q : ℚ} {n : Nat} (h : |q| < n) : hundredths q < 100 * n + 1 := by
  have hround := abs_roundHalfEven_sub_le (mul_nonneg (by norm_num : (0 : ℚ) ≤ 100) (abs_nonneg q))
  rw [abs_le] at hround
  have hlt : (hundredths q : ℚ) < 100 * n + 1 := by
    unfold hundredths
    linarith
  exact_mod_cast hlt

/-- The two digits after the point -/
theorem number_fraction (h : Nat) : number [digit (h % 100 / 10), digit (h % 10)] = h % 100 := by
  have h1 := digit_toNat (h % 100 / 10) (by omega)
  have h2 := digit_toNat (h % 10) (by omega)
  simp only [number, List.foldl_cons, List.foldl_nil, h1, h2]
  omega

theorem isDigit_fraction (h : Nat) : ∀ c ∈ [digit (h % 100 / 10), digit (h % 10)], isDigit c = true := by
  simp only [List.forall_mem_cons, List.not_mem_nil, false_implies, implies_true, and_true]
  exact ⟨isDigit_digit _ (by omega), isDigit_digit _ (by omega)⟩

/-- No printed number but 0 starts with a zero. -/
theorem decimal_head (n : Nat) : decimal n = [digit 0] ∨ (decimal n).head? ≠ some (digit 0) := by
  unfold decimal
  split_ifs with hn
  · exact .inl rfl
  · right
    have hne : Nat.digits 10 n ≠ [] := Nat.digits_ne_nil_iff_ne_zero.2 hn
    have hlast := Nat.getLast_digit_ne_zero 10 hn
    have hlt := Nat.digits_lt_base (by decide : 1 < 10) (List.getLast_mem hne)
    rw [List.head?_map, List.head?_reverse, List.getLast?_eq_some_getLast hne, Option.map_some, Ne, Option.some.injEq]
    have hdigit : ∀ d, d < 10 → d ≠ 0 → digit d ≠ digit 0 := by decide
    exact hdigit _ hlt hlast

end Td3.Decimal
