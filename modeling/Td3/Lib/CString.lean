/-
The C string functions over the bytes of memory from a pointer on, up to the end of what may be
read: a function that runs off the end gives `none`. Each scan stops at the first NUL, so it
depends on nothing after it (`strlen_append`, `strstr_append`), and a `strstr` that stops before
the end has met a NUL or the whole of its needle.
-/
import Mathlib.Data.List.TakeWhile
import Mathlib.Tactic

namespace Td3.CString

/-! ## The functions -/

/-- `strlen(s)`: the index of the first NUL. -/
def strlen : List UInt8 → Option Nat
  | [] => none
  | c :: s => if c = 0 then some 0 else (strlen s).map (· + 1)

/-- `strstr(s, needle)`, scanning from left to right: the first place where `needle` stands before
the NUL, `some none` when there is none. -/
def strstr (needle : List UInt8) : List UInt8 → Option (Option Nat)
  | [] => none
  | c :: s =>
    if needle <+: c :: s then some (some 0)
    else if c = 0 then some none
    else (strstr needle s).map (·.map (· + 1))

/-- The characters of the string at `s`. -/
def chars (s : List UInt8) : List UInt8 := s.takeWhile (· ≠ 0)

/-- `strncpy(dst, src, n)`: the characters of `src`, filled up with NULs to `n` bytes. -/
def strncpy (dst : Nat → UInt8) (src : List UInt8) (n : Nat) : Nat → UInt8 :=
  fun i => if i < n then (chars src).getD i 0 else dst i

/-- `strtok` with one delimiter on the characters `s` left of a string: the next token, and the
characters left after it. -/
def strtok (delim : UInt8) (s : List UInt8) : Option (List UInt8 × List UInt8) :=
  let s := s.dropWhile (· = delim)
  if s = [] then none else some (s.takeWhile (· ≠ delim), (s.dropWhile (· ≠ delim)).drop 1)

/-- The calls of `fgets(buffer, size, fd)` on a file with the bytes left, after the bytes `line` of the
current one: what each stores before its NUL. -/
def fgetsFrom (size : Nat) : List UInt8 → List UInt8 → List (List UInt8)
  | line, [] => if line = [] then [] else [line]
  | line, c :: s =>
    if c = 10 ∨ (line ++ [c]).length + 1 = size then (line ++ [c]) :: fgetsFrom size [] s
    else fgetsFrom size (line ++ [c]) s

/-- What the calls of `fgets(buffer, size, fd)` store until the file ends. -/
def fgetsAll (size : Nat) (file : List UInt8) : List (List UInt8) := fgetsFrom size [] file

/-- The lines left of a text, each with its newline, after the bytes `line` of the current one. -/
def linesFrom : List UInt8 → List UInt8 → List (List UInt8)
  | line, [] => if line = [] then [] else [line]
  | line, c :: s => if c = 10 then (line ++ [c]) :: linesFrom [] s else linesFrom (line ++ [c]) s

/-- The lines of a text, each with its newline. -/
def textLines (text : List UInt8) : List (List UInt8) := linesFrom [] text

/-- Lines, each with its newline, and an empty line after them. -/
def block (lines : List (List UInt8)) : List UInt8 := (lines.map (· ++ [10])).flatten ++ [10]

/-- The pieces of a string between its delimiters that are not empty. -/
def tokens (delim : UInt8) (s : List UInt8) : List (List UInt8) := (s.splitOn delim).filter (· ≠ [])

/-! ## strlen -/

theorem strlen_spec : ∀ {s : List UInt8} {n : Nat}, strlen s = some n →
    n < s.length ∧ s[n]? = some 0 ∧ chars s = s.take n
  | [], n, h => by cases h
  | c :: s, n, h => by
    rw [strlen] at h
    split at h
    · rename_i hc
      cases h
      simp [chars, hc]
    · rename_i hc
      obtain ⟨m, hm, rfl⟩ := Option.map_eq_some_iff.1 h
      obtain ⟨h1, h2, h3⟩ := strlen_spec hm
      refine ⟨by simpa using h1, by simpa using h2, ?_⟩
      unfold chars at h3 ⊢
      rw [List.takeWhile_cons_of_pos (by simpa using hc), h3, List.take_succ_cons]

theorem chars_append_of_mem {s : List UInt8} (h : 0 ∈ s) (t : List UInt8) : chars (s ++ t) = chars s := by
  induction s with
  | nil => cases h
  | cons c s ih =>
    by_cases hc : c = 0
    · simp [chars, hc]
    · have hs : 0 ∈ s := (List.mem_cons.1 h).resolve_left (Ne.symm hc)
      have ih := ih hs
      unfold chars at ih ⊢
      rw [List.cons_append, List.takeWhile_cons_of_pos (by simpa using hc),
        List.takeWhile_cons_of_pos (by simpa using hc), ih]

theorem strlen_isSome {s : List UInt8} (h : 0 ∈ s) : ∃ n, strlen s = some n := by
  induction s with
  | nil => cases h
  | cons c s ih =>
    rw [strlen]
    split
    · exact ⟨0, rfl⟩
    · rename_i hc
      obtain ⟨n, hn⟩ := ih ((List.mem_cons.1 h).resolve_left (Ne.symm hc))
      exact ⟨n + 1, by rw [hn]; rfl⟩

theorem strlen_append {s : List UInt8} {n : Nat} (h : strlen s = some n) (t : List UInt8) :
    strlen (s ++ t) = some n := by
  induction s generalizing n with
  | nil => cases h
  | cons c s ih =>
    rw [strlen] at h
    rw [List.cons_append, strlen]
    split at h
    · rename_i hc; rw [if_pos hc]; exact h
    · rename_i hc
      obtain ⟨m, hm, rfl⟩ := Option.map_eq_some_iff.1 h
      rw [if_neg hc, ih hm]; rfl

theorem strlen_terminated {s : List UInt8} (h : 0 ∉ s) : strlen (s ++ [0]) = some s.length := by
  induction s with
  | nil => rfl
  | cons c s ih =>
    have hc : c ≠ 0 := fun e => h (e ▸ List.mem_cons_self ..)
    rw [List.cons_append, strlen, if_neg hc, ih fun h' => h (List.mem_cons_of_mem _ h')]; rfl

/-- A string goes on at least to the end of bytes without a NUL. -/
theorem le_strlen_append {s t : List UInt8} {n : Nat} (h : 0 ∉ s) (hn : strlen (s ++ t) = some n) :
    s.length ≤ n := by
  by_contra hlt
  obtain ⟨-, h0, -⟩ := strlen_spec hn
  rw [List.getElem?_append_left (by omega)] at h0
  exact h (List.mem_of_getElem? h0)

/-! ## strtok -/

section
variable {delim : UInt8}

theorem strtok_eq_none_iff {s : List UInt8} : strtok delim s = none ↔ ∃ n, s = List.replicate n delim := by
  unfold strtok
  simp only [ite_eq_left_iff, reduceCtorEq, imp_false, Decidable.not_not, List.dropWhile_eq_nil_iff,
    decide_eq_true_eq]
  constructor
  · intro h
    exact ⟨s.length, List.eq_replicate_iff.2 ⟨rfl, h⟩⟩
  · rintro ⟨n, rfl⟩ c hc
    exact List.eq_of_mem_replicate hc

/-- The token is what stands between two runs of the delimiter. -/
theorem strtok_eq_some {s token rest : List UInt8} (h : strtok delim s = some (token, rest)) :
    token ≠ [] ∧ delim ∉ token ∧
      ∃ i, s = List.replicate i delim ++ token ∧ rest = [] ∨
        s = List.replicate i delim ++ (token ++ delim :: rest) := by
  unfold strtok at h
  simp only at h
  split at h
  · cases h
  · rename_i hne
    cases h
    have hlead : ∃ i, s.takeWhile (· = delim) = List.replicate i delim := by
      refine ⟨_, List.eq_replicate_iff.2 ⟨rfl, fun c hc => ?_⟩⟩
      have hc := List.mem_takeWhile_imp hc
      exact of_decide_eq_true hc
    obtain ⟨i, hi⟩ := hlead
    have hs : s = List.replicate i delim ++ s.dropWhile (· = delim) := by
      rw [← hi, List.takeWhile_append_dropWhile]
    have hhead : ∀ c u, s.dropWhile (· = delim) = c :: u → c ≠ delim := by
      intro c u hcu
      have := List.head_dropWhile_not (· = delim) hne
      simp only [hcu, List.head_cons] at this
      exact of_decide_eq_false this
    generalize s.dropWhile (· = delim) = u at *
    refine ⟨?_, ?_, i, ?_⟩
    · cases u with
      | nil => exact absurd rfl hne
      | cons c u => rw [List.takeWhile_cons_of_pos (by simpa using hhead c u rfl)]; exact List.cons_ne_nil _ _
    · intro hmem
      have hmem := List.mem_takeWhile_imp hmem
      exact absurd rfl (of_decide_eq_true hmem)
    · have hu : u = u.takeWhile (· ≠ delim) ++ u.dropWhile (· ≠ delim) := List.takeWhile_append_dropWhile.symm
      cases hd : u.dropWhile (· ≠ delim) with
      | nil =>
        left
        rw [hd, List.append_nil] at hu
        exact ⟨by rw [← hu]; exact hs, rfl⟩
      | cons c v =>
        right
        have hc : c = delim := by
          have hne' : u.dropWhile (· ≠ delim) ≠ [] := by rw [hd]; exact List.cons_ne_nil _ _
          have := List.head_dropWhile_not (· ≠ delim) hne'
          simp only [hd, List.head_cons] at this
          exact Decidable.not_not.1 (of_decide_eq_false this)
        rw [hd, hc] at hu
        rw [List.drop_one, List.tail_cons, ← hu]
        exact hs

theorem tokens_replicate (i : Nat) (s : List UInt8) : tokens delim (List.replicate i delim ++ s) = tokens delim s := by
  induction i with
  | zero => rfl
  | succ i ih =>
    rw [List.replicate_succ, List.cons_append, ← ih, tokens,
      ← List.nil_append (delim :: (List.replicate i delim ++ s)), List.splitOn_append_cons_self_of_not_mem (by simp)]
    rfl

theorem tokens_singleton {token : List UInt8} (hne : token ≠ []) (hd : delim ∉ token) :
    tokens delim token = [token] := by
  rw [tokens, List.splitOn_eq_singleton hd]
  simp [hne]

theorem tokens_cons {token : List UInt8} (hne : token ≠ []) (hd : delim ∉ token) (s : List UInt8) :
    tokens delim (token ++ delim :: s) = token :: tokens delim s := by
  rw [tokens, List.splitOn_append_cons_self_of_not_mem hd, List.filter_cons_of_pos (by simpa using hne)]
  rfl

/-- `strtok` takes the tokens off a string one after another. -/
theorem tokens_strtok (s : List UInt8) :
    tokens delim s = match strtok delim s with
      | none => []
      | some (token, rest) => token :: tokens delim rest := by
  cases h : strtok delim s with
  | none =>
    obtain ⟨n, rfl⟩ := strtok_eq_none_iff.1 h
    rw [← List.append_nil (List.replicate n delim), tokens_replicate]
    rfl
  | some r =>
    obtain ⟨token, rest⟩ := r
    obtain ⟨hne, hd, i, ⟨rfl, rfl⟩ | rfl⟩ := strtok_eq_some h
    · rw [tokens_replicate, tokens_singleton hne hd]
      rfl
    · rw [tokens_replicate, tokens_cons hne hd]

/-- A token without the delimiter is found between two runs of it. -/
theorem strtok_replicate {token : List UInt8} (hne : token ≠ []) (hd : delim ∉ token) (i j : Nat) :
    strtok delim (List.replicate i delim ++ (token ++ List.replicate j delim)) =
      some (token, List.replicate (j - 1) delim) := by
  have hlead : ∀ c ∈ List.replicate i delim, decide (c = delim) = true := by
    intro c hc
    exact decide_eq_true (List.eq_of_mem_replicate hc)
  have htoken : ∀ c ∈ token, decide (c ≠ delim) = true := by
    intro c hc
    exact decide_eq_true fun h => hd (h ▸ hc)
  have htail : (List.replicate j delim).takeWhile (· ≠ delim) = [] ∧
      (List.replicate j delim).dropWhile (· ≠ delim) = List.replicate j delim := by
    cases j <;> simp [List.replicate_succ]
  have hdrop : (List.replicate i delim ++ (token ++ List.replicate j delim)).dropWhile (· = delim) =
      token ++ List.replicate j delim := by
    rw [List.dropWhile_append_of_pos hlead]
    cases token with
    | nil => exact absurd rfl hne
    | cons c t => rw [List.cons_append, List.dropWhile_cons_of_neg (by simpa using htoken c List.mem_cons_self)]
  unfold strtok
  simp only [hdrop]
  rw [if_neg (List.append_ne_nil_of_left_ne_nil hne _), List.takeWhile_append_of_pos htoken,
    List.dropWhile_append_of_pos htoken, htail.1, htail.2, List.append_nil, List.drop_replicate]

end

/-! ## Lines -/

theorem linesFrom_ne (s line : List UInt8) (h : line ≠ []) : ∃ u lines, linesFrom line s = (line ++ u) :: lines := by
  induction s generalizing line with
  | nil => exact ⟨[], [], by simp [linesFrom, h]⟩
  | cons c s ih =>
    rw [linesFrom]
    split
    · exact ⟨[c], _, rfl⟩
    · obtain ⟨u, lines, hlines⟩ := ih (line ++ [c]) (by simp)
      exact ⟨c :: u, lines, by rw [hlines]; simp⟩

/-- Where every line fits the buffer, each call of `fgets` stores one. -/
theorem fgetsFrom_eq_linesFrom {size : Nat} (s line : List UInt8) (h : ∀ l ∈ linesFrom line s, l.length < size) :
    fgetsFrom size line s = linesFrom line s := by
  induction s generalizing line with
  | nil => rfl
  | cons c s ih =>
    rw [linesFrom] at h ⊢
    rw [fgetsFrom]
    by_cases hc : c = 10
    · rw [if_pos hc] at h ⊢
      rw [if_pos (.inl hc), ih [] fun l hl => h l (List.mem_cons_of_mem _ hl)]
    · rw [if_neg hc] at h ⊢
      obtain ⟨u, lines, hlines⟩ := linesFrom_ne s (line ++ [c]) (by simp)
      by_cases hfull : (line ++ [c]).length + 1 = size
      · -- a full buffer holds the last line of the text
        rw [if_pos (.inr hfull)]
        have hu : u = [] := by
          have hlen := h (line ++ [c] ++ u) (by simp [hlines])
          rw [List.length_append] at hlen
          exact List.eq_nil_of_length_eq_zero (by omega)
        cases s with
        | nil => simp [linesFrom, fgetsFrom]
        | cons c' s =>
          rw [linesFrom] at hlines
          split at hlines
          · obtain ⟨hlines, -⟩ := List.cons.inj hlines
            simp [hu] at hlines
          · obtain ⟨u', lines', hlines'⟩ := linesFrom_ne s (line ++ [c] ++ [c']) (by simp)
            rw [hlines', hu] at hlines
            obtain ⟨hlines, -⟩ := List.cons.inj hlines
            simp at hlines
      · rw [if_neg (not_or.2 ⟨hc, hfull⟩)]
        exact ih _ h

theorem append_newline_prefix {l l' s t : List UInt8} (h : 10 ∉ l) (h' : 10 ∉ l')
    (hp : l ++ 10 :: s <+: l' ++ 10 :: t) :
    l = l' ∧ s <+: t := by
  induction l generalizing l' with
  | nil =>
    cases l' with
    | nil => exact ⟨rfl, (List.cons_prefix_cons.1 hp).2⟩
    | cons c l' => exact absurd (List.cons_prefix_cons.1 hp).1 fun e => h' (e ▸ List.mem_cons_self ..)
  | cons c l ih =>
    cases l' with
    | nil => exact absurd (List.cons_prefix_cons.1 hp).1 fun e => h (e ▸ List.mem_cons_self ..)
    | cons c' l' =>
      obtain ⟨rfl, hrest⟩ := List.cons_prefix_cons.1 hp
      obtain ⟨rfl, hst⟩ := ih (fun e => h (List.mem_cons_of_mem _ e)) (fun e => h' (List.mem_cons_of_mem _ e)) hrest
      exact ⟨rfl, hst⟩

/-- A block ends at its first empty line: what stands behind it does not change its lines. -/
theorem block_injective {ls ls' : List (List UInt8)} (h : ∀ l ∈ ls, l ≠ [] ∧ 10 ∉ l) (h' : ∀ l ∈ ls', l ≠ [] ∧ 10 ∉ l)
    (hp : block ls <+: block ls') : ls = ls' := by
  have cons (l : List UInt8) (ls : List (List UInt8)) : block (l :: ls) = l ++ 10 :: block ls := by simp [block]
  have hnil {l : List UInt8} {s t : List UInt8} (hl : l ≠ [] ∧ 10 ∉ l) (hp : l ++ s <+: 10 :: t ∨ 10 :: t <+: l ++ s) :
      False := by
    obtain ⟨hne, hmem⟩ := hl
    obtain ⟨c, l, rfl⟩ := List.exists_cons_of_ne_nil hne
    rcases hp with hp | hp
    · exact hmem ((List.cons_prefix_cons.1 hp).1 ▸ List.mem_cons_self ..)
    · exact hmem ((List.cons_prefix_cons.1 hp).1 ▸ List.mem_cons_self ..)
  induction ls generalizing ls' with
  | nil =>
    cases ls' with
    | nil => rfl
    | cons l' ls' =>
      rw [cons] at hp
      exact (hnil (h' l' (List.mem_cons_self ..)) (.inr hp)).elim
  | cons l ls ih =>
    rw [cons] at hp
    cases ls' with
    | nil => exact (hnil (h l (List.mem_cons_self ..)) (.inl hp)).elim
    | cons l' ls' =>
      rw [cons] at hp
      obtain ⟨rfl, hrest⟩ := append_newline_prefix (h l (List.mem_cons_self ..)).2 (h' l' (List.mem_cons_self ..)).2 hp
      rw [ih (fun l hl => h l (List.mem_cons_of_mem _ hl)) (fun l hl => h' l (List.mem_cons_of_mem _ hl)) hrest]

theorem fgetsAll_eq_textLines {size : Nat} {text : List UInt8} (h : ∀ line ∈ textLines text, line.length < size) :
    fgetsAll size text = textLines text := fgetsFrom_eq_linesFrom text [] h

/-! ## strstr -/

section
variable {needle : List UInt8}

theorem strstr_found : ∀ {s : List UInt8} {p : Nat}, strstr needle s = some (some p) →
    needle <+: s.drop p
  | [], p, h => by cases h
  | c :: s, p, h => by
    rw [strstr] at h
    split at h
    · rename_i hp; cases h; exact hp
    · split at h
      · cases h
      · obtain ⟨r, hr, h⟩ := Option.map_eq_some_iff.1 h
        obtain ⟨q, rfl, rfl⟩ := Option.map_eq_some_iff.1 h
        rw [List.drop_succ_cons]
        exact strstr_found hr

theorem strstr_found_le {s : List UInt8} {p : Nat} (h : strstr needle s = some (some p)) :
    p + needle.length ≤ s.length ∨ needle = [] := by
  have hp := (strstr_found h).length_le
  rw [List.length_drop] at hp
  cases needle with
  | nil => exact .inr rfl
  | cons c n => left; simp only [List.length_cons] at hp ⊢; omega

/-- A needle without NULs that stands in `s ++ t` before the end of a string stands in the
string. -/
theorem prefix_of_prefix_append (h0 : 0 ∉ needle) {s t : List UInt8} (hs : 0 ∈ s) (h : needle <+: s ++ t) :
    needle <+: s := by
  refine List.prefix_of_prefix_length_le h (List.prefix_append s t) ?_
  by_contra hlt
  have hsn : s <+: needle := List.prefix_of_prefix_length_le (List.prefix_append s t) h (by omega)
  exact h0 (hsn.subset hs)

/-- The scan of a terminated string reads nothing after it. -/
theorem strstr_append_of_mem (h0 : 0 ∉ needle) {s : List UInt8} (hs : 0 ∈ s) (t : List UInt8) :
    strstr needle (s ++ t) = strstr needle s := by
  induction s with
  | nil => cases hs
  | cons c s ih =>
    have hiff : needle <+: c :: (s ++ t) ↔ needle <+: c :: s :=
      ⟨prefix_of_prefix_append h0 hs, fun h => h.trans (by simp)⟩
    rw [List.cons_append, strstr, strstr]
    simp only [hiff]
    split
    · rfl
    · split
      · rfl
      · rename_i hc
        rw [ih ((List.mem_cons.1 hs).resolve_left (Ne.symm hc))]

theorem strstr_append_of_found {s : List UInt8} {p : Nat} (h : strstr needle s = some (some p)) (t : List UInt8) :
    strstr needle (s ++ t) = some (some p) := by
  induction s generalizing p with
  | nil => cases h
  | cons c s ih =>
    have hlen := strstr_found_le h
    have hiff : needle <+: c :: (s ++ t) ↔ needle <+: c :: s := by
      refine ⟨fun h => List.prefix_of_prefix_length_le h ?_ ?_, fun h => h.trans (by simp)⟩
      · exact List.prefix_append (c :: s) t
      · rcases hlen with hlen | rfl
        · omega
        · simp
    rw [strstr] at h
    rw [List.cons_append, strstr]
    simp only [hiff]
    split at h
    · rename_i hp; rw [if_pos hp]; exact h
    · rename_i hp
      split at h
      · cases h
      · rename_i hc
        obtain ⟨r, hr, h⟩ := Option.map_eq_some_iff.1 h
        obtain ⟨q, rfl, rfl⟩ := Option.map_eq_some_iff.1 h
        rw [if_neg hp, if_neg hc, ih hr]; rfl

theorem strstr_isSome {s : List UInt8} (h : 0 ∈ s) : ∃ r, strstr needle s = some r := by
  induction s with
  | nil => cases h
  | cons c s ih =>
    rw [strstr]
    split
    · exact ⟨_, rfl⟩
    · split
      · exact ⟨_, rfl⟩
      · rename_i hc
        obtain ⟨r, hr⟩ := ih ((List.mem_cons.1 h).resolve_left (Ne.symm hc))
        exact ⟨_, by rw [hr]; rfl⟩

theorem mem_of_strstr_none {s : List UInt8} (h : strstr needle s = some none) : 0 ∈ s := by
  induction s with
  | nil => cases h
  | cons c s ih =>
    rw [strstr] at h
    split at h
    · cases h
    · split at h
      · rename_i hc; exact hc ▸ List.mem_cons_self ..
      · obtain ⟨r, hr, h⟩ := Option.map_eq_some_iff.1 h
        rw [Option.map_eq_none_iff] at h
        exact List.mem_cons_of_mem _ (ih (h ▸ hr))

/-- What stands at the head of a string without a NUL of its own stands in its characters. -/
theorem prefix_chars (h0 : 0 ∉ needle) {s : List UInt8} (h : needle <+: s) : needle <+: chars s := by
  obtain ⟨t, rfl⟩ := h
  have hne : ∀ c ∈ needle, decide (c ≠ 0) = true := by
    intro c hc
    exact decide_eq_true fun h => h0 (h ▸ hc)
  rw [chars, List.takeWhile_append_of_pos hne]
  exact List.prefix_append _ _

/-- A needle that does not stand among the characters of a string is not found. -/
theorem strstr_eq_none_of_chars (h0 : 0 ∉ needle) {s : List UInt8} (hs : 0 ∈ s) (h : ¬ needle <:+: chars s) :
    strstr needle s = some none := by
  induction s with
  | nil => cases hs
  | cons c s ih =>
    rw [strstr, if_neg (fun hp => h (prefix_chars h0 hp).isInfix)]
    by_cases hc : c = 0
    · rw [if_pos hc]
    · have hchars : chars (c :: s) = c :: chars s := List.takeWhile_cons_of_pos (by simpa using hc)
      rw [if_neg hc, ih ((List.mem_cons.1 hs).resolve_left (Ne.symm hc))]
      · rfl
      · rw [hchars] at h
        exact fun hin => h (hin.trans (List.suffix_cons _ _).isInfix)

/-- A needle that stands in bytes without a NUL is found. -/
theorem strstr_of_infix {s : List UInt8} (hs : 0 ∉ s) (hne : needle ≠ []) (h : needle <:+: s) :
    ∃ p, strstr needle s = some (some p) := by
  induction s with
  | nil => exact absurd (List.infix_nil.1 h) hne
  | cons c s ih =>
    rw [strstr]
    split
    · exact ⟨0, rfl⟩
    · rename_i hp
      have hc : c ≠ 0 := fun hc => hs (hc ▸ List.mem_cons_self)
      obtain ⟨p, hp⟩ := ih (fun hmem => hs (List.mem_cons_of_mem _ hmem))
        ((List.infix_cons_iff.1 h).resolve_left hp)
      rw [if_neg hc, hp]
      exact ⟨p + 1, rfl⟩

/-- Where a scan stops in `s ++ t` without having stopped in `s`: past the end of `s`. -/
theorem strstr_append_late {s t : List UInt8} (h : strstr needle s = none) {p : Nat}
    (hp : strstr needle (s ++ t) = some (some p)) (hne : needle ≠ []) : s.length < p + needle.length := by
  induction s generalizing p with
  | nil => exact Nat.lt_of_lt_of_le (List.length_pos_of_ne_nil hne) (Nat.le_add_left ..)
  | cons c s ih =>
    rw [strstr] at h
    split at h
    · cases h
    · rename_i hnp
      split at h
      · cases h
      · rename_i hc
        rw [Option.map_eq_none_iff] at h
        rw [List.cons_append, strstr] at hp
        split at hp
        · rename_i hpre
          cases hp
          by_contra hlt
          exact hnp (List.prefix_of_prefix_length_le hpre (List.prefix_append (c :: s) t) (by omega))
        · obtain ⟨r, hr, hp⟩ := Option.map_eq_some_iff.1 hp
          obtain ⟨q, rfl, rfl⟩ := Option.map_eq_some_iff.1 hp
          have := ih h hr
          simp only [List.length_cons]
          omega

/-- A needle does not reach into bytes that lack its last character. -/
theorem infix_of_last_not_mem {front : List UInt8} {z : UInt8} (hneedle : needle = front ++ [z]) {s t : List UInt8}
    (hz : z ∉ t) (h : needle <:+: s ++ t) : needle <:+: s := by
  rcases List.infix_append_iff.1 h with h | h | ⟨u, v, huv, hu, hv⟩
  · exact h
  · exact absurd (h.subset (by simp [hneedle])) hz
  · rcases List.eq_nil_or_concat v with rfl | ⟨v', y, rfl⟩
    · rw [huv, List.append_nil]
      exact hu.isInfix
    · have hy : y = z := by
        rw [hneedle, List.concat_eq_append, ← List.append_assoc] at huv
        exact (List.append_inj' huv rfl).2 |> List.singleton_inj.1 |>.symm
      exact absurd (hv.subset (by simp [hy])) hz

theorem strstr_append_of_last {front : List UInt8} {z : UInt8} {s t : List UInt8} (h0 : 0 ∈ t)
    (hneedle : needle = front ++ [z]) (hz : z ∉ t) (hs : ¬ needle <:+: s) : strstr needle (s ++ t) = some none := by
  have hsome : ∃ r, strstr needle (s ++ t) = some r := strstr_isSome (List.mem_append_right s h0)
  obtain ⟨r, hr⟩ := hsome
  cases r with
  | none => exact hr
  | some p =>
    have hin : needle <:+: s ++ t := (strstr_found hr).isInfix.trans (List.drop_suffix _ _).isInfix
    exact absurd (infix_of_last_not_mem hneedle hz hin) hs

end

end Td3.CString
