/-
Readers, which take a value off the front of a text, and how they compose: a reader that takes just the text
of a value, whatever follows it, is put together from such readers of its parts.
-/
import Mathlib.Data.List.Basic

namespace Td3

/-- What is read, and the text that is left -/
abbrev Reader (τ α : Type*) := List τ → Option (α × List τ)

namespace Reader

variable {τ α β : Type*}

/-! ## Readers -/

def bind (read : Reader τ α) (next : α → Reader τ β) : Reader τ β := fun s => (read s).bind fun (a, s) => next a s

def map (f : α → β) (read : Reader τ α) : Reader τ β := fun s => (read s).map fun (a, s) => (f a, s)

/-- The tokens up to the first that does not meet `p` -/
def span (p : τ → Bool) : Reader τ (List τ) := fun s => some (s.takeWhile p, s.dropWhile p)

/-- `n` tokens -/
def count (n : Nat) : Reader τ (List τ) := fun s => if n ≤ s.length then some (s.take n, s.drop n) else none

/-- Just these tokens -/
def expect [DecidableEq τ] (text : List τ) : Reader τ Unit := fun s =>
  if s.take text.length = text then some ((), s.drop text.length) else none

/-- At least one item, at most `n`, as long as `more` says that another one follows -/
def many (item : Reader τ α) (more : Reader τ Bool) : Nat → Reader τ (List α)
  | 0 => fun _ => none
  | n + 1 => bind item fun a => bind more fun again => if again then map (a :: ·) (many item more n) else fun s =>
    some ([a], s)

/-- Items up to the end of the text, at most `n` of them -/
def all (item : Reader τ α) : Nat → List τ → Option (List α)
  | _, [] => some []
  | 0, _ :: _ => none
  | n + 1, c :: s => (item (c :: s)).bind fun (a, s) => (all item n s).map (a :: ·)

/-! ## What they take -/

/-- Before a rest that meets `follow`, the reader takes just the text. -/
def Reads (read : Reader τ α) (text : List τ) (a : α) (follow : List τ → Prop) : Prop :=
  ∀ rest, follow rest → read (text ++ rest) = some (a, rest)

variable {read : Reader τ α} {next : α → Reader τ β} {text text' : List τ} {a : α} {b : β}
  {follow follow' : List τ → Prop}

theorem Reads.bind (h : Reads read text a follow) (h' : Reads (next a) text' b follow')
    (hfollow : ∀ rest, follow' rest → follow (text' ++ rest)) :
    Reads (Reader.bind read next) (text ++ text') b follow' := by
  intro rest hrest
  rw [List.append_assoc, Reader.bind, h _ (hfollow rest hrest), Option.bind_some]
  exact h' rest hrest

theorem Reads.map (f : α → β) (h : Reads read text a follow) : Reads (Reader.map f read) text (f a) follow := by
  intro rest hrest
  rw [Reader.map, h rest hrest]
  rfl

theorem Reads.mono (h : Reads read text a follow) (hfollow : ∀ rest, follow' rest → follow rest) :
    Reads read text a follow' := fun rest hrest => h rest (hfollow rest hrest)

/-- No token that meets `p` comes first. -/
def Stops (p : τ → Bool) (rest : List τ) : Prop := ∀ c ∈ rest.head?, p c = false

theorem reads_span {p : τ → Bool} (h : ∀ c ∈ text, p c = true) : Reads (span p) text text (Stops p) := by
  intro rest hrest
  rw [span, List.takeWhile_append_of_pos h, List.dropWhile_append_of_pos h]
  cases rest with
  | nil => simp
  | cons c rest =>
    have hc : p c = false := hrest c rfl
    rw [List.takeWhile_cons_of_neg (by simp [hc]), List.dropWhile_cons_of_neg (by simp [hc]), List.append_nil]

theorem reads_count : Reads (count text.length) text text fun _ => True := by
  intro rest _
  rw [count, if_pos (by rw [List.length_append]; omega), List.take_left, List.drop_left]

theorem reads_expect [DecidableEq τ] : Reads (expect text) text () fun _ => True := by
  intro rest _
  rw [expect, List.take_left, if_pos rfl, List.drop_left]

/-- The texts of the items, with `sep` between them and `fin` after the last. -/
def joined (sep fin : List τ) : List (List τ × α) → List τ
  | [] => []
  | [p] => p.1 ++ fin
  | p :: q :: items => p.1 ++ (sep ++ joined sep fin (q :: items))

/-- There are no more items than tokens. -/
theorem length_le_joined (sep fin : List τ) (items : List (List τ × α)) (h : ∀ p ∈ items, p.1 ≠ []) :
    items.length ≤ (joined sep fin items).length := by
  induction items with
  | nil => exact Nat.zero_le _
  | cons p items ih =>
    obtain ⟨hp, hitems⟩ := List.forall_mem_cons.1 h
    have hpos := List.length_pos_iff.2 hp
    have hle := ih hitems
    cases items with
    | nil =>
      rw [joined, List.length_append]
      simp only [List.length_cons, List.length_nil]
      omega
    | cons q items =>
      rw [joined, List.length_append, List.length_append, List.length_cons]
      omega

/-- A list of items, by induction on it -/
theorem reads_many {item : Reader τ α} {more : Reader τ Bool} {sep fin : List τ} {items : List (List τ × α)} {n : Nat}
    (hne : items ≠ []) (hn : items.length ≤ n) (hitem : ∀ p ∈ items, Reads item p.1 p.2 follow)
    (hsep : ∀ p ∈ items, ∀ rest, more (sep ++ (p.1 ++ rest)) = some (true, p.1 ++ rest))
    (hfin : Reads more fin false follow') (hfollow : ∀ rest, follow (sep ++ rest))
    (hfollow' : ∀ rest, follow' rest → follow (fin ++ rest)) :
    Reads (many item more n) (joined sep fin items) (items.map Prod.snd) follow' := by
  induction items generalizing n with
  | nil => exact absurd rfl hne
  | cons p items ih =>
    obtain ⟨n, rfl⟩ : ∃ m, n = m + 1 := ⟨n - 1, by simp at hn; omega⟩
    obtain ⟨hp, hitems⟩ := List.forall_mem_cons.1 hitem
    intro rest hrest
    cases items with
    | nil =>
      rw [joined, List.append_assoc, many, Reader.bind, hp _ (hfollow' rest hrest), Option.bind_some]
      simp only [Reader.bind, hfin rest hrest, Option.bind_some, Bool.false_eq_true, if_false]
      rfl
    | cons q items =>
      have hrest' := ih (List.cons_ne_nil q items) (by simpa using hn) hitems
        (fun p hp => hsep p (List.mem_cons_of_mem _ hp)) rest hrest
      -- the text of the next item is where `more` says that one follows
      obtain ⟨text, htext⟩ : ∃ text, joined sep fin (q :: items) ++ rest = q.1 ++ text := by
        cases items with
        | nil => exact ⟨fin ++ rest, List.append_assoc ..⟩
        | cons r items => exact ⟨_, List.append_assoc ..⟩
      have hmore := hsep q (List.mem_cons_of_mem _ List.mem_cons_self) text
      rw [← htext] at hmore
      rw [joined, List.append_assoc, List.append_assoc, many, Reader.bind, hp _ (hfollow _), Option.bind_some]
      simp only [Reader.bind, hmore, Option.bind_some, if_true, Reader.map, hrest', Option.map_some, List.map_cons]

/-- A stream of items, by induction on the list of them -/
theorem all_flatten {item : Reader τ α} {items : List (List τ × α)} {n : Nat} (hn : items.length ≤ n)
    (hne : ∀ p ∈ items, p.1 ≠ []) (hitem : ∀ p ∈ items, Reads item p.1 p.2 fun _ => True) :
    all item n (items.map Prod.fst).flatten = some (items.map Prod.snd) := by
  induction items generalizing n with
  | nil => cases n <;> rfl
  | cons p items ih =>
    obtain ⟨n, rfl⟩ : ∃ m, n = m + 1 := ⟨n - 1, by simp at hn; omega⟩
    obtain ⟨hp, hitems⟩ := List.forall_mem_cons.1 hitem
    obtain ⟨c, text, hc⟩ := List.exists_cons_of_ne_nil (hne p List.mem_cons_self)
    have hrest := ih (by simpa using hn) (fun p hp => hne p (List.mem_cons_of_mem _ hp)) hitems
    have hread := hp (items.map Prod.fst).flatten trivial
    rw [hc, List.cons_append] at hread
    rw [List.map_cons, List.flatten_cons, hc, List.cons_append, all, hread, Option.bind_some]
    simp only [hrest, Option.map_some, List.map_cons]

end Reader

end Td3
