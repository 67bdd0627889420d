/-
`Socket::write` and `Socket::read` (server/lib_src/socket.cpp) over any sequence of results of
`send()` and `recv()`.

The write loop passes `msg` and `len` unchanged to every `send`, so it delivers the message once
exactly when the first `send` takes all of it: every later `send` starts again at `msg[0]`.
-/
import Mathlib.Tactic

namespace Td3.Server

/-! ## The source functions -/

/-- A result of `send()`: some of the bytes it was asked for were accepted, or it failed. -/
inductive SendResult where
  | accepted (n : Nat)
  | failed
deriving DecidableEq, Repr

/-- What the calls of `send()` did: the `(offset, length)` of the part of `msg` each was asked to
read, and the offsets in `msg` of the bytes handed to the peer, in order. -/
structure Wire where
  asked : List (Nat × Nat) := []
  handed : List Nat := []
deriving DecidableEq, Repr

/-- The bytes the peer receives when the buffer holds `msg`. -/
def Wire.bytes (msg : Nat → UInt8) (w : Wire) : List UInt8 := w.handed.map msg

/-- `send(sockfd, &msg[offset], length, flags)`: the returned `int`, and the wire after it. -/
def send (offset length : Nat) (w : Wire) : SendResult → Int × Wire
  | .failed => (-1, { w with asked := w.asked ++ [(offset, length)] })
  | .accepted n => (n, { asked := w.asked ++ [(offset, length)], handed := w.handed ++ List.range' offset n })

/-- An `int` addition, in two's complement. -/
def intAdd (a b : Int) : Int := (a + b).bmod (2 ^ 32)

/-- The loop of `Socket::write`; `none` while it waits for a `send` that has not returned. -/
def writeLoop (len : Nat) : List SendResult → Int → Wire → Option (Int × Wire)
  | [], _, _ => none
  | result :: results, bytesSent, w =>
    -- `msg` and `len` are never advanced: every `send` starts at offset 0
    let (aux, w) := send 0 len w result
    if aux = -1 then some (aux, w)
    else
      let bytesSent := intAdd bytesSent aux
      if bytesSent < len then writeLoop len results bytesSent w else some (bytesSent, w)

/-- `Socket::write(msg, len, flags)` with the results of its calls of `send()`. -/
def write (len : Nat) (results : List SendResult) : Option (Int × Wire) := writeLoop len results 0 {}

/-- A result of `recv()`: the bytes it stored (none: the peer closed the connection), or `-1`. -/
inductive RecvResult where
  | received (bytes : List UInt8)
  | failed
deriving DecidableEq, Repr

/-- `Socket::read(msg, len, flags)`: the returned `int` and the contents of `msg` after it. -/
def read (msg : List UInt8) : RecvResult → Int × List UInt8
  | .failed => (-1, msg)
  | .received bytes => (bytes.length, bytes ++ msg.drop bytes.length)

/-! ## What a write delivers -/

/-- A result `send()` can give when asked for `len` bytes: at least one of them, when there are
any. -/
def SendResult.Legal (len : Nat) : SendResult → Prop
  | .accepted n => n ≤ len ∧ (n = 0 → len = 0)
  | .failed => True

/-- Unless it returns `-1`, the call hands exactly `msg[0..len)` to the peer, in order and each
byte once, returns `len`, and asks no `send` for bytes past `msg[len)`. -/
def DeliversExactly (msg : Nat → UInt8) (len : Nat) (results : List SendResult) : Prop :=
  ∀ ret w, write len results = some (ret, w) → ret ≠ -1 →
    w.handed = List.range len ∧ w.bytes msg = (List.range len).map msg ∧ ret = len ∧
      ∀ q ∈ w.asked, q.1 + q.2 ≤ len

/-- The accepted counts, summed as `int`, reach `len` before a `send` fails. -/
def reaches (len : Nat) : Int → List SendResult → Bool
  | _, [] => false
  | _, .failed :: _ => false
  | total, .accepted n :: results =>
    if intAdd total n < len then reaches len (intAdd total n) results else true

/-! ## The loop -/

@[simp] theorem writeLoop_failed (len : Nat) (results : List SendResult) (total : Int) (w : Wire) :
    writeLoop len (.failed :: results) total w = some (-1, { w with asked := w.asked ++ [(0, len)] }) := rfl

theorem writeLoop_accepted (len n : Nat) (results : List SendResult) (total : Int) (w : Wire) :
    writeLoop len (.accepted n :: results) total w =
      if intAdd total n < len
      then writeLoop len results (intAdd total n) ⟨w.asked ++ [(0, len)], w.handed ++ List.range n⟩
      else some (intAdd total n, ⟨w.asked ++ [(0, len)], w.handed ++ List.range n⟩) := by
  have hs : send 0 len w (.accepted n) = ((n : Int), ⟨w.asked ++ [(0, len)], w.handed ++ List.range n⟩) := by
    rw [List.range_eq_range']; rfl
  have hn : ¬ ((n : Int) = -1) := by omega
  rw [writeLoop, hs]
  simp only [hn, if_false]

/-- What a finished loop leaves: every `send` was asked for the whole of `msg`, and unless the
call failed, a nonempty list of accepted `send`s each handed over a prefix of `msg`. -/
theorem writeLoop_some (len : Nat) : ∀ (results : List SendResult) (total : Int) (w : Wire) (ret : Int) (w' : Wire),
    writeLoop len results total w = some (ret, w') →
      (∃ k, w'.asked = w.asked ++ List.replicate k (0, len)) ∧
      (ret ≠ -1 → ∃ n ns, (n :: ns).map SendResult.accepted <+: results ∧
        w'.handed = w.handed ++ ((n :: ns).map List.range).flatten ∧ (ns = [] → ret = intAdd total n ∧ len ≤ ret))
  | [], _, _, _, _, h => by simp [writeLoop] at h
  | .failed :: results, total, w, ret, w', h => by
    simp only [writeLoop_failed, Option.some.injEq, Prod.mk.injEq] at h
    obtain ⟨rfl, rfl⟩ := h
    exact ⟨⟨1, rfl⟩, fun h => absurd rfl h⟩
  | .accepted n :: results, total, w, ret, w', h => by
    rw [writeLoop_accepted] at h
    split at h
    · obtain ⟨⟨k, hk⟩, hr⟩ := writeLoop_some len results _ _ ret w' h
      refine ⟨⟨k + 1, by rw [hk]; simp [List.replicate_succ]⟩, fun hne => ?_⟩
      obtain ⟨m, ns, hp, hh, -⟩ := hr hne
      exact ⟨n, m :: ns, (List.cons_prefix_cons).2 ⟨rfl, hp⟩, by rw [hh]; simp, nofun⟩
    · rename_i hle
      simp only [Option.some.injEq, Prod.mk.injEq] at h
      obtain ⟨rfl, rfl⟩ := h
      exact ⟨⟨1, rfl⟩, fun _ => ⟨n, [], by simp, by simp, fun _ => ⟨rfl, by omega⟩⟩⟩

theorem writeLoop_reaches (len : Nat) : ∀ (results : List SendResult) (total : Int) (w : Wire),
    reaches len total results = true → ∃ ret w', writeLoop len results total w = some (ret, w') ∧ (len : Int) ≤ ret
  | [], _, _, h => by simp [reaches] at h
  | .failed :: _, _, _, h => by simp [reaches] at h
  | .accepted n :: results, total, w, h => by
    rw [writeLoop_accepted]
    rw [reaches] at h
    split at h
    · rename_i hlt
      rw [if_pos hlt]
      exact writeLoop_reaches len results _ _ h
    · rename_i hle
      rw [if_neg hle]
      exact ⟨_, _, rfl, by omega⟩

theorem writeLoop_not_reaches (len : Nat) :
    ∀ (results : List SendResult) (total : Int) (w : Wire) (ret : Int) (w' : Wire),
    reaches len total results = false → writeLoop len results total w = some (ret, w') → ret = -1
  | [], _, _, _, _, _, h => by simp [writeLoop] at h
  | .failed :: _, _, _, _, _, _, h => by
    simp only [writeLoop_failed, Option.some.injEq, Prod.mk.injEq] at h
    exact h.1.symm
  | .accepted n :: results, total, w, ret, w', hr, h => by
    rw [writeLoop_accepted] at h
    rw [reaches] at hr
    split at hr
    · rename_i hlt
      rw [if_pos hlt] at h
      exact writeLoop_not_reaches len results _ _ ret w' hr h
    · cases hr

theorem intAdd_eq {a b : Int} (h0 : 0 ≤ a + b) (h1 : a + b < 2 ^ 31) : intAdd a b = a + b := by
  unfold intAdd
  rw [Int.bmod_eq_of_le] <;> omega

/-- The loop ends: while the counts stay in an `int`, `len` results of `send` are enough. -/
theorem writeLoop_returns (len : Nat) (hlen : len ≤ 2 ^ 30) : ∀ (results : List SendResult) (total : Int) (w : Wire),
    (∀ r ∈ results, r.Legal len) → 0 ≤ total → total < max len 1 → max len 1 - total ≤ results.length →
      (writeLoop len results total w).isSome
  | [], total, _, _, h0, h1, h2 => by simp at h2; omega
  | .failed :: _, _, _, _, _, _, _ => rfl
  | .accepted n :: results, total, w, hl, h0, h1, h2 => by
    obtain ⟨hle, hz⟩ := hl _ (List.mem_cons_self ..)
    rw [writeLoop_accepted, intAdd_eq (by omega) (by omega)]
    split
    · rename_i hlt
      simp only [List.length_cons] at h2
      exact writeLoop_returns len hlen results _ _ (fun r hr => hl r (List.mem_cons_of_mem _ hr))
        (by omega) (by omega) (by omega)
    · rfl

/-- While the counts stay in an `int`, what the loop returns beyond `total` is the number of bytes it
handed over. -/
theorem writeLoop_handed (len : Nat) (hlen : len ≤ 2 ^ 30) :
    ∀ (results : List SendResult) (total : Int) (w : Wire) (ret : Int) (w' : Wire),
    (∀ r ∈ results, r.Legal len) → 0 ≤ total → total < max len 1 →
      writeLoop len results total w = some (ret, w') → ret ≠ -1 →
        ret = total + (w'.handed.length - w.handed.length : Int) ∧ (len : Int) ≤ ret
  | [], _, _, _, _, _, _, _, h, _ => by simp [writeLoop] at h
  | .failed :: _, _, _, _, _, _, _, _, h, hne => by
    simp only [writeLoop_failed, Option.some.injEq, Prod.mk.injEq] at h
    exact absurd h.1.symm hne
  | .accepted n :: results, total, w, ret, w', hl, h0, h1, h, hne => by
    obtain ⟨hle, hz⟩ := hl _ (List.mem_cons_self ..)
    rw [writeLoop_accepted, intAdd_eq (by omega) (by omega)] at h
    split at h
    · rename_i hlt
      obtain ⟨hr, hge⟩ := writeLoop_handed len hlen results _ _ ret w'
        (fun r hr => hl r (List.mem_cons_of_mem _ hr)) (by omega) (by omega) h hne
      simp only [List.length_append, List.length_range] at hr
      exact ⟨by omega, hge⟩
    · rename_i hge
      simp only [Option.some.injEq, Prod.mk.injEq] at h
      obtain ⟨rfl, rfl⟩ := h
      simp only [List.length_append, List.length_range]
      exact ⟨by omega, by omega⟩

/-- Whatever it returns, the loop has handed over a prefix of `msg` for each `send` that accepted
some. -/
theorem writeLoop_pieces (len : Nat) :
    ∀ (results : List SendResult) (total : Int) (w : Wire) (ret : Int) (w' : Wire),
    writeLoop len results total w = some (ret, w') →
      ∃ ns : List Nat, ns.map SendResult.accepted <+: results ∧ w'.handed = w.handed ++ (ns.map List.range).flatten
  | [], _, _, _, _, h => by simp [writeLoop] at h
  | .failed :: _, _, w, _, _, h => by
    simp only [writeLoop_failed, Option.some.injEq, Prod.mk.injEq] at h
    exact ⟨[], List.nil_prefix, by rw [← h.2]; simp⟩
  | .accepted n :: results, total, w, ret, w', h => by
    rw [writeLoop_accepted] at h
    split at h
    · obtain ⟨ns, hns, hh⟩ := writeLoop_pieces len results _ _ ret w' h
      exact ⟨n :: ns, List.cons_prefix_cons.2 ⟨rfl, hns⟩, by rw [hh]; simp⟩
    · simp only [Option.some.injEq, Prod.mk.injEq] at h
      exact ⟨[n], by simp, by rw [← h.2]; simp⟩

/-! ## When a write delivers the message exactly -/

/-- After the first prefix of `msg` handed over, the next one starts at `msg[0]` again. -/
theorem getElem?_flatten_range {n m : Nat} {ns : List Nat} (hm : 0 < m) :
    ((n :: m :: ns).map List.range).flatten[n]? = some 0 := by
  simp only [List.map_cons, List.flatten_cons]
  rw [List.getElem?_append_right (by simp), List.getElem?_append_left (by simpa using hm)]
  simp [hm]

/-- Prefixes of `msg` handed over one after another are the whole message only if there is one. -/
theorem flatten_range_eq {len n : Nat} {ns : List Nat} (h : ((n :: ns).map List.range).flatten = List.range len)
    (hpos : ∀ m ∈ ns, 0 < m) (hn : 0 < n) : ns = [] := by
  cases ns with
  | nil => rfl
  | cons m ns =>
    -- the byte after the first prefix is `msg[n]` in the message
    have e : (List.range len)[n]? = some 0 := by
      rw [← h, getElem?_flatten_range (hpos m (List.mem_cons_self ..))]
    rw [List.getElem?_eq_some_iff] at e
    obtain ⟨_, e⟩ := e
    rw [List.getElem_range] at e
    omega

/-- A write whose first `send` takes the whole message has no other. -/
theorem write_whole {len : Nat} (hlen : len < 2 ^ 31) {results : List SendResult}
    (h : results.head? = some (.accepted len)) :
    write len results = some ((len : Int), ⟨[(0, len)], List.range len⟩) := by
  have hadd : intAdd 0 len = len := by
    rw [intAdd_eq (by omega) (by omega), zero_add]
  cases results with
  | nil => cases h
  | cons r results =>
    simp only [List.head?_cons, Option.some.injEq] at h
    unfold write
    rw [h, writeLoop_accepted, hadd, if_neg (lt_irrefl _)]
    rfl

/-- A write hands nothing over only if its first `send` fails. -/
theorem write_handed_eq_nil_iff {len : Nat} (hpos : 0 < len) {results : List SendResult}
    (hl : ∀ r ∈ results, r.Legal len) {ret : Int} {w : Wire} (h : write len results = some (ret, w)) :
    w.handed = [] ↔ results.head? = some .failed := by
  unfold write at h
  cases results with
  | nil => cases h
  | cons r results =>
    simp only [List.head?_cons, Option.some.injEq]
    cases r with
    | failed =>
      simp only [writeLoop_failed, Option.some.injEq, Prod.mk.injEq] at h
      simp [← h.2]
    | accepted n =>
      obtain ⟨-, hn⟩ := hl _ (List.mem_cons_self ..)
      have hne : List.range n ≠ [] := by
        rw [Ne, List.range_eq_nil]
        omega
      rw [writeLoop_accepted] at h
      constructor
      · intro hnil
        split at h
        · obtain ⟨ns, -, hh⟩ := writeLoop_pieces _ _ _ _ _ _ h
          rw [hnil] at hh
          have hboth := List.append_eq_nil_iff.1 hh.symm
          exact absurd (by simpa using hboth.1) hne
        · simp only [Option.some.injEq, Prod.mk.injEq] at h
          rw [← h.2] at hnil
          exact absurd (by simpa using hnil) hne
      · rintro ⟨⟩

/-- A write hands each byte over once, in order, only if its first `send` takes them all. -/
theorem write_handed_eq_range_iff {len : Nat} (hpos : 0 < len) (hlen : len < 2 ^ 31) {results : List SendResult}
    (hl : ∀ r ∈ results, r.Legal len) {ret : Int} {w : Wire} (h : write len results = some (ret, w)) :
    w.handed = List.range len ↔ results.head? = some (.accepted len) := by
  constructor
  · intro hr
    obtain ⟨ns, hns, hh⟩ := writeLoop_pieces _ _ _ _ _ _ h
    rw [List.nil_append, hr] at hh
    have hacc : ∀ m ∈ ns, 0 < m := fun m hm => by
      obtain ⟨-, hm⟩ := hl _ (hns.subset (List.mem_map.2 ⟨m, hm, rfl⟩))
      omega
    cases ns with
    | nil =>
      rw [List.map_nil, List.flatten_nil, List.range_eq_nil] at hh
      omega
    | cons n ns =>
      have hnil := flatten_range_eq hh.symm (fun m hm => hacc m (List.mem_cons_of_mem _ hm))
        (hacc n (List.mem_cons_self ..))
      subst hnil
      have hn : len = n := by simpa using congrArg List.length hh
      obtain ⟨t, ht⟩ := hns
      rw [← ht, hn]
      rfl
  · intro hhead
    rw [write_whole hlen hhead, Option.some.injEq, Prod.mk.injEq] at h
    rw [← h.2]

/-- A write waits while its `send`s have not taken enough and none has failed. -/
theorem writeLoop_eq_none_iff (len : Nat) : ∀ (results : List SendResult) (total : Int) (w : Wire),
    writeLoop len results total w = none ↔ reaches len total results = false ∧ .failed ∉ results
  | [], _, _ => by simp [writeLoop, reaches]
  | .failed :: _, _, _ => by simp
  | .accepted n :: results, total, w => by
    rw [writeLoop_accepted, reaches]
    split
    · rw [writeLoop_eq_none_iff len results]
      simp
    · simp

/-- `Socket::write` delivers the message exactly when its first `send` takes all `len` bytes (or
the accepted counts do not reach `len` before a `send` fails): a partial `send` that is followed
by another delivers the start of the message again. -/
theorem write_delivers_iff (msg : Nat → UInt8) (len : Nat) (hlen : len < 2 ^ 31) (results : List SendResult)
    (hl : ∀ r ∈ results, r.Legal len) :
    DeliversExactly msg len results ↔
      results.head? = some (.accepted len) ∨ reaches len 0 results = false := by
  constructor
  · intro h
    by_contra hc
    obtain ⟨hhead, hr⟩ := not_or.1 hc
    rw [Bool.not_eq_false] at hr
    obtain ⟨ret, w, hw, hle⟩ := writeLoop_reaches len results 0 {} hr
    have hne : ret ≠ -1 := by omega
    obtain ⟨-, hs⟩ := writeLoop_some len results 0 {} ret w hw
    obtain ⟨n, ns, hpre, hh, hlast⟩ := hs hne
    have hacc : ∀ m ∈ n :: ns, m ≤ len ∧ (m = 0 → len = 0) := fun m hm =>
      hl _ (hpre.subset (List.mem_map.2 ⟨m, hm, rfl⟩))
    obtain ⟨t, ht⟩ := hpre
    have hfirst : results.head? = some (.accepted n) := by rw [← ht]; rfl
    have hnlen : n ≠ len := fun e => hhead (e ▸ hfirst)
    obtain ⟨hn, hn0⟩ := hacc n (List.mem_cons_self ..)
    have hnil : ns = [] := by
      refine flatten_range_eq (by simpa using hh.symm.trans (h ret w hw hne).1) (fun m hm => ?_) (by omega)
      have := (hacc m (List.mem_cons_of_mem _ hm)).2
      omega
    obtain ⟨hret, hge⟩ := hlast hnil
    rw [intAdd_eq (by omega) (by omega)] at hret
    omega
  · rintro (hhead | hr) ret w hw hne
    · rw [write_whole hlen hhead, Option.some.injEq, Prod.mk.injEq] at hw
      obtain ⟨rfl, rfl⟩ := hw
      exact ⟨by simp, by simp [Wire.bytes], by omega, by simp⟩
    · exact absurd (writeLoop_not_reaches len results 0 {} ret w hr hw) hne

/-- Twice three of five bytes: `msg[0..3)` is delivered twice, `msg[3]` and `msg[4]` never. -/
theorem write_not_exact_three_of_five :
    ¬ DeliversExactly (fun i => UInt8.ofNat i) 5 [.accepted 3, .accepted 3] := by
  intro h
  have hw : write 5 [.accepted 3, .accepted 3] = some (6, ⟨[(0, 5), (0, 5)], [0, 1, 2, 0, 1, 2]⟩) := by decide
  exact absurd (h _ _ hw (by decide)).1 (by decide)

/-- The same call when the first `send` takes the whole message. -/
theorem write_exact_five_of_five :
    DeliversExactly (fun i => UInt8.ofNat i) 5 [.accepted 5, .accepted 3] :=
  (write_delivers_iff _ 5 (by decide) [.accepted 5, .accepted 3]
    (by simp [SendResult.Legal])).2 (Or.inl rfl)

end Td3.Server
