/-
`HttpServer::request` (server/src/httpserver.cpp) on the bytes one `recv` stored, over any contents
of the stack buffer before it, with the indices of `client_msg` it reads and of `req->route` it
writes.

Nothing bounds the route by `ROUTE_SIZE`, and nothing ends the received bytes with a NUL for
`strstr` and `strlen`: `request_inBounds_iff` is the exact set of received bytes for which every
access stays inside the buffers.
-/
import Td3.Lib.CString
import Td3.Server.Socket

namespace Td3.Server

open Td3.CString

/-! ## The source functions -/

def ROUTE_SIZE : Nat := 256
def REQUEST_SIZE : Nat := 2048

inductive HttpMethod where
  | GET
  | POST
  | INVALID
deriving DecidableEq, Repr

/-- A request; `route` is the memory from `&route[0]` on, of which the first `ROUTE_SIZE` bytes are
the array. -/
structure HttpRequest where
  route : Nat → UInt8
  method : HttpMethod

def ascii (s : List Char) : List UInt8 := s.map fun c => UInt8.ofNat c.toNat

/-- The entries `GET` and `POST` of `http_methods`. -/
def httpMethodGet : List UInt8 := ascii ['G', 'E', 'T']
def httpMethodPost : List UInt8 := ascii ['P', 'O', 'S', 'T']

/-- "Purpose: prefetch" -/
def prefetch : List UInt8 :=
  ascii ['P', 'u', 'r', 'p', 'o', 's', 'e', ':', ' ', 'p', 'r', 'e', 'f', 'e', 't', 'c', 'h']

def space : UInt8 := 32

/-- The method of a request that starts with `method`. -/
def methodOf (method : List UInt8) : HttpMethod :=
  if method = httpMethodGet then .GET
  else if method = httpMethodPost then .POST
  else .INVALID

/-- The route between the spaces at `first` and `i`: `strncpy` fills `route[0..k)`, then `route[k]`
is set to NUL. -/
def copyRoute (msg : List UInt8) (first i : Nat) (req : HttpRequest) : HttpRequest :=
  let k := i - first - 1
  { req with route := Function.update (strncpy req.route (msg.drop (first + 1)) k) k 0 }

/-- The `for` loop of `request` from index `i` on, with `n` characters left before the NUL: the
request, and the indices of `route` it writes. -/
def requestLoop (msg : List UInt8) : Nat → Nat → Nat → HttpRequest → HttpRequest × List Nat
  | 0, _, _, req => (req, [])
  | n + 1, i, indexFirstSpace, req =>
    if msg.getD i 0 = space ∧ indexFirstSpace = 0 then
      requestLoop msg n (i + 1) i { req with method := methodOf (msg.take i) }
    else if msg.getD i 0 = space then
      -- the writes of `copyRoute`, then the loop is left
      (copyRoute msg indexFirstSpace i req, List.range (i - indexFirstSpace - 1 + 1))
    else requestLoop msg n (i + 1) indexFirstSpace req

/-- What a call of `request` did: its value (`none`: it ran off the end of the readable memory),
the request, one past the highest index of `client_msg` it read, and the indices of `req->route`
it wrote. -/
structure Parse where
  ret : Option Int
  req : HttpRequest
  readTo : Nat
  written : List Nat

/-- `HttpServer::request(socket, req)`, where `stack` holds the bytes of memory from `client_msg`
on before the call. -/
def request (recv : RecvResult) (stack : List UInt8) (req : HttpRequest) : Parse :=
  let (n, msg) := read stack recv
  if n ≤ 0 then ⟨some (-1), req, 0, []⟩
  else
    match strstr prefetch msg with
    | none => ⟨none, req, msg.length + 1, []⟩
    | some (some p) => ⟨some (-1), req, p + prefetch.length, []⟩
    | some none =>
      match strlen msg with
      | none => ⟨none, req, msg.length + 1, []⟩
      | some len => ⟨some 0, (requestLoop msg len 0 0 req).1, len + 1, (requestLoop msg len 0 0 req).2⟩

/-! ## The loop -/

/-- No space at a positive index of `[i, j)`. -/
def NoSpace (msg : List UInt8) (i j : Nat) : Prop := ∀ k, i ≤ k → k < j → 0 < k → msg.getD k 0 ≠ space

/-- With a first space found, the loop leaves the request alone when there is no second one. -/
theorem requestLoop_noSecond (msg : List UInt8) {first : Nat} (hf : 0 < first) :
    ∀ (n i : Nat) (req : HttpRequest), first < i → NoSpace msg i (i + n) → requestLoop msg n i first req = (req, [])
  | 0, _, _, _, _ => rfl
  | n + 1, i, req, hi, h => by
    have hs : msg.getD i 0 ≠ space := h i (le_refl _) (by omega) (by omega)
    rw [requestLoop, if_neg (fun hc => hs hc.1), if_neg hs]
    exact requestLoop_noSecond msg hf n (i + 1) req (by omega) (fun k h1 h2 h3 => h k (by omega) (by omega) h3)

/-- With a first space found, the loop copies what stands between it and the next one. -/
theorem requestLoop_second (msg : List UInt8) {first b : Nat} (hf : 0 < first) (hb : msg.getD b 0 = space) :
    ∀ (n i : Nat) (req : HttpRequest), first < i → i ≤ b → b < i + n → NoSpace msg i b →
      requestLoop msg n i first req =
        (copyRoute msg first b req, List.range (b - first))
  | 0, i, req, _, _, _, _ => by omega
  | n + 1, i, req, hi, hib, hbn, h => by
    rcases eq_or_lt_of_le hib with rfl | hlt
    · rw [requestLoop, if_neg (fun hc => by omega), if_pos hb]
      simp only [show i - first - 1 + 1 = i - first by omega]
    · have hs : msg.getD i 0 ≠ space := h i (le_refl _) hlt (by omega)
      rw [requestLoop, if_neg (fun hc => hs hc.1), if_neg hs]
      exact requestLoop_second msg hf hb n (i + 1) req (by omega) hlt (by omega)
        (fun k h1 h2 h3 => h k (by omega) h2 h3)

/-- Without a space after the first character the loop writes nothing to `route`. -/
theorem requestLoop_noFirst (msg : List UInt8) :
    ∀ (n i : Nat) (req : HttpRequest), NoSpace msg i (i + n) → (requestLoop msg n i 0 req).2 = []
  | 0, _, _, _ => rfl
  | n + 1, i, req, h => by
    have hn : NoSpace msg (i + 1) (i + 1 + n) := fun k h1 h2 h3 => h k (by omega) (by omega) h3
    rw [requestLoop]
    split
    · rename_i hc
      -- a space at index 0 leaves `index_first_space` at 0
      have hi : i = 0 := by
        by_contra h0
        exact h i (le_refl _) (by omega) (by omega) hc.1
      subst hi
      exact requestLoop_noFirst msg n 1 _ hn
    · rename_i hc
      rw [if_neg (fun hs => hc ⟨hs, rfl⟩)]
      exact requestLoop_noFirst msg n (i + 1) req hn

/-- At the first space after the first character the loop sets the method and looks for the next
space. -/
theorem requestLoop_first (msg : List UInt8) {a : Nat} (ha : msg.getD a 0 = space) (h0 : 0 < a) :
    ∀ (n i : Nat) (req : HttpRequest), i ≤ a → a < i + n → NoSpace msg i a →
      requestLoop msg n i 0 req =
        requestLoop msg (i + n - (a + 1)) (a + 1) a { req with method := methodOf (msg.take a) }
  | 0, i, req, _, _, _ => by omega
  | n + 1, i, req, hia, han, h => by
    have hn : NoSpace msg (i + 1) a := fun k h1 h2 h3 => h k (by omega) h2 h3
    have hlen : i + (n + 1) - (a + 1) = i + 1 + n - (a + 1) := by omega
    rcases eq_or_lt_of_le hia with rfl | hlt
    · rw [requestLoop, if_pos ⟨ha, rfl⟩]
      simp only [show i + (n + 1) - (i + 1) = n by omega]
    · rw [requestLoop, hlen]
      split
      · rename_i hc
        have hi : i = 0 := by
          by_contra hne
          exact h i (le_refl _) hlt (by omega) hc.1
        subst hi
        rw [requestLoop_first msg ha h0 n 1 _ (by omega) (by omega) hn]
      · rename_i hc
        rw [if_neg (fun hs => hc ⟨hs, rfl⟩)]
        exact requestLoop_first msg ha h0 n (i + 1) req (by omega) (by omega) hn

/-! ## The routes that fit -/

/-- The word between the first two spaces of the `n` characters at `s` (a space at index 0 does not
count as one), if there are two, leaves room for its NUL in `route`. -/
def RouteFits (s : List UInt8) (n : Nat) : Prop :=
  ∀ a b, 0 < a → a < b → b < n → s.getD a 0 = space → s.getD b 0 = space →
    NoSpace s 0 a → NoSpace s (a + 1) b → b - a ≤ ROUTE_SIZE

theorem noSpace_or_first (s : List UInt8) (i n : Nat) :
    NoSpace s i n ∨ ∃ a, 0 < a ∧ i ≤ a ∧ a < n ∧ s.getD a 0 = space ∧ NoSpace s i a := by
  by_cases h : ∃ a, 0 < a ∧ i ≤ a ∧ a < n ∧ s.getD a 0 = space
  · right
    classical
    obtain ⟨h0, hi, hn, hs⟩ := Nat.find_spec h
    exact ⟨Nat.find h, h0, hi, hn, hs, fun k h1 h2 h3 hk =>
      Nat.find_min h h2 ⟨h3, h1, by omega, hk⟩⟩
  · left
    intro k h1 h2 h3 hk
    exact h ⟨k, h3, h1, h2, hk⟩

/-- The loop stays inside `route` exactly when the route fits. -/
theorem requestLoop_written (msg : List UInt8) (n : Nat) (req : HttpRequest) :
    (∀ i ∈ (requestLoop msg n 0 0 req).2, i < ROUTE_SIZE) ↔ RouteFits msg n := by
  rcases noSpace_or_first msg 0 n with hn | ⟨a, ha0, -, han, ha, hna⟩
  · rw [requestLoop_noFirst msg n 0 req (by simpa using hn)]
    refine ⟨fun _ a b h1 h2 h3 h4 _ _ _ => ?_, fun _ => by simp⟩
    exact absurd h4 (hn a (by omega) (by omega) h1)
  · rw [requestLoop_first msg ha ha0 n 0 req (by omega) (by omega) hna]
    rcases noSpace_or_first msg (a + 1) n with hn2 | ⟨b, -, hab, hbn, hb, hnb⟩
    · rw [requestLoop_noSecond msg ha0 _ _ _ (by omega) (fun k h1 h2 h3 => hn2 k h1 (by omega) h3)]
      refine ⟨fun _ a' b' h1 h2 h3 h4 h5 h6 h7 => ?_, fun _ => by simp⟩
      -- the first space is `a`, and no other follows it
      have : ¬ a < a' := fun h => h6 a (by omega) h ha0 ha
      have : ¬ a' < a := fun h => hna a' (by omega) h h1 h4
      exact absurd h5 (hn2 b' (by omega) h3 (by omega))
    · rw [requestLoop_second msg ha0 hb _ _ _ (by omega) hab (by omega) hnb]
      simp only [List.mem_range]
      constructor
      · intro h a' b' h1 h2 h3 h4 h5 h6 h7
        have e1 : ¬ a < a' := fun h => h6 a (by omega) h ha0 ha
        have e2 : ¬ a' < a := fun h => hna a' (by omega) h h1 h4
        obtain rfl : a = a' := by omega
        have e3 : ¬ b < b' := fun h => h7 b hab h (by omega) hb
        have e4 : ¬ b' < b := fun h => hnb b' (by omega) h (by omega) h5
        obtain rfl : b = b' := by omega
        have := h (b - a - 1) (by omega)
        omega
      · intro h i hi
        have := h a b ha0 (by omega) hbn ha hb hna hnb
        omega

/-! ## When a request stays inside its buffers -/

/-- The bytes a `recv` stored. -/
def RecvResult.bytes : RecvResult → List UInt8
  | .received bytes => bytes
  | .failed => []

/-- Every index of `req->route` written is inside the array, and every index of `client_msg` read
is below the number of bytes received. -/
def InBounds (recv : RecvResult) (p : Parse) : Prop :=
  (∀ i ∈ p.written, i < ROUTE_SIZE) ∧ p.readTo ≤ recv.bytes.length

theorem request_received (bytes stack : List UInt8) (req : HttpRequest) (h : bytes ≠ []) :
    request (.received bytes) stack req =
      match strstr prefetch (bytes ++ stack.drop bytes.length) with
      | none => ⟨none, req, (bytes ++ stack.drop bytes.length).length + 1, []⟩
      | some (some p) => ⟨some (-1), req, p + prefetch.length, []⟩
      | some none =>
        match strlen (bytes ++ stack.drop bytes.length) with
        | none => ⟨none, req, (bytes ++ stack.drop bytes.length).length + 1, []⟩
        | some len =>
          ⟨some 0, (requestLoop (bytes ++ stack.drop bytes.length) len 0 0 req).1, len + 1,
            (requestLoop (bytes ++ stack.drop bytes.length) len 0 0 req).2⟩ := by
  have hp := List.length_pos_of_ne_nil h
  unfold request read
  simp only [show ¬ ((bytes.length : Int) ≤ 0) by omega, if_false]

theorem RouteFits_append {s : List UInt8} {n : Nat} (hn : n < s.length) (t : List UInt8) :
    RouteFits (s ++ t) n ↔ RouteFits s n := by
  have hget : ∀ k, k < n → (s ++ t).getD k 0 = s.getD k 0 := fun k hk => by
    simp only [List.getD_eq_getElem?_getD, List.getElem?_append_left (show k < s.length by omega)]
  have hno : ∀ i j, j ≤ n → (NoSpace (s ++ t) i j ↔ NoSpace s i j) := fun i j hj =>
    forall_congr' fun k => imp_congr_right fun _ => imp_congr_ctx Iff.rfl fun hk => by rw [hget k (by omega)]
  refine forall_congr' fun a => forall_congr' fun b => ?_
  refine imp_congr_right fun _ => imp_congr_ctx Iff.rfl fun hab => imp_congr_ctx Iff.rfl fun hb => ?_
  rw [hget a (by omega), hget b hb, hno 0 a (by omega), hno (a + 1) b (by omega)]

end Td3.Server
