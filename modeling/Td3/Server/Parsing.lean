/-
`HttpServer::request` (server/src/httpserver.cpp) on a message with two words, and what else than the bytes
received a parse depends on: no NUL is put behind what `recv` stored, so the string that is parsed goes on
into what `client_msg` held before.
-/
import Td3.Server.Malformed

namespace Td3.Server

open Td3.CString

/-! ## Two words -/

/-- A string of two words stays inside `route` when the second leaves room for its NUL. -/
theorem written_words {R : List UInt8} (hR : R.length ≤ ROUTE_SIZE - 1) :
    ∀ i ∈ List.range (R.length + 1), i < ROUTE_SIZE := by
  intro i hi
  rw [List.mem_range] at hi
  unfold ROUTE_SIZE at hR ⊢
  omega

theorem methodOf_get (M : List UInt8) : methodOf M = .GET ↔ M = httpMethodGet := by
  unfold methodOf
  split
  · simp_all
  · split <;> simp_all

theorem methodOf_post (M : List UInt8) : methodOf M = .POST ↔ M = httpMethodPost := by
  have hne : httpMethodPost ≠ httpMethodGet := by decide
  unfold methodOf
  split
  · rename_i h
    simp [h, hne.symm]
  · split <;> simp_all

theorem methodOf_invalid (M : List UInt8) : methodOf M = .INVALID ↔ M ≠ httpMethodGet ∧ M ≠ httpMethodPost := by
  unfold methodOf
  split
  · simp_all
  · split <;> simp_all

/-- A string of two words, each with a space behind it, is parsed exactly, whatever follows them. -/
theorem request_wellFormed (r : Recv) {M R rest : List UInt8} (hend : 0 ∈ r.buffer)
    (hstring : chars r.buffer = M ++ space :: (R ++ space :: rest)) (hM : M ≠ []) (hM' : space ∉ M) (hR : space ∉ R)
    (hroute : R.length ≤ ROUTE_SIZE - 1) (hprefetch : ¬ prefetch <:+: chars r.buffer) (req : HttpRequest) :
    (request (.received r.bytes) r.stack req).ret = some 0 ∧
      ((request (.received r.bytes) r.stack req).req.method = .GET ↔ M = httpMethodGet) ∧
      ((request (.received r.bytes) r.stack req).req.method = .POST ↔ M = httpMethodPost) ∧
      ((request (.received r.bytes) r.stack req).req.method = .INVALID ↔ M ≠ httpMethodGet ∧ M ≠ httpMethodPost) ∧
      routeIs (request (.received r.bytes) r.stack req).req.route R = true ∧
      ∀ i ∈ (request (.received r.bytes) r.stack req).written, i < ROUTE_SIZE := by
  have hterm : r.Terminated := strstr_eq_none_of_chars (by decide) hend hprefetch
  obtain ⟨t, hbuf, h0⟩ := chars_prefix r.buffer
  rw [hstring] at hbuf h0
  have hbuf' : r.buffer = M ++ space :: (R ++ space :: (rest ++ t)) := by
    rw [hbuf]
    simp
  have hwords0 : 0 ∉ M ++ space :: (R ++ [space]) := by
    intro hmem
    apply h0
    simp only [List.mem_append, List.mem_cons, List.not_mem_nil, or_false] at hmem ⊢
    tauto
  have hM'' : space ∉ M.tail := fun hmem => hM' (List.mem_of_mem_tail hmem)
  obtain ⟨hret, hmethod, hrouteIs, hwritten⟩ := request_words_written hterm hbuf' hM hM'' hR hwords0 req
  rw [hmethod, hwritten]
  exact ⟨hret, methodOf_get M, methodOf_post M, methodOf_invalid M, hrouteIs, written_words hroute⟩

/-- "GET / H" over a cleared buffer -/
theorem request_wellFormed_root :
    (request (.received rootReceived.bytes) rootReceived.stack ⟨fun _ => 0, .INVALID⟩).ret = some 0 ∧
      (request (.received rootReceived.bytes) rootReceived.stack ⟨fun _ => 0, .INVALID⟩).req.method = .GET ∧
      routeIs (request (.received rootReceived.bytes) rootReceived.stack ⟨fun _ => 0, .INVALID⟩).req.route rootRoute =
        true := by
  have hchars : chars rootReceived.buffer = ascii ['G', 'E', 'T', ' ', '/', ' ', 'H'] := by decide
  have hend : 0 ∈ rootReceived.buffer := by simp [Recv.buffer, rootReceived, recvOf]
  have hstring : chars rootReceived.buffer = httpMethodGet ++ space :: (rootRoute ++ space :: ascii ['H']) := by
    rw [hchars]
    decide
  have hprefetch : ¬ prefetch <:+: chars rootReceived.buffer := by
    rw [hchars]
    decide
  obtain ⟨hret, hget, -, -, hroute, -⟩ := request_wellFormed rootReceived hend hstring (by decide) (by decide)
    (by decide) (by decide) hprefetch ⟨fun _ => 0, .INVALID⟩
  exact ⟨hret, hget.2 rfl, hroute⟩

/-! ## What a parse depends on -/

/-- Over any two contents of `client_msg` before the `recv`, and the same memory behind it, the call returns the
same value and leaves the same method and route. -/
def DependsOnReceived (bytes : List UInt8) : Prop :=
  ∀ (clientMsg clientMsg' behind : List UInt8) (req : HttpRequest),
    clientMsg.length = REQUEST_SIZE → clientMsg'.length = REQUEST_SIZE →
    (request (.received bytes) (clientMsg ++ behind) req).ret =
        (request (.received bytes) (clientMsg' ++ behind) req).ret ∧
      (request (.received bytes) (clientMsg ++ behind) req).req =
        (request (.received bytes) (clientMsg' ++ behind) req).req

/-- The copy of a route reads nothing behind the end of the string. -/
theorem copyRoute_append {s : List UInt8} {first : Nat} (h : 0 ∈ s.drop (first + 1)) (t : List UInt8) (i : Nat)
    (req : HttpRequest) : copyRoute (s ++ t) first i req = copyRoute s first i req := by
  have hle : first + 1 ≤ s.length := by
    by_contra hlt
    rw [List.drop_eq_nil_of_le (by omega)] at h
    cases h
  have hchars : chars ((s ++ t).drop (first + 1)) = chars (s.drop (first + 1)) := by
    rw [List.drop_append_of_le_length hle, chars_append_of_mem h]
  unfold copyRoute strncpy
  rw [hchars]

/-- The loop reads nothing behind the end of the string, at index `len`. -/
theorem requestLoop_append {s : List UInt8} {len : Nat} (hend : s[len]? = some 0) (t : List UInt8) :
    ∀ (n i first : Nat) (req : HttpRequest), i + n = len → (first < i ∨ first = 0) →
      requestLoop (s ++ t) n i first req = requestLoop s n i first req
  | 0, _, _, _, _, _ => rfl
  | n + 1, i, first, req, hin, hfirst => by
    obtain ⟨hlen, h0⟩ := List.getElem?_eq_some_iff.1 hend
    have hget : (s ++ t).getD i 0 = s.getD i 0 := List.getD_append _ _ _ _ (by omega)
    have htake : (s ++ t).take i = s.take i := List.take_append_of_le_length (by omega)
    rw [requestLoop, requestLoop, hget, htake]
    split
    · exact requestLoop_append hend t n (i + 1) i _ (by omega) (by omega)
    · rename_i hnot
      split
      · rename_i hs
        have hi : first < i := hfirst.resolve_right fun h => hnot ⟨hs, h⟩
        have hmem : 0 ∈ s.drop (first + 1) := by
          rw [List.mem_iff_getElem?]
          refine ⟨len - (first + 1), ?_⟩
          rw [List.getElem?_drop, show first + 1 + (len - (first + 1)) = len by omega]
          exact hend
        rw [copyRoute_append hmem]
      · exact requestLoop_append hend t n (i + 1) first req (by omega) (by omega)

/-- Bytes with a NUL are parsed the same over any stack. -/
theorem request_of_nul {bytes : List UInt8} (h0 : 0 ∈ bytes) (stack stack' : List UInt8) (req : HttpRequest) :
    (request (.received bytes) stack req).ret = (request (.received bytes) stack' req).ret ∧
      (request (.received bytes) stack req).req = (request (.received bytes) stack' req).req := by
  have hne : bytes ≠ [] := List.ne_nil_of_mem h0
  obtain ⟨len, hlen⟩ := strlen_isSome h0
  have hloop : ∀ t, requestLoop (bytes ++ t) len 0 0 req = requestLoop bytes len 0 0 req :=
    fun t => requestLoop_append (strlen_spec hlen).2.1 t len 0 0 req (by omega) (.inr rfl)
  have hpf0 : (0 : UInt8) ∉ prefetch := by decide
  simp only [request_received _ _ _ hne, strstr_append_of_mem hpf0 h0, strlen_append hlen, hloop]
  obtain ⟨r, hr⟩ : ∃ r, strstr prefetch bytes = some r := strstr_isSome h0
  rw [hr]
  cases r <;> exact ⟨rfl, rfl⟩

/-- "Purpose: prefetch" behind the bytes received, or a NUL -/
theorem not_dependsOnReceived {bytes : List UInt8} (hne : bytes ≠ []) (hlt : bytes.length < REQUEST_SIZE)
    (h0 : 0 ∉ bytes) (hpf : ¬ prefetch <:+: bytes) : ¬ DependsOnReceived bytes := by
  intro h
  -- the memory behind the bytes received, with "Purpose: prefetch" across the end of `client_msg` if need be
  let tail : List UInt8 := prefetch ++ List.replicate REQUEST_SIZE 0
  let rest : Nat := REQUEST_SIZE - bytes.length
  have hret := (h (bytes ++ tail.take rest) (bytes ++ List.replicate rest 0) (tail.drop rest) ⟨fun _ => 0, .INVALID⟩
    (by simp [tail, rest]; omega) (by simp [rest]; omega)).1
  have hpf0 : (0 : UInt8) ∉ prefetch := by decide
  have hfound : ∃ p, strstr prefetch (bytes ++ tail) = some (some p) := by
    have hmem : 0 ∉ bytes ++ prefetch := by simp [h0, hpf0]
    obtain ⟨p, hp⟩ := strstr_of_infix hmem (by decide) (List.suffix_append bytes prefetch).isInfix
    refine ⟨p, ?_⟩
    rw [← List.append_assoc]
    exact strstr_append_of_found hp _
  obtain ⟨p, hp⟩ := hfound
  obtain ⟨m, hm⟩ : ∃ m, rest = m + 1 := ⟨rest - 1, by omega⟩
  have hnone : strstr prefetch ((bytes ++ [0]) ++ (List.replicate m 0 ++ tail.drop rest)) = some none := by
    rw [strstr_append_of_mem hpf0 (by simp)]
    apply strstr_eq_none_of_chars hpf0 (by simp)
    rw [chars_append h0]
    simpa [chars] using hpf
  obtain ⟨len, hlen⟩ : ∃ len, strlen ((bytes ++ [0]) ++ (List.replicate m 0 ++ tail.drop rest)) = some len :=
    strlen_isSome (by simp)
  have hcleared : bytes ++ (List.replicate rest 0 ++ tail.drop rest) =
      (bytes ++ [0]) ++ (List.replicate m 0 ++ tail.drop rest) := by
    rw [hm, List.replicate_succ]
    simp
  rw [request_received _ _ _ hne, request_received _ _ _ hne, List.append_assoc, List.append_assoc, List.drop_left,
    List.drop_left, List.take_append_drop, hcleared, hp, hnone, hlen] at hret
  have hval : (some (-1) : Option Int) = some 0 := hret
  exact absurd hval (by decide)

/-- A parse depends only on the bytes received exactly where they fill `client_msg`, hold a NUL, or hold
"Purpose: prefetch". -/
theorem dependsOnReceived_iff (bytes : List UInt8) (hne : bytes ≠ []) (hle : bytes.length ≤ REQUEST_SIZE) :
    DependsOnReceived bytes ↔ bytes.length = REQUEST_SIZE ∨ 0 ∈ bytes ∨ prefetch <:+: bytes := by
  constructor
  · intro h
    by_contra hnot
    simp only [not_or] at hnot
    exact not_dependsOnReceived hne (by omega) hnot.2.1 hnot.2.2 h
  · rintro h clientMsg clientMsg' behind req hlen hlen'
    by_cases h0 : 0 ∈ bytes
    · exact request_of_nul h0 _ _ req
    rcases h with hfull | hnul | hpf
    · rw [request_received _ _ _ hne, request_received _ _ _ hne, hfull, ← hlen, List.drop_left, hlen, ← hlen',
        List.drop_left]
      exact ⟨rfl, rfl⟩
    · exact absurd hnul h0
    · obtain ⟨p, hp⟩ := strstr_of_infix h0 (by decide) hpf
      rw [request_received _ _ _ hne, request_received _ _ _ hne, strstr_append_of_found hp, strstr_append_of_found hp]
      exact ⟨rfl, rfl⟩

theorem dependsOnReceived_root : DependsOnReceived rootReceived.bytes :=
  (dependsOnReceived_iff rootReceived.bytes (by decide) (by decide)).2 (.inr (.inl (by decide)))

/-- "GET / HTTP/1.1" without a NUL, over a buffer that held a prefetch -/
theorem dependsOnReceived_not_get : ¬ ∀ bytes : List UInt8, bytes ≠ [] → bytes.length ≤ REQUEST_SIZE →
    DependsOnReceived bytes := by
  intro h
  have hget : ¬ DependsOnReceived getRoot.bytes :=
    not_dependsOnReceived (by decide) (by decide) (by decide) (by decide)
  exact hget (h getRoot.bytes (by decide) (by decide))

end Td3.Server
