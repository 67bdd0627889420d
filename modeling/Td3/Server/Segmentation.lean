/-
`HttpServer::on_accept` over any way in which `recv` cuts a stream of requests up. One `recv` is one
request: what it stored, and whatever `client_msg` held behind it, is parsed as a request of its own.
The requests of the stream are served whatever stands behind the bytes received exactly where there
are as many `recv` as requests and each brings, by itself, the two words of the request whose turn it
is.
-/
import Td3.Server.Clients
import Mathlib.Data.List.GetD

namespace Td3.Server

open Td3.CString

/-! ## The requests a connection handles -/

/-- A request: two words, each with a space behind it, and the rest. -/
structure Message where
  method : List UInt8
  route : List UInt8
  rest : List UInt8
  method_ne : method ≠ []
  method_noSpace : space ∉ method
  route_noSpace : space ∉ route
  route_lt : route.length < ROUTE_SIZE
  noNul : 0 ∉ method ∧ 0 ∉ route ∧ 0 ∉ rest

def Message.bytes (m : Message) : List UInt8 := m.method ++ space :: (m.route ++ space :: m.rest)

/-- A `recv` that brought something: the bytes it stored, and the memory from `client_msg` on before
it. -/
structure Recv where
  bytes : List UInt8
  stack : List UInt8
  bytes_ne : bytes ≠ []
  bytes_le : bytes.length ≤ REQUEST_SIZE
  stack_le : REQUEST_SIZE ≤ stack.length

/-- The memory from `client_msg` on after it. -/
def Recv.buffer (r : Recv) : List UInt8 := r.bytes ++ r.stack.drop r.bytes.length

/-- The string in `client_msg` ends somewhere, and "Purpose: prefetch" does not stand in it. -/
def Recv.Terminated (r : Recv) : Prop := strstr prefetch r.buffer = some none

/-- The requests that the loop of `on_accept` handles, up to the end of the stream. -/
def onAccept : List Recv → HttpRequest → List HttpRequest
  | [], _ => []
  | r :: rs, req =>
    let parse := request (.received r.bytes) r.stack req
    if parse.ret = some 0 then parse.req :: onAccept rs parse.req else []

/-- The request has the method and the route of the message. -/
def ServesAs (req : HttpRequest) (m : Message) : Prop :=
  req.method = methodOf m.method ∧ routeIs req.route m.route = true

/-- However the bytes are received, whatever stands behind them in `client_msg`, exactly the requests
of the stream are handled, in order. -/
def Served (chunks : List (List UInt8)) (ms : List Message) : Prop :=
  ∀ rs : List Recv, rs.map Recv.bytes = chunks → (∀ r ∈ rs, r.Terminated) →
    ∀ req, List.Forall₂ ServesAs (onAccept rs req) ms

/-- The bytes hold by themselves the two words of the request, the first by its meaning; a space that
comes first counts as a part of it. -/
def OwnLine (chunk : List UInt8) (m : Message) : Prop :=
  ∃ method rest, chunk = method ++ space :: (m.route ++ space :: rest) ∧ method ≠ [] ∧
    space ∉ method.tail ∧ methodOf method = methodOf m.method

/-! ## Parsing two words -/

theorem chars_append {s : List UInt8} (h : 0 ∉ s) (t : List UInt8) : chars (s ++ t) = s ++ chars t := by
  rw [chars, chars, List.takeWhile_append_of_pos]
  intro c hc
  have hne : c ≠ 0 := fun h0 => h (h0 ▸ hc)
  simpa using hne

theorem routeIs_copyRoute {M R t : List UInt8} (hR0 : 0 ∉ R) (req : HttpRequest) :
    routeIs (copyRoute (M ++ space :: (R ++ t)) M.length (M.length + 1 + R.length) req).route R = true := by
  have hk : M.length + 1 + R.length - M.length - 1 = R.length := by omega
  have hdrop : (M ++ space :: (R ++ t)).drop (M.length + 1) = R ++ t := by
    rw [List.drop_append]
    simp
  rw [routeIs, copyRoute, Bool.and_eq_true, List.all_eq_true]
  simp only [hk, hdrop]
  constructor
  · intro i hi
    rw [List.mem_range] at hi
    rw [Function.update_of_ne (by omega), strncpy, if_pos hi, chars_append hR0, List.getD_append _ _ _ _ hi]
    exact decide_eq_true rfl
  · rw [Function.update_self]
    exact decide_eq_true rfl

theorem getD_mem {s : List UInt8} {k : Nat} (h : k < s.length) : s.getD k 0 ∈ s := by
  rw [List.getD_eq_getElem _ _ h]
  exact List.getElem_mem h

/-- The loop on a string that starts with two words. -/
theorem requestLoop_words {M R t : List UInt8} (hM : M ≠ []) (hM' : space ∉ M.tail) (hR : space ∉ R)
    {n : Nat} (hn : M.length + 1 + R.length < n) (req : HttpRequest) :
    requestLoop (M ++ space :: (R ++ space :: t)) n 0 0 req =
      (copyRoute (M ++ space :: (R ++ space :: t)) M.length (M.length + 1 + R.length)
        { req with method := methodOf M }, List.range (R.length + 1)) := by
  have hlen : 0 < M.length := List.length_pos_of_ne_nil hM
  have hfirst : (M ++ space :: (R ++ space :: t)).getD M.length 0 = space := by
    rw [List.getD_append_right _ _ _ _ (le_refl _), Nat.sub_self, List.getD_cons_zero]
  have hsecond : (M ++ space :: (R ++ space :: t)).getD (M.length + 1 + R.length) 0 = space := by
    rw [List.getD_append_right _ _ _ _ (by omega), show M.length + 1 + R.length - M.length = R.length + 1 by omega,
      List.getD_cons_succ, List.getD_append_right _ _ _ _ (le_refl _), Nat.sub_self, List.getD_cons_zero]
  have hbefore : NoSpace (M ++ space :: (R ++ space :: t)) 0 M.length := by
    intro k _ hk h0 hs
    rw [List.getD_append _ _ _ _ hk] at hs
    obtain ⟨j, rfl⟩ : ∃ j, k = j + 1 := ⟨k - 1, by omega⟩
    cases M with
    | nil => exact hM rfl
    | cons c M =>
      rw [List.getD_cons_succ] at hs
      rw [List.length_cons, Nat.add_lt_add_iff_right] at hk
      exact hM' (hs ▸ getD_mem hk)
  have hbetween : NoSpace (M ++ space :: (R ++ space :: t)) (M.length + 1) (M.length + 1 + R.length) := by
    intro k hk hk' _ hs
    obtain ⟨j, rfl⟩ := Nat.exists_eq_add_of_le hk
    rw [List.getD_append_right _ _ _ _ (by omega), show M.length + 1 + j - M.length = j + 1 by omega,
      List.getD_cons_succ, List.getD_append _ _ _ _ (by omega)] at hs
    exact hR (hs ▸ getD_mem (by omega))
  have hrange : M.length + 1 + R.length - M.length = R.length + 1 := by omega
  rw [requestLoop_first _ hfirst hlen n 0 req (by omega) (by omega) hbefore,
    requestLoop_second _ hlen hsecond _ _ _ (by omega) (by omega) (by omega) hbetween, List.take_left, hrange]

theorem request_terminated {r : Recv} (h : r.Terminated) (req : HttpRequest) :
    ∃ n, strlen r.buffer = some n ∧ request (.received r.bytes) r.stack req =
      ⟨some 0, (requestLoop r.buffer n 0 0 req).1, n + 1, (requestLoop r.buffer n 0 0 req).2⟩ := by
  obtain ⟨n, hn⟩ := strlen_isSome (mem_of_strstr_none h)
  have hs : strstr prefetch (r.bytes ++ r.stack.drop r.bytes.length) = some none := h
  have hl : strlen (r.bytes ++ r.stack.drop r.bytes.length) = some n := hn
  refine ⟨n, hn, ?_⟩
  rw [request_received _ _ _ r.bytes_ne]
  simp only [hs, hl]
  rfl

/-- A request parsed from a buffer that starts with two words, and the indices of `route` written. -/
theorem request_words_written {r : Recv} (h : r.Terminated) {M R t : List UInt8}
    (hbuf : r.buffer = M ++ space :: (R ++ space :: t))
    (hM : M ≠ []) (hM' : space ∉ M.tail) (hR : space ∉ R) (h0 : 0 ∉ M ++ space :: (R ++ [space])) (req : HttpRequest) :
    (request (.received r.bytes) r.stack req).ret = some 0 ∧
      (request (.received r.bytes) r.stack req).req.method = methodOf M ∧
      routeIs (request (.received r.bytes) r.stack req).req.route R = true ∧
      (request (.received r.bytes) r.stack req).written = List.range (R.length + 1) := by
  obtain ⟨n, hn, hreq⟩ := request_terminated h req
  have hbuf' : r.buffer = (M ++ space :: (R ++ [space])) ++ t := by
    rw [hbuf]
    simp
  have hlt : M.length + 1 + R.length < n := by
    rw [hbuf'] at hn
    have hle := le_strlen_append h0 hn
    simp only [List.length_append, List.length_cons, List.length_nil] at hle
    omega
  have hR0 : 0 ∉ R := fun h => h0 (by simp [h])
  rw [hreq, hbuf, requestLoop_words hM hM' hR hlt req]
  exact ⟨rfl, rfl, routeIs_copyRoute hR0 _, rfl⟩

theorem request_words {r : Recv} (h : r.Terminated) {M R t : List UInt8}
    (hbuf : r.buffer = M ++ space :: (R ++ space :: t))
    (hM : M ≠ []) (hM' : space ∉ M.tail) (hR : space ∉ R) (h0 : 0 ∉ M ++ space :: (R ++ [space])) (req : HttpRequest) :
    (request (.received r.bytes) r.stack req).ret = some 0 ∧
      (request (.received r.bytes) r.stack req).req.method = methodOf M ∧
      routeIs (request (.received r.bytes) r.stack req).req.route R = true := by
  obtain ⟨hret, hmethod, hroute, -⟩ := request_words_written h hbuf hM hM' hR h0 req
  exact ⟨hret, hmethod, hroute⟩

theorem onAccept_cons {r : Recv} (h : r.Terminated) (rs : List Recv) (req : HttpRequest) :
    onAccept (r :: rs) req = (request (.received r.bytes) r.stack req).req ::
      onAccept rs (request (.received r.bytes) r.stack req).req := by
  obtain ⟨_, _, heq⟩ := request_terminated h req
  rw [onAccept, if_pos (by rw [heq])]

/-! ## Where each `recv` brings the two words -/

/-- The words are parsed whatever stands behind the bytes received. -/
theorem served_of_ownLine {chunks : List (List UInt8)} {ms : List Message} (hnul : ∀ c ∈ chunks, 0 ∉ c)
    (h : List.Forall₂ OwnLine chunks ms) : Served chunks ms := by
  intro rs hrs hterm req
  subst hrs
  induction rs generalizing ms req with
  | nil =>
    cases h
    exact .nil
  | cons r rs ih =>
    obtain ⟨m, ms, ⟨M, rest, hc, hM, hM', hmethod⟩, htail, rfl⟩ := List.forall₂_cons_left_iff.1 h
    have hr : r.Terminated := hterm r List.mem_cons_self
    have hbuf : r.buffer = M ++ space :: (m.route ++ space :: (rest ++ r.stack.drop r.bytes.length)) := by
      rw [Recv.buffer, hc]
      simp
    have h0 : 0 ∉ M ++ space :: (m.route ++ [space]) := by
      have hc0 : 0 ∉ r.bytes := hnul _ (by simp)
      rw [hc] at hc0
      intro hmem
      apply hc0
      simp only [List.mem_append, List.mem_cons] at hmem ⊢
      tauto
    obtain ⟨-, hpm, hpr⟩ := request_words hr hbuf hM hM' m.route_noSpace h0 req
    rw [onAccept_cons hr]
    refine .cons ⟨hpm.trans hmethod, hpr⟩ (ih ?_ _ ?_ htail)
    · intro r' hr'
      exact hterm r' (List.mem_cons_of_mem _ hr')
    · intro c hc
      exact hnul c (List.mem_cons_of_mem _ hc)

/-! ## Bytes behind a `recv` that lacks them -/

/-- Two words of as many letters as a route may not have. -/
def strayWords : List UInt8 :=
  List.replicate ROUTE_SIZE 97 ++ space :: (List.replicate ROUTE_SIZE 97 ++ space :: 0 :: List.replicate REQUEST_SIZE 0)

theorem routeIs_inj {route : Nat → UInt8} {R R' : List UInt8} (h : routeIs route R = true)
    (h' : routeIs route R' = true)
    (h0 : 0 ∉ R) (h0' : 0 ∉ R') : R = R' := by
  have hget {S : List UInt8} (hS : routeIs route S = true) : (∀ i, i < S.length → route i = S.getD i 0) ∧
      route S.length = 0 := by
    rw [routeIs, Bool.and_eq_true, List.all_eq_true] at hS
    exact ⟨fun i hi => of_decide_eq_true (hS.1 i (List.mem_range.2 hi)), of_decide_eq_true hS.2⟩
  have hle {S S' : List UInt8} (hS : routeIs route S = true) (hS' : routeIs route S' = true) (hnul : 0 ∉ S') :
      S'.length ≤ S.length := by
    by_contra hlt
    have hlt : S.length < S'.length := by omega
    apply hnul
    rw [← (hget hS).2, (hget hS').1 _ hlt]
    exact getD_mem hlt
  have hlen : R.length = R'.length := Nat.le_antisymm (hle h' h h0) (hle h h' h0')
  apply List.ext_getElem hlen
  intro i hi hi'
  have h1 := (hget h).1 i hi
  rw [(hget h').1 i hi', List.getD_eq_getElem _ _ hi, List.getD_eq_getElem _ _ hi'] at h1
  exact h1.symm

/-- A string has two words, or one, or none. -/
theorem words_cases {c : List UInt8} (hc : c ≠ []) :
    (∃ M R t, c = M ++ space :: (R ++ space :: t) ∧ M ≠ [] ∧ space ∉ M.tail ∧ space ∉ R) ∨
    (∃ M w, c = M ++ space :: w ∧ M ≠ [] ∧ space ∉ M.tail ∧ space ∉ w) ∨
    space ∉ c.tail := by
  cases c with
  | nil => exact absurd rfl hc
  | cons x c =>
    by_cases h1 : space ∈ c
    · obtain ⟨M, w, rfl, hM⟩ := List.eq_append_cons_of_mem h1
      by_cases h2 : space ∈ w
      · obtain ⟨R, t, rfl, hR⟩ := List.eq_append_cons_of_mem h2
        exact .inl ⟨x :: M, R, t, rfl, List.cons_ne_nil _ _, hM, hR⟩
      · exact .inr (.inl ⟨x :: M, w, rfl, List.cons_ne_nil _ _, hM, h2⟩)
    · exact .inr (.inr h1)

/-- A `recv` of the bytes over a stack with the stray words behind them. -/
def strayRecv (c : List UInt8) (h : c ≠ [] ∧ c.length ≤ REQUEST_SIZE) : Recv where
  bytes := c
  stack := List.replicate c.length 0 ++ strayWords
  bytes_ne := h.1
  bytes_le := h.2
  stack_le := by
    simp only [strayWords, List.length_append, List.length_cons, List.length_replicate]
    omega

theorem strayRecv_buffer {c : List UInt8} (h : c ≠ [] ∧ c.length ≤ REQUEST_SIZE) :
    (strayRecv c h).buffer = c ++ strayWords := by
  rw [Recv.buffer, strayRecv]
  simp

theorem strayRecv_terminated {c : List UInt8} (h : c ≠ [] ∧ c.length ≤ REQUEST_SIZE) (hc : ¬ prefetch <:+: c) :
    (strayRecv c h).Terminated := by
  rw [Recv.Terminated, strayRecv_buffer]
  have hmem : (0 : UInt8) ∈ strayWords := by simp [strayWords]
  have hlast : prefetch = prefetch.dropLast ++ [104] := by decide
  apply strstr_append_of_last hmem hlast _ hc
  simp [strayWords, space]

/-- With the stray words behind it, only bytes with the two words of the request serve it. -/
theorem ownLine_of_stray {c : List UInt8} {h : c ≠ [] ∧ c.length ≤ REQUEST_SIZE} (hpf : ¬ prefetch <:+: c) (h0 : 0 ∉ c)
    {m : Message} {req : HttpRequest}
    (hserves : ServesAs (request (.received c) (strayRecv c h).stack req).req m) : OwnLine c m := by
  have hterm := strayRecv_terminated h hpf
  have hlong {w : List UInt8} (hw : w ++ List.replicate ROUTE_SIZE 97 = m.route) : False := by
    have hlt := m.route_lt
    rw [← hw, List.length_append, List.length_replicate] at hlt
    omega
  have ha : space ∉ List.replicate ROUTE_SIZE (97 : UInt8) := by simp [space]
  have ha0 : (0 : UInt8) ∉ List.replicate ROUTE_SIZE (97 : UInt8) := by simp
  rcases words_cases h.1 with ⟨M, R, t, hc, hM, hM', hR⟩ | ⟨M, w, hc, hM, hM', hw⟩ | hnone
  · have hbuf : (strayRecv c h).buffer = M ++ space :: (R ++ space :: (t ++ strayWords)) := by
      rw [strayRecv_buffer, hc]
      simp
    rw [hc] at h0
    simp only [List.mem_append, List.mem_cons, not_or] at h0
    obtain ⟨-, hmethod, hroute⟩ := request_words hterm hbuf hM hM' hR (by simp [h0, space]) req
    have hR' : R = m.route := routeIs_inj hroute hserves.2 h0.2.2.1 m.noNul.2.1
    exact ⟨M, t, by rw [hc, hR'], hM, hM', hmethod.symm.trans hserves.1⟩
  · -- the second word runs on into the stray ones
    have hbuf : (strayRecv c h).buffer = M ++ space :: ((w ++ List.replicate ROUTE_SIZE 97) ++ space ::
        (List.replicate ROUTE_SIZE 97 ++ space :: 0 :: List.replicate REQUEST_SIZE 0)) := by
      rw [strayRecv_buffer, hc, strayWords]
      simp
    rw [hc] at h0
    simp only [List.mem_append, List.mem_cons, not_or] at h0
    have hw0 : 0 ∉ w ++ List.replicate ROUTE_SIZE 97 := by
      rw [List.mem_append]
      exact not_or.2 ⟨h0.2.2, ha0⟩
    have hws : space ∉ w ++ List.replicate ROUTE_SIZE 97 := by
      rw [List.mem_append]
      exact not_or.2 ⟨hw, ha⟩
    have hwords0 : 0 ∉ M ++ space :: ((w ++ List.replicate ROUTE_SIZE 97) ++ [space]) := by
      rw [List.mem_append, List.mem_cons, List.mem_append]
      simp [h0.1, hw0, space]
    obtain ⟨-, -, hroute⟩ := request_words hterm hbuf hM hM' hws hwords0 req
    exact (hlong (routeIs_inj hroute hserves.2 hw0 m.noNul.2.1)).elim
  · -- so does the first
    have hbuf : (strayRecv c h).buffer = (c ++ List.replicate ROUTE_SIZE 97) ++ space ::
        (List.replicate ROUTE_SIZE 97 ++ space :: (0 :: List.replicate REQUEST_SIZE 0)) := by
      rw [strayRecv_buffer, strayWords]
      simp
    have htail : space ∉ (c ++ List.replicate ROUTE_SIZE 97).tail := by
      rw [List.tail_append_of_ne_nil h.1, List.mem_append]
      exact not_or.2 ⟨hnone, ha⟩
    have hwords0 : 0 ∉ (c ++ List.replicate ROUTE_SIZE 97) ++ space :: (List.replicate ROUTE_SIZE 97 ++ [space]) := by
      rw [List.mem_append, List.mem_append, List.mem_cons, List.mem_append]
      simp [h0, ha0, space]
    obtain ⟨-, -, hroute⟩ := request_words hterm hbuf (by simp [h.1]) htail ha hwords0 req
    exact (hlong (w := []) (routeIs_inj hroute hserves.2 ha0 m.noNul.2.1)).elim

theorem ownLine_of_served {chunks : List (List UInt8)} {ms : List Message}
    (hlegal : ∀ c ∈ chunks, c ≠ [] ∧ c.length ≤ REQUEST_SIZE) (hpf : ∀ c ∈ chunks, ¬ prefetch <:+: c)
    (hnul : ∀ c ∈ chunks, 0 ∉ c) {req : HttpRequest}
    (h : List.Forall₂ ServesAs (onAccept (chunks.pmap strayRecv hlegal) req) ms) : List.Forall₂ OwnLine chunks ms := by
  induction chunks generalizing ms req with
  | nil =>
    cases h
    exact .nil
  | cons c chunks ih =>
    rw [List.pmap_cons, onAccept_cons (strayRecv_terminated _ (hpf c List.mem_cons_self))] at h
    obtain ⟨m, ms, hserves, htail, rfl⟩ := List.forall₂_cons_left_iff.1 h
    refine .cons (ownLine_of_stray (hpf c List.mem_cons_self) (hnul c List.mem_cons_self) hserves) (ih _ ?_ ?_ htail)
    · intro c' hc'
      exact hpf c' (List.mem_cons_of_mem _ hc')
    · intro c' hc'
      exact hnul c' (List.mem_cons_of_mem _ hc')

/-! ## Any way to cut the stream up -/

theorem Message.noNul_bytes (m : Message) : 0 ∉ m.bytes := by
  simp [Message.bytes, m.noNul, space]

/-- For a stream of requests that asks for no prefetch, and any way in which `recv` cuts it up, the
requests are served exactly where each `recv` brings by itself the words of the request whose turn it
is. -/
theorem served_iff (ms : List Message) (chunks : List (List UInt8))
    (hstream : chunks.flatten = (ms.map Message.bytes).flatten)
    (hlegal : ∀ c ∈ chunks, c ≠ [] ∧ c.length ≤ REQUEST_SIZE) (hpf : ¬ prefetch <:+: (ms.map Message.bytes).flatten) :
    Served chunks ms ↔ List.Forall₂ OwnLine chunks ms := by
  have hnul : ∀ c ∈ chunks, 0 ∉ c := by
    intro c hc h0
    have hmem : 0 ∈ (ms.map Message.bytes).flatten := by
      rw [← hstream]
      exact List.mem_flatten_of_mem hc h0
    obtain ⟨s, hs, h0⟩ := List.mem_flatten.1 hmem
    obtain ⟨m, -, rfl⟩ := List.mem_map.1 hs
    exact m.noNul_bytes h0
  have hpf' : ∀ c ∈ chunks, ¬ prefetch <:+: c := by
    intro c hc hin
    apply hpf
    rw [← hstream]
    exact hin.trans (List.infix_of_mem_flatten hc)
  constructor
  · intro hserved
    have hrs : (chunks.pmap strayRecv hlegal).map Recv.bytes = chunks := by
      rw [List.map_pmap]
      exact List.pmap_eq_self.2 fun _ _ => rfl
    refine ownLine_of_served hlegal hpf' hnul (hserved _ hrs ?_ ⟨fun _ => 0, .INVALID⟩)
    intro r hr
    obtain ⟨c, hc, rfl⟩ := List.mem_pmap.1 hr
    exact strayRecv_terminated _ (hpf' c hc)
  · exact served_of_ownLine hnul

/-- `recv` that bring one request each serve them. -/
theorem ownLine_whole (ms : List Message) : List.Forall₂ OwnLine (ms.map Message.bytes) ms := by
  induction ms with
  | nil => exact .nil
  | cons m ms ih =>
    refine .cons ⟨m.method, m.rest, rfl, m.method_ne, ?_, rfl⟩ ih
    exact fun h => m.method_noSpace (List.mem_of_mem_tail h)

/-- "GET / HTTP/1.1" and "POST /dc HTTP/1.1". -/
def getRoot : Message where
  method := httpMethodGet
  route := rootRoute
  rest := ascii ['H', 'T', 'T', 'P', '/', '1', '.', '1', '\r', '\n', '\r', '\n']
  method_ne := by decide
  method_noSpace := by decide
  route_noSpace := by decide
  route_lt := by decide
  noNul := by decide

def postDc : Message := { getRoot with
  method := httpMethodPost
  route := dcRoute
  method_ne := by decide
  method_noSpace := by decide
  route_noSpace := by decide
  route_lt := by decide
  noNul := by decide }

theorem served_iff_each : Served [getRoot.bytes, postDc.bytes] [getRoot, postDc] := by
  apply (served_iff [getRoot, postDc] [getRoot.bytes, postDc.bytes] rfl (by decide) (by decide +kernel)).2
  exact ownLine_whole [getRoot, postDc]

/-- Both in one `recv`: the second is not handled. -/
theorem not_served : ¬ ∀ (ms : List Message) (chunks : List (List UInt8)),
    chunks.flatten = (ms.map Message.bytes).flatten → (∀ c ∈ chunks, c ≠ [] ∧ c.length ≤ REQUEST_SIZE) →
    ¬ prefetch <:+: (ms.map Message.bytes).flatten → Served chunks ms := by
  intro h
  let r : Recv := ⟨getRoot.bytes ++ postDc.bytes, List.replicate REQUEST_SIZE 0, by decide, by decide, by simp⟩
  have hterm : r.Terminated := by
    rw [Recv.Terminated]
    decide +kernel
  have hserved := h [getRoot, postDc] [getRoot.bytes ++ postDc.bytes] (by decide) (by decide) (by decide +kernel)
    [r] rfl (by simpa using hterm) ⟨fun _ => 0, .INVALID⟩
  have hlen : (onAccept [r] ⟨fun _ => 0, .INVALID⟩).length = 1 := by rw [onAccept_cons hterm, onAccept]; rfl
  exact absurd (hlen.symm.trans hserved.length_eq) (by decide)

end Td3.Server
