/-
What `HttpServer::request` (server/src/httpserver.cpp) makes of a message without two words: it rejects
nothing but a failed `recv` and "Purpose: prefetch", and what it does not find it leaves in `*req`, which
`on_accept` keeps over all the requests of a connection.
-/
import Td3.Server.Segmentation
import Mathlib.Data.List.TakeWhile

namespace Td3.Server

open Td3.CString

/-! ## Malformed messages -/

/-- What stands before the first space of a message -/
def methodWord (s : List UInt8) : List UInt8 := s.takeWhile (· ≠ space)

/-- What stands between its first two spaces -/
def routeWord (s : List UInt8) : List UInt8 := ((s.dropWhile (· ≠ space)).drop 1).takeWhile (· ≠ space)

/-- The message, up to its first NUL, lacks a second space, starts with a space, or has too long a route. -/
def Malformed (bytes : List UInt8) : Prop :=
  (chars bytes).count space < 2 ∨ (chars bytes).head? = some space ∨ ROUTE_SIZE - 1 < (routeWord (chars bytes)).length

instance (bytes : List UInt8) : Decidable (Malformed bytes) := inferInstanceAs (Decidable (_ ∨ _))

/-- "Purpose: prefetch" stands in the string in `client_msg`. -/
def IsPrefetch (recv : RecvResult) (stack : List UInt8) : Prop :=
  ∃ p, strstr prefetch (read stack recv).2 = some (some p)

/-- The call returns -1 and leaves `*req` unchanged. -/
def Rejects (recv : RecvResult) (stack : List UInt8) (req : HttpRequest) : Prop :=
  (request recv stack req).ret = some (-1) ∧ (request recv stack req).req = req

/-- Each request that `on_accept` handles has the method and the route of its own message, whatever `req`
held before. -/
def HandlesOwn (rs : List Recv) : Prop :=
  ∀ req, ∃ served, served <+: rs ∧ List.Forall₂ (fun q r => q.method = methodOf (methodWord (chars r.bytes)) ∧
    routeIs q.route (routeWord (chars r.bytes)) = true) (onAccept rs req) served

/-! ## Messages that are well formed -/

theorem takeWhile_space {w : List UInt8} (hw : space ∉ w) (t : List UInt8) :
    (w ++ space :: t).takeWhile (· ≠ space) = w ∧ (w ++ space :: t).dropWhile (· ≠ space) = space :: t := by
  have hne : ∀ c ∈ w, decide (c ≠ space) = true := by
    intro c hc
    rw [decide_eq_true_eq]
    rintro rfl
    exact hw hc
  constructor
  · rw [List.takeWhile_append_of_pos hne, List.takeWhile_cons_of_neg (by simp), List.append_nil]
  · rw [List.dropWhile_append_of_pos hne, List.dropWhile_cons_of_neg (by simp)]

/-- The words of a string with two spaces -/
theorem words_eq {M R t : List UInt8} (hM : space ∉ M) (hR : space ∉ R) :
    methodWord (M ++ space :: (R ++ space :: t)) = M ∧ routeWord (M ++ space :: (R ++ space :: t)) = R := by
  refine ⟨(takeWhile_space hM _).1, ?_⟩
  rw [routeWord, (takeWhile_space hM _).2, List.drop_one, List.tail_cons]
  exact (takeWhile_space hR t).1

theorem chars_prefix (s : List UInt8) : ∃ t, s = chars s ++ t ∧ 0 ∉ chars s := by
  refine ⟨s.dropWhile (· ≠ 0), (List.takeWhile_append_dropWhile).symm, ?_⟩
  intro hmem
  have hne := List.mem_takeWhile_imp hmem
  exact absurd rfl (of_decide_eq_true hne)

/-- A message that is not malformed has two words, and the second fits `route`. -/
theorem words_of_not_malformed {bytes : List UInt8} (h : ¬ Malformed bytes) :
    ∃ t, bytes = methodWord (chars bytes) ++ space :: (routeWord (chars bytes) ++ space :: t) ∧
      methodWord (chars bytes) ≠ [] ∧ space ∉ methodWord (chars bytes) ∧ space ∉ routeWord (chars bytes) ∧
      0 ∉ methodWord (chars bytes) ++ space :: (routeWord (chars bytes) ++ [space]) := by
  obtain ⟨rest, hbytes, h0⟩ := chars_prefix bytes
  unfold Malformed at h
  generalize chars bytes = s at *
  push Not at h
  obtain ⟨hcount, hhead, -⟩ := h
  have hfirst : space ∈ s := List.count_pos_iff.1 (by omega)
  obtain ⟨M, w, rfl, hM⟩ := List.eq_append_cons_of_mem hfirst
  have hsecond : space ∈ w := by
    apply List.count_pos_iff.1
    rw [List.count_append, List.count_cons_self, List.count_eq_zero_of_not_mem hM] at hcount
    omega
  obtain ⟨R, t, rfl, hR⟩ := List.eq_append_cons_of_mem hsecond
  obtain ⟨hmethod, hroute⟩ := words_eq (t := t) hM hR
  rw [hmethod, hroute]
  refine ⟨t ++ rest, ?_, ?_, hM, hR, ?_⟩
  · rw [hbytes]
    simp
  · rintro rfl
    exact hhead rfl
  · intro hmem
    apply h0
    simp only [List.mem_append, List.mem_cons, List.not_mem_nil, or_false] at hmem ⊢
    tauto

/-! ## What is rejected -/

/-- A call returns -1 where nothing was received, or "Purpose: prefetch". -/
theorem rejects_iff (recv : RecvResult) (stack : List UInt8) (req : HttpRequest) :
    Rejects recv stack req ↔ recv.bytes = [] ∨ IsPrefetch recv stack := by
  cases recv with
  | failed => exact iff_of_true ⟨rfl, rfl⟩ (.inl rfl)
  | received bytes =>
    by_cases hne : bytes = []
    · subst hne
      exact iff_of_true ⟨rfl, rfl⟩ (.inl rfl)
    · unfold Rejects IsPrefetch
      simp only [RecvResult.bytes, hne, false_or, read]
      rw [request_received bytes stack req hne]
      cases hs : strstr prefetch (bytes ++ stack.drop bytes.length) with
      | none => simp
      | some r =>
        cases r with
        | some p => simp
        | none =>
          cases hl : strlen (bytes ++ stack.drop bytes.length) <;> simp

/-! ## What a connection handles -/

/-- A request that a call returns with 0 comes from a string that ends, and not from "Purpose: prefetch". -/
theorem terminated_of_ret {r : Recv} {req : HttpRequest} (h : (request (.received r.bytes) r.stack req).ret = some 0) :
    r.Terminated := by
  rw [request_received _ _ _ r.bytes_ne] at h
  unfold Recv.Terminated Recv.buffer
  cases hs : strstr prefetch (r.bytes ++ r.stack.drop r.bytes.length) with
  | none =>
    rw [hs] at h
    cases h
  | some o =>
    cases o with
    | none => rfl
    | some p =>
      rw [hs] at h
      cases h

theorem handlesOwn_of_not_malformed {rs : List Recv}
    (h : ∀ r ∈ rs, ¬ Malformed r.bytes ∨ IsPrefetch (.received r.bytes) r.stack) : HandlesOwn rs := by
  induction rs with
  | nil => exact fun _ => ⟨[], List.prefix_rfl, .nil⟩
  | cons r rs ih =>
    intro req
    rw [onAccept]
    by_cases hret : (request (.received r.bytes) r.stack req).ret = some 0
    · have hterm := terminated_of_ret hret
      -- a prefetch is not accepted, so the message is well formed
      have hmalformed : ¬ Malformed r.bytes := by
        refine (h r List.mem_cons_self).resolve_right ?_
        rintro ⟨p, hp⟩
        exact absurd (hterm.symm.trans hp) (by simp)
      obtain ⟨t, hbytes, hM, hM', hR, h0⟩ := words_of_not_malformed hmalformed
      have hbuf : r.buffer = methodWord (chars r.bytes) ++ space :: (routeWord (chars r.bytes) ++ space ::
          (t ++ r.stack.drop r.bytes.length)) := by
        rw [Recv.buffer]
        nth_rewrite 1 [hbytes]
        simp
      obtain ⟨-, hmethod, hroute⟩ :=
        request_words hterm hbuf hM (fun hmem => hM' (List.mem_of_mem_tail hmem)) hR h0 req
      obtain ⟨served, hprefix, hserved⟩ := ih (fun r' hr' => h r' (List.mem_cons_of_mem _ hr')) _
      rw [if_pos hret]
      exact ⟨r :: served, List.cons_prefix_cons.2 ⟨rfl, hprefix⟩, .cons ⟨hmethod, hroute⟩ hserved⟩
    · rw [if_neg hret]
      exact ⟨[], List.nil_prefix, .nil⟩

/-- A malformed message is rejected exactly where nothing was received or "Purpose: prefetch" stands in the
string; and where that is so of every malformed message of a connection, `on_accept` acts on no method or
route of an earlier request. -/
theorem malformed_rejected_iff (recv : RecvResult) (stack : List UInt8) (req : HttpRequest) :
    ((Malformed recv.bytes → Rejects recv stack req) ↔
      recv.bytes = [] ∨ ¬ Malformed recv.bytes ∨ IsPrefetch recv stack) ∧
    ∀ rs : List Recv, (∀ r ∈ rs, ¬ Malformed r.bytes ∨ IsPrefetch (.received r.bytes) r.stack) → HandlesOwn rs := by
  refine ⟨?_, fun rs h => handlesOwn_of_not_malformed h⟩
  rw [rejects_iff]
  tauto

/-! ## Three messages -/

/-- A message with its NUL, received over a cleared buffer -/
def recvOf (message : List Char) (h : message.length < REQUEST_SIZE) : Recv where
  bytes := ascii message ++ [0]
  stack := List.replicate REQUEST_SIZE 0
  bytes_ne := List.append_ne_nil_of_right_ne_nil _ (List.cons_ne_nil _ _)
  bytes_le := by
    rw [List.length_append, ascii, List.length_map]
    exact h
  stack_le := by rw [List.length_replicate]

def dcReceived : Recv := recvOf ['P', 'O', 'S', 'T', ' ', '/', 'd', 'c', ' ', 'H'] (by decide)

def rootReceived : Recv := recvOf ['G', 'E', 'T', ' ', '/', ' ', 'H'] (by decide)

def postReceived : Recv := recvOf ['P', 'O', 'S', 'T', ' '] (by decide)

theorem malformed_rejected_two : HandlesOwn [dcReceived, rootReceived] := by
  refine (malformed_rejected_iff .failed [] ⟨fun _ => 0, .INVALID⟩).2 [dcReceived, rootReceived] ?_
  simp only [List.forall_mem_cons, List.not_mem_nil, false_implies, implies_true, and_true]
  exact ⟨.inl (by decide), .inl (by decide)⟩

/-- "POST " has no second space, and is a request all the same. -/
theorem not_malformed_rejected :
    ¬ ∀ r : Recv, Malformed r.bytes → ∀ req, Rejects (.received r.bytes) r.stack req := by
  intro h
  have hpf0 : (0 : UInt8) ∉ prefetch := by decide
  have h0 : (0 : UInt8) ∈ postReceived.bytes := by decide
  have hrejects := h postReceived (by decide) ⟨fun _ => 0, .INVALID⟩
  rcases (rejects_iff _ _ _).1 hrejects with hnil | ⟨p, hp⟩
  · exact postReceived.bytes_ne hnil
  · change strstr prefetch (postReceived.bytes ++ postReceived.stack.drop postReceived.bytes.length) = _ at hp
    have hnone : strstr prefetch postReceived.bytes = some none := by decide
    rw [strstr_append_of_mem hpf0 h0, hnone] at hp
    cases hp

/-- After "POST /dc", it is handled as one more of them. -/
example : (onAccept [dcReceived, postReceived] ⟨fun _ => 0, .INVALID⟩).map
    (fun req => (req.method, routeIs req.route dcRoute)) = [(.POST, true), (.POST, true)] := by
  decide +kernel

end Td3.Server
