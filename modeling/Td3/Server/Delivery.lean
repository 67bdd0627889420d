/-
The rounds of `HttpServer::on_accept` (server/src/httpserver.cpp) with their responses, in any number of
children: which clients are counted that got no page.

The section that counts a client ends before `response` is called, and nothing after it takes the count
back: a root page that cannot be delivered leaves `client_count` as it was only when the counter was full
and another page was sent in its place.
-/
import Td3.Server.Clients
import Td3.Server.Response

namespace Td3.Server

/-! ## The pages -/

def badRequestRoute : List UInt8 :=
  ascii ['/', 'e', 'r', 'r', 'o', 'r', 's', '/', 'b', 'a', 'd', '_', 'r', 'e', 'q', 'u', 'e', 's', 't', '.', 'h', 't',
    'm', 'l']

theorem badRequestRoute_ok : badRequestRoute.length < ROUTE_SIZE ∧ 0 ∉ badRequestRoute := by decide

theorem image404Route_ok : image404Route.length < ROUTE_SIZE ∧ 0 ∉ image404Route := by decide

theorem maxClientsImageRoute_ok : maxClientsImageRoute.length < ROUTE_SIZE ∧ 0 ∉ maxClientsImageRoute := by decide

theorem faviconRoute_ok : faviconRoute.length < ROUTE_SIZE ∧ 0 ∉ faviconRoute := by decide

/-- The response each function makes, where `json` is what `response_update` prints. -/
def Response.http (json : HttpResponse) : Response → HttpResponse
  | .badRequest => ⟨badRequestRoute, .HTML, .BAD_REQUEST, .CLOSE, badRequestRoute_ok.1, badRequestRoute_ok.2⟩
  | .update => json
  | .image404 => ⟨image404Route, .JPG, .OK, .CLOSE, image404Route_ok.1, image404Route_ok.2⟩
  | .maxClientsImage =>
    ⟨maxClientsImageRoute, .JPG, .OK, .CLOSE, maxClientsImageRoute_ok.1, maxClientsImageRoute_ok.2⟩
  | .root => responseRoot
  | .favicon => ⟨faviconRoute, .FAVICON, .OK, .CLOSE, faviconRoute_ok.1, faviconRoute_ok.2⟩
  | .maxClients => responseMaxClients
  | .notFound => responseNotFound

/-! ## A round -/

/-- What the calls of `response` in a round find: the first one, and the one that follows when it
failed. -/
structure Sending where
  call : Call
  leftover : Leftover
  retry : Call
  retryLeftover : Leftover
  json : HttpResponse

/-- A round of the loop of `on_accept`: `serverData` after it, the response, and the calls of
`response`. -/
structure Round where
  data : ServerData
  page : Response
  first : Option Attempt
  second : Option Attempt

/-- The call returned a value that is not 0. -/
def Attempt.Failed (a : Attempt) : Bool := a.returned.any fun (ret, _) => ret ≠ 0

/-- The body of the loop of `on_accept`. -/
def round (e : Sending) (req : HttpRequest) (d : ServerData) : Round :=
  let (data, page) := handle req d
  let first := response e.call e.leftover (page.http e.json)
  -- the count is not touched again, whatever the response came to
  { data, page, first
    second := if first.any Attempt.Failed then response e.retry e.retryLeftover responseNotFound else none }

/-- A response that cannot be delivered: there is nothing to read its body from, and so no size; or
there is no memory for the answer, or a `send()` fails before the answer has been taken. -/
def Call.Undelivered (c : Call) (res : HttpResponse) : Prop :=
  ∀ n ∈ c.size res, c.granted = false ∨ 2 ^ 31 ≤ n ∨ (reaches n 0 c.sends = false ∧ .failed ∈ c.sends)

instance (c : Call) (res : HttpResponse) : Decidable (c.Undelivered res) :=
  inferInstanceAs (Decidable (∀ n ∈ c.size res, _))

/-! ## What a response reports -/

/-- Where there is something to read the body from, the call reports just the responses that are not
delivered. -/
theorem response_failed_iff {c : Call} {res : HttpResponse} {n : Nat} (hsize : c.size res = some n) {u : Leftover}
    {a : Attempt} (ha : response c u res = some a) (hret : a.returned ≠ none) :
    a.Failed = true ↔ c.Undelivered res := by
  obtain ⟨f, mime, hf, hm, hn⟩ := size_eq_some.1 hsize
  have hund : c.Undelivered res ↔
      c.granted = false ∨ 2 ^ 31 ≤ n ∨ (reaches n 0 c.sends = false ∧ .failed ∈ c.sends) := by
    simp only [Call.Undelivered, hsize, Option.mem_def, Option.some.injEq, forall_eq']
  rw [hund]
  by_cases hno : c.granted = false ∨ 2 ^ 31 ≤ n
  · have hmalloc : malloc c.granted (intAdd (headerText (httpCode res.code) c.time.text mime (httpConn res.conn)
        f.bytes.length).length f.bytes.length) = none := by
      rcases hno with hg | hge
      · rw [hg, malloc_refused]
      · exact malloc_size hf hm (by omega) _
    rw [response_refused hf hm u hmalloc, Option.some.injEq] at ha
    subst ha
    refine iff_of_true rfl ?_
    rcases hno with hg | hge
    · exact .inl hg
    · exact .inr (.inl hge)
  · obtain ⟨hg, hlt⟩ := not_or.1 hno
    rw [Bool.not_eq_false] at hg
    obtain ⟨a', ha', hreturned, -⟩ := response_granted hf hm u rfl hg (by omega)
    rw [ha, Option.some.injEq] at ha'
    subst ha'
    rw [hn] at hreturned
    simp only [hg, hlt, Bool.true_eq_false, false_or]
    cases hw : write n c.sends with
    | none =>
      rw [hw] at hreturned
      exact absurd hreturned hret
    | some p =>
      obtain ⟨ret, w⟩ := p
      rw [hw] at hreturned
      simp only [Attempt.Failed, hreturned, Option.map_some, Option.any_some, decide_eq_true_eq]
      cases hr : reaches n 0 c.sends with
      | true =>
        obtain ⟨ret', w', hw', hge⟩ := writeLoop_reaches n c.sends 0 {} hr
        rw [write, hw', Option.some.injEq, Prod.mk.injEq] at hw
        have hne : ret ≠ -1 := by omega
        simp [hne]
      | false =>
        have hneg := writeLoop_not_reaches n c.sends 0 {} ret w hr hw
        have hfailed : .failed ∈ c.sends := by
          by_contra hf
          rw [write, (writeLoop_eq_none_iff n c.sends 0 {}).2 ⟨hr, hf⟩] at hw
          cases hw
        simp [hneg, hfailed]

/-! ## The system -/

/-- The service, and the number of requests that were answered with a root page that was not found
undeliverable. -/
structure Delivery (ι : Type) where
  service : Service ι := {}
  served : Nat := 0

inductive DeliveryAction (ι : Type) where
  | receive (i : ι) (req : HttpRequest)
  | round (i : ι) (e : Sending)
  | update (file : Option (List UInt8))

/-- `GET /`. -/
def HttpRequest.IsRoot (req : HttpRequest) : Prop := req.method = .GET ∧ routeIs req.route rootRoute = true

section
variable {ι : Type} [DecidableEq ι]

/-- A child receives its next request, or its section runs, and the response that follows is sent as
`e` says; or the parent updates the configuration. -/
def deliveryStep (s : Delivery ι) : DeliveryAction ι → Option (Delivery ι)
  | .receive i req => (serviceStep s.service (.receive i req)).map fun t => { s with service := t }
  | .update file => (serviceStep s.service (.update file)).map fun t => { s with service := t }
  | .round i e =>
    match s.service.pending i with
    | none => none
    | some req =>
      if s.service.stuck = true ∧ inSection req = true then none
      else
        let r := round e req s.service.data
        some {
          service := { s.service with data := r.data, pending := Function.update s.service.pending i none }
          served := if r.page = .root ∧ ¬ e.call.Undelivered responseRoot then s.served + 1 else s.served }

def DeliveryAction.service : DeliveryAction ι → ServiceAction ι
  | .receive i req => .receive i req
  | .round i _ => .handle i
  | .update file => .update file

/-- Without their responses the rounds are those of the service. -/
theorem deliveryStep_service {s t : Delivery ι} {a : DeliveryAction ι} (h : deliveryStep s a = some t) :
    serviceStep s.service a.service = some t.service := by
  cases a with
  | receive i req =>
    obtain ⟨u, hu, rfl⟩ := Option.map_eq_some_iff.1 h
    exact hu
  | update file =>
    obtain ⟨u, hu, rfl⟩ := Option.map_eq_some_iff.1 h
    exact hu
  | round i e =>
    unfold deliveryStep at h
    simp only [DeliveryAction.service, serviceStep]
    cases hreq : s.service.pending i with
    | none =>
      simp only [hreq] at h
      cases h
    | some req =>
      simp only [hreq] at h ⊢
      split at h
      · cases h
      · rename_i hgo
        rw [if_neg hgo]
        cases h
        rfl

theorem service_run {guard : Delivery ι → DeliveryAction ι → Prop} {s : Delivery ι} (h : Run deliveryStep guard {} s) :
    Run serviceStep (fun _ _ => True) {} s.service := by
  induction h with
  | start => exact .start
  | step a _ _ ht ih => exact ih.step a.service trivial (deliveryStep_service ht)

/-- In a state reached the counter and its bound are what an `int` holds. -/
theorem service_inv_of_run {guard : Delivery ι → DeliveryAction ι → Prop} {s : Delivery ι}
    (h : Run deliveryStep guard {} s) : s.service.Inv :=
  (service_run h).invariant Service.Inv.init fun _ _ _ hi _ hs => hi.step hs

/-! ## What a round does to the count -/

omit [DecidableEq ι] in
theorem handle_root {req : HttpRequest} (h : req.IsRoot) (d : ServerData) : handle req d =
    if d.maxClients ≤ d.clientCount then (d, .maxClients)
    else ({ d with clientCount := intAdd d.clientCount 1 }, .root) := by
  obtain ⟨hm, hr⟩ := h
  unfold handle
  simp only [hm, hr, if_true]

/-- A round that counts a client answers `GET /` with the root page. -/
theorem handle_count (req : HttpRequest) (d : ServerData) :
    (handle req d).1.clientCount = d.clientCount ∨
    (0 < d.clientCount ∧ (handle req d).1.clientCount = intAdd d.clientCount (-1)) ∨
    (req.IsRoot ∧ d.clientCount < d.maxClients ∧ (handle req d).2 = .root ∧
      (handle req d).1.clientCount = intAdd d.clientCount 1) := by
  by_cases hroot : req.IsRoot
  · rw [handle_root hroot]
    split
    · exact .inl rfl
    · rename_i hlt
      exact .inr (.inr ⟨hroot, by omega, rfl, rfl⟩)
  · unfold handle
    cases hm : req.method with
    | POST =>
      simp only
      split
      · split
        · rename_i hpos
          exact .inr (.inl ⟨hpos, rfl⟩)
        · exact .inl rfl
      · exact .inl rfl
    | GET =>
      have hr : ¬ routeIs req.route rootRoute = true := fun hr => hroot ⟨hm, hr⟩
      left
      simp only [if_neg hr]
      repeat' split
      all_goals rfl
    | INVALID => exact .inl rfl

/-- The request's root page is delivered, unless the counter was full. -/
def Delivery.RootDelivered (s : Delivery ι) : DeliveryAction ι → Prop
  | .round i e => ∀ req ∈ s.service.pending i, req.IsRoot → e.call.Undelivered responseRoot →
      s.service.data.maxClients ≤ s.service.data.clientCount
  | _ => True

theorem deliveryStep_round {s t : Delivery ι} {i : ι} {e : Sending} {req : HttpRequest}
    (hreq : s.service.pending i = some req) (h : deliveryStep s (.round i e) = some t) :
    t.service.data = (handle req s.service.data).1 ∧
      t.served = if (handle req s.service.data).2 = .root ∧ ¬ e.call.Undelivered responseRoot then s.served + 1
        else s.served := by
  unfold deliveryStep at h
  simp only [hreq] at h
  split at h
  · cases h
  · cases h
    exact ⟨rfl, rfl⟩

/-- A step keeps the clients counted at most as many as were served, if its root page is delivered. -/
theorem served_step {s t : Delivery ι} {a : DeliveryAction ι} (hinv : s.service.Inv)
    (h : s.service.data.clientCount ≤ s.served) (hg : s.RootDelivered a) (hs : deliveryStep s a = some t) :
    t.service.data.clientCount ≤ t.served := by
  cases a with
  | receive i req =>
    obtain ⟨u, hu, rfl⟩ := Option.map_eq_some_iff.1 hs
    simp only [serviceStep] at hu
    split at hu
    · cases hu
      exact h
    · cases hu
  | update file =>
    obtain ⟨u, hu, rfl⟩ := Option.map_eq_some_iff.1 hs
    simp only [serviceStep] at hu
    split at hu
    · cases hu
    · cases hu
      change (updateConfiguration file s.service.data).1.clientCount ≤ s.served
      rwa [updateConfiguration_clientCount]
  | round i e =>
    cases hreq : s.service.pending i with
    | none =>
      unfold deliveryStep at hs
      simp only [hreq] at hs
      cases hs
    | some req =>
      obtain ⟨hd, hserved⟩ := deliveryStep_round hreq hs
      have hle : (s.served : Int) ≤ t.served := by
        rw [hserved]
        split <;> omega
      have hint := hinv.int
      have hcount := hinv.count
      rw [hd]
      rcases handle_count req s.service.data with hc | ⟨hpos, hc⟩ | ⟨hroot, hlt, hpage, hc⟩
      · omega
      · rw [hc, intAdd_eq (by omega) (by omega)]
        omega
      · have hdelivered : ¬ e.call.Undelivered responseRoot := fun hu => by
          have := hg req hreq hroot hu
          omega
        have hnonneg := hinv.nonneg
        rw [if_pos ⟨hpage, hdelivered⟩] at hserved
        rw [hc, intAdd_eq (by omega) (by omega)]
        omega

/-- In every state reached, a `GET /` whose root page cannot be delivered leaves `client_count` as it was
exactly when the counter was full before it; and after a run in which only such pages were not delivered,
no more clients are counted than were served. -/
theorem undelivered_count {s : Delivery ι} (h : Run deliveryStep (fun _ _ => True) {} s) :
    (∀ i e req t, s.service.pending i = some req → req.IsRoot → deliveryStep s (.round i e) = some t →
      ((e.call.Undelivered responseRoot → t.service.data.clientCount = s.service.data.clientCount) ↔
        (e.call.Undelivered responseRoot → s.service.data.maxClients ≤ s.service.data.clientCount))) ∧
    (Run deliveryStep Delivery.RootDelivered {} s → s.service.data.clientCount ≤ s.served) := by
  have hinv := service_inv_of_run h
  have hint := hinv.int
  have hnonneg := hinv.nonneg
  constructor
  · rintro i e req t hreq hroot hs
    obtain ⟨hd, -⟩ := deliveryStep_round hreq hs
    rw [handle_root hroot] at hd
    rw [hd]
    split
    · rename_i hfull
      exact iff_of_true (fun _ => rfl) fun _ => hfull
    · rename_i hfree
      have hadd : intAdd s.service.data.clientCount 1 = s.service.data.clientCount + 1 :=
        intAdd_eq (by omega) (by omega)
      simp only [hadd]
      constructor
      · rintro hkeep hu
        have := hkeep hu
        omega
      · rintro hfull hu
        exact absurd (hfull hu) hfree
  · rintro hrun
    refine (hrun.invariant (P := fun s => s.service.Inv ∧ s.service.data.clientCount ≤ s.served)
      ⟨Service.Inv.init, le_rfl⟩ fun u a v hu hg hs => ?_).2
    exact ⟨hu.1.step (deliveryStep_service hs), served_step hu.1 hu.2 hg hs⟩

end

/-- A round whose first call is this one. -/
def sendingOf (c : Call) : Sending where
  call := c
  leftover := ⟨0, fun _ => 0, fun _ => 0⟩
  retry := missingCall []
  retryLeftover := ⟨0, fun _ => 0, fun _ => 0⟩
  json := responseNotFound

def getRootRequest : HttpRequest := ⟨fun i => rootRoute.getD i 0, .GET⟩

/-- The server has no configuration file, and its child has received `GET /`. -/
def rootRequested : Delivery Unit where
  service := {
    data := (updateConfiguration none {}).1
    pending := Function.update (fun _ => none) () (some getRootRequest)
    held := [1000, 0] }

theorem rootRequested_run (guard : Delivery Unit → DeliveryAction Unit → Prop)
    (hu : ∀ s, guard s (.update none)) (hr : ∀ s, guard s (.receive () getRootRequest)) :
    Run deliveryStep guard {} rootRequested := by
  have hstart : Run deliveryStep guard {} ({} : Delivery Unit) := .start
  have hupdate := hstart.step (.update none) (hu _) rfl
  exact hupdate.step (.receive () getRootRequest) (hr _) rfl

/-- A root page that one `send()` takes is delivered to the client that is counted for it. -/
theorem undelivered_count_delivered : ∃ s : Delivery Unit,
    deliveryStep rootRequested (.round () (sendingOf (indexCall [.accepted 167]))) = some s ∧
      s.service.data.clientCount ≤ s.served := by
  refine ⟨_, rfl, ?_⟩
  have hdelivered : ¬ (indexCall [.accepted 167]).Undelivered responseRoot := by
    intro h
    have := h 167 (size_indexCall _)
    simp [indexCall, reaches, intAdd] at this
  refine (undelivered_count ?_).2 ?_
  · exact (rootRequested_run _ (fun _ => trivial) fun _ => trivial).step (.round () _) trivial rfl
  · refine (rootRequested_run _ (fun _ => trivial) fun _ => trivial).step (.round () _) ?_ rfl
    rintro req - - hu
    exact absurd hu hdelivered

/-- Without a root page the client is counted all the same. -/
theorem not_undelivered_keeps : ¬ ∀ s : Delivery Unit, Run deliveryStep (fun _ _ => True) {} s →
    ∀ i e req t, s.service.pending i = some req → req.IsRoot → deliveryStep s (.round i e) = some t →
      e.call.Undelivered responseRoot → t.service.data.clientCount = s.service.data.clientCount := by
  intro h
  have hcount := h rootRequested (rootRequested_run _ (fun _ => trivial) fun _ => trivial) ()
    (sendingOf (missingCall [])) getRootRequest _ rfl ⟨rfl, by decide⟩ rfl ?_
  · exact absurd hcount (by decide)
  · rintro n hn
    simp [Call.size, sendingOf, loaded_missingCall] at hn

end Td3.Server
