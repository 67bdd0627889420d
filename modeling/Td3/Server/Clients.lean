/-
`HttpServer::on_accept` (server/src/httpserver.cpp) in any number of children, and
`update_configuration` in their parent, over the shared `serverData`. Each section between `sem--` and
`sem++` is one step.
-/
import Td3.Lib.Run
import Td3.Server.Config

namespace Td3.Server

/-! ## The source functions -/

/-- `strcmp(route, s) == 0`, for a string `s`. -/
def routeIs (route : Nat → UInt8) (s : List UInt8) : Bool :=
  (List.range s.length).all (fun i => route i = s.getD i 0) && route s.length = 0

def dcRoute : List UInt8 := ascii ['/', 'd', 'c']
def rootRoute : List UInt8 := ascii ['/']
def updateRoute : List UInt8 := ascii ['/', 'u', 'p', 'd', 'a', 't', 'e']
def faviconRoute : List UInt8 :=
  ascii ['/', 'i', 'm', 'a', 'g', 'e', 's', '/', 'f', 'a', 'v', 'i', 'c', 'o', 'n', '.', 'i', 'c', 'o']
def image404Route : List UInt8 := ascii ['/', 'i', 'm', 'a', 'g', 'e', 's', '/', '4', '0', '4', '.', 'j', 'p', 'g']
def maxClientsImageRoute : List UInt8 :=
  ascii ['/', 'i', 'm', 'a', 'g', 'e', 's', '/', 'm', 'a', 'x', '_', 'c', 'l', 'i', 'e', 'n', 't', 's', '.', 'j', 'p', 'g']

/-- The response, by the function that makes it. -/
inductive Response where
  | badRequest
  | update
  | image404
  | maxClientsImage
  | root
  | favicon
  | maxClients
  | notFound
deriving DecidableEq, Repr

/-- A round of the loop of `on_accept`, from its request to its response. -/
def handle (req : HttpRequest) (d : ServerData) : ServerData × Response :=
  match req.method with
  | .POST =>
    if routeIs req.route dcRoute then
      (if 0 < d.clientCount then { d with clientCount := intAdd d.clientCount (-1) } else d, .notFound)
    else (d, .notFound)
  | .GET =>
    if routeIs req.route rootRoute then
      if d.maxClients ≤ d.clientCount then (d, .maxClients)
      else ({ d with clientCount := intAdd d.clientCount 1 }, .root)
    else if routeIs req.route updateRoute then (d, .update)
    else if routeIs req.route faviconRoute then (d, .favicon)
    else if routeIs req.route image404Route then (d, .image404)
    else if routeIs req.route maxClientsImageRoute then (d, .maxClientsImage)
    else (d, .notFound)
  | .INVALID => (d, .badRequest)

/-- The request is handled inside a section. -/
def inSection (req : HttpRequest) : Bool :=
  match req.method with
  | .POST => routeIs req.route dcRoute
  | .GET => routeIs req.route rootRoute
  | .INVALID => false

/-! ## The system -/

/-- The shared memory, the request each child is at, whether the parent ended inside its section, and
the values `max_clients` has held. -/
structure Service (ι : Type) where
  data : ServerData := {}
  pending : ι → Option HttpRequest := fun _ => none
  stuck : Bool := false
  held : List Int := [0]

inductive ServiceAction (ι : Type) where
  | receive (i : ι) (req : HttpRequest)
  | handle (i : ι)
  | update (file : Option (List UInt8))

section
variable {ι : Type} [DecidableEq ι]

/-- A child receives its next request or handles the one it has, or the parent updates the
configuration. No section starts once the parent ended inside its own. -/
def serviceStep (s : Service ι) : ServiceAction ι → Option (Service ι)
  | .receive i req =>
    match s.pending i with
    | none => some { s with pending := Function.update s.pending i (some req) }
    | some _ => none
  | .handle i =>
    match s.pending i with
    | none => none
    | some req =>
      if s.stuck = true ∧ inSection req = true then none
      else some { s with data := (Server.handle req s.data).1, pending := Function.update s.pending i none }
  | .update file =>
    if s.stuck then none
    else
      let (data, returned) := updateConfiguration file s.data
      some { s with data := data, stuck := !returned, held := data.maxClients :: s.held }

/-! ## One section -/

/-- What a request does to `client_count`, `max_clients` staying as it is. -/
theorem handle_cases (req : HttpRequest) (d : ServerData) :
    (handle req d).1 = d ∨
    (0 < d.clientCount ∧ (handle req d).1 = { d with clientCount := intAdd d.clientCount (-1) }) ∨
    (d.clientCount < d.maxClients ∧ (handle req d).1 = { d with clientCount := intAdd d.clientCount 1 }) := by
  unfold handle
  cases req.method with
  | POST =>
    simp only
    split
    · split
      · rename_i hpos
        exact .inr (.inl ⟨hpos, rfl⟩)
      · exact .inl rfl
    · exact .inl rfl
  | GET =>
    simp only
    split
    · split
      · exact .inl rfl
      · rename_i hlt
        exact .inr (.inr ⟨by omega, rfl⟩)
    · refine .inl ?_
      repeat' split
      all_goals rfl
  | INVALID => exact .inl rfl

/-- An update keeps `max_clients` an `int`. -/
theorem updateConfiguration_maxClients {d : ServerData} (h : d.maxClients < 2 ^ 31) (file : Option (List UInt8)) :
    (updateConfiguration file d).1.maxClients < 2 ^ 31 := by
  cases file with
  | none => simp [updateConfiguration, DEFAULT_MAX_CLIENTS]
  | some bytes =>
    refine updateLines_invariant (P := fun d => d.maxClients < 2 ^ 31) (fun k hk value d' h => ?_) _ d h
    have hv := k.changedValue_lt hk value
    rcases k.update_cases value d' with hu | ⟨-, hu⟩
    · rw [hu]
      exact h
    · rw [hu]
      simp only [keys, List.mem_cons, List.not_mem_nil, or_false] at hk
      rcases hk with rfl | rfl | rfl | rfl
      · exact h
      · exact hv
      · exact h
      · exact h

/-! ## Every interleaving -/

/-- `client_count` is between 0 and a value that `max_clients` has held. -/
structure Service.Inv (s : Service ι) : Prop where
  int : s.data.maxClients < 2 ^ 31
  count : s.data.clientCount < 2 ^ 31
  nonneg : 0 ≤ s.data.clientCount
  le : ∃ m ∈ s.held, s.data.clientCount ≤ m
  now : s.data.maxClients ∈ s.held

omit [DecidableEq ι] in
theorem Service.Inv.init : Service.Inv ({} : Service ι) :=
  ⟨by simp, by simp, le_refl 0, ⟨0, by simp, le_refl 0⟩, by simp⟩

/-- What a step does to `client_count`. -/
theorem serviceStep_cases {s t : Service ι} {a : ServiceAction ι} (hs : serviceStep s a = some t) :
    (t.data = s.data ∧ t.held = s.held) ∨
    (0 < s.data.clientCount ∧ t.data = { s.data with clientCount := intAdd s.data.clientCount (-1) } ∧
    t.held = s.held) ∨
    (s.data.clientCount < s.data.maxClients ∧ t.data = { s.data with clientCount := intAdd s.data.clientCount 1 } ∧
      t.held = s.held) ∨
    (∃ file, t.data = (updateConfiguration file s.data).1 ∧ t.held = t.data.maxClients :: s.held) := by
  cases a with
  | receive i req =>
    simp only [serviceStep] at hs
    split at hs
    · cases hs
      exact .inl ⟨rfl, rfl⟩
    · cases hs
  | handle i =>
    simp only [serviceStep] at hs
    split at hs
    · cases hs
    · rename_i req hreq
      split at hs
      · cases hs
      · cases hs
        rcases handle_cases req s.data with h | ⟨hpos, h⟩ | ⟨hlt, h⟩
        · exact .inl ⟨h, rfl⟩
        · exact .inr (.inl ⟨hpos, h, rfl⟩)
        · exact .inr (.inr (.inl ⟨hlt, h, rfl⟩))
  | update file =>
    simp only [serviceStep] at hs
    split at hs
    · cases hs
    · cases hs
      exact .inr (.inr (.inr ⟨file, rfl, rfl⟩))

theorem Service.Inv.step {s t : Service ι} {a : ServiceAction ι} (h : s.Inv) (hs : serviceStep s a = some t) :
    t.Inv := by
  obtain ⟨hint, hcount, hnonneg, hle, hnow⟩ := h
  rcases serviceStep_cases hs with ⟨hd, hh⟩ | ⟨hpos, hd, hh⟩ | ⟨hlt, hd, hh⟩ | ⟨file, hd, hh⟩
  · exact ⟨by rwa [hd], by rwa [hd], by rwa [hd], by rwa [hd, hh], by rwa [hd, hh]⟩
  · obtain ⟨m, hm, hle⟩ := hle
    have hi : intAdd s.data.clientCount (-1) = s.data.clientCount - 1 := intAdd_eq (by omega) (by omega)
    rw [hi] at hd
    refine ⟨by rwa [hd], ?_, ?_, ⟨m, by rwa [hh], ?_⟩, by rwa [hd, hh]⟩ <;>
      · rw [hd]
        simp only
        omega
  · have hi : intAdd s.data.clientCount 1 = s.data.clientCount + 1 := intAdd_eq (by omega) (by omega)
    rw [hi] at hd
    refine ⟨by rwa [hd], ?_, ?_, ⟨s.data.maxClients, by rwa [hh], ?_⟩, by rwa [hd, hh]⟩ <;>
      · rw [hd]
        simp only
        omega
  · obtain ⟨m, hm, hle⟩ := hle
    have hc : t.data.clientCount = s.data.clientCount := by
      rw [hd]
      exact updateConfiguration_clientCount file s.data
    refine ⟨?_, by rwa [hc], by rwa [hc], ⟨m, by rw [hh]; exact List.mem_cons_of_mem _ hm, by rwa [hc]⟩,
      by rw [hh]; simp⟩
    rw [hd]
    exact updateConfiguration_maxClients hint file

/-- The step leaves `max_clients` as it is. -/
def Service.KeepsMax (s : Service ι) (a : ServiceAction ι) : Prop :=
  ∀ t, serviceStep s a = some t → t.data.maxClients = s.data.maxClients

/-- In every state reached, `client_count` is not negative, is at most some value that `max_clients`
has held, and is incremented only when it is below `max_clients`; and while `max_clients` stays as it
is, `client_count` stays at most `max_clients`. -/
theorem clientCount_bounds {s : Service ι} (h : Run serviceStep (fun _ _ => True) {} s) :
    0 ≤ s.data.clientCount ∧ (∃ m ∈ s.held, s.data.clientCount ≤ m) ∧
    (∀ a t, serviceStep s a = some t → s.data.clientCount < t.data.clientCount →
      t.data.clientCount = s.data.clientCount + 1 ∧ s.data.clientCount < s.data.maxClients) ∧
    (s.data.clientCount ≤ s.data.maxClients → ∀ t, Run serviceStep Service.KeepsMax s t →
      t.data.maxClients = s.data.maxClients ∧ t.data.clientCount ≤ t.data.maxClients) := by
  have hinv : s.Inv := h.invariant Service.Inv.init fun _ _ _ hi _ hs => hi.step hs
  refine ⟨hinv.nonneg, hinv.le, fun a t hs hlt => ?_, fun hle t ht => ?_⟩
  · have hn := hinv.nonneg
    have hm := hinv.int
    have hc := hinv.count
    rcases serviceStep_cases hs with ⟨hd, -⟩ | ⟨hpos, hd, -⟩ | ⟨hlt', hd, -⟩ | ⟨file, hd, -⟩
    · rw [hd] at hlt
      omega
    · rw [hd, intAdd_eq (by omega) (by omega)] at hlt
      simp only at hlt
      omega
    · rw [hd]
      exact ⟨intAdd_eq (by omega) (by omega), hlt'⟩
    · rw [hd, updateConfiguration_clientCount] at hlt
      omega
  · refine (ht.invariant (P := fun t => t.Inv ∧ t.data.maxClients = s.data.maxClients ∧
      t.data.clientCount ≤ t.data.maxClients) ⟨hinv, rfl, hle⟩ fun u a t hu hg hs => ?_).2
    obtain ⟨hinv, hmax, hle⟩ := hu
    have hmax' := hg t hs
    have hn := hinv.nonneg
    have hm := hinv.int
    have hc := hinv.count
    refine ⟨hinv.step hs, hmax'.trans hmax, ?_⟩
    rw [hmax']
    rcases serviceStep_cases hs with ⟨hd, -⟩ | ⟨hpos, hd, -⟩ | ⟨hlt, hd, -⟩ | ⟨file, hd, -⟩
    · rwa [hd]
    · rw [hd]
      simp only [intAdd_eq (show 0 ≤ u.data.clientCount + -1 by omega) (by omega)]
      omega
    · rw [hd]
      simp only [intAdd_eq (show 0 ≤ u.data.clientCount + 1 by omega) (by omega)]
      omega
    · rw [hd, updateConfiguration_clientCount]
      exact hle

end

/-- Two clients of a server without a configuration file, one of which leaves. -/
theorem clientCount_bounds_two : ∃ s : Service (Fin 2), s.data.clientCount = 1 ∧ s.data.maxClients = 1000 ∧
    ∃ m ∈ s.held, 1 ≤ m := by
  let get : HttpRequest := ⟨fun i => rootRoute.getD i 0, .GET⟩
  let dc : HttpRequest := ⟨fun i => dcRoute.getD i 0, .POST⟩
  have hrun : (runList serviceStep (fun _ _ => True) {}
      [.update none, .receive (0 : Fin 2) get, .receive 1 get, .handle 1, .handle 0, .receive 0 dc, .handle 0]).map
        (fun s => (s.data.clientCount, s.data.maxClients)) = some (1, 1000) := by
    decide
  obtain ⟨s, hs, he⟩ := Option.map_eq_some_iff.1 hrun
  simp only [Prod.mk.injEq] at he
  obtain ⟨-, hle, -, -⟩ := clientCount_bounds (Run.of_runList hs)
  exact ⟨s, he.1, he.2, by rwa [he.1] at hle⟩

end Td3.Server
