/-
The descriptors of `Server::start` (server/lib_src/server.cpp) and of the `Socket`s it uses
(server/lib_src/socket.cpp), from `listen` to the destructors at the end of `main`, for every sequence
of results of the system calls.

`on_start`, `on_accept` and `on_quit` close what they open and take no step here.
-/
import Td3.Lib.Run
import Mathlib.Data.Finset.Basic
import Mathlib.Tactic

namespace Td3.Server

/-! ## The source functions -/

/-- The next step of the parent. -/
inductive StartPc where
  | listen
  /-- `while(!Server::exit)` -/
  | head
  | accept
  /-- `client_socket.init(client_sockfd, ..)` -/
  | init (clientSockfd : Int)
  /-- `client_socket.close(); continue;` -/
  | closeClient
  | fork
  /-- `this->socket.close()` -/
  | closeServer
  /-- `client_socket.~Socket()`, where `start` returns -/
  | dtorClient
  /-- `this->socket.~Socket()`, where `main` returns -/
  | dtorServer
  | exited
deriving DecidableEq, Repr

/-- A child: its descriptors and its `client_socket.sockfd`. -/
structure Child where
  fds : Finset Int
  client : Int
deriving DecidableEq

/-- The parent with its descriptors, the `sockfd` of `this->socket` and of `client_socket`, and
`Server::exit`; its children; and for every call of `close()`, in any of them, whether the caller owned
the descriptor. -/
structure Process where
  pc : StartPc := .listen
  fds : Finset Int
  server : Int
  client : Int
  exit : Bool := false
  children : List Child := []
  closes : List Bool := []
deriving DecidableEq

/-- The results of the system calls, the signal SIGINT and the end of a child. -/
inductive StartEvent where
  | sigint
  | listened (ok : Bool)
  | accepted (fd : Option Int)
  | inited (ok : Bool)
  | forked (ok : Bool)
  /-- the next step, where no system call decides it -/
  | next
  /-- a child returns from `on_accept`, closes its socket and exits without destructors -/
  | childExit (k : Nat)
deriving DecidableEq, Repr

/-- `::close(fd)` in the parent. -/
def Process.close (p : Process) (fd : Int) : Process :=
  { p with fds := p.fds.erase fd, closes := p.closes ++ [decide (fd ∈ p.fds)] }

def startStep (p : Process) : StartEvent → Option Process
  | .sigint => some { p with exit := true }
  | .childExit k =>
    p.children[k]?.map fun c =>
      { p with children := p.children.eraseIdx k, closes := p.closes ++ [decide (c.client ∈ c.fds)] }
  | .listened ok => if p.pc = .listen then some { p with pc := if ok then .head else .dtorClient } else none
  | .accepted fd =>
    if p.pc = .accept then
      match fd with
      | none => some { p with pc := .head }
      -- a descriptor that was not open
      | some fd => if fd ∈ p.fds then none else some { p with pc := .init fd, fds := insert fd p.fds }
    else none
  | .inited ok =>
    match p.pc with
    | .init fd => some { p with client := fd, pc := if ok then .fork else .closeClient }
    | _ => none
  | .forked ok =>
    if p.pc = .fork then
      if ok then some { p with children := p.children ++ [⟨p.fds, p.client⟩], pc := .head }
      else some { p with pc := .closeClient }
    else none
  | .next =>
    match p.pc with
    | .head => some { p with pc := if p.exit then .closeServer else .accept }
    | .closeClient => some { p.close p.client with pc := .head }
    | .closeServer => some { p.close p.server with pc := .dtorClient }
    | .dtorClient => some { p.close p.client with pc := .dtorServer }
    | .dtorServer => some { p.close p.server with pc := .exited }
    | _ => none

/-! ## The discipline -/

/-- At the head of the loop the parent has the descriptors it started with, and `close()` was only ever
called on a descriptor of the caller. -/
def Process.Disciplined (fds : Finset Int) (p : Process) : Prop :=
  (p.pc = .head → p.fds = fds) ∧ ∀ owned ∈ p.closes, owned = true

/-- The process before `start`: it has the listening socket, and `client_socket.sockfd`, which
`Socket::Socket()` leaves uninitialised, is any number. -/
def Process.initial (fds : Finset Int) (server client : Int) : Process :=
  { fds := fds, server := server, client := client }

/-- No `fork` succeeds; the loop is not left; and `listen` fails only where the uninitialised
`client_socket.sockfd` is by chance another descriptor of the process. -/
def Process.Sound (p : Process) : StartEvent → Prop
  | .forked ok => ok = false
  | .next => p.pc = .head → p.exit = false
  | .listened ok => ok = false → p.client ∈ p.fds ∧ p.client ≠ p.server
  | _ => True

/-- What the parent has at each place. -/
def Process.Has (fds : Finset Int) (p : Process) : StartPc → Prop
  | .listen | .head | .accept => p.fds = fds ∧ p.server ∈ fds
  | .init fd => p.fds = insert fd fds ∧ fd ∉ fds ∧ p.server ∈ fds
  | .closeClient | .fork => p.fds = insert p.client fds ∧ p.client ∉ fds ∧ p.server ∈ fds
  | .dtorClient => p.client ∈ p.fds ∧ p.server ∈ p.fds ∧ p.client ≠ p.server
  | .dtorServer => p.server ∈ p.fds
  | .closeServer => False
  | .exited => True

structure Process.Inv (fds : Finset Int) (p : Process) : Prop where
  has : p.Has fds p.pc
  closes : ∀ owned ∈ p.closes, owned = true
  children : p.children = []

theorem Process.Inv.disciplined {fds : Finset Int} {p : Process} (h : p.Inv fds) : p.Disciplined fds := by
  refine ⟨fun hp => ?_, h.closes⟩
  have hh := h.has
  rw [hp] at hh
  exact hh.1

/-- A `close` of a descriptor the parent has. -/
theorem Process.close_closes {p : Process} {fd : Int} (hc : ∀ owned ∈ p.closes, owned = true) (hf : fd ∈ p.fds) :
    ∀ owned ∈ (p.close fd).closes, owned = true := by
  intro owned ho
  rcases List.mem_append.1 ho with ho | ho
  · exact hc owned ho
  · rw [List.mem_singleton.1 ho]
    exact decide_eq_true hf

theorem Process.Inv.step {fds : Finset Int} {p q : Process} {e : StartEvent} (h : p.Inv fds) (hg : p.Sound e)
    (hs : startStep p e = some q) : q.Inv fds := by
  obtain ⟨hh, hc, hchildren⟩ := h
  cases e with
  | sigint =>
    cases hs
    refine ⟨?_, hc, hchildren⟩
    show Process.Has fds { p with exit := true } p.pc
    cases hp : p.pc <;> rw [hp] at hh <;> exact hh
  | childExit k =>
    simp only [startStep, hchildren, List.getElem?_nil] at hs
    cases hs
  | listened ok =>
    simp only [startStep] at hs
    split at hs
    · rename_i hp
      rw [hp] at hh
      cases hs
      cases ok with
      | true => exact ⟨hh, hc, hchildren⟩
      | false => exact ⟨⟨(hg rfl).1, hh.1 ▸ hh.2, (hg rfl).2⟩, hc, hchildren⟩
    · cases hs
  | accepted fd =>
    simp only [startStep] at hs
    split at hs
    · rename_i hp
      rw [hp] at hh
      split at hs
      · cases hs
        exact ⟨hh, hc, hchildren⟩
      · split at hs
        · cases hs
        · rename_i fd hfd
          cases hs
          exact ⟨⟨by rw [hh.1], by rwa [hh.1] at hfd, hh.2⟩, hc, hchildren⟩
    · cases hs
  | inited ok =>
    simp only [startStep] at hs
    split at hs
    · rename_i fd hp
      rw [hp] at hh
      cases hs
      cases ok <;> exact ⟨hh, hc, hchildren⟩
    · cases hs
  | forked ok =>
    obtain rfl : ok = false := hg
    simp only [startStep] at hs
    split at hs
    · rename_i hp
      rw [hp] at hh
      cases hs
      exact ⟨hh, hc, hchildren⟩
    · cases hs
  | next =>
    simp only [startStep] at hs
    split at hs
    · rename_i hp
      rw [hp] at hh
      rw [hg hp] at hs
      cases hs
      exact ⟨hh, hc, hchildren⟩
    · rename_i hp
      rw [hp] at hh
      obtain ⟨hfds, hnew, hserver⟩ := hh
      cases hs
      refine ⟨⟨?_, hserver⟩, Process.close_closes hc (by simp [hfds]), hchildren⟩
      simp [Process.close, hfds, Finset.erase_insert hnew]
    · rename_i hp
      rw [hp] at hh
      exact hh.elim
    · rename_i hp
      rw [hp] at hh
      obtain ⟨hclient, hserver, hne⟩ := hh
      cases hs
      exact ⟨Finset.mem_erase.2 ⟨hne.symm, hserver⟩, Process.close_closes hc hclient, hchildren⟩
    · rename_i hp
      rw [hp] at hh
      cases hs
      exact ⟨trivial, Process.close_closes hc hh, hchildren⟩
    · cases hs

/-- In every sound run the server keeps the discipline. -/
theorem start_disciplined {fds : Finset Int} {server client : Int} (hs : server ∈ fds) {p : Process}
    (h : Run startStep Process.Sound (.initial fds server client) p) : p.Disciplined fds :=
  (h.invariant (P := Process.Inv fds) ⟨⟨rfl, hs⟩, nofun, rfl⟩ fun _ _ _ hi hg hs => hi.step hg hs).disciplined

/-! ## The other steps -/

/-- The two destructors, one after the other. -/
theorem Process.destroy {p : Process} (hp : p.pc = .dtorClient) : ∃ q, Run startStep Process.Sound p q ∧
    q.closes = p.closes ++ [decide (p.client ∈ p.fds), decide (p.server ∈ p.fds.erase p.client)] := by
  have h1 : startStep p .next = some { p.close p.client with pc := .dtorServer } := by
    simp only [startStep, hp]
  have hs1 : p.Sound .next := fun hh => by
    rw [hp] at hh
    cases hh
  refine ⟨_, (Run.start.step .next hs1 h1).step .next nofun rfl, ?_⟩
  simp [Process.close]

/-- Once the loop is left, the listening socket is closed a second time. -/
theorem Process.leave {p : Process} (hp : p.pc = .closeServer) :
    ∃ q, Run startStep Process.Sound p q ∧ false ∈ q.closes := by
  have h1 : startStep p .next = some { p.close p.server with pc := .dtorClient } := by
    simp only [startStep, hp]
  have hs1 : p.Sound .next := fun hh => by
    rw [hp] at hh
    cases hh
  obtain ⟨q, hq, hcloses⟩ := Process.destroy (p := { p.close p.server with pc := .dtorClient }) rfl
  refine ⟨q, (Run.start.step .next hs1 h1).trans hq, ?_⟩
  simp [hcloses, Process.close]

/-- The condition is exact: after a step from a state that sound steps reached, everything that sound
steps reach keeps the discipline if and only if the step was sound. -/
theorem start_sound_iff {fds : Finset Int} {server client : Int} (hs : server ∈ fds) {p q : Process}
    (h : Run startStep Process.Sound (.initial fds server client) p) {e : StartEvent} (hq : startStep p e = some q) :
    (∀ r, Run startStep Process.Sound q r → r.Disciplined fds) ↔ p.Sound e := by
  have hinv : p.Inv fds :=
    h.invariant (P := Process.Inv fds) ⟨⟨rfl, hs⟩, nofun, rfl⟩ fun _ _ _ hi hg hs => hi.step hg hs
  constructor
  · intro hall
    have hh := hinv.has
    cases e with
    | forked ok =>
      cases ok with
      | false => rfl
      | true =>
        simp only [startStep] at hq
        split at hq
        · rename_i hp
          rw [hp] at hh
          cases hq
          -- the parent keeps the descriptor of the client
          have hfds := (hall _ .start).1 rfl
          simp only [hh.1] at hfds
          exact absurd (hfds ▸ Finset.mem_insert_self ..) hh.2.1
        · cases hq
    | next =>
      intro hp
      by_contra hexit
      rw [hp] at hh
      simp only [startStep, hp, Bool.not_eq_false] at hq hexit
      rw [hexit, if_pos rfl] at hq
      cases hq
      obtain ⟨r, hr, hclosed⟩ := Process.leave (p := { p with pc := .closeServer, exit := true }) rfl
      have hfalse := (hall r hr).2 false hclosed
      cases hfalse
    | listened ok =>
      rintro rfl
      simp only [startStep] at hq
      split at hq
      · rename_i hp
        rw [hp] at hh
        cases hq
        obtain ⟨r, hr, hcloses⟩ := Process.destroy (p := { p with pc := .dtorClient }) rfl
        have hall' := (hall r hr).2
        rw [hcloses] at hall'
        have h1 := hall' (decide (p.client ∈ p.fds)) (by simp)
        have h2 := hall' (decide (p.server ∈ p.fds.erase p.client)) (by simp)
        exact ⟨of_decide_eq_true h1, (Finset.ne_of_mem_erase (of_decide_eq_true h2)).symm⟩
      · cases hq
    | sigint | accepted fd | inited ok | childExit k => trivial
  · intro hg r hr
    exact start_disciplined hs ((h.step e hg hq).trans hr)

/-- What the parent and its children own at the places where they close it. -/
structure Process.Owns (p : Process) : Prop where
  new : ∀ fd, p.pc = .init fd → fd ∈ p.fds
  client : p.pc = .closeClient ∨ p.pc = .fork → p.client ∈ p.fds
  children : ∀ c ∈ p.children, c.client ∈ c.fds
  loop : p.pc ∉ [StartPc.closeServer, .dtorClient, .dtorServer]
  closes : ∀ owned ∈ p.closes, owned = true

/-- The server stays in its loop. -/
def Process.Stays (p : Process) : StartEvent → Prop
  | .next => p.pc = .head → p.exit = false
  | .listened ok => ok = true
  | _ => True

theorem Process.Owns.step {p q : Process} {e : StartEvent} (h : p.Owns) (hg : p.Stays e) (hs : startStep p e = some q) :
    q.Owns := by
  obtain ⟨hnew, hclient, hchildren, hloop, hcloses⟩ := h
  cases e with
  | sigint =>
    cases hs
    exact ⟨hnew, hclient, hchildren, hloop, hcloses⟩
  | childExit k =>
    obtain ⟨c, hc, rfl⟩ := Option.map_eq_some_iff.1 hs
    refine ⟨hnew, hclient, fun c' hc' => hchildren c' (List.mem_of_mem_eraseIdx hc'), hloop, fun owned ho => ?_⟩
    rcases List.mem_append.1 ho with ho | ho
    · exact hcloses owned ho
    · rw [List.mem_singleton.1 ho]
      exact decide_eq_true (hchildren c (List.mem_of_getElem? hc))
  | listened ok =>
    obtain rfl : ok = true := hg
    simp only [startStep] at hs
    split at hs
    · cases hs
      exact ⟨nofun, (by rintro (h | h) <;> cases h), hchildren, by simp, hcloses⟩
    · cases hs
  | accepted fd =>
    simp only [startStep] at hs
    split at hs
    · split at hs
      · cases hs
        exact ⟨nofun, (by rintro (h | h) <;> cases h), hchildren, by simp, hcloses⟩
      · split at hs
        · cases hs
        · cases hs
          refine ⟨?_, (by rintro (h | h) <;> cases h), hchildren, by simp, hcloses⟩
          rintro fd ⟨⟩
          exact Finset.mem_insert_self ..
    · cases hs
  | inited ok =>
    simp only [startStep] at hs
    split at hs
    · rename_i fd hp
      cases hs
      refine ⟨?_, fun _ => hnew fd hp, hchildren, by cases ok <;> simp, hcloses⟩
      cases ok <;> nofun
    · cases hs
  | forked ok =>
    simp only [startStep] at hs
    split at hs
    · rename_i hp
      split at hs
      · cases hs
        refine ⟨nofun, (by rintro (h | h) <;> cases h), fun c hc => ?_, by simp, hcloses⟩
        rcases List.mem_append.1 hc with hc | hc
        · exact hchildren c hc
        · rw [List.mem_singleton.1 hc]
          exact hclient (.inr hp)
      · cases hs
        exact ⟨nofun, fun _ => hclient (.inr hp), hchildren, by simp, hcloses⟩
    · cases hs
  | next =>
    simp only [startStep] at hs
    split at hs
    · rename_i hp
      rw [hg hp] at hs
      cases hs
      exact ⟨nofun, (by rintro (h | h) <;> cases h), hchildren, by simp, hcloses⟩
    · rename_i hp
      cases hs
      exact ⟨nofun, (by rintro (h | h) <;> cases h), hchildren, by simp,
        Process.close_closes hcloses (hclient (.inl hp))⟩
    · rename_i hp
      simp [hp] at hloop
    · rename_i hp
      simp [hp] at hloop
    · rename_i hp
      simp [hp] at hloop
    · cases hs

/-- While the server stays in its loop, neither it nor a child closes a descriptor that is not its own,
however many `fork`s succeed. -/
theorem loop_closes_owned {fds : Finset Int} {server client : Int} {p : Process}
    (h : Run startStep Process.Stays (.initial fds server client) p) : ∀ owned ∈ p.closes, owned = true :=
  (h.invariant (P := Process.Owns) ⟨nofun, (by rintro (h | h) <;> cases h), nofun, by simp [Process.initial], nofun⟩
    fun _ _ _ hi hg hs => hi.step hg hs).closes

/-! ## Two runs -/

instance (p : Process) (e : StartEvent) : Decidable (p.Sound e) := by
  cases e <;> unfold Process.Sound <;> infer_instance

/-- A client whose `fork` fails, after one whose `init` fails. -/
theorem start_disciplined_errors : ∃ p : Process, p.pc = .head ∧ p.client = 5 ∧ p.Disciplined {0, 1, 2, 3} := by
  have hrun : (runList startStep Process.Sound (.initial {0, 1, 2, 3} 3 77)
      [.listened true, .next, .accepted (some 4), .inited false, .next, .next, .accepted none, .next,
        .accepted (some 5), .inited true, .forked false, .next]).map (fun p => (p.pc, p.client)) = some (.head, 5) := by
    decide
  obtain ⟨p, hp, he⟩ := Option.map_eq_some_iff.1 hrun
  simp only [Prod.mk.injEq] at he
  exact ⟨p, he.1, he.2, start_disciplined (by decide) (Run.of_runList hp)⟩

/-- One client that is served: back at the head of the loop, the parent still has its descriptor. -/
theorem not_start_disciplined : ¬ ∀ (fds : Finset Int) (server client : Int), server ∈ fds →
    ∀ p, Run startStep (fun _ _ => True) (.initial fds server client) p → p.Disciplined fds := by
  intro h
  have hrun : (runList startStep (fun _ _ => True) (.initial {0, 1, 2, 3} 3 77)
      [.listened true, .next, .accepted (some 4), .inited true, .forked true, .childExit 0]).map
        (fun p => (p.pc, p.fds)) = some (.head, {0, 1, 2, 3, 4}) := by
    decide
  obtain ⟨p, hp, he⟩ := Option.map_eq_some_iff.1 hrun
  simp only [Prod.mk.injEq] at he
  have hfds := (h {0, 1, 2, 3} 3 77 (by decide) p (Run.of_runList hp)).1 he.1
  rw [he.2] at hfds
  revert hfds
  decide

end Td3.Server
