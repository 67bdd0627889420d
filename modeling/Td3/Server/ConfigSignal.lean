/-
`Server::start` (server/lib_src/server.cpp) with `HttpServer::on_start` and `sigusr1_handler`
(server/src/httpserver.cpp): the main thread's loop, with the handler of SIGUSR1 between any two steps of
it, in the main thread or in the sensor thread.

The flag is tested before `accept()` is entered, and only a handler in the main thread ends an `accept()`
that blocks.
-/
import Td3.Lib.Run
import Mathlib.Tactic

namespace Td3.Server

/-! ## The source functions -/

/-- The main thread in `Server::start`: before the test of `exit`; in `on_start` before the test of the flag,
before it is cleared and before `update_configuration`; inside that; before `accept()`; inside it; with a new
client. -/
inductive LoopPc where
  | loop
  | testFlag
  | clearFlag
  | callUpdate
  | update
  | accept
  | blocked
  | newClient
deriving DecidableEq, Repr

/-- The threads that do not block SIGUSR1 -/
inductive HandlerThread where
  | main
  | sensor
deriving DecidableEq, Repr

/-- The flags, and of each client accepted whether an update was owed to it: whether a handler of SIGUSR1
had run since the last `update_configuration` began. -/
structure ServerLoop where
  pc : LoopPc := .loop
  flagUpdateConf : Bool := true
  exit : Bool := false
  owed : Bool := false
  clients : List Bool := []
deriving DecidableEq, Repr

/-- A step of the main thread; an `accept()` that gets a client, or fails; a handler. -/
inductive LoopAct where
  | main
  | client
  | acceptFails
  | sigusr1 (thread : HandlerThread)
  | sigint (thread : HandlerThread)
deriving DecidableEq, Repr

/-- Where the main thread goes on after a handler: with `EINTR` from an `accept()` of its own. -/
def ServerLoop.afterHandler (s : ServerLoop) (thread : HandlerThread) : LoopPc :=
  if thread = .main ∧ s.pc = .blocked then .loop else s.pc

/-- `HttpServer::sigusr1_handler` -/
def ServerLoop.sigusr1Handler (s : ServerLoop) (thread : HandlerThread) : ServerLoop :=
  { s with pc := s.afterHandler thread, flagUpdateConf := true, owed := true }

/-- `Server::leave` -/
def ServerLoop.leave (s : ServerLoop) (thread : HandlerThread) : ServerLoop :=
  { s with pc := s.afterHandler thread, exit := true }

def loopStep (s : ServerLoop) : LoopAct → Option ServerLoop
  | .main =>
    match s.pc with
    | .loop => if s.exit then none else some { s with pc := .testFlag }
    | .testFlag => some { s with pc := if s.flagUpdateConf then .clearFlag else .accept }
    | .clearFlag => some { s with pc := .callUpdate, flagUpdateConf := false }
    | .callUpdate => some { s with pc := .update, owed := false }
    | .update => some { s with pc := .accept }
    | .accept => some { s with pc := .blocked }
    | .blocked => none
    | .newClient => some { s with pc := .loop }
  | .client => if s.pc = .blocked then some { s with pc := .newClient, clients := s.clients ++ [s.owed] } else none
  | .acceptFails => if s.pc = .blocked then some { s with pc := .loop } else none
  | .sigusr1 thread => some (s.sigusr1Handler thread)
  | .sigint thread => some (s.leave thread)

/-! ## No signal left waiting -/

/-- Inside `accept()` the flag is down, and no client was accepted to which an update was owed. -/
def ServerLoop.Notified (s : ServerLoop) : Prop :=
  (s.pc = .blocked → s.flagUpdateConf = false) ∧ ∀ owed ∈ s.clients, owed = false

instance (s : ServerLoop) : Decidable s.Notified := inferInstanceAs (Decidable (_ ∧ _))

/-- From the clearing, or the test, of the flag on until `accept()` has returned -/
def LoopPc.committed : LoopPc → Bool
  | .callUpdate | .update | .accept | .blocked => true
  | _ => false

/-- A handler of SIGUSR1 runs before the flag is tested or cleared, or ends the `accept()`. -/
def ServerLoop.InTime (s : ServerLoop) : LoopAct → Prop
  | .sigusr1 thread => s.pc.committed = true → s.pc = .blocked ∧ thread = .main
  | _ => True

instance (s : ServerLoop) (a : LoopAct) : Decidable (s.InTime a) := by
  cases a <;> unfold ServerLoop.InTime <;> infer_instance

/-- The flag is down where the loop goes on to `accept()`, and up while an update is owed; only before
`update_configuration` it is down already. -/
structure ServerLoop.Inv (s : ServerLoop) : Prop where
  flag : s.pc.committed = true → s.flagUpdateConf = false
  owed : s.owed = true → s.pc ≠ .callUpdate → s.flagUpdateConf = true
  clients : ∀ owed ∈ s.clients, owed = false

theorem ServerLoop.Inv.notified {s : ServerLoop} (h : s.Inv) : s.Notified :=
  ⟨fun hb => h.flag (by rw [hb]; rfl), h.clients⟩

theorem ServerLoop.Inv.init : ServerLoop.Inv {} := ⟨nofun, nofun, nofun⟩

/-- A handler takes the main thread to no place where the flag has to be down. -/
theorem ServerLoop.afterHandler_committed {s : ServerLoop} {thread : HandlerThread}
    (h : (s.afterHandler thread).committed = true) :
    s.afterHandler thread = s.pc ∧ ¬ (thread = .main ∧ s.pc = .blocked) := by
  unfold ServerLoop.afterHandler at h ⊢
  split at h
  · cases h
  · rename_i hne
    rw [if_neg hne]
    exact ⟨rfl, hne⟩

theorem ServerLoop.afterHandler_callUpdate {s : ServerLoop} {thread : HandlerThread}
    (h : s.afterHandler thread ≠ .callUpdate) : s.pc ≠ .callUpdate := by
  intro hpc
  apply h
  unfold ServerLoop.afterHandler
  rw [if_neg (by rw [hpc]; nofun), hpc]

theorem ServerLoop.Inv.main {s t : ServerLoop} (h : s.Inv) (hs : loopStep s .main = some t) : t.Inv := by
  obtain ⟨hflag, howed, hclients⟩ := h
  unfold loopStep at hs
  cases hpc : s.pc with
  | loop =>
    simp only [hpc] at hs hflag howed
    split at hs
    · cases hs
    · cases hs
      exact ⟨nofun, fun ho _ => howed ho nofun, hclients⟩
  | testFlag =>
    simp only [hpc, Option.some.injEq] at hs hflag howed
    subst hs
    refine ⟨fun hc => ?_, fun ho _ => howed ho nofun, hclients⟩
    cases hf : s.flagUpdateConf with
    | false => rfl
    | true =>
      simp only [hf, if_true] at hc
      cases hc
  | clearFlag =>
    simp only [hpc, Option.some.injEq] at hs
    subst hs
    exact ⟨fun _ => rfl, fun _ hne => absurd rfl hne, hclients⟩
  | callUpdate =>
    simp only [hpc, Option.some.injEq] at hs hflag
    subst hs
    exact ⟨fun _ => hflag rfl, nofun, hclients⟩
  | update | accept =>
    simp only [hpc, Option.some.injEq] at hs hflag howed
    subst hs
    exact ⟨fun _ => hflag rfl, fun ho _ => howed ho nofun, hclients⟩
  | blocked =>
    simp only [hpc] at hs
    cases hs
  | newClient =>
    simp only [hpc, Option.some.injEq] at hs howed
    subst hs
    exact ⟨nofun, fun ho _ => howed ho nofun, hclients⟩

theorem ServerLoop.Inv.step {s t : ServerLoop} (h : s.Inv) {a : LoopAct} (hg : s.InTime a)
    (hs : loopStep s a = some t) : t.Inv := by
  cases a with
  | main => exact h.main hs
  | client =>
    simp only [loopStep, Option.ite_none_right_eq_some] at hs
    obtain ⟨hb, hs⟩ := hs
    cases hs
    have hdown : s.flagUpdateConf = false := h.flag (by rw [hb]; rfl)
    -- with the flag down every signal has had its update
    have hnone : s.owed = false := by
      cases ho : s.owed with
      | false => rfl
      | true =>
        have hup := h.owed ho (by rw [hb]; nofun)
        rw [hdown] at hup
        cases hup
    refine ⟨nofun, fun ho _ => h.owed ho (by rw [hb]; nofun), fun owed hmem => ?_⟩
    rcases List.mem_append.1 hmem with hmem | hmem
    · exact h.clients owed hmem
    · rw [List.mem_singleton.1 hmem, hnone]
  | acceptFails =>
    simp only [loopStep, Option.ite_none_right_eq_some] at hs
    obtain ⟨hb, hs⟩ := hs
    cases hs
    exact ⟨nofun, fun ho _ => h.owed ho (by rw [hb]; nofun), h.clients⟩
  | sigusr1 thread =>
    cases hs
    refine ⟨fun hc => ?_, fun _ _ => rfl, h.clients⟩
    obtain ⟨hpc, hne⟩ := ServerLoop.afterHandler_committed hc
    have hc : s.pc.committed = true := hpc ▸ hc
    obtain ⟨hb, hmain⟩ := hg hc
    exact absurd ⟨hmain, hb⟩ hne
  | sigint thread =>
    cases hs
    refine ⟨fun hc => ?_, fun ho hne => h.owed ho (ServerLoop.afterHandler_callUpdate hne), h.clients⟩
    have hpc := (ServerLoop.afterHandler_committed hc).1
    exact h.flag (hpc ▸ hc)

/-! ## A signal that comes late -/

/-- From the clearing of the flag on the main thread comes to block, whatever the flag then says. -/
theorem ServerLoop.blocks {s : ServerLoop} (h : s.pc.committed = true) :
    ∃ u, Run loopStep ServerLoop.InTime s u ∧ u.pc = .blocked ∧ u.flagUpdateConf = s.flagUpdateConf := by
  have step : ∀ {t u : ServerLoop}, loopStep t .main = some u → Run loopStep ServerLoop.InTime t u :=
    fun hs => Run.start.step .main trivial hs
  have haccept : ∀ t : ServerLoop, t.pc = .accept → loopStep t .main = some { t with pc := .blocked } := by
    intro t ht
    simp only [loopStep, ht]
  have hupdate : ∀ t : ServerLoop, t.pc = .update → loopStep t .main = some { t with pc := .accept } := by
    intro t ht
    simp only [loopStep, ht]
  cases hpc : s.pc with
  | callUpdate =>
    have hcall : loopStep s .main = some { s with pc := .update, owed := false } := by simp only [loopStep, hpc]
    exact ⟨_, ((step hcall).trans (step (hupdate _ rfl))).trans (step (haccept _ rfl)), rfl, rfl⟩
  | update => exact ⟨_, (step (hupdate s hpc)).trans (step (haccept _ rfl)), rfl, rfl⟩
  | accept => exact ⟨_, step (haccept s hpc), rfl, rfl⟩
  | blocked => exact ⟨s, .start, hpc, rfl⟩
  | loop | testFlag | clearFlag | newClient =>
    rw [hpc] at h
    cases h

/-- A handler that is not in time leaves its signal waiting: the loop goes on into `accept()`, with the flag
up. -/
theorem ServerLoop.not_notified_of_late {s : ServerLoop} {a : LoopAct} (hg : ¬ s.InTime a) :
    ∃ t u, loopStep s a = some t ∧ Run loopStep ServerLoop.InTime t u ∧ ¬ u.Notified := by
  cases a with
  | main | client | acceptFails | sigint => exact absurd trivial hg
  | sigusr1 thread =>
    simp only [ServerLoop.InTime, Classical.not_imp, not_and] at hg
    obtain ⟨hc, hlate⟩ := hg
    have hpc : s.afterHandler thread = s.pc := by
      unfold ServerLoop.afterHandler
      exact if_neg fun hb => hlate hb.2 hb.1
    obtain ⟨u, hrun, hb, hflag⟩ := ServerLoop.blocks (s := s.sigusr1Handler thread) (by
      show (s.afterHandler thread).committed = true
      rw [hpc]
      exact hc)
    refine ⟨_, u, rfl, hrun, fun hn => ?_⟩
    have hdown := hn.1 hb
    rw [hflag] at hdown
    cases hdown

/-- In every run whose handlers of SIGUSR1 are in time no signal is left waiting and every client gets the
update that is owed; and any other handler, after such a run, leads to an `accept()` with the flag up. -/
theorem notified_of_inTime {s : ServerLoop} (hrun : Run loopStep ServerLoop.InTime {} s) :
    s.Notified ∧ ∀ a, ¬ s.InTime a →
      ∃ t u, loopStep s a = some t ∧ Run loopStep ServerLoop.InTime t u ∧ ¬ u.Notified := by
  have hinv : s.Inv := hrun.invariant .init fun _ _ _ h hg hs => h.step hg hs
  exact ⟨hinv.notified, fun _ hg => ServerLoop.not_notified_of_late hg⟩

/-! ## Two runs -/

/-- The first update, a signal while `accept()` blocks, its update, a client -/
theorem notified_client :
    ∃ s, Run loopStep ServerLoop.InTime {} s ∧ s.clients = [false] ∧ s.Notified := by
  have hrun : runList loopStep ServerLoop.InTime {} (List.replicate 6 .main ++ .sigusr1 .main ::
      List.replicate 6 .main ++ [.client]) = some { pc := .newClient, flagUpdateConf := false, clients := [false] } := by
    decide
  exact ⟨_, .of_runList hrun, rfl, (notified_of_inTime (.of_runList hrun)).1⟩

/-- A signal between the test of the flag and `accept()`: the client is served without the update. -/
theorem not_notified : ¬ ∀ s, Run loopStep (fun _ _ => True) {} s → s.Notified := by
  intro h
  have hrun : runList loopStep (fun _ _ => True) {} (List.replicate 5 .main ++ [.sigusr1 .main, .main, .client]) =
      some { pc := .newClient, flagUpdateConf := true, owed := true, clients := [true] } := by
    decide
  exact absurd (h _ (.of_runList hrun)) (by decide)

end Td3.Server
