/-
`__scheduler_add_task` (kernel/scheduler.c) load by load and store by store, in any number of tasks,
with a tick possible before each of them: `SVC_handler` runs it with IRQs enabled. A tick between the
first and the last of the four stores dispatches a context that is partly the idle task's and partly
the new one's before the call can go on; and a slot that two calls found free is used by both. Where
neither happens, adding a task is atomic.
-/
import Td3.Kernel.Ticks
import Td3.Lib.Run

namespace Td3.Kernel

open Arm

/-! ## The words of a context that `__scheduler_add_task` writes -/

inductive Field where
  | pc
  | spsr
  | sp
  | table1Addr
deriving DecidableEq, Repr

/-- The word of the context that holds it. -/
def Field.word : Field → Nat
  | pc => 18
  | spsr => 2
  | sp => 16
  | table1Addr => 0

/-- The order of the stores. -/
def Field.rank : Field → Nat
  | pc => 0
  | spsr => 1
  | sp => 2
  | table1Addr => 3

/-- The arguments of `scheduler_add_task`. -/
structure AddArgs where
  entrypoint : Word
  stackTop : Word
  table1Addr : Word

/-- What the call stores. -/
def AddArgs.value (args : AddArgs) : Field → Word
  | .pc => args.entrypoint + 4
  | .spsr => if args.entrypoint.toNat % 2 = 1 then USR_MODE.setWidth 32 ||| T_BIT else USR_MODE.setWidth 32
  | .sp => args.stackTop
  | .table1Addr => args.table1Addr

/-- Whose context a word is of: the idle task's, that of a task added before the scheduler was
started, or that of the task a call adds. -/
inductive Owner where
  | idle
  | loaded
  | added (call : Nat)
deriving DecidableEq, Repr

/-- Where a word of a context comes from: stored for its owner, or saved when a tick interrupted
it. -/
structure Source where
  owner : Owner
  saved : Bool
deriving DecidableEq, Repr

/-! ## The calls and the ticks -/

/-- What a call does next: it loads the pc of its slot, stores a field of it, or returns. -/
inductive Next where
  | check
  | store (field : Field)
  | ret (value : Word)
deriving DecidableEq, Repr

/-- A call of `__scheduler_add_task` on its way; `slot` is its `i`. -/
structure AddCall where
  id : Nat
  caller : Owner
  args : AddArgs
  slot : Nat
  next : Next

/-- The contexts and the calls. `source`, `running`, `dispatched` and the numbers of the calls are
there to speak about them: whose the words of the contexts are, whose code runs, where what the last
dispatch loaded comes from. -/
structure Sched where
  mem : Nat → Word
  source : Nat → Field → Source
  current : Nat
  running : Owner
  ttbr0 : Word
  calls : Nat → Option AddCall
  dispatched : Field → Source
  begun : Nat
  returned : List AddCall

inductive SchedAction where
  | call (args : AddArgs)
  | step
  | tick (pc spsr sp : Word)

/-- What comes after a store. -/
def Field.next : Field → Next
  | .pc => .store .spsr
  | .spsr => .store .sp
  | .sp => .store .table1Addr
  | .table1Addr => .ret 0

section
variable (L : Layout) (sym : Symbols)

namespace Sched

def setCall (s : Sched) (c : Option AddCall) : Sched := { s with calls := Function.update s.calls s.current c }

/-- A store of `f` of the slot of the call. -/
def store (s : Sched) (c : AddCall) (f : Field) : Sched :=
  { s with
    mem := Function.update s.mem (L.word c.slot f.word) (c.args.value f)
    source := Function.update s.source c.slot (Function.update (s.source c.slot) f ⟨.added c.id, false⟩) }

/-- The next load, store or return of the call of the running task. -/
def addStep (s : Sched) (c : AddCall) : Sched :=
  match c.next with
  | .check =>
    if c.slot < SCHEDULER_MAX_TASKS then
      if s.mem (L.word c.slot 18) = sym.prvIdleTask + 4 then s.setCall (some { c with next := .store .pc })
      else s.setCall (some { c with slot := c.slot + 1 })
    else s.setCall (some { c with next := .ret 1 })
  | .store f => (s.store L c f).setCall (some { c with next := f.next })
  | .ret value => { s.setCall none with returned := if value = 0 then c :: s.returned else s.returned }

/-- `IRQ_handler` saves the interrupted task in the slot that was current and loads the next one. -/
def save (s : Sched) (pc spsr sp : Word) : Sched :=
  let mem := Function.update s.mem (L.word s.current Field.pc.word) pc
  let mem := Function.update mem (L.word s.current Field.spsr.word) spsr
  let mem := Function.update mem (L.word s.current Field.sp.word) sp
  { s with
    mem := Function.update mem (L.word s.current Field.table1Addr.word) s.ttbr0
    source := Function.update s.source s.current fun _ => ⟨s.running, true⟩ }

/-- A call goes on if the context dispatched is that of its caller. -/
def dispatch (s : Sched) (slot : Nat) : Sched :=
  let owner := (s.source slot .pc).owner
  { s with
    current := slot
    running := owner
    ttbr0 := s.mem (L.word slot 0)
    calls := Function.update s.calls slot ((s.calls slot).filter fun c => c.caller = owner)
    dispatched := s.source slot }

def nextSlot (slot : Nat) : Nat := if slot + 1 = SCHEDULER_MAX_TASKS then 0 else slot + 1

/-- The running task calls `scheduler_add_task`, its call does its next step, or a tick interrupts it.
The idle task does not call, and the pc that is saved is an address, its bit 0 clear. -/
def step (s : Sched) : SchedAction → Option Sched
  | .call args =>
    if s.running = .idle then none
    else match s.calls s.current with
      | some _ => none
      | none => some { s.setCall (some ⟨s.begun, s.running, args, 0, .check⟩) with begun := s.begun + 1 }
  | .step => (s.calls s.current).map (s.addStep L sym)
  | .tick pc spsr sp => if pc.getLsbD 0 then none else some ((s.save L pc spsr sp).dispatch L (nextSlot s.current))

/-- The contexts of `mem` once the first of them is dispatched. -/
def start (mem : Nat → Word) : Sched :=
  let source slot (_ : Field) : Source :=
    if mem (L.word slot 18) = sym.prvIdleTask + 4 then ⟨.idle, false⟩ else ⟨.loaded, false⟩
  { mem := mem
    source := source
    current := 0
    running := (source 0 .pc).owner
    ttbr0 := mem (L.word 0 0)
    calls := fun _ => none
    dispatched := source 0
    begun := 0
    returned := [] }

end Sched

/-- The memory before the scheduler is started: `__scheduler_init`, then calls of
`__scheduler_add_task` for other tasks than the idle one. -/
inductive Loaded : (Nat → Word) → Prop where
  | init (mem : Nat → Word) : Loaded (schedulerInit L sym mem)
  | add {mem : Nat → Word} (args : AddArgs) (h : Loaded mem) (hidle : args.entrypoint ≠ sym.prvIdleTask) :
    Loaded (schedulerAddTask L sym args.entrypoint args.stackTop args.table1Addr mem).2

end

section
variable {L : Layout} {sym : Symbols}

theorem word_eq {i j a b : Nat} (ha : a < contextWords) (hb : b < contextWords) :
    L.word i a = L.word j b ↔ i = j ∧ a = b := by
  unfold Layout.word
  unfold contextWords at *
  omega

theorem word_inj {i j : Nat} {f g : Field} : L.word i f.word = L.word j g.word ↔ i = j ∧ f = g := by
  rw [word_eq (by cases f <;> decide) (by cases g <;> decide)]
  refine and_congr_right fun _ => ⟨fun h => ?_, congrArg Field.word⟩
  cases f <;> cases g <;> first | rfl | exact absurd h (by decide)

/-- What `__scheduler_init` stores. -/
def idleValue (sym : Symbols) : Field → Word
  | .pc => sym.prvIdleTask + 4
  | .spsr => SYS_MODE.setWidth 32 ||| T_BIT
  | .sp => sym.stackIdleTask
  | .table1Addr => sym.kernelTable1Addr

theorem initContext_field (mem : Nat → Word) (i j : Nat) (f : Field) :
    initContext L sym mem i (L.word j f.word) = if j = i then idleValue sym f else mem (L.word j f.word) := by
  have hword {b : Nat} (hb : b < contextWords) : L.word j f.word = L.word i b ↔ j = i ∧ f.word = b :=
    word_eq (by cases f <;> decide) hb
  simp (disch := decide) only [initContext, Function.update_apply, hword]
  by_cases h : j = i
  · cases f <;> simp [h, Field.word, idleValue]
  · simp [h]

theorem schedulerInit_field {mem : Nat → Word} {slot : Nat} (hs : slot < SCHEDULER_MAX_TASKS) (f : Field) :
    schedulerInit L sym mem (L.word slot f.word) = idleValue sym f := by
  have h (n : Nat) (hn : slot < n) :
      (List.range n).foldl (initContext L sym) mem (L.word slot f.word) = idleValue sym f := by
    induction n with
    | zero => omega
    | succ n ih =>
      rw [List.range_succ, List.foldl_append, List.foldl_cons, List.foldl_nil, initContext_field]
      split_ifs with heq
      · rfl
      · exact ih (by omega)
  exact h _ hs

/-- A call that adds another task than the idle one writes no slot that it leaves free. -/
theorem schedulerAddTask_field {args : AddArgs} (hidle : args.entrypoint ≠ sym.prvIdleTask) {mem : Nat → Word}
    {slot : Nat} (i : Nat) (hpc : (schedulerAddTaskFrom L sym args.entrypoint args.stackTop args.table1Addr mem i).2
      (L.word slot 18) = sym.prvIdleTask + 4) (f : Field) :
    (schedulerAddTaskFrom L sym args.entrypoint args.stackTop args.table1Addr mem i).2 (L.word slot f.word) =
      mem (L.word slot f.word) := by
  fun_induction schedulerAddTaskFrom L sym args.entrypoint args.stackTop args.table1Addr mem i with
  | case1 i _ _ mem1 spsr mem2 mem3 =>
    have hne : slot ≠ i := by
      rintro rfl
      have hself (g : Field) (hg : Field.pc ≠ g) : L.word slot Field.pc.word ≠ L.word slot g.word :=
        fun h => hg (word_inj.1 h).2
      have hval : mem3 (L.word slot 18) = args.entrypoint + 4 :=
        (Function.update_of_ne (hself .sp (by decide)) ..).trans
          ((Function.update_of_ne (hself .spsr (by decide)) ..).trans (Function.update_self ..))
      have hpc' : mem3 (L.word slot 18) = sym.prvIdleTask + 4 :=
        (Function.update_of_ne (hself .table1Addr (by decide)) ..).symm.trans hpc
      exact hidle ((BitVec.add_left_inj 4).1 (hval.symm.trans hpc'))
    have hkept (g : Field) : L.word slot f.word ≠ L.word i g.word := fun h => hne (word_inj.1 h).1
    exact (Function.update_of_ne (hkept .table1Addr) ..).trans ((Function.update_of_ne (hkept .sp) ..).trans
      ((Function.update_of_ne (hkept .spsr) ..).trans (Function.update_of_ne (hkept .pc) ..)))
  | case2 i _ _ ih => exact ih hpc
  | case3 => rfl

/-- Before the start, a slot that looks free is the idle task's. -/
theorem Loaded.idle {mem : Nat → Word} (h : Loaded L sym mem) {slot : Nat} (hs : slot < SCHEDULER_MAX_TASKS)
    (hpc : mem (L.word slot 18) = sym.prvIdleTask + 4) (f : Field) : mem (L.word slot f.word) = idleValue sym f := by
  induction h with
  | init mem => exact schedulerInit_field hs f
  | add args _ hidle ih =>
    have hkept := schedulerAddTask_field hidle 0 hpc
    rw [schedulerAddTask, hkept f]
    exact ih ((hkept .pc).symm.trans hpc)

end

/-! ## Atomicity -/

section
variable (L : Layout) (sym : Symbols)

namespace Sched

/-- The slot of the call holds what the call stored, or the task that was started from it. -/
def Own (s : Sched) (c : AddCall) : Prop :=
  (∀ f, s.source c.slot f = ⟨.added c.id, false⟩ ∧ s.mem (L.word c.slot f.word) = c.args.value f) ∨
    ∀ f, s.source c.slot f = ⟨.added c.id, true⟩

/-- Each call that returned 0 has its task in a slot of its own, and the last dispatch loaded a
context of one owner. -/
structure Atomic (s : Sched) : Prop where
  own : ∀ c ∈ s.returned, s.Own L c
  distinct : (s.returned.map (·.slot)).Nodup
  unmixed : ∃ owner, ∀ f, (s.dispatched f).owner = owner

/-- The tick does not fall between the first and the last store of a call, the load does not find a
slot free that another call, interrupted before its first store, has found free, and no call adds the
idle task. -/
def Undisturbed (s : Sched) : SchedAction → Prop
  | .call args => args.entrypoint ≠ sym.prvIdleTask
  | .step => ∀ c, s.calls s.current = some c → c.next = .check → s.mem (L.word c.slot 18) = sym.prvIdleTask + 4 →
      ∀ j c', s.calls j = some c' → c'.next = .store .pc → c'.slot ≠ c.slot
  | .tick .. => ∀ c f, s.calls s.current = some c → c.next = .store f → f = .pc

/-- A call of the task in slot `j` is about to store `f`. -/
def Storing (s : Sched) (j : Nat) (c : AddCall) (f : Field) : Prop := s.calls j = some c ∧ c.next = .store f

/-- What the stores of a call before that of `f` have left of its slot. -/
def Stored (s : Sched) (c : AddCall) (f : Field) : Prop :=
  ∀ g : Field, if g.rank < f.rank then
      s.source c.slot g = ⟨.added c.id, false⟩ ∧ s.mem (L.word c.slot g.word) = c.args.value g
    else (s.source c.slot g).owner = .idle

/-- The calls that have got their task into its slot. -/
def Done (s : Sched) (c : AddCall) : Prop := c ∈ s.returned ∨ ∃ j, s.calls j = some c ∧ c.next = .ret 0

structure Inv (s : Sched) : Prop where
  current : s.current < SCHEDULER_MAX_TASKS
  running : ∀ f, (s.source s.current f).owner = s.running
  caller : ∀ j c, s.calls j = some c → j < SCHEDULER_MAX_TASKS ∧ c.caller ≠ .idle ∧
    (∀ f, (s.source j f).owner = c.caller) ∧ c.args.entrypoint ≠ sym.prvIdleTask ∧ c.id < s.begun
  storing : ∀ j c f, s.Storing j c f → c.slot < SCHEDULER_MAX_TASKS ∧ s.Stored L c f
  partly : ∀ j c f, s.Storing j c f → f ≠ .pc → j = s.current
  apart : ∀ j j' c c' f f', s.Storing j c f → s.Storing j' c' f' → c.slot = c'.slot → j = j'
  oneOwner : ∀ i, i < SCHEDULER_MAX_TASKS → (∀ c f, s.Storing s.current c f → f ≠ .pc → c.slot ≠ i) →
    ∃ source, ∀ f, s.source i f = source
  free : ∀ i, i < SCHEDULER_MAX_TASKS → s.mem (L.word i 18) = sym.prvIdleTask + 4 →
    s.source i .pc = ⟨.idle, false⟩
  done : ∀ c, s.Done c → c.slot < SCHEDULER_MAX_TASKS ∧ s.Own L c
  returned : ∀ c ∈ s.returned, c.id < s.begun ∧ ∀ j c', s.calls j = some c' → c'.id ≠ c.id
  ids : ∀ j j' c c', s.calls j = some c → s.calls j' = some c' → c.id = c'.id → j = j'
  distinct : (s.returned.map (·.id)).Nodup
  unmixed : ∃ owner, ∀ f, (s.dispatched f).owner = owner

end Sched

end

/-! ## One step -/

namespace Sched

section
variable {L : Layout} {sym : Symbols} {s : Sched}

theorem calls_setCall {c : Option AddCall} {j : Nat} {c' : AddCall} :
    (s.setCall c).calls j = some c' ↔ (j = s.current ∧ c = some c') ∨ (j ≠ s.current ∧ s.calls j = some c') := by
  rw [setCall]
  dsimp only
  by_cases h : j = s.current
  · rw [h, Function.update_self]
    simp
  · rw [Function.update_of_ne h]
    simp [h]

theorem Inv.start (mem : Nat → Word) : Inv L sym (start L sym mem) where
  current := show 0 < SCHEDULER_MAX_TASKS by decide
  running f := rfl
  caller j c h := nomatch h
  storing j c f h := nomatch h.1
  partly j c f h := nomatch h.1
  apart j j' c c' f f' h := nomatch h.1
  oneOwner i _ _ := ⟨_, fun _ => rfl⟩
  free i _ h := if_pos h
  done c h := by
    rcases h with h | ⟨j, h, -⟩
    · cases h
    · cases h
  returned c h := nomatch h
  ids j j' c c' h := nomatch h
  distinct := .nil
  unmixed := ⟨((Sched.start L sym mem).source 0 .pc).owner, fun _ => rfl⟩

/-- A task that calls `scheduler_add_task`. -/
theorem Inv.call (h : Inv L sym s) {args : AddArgs} (hidle : args.entrypoint ≠ sym.prvIdleTask)
    (hrunning : s.running ≠ .idle) (hnone : s.calls s.current = none) :
    Inv L sym { s.setCall (some ⟨s.begun, s.running, args, 0, .check⟩) with begun := s.begun + 1 } := by
  have hcalls {j : Nat} {c : AddCall} (hc : (s.setCall (some ⟨s.begun, s.running, args, 0, .check⟩)).calls j = some c) :
      (j = s.current ∧ c = ⟨s.begun, s.running, args, 0, .check⟩) ∨ s.calls j = some c := by
    rcases calls_setCall.1 hc with ⟨hj, hc⟩ | ⟨-, hc⟩
    · exact .inl ⟨hj, (Option.some.inj hc).symm⟩
    · exact .inr hc
  have hstoring {j : Nat} {c : AddCall} {f : Field}
      (hc : (s.setCall (some ⟨s.begun, s.running, args, 0, .check⟩)).Storing j c f) : s.Storing j c f := by
    rcases hcalls hc.1 with ⟨-, rfl⟩ | hc'
    · exact nomatch hc.2
    · exact ⟨hc', hc.2⟩
  constructor
  case current => exact h.current
  case running => exact h.running
  case caller =>
    intro j c hc
    rcases hcalls hc with ⟨rfl, rfl⟩ | hc
    · exact ⟨h.current, hrunning, h.running, hidle, Nat.lt_succ_self _⟩
    · obtain ⟨h1, h2, h3, h4, h5⟩ := h.caller j c hc
      exact ⟨h1, h2, h3, h4, Nat.lt_succ_of_lt h5⟩
  case storing => exact fun j c f hc => h.storing j c f (hstoring hc)
  case partly => exact fun j c f hc => h.partly j c f (hstoring hc)
  case apart => exact fun j j' c c' f f' hc hc' => h.apart j j' c c' f f' (hstoring hc) (hstoring hc')
  case oneOwner =>
    intro i hi _
    apply h.oneOwner i hi
    intro c f hc
    rw [Storing, hnone] at hc
    exact nomatch hc.1
  case free => exact h.free
  case done =>
    rintro c (hc | ⟨j, hc, hret⟩)
    · exact h.done c (.inl hc)
    · rcases hcalls hc with ⟨-, rfl⟩ | hc
      · exact nomatch hret
      · exact h.done c (.inr ⟨j, hc, hret⟩)
  case returned =>
    intro c hc
    obtain ⟨hlt, hne⟩ := h.returned c hc
    refine ⟨Nat.lt_succ_of_lt hlt, fun j c' hc' => ?_⟩
    rcases hcalls hc' with ⟨-, rfl⟩ | hc'
    · exact Nat.ne_of_gt hlt
    · exact hne j c' hc'
  case ids =>
    intro j j' c c' hc hc' hid
    rcases hcalls hc with ⟨rfl, rfl⟩ | hc
    · rcases hcalls hc' with ⟨rfl, rfl⟩ | hc'
      · rfl
      · exact absurd hid (Nat.ne_of_gt (h.caller j' c' hc').2.2.2.2)
    · rcases hcalls hc' with ⟨rfl, rfl⟩ | hc'
      · exact absurd hid (Nat.ne_of_lt (h.caller j c hc).2.2.2.2)
      · exact h.ids j j' c c' hc hc' hid
  case distinct => exact h.distinct
  case unmixed => exact h.unmixed

/-- The load of a pc, or what follows the last one. -/
theorem Inv.check (h : Inv L sym s) {c c' : AddCall} (hc : s.calls s.current = some c) (hcheck : c.next = .check)
    (hid : c'.id = c.id) (hcaller : c'.caller = c.caller) (hargs : c'.args = c.args) (hret : c'.next ≠ .ret 0)
    (hstore : ∀ f, c'.next = .store f → f = .pc ∧ c'.slot < SCHEDULER_MAX_TASKS ∧
      (∀ g, (s.source c'.slot g).owner = .idle) ∧ ∀ j d f', s.Storing j d f' → d.slot ≠ c'.slot) :
    Inv L sym (s.setCall (some c')) := by
  have hcalls {j : Nat} {d : AddCall} (hd : (s.setCall (some c')).calls j = some d) :
      (j = s.current ∧ d = c') ∨ s.calls j = some d := by
    rcases calls_setCall.1 hd with ⟨hj, hd⟩ | ⟨-, hd⟩
    · exact .inl ⟨hj, (Option.some.inj hd).symm⟩
    · exact .inr hd
  constructor
  case current => exact h.current
  case running => exact h.running
  case caller =>
    intro j d hd
    rcases hcalls hd with ⟨rfl, rfl⟩ | hd
    · rw [hid, hcaller, hargs]
      exact h.caller s.current c hc
    · exact h.caller j d hd
  case storing =>
    rintro j d f ⟨hd, hf⟩
    rcases hcalls hd with ⟨rfl, rfl⟩ | hd
    · obtain ⟨rfl, hlt, hidle, -⟩ := hstore f hf
      exact ⟨hlt, fun g => hidle g⟩
    · exact h.storing j d f ⟨hd, hf⟩
  case partly =>
    rintro j d f ⟨hd, hf⟩ hne
    rcases hcalls hd with ⟨rfl, -⟩ | hd
    · rfl
    · exact h.partly j d f ⟨hd, hf⟩ hne
  case apart =>
    rintro j j' d d' f f' ⟨h1, hf⟩ ⟨h2, hf'⟩ hslot
    rcases hcalls h1 with ⟨rfl, rfl⟩ | hd
    · rcases hcalls h2 with ⟨rfl, rfl⟩ | hd'
      · rfl
      · exact absurd hslot.symm ((hstore f hf).2.2.2 j' d' f' ⟨hd', hf'⟩)
    · rcases hcalls h2 with ⟨rfl, rfl⟩ | hd'
      · exact absurd hslot ((hstore f' hf').2.2.2 j d f ⟨hd, hf⟩)
      · exact h.apart j j' d d' f f' ⟨hd, hf⟩ ⟨hd', hf'⟩ hslot
  case oneOwner =>
    intro i hi _
    apply h.oneOwner i hi
    rintro d f ⟨hd, hf⟩ _
    rw [hc] at hd
    rw [← Option.some.inj hd, hcheck] at hf
    exact nomatch hf
  case free => exact h.free
  case done =>
    rintro d (hd | ⟨j, hd, hret'⟩)
    · exact h.done d (.inl hd)
    · rcases hcalls hd with ⟨-, rfl⟩ | hd
      · exact absurd hret' hret
      · exact h.done d (.inr ⟨j, hd, hret'⟩)
  case returned =>
    intro d hd
    obtain ⟨hlt, hne⟩ := h.returned d hd
    refine ⟨hlt, fun j d' hd' => ?_⟩
    rcases hcalls hd' with ⟨-, rfl⟩ | hd'
    · rw [hid]
      exact hne _ c hc
    · exact hne j d' hd'
  case ids =>
    intro j j' d d' h1 h2 heq
    rcases hcalls h1 with ⟨rfl, rfl⟩ | hd
    · rcases hcalls h2 with ⟨rfl, rfl⟩ | hd'
      · rfl
      · exact h.ids _ j' c d' hc hd' (hid.symm.trans heq)
    · rcases hcalls h2 with ⟨rfl, rfl⟩ | hd'
      · exact h.ids j _ d c hd hc (heq.trans hid)
      · exact h.ids j j' d d' hd hd' heq
  case distinct => exact h.distinct
  case unmixed => exact h.unmixed

/-! ### A store -/

theorem store_source_self (c : AddCall) (f : Field) : (s.store L c f).source c.slot f = ⟨.added c.id, false⟩ := by
  rw [store]
  dsimp only
  rw [Function.update_self, Function.update_self]

theorem store_source (c : AddCall) {i : Nat} {f g : Field} (h : i = c.slot → g ≠ f) :
    (s.store L c f).source i g = s.source i g := by
  rw [store]
  dsimp only
  by_cases hi : i = c.slot
  · rw [hi, Function.update_self, Function.update_of_ne (h hi)]
  · rw [Function.update_of_ne hi]

theorem store_mem_self (c : AddCall) (f : Field) : (s.store L c f).mem (L.word c.slot f.word) = c.args.value f := by
  rw [store]
  dsimp only
  rw [Function.update_self]

theorem store_mem (c : AddCall) {i : Nat} {f g : Field} (h : i = c.slot → g ≠ f) :
    (s.store L c f).mem (L.word i g.word) = s.mem (L.word i g.word) := by
  rw [store]
  dsimp only
  rw [Function.update_of_ne]
  rw [Ne, word_inj]
  rintro ⟨hi, hg⟩
  exact h hi hg

theorem Own.store {c d : AddCall} {f : Field} (h : s.Own L d) (hne : d.slot ≠ c.slot) : (s.store L c f).Own L d := by
  rcases h with h | h
  · refine .inl fun g => ?_
    rw [store_source c fun hi => absurd hi hne, store_mem c fun hi => absurd hi hne]
    exact h g
  · refine .inr fun g => ?_
    rw [store_source c fun hi => absurd hi hne]
    exact h g

theorem Stored.store {c d : AddCall} {f f' : Field} (h : s.Stored L d f') (hne : d.slot ≠ c.slot) :
    (s.store L c f).Stored L d f' := by
  intro g
  rw [store_source c fun hi => absurd hi hne, store_mem c fun hi => absurd hi hne]
  exact h g

/-- The store of a field leaves those before it stored, and it. -/
theorem stored_after {c : AddCall} {f : Field} (h : s.Stored L c f) (g : Field) :
    if g.rank < f.rank + 1 then
      (s.store L c f).source c.slot g = ⟨.added c.id, false⟩ ∧
        (s.store L c f).mem (L.word c.slot g.word) = c.args.value g
    else ((s.store L c f).source c.slot g).owner = .idle := by
  by_cases hg : g = f
  · rw [hg, if_pos (Nat.lt_succ_self _)]
    exact ⟨store_source_self c f, store_mem_self c f⟩
  · have hrank : g.rank < f.rank + 1 ↔ g.rank < f.rank := by
      cases f <;> cases g <;> first | exact absurd rfl hg | decide
    rw [store_source c fun _ => hg, store_mem c fun _ => hg]
    simp only [hrank]
    exact h g

theorem Stored.idle {c : AddCall} {f : Field} (h : s.Stored L c f) : (s.source c.slot .table1Addr).owner = .idle := by
  have ht := h .table1Addr
  rwa [if_neg (by cases f <;> decide)] at ht

theorem Own.owner {c : AddCall} (h : s.Own L c) (f : Field) : (s.source c.slot f).owner = .added c.id := by
  rcases h with h | h
  · rw [(h f).1]
  · rw [h f]

theorem Inv.store (h : Inv L sym s) {c : AddCall} {f : Field} (hc : s.calls s.current = some c)
    (hf : c.next = .store f) : Inv L sym ((s.store L c f).setCall (some { c with next := f.next })) := by
  obtain ⟨hlt, hstored⟩ := h.storing _ c f ⟨hc, hf⟩
  obtain ⟨-, hcaller, howner, hentry, -⟩ := h.caller _ c hc
  have hcalls {j : Nat} {d : AddCall}
      (hd : ((s.store L c f).setCall (some { c with next := f.next })).calls j = some d) :
      (j = s.current ∧ d = { c with next := f.next }) ∨ (j ≠ s.current ∧ s.calls j = some d) := by
    rcases calls_setCall.1 hd with ⟨hj, hd⟩ | ⟨hj, hd⟩
    · exact .inl ⟨hj, (Option.some.inj hd).symm⟩
    · exact .inr ⟨hj, hd⟩
  -- the slot written is not one that a task or another call has
  have hcurrent : s.current ≠ c.slot := by
    intro heq
    exact hcaller ((howner .table1Addr).symm.trans (heq ▸ hstored.idle))
  have hslot {j : Nat} {d : AddCall} (hd : s.calls j = some d) : j ≠ c.slot := by
    intro heq
    obtain ⟨-, hd1, hd2, -⟩ := h.caller j d hd
    exact hd1 ((hd2 .table1Addr).symm.trans (heq ▸ hstored.idle))
  have hdone {d : AddCall} (hd : s.Done d) : d.slot ≠ c.slot := by
    intro heq
    have hidle := hstored.idle
    rw [← heq, (h.done d hd).2.owner] at hidle
    exact nomatch hidle
  have hown (hlast : f = .table1Addr) (g : Field) : (s.store L c f).source c.slot g = ⟨.added c.id, false⟩ ∧
      (s.store L c f).mem (L.word c.slot g.word) = c.args.value g := by
    have hg := stored_after hstored g
    rwa [if_pos (by rw [hlast]; cases g <;> decide)] at hg
  constructor
  case current => exact h.current
  case running =>
    intro g
    show ((s.store L c f).source s.current g).owner = s.running
    rw [store_source c fun hi => absurd hi hcurrent]
    exact h.running g
  case caller =>
    intro j d hd
    have hcase : ∃ d', s.calls j = some d' ∧ d'.caller = d.caller ∧ d'.args = d.args ∧ d'.id = d.id := by
      rcases hcalls hd with ⟨rfl, rfl⟩ | ⟨-, hd⟩
      · exact ⟨c, hc, rfl, rfl, rfl⟩
      · exact ⟨d, hd, rfl, rfl, rfl⟩
    obtain ⟨d', hd', h1, h2, h3⟩ := hcase
    rw [← h1, ← h2, ← h3]
    obtain ⟨hj, hne, ho, hrest⟩ := h.caller j d' hd'
    refine ⟨hj, hne, fun g => ?_, hrest⟩
    show ((s.store L c f).source j g).owner = _
    rw [store_source c fun hi => absurd hi (hslot hd')]
    exact ho g
  case storing =>
    rintro j d f' ⟨hd, hf'⟩
    rcases hcalls hd with ⟨rfl, rfl⟩ | ⟨hj, hd⟩
    · refine ⟨hlt, fun g => ?_⟩
      have hrank : f'.rank = f.rank + 1 := by
        cases f <;> cases hf' <;> rfl
      rw [hrank]
      exact stored_after hstored g
    · obtain ⟨hlt', hstored'⟩ := h.storing j d f' ⟨hd, hf'⟩
      refine ⟨hlt', hstored'.store fun heq => hj ?_⟩
      exact h.apart j _ d c f' f ⟨hd, hf'⟩ ⟨hc, hf⟩ heq
  case partly =>
    rintro j d f' ⟨hd, hf'⟩ hne
    rcases hcalls hd with ⟨rfl, -⟩ | ⟨-, hd⟩
    · rfl
    · exact h.partly j d f' ⟨hd, hf'⟩ hne
  case apart =>
    rintro j j' d d' f1 f2 ⟨h1, hf1⟩ ⟨h2, hf2⟩ heq
    rcases hcalls h1 with ⟨rfl, rfl⟩ | ⟨hj, hd⟩
    · rcases hcalls h2 with ⟨rfl, rfl⟩ | ⟨-, hd'⟩
      · rfl
      · exact h.apart _ j' c d' f f2 ⟨hc, hf⟩ ⟨hd', hf2⟩ heq
    · rcases hcalls h2 with ⟨rfl, rfl⟩ | ⟨-, hd'⟩
      · exact h.apart j _ d c f1 f ⟨hd, hf1⟩ ⟨hc, hf⟩ heq
      · exact h.apart j j' d d' f1 f2 ⟨hd, hf1⟩ ⟨hd', hf2⟩ heq
  case oneOwner =>
    intro i hi hpartly
    by_cases hic : i = c.slot
    · -- another store follows, or the slot is the new task's
      have hself (f' : Field) (hnext : f.next = .store f') (hne : f' ≠ .pc) : False :=
        hpartly { c with next := f.next } f' ⟨calls_setCall.2 (.inl ⟨rfl, rfl⟩), hnext⟩ hne hic.symm
      have hlast : f = .table1Addr := by
        cases f with
        | pc => exact (hself .spsr rfl (by decide)).elim
        | spsr => exact (hself .sp rfl (by decide)).elim
        | sp => exact (hself .table1Addr rfl (by decide)).elim
        | table1Addr => rfl
      rw [hic]
      exact ⟨_, fun g => (hown hlast g).1⟩
    · obtain ⟨source, hsource⟩ := h.oneOwner i hi fun d f' hd _ => by
        have heq : d = c := Option.some.inj (hd.1.symm.trans hc)
        rw [heq]
        exact fun h => hic h.symm
      refine ⟨source, fun g => ?_⟩
      show (s.store L c f).source i g = source
      rw [store_source c fun hi => absurd hi hic]
      exact hsource g
  case free =>
    intro i hi hpc
    by_cases hic : i = c.slot
    · by_cases hfpc : f = .pc
      · have hval : (s.store L c f).mem (L.word i 18) = c.args.entrypoint + 4 := by
          rw [hic, hfpc]
          exact store_mem_self c .pc
        exact absurd ((BitVec.add_left_inj 4).1 (hval.symm.trans hpc)) hentry
      · have hkept : (s.store L c f).mem (L.word i 18) = s.mem (L.word i 18) :=
          store_mem (g := .pc) c fun _ => Ne.symm hfpc
        have hsource := h.free i hi (hkept.symm.trans hpc)
        have hpcStored := hstored .pc
        rw [if_pos (by cases f <;> first | exact absurd rfl hfpc | decide), ← hic, hsource] at hpcStored
        exact nomatch hpcStored.1
    · have hkept : (s.store L c f).mem (L.word i 18) = s.mem (L.word i 18) :=
        store_mem (g := .pc) c fun hi => absurd hi hic
      show (s.store L c f).source i .pc = _
      rw [store_source c fun hi => absurd hi hic]
      exact h.free i hi (hkept.symm.trans hpc)
  case done =>
    rintro d (hd | ⟨j, hd, hret⟩)
    · obtain ⟨hd1, hd2⟩ := h.done d (.inl hd)
      exact ⟨hd1, hd2.store (hdone (.inl hd))⟩
    · rcases hcalls hd with ⟨rfl, rfl⟩ | ⟨-, hd⟩
      · have hlast : f = .table1Addr := by
          cases f with
          | pc | spsr | sp => exact nomatch hret
          | table1Addr => rfl
        exact ⟨hlt, .inl (hown hlast)⟩
      · obtain ⟨hd1, hd2⟩ := h.done d (.inr ⟨j, hd, hret⟩)
        exact ⟨hd1, hd2.store (hdone (.inr ⟨j, hd, hret⟩))⟩
  case returned =>
    intro d hd
    obtain ⟨hd1, hd2⟩ := h.returned d hd
    refine ⟨hd1, fun j d' hd' => ?_⟩
    rcases hcalls hd' with ⟨rfl, rfl⟩ | ⟨-, hd'⟩
    · exact hd2 _ c hc
    · exact hd2 j d' hd'
  case ids =>
    intro j j' d d' h1 h2 heq
    rcases hcalls h1 with ⟨rfl, rfl⟩ | ⟨-, hd⟩
    · rcases hcalls h2 with ⟨rfl, rfl⟩ | ⟨-, hd'⟩
      · rfl
      · exact h.ids _ j' c d' hc hd' heq
    · rcases hcalls h2 with ⟨rfl, rfl⟩ | ⟨-, hd'⟩
      · exact h.ids j _ d c hd hc heq
      · exact h.ids j j' d d' hd hd' heq
  case distinct => exact h.distinct
  case unmixed => exact h.unmixed

/-! ### Return and tick -/

theorem Inv.ret (h : Inv L sym s) {c : AddCall} {value : Word} (hc : s.calls s.current = some c)
    (hret : c.next = .ret value) :
    Inv L sym { s.setCall none with returned := if value = 0 then c :: s.returned else s.returned } := by
  have hcalls {j : Nat} {d : AddCall} (hd : (s.setCall none).calls j = some d) :
      j ≠ s.current ∧ s.calls j = some d := by
    rcases calls_setCall.1 hd with ⟨-, hd⟩ | hd
    · cases hd
    · exact hd
  have hmem {d : AddCall} (hd : d ∈ if value = 0 then c :: s.returned else s.returned) :
      (d = c ∧ value = 0) ∨ d ∈ s.returned := by
    split_ifs at hd with h0
    · exact (List.mem_cons.1 hd).imp_left fun hdc => ⟨hdc, h0⟩
    · exact .inr hd
  constructor
  case current => exact h.current
  case running => exact h.running
  case caller => exact fun j d hd => h.caller j d (hcalls hd).2
  case storing => exact fun j d f hd => h.storing j d f ⟨(hcalls hd.1).2, hd.2⟩
  case partly => exact fun j d f hd => h.partly j d f ⟨(hcalls hd.1).2, hd.2⟩
  case apart =>
    intro j j' d d' f f' hd hd'
    exact h.apart j j' d d' f f' ⟨(hcalls hd.1).2, hd.2⟩ ⟨(hcalls hd'.1).2, hd'.2⟩
  case oneOwner =>
    intro i hi _
    apply h.oneOwner i hi
    rintro d f ⟨hd, hf⟩ _
    rw [← Option.some.inj (hc.symm.trans hd), hret] at hf
    exact nomatch hf
  case free => exact h.free
  case done =>
    rintro d (hd | ⟨j, hd, hdret⟩)
    · rcases hmem hd with ⟨rfl, rfl⟩ | hd
      · exact h.done d (.inr ⟨_, hc, hret⟩)
      · exact h.done d (.inl hd)
    · exact h.done d (.inr ⟨j, (hcalls hd).2, hdret⟩)
  case returned =>
    intro d hd
    rcases hmem hd with ⟨rfl, -⟩ | hd
    · refine ⟨(h.caller _ d hc).2.2.2.2, fun j d' hd' heq => ?_⟩
      exact (hcalls hd').1 (h.ids j _ d' d (hcalls hd').2 hc heq)
    · obtain ⟨hlt, hne⟩ := h.returned d hd
      exact ⟨hlt, fun j d' hd' => hne j d' (hcalls hd').2⟩
  case ids => exact fun j j' d d' hd hd' => h.ids j j' d d' (hcalls hd).2 (hcalls hd').2
  case distinct =>
    dsimp only
    split_ifs
    · rw [List.map_cons, List.nodup_cons]
      refine ⟨fun hid => ?_, h.distinct⟩
      obtain ⟨d, hd, heq⟩ := List.mem_map.1 hid
      exact (h.returned d hd).2 _ c hc heq.symm
    · exact h.distinct
  case unmixed => exact h.unmixed

theorem save_owner (h : Inv L sym s) (pc spsr sp : Word) (i : Nat) (f : Field) :
    ((s.save L pc spsr sp).source i f).owner = (s.source i f).owner := by
  rw [save]
  dsimp only
  by_cases hi : i = s.current
  · rw [hi, Function.update_self, h.running]
  · rw [Function.update_of_ne hi]

theorem save_other (pc spsr sp : Word) {i : Nat} (hi : i ≠ s.current) (f : Field) :
    (s.save L pc spsr sp).source i f = s.source i f ∧
      (s.save L pc spsr sp).mem (L.word i f.word) = s.mem (L.word i f.word) := by
  have hne (g : Field) : L.word i f.word ≠ L.word s.current g.word := fun h => hi (word_inj.1 h).1
  rw [save]
  dsimp only
  rw [Function.update_of_ne hi, Function.update_of_ne (hne .table1Addr), Function.update_of_ne (hne .sp),
    Function.update_of_ne (hne .spsr), Function.update_of_ne (hne .pc)]
  exact ⟨rfl, rfl⟩

theorem save_pc (pc spsr sp : Word) : (s.save L pc spsr sp).mem (L.word s.current Field.pc.word) = pc := by
  have hne (g : Field) (hg : Field.pc ≠ g) : L.word s.current Field.pc.word ≠ L.word s.current g.word :=
    fun h => hg (word_inj.1 h).2
  rw [save]
  dsimp only
  rw [Function.update_of_ne (hne .table1Addr (by decide)), Function.update_of_ne (hne .sp (by decide)),
    Function.update_of_ne (hne .spsr (by decide)), Function.update_self]

/-- An address with bit 0 clear is not where the idle task, in Thumb state, starts. -/
theorem ne_idle_of_even (hthumb : sym.prvIdleTask.getLsbD 0 = true) {pc : Word} (hpc : pc.getLsbD 0 = false) :
    pc ≠ sym.prvIdleTask + 4 := by
  rintro rfl
  rw [BitVec.getLsbD, Nat.testBit_zero] at hthumb hpc
  rw [BitVec.toNat_add] at hpc
  have h4 : (4 : Word).toNat = 4 := rfl
  simp only [decide_eq_true_eq, decide_eq_false_iff_not] at hthumb hpc
  omega

theorem Inv.save (h : Inv L sym s) (hthumb : sym.prvIdleTask.getLsbD 0 = true) {pc spsr sp : Word}
    (hpc : pc.getLsbD 0 = false) (hguard : ∀ j c f, s.Storing j c f → f = .pc) :
    Inv L sym (s.save L pc spsr sp) := by
  constructor
  case current => exact h.current
  case running => exact fun f => (save_owner h pc spsr sp _ f).trans (h.running f)
  case caller =>
    intro j c hc
    obtain ⟨h1, h2, h3, h4⟩ := h.caller j c hc
    exact ⟨h1, h2, fun f => (save_owner h pc spsr sp j f).trans (h3 f), h4⟩
  case storing =>
    intro j c f hc
    obtain ⟨hlt, hstored⟩ := h.storing j c f hc
    obtain rfl := hguard j c f hc
    refine ⟨hlt, fun g => ?_⟩
    show ((s.save L pc spsr sp).source c.slot g).owner = .idle
    rw [save_owner h]
    exact hstored g
  case partly => exact h.partly
  case apart => exact h.apart
  case oneOwner =>
    intro i hi _
    by_cases hic : i = s.current
    · rw [hic]
      exact ⟨_, fun f => by rw [Sched.save]; dsimp only; rw [Function.update_self]⟩
    · obtain ⟨source, hsource⟩ := h.oneOwner i hi fun c f hc hne => absurd (hguard _ c f hc) hne
      exact ⟨source, fun f => (save_other pc spsr sp hic f).1.trans (hsource f)⟩
  case free =>
    intro i hi hidle
    by_cases hic : i = s.current
    · rw [hic] at hidle
      exact absurd ((save_pc pc spsr sp).symm.trans hidle) (ne_idle_of_even hthumb hpc)
    · rw [(save_other pc spsr sp hic .pc).1]
      exact h.free i hi ((save_other pc spsr sp hic .pc).2.symm.trans hidle)
  case done =>
    intro c hc
    obtain ⟨hlt, hown⟩ := h.done c hc
    refine ⟨hlt, ?_⟩
    by_cases hic : c.slot = s.current
    · refine .inr fun f => ?_
      rw [hic, Sched.save]
      dsimp only
      rw [Function.update_self, ← h.running f, ← hic, hown.owner]
    · rcases hown with hown | hown
      · refine .inl fun f => ?_
        rw [(save_other pc spsr sp hic f).1, (save_other pc spsr sp hic f).2]
        exact hown f
      · exact .inr fun f => (save_other pc spsr sp hic f).1.trans (hown f)
  case returned => exact h.returned
  case ids => exact h.ids
  case distinct => exact h.distinct
  case unmixed => exact h.unmixed

theorem Inv.dispatch (h : Inv L sym s) {slot : Nat} (hslot : slot < SCHEDULER_MAX_TASKS)
    (hguard : ∀ j c f, s.Storing j c f → f = .pc) : Inv L sym (s.dispatch L slot) := by
  have hcalls {j : Nat} {c : AddCall} (hc : (s.dispatch L slot).calls j = some c) : s.calls j = some c := by
    rw [Sched.dispatch] at hc
    dsimp only at hc
    by_cases hj : j = slot
    · rw [hj, Function.update_self, Option.filter_eq_some_iff] at hc
      rw [hj]
      exact hc.1
    · rwa [Function.update_of_ne hj] at hc
  have hsame : ∃ owner, ∀ f, (s.source slot f).owner = owner := by
    obtain ⟨source, hsource⟩ := h.oneOwner slot hslot fun c f hc hne => absurd (hguard _ c f hc) hne
    exact ⟨source.owner, fun f => by rw [hsource f]⟩
  obtain ⟨owner, howner⟩ := hsame
  constructor
  case current => exact hslot
  case running => exact fun f => (howner f).trans (howner .pc).symm
  case caller => exact fun j c hc => h.caller j c (hcalls hc)
  case storing => exact fun j c f hc => h.storing j c f ⟨hcalls hc.1, hc.2⟩
  case partly => exact fun j c f hc hne => absurd (hguard j c f ⟨hcalls hc.1, hc.2⟩) hne
  case apart =>
    intro j j' c c' f f' hc hc'
    exact h.apart j j' c c' f f' ⟨hcalls hc.1, hc.2⟩ ⟨hcalls hc'.1, hc'.2⟩
  case oneOwner =>
    intro i hi _
    exact h.oneOwner i hi fun c f hc hne => absurd (hguard _ c f hc) hne
  case free => exact h.free
  case done =>
    rintro c (hc | ⟨j, hc, hret⟩)
    · exact h.done c (.inl hc)
    · exact h.done c (.inr ⟨j, hcalls hc, hret⟩)
  case returned =>
    intro c hc
    obtain ⟨hlt, hne⟩ := h.returned c hc
    exact ⟨hlt, fun j c' hc' => hne j c' (hcalls hc')⟩
  case ids => exact fun j j' c c' hc hc' => h.ids j j' c c' (hcalls hc) (hcalls hc')
  case distinct => exact h.distinct
  case unmixed => exact ⟨owner, howner⟩

/-- A slot that a load finds free is the idle task's, whole. -/
theorem Inv.free_slot (h : Inv L sym s) {c : AddCall} (hc : s.calls s.current = some c) (hcheck : c.next = .check)
    (hlt : c.slot < SCHEDULER_MAX_TASKS) (hfree : s.mem (L.word c.slot 18) = sym.prvIdleTask + 4) (f : Field) :
    (s.source c.slot f).owner = .idle := by
  obtain ⟨source, hsource⟩ := h.oneOwner c.slot hlt fun d f hd _ => by
    have hnext := hd.2
    rw [← Option.some.inj (hc.symm.trans hd.1), hcheck] at hnext
    exact nomatch hnext
  rw [hsource f, ← hsource .pc, h.free c.slot hlt hfree]

theorem Inv.addStep (h : Inv L sym s) {c : AddCall} (hc : s.calls s.current = some c)
    (hguard : s.Undisturbed L sym .step) : Inv L sym (s.addStep L sym c) := by
  rw [Sched.addStep]
  cases hnext : c.next with
  | store f => exact h.store hc hnext
  | ret value => exact h.ret hc hnext
  | check =>
    dsimp only
    split_ifs with hlt hfree
    · refine h.check hc hnext rfl rfl rfl (by simp) fun f hf => ?_
      obtain rfl : Field.pc = f := by simpa using hf
      have hidle := h.free_slot hc hnext hlt hfree
      refine ⟨rfl, hlt, hidle, fun j d f' hd => ?_⟩
      by_cases hpc : f' = .pc
      · exact hguard c hc hnext hfree j d hd.1 (hpc ▸ hd.2)
      · -- a call past its first store is that of the running task
        have hcurrent := h.partly j d f' hd hpc
        have hd' := hd.1
        rw [hcurrent, hc] at hd'
        have hnext' := hd.2
        rw [← Option.some.inj hd', hnext] at hnext'
        exact nomatch hnext'
    · exact h.check hc hnext rfl rfl rfl (by simp) fun f hf => nomatch hf
    · exact h.check hc hnext rfl rfl rfl (by simp) fun f hf => nomatch hf

theorem nextSlot_lt {slot : Nat} (h : slot < SCHEDULER_MAX_TASKS) : nextSlot slot < SCHEDULER_MAX_TASKS := by
  unfold nextSlot
  split_ifs
  · decide
  · omega

theorem Inv.step (h : Inv L sym s) (hthumb : sym.prvIdleTask.getLsbD 0 = true) {a : SchedAction} {t : Sched}
    (hguard : s.Undisturbed L sym a) (hstep : s.step L sym a = some t) : Inv L sym t := by
  cases a with
  | call args =>
    rw [Sched.step] at hstep
    split_ifs at hstep with hidle
    cases hcall : s.calls s.current with
    | some c =>
      rw [hcall] at hstep
      cases hstep
    | none =>
      rw [hcall] at hstep
      cases hstep
      exact h.call hguard hidle hcall
  | step =>
    obtain ⟨c, hc, rfl⟩ := Option.map_eq_some_iff.1 hstep
    exact h.addStep hc hguard
  | tick pc spsr sp =>
    rw [Sched.step] at hstep
    split_ifs at hstep with hpc
    cases hstep
    have hpcs : ∀ j c f, s.Storing j c f → f = .pc := by
      intro j c f hc
      by_contra hne
      have hcurrent := h.partly j c f hc hne
      exact hne (hguard c f (hcurrent ▸ hc.1) hc.2)
    exact (h.save hthumb (by simpa using hpc) hpcs).dispatch (nextSlot_lt h.current) hpcs

theorem Inv.atomic (h : Inv L sym s) : s.Atomic L where
  own c hc := (h.done c (.inl hc)).2
  unmixed := h.unmixed
  distinct := by
    have hids := h.distinct
    rw [List.nodup_map_iff_inj_on (List.Nodup.of_map _ hids)] at hids
    rw [List.nodup_map_iff_inj_on (List.Nodup.of_map _ h.distinct)]
    intro c hc d hd hslot
    apply hids c hc d hd
    have hcown := (h.done c (.inl hc)).2.owner .pc
    have hdown := (h.done d (.inl hd)).2.owner .pc
    rw [hslot, hdown] at hcown
    injection hcown.symm

/-! ## A call without a tick -/

/-- The running task is in the call `c`, and no other task is in one. -/
def Alone (s : Sched) (c : AddCall) : Prop := s.calls s.current = some c ∧ ∀ j, j ≠ s.current → s.calls j = none

theorem Alone.undisturbed {c : AddCall} (h : s.Alone c) : s.Undisturbed L sym .step := by
  intro d hd hcheck _ j d' hd' hstore
  by_cases hj : j = s.current
  · rw [hj, hd] at hd'
    rw [← Option.some.inj hd', hcheck] at hstore
    cases hstore
  · rw [h.2 j hj] at hd'
    cases hd'

theorem Alone.setCall {c c' : AddCall} (h : s.Alone c) : (s.setCall (some c')).Alone c' := by
  refine ⟨calls_setCall.2 (.inl ⟨rfl, rfl⟩), fun j hj => ?_⟩
  have hne : j ≠ s.current := hj
  show Function.update s.calls s.current (some c') j = none
  rw [Function.update_of_ne hne]
  exact h.2 j hne

theorem Alone.run {c : AddCall} (h : s.Alone c) :
    Run (Sched.step L sym) (Sched.Undisturbed L sym) s (s.addStep L sym c) := by
  refine Run.step .step .start h.undisturbed ?_
  rw [Sched.step, h.1]
  rfl

/-- The stores of a call one after the other. -/
theorem Alone.run_stores {c : AddCall} (h : s.Alone c) (hnext : c.next = .store .pc) :
    ∃ t, Run (Sched.step L sym) (Sched.Undisturbed L sym) s t ∧ t.Alone { c with next := .ret 0 } ∧
      t.mem = Function.update (Function.update (Function.update (Function.update s.mem
        (L.word c.slot 18) (c.args.value .pc)) (L.word c.slot 2) (c.args.value .spsr))
        (L.word c.slot 16) (c.args.value .sp)) (L.word c.slot 0) (c.args.value .table1Addr) := by
  have hstore {s : Sched} {c : AddCall} {f : Field} (h : s.Alone c) (hf : c.next = .store f) :
      Run (Sched.step L sym) (Sched.Undisturbed L sym) s ((s.store L c f).setCall (some { c with next := f.next })) ∧
        ((s.store L c f).setCall (some { c with next := f.next })).Alone { c with next := f.next } := by
    have hrun : Run (Sched.step L sym) (Sched.Undisturbed L sym) s (s.addStep L sym c) := h.run
    have halone : (s.store L c f).Alone c := h
    rw [Sched.addStep, hf] at hrun
    exact ⟨hrun, halone.setCall⟩
  obtain ⟨run1, h1⟩ := hstore h hnext
  obtain ⟨run2, h2⟩ := hstore h1 rfl
  obtain ⟨run3, h3⟩ := hstore h2 rfl
  obtain ⟨run4, h4⟩ := hstore h3 rfl
  exact ⟨_, ((run1.trans run2).trans run3).trans run4, h4, rfl⟩

/-- A call that no tick interrupts is `__scheduler_add_task`. -/
theorem Alone.run_call {s : Sched} {c : AddCall} (h : s.Alone c) (hnext : c.next = .check) :
    ∃ t slot, Run (Sched.step L sym) (Sched.Undisturbed L sym) s t ∧
      t.Alone { c with slot := slot, next := .ret (schedulerAddTaskFrom L sym c.args.entrypoint c.args.stackTop
        c.args.table1Addr s.mem c.slot).1 } ∧
      t.mem = (schedulerAddTaskFrom L sym c.args.entrypoint c.args.stackTop c.args.table1Addr s.mem c.slot).2 := by
  have hrun : Run (Sched.step L sym) (Sched.Undisturbed L sym) s (s.addStep L sym c) := h.run
  rw [Sched.addStep, hnext] at hrun
  dsimp only at hrun
  rw [schedulerAddTaskFrom]
  by_cases hlt : c.slot < SCHEDULER_MAX_TASKS
  · rw [if_pos hlt] at hrun
    rw [dif_pos hlt]
    by_cases hfree : s.mem (L.word c.slot 18) = sym.prvIdleTask + 4
    · rw [if_pos hfree] at hrun
      rw [if_pos hfree]
      have hstores : (s.setCall (some { c with next := .store .pc })).Alone { c with next := .store .pc } := h.setCall
      obtain ⟨t, hrun', hret, hmem⟩ := hstores.run_stores rfl
      exact ⟨t, c.slot, hrun.trans hrun', hret, hmem⟩
    · rw [if_neg hfree] at hrun
      rw [if_neg hfree]
      have hgoOn : (s.setCall (some ⟨c.id, c.caller, c.args, c.slot + 1, .check⟩)).Alone
          ⟨c.id, c.caller, c.args, c.slot + 1, .check⟩ := h.setCall
      obtain ⟨t, slot, hrun', hret, hmem⟩ := hgoOn.run_call rfl
      exact ⟨t, slot, hrun.trans hrun', hret, hmem⟩
  · rw [if_neg hlt] at hrun
    rw [dif_neg hlt]
    exact ⟨_, c.slot, hrun, h.setCall, rfl⟩
termination_by SCHEDULER_MAX_TASKS - c.slot

/-! ## Every interleaving -/

/-- In every run that no tick and no load disturbs, each call that returned 0 has put its task into a
slot of its own, and every context dispatched is that of one task. -/
theorem addTask_atomic (hthumb : sym.prvIdleTask.getLsbD 0 = true) {mem : Nat → Word} {s : Sched}
    (h : Run (Sched.step L sym) (Sched.Undisturbed L sym) (Sched.start L sym mem) s) : s.Atomic L :=
  (h.invariant (Inv.start mem) fun _ _ _ hinv hguard hstep => hinv.step hthumb hguard hstep).atomic

end

/-! ### One task that adds another -/

open Machine (exampleLayout exampleSymbols)

/-- The memory after `__scheduler_init` and a call for a task at 0x70010000. -/
def exampleMem : Nat → Word :=
  (schedulerAddTask exampleLayout exampleSymbols 0x70010000 0x70020000 0x70030000
    (schedulerInit exampleLayout exampleSymbols fun _ => 0)).2

theorem exampleMem_eq : exampleMem =
    Function.update (Function.update (Function.update (Function.update
      (schedulerInit exampleLayout exampleSymbols fun _ => 0)
      (exampleLayout.word 0 18) 0x70010004) (exampleLayout.word 0 2) (USR_MODE.setWidth 32))
      (exampleLayout.word 0 16) 0x70020000) (exampleLayout.word 0 0) 0x70030000 := by
  have hfree : schedulerInit exampleLayout exampleSymbols (fun _ => 0) (exampleLayout.word 0 18) =
      exampleSymbols.prvIdleTask + 4 := schedulerInit_field (f := .pc) (by decide)
  rw [exampleMem, schedulerAddTask, schedulerAddTaskFrom, dif_pos (by decide), if_pos hfree]
  rfl

theorem addTask_atomic_alone : ∃ s, Run (Sched.step exampleLayout exampleSymbols)
    (Sched.Undisturbed exampleLayout exampleSymbols) (Sched.start exampleLayout exampleSymbols exampleMem) s ∧
      s.returned ≠ [] ∧ s.Atomic exampleLayout := by
  let args : AddArgs := ⟨0x71010000, 0x71020000, 0x71030000⟩
  let s0 := Sched.start exampleLayout exampleSymbols exampleMem
  let c : AddCall := ⟨0, s0.running, args, 0, .check⟩
  have h0 : exampleMem (exampleLayout.word 0 18) ≠ exampleSymbols.prvIdleTask + 4 := by
    rw [exampleMem_eq]
    decide +kernel
  have h1 : exampleMem (exampleLayout.word 1 18) = exampleSymbols.prvIdleTask + 4 := by
    rw [exampleMem_eq]
    decide +kernel
  have hrunning : s0.running ≠ .idle := by
    show (if exampleMem (exampleLayout.word 0 18) = exampleSymbols.prvIdleTask + 4 then
      (⟨.idle, false⟩ : Source) else ⟨.loaded, false⟩).owner ≠ .idle
    rw [if_neg h0]
    exact fun h => nomatch h
  have hcall : s0.step exampleLayout exampleSymbols (.call args) =
      some { s0.setCall (some c) with begun := 1 } := by
    rw [Sched.step, if_neg hrunning]
    rfl
  have halone : Alone { s0.setCall (some c) with begun := 1 } c :=
    ⟨(calls_setCall (s := s0)).2 (.inl ⟨rfl, rfl⟩), fun j hj => Function.update_of_ne hj ..⟩
  obtain ⟨t, slot, hrun, hret, -⟩ := halone.run_call rfl
  have hvalue : (schedulerAddTaskFrom exampleLayout exampleSymbols args.entrypoint args.stackTop args.table1Addr
      exampleMem 0).1 = 0 := by
    rw [schedulerAddTaskFrom, dif_pos (by decide), if_neg h0, schedulerAddTaskFrom, dif_pos (by decide), if_pos h1]
  have hguard : s0.Undisturbed exampleLayout exampleSymbols (.call args) := show args.entrypoint ≠ _ by decide
  have hall := ((Run.start.step (.call args) hguard hcall).trans hrun).trans hret.run
  refine ⟨_, hall, ?_, addTask_atomic (by decide) hall⟩
  rw [Sched.addStep]
  exact ne_of_eq_of_ne (if_pos hvalue) (List.cons_ne_nil _ _)

/-- A tick after the first store: the new task's slot is next. -/
theorem not_addTask_atomic : ¬ ∀ (L : Layout) (sym : Symbols) (mem : Nat → Word) (s : Sched),
    sym.prvIdleTask.getLsbD 0 = true → Loaded L sym mem →
    Run (Sched.step L sym) (fun _ _ => True) (Sched.start L sym mem) s → s.Atomic L := by
  intro h
  have hloaded : Loaded exampleLayout exampleSymbols exampleMem :=
    Loaded.add ⟨0x70010000, 0x70020000, 0x70030000⟩ (.init _) (by decide)
  have hrun : (runList (Sched.step exampleLayout exampleSymbols) (fun _ _ => True)
      (Sched.start exampleLayout exampleSymbols exampleMem)
      [.call ⟨0x71010000, 0x71020000, 0x71030000⟩, .step, .step, .step, .tick 0x80000100 0x1F 0x90000000]).map
        (fun s => (s.dispatched .pc, s.dispatched .spsr)) =
      some (⟨.added 0, false⟩, ⟨.idle, false⟩) := by
    rw [exampleMem_eq]
    decide +kernel
  obtain ⟨s, hs, he⟩ := Option.map_eq_some_iff.1 hrun
  obtain ⟨owner, howner⟩ := (h _ _ _ s (by decide) hloaded (Run.of_runList hs)).unmixed
  have hpc := howner .pc
  have hspsr := howner .spsr
  rw [(Prod.mk.inj he).1] at hpc
  rw [(Prod.mk.inj he).2, ← hpc] at hspsr
  exact nomatch hspsr

end Sched

end Td3.Kernel
