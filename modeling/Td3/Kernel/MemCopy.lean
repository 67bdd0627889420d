/-
`__memcopy` and `__memfill` (kernel/common_asm.S): loops that store a byte a round, each access through
the MMU. As long as the bytes they store change neither the translations nor what they load, a run
of either stores one byte after the other and leaves the rest of memory alone.
-/
import Td3.Lib.Run
import Td3.Lib.Translation

namespace Td3.Kernel

open Arm

/-! ## The loops -/

inductive CopyLabel where
  | loop
  | ret
  | abort
deriving DecidableEq, Repr

/-- The registers of the loops and the memory. `r1` is `src` in one and `pattern` in the other. -/
structure Copy where
  label : CopyLabel
  mem : Nat → Word
  dst : Word
  r1 : Word
  size : Word

namespace Copy

section
variable (c : Cp15) (fetch : (Nat → Word) → Word → Option (Word × Word))

/-- One round. `fetch` gives the byte to store and what the round leaves in `r1`. -/
def round (f : Copy) : Copy :=
  match fetch f.mem f.r1 with
  | none => { f with label := .abort }
  | some (buffer, r1) =>
    match c.strb f.mem true buffer f.dst with
    | none => { f with label := .abort }
    | some mem =>
      let size := f.size - 1
      { label := if size = 0 then .ret else .loop, mem := mem, dst := f.dst + 1, r1 := r1, size := size }

def step (f : Copy) : Copy :=
  match f.label with
  | .loop => f.round c fetch
  | .ret => f
  | .abort => f

/-- The functions, run for `n` rounds; `none` where they have not returned yet. -/
def run (n : Nat) (dst r1 size : Word) (mem : Nat → Word) : Option (Nat → Word) :=
  -- `ble`, signed
  let f := (step c fetch)^[n] ⟨if size.sle 0 then .ret else .loop, mem, dst, r1, size⟩
  if f.label = .ret then some f.mem else none

end

end Copy

/-- `__memcopy` -/
def memcopy (c : Cp15) (n : Nat) (dst src size : Word) (mem : Nat → Word) : Option (Nat → Word) :=
  Copy.run c (fun mem src => (c.ldrb mem true src).map fun buffer => (buffer, src + 1)) n dst src size mem

/-- `__memfill` -/
def memfill (c : Cp15) (n : Nat) (dst pattern size : Word) (mem : Nat → Word) : Option (Nat → Word) :=
  Copy.run c (fun _ pattern => some (pattern, pattern)) n dst pattern size mem

/-! ## What they do -/

/-- What a run of `N` rounds relies on: whatever the memory has become in the words of `P`, round `i`
stores the byte `value i` at the physical address `pd i`, in `P`, each at another one. -/
structure Transfer (c : Cp15) (fetch : (Nat → Word) → Word → Option (Word × Word)) (P : Nat → Prop)
    (mem : Nat → Word) (dst : Word) (N : Nat) (r1 value pd : Nat → Word) : Prop where
  fetch : ∀ mem', (∀ w, ¬ P w → mem' w = mem w) → ∀ i < N, fetch mem' (r1 i) = some (value i, r1 (i + 1))
  store : ∀ mem', (∀ w, ¬ P w → mem' w = mem w) → ∀ i < N,
    c.translate mem' true .store (dst + BitVec.ofNat 32 i) = some (pd i)
  inside : ∀ i < N, P (wordIndex (pd i))
  apart : ∀ i < N, ∀ j < N, pd i = pd j → i = j

/-- `mem'` is `mem` with the first `k` bytes stored. -/
structure Copied (P : Nat → Prop) (mem : Nat → Word) (value pd : Nat → Word) (k : Nat) (mem' : Nat → Word) : Prop where
  bytes : ∀ i < k, byteAt mem' (pd i) = value i &&& 0xFF#32
  frame : ∀ w, ¬ P w → mem' w = mem w

namespace Copy

variable {c : Cp15} {fetch : (Nat → Word) → Word → Option (Word × Word)} {P : Nat → Prop} {mem mem1 : Nat → Word}
  {dst size : Word} {N k : Nat} {r1 value pd : Nat → Word}

theorem copied_succ (h : Transfer c fetch P mem dst N r1 value pd) (hk : k < N) (h1 : Copied P mem value pd k mem1) :
    Copied P mem value pd (k + 1) (putByte (value k) (pd k) mem1) := by
  constructor
  · intro i hi
    by_cases heq : i = k
    · rw [heq]
      exact byteAt_putByte_self
    · have hne : pd i ≠ pd k := fun h' => heq (h.apart i (by omega) k hk h')
      rw [byteAt_putByte_of_ne hne]
      exact h1.bytes i (by omega)
  · intro w hw
    have hne : w ≠ wordIndex (pd k) := by
      rintro rfl
      exact hw (h.inside k hk)
    rw [putByte_of_ne hne]
    exact h1.frame w hw

/-- The state before round `k` -/
def before (dst : Word) (N : Nat) (r1 : Nat → Word) (k : Nat) (mem : Nat → Word) : Copy :=
  ⟨if BitVec.ofNat 32 (N - k) = 0 then .ret else .loop, mem, dst + BitVec.ofNat 32 k, r1 k, BitVec.ofNat 32 (N - k)⟩

theorem ofNat_ne_zero {n : Nat} (h0 : 0 < n) (hn : n < 2 ^ 31) : BitVec.ofNat 32 n ≠ 0 := by
  intro h
  have := congrArg BitVec.toNat h
  rw [BitVec.toNat_ofNat] at this
  change n % 2 ^ 32 = 0 at this
  omega

theorem round_spec (h : Transfer c fetch P mem dst N r1 value pd) (hN : N < 2 ^ 31) (hk : k < N)
    (h1 : Copied P mem value pd k mem1) :
    step c fetch (before dst N r1 k mem1) = before dst N r1 (k + 1) (putByte (value k) (pd k) mem1) := by
  have hsize : BitVec.ofNat 32 (N - k) - 1 = BitVec.ofNat 32 (N - (k + 1)) := by
    apply BitVec.eq_of_toNat_eq
    rw [BitVec.toNat_sub, BitVec.toNat_ofNat, BitVec.toNat_ofNat]
    show (2 ^ 32 - 1 + (N - k) % 2 ^ 32) % 2 ^ 32 = (N - (k + 1)) % 2 ^ 32
    omega
  have hdst : dst + BitVec.ofNat 32 k + 1 = dst + BitVec.ofNat 32 (k + 1) := by
    rw [BitVec.add_assoc, BitVec.ofNat_add]
    rfl
  have hlabel : (before dst N r1 k mem1).label = .loop := if_neg (ofNat_ne_zero (by omega) (by omega))
  have hfetch := h.fetch mem1 h1.frame k hk
  have hstrb : c.strb mem1 true (value k) (dst + BitVec.ofNat 32 k) = some (putByte (value k) (pd k) mem1) := by
    rw [Cp15.strb, h.store mem1 h1.frame k hk]
    rfl
  rw [step, hlabel]
  simp only [round, before, hfetch, hstrb, hsize, hdst]

/-- The rounds that are left, by induction on their number -/
theorem rounds_run (h : Transfer c fetch P mem dst N r1 value pd) (hN : N < 2 ^ 31) {left : Nat} (hleft : k + left = N)
    (h1 : Copied P mem value pd k mem1) :
    ∃ mem', Reaches (step c fetch) (before dst N r1 k mem1) (before dst N r1 N mem') ∧
      Copied P mem value pd N mem' := by
  induction left generalizing k mem1 with
  | zero =>
    obtain rfl : k = N := hleft
    exact ⟨mem1, Reaches.refl, h1⟩
  | succ left ih =>
    have hk : k < N := by omega
    obtain ⟨mem', hreach, hcopied⟩ := ih (k := k + 1) (by omega) (copied_succ h hk h1)
    exact ⟨mem', Reaches.head (round_spec h hN hk h1) hreach, hcopied⟩

/-- A whole run; nothing is stored where the size is 0. -/
theorem run_spec (h : Transfer c fetch P mem dst size.toNat r1 value pd) (hsize : size.toNat < 2 ^ 31) :
    ∃ n mem', (∀ k, n ≤ k → run c fetch k dst (r1 0) size mem = some mem') ∧ Copied P mem value pd size.toNat mem' := by
  have hnone : Copied P mem value pd 0 mem := ⟨fun i hi => absurd hi (Nat.not_lt_zero i), fun _ _ => rfl⟩
  obtain ⟨mem', hreach, hcopied⟩ := rounds_run h hsize (Nat.zero_add _) hnone
  have hret : (before dst size.toNat r1 size.toNat mem').label = .ret := by
    unfold before
    rw [Nat.sub_self]
    rfl
  have hstart : before dst size.toNat r1 0 mem = ⟨if size.sle 0 then .ret else .loop, mem, dst, r1 0, size⟩ := by
    have hsle : size.sle 0 = decide (size = 0) := by
      rw [BitVec.sle_eq_decide, BitVec.toInt_eq_toNat_of_lt (by omega)]
      refine decide_eq_decide.2 ⟨fun hle => BitVec.eq_of_toNat_eq ?_, fun h0 => ?_⟩
      · change (size.toNat : Int) ≤ 0 at hle
        show size.toNat = 0
        omega
      · rw [h0]
        decide
    unfold before
    simp only [hsle, Nat.sub_zero, BitVec.ofNat_toNat, BitVec.setWidth_eq, decide_eq_true_eq]
    simp
  obtain ⟨n, hn⟩ := hreach.final (by rw [step, hret])
  refine ⟨n, mem', ?_, hcopied⟩
  intro k hk
  rw [run, ← hstart, hn k hk]
  exact if_pos hret

end Copy

end Td3.Kernel
