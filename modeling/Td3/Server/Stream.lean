/-
`Socket::operator<<` and `Socket::operator>>` (server/lib_src/socket.cpp) for `int` and `char`, over
any way the bytes travel.

An extraction takes what one `recv()` stored for the whole value, so the values read are the values
written exactly when every `recv()` brings a whole value (and every `send()` takes one): any shorter
result leaves the end of the variable as it was and the rest of the value to the next extraction.
-/
import Mathlib.Tactic
import Td3.Lib.LittleEndian
import Td3.Server.Socket

namespace Td3.Server.Stream

open Td3.Lib (leBytes leNat)

/-! ## The source functions -/

/-- What an operator did: it returned, it threw `std::runtime_error("")`, or it still waits for a
`send()` or a `recv()`. -/
inductive Outcome (α : Type) where
  | returned (a : α)
  | thrown
  | waiting
deriving DecidableEq, Repr

/-- The rest of the program runs only after an operator that returned. -/
def Outcome.bind {α β : Type} : Outcome α → (α → Outcome β) → Outcome β
  | .returned a, f => f a
  | .thrown, _ => .thrown
  | .waiting, _ => .waiting

def Outcome.map {α β : Type} (f : α → β) (o : Outcome α) : Outcome β := o.bind fun a => .returned (f a)

@[simp] theorem Outcome.bind_eq_returned {α β : Type} {o : Outcome α} {f : α → Outcome β} {b : β} :
    o.bind f = .returned b ↔ ∃ a, o = .returned a ∧ f a = .returned b := by
  cases o <;> simp [Outcome.bind]

@[simp] theorem Outcome.map_eq_returned {α β : Type} {o : Outcome α} {f : α → β} {b : β} :
    o.map f = .returned b ↔ ∃ a, o = .returned a ∧ f a = b := by
  simp [Outcome.map]

/-- `operator<<` on the object with these bytes: the bytes it hands to the peer, in order. -/
def insert (object : List UInt8) (results : List SendResult) : Outcome (List UInt8) :=
  match write object.length results with
  | none => .waiting
  | some (ret, w) => if ret = -1 then .thrown else .returned (w.bytes fun i => object.getD i 0)

/-- `operator>>` on the object with these bytes: its bytes afterwards. -/
def extract (object : List UInt8) (result : RecvResult) : Outcome (List UInt8) :=
  let (ret, object) := read object result
  if ret ≤ 0 then .thrown else .returned object

/-- `operator<< (int a)`. -/
def insertInt (a : BitVec 32) (results : List SendResult) : Outcome (List UInt8) :=
  insert (leBytes 4 a.toNat) results

/-- `operator<< (char a)`. -/
def insertChar (a : BitVec 8) (results : List SendResult) : Outcome (List UInt8) :=
  insert (leBytes 1 a.toNat) results

/-- `operator>> (int &a)`. -/
def extractInt (a : BitVec 32) (result : RecvResult) : Outcome (BitVec 32) :=
  (extract (leBytes 4 a.toNat) result).map fun bytes => BitVec.ofNat 32 (leNat bytes)

/-- `operator>> (char &a)`. -/
def extractChar (a : BitVec 8) (result : RecvResult) : Outcome (BitVec 8) :=
  (extract (leBytes 1 a.toNat) result).map fun bytes => BitVec.ofNat 8 (leNat bytes)

/-! ## Sequences of values -/

/-- The types the operators are overloaded for. -/
inductive Kind where
  | int
  | char
deriving DecidableEq, Repr

/-- `sizeof`. -/
def Kind.size : Kind → Nat
  | .int => 4
  | .char => 1

/-- A value of one of the types. -/
inductive Value where
  | int (a : BitVec 32)
  | char (a : BitVec 8)
deriving DecidableEq, Repr

def Value.kind : Value → Kind
  | .int _ => .int
  | .char _ => .char

def Value.insert : Value → List SendResult → Outcome (List UInt8)
  | .int a => insertInt a
  | .char a => insertChar a

def Value.extract : Value → RecvResult → Outcome Value
  | .int a, result => (extractInt a result).map .int
  | .char a, result => (extractChar a result).map .char

/-- What one `recv()` does: it stores the next `n` bytes of the stream (none: the peer closed the
connection), fails, or has not returned. -/
inductive Arrival where
  | bytes (n : Nat)
  | failed
  | pending
deriving DecidableEq, Repr

/-- The result of the `recv()` on a stream, and what is left of the stream. -/
def Arrival.recv (stream : List UInt8) : Arrival → Option (RecvResult × List UInt8)
  | .bytes n => some (.received (stream.take n), stream.drop n)
  | .failed => some (.failed, stream)
  | .pending => none

/-- How the bytes of one value of a type travel: the results of the `send()`s on one end, and what
the `recv()` on the other end does. -/
structure Split where
  kind : Kind
  sends : List SendResult
  arrival : Arrival
deriving DecidableEq, Repr

/-- One value written with `operator<<`, and the variable it is read into with `operator>>`, as it
was before. -/
structure Transfer where
  value : Value
  old : Value
  same : old.kind = value.kind
  sends : List SendResult
  arrival : Arrival

def Transfer.split (t : Transfer) : Split := ⟨t.value.kind, t.sends, t.arrival⟩

/-- One end writes the values: the bytes it hands to the other end. -/
def writeAll : List Transfer → Outcome (List UInt8)
  | [] => .returned []
  | t :: ts => (t.value.insert t.sends).bind fun bytes => (writeAll ts).map (bytes ++ ·)

/-- The other end reads as many values from the stream. -/
def readAll : List Transfer → List UInt8 → Outcome (List Value)
  | [], _ => .returned []
  | t :: ts, stream =>
    match t.arrival.recv stream with
    | none => .waiting
    | some (result, stream) => (t.old.extract result).bind fun v => (readAll ts stream).map (v :: ·)

/-- The values read of the values written. -/
def session (ts : List Transfer) : Outcome (List Value) := (writeAll ts).bind (readAll ts)

/-- With the bytes travelling so, the values read are the values written, whichever these are and
whatever the variables held before, unless an operator throws (or still waits). -/
def RoundTrips (ss : List Split) : Prop :=
  ∀ ts : List Transfer, ts.map Transfer.split = ss →
    ∀ vs, session ts = .returned vs → vs = ts.map Transfer.value

/-! ## What the operating system may do -/

/-- `recv()` stores no more than the bytes it was asked for. -/
def Arrival.Legal (len : Nat) : Arrival → Prop
  | .bytes n => n ≤ len
  | .failed => True
  | .pending => True

structure Split.Legal (s : Split) : Prop where
  sends : ∀ r ∈ s.sends, r.Legal s.kind.size
  arrival : s.arrival.Legal s.kind.size

/-- The insertion and the extraction both return: the `send()`s take enough bytes before one fails,
and the `recv()` stores some. -/
def Split.Completes (s : Split) : Prop :=
  reaches s.kind.size 0 s.sends = true ∧ ∃ n, 0 < n ∧ s.arrival = .bytes n

/-- One `send()` takes the whole value and one `recv()` brings it. -/
def Split.Whole (s : Split) : Prop :=
  s.sends.head? = some (.accepted s.kind.size) ∧ s.arrival = .bytes s.kind.size

/-! ## Values in memory -/

theorem Kind.size_pos (k : Kind) : 0 < k.size ∧ k.size ≤ 4 := by cases k <;> decide

/-- The bytes of the object a value is stored in. -/
def Value.bytes : Value → List UInt8
  | .int a => leBytes 4 a.toNat
  | .char a => leBytes 1 a.toNat

/-- The value of the object with these bytes. -/
def Kind.ofBytes : Kind → List UInt8 → Value
  | .int, bytes => .int (BitVec.ofNat 32 (leNat bytes))
  | .char, bytes => .char (BitVec.ofNat 8 (leNat bytes))

@[simp] theorem Value.length_bytes (v : Value) : v.bytes.length = v.kind.size := by
  cases v <;> simp [Value.bytes, Value.kind, Kind.size]

theorem Value.ofBytes_bytes (v : Value) : v.kind.ofBytes v.bytes = v := by
  cases v with
  | int a => simp [Value.kind, Value.bytes, Kind.ofBytes, Lib.leNat_leBytes (k := 4) (v := a.toNat) a.isLt]
  | char a => simp [Value.kind, Value.bytes, Kind.ofBytes, Lib.leNat_leBytes (k := 1) (v := a.toNat) a.isLt]

theorem Kind.bytes_ofBytes {k : Kind} {bytes : List UInt8} (h : bytes.length = k.size) :
    (k.ofBytes bytes).bytes = bytes := by
  have hlt := Lib.leNat_lt bytes
  have hb := Lib.leBytes_leNat bytes
  cases k <;>
  · simp only [Kind.size] at h
    rw [h] at hlt hb
    simp only [Kind.ofBytes, Value.bytes, BitVec.toNat_ofNat]
    rw [Nat.mod_eq_of_lt (by simpa using hlt), hb]

theorem Value.insert_eq (v : Value) : v.insert = Stream.insert v.bytes := by
  cases v <;> rfl

theorem Value.extract_eq (v : Value) (result : RecvResult) :
    v.extract result = (Stream.extract v.bytes result).map v.kind.ofBytes := by
  cases v <;>
  · simp only [Value.extract, extractInt, extractChar, Value.bytes, Value.kind]
    generalize Stream.extract _ result = o
    cases o <;> rfl

/-! ## One value -/

theorem insert_of_write {object : List UInt8} {results : List SendResult} {ret : Int} {w : Wire}
    (h : write object.length results = some (ret, w)) (hne : ret ≠ -1) :
    insert object results = .returned (w.bytes fun i => object.getD i 0) := by
  unfold insert
  simp only [h, hne, if_false]

/-- An insertion whose first `send()` takes the whole object hands over just its bytes. -/
theorem insert_whole {object : List UInt8} {results : List SendResult} (hlen : object.length < 2 ^ 31)
    (h : results.head? = some (.accepted object.length)) : insert object results = .returned object := by
  have hb : (Wire.bytes (fun i => object.getD i 0) ⟨[(0, object.length)], List.range object.length⟩) = object := by
    apply List.ext_getElem
    · simp [Wire.bytes]
    · intro i h₁ h₂
      simp [Wire.bytes, h₂]
  rw [insert_of_write (write_whole hlen h) (by omega), hb]

/-- An insertion returns when its `send()`s take enough, and then hands over as many bytes as the
object has, or more. -/
theorem insert_reaches {object : List UInt8} {results : List SendResult} (hpos : 0 < object.length)
    (hlen : object.length ≤ 2 ^ 30) (hl : ∀ r ∈ results, r.Legal object.length)
    (h : reaches object.length 0 results = true) :
    ∃ bytes, insert object results = .returned bytes ∧ object.length ≤ bytes.length := by
  obtain ⟨ret, w, hw, hge⟩ := writeLoop_reaches object.length results 0 {} h
  have hne : ret ≠ -1 := by omega
  obtain ⟨hret, -⟩ := writeLoop_handed object.length hlen results 0 {} ret w hl le_rfl (by omega) hw hne
  refine ⟨w.bytes fun i => object.getD i 0, ?_, ?_⟩
  · exact insert_of_write hw hne
  · simp only [Wire.bytes, List.length_map, List.length_nil] at hret ⊢
    omega

theorem insert_not_reaches {object : List UInt8} {results : List SendResult}
    (h : reaches object.length 0 results = false) (bytes : List UInt8) :
    insert object results ≠ .returned bytes := by
  unfold insert
  split
  · rintro ⟨⟩
  · rename_i ret w hw
    rw [if_pos (writeLoop_not_reaches _ _ _ _ _ _ h hw)]
    rintro ⟨⟩

/-- When no two bytes of the object are the same, its bytes lead the stream only if the first
`send()` took them all. -/
theorem insert_prefix {object bytes : List UInt8} {results : List SendResult} (hn : object.Nodup)
    (hpos : 0 < object.length) (hlen : object.length < 2 ^ 31) (hl : ∀ r ∈ results, r.Legal object.length)
    (h : insert object results = .returned bytes) (hp : object <+: bytes) :
    results.head? = some (.accepted object.length) := by
  unfold insert at h
  split at h
  · cases h
  · rename_i ret w hw
    split at h
    · cases h
    · rename_i hne
      obtain ⟨-, hs⟩ := writeLoop_some _ _ _ _ _ _ hw
      obtain ⟨n, ns, hpre, hh, hlast⟩ := hs hne
      have hacc : ∀ m ∈ n :: ns, m ≤ object.length ∧ (m = 0 → object.length = 0) := fun m hm =>
        hl _ (hpre.subset (List.mem_map.2 ⟨m, hm, rfl⟩))
      obtain ⟨hle, hz⟩ := hacc n (List.mem_cons_self ..)
      obtain ⟨t, ht⟩ := hpre
      have hfirst : results.head? = some (.accepted n) := by rw [← ht]; rfl
      have hnlen : n = object.length := by
        by_contra hnlen
        cases ns with
        | nil =>
          obtain ⟨hret, hge⟩ := hlast rfl
          rw [intAdd_eq (by omega) (by omega)] at hret
          omega
        | cons m ns =>
          -- the byte after the first prefix is the object's first byte again
          obtain ⟨-, hm⟩ := hacc m (by simp)
          have e : w.handed[n]? = some 0 := by
            rw [hh, List.nil_append, getElem?_flatten_range (by omega)]
          have hn' : object[n] = object[0] := by
            have hb := hp.getElem (i := n) (by omega)
            simp only [Outcome.returned.injEq] at h
            simp only [← h, Wire.bytes, List.getElem_map] at hb
            obtain ⟨_, he⟩ := List.getElem?_eq_some_iff.1 e
            rw [hb, he, List.getD_eq_getElem?_getD, List.getElem?_eq_getElem hpos, Option.getD_some]
          exact absurd (hn.getElem_inj_iff.1 hn') (by omega)
      rw [hfirst, hnlen]

/-- An extraction keeps the end of the variable that the `recv()` did not reach. -/
theorem extract_received {object bytes : List UInt8} (h : bytes ≠ []) :
    extract object (.received bytes) = .returned (bytes ++ object.drop bytes.length) := by
  have hpos : 0 < bytes.length := List.length_pos_iff.2 h
  have hret : ¬ ((bytes.length : Int) ≤ 0) := by omega
  simp only [extract, read, hret, if_false]

theorem extract_eq_returned {object after : List UInt8} {result : RecvResult}
    (h : extract object result = .returned after) : ∃ bytes, result = .received bytes ∧ bytes ≠ [] := by
  cases result with
  | failed => simp [extract, read] at h
  | received bytes =>
    refine ⟨bytes, rfl, ?_⟩
    rintro rfl
    simp [extract, read] at h

/-! ## When every operator returns -/

theorem writeAll_returns : ∀ ts : List Transfer, (∀ t ∈ ts, t.split.Legal) → (∀ t ∈ ts, t.split.Completes) →
    ∃ stream, writeAll ts = .returned stream ∧ (ts.map fun t => t.value.kind.size).sum ≤ stream.length
  | [], _, _ => ⟨[], rfl, le_rfl⟩
  | t :: ts, hl, hc => by
    obtain ⟨rest, hrest, hsum⟩ := writeAll_returns ts (fun t ht => hl t (List.mem_cons_of_mem _ ht))
      (fun t ht => hc t (List.mem_cons_of_mem _ ht))
    have hsize := t.value.kind.size_pos
    have hlen := t.value.length_bytes
    obtain ⟨bytes, hbytes, hle⟩ : ∃ bytes, insert t.value.bytes t.sends = .returned bytes ∧
        t.value.bytes.length ≤ bytes.length := by
      apply insert_reaches (by omega) (by omega)
      · rw [hlen]
        exact (hl t (List.mem_cons_self ..)).sends
      · rw [hlen]
        exact (hc t (List.mem_cons_self ..)).1
    refine ⟨bytes ++ rest, ?_, ?_⟩
    · rw [writeAll, Value.insert_eq, hbytes, hrest]
      rfl
    · simp only [List.map_cons, List.sum_cons, List.length_append]
      omega

theorem readAll_returns : ∀ (ts : List Transfer) (stream : List UInt8), (∀ t ∈ ts, t.split.Legal) →
    (∀ t ∈ ts, t.split.Completes) → (ts.map fun t => t.value.kind.size).sum ≤ stream.length →
      ∃ vs, readAll ts stream = .returned vs
  | [], _, _, _, _ => ⟨[], rfl⟩
  | t :: ts, stream, hl, hc, hsum => by
    obtain ⟨-, n, hn, harr⟩ := hc t (List.mem_cons_self ..)
    have hle := (hl t (List.mem_cons_self ..)).arrival
    change t.arrival = .bytes n at harr
    change t.arrival.Legal t.value.kind.size at hle
    rw [harr] at hle
    change n ≤ t.value.kind.size at hle
    simp only [List.map_cons, List.sum_cons] at hsum
    have hne : stream.take n ≠ [] := by
      apply List.length_pos_iff.1
      rw [List.length_take]
      omega
    obtain ⟨vs, hvs⟩ := readAll_returns ts (stream.drop n) (fun t ht => hl t (List.mem_cons_of_mem _ ht))
      (fun t ht => hc t (List.mem_cons_of_mem _ ht)) (by rw [List.length_drop]; omega)
    rw [readAll, harr, Arrival.recv]
    simp only [Value.extract_eq, extract_received hne, hvs]
    exact ⟨_, rfl⟩

/-- Both ends return only from transfers that complete. -/
theorem completes_of_returned : ∀ (ts : List Transfer) (sent stream : List UInt8) (vs : List Value),
    writeAll ts = .returned sent → readAll ts stream = .returned vs → ∀ t ∈ ts, t.split.Completes
  | [], _, _, _, _, _, _, ht => by cases ht
  | t :: ts, sent, stream, vs, hw, hr, u, hu => by
    rw [writeAll] at hw
    simp only [Outcome.bind_eq_returned, Outcome.map_eq_returned] at hw
    obtain ⟨bytes, hbytes, sent', hsent, -⟩ := hw
    rw [readAll] at hr
    split at hr
    · cases hr
    · rename_i result rest hrecv
      simp only [Outcome.bind_eq_returned, Outcome.map_eq_returned] at hr
      obtain ⟨v, hv, vs', hvs, -⟩ := hr
      rcases List.mem_cons.1 hu with rfl | hu
      · constructor
        · by_contra hnot
          rw [Value.insert_eq] at hbytes
          refine insert_not_reaches ?_ bytes hbytes
          rw [Value.length_bytes]
          exact Bool.eq_false_of_not_eq_true hnot
        · rw [Value.extract_eq, Outcome.map_eq_returned] at hv
          obtain ⟨after, hafter, -⟩ := hv
          obtain ⟨bs, hbs, hne⟩ := extract_eq_returned hafter
          change ∃ n, 0 < n ∧ u.arrival = .bytes n
          cases harr : u.arrival with
          | bytes n =>
            refine ⟨n, ?_, rfl⟩
            rw [harr] at hrecv
            simp only [Arrival.recv, Option.some.injEq, Prod.mk.injEq, hbs, RecvResult.received.injEq] at hrecv
            by_contra hz
            have hz : n = 0 := by omega
            rw [hz, List.take_zero] at hrecv
            exact hne hrecv.1.symm
          | failed =>
            rw [harr] at hrecv
            simp only [Arrival.recv, Option.some.injEq, Prod.mk.injEq, hbs] at hrecv
            exact absurd hrecv.1 (by rintro ⟨⟩)
          | pending =>
            rw [harr] at hrecv
            cases hrecv
      · exact completes_of_returned ts sent' rest vs' hsent hvs u hu

/-! ## Whole values -/

theorem writeAll_whole : ∀ ts : List Transfer, (∀ t ∈ ts, t.split.Whole) →
    writeAll ts = .returned (ts.map fun t => t.value.bytes).flatten
  | [], _ => rfl
  | t :: ts, h => by
    have hsize := t.value.kind.size_pos
    have hins : insert t.value.bytes t.sends = .returned t.value.bytes := by
      apply insert_whole
      · rw [Value.length_bytes]
        omega
      · rw [Value.length_bytes]
        exact (h t (List.mem_cons_self ..)).1
    rw [writeAll, Value.insert_eq, hins, writeAll_whole ts fun t ht => h t (List.mem_cons_of_mem _ ht)]
    rfl

theorem readAll_whole : ∀ ts : List Transfer, (∀ t ∈ ts, t.split.Whole) →
    readAll ts (ts.map fun t => t.value.bytes).flatten = .returned (ts.map Transfer.value)
  | [], _ => rfl
  | t :: ts, h => by
    have hsize := t.value.kind.size_pos
    have hlen := t.value.length_bytes
    have hold := t.old.length_bytes
    have harr : t.arrival = .bytes t.value.kind.size := (h t (List.mem_cons_self ..)).2
    have hne : t.value.bytes ≠ [] := by
      apply List.length_pos_iff.1
      omega
    have hv : t.old.extract (.received t.value.bytes) = .returned t.value := by
      rw [Value.extract_eq, extract_received hne, List.drop_eq_nil_of_le (by rw [hlen, hold, t.same]),
        List.append_nil, t.same]
      exact congrArg Outcome.returned t.value.ofBytes_bytes
    rw [readAll, harr, Arrival.recv]
    simp only [List.map_cons, List.flatten_cons]
    rw [List.take_left' hlen, List.drop_left' hlen]
    simp only [hv, readAll_whole ts fun t ht => h t (List.mem_cons_of_mem _ ht)]
    rfl

/-! ## Values that tell every other split apart -/

/-- A value no two bytes of which are the same. -/
def Kind.sample : Kind → Value
  | .int => .int 0x03020100
  | .char => .char 0

/-- A variable all bytes of which differ from those of the sample. -/
def Kind.blank : Kind → Value
  | .int => .int 0xFFFFFFFF
  | .char => .char 0xFF

@[simp] theorem Kind.kind_sample (k : Kind) : k.sample.kind = k := by cases k <;> rfl

@[simp] theorem Kind.kind_blank (k : Kind) : k.blank.kind = k := by cases k <;> rfl

theorem Kind.nodup_sample (k : Kind) : k.sample.bytes.Nodup := by cases k <;> decide

theorem Kind.last_blank (k : Kind) : k.blank.bytes[k.size - 1]? ≠ k.sample.bytes[k.size - 1]? := by
  cases k <;> decide

def Split.sample (s : Split) : Transfer :=
  { value := s.kind.sample, old := s.kind.blank, same := by rw [Kind.kind_sample, Kind.kind_blank],
    sends := s.sends, arrival := s.arrival }

@[simp] theorem Split.split_sample (s : Split) : s.sample.split = s := by
  simp [Transfer.split, Split.sample]

/-- Read into the blank variable, the sample comes back only from a `recv()` that brought all of it,
from a stream it leads. -/
theorem Kind.whole_of_extract {k : Kind} {n : Nat} {stream : List UInt8} (hn : 0 < n) (hle : n ≤ k.size)
    (hs : k.size ≤ stream.length) (h : k.blank.extract (.received (stream.take n)) = .returned k.sample) :
    n = k.size ∧ k.sample.bytes <+: stream := by
  have hlen : (stream.take n).length = n := by
    rw [List.length_take]
    omega
  have hne : stream.take n ≠ [] := by
    apply List.length_pos_iff.1
    omega
  rw [Value.extract_eq, extract_received hne, hlen, Kind.kind_blank] at h
  have hofs : k.ofBytes (stream.take n ++ k.blank.bytes.drop n) = k.sample := Outcome.returned.inj h
  have hbytes : stream.take n ++ k.blank.bytes.drop n = k.sample.bytes := by
    rw [← hofs, Kind.bytes_ofBytes]
    simp only [List.length_append, hlen, List.length_drop, Value.length_bytes, Kind.kind_blank]
    omega
  have hnsize : n = k.size := by
    by_contra hlt
    apply k.last_blank
    rw [← hbytes, List.getElem?_append_right (by omega), hlen, List.getElem?_drop]
    congr 1
    omega
  refine ⟨hnsize, stream.drop n, ?_⟩
  have hdrop : k.blank.bytes.drop n = [] := by
    apply List.drop_eq_nil_of_le
    rw [Value.length_bytes, Kind.kind_blank, hnsize]
  rw [← hbytes, hdrop, List.append_nil, List.take_append_drop]

/-- When the samples come back, every split was whole. -/
theorem whole_of_session : ∀ (ss : List Split) (stream : List UInt8), (∀ s ∈ ss, s.Legal) →
    (∀ s ∈ ss, s.Completes) → writeAll (ss.map Split.sample) = .returned stream →
      readAll (ss.map Split.sample) stream = .returned (ss.map fun s => s.kind.sample) → ∀ s ∈ ss, s.Whole
  | [], _, _, _, _, _, _, hs => by cases hs
  | s :: ss, stream, hl, hc, hw, hr, u, hu => by
    obtain ⟨hreach, n, hn, harr⟩ := hc s (List.mem_cons_self ..)
    have hlegal := hl s (List.mem_cons_self ..)
    have hsize := s.kind.size_pos
    have hlen : s.kind.sample.bytes.length = s.kind.size := by rw [Value.length_bytes, Kind.kind_sample]
    have hle : n ≤ s.kind.size := by
      have := hlegal.arrival
      rwa [harr] at this
    simp only [List.map_cons, writeAll, Outcome.bind_eq_returned, Outcome.map_eq_returned] at hw
    obtain ⟨bytes, hbytes, rest, hrest, rfl⟩ := hw
    rw [Value.insert_eq] at hbytes
    change insert s.kind.sample.bytes s.sends = .returned bytes at hbytes
    have hlegal' : ∀ r ∈ s.sends, r.Legal s.kind.sample.bytes.length := by
      rw [hlen]
      exact hlegal.sends
    have hge : s.kind.sample.bytes.length ≤ bytes.length := by
      obtain ⟨bytes', hbytes', hge⟩ := insert_reaches (by omega) (by omega) hlegal' (by rw [hlen]; exact hreach)
      rw [hbytes, Outcome.returned.injEq] at hbytes'
      rwa [hbytes']
    simp only [List.map_cons, readAll] at hr
    rw [show s.sample.arrival = .bytes n from harr, Arrival.recv] at hr
    simp only [Outcome.bind_eq_returned, Outcome.map_eq_returned, List.cons.injEq] at hr
    obtain ⟨v, hv, vs, hvs, rfl, rfl⟩ := hr
    have hs : s.kind.size ≤ (bytes ++ rest).length := by
      rw [List.length_append]
      omega
    obtain ⟨hnsize, hpre⟩ := Kind.whole_of_extract hn hle hs hv
    have hhead : s.sends.head? = some (.accepted s.kind.sample.bytes.length) := by
      refine insert_prefix s.kind.nodup_sample (by omega) (by omega) hlegal' hbytes ?_
      exact List.prefix_of_prefix_length_le hpre (List.prefix_append ..) hge
    -- one `send()` took the sample, so the rest of the stream is what the other values left
    rw [insert_whole (by omega) hhead, Outcome.returned.injEq] at hbytes
    subst hbytes
    rw [hnsize, List.drop_left' hlen] at hvs
    rcases List.mem_cons.1 hu with rfl | hu
    · rw [hlen] at hhead
      exact ⟨hhead, by rw [harr, hnsize]⟩
    · exact whole_of_session ss rest (fun s hs => hl s (List.mem_cons_of_mem _ hs))
        (fun s hs => hc s (List.mem_cons_of_mem _ hs)) hrest hvs u hu

/-! ## The round trip -/

theorem Kind.legal_whole (k : Kind) : Split.Legal ⟨k, [.accepted k.size], .bytes k.size⟩ := by
  have hpos := k.size_pos
  constructor
  · simp only [List.forall_mem_singleton, SendResult.Legal]
    omega
  · exact le_rfl

/-- The values read are the values written exactly when every value travels whole, or an operator
throws: an extraction does not wait for the rest of a value. -/
theorem roundTrips_iff (ss : List Split) (hl : ∀ s ∈ ss, s.Legal) :
    RoundTrips ss ↔ (∃ s ∈ ss, ¬ s.Completes) ∨ ∀ s ∈ ss, s.Whole := by
  constructor
  · intro h
    by_cases hc : ∀ s ∈ ss, s.Completes
    · right
      have hsplit : (ss.map Split.sample).map Transfer.split = ss := by simp [Function.comp_def]
      have hl' : ∀ t ∈ ss.map Split.sample, t.split.Legal := by
        rw [List.forall_mem_map]
        simpa using hl
      have hc' : ∀ t ∈ ss.map Split.sample, t.split.Completes := by
        rw [List.forall_mem_map]
        simpa using hc
      obtain ⟨stream, hw, hsum⟩ := writeAll_returns _ hl' hc'
      obtain ⟨vs, hr⟩ := readAll_returns _ stream hl' hc' hsum
      have hvs : vs = (ss.map Split.sample).map Transfer.value := by
        refine h _ hsplit vs ?_
        rw [session, hw]
        exact hr
      rw [hvs, List.map_map] at hr
      exact whole_of_session ss stream hl hc hw hr
    · left
      push Not at hc
      exact hc
  · rintro (⟨s, hs, hnot⟩ | hwhole) ts rfl vs hvs
    · rw [session, Outcome.bind_eq_returned] at hvs
      obtain ⟨stream, hw, hr⟩ := hvs
      obtain ⟨t, ht, rfl⟩ := List.mem_map.1 hs
      exact absurd (completes_of_returned ts stream stream vs hw hr t ht) hnot
    · have hwhole' : ∀ t ∈ ts, t.split.Whole := fun t ht => hwhole _ (List.mem_map_of_mem ht)
      rw [session, writeAll_whole ts hwhole', Outcome.bind, readAll_whole ts hwhole', Outcome.returned.injEq] at hvs
      exact hvs.symm

/-- Two whole `int`s and a `char`. -/
theorem roundTrips_whole : RoundTrips
    [⟨.int, [.accepted 4], .bytes 4⟩, ⟨.char, [.accepted 1], .bytes 1⟩, ⟨.int, [.accepted 4], .bytes 4⟩] := by
  refine (roundTrips_iff _ ?_).2 (Or.inr ?_)
  · simp only [List.forall_mem_cons, List.not_mem_nil, false_imp_iff, implies_true, and_true]
    exact ⟨Kind.int.legal_whole, Kind.char.legal_whole, Kind.int.legal_whole⟩
  · simp [Split.Whole, Kind.size]

/-- An `int` of which half arrives at a time: the first extraction takes one half, the second the
other. -/
theorem not_roundTrips_halves : ¬ ∀ ss : List Split, (∀ s ∈ ss, s.Legal) → RoundTrips ss := by
  intro h
  have hlegal : Split.Legal ⟨.int, [.accepted 4], .bytes 2⟩ := by
    constructor
    · simp [SendResult.Legal, Kind.size]
    · simp [Arrival.Legal, Kind.size]
  have hs := h [⟨.int, [.accepted 4], .bytes 2⟩, ⟨.int, [.accepted 4], .bytes 2⟩]
    (by simpa using hlegal)
    [⟨.int 70000, .int 0, rfl, [.accepted 4], .bytes 2⟩, ⟨.int 5, .int 0, rfl, [.accepted 4], .bytes 2⟩] rfl
    [.int 4464, .int 1] (by decide)
  exact absurd hs (by decide)

end Td3.Server.Stream
