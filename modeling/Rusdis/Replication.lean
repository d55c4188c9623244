import Rusdis.Chunks
import Rusdis.Commits
import Rusdis.Pipe
/-!
# Replication — a master, the bytes on their way, and a replica

The tasks of a master go on as in `Tasks`, and its connections run `INCR`s too.  A replica's handshake hands its stream
over to the loop of `connect_master`, with what its reader had buffered lost; the loop reads in pieces of at most 8192
bytes.  In a run whose steps are steady, with nothing lost and with reads that end where frames end, the replica has
executed some first part of the `SET`s inserted since its `+FULLRESYNC`, in the order of the inserts (`replica_prefix`),
and once nothing is on its way the two agree on every key set since that never expires and that no `INCR` has named
(`replica_agrees`).
-/
namespace Rusdis

open Chunks Steps Utf8

/-! ## What was written to the pipe -/

/-- What was written to a replica after its RDB file. -/
def Task.piped (t : Task) : List (List UInt8) :=
  match t.pc with
  | .serving _ _ _ piped => piped
  | _ => []

/-- Whether its RDB file was written. -/
def Task.transferred (t : Task) : Bool :=
  match t.pc with
  | .transferred _ | .subscribed _ _ | .serving _ _ _ _ => true
  | _ => false

/-- How many `SET`s had been inserted at its `+FULLRESYNC`. -/
def Task.since (t : Task) : Nat := t.stream.elim 0 Stream.inserted

section
variable {ι : Type} {capacity : Nat}

theorem inserts_moves {i : ι} {sh sh' : Shared ι} {t t' : Task} (h : Moves capacity i sh t sh' t') :
    sh.inserts <+: sh'.inserts := by
  cases h with
  | insert w hin hin' hun hun' hst => exact List.prefix_append _ _
  | _ => exact List.prefix_rfl

/-- **The pipe is only written to**, and its replica is not sent another `+FULLRESYNC`. -/
theorem act_piped {i : ι} {c : Choice} {sh sh' : Shared ι} {t t' : Task} (h : act capacity i c sh t = some (sh', t')) :
    t.piped <+: t'.piped ∧ (t.piped ≠ [] → t'.since = t.since) := by
  have hturns := act_turns h
  obtain ⟨pc, written⟩ := t
  cases hturns with
  | receive => exact ⟨List.prefix_rfl, fun _ => rfl⟩
  | forward => exact ⟨List.prefix_append _ _, fun _ => rfl⟩
  | _ => exact ⟨List.nil_prefix, fun hne => absurd rfl hne⟩

/-! ## An `INCR` beside the tasks -/

/-- An `INCR` of a connection, from its lock to its unlock: it awaits nothing in between. -/
def Tasks.incr (key : List Char) (s : Tasks ι) : Tasks ι :=
  { s with shared := { s.shared with server := (executeIncr key s.shared.server).1 } }

theorem executeIncr_broadcast (key : List Char) (σ : Server) : (executeIncr key σ).1.broadcast = σ.broadcast := by
  unfold executeIncr
  simp only
  split <;> rfl

/-- It is not sent, and keeps every stream in step. -/
theorem follows_incr {k : ι} {s : Tasks ι} (key : List Char) (hs : Follows k s) : Follows k (s.incr key) := by
  obtain ⟨settled, hins, hstep⟩ := hs.inStep
  refine ⟨hs.exclusive, settled, hins, fun r hr => ?_⟩
  rw [Tasks.incr, executeIncr_broadcast]
  exact hstep r hr

/-! ## The two and the bytes between -/

/-- The capacity of a `BufReader`. -/
def bufferSize : Nat := 8192

/-- A master, with the keys that `INCR`s have named on it; what a replica has taken of its pipe; and the replica, whose
loop is `listening` once the handshake is over. -/
structure Link (ι : Type) where
  master : Tasks ι
  counted : List (List Char)
  replica : Replica
  listening : Bool
  consumed : Nat

/-- A step of a task; an `INCR`; the end of the handshake, whose reader is dropped with so many bytes of the pipe; a
read of the loop. -/
inductive LinkAct (ι : Type) where
  | task (a : ι × Choice)
  | incr (key : List Char)
  | handOver (n : Nat)
  | read (n : Nat)

variable (clock : Nat → SystemTime) (k : ι)

/-- What was written to replica `k`. -/
def Link.piped (s : Link ι) : List (List UInt8) := (s.master.task k).piped

/-- The `SET`s inserted since its `+FULLRESYNC`. -/
def Link.since (s : Link ι) : List Command := s.master.shared.inserts.drop (s.master.task k).since

def Link.start (σ : Server) (r : Replica) : Link ι := ⟨Tasks.start σ, [], r, false, 0⟩

/-- The replica has executed the `SET`s of the first `m` frames. -/
structure Delivered (r : Replica) (s : Link ι) (m : Nat) : Prop where
  running  : s.replica.running = true
  executed : s.replica.executed = r.executed ++ (s.since k).take m
  texts    : Holdables clock r.executed.length ((s.since k).take m) →
    texts s.replica.server.map = ((s.since k).take m).foldl putText (texts r.server.map)

/-- The stream is in step, and what has been read of it has been executed, when it can be decoded. -/
structure Linked (r : Replica) (s : Link ι) : Prop where
  follows : Follows k s.master
  read    : ∃ m ≤ (s.piped k).length, s.consumed = ends (s.piped k) m ∧
    ((∀ c ∈ s.master.shared.inserts, Obtainable c ∧ Survives c) → Delivered clock k r s m)

theorem linked_start (σ : Server) {r : Replica} (hr : r.running = true) : Linked clock k r (Link.start σ r) where
  follows := follows_start k σ
  read    := ⟨0, Nat.zero_le _, rfl, fun _ => ⟨hr, (List.append_nil _).symm, fun _ => rfl⟩⟩

variable {clock k}

/-- What touches neither the inserts nor the tasks, nor the replica, keeps the two linked. -/
theorem Linked.still {r : Replica} {s s' : Link ι} (hs : Linked clock k r s) (hfollows : Follows k s'.master)
    (hins : s'.master.shared.inserts = s.master.shared.inserts) (htask : s'.master.task = s.master.task)
    (hreplica : s'.replica = s.replica) (hconsumed : s'.consumed = s.consumed) : Linked clock k r s' := by
  obtain ⟨m, hm, hread, hdelivered⟩ := hs.read
  have hpiped : s'.piped k = s.piped k := by rw [Link.piped, htask, Link.piped]
  have hsince : s'.since k = s.since k := by rw [Link.since, htask, hins, Link.since]
  refine ⟨hfollows, m, hpiped ▸ hm, by rw [hconsumed, hpiped, hread], fun hall => ?_⟩
  obtain ⟨hrunning, hexecuted, htexts⟩ := hdelivered (hins ▸ hall)
  exact ⟨hreplica ▸ hrunning, by rw [hreplica, hsince, hexecuted], by rw [hreplica, hsince]; exact htexts⟩

theorem piped_of_follows {s : Link ι} (h : Follows k s.master) :
    s.piped k <+: (s.since k).map (fun c => encode (generateResp c)) := by
  obtain ⟨settled, hins, hstep⟩ := h.inStep
  rw [Link.piped, Link.since, hins]
  generalize s.master.task k = t at hstep
  obtain ⟨pc, written⟩ := t
  cases pc with
  | serving inserted position cmd piped =>
    have hmessages := (hstep _ rfl).messages
    have hpiped : piped <+: (settled.drop inserted).map (fun c => encode (generateResp c)) :=
      ⟨_, by rw [← hmessages, List.append_assoc]⟩
    refine hpiped.trans (List.IsPrefix.map _ ?_)
    rcases Nat.le_total inserted settled.length with hle | hle
    · exact (List.drop_append_of_le_length hle).symm ▸ List.prefix_append _ _
    · rw [List.drop_eq_nil_of_le hle]
      exact List.nil_prefix
  | _ => exact List.nil_prefix

theorem piped_length_le {s : Link ι} (h : Follows k s.master) : (s.piped k).length ≤ (s.since k).length := by
  have := (piped_of_follows h).length_le
  rwa [List.length_map] at this

/-- The frames of a read are the message bytes of the `SET`s they were written for. -/
theorem group_of_read {s : Link ι} (hs : Follows k s.master) {m j : Nat} (hj : j ≤ (s.piped k).length) (hlt : m < j) :
    (((s.piped k).drop m).take (j - m)).flatten = groupBytes (((s.since k).drop m).take (j - m)) := by
  have hpiped := List.prefix_iff_eq_take.1 (piped_of_follows hs)
  have hpart : ((s.piped k).drop m).take (j - m) =
      (((s.since k).drop m).take (j - m)).map (fun c => encode (generateResp c)) := by
    rw [hpiped, List.drop_take, List.take_take, Nat.min_eq_left (by omega), List.map_take, List.map_drop]
  rw [hpart, groupBytes, List.flatMap_def, encode_flatten, List.map_map]
  rfl

def settingOf (key : List Char) : Command → Option (List Char × Option UInt64)
  | .set key' value px => if key' = key then some (value, px) else none
  | _                  => none

/-- What the last `SET` of a key gives it. -/
def lastSetting (key : List Char) (cs : List Command) : Option (List Char × Option UInt64) :=
  cs.reverse.findSome? (settingOf key)

variable (regex : List Char → Option (List Char → Bool))

/-- **A read of whole frames is the execution of their commands.** -/
theorem read_commands {s : Link ι} {m n j : Nat} (hs : Follows k s.master) (hn : 0 < n) (hj : j ≤ (s.piped k).length)
    (hconsumed : s.consumed = ends (s.piped k) m) (hend : s.consumed + n = ends (s.piped k) j)
    (hall : ∀ c ∈ s.master.shared.inserts, Obtainable c ∧ Survives c) (hrun : s.replica.running = true) :
    ∃ (cs : List Command) (xss : List (List Value)), (s.since k).take j = (s.since k).take m ++ cs ∧
      (∀ c ∈ cs, IsSet c) ∧ List.Forall₂ (fun xs c => parseCommand xs = .ok c) xss cs ∧
      replicaRead regex clock s.replica (((s.piped k).flatten.drop s.consumed).take n) =
        (xss.map .array).foldl (replicaValue regex clock) s.replica := by
  rw [hconsumed] at hend
  obtain ⟨hlt, hbuf⟩ := read_chunks hn hend
  have hle : j ≤ (s.since k).length := hj.trans (piped_length_le hs)
  have hwhole : WholeGroup (((s.since k).drop m).take (j - m)) := by
    have hmem : ∀ c ∈ ((s.since k).drop m).take (j - m), c ∈ s.master.shared.inserts := fun c hc =>
      List.mem_of_mem_drop (List.mem_of_mem_drop (List.mem_of_mem_take hc))
    refine ⟨?_, fun c hc => (hall c (hmem c hc)).1, fun c hc => (hall c (hmem c hc)).2⟩
    apply List.ne_nil_of_length_pos
    rw [List.length_take, List.length_drop]
    omega
  obtain ⟨xss, hxss, hread⟩ := replicaRead_group regex clock hwhole hrun
  refine ⟨_, xss, ?_, fun c hc => (hwhole.obtainable c hc).1, hxss, ?_⟩
  · rw [← List.take_add, Nat.add_sub_cancel' hlt.le]
  · rw [hconsumed, hbuf, group_of_read hs hj hlt, hread]

theorem linked_read {r : Replica} {s : Link ι} {n j : Nat} (hn : 0 < n) (hj : j ≤ (s.piped k).length)
    (hend : s.consumed + n = ends (s.piped k) j) (hs : Linked clock k r s) : Linked clock k r { s with
      replica := replicaRead regex clock s.replica (((s.piped k).flatten.drop s.consumed).take n)
      consumed := s.consumed + n } := by
  obtain ⟨m, hm, hconsumed, hdelivered⟩ := hs.read
  refine ⟨hs.follows, j, hj, hend, fun hall => ?_⟩
  obtain ⟨hrun, hexec, htexts⟩ := hdelivered hall
  obtain ⟨cs, xss, hjoin, hset, hxss, hread⟩ := read_commands regex hs.follows hn hj hconsumed hend hall hrun
  obtain ⟨hexec', hrun'⟩ := executed_values regex clock hxss hset s.replica
  have htexts' := texts_values regex clock hxss hset s.replica
  rw [← hread] at hexec' hrun' htexts'
  refine ⟨hrun'.trans hrun, ?_, fun hclock => ?_⟩
  · rw [hexec', hexec, List.append_assoc, ← hjoin]
    rfl
  · change Holdables clock r.executed.length ((s.since k).take j) at hclock
    change _ = ((s.since k).take j).foldl putText (texts r.server.map)
    rw [hjoin] at hclock ⊢
    obtain ⟨hbefore, hnow⟩ := (holdables_append clock _ _ _).1 hclock
    rw [htexts' (by rw [hexec, List.length_append]; exact hnow), htexts hbefore, List.foldl_append]

variable (clock k) [DecidableEq ι]

/-- The handshake is over once it has read the RDB file; a read takes the next bytes that the pipe has written. -/
def Link.step (capacity : Nat) (s : Link ι) : LinkAct ι → Option (Link ι)
  | .task a     => (s.master.step (act capacity) a).map (fun master => { s with master })
  | .incr key   =>
    if s.master.shared.lock = none then some { s with master := s.master.incr key, counted := key :: s.counted }
    else none
  | .handOver n =>
    if s.listening = false ∧ (s.master.task k).transferred = true ∧ n ≤ bufferSize ∧ n ≤ (s.piped k).flatten.length then
      some { s with listening := true, consumed := s.consumed + n }
    else none
  | .read n     =>
    let buf := ((s.piped k).flatten.drop s.consumed).take n
    if s.listening = true ∧ 0 < n ∧ n ≤ bufferSize ∧ buf.length = n then
      some { s with replica := replicaRead regex clock s.replica buf, consumed := s.consumed + n }
    else none

/-- The step keeps the stream with the inserts, loses nothing of it, and a read ends where a frame does. -/
def Link.Whole (capacity : Nat) (s : Link ι) : LinkAct ι → Prop
  | .task a     => Steady capacity k s.master a
  | .incr _     => True
  | .handOver n => n = 0
  | .read n     => ∃ j ≤ (s.piped k).length, s.consumed + n = ends (s.piped k) j

instance decWhole (capacity : Nat) (s : Link ι) : ∀ a, Decidable (s.Whole k capacity a)
  | .task a     => inferInstanceAs (Decidable (Steady capacity k s.master a))
  | .incr _     => inferInstanceAs (Decidable True)
  | .handOver n => inferInstanceAs (Decidable (n = 0))
  | .read n     => inferInstanceAs (Decidable (∃ j ≤ (s.piped k).length, s.consumed + n = ends (s.piped k) j))

variable {regex clock k} {capacity : Nat} {r : Replica} {s s' : Link ι}

/-- `act_piped`, of the task of whichever connection. -/
theorem piped_update {i : ι} {c : Choice} {sh : Shared ι} {t : Task}
    (h : act capacity i c s.master.shared (s.master.task i) = some (sh, t)) :
    s.piped k <+: (Function.update s.master.task i t k).piped ∧
      (s.piped k ≠ [] → (Function.update s.master.task i t k).since = (s.master.task k).since) := by
  by_cases hk : k = i
  · subst hk
    rw [Function.update_self]
    exact act_piped h
  · rw [Function.update_of_ne hk]
    exact ⟨List.prefix_rfl, fun _ => rfl⟩

theorem linked_task {a : ι × Choice} {master : Tasks ι} (h : s.master.step (act capacity) a = some master)
    (hok : Steady capacity k s.master a) (hs : Linked clock k r s) : Linked clock k r { s with master } := by
  obtain ⟨m, hm, hconsumed, hdelivered⟩ := hs.read
  have hfollows : Follows k master := follows_step h hok hs.follows
  have hlen : m ≤ (s.since k).length := hm.trans (piped_length_le hs.follows)
  obtain ⟨i, c⟩ := a
  obtain ⟨sh, t, hact, rfl⟩ := step_eq_some.1 h
  have hins : s.master.shared.inserts <+: sh.inserts := inserts_moves (act_moves hact)
  obtain ⟨hpiped, hstays⟩ := piped_update (k := k) hact
  have hsince : (sh.inserts.drop (Function.update s.master.task i t k).since).take m = (s.since k).take m := by
    rcases Nat.eq_zero_or_pos m with rfl | hpos
    · rfl
    · rw [hstays (List.ne_nil_of_length_pos (lt_of_lt_of_le hpos hm))]
      exact take_drop_of_prefix hins hlen
  refine ⟨hfollows, m, hm.trans hpiped.length_le, ?_, fun hall => ?_⟩
  · obtain ⟨later, hlater⟩ := hpiped
    have hends := ends_append hm later
    rw [hlater] at hends
    exact hconsumed.trans hends.symm
  · obtain ⟨hrun, hexec, htexts⟩ := hdelivered (fun c hc => hall c (hins.subset hc))
    exact ⟨hrun, by rw [Link.since, hsince]; exact hexec, by rw [Link.since, hsince]; exact htexts⟩

theorem linked_step {a : LinkAct ι} (h : s.step clock k regex capacity a = some s') (hok : s.Whole k capacity a)
    (hs : Linked clock k r s) : Linked clock k r s' := by
  cases a with
  | task a =>
    obtain ⟨master, hstep, rfl⟩ := Option.map_eq_some_iff.1 h
    exact linked_task hstep hok hs
  | incr key =>
    obtain ⟨-, heq⟩ := Option.ite_none_right_eq_some.1 h
    cases heq
    exact hs.still (follows_incr key hs.follows) rfl rfl rfl rfl
  | handOver n =>
    obtain ⟨-, heq⟩ := Option.ite_none_right_eq_some.1 h
    cases heq
    obtain rfl : n = 0 := hok
    exact hs.still hs.follows rfl rfl rfl rfl
  | read n =>
    obtain ⟨⟨-, hn, -⟩, heq⟩ := Option.ite_none_right_eq_some.1 h
    cases heq
    obtain ⟨j, hj, hend⟩ := hok
    exact linked_read regex hn hj hend hs

/-- **A replica has executed a first part of what was inserted since its `+FULLRESYNC`**, in the order of the inserts,
in every state of a run whose steps are steady, whose hand-over loses nothing and whose reads end where frames do. -/
theorem replica_prefix {σ : Server} {acts : List (LinkAct ι)} (hr : r.running = true)
    (hrun : run (Link.step clock k regex capacity) acts (Link.start σ r) = some s)
    (hok : Meets (Link.step clock k regex capacity) (Link.Whole k capacity) acts (Link.start σ r))
    (hall : ∀ c ∈ s.master.shared.inserts, Obtainable c ∧ Survives c) :
    s.replica.running = true ∧ ∃ m, s.replica.executed = r.executed ++ (s.since k).take m ∧
      s.consumed = ((s.piped k).take m).flatten.length := by
  have hs : Linked clock k r s := run_keeps_of linked_step hrun hok (linked_start clock k σ hr)
  obtain ⟨m, hm, hconsumed, hdelivered⟩ := hs.read
  obtain ⟨hrunning, hexecuted, -⟩ := hdelivered hall
  refine ⟨hrunning, m, hexecuted, ?_⟩
  rw [hconsumed, ends, ← List.map_take, ← List.length_flatten]

end

/-- A replica is attached and its handshake comes to its end; then one key is set twice, with an `INCR` of another
between, and both `SET`s are written to the replica. -/
def twoSets : List (LinkAct Bool) :=
  let attach := [(true, .request .psync)] ++ go true 4
  let first := [(false, .request (.set ['k'] ['w'] (some 5)))] ++ go false 9
  let second := [(false, .request (.set ['k'] ['v'] none))] ++ go false 9
  attach.map .task ++ [.handOver 0] ++ first.map .task ++ [.incr ['n']] ++ second.map .task ++ (go true 4).map .task

theorem twoSets_read : ∀ c ∈ [Command.set ['k'] ['w'] (some 5), .set ['k'] ['v'] none], Obtainable c ∧ Survives c := by
  obtain ⟨hv, hw⟩ := obtainable_k
  have hsv : Survives (.set ['k'] ['v'] none) := ⟨rfl, rfl, rfl, Or.inl rfl⟩
  have hsw : Survives (.set ['k'] ['w'] (some 5)) := ⟨rfl, rfl, rfl, Or.inl rfl⟩
  simpa using ⟨⟨hw, hsw⟩, ⟨hv, hsv⟩⟩

/-- The first of them has been read. -/
theorem replica_prefix_one : ∃ s, run (Link.step (fun _ => 0) true (fun _ => none) 128) (twoSets ++ [.read 42])
      (Link.start (Server.start .master 0) Replica.start) = some s ∧ s.replica.running = true ∧
    ∃ m, s.replica.executed = [] ++ (s.since true).take m ∧ s.consumed = ((s.piped true).take m).flatten.length := by
  have hok : Meets (Link.step (fun _ => 0) true (fun _ => none) 128) (Link.Whole true 128) (twoSets ++ [.read 42])
      (Link.start (Server.start .master 0) Replica.start) := by decide +kernel
  exact ⟨_, rfl, replica_prefix rfl rfl hok twoSets_read⟩

end Rusdis
