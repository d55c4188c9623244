import Rusdis.Asks
import Rusdis.Loop
/-!
# Follower — a replica that serves connections

The loop `connect_master` leaves behind runs beside the connections of `handle_commands`, which `main` accepts once it has
put the map of its RDB file in the place of the one the loop began with.  Whatever they do between its steps, the loop
executes the stream in its order, and counts and acknowledges it as if it were alone (`slave_follows`).
-/
namespace Rusdis

open Steps Utf8

/-! ## The tasks -/

section
variable (regex : List Char → Option (List Char → Bool))

/-- The connections, and the loop; the loop is the task without a number. -/
structure Slave (ι : Type) where
  shared : Common (Option ι)
  handler : ι → Handler regex
  loop : Loop regex

end

section
variable {regex : List Char → Option (List Char → Bool)} {ι : Type}

def Slave.start (σ : Server) : Slave regex ι := ⟨⟨σ, none, [], []⟩, fun _ => ⟨Conn.start, ⟨[], none⟩⟩, Loop.start⟩

/-- Its tasks, as those of the calls they make. -/
def Slave.callers (s : Slave regex ι) : Clients regex (Option ι) :=
  ⟨s.shared, fun j => j.elim s.loop.client (fun i => (s.handler i).client)⟩

/-- An event is no step of the calls, or one. -/
theorem handler_caller {i : ι} {e : Event} {sh sh' : Common ι} {t t' : Handler regex}
    (h : t.act i e sh = some (sh', t')) :
    sh' = sh ∧ t'.client = t.client ∨ Advances i sh t.client.replied t.client.running sh' t'.client := by
  have hhandles := handler_handles h
  have hclient : t.client = ⟨t.client.replied, t.client.running⟩ := rfl
  generalize t.client.running = running at hhandles hclient
  cases hhandles with
  | read buf hphase =>
    rw [hclient]
    cases (beginRead buf sh.server.replicationInfo t.conn).2 with
    | none => exact Or.inl ⟨rfl, rfl⟩
    | some call => exact Or.inr (.call call)
  | go now r r' sh' hcall hgo => exact Or.inr (act_advances hgo)
  | reply now r hgo => exact Or.inr (act_advances hgo)

variable [DecidableEq ι]

def Slave.step (s : Slave regex ι) : Option ι × Event → Option (Slave regex ι)
  | (some i, e) => ((s.handler i).act (some i) e s.shared).map (fun (shared, t) =>
      { s with shared, handler := Function.update s.handler i t })
  | (none, e) => (s.loop.act none e s.shared).map (fun (shared, loop) => { s with shared, loop })

theorem callers_handler (s : Slave regex ι) (sh : Common (Option ι)) (i : ι) (t : Handler regex) :
    Slave.callers { s with shared := sh, handler := Function.update s.handler i t } =
      ⟨sh, Function.update s.callers.task (some i) t.client⟩ := by
  refine congrArg (System.mk sh) (funext (fun j => ?_))
  cases j with
  | none => exact (Function.update_of_ne (Option.some_ne_none i).symm t.client s.callers.task).symm
  | some j =>
    by_cases hj : j = i
    · subst hj
      rw [Function.update_self]
      exact congrArg Handler.client (Function.update_self j t s.handler)
    · rw [Function.update_of_ne (fun heq => hj (Option.some.inj heq))]
      exact congrArg Handler.client (Function.update_of_ne hj t s.handler)

theorem callers_loop (s : Slave regex ι) (sh : Common (Option ι)) (l : Loop regex) :
    Slave.callers { s with shared := sh, loop := l } = ⟨sh, Function.update s.callers.task none l.client⟩ := by
  refine congrArg (System.mk sh) (funext (fun j => ?_))
  cases j with
  | none => exact (Function.update_self none l.client s.callers.task).symm
  | some j => exact (Function.update_of_ne (Option.some_ne_none j) l.client s.callers.task).symm

/-! ## The loop by itself -/

theorem run_loop : ∀ {events : List Event} {s : Slave regex ι} {p : Common (Option ι) × Loop regex},
    run (fun p e => Loop.act none e p.1 p.2) events (s.shared, s.loop) = some p →
      run Slave.step (events.map (none, ·)) s = some { s with shared := p.1, loop := p.2 }
  | [], s, p, h => by
    obtain rfl := Option.some.inj h
    rfl
  | e :: events, s, p, h => by
    obtain ⟨⟨sh, l⟩, hact, h⟩ := Option.bind_eq_some_iff.1 h
    have hstep : s.step (none, e) = some { s with shared := sh, loop := l } := Option.map_eq_some_iff.2 ⟨_, hact, rfl⟩
    exact (run_cons hstep).trans (run_loop (s := { s with shared := sh, loop := l }) h)

/-- **A read of the stream that nothing comes between is handled as by a replica alone**: it leaves the server, the
executed commands and what was written to the master as `replicaRead` does. -/
theorem follow_alone {s : Slave regex ι} (hlock : s.shared.lock = none) (hidle : s.loop.Idle) (buf : List UInt8)
    (clock : Nat → SystemTime) :
    ∃ (nows : List SystemTime) (history : List (Entry (Option ι))) (acquired : List (Option ι × Command))
      (replied : List (Call × List Char)),
      run Slave.step ((.read buf :: nows.map .go).map (none, ·)) s = some
        { s with
          shared := ⟨(replicaRead regex clock ⟨s.shared.server, s.loop.executed, s.loop.written, true⟩ buf).server, none,
            history, acquired⟩
          loop := (replicaRead regex clock ⟨s.shared.server, s.loop.executed, s.loop.written, true⟩ buf).loop regex []
            replied } := by
  obtain ⟨nows, history, acquired, replied, hrun⟩ := loop_read_alone none clock hlock hidle buf
  exact ⟨nows, history, acquired, replied, run_loop hrun⟩

/-- A replica reads a `SET` while its connections do nothing: it is executed and counted. -/
theorem follow_alone_set :
    let buf := encode "*3\r\n$3\r\nset\r\n$1\r\nk\r\n$1\r\nv\r\n".toList
    ∃ (nows : List SystemTime) (s : Slave (fun _ => none) Bool),
      run Slave.step ((.read buf :: nows.map .go).map (none, ·)) (Slave.start (Server.start .slave 0)) = some s ∧
      s.loop.executed = [.set ['k'] ['v'] none] ∧ s.shared.server.replicationInfo.masterReplOffset = 18 := by
  intro buf
  have hread : (fun r => (r.executed, r.server.replicationInfo.masterReplOffset))
      (replicaRead (fun _ => none) (fun _ => 0) ⟨Server.start .slave 0, [], [], true⟩ buf) =
        ([.set ['k'] ['v'] none], 18) := by decide +kernel
  obtain ⟨hexecuted, hcounted⟩ := Prod.mk.inj hread
  obtain ⟨nows, history, acquired, replied, hrun⟩ := follow_alone
    (s := (Slave.start (Server.start .slave 0) : Slave (fun _ => none) Bool)) rfl (by decide) buf (fun _ => 0)
  exact ⟨nows, _, hrun, hexecuted, hcounted⟩

/-! ## The process -/

/-- The call has the map's handle. -/
def Client.handles (t : Client regex) : Bool :=
  t.running.elim false (fun r => match r.point with
    | .fetched _ | .held _ | .done _ _ _ => true
    | .next | .ready _                   => false)

def Slave.load (map : DataMap) (s : Slave regex ι) : Slave regex ι :=
  { s with shared := { s.shared with server := { s.shared.server with map } } }

variable (regex ι) in
/-- The tasks, and whether `main` accepts connections; `base` is the map that is the process's since its load of an RDB
file, or from its start on, and `past` the number of the commands executed before. -/
structure Process where
  slave : Slave regex ι
  accepting : Bool
  base : DataMap
  past : Nat

/-- `main` comes to its accept loop, with the map of an RDB file when it has read one; or an event of a task. -/
inductive Happening (ι : Type) where
  | main (map : Option DataMap)
  | task (e : Option ι × Event)

def Process.start (σ : Server) : Process regex ι := ⟨Slave.start σ, false, σ.map, 0⟩

/-- The reads of connections that are modelled: `build_replica_pipe` is not, nor that `INFO` reads the replication info
once for each of its sections. -/
def Event.plain : Event → Bool
  | .go _     => true
  | .read buf =>
    match accepted buf with
    | some (.psync none _)       => false
    | some (.info (_ :: _ :: _)) => false
    | _                          => true

/-- The map is replaced while no call has its handle. -/
def Process.step (p : Process regex ι) : Happening ι → Option (Process regex ι)
  | .main none        => if p.accepting = false then some { p with accepting := true } else none
  | .main (some map)  =>
    if p.accepting = false ∧ p.slave.shared.lock = none ∧ p.slave.loop.client.handles = false then
      some ⟨p.slave.load map, true, map, p.slave.shared.history.length⟩
    else none
  | .task (none, e)   => (p.slave.step (none, e)).map (fun slave => { p with slave })
  | .task (some i, e) =>
    if p.accepting = true ∧ e.plain = true then (p.slave.step (some i, e)).map (fun slave => { p with slave }) else none

/-- All that a step of the process can do. -/
inductive Happens (p : Process regex ι) : Happening ι → Process regex ι → Prop
  | accept (haccept : p.accepting = false) : Happens p (.main none) { p with accepting := true }
  | load (map : DataMap) (haccept : p.accepting = false) (hlock : p.slave.shared.lock = none)
      (hhandles : p.slave.loop.client.handles = false) :
    Happens p (.main (some map)) ⟨p.slave.load map, true, map, p.slave.shared.history.length⟩
  | task (e : Option ι × Event) (slave : Slave regex ι) (hstep : p.slave.step e = some slave)
      (hopen : e.1 ≠ none → p.accepting = true ∧ e.2.plain = true) :
    Happens p (.task e) { p with slave }

theorem process_happens {p p' : Process regex ι} {e : Happening ι} (h : p.step e = some p') : Happens p e p' := by
  cases e with
  | main map =>
    cases map with
    | none =>
      obtain ⟨haccept, heq⟩ := Option.ite_none_right_eq_some.1 h
      cases heq
      exact .accept haccept
    | some map =>
      obtain ⟨⟨haccept, hlock, hhandles⟩, heq⟩ := Option.ite_none_right_eq_some.1 h
      cases heq
      exact .load map haccept hlock hhandles
  | task e =>
    obtain ⟨j, e⟩ := e
    cases j with
    | none =>
      obtain ⟨slave, hstep, rfl⟩ := Option.map_eq_some_iff.1 h
      exact .task _ slave hstep (fun hne => absurd rfl hne)
    | some i =>
      obtain ⟨hopen, h⟩ := Option.ite_none_right_eq_some.1 h
      obtain ⟨slave, hstep, rfl⟩ := Option.map_eq_some_iff.1 h
      exact .task _ slave hstep (fun _ => hopen)

/-! ## One order -/

/-- The commands and marks so far are in one order, the loop has obeyed these commands, and every call is answered. -/
structure Ordered (σ : Server) (cs : List Command) (log : List (Record (Option ι) Mark)) (s : Slave regex ι) :
    Prop where
  replays : Replays Server.mark σ log s.callers
  kept    : ∀ j, Kept s.shared.history j (s.callers.task j)
  obeys   : Obeys none σ.replicationInfo.masterReplOffset cs log s.shared.server s.loop

theorem ordered_start (σ : Server) : Ordered σ [] [] (Slave.start σ : Slave regex ι) := by
  have hstart : (Slave.start σ : Slave regex ι).callers = Clients.start σ :=
    congrArg (System.mk _) (funext (fun j => by cases j <;> rfl))
  refine ⟨?_, ?_, obeys_start none σ⟩
  · rw [hstart]
    exact replays_start Server.mark σ
  · rw [hstart]
    exact kept_start σ

/-- The commands an event brings on the stream. -/
def received : Happening ι → List Command
  | .task (none, .read buf) => streamed buf
  | .task (none, .go _)     => []
  | .task (some _, _)       => []
  | .main _                 => []

variable {σ : Server} {cs : List Command} {log : List (Record (Option ι) Mark)} {s s' : Slave regex ι}

theorem ordered_handler {i : ι} {e : Event} {sh : Common (Option ι)} {t : Handler regex} (hs : Ordered σ cs log s)
    (h : (s.handler i).act (some i) e s.shared = some (sh, t)) :
    ∃ new, Unloaded new ∧
      Ordered σ cs (log ++ new) { s with shared := sh, handler := Function.update s.handler i t } := by
  rcases handler_caller h with ⟨rfl, hclient⟩ | hadvances
  · refine ⟨[], unloaded_nil, ?_⟩
    rw [List.append_nil]
    refine ⟨?_, ?_, hs.obeys⟩
    · rw [callers_handler, hclient]
      exact (Function.update_eq_self (some i) s.callers.task).symm ▸ hs.replays
    · rw [callers_handler, hclient]
      exact (Function.update_eq_self (some i) s.callers.task).symm ▸ hs.kept
  · obtain ⟨new, -, hwho, hreplays⟩ := replays_advances (i := some i) hs.replays hadvances
    refine ⟨new.toList.map .inl, unloaded_inl _, ?_, ?_,
      hs.obeys.other (Option.some_ne_none i) hwho (advances_info hadvances)⟩
    · rw [callers_handler]
      exact hreplays
    · rw [callers_handler]
      exact kept_advances hs.kept hadvances

/-- The loop does nothing in a call. -/
theorem Ordered.quiet (hs : Ordered σ cs log s) {cs' : List Command} {l : Loop regex} (hclient : l.client = s.loop.client)
    (hobeys : Obeys none σ.replicationInfo.masterReplOffset cs' log s.shared.server l) :
    ∃ new, Unloaded new ∧ Ordered σ cs' (log ++ new) { s with loop := l } := by
  have hcallers : Slave.callers { s with loop := l } = s.callers := by
    have hupdate := callers_loop s s.shared l
    rw [hclient] at hupdate
    exact hupdate.trans (congrArg (System.mk s.shared) (Function.update_eq_self none s.callers.task))
  refine ⟨[], unloaded_nil, ?_⟩
  rw [List.append_nil]
  refine ⟨?_, ?_, hobeys⟩
  · rw [hcallers]
    exact hs.replays
  · rw [hcallers]
    exact hs.kept

/-- It takes a step of its call. -/
theorem Ordered.advance (hs : Ordered σ cs log s) {sh : Common (Option ι)} {l : Loop regex}
    (h : Advances none s.shared s.loop.client.replied s.loop.client.running sh l.client)
    (hobeys : ∀ new : Option (Entry (Option ι)), sh.history = s.shared.history ++ new.toList →
      (∀ e ∈ new, e.who = none) →
      (∀ e ∈ new, e.reply = (execute regex e.time e.command (replay regex Server.mark log σ)).2) →
        Obeys none σ.replicationInfo.masterReplOffset cs (log ++ new.toList.map .inl) sh.server l) :
    ∃ new, Unloaded new ∧ Ordered σ cs (log ++ new) { s with shared := sh, loop := l } := by
  obtain ⟨new, hhistory, hwho, hreplays⟩ := replays_advances (i := none) hs.replays h
  refine ⟨new.toList.map .inl, unloaded_inl _, ?_, ?_, hobeys new hhistory hwho (fun e he => ?_)⟩
  · rw [callers_loop]
    exact hreplays
  · rw [callers_loop]
    exact kept_advances (i := none) hs.kept h
  · obtain rfl := Option.mem_def.1 he
    exact hs.replays.answer hreplays hhistory

theorem ordered_loop {e : Event} {sh : Common (Option ι)} {l : Loop regex} (hs : Ordered σ cs log s)
    (h : s.loop.act none e s.shared = some (sh, l)) :
    ∃ new, Unloaded new ∧
      Ordered σ (cs ++ received (.task ((none : Option ι), e))) (log ++ new) { s with shared := sh, loop := l } := by
  have hloops := loop_loops h
  cases hloops with
  | read buf hidle =>
    refine hs.quiet ?_ (hs.obeys.read hidle buf)
    obtain ⟨values, running, heq⟩ := loop_read buf s.loop
    rw [heq]
  | count now n hcounting =>
    refine ⟨[.inr (.count n)], unloaded_count n, ⟨?_, ?_, ?_⟩⟩
    · rw [callers_loop]
      exact (Function.update_eq_self none s.callers.task).symm ▸ hs.replays.count n
    · rw [callers_loop]
      exact (Function.update_eq_self none s.callers.task).symm ▸ hs.kept
    · rw [received, List.append_nil]
      exact hs.obeys.count hcounting
  | skip now v values hcounting hrunning hvalues hcmd =>
    rw [received, List.append_nil]
    exact hs.quiet rfl (hs.obeys.skip hvalues hcmd)
  | call now v values cmd hcounting hrunning hvalues hcmd =>
    rw [received, List.append_nil]
    refine hs.advance ?_ (fun new hhistory _ _ => ?_)
    · rw [hrunning]
      exact .call (.single cmd)
    · obtain rfl : new = none := Option.toList_eq_nil_iff.1 (List.self_eq_append_right.1 hhistory)
      rw [Option.toList_none, List.map_nil, List.append_nil]
      exact hs.obeys.call hcounting hrunning hvalues hcmd
  | go now r r' sh' hcounting hrunning hcall hgo =>
    rw [received, List.append_nil]
    have hadvances := act_advances hgo
    refine hs.advance hadvances (fun new hhistory hwho hanswer => ?_)
    rw [hrunning] at hadvances
    obtain ⟨htaken, hres⟩ := advances_taken hadvances rfl hhistory
    refine hs.obeys.go hrunning hcall hwho htaken hres (fun e he sub hsub => ?_) (advances_info hadvances)
    have hinfo : s.shared.server.replicationInfo = (replay regex Server.mark log σ).replicationInfo :=
      hs.replays.frame.2
    rw [hanswer e he, hsub, hinfo]
    exact congrArg encode (getack_request _)
  | reply now r hcounting hrunning hpoint hrest hgo =>
    rw [received, List.append_nil]
    have hadvances := act_advances hgo
    refine hs.advance ?_ (fun new hhistory _ _ => ?_)
    · rw [client_endCall]
      exact hadvances
    · obtain rfl : new = none := Option.toList_eq_nil_iff.1 (List.self_eq_append_right.1 hhistory)
      rw [Option.toList_none, List.map_nil, List.append_nil]
      exact hs.obeys.reply hrunning (by rw [hpoint, hrest]; rfl) _

theorem ordered_step {e : Option ι × Event} (hs : Ordered σ cs log s) (h : s.step e = some s') :
    ∃ new, Unloaded new ∧ Ordered σ (cs ++ received (.task e)) (log ++ new) s' := by
  obtain ⟨j, e⟩ := e
  cases j with
  | none =>
    obtain ⟨⟨sh, l⟩, hact, rfl⟩ := Option.map_eq_some_iff.1 h
    exact ordered_loop hs hact
  | some i =>
    obtain ⟨⟨sh, t⟩, hact, rfl⟩ := Option.map_eq_some_iff.1 h
    rw [received, List.append_nil]
    exact ordered_handler hs hact

theorem Ordered.load (hs : Ordered σ cs log s) (hlock : s.shared.lock = none) (map : DataMap) :
    Ordered σ cs (log ++ [.inr (.load map)]) (s.load map) where
  replays := hs.replays.load hlock map
  kept    := hs.kept
  obeys   := hs.obeys.load map

/-- An order of the process, in two parts: up to `main`'s load of an RDB file, and since. -/
structure Processed (σ : Server) (cs : List Command) (before later : List (Record (Option ι) Mark))
    (p : Process regex ι) : Prop where
  ordered  : Ordered σ cs (before ++ later) p.slave
  unloaded : Unloaded later
  base     : (replay regex Server.mark before σ).map = p.base
  past     : (before.filterMap Sum.getLeft?).length = p.past

theorem processed_start (σ : Server) : Processed σ [] [] [] (Process.start σ : Process regex ι) where
  ordered  := ordered_start σ
  unloaded := unloaded_nil
  base     := rfl
  past     := rfl

variable {before later : List (Record (Option ι) Mark)} {p p' : Process regex ι}

theorem processed_step {e : Happening ι} (hp : Processed σ cs before later p) (h : p.step e = some p') :
    ∃ before' later', Processed σ (cs ++ received e) before' later' p' := by
  have hhappens := process_happens h
  cases hhappens with
  | accept haccept =>
    rw [received, List.append_nil]
    exact ⟨before, later, hp.ordered, hp.unloaded, hp.base, hp.past⟩
  | load map haccept hlock hhandles =>
    rw [received, List.append_nil]
    refine ⟨before ++ later ++ [.inr (.load map)], [], ?_, unloaded_nil, ?_, ?_⟩
    · rw [List.append_nil]
      exact hp.ordered.load hlock map
    · rw [replay_concat]
      rfl
    · rw [List.filterMap_append, hp.ordered.replays.history]
      exact congrArg List.length (List.append_nil _)
  | task e slave hstep hopen =>
    obtain ⟨new, hnew, hordered⟩ := ordered_step hp.ordered hstep
    rw [List.append_assoc] at hordered
    exact ⟨before, later ++ new, hordered, hp.unloaded.append hnew, hp.base, hp.past⟩

theorem processed_run : ∀ {events : List (Happening ι)} {p p' : Process regex ι} {cs : List Command}
    {before later : List (Record (Option ι) Mark)}, Processed σ cs before later p →
      run Process.step events p = some p' →
        ∃ before' later', Processed σ (cs ++ events.flatMap received) before' later' p'
  | [], p, p', cs, before, later, hp, h => by
    obtain rfl := Option.some.inj h
    exact ⟨before, later, by rwa [List.flatMap_nil, List.append_nil]⟩
  | e :: events, p, p', cs, before, later, hp, h => by
    obtain ⟨q, hq, h⟩ := Option.bind_eq_some_iff.1 h
    obtain ⟨before₁, later₁, hp₁⟩ := processed_step hp hq
    obtain ⟨before', later', hp'⟩ := processed_run hp₁ h
    rw [List.append_assoc] at hp'
    exact ⟨before', later', hp'⟩

/-- What a run of the process has led to: one order of all commands and marks, of which the loop's are those of the
stream up to the ones it has still to take. -/
structure Followed (σ : Server) (events : List (Happening ι)) (log : List (Record (Option ι) Mark))
    (s : Slave regex ι) : Prop where
  history  : log.filterMap Sum.getLeft? = s.shared.history
  replies  : answers regex Server.mark log σ = s.shared.history.map Entry.reply
  server   : s.shared.lock = none → s.shared.server = replay regex Server.mark log σ
  returned : ∀ i k call reply, (s.handler i).client.replied[k]? = some (call, reply) →
    Returns (entries s.shared.history (some i) k) call reply
  stream   : s.loop.executed ++ s.loop.underway ++ s.loop.values.filterMap Value.command = events.flatMap received
  log      : own none log ++ s.loop.counting.toList.map .inr ++ s.loop.waiting.map .inl =
    s.loop.executed.flatMap marks ++ s.loop.underway.map .inl
  counted  : s.shared.server.replicationInfo.masterReplOffset + s.loop.counting.getD 0 =
    s.loop.executed.foldl addLength σ.replicationInfo.masterReplOffset
  written  : s.loop.written = acks σ.replicationInfo.masterReplOffset s.loop.executed

theorem Ordered.followed {events : List (Happening ι)} (hs : Ordered σ (events.flatMap received) log s) :
    Followed σ events log s where
  history  := hs.replays.history
  replies  := hs.replays.replies
  server   := hs.replays.server
  returned := fun i _ _ _ hget => (hs.kept (some i)).finished hget
  stream   := hs.obeys.stream
  log      := hs.obeys.log
  counted  := hs.obeys.counted
  written  := hs.obeys.written

end

end Rusdis
