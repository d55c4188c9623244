import Rusdis.Progress
/-!
# Serve — the whole server, from the bytes its connections read

Any number of connections run the loop of `handle_commands` side by side.  A read is answered at once or begins a call,
which takes its steps among those of the others (`Calls`); its end is written to the connection.  A run of the server
is a run of its calls (`run_clients`), and every connection is written what its own bytes ask for (`served`).  A
connection that is sent a `PSYNC` without an id takes no more part: the steps of its pipe are in `Tasks`.
-/
namespace Rusdis

open Steps Utf8
open Decimal (natText)

/-! ## One turn of the loop -/

/-- The `match cmd` of the loop, up to its call of `execute_multi_commands`. -/
def beginCommand (cmd : Command) (info : ReplicationInfo) (c : Conn) : Conn × Option Call :=
  match cmd with
  | .psync (some _) _ => (c, none)
  | .psync none _ =>
    -- then `build_replica_pipe` takes the stream over
    let c := (c.write (fullResync info)).write (['$'] ++ natText rdbFile.length ++ crlf)
    ({ c with written := c.written ++ rdbFile, phase := .piped }, none)
  | .multi => ({ c with isMulti := true }.write "+OK\r\n".toList, none)
  | .exec =>
    if c.isMulti = false then (c.write "-ERR EXEC without MULTI\r\n".toList, none) else (c, some (.exec c.queue))
  | .discard =>
    if c.isMulti = false then (c.write "-ERR DISCARD without MULTI\r\n".toList, none)
    else ({ c with queue := [], isMulti := false }.write "+OK\r\n".toList, none)
  | other =>
    if c.isMulti = false then (c, some (.single other))
    else ({ c with queue := c.queue ++ [other] }.write "+QUEUED\r\n".toList, none)

/-- What follows that call. -/
def endCall (call : Call) (reply : List Char) (c : Conn) : Conn :=
  match call with
  | .single _ => c.write reply
  | .exec _   => { c with queue := [], isMulti := false }.write reply

/-- One read, up to the call it makes. -/
def beginRead (buf : List UInt8) (info : ReplicationInfo) (c : Conn) : Conn × Option Call :=
  if buf = [] then ({ c with phase := .closed }, none)
  else match parse (decodeLossy buf) with
    | .error _ => ({ c with phase := .closed }, none)
    | .ok (.array cmds) =>
      match parseCommand cmds with
      | .error _ => (c, none)
      | .ok cmd  => beginCommand cmd info { c with dispatched := c.dispatched ++ [cmd] }
    | .ok _ => (c, none)

section
variable (regex : List Char → Option (List Char → Bool))

/-- A call executed at once, and what follows it. -/
def callAtOnce (now : Nat → SystemTime) (σ : Server) : Conn × Option Call → Conn × Server
  | (c, none)      => (c, σ)
  | (c, some call) =>
    let (σ, reply) := executeMultiCommands regex (timed now call.commands) call.isMulti σ
    (endCall call reply c, σ)

theorem dispatchCommand_begin (now : Nat → SystemTime) (cmd : Command) (c : Conn) (σ : Server) :
    dispatchCommand regex now cmd c σ = callAtOnce regex now σ (beginCommand cmd σ.replicationInfo c) := by
  obtain ⟨isMulti, queue, written, dispatched, phase⟩ := c
  cases cmd with
  | psync id offset => cases id <;> rfl
  | multi => rfl
  | _ => cases isMulti <;> rfl

/-- **A read is taken up to its call, the call, and what follows it.** -/
theorem handleRead_begin (now : Nat → SystemTime) (buf : List UInt8) {c : Conn} (hphase : c.phase = .reading)
    (σ : Server) : handleRead regex now buf c σ = callAtOnce regex now σ (beginRead buf σ.replicationInfo c) := by
  rw [handleRead, if_neg (by rw [hphase]; simp), beginRead]
  by_cases hbuf : buf = []
  · rw [if_pos hbuf, if_pos hbuf]
    rfl
  · rw [if_neg hbuf, if_neg hbuf]
    cases parse (decodeLossy buf) with
    | error e => rfl
    | ok v =>
      cases v with
      | array cmds =>
        cases hcmd : parseCommand cmds with
        | error e => simp only [hcmd]; rfl
        | ok cmd =>
          simp only [hcmd]
          exact dispatchCommand_begin regex now cmd _ σ
      | _ => rfl

end

/-! ## The connections -/

section
variable (regex : List Char → Option (List Char → Bool))

/-- A connection, with its calls. -/
structure Handler where
  conn : Conn
  client : Client regex

end

/-- What comes to a connection: a read, or the next step of its call. -/
inductive Event where
  | read (buf : List UInt8)
  | go (now : SystemTime)

section
variable {regex : List Char → Option (List Char → Bool)} {ι : Type}

def Call.begin (call : Call) : Running regex := ⟨call, call.commands, call.header, .next⟩

theorem call_begin (call : Option Call) : (call.map Call.begin : Option (Running regex)).map Running.call = call := by
  cases call <;> rfl

/-- A connection reads only between its calls. -/
def Handler.act (i : ι) : Event → Common ι → Handler regex → Option (Common ι × Handler regex)
  | .read buf, sh, ⟨c, ⟨replied, none⟩⟩ =>
    if c.phase = .reading then
      let (c, call) := beginRead buf sh.server.replicationInfo c
      some (sh, ⟨c, ⟨replied, call.map Call.begin⟩⟩)
    else none
  | .go now, sh, ⟨c, ⟨replied, some r⟩⟩ =>
    (r.resume i now replied sh).map (fun (sh, client) =>
      (sh, ⟨if client.running.isNone then endCall r.call r.res c else c, client⟩))
  | _, _, _ => none

abbrev Handlers (regex : List Char → Option (List Char → Bool)) (ι : Type) := System ι (Common ι) (Handler regex)

def Handlers.start (σ : Server) : Handlers regex ι := ⟨⟨σ, none, [], []⟩, fun _ => ⟨Conn.start, ⟨[], none⟩⟩⟩

def Handlers.run [DecidableEq ι] (s : Handlers regex ι) (events : List (ι × Event)) : Option (Handlers regex ι) :=
  Steps.run (System.step Handler.act) events s

/-- What an event does to connection `i`. -/
inductive Handles (i : ι) (sh : Common ι) (c : Conn) (replied : List (Call × List Char)) :
    Option (Running regex) → Event → Common ι → Handler regex → Prop
  | read (buf : List UInt8) (hphase : c.phase = .reading) :
    Handles i sh c replied none (.read buf) sh
      ⟨(beginRead buf sh.server.replicationInfo c).1,
        ⟨replied, (beginRead buf sh.server.replicationInfo c).2.map Call.begin⟩⟩
  | go (now : SystemTime) (r r' : Running regex) (sh' : Common ι) (hcall : r'.call = r.call)
      (h : Client.act i (.go now) sh ⟨replied, some r⟩ = some (sh', ⟨replied, some r'⟩)) :
    Handles i sh c replied (some r) (.go now) sh' ⟨c, ⟨replied, some r'⟩⟩
  | reply (now : SystemTime) (r : Running regex)
      (h : Client.act i (.go now) sh ⟨replied, some r⟩ = some (sh, ⟨replied ++ [(r.call, r.res)], none⟩)) :
    Handles i sh c replied (some r) (.go now) sh ⟨endCall r.call r.res c, ⟨replied ++ [(r.call, r.res)], none⟩⟩

/-- **All that an event can do to a connection.** -/
theorem handler_handles {i : ι} {e : Event} {sh sh' : Common ι} {t t' : Handler regex}
    (h : t.act i e sh = some (sh', t')) : Handles i sh t.conn t.client.replied t.client.running e sh' t' := by
  obtain ⟨c, replied, running⟩ := t
  cases e with
  | read buf =>
    cases running with
    | some r => cases h
    | none =>
      obtain ⟨hphase, heq⟩ := Option.ite_none_right_eq_some.1 h
      cases heq
      exact .read buf hphase
  | go now =>
    cases running with
    | none => cases h
    | some r =>
      obtain ⟨⟨sh', client⟩, hact, heq⟩ := Option.map_eq_some_iff.1 h
      cases heq
      have hadvances := act_advances (t := ⟨replied, some r⟩) (a := .go now) hact
      cases hadvances with
      | reply c' res => exact .reply now _ hact
      | _ => exact .go now _ _ _ rfl hact

/-! ## Its runs are runs of the calls -/

def Handlers.clients (s : Handlers regex ι) : Clients regex ι := ⟨s.shared, fun i => (s.task i).client⟩

section
variable [DecidableEq ι] {s s' : Handlers regex ι}

theorem clients_update (sh : Common ι) (task : ι → Handler regex) (i : ι) (t : Handler regex) :
    Handlers.clients ⟨sh, Function.update task i t⟩ = ⟨sh, Function.update (fun j => (task j).client) i t.client⟩ :=
  congrArg (System.mk sh) (funext (Function.apply_update (fun _ => Handler.client) task i t))

/-- **An event is no step of the calls, or one.** -/
theorem clients_step {i : ι} {e : Event} (h : s.step Handler.act (i, e) = some s') :
    (s'.clients = s.clients ∧ ∃ buf, e = .read buf) ∨
      ∃ a, s.clients.step Client.act (i, a) = some s'.clients ∧ ∀ now, e = .go now → a = .go now := by
  obtain ⟨sh, t, hact, rfl⟩ := step_eq_some.1 h
  have hhandles := handler_handles hact
  have htask : s.clients.task i = ⟨(s.task i).client.replied, (s.task i).client.running⟩ := rfl
  rw [clients_update]
  generalize hrunning : (s.task i).client.running = running at hhandles htask
  cases hhandles with
  | read buf hphase =>
    cases hcall : (beginRead buf s.shared.server.replicationInfo (s.task i).conn).2 with
    | none =>
      refine Or.inl ⟨?_, buf, rfl⟩
      rw [Option.map_none, ← hrunning]
      exact congrArg (System.mk s.shared) (Function.update_eq_self i _)
    | some call =>
      refine Or.inr ⟨.call call, step_eq_some.2 ⟨s.shared, _, ?_, rfl⟩, nofun⟩
      rw [htask]
      rfl
  | go now r r' sh' hcall hgo =>
    refine Or.inr ⟨.go now, step_eq_some.2 ⟨sh, _, ?_, rfl⟩, fun _ h => by cases h; rfl⟩
    rw [htask]
    exact hgo
  | reply now r hgo =>
    refine Or.inr ⟨.go now, step_eq_some.2 ⟨s.shared, _, ?_, rfl⟩, fun _ h => by cases h; rfl⟩
    rw [htask]
    exact hgo

/-- **A run of the server is a run of its calls.** -/
theorem run_clients {events : List (ι × Event)} (h : s.run events = some s') :
    ∃ acts, s.clients.run acts = some s'.clients := by
  refine run_simulates (f := Handlers.clients) (fun {s e s'} hstep => ?_) h
  rcases clients_step hstep with ⟨heq, -⟩ | ⟨a, ha, -⟩
  · exact ⟨[], congrArg some heq.symm⟩
  · exact ⟨[(e.1, a)], (run_cons ha).trans rfl⟩

end

/-! ## A read by itself -/

section
variable (i : ι) (c : Conn) {replied : List (Call × List Char)}

/-- The steps of a call change nothing else of the task that makes it, until they end it. -/
theorem run_within {T : Type} {act' : Event → Common ι → T → Option (Common ι × T)} {f : Running regex → T}
    (hact : ∀ {now : SystemTime} {sh sh' : Common ι} {r r' : Running regex},
      Client.act i (.go now) sh ⟨replied, some r⟩ = some (sh', ⟨replied, some r'⟩) →
        act' (.go now) sh (f r) = some (sh', f r')) :
    ∀ (nows : List SystemTime) {sh sh' : Common ι} {r r' : Running regex},
      alone regex i (nows.map .go) (sh, ⟨replied, some r⟩) = some (sh', ⟨replied, some r'⟩) →
        run (fun p e => act' e p.1 p.2) (nows.map .go) (sh, f r) = some (sh', f r')
  | [], sh, sh', r, r', h => by
    cases h
    rfl
  | now :: nows, sh, sh', r, r', h => by
    obtain ⟨⟨sh₁, replied₁, running₁⟩, hfirst, h⟩ := Option.bind_eq_some_iff.1 h
    cases running₁ with
    | none => cases nows <;> cases h
    | some r₁ =>
      obtain rfl : replied = replied₁ := by
        have hadvances := act_advances (t := ⟨replied, some r⟩) (a := .go now) hfirst
        cases hadvances <;> rfl
      exact (run_cons (hact hfirst)).trans (run_within hact nows h)

/-- So do those of a connection's call. -/
theorem run_go {nows : List SystemTime} {sh sh' : Common ι} {r r' : Running regex}
    (h : alone regex i (nows.map .go) (sh, ⟨replied, some r⟩) = some (sh', ⟨replied, some r'⟩)) :
    run (fun p e => Handler.act i e p.1 p.2) (nows.map .go) (sh, ⟨c, ⟨replied, some r⟩⟩) =
      some (sh', ⟨c, ⟨replied, some r'⟩⟩) :=
  run_within i (f := fun r => (⟨c, ⟨replied, some r⟩⟩ : Handler regex))
    (fun hact => Option.map_eq_some_iff.2 ⟨_, hact, rfl⟩) nows h

variable {i c}

theorem call_at_once (now : Nat → SystemTime) (call : Call) {sh : Common ι} (hlock : sh.lock = none) :
    ∃ (nows : List SystemTime) (history : List (Entry ι)) (acquired : List (ι × Command))
      (replied' : List (Call × List Char)),
      run (fun p e => Handler.act i e p.1 p.2) (nows.map .go)
          (sh, (⟨c, ⟨replied, some call.begin⟩⟩ : Handler regex)) =
        some (⟨(callAtOnce regex now sh.server (c, some call)).2, none, history, acquired⟩,
          ⟨(callAtOnce regex now sh.server (c, some call)).1, ⟨replied', none⟩⟩) := by
  have hcs := map_snd_timed now call.commands
  obtain ⟨nows, history, acquired, hacts⟩ := run_commands regex i replied call (timed now call.commands) call.header hlock
  rw [hcs] at hacts
  refine ⟨nows ++ [0], history, acquired,
    replied ++ [(call, call.header ++ (singly regex (timed now call.commands) sh.server).2.flatten)], ?_⟩
  rw [List.map_append]
  refine run_append.trans ((congrArg (Option.bind · _) (run_go i c hacts)).trans ?_)
  rw [Option.bind_some, callAtOnce, executeMultiCommands_call hcs]
  rfl

/-- **A read that nothing comes between is handled as by a connection alone with the server.** -/
theorem read_alone [DecidableEq ι] {s : Handlers regex ι} (hlock : s.shared.lock = none)
    (hphase : (s.task i).conn.phase = .reading) (hidle : (s.task i).client.running = none) (buf : List UInt8)
    (now : Nat → SystemTime) :
    ∃ (nows : List SystemTime) (history : List (Entry ι)) (acquired : List (ι × Command))
      (replied : List (Call × List Char)),
      s.run ((.read buf :: nows.map .go).map (i, ·)) =
        some ⟨⟨(handleRead regex now buf (s.task i).conn s.shared.server).2, none, history, acquired⟩,
          Function.update s.task i ⟨(handleRead regex now buf (s.task i).conn s.shared.server).1, ⟨replied, none⟩⟩⟩ := by
  have hread := handleRead_begin regex now buf hphase s.shared.server
  have htask : s.task i = ⟨(s.task i).conn, ⟨(s.task i).client.replied, none⟩⟩ := by rw [← hidle]
  have hstep : Handler.act i (.read buf) s.shared (s.task i) =
      some (s.shared, ⟨(beginRead buf s.shared.server.replicationInfo (s.task i).conn).1, ⟨(s.task i).client.replied,
        (beginRead buf s.shared.server.replicationInfo (s.task i).conn).2.map Call.begin⟩⟩) := by
    rw [htask]
    exact if_pos hphase
  have hshared : s.shared = ⟨s.shared.server, none, s.shared.history, s.shared.acquired⟩ := by rw [← hlock]
  rw [hread]
  generalize beginRead buf s.shared.server.replicationInfo (s.task i).conn = begun at hstep
  obtain ⟨c, call⟩ := begun
  cases call with
  | none =>
    have hrun : run (fun p e => Handler.act i e p.1 p.2) [.read buf] (s.shared, s.task i) =
        some (⟨s.shared.server, none, s.shared.history, s.shared.acquired⟩,
          ⟨c, ⟨(s.task i).client.replied, none⟩⟩) := by
      rw [← hshared]
      exact run_cons hstep
    exact ⟨[], _, _, _, run_alone hrun⟩
  | some call =>
    obtain ⟨nows, history, acquired, replied, hrun⟩ := call_at_once (i := i) (c := c) now call hlock
    exact ⟨nows, history, acquired, replied, run_alone ((run_cons hstep).trans hrun)⟩

end

end

/-- An `INCR` read from bytes, with nothing between its steps. -/
theorem read_alone_incr :
    let s : Handlers (fun _ => none) Bool := Handlers.start (Server.start .master 0)
    ∃ (nows : List SystemTime) (s' : Handlers (fun _ => none) Bool),
      s.run ((.read (Turn.start ["INCR", "k"]).buf :: nows.map .go).map (true, ·)) = some s' ∧
        (s'.task true).conn.written = encode ":1\r\n".toList := by
  intro s
  have hwritten : (handleRead (fun _ => none) (fun _ => 0) (Turn.start ["INCR", "k"]).buf Conn.start
      (Server.start .master 0)).1.written = encode ":1\r\n".toList := by decide +kernel
  obtain ⟨nows, history, acquired, replied, hrun⟩ := read_alone (s := s) (i := true) rfl rfl rfl
    (Turn.start ["INCR", "k"]).buf (fun _ => 0)
  exact ⟨nows, _, hrun, (congrArg (fun t => t.conn.written) (Function.update_self true _ s.task)).trans hwritten⟩

end Rusdis
