import Rusdis.Serve
/-!
# Asks — what the bytes of a connection ask for

The commands a connection's reads are taken for ask for bytes at once or for a call, by the commands queued before
them (`asks`).  Whatever the other connections do between, its calls are those it asks for, and it has been written
what it asks for with their replies filled in, up to the call under way (`served`).  That is of the connections that
stay in `handle_commands`: one that sends a `PSYNC` without an id becomes a replica's pipe, whose steps are in `Tasks`.
-/
namespace Rusdis

open Steps Utf8
open Decimal (natText)

/-- The command a read is taken for. -/
def accepted (buf : List UInt8) : Option Command :=
  match parse (decodeLossy buf) with
  | .ok (.array cmds) => (parseCommand cmds).toOption
  | _ => none

/-- Bytes at once, or the reply of a call. -/
abbrev Ask := List UInt8 ⊕ Call

section
variable (info : ReplicationInfo)

/-- The commands queued after a command, and what it asks for. -/
def ask (cmd : Command) (queued : Option (List Command)) : Option (List Command) × Ask :=
  match cmd, queued with
  | .psync (some _) _, queued      => (queued, .inl [])
  | .psync none _,     queued      =>
    (queued, .inl (encode (fullResync info) ++ encode (['$'] ++ natText rdbFile.length ++ crlf) ++ rdbFile))
  | .multi,            queued      => (some (queued.getD []), .inl (encode "+OK\r\n".toList))
  | .exec,             none        => (none, .inl (encode "-ERR EXEC without MULTI\r\n".toList))
  | .exec,             some queued => (none, .inr (.exec queued))
  | .discard,          none        => (none, .inl (encode "-ERR DISCARD without MULTI\r\n".toList))
  | .discard,          some _      => (none, .inl (encode "+OK\r\n".toList))
  | cmd,               none        => (none, .inr (.single cmd))
  | cmd,               some queued => (some (queued ++ [cmd]), .inl (encode "+QUEUED\r\n".toList))

def asks : List Command → Option (List Command) → Option (List Command) × List Ask
  | [],        queued => (queued, [])
  | cmd :: cs, queued =>
    let (queued, a) := ask info cmd queued
    let (queued, as) := asks cs queued
    (queued, a :: as)

theorem asks_concat (cmd : Command) : ∀ (cs : List Command) (queued : Option (List Command)),
    asks info (cs ++ [cmd]) queued =
      ((ask info cmd (asks info cs queued).1).1, (asks info cs queued).2 ++ [(ask info cmd (asks info cs queued).1).2])
  | [],      _      => rfl
  | c :: cs, queued => by
    simp only [List.cons_append, asks, asks_concat cmd cs]

end

def callsOf (as : List Ask) : List Call := as.filterMap Sum.getRight?

/-- What is asked for, with these replies, up to the first call that has none. -/
def fill : List Ask → List (List Char) → List UInt8
  | .inl buf :: as, rs      => buf ++ fill as rs
  | .inr _ :: as,   r :: rs => encode r ++ fill as rs
  | _,              _       => []

/-- **What is filled in is filled in call by call.** -/
theorem fill_append : ∀ {as : List Ask} {rs : List (List Char)}, (callsOf as).length = rs.length →
    ∀ (bs : List Ask) (rs' : List (List Char)),
      fill (as ++ bs) (rs ++ rs') = fill as rs ++ fill bs rs'
  | [], rs, h, bs, rs' => by
    obtain rfl := List.length_eq_zero_iff.1 h.symm
    rfl
  | .inl buf :: as, rs, h, bs, rs' => by
    have ih : fill (as ++ bs) (rs ++ rs') = fill as rs ++ fill bs rs' := @fill_append as rs h bs rs'
    rw [List.cons_append, fill, fill, ih, List.append_assoc]
  | .inr _ :: as, [], h, bs, rs' => by cases h
  | .inr _ :: as, r :: rs, h, bs, rs' => by
    rw [List.cons_append, List.cons_append, fill, fill, fill_append (Nat.succ.inj h) bs rs', List.append_assoc]

/-! ## One read -/

/-- What the connection has queued, once the call it makes has come to its end. -/
def Conn.Holds (queued : Option (List Command)) : Option Call → Conn → Prop
  | none,             c => c.isMulti = queued.isSome ∧ c.queue = queued.getD []
  | some (.single _), c => queued = none ∧ c.isMulti = false ∧ c.queue = []
  | some (.exec _),   _ => queued = none

theorem holds_endCall {queued : Option (List Command)} {call : Call} {c : Conn} (h : c.Holds queued (some call))
    (reply : List Char) : (endCall call reply c).Holds queued none := by
  cases call with
  | single cmd =>
    obtain ⟨rfl, hmulti, hqueue⟩ := h
    exact ⟨hmulti, hqueue⟩
  | exec queue =>
    obtain rfl : queued = none := h
    exact ⟨rfl, rfl⟩

theorem written_endCall (call : Call) (reply : List Char) (c : Conn) :
    (endCall call reply c).written = c.written ++ encode reply ∧ (endCall call reply c).dispatched = c.dispatched := by
  cases call <;> exact ⟨rfl, rfl⟩

/-- **A command is taken as it asks.** -/
theorem beginCommand_ask (cmd : Command) (info : ReplicationInfo) {c : Conn} {queued : Option (List Command)}
    (h : c.Holds queued none) :
    (beginCommand cmd info c).2 = (ask info cmd queued).2.getRight? ∧
      (beginCommand cmd info c).1.written = c.written ++ fill [(ask info cmd queued).2] [] ∧
      (beginCommand cmd info c).1.dispatched = c.dispatched ∧
      (beginCommand cmd info c).1.Holds (ask info cmd queued).1 (beginCommand cmd info c).2 := by
  obtain ⟨isMulti, queue, written, dispatched, phase⟩ := c
  obtain ⟨hmulti, hqueue⟩ := h
  have hpsync : ∀ file : List UInt8, (((Conn.write (fullResync info) ⟨isMulti, queue, written, dispatched, phase⟩).write
      (['$'] ++ natText rdbFile.length ++ crlf)).written ++ file) = written ++ fill [.inl (encode (fullResync info) ++
        encode (['$'] ++ natText rdbFile.length ++ crlf) ++ file)] [] := by
    intro file
    simp only [Conn.write, fill, List.append_nil, List.append_assoc]
  have hbytes : ∀ buf : List UInt8, written ++ buf = written ++ fill [.inl buf] [] := fun buf =>
    congrArg (written ++ ·) (List.append_nil buf).symm
  cases queued with
  | none =>
    obtain rfl : isMulti = false := hmulti
    obtain rfl : queue = [] := hqueue
    cases cmd with
    | psync id offset =>
      cases id with
      | none => exact ⟨rfl, hpsync rdbFile, rfl, rfl, rfl⟩
      | some id => exact ⟨rfl, (List.append_nil _).symm, rfl, rfl, rfl⟩
    | multi | exec | discard => exact ⟨rfl, hbytes _, rfl, rfl, rfl⟩
    | _ => exact ⟨rfl, (List.append_nil _).symm, rfl, rfl, rfl, rfl⟩
  | some queued =>
    obtain rfl : isMulti = true := hmulti
    obtain rfl : queue = queued := hqueue
    cases cmd with
    | psync id offset =>
      cases id with
      | none => exact ⟨rfl, hpsync rdbFile, rfl, rfl, rfl⟩
      | some id => exact ⟨rfl, (List.append_nil _).symm, rfl, rfl, rfl⟩
    | exec => exact ⟨rfl, (List.append_nil _).symm, rfl, rfl⟩
    | _ => exact ⟨rfl, hbytes _, rfl, rfl, rfl⟩

/-- A read is taken for a command, or it changes nothing but that it may close the connection. -/
theorem beginRead_cases (buf : List UInt8) (info : ReplicationInfo) (c : Conn) :
    (∃ cmd, accepted buf = some cmd ∧
      beginRead buf info c = beginCommand cmd info { c with dispatched := c.dispatched ++ [cmd] }) ∨
    (accepted buf = none ∧ ∃ phase, beginRead buf info c = ({ c with phase := phase }, none)) := by
  unfold beginRead accepted
  by_cases hbuf : buf = []
  · subst hbuf
    rw [if_pos rfl]
    have hnil : parse (decodeLossy []) = .error _ := parse_nil
    exact Or.inr ⟨by rw [hnil], _, rfl⟩
  · rw [if_neg hbuf]
    cases parse (decodeLossy buf) with
    | error e => exact Or.inr ⟨rfl, _, rfl⟩
    | ok v =>
      cases v with
      | array cmds =>
        cases hcmd : parseCommand cmds with
        | error e => exact Or.inr ⟨by simp only [hcmd]; rfl, c.phase, by simp only [hcmd]⟩
        | ok cmd => exact Or.inl ⟨cmd, by simp only [hcmd]; rfl, by simp only [hcmd]⟩
      | _ => exact Or.inr ⟨rfl, c.phase, rfl⟩

/-- A connection becomes a pipe only where a `PSYNC` without an id came to it. -/
def Conn.Detached (c : Conn) : Prop := c.phase = .piped → ∃ cmd ∈ c.dispatched, Detaches cmd

theorem detached_beginCommand (cmd : Command) (info : ReplicationInfo) {c : Conn} (h : c.Detached)
    (hmem : cmd ∈ c.dispatched) : (beginCommand cmd info c).1.Detached := by
  obtain ⟨isMulti, queue, written, dispatched, phase⟩ := c
  cases cmd with
  | psync id offset =>
    cases id with
    | none => exact fun _ => ⟨_, hmem, offset, rfl⟩
    | some id => exact h
  | multi => exact h
  | _ => cases isMulti <;> exact h

theorem detached_beginRead (buf : List UInt8) (info : ReplicationInfo) {c : Conn} (h : c.Detached) :
    (beginRead buf info c).1.Detached := by
  unfold beginRead
  split
  · exact nofun
  · split
    · exact nofun
    · split
      · exact h
      · refine detached_beginCommand _ info (fun hphase => ?_) (List.mem_append_right _ (List.mem_singleton_self _))
        obtain ⟨cmd, hcmd, hdetaches⟩ := h hphase
        exact ⟨cmd, List.mem_append_left _ hcmd, hdetaches⟩
    · exact h

theorem detached_endCall (call : Call) (reply : List Char) {c : Conn} (h : c.Detached) :
    (endCall call reply c).Detached := by
  cases call <;> exact h

/-! ## One connection -/

theorem callsOf_append (as bs : List Ask) : callsOf (as ++ bs) = callsOf as ++ callsOf bs := List.filterMap_append

section
variable {regex : List Char → Option (List Char → Bool)}

/-- A connection has called, and has been written, what is asked for; the call under way is the last of it. -/
structure Responds (queued : Option (List Command)) (as : List Ask) (t : Handler regex) : Prop where
  calls   : t.client.calls = callsOf as
  written : t.conn.written = fill as (t.client.replied.map Prod.snd)
  last    : ∀ r ∈ t.client.running, ∃ bs, as = bs ++ [.inr r.call]
  holds   : t.conn.Holds queued (t.client.running.map Running.call)

theorem responds_start : Responds none [] (⟨Conn.start, ⟨[], none⟩⟩ : Handler regex) :=
  ⟨rfl, rfl, (fun _ hr => nomatch hr), rfl, rfl⟩

variable {queued : Option (List Command)} {as : List Ask} {c : Conn} {replied : List (Call × List Char)}

theorem Responds.command (h : Responds queued as (⟨c, ⟨replied, none⟩⟩ : Handler regex)) (cmd : Command)
    (info : ReplicationInfo) :
    Responds (ask info cmd queued).1 (as ++ [(ask info cmd queued).2])
      (⟨(beginCommand cmd info c).1, ⟨replied, (beginCommand cmd info c).2.map Call.begin⟩⟩ : Handler regex) := by
  obtain ⟨hcall, hwritten, -, hholds⟩ := beginCommand_ask cmd info h.holds
  have hcalls : replied.map Prod.fst = callsOf as := by
    rw [← h.calls, Client.calls]
    simp
  have hlen : (callsOf as).length = (replied.map Prod.snd).length := by rw [← hcalls]; simp
  refine ⟨?_, ?_, fun r hr => ?_, ?_⟩
  · rw [callsOf_append, ← hcalls, hcall]
    cases (ask info cmd queued).2 <;> rfl
  · have hfill := fill_append hlen [(ask info cmd queued).2] []
    rw [List.append_nil] at hfill
    exact (hwritten.trans (congrArg (· ++ _) h.written)).trans hfill.symm
  · rw [hcall] at hr
    refine ⟨as, ?_⟩
    cases hask : (ask info cmd queued).2 with
    | inl buf => rw [hask] at hr; cases hr
    | inr call => rw [hask] at hr; cases hr; rfl
  · simp only [call_begin]
    exact hholds

theorem Responds.go {r r' : Running regex} (h : Responds queued as ⟨c, ⟨replied, some r⟩⟩) (hcall : r'.call = r.call) :
    Responds queued as ⟨c, ⟨replied, some r'⟩⟩ := by
  refine ⟨?_, h.written, fun q hq => ?_, ?_⟩
  · exact (congrArg (fun call => replied.map Prod.fst ++ [call]) hcall).trans h.calls
  · obtain rfl := Option.some.inj hq
    rw [hcall]
    exact h.last r rfl
  · exact (congrArg (fun call => c.Holds queued (some call)) hcall).mpr h.holds

theorem Responds.reply {r : Running regex} (h : Responds queued as ⟨c, ⟨replied, some r⟩⟩) :
    Responds queued as (⟨endCall r.call r.res c, ⟨replied ++ [(r.call, r.res)], none⟩⟩ : Handler regex) := by
  obtain ⟨bs, rfl⟩ := h.last r rfl
  have hcalls : replied.map Prod.fst = callsOf bs := by
    have hcalls := h.calls
    rw [callsOf_append] at hcalls
    exact List.append_cancel_right hcalls
  have hlen : (callsOf bs).length = (replied.map Prod.snd).length := by rw [← hcalls]; simp
  refine ⟨?_, ?_, (fun _ hr => nomatch hr), holds_endCall h.holds r.res⟩
  · rw [← h.calls]
    simp [Client.calls]
  · have hbefore := fill_append hlen [.inr r.call] []
    have hafter := fill_append hlen [.inr r.call] [r.res]
    rw [List.append_nil] at hbefore
    rw [(written_endCall r.call r.res c).1, List.map_append, List.map_singleton, hafter]
    have hwritten := h.written
    simp only [hbefore] at hwritten
    rw [hwritten]
    simp [fill]

/-! ## Whole runs -/

/-- The command an event brings. -/
def Event.commands : Event → List Command
  | .read buf => (accepted buf).toList
  | .go _     => []

section
variable {ι : Type} {info : ReplicationInfo}

/-- The connection has been asked for what its commands ask for. -/
abbrev Handler.Responds (info : ReplicationInfo) (t : Handler regex) : Prop :=
  Rusdis.Responds (asks info t.conn.dispatched none).1 (asks info t.conn.dispatched none).2 t

theorem responds_handles {i : ι} {sh sh' : Common ι} {running : Option (Running regex)} {e : Event} {t' : Handler regex}
    (h : Handles i sh c replied running e sh' t') (hinfo : sh.server.replicationInfo = info)
    (hc : Handler.Responds info ⟨c, ⟨replied, running⟩⟩) :
    t'.Responds info ∧ t'.conn.dispatched = c.dispatched ++ e.commands := by
  cases h with
  | read buf hphase =>
    rw [hinfo]
    rcases beginRead_cases buf info c with ⟨cmd, hcmd, hbegin⟩ | ⟨hnone, phase, hbegin⟩
    · have hc' : Rusdis.Responds (asks info c.dispatched none).1 (asks info c.dispatched none).2
          (⟨{ c with dispatched := c.dispatched ++ [cmd] }, ⟨replied, none⟩⟩ : Handler regex) :=
        ⟨hc.calls, hc.written, (fun _ hr => nomatch hr), hc.holds⟩
      have hdispatched := (beginCommand_ask cmd info hc'.holds).2.2.1
      rw [hbegin, Event.commands, hcmd]
      refine ⟨?_, hdispatched⟩
      rw [Handler.Responds, hdispatched, asks_concat]
      exact hc'.command cmd info
    · rw [hbegin, Event.commands, hnone]
      exact ⟨⟨hc.calls, hc.written, (fun _ hr => nomatch hr), hc.holds⟩, (List.append_nil _).symm⟩
  | go now r r' sh' hcall hgo => exact ⟨hc.go hcall, (List.append_nil _).symm⟩
  | reply now r hgo =>
    have hdispatched := (written_endCall r.call r.res c).2
    refine ⟨?_, hdispatched.trans (List.append_nil _).symm⟩
    rw [Handler.Responds, hdispatched]
    exact hc.reply

/-- The commands that came to connection `i`. -/
def commands [DecidableEq ι] (i : ι) (events : List (ι × Event)) : List Command :=
  events.flatMap (fun e => if e.1 = i then e.2.commands else [])

theorem singly_info : ∀ (cs : List (SystemTime × Command)) (σ : Server),
    (singly regex cs σ).1.replicationInfo = σ.replicationInfo
  | [], _ => rfl
  | (now, cmd) :: cs, σ => by
    rw [singly_cons]
    exact (singly_info cs _).trans (execute_frame regex now cmd σ).2.1

variable [DecidableEq ι] {σ : Server} {s s' : Handlers regex ι}

theorem serial_clients {e : ι × Event} (h : s.step Handler.act e = some s') (hs : Serial σ s.clients) :
    Serial σ s'.clients := by
  rcases clients_step h with ⟨heq, -⟩ | ⟨a, ha, -⟩
  · rwa [heq]
  · exact serial_step ha hs

theorem responds_step {e : ι × Event} (h : s.step Handler.act e = some s') (hs : Serial σ s.clients)
    (hr : ∀ j, (s.task j).Responds σ.replicationInfo) (j : ι) : (s'.task j).Responds σ.replicationInfo ∧
      (s'.task j).conn.dispatched = (s.task j).conn.dispatched ++ commands j [e] := by
  obtain ⟨i, e⟩ := e
  obtain ⟨sh, t, hact, rfl⟩ := step_eq_some.1 h
  have hinfo : s.shared.server.replicationInfo = σ.replicationInfo := hs.frame.2.trans (singly_info _ σ)
  obtain ⟨hresponds, hdispatched⟩ := responds_handles (handler_handles hact) hinfo (hr i)
  simp only [commands, List.flatMap_cons, List.flatMap_nil, List.append_nil]
  by_cases hj : j = i
  · subst hj
    rw [Function.update_self, if_pos rfl]
    exact ⟨hresponds, hdispatched⟩
  · rw [Function.update_of_ne hj, if_neg (Ne.symm hj), List.append_nil]
    exact ⟨hr j, rfl⟩

theorem responds_run : ∀ {events : List (ι × Event)} {s s' : Handlers regex ι}, s.run events = some s' →
    Serial σ s.clients → (∀ j, (s.task j).Responds σ.replicationInfo) →
      Serial σ s'.clients ∧ ∀ j, (s'.task j).Responds σ.replicationInfo ∧
        (s'.task j).conn.dispatched = (s.task j).conn.dispatched ++ commands j events
  | [], s, s', h, hs, hr => by
    obtain rfl := Option.some.inj h
    exact ⟨hs, fun j => ⟨hr j, (List.append_nil _).symm⟩⟩
  | e :: events, s, s', h, hs, hr => by
    obtain ⟨t, ht, h⟩ := Option.bind_eq_some_iff.1 h
    have hstep := responds_step ht hs hr
    obtain ⟨hs', hall⟩ := responds_run h (serial_clients ht hs) (fun j => (hstep j).1)
    refine ⟨hs', fun j => ⟨(hall j).1, ?_⟩⟩
    rw [(hall j).2, (hstep j).2, List.append_assoc, commands, commands, commands, ← List.flatMap_append]
    rfl

theorem detached_step {e : ι × Event} (h : s.step Handler.act e = some s') (hs : ∀ j, (s.task j).conn.Detached) (j : ι) :
    (s'.task j).conn.Detached := by
  obtain ⟨i, e⟩ := e
  obtain ⟨sh, t, hact, rfl⟩ := step_eq_some.1 h
  change (Function.update s.task i t j).conn.Detached
  by_cases hj : j = i
  · subst hj
    rw [Function.update_self]
    have hc := hs j
    have hhandles := handler_handles hact
    generalize (s.task j).client.running = running at hhandles
    cases hhandles with
    | read buf hphase => exact detached_beginRead buf _ hc
    | go now r r' sh' hcall hgo => exact hc
    | reply now r hgo => exact detached_endCall r.call r.res hc
  · rw [Function.update_of_ne hj]
    exact hs j

/-- What has become of the bytes of a run. -/
structure Serves (σ : Server) (events : List (ι × Event)) (s : Handlers regex ι) : Prop where
  reading  : ∀ i, (s.task i).conn.phase ≠ .piped
  calls    : ∀ i, (s.task i).client.calls = callsOf (asks σ.replicationInfo (commands i events) none).2
  written  : ∀ i, (s.task i).conn.written =
    fill (asks σ.replicationInfo (commands i events) none).2 ((s.task i).client.replied.map Prod.snd)
  returned : ∀ i k c reply, (s.task i).client.replied[k]? = some (c, reply) →
    Returns (entries s.shared.history i k) c reply
  replies  : (serial regex σ s.shared.history).2 = s.shared.history.map Entry.reply
  server   : s.shared.lock = none → s.shared.server = (serial regex σ s.shared.history).1

/-- **Every connection is served what its own bytes ask for**, whatever the others send and however the calls are
interleaved: its calls are those its commands ask for, in order, each answered by its own commands; it has been written
what they ask for with those replies filled in; and all replies, and the server, are those of the executed commands run
one at a time.  None of them is a replica's pipe, as none is sent a `PSYNC` without an id. -/
theorem served {events : List (ι × Event)} (hrun : (Handlers.start σ).run events = some s)
    (hstay : ∀ i, ∀ cmd ∈ commands i events, ¬ Detaches cmd) : Serves σ events s := by
  obtain ⟨hs, hresponds⟩ := responds_run hrun (serial_start σ) (fun _ => responds_start)
  obtain ⟨acts, hacts⟩ := run_clients hrun
  have hk : ∀ j, Kept s.shared.history j (s.task j).client := run_keeps kept_step hacts (kept_start σ)
  have hcommands : ∀ i, (s.task i).conn.dispatched = commands i events := fun i => (hresponds i).2
  have hdetached : ∀ i, (s.task i).conn.Detached := run_keeps detached_step hrun (fun _ => nofun)
  exact {
    reading  := fun i hpiped => by
      obtain ⟨cmd, hcmd, hdetaches⟩ := hdetached i hpiped
      exact hstay i cmd (hcommands i ▸ hcmd) hdetaches
    calls    := fun i => hcommands i ▸ (hresponds i).1.calls
    written  := fun i => hcommands i ▸ (hresponds i).1.written
    returned := fun i k c reply hget => (hk i).finished hget
    replies  := hs.replies
    server   := hs.server }

def Event.isGo : Event → Bool
  | .read _ => false
  | .go _   => true

end

end

/-- A request of these words, read by connection `i`, and the steps of its call. -/
def Event.request (i : Bool) (args : List String) (n : Nat) : List (Bool × Event) :=
  (i, .read (Turn.start args).buf) :: List.replicate n (i, .go 0)

/-- One connection counts in an `EXEC` what the other sets between its `MULTI` and its `EXEC`. -/
theorem served_two :
    let events := Event.request false ["MULTI"] 0 ++ Event.request true ["SET", "k", "5"] 3 ++
      Event.request false ["INCR", "k"] 0 ++ Event.request false ["EXEC"] 2 ++ List.replicate 4 (true, .go 0) ++
      List.replicate 5 (false, .go 0)
    ∃ s : Handlers (fun _ => none) Bool, (Handlers.start (Server.start .master 0)).run events = some s ∧
      Serves (Server.start .master 0) events s ∧
      (s.task false).conn.written = encode "+OK\r\n+QUEUED\r\n*1\r\n:6\r\n".toList := by
  intro events
  have hrun : ((Handlers.start (Server.start .master 0) : Handlers (fun _ => none) Bool).run events).map
      (fun s => (s.task false).conn.written) = some (encode "+OK\r\n+QUEUED\r\n*1\r\n:6\r\n".toList) := by
    decide +kernel
  have hfalse : commands false events = [.multi, .incr ['k'], .exec] := by decide +kernel
  have htrue : commands true events = [.set ['k'] ['5'] none] := by decide +kernel
  have hstay : ∀ i, ∀ cmd ∈ commands i events, ¬ Detaches cmd := by simp [hfalse, htrue, Detaches]
  obtain ⟨s, hs, hwritten⟩ := Option.map_eq_some_iff.1 hrun
  exact ⟨s, hs, served hs hstay, hwritten⟩

end Rusdis
