import Rusdis.Offset
import Rusdis.Serve
import Rusdis.Stream
/-!
# Loop — the loop `connect_master` leaves behind, step by step

It takes the values of a read one after the other, calls `execute_multi_commands` for each command, writes the reply to
a `REPLCONF GETACK` to the master and counts a `SET` after its call.  With nothing between its steps it does what
`replicaRead` does (`loop_read_alone`); what it has done is said in its commands alone (`Obeys`), which its own steps keep
and which no other task touches.
-/
namespace Rusdis

open Steps Utf8

/-! ## The loop, step by step -/

/-- The command one value of the stream is taken for. -/
def Value.command : Value → Option Command
  | .array bulkStringVec => (parseCommand bulkStringVec).toOption
  | _ => none

section
variable (regex : List Char → Option (List Char → Bool))

/-- The loop: the values of the read it still has to take, its calls, the length it has still to count. -/
structure Loop where
  values : List Value
  client : Client regex
  counting : Option UInt64
  executed : List Command
  written : List UInt8
  running : Bool

end

section
variable {regex : List Char → Option (List Char → Bool)}

def Loop.start : Loop regex := ⟨[], ⟨[], none⟩, none, [], [], true⟩

/-- Its turn is over: it reads again. -/
def Loop.Idle (l : Loop regex) : Prop :=
  l.running = true ∧ l.values = [] ∧ l.client.running = none ∧ l.counting = none

instance decIdle (l : Loop regex) : Decidable l.Idle :=
  have : Decidable (l.client.running = none) := decidable_of_iff (l.client.running.isNone = true) Option.isNone_iff_eq_none
  inferInstanceAs (Decidable (l.running = true ∧ l.values = [] ∧ l.client.running = none ∧ l.counting = none))

def Loop.read (buf : List UInt8) (l : Loop regex) : Loop regex :=
  if buf = [] then { l with running := false }
  else match parseMultiArray (decodeLossy buf) with
    | .ok arrayVec    => { l with values := arrayVec }
    | .error .panic   => { l with running := false }
    | .error (.err _) => l

/-- What follows the call for a command. -/
def Loop.finish (cmd : Command) (replyMsg : List Char) (l : Loop regex) : Loop regex :=
  let l := { l with executed := l.executed ++ [cmd] }
  match cmd with
  | .replconf (.getack _) => { l with written := l.written ++ encode replyMsg }
  | .set key value px     => { l with counting := some (UInt64.ofNat (setLength key value px)) }
  | _ => l

def Loop.endCall (r : Running regex) (l : Loop regex) : Loop regex :=
  match r.call with
  | .single cmd => l.finish cmd r.res
  | .exec _     => l

/-- The next step of the loop, which is task `i`; it has none while it waits for the lock or for a read. -/
def Loop.act {ι : Type} (i : ι) : Event → Common ι → Loop regex → Option (Common ι × Loop regex)
  | .read buf, sh, l => if l.Idle then some (sh, l.read buf) else none
  | .go now, sh, l =>
    match l.counting, l.client.running with
    | some n, _ => some ({ sh with server := sh.server.incrementOffset n }, { l with counting := none })
    | none, some r =>
      (r.resume i now l.client.replied sh).map (fun (sh, client) =>
        (sh, if client.running.isNone then { l with client }.endCall r else { l with client }))
    | none, none =>
      match l.values with
      | [] => none
      | v :: values =>
        match v.command with
        | none     => some (sh, { l with values })
        | some cmd => some (sh, { l with values, client := ⟨l.client.replied, some (Call.single cmd).begin⟩ })

/-- What a step of the loop does. -/
inductive Loops {ι : Type} (i : ι) (sh : Common ι) (l : Loop regex) : Event → Common ι → Loop regex → Prop
  | read (buf : List UInt8) (hidle : l.Idle) : Loops i sh l (.read buf) sh (l.read buf)
  | count (now : SystemTime) (n : UInt64) (hcounting : l.counting = some n) :
    Loops i sh l (.go now) { sh with server := sh.server.incrementOffset n } { l with counting := none }
  | skip (now : SystemTime) (v : Value) (values : List Value) (hcounting : l.counting = none)
      (hrunning : l.client.running = none) (hvalues : l.values = v :: values) (hcmd : v.command = none) :
    Loops i sh l (.go now) sh { l with values }
  | call (now : SystemTime) (v : Value) (values : List Value) (cmd : Command) (hcounting : l.counting = none)
      (hrunning : l.client.running = none) (hvalues : l.values = v :: values) (hcmd : v.command = some cmd) :
    Loops i sh l (.go now) sh { l with values, client := ⟨l.client.replied, some (Call.single cmd).begin⟩ }
  | go (now : SystemTime) (r r' : Running regex) (sh' : Common ι) (hcounting : l.counting = none)
      (hrunning : l.client.running = some r) (hcall : r'.call = r.call)
      (h : Client.act i (.go now) sh l.client = some (sh', ⟨l.client.replied, some r'⟩)) :
    Loops i sh l (.go now) sh' { l with client := ⟨l.client.replied, some r'⟩ }
  | reply (now : SystemTime) (r : Running regex) (hcounting : l.counting = none)
      (hrunning : l.client.running = some r) (hpoint : r.point = .next) (hrest : r.rest = [])
      (h : Client.act i (.go now) sh l.client = some (sh, ⟨l.client.replied ++ [(r.call, r.res)], none⟩)) :
    Loops i sh l (.go now) sh (Loop.endCall r { l with client := ⟨l.client.replied ++ [(r.call, r.res)], none⟩ })

/-- **All that a step of the loop can do.** -/
theorem loop_loops {ι : Type} {i : ι} {e : Event} {sh sh' : Common ι} {l l' : Loop regex}
    (h : l.act i e sh = some (sh', l')) : Loops i sh l e sh' l' := by
  obtain ⟨values, ⟨replied, running⟩, counting, executed, written, isRunning⟩ := l
  cases e with
  | read buf =>
    obtain ⟨hidle, heq⟩ := Option.ite_none_right_eq_some.1 h
    cases heq
    exact .read buf hidle
  | go now =>
    cases counting with
    | some n =>
      cases h
      exact .count now n rfl
    | none =>
      cases running with
      | some r =>
        obtain ⟨⟨sh', client⟩, hact, heq⟩ := Option.map_eq_some_iff.1 h
        cases heq
        have hadvances := act_advances (t := ⟨replied, some r⟩) (a := .go now) hact
        cases hadvances with
        | reply c res => exact .reply now _ rfl rfl rfl rfl hact
        | _ => exact .go now _ _ _ rfl rfl rfl hact
      | none =>
        cases values with
        | nil => cases h
        | cons v values =>
          cases hcmd : v.command with
          | none =>
            simp only [Loop.act, hcmd] at h
            cases h
            exact .skip now v values rfl rfl rfl hcmd
          | some cmd =>
            simp only [Loop.act, hcmd] at h
            cases h
            exact .call now v values cmd rfl rfl rfl hcmd

theorem loop_read (buf : List UInt8) (l : Loop regex) : ∃ values running, l.read buf = { l with values, running } := by
  unfold Loop.read
  split
  · exact ⟨l.values, false, rfl⟩
  · split
    · exact ⟨_, l.running, rfl⟩
    · exact ⟨l.values, false, rfl⟩
    · exact ⟨l.values, l.running, rfl⟩

theorem client_endCall (r : Running regex) (l : Loop regex) : (l.endCall r).client = l.client := by
  unfold Loop.endCall
  split
  · unfold Loop.finish
    split <;> rfl
  · rfl

/-! ## A read by itself -/

variable (regex) in
/-- The loop of a replica between its calls. -/
def Replica.loop (values : List Value) (replied : List (Call × List Char)) (r : Replica) : Loop regex :=
  ⟨values, ⟨replied, none⟩, none, r.executed, r.written, r.running⟩

/-- The same within a call. -/
def Replica.calling (values : List Value) (replied : List (Call × List Char)) (call : Running regex) (r : Replica) :
    Loop regex :=
  ⟨values, ⟨replied, some call⟩, none, r.executed, r.written, r.running⟩

section
variable {ι : Type} (i : ι) (clock : Nat → SystemTime) (values : List Value) {replied : List (Call × List Char)}
  (r : Replica)

/-- A run of the loop by itself. -/
abbrev loopAlone (nows : List SystemTime) : Common ι × Loop regex → Option (Common ι × Loop regex) :=
  run (fun p e => Loop.act i e p.1 p.2) (nows.map .go)

/-- The steps of a call change nothing else of the loop. -/
theorem loop_go {nows : List SystemTime} {sh sh' : Common ι} {call call' : Running regex}
    (h : alone regex i (nows.map .go) (sh, ⟨replied, some call⟩) = some (sh', ⟨replied, some call'⟩)) :
    loopAlone i nows (sh, r.calling values replied call) = some (sh', r.calling values replied call') :=
  run_within i (f := r.calling values replied) (fun hact => Option.map_eq_some_iff.2 ⟨_, hact, rfl⟩) nows h

variable {r}

/-- What the end of its call leaves of a command, its count included. -/
theorem loop_ended {bulkStringVec : List Value} {cmd : Command} (hparse : parseCommand bulkStringVec = .ok cmd)
    (replied : List (Call × List Char)) (history : List (Entry ι)) (acquired : List (ι × Command)) :
    ∃ nows replied', loopAlone i nows
        (⟨(execute regex (clock r.executed.length) cmd r.server).1, none, history, acquired⟩,
          r.calling values replied
            ⟨.single cmd, [], (execute regex (clock r.executed.length) cmd r.server).2, .next⟩) =
      some (⟨(replicaValue regex clock r (.array bulkStringVec)).server, none, history, acquired⟩,
        (replicaValue regex clock r (.array bulkStringVec)).loop regex values replied') := by
  obtain ⟨server, executed, written, running⟩ := r
  simp only [replicaValue, hparse, executeMultiCommands_single]
  cases cmd with
  | set key value px => exact ⟨[0, 0], _, rfl⟩
  | replconf sub => cases sub <;> exact ⟨[0], _, rfl⟩
  | _ => exact ⟨[0], _, rfl⟩

/-- **One value whose steps nothing comes between.** -/
theorem loop_value (replied : List (Call × List Char)) (v : Value) {sh : Common ι} (hlock : sh.lock = none)
    (hserver : sh.server = r.server) :
    ∃ (nows : List SystemTime) (history : List (Entry ι)) (acquired : List (ι × Command))
      (replied' : List (Call × List Char)), loopAlone i nows (sh, r.loop regex (v :: values) replied) =
        some (⟨(replicaValue regex clock r v).server, none, history, acquired⟩,
          (replicaValue regex clock r v).loop regex values replied') := by
  obtain ⟨server, lock, history, acquired⟩ := sh
  obtain rfl : lock = none := hlock
  obtain rfl : server = r.server := hserver
  cases hcmd : v.command with
  | none =>
    have hstep : Loop.act i (.go 0) ⟨r.server, none, history, acquired⟩ (r.loop regex (v :: values) replied) =
        some (⟨r.server, none, history, acquired⟩, r.loop regex values replied) := by
      simp only [Replica.loop, Loop.act, hcmd]
    have hsame : replicaValue regex clock r v = r := by
      cases v with
      | array bulkStringVec =>
        cases hparse : parseCommand bulkStringVec with
        | ok cmd => simp [Value.command, hparse, Except.toOption] at hcmd
        | error e => simp only [replicaValue, hparse]
      | _ => rfl
    rw [hsame]
    exact ⟨[0], history, acquired, replied, (run_cons hstep).trans rfl⟩
  | some cmd =>
    cases v with
    | array bulkStringVec =>
      have hparse : parseCommand bulkStringVec = .ok cmd := by
        cases hparse : parseCommand bulkStringVec with
        | ok cmd' =>
          simp only [Value.command, hparse, Except.toOption] at hcmd
          exact congrArg Except.ok (Option.some.inj hcmd)
        | error e => simp [Value.command, hparse, Except.toOption] at hcmd
      have hbegin : Loop.act i (.go 0) ⟨r.server, none, history, acquired⟩
          (r.loop regex (.array bulkStringVec :: values) replied) = some (⟨r.server, none, history, acquired⟩,
            r.calling values replied (Call.single cmd).begin) := by
        simp only [Replica.loop, Loop.act, hcmd]
        rfl
      obtain ⟨n, acquired', hcall⟩ := run_command regex i (clock r.executed.length) replied (.single cmd) [] [] cmd
        (rfl : Common.lock ⟨r.server, none, history, acquired⟩ = none)
      rw [← List.map_replicate (f := Act.go)] at hcall
      have hgo := loop_go i values r hcall
      let e : Entry ι := ⟨i, replied.length, clock r.executed.length, cmd,
        (execute regex (clock r.executed.length) cmd r.server).2⟩
      obtain ⟨nows, replied', hended⟩ := loop_ended i clock values hparse replied (history ++ [e]) acquired'
      refine ⟨0 :: (List.replicate n (clock r.executed.length) ++ nows), history ++ [e], acquired', replied', ?_⟩
      rw [loopAlone, List.map_cons, List.map_append]
      refine (run_cons hbegin).trans (run_append.trans ((congrArg (Option.bind · _) hgo).trans ?_))
      exact hended
    | _ => cases hcmd

theorem loop_values : ∀ (vs : List Value) {sh : Common ι} {r : Replica} (replied : List (Call × List Char)),
    sh.lock = none → sh.server = r.server → ∃ (nows : List SystemTime) (history : List (Entry ι))
      (acquired : List (ι × Command)) (replied' : List (Call × List Char)),
      loopAlone i nows (sh, r.loop regex vs replied) =
        some (⟨(vs.foldl (replicaValue regex clock) r).server, none, history, acquired⟩,
          (vs.foldl (replicaValue regex clock) r).loop regex [] replied')
  | [], ⟨_, _, history, acquired⟩, _, replied, rfl, rfl => ⟨[], history, acquired, replied, rfl⟩
  | v :: vs, sh, r, replied, hlock, hserver => by
    obtain ⟨nows, history, acquired, replied₁, hfirst⟩ := loop_value i clock vs replied v hlock hserver
    obtain ⟨nows', history', acquired', replied', hrest⟩ := loop_values vs replied₁
      (rfl : Common.lock ⟨(replicaValue regex clock r v).server, none, history, acquired⟩ = none) rfl
    refine ⟨nows ++ nows', history', acquired', replied', ?_⟩
    rw [loopAlone, List.map_append]
    exact run_append.trans ((congrArg (Option.bind · _) hfirst).trans hrest)

/-- **A read that nothing comes between is handled as by a loop alone with the server.** -/
theorem loop_read_alone {sh : Common ι} {l : Loop regex} (hlock : sh.lock = none) (hidle : l.Idle) (buf : List UInt8) :
    ∃ (nows : List SystemTime) (history : List (Entry ι)) (acquired : List (ι × Command))
      (replied : List (Call × List Char)),
      run (fun p e => Loop.act i e p.1 p.2) (.read buf :: nows.map .go) (sh, l) =
        some (⟨(replicaRead regex clock ⟨sh.server, l.executed, l.written, true⟩ buf).server, none, history, acquired⟩,
          (replicaRead regex clock ⟨sh.server, l.executed, l.written, true⟩ buf).loop regex [] replied) := by
  have hread : Loop.act i (.read buf) sh l = some (sh, l.read buf) := if_pos hidle
  obtain ⟨values, ⟨replied, running⟩, counting, executed, written, isRunning⟩ := l
  obtain ⟨rfl, rfl, rfl, rfl⟩ := hidle
  obtain ⟨server, lock, history, acquired⟩ := sh
  obtain rfl : lock = none := hlock
  rw [replicaRead, if_neg (by simp)]
  rw [Loop.read] at hread
  by_cases hbuf : buf = []
  · rw [if_pos hbuf] at hread ⊢
    exact ⟨[], history, acquired, replied, (run_cons hread).trans rfl⟩
  · rw [if_neg hbuf] at hread ⊢
    cases hparse : parseMultiArray (decodeLossy buf) with
    | ok arrayVec =>
      rw [hparse] at hread
      obtain ⟨nows, history', acquired', replied', hvalues⟩ := loop_values i clock arrayVec
        (r := ⟨server, executed, written, true⟩) replied (rfl : Common.lock ⟨server, none, history, acquired⟩ = none) rfl
      exact ⟨nows, history', acquired', replied', (run_cons hread).trans hvalues⟩
    | error f =>
      rw [hparse] at hread
      cases f <;> exact ⟨[], history, acquired, replied, (run_cons hread).trans rfl⟩

end

/-! ## What the loop has done -/

/-- What a command of the stream leaves in the order: itself, and the count of a `SET`. -/
def marks : Command → List (Command ⊕ UInt64)
  | .set key value px => [.inl (.set key value px), .inr (UInt64.ofNat (setLength key value px))]
  | cmd               => [.inl cmd]

/-- The command of the call under way. -/
def Loop.underway (l : Loop regex) : List Command := l.client.running.elim [] (fun r => r.call.commands)

/-- The same as long as it is not in the order. -/
def Loop.waiting (l : Loop regex) : List Command := l.client.running.elim [] (fun r => r.point.pending ++ r.rest)

/-- The call under way is that of one command, which waits or has its reply. -/
structure Calls (offset : UInt64) (l : Loop regex) (r : Running regex) (cmd : Command) : Prop where
  call     : r.call = .single cmd
  counting : l.counting = none
  either   : r.point.pending ++ r.rest = [cmd] ∧ r.res = [] ∨
    r.point.pending ++ r.rest = [] ∧ ∀ sub, cmd = .replconf (.getack sub) → encode r.res = ackOf offset cmd

/-- The loop has obeyed the commands `cs` of the stream, from this offset on, up to those it has still to take. -/
structure Obeys {ι : Type} [DecidableEq ι] (i : ι) (offset : UInt64) (cs : List Command) (log : List (Record ι Mark))
    (server : Server) (l : Loop regex) : Prop where
  stream  : l.executed ++ l.underway ++ l.values.filterMap Value.command = cs
  log     : own i log ++ l.counting.toList.map .inr ++ l.waiting.map .inl =
    l.executed.flatMap marks ++ l.underway.map .inl
  counted : server.replicationInfo.masterReplOffset + l.counting.getD 0 = l.executed.foldl addLength offset
  written : l.written = acks offset l.executed
  calls   : ∀ r ∈ l.client.running, ∃ cmd, Calls (l.executed.foldl addLength offset) l r cmd

theorem obeys_start {ι : Type} [DecidableEq ι] (i : ι) (σ : Server) :
    Obeys i σ.replicationInfo.masterReplOffset [] [] σ (Loop.start : Loop regex) where
  stream  := rfl
  log     := rfl
  counted := UInt64.add_zero _
  written := rfl
  calls   := fun _ hr => nomatch hr

theorem acks_concat (c : Command) : ∀ (cs : List Command) (offset : UInt64),
    acks offset (cs ++ [c]) = acks offset cs ++ ackOf (cs.foldl addLength offset) c
  | [],       offset => by rw [List.nil_append, acks, acks, acks, List.append_nil]; rfl
  | c' :: cs, offset => by
    rw [List.cons_append, acks, acks, acks_concat c cs, List.append_assoc]
    rfl

/-- What the end of a call for a command does. -/
theorem loop_finish {l : Loop regex} (hcounting : l.counting = none) {cmd : Command} {replyMsg : List Char}
    {offset : UInt64} (hreply : ∀ sub, cmd = .replconf (.getack sub) → encode replyMsg = ackOf offset cmd) :
    (l.finish cmd replyMsg).executed = l.executed ++ [cmd] ∧ (l.finish cmd replyMsg).values = l.values ∧
      (l.finish cmd replyMsg).client = l.client ∧ (l.finish cmd replyMsg).written = l.written ++ ackOf offset cmd ∧
      marks cmd = .inl cmd :: (l.finish cmd replyMsg).counting.toList.map .inr ∧
      ∀ o, addLength o cmd = o + (l.finish cmd replyMsg).counting.getD 0 := by
  have hnone : l.written = l.written ++ [] ∧ [Sum.inl cmd] = (Sum.inl cmd : Command ⊕ UInt64) :: l.counting.toList.map .inr ∧
      ∀ o : UInt64, o = o + l.counting.getD 0 := by
    rw [hcounting]
    exact ⟨(List.append_nil _).symm, rfl, fun o => (UInt64.add_zero o).symm⟩
  obtain ⟨hwritten, hmarks, hlength⟩ := hnone
  cases cmd with
  | set key value px => exact ⟨rfl, rfl, rfl, hwritten, rfl, fun _ => rfl⟩
  | replconf sub =>
    cases sub with
    | getack option => exact ⟨rfl, rfl, rfl, congrArg (l.written ++ ·) (hreply option rfl), hmarks, hlength⟩
    | _ => exact ⟨rfl, rfl, rfl, hwritten, hmarks, hlength⟩
  | _ => exact ⟨rfl, rfl, rfl, hwritten, hmarks, hlength⟩

section
variable {ι : Type} [DecidableEq ι] {i : ι} {offset : UInt64} {cs : List Command} {log : List (Record ι Mark)}
  {server : Server} {l : Loop regex}

/-- What another task does is not seen. -/
theorem Obeys.other {j : ι} {server' : Server} (h : Obeys i offset cs log server l) (hj : j ≠ i)
    {new : Option (Entry ι)} (hnew : ∀ e ∈ new, e.who = j)
    (hinfo : server'.replicationInfo = server.replicationInfo) :
    Obeys i offset cs (log ++ new.toList.map .inl) server' l := by
  refine ⟨h.stream, ?_, by rw [hinfo]; exact h.counted, h.written, h.calls⟩
  rw [own_append, own_other hj hnew, List.append_nil]
  exact h.log

/-- The commands a read is decoded to. -/
def streamed (buf : List UInt8) : List Command :=
  if buf = [] then []
  else match parseMultiArray (decodeLossy buf) with
    | .ok arrayVec => arrayVec.filterMap Value.command
    | .error _     => []

theorem Obeys.read (h : Obeys i offset cs log server l) (hidle : l.Idle) (buf : List UInt8) :
    Obeys i offset (cs ++ streamed buf) log server (l.read buf) := by
  obtain ⟨-, hvalues, hrunning, -⟩ := hidle
  have hstream : cs ++ streamed buf = l.executed ++ l.underway ++ (l.read buf).values.filterMap Value.command := by
    have hcs := h.stream
    rw [hvalues, List.filterMap_nil, List.append_nil] at hcs
    rw [hcs]
    unfold Loop.read streamed
    split
    · rw [hvalues]
      rfl
    · cases parseMultiArray (decodeLossy buf) with
      | ok arrayVec => rfl
      | error e => cases e <;> exact congrArg (cs ++ ·) (by rw [hvalues]; rfl)
  obtain ⟨values, running, heq⟩ := loop_read buf l
  rw [heq] at hstream ⊢
  refine ⟨hstream.symm, h.log, h.counted, h.written, fun r hr => ?_⟩
  obtain ⟨cmd, hcalls⟩ := h.calls r hr
  exact ⟨cmd, hcalls.call, hcalls.counting, hcalls.either⟩

theorem Obeys.skip (h : Obeys i offset cs log server l) {v : Value} {values : List Value}
    (hvalues : l.values = v :: values) (hcmd : v.command = none) : Obeys i offset cs log server { l with values } := by
  refine ⟨?_, h.log, h.counted, h.written, fun r hr => ?_⟩
  · rw [← h.stream, hvalues, List.filterMap_cons_none hcmd]
    rfl
  · obtain ⟨cmd, hcalls⟩ := h.calls r hr
    exact ⟨cmd, hcalls.call, hcalls.counting, hcalls.either⟩

theorem Obeys.call (h : Obeys i offset cs log server l) {v : Value} {values : List Value} {cmd : Command}
    (hcounting : l.counting = none) (hrunning : l.client.running = none) (hvalues : l.values = v :: values)
    (hcmd : v.command = some cmd) : Obeys i offset cs log server
      ({ l with values, client := ⟨l.client.replied, some (Call.single cmd).begin⟩ } : Loop regex) := by
  have hstream := h.stream
  have hlog := h.log
  rw [Loop.underway, hrunning, Option.elim_none, List.append_nil, hvalues, List.filterMap_cons_some hcmd] at hstream
  rw [Loop.underway, Loop.waiting, hrunning, Option.elim_none, Option.elim_none, List.map_nil, List.append_nil,
    List.append_nil] at hlog
  refine ⟨?_, ?_, h.counted, h.written, fun r hr => ?_⟩
  · rw [← hstream]
    exact List.append_assoc _ [cmd] _
  · exact congrArg (· ++ [Sum.inl cmd]) hlog
  · obtain rfl := Option.some.inj hr
    exact ⟨cmd, rfl, hcounting, Or.inl ⟨rfl, rfl⟩⟩

theorem Obeys.count (h : Obeys i offset cs log server l) {n : UInt64} (hcounting : l.counting = some n) :
    Obeys i offset cs (log ++ [.inr (.count n)]) (server.incrementOffset n) { l with counting := none } := by
  have hrunning : l.client.running = none := by
    by_contra hne
    obtain ⟨r, hr⟩ := Option.ne_none_iff_exists'.1 hne
    obtain ⟨cmd, hcalls⟩ := h.calls r hr
    cases hcounting.symm.trans hcalls.counting
  refine ⟨h.stream, ?_, ?_, h.written, fun r hr => nomatch hrunning.symm.trans hr⟩
  · have hlog := h.log
    simp only [Loop.waiting, Loop.underway, hrunning, hcounting, Option.elim_none, Option.toList_some, List.map_singleton,
      List.map_nil, List.append_nil] at hlog
    simp only [own_append, Loop.waiting, Loop.underway, hrunning, Option.elim_none, Option.toList_none, List.map_nil,
      List.append_nil, ← hlog]
    rfl
  · have hcounted := h.counted
    rw [hcounting] at hcounted
    exact (UInt64.add_zero _).trans hcounted

/-- The loop does not see that the map is replaced. -/
theorem Obeys.load (h : Obeys i offset cs log server l) (map : DataMap) :
    Obeys i offset cs (log ++ [.inr (.load map)]) { server with map } l := by
  refine ⟨h.stream, ?_, h.counted, h.written, h.calls⟩
  rw [own_append]
  exact (congrArg (· ++ l.counting.toList.map Sum.inr ++ l.waiting.map Sum.inl) (List.append_nil _)).trans h.log

/-- **The end of its call ends a command**: it is executed, acknowledged, and still to be counted. -/
theorem Obeys.reply (h : Obeys i offset cs log server l) {r : Running regex} (hrunning : l.client.running = some r)
    (hwaiting : r.point.pending ++ r.rest = []) (replied : List (Call × List Char)) :
    Obeys i offset cs log server (Loop.endCall r ({ l with client := ⟨replied, none⟩ } : Loop regex)) := by
  obtain ⟨cmd, hcall, hcounting, heither⟩ := h.calls r hrunning
  have hres : ∀ sub, cmd = .replconf (.getack sub) → encode r.res = ackOf (l.executed.foldl addLength offset) cmd := by
    rcases heither with ⟨hcmd, -⟩ | ⟨-, hres⟩
    · cases hwaiting.symm.trans hcmd
    · exact hres
  have hfinish := loop_finish (l := ({ l with client := ⟨replied, none⟩ } : Loop regex)) hcounting hres
  rw [Loop.endCall, hcall]
  change Obeys i offset cs log server (Loop.finish cmd r.res _)
  generalize Loop.finish cmd r.res ({ l with client := ⟨replied, none⟩ } : Loop regex) = l' at hfinish
  obtain ⟨hexecuted, hvalues, hclient, hwritten, hmarks, hlength⟩ := hfinish
  have hidle : l'.client.running = none := congrArg Client.running hclient
  have hcmds : r.call.commands = [cmd] := by rw [hcall]; rfl
  have hstream := h.stream
  have hlog := h.log
  have hcounted := h.counted
  rw [Loop.underway, hrunning, Option.elim_some, hcmds] at hstream hlog
  rw [Loop.waiting, hrunning, Option.elim_some, hwaiting, hcounting] at hlog
  rw [hcounting] at hcounted
  refine ⟨?_, ?_, ?_, ?_, fun r hr => nomatch hidle.symm.trans hr⟩
  · rw [hexecuted, hvalues, Loop.underway, hidle, Option.elim_none, List.append_nil]
    exact hstream
  · rw [hexecuted, Loop.waiting, Loop.underway, hidle, List.flatMap_append, List.flatMap_singleton, hmarks]
    simp only [Option.toList_none, List.map_nil, List.append_nil, List.map_singleton] at hlog
    simp [hlog]
  · rw [hexecuted, List.foldl_append, List.foldl_cons, List.foldl_nil, hlength, ← hcounted]
    exact congrArg (· + _) (UInt64.add_zero _).symm
  · rw [hexecuted, acks_concat, hwritten, ← h.written]

/-- A step within its call. -/
theorem Obeys.go (h : Obeys i offset cs log server l) {server' : Server} {r r' : Running regex} {new : Option (Entry ι)}
    (hrunning : l.client.running = some r) (hcall : r'.call = r.call) (hwho : ∀ e ∈ new, e.who = i)
    (htaken : new.toList.map Entry.command ++ (r'.point.pending ++ r'.rest) = r.point.pending ++ r.rest)
    (hres : r'.res = r.res ++ new.toList.flatMap Entry.reply)
    (hack : ∀ e ∈ new, ∀ sub, e.command = .replconf (.getack sub) →
      encode e.reply = ackOf server.replicationInfo.masterReplOffset e.command)
    (hinfo : server'.replicationInfo = server.replicationInfo) :
    Obeys i offset cs (log ++ new.toList.map .inl) server' { l with client := ⟨l.client.replied, some r'⟩ } := by
  obtain ⟨cmd, hcmd, hcounting, heither⟩ := h.calls r hrunning
  have hstream := h.stream
  have hlog := h.log
  have hcounted := h.counted
  rw [Loop.underway, hrunning, Option.elim_some] at hstream hlog
  rw [Loop.waiting, hrunning, Option.elim_some, ← htaken, hcounting] at hlog
  rw [hcounting] at hcounted
  refine ⟨?_, ?_, ?_, h.written, fun r₁ hr₁ => ?_⟩
  · rw [← hstream, ← hcall]
    rfl
  · rw [own_append, own_mine hwho, hcounting]
    simpa [Loop.waiting, Loop.underway, hcall] using hlog
  · rw [hinfo, hcounting]
    exact hcounted
  · obtain rfl := Option.some.inj hr₁
    refine ⟨cmd, hcall.trans hcmd, hcounting, ?_⟩
    rcases heither with ⟨hwaits, hnil⟩ | ⟨hdone, hreply⟩
    · cases new with
      | none => exact Or.inl ⟨htaken.trans hwaits, hres.trans ((List.append_nil _).trans hnil)⟩
      | some e =>
        obtain ⟨hcommand, hrest⟩ := List.cons.inj (htaken.trans hwaits)
        refine Or.inr ⟨hrest, fun sub hsub => ?_⟩
        have hoffset : server.replicationInfo.masterReplOffset = l.executed.foldl addLength offset :=
          (UInt64.add_zero _).symm.trans hcounted
        have hreply := hack e rfl sub (hcommand.trans hsub)
        rw [hcommand, hoffset] at hreply
        rw [hres, hnil, Option.toList_some, List.flatMap_singleton, List.nil_append]
        exact hreply
    · rw [hdone] at htaken
      obtain ⟨hnew, hrest⟩ := List.append_eq_nil_iff.1 htaken
      obtain rfl : new = none := by
        cases new with
        | none => rfl
        | some e => cases hnew
      refine Or.inr ⟨hrest, fun sub hsub => ?_⟩
      rw [hres, Option.toList_none, List.flatMap_nil, List.append_nil]
      exact hreply sub hsub

end

end

end Rusdis
