import Rusdis.Session
import Rusdis.Steps
/-!
# Calls — the calls of `execute_multi_commands`, step by step

Any number of connections run their calls side by side.  A call takes its commands one after the other: what a command
does before the map's lock, the handle, the lock, its steps inside, and at the end the release with its reply.
`act_advances` says all that one step can do; a command inside the lock is always `Midway` of what `execute` does, and
a call that nothing comes between is executed at once (`call_alone`).  No replica joins here; `Tasks` has those that do.
-/
namespace Rusdis

open Steps
open Decimal (intText natText)

/-- A call of `execute_multi_commands` by `handle_commands`. -/
inductive Call where
  | single (cmd : Command)
  | exec (queue : List Command)
  deriving DecidableEq, Repr

def Call.commands : Call → List Command
  | .single cmd => [cmd]
  | .exec queue => queue

def Call.isMulti : Call → Bool
  | .single _ => false
  | .exec _   => true

/-- What the reply begins with. -/
def Call.header : Call → List Char
  | .single _   => []
  | .exec queue => ['*'] ++ natText queue.length ++ crlf

section
variable (regex : List Char → Option (List Char → Bool))

/-- A command on its way to the map's lock, with what it has computed before. -/
inductive Job where
  | set (time : SystemTime) (key value : List Char) (px : Option UInt64) (expiration : Option SystemTime)
      (computed : setExpiration time px = some expiration)
  | get (key : List Char)
  | keys (patternString : List Char) (pattern : List Char → Bool) (compiled : regex patternString = some pattern)
  | incr (key : List Char)

/-- A command inside the lock, by the step it takes next. -/
inductive Held where
  | locked (job : Job regex)
  | stored (time : SystemTime) (key value : List Char) (px : Option UInt64)
  | stale (time : SystemTime) (key : List Char) (d : StringData)
  | entered (key : List Char) (d : StringData)

/-- Where a call stands; a finished command still holds the lock. -/
inductive Point where
  | next
  | ready (job : Job regex)
  | fetched (job : Job regex)
  | held (h : Held regex)
  | done (time : SystemTime) (cmd : Command) (reply : List Char)

/-- A call under way: the commands it has still to take, and its reply so far. -/
structure Running where
  call : Call
  rest : List Command
  res : List Char
  point : Point regex

/-- A connection: its finished calls with what was written to it, and the call it runs. -/
structure Client where
  replied : List (Call × List Char)
  running : Option (Running regex)

end

/-- An executed command: whose it is, the number of its call there, the clock it read, and its reply. -/
structure Entry (ι : Type) where
  who : ι
  call : Nat
  time : SystemTime
  command : Command
  reply : List Char

/-- What the connections share: the server, the holder of the map's lock, the executed commands in the order in which
they ended, and the commands that have acquired the lock, in that order. -/
structure Common (ι : Type) where
  server : Server
  lock : Option ι
  history : List (Entry ι)
  acquired : List (ι × Command)

inductive Act where
  | call (c : Call)
  | go (now : SystemTime)

def Entry.timed {ι : Type} (e : Entry ι) : SystemTime × Command := (e.time, e.command)

def Common.record {ι : Type} (e : Entry ι) (sh : Common ι) : Common ι := { sh with history := sh.history ++ [e] }

section
variable {regex : List Char → Option (List Char → Bool)}

def Job.command : Job regex → Command
  | .set _ key value px _ _ => .set key value px
  | .get key                => .get key
  | .keys patternString _ _ => .keys patternString
  | .incr key               => .incr key

def Held.command : Held regex → Command
  | .locked job            => job.command
  | .stored _ key value px => .set key value px
  | .stale _ key _         => .get key
  | .entered key _         => .incr key

/-- The command a call has taken and not yet ended. -/
def Point.pending : Point regex → List Command
  | .next         => []
  | .ready job    => [job.command]
  | .fetched job  => [job.command]
  | .held h       => [h.command]
  | .done _ cmd _ => [cmd]

def Point.inside : Point regex → Bool
  | .held _ | .done _ _ _ => true
  | _                     => false

def Client.inside (t : Client regex) : Bool :=
  match t.running with
  | some r => r.point.inside
  | none   => false

variable (regex) in
/-- What a command does before it fetches the map's handle: its reply, when it ends there, or what it takes along. -/
def prepare (now : SystemTime) (cmd : Command) (σ : Server) : List Char ⊕ Job regex :=
  match cmd with
  | .set key value px =>
    match h : setExpiration now px with
    | none            => .inl "-ERR Instant Addtion Error".toList
    | some expiration => .inr (.set now key value px expiration h)
  | .get key => .inr (.get key)
  | .keys patternString =>
    match h : regex patternString with
    | none         => .inl "-ERR Invalid Regex Format".toList
    | some pattern => .inr (.keys patternString pattern h)
  | .incr key => .inr (.incr key)
  -- an `INFO` reads the replication info once for each section: no call changes it between
  | cmd => .inl (execute regex now cmd σ).2

/-- One step inside the lock. -/
def Held.step (now : SystemTime) : Held regex → Server → Server × Point regex
  | .locked (.set time key value px expiration _), σ =>
    (σ.store key ⟨value, expiration⟩, .held (.stored time key value px))
  | .locked (.get key), σ =>
    match σ.map.lookup key with
    | some d => (σ, if d.isExpired now then .held (.stale now key d) else .done now (.get key) (encodeBulk d.data))
    | none   => (σ, .done now (.get key) "$-1\r\n".toList)
  | .locked (.keys patternString pattern _), σ =>
    let resVec := σ.map.keys.filter pattern
    (σ, .done now (.keys patternString) (['*'] ++ natText resVec.length ++ crlf ++ resVec.flatMap encodeBulk))
  | .locked (.incr key), σ =>
    let (map, d) := orInsert key ⟨['0'], none⟩ σ.map
    ({ σ with map }, .held (.entered key d))
  -- no connection here changes the role or the number of replicas between the two tests
  | .stored time key value px, σ => (σ.propagate (.set key value px), .done time (.set key value px) "+OK\r\n".toList)
  | .stale time key _, σ => ({ σ with map := σ.map.erase key }, .done time (.get key) "$-1\r\n".toList)
  | .entered key d, σ =>
    match parseI64 d.data with
    | .ok num =>
      let num := if num < 9223372036854775807 then num + 1 else num
      ({ σ with map := σ.map.insert key (d.setData (intText num)) },
        .done now (.incr key) ([':'] ++ intText num ++ crlf))
    | .error _ => (σ, .done now (.incr key) "-ERR value is not an integer or out of range\r\n".toList)

section
variable {ι : Type}

/-- The next step of connection `i` in its call; it has none while it waits for the lock. -/
def Running.resume (i : ι) (now : SystemTime) (replied : List (Call × List Char)) (sh : Common ι)
    (r : Running regex) : Option (Common ι × Client regex) :=
  match r.point with
  | .next =>
    match r.rest with
    | [] => some (sh, ⟨replied ++ [(r.call, r.res)], none⟩)
    | cmd :: rest =>
      match prepare regex now cmd sh.server with
      | .inl reply =>
        some (sh.record ⟨i, replied.length, now, cmd, reply⟩, ⟨replied, some { r with rest, res := r.res ++ reply }⟩)
      | .inr job => some (sh, ⟨replied, some { r with rest, point := .ready job }⟩)
  -- `get_string_data_map`: no connection ever selects another database, so the handle is always that of `map`
  | .ready job => some (sh, ⟨replied, some { r with point := .fetched job }⟩)
  | .fetched job =>
    if sh.lock = none then
      some ({ sh with lock := some i, acquired := sh.acquired ++ [(i, job.command)] },
        ⟨replied, some { r with point := .held (.locked job) }⟩)
    else none
  | .held h =>
    let (server, point) := h.step now sh.server
    some ({ sh with server }, ⟨replied, some { r with point }⟩)
  | .done time cmd reply =>
    some (Common.record ⟨i, replied.length, time, cmd, reply⟩ { sh with lock := none },
      ⟨replied, some { r with res := r.res ++ reply, point := .next }⟩)

def Client.act (i : ι) : Act → Common ι → Client regex → Option (Common ι × Client regex)
  | .call c,  sh, ⟨replied, none⟩   => some (sh, ⟨replied, some ⟨c, c.commands, c.header, .next⟩⟩)
  | .go now,  sh, ⟨replied, some r⟩ => r.resume i now replied sh
  | _,        _,  _                 => none

abbrev Clients (regex : List Char → Option (List Char → Bool)) (ι : Type) := System ι (Common ι) (Client regex)

def Clients.start (σ : Server) : Clients regex ι := ⟨⟨σ, none, [], []⟩, fun _ => ⟨[], none⟩⟩

def Clients.run [DecidableEq ι] (s : Clients regex ι) (acts : List (ι × Act)) : Option (Clients regex ι) :=
  Steps.run (System.step Client.act) acts s

/-! ## What one step can do -/

/-- What a step of connection `i` does. -/
inductive Advances (i : ι) (sh : Common ι) (replied : List (Call × List Char)) :
    Option (Running regex) → Common ι → Client regex → Prop
  | call (c : Call) : Advances i sh replied none sh ⟨replied, some ⟨c, c.commands, c.header, .next⟩⟩
  | reply (c : Call) (res : List Char) :
    Advances i sh replied (some ⟨c, [], res, .next⟩) sh ⟨replied ++ [(c, res)], none⟩
  | free (c : Call) (rest : List Command) (res : List Char) (now : SystemTime) (cmd : Command) (reply : List Char)
      (h : prepare regex now cmd sh.server = .inl reply) :
    Advances i sh replied (some ⟨c, cmd :: rest, res, .next⟩) (sh.record ⟨i, replied.length, now, cmd, reply⟩)
      ⟨replied, some ⟨c, rest, res ++ reply, .next⟩⟩
  | alone (c : Call) (rest rest' : List Command) (res : List Char) (p p' : Point regex)
      (hin : p.inside = false) (hin' : p'.inside = false) (h : p.pending ++ rest = p'.pending ++ rest') :
    Advances i sh replied (some ⟨c, rest, res, p⟩) sh ⟨replied, some ⟨c, rest', res, p'⟩⟩
  | acquire (c : Call) (rest : List Command) (res : List Char) (job : Job regex) (hlock : sh.lock = none) :
    Advances i sh replied (some ⟨c, rest, res, .fetched job⟩)
      { sh with lock := some i, acquired := sh.acquired ++ [(i, job.command)] }
      ⟨replied, some ⟨c, rest, res, .held (.locked job)⟩⟩
  | work (c : Call) (rest : List Command) (res : List Char) (now : SystemTime) (h : Held regex) :
    Advances i sh replied (some ⟨c, rest, res, .held h⟩) { sh with server := (h.step now sh.server).1 }
      ⟨replied, some ⟨c, rest, res, (h.step now sh.server).2⟩⟩
  | release (c : Call) (rest : List Command) (res : List Char) (time : SystemTime) (cmd : Command)
      (reply : List Char) :
    Advances i sh replied (some ⟨c, rest, res, .done time cmd reply⟩)
      (Common.record ⟨i, replied.length, time, cmd, reply⟩ { sh with lock := none })
      ⟨replied, some ⟨c, rest, res ++ reply, .next⟩⟩

theorem command_of_prepare {now : SystemTime} {cmd : Command} {σ : Server} {job : Job regex}
    (h : prepare regex now cmd σ = .inr job) : job.command = cmd := by
  cases cmd with
  | set key value px =>
    simp only [prepare] at h
    split at h <;> cases h
    rfl
  | keys patternString =>
    simp only [prepare] at h
    split at h <;> cases h
    rfl
  | get | incr => cases h; rfl
  | _ => cases h

/-- **All that a step of one connection can do.** -/
theorem act_advances {i : ι} {a : Act} {sh sh' : Common ι} {t t' : Client regex} (h : t.act i a sh = some (sh', t')) :
    Advances i sh t.replied t.running sh' t' := by
  obtain ⟨replied, running⟩ := t
  cases a with
  | call c =>
    cases running with
    | none => cases h; exact .call c
    | some r => cases h
  | go now =>
    cases running with
    | none => cases h
    | some r =>
      obtain ⟨c, rest, res, point⟩ := r
      cases point with
      | next =>
        cases rest with
        | nil => cases h; exact .reply c res
        | cons cmd rest =>
          cases hp : prepare regex now cmd sh.server with
          | inl reply =>
            simp only [Client.act, Running.resume, hp] at h
            cases h
            exact .free c rest res now cmd reply hp
          | inr job =>
            simp only [Client.act, Running.resume, hp] at h
            cases h
            exact .alone c (cmd :: rest) rest res .next (.ready job) rfl rfl
              (congrArg (· :: rest) (command_of_prepare hp).symm)
      | ready job => cases h; exact .alone c rest rest res (.ready job) (.fetched job) rfl rfl rfl
      | fetched job =>
        obtain ⟨hlock, heq⟩ := Option.ite_none_right_eq_some.1 h
        cases heq
        exact .acquire c rest res job hlock
      | held hd => cases h; exact .work c rest res now hd
      | done time cmd reply => cases h; exact .release c rest res time cmd reply

end

/-! ## A command inside the lock -/

/-- Whether a command comes to the lock. -/
def locks (regex : List Char → Option (List Char → Bool)) : SystemTime × Command → Bool
  | (time, .set _ _ px)      => (setExpiration time px).isSome
  | (_, .get _)              => true
  | (_, .keys patternString) => (regex patternString).isSome
  | (_, .incr _)             => true
  | _                        => false

theorem executeInfo_of_info {S σ : Server} (h : S.replicationInfo = σ.replicationInfo)
    (sections : List InfoSection) : executeInfo sections S = executeInfo sections σ := by
  rw [executeInfo, executeInfo, h]

theorem executeReplconf_of_info {S σ : Server} (h : S.replicationInfo = σ.replicationInfo) :
    ∀ sub : ReplconfSubcommand, executeReplconf sub S = executeReplconf sub σ
  | .listeningPort _ | .capa _ | .ack _ => rfl
  | .getack _ => by
    unfold executeReplconf
    dsimp only
    rw [h]

/-- A command that ends before the lock does so on every server that tells of itself the same. -/
theorem execute_of_prepare {now : SystemTime} {cmd : Command} {S σ : Server} {reply : List Char}
    (h : prepare regex now cmd σ = .inl reply) (hargs : σ.args = S.args)
    (hinfo : σ.replicationInfo = S.replicationInfo) :
    execute regex now cmd S = (S, reply) ∧ locks regex (now, cmd) = false := by
  cases cmd with
  | set key value px =>
    simp only [prepare] at h
    split at h
    · rename_i he
      cases h
      exact ⟨by rw [execute, executeSet, he], by rw [locks, he]; rfl⟩
    · cases h
  | keys patternString =>
    simp only [prepare] at h
    split at h
    · rename_i he
      cases h
      exact ⟨by rw [execute, executeKeys, he], by rw [locks, he]; rfl⟩
    · cases h
  | get | incr => cases h
  | config sub => cases h; exact ⟨by rw [execute, execute, hargs], rfl⟩
  | info sections => cases h; exact ⟨congrArg (Prod.mk S) (executeInfo_of_info hinfo.symm sections), rfl⟩
  | replconf sub => cases h; exact ⟨congrArg (Prod.mk S) (executeReplconf_of_info hinfo.symm sub), rfl⟩
  | _ => cases h; exact ⟨rfl, rfl⟩

/-- The server in the midst of a command that found it as `S`. -/
def Point.Midway (S σ : Server) : Point regex → Prop
  | .next | .ready _ | .fetched _ => True
  | .held (.locked _) => σ = S
  | .held (.stored time key value px) => ∃ e, setExpiration time px = some e ∧ σ = S.store key ⟨value, e⟩
  | .held (.stale time key d) => σ = S ∧ S.map.lookup key = some d ∧ d.isExpired time = true
  | .held (.entered key d) => orInsert key ⟨['0'], none⟩ S.map = (σ.map, d) ∧ σ = { S with map := σ.map }
  | .done time cmd reply => execute regex time cmd S = (σ, reply) ∧ locks regex (time, cmd) = true

theorem midway_of_outside {S σ : Server} {p : Point regex} (h : p.inside = false) : p.Midway S σ := by
  cases p with
  | held | done => cases h
  | _ => trivial

/-- A command inside changes neither the arguments nor the replication info. -/
theorem frame_of_midway {S σ : Server} {p : Point regex} (hin : p.inside = true) (h : p.Midway S σ) :
    σ.args = S.args ∧ σ.replicationInfo = S.replicationInfo := by
  cases p with
  | next | ready | fetched => cases hin
  | held hd =>
    cases hd with
    | locked job =>
      obtain rfl : σ = S := h
      exact ⟨rfl, rfl⟩
    | stored time key value px =>
      obtain ⟨e, he, rfl⟩ := h
      exact ⟨rfl, rfl⟩
    | stale time key d =>
      obtain ⟨rfl, hd⟩ := h
      exact ⟨rfl, rfl⟩
    | entered key d =>
      rw [h.2]
      exact ⟨rfl, rfl⟩
  | done time cmd reply =>
    have hframe := execute_frame regex time cmd S
    rw [h.1] at hframe
    exact ⟨hframe.1, hframe.2.1⟩

/-- A step inside stays inside, with its command. -/
theorem step_inside (now : SystemTime) (σ : Server) (h : Held regex) :
    (h.step now σ).2.inside = true ∧ (h.step now σ).2.pending = [h.command] := by
  cases h with
  | locked job =>
    cases job with
    | get key =>
      simp only [Held.step]
      split
      · split <;> exact ⟨rfl, rfl⟩
      · exact ⟨rfl, rfl⟩
    | _ => exact ⟨rfl, rfl⟩
  | entered key d =>
    simp only [Held.step]
    split <;> exact ⟨rfl, rfl⟩
  | _ => exact ⟨rfl, rfl⟩

/-- **A step inside brings its command on**, and does at the end what `execute` does. -/
theorem step_midway (now : SystemTime) {S σ : Server} : ∀ {h : Held regex}, Point.Midway S σ (.held h) →
    Point.Midway S (h.step now σ).1 (h.step now σ).2
  | .locked (.set time key value px e computed), hS => by
    obtain rfl : σ = S := hS
    exact ⟨e, computed, rfl⟩
  | .locked (.get key), hS => by
    obtain rfl : σ = S := hS
    cases hd : σ.map.lookup key with
    | none =>
      simp only [Held.step, hd]
      exact ⟨by simp only [execute, executeGet, hd], rfl⟩
    | some d =>
      by_cases hexp : d.isExpired now = true
      · simp only [Held.step, hd, if_pos hexp]
        exact ⟨rfl, hd, hexp⟩
      · simp only [Held.step, hd, if_neg hexp]
        exact ⟨by simp only [execute, executeGet, hd, if_neg hexp], rfl⟩
  | .locked (.keys patternString pattern compiled), hS => by
    obtain rfl : σ = S := hS
    exact ⟨by rw [execute, executeKeys, compiled]; rfl, by rw [locks, compiled]; rfl⟩
  | .locked (.incr key), hS => by
    obtain rfl : σ = S := hS
    exact ⟨rfl, rfl⟩
  | .stored time key value px, hS => by
    obtain ⟨e, he, rfl⟩ := hS
    exact ⟨by rw [execute, executeSet, he]; rfl, by rw [locks, he]; rfl⟩
  | .stale time key d, hS => by
    obtain ⟨rfl, hd, hexp⟩ := hS
    exact ⟨by simp only [execute, executeGet, hd, if_pos hexp]; rfl, rfl⟩
  | .entered key d, hS => by
    obtain ⟨hentry, hσ⟩ := hS
    simp only [Held.step]
    cases hnum : parseI64 d.data with
    | ok num =>
      refine ⟨?_, rfl⟩
      simp only [execute, executeIncr, hentry, hnum]
      rw [hσ]
    | error e =>
      refine ⟨?_, rfl⟩
      simp only [execute, executeIncr, hentry, hnum]
      rw [← hσ]

/-! ## A call by itself -/

section
variable {ι : Type} (i : ι) (now : SystemTime) (replied : List (Call × List Char)) (c : Call) (rest : List Command)
  (res : List Char) (history : List (Entry ι)) (acquired : List (ι × Command)) (σ : Server)

variable (regex) in
abbrev alone (acts : List Act) : Common ι × Client regex → Option (Common ι × Client regex) :=
  run (fun p a => Client.act i a p.1 p.2) acts

theorem run_held (h : Held regex) (n : Nat) :
    alone regex i (List.replicate (n + 1) (.go now))
        (⟨σ, some i, history, acquired⟩, ⟨replied, some ⟨c, rest, res, .held h⟩⟩) =
      alone regex i (List.replicate n (.go now)) (⟨(h.step now σ).1, some i, history, acquired⟩,
        ⟨replied, some ⟨c, rest, res, (h.step now σ).2⟩⟩) := rfl

/-- From its lock on, a command does what `execute` does. -/
theorem run_locked : ∀ {job : Job regex}, prepare regex now job.command σ = .inr job →
    ∃ n, alone regex i (List.replicate n (.go now))
        (⟨σ, some i, history, acquired⟩, ⟨replied, some ⟨c, rest, res, .held (.locked job)⟩⟩) =
      some (⟨(execute regex now job.command σ).1, none,
          history ++ [⟨i, replied.length, now, job.command, (execute regex now job.command σ).2⟩], acquired⟩,
        ⟨replied, some ⟨c, rest, res ++ (execute regex now job.command σ).2, .next⟩⟩)
  | .set time key value px e computed, hp => by
    obtain rfl : now = time := by
      simp only [prepare, Job.command] at hp
      split at hp <;> cases hp
      rfl
    exact ⟨3, by rw [Job.command, execute, executeSet, computed]; rfl⟩
  | .get key, _ => by
    cases hd : σ.map.lookup key with
    | none =>
      refine ⟨2, ?_⟩
      rw [run_held]
      simp only [Held.step, Job.command, execute, executeGet, hd]
      rfl
    | some d =>
      by_cases hexp : d.isExpired now = true
      · refine ⟨3, ?_⟩
        rw [run_held]
        simp only [Held.step, Job.command, execute, executeGet, hd, if_pos hexp]
        rfl
      · refine ⟨2, ?_⟩
        rw [run_held]
        simp only [Held.step, Job.command, execute, executeGet, hd, if_neg hexp]
        rfl
  | .keys patternString pattern compiled, _ => ⟨2, by rw [Job.command, execute, executeKeys, compiled]; rfl⟩
  | .incr key, _ => by
    have hstep : Held.step now (.locked (.incr key) : Held regex) σ =
        ({ σ with map := (orInsert key ⟨['0'], none⟩ σ.map).1 },
          .held (.entered key (orInsert key ⟨['0'], none⟩ σ.map).2)) := rfl
    refine ⟨3, ?_⟩
    rw [run_held, hstep]
    dsimp only
    rw [run_held]
    cases hnum : parseI64 (orInsert key ⟨['0'], none⟩ σ.map).2.data <;>
      simp only [Held.step, Job.command, execute, executeIncr, hnum] <;> rfl

variable {sh : Common ι}

variable (regex) in
theorem run_command (cmd : Command) (hlock : sh.lock = none) :
    ∃ n acquired, alone regex i (List.replicate n (.go now)) (sh, ⟨replied, some ⟨c, cmd :: rest, res, .next⟩⟩) =
      some (⟨(execute regex now cmd sh.server).1, none,
          sh.history ++ [⟨i, replied.length, now, cmd, (execute regex now cmd sh.server).2⟩], acquired⟩,
        ⟨replied, some ⟨c, rest, res ++ (execute regex now cmd sh.server).2, .next⟩⟩) := by
  obtain ⟨server, lock, history, acquired⟩ := sh
  obtain rfl : lock = none := hlock
  cases hp : prepare regex now cmd server with
  | inl reply =>
    have hstep : Client.act i (.go now) ⟨server, none, history, acquired⟩
        (⟨replied, some ⟨c, cmd :: rest, res, .next⟩⟩ : Client regex) =
        some (⟨server, none, history ++ [⟨i, replied.length, now, cmd, reply⟩], acquired⟩,
          ⟨replied, some ⟨c, rest, res ++ reply, .next⟩⟩) := by
      simp only [Client.act, Running.resume, hp]
      rfl
    refine ⟨1, acquired, ?_⟩
    rw [List.replicate_one, alone, run_cons hstep, (execute_of_prepare hp rfl rfl).1]
    rfl
  | inr job =>
    obtain rfl := command_of_prepare hp
    have hstep : Client.act i (.go now) ⟨server, none, history, acquired⟩
        (⟨replied, some ⟨c, job.command :: rest, res, .next⟩⟩ : Client regex) =
        some (⟨server, none, history, acquired⟩, ⟨replied, some ⟨c, rest, res, .ready job⟩⟩) := by
      simp only [Client.act, Running.resume, hp]
    obtain ⟨n, hn⟩ := run_locked i now replied c rest res history (acquired ++ [(i, job.command)]) server hp
    refine ⟨n + 3, acquired ++ [(i, job.command)], ?_⟩
    rw [List.replicate_succ, List.replicate_succ, List.replicate_succ, alone, run_cons hstep, run_cons rfl,
      run_cons rfl]
    exact hn

variable (regex) in
theorem run_commands : ∀ (cs : List (SystemTime × Command)) {sh : Common ι} (res : List Char), sh.lock = none →
    ∃ (nows : List SystemTime) (history : List (Entry ι)) (acquired : List (ι × Command)),
      alone regex i (nows.map .go) (sh, ⟨replied, some ⟨c, cs.map Prod.snd, res, .next⟩⟩) =
        some (⟨(singly regex cs sh.server).1, none, history, acquired⟩,
          ⟨replied, some ⟨c, [], res ++ (singly regex cs sh.server).2.flatten, .next⟩⟩)
  | [], ⟨server, none, history, acquired⟩, res, _ => ⟨[], history, acquired, by simp [alone, run, singly]⟩
  | (now, cmd) :: cs, sh, res, hlock => by
    obtain ⟨n, acquired, hn⟩ := run_command regex i now replied c (cs.map Prod.snd) res cmd hlock
    have hlock' : Common.lock ⟨(execute regex now cmd sh.server).1, none,
        sh.history ++ [⟨i, replied.length, now, cmd, (execute regex now cmd sh.server).2⟩], acquired⟩ = none := rfl
    obtain ⟨nows, history, acquired, hacts⟩ := run_commands cs (res ++ (execute regex now cmd sh.server).2) hlock'
    refine ⟨List.replicate n now ++ nows, history, acquired, ?_⟩
    rw [List.map_append, List.map_replicate]
    refine (run_append.trans (congrArg (Option.bind · _) hn)).trans ?_
    rw [Option.bind_some, singly_cons, List.flatten_cons, ← List.append_assoc]
    exact hacts

variable {i replied}

/-- What `execute_multi_commands` replies to a call is its header and the replies of its commands. -/
theorem executeMultiCommands_call {c : Call} {cs : List (SystemTime × Command)} (h : cs.map Prod.snd = c.commands)
    (σ : Server) : executeMultiCommands regex cs c.isMulti σ =
      ((singly regex cs σ).1, c.header ++ (singly regex cs σ).2.flatten) := by
  rw [executeMultiCommands, executeAll_singly]
  cases c with
  | single cmd => rfl
  | exec queue =>
    have hlen : cs.length = queue.length := by rw [← List.length_map, h, Call.commands]
    simp only [Call.isMulti, Call.header, hlen, if_true]

/-- **A call that nothing comes between is executed at once.** -/
theorem call_alone [DecidableEq ι] {s : Clients regex ι} (htask : s.task i = ⟨replied, none⟩)
    (hlock : s.shared.lock = none) {c : Call} {cs : List (SystemTime × Command)} (hcs : cs.map Prod.snd = c.commands) :
    ∃ (acts : List Act) (history : List (Entry ι)) (acquired : List (ι × Command)), s.run (acts.map (i, ·)) =
      some ⟨⟨(executeMultiCommands regex cs c.isMulti s.shared.server).1, none, history, acquired⟩,
        Function.update s.task i
          ⟨replied ++ [(c, (executeMultiCommands regex cs c.isMulti s.shared.server).2)], none⟩⟩ := by
  obtain ⟨nows, history, acquired, hacts⟩ := run_commands regex i replied c cs c.header hlock
  have hrun : alone regex i ([.call c] ++ nows.map .go ++ [.go 0]) (s.shared, s.task i) =
      some (⟨(executeMultiCommands regex cs c.isMulti s.shared.server).1, none, history, acquired⟩,
        ⟨replied ++ [(c, (executeMultiCommands regex cs c.isMulti s.shared.server).2)], none⟩) := by
    have hcall : Client.act i (.call c) s.shared (⟨replied, none⟩ : Client regex) =
        some (s.shared, ⟨replied, some ⟨c, cs.map Prod.snd, c.header, .next⟩⟩) := by
      rw [hcs]
      rfl
    rw [htask, List.append_assoc, List.singleton_append, executeMultiCommands_call hcs]
    exact (run_cons hcall).trans (run_append.trans (congrArg (Option.bind · _) hacts))
  exact ⟨_, history, acquired, run_alone hrun⟩

end

end

end Rusdis
