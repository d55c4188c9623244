import Rusdis.Connection
import Rusdis.Steps
/-!
# Tasks — the connections of a master, step by step

Every connection is a task at a program point of its own.  A `SET` computes its expiration, fetches the map's handle,
locks the map, inserts, reads the role and `SLAVES_COUNT`, sends and unlocks; a replica's connection becomes the task of
`build_replica_pipe`.  `act_turns` says all that one step can do; a request whose steps nothing comes between does
what `execute` does (`request_set`, `request_get`).
-/
namespace Rusdis

open Steps Utf8
open Decimal (natText)

structure Setting where
  key : List Char
  value : List Char
  px : Option UInt64
  expiration : Option SystemTime
  computed : ∃ now, setExpiration now px = some expiration

def Setting.compute (now : SystemTime) (key value : List Char) (px : Option UInt64) : Option Setting :=
  match h : setExpiration now px with
  | none            => none
  | some expiration => some ⟨key, value, px, expiration, now, h⟩

def Setting.command (w : Setting) : Command := .set w.key w.value w.px

theorem Setting.expiration_of_px {w : Setting} (h : w.px = none) : w.expiration = none := by
  obtain ⟨now, hnow⟩ := w.computed
  rw [h] at hnow
  exact (Option.some.inj hnow).symm

/-- A program point of a connection, by the step it takes next.  `inserted` counts the `SET`s inserted before a
replica's `+FULLRESYNC`; `piped` is what was written to it after its RDB file. -/
inductive Pc where
  | idle
  | replying (reply : List Char)
  | set (key value : List Char) (px : Option UInt64)
  | setReady (w : Setting)
  | setFetched (w : Setting)
  | setLocked (w : Setting)
  | setInserted (w : Setting)
  | setMaster (w : Setting)
  | setCounted (w : Setting)
  | setDone
  | get (key : List Char)
  | getFetched (key : List Char)
  | getLocked (key : List Char)
  | getDone (reply : List Char)
  | psync
  | resynced (inserted : Nat)
  | transferred (inserted : Nat)
  | subscribed (inserted position : Nat)
  | serving (inserted position : Nat) (cmd : Option (List Char)) (piped : List (List UInt8))

/-- A connection's task, with what `handle_commands` has written to it. -/
structure Task where
  pc : Pc
  written : List (List UInt8)

def Task.goto (p : Pc) (t : Task) : Task := { t with pc := p }
def Task.write (buf : List UInt8) (t : Task) : Task := { t with written := t.written ++ [buf] }

/-- What the tasks share: the server, the holder of the map's lock, and the `SET`s in the order of their inserts. -/
structure Shared (ι : Type) where
  server : Server
  lock : Option ι
  inserts : List Command

inductive Request where
  | set (key value : List Char) (px : Option UInt64)
  | get (key : List Char)
  | psync

inductive Choice where
  | request (r : Request)
  | go (now : SystemTime)

def Request.pc : Request → Pc
  | .set key value px => .set key value px
  | .get key          => .get key
  | .psync            => .psync

section
variable {ι : Type}

def Shared.insert (w : Setting) (sh : Shared ι) : Shared ι :=
  { sh with server := sh.server.store w.key ⟨w.value, w.expiration⟩, inserts := sh.inserts ++ [w.command] }

/-- A message that finds no receiver is kept here too: every later receiver begins after it. -/
def Shared.send (w : Setting) (sh : Shared ι) : Shared ι :=
  { sh with server := { sh.server with broadcast := sh.server.broadcast ++ [generateResp w.command] } }

def Shared.attach (sh : Shared ι) : Shared ι :=
  { sh with server := { sh.server with slavesCount := sh.server.slavesCount + 1 } }

/-- The next step of the task of connection `i`; it has none while it waits for the lock or for a message.  A write
completes. -/
def advance (capacity : Nat) (i : ι) (now : SystemTime) (sh : Shared ι) (t : Task) : Option (Shared ι × Task) :=
  match t.pc with
  | .idle => none
  | .replying reply => some (sh, (t.write (encode reply)).goto .idle)
  | .set key value px =>
    match Setting.compute now key value px with
    | none   => some (sh, t.goto (.replying "-ERR Instant Addtion Error".toList))
    | some w => some (sh, t.goto (.setReady w))
  -- `get_string_data_map`: no task ever selects another database, so the handle is always that of `map`
  | .setReady w => some (sh, t.goto (.setFetched w))
  | .setFetched w => if sh.lock = none then some ({ sh with lock := some i }, t.goto (.setLocked w)) else none
  | .setLocked w => some (sh.insert w, t.goto (.setInserted w))
  | .setInserted w => some (sh, t.goto (if sh.server.replicationInfo.role = .master then .setMaster w else .setDone))
  | .setMaster w => some (sh, t.goto (if sh.server.slavesCount ≠ 0 then .setCounted w else .setDone))
  | .setCounted w => some (sh.send w, t.goto .setDone)
  | .setDone => some ({ sh with lock := none }, t.goto (.replying "+OK\r\n".toList))
  | .get key => some (sh, t.goto (.getFetched key))
  | .getFetched key => if sh.lock = none then some ({ sh with lock := some i }, t.goto (.getLocked key)) else none
  | .getLocked key =>
    let (server, reply) := executeGet now key sh.server
    some ({ sh with server }, t.goto (.getDone reply))
  | .getDone reply => some ({ sh with lock := none }, t.goto (.replying reply))
  | .psync =>
    some (sh, (t.write (encode (fullResync sh.server.replicationInfo))).goto (.resynced sh.inserts.length))
  | .resynced inserted =>
    some (sh, (t.write (encode (['$'] ++ natText rdbFile.length ++ crlf) ++ rdbFile)).goto (.transferred inserted))
  | .transferred inserted => some (sh, t.goto (.subscribed inserted sh.server.broadcast.length))
  | .subscribed inserted position => some (sh.attach, t.goto (.serving inserted position none []))
  | .serving inserted position none piped =>
    -- a lagging receiver skips, and the `Err` it gets is swallowed
    (recv capacity sh.server.broadcast position).map
      (fun (cmd, position) => (sh, t.goto (.serving inserted position cmd piped)))
  | .serving inserted position (some cmd) piped =>
    some (sh, t.goto (.serving inserted position none (piped ++ [encode cmd])))

def act (capacity : Nat) (i : ι) (c : Choice) (sh : Shared ι) (t : Task) : Option (Shared ι × Task) :=
  match c with
  | .go now    => advance capacity i now sh t
  | .request r =>
    match t.pc with
    | .idle => some (sh, t.goto r.pc)
    | _     => none

abbrev Tasks (ι : Type) := System ι (Shared ι) Task

def Tasks.start (σ : Server) : Tasks ι := ⟨⟨σ, none, []⟩, fun _ => ⟨.idle, []⟩⟩

abbrev Tasks.run [DecidableEq ι] (capacity : Nat) (acts : List (ι × Choice)) (s : Tasks ι) : Option (Tasks ι) :=
  Steps.run (System.step (act capacity)) acts s

end

/-! ## What one step does -/

def Task.inside (t : Task) : Bool :=
  match t.pc with
  | .setLocked _ | .setInserted _ | .setMaster _ | .setCounted _ | .setDone | .getLocked _ | .getDone _ => true
  | _ => false

/-- The `SET` a task has inserted and has not yet sent. -/
def Task.unsent (t : Task) : List Setting :=
  match t.pc with
  | .setInserted w | .setMaster w | .setCounted w => [w]
  | _ => []

/-- A replica's stream: since which insert, from which message on, and what its connection has taken from it. -/
structure Stream where
  inserted : Nat
  position : Option Nat
  taken : List (List UInt8)

def Task.stream (t : Task) : Option Stream :=
  match t.pc with
  | .resynced inserted | .transferred inserted => some ⟨inserted, none, []⟩
  | .subscribed inserted position              => some ⟨inserted, some position, []⟩
  | .serving inserted position cmd piped       => some ⟨inserted, some position, piped ++ (cmd.map encode).toList⟩
  | _ => none

/-- The test that ends in no message. -/
def Task.skips (server : Server) (t : Task) : Bool :=
  match t.pc with
  | .setInserted _ => server.replicationInfo.role ≠ .master
  | .setMaster _   => server.slavesCount = 0
  | _              => false

def Task.sends (t : Task) : Bool :=
  match t.pc with
  | .setCounted _ => true
  | _             => false

def Task.receives (t : Task) : Bool :=
  match t.pc with
  | .serving _ _ none _ => true
  | _                   => false

section
variable {ι : Type} {capacity : Nat}

/-- What a step of the task of connection `i` does to what the tasks share, and to what is seen of the task. -/
inductive Moves (capacity : Nat) (i : ι) (sh : Shared ι) (t : Task) : Shared ι → Task → Prop
  | alone {t'} (hin : t'.inside = t.inside) (hun : t'.unsent = t.unsent) (hst : t'.stream = t.stream) :
    Moves capacity i sh t sh t'
  | acquire {t'} (hlock : sh.lock = none) (hin : t'.inside = true) (hun : t'.unsent = []) (hst : t'.stream = none) :
    Moves capacity i sh t { sh with lock := some i } t'
  | insert {t'} (w : Setting) (hin : t.inside = true) (hin' : t'.inside = true) (hun : t.unsent = [])
      (hun' : t'.unsent = [w]) (hst : t'.stream = none) :
    Moves capacity i sh t (sh.insert w) t'
  | skip {t'} (w : Setting) (hskip : t.skips sh.server = true) (hin : t.inside = true) (hin' : t'.inside = true)
      (hun : t.unsent = [w]) (hun' : t'.unsent = []) (hst : t'.stream = none) :
    Moves capacity i sh t sh t'
  | send {t'} (w : Setting) (hsend : t.sends = true) (hin : t.inside = true) (hin' : t'.inside = true)
      (hun : t.unsent = [w]) (hun' : t'.unsent = []) (hst : t'.stream = none) :
    Moves capacity i sh t (sh.send w) t'
  | lookup {t'} (now : SystemTime) (key : List Char) (hin : t.inside = true) (hin' : t'.inside = true)
      (hun : t'.unsent = t.unsent) (hst : t'.stream = none) :
    Moves capacity i sh t { sh with server := (executeGet now key sh.server).1 } t'
  | release {t'} (hin : t.inside = true) (hin' : t'.inside = false) (hun : t.unsent = []) (hst : t'.stream = none) :
    Moves capacity i sh t { sh with lock := none } t'
  | resync {t'} (hin : t'.inside = t.inside) (hun : t'.unsent = t.unsent)
      (hst : t'.stream = some ⟨sh.inserts.length, none, []⟩) :
    Moves capacity i sh t sh t'
  | subscribe {t'} (r : Stream) (hin : t'.inside = t.inside) (hun : t'.unsent = t.unsent) (hst : t.stream = some r)
      (hpos : r.position = none) (hst' : t'.stream = some { r with position := some sh.server.broadcast.length }) :
    Moves capacity i sh t sh t'
  | attach {t'} (hin : t'.inside = t.inside) (hun : t'.unsent = t.unsent) (hst : t'.stream = t.stream) :
    Moves capacity i sh t sh.attach t'
  | receive {t'} (r : Stream) (position : Nat) (m : Option (List Char) × Nat) (hrecv : t.receives = true)
      (hin : t'.inside = t.inside) (hun : t'.unsent = t.unsent) (hst : t.stream = some r)
      (hpos : r.position = some position) (hm : recv capacity sh.server.broadcast position = some m)
      (hst' : t'.stream = some { r with position := some m.2, taken := r.taken ++ (m.1.map encode).toList }) :
    Moves capacity i sh t sh t'

/-- The steps of the task of connection `i`, each from its program point to the next. -/
inductive Turns (capacity : Nat) (i : ι) (sh : Shared ι) (written : List (List UInt8)) :
    Choice → Pc → Shared ι → Task → Prop
  | request (r : Request) : Turns capacity i sh written (.request r) .idle sh ⟨r.pc, written⟩
  | answer (now : SystemTime) (reply : List Char) :
    Turns capacity i sh written (.go now) (.replying reply) sh ⟨.idle, written ++ [encode reply]⟩
  | refuse (now : SystemTime) (key value : List Char) (px : Option UInt64)
      (hw : Setting.compute now key value px = none) :
    Turns capacity i sh written (.go now) (.set key value px) sh
      ⟨.replying "-ERR Instant Addtion Error".toList, written⟩
  | compute (now : SystemTime) (key value : List Char) (px : Option UInt64) (w : Setting)
      (hw : Setting.compute now key value px = some w) :
    Turns capacity i sh written (.go now) (.set key value px) sh ⟨.setReady w, written⟩
  | fetchSet (now : SystemTime) (w : Setting) :
    Turns capacity i sh written (.go now) (.setReady w) sh ⟨.setFetched w, written⟩
  | lockSet (now : SystemTime) (w : Setting) (hlock : sh.lock = none) :
    Turns capacity i sh written (.go now) (.setFetched w) { sh with lock := some i } ⟨.setLocked w, written⟩
  | insert (now : SystemTime) (w : Setting) :
    Turns capacity i sh written (.go now) (.setLocked w) (sh.insert w) ⟨.setInserted w, written⟩
  | master (now : SystemTime) (w : Setting) (hrole : sh.server.replicationInfo.role = .master) :
    Turns capacity i sh written (.go now) (.setInserted w) sh ⟨.setMaster w, written⟩
  | slave (now : SystemTime) (w : Setting) (hrole : sh.server.replicationInfo.role ≠ .master) :
    Turns capacity i sh written (.go now) (.setInserted w) sh ⟨.setDone, written⟩
  | counted (now : SystemTime) (w : Setting) (hcount : sh.server.slavesCount ≠ 0) :
    Turns capacity i sh written (.go now) (.setMaster w) sh ⟨.setCounted w, written⟩
  | uncounted (now : SystemTime) (w : Setting) (hcount : sh.server.slavesCount = 0) :
    Turns capacity i sh written (.go now) (.setMaster w) sh ⟨.setDone, written⟩
  | send (now : SystemTime) (w : Setting) :
    Turns capacity i sh written (.go now) (.setCounted w) (sh.send w) ⟨.setDone, written⟩
  | unlockSet (now : SystemTime) : Turns capacity i sh written (.go now) .setDone { sh with lock := none }
      ⟨.replying "+OK\r\n".toList, written⟩
  | fetchGet (now : SystemTime) (key : List Char) :
    Turns capacity i sh written (.go now) (.get key) sh ⟨.getFetched key, written⟩
  | lockGet (now : SystemTime) (key : List Char) (hlock : sh.lock = none) :
    Turns capacity i sh written (.go now) (.getFetched key) { sh with lock := some i } ⟨.getLocked key, written⟩
  | lookup (now : SystemTime) (key : List Char) :
    Turns capacity i sh written (.go now) (.getLocked key) { sh with server := (executeGet now key sh.server).1 }
      ⟨.getDone (executeGet now key sh.server).2, written⟩
  | unlockGet (now : SystemTime) (reply : List Char) :
    Turns capacity i sh written (.go now) (.getDone reply) { sh with lock := none } ⟨.replying reply, written⟩
  | resync (now : SystemTime) : Turns capacity i sh written (.go now) .psync sh
      ⟨.resynced sh.inserts.length, written ++ [encode (fullResync sh.server.replicationInfo)]⟩
  | transfer (now : SystemTime) (inserted : Nat) :
    Turns capacity i sh written (.go now) (.resynced inserted) sh ⟨.transferred inserted,
      written ++ [encode (['$'] ++ natText rdbFile.length ++ crlf) ++ rdbFile]⟩
  | subscribe (now : SystemTime) (inserted : Nat) :
    Turns capacity i sh written (.go now) (.transferred inserted) sh
      ⟨.subscribed inserted sh.server.broadcast.length, written⟩
  | attach (now : SystemTime) (inserted position : Nat) :
    Turns capacity i sh written (.go now) (.subscribed inserted position) sh.attach
      ⟨.serving inserted position none [], written⟩
  | receive (now : SystemTime) (inserted position : Nat) (piped : List (List UInt8)) (m : Option (List Char) × Nat)
      (hm : recv capacity sh.server.broadcast position = some m) :
    Turns capacity i sh written (.go now) (.serving inserted position none piped) sh
      ⟨.serving inserted m.2 m.1 piped, written⟩
  | forward (now : SystemTime) (inserted position : Nat) (cmd : List Char) (piped : List (List UInt8)) :
    Turns capacity i sh written (.go now) (.serving inserted position (some cmd) piped) sh
      ⟨.serving inserted position none (piped ++ [encode cmd]), written⟩

/-- **A task takes no other steps.** -/
theorem act_turns {i : ι} {c : Choice} {sh sh' : Shared ι} {t t' : Task} (h : act capacity i c sh t = some (sh', t')) :
    Turns capacity i sh t.written c t.pc sh' t' := by
  obtain ⟨pc, written⟩ := t
  cases c with
  | request r =>
    cases pc with
    | idle =>
      cases h
      exact .request r
    | _ => cases h
  | go now =>
    cases pc with
    | idle => cases h
    | set key value px =>
      simp only [act, advance] at h
      split at h <;> cases h
      · exact .refuse now key value px ‹_›
      · exact .compute now key value px _ ‹_›
    | setFetched w =>
      obtain ⟨hlock, heq⟩ := Option.ite_none_right_eq_some.1 h
      cases heq
      exact .lockSet now w hlock
    | getFetched key =>
      obtain ⟨hlock, heq⟩ := Option.ite_none_right_eq_some.1 h
      cases heq
      exact .lockGet now key hlock
    | setInserted w =>
      cases h
      split
      · exact .master now w ‹_›
      · exact .slave now w ‹_›
    | setMaster w =>
      cases h
      split
      · exact .counted now w ‹_›
      · exact .uncounted now w (not_not.1 ‹_›)
    | serving inserted position cmd piped =>
      cases cmd with
      | none =>
        obtain ⟨m, hm, heq⟩ := Option.map_eq_some_iff.1 h
        cases heq
        exact .receive now inserted position piped m hm
      | some cmd =>
        cases h
        exact .forward now inserted position cmd piped
    | _ =>
      cases h
      constructor

/-- **All that a step of one task does to what is shared and seen.** -/
theorem act_moves {i : ι} {c : Choice} {sh sh' : Shared ι} {t t' : Task} (h : act capacity i c sh t = some (sh', t')) :
    Moves capacity i sh t sh' t' := by
  have hturns := act_turns h
  obtain ⟨pc, written⟩ := t
  cases hturns with
  | request r => cases r <;> exact .alone rfl rfl rfl
  | lockSet _ _ hlock | lockGet _ _ hlock => exact .acquire hlock rfl rfl rfl
  | insert now w => exact .insert w rfl rfl rfl rfl rfl
  | slave now w hrole => exact .skip w (decide_eq_true hrole) rfl rfl rfl rfl rfl
  | uncounted now w hcount => exact .skip w (decide_eq_true hcount) rfl rfl rfl rfl rfl
  | send now w => exact .send w rfl rfl rfl rfl rfl rfl
  | lookup now key => exact .lookup now key rfl rfl rfl rfl
  | unlockSet | unlockGet => exact .release rfl rfl rfl rfl
  | resync => exact .resync rfl rfl rfl
  | subscribe now inserted => exact .subscribe ⟨inserted, none, []⟩ rfl rfl rfl rfl rfl
  | attach => exact .attach rfl rfl rfl
  | receive now inserted position piped m hm =>
    refine .receive ⟨inserted, some position, piped⟩ position m rfl rfl rfl ?_ rfl hm rfl
    simp [Task.stream]
  | forward =>
    refine .alone rfl rfl ?_
    simp [Task.stream]
  | _ => exact .alone rfl rfl rfl

/-! ## A request by itself -/

theorem compute_of_none {now : SystemTime} {px : Option UInt64} (h : setExpiration now px = none)
    (key value : List Char) : Setting.compute now key value px = none := by
  unfold Setting.compute
  split
  · rfl
  · rename_i e he
    rw [h] at he
    cases he

theorem compute_of_some {now : SystemTime} {px : Option UInt64} {e : Option SystemTime}
    (h : setExpiration now px = some e) (key value : List Char) :
    Setting.compute now key value px = some ⟨key, value, px, e, now, h⟩ := by
  unfold Setting.compute
  split
  · rename_i he
    rw [h] at he
    cases he
  · rename_i e' he
    obtain rfl : e = e' := Option.some.inj (h.symm.trans he)
    rfl

section
variable (regex : List Char → Option (List Char → Bool)) (capacity) (i : ι) (written : List (List UInt8))
  (now : SystemTime)

/-- From its expiration on, a `SET` stores, broadcasts and unlocks. -/
theorem run_setReady {sh : Shared ι} (hlock : sh.lock = none) (w : Setting) :
    ∃ n, run (fun p c => act capacity i c p.1 p.2) (List.replicate n (.go now)) (sh, ⟨.setReady w, written⟩) =
      some (⟨(sh.server.store w.key ⟨w.value, w.expiration⟩).propagate w.command, none, sh.inserts ++ [w.command]⟩,
        ⟨.idle, written ++ [encode "+OK\r\n".toList]⟩) := by
  obtain ⟨⟨args, ⟨role, replid, offset⟩, slavesCount, map, broadcast⟩, lock, inserts⟩ := sh
  obtain rfl : lock = none := hlock
  cases role with
  | slave => exact ⟨6, rfl⟩
  | master =>
    cases slavesCount with
    | zero => exact ⟨7, rfl⟩
    | succ n => exact ⟨8, rfl⟩

theorem run_set {sh : Shared ι} (hlock : sh.lock = none) (key value : List Char) (px : Option UInt64) :
    ∃ n inserts, run (fun p c => act capacity i c p.1 p.2) (.request (.set key value px) :: List.replicate n (.go now))
        (sh, ⟨.idle, written⟩) =
      some (⟨(execute regex now (.set key value px) sh.server).1, none, inserts⟩,
        ⟨.idle, written ++ [encode (execute regex now (.set key value px) sh.server).2]⟩) := by
  have hfirst : act capacity i (.request (.set key value px)) sh ⟨.idle, written⟩ =
      some (sh, ⟨.set key value px, written⟩) := rfl
  cases he : setExpiration now px with
  | none =>
    have hstep : act capacity i (.go now) sh ⟨.set key value px, written⟩ =
        some (sh, ⟨.replying "-ERR Instant Addtion Error".toList, written⟩) := by
      simp only [act, advance, compute_of_none he]
      rfl
    refine ⟨2, sh.inserts, ?_⟩
    rw [run_cons hfirst, List.replicate_succ, run_cons hstep, execute, executeSet, he, ← hlock]
    rfl
  | some e =>
    have hstep : act capacity i (.go now) sh ⟨.set key value px, written⟩ =
        some (sh, ⟨.setReady ⟨key, value, px, e, now, he⟩, written⟩) := by
      simp only [act, advance, compute_of_some he]
      rfl
    obtain ⟨n, hn⟩ := run_setReady capacity i written now hlock ⟨key, value, px, e, now, he⟩
    refine ⟨n + 1, sh.inserts ++ [.set key value px], ?_⟩
    rw [run_cons hfirst, List.replicate_succ, run_cons hstep, hn, execute, executeSet, he]
    rfl

variable {i written} [DecidableEq ι] {s : Tasks ι}

/-- **A `SET` that nothing comes between is executed as one command.** -/
theorem request_set (htask : s.task i = ⟨.idle, written⟩) (hlock : s.shared.lock = none) (key value : List Char)
    (px : Option UInt64) :
    ∃ n inserts, s.run capacity ((.request (.set key value px) :: List.replicate n (.go now)).map (i, ·)) =
      some ⟨⟨(execute regex now (.set key value px) s.shared.server).1, none, inserts⟩, Function.update s.task i
        ⟨.idle, written ++ [encode (execute regex now (.set key value px) s.shared.server).2]⟩⟩ := by
  obtain ⟨n, inserts, hrun⟩ := run_set capacity regex i written now hlock key value px
  rw [← htask] at hrun
  exact ⟨n, inserts, run_alone hrun⟩

/-- **So is a `GET`.** -/
theorem request_get (htask : s.task i = ⟨.idle, written⟩) (hlock : s.shared.lock = none) (key : List Char) :
    s.run capacity ((.request (.get key) :: List.replicate 5 (.go now)).map (i, ·)) =
      some ⟨⟨(execute regex now (.get key) s.shared.server).1, none, s.shared.inserts⟩, Function.update s.task i
        ⟨.idle, written ++ [encode (execute regex now (.get key) s.shared.server).2]⟩⟩ := by
  have hrun : run (fun p c => act capacity i c p.1 p.2) (.request (.get key) :: List.replicate 5 (.go now))
      (s.shared, ⟨.idle, written⟩) = some (⟨(execute regex now (.get key) s.shared.server).1, none, s.shared.inserts⟩,
        ⟨.idle, written ++ [encode (execute regex now (.get key) s.shared.server).2]⟩) := by
    obtain ⟨⟨server, lock, inserts⟩, task⟩ := s
    obtain rfl : lock = none := hlock
    rfl
  rw [← htask] at hrun
  exact run_alone hrun

end

/-! ## What one step of the system does -/

abbrev Tasks.Exclusive (s : Tasks ι) : Prop := Steps.Exclusive Task.inside s.shared.lock s.task

/-- The `SET` that the holder of the lock has inserted and has not yet sent. -/
def Tasks.waiting (s : Tasks ι) : List Setting := carried Task.unsent s.shared.lock s.task

theorem waiting_cases (s : Tasks ι) :
    s.waiting = [] ∨ ∃ i w, s.shared.lock = some i ∧ (s.task i).unsent = [w] ∧ s.waiting = [w] := by
  cases hlock : s.shared.lock with
  | none => exact Or.inl (by rw [Tasks.waiting, hlock]; rfl)
  | some i =>
    have hwait : s.waiting = (s.task i).unsent := by rw [Tasks.waiting, hlock]; rfl
    rw [hwait]
    unfold Task.unsent
    split
    · exact Or.inr ⟨i, _, rfl, by simp [*], rfl⟩
    · exact Or.inr ⟨i, _, rfl, by simp [*], rfl⟩
    · exact Or.inr ⟨i, _, rfl, by simp [*], rfl⟩
    · exact Or.inl rfl

/-- What a step does to the map, to the messages, and to the `SET` that waits to be sent. -/
inductive Effect (s : Tasks ι) (i : ι) (s' : Tasks ι) : Prop
  | quiet (hins : s'.shared.inserts = s.shared.inserts)
      (hsent : s'.shared.server.broadcast = s.shared.server.broadcast) (hwait : s'.waiting = s.waiting)
      (hmap : s'.shared.server.map = s.shared.server.map ∨ ∃ key d, s.shared.server.map.lookup key = some d ∧
        d.expiration ≠ none ∧ s'.shared.server.map = s.shared.server.map.erase key)
  | insert (w : Setting) (hsh : s'.shared = s.shared.insert w) (hwait : s.waiting = []) (hwait' : s'.waiting = [w])
  | skip (w : Setting) (hskip : (s.task i).skips s.shared.server = true) (hsh : s'.shared = s.shared)
      (hwait : s.waiting = [w]) (hwait' : s'.waiting = [])
  | send (w : Setting) (hsend : (s.task i).sends = true) (hsh : s'.shared = s.shared.send w)
      (hwait : s.waiting = [w]) (hwait' : s'.waiting = [])

section
variable [DecidableEq ι]

/-- What waits after a step inside is what its task has not sent. -/
theorem waiting_of_inside {s : Tasks ι} {i : ι} {sh : Shared ι} {t : Task} (hs : s.Exclusive)
    (hin : (s.task i).inside = true) (hlock : sh.lock = s.shared.lock) :
    Tasks.waiting ⟨sh, Function.update s.task i t⟩ = t.unsent := by
  have hheld : sh.lock = some i := hlock.trans ((hs i).1 hin)
  rw [Tasks.waiting, hheld, carried_update_self]

/-- **Whoever has inserted and not yet sent holds the lock**, so a step keeps the lock exclusive and at most one `SET`
waiting. -/
theorem moves_effect {s : Tasks ι} {i : ι} {sh : Shared ι} {t : Task} (hs : s.Exclusive)
    (h : Moves capacity i s.shared (s.task i) sh t) :
    Tasks.Exclusive ⟨sh, Function.update s.task i t⟩ ∧ Effect s i ⟨sh, Function.update s.task i t⟩ := by
  cases h with
  | alone hin hun hst => exact ⟨hs.stay hin, .quiet rfl rfl (carried_update hun) (Or.inl rfl)⟩
  | resync hin hun hst => exact ⟨hs.stay hin, .quiet rfl rfl (carried_update hun) (Or.inl rfl)⟩
  | subscribe r hin hun hst hpos hst' => exact ⟨hs.stay hin, .quiet rfl rfl (carried_update hun) (Or.inl rfl)⟩
  | attach hin hun hst => exact ⟨hs.stay hin, .quiet rfl rfl (carried_update hun) (Or.inl rfl)⟩
  | receive r position m hrecv hin hun hst hpos hm hst' =>
    exact ⟨hs.stay hin, .quiet rfl rfl (carried_update hun) (Or.inl rfl)⟩
  | acquire hlock hin hun hst =>
    have hnone : s.waiting = [] := by rw [Tasks.waiting, hlock]; rfl
    refine ⟨Exclusive.acquire (hlock ▸ hs) hin, .quiet rfl rfl ?_ (Or.inl rfl)⟩
    exact carried_update_self.trans (hun.trans hnone.symm)
  | release hin hin' hun hst =>
    have hnone : s.waiting = [] := (carried_of_inside hs hin).trans hun
    exact ⟨hs.release hin hin', .quiet rfl rfl hnone.symm (Or.inl rfl)⟩
  | lookup now key hin hin' hun hst =>
    exact ⟨hs.stay (hin'.trans hin.symm), .quiet rfl (executeGet_broadcast now key s.shared.server) (carried_update hun)
      (executeGet_map now key s.shared.server)⟩
  | insert w hin hin' hun hun' hst =>
    exact ⟨hs.stay (hin'.trans hin.symm),
      .insert w rfl ((carried_of_inside hs hin).trans hun) ((waiting_of_inside hs hin rfl).trans hun')⟩
  | skip w hskip hin hin' hun hun' hst =>
    exact ⟨hs.stay (hin'.trans hin.symm),
      .skip w hskip rfl ((carried_of_inside hs hin).trans hun) ((waiting_of_inside hs hin rfl).trans hun')⟩
  | send w hsend hin hin' hun hun' hst =>
    exact ⟨hs.stay (hin'.trans hin.symm),
      .send w hsend rfl ((carried_of_inside hs hin).trans hun) ((waiting_of_inside hs hin rfl).trans hun')⟩

end

theorem exclusive_start (σ : Server) : Tasks.Exclusive (Tasks.start σ : Tasks ι) := fun _ => iff_of_false nofun nofun

end

end Rusdis
