import Rusdis.Connection
/-!
# Session — the transactions of one connection, alone with the server

`transact` says what `MULTI`, `EXEC` and `DISCARD` are for.  A session refines it from its first read to its last
(`session_refines`), and its queue is never left over or mixed (`Settled`).
-/
namespace Rusdis

open Utf8
open Decimal (natText)

/-- The commands `execute_multi_commands` has an arm for. -/
def Supported : Command → Prop
  | .multi | .exec | .discard | .psync _ _ => False
  | _ => True

def IsPsync : Command → Prop
  | .psync _ _ => True
  | _ => False

theorem not_detaches {cmd : Command} (h : ¬ IsPsync cmd) : ¬ Detaches cmd := by
  rintro ⟨offset, rfl⟩
  exact h trivial

/-- A queue with the clock readings of its commands. -/
def timed (now : Nat → SystemTime) (queue : List Command) : List (SystemTime × Command) :=
  queue.mapIdx (fun n cmd => (now n, cmd))

theorem length_timed (now : Nat → SystemTime) (queue : List Command) : (timed now queue).length = queue.length :=
  List.length_mapIdx

theorem map_snd_timed (now : Nat → SystemTime) (queue : List Command) : (timed now queue).map Prod.snd = queue :=
  List.ext_getElem (by simp [timed]) (by simp [timed])

/-- A read with the clock of the commands it executes. -/
structure Turn where
  buf : List UInt8
  now : Nat → SystemTime

/-- A read taken for this command. -/
def Accepted (buf : List UInt8) (cmd : Command) : Prop :=
  ∃ cmds, parse (decodeLossy buf) = .ok (.array cmds) ∧ parseCommand cmds = .ok cmd

theorem Accepted.ne_nil {buf : List UInt8} {cmd : Command} (h : Accepted buf cmd) : buf ≠ [] := by
  rintro rfl
  obtain ⟨cmds, hparse, -⟩ := h
  rw [show decodeLossy [] = [] from rfl, parse_nil] at hparse
  cases hparse

theorem parse_decodeLossy_request (args : List (List Char)) (hlen : args.length < 2147483648)
    (hargs : ∀ a ∈ args, Framed a) :
    parse (decodeLossy (encode (encodeRequest args))) = .ok (.array (args.map .bulkString)) := by
  have hparse := parse_encodeRequest hlen hargs []
  rw [List.append_nil] at hparse
  rw [decodeLossy_encode, hparse]

section
variable (regex : List Char → Option (List Char → Bool))

/-- Each command run singly, one after the other, and its reply. -/
def singly : List (SystemTime × Command) → Server → Server × List (List Char)
  | [],      σ => (σ, [])
  | c :: cs, σ =>
    let (σ, reply) := executeMultiCommands regex [c] false σ
    let (σ, replies) := singly cs σ
    (σ, reply :: replies)

theorem executeMultiCommands_single (now : SystemTime) (cmd : Command) (σ : Server) :
    executeMultiCommands regex [(now, cmd)] false σ = execute regex now cmd σ := by
  simp [executeMultiCommands, executeAll]

theorem singly_cons (now : SystemTime) (cmd : Command) (cs : List (SystemTime × Command)) (σ : Server) :
    singly regex ((now, cmd) :: cs) σ =
      ((singly regex cs (execute regex now cmd σ).1).1,
        (execute regex now cmd σ).2 :: (singly regex cs (execute regex now cmd σ).1).2) := by
  rw [singly, executeMultiCommands_single]

theorem singly_append : ∀ (cs ds : List (SystemTime × Command)) (σ : Server),
    singly regex (cs ++ ds) σ = ((singly regex ds (singly regex cs σ).1).1,
      (singly regex cs σ).2 ++ (singly regex ds (singly regex cs σ).1).2)
  | [], _, _ => rfl
  | (now, cmd) :: cs, ds, σ => by
    rw [List.cons_append, singly_cons, singly_append cs ds, singly_cons]
    rfl

/-- **A batch is its commands run singly.** -/
theorem executeAll_singly : ∀ (cs : List (SystemTime × Command)) (σ : Server),
    executeAll regex cs σ = ((singly regex cs σ).1, (singly regex cs σ).2.flatten)
  | [], _ => rfl
  | (now, cmd) :: cs, σ => by
    simp only [executeAll, executeAll_singly cs, singly_cons, List.flatten_cons]

theorem length_singly : ∀ (cs : List (SystemTime × Command)) (σ : Server), (singly regex cs σ).2.length = cs.length
  | [], _ => rfl
  | (now, cmd) :: cs, σ => by rw [singly_cons, List.length_cons, List.length_cons, length_singly cs]

theorem executeMultiCommands_singly (cs : List (SystemTime × Command)) (σ : Server) :
    executeMultiCommands regex cs true σ =
      ((singly regex cs σ).1, ['*'] ++ natText cs.length ++ crlf ++ (singly regex cs σ).2.flatten) := by
  rw [executeMultiCommands, executeAll_singly]
  rfl

/-! ## What a transaction is -/

/-- The commands queued since `MULTI`, when there was one, and the server. -/
structure Transaction where
  queued : Option (List Command)
  server : Server

/-- One command, and its reply. -/
def transact (now : Nat → SystemTime) (cmd : Command) (t : Transaction) : Transaction × List Char :=
  match cmd, t.queued with
  | .multi,   queued      => ({ t with queued := some (queued.getD []) }, "+OK\r\n".toList)
  | .exec,    none        => (t, "-ERR EXEC without MULTI\r\n".toList)
  | .exec,    some queued =>
    let (σ, replies) := singly regex (timed now queued) t.server
    (⟨none, σ⟩, ['*'] ++ natText queued.length ++ crlf ++ replies.flatten)
  | .discard, none        => (t, "-ERR DISCARD without MULTI\r\n".toList)
  | .discard, some _      => ({ t with queued := none }, "+OK\r\n".toList)
  | cmd,      none        =>
    let (σ, reply) := executeMultiCommands regex [(now 0, cmd)] false t.server
    (⟨none, σ⟩, reply)
  | cmd,      some queued => ({ t with queued := some (queued ++ [cmd]) }, "+QUEUED\r\n".toList)

def transactAll : List ((Nat → SystemTime) × Command) → Transaction → Transaction × List (List Char)
  | [],               t => (t, [])
  | (now, cmd) :: cs, t =>
    let (t, reply) := transact regex now cmd t
    let (t, replies) := transactAll cs t
    (t, reply :: replies)

/-- The commands a dispatch hands to `execute_multi_commands`. -/
def batch (cmd : Command) (c : Conn) : List Command :=
  match cmd with
  | .multi | .discard | .psync _ _ => []
  | .exec => if c.isMulti then c.queue else []
  | other => if c.isMulti then [] else [other]

theorem dispatchCommand_batch (now : Nat → SystemTime) (cmd : Command) (c : Conn) (σ : Server) :
    (dispatchCommand regex now cmd c σ).2 = (executeAll regex (timed now (batch cmd c)) σ).1 := by
  obtain ⟨isMulti, queue, written, dispatched, phase⟩ := c
  cases cmd with
  | psync id offset => cases id <;> rfl
  | multi => rfl
  | _ => cases isMulti <;> rfl

/-! ## A session refines it -/

/-- The connection and the server at a state of the transaction. -/
structure Simulates (c : Conn) (σ : Server) (t : Transaction) : Prop where
  isMulti : c.isMulti = t.queued.isSome
  queue : c.queue = t.queued.getD []
  server : σ = t.server

/-- The queue holds what can be executed, and nothing outside a `MULTI`. -/
structure Settled (c : Conn) : Prop where
  idle : c.isMulti = false → c.queue = []
  supported : ∀ cmd ∈ c.queue, Supported cmd

theorem Settled.batch {c : Conn} (h : Settled c) (cmd : Command) : ∀ cmd' ∈ batch cmd c, Supported cmd' := by
  obtain ⟨isMulti, queue, written, dispatched, phase⟩ := c
  intro cmd' hmem
  cases cmd with
  | exec =>
    cases isMulti with
    | false => cases hmem
    | true => exact h.supported cmd' hmem
  | multi | discard | psync => cases hmem
  | _ =>
    cases isMulti with
    | false =>
      rw [List.mem_singleton.1 hmem]
      trivial
    | true => cases hmem

theorem settled_dispatchCommand (now : Nat → SystemTime) (cmd : Command) {c : Conn} (σ : Server) (h : Settled c) :
    Settled (dispatchCommand regex now cmd c σ).1 := by
  obtain ⟨isMulti, queue, written, dispatched, phase⟩ := c
  cases cmd with
  | psync id offset => cases id <;> exact ⟨h.idle, h.supported⟩
  | multi => exact ⟨nofun, h.supported⟩
  | exec | discard =>
    cases isMulti with
    | false => exact ⟨h.idle, h.supported⟩
    | true => exact ⟨fun _ => rfl, nofun⟩
  | _ =>
    cases isMulti with
    | false => exact ⟨h.idle, h.supported⟩
    | true =>
      refine ⟨nofun, fun cmd' hmem => ?_⟩
      rcases List.mem_append.1 hmem with hmem | hmem
      · exact h.supported cmd' hmem
      · rw [List.mem_singleton.1 hmem]
        trivial

/-- **One command is dispatched as the transaction takes it.** -/
theorem dispatchCommand_simulates (now : Nat → SystemTime) {cmd : Command} {c : Conn} {σ : Server} {t : Transaction}
    (h : Simulates c σ t) (hcmd : ¬ IsPsync cmd) :
    Simulates (dispatchCommand regex now cmd c σ).1 (dispatchCommand regex now cmd c σ).2
        (transact regex now cmd t).1 ∧
      (dispatchCommand regex now cmd c σ).1.written = c.written ++ encode (transact regex now cmd t).2 := by
  obtain ⟨isMulti, queue, written, dispatched, phase⟩ := c
  obtain ⟨queued, server⟩ := t
  obtain ⟨hmulti, hqueue, rfl⟩ := h
  cases queued with
  | none =>
    obtain rfl : isMulti = false := hmulti
    obtain rfl : queue = [] := hqueue
    cases cmd with
    | psync id offset => exact absurd trivial hcmd
    | _ => exact ⟨⟨rfl, rfl, rfl⟩, rfl⟩
  | some queued =>
    obtain rfl : isMulti = true := hmulti
    obtain rfl : queue = queued := hqueue
    cases cmd with
    | psync id offset => exact absurd trivial hcmd
    | exec =>
      have hexec : transact regex now .exec ⟨some queue, σ⟩ =
          (⟨none, (executeMultiCommands regex (timed now queue) true σ).1⟩,
            (executeMultiCommands regex (timed now queue) true σ).2) := by
        rw [executeMultiCommands_singly, length_timed]
        rfl
      rw [hexec]
      exact ⟨⟨rfl, rfl, rfl⟩, rfl⟩
    | _ => exact ⟨⟨rfl, rfl, rfl⟩, rfl⟩

/-! ## Whole sessions -/

/-- A connection alone with the server: each read finds it as the read before left it. -/
def session : List Turn → Conn → Server → Conn × Server
  | [],      c, σ => (c, σ)
  | r :: rs, c, σ =>
    let (c, σ) := handleRead regex r.now r.buf c σ
    session rs c σ

theorem handleRead_accepted (now : Nat → SystemTime) {buf : List UInt8} {cmd : Command} {c : Conn} (σ : Server)
    (hphase : c.phase = .reading) (h : Accepted buf cmd) :
    handleRead regex now buf c σ = dispatchCommand regex now cmd { c with dispatched := c.dispatched ++ [cmd] } σ := by
  obtain ⟨cmds, hparse, hcmd⟩ := h
  rw [handleRead, if_neg (by rw [hphase]; simp), if_neg (Accepted.ne_nil ⟨cmds, hparse, hcmd⟩), hparse]
  simp only [hcmd]

theorem session_closed : ∀ (rs : List Turn) (c : Conn) (σ : Server), c.phase ≠ .reading → session regex rs c σ = (c, σ)
  | [], _, _, _ => rfl
  | r :: rs, c, σ, h => by
    have hread : handleRead regex r.now r.buf c σ = (c, σ) := by rw [handleRead, if_pos h]
    rw [session, hread]
    exact session_closed rs c σ h

/-- **A disconnect leaves the server as it is**, whatever was queued. -/
theorem session_disconnect (now : Nat → SystemTime) (later : List Turn) (c : Conn) (σ : Server) :
    (session regex (⟨[], now⟩ :: later) c σ).2 = σ := by
  by_cases hphase : c.phase = .reading
  · have hread : handleRead regex now [] c σ = ({ c with phase := .closed }, σ) := by
      rw [handleRead, if_neg (by rw [hphase]; simp), if_pos rfl]
    rw [session, hread]
    exact congrArg Prod.snd (session_closed regex later _ σ (by simp))
  · rw [session_closed regex _ c σ hphase]

theorem session_simulates : ∀ (ts : List (Turn × Command)) (c : Conn) (σ : Server) (t : Transaction),
    c.phase = .reading → Simulates c σ t → Settled c → (∀ x ∈ ts, Accepted x.1.buf x.2 ∧ ¬ IsPsync x.2) →
      Simulates (session regex (ts.map Prod.fst) c σ).1 (session regex (ts.map Prod.fst) c σ).2
          (transactAll regex (ts.map (fun x => (x.1.now, x.2))) t).1 ∧
        Settled (session regex (ts.map Prod.fst) c σ).1 ∧
        (session regex (ts.map Prod.fst) c σ).1.written =
          c.written ++ encode (transactAll regex (ts.map (fun x => (x.1.now, x.2))) t).2.flatten
  | [], c, σ, t, _, hsim, hset, _ => ⟨hsim, hset, by simp [session, transactAll]⟩
  | (r, cmd) :: ts, c, σ, t, hphase, hsim, hset, h => by
    obtain ⟨haccepted, hcmd⟩ := h (r, cmd) (by simp)
    have hread := handleRead_accepted regex r.now σ hphase haccepted
    have hsim' : Simulates { c with dispatched := c.dispatched ++ [cmd] } σ t := ⟨hsim.1, hsim.2, hsim.3⟩
    have hset' : Settled { c with dispatched := c.dispatched ++ [cmd] } := ⟨hset.1, hset.2⟩
    obtain ⟨hstep, hwritten⟩ := dispatchCommand_simulates regex r.now hsim' hcmd
    have hphase' := (dispatchCommand_cases regex r.now cmd { c with dispatched := c.dispatched ++ [cmd] } σ).2
      (not_detaches hcmd)
    rw [← hread] at hstep hwritten hphase'
    obtain ⟨hend, hsettled, hall⟩ := session_simulates ts _ _ _ (hphase'.trans hphase) hstep
      (hread ▸ settled_dispatchCommand regex r.now cmd σ hset') (fun x hx => h x (by simp [hx]))
    refine ⟨hend, hsettled, hall.trans ?_⟩
    rw [hwritten, List.append_assoc, ← encode_append]
    rfl

/-- What a session has come to after these commands. -/
structure Refines (cs : List ((Nat → SystemTime) × Command)) (σ : Server) (s : Conn × Server) : Prop where
  state : Simulates s.1 s.2 (transactAll regex cs ⟨none, σ⟩).1
  written : s.1.written = encode (transactAll regex cs ⟨none, σ⟩).2.flatten
  settled : Settled s.1
  executed : ∀ now cmd, (dispatchCommand regex now cmd s.1 s.2).2 = (executeAll regex (timed now (batch cmd s.1)) s.2).1 ∧
    ∀ cmd' ∈ batch cmd s.1, Supported cmd'
  disconnect : ∀ now later, (session regex (⟨[], now⟩ :: later) s.1 s.2).2 = s.2

/-- **A session refines its transactions.** -/
theorem session_refines (ts : List (Turn × Command)) (σ : Server)
    (h : ∀ x ∈ ts, Accepted x.1.buf x.2 ∧ ¬ IsPsync x.2) :
    Refines regex (ts.map (fun x => (x.1.now, x.2))) σ (session regex (ts.map Prod.fst) Conn.start σ) := by
  obtain ⟨hstate, hsettled, hwritten⟩ := session_simulates regex ts Conn.start σ ⟨none, σ⟩ rfl ⟨rfl, rfl, rfl⟩
    ⟨fun _ => rfl, nofun⟩ h
  exact {
    state := hstate
    written := hwritten
    settled := hsettled
    executed := fun now cmd => ⟨dispatchCommand_batch regex now cmd _ _, hsettled.batch cmd⟩
    disconnect := fun now later => session_disconnect regex now later _ _ }

end

/-- A request of these words. -/
def Turn.start (args : List String) : Turn := ⟨encode (encodeRequest (args.map String.toList)), fun _ => 0⟩

theorem Turn.parse_start {args : List String} (hlen : args.length < 2147483648)
    (hargs : ∀ a ∈ args, NoCrlf a.toList ∧ byteLen a.toList < 2147483648 ∧ countQoda a.toList = .ok 0) :
    parse (decodeLossy (Turn.start args).buf) = .ok (.array (args.map (fun a => .bulkString a.toList))) := by
  have hparse := parse_decodeLossy_request (args.map String.toList) (by rwa [List.length_map]) (fun a ha => by
    obtain ⟨b, hb, rfl⟩ := List.mem_map.1 ha
    exact ⟨(hargs b hb).1, (hargs b hb).2.1, (hargs b hb).2.2⟩)
  rwa [List.map_map] at hparse

theorem Turn.start_accepted {args : List String} {cmd : Command} (hlen : args.length < 2147483648)
    (hcmd : parseCommand (args.map (fun a => .bulkString a.toList)) = .ok cmd)
    (hargs : ∀ a ∈ args, NoCrlf a.toList ∧ byteLen a.toList < 2147483648 ∧ countQoda a.toList = .ok 0) :
    Accepted (Turn.start args).buf cmd := ⟨_, Turn.parse_start hlen hargs, hcmd⟩

/-- What `MULTI` queued is counted and answered by `EXEC`. -/
theorem session_refines_three : Refines (fun _ => none)
    [(fun _ => 0, .multi), (fun _ => 0, .incr ['k']), (fun _ => 0, .exec)] (Server.start .master 0)
    (session (fun _ => none) [Turn.start ["MULTI"], Turn.start ["INCR", "k"], Turn.start ["EXEC"]] Conn.start
      (Server.start .master 0)) := by
  refine session_refines (fun _ => none) [(Turn.start ["MULTI"], .multi), (Turn.start ["INCR", "k"], .incr ['k']),
    (Turn.start ["EXEC"], .exec)] _ (List.forall_mem_cons.2 ⟨⟨?_, id⟩, List.forall_mem_cons.2 ⟨⟨?_, id⟩,
      List.forall_mem_singleton.2 ⟨?_, id⟩⟩⟩)
  · exact Turn.start_accepted (by decide) (by decide) (by decide)
  · exact Turn.start_accepted (by decide) (by decide) (by decide)
  · exact Turn.start_accepted (by decide) (by decide) (by decide)

end Rusdis
