import Rusdis.Answers
/-!
# Dialogue — one reply for each request

`Dialogue` is a run of reads each of which gets one RESP value, until the connection closes or serves a replica.
A run is one when every read is `Served` (`dialogue_of_served`).  A request that `parse_command` rejects is not: nothing
is written for it (`handleRead_rejected`).
-/
namespace Rusdis

open Utf8
open Decimal (natText)

/-- What a first `PSYNC ?` is sent: the resynchronisation line and the RDB file. -/
def resync (r : ReplicationInfo) : List UInt8 :=
  encode (fullResync r) ++ encode (['$'] ++ natText rdbFile.length ++ crlf) ++ rdbFile

section
variable (regex : List Char → Option (List Char → Bool))

/-- The replies to a run of reads, in order. -/
inductive Dialogue : Conn → List Read → List (List Char) → Prop
  | done (c : Conn) : Dialogue c [] []
  | closed {c : Conn} {r : Read} (rs : List Read)
      (hphase : (handleRead regex r.now r.buf c r.server).1.phase = .closed)
      (hwritten : (handleRead regex r.now r.buf c r.server).1.written = c.written) : Dialogue c (r :: rs) []
  | piped {c : Conn} {r : Read} (rs : List Read)
      (hphase : (handleRead regex r.now r.buf c r.server).1.phase = .piped)
      (hwritten : (handleRead regex r.now r.buf c r.server).1.written =
        c.written ++ resync r.server.replicationInfo) : Dialogue c (r :: rs) []
  | reply {c : Conn} {r : Read} {rs : List Read} {s : List Char} {ss : List (List Char)}
      (hphase : (handleRead regex r.now r.buf c r.server).1.phase = .reading) (hs : Reply s)
      (hwritten : (handleRead regex r.now r.buf c r.server).1.written = c.written ++ encode s)
      (hrest : Dialogue (handleRead regex r.now r.buf c r.server).1 rs ss) : Dialogue c (r :: rs) (s :: ss)

/-- A command that gets its one reply in this state of the connection. -/
def Replied (now : Nat → SystemTime) (r : ReplicationInfo) (c : Conn) : Command → Prop
  | .psync id _       => id = none
  | .multi | .discard => True
  | .exec             => c.isMulti = true → ∀ x ∈ timed now c.queue, Answered regex x.1 r x.2
  | cmd               => c.isMulti = false → Answered regex (now 0) r cmd

/-- A read that is no request at all, or is one for such a command. -/
def Served (r : Read) (c : Conn) : Prop :=
  match parse (decodeLossy r.buf) with
  | .error _ => True
  | .ok (.array cmds) => ∃ cmd, parseCommand cmds = .ok cmd ∧ Replied regex r.now r.server.replicationInfo c cmd
  | .ok _ => False

def AllServed : List Read → Conn → Prop
  | [],      _ => True
  | r :: rs, c => (c.phase = .reading → Served regex r c) ∧ AllServed rs (handleRead regex r.now r.buf c r.server).1

/-- **A rejected request gets no reply**, and the connection goes on as it was. -/
theorem handleRead_rejected {now : Nat → SystemTime} {buf : List UInt8} {c : Conn} {σ : Server} {cmds : List Value}
    {e : RusdisError} (hparse : parse (decodeLossy buf) = .ok (.array cmds)) (hcmd : parseCommand cmds = .error e)
    (hphase : c.phase = .reading) : handleRead regex now buf c σ = (c, σ) := by
  have hbuf : buf ≠ [] := by
    rintro rfl
    rw [show decodeLossy [] = [] from rfl, parse_nil] at hparse
    cases hparse
  rw [handleRead, if_neg (by rw [hphase]; simp), if_neg hbuf, hparse]
  simp only [hcmd]

theorem reply_written (now : Nat → SystemTime) {cmd : Command} {c : Conn} {σ : Server}
    (h : Replied regex now σ.replicationInfo c cmd) (hcmd : ¬ IsPsync cmd) :
    ∃ s, Reply s ∧ (dispatchCommand regex now cmd c σ).1.written = c.written ++ encode s := by
  obtain ⟨isMulti, queue, written, dispatched, phase⟩ := c
  have hsingle : ∀ {cmd}, Answered regex (now 0) σ.replicationInfo cmd →
      Reply (executeMultiCommands regex [(now 0, cmd)] false σ).2 := by
    intro cmd hanswered
    rw [executeMultiCommands_single]
    exact (reply_execute_iff regex (now 0) cmd σ).2 hanswered
  cases cmd with
  | psync id offset => exact absurd trivial hcmd
  | multi => exact ⟨_, .simple (s := "OK".toList) (by decide), rfl⟩
  | discard =>
    cases isMulti with
    | false => exact ⟨_, .error (s := "ERR DISCARD without MULTI".toList) (by decide), rfl⟩
    | true => exact ⟨_, .simple (s := "OK".toList) (by decide), rfl⟩
  | exec =>
    cases isMulti with
    | false => exact ⟨_, .error (s := "ERR EXEC without MULTI".toList) (by decide), rfl⟩
    | true =>
      have hexec := congrArg Prod.snd (executeMultiCommands_singly regex (timed now queue) σ)
      exact ⟨_, reply_array _ (length_singly regex (timed now queue) σ) ((reply_singly_iff regex _ σ).2 (h rfl)),
        congrArg (fun s => written ++ encode s) hexec⟩
  | _ =>
    cases isMulti with
    | false => exact ⟨_, hsingle (h rfl), rfl⟩
    | true => exact ⟨_, .simple (s := "QUEUED".toList) (by decide), rfl⟩

/-- **Every request of a served run is answered once and in order.** -/
theorem dialogue_of_served : ∀ (rs : List Read) (c : Conn), c.phase = .reading → AllServed regex rs c →
    ∃ ss, Dialogue regex c rs ss
  | [], c, _, _ => ⟨[], .done c⟩
  | r :: rs, c, hphase, ⟨hserved, hrest⟩ => by
    have hserved := hserved hphase
    by_cases hbuf : r.buf = []
    · have hread : handleRead regex r.now r.buf c r.server = ({ c with phase := .closed }, r.server) := by
        rw [handleRead, if_neg (by rw [hphase]; simp), if_pos hbuf]
      exact ⟨[], .closed rs (by rw [hread]) (by rw [hread])⟩
    unfold Served at hserved
    cases hparse : parse (decodeLossy r.buf) with
    | error e =>
      have hread : handleRead regex r.now r.buf c r.server = ({ c with phase := .closed }, r.server) := by
        rw [handleRead, if_neg (by rw [hphase]; simp), if_neg hbuf, hparse]
      exact ⟨[], .closed rs (by rw [hread]) (by rw [hread])⟩
    | ok v =>
      rw [hparse] at hserved
      cases v with
      | array cmds =>
        obtain ⟨cmd, hcmd, hreplied⟩ := hserved
        have hread := handleRead_accepted regex r.now r.server hphase ⟨cmds, hparse, hcmd⟩
        by_cases hp : IsPsync cmd
        · cases cmd with
          | psync id offset =>
            obtain rfl : id = none := hreplied
            refine ⟨[], .piped rs (by rw [hread]; rfl) ?_⟩
            rw [hread, resync, ← List.append_assoc, ← List.append_assoc]
            rfl
          | _ => cases hp
        · obtain ⟨s, hs, hwritten⟩ := reply_written regex r.now
            (c := { c with dispatched := c.dispatched ++ [cmd] }) hreplied hp
          have hstay := (dispatchCommand_cases regex r.now cmd { c with dispatched := c.dispatched ++ [cmd] } r.server).2
            (not_detaches hp)
          rw [← hread] at hwritten hstay
          have hreading := hstay.trans hphase
          obtain ⟨ss, hss⟩ := dialogue_of_served rs _ hreading hrest
          exact ⟨s :: ss, .reply hreading hs hwritten hss⟩
      | _ => cases hserved

theorem AllServed.accepted {r : Read} {rs : List Read} {c : Conn} {cmd : Command} (hphase : c.phase = .reading)
    (h : Accepted r.buf cmd) (hreplied : Replied regex r.now r.server.replicationInfo c cmd)
    (hrest : AllServed regex rs
      (dispatchCommand regex r.now cmd { c with dispatched := c.dispatched ++ [cmd] } r.server).1) :
    AllServed regex (r :: rs) c := by
  refine ⟨fun _ => ?_, by rwa [handleRead_accepted regex r.now r.server hphase h]⟩
  obtain ⟨cmds, hparse, hcmd⟩ := h
  unfold Served
  rw [hparse]
  exact ⟨cmd, hcmd, hreplied⟩

end

def Turn.read (t : Turn) : Read := ⟨t.buf, Server.start .master 0, t.now⟩

/-- A transaction, with a request before it and one after it. -/
theorem dialogue_exec : ∃ ss, Dialogue (fun _ => none) Conn.start
    ([["PING"], ["MULTI"], ["SET", "k", "5"], ["INCR", "k"], ["EXEC"], ["GET", "k"]].map
      (fun args => (Turn.start args).read)) ss := by
  have hping : Accepted (Turn.start ["PING"]).buf .ping := Turn.start_accepted (by decide) (by decide) (by decide)
  have hmulti : Accepted (Turn.start ["MULTI"]).buf .multi := Turn.start_accepted (by decide) (by decide) (by decide)
  have hset : Accepted (Turn.start ["SET", "k", "5"]).buf (.set ['k'] ['5'] none) :=
    Turn.start_accepted (by decide) (by decide) (by decide)
  have hincr : Accepted (Turn.start ["INCR", "k"]).buf (.incr ['k']) :=
    Turn.start_accepted (by decide) (by decide) (by decide)
  have hexec : Accepted (Turn.start ["EXEC"]).buf .exec := Turn.start_accepted (by decide) (by decide) (by decide)
  have hget : Accepted (Turn.start ["GET", "k"]).buf (.get ['k']) :=
    Turn.start_accepted (by decide) (by decide) (by decide)
  have hqueue : ∀ x ∈ [(0, .set ['k'] ['5'] none), (0, .incr ['k'])],
      Answered (fun _ => none) x.1 (Server.start .master 0).replicationInfo x.2 :=
    List.forall_mem_cons.2 ⟨(fun h => nomatch h), List.forall_mem_singleton.2 trivial⟩
  refine dialogue_of_served _ _ _ rfl ?_
  refine .accepted _ rfl hping (fun _ => trivial) (.accepted _ rfl hmulti trivial ?_)
  refine .accepted _ rfl hset (fun h => nomatch h) (.accepted _ rfl hincr (fun h => nomatch h) ?_)
  exact .accepted _ rfl hexec (fun _ => hqueue) (.accepted _ rfl hget (fun _ => trivial) trivial)

/-- A command that is not known. -/
theorem dialogue_unknown : ¬ ∀ (regex : List Char → Option (List Char → Bool)) (rs : List Read) (c : Conn),
    c.phase = .reading → (∀ r ∈ rs, ∃ args, r.buf = encode (encodeRequest args)) → ∃ ss, Dialogue regex c rs ss := by
  intro h
  obtain ⟨ss, hss⟩ := h (fun _ => none) [(Turn.start ["FOO"]).read] Conn.start rfl
    (List.forall_mem_singleton.2 ⟨["FOO".toList], rfl⟩)
  have hread : ∀ σ now, handleRead (fun _ => none) now (Turn.start ["FOO"]).buf Conn.start σ = (Conn.start, σ) :=
    fun σ now => handleRead_rejected _ (Turn.parse_start (by decide) (by decide))
      (e := .commandParserError "Unrecognized command") (by decide) rfl
  cases hss with
  | closed _ hphase => rw [Turn.read, hread] at hphase; cases hphase
  | piped _ hphase => rw [Turn.read, hread] at hphase; cases hphase
  | reply _ hs hwritten =>
    rw [Turn.read, hread] at hwritten
    have hlen := congrArg List.length hwritten
    rw [List.length_append, length_encode] at hlen
    have hnil := byteLen_eq_zero.1 (Nat.add_eq_left.1 hlen.symm)
    exact not_reply (by decide) (hnil ▸ hs)

end Rusdis
