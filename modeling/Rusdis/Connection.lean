import Rusdis.Execute
/-!
# Connection — `handle_commands`

A client's connection takes each read for one request: it is decoded, parsed once, and the command dispatched; what
the read holds after that request is dropped.  A run whose reads are whole requests dispatches them all, in order
(`dispatched_requests`).
-/
namespace Rusdis

open Fallible Utf8
open Decimal (natText)

inductive Phase where
  | reading
  | piped
  | closed
  deriving DecidableEq, Repr

structure Conn where
  isMulti : Bool
  queue : List Command
  written : List UInt8
  dispatched : List Command
  phase : Phase

def Conn.write (s : List Char) (c : Conn) : Conn := { c with written := c.written ++ encode s }

def hexDigit (c : Char) : Nat := if c.isDigit then c.toNat - '0'.toNat else c.toNat - 'a'.toNat + 10

def hexBytes : List Char → List UInt8
  | a :: b :: s => UInt8.ofNat (16 * hexDigit a + hexDigit b) :: hexBytes s
  | _           => []

/-- The RDB file sent to a replica, without keys. -/
def rdbFile : List UInt8 := hexBytes
  ("524544495330303131fa0972656469732d76657205372e322e30fa0a72656469732d62697473c040fa056374696d65c26d08bc65fa0875" ++
    "7365642d6d656dc2b0c41000fa08616f662d62617365c000fff06e3bfec0ff5aa2").toList

def fullResync (r : ReplicationInfo) : List Char :=
  "+FULLRESYNC ".toList ++ r.masterReplid ++ [' '] ++ natText r.masterReplOffset.toNat ++ crlf

section
variable (regex : List Char → Option (List Char → Bool))

/-- The `match cmd` of the loop; `now n` is the clock for the `n`-th command it executes. -/
def dispatchCommand (now : Nat → SystemTime) (cmd : Command) (c : Conn) (σ : Server) : Conn × Server :=
  match cmd with
  | .psync (some _) _ => (c, σ)
  | .psync none _ =>
    let c := (c.write (fullResync σ.replicationInfo)).write (['$'] ++ natText rdbFile.length ++ crlf)
    ({ c with written := c.written ++ rdbFile, phase := .piped }, σ)
  | .multi => ({ c with isMulti := true }.write "+OK\r\n".toList, σ)
  | .exec =>
    if c.isMulti = false then (c.write "-ERR EXEC without MULTI\r\n".toList, σ)
    else
      let (σ, replyString) := executeMultiCommands regex (c.queue.mapIdx (fun n cmd => (now n, cmd))) true σ
      ({ c with queue := [], isMulti := false }.write replyString, σ)
  | .discard =>
    if c.isMulti = false then (c.write "-ERR DISCARD without MULTI\r\n".toList, σ)
    else ({ c with queue := [], isMulti := false }.write "+OK\r\n".toList, σ)
  | other =>
    if c.isMulti = false then
      let (σ, replyString) := executeMultiCommands regex [(now 0, other)] false σ
      (c.write replyString, σ)
    else ({ c with queue := c.queue ++ [other] }.write "+QUEUED\r\n".toList, σ)

/-- One turn of the loop, on a server as the other tasks left it. -/
def handleRead (now : Nat → SystemTime) (buf : List UInt8) (c : Conn) (σ : Server) : Conn × Server :=
  if c.phase ≠ .reading then (c, σ)
  else if buf = [] then ({ c with phase := .closed }, σ)
  else match parse (decodeLossy buf) with
    | .error _ => ({ c with phase := .closed }, σ)
    | .ok (.array cmds) =>
      match parseCommand cmds with
      | .error _ => (c, σ)
      | .ok cmd  => dispatchCommand regex now cmd { c with dispatched := c.dispatched ++ [cmd] } σ
    | .ok _ => (c, σ)

structure Read where
  buf : List UInt8
  server : Server
  now : Nat → SystemTime

def handleCommands (reads : List Read) (c : Conn) : Conn :=
  reads.foldl (fun c r => (handleRead regex r.now r.buf c r.server).1) c

/-- The commands after which the connection serves a replica. -/
def Detaches (cmd : Command) : Prop := ∃ offset, cmd = .psync none offset

/-- **Dispatching ends the loop only for a `PSYNC`**, and records nothing more. -/
theorem dispatchCommand_cases (now : Nat → SystemTime) (cmd : Command) (c : Conn) (σ : Server) :
    (dispatchCommand regex now cmd c σ).1.dispatched = c.dispatched ∧
      (¬ Detaches cmd → (dispatchCommand regex now cmd c σ).1.phase = c.phase) := by
  have hite : ∀ {x y : Conn × Server}, x.1.dispatched = c.dispatched ∧ x.1.phase = c.phase →
      y.1.dispatched = c.dispatched ∧ y.1.phase = c.phase →
        (if c.isMulti = false then x else y).1.dispatched = c.dispatched ∧
          (if c.isMulti = false then x else y).1.phase = c.phase := by
    intro x y hx hy
    by_cases hm : c.isMulti = false
    · rwa [if_pos hm]
    · rwa [if_neg hm]
  cases cmd with
  | psync id offset =>
    cases id with
    | none => exact ⟨rfl, fun h => absurd ⟨offset, rfl⟩ h⟩
    | some id => exact ⟨rfl, fun _ => rfl⟩
  | multi => exact ⟨rfl, fun _ => rfl⟩
  | _ =>
    refine ⟨(hite ?_ ?_).1, fun _ => (hite ?_ ?_).2⟩
    all_goals exact ⟨rfl, rfl⟩

/-- The bytes of one whole request, its arguments framed, for this command. -/
def WholeRequest (buf : List UInt8) (cmd : Command) : Prop :=
  ∃ args : List (List Char), args.length < 2147483648 ∧ (∀ a ∈ args, Framed a) ∧
    parseCommand (args.map .bulkString) = .ok cmd ∧ buf = encode (encodeRequest args)

theorem encode_request_ne_nil (args : List (List Char)) : encode (encodeRequest args) ≠ [] := by
  intro h
  have hlen := length_encode (encodeRequest args)
  rw [h, eq_comm, List.length_nil, byteLen_eq_zero] at hlen
  cases hlen

/-- **A whole request in one read is dispatched.** -/
theorem handleRead_whole (r : Read) {c : Conn} {cmd : Command} (hphase : c.phase = .reading)
    (hr : WholeRequest r.buf cmd) :
    (handleRead regex r.now r.buf c r.server).1.dispatched = c.dispatched ++ [cmd] ∧
      (¬ Detaches cmd → (handleRead regex r.now r.buf c r.server).1.phase = .reading) := by
  obtain ⟨args, hlen, hframed, hcmd, hbuf⟩ := hr
  have hparse := parse_encodeRequest hlen hframed []
  rw [List.append_nil] at hparse
  rw [handleRead, if_neg (by rw [hphase]; simp), hbuf, if_neg (encode_request_ne_nil args), decodeLossy_encode, hparse]
  simp only [hcmd]
  obtain ⟨hd, hp⟩ := dispatchCommand_cases regex r.now cmd { c with dispatched := c.dispatched ++ [cmd] } r.server
  exact ⟨hd, fun h => (hp h).trans hphase⟩

/-- **Whole requests in reads of their own are dispatched, each once and in order.** -/
theorem dispatched_requests : ∀ (reads : List Read) (cmds : List Command) (c : Conn), c.phase = .reading →
    List.Forall₂ (fun r cmd => WholeRequest r.buf cmd) reads cmds → (∀ cmd ∈ cmds.dropLast, ¬ Detaches cmd) →
      (handleCommands regex reads c).dispatched = c.dispatched ++ cmds
  | [], [], c, _, _, _ => by simp [handleCommands]
  | [r], [cmd], c, hphase, .cons hr .nil, _ => (handleRead_whole regex r hphase hr).1
  | r :: r' :: reads, cmd :: cmd' :: cmds, c, hphase, .cons hr hreads, hpsync => by
    obtain ⟨hd, hp⟩ := handleRead_whole regex r hphase hr
    rw [List.dropLast_cons_cons] at hpsync
    have ih := dispatched_requests (r' :: reads) (cmd' :: cmds) _ (hp (hpsync cmd (by simp))) hreads
      (fun x hx => hpsync x (by simp [hx]))
    rw [hd, List.append_assoc, List.singleton_append] at ih
    exact ih

end

def Conn.start : Conn := ⟨false, [], [], [], .reading⟩

def Read.start (s : String) : Read := ⟨encode s.toList, Server.start .master 0, fun _ => 0⟩

theorem dispatched_two : (handleCommands (fun _ => none) [Read.start "*1\r\n$4\r\nPING\r\n",
    Read.start "*2\r\n$3\r\nGET\r\n$1\r\nk\r\n"] Conn.start).dispatched = [.ping, .get ['k']] := by
  have hping : Framed "PING".toList := ⟨by decide, by decide, rfl⟩
  have hget : Framed "GET".toList := ⟨by decide, by decide, rfl⟩
  have hk : Framed ['k'] := ⟨by decide, by decide, rfl⟩
  apply dispatched_requests
  · rfl
  · refine .cons ⟨["PING".toList], by decide, by simpa using hping, by decide, by decide +kernel⟩
      (.cons ⟨["GET".toList, ['k']], by decide, by simpa using ⟨hget, hk⟩, by decide, by decide +kernel⟩ .nil)
  · simp [Detaches]

/-- Two requests in one read: the second is dropped. -/
theorem dispatched_pipeline : ¬ ∀ (regex : List Char → Option (List Char → Bool)) (argss : List (List (List Char)))
    (cmds : List Command) (reads : List Read) (c : Conn),
      List.Forall₂ (fun args cmd => parseCommand (args.map .bulkString) = .ok cmd) argss cmds →
        (reads.map Read.buf).flatten = encode (argss.flatMap encodeRequest) → (∀ r ∈ reads, r.buf ≠ []) →
          c.phase = .reading → (handleCommands regex reads c).dispatched = c.dispatched ++ cmds := by
  intro h
  have hping : parseCommand (["PING".toList].map .bulkString) = .ok .ping := by decide
  have htwo := h (fun _ => none) [["PING".toList], ["PING".toList]] [.ping, .ping]
    [Read.start "*1\r\n$4\r\nPING\r\n*1\r\n$4\r\nPING\r\n"] Conn.start (.cons hping (.cons hping .nil))
    (by decide +kernel) (by simp only [List.mem_singleton, forall_eq]; decide +kernel) rfl
  revert htwo
  decide +kernel

end Rusdis
