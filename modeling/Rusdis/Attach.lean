import Rusdis.Dialogue
import Rusdis.Frame
import Rusdis.Handshake
import Rusdis.Keys
import Rusdis.Steps
/-!
# Attach — a replica of this program and a master of this program

`connect_master` on one side and `handle_commands` on the other, with the bytes on their way between them.  The
handshake has at most eleven steps; read whole, it ends with the master piping exactly when the `--port` text is
a `u16` (`attach_ends`), for a rejected request gets no reply.
-/
namespace Rusdis

open Fallible Steps Utf8
open Decimal (natText)

/-! ## A request whose last argument is any text -/

theorem parseArrayLoop_append (ps : List (List Char)) : ∀ (args : List (List Char)) (k : Nat),
    args.length + k < 2147483648 → 0 < k → (∀ a ∈ args, Framed a) →
      parseArrayLoop (args.length + k : Nat) 1 [] (args.flatMap bulkLines ++ ps) =
        (args.map encodeBulk ++ ·) <$> parseArrayLoop k 1 [] ps
  | [], k, _, _, _ => by
    rw [List.length_nil, Nat.zero_add]
    exact (id_map _).symm
  | a :: as, k, hn, hk, hargs => by
    rw [List.length_cons] at hn
    have ih := parseArrayLoop_append ps as k (by omega) hk (fun x hx => hargs x (by simp [hx]))
    have hleft : wrapI32 (((a :: as).length + k : Nat) - 1) = (as.length + k : Nat) := by
      rw [List.length_cons]; unfold wrapI32; omega
    rw [List.flatMap_cons, List.append_assoc, parseArrayLoop_framed (hargs a (by simp)) (by simp; omega), hleft, ih]
    cases parseArrayLoop k 1 [] ps <;> rfl

/-- The last group that is asked for, when it is filled, is the one begun. -/
theorem parseArrayLoop_one : ∀ (ps : List (List Char)) {qoda : Int} {tmp : List Char} {gs : List (List Char)},
    parseArrayLoop 1 qoda tmp ps = .ok gs → gs = [] ∨ ∃ more, gs = [tmp ++ more]
  | [], _, _, _, h => by
    rw [parseArrayLoop] at h
    cases h
    exact Or.inl rfl
  | p :: ps, qoda, tmp, gs, h => by
    obtain ⟨num, -, ⟨-, gs', rfl, hgs⟩ | ⟨-, hgs⟩⟩ := parseArrayLoop_cons_inv (by decide) h
    · have hnil : parseArrayLoop (wrapI32 (1 - 1)) 1 [] ps = .ok [] := parseArrayLoop_zero _ _ _
      obtain rfl := Except.ok.inj (hnil.symm.trans hgs)
      exact Or.inr ⟨p ++ crlf, by rw [List.append_assoc]⟩
    · rcases parseArrayLoop_one ps hgs with rfl | ⟨more, rfl⟩
      · exact Or.inl rfl
      · exact Or.inr ⟨p ++ crlf ++ more, by simp only [List.append_assoc]⟩

theorem eq_of_prefix_of_byteLen {s t u : List Char} (hs : s <+: u) (ht : t <+: u) (h : byteLen s = byteLen t) :
    s = t := by
  rcases List.prefix_or_prefix_of_prefix hs ht with ⟨r, rfl⟩ | ⟨r, rfl⟩
  · rw [byteLen_append] at h
    rw [byteLen_eq_zero.1 (by omega : byteLen r = 0), List.append_nil]
  · rw [byteLen_append] at h
    rw [byteLen_eq_zero.1 (by omega : byteLen r = 0), List.append_nil]

/-- The bulk string of `a` as it is read. -/
def ReadBack (a : List Char) (v : Value) : Prop := v = .bulkString a ∧ byteLen a < 2147483648

/-- A group that begins as the bulk string of `a` is read as `a`, or not at all. -/
theorem parse_bulk_group {a p : List Char} (more : List Char) {ps : List (List Char)} {v : Value}
    (hp : splitCrlf (a ++ crlf) = p :: ps)
    (h : parse (('$' :: natText (byteLen a)) ++ crlf ++ (p ++ crlf ++ more)) = .ok v) : ReadBack a v := by
  have hfree : NoCrlf p := Lines.free_of_mem_split _ _ _ p (hp ▸ List.mem_cons_self)
  have hprefix : p <+: a ++ crlf := Lines.head_split_isPrefix _ _ _ p (by rw [← splitCrlf, hp]; rfl)
  have hsplit := splitCrlf_line (noCrlf_header (c := '$') (by decide) (byteLen a)) (p ++ crlf ++ more)
  rw [splitCrlf_line hfree] at hsplit
  cases parse_eq_ok.1 h with
  | bulkString hs ht hn hslice =>
    obtain ⟨hhead, htail⟩ := List.cons.inj (hsplit.symm.trans hs)
    obtain ⟨-, rfl⟩ := List.cons.inj hhead
    obtain ⟨rfl, -⟩ := List.cons.inj htail
    obtain ⟨rfl, hshort⟩ := parseI32_natText_eq_ok ht
    obtain ⟨t, rfl, hlen⟩ := sliceTo_eq_ok hslice
    rw [Int.toNat_natCast] at hlen
    rw [eq_of_prefix_of_byteLen ((List.prefix_append _ t).trans hprefix) (List.prefix_append a crlf) hlen]
    exact ⟨rfl, hshort⟩
  | nullBulk hs ht =>
    obtain ⟨hhead, -⟩ := List.cons.inj (hsplit.symm.trans hs)
    obtain ⟨-, rfl⟩ := List.cons.inj hhead
    obtain ⟨he, -⟩ := parseI32_natText_eq_ok ht
    omega
  | simpleString hs => cases hsplit.symm.trans hs
  | integer hs _ => cases hsplit.symm.trans hs
  | nullArray hs _ => cases hsplit.symm.trans hs
  | array hs _ _ _ _ => cases hsplit.symm.trans hs

theorem splitCrlf_bulks (rest : List Char) : ∀ {args : List (List Char)}, (∀ a ∈ args, NoCrlf a) →
    splitCrlf (args.flatMap encodeBulk ++ rest) = args.flatMap bulkLines ++ splitCrlf rest
  | [], _ => rfl
  | a :: as, h => by
    have hbulk : (a :: as).flatMap encodeBulk ++ rest =
        ('$' :: natText (byteLen a)) ++ crlf ++ (a ++ crlf ++ (as.flatMap encodeBulk ++ rest)) := by
      simp [encodeBulk]
    rw [hbulk, splitCrlf_line (noCrlf_header (by decide) _), splitCrlf_line (h a (by simp)),
      splitCrlf_bulks rest (fun x hx => h x (by simp [hx]))]
    rfl

/-- A header whose number is too long for an `i32` adds nothing, and its group is never read. -/
theorem parse_header_group {n : Nat} {more : List Char} {v : Value} (hq : countQoda ('$' :: natText n) ≠ .ok 1) :
    parse (('$' :: natText n) ++ crlf ++ more) ≠ .ok v := by
  intro h
  have hsplit := splitCrlf_line (noCrlf_header (c := '$') (by decide) n) more
  have hnum : ∀ {k : Int}, parseI32 (natText n) = .ok k → False := by
    intro k hk
    obtain ⟨-, hn⟩ := parseI32_natText_eq_ok hk
    exact hq (countQoda_bulkHeader hn)
  cases parse_eq_ok.1 h with
  | bulkString hs ht _ _ | nullBulk hs ht =>
    obtain ⟨hhead, -⟩ := List.cons.inj (hsplit.symm.trans hs)
    obtain ⟨-, rfl⟩ := List.cons.inj hhead
    exact hnum ht
  | simpleString hs => cases hsplit.symm.trans hs
  | integer hs _ => cases hsplit.symm.trans hs
  | nullArray hs _ => cases hsplit.symm.trans hs
  | array hs _ _ _ _ => cases hsplit.symm.trans hs

/-- The group that a bulk string begins is read as that string, if it is filled and read at all. -/
theorem parseArrayLoop_begun {a p : List Char} {ps gs : List (List Char)} (hp : splitCrlf (a ++ crlf) = p :: ps)
    (h : parseArrayLoop 1 1 [] (('$' :: natText (byteLen a)) :: p :: ps) = .ok gs) :
    gs = [] ∨ ∃ g, gs = [g] ∧ ∀ v, parse g = .ok v → ReadBack a v := by
  have hdone : ∀ {gs' : List (List Char)}, parseArrayLoop (wrapI32 (1 - 1)) 1 [] ps = .ok gs' → gs' = [] :=
    fun hgs => Except.ok.inj (hgs.symm.trans (parseArrayLoop_zero _ _ _))
  by_cases hq : countQoda ('$' :: natText (byteLen a)) = .ok 1
  · rw [parseArrayLoop_cons (by decide) hq (by omega) (by omega), settle_of_ne (by omega)] at h
    obtain ⟨num, -, ⟨-, gs', rfl, hgs⟩ | ⟨-, hgs⟩⟩ := parseArrayLoop_cons_inv (by decide) h
    · rw [hdone hgs]
      refine Or.inr ⟨_, rfl, fun v hv => parse_bulk_group [] hp ?_⟩
      simpa using hv
    · rcases parseArrayLoop_one ps hgs with rfl | ⟨more, rfl⟩
      · exact Or.inl rfl
      · refine Or.inr ⟨_, rfl, fun v hv => parse_bulk_group more hp ?_⟩
        simpa using hv
  · have hread : ∀ (more : List Char) {v : Value}, parse (('$' :: natText (byteLen a)) ++ crlf ++ more) = .ok v →
        ReadBack a v := fun _ _ hv => absurd hv (parse_header_group hq)
    obtain ⟨num, -, ⟨-, gs', rfl, hgs⟩ | ⟨-, hgs⟩⟩ := parseArrayLoop_cons_inv (by decide) h
    · have hnil : parseArrayLoop (wrapI32 (1 - 1)) 1 [] (p :: ps) = .ok [] := parseArrayLoop_zero _ _ _
      obtain rfl := Except.ok.inj (hnil.symm.trans hgs)
      refine Or.inr ⟨_, rfl, fun v hv => hread [] ?_⟩
      simpa using hv
    · rcases parseArrayLoop_one (p :: ps) hgs with rfl | ⟨more, rfl⟩
      · exact Or.inl rfl
      · refine Or.inr ⟨_, rfl, fun v hv => hread more ?_⟩
        simpa using hv

/-- **A request whose last argument is any text** is read as its arguments, or without the last one. -/
theorem parse_encodeRequest_last {args : List (List Char)} {a : List Char} {vs : List Value}
    (hn : args.length + 1 < 2147483648) (hargs : ∀ x ∈ args, Framed x)
    (h : parse (encodeRequest (args ++ [a])) = .ok (.array vs)) :
    vs = args.map .bulkString ∨ (vs = (args ++ [a]).map .bulkString ∧ byteLen a < 2147483648) := by
  have hsplit : splitCrlf (encodeRequest (args ++ [a])) = ('*' :: natText (args.length + 1)) ::
      (args.flatMap bulkLines ++ ('$' :: natText (byteLen a)) :: splitCrlf (a ++ crlf)) := by
    have hrequest : encodeRequest (args ++ [a]) = ('*' :: natText (args.length + 1)) ++ crlf ++
        (args.flatMap encodeBulk ++ (('$' :: natText (byteLen a)) ++ crlf ++ (a ++ crlf))) := by
      simp [encodeRequest, encodeBulk]
    rw [hrequest, splitCrlf_line (noCrlf_header (by decide) _), splitCrlf_bulks _ (fun x hx => (hargs x hx).noCrlf),
      splitCrlf_line (noCrlf_header (by decide) _)]
  obtain ⟨p, ps, hp⟩ := List.exists_cons_of_ne_nil (Lines.split_ne_nil '\r' '\n' (a ++ crlf))
  cases parse_eq_ok.1 h with
  | array hs ht _ hloop hmap =>
  obtain ⟨hhead, rfl⟩ := List.cons.inj (hsplit.symm.trans hs)
  obtain ⟨-, rfl⟩ := List.cons.inj hhead
  obtain ⟨rfl, -⟩ := parseI32_natText_eq_ok ht
  rw [parseArrayLoop_append _ args 1 (by omega) (by omega) hargs] at hloop
  obtain ⟨gs, hgs, rfl⟩ := map_eq_ok.1 hloop
  have hfirst : (args.map encodeBulk).mapM parse = .ok (args.map .bulkString) := mapM_map_ok args (fun x hx => by
    simpa using parse_encodeBulk (hargs x hx).noCrlf (hargs x hx).length [])
  rw [List.mapM_append, hfirst, ok_bind] at hmap
  obtain ⟨ws, hws, he⟩ := bind_eq_ok.1 hmap
  obtain rfl := Except.ok.inj he
  rw [show splitCrlf (a ++ crlf) = p :: ps from hp] at hgs
  rcases parseArrayLoop_begun hp hgs with rfl | ⟨g, rfl, hg⟩
  · obtain rfl := Except.ok.inj hws
    exact Or.inl (List.append_nil _)
  · cases mapM_eq_ok.1 hws with
    | cons hv htail =>
      cases htail
      obtain ⟨rfl, hshort⟩ := hg _ hv
      exact Or.inr ⟨by rw [List.map_append]; rfl, hshort⟩

/-! ## The port -/

/-- A `--port` text that is read as a port. -/
def PortText (port : List Char) : Prop := (∃ p, parseU16 port = .ok p) ∧ byteLen port < 2147483648

theorem framed_of_port {port : List Char} (h : PortText port) : Framed port := by
  obtain ⟨⟨p, hp⟩, hshort⟩ := h
  obtain ⟨v, hv, -⟩ := map_eq_ok.1 hp
  have hchars := Decimal.readInt_chars (by decide) (by decide) hv
  have hfree : NoCrlf port := Lines.free_of_notMem _ _ (fun hr => by
    rcases hchars _ hr with h | h | h <;> revert h <;> decide)
  refine ⟨hfree, hshort, ?_⟩
  cases port with
  | nil => rfl
  | cons c cs =>
    have hc := hchars c List.mem_cons_self
    have hdigit : ∀ d : Char, (d.isDigit = true ∨ d = '+' ∨ d = '-') → d ≠ '$' ∧ d ≠ '*' ∧ d.utf8Size = 1 := by
      rintro d (hd | rfl | rfl)
      · refine ⟨?_, ?_, utf8Size_of_isDigit hd⟩
        · rintro rfl
          revert hd
          decide
        · rintro rfl
          revert hd
          decide
      · decide
      · decide
    obtain ⟨h1, h2, h3⟩ := hdigit c hc
    exact countQoda_other h1 h2 h3 cs

theorem framed_replconf : ∀ x ∈ ["REPLCONF".toList, "listening-port".toList], Framed x := by
  have hword : Framed "REPLCONF".toList := ⟨by decide, by decide, rfl⟩
  have hport : Framed "listening-port".toList := ⟨by decide, by decide, rfl⟩
  simpa using ⟨hword, hport⟩

theorem replconfPort_request (port : Option (List Char)) : (replconfPort port).request =
    encodeRequest (["REPLCONF".toList, "listening-port".toList] ++ [port.getD "6379".toList]) := by
  have hwords : "*3\r\n$8\r\nREPLCONF\r\n$14\r\nlistening-port\r\n$".toList = '*' :: natText 3 ++ crlf ++
      (["REPLCONF".toList, "listening-port".toList].flatMap encodeBulk) ++ ['$'] := by decide +kernel
  unfold replconfPort encodeRequest
  dsimp only
  rw [hwords, List.flatMap_append, List.flatMap_singleton, List.length_append, encodeBulk]
  simp only [List.append_assoc, List.cons_append, List.nil_append]
  rfl

theorem parseCommand_port (a : List Char) :
    parseCommand ((["REPLCONF".toList, "listening-port".toList] ++ [a]).map .bulkString) =
      (fun p => .replconf (.listeningPort p)) <$> orParseInt (parseU16 a) := by
  have hcommand : parseCommand ((["REPLCONF".toList, "listening-port".toList] ++ [a]).map .bulkString) =
      (do return .replconf (← (do return .listeningPort (← orParseInt (parseU16 a))))) := rfl
  rw [hcommand]
  cases parseU16 a <;> rfl

/-- **The request is accepted for a `--port` text that is read as a port**, -/
theorem accepted_port {port : Option (List Char)} (h : PortText (port.getD "6379".toList)) :
    ∃ p, Accepted (encode (replconfPort port).request) (.replconf (.listeningPort p)) := by
  rw [replconfPort_request]
  generalize port.getD "6379".toList = a at h
  obtain ⟨p, hp⟩ := h.1
  have hframed : ∀ x ∈ ["REPLCONF".toList, "listening-port".toList] ++ [a], Framed x := by
    intro x hx
    rcases List.mem_append.1 hx with hx | hx
    · exact framed_replconf x hx
    · exact List.mem_singleton.1 hx ▸ framed_of_port h
  have hparse := parse_encodeRequest (by simp) hframed []
  rw [List.append_nil] at hparse
  refine ⟨p, _, by rw [decodeLossy_encode]; exact hparse, ?_⟩
  rw [parseCommand_port, hp]
  rfl

/-- **and for no other**: whatever the text is, the request is read with it or without it. -/
theorem portText_of_accepted {port : Option (List Char)} {cmd : Command}
    (h : Accepted (encode (replconfPort port).request) cmd) : PortText (port.getD "6379".toList) := by
  rw [replconfPort_request] at h
  generalize port.getD "6379".toList = a at h
  obtain ⟨cmds, hparse, hcmd⟩ := h
  rw [decodeLossy_encode] at hparse
  rcases parse_encodeRequest_last (by decide) framed_replconf hparse with rfl | ⟨rfl, hshort⟩
  · cases hcmd
  · rw [parseCommand_port] at hcmd
    cases hp : parseU16 a with
    | ok p => exact ⟨⟨p, hp⟩, hshort⟩
    | error e => rw [hp] at hcmd; cases hcmd

/-! ## What a replica is sent last -/

/-- The id is one that `generate_random_string` can draw. -/
def Drawn (r : ReplicationInfo) : Prop := ∀ c ∈ r.masterReplid, c.isAlphanum = true

theorem newline_notMem_encode {s : List Char} (h : ∀ c ∈ s, c.toNat < 128 ∧ c ≠ '\n') : '\n'.toUInt8 ∉ encode s := by
  intro hmem
  have hmem := List.mem_map_of_mem (f := UInt8.toNat) hmem
  rw [encode_ascii (fun c hc => (h c hc).1)] at hmem
  obtain ⟨c, hc, hcode⟩ := List.mem_map.1 hmem
  exact (h c hc).2 (Char.toNat_inj.1 hcode)

theorem ascii_of_isAlphanum {c : Char} (h : c.isAlphanum = true) : c.toNat < 128 ∧ c ≠ '\n' := by
  refine ⟨(toNat_of_isAlphanum h).1, ?_⟩
  rintro rfl
  cases h

theorem newline_notMem_fullResync {r : ReplicationInfo} (h : Drawn r) : '\n'.toUInt8 ∉
    encode ("FULLRESYNC ".toList ++ r.masterReplid ++ [' '] ++ natText r.masterReplOffset.toNat) := by
  have hword : "FULLRESYNC ".toList.all (fun c => c.toNat < 128 ∧ c ≠ '\n') = true := by decide
  refine newline_notMem_encode (fun c hc => ?_)
  simp only [List.mem_append] at hc
  rcases hc with ((hc | hc) | hc) | hc
  · exact of_decide_eq_true (List.all_eq_true.1 hword c hc)
  · exact ascii_of_isAlphanum (h c hc)
  · obtain rfl := List.mem_singleton.1 hc
    decide
  · exact ascii_of_isAlphanum (by rw [Char.isAlphanum, Decimal.isDigit_of_mem_natText hc, Bool.or_true])

theorem resync_bytes {line : List Char} (h : '\n'.toUInt8 ∉ encode line) (file commands : List UInt8) :
    Resync.bytes ⟨encode line, h, file, commands⟩ =
      encode (['+'] ++ line ++ crlf) ++ encode (['$'] ++ natText file.length ++ crlf) ++ file ++ commands := by
  have hplus : encode ['+'] = ['+'.toUInt8] := rfl
  have hdollar : encode ['$'] = ['$'.toUInt8] := rfl
  have hcrlf : encode crlf = ['\r'.toUInt8, '\n'.toUInt8] := rfl
  rw [encode_append, encode_append, encode_append, encode_append, hplus, hdollar, hcrlf, Resync.bytes, Resync.header,
    Resync.resyncLine, lengthLine]
  simp only [List.append_assoc, List.cons_append, List.nil_append]

theorem exists_resync {r : ReplicationInfo} (h : Drawn r) (commands : List UInt8) :
    ∃ m : Resync, m.rdb = rdbFile ∧ m.bytes = resync r ++ commands :=
  ⟨⟨_, newline_notMem_fullResync h, rdbFile, commands⟩, by dsimp only, resync_bytes _ _ _⟩

/-- **The replica takes what the master sends it last**, however the stream is cut. -/
theorem connectMaster_sent {r : ReplicationInfo} (h : Drawn r) {commands : List UInt8}
    (s : Segmentation (resync r ++ commands)) : ∃ left, connectMaster s.reads = .ok left := by
  obtain ⟨m, hrdb, hbytes⟩ := exists_resync h commands
  have hfile : rdbFile.length < 9223372036854775808 := by decide +kernel
  have hlength : m.rdb.length < 9223372036854775808 := hrdb ▸ hfile
  obtain ⟨reader, -, hmaster⟩ := connectMaster_resync hlength ⟨s.reads, s.flatten.trans hbytes.symm, s.nonempty⟩
  exact ⟨reader.socket, hmaster⟩

/-! ## The two parties -/

/-- Where `connect_master` stands: about to send its next request, at `fill_buf`, past `PSYNC`, or at its end. -/
inductive Stage where
  | asking (xs : List Exchange)
  | waiting (x : Exchange) (xs : List Exchange)
  | resyncing
  | failed (e : Fault ConnectError)

/-- The replica, the master's connection, and the bytes on their way to each. -/
structure Attach where
  stage : Stage
  conn : Conn
  requests : List UInt8
  replies : List UInt8

/-- A write of the replica, a read of the master on a server as its other tasks left it, and a read of the replica. -/
inductive AttachAct where
  | send
  | serve (n : Nat) (now : Nat → SystemTime) (σ : Server)
  | reply (n : Nat)

def Attach.start (port : Option (List Char)) : Attach := ⟨.asking (script port), Conn.start, [], []⟩

def Attach.step (regex : List Char → Option (List Char → Bool)) (s : Attach) : AttachAct → Option Attach
  | .send =>
    match s.stage with
    | .asking []        => some { s with stage := .resyncing, requests := s.requests ++ encode psync }
    | .asking (x :: xs) => some { s with stage := .waiting x xs, requests := s.requests ++ encode x.request }
    | _                 => none
  | .serve n now σ =>
    if s.conn.phase = .reading ∧ 0 < n ∧ n ≤ s.requests.length then
      let c := (handleRead regex now (s.requests.take n) s.conn σ).1
      let written := c.written.drop s.conn.written.length
      some { s with conn := c, requests := s.requests.drop n, replies := s.replies ++ written }
    else none
  | .reply n =>
    match s.stage with
    | .waiting x xs =>
      -- nothing is read only at the end of the stream, once the master has closed it
      if (0 < n ∧ n ≤ s.replies.length) ∨ (n = 0 ∧ s.replies = [] ∧ s.conn.phase = .closed) then
        let stage := match x.check (s.replies.take n) with
          | .ok ()   => Stage.asking xs
          | .error e => Stage.failed e
        some { s with stage, replies := s.replies.drop n }
      else none
    | _ => none

/-- A read takes all that is on its way. -/
def Attach.Whole (s : Attach) : AttachAct → Prop
  | .send        => True
  | .serve n _ _ => n = s.requests.length
  | .reply n     => n = s.replies.length

/-- `PSYNC` is sent, the master pipes, and what is on its way to the replica begins with a resynchronisation. -/
structure Attach.Attached (s : Attach) : Prop where
  stage  : s.stage = .resyncing
  phase  : s.conn.phase = .piped
  resync : ∃ r, s.replies = resync r ∧ (Drawn r → ∀ commands (reads : Segmentation (resync r ++ commands)),
    ∃ left, connectMaster reads.reads = .ok left)

/-! ## Every run ends -/

/-- The steps that are left to the replica, at most. -/
def Stage.left : Stage → Nat
  | .asking xs    => 3 * xs.length + 2
  | .waiting _ xs => 3 * xs.length + 3
  | _             => 0

def Attach.left (s : Attach) : Nat := s.stage.left + if s.requests = [] then 0 else 1

section
variable {regex : List Char → Option (List Char → Bool)} {s s' : Attach} {a : AttachAct}

theorem left_step (h : s.step regex a = some s') (hwhole : s.Whole a) : s'.left < s.left := by
  have hone : ∀ bs : List UInt8, (if bs = [] then 0 else 1) ≤ 1 := fun bs => by split <;> omega
  obtain ⟨stage, conn, requests, replies⟩ := s
  cases a with
  | send =>
    cases stage with
    | asking xs =>
      have hle := hone (requests ++ encode psync)
      cases xs with
      | nil =>
        cases h
        simp only [Attach.left, Stage.left, List.length_nil]
        omega
      | cons x xs =>
        have hle := hone (requests ++ encode x.request)
        cases h
        simp only [Attach.left, Stage.left, List.length_cons]
        omega
    | _ => cases h
  | serve n now σ =>
    obtain ⟨⟨-, hpos, -⟩, heq⟩ := Option.ite_none_right_eq_some.1 h
    cases heq
    obtain rfl : n = requests.length := hwhole
    have hne : requests ≠ [] := List.ne_nil_of_length_pos hpos
    simp only [Attach.left, List.drop_length, if_pos, if_neg hne]
    omega
  | reply n =>
    cases stage with
    | waiting x xs =>
      obtain ⟨-, heq⟩ := Option.ite_none_right_eq_some.1 h
      cases heq
      cases hcheck : x.check (replies.take n) with
      | ok _ =>
        simp only [Attach.left, Stage.left]
        omega
      | error e =>
        simp only [Attach.left, Stage.left]
        omega
    | _ => cases h

/-! ## Exchanges with this program -/

/-- Outside a transaction, its last reply read. -/
structure Conn.Idle (c : Conn) : Prop where
  phase : c.phase = .reading
  multi : c.isMulti = false

/-- A request of one reply, which lets the handshake go on. -/
def Exchange.Passes (x : Exchange) : Prop := ∃ cmd reply, Accepted (encode x.request) cmd ∧ encode reply ≠ [] ∧
  x.check (encode reply) = .ok () ∧ ∀ (regex : List Char → Option (List Char → Bool)) now (c : Conn) σ, c.Idle →
    (dispatchCommand regex now cmd c σ).1 = c.write reply

/-- A request that is not accepted. -/
def Exchange.Hangs (x : Exchange) : Prop := encode x.request ≠ [] ∧ ∀ cmd, ¬ Accepted (encode x.request) cmd

theorem Exchange.Passes.not_hangs {x : Exchange} (h : x.Passes) : ¬ x.Hangs := by
  obtain ⟨cmd, -, hcmd, -⟩ := h
  exact fun hhangs => hhangs.2 cmd hcmd

theorem Exchange.Passes.request_ne_nil {x : Exchange} (h : x.Passes) : encode x.request ≠ [] := by
  obtain ⟨cmd, -, hcmd, -⟩ := h
  exact hcmd.ne_nil

/-- **A request that passes gets its reply**, and the connection goes on. -/
theorem handleRead_passes (regex : List Char → Option (List Char → Bool)) {x : Exchange} (hx : x.Passes)
    (now : Nat → SystemTime) {c : Conn} (hc : c.Idle) (σ : Server) :
    ∃ buf, buf ≠ [] ∧ x.check buf = .ok () ∧
      (handleRead regex now (encode x.request) c σ).1.written = c.written ++ buf ∧
        (handleRead regex now (encode x.request) c σ).1.Idle := by
  obtain ⟨cmd, reply, hcmd, hne, hcheck, hdispatch⟩ := hx
  refine ⟨encode reply, hne, hcheck, ?_⟩
  rw [handleRead_accepted regex now σ hc.phase hcmd,
    hdispatch regex now { c with dispatched := c.dispatched ++ [cmd] } σ ⟨hc.phase, hc.multi⟩]
  exact ⟨rfl, hc.phase, hc.multi⟩

/-- **A request that is not accepted gets no reply.** -/
theorem handleRead_hangs {buf : List UInt8} (h : ∀ cmd, ¬ Accepted buf cmd) (now : Nat → SystemTime) (c : Conn)
    (σ : Server) : (handleRead regex now buf c σ).1.written = c.written := by
  rw [handleRead]
  by_cases hphase : c.phase ≠ .reading
  · rw [if_pos hphase]
  rw [if_neg hphase]
  by_cases hbuf : buf = []
  · rw [if_pos hbuf]
  rw [if_neg hbuf]
  cases hparse : parse (decodeLossy buf) with
  | error e => rfl
  | ok v =>
    cases v with
    | array cmds =>
      cases hcmd : parseCommand cmds with
      | ok cmd => exact absurd ⟨cmds, hparse, hcmd⟩ (h cmd)
      | error e => simp only [hcmd]
    | _ => rfl

theorem check_nil (x : Exchange) : ∃ e, x.check [] = .error e := by
  unfold Exchange.check
  rw [show decodeLossy [] = [] from rfl, parse_nil]
  exact ⟨_, rfl⟩

theorem accepted_psync : Accepted (encode psync) (.psync none none) :=
  ⟨["PSYNC", "?", "-1"].map (fun a => .bulkString a.toList), by decide +kernel, by decide +kernel⟩

theorem handleRead_psync (regex : List Char → Option (List Char → Bool)) (now : Nat → SystemTime) {c : Conn} (hc : c.Idle)
    (σ : Server) :
    (handleRead regex now (encode psync) c σ).1.written = c.written ++ resync σ.replicationInfo ∧
      (handleRead regex now (encode psync) c σ).1.phase = .piped := by
  rw [handleRead_accepted regex now σ hc.phase accepted_psync]
  refine ⟨?_, rfl⟩
  rw [resync, ← List.append_assoc, ← List.append_assoc]
  rfl

theorem ping_passes : ping.Passes := by
  refine ⟨.ping, "+PONG\r\n".toList, ⟨["PING".toList].map .bulkString, by decide +kernel, by decide +kernel⟩, by decide,
    by decide +kernel, fun regex now c σ hc => ?_⟩
  obtain ⟨isMulti, queue, written, dispatched, phase⟩ := c
  obtain rfl : isMulti = false := hc.multi
  rfl

theorem replconfCapa_passes : replconfCapa.Passes := by
  refine ⟨.replconf (.capa [.psync2]), "+OK\r\n".toList,
    ⟨["REPLCONF".toList, "capa".toList, "psync2".toList].map .bulkString, by decide +kernel, by decide +kernel⟩, by decide,
    by decide +kernel, fun regex now c σ hc => ?_⟩
  obtain ⟨isMulti, queue, written, dispatched, phase⟩ := c
  obtain rfl : isMulti = false := hc.multi
  rfl

theorem replconfPort_passes {port : Option (List Char)} (h : PortText (port.getD "6379".toList)) :
    (replconfPort port).Passes := by
  obtain ⟨p, hp⟩ := accepted_port h
  refine ⟨_, "+OK\r\n".toList, hp, by decide, check_of_answered ⟨"OK".toList, by decide +kernel, ?_⟩,
    fun regex now c σ hc => ?_⟩
  · show toUppercase "OK".toList = "OK".toList
    decide
  · obtain ⟨isMulti, queue, written, dispatched, phase⟩ := c
    obtain rfl : isMulti = false := hc.multi
    rfl

theorem replconfPort_hangs {port : Option (List Char)} (h : ¬ PortText (port.getD "6379".toList)) :
    (replconfPort port).Hangs := by
  refine ⟨?_, fun cmd hcmd => h (portText_of_accepted hcmd)⟩
  rw [replconfPort_request]
  exact encode_request_ne_nil _

theorem script_cases (port : Option (List Char)) : ∀ x ∈ script port, x.Passes ∨ x.Hangs := by
  rw [script, List.forall_mem_cons, List.forall_mem_cons, List.forall_mem_singleton]
  refine ⟨Or.inl ping_passes, ?_, Or.inl replconfCapa_passes⟩
  by_cases h : PortText (port.getD "6379".toList)
  · exact Or.inl (replconfPort_passes h)
  · exact Or.inr (replconfPort_hangs h)

theorem script_passes_iff (port : Option (List Char)) :
    (∀ x ∈ script port, x.Passes) ↔ PortText (port.getD "6379".toList) := by
  rw [script, List.forall_mem_cons, List.forall_mem_cons, List.forall_mem_singleton]
  constructor
  · rintro ⟨-, hport, -⟩
    by_contra h
    exact hport.not_hangs (replconfPort_hangs h)
  · exact fun h => ⟨ping_passes, replconfPort_passes h, replconfCapa_passes⟩

/-! ## Whole runs -/

/-- What holds of the two after some steps: the exchanges so far have passed, or one of them hangs. -/
inductive Goes (script : List Exchange) : Attach → Prop
  | asking {done xs c} (hscript : script = done ++ xs) (hdone : ∀ x ∈ done, x.Passes) (hc : c.Idle) :
    Goes script ⟨.asking xs, c, [], []⟩
  | asked {done x xs c} (hscript : script = done ++ x :: xs) (hdone : ∀ x ∈ done, x.Passes) (hc : c.Idle) :
    Goes script ⟨.waiting x xs, c, encode x.request, []⟩
  | answered {done x xs c buf} (hscript : script = done ++ x :: xs) (hdone : ∀ x ∈ done, x.Passes) (hx : x.Passes)
      (hc : c.Idle) (hbuf : buf ≠ []) (hcheck : x.check buf = .ok ()) : Goes script ⟨.waiting x xs, c, [], buf⟩
  | hung {x xs c} (hx : x ∈ script) (hhangs : x.Hangs) : Goes script ⟨.waiting x xs, c, [], []⟩
  | failed {x e c} (hx : x ∈ script) (hhangs : x.Hangs) : Goes script ⟨.failed e, c, [], []⟩
  | sent {c} (hall : ∀ x ∈ script, x.Passes) (hc : c.Idle) : Goes script ⟨.resyncing, c, encode psync, []⟩
  | attached {c r} (hall : ∀ x ∈ script, x.Passes) (hphase : c.phase = .piped) :
    Goes script ⟨.resyncing, c, [], resync r⟩

theorem serve_nil {stage : Stage} {c : Conn} {replies : List UInt8} {n : Nat} {now : Nat → SystemTime} {σ : Server} :
    Attach.step regex ⟨stage, c, [], replies⟩ (.serve n now σ) = none :=
  if_neg (fun h => absurd (le_antisymm h.2.2 (Nat.zero_le n)) h.2.1.ne')

/-- A read of the whole request on its way. -/
theorem serve_whole {stage : Stage} {c : Conn} {requests replies : List UInt8} {n : Nat} {now : Nat → SystemTime}
    {σ : Server} (h : Attach.step regex ⟨stage, c, requests, replies⟩ (.serve n now σ) = some s')
    (hwhole : Attach.Whole ⟨stage, c, requests, replies⟩ (.serve n now σ)) :
    s' = ⟨stage, (handleRead regex now requests c σ).1, [],
      replies ++ (handleRead regex now requests c σ).1.written.drop c.written.length⟩ := by
  obtain ⟨-, heq⟩ := Option.ite_none_right_eq_some.1 h
  obtain rfl : n = requests.length := hwhole
  rw [List.take_length, List.drop_length] at heq
  exact (Option.some.inj heq).symm

/-- About to send, the replica sends its next request, or `PSYNC` after the last. -/
theorem asking_step {xs : List Exchange} {c : Conn} (h : Attach.step regex ⟨.asking xs, c, [], []⟩ a = some s') :
    (xs = [] ∧ s' = ⟨.resyncing, c, encode psync, []⟩) ∨
      ∃ x rest, xs = x :: rest ∧ s' = ⟨.waiting x rest, c, encode x.request, []⟩ := by
  cases a with
  | send =>
    cases xs with
    | nil =>
      cases h
      exact Or.inl ⟨rfl, rfl⟩
    | cons x rest =>
      cases h
      exact Or.inr ⟨x, rest, rfl, rfl⟩
  | serve n now σ =>
    rw [serve_nil] at h
    cases h
  | reply n => cases h

/-- With its request on the way, only the master can go on. -/
theorem asked_step {x : Exchange} {xs : List Exchange} {c : Conn} {requests : List UInt8} (hc : c.Idle)
    (h : Attach.step regex ⟨.waiting x xs, c, requests, []⟩ a = some s')
    (hwhole : Attach.Whole ⟨.waiting x xs, c, requests, []⟩ a) :
    ∃ now σ, s' = ⟨.waiting x xs, (handleRead regex now requests c σ).1, [],
      (handleRead regex now requests c σ).1.written.drop c.written.length⟩ := by
  cases a with
  | send => cases h
  | serve n now σ => exact ⟨now, σ, serve_whole h hwhole⟩
  | reply n =>
    obtain ⟨hread, -⟩ := Option.ite_none_right_eq_some.1 h
    rcases hread with ⟨hpos, hle⟩ | ⟨-, -, hclosed⟩
    · exact absurd (le_antisymm hle (Nat.zero_le n)) hpos.ne'
    · rw [hc.phase] at hclosed
      cases hclosed

/-- With its request taken, the replica reads the reply: what there is of it. -/
theorem answered_step {x : Exchange} {xs : List Exchange} {c : Conn} {replies : List UInt8}
    (h : Attach.step regex ⟨.waiting x xs, c, [], replies⟩ a = some s')
    (hwhole : Attach.Whole ⟨.waiting x xs, c, [], replies⟩ a) :
    (x.check replies = .ok () ∧ s' = ⟨.asking xs, c, [], []⟩) ∨
      ∃ e, x.check replies = .error e ∧ s' = ⟨.failed e, c, [], []⟩ := by
  cases a with
  | send => cases h
  | serve n now σ =>
    rw [serve_nil] at h
    cases h
  | reply n =>
    obtain ⟨-, heq⟩ := Option.ite_none_right_eq_some.1 h
    obtain rfl : n = replies.length := hwhole
    rw [List.take_length, List.drop_length] at heq
    cases hcheck : x.check replies with
    | ok _ =>
      rw [hcheck] at heq
      exact Or.inl ⟨rfl, (Option.some.inj heq).symm⟩
    | error e =>
      rw [hcheck] at heq
      exact Or.inr ⟨e, rfl, (Option.some.inj heq).symm⟩

theorem failed_step {e : Fault ConnectError} {c : Conn} :
    ∀ a, Attach.step regex ⟨.failed e, c, [], []⟩ a = none
  | .send | .reply _ => rfl
  | .serve _ _ _     => serve_nil

/-- Past its last request, the replica only waits for the master. -/
theorem resyncing_step {c : Conn} {requests replies : List UInt8}
    (h : Attach.step regex ⟨.resyncing, c, requests, replies⟩ a = some s')
    (hwhole : Attach.Whole ⟨.resyncing, c, requests, replies⟩ a) :
    requests ≠ [] ∧ ∃ now σ, s' = ⟨.resyncing, (handleRead regex now requests c σ).1, [],
      replies ++ (handleRead regex now requests c σ).1.written.drop c.written.length⟩ := by
  cases a with
  | serve n now σ =>
    refine ⟨?_, now, σ, serve_whole h hwhole⟩
    rintro rfl
    rw [serve_nil] at h
    cases h
  | send | reply n => cases h

/-- **A step of the two goes from stage to stage.** -/
theorem goes_step {script : List Exchange} (hscript : ∀ x ∈ script, x.Passes ∨ x.Hangs)
    (h : s.step regex a = some s') (hwhole : s.Whole a) (hs : Goes script s) : Goes script s' := by
  cases hs with
  | @asking done xs c hdone hpassed hc =>
    rcases asking_step h with ⟨rfl, rfl⟩ | ⟨x, rest, rfl, rfl⟩
    · rw [List.append_nil] at hdone
      exact .sent (hdone ▸ hpassed) hc
    · exact .asked hdone hpassed hc
  | @asked done x xs c hdone hpassed hc =>
    have hmem : x ∈ script := by rw [hdone]; simp
    obtain ⟨now, σ, rfl⟩ := asked_step hc h hwhole
    rcases hscript x hmem with hx | hx
    · obtain ⟨buf, hbuf, hcheck, hwritten, hidle⟩ := handleRead_passes regex hx now hc σ
      rw [hwritten, List.drop_left]
      exact .answered hdone hpassed hx hidle hbuf hcheck
    · rw [handleRead_hangs hx.2, List.drop_length]
      exact .hung hmem hx
  | @answered done x xs c buf hdone hpassed hx hc hbuf hcheck =>
    rcases answered_step h hwhole with ⟨-, rfl⟩ | ⟨e, he, -⟩
    · have hdone' : script = (done ++ [x]) ++ xs := by rw [hdone, List.append_assoc]; rfl
      refine .asking hdone' (fun y hy => ?_) hc
      rcases List.mem_append.1 hy with hy | hy
      · exact hpassed y hy
      · exact List.mem_singleton.1 hy ▸ hx
    · cases hcheck.symm.trans he
  | @hung x xs c hmem hx =>
    -- the master has closed the connection: the replica reads nothing
    rcases answered_step h hwhole with ⟨hok, -⟩ | ⟨e, -, rfl⟩
    · obtain ⟨e, he⟩ := check_nil x
      cases hok.symm.trans he
    · exact .failed hmem hx
  | failed hmem hx =>
    rw [failed_step] at h
    cases h
  | @sent c hall hc =>
    obtain ⟨-, now, σ, rfl⟩ := resyncing_step h hwhole
    obtain ⟨hwritten, hphase⟩ := handleRead_psync regex now hc σ
    rw [hwritten, List.nil_append, List.drop_left]
    exact .attached hall hphase
  | @attached c r hall hphase => exact absurd rfl (resyncing_step h hwhole).1

/-- **When nothing more can be done**, the two are attached exactly if every exchange has passed. -/
theorem goes_quiet {script : List Exchange} (hscript : ∀ x ∈ script, x.Passes ∨ x.Hangs)
    (hquiet : ∀ a, s.Whole a → s.step regex a = none) (hs : Goes script s) :
    s.Attached ↔ ∀ x ∈ script, x.Passes := by
  cases hs with
  | @asking done xs c hdone hpassed hc =>
    have hsend := hquiet .send trivial
    cases xs <;> cases hsend
  | @asked done x xs c hdone hpassed hc =>
    have hne : encode x.request ≠ [] := by
      rcases hscript x (by rw [hdone]; simp) with hx | hx
      · exact hx.request_ne_nil
      · exact hx.1
    have hserve := hquiet (.serve (encode x.request).length (fun _ => 0) (Server.start .master 0)) rfl
    rw [Attach.step, if_pos ⟨hc.phase, List.length_pos_of_ne_nil hne, le_rfl⟩] at hserve
    cases hserve
  | @answered done x xs c buf hdone hpassed hx hc hbuf hcheck =>
    have hreply := hquiet (.reply buf.length) rfl
    rw [Attach.step] at hreply
    simp only at hreply
    rw [if_pos (Or.inl ⟨List.length_pos_of_ne_nil hbuf, le_rfl⟩)] at hreply
    cases hreply
  | hung hmem hx => exact iff_of_false (fun h => nomatch h.stage) (fun h => (h _ hmem).not_hangs hx)
  | failed hmem hx => exact iff_of_false (fun h => nomatch h.stage) (fun h => (h _ hmem).not_hangs hx)
  | @sent c hall hc =>
    have hserve := hquiet (.serve (encode psync).length (fun _ => 0) (Server.start .master 0)) rfl
    rw [Attach.step, if_pos ⟨hc.phase, List.length_pos_of_ne_nil accepted_psync.ne_nil, le_rfl⟩] at hserve
    cases hserve
  | attached hall hphase =>
    exact iff_of_true ⟨rfl, hphase, _, rfl, fun hdrawn _ reads => connectMaster_sent hdrawn reads⟩ hall

/-- **The handshake with a master of this program ends, and attaches exactly with a port.** In every run whose reads
are whole there are at most eleven steps; when no more can be taken, `PSYNC` has been sent and the master pipes exactly
when the `--port` text is read as a port, and the replica takes what it is sent then, however it is cut. -/
theorem attach_ends {port : Option (List Char)} {acts : List AttachAct}
    (hrun : run (Attach.step regex) acts (Attach.start port) = some s)
    (hwhole : Meets (Attach.step regex) Attach.Whole acts (Attach.start port)) :
    acts.length ≤ 11 ∧ ((∀ a, s.Whole a → s.step regex a = none) →
      (s.Attached ↔ PortText (port.getD "6379".toList))) := by
  have hs : Goes (script port) s := run_keeps_of (fun h hok hs => goes_step (script_cases port) h hok hs) hrun hwhole
    (.asking (List.nil_append _).symm (by simp) ⟨rfl, rfl⟩)
  have hlength := run_length_le left_step hrun hwhole
  exact ⟨le_trans (Nat.le_add_right _ _) hlength,
    fun hquiet => (goes_quiet (script_cases port) hquiet hs).trans (script_passes_iff port)⟩

end

instance decAttach (s : Attach) : ∀ a, Decidable (s.Whole a)
  | .send        => inferInstanceAs (Decidable True)
  | .serve n _ _ => inferInstanceAs (Decidable (n = s.requests.length))
  | .reply n     => inferInstanceAs (Decidable (n = s.replies.length))

theorem quiet_of_left {s : Attach} (hleft : s.left = 0) (hphase : s.conn.phase = .piped)
    (regex : List Char → Option (List Char → Bool)) : ∀ a, s.step regex a = none := by
  obtain ⟨stage, conn, requests, replies⟩ := s
  have hstage : stage.left = 0 := Nat.eq_zero_of_add_eq_zero_right hleft
  intro a
  cases a with
  | serve n now σ => exact if_neg (fun h => by rw [hphase] at h; cases h.1)
  | send | reply n =>
    cases stage with
    | asking _ | waiting _ _ => cases hstage
    | _ => rfl

/-- Every step of a handshake without a `--port` argument. -/
theorem attach_ends_default :
    let serve (n : Nat) : AttachAct := .serve n (fun _ => 0) (Server.start .master 0)
    ∃ s, run (Attach.step (fun _ => none)) [.send, serve 14, .reply 7, .send, serve 49, .reply 5, .send, serve 40,
      .reply 5, .send, serve 30] (Attach.start none) = some s ∧ s.Attached := by
  intro serve
  have hrun : (run (Attach.step (fun _ => none)) [.send, serve 14, .reply 7, .send, serve 49, .reply 5, .send, serve 40,
      .reply 5, .send, serve 30] (Attach.start none)).map (fun s => (s.left, s.conn.phase)) = some (0, .piped) := by
    decide +kernel
  obtain ⟨s, hs, hseen⟩ := Option.map_eq_some_iff.1 hrun
  obtain ⟨hleft, hphase⟩ := Prod.mk.inj hseen
  have hquiet := quiet_of_left hleft hphase (fun _ => none)
  exact ⟨s, hs, ((attach_ends hs (by decide +kernel)).2 (fun a _ => hquiet a)).2 ⟨⟨6379, by decide⟩, by decide⟩⟩

end Rusdis
