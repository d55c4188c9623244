import Rusdis.BufReader
import Rusdis.Rdb
import Rusdis.Replica
/-!
# Handover — from the handshake of `connect_master` to its command loop

The handshake reads the line of `PSYNC`'s reply, the length of the RDB file and the file through one buffered reader and
drops it; the loop reads the same socket through a new one.  What the first has buffered is lost, so the loop sees all
bytes after the file exactly when a segment ends where the file does, and no read but the last panics
(`handover_iff`).
-/
namespace Rusdis

open Fallible Utf8
open BufReader (Reads readUntil readExact readUntil_reads readExact_reads)
open Decimal (IntErrorKind natText)

/-- `RusdisError`, as `connect_master` builds it; an `io::Error` is the end of the stream inside the file. -/
inductive ConnectError where
  | rusdis (e : RusdisError)
  | io
  | masterConnectionError (msg : String)
  deriving DecidableEq, Repr

def orParser {α : Type} : Except (Fault ParserError) α → Except (Fault ConnectError) α
  | .ok a            => .ok a
  | .error (.err e)  => .error (.err (.rusdis (.parserError e)))
  | .error .panic    => .error .panic

def parseUsize (s : List Char) : Except IntErrorKind Nat :=
  Int.toNat <$> Decimal.readInt false 0 18446744073709551615 s

/-- The length a line `$len` declares. -/
def rdbLength (buf : List UInt8) : Except (Fault ConnectError) Nat :=
  if '\r'.toUInt8 ∉ buf ∨ buf.length < 4 ∨ buf.head? ≠ some '$'.toUInt8 then
    .error (.err (.masterConnectionError "Invalid RDB file format"))
  else
    let lengthStr := decodeLossy ((buf.take (buf.idxOf '\r'.toUInt8)).drop 1)
    orErr (fun e => .rusdis (.parseIntError e)) (parseUsize lengthStr)

/-- The file into its buffer; there is none longer than `isize::MAX`. -/
def readFile (length : Nat) (reader : BufReader UInt8) : Except (Fault ConnectError) (List UInt8 × BufReader UInt8) :=
  if 9223372036854775807 < length then .error .panic
  else match readExact length reader.buffer reader.socket with
    | some r => .ok r
    | none   => .error (.err .io)

/-- `connect_master` from the reply to `PSYNC` on: the segments it leaves to its command loop. -/
def connectMaster (socket : List (List UInt8)) : Except (Fault ConnectError) (List (List UInt8)) := do
  let (buf, reader) := readUntil '\n'.toUInt8 [] socket
  let _psyncResponse ← orParser (parse (decodeLossy buf))
  let (buf, reader) := readUntil '\n'.toUInt8 reader.buffer reader.socket
  let length ← rdbLength buf
  let (buf, reader) ← readFile length reader
  let _rdbFile := readRdb buf
  return reader.socket

section
variable (regex : List Char → Option (List Char → Bool)) (clock : Nat → SystemTime)

/-- The bytes the command loop takes, up to the read that stops it. -/
def seen (r : Replica) : List (List UInt8) → List UInt8
  | [] => []
  | buf :: socket => if r.running then buf ++ seen (replicaRead regex clock r buf) socket else []

end

/-! ## What the master sends -/

/-- The bytes after the `PSYNC` request: a `+` line, the length of the file and the file, the commands. -/
structure Resync where
  line : List UInt8
  newline : '\n'.toUInt8 ∉ line
  rdb : List UInt8
  commands : List UInt8

def Resync.resyncLine (m : Resync) : List UInt8 := '+'.toUInt8 :: m.line ++ ['\r'.toUInt8]

def lengthLine (n : Nat) : List UInt8 := '$'.toUInt8 :: encode (natText n) ++ ['\r'.toUInt8]

def Resync.header (m : Resync) : List UInt8 :=
  (m.resyncLine ++ ['\n'.toUInt8]) ++ (lengthLine m.rdb.length ++ ['\n'.toUInt8])

def Resync.bytes (m : Resync) : List UInt8 := m.header ++ m.rdb ++ m.commands

/-- The segments of a stream that has not ended. -/
structure Segmentation (bytes : List UInt8) where
  reads : List (List UInt8)
  flatten : reads.flatten = bytes
  nonempty : [] ∉ reads

/-! ## The two lines -/

theorem parse_resyncLine (m : Resync) : ∃ v, parse (decodeLossy (m.resyncLine ++ ['\n'.toUInt8])) = .ok v := by
  obtain ⟨t, ht⟩ := decodeFrom_append_ascii (show 13 < 0x80 by decide) ['\n'.toUInt8] m.line none nofun
  have hdecode : decodeLossy (m.resyncLine ++ ['\n'.toUInt8]) = '+' :: (t ++ crlf) := by
    have hline : m.resyncLine ++ ['\n'.toUInt8] = UInt8.ofNat 43 :: (m.line ++ [UInt8.ofNat 13, '\n'.toUInt8]) := by
      rw [Resync.resyncLine, List.append_assoc]
      rfl
    rw [hline, decodeLossy, decodeFrom_ascii (by decide), ht]
    rfl
  have hcut : ¬ Lines.Free '\r' '\n' ('+' :: (t ++ crlf)) := by
    intro h
    exact h ((List.suffix_append ('+' :: t) crlf).isInfix)
  obtain ⟨line, hline⟩ := Lines.exists_before hcut
  obtain ⟨l, rfl⟩ := before_cons (by decide) hline
  refine ⟨.simpleString l, ?_⟩
  rw [hdecode, parse_plus, parseSimpleString, hline]
  simp only [sliceFrom_one_cons (show '+'.utf8Size = 1 from rfl), ok_bind]
  rfl

theorem le_of_mem_encode_natText {n : Nat} {b : UInt8} (h : b ∈ encode (natText n)) : 48 ≤ b.toNat := by
  have hdigit : ∀ c ∈ natText n, c.isDigit = true := fun c => Decimal.isDigit_of_mem_natText
  have hascii : Ascii (natText n) := fun c hc => (utf8Size_eq_one_iff c).1 (utf8Size_of_isDigit (hdigit c hc))
  have hmem := List.mem_map_of_mem (f := UInt8.toNat) h
  rw [encode_ascii hascii] at hmem
  obtain ⟨c, hc, hcb⟩ := List.mem_map.1 hmem
  have hc := hdigit c hc
  simp only [Char.isDigit, Bool.and_eq_true, decide_eq_true_eq] at hc
  rw [← hcb]
  exact UInt32.le_iff_toNat_le.1 hc.1

theorem rdbLength_lengthLine {n k : Nat} :
    rdbLength (lengthLine n ++ ['\n'.toUInt8]) = .ok k ↔ k = n ∧ n < 18446744073709551616 := by
  have hcr : '\r'.toUInt8 ∉ encode (natText n) := fun h => absurd (le_of_mem_encode_natText h) (by decide)
  have hline : lengthLine n ++ ['\n'.toUInt8] =
      ('$'.toUInt8 :: encode (natText n)) ++ ['\r'.toUInt8, '\n'.toUInt8] := by simp [lengthLine]
  have hidx : (lengthLine n ++ ['\n'.toUInt8]).idxOf '\r'.toUInt8 = ('$'.toUInt8 :: encode (natText n)).length := by
    rw [hline, List.idxOf_append_of_notMem (by rw [List.mem_cons, not_or]; exact ⟨by decide, hcr⟩),
      List.idxOf_cons_self, Nat.add_zero]
  have hlen : 4 ≤ (lengthLine n ++ ['\n'.toUInt8]).length := by
    have := List.length_pos_of_ne_nil (Decimal.natText_ne_nil n)
    have := length_le_byteLen (natText n)
    rw [hline, List.length_append, List.length_cons, length_encode]
    simp only [List.length_cons, List.length_nil]
    omega
  have hok : ¬ ('\r'.toUInt8 ∉ lengthLine n ++ ['\n'.toUInt8] ∨ (lengthLine n ++ ['\n'.toUInt8]).length < 4 ∨
      (lengthLine n ++ ['\n'.toUInt8]).head? ≠ some '$'.toUInt8) := by
    rintro (h | h | h)
    · exact h (by rw [hline]; simp)
    · omega
    · exact h (by rw [hline]; rfl)
  rw [rdbLength, if_neg hok, hidx, hline, List.take_left' rfl, List.drop_one, List.tail_cons, decodeLossy_encode,
    orErr_eq_ok, parseUsize, map_eq_ok]
  constructor
  · rintro ⟨v, hv, rfl⟩
    obtain ⟨rfl, hmax⟩ := (Decimal.readInt_natText_eq_ok (by decide) (by decide) n v).1 hv
    exact ⟨Int.toNat_natCast n, by omega⟩
  · rintro ⟨rfl, hmax⟩
    exact ⟨k, Decimal.readInt_natText (by decide) (by omega), Int.toNat_natCast k⟩

/-! ## The handshake -/

theorem newline_notMem_lengthLine (n : Nat) : '\n'.toUInt8 ∉ lengthLine n := by
  have hdigits : '\n'.toUInt8 ∉ encode (natText n) := fun h => absurd (le_of_mem_encode_natText h) (by decide)
  rw [lengthLine, List.mem_append, List.mem_cons, not_or, not_or]
  exact ⟨⟨by decide, hdigits⟩, by decide⟩

theorem newline_notMem_resyncLine (m : Resync) : '\n'.toUInt8 ∉ m.resyncLine := by
  rw [Resync.resyncLine, List.mem_append, List.mem_cons, not_or, not_or]
  exact ⟨⟨by decide, m.newline⟩, by decide⟩

/-- The reader after the two lines, and what is left to do. -/
theorem connectMaster_header (m : Resync) (s : Segmentation m.bytes) : ∃ r : BufReader UInt8,
    Reads ⟨[], s.reads⟩ m.header r ∧ r.buffer ++ r.socket.flatten = m.rdb ++ m.commands ∧
      connectMaster s.reads = (do
        let length ← rdbLength (lengthLine m.rdb.length ++ ['\n'.toUInt8])
        return (← readFile length r).2.socket) := by
  have hbytes : [] ++ s.reads.flatten = m.resyncLine ++ '\n'.toUInt8 ::
      (lengthLine m.rdb.length ++ '\n'.toUInt8 :: (m.rdb ++ m.commands)) := by
    rw [s.flatten, Resync.bytes, Resync.header]
    simp
  obtain ⟨r, hr, hreads⟩ := readUntil_reads _ _ _ _ (newline_notMem_resyncLine m) hbytes
  have hrest := hreads.rest (by rw [hbytes, List.append_cons])
  obtain ⟨r', hr', hreads'⟩ := readUntil_reads _ _ _ _ (newline_notMem_lengthLine m.rdb.length) hrest
  have hrest' := hreads'.rest (by rw [hrest, List.append_cons])
  obtain ⟨v, hv⟩ := parse_resyncLine m
  refine ⟨r', hreads.trans hreads', hrest', ?_⟩
  rw [connectMaster, hr]
  simp only [hv, orParser, ok_bind, hr']

/-- **A file that has a buffer is read whole**, and the loop is left the segments not taken. -/
theorem connectMaster_resync {m : Resync} (hlen : m.rdb.length < 9223372036854775808) (s : Segmentation m.bytes) :
    ∃ r : BufReader UInt8, Reads ⟨[], s.reads⟩ (m.header ++ m.rdb) r ∧ connectMaster s.reads = .ok r.socket := by
  obtain ⟨r, hreads, hrest, hmaster⟩ := connectMaster_header m s
  obtain ⟨r', hr', hreads'⟩ := readExact_reads r.socket m.rdb.length r.buffer m.rdb m.commands rfl hrest
  refine ⟨r', hreads.trans hreads', ?_⟩
  rw [hmaster, rdbLength_lengthLine.2 ⟨rfl, by omega⟩, ok_bind, readFile, if_neg (by omega), hr']
  rfl

/-- A segment that ends with the file leaves the next one whole; one byte more is lost. -/
example : connectMaster [encode "+OK\r\n$2\r".toList, encode "\nab".toList, [42, 43]] = .ok [[42, 43]] ∧
    connectMaster [encode "+OK\r\n$2\r".toList, encode "\nab".toList ++ [42], [43]] = .ok [[43]] := by decide +kernel

theorem length_of_connectMaster {m : Resync} {s : Segmentation m.bytes} {left : List (List UInt8)}
    (h : connectMaster s.reads = .ok left) : m.rdb.length < 9223372036854775808 := by
  obtain ⟨r, -, -, hmaster⟩ := connectMaster_header m s
  rw [hmaster] at h
  obtain ⟨n, hn, h⟩ := bind_eq_ok.1 h
  obtain ⟨rfl, -⟩ := rdbLength_lengthLine.1 hn
  by_contra hlen
  rw [readFile, if_pos (by omega)] at h
  cases h

/-! ## The command loop -/

section
variable (regex : List Char → Option (List Char → Bool)) (clock : Nat → SystemTime)

theorem replicaValue_running (r : Replica) (v : Value) : (replicaValue regex clock r v).running = r.running := by
  unfold replicaValue
  split
  · split
    · dsimp only
      split <;> rfl
    · rfl
  · rfl

/-- **A read stops the loop exactly when it panics.** -/
theorem replicaRead_running {r : Replica} (hr : r.running = true) {buf : List UInt8} (hbuf : buf ≠ []) :
    (replicaRead regex clock r buf).running = true ↔ parseMultiArray (decodeLossy buf) ≠ .error .panic := by
  have hvalues : ∀ (vs : List Value) (r : Replica), (vs.foldl (replicaValue regex clock) r).running = r.running := by
    intro vs
    induction vs with
    | nil => intro r; rfl
    | cons v vs ih => intro r; exact (ih _).trans (replicaValue_running regex clock r v)
  rw [replicaRead, if_neg (by rw [hr]; decide), if_neg hbuf]
  cases parseMultiArray (decodeLossy buf) with
  | ok vs => simp only [hvalues, hr]; simp
  | error e => cases e <;> simp [hr]

theorem seen_isPrefix : ∀ (socket : List (List UInt8)) (r : Replica), seen regex clock r socket <+: socket.flatten
  | [], _ => List.nil_prefix
  | buf :: socket, r => by
    rw [seen, List.flatten_cons]
    split
    · exact (List.prefix_append_right_inj buf).2 (seen_isPrefix socket _)
    · exact List.nil_prefix

/-- **The loop sees all that is left to it exactly when no read but the last panics.** -/
theorem seen_eq_iff : ∀ (socket : List (List UInt8)) {r : Replica}, [] ∉ socket → r.running = true →
    (seen regex clock r socket = socket.flatten ↔
      ∀ buf ∈ socket.dropLast, parseMultiArray (decodeLossy buf) ≠ .error .panic)
  | [], _, _, _ => by simp [seen]
  | [buf], _, _, hr => by simp [seen, hr]
  | buf :: next :: socket, r, hne, hr => by
    rw [List.mem_cons, not_or] at hne
    have hstep := replicaRead_running regex clock hr (Ne.symm hne.1)
    rw [seen, if_pos hr, List.flatten_cons, List.append_cancel_left_eq, List.dropLast_cons_cons, List.forall_mem_cons,
      ← hstep]
    cases hrun : (replicaRead regex clock r buf).running with
    | true => rw [seen_eq_iff (next :: socket) hne.2 hrun]; simp
    | false =>
      have hnext : next ≠ [] := fun h => hne.2 (by rw [h]; simp)
      rw [seen, hrun]
      simp [hnext, eq_comm]

/-- **The loop sees the commands, and all of them, exactly when the file has a buffer, a segment ends with it, and of
the segments after it none but the last panics.** -/
theorem handover_iff (m : Resync) (s : Segmentation m.bytes) (σ : Server) :
    (∃ left, connectMaster s.reads = .ok left ∧ seen regex clock ⟨σ, [], [], true⟩ left = m.commands) ↔
      m.rdb.length < 9223372036854775808 ∧ ∃ pre post, s.reads = pre ++ post ∧ pre.flatten = m.header ++ m.rdb ∧
        ∀ buf ∈ post.dropLast, parseMultiArray (decodeLossy buf) ≠ .error .panic := by
  have hsuffix : ∀ {pre post : List (List UInt8)}, s.reads = pre ++ post → [] ∉ post :=
    fun h hmem => s.nonempty (by rw [h]; simp [hmem])
  have hflatten : ∀ {pre post : List (List UInt8)}, s.reads = pre ++ post → pre.flatten = m.header ++ m.rdb →
      post.flatten = m.commands := by
    intro pre post hcut hpre
    have := s.flatten
    rw [hcut, List.flatten_append, hpre, Resync.bytes] at this
    exact List.append_cancel_left this
  constructor
  · rintro ⟨left, hmaster, hseen⟩
    have hlen := length_of_connectMaster hmaster
    obtain ⟨r, hreads, hr⟩ := connectMaster_resync hlen s
    obtain rfl := Except.ok.inj (hr.symm.trans hmaster)
    have hrest : r.buffer ++ r.socket.flatten = m.commands := hreads.rest s.flatten
    -- what the loop sees is part of the socket, so nothing is left in the buffer
    have hbuffer : r.buffer = [] := by
      have hle := (seen_isPrefix regex clock r.socket ⟨σ, [], [], true⟩).length_le
      have := congrArg List.length hrest
      rw [hseen] at hle
      rw [List.length_append] at this
      exact List.eq_nil_of_length_eq_zero (by omega)
    obtain ⟨pre, hcut, hpre⟩ := (hreads.eq_iff s.nonempty).1 (show r = ⟨[], r.socket⟩ by rw [← hbuffer])
    refine ⟨hlen, pre, r.socket, hcut, hpre, ?_⟩
    rw [← seen_eq_iff regex clock r.socket (hsuffix hcut) (r := ⟨σ, [], [], true⟩) rfl, hseen, hflatten hcut hpre]
  · rintro ⟨hlen, pre, post, hcut, hpre, hpanic⟩
    obtain ⟨r, hreads, hr⟩ := connectMaster_resync hlen s
    obtain rfl := (hreads.eq_iff s.nonempty).2 ⟨pre, hcut, hpre⟩
    refine ⟨post, hr, ?_⟩
    rw [(seen_eq_iff regex clock post (hsuffix hcut) rfl).2 hpanic, hflatten hcut hpre]

end

/-- All of it in one segment: the `SET` after the file is lost. -/
theorem handover_one_segment : ¬ ∀ (regex : List Char → Option (List Char → Bool)) (clock : Nat → SystemTime)
    (m : Resync) (s : Segmentation m.bytes) (σ : Server), ∃ left, connectMaster s.reads = .ok left ∧
      seen regex clock ⟨σ, [], [], true⟩ left = m.commands := by
  intro h
  let m : Resync := ⟨encode "FULLRESYNC 8371b4fb 0".toList, by decide +kernel, encode "REDIS0011".toList ++ [0xff],
    encode "*3\r\n$3\r\nset\r\n$1\r\nk\r\n$1\r\nv\r\n".toList⟩
  obtain ⟨left, hmaster, hseen⟩ := h (fun _ => none) (fun _ => 0) m ⟨[m.bytes], by simp, by decide +kernel⟩
    (Server.start .slave 0)
  have hleft : connectMaster [m.bytes] = .ok [] := by decide +kernel
  obtain rfl := Except.ok.inj (hmaster.symm.trans hleft)
  cases hseen

end Rusdis
