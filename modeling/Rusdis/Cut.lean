import Rusdis.Handshake
/-!
# Cut — the handshake and the cuts of its stream

After the third reply `connect_master` reads a line, the length of the RDB file and the file through a buffered reader.
`connectStream` reads the same off one stream of bytes, and `handshake_cut` says that the two end alike for every
stream, well formed or not, and every way of cutting it: only what the command loop is left depends on the cuts.
-/
namespace Rusdis

open Fallible Utf8
open BufReader (cutLine readExact readExact_stream readUntil readUntil_stream stream)

/-- `connect_master` from the reply to `PSYNC` on, off one stream: what follows the file. -/
def connectStream (bytes : List UInt8) : Except (Fault ConnectError) (List UInt8) := do
  let (buf, rest) := cutLine '\n'.toUInt8 bytes
  let _psyncResponse ← orParser (parse (decodeLossy buf))
  let (buf, rest) := cutLine '\n'.toUInt8 rest
  let length ← rdbLength buf
  if 9223372036854775807 < length then .error .panic
  else if length ≤ rest.length then .ok (rest.drop length) else .error (.err .io)

/-- `connect_master` as a whole, its replies apart. -/
def handshakeStream : List Exchange → List (List UInt8) → List UInt8 →
    List (List Char) × Except (Fault ConnectError) (List UInt8)
  | [], _, bytes => ([psync], connectStream bytes)
  | x :: xs, replies, bytes =>
    let (buf, replies) := fillBuf replies
    match x.check buf with
    | .error e => ([x.request], .error e)
    | .ok ()   =>
      let (sent, result) := handshakeStream xs replies bytes
      (x.request :: sent, result)

/-- The same error, or the command loop is left the end of what follows the file. -/
def EndsAs : Except (Fault ConnectError) (List (List UInt8)) → Except (Fault ConnectError) (List UInt8) → Prop
  | .ok left, .ok rest   => left.flatten <:+ rest
  | .error e, .error e'  => e = e'
  | _, _                 => False

theorem EndsAs.bind {α : Type} {f : α → Except (Fault ConnectError) (List (List UInt8))}
    {g : α → Except (Fault ConnectError) (List UInt8)} (h : ∀ a, EndsAs (f a) (g a)) :
    ∀ x : Except (Fault ConnectError) α, EndsAs (x >>= f) (x >>= g)
  | .ok a    => h a
  | .error _ => rfl

theorem endsAs_readFile (length : Nat) (r : BufReader UInt8) :
    EndsAs (do return (← readFile length r).2.socket) (if 9223372036854775807 < length then .error .panic
      else if length ≤ r.stream.length then .ok (r.stream.drop length) else .error (.err .io)) := by
  have hread := readExact_stream r.socket length r.buffer
  change _ = if length ≤ r.stream.length then some (r.stream.splitAt length) else none at hread
  rw [readFile]
  by_cases hbig : 9223372036854775807 < length
  · rw [if_pos hbig, if_pos hbig]
    exact rfl
  · rw [if_neg hbig, if_neg hbig]
    by_cases hle : length ≤ r.stream.length
    · rw [if_pos hle, List.splitAt_eq] at hread
      obtain ⟨⟨bytes, r'⟩, hr', heq⟩ := Option.map_eq_some_iff.1 hread
      have hrest : r'.stream = r.stream.drop length := (Prod.mk.inj heq).2
      rw [if_pos hle, hr', ← hrest]
      exact List.suffix_append _ _
    · rw [if_neg hle] at hread
      rw [if_neg hle, Option.map_eq_none_iff.1 hread]
      exact rfl

/-- **The reader reads what the stream is**, wherever the segments are cut. -/
theorem connectMaster_stream (socket : List (List UInt8)) :
    EndsAs (connectMaster socket) (connectStream socket.flatten) := by
  unfold connectMaster connectStream
  rw [← List.nil_append socket.flatten, ← readUntil_stream]
  obtain ⟨buf, r⟩ := readUntil '\n'.toUInt8 [] socket
  refine EndsAs.bind (fun v => ?_) (orParser (parse (decodeLossy buf)))
  rw [stream, ← readUntil_stream]
  obtain ⟨buf', r'⟩ := readUntil '\n'.toUInt8 r.buffer r.socket
  exact EndsAs.bind (fun length => endsAs_readFile length r') (rdbLength buf')

theorem exchanges_stream : ∀ (xs : List Exchange) (replies socket : List (List UInt8)), replies.length = xs.length →
    (exchanges xs (replies ++ socket)).1 = (handshakeStream xs replies socket.flatten).1 ∧
      EndsAs (exchanges xs (replies ++ socket)).2 (handshakeStream xs replies socket.flatten).2
  | [], [], socket, _ => ⟨rfl, connectMaster_stream socket⟩
  | x :: xs, buf :: replies, socket, hlen => by
    obtain ⟨hsent, hends⟩ := exchanges_stream xs replies socket (Nat.succ.inj hlen)
    rw [List.cons_append, exchanges, handshakeStream, fillBuf, fillBuf]
    dsimp only
    cases x.check buf with
    | error e => exact ⟨rfl, rfl⟩
    | ok u => exact ⟨congrArg (x.request :: ·) hsent, hends⟩

/-- **The handshake does not depend on how the stream after its third reply is cut**: whatever the replies and the bytes
are, it sends the same requests, and ends in the same error or not at all. -/
theorem handshake_cut (port : Option (List Char)) (pong ok ok' : List UInt8) {bytes : List UInt8}
    (s : Segmentation bytes) :
    (handshake port ([pong, ok, ok'] ++ s.reads)).1 = (handshakeStream (script port) [pong, ok, ok'] bytes).1 ∧
      EndsAs (handshake port ([pong, ok, ok'] ++ s.reads)).2
        (handshakeStream (script port) [pong, ok, ok'] bytes).2 := by
  have h := exchanges_stream (script port) [pong, ok, ok'] s.reads rfl
  rwa [s.flatten] at h

end Rusdis
