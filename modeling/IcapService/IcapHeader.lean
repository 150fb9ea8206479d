import IcapService.HeaderBlock
import IcapService.Lib.Machine
import IcapService.NetIo

/-! `ci_read_icap_header`: the ICAP header is read in small pieces into a buffer that grows, and each
piece is searched for the end of the header from three bytes before it on. -/

namespace IcapService

open CString Machine

def icapHeaderReadsize : Nat := 512

/-- The bytes CR LF CR LF lie at the offset. -/
def eohAt (s : Bytes) (p : Nat) : Bool := (crlf ++ crlf).isPrefixOf (s.drop p)

/-- The reference: where a whole text has its first CR LF CR LF. -/
def findEoh (s : Bytes) : Option Nat := (List.range s.length).find? (eohAt s)

/-- The variables of `ci_read_icap_header`; `bufEnd` is the offset of `buf_end`. -/
structure IcapReading where
  buf : Bytes
  bufEnd : Nat
  readed : Nat
  startsearch : Int
  conn : Connection
  bytesIn : Nat

/-- How `ci_read_icap_header` ends: with a write behind the buffer, with `EC_408`, or with the header.
The connection of a failure is the one whose wait or read fails. -/
inductive IcapRead where
  | overrun
  | failed (conn : Connection)
  | found (list : HeadersList) (read : ReadSide) (conn : Connection)

/-- Whether the end of the header lies at an offset depends on the four bytes there only. -/
theorem eohAt_take (s : Bytes) (p n : Nat) (inside : p + 4 ≤ n) : eohAt (s.take n) p = eohAt s p := by
  have four : (crlf ++ crlf).length = 4 := rfl
  rw [eohAt, eohAt, Bool.eq_iff_iff, List.isPrefixOf_iff_prefix, List.isPrefixOf_iff_prefix, List.drop_take,
    List.prefix_take_iff, four]
  exact and_iff_left (by omega)

/-- A pass whose new bytes have been put into the buffer. -/
structure Filled (stream : Bytes) (s : IcapReading) (bytes : Nat) : Prop where
  readed : s.readed = s.bufEnd + bytes
  search : s.startsearch = -((min s.bufEnd 3 : Nat) : Int)
  received : s.buf.take s.readed = stream.take s.readed
  inside : s.readed ≤ stream.length
  input : s.conn.input = stream.drop s.readed
  clear : ∀ p, p + 4 ≤ s.bufEnd → eohAt stream p = false
  room : s.readed ≤ s.buf.length

/-- The outcome agrees with the reference on the stream `held ++ conn.input`. With the header found,
the block is the stream up to the first of the two CRLFs and the unread bytes are the received ones
behind the second. Otherwise the connection has failed, and what was received before has no end of
the header. -/
def Agrees (stream : Bytes) : IcapRead → Prop
  | .overrun => False
  | .failed conn => ∃ received, stream = received ++ conn.input ∧ findEoh received = none ∧
      conn.receive icapHeaderReadsize = none
  | .found list read conn => ∃ p received, stream = received ++ conn.input ∧ findEoh stream = some p ∧
      p + 4 ≤ received.length ∧ list.content = stream.take (p + 2) ∧ list.bufused = p + 2 ∧
      read.Placed ∧ read.unread = received.drop (p + 4) ∧ read.requestBytesIn = list.content.length + 2

end IcapService
