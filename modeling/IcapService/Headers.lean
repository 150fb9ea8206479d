import IcapService.Lib.Memory
import IcapService.Response

/-! The header list of `header.c`: lines in one byte buffer, with an index of pointers to their
starts. `fresh` is what newly allocated memory holds. -/

namespace IcapService

open CString

def headerStartSize : Nat := 64
def headsBufSize : Nat := bufsize

/-- A `ci_headers_list_t`. The index is the list of the offsets in use, so that `used` is its length
and `bufsize` is the length of `buf`. -/
structure HeadersList where
  size : Nat
  headers : List Nat
  buf : Bytes
  bufused : Nat
  packed : Bool
  deriving DecidableEq

namespace HeadersList

def used (h : HeadersList) : Nat := h.headers.length

/-- The bytes in use. -/
def content (h : HeadersList) : Bytes := h.buf.take h.bufused

/-- `ci_headers_create`. -/
def create (fresh : Nat → UInt8) : HeadersList where
  size := headerStartSize
  headers := []
  buf := realloc fresh [] headsBufSize
  bufused := 0
  packed := false

/-- `ci_headers_reset`. -/
def reset (h : HeadersList) : HeadersList := { h with packed := false, headers := [], bufused := 0 }

/-- The index made by `headers[i] = headers[i-1] + strlen(headers[i-1]) + 2`, for `n` more lines. -/
def reindex (buf : Bytes) : Nat → Nat → List Nat
  | 0, _ => []
  | n + 1, start => start :: reindex buf n (start + strlen (buf.drop start) + 2)

/-- `ci_headers_add`; the result is the offset of the new line, or nothing in packed mode. -/
def add (fresh : Nat → UInt8) (h : HeadersList) (line : Bytes) : Option Nat × HeadersList :=
  if h.packed then (none, h)
  else
    let size := if h.used = h.size then h.size + headerStartSize else h.size
    let len := grow headsBufSize h.buf.length (h.bufused + (line.length + 4))
    let buf := if h.buf.length < len then realloc fresh h.buf len else h.buf
    let headers := if h.buf.length < len then reindex buf h.used 0 else h.headers
    let written := poke buf h.bufused (line ++ [0])
    (some h.bufused,
      { h with
        size := size
        headers := headers ++ [h.bufused]
        buf := (written.set (h.bufused + line.length + 1) lf).set (h.bufused + line.length + 3) lf
        bufused := h.bufused + line.length + 2 })

/-- `ci_headers_addheaders`. -/
def addheaders (fresh : Nat → UInt8) (h headers : HeadersList) : Bool × HeadersList :=
  if h.packed then (false, h)
  else
    let len := grow headsBufSize h.buf.length (h.bufused + (headers.bufused + 2))
    let buf := if h.buf.length < len then realloc fresh h.buf len else h.buf
    let buf := poke buf h.bufused (headers.buf.take (headers.bufused + 2))
    (true,
      { h with
        size := grow headerStartSize h.size (h.used + headers.used)
        headers := reindex buf (h.used + headers.used) 0
        buf := buf
        bufused := h.bufused + headers.bufused })

/-- The line at `phead` is one of the header `name`: `name` in any case, then a colon. -/
def isNamed (h : HeadersList) (name : Bytes) (phead : Nat) : Bool :=
  at0 h.buf (phead + name.length) == 58 && strncaseeq name.length (h.buf.drop phead) name

/-- The loop over the index: the position of the first line of the header. A line with less than the
name behind it ends the search. -/
def find (h : HeadersList) (name : Bytes) : List Nat → Nat → Option Nat
  | [], _ => none
  | phead :: rest, i =>
      if h.bufused < phead + name.length then none
      else if h.isNamed name phead then some i
      else h.find name rest (i + 1)

/-- `do_header_search`, the offsets of the line and of its value. The value starts behind the blanks
that follow the colon. -/
def search (h : HeadersList) (header : Bytes) : Option (Nat × Nat) :=
  if header.isEmpty then none
  else
    (h.find header h.headers 0).map fun i =>
      let phead := h.headers.getD i 0
      let lval := phead + header.length + 1
      (phead, lval + (((h.buf.take (h.bufused + 1)).drop lval).takeWhile isBlank).length)

/-- `ci_headers_search`. -/
def headersSearch (h : HeadersList) (header : Bytes) : Option Nat := (h.search header).map (·.1)

/-- `ci_headers_value`. -/
def headersValue (h : HeadersList) (header : Bytes) : Option Nat := (h.search header).map (·.2)

/-- The index behind a removed line: from each line over its NUL, and over the LF behind that. -/
def rescan (buf : Bytes) : Nat → Nat → List Nat
  | 0, _ => []
  | n + 1, last =>
      let behind := last + strlen (buf.drop last) + 1
      let next := if at0 buf behind = lf then behind + 1 else behind
      next :: rescan buf n next

/-- `ci_headers_remove`. -/
def remove (h : HeadersList) (header : Bytes) : Bool × HeadersList :=
  if h.packed then (false, h)
  else
    match h.find header h.headers 0 with
    | none => (false, h)
    | some i =>
        let phead := h.headers.getD i 0
        if i + 1 = h.used then
          (true, { h with
            buf := poke h.buf phead crlf
            bufused := phead
            headers := h.headers.take i })
        else
          let next := h.headers.getD (i + 1) 0
          let buf := poke h.buf phead ((h.buf.drop next).take (h.bufused - next))
          (true, { h with
            buf := buf
            bufused := h.bufused - (next - phead)
            headers := h.headers.take (i + 1) ++ rescan buf (h.used - i - 2) phead })

/-- The end of a line: its NUL becomes CR before an LF, and LF elsewhere. -/
def packLine (buf : Bytes) (start : Nat) : Bytes :=
  let stop := start + strlen (buf.drop start)
  if at0 buf (stop + 1) = lf then buf.set stop cr else buf.set stop lf

/-- `ci_headers_pack`. -/
def pack (h : HeadersList) : HeadersList :=
  let buf := h.headers.foldl packLine h.buf
  if at0 buf (h.bufused + 1) = lf then
    { h with buf := buf.set h.bufused cr, bufused := h.bufused + 2, packed := true }
  else { h with buf := buf.set h.bufused lf, bufused := h.bufused + 1, packed := true }

/-- The state of the loop of `ci_headers_unpack`. -/
structure Unpacking where
  buf : Bytes
  str : Nat
  headers : List Nat
  size : Nat
  deriving DecidableEq

/-- A line ends here: at CRLF, or at LF alone, when no continuation line follows. -/
def Unpacking.eoh (s : Unpacking) (ebuf : Nat) : Bool :=
  if at0 s.buf s.str == cr && at0 s.buf (s.str + 1) == lf then
    decide (ebuf ≤ s.str + 2) || !isBlank (at0 s.buf (s.str + 2))
  else at0 s.buf s.str == lf && !isBlank (at0 s.buf (s.str + 1))

/-- One pass. Behind the end of a line the pass moves over the first byte of the next line too. -/
def Unpacking.pass (s : Unpacking) (ebuf : Nat) : Unpacking :=
  if s.eoh ebuf then
    let next := if at0 s.buf (s.str + 1) = lf then s.str + 2 else s.str + 1
    { buf := s.buf.set s.str 0
      str := next + 1
      headers := s.headers ++ [next]
      size := if s.size ≤ s.headers.length then s.size + headerStartSize else s.size }
  else
    { s with
      buf := if at0 s.buf s.str = 0 then s.buf.set s.str 32 else s.buf
      str := s.str + 1 }

def Unpacking.loop (ebuf : Nat) : Nat → Unpacking → Unpacking
  | 0, s => s
  | fuel + 1, s => if s.str < ebuf then loop ebuf fuel (s.pass ebuf) else s

/-- `ci_headers_unpack`. -/
def unpack (h : HeadersList) : Ec × HeadersList :=
  if h.bufused < 2 then (.ec400, h)
  else
    let ebuf := h.bufused - 2
    if at0 h.buf ebuf != cr && at0 h.buf ebuf != lf then (.ec400, h)
    else
      let s := Unpacking.loop ebuf ebuf ⟨h.buf.set ebuf 0, 0, [0], h.size⟩
      (.ec100, { h with size := s.size, headers := s.headers, buf := s.buf, packed := false })

/-- `sizeofheader`. -/
def sizeofheader (h : HeadersList) : Nat := h.bufused + 2

end HeadersList

end IcapService
