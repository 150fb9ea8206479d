import IcapService.Lib.CInt
import IcapService.Lib.CString
import IcapService.Lib.Machine

/-! The loops of `decode.c` around the stream decoders of zlib, bzip2 and brotli.

A decoder takes part of the input and gives part of the output at each call. What the loops hand to the write
function is followed next to what the decoder gave. -/

namespace IcapService

open CString CInt Machine

/-- `CI_UNCOMP_OK` and the errors; a division by the length of an empty input has no result of its own. -/
inductive UncompRet where
  | ok
  | errNone
  | errError
  | errOutput
  | errCorrupt
  | errBomb
  | divided
  deriving DecidableEq

/-- A stream decoder with statuses in `κ` and a state in `δ`. A call gets the bytes of input and of room in the output
buffer that are left; it answers with its status, the input that is left behind it and the bytes it has put there. -/
structure StreamDecoder (κ δ : Type) where
  call : δ → Nat → Nat → κ × Nat × Bytes × δ
  fits : ∀ d availIn availOut, (call d availIn availOut).2.2.1.length ≤ availOut

/-- The output: the buffer it provides, if it does, with null for none, and the write function. -/
structure UncompSink (ω : Type) where
  getOutbuf : Option (ω → Option UInt32 × ω)
  writefunc : ω → Bytes → Int × ω

/-- What a decoder has given, what was handed to the write function, and whether bytes of the buffer were handed that
the decoder had not put there. -/
structure UncompTrace where
  produced : Bytes
  handed : Bytes
  overread : Bool

/-- The state of a loop. -/
structure Uncomp (δ ω : Type) where
  decoder : δ
  availIn : Nat
  sink : ω
  size : Int
  retriable : Bool
  trace : UncompTrace

/-- The state before the first pass. -/
def Uncomp.start {δ ω : Type} (d : δ) (availIn : Nat) (obj : ω) (retriable : Bool) : Uncomp δ ω :=
  ⟨d, availIn, obj, 0, retriable, ⟨[], [], false⟩⟩

structure UncompOut where
  ret : UncompRet
  /-- The decoder reported the end of the stream at its last call. -/
  ended : Bool
  trace : UncompTrace

/-- The part of the output that the limit leaves; a limit that is not positive is none. -/
def canWrite (maxSize size : Int) (have_ : Nat) : Nat :=
  if 0 < maxSize ∧ maxSize - size < have_ then u32 (maxSize - size) else have_

section

variable {κ δ ω : Type} (sink : UncompSink ω) (inlen : Nat) (maxSize : Int)

/-- The end of a pass: `have` bytes of the buffer are handed to the write function, as far as the limit goes. The
decoder has put `out` there, in front of what the buffer held. -/
def handOut (stale : Nat → UInt8) (ended : Bool) (have_ : Nat) (out : Bytes) (s : Uncomp δ ω) :
    Step (Uncomp δ ω) UncompOut :=
  let count := canWrite maxSize s.size have_
  let data := (List.range count).map fun i => out.getD i (stale i)
  let trace : UncompTrace :=
    ⟨s.trace.produced ++ out, s.trace.handed ++ data, s.trace.overread || decide (out.length < count)⟩
  let written := sink.writefunc s.sink data
  if u32 written.1 ≠ count then .done ⟨.errOutput, ended, trace⟩
  else
    let size := s.size + count
    if count < have_ then
      .done ⟨if inlen = 0 then .divided else if 100 < size / inlen then .errBomb else .errNone, ended, trace⟩
    else .next { s with sink := written.2, size := size, trace := trace }

/-- The output buffer of a pass: that of the sink, or `CHUNK` bytes; nothing for a null buffer. -/
def outBuffer (chunk : Nat) (s : ω) : Option Nat × ω :=
  match sink.getOutbuf with
  | none => (some chunk, s)
  | some get => ((get s).1.map UInt32.toNat, (get s).2)

end

/-! ### zlib -/

inductive ZStatus where
  | ok
  | streamEnd
  | needDict
  | bufError
  | streamError
  | dataError
  | memError
  deriving DecidableEq

/-- `CHUNK`. -/
def uncompChunk : Nat := 8192

section

variable {δ ω : Type} (zlib : StreamDecoder ZStatus δ) (raw : Option δ) (sink : UncompSink ω) (inlen : Nat)
  (maxSize : Int) (stale : Nat → UInt8)

/-- A pass of the loop of `ci_mem_inflate`. `raw` is the decoder for the second attempt, if it can be set up. -/
def inflateStep (s : Uncomp δ ω) : Step (Uncomp δ ω) UncompOut :=
  match outBuffer sink uncompChunk s.sink with
  | (none, _) => .done ⟨.errOutput, false, s.trace⟩
  | (some 0, _) => .done ⟨.errOutput, false, s.trace⟩
  | (some outSize, buf) =>
      let called := zlib.call s.decoder s.availIn outSize
      let s := { s with sink := buf, availIn := called.2.1, decoder := called.2.2.2 }
      let out := called.2.2.1
      let corrupt : UncompOut := ⟨.errCorrupt, false, { s.trace with produced := s.trace.produced ++ out }⟩
      match called.1 with
      | .needDict | .dataError =>
          match s.retriable, raw with
          | true, some d =>
              -- the output counts from the second attempt on
              .next { s with decoder := d, availIn := u32 inlen, retriable := false, trace := { s.trace with produced := [] } }
          | _, _ => .done corrupt
      | .streamError | .memError => .done corrupt
      | status =>
          let ended := decide (status = .streamEnd)
          (handOut sink inlen maxSize stale ended out.length out { s with retriable := false }).bind fun s =>
            if out.length = outSize then .next s
            else .done ⟨if ended then .ok else .errCorrupt, ended, s.trace⟩

/-- `ci_mem_inflate`, cut off after `fuel` passes; `init` is the decoder that `inflateInit2` sets up. -/
def ciMemInflate (fuel : Nat) (init : Option δ) (obj : ω) : Option UncompOut :=
  match init with
  | none => some ⟨.errError, false, ⟨[], [], false⟩⟩
  | some d => run (inflateStep zlib raw sink inlen maxSize stale) fuel (.start d (u32 inlen) obj true)

end

/-! ### bzip2 -/

inductive BzStatus where
  | ok
  | streamEnd
  | paramError
  | dataError
  | dataErrorMagic
  | memError
  | sequenceError
  deriving DecidableEq

section

variable {δ ω : Type} (bzip : StreamDecoder BzStatus δ) (sink : UncompSink ω) (inlen : Nat) (maxSize : Int)
  (stale : Nat → UInt8)

/-- A pass of the loop of `ci_mem_bzunzip`. -/
def bzunzipStep (s : Uncomp δ ω) : Step (Uncomp δ ω) UncompOut :=
  match outBuffer sink uncompChunk s.sink with
  | (none, _) => .done ⟨.errOutput, false, s.trace⟩
  | (some 0, _) => .done ⟨.errOutput, false, s.trace⟩
  | (some outSize, buf) =>
      let called := bzip.call s.decoder s.availIn outSize
      let s := { s with sink := buf, availIn := called.2.1, decoder := called.2.2.2 }
      let out := called.2.2.1
      let ended := decide (called.1 = .streamEnd)
      match called.1 with
      | .paramError | .dataError | .dataErrorMagic | .memError =>
          .done ⟨.errError, ended, { s.trace with produced := s.trace.produced ++ out }⟩
      | _ =>
          if out = [] then .done ⟨.errOutput, ended, s.trace⟩
          else
            (handOut sink inlen maxSize stale ended out.length out s).bind fun s =>
              if out.length = outSize then .next s else .done ⟨.ok, ended, s.trace⟩

/-- `ci_mem_bzunzip`, cut off after `fuel` passes. -/
def ciMemBzunzip (fuel : Nat) (init : Option δ) (obj : ω) : Option UncompOut :=
  match init with
  | none => some ⟨.errError, false, ⟨[], [], false⟩⟩
  | some d => run (bzunzipStep bzip sink inlen maxSize stale) fuel (.start d inlen obj false)

end

/-! ### brotli -/

inductive BrStatus where
  | error
  | success
  | needsMoreInput
  | needsMoreOutput
  deriving DecidableEq

/-- `kFileBufferSize`. -/
def fileBufferSize : Nat := 16384

section

variable {δ ω : Type} (brotli : StreamDecoder BrStatus δ) (sink : UncompSink ω) (inlen : Nat) (maxSize : Int)
  (stale : Nat → UInt8)

/-- The bytes that `Br_Decompress` takes the buffer to hold: it counts from the size of its own buffer. -/
def brHave (outSize produced : Nat) : Nat := u32 ((fileBufferSize : Int) - ((outSize : Int) - produced))

/-- A pass of the loop of `Br_Decompress`. -/
def brDecompressStep (s : Uncomp δ ω) : Step (Uncomp δ ω) UncompOut :=
  match outBuffer sink fileBufferSize s.sink with
  | (none, _) => .done ⟨.errOutput, false, s.trace⟩
  | (some outSize, buf) =>
      let called := brotli.call s.decoder s.availIn outSize
      let s := { s with sink := buf, availIn := called.2.1, decoder := called.2.2.2 }
      let out := called.2.2.1
      let ended := decide (called.1 = .success)
      (handOut sink inlen maxSize stale ended (brHave outSize out.length) out s).bind fun s =>
        match called.1 with
        | .needsMoreInput => if s.availIn = 0 then .done ⟨.errCorrupt, ended, s.trace⟩ else .next s
        | .needsMoreOutput => .next s
        | .success => .done ⟨if s.availIn ≠ 0 then .errCorrupt else .ok, ended, s.trace⟩
        | .error => .done ⟨.errCorrupt, ended, s.trace⟩

/-- `Br_Decompress`, cut off after `fuel` passes. -/
def brDecompress (fuel : Nat) (d : δ) (obj : ω) : Option UncompOut :=
  run (brDecompressStep brotli sink inlen maxSize stale) fuel (.start d inlen obj false)

end

end IcapService
