import IcapService.Decompress
import Mathlib.Data.List.Basic

/-! What the decompression loops owe their caller.

A loop hands the write function the output of the decoder from its first byte on, no more of it than the limit, and
says so when all of it was handed. zlib's loop keeps this whatever the decoder and the write function do; bzip2's does
when no stream breaks off, brotli's when the buffers have the size its arithmetic is written for. -/

namespace IcapService

open CString CInt Machine

/-- What was handed to the write function comes from the decoder, from its first byte on and within the limit. -/
structure UncompTrace.Kept (maxSize : Int) (t : UncompTrace) : Prop where
  inside : t.overread = false
  handed : t.handed <+: t.produced
  within : 0 < maxSize → (t.handed.length : Int) ≤ maxSize

/-- `CI_UNCOMP_OK` stands for the end of the stream, with all its output handed. -/
structure UncompOut.Contract (maxSize : Int) (out : UncompOut) : Prop where
  kept : out.trace.Kept maxSize
  whole : out.ret = .ok → out.ended = true ∧ out.trace.handed = out.trace.produced

/-- The contract of a function, cut off after any number of passes: of its result, and of the states of its loop when
there is none yet. -/
def KeepsContract {δ ω : Type} (maxSize : Int) (result : Nat → Option UncompOut) (passes : Uncomp δ ω → Prop) : Prop :=
  (∀ fuel out, result fuel = some out → out.Contract maxSize) ∧ ∀ s, passes s → s.trace.Kept maxSize

namespace Uncomp

variable {δ ω : Type}

/-- Between two passes all that the decoder gave has been handed. -/
structure Level (maxSize : Int) (s : Uncomp δ ω) : Prop where
  inside : s.trace.overread = false
  handed : s.trace.handed = s.trace.produced
  counted : s.size = s.trace.handed.length
  within : 0 < maxSize → s.size ≤ maxSize

variable {maxSize : Int} {s : Uncomp δ ω}

theorem Level.start (maxSize : Int) (d : δ) (availIn : Nat) (obj : ω) (retriable : Bool) :
    (start d availIn obj retriable).Level maxSize :=
  ⟨rfl, rfl, rfl, fun limit => Int.le_of_lt limit⟩

theorem Level.kept (level : s.Level maxSize) : s.trace.Kept maxSize :=
  ⟨level.inside, level.handed ▸ List.prefix_rfl, fun limit => level.counted ▸ level.within limit⟩

/-- A pass that leaves without a write, with output of the decoder behind what was handed. -/
theorem Level.refused (level : s.Level maxSize) (out : Bytes) (ended : Bool) (ret : UncompRet) (refused : ret ≠ .ok) :
    UncompOut.Contract maxSize ⟨ret, ended, { s.trace with produced := s.trace.produced ++ out }⟩ :=
  ⟨⟨level.inside, level.handed ▸ List.prefix_append _ _, level.kept.within⟩, fun same => absurd same refused⟩

theorem Level.left (level : s.Level maxSize) (ended : Bool) {ret : UncompRet} (fair : ret = .ok → ended = true) :
    UncompOut.Contract maxSize ⟨ret, ended, s.trace⟩ :=
  ⟨level.kept, fun same => ⟨fair same, level.handed⟩⟩

end Uncomp

/-! ### A write -/

theorem u32_le_toNat {v : Int} : u32 v ≤ v.toNat ∨ v < 0 := by
  unfold u32
  omega

theorem canWrite_le {maxSize size : Int} (within : 0 < maxSize → size ≤ maxSize) (have_ : Nat) :
    canWrite maxSize size have_ ≤ have_ := by
  unfold canWrite
  split
  case isTrue cut =>
    have low := within cut.1
    have small := u32_le_toNat (v := maxSize - size)
    omega
  case isFalse => exact le_rfl

theorem canWrite_within {maxSize size : Int} (within : 0 < maxSize → size ≤ maxSize) (have_ : Nat) (limit : 0 < maxSize) :
    size + canWrite maxSize size have_ ≤ maxSize := by
  unfold canWrite
  split
  case isTrue cut =>
    have low := within limit
    have small := u32_le_toNat (v := maxSize - size)
    omega
  case isFalse whole => omega

/-- The bytes in front of a buffer that the decoder has filled that far. -/
theorem map_range_getD {count : Nat} {out : Bytes} (fits : count ≤ out.length) (stale : Nat → UInt8) :
    ((List.range count).map fun i => out.getD i (stale i)) = out.take count := by
  refine List.ext_getElem (by simp [fits]) fun i left right => ?_
  simp only [List.length_map, List.length_range] at left
  rw [List.getElem_map, List.getElem_range, List.getElem_take, List.getD_eq_getElem?_getD,
    List.getElem?_eq_getElem (Nat.lt_of_lt_of_le left fits), Option.getD_some]

section

variable {δ ω : Type} {maxSize : Int} {s t : Uncomp δ ω} {sink : UncompSink ω} {out : Bytes}

/-- The write function has taken all that the decoder gave in a pass. -/
structure Written (maxSize : Int) (sink : UncompSink ω) (out : Bytes) (s t : Uncomp δ ω) : Prop where
  uncut : canWrite maxSize s.size out.length = out.length
  taken : u32 (sink.writefunc s.sink out).1 = out.length
  sink : t.sink = (sink.writefunc s.sink out).2
  decoder : t.decoder = s.decoder
  retriable : t.retriable = s.retriable

/-- A write of all the bytes the decoder has put in the buffer: either the loop goes on with all of them handed, or it
leaves with an error. -/
theorem handOut_level (sink : UncompSink ω) (inlen : Nat) (stale : Nat → UInt8) (ended : Bool) (out : Bytes)
    (level : s.Level maxSize) :
    (handOut sink inlen maxSize stale ended out.length out s).All (fun t => t.Level maxSize ∧ Written maxSize sink out s t)
      (fun r => r.Contract maxSize) := by
  have count_le := canWrite_le level.within out.length
  have total := canWrite_within level.within out.length
  have data := map_range_getD count_le stale
  simp only [handOut, data]
  generalize uncut : canWrite maxSize s.size out.length = count at count_le total data
  have inside : (s.trace.overread || decide (out.length < count)) = false := by
    simp [level.inside, count_le]
  have handed : s.trace.handed ++ out.take count <+: s.trace.produced ++ out :=
    level.handed ▸ (List.prefix_append_right_inj _).2 (List.take_prefix _ _)
  have length : ((s.trace.handed ++ out.take count).length : Int) = s.size + count := by
    rw [List.length_append, List.length_take, Nat.min_eq_left count_le, level.counted, Int.natCast_add]
  have kept : UncompTrace.Kept maxSize
      ⟨s.trace.produced ++ out, s.trace.handed ++ out.take count, s.trace.overread || decide (out.length < count)⟩ :=
    ⟨inside, handed, fun limit => length ▸ total limit⟩
  split
  case isTrue short => exact ⟨kept, fun same => by cases same⟩
  case isFalse taken =>
    split
    case isTrue cut =>
      refine ⟨kept, fun same => ?_⟩
      split_ifs at same
    case isFalse rest =>
      have all : out.take count = out := List.take_of_length_le (Nat.not_lt.1 rest)
      have same : count = out.length := Nat.le_antisymm count_le (Nat.not_lt.1 rest)
      refine ⟨⟨inside, ?_, length.symm, total⟩, uncut ▸ same, ?_, ?_, rfl, rfl⟩
      · rw [all, level.handed]
      · rw [← same, ← not_ne_iff.1 taken, all]
      · rw [all]

/-- A write that the limit does not cut and the write function does not refuse. -/
theorem handOut_next (inlen : Nat) (maxSize : Int) (stale : Nat → UInt8) (ended : Bool)
    (uncut : canWrite maxSize s.size out.length = out.length)
    (taken : u32 (sink.writefunc s.sink out).1 = out.length) :
    ∃ t, handOut sink inlen maxSize stale ended out.length out s = .next t ∧ Written maxSize sink out s t := by
  have data := map_range_getD (Nat.le_refl out.length) stale
  rw [List.take_length] at data
  simp only [handOut, uncut, data, taken, ne_eq, not_true_eq_false, if_false, Nat.lt_irrefl]
  exact ⟨_, rfl, uncut, taken, rfl, rfl, rfl⟩

/-- A decoder that cannot be set up. -/
theorem keepsContract_none (maxSize : Int) (passes : Uncomp δ ω → Prop) (unused : ∀ s, ¬ passes s) :
    KeepsContract maxSize (fun _ => some ⟨.errError, false, ⟨[], [], false⟩⟩) passes := by
  refine ⟨fun _ out result => ?_, fun s visited => absurd visited (unused s)⟩
  cases result
  exact ⟨⟨rfl, List.prefix_rfl, fun limit => Int.le_of_lt limit⟩, fun same => by cases same⟩

/-- The rule of the loops: an invariant that the passes keep, and that leaves them with the contract. -/
theorem keepsContract_of_pass {step : Uncomp δ ω → Step (Uncomp δ ω) UncompOut} {start : Uncomp δ ω} (maxSize : Int)
    (Inv : Uncomp δ ω → Prop) (level : ∀ s, Inv s → s.Level maxSize)
    (pass : ∀ s, Visits step start s → Inv s → (step s).All Inv (fun r => r.Contract maxSize)) (first : Inv start) :
    KeepsContract maxSize (fun fuel => run step fuel start) (Visits step start) := by
  have keep : ∀ s, Visits step start s ∧ Inv s →
      (step s).All (fun t => Visits step start t ∧ Inv t) (fun r => r.Contract maxSize) := by
    rintro s ⟨visited, inv⟩
    have all := pass s visited inv
    cases way : step s with
    | next t =>
        rw [way] at all
        exact ⟨visited.snoc way, all⟩
    | done r =>
        rw [way] at all
        exact all
  exact ⟨fun fuel out result => run_post step _ _ keep fuel start out ⟨.here _, first⟩ result,
    fun s visited => (level s (visited.inv keep ⟨.here _, first⟩).2).kept⟩

end

/-! ### zlib -/

section

variable {δ ω : Type} (zlib : StreamDecoder ZStatus δ) (raw : Option δ) (sink : UncompSink ω) (inlen : Nat)
  (maxSize : Int) (stale : Nat → UInt8)

/-- Before the one retry nothing has been handed yet. -/
def Retriable (maxSize : Int) (s : Uncomp δ ω) : Prop := s.Level maxSize ∧ (s.retriable = true → s.trace.handed = [])

theorem inflateStep_retriable (s : Uncomp δ ω) (inv : Retriable maxSize s) :
    (inflateStep zlib raw sink inlen maxSize stale s).All (Retriable maxSize) (fun r => r.Contract maxSize) := by
  obtain ⟨level, fresh⟩ := inv
  have refused := fun ret (wrong : ret ≠ UncompRet.ok) => level.left false fun same => absurd same wrong
  have corrupt := fun out => level.refused out false .errCorrupt (by decide)
  unfold inflateStep
  split
  case h_1 => exact refused _ (by decide)
  case h_2 => exact refused _ (by decide)
  case h_3 outSize buf _ _ =>
    generalize zlib.call s.decoder s.availIn outSize = called
    have written := fun ended => handOut_level sink inlen stale ended called.2.2.1
      (s := { s with sink := buf, availIn := called.2.1, decoder := called.2.2.2, retriable := false })
      ⟨level.inside, level.handed, level.counted, level.within⟩
    have retried : ∀ d : δ, s.retriable = true → Retriable maxSize ({ s with
        sink := buf, availIn := u32 inlen, decoder := d, retriable := false,
        trace := { s.trace with produced := [] } } : Uncomp δ ω) := by
      intro d retry
      exact ⟨⟨level.inside, fresh retry, level.counted, level.within⟩, fun again => by cases again⟩
    dsimp only
    split
    case h_1 =>
      split
      case h_1 d retry => exact retried d retry
      case h_2 => exact corrupt _
    case h_2 =>
      split
      case h_1 d retry => exact retried d retry
      case h_2 => exact corrupt _
    case h_3 => exact corrupt _
    case h_4 => exact corrupt _
    case h_5 =>
      refine (written _).bind fun t after => ?_
      split
      · exact ⟨after.1, fun again => by rw [after.2.retriable] at again; cases again⟩
      · refine after.1.left _ fun same => ?_
        split at same
        · assumption
        · cases same

/-- The states between the passes of `ci_mem_inflate`. -/
def inflatePasses (init : Option δ) (obj : ω) (s : Uncomp δ ω) : Prop :=
  ∃ d, init = some d ∧ Visits (inflateStep zlib raw sink inlen maxSize stale) (.start d (u32 inlen) obj true) s

theorem ciMemInflate_keepsContract (init : Option δ) (obj : ω) :
    KeepsContract maxSize (fun fuel => ciMemInflate zlib raw sink inlen maxSize stale fuel init obj)
      (inflatePasses zlib raw sink inlen maxSize stale init obj) := by
  cases init with
  | none => exact keepsContract_none maxSize _ fun s ⟨_, absent, _⟩ => by cases absent
  | some d =>
      have keeps := keepsContract_of_pass maxSize (Retriable maxSize) (fun s inv => inv.1)
        (fun s _ => inflateStep_retriable zlib raw sink inlen maxSize stale s)
        ⟨.start maxSize d (u32 inlen) obj true, fun _ => rfl⟩
      exact ⟨keeps.1, fun s ⟨_, same, visited⟩ => keeps.2 s (Option.some.inj same ▸ visited)⟩

end

/-! ### bzip2 -/

section

variable {δ ω : Type} (bzip : StreamDecoder BzStatus δ) (sink : UncompSink ω) (inlen : Nat) (maxSize : Int)
  (stale : Nat → UInt8)

/-- The pass in which the stream breaks off: without an error and without the end of the stream the decoder leaves room
in the buffer behind some output, all of which the limit leaves and the write function takes. -/
def BzBreaksOff (s : Uncomp δ ω) : Prop :=
  ∃ outSize buf, outBuffer sink uncompChunk s.sink = (some (outSize + 1), buf) ∧
    ∃ status rest out d, bzip.call s.decoder s.availIn (outSize + 1) = (status, rest, out, d) ∧
      (status = .ok ∨ status = .sequenceError) ∧ out ≠ [] ∧ out.length ≠ outSize + 1 ∧
      canWrite maxSize s.size out.length = out.length ∧ u32 (sink.writefunc buf out).1 = out.length

theorem bzunzipStep_level (s : Uncomp δ ω) (level : s.Level maxSize) (whole : ¬ BzBreaksOff bzip sink maxSize s) :
    (bzunzipStep bzip sink inlen maxSize stale s).All (fun t => t.Level maxSize) (fun r => r.Contract maxSize) := by
  have refused := fun ret ended (wrong : ret ≠ UncompRet.ok) => level.left ended fun same => absurd same wrong
  unfold bzunzipStep
  split
  case h_1 => exact refused _ _ (by decide)
  case h_2 => exact refused _ _ (by decide)
  case h_3 outSize buf notNull given =>
    obtain ⟨room, rfl⟩ := Nat.exists_eq_succ_of_ne_zero (n := outSize) notNull
    obtain ⟨status, rest, out, d, called⟩ :
        ∃ status rest out d, bzip.call s.decoder s.availIn (room + 1) = (status, rest, out, d) := ⟨_, _, _, _, rfl⟩
    have failed := fun ended => level.refused out ended .errError (by decide)
    have written := fun ended => handOut_level sink inlen stale ended out
      (s := { s with sink := buf, availIn := rest, decoder := d })
      ⟨level.inside, level.handed, level.counted, level.within⟩
    have finish : ∀ ended, (out ≠ [] → out.length ≠ room + 1 → canWrite maxSize s.size out.length = out.length →
          u32 (sink.writefunc buf out).1 = out.length → ended = true) →
        Step.All (fun t => t.Level maxSize) (fun r => r.Contract maxSize)
          (if out = [] then Step.done ⟨.errOutput, ended, s.trace⟩
          else (handOut sink inlen maxSize stale ended out.length out
            { s with sink := buf, availIn := rest, decoder := d }).bind fun s =>
              if out.length = room + 1 then .next s else .done ⟨.ok, ended, s.trace⟩) := by
      intro ended fair
      split
      case isTrue none_out => exact refused _ _ (by decide)
      case isFalse some_out =>
        refine (written ended).bind fun t after => ?_
        split
        case isTrue full => exact after.1
        case isFalse room_left =>
          exact after.1.left _ fun _ => fair some_out room_left after.2.uncut after.2.taken
    simp only [Nat.succ_eq_add_one, called]
    have broken := fun left some_out room_left uncut taken =>
      whole ⟨room, buf, given, status, rest, out, d, called, left, some_out, room_left, uncut, taken⟩
    cases status
    case paramError => exact failed _
    case dataError => exact failed _
    case dataErrorMagic => exact failed _
    case memError => exact failed _
    case streamEnd => exact finish _ fun _ _ _ _ => rfl
    case ok =>
      exact finish _ fun some_out room_left uncut taken => (broken (.inl rfl) some_out room_left uncut taken).elim
    case sequenceError =>
      exact finish _ fun some_out room_left uncut taken => (broken (.inr rfl) some_out room_left uncut taken).elim

/-- Where the stream breaks off the loop reports that it was decompressed. -/
theorem bzunzipStep_of_breaksOff {s : Uncomp δ ω} (broken : BzBreaksOff bzip sink maxSize s) :
    ∃ t, bzunzipStep bzip sink inlen maxSize stale s = .done ⟨.ok, false, t⟩ := by
  obtain ⟨room, buf, given, status, rest, out, d, called, left, some_out, room_left, uncut, taken⟩ := broken
  obtain ⟨t, next, -⟩ := handOut_next (s := { s with sink := buf, availIn := rest, decoder := d }) inlen maxSize stale false
    uncut taken
  refine ⟨t.trace, ?_⟩
  unfold bzunzipStep
  rcases left with rfl | rfl <;>
    simp only [given, called, some_out, reduceCtorEq, decide_false, if_false, next, Step.bind, room_left]

/-- The states between the passes of `ci_mem_bzunzip`. -/
def bzunzipPasses (init : Option δ) (obj : ω) (s : Uncomp δ ω) : Prop :=
  ∃ d, init = some d ∧ Visits (bzunzipStep bzip sink inlen maxSize stale) (.start d inlen obj false) s

theorem ciMemBzunzip_keepsContract_iff (init : Option δ) (obj : ω) :
    KeepsContract maxSize (fun fuel => ciMemBzunzip bzip sink inlen maxSize stale fuel init obj)
        (bzunzipPasses bzip sink inlen maxSize stale init obj) ↔
      ∀ s, bzunzipPasses bzip sink inlen maxSize stale init obj s → ¬ BzBreaksOff bzip sink maxSize s := by
  cases init with
  | none =>
      have unused : ∀ s, ¬ bzunzipPasses bzip sink inlen maxSize stale none obj s := fun s ⟨_, absent, _⟩ => by
        cases absent
      exact ⟨fun _ s visited => absurd visited (unused s), fun _ => keepsContract_none maxSize _ unused⟩
  | some d =>
      constructor
      · rintro keeps s ⟨_, same, visited⟩ broken
        obtain rfl := Option.some.inj same
        obtain ⟨t, done⟩ := bzunzipStep_of_breaksOff bzip sink inlen maxSize stale broken
        obtain ⟨fuel, result⟩ := visited.to_run done
        have ended := ((keeps.1 fuel _ result).whole rfl).1
        cases ended
      · intro whole
        have keeps := keepsContract_of_pass maxSize (fun s => s.Level maxSize) (fun s level => level)
          (fun s visited level => bzunzipStep_level bzip sink inlen maxSize stale s level (whole s ⟨d, rfl, visited⟩))
          (.start maxSize d inlen obj false)
        exact ⟨keeps.1, fun s ⟨_, same, visited⟩ => keeps.2 s (Option.some.inj same ▸ visited)⟩

end

/-! ### brotli -/

section

variable {δ ω : Type} (brotli : StreamDecoder BrStatus δ) (sink : UncompSink ω) (inlen : Nat) (maxSize : Int)
  (stale : Nat → UInt8)

theorem brHave_of_size {outSize produced : Nat} (size : outSize = fileBufferSize) (fits : produced ≤ outSize) :
    brHave outSize produced = produced := by
  subst size
  unfold brHave u32 fileBufferSize at *
  omega

/-- Of a buffer of another size the loop takes a part to be filled that the decoder, without output, did not fill. -/
theorem brHave_pos {outSize : Nat} (other : outSize ≠ fileBufferSize) (bound : outSize < 4294967296) :
    0 < brHave outSize 0 := by
  unfold brHave u32 fileBufferSize at *
  omega

theorem outBuffer_lt {sink : UncompSink ω} {s buf : ω} {outSize : Nat}
    (given : outBuffer sink fileBufferSize s = (some outSize, buf)) : outSize < 4294967296 := by
  unfold outBuffer at given
  split at given
  case h_1 =>
    cases given
    decide
  case h_2 get _ =>
    obtain ⟨n, -, rfl⟩ := Option.map_eq_some_iff.1 (congrArg Prod.fst given)
    exact n.toNat_lt

/-- The states of the sink that passes over buffers of `kFileBufferSize` bytes lead to. -/
inductive SinkReached (sink : UncompSink ω) (obj : ω) : ω → Prop where
  | first : SinkReached sink obj obj
  | pass {s buf : ω} {out : Bytes} (before : SinkReached sink obj s)
      (given : outBuffer sink fileBufferSize s = (some fileBufferSize, buf)) (fits : out.length ≤ fileBufferSize)
      (taken : u32 (sink.writefunc buf out).1 = out.length) : SinkReached sink obj (sink.writefunc buf out).2

/-- Every buffer has the size that `Br_Decompress` counts with. -/
def OwnSize (sink : UncompSink ω) (obj : ω) : Prop :=
  ∀ s, SinkReached sink obj s → ∀ outSize buf, outBuffer sink fileBufferSize s = (some outSize, buf) →
    outSize = fileBufferSize

theorem brDecompressStep_level {obj : ω} (own : OwnSize sink obj) (s : Uncomp δ ω)
    (inv : s.Level maxSize ∧ SinkReached sink obj s.sink) :
    (brDecompressStep brotli sink inlen maxSize stale s).All (fun t => t.Level maxSize ∧ SinkReached sink obj t.sink)
      (fun r => r.Contract maxSize) := by
  obtain ⟨level, reached⟩ := inv
  unfold brDecompressStep
  split
  case h_1 => exact level.left _ fun same => by cases same
  case h_2 outSize buf given =>
    obtain rfl := own s.sink reached outSize buf given
    have fits := brotli.fits s.decoder s.availIn fileBufferSize
    generalize brotli.call s.decoder s.availIn fileBufferSize = called at fits
    have written := handOut_level sink inlen stale (decide (called.1 = .success)) called.2.2.1
      (s := { s with sink := buf, availIn := called.2.1, decoder := called.2.2.2 })
      ⟨level.inside, level.handed, level.counted, level.within⟩
    dsimp only
    rw [brHave_of_size rfl fits]
    refine written.bind fun t ⟨level, after⟩ => ?_
    have reached' : SinkReached sink obj t.sink := after.sink ▸ reached.pass given fits after.taken
    split
    case h_1 =>
      split
      · exact level.left _ fun same => by cases same
      · exact ⟨level, reached'⟩
    case h_2 => exact ⟨level, reached'⟩
    case h_3 ended => exact level.left _ fun _ => decide_eq_true ended
    case h_4 => exact level.left _ fun same => by cases same

/-- A decoder that gives the listed outputs one by one, and then fails. -/
def listedOutputs : StreamDecoder BrStatus (List Bytes) where
  call d _ room :=
    match d with
    | [] => (.error, 0, [], [])
    | out :: rest => (.needsMoreOutput, 0, out.take room, rest)
  fits d _ room := by
    cases d with
    | nil => exact Nat.zero_le _
    | cons out rest => exact (List.length_take_le room out)

/-- A state of the sink is reached with a decoder that replays what was written. -/
theorem SinkReached.replayed {sink : UncompSink ω} {obj s : ω} (reached : SinkReached sink obj s) :
    ∃ outs, ∀ rest, ∃ t, Visits (brDecompressStep listedOutputs sink inlen 0 stale) (.start (outs ++ rest) inlen obj false) t ∧
      t.decoder = rest ∧ t.sink = s := by
  induction reached with
  | first => exact ⟨[], fun rest => ⟨_, .here _, rfl, rfl⟩⟩
  | @pass s buf out before given fits taken ih =>
      obtain ⟨outs, replays⟩ := ih
      refine ⟨outs ++ [out], fun rest => ?_⟩
      obtain ⟨t, visited, decoder, rfl⟩ := replays (out :: rest)
      have whole : out.take fileBufferSize = out := List.take_of_length_le fits
      obtain ⟨u, next, written⟩ := handOut_next
        (s := { t with sink := buf, availIn := 0, decoder := rest }) inlen 0 stale
        (decide (BrStatus.needsMoreOutput = .success)) (by unfold canWrite; exact if_neg fun limit => by omega) taken
      have pass : brDecompressStep listedOutputs sink inlen 0 stale t = .next u := by
        simp only [brDecompressStep, given, decoder, listedOutputs, whole, brHave_of_size rfl fits, next, Step.bind]
      refine ⟨u, ?_, written.decoder, written.sink⟩
      rw [List.append_assoc]
      exact visited.snoc pass

/-- A buffer of another size is read where the decoder has put nothing. -/
theorem brDecompressStep_overread {sink : UncompSink ω} {s : Uncomp (List Bytes) ω} {outSize : Nat} {buf : ω}
    (replayed : s.decoder = []) (given : outBuffer sink fileBufferSize s.sink = (some outSize, buf))
    (other : outSize ≠ fileBufferSize) (bound : outSize < 4294967296) :
    ∃ out, brDecompressStep listedOutputs sink inlen 0 stale s = .done out ∧ out.trace.overread = true := by
  have pos := brHave_pos other bound
  simp only [brDecompressStep, given, replayed, listedOutputs, List.length_nil]
  generalize brHave outSize 0 = count at pos
  have uncut : canWrite 0 s.size count = count := by
    unfold canWrite
    exact if_neg fun limit => by omega
  simp only [handOut, uncut, Nat.lt_irrefl, if_false, List.length_nil, pos, decide_true, Bool.or_true]
  split
  · exact ⟨_, rfl, rfl⟩
  · exact ⟨_, rfl, rfl⟩

/-- `Br_Decompress` keeps the contract for every decoder just when its sink gives it buffers of its own size. -/
theorem brDecompress_keepsContract_iff (obj : ω) :
    (∀ (δ : Type) (brotli : StreamDecoder BrStatus δ) (d : δ) (inlen : Nat) (maxSize : Int) (stale : Nat → UInt8),
        KeepsContract maxSize (fun fuel => brDecompress brotli sink inlen maxSize stale fuel d obj)
          (Visits (brDecompressStep brotli sink inlen maxSize stale) (.start d inlen obj false))) ↔
      OwnSize sink obj := by
  constructor
  · intro keeps s reached outSize buf given
    by_contra other
    obtain ⟨outs, replays⟩ := reached.replayed 0 fun _ => 0
    obtain ⟨t, visited, replayed, rfl⟩ := replays []
    obtain ⟨out, done, overread⟩ := brDecompressStep_overread 0 (fun _ => 0) replayed given other (outBuffer_lt given)
    obtain ⟨fuel, result⟩ := visited.to_run done
    have inside := ((keeps _ listedOutputs (outs ++ []) 0 0 fun _ => 0).1 fuel out result).kept.inside
    rw [overread] at inside
    cases inside
  · intro own δ brotli d inlen maxSize stale
    exact keepsContract_of_pass maxSize (fun s => s.Level maxSize ∧ SinkReached sink obj s.sink) (fun s inv => inv.1)
      (fun s _ => brDecompressStep_level brotli sink inlen maxSize stale own s)
      ⟨.start maxSize d inlen obj false, .first⟩

end

/-- The three functions and their contract. -/
theorem uncompress_contract {ω : Type} (sink : UncompSink ω) (obj : ω) :
    (∀ (δ : Type) (zlib : StreamDecoder ZStatus δ) (init raw : Option δ) (inlen : Nat) (maxSize : Int)
        (stale : Nat → UInt8),
      KeepsContract maxSize (fun fuel => ciMemInflate zlib raw sink inlen maxSize stale fuel init obj)
        (inflatePasses zlib raw sink inlen maxSize stale init obj)) ∧
    (∀ (δ : Type) (bzip : StreamDecoder BzStatus δ) (init : Option δ) (inlen : Nat) (maxSize : Int)
        (stale : Nat → UInt8),
      KeepsContract maxSize (fun fuel => ciMemBzunzip bzip sink inlen maxSize stale fuel init obj)
          (bzunzipPasses bzip sink inlen maxSize stale init obj) ↔
        ∀ s, bzunzipPasses bzip sink inlen maxSize stale init obj s → ¬ BzBreaksOff bzip sink maxSize s) ∧
    ((∀ (δ : Type) (brotli : StreamDecoder BrStatus δ) (d : δ) (inlen : Nat) (maxSize : Int) (stale : Nat → UInt8),
      KeepsContract maxSize (fun fuel => brDecompress brotli sink inlen maxSize stale fuel d obj)
        (Visits (brDecompressStep brotli sink inlen maxSize stale) (.start d inlen obj false))) ↔
      OwnSize sink obj) :=
  ⟨fun _ zlib init raw inlen maxSize stale => ciMemInflate_keepsContract zlib raw sink inlen maxSize stale init obj,
    fun _ bzip init inlen maxSize stale => ciMemBzunzip_keepsContract_iff bzip sink inlen maxSize stale init obj,
    brDecompress_keepsContract_iff sink obj⟩

/-- A bzip2 decoder on a stream that is cut off behind its first byte of output. -/
def truncatedStream : StreamDecoder BzStatus Bool where
  call first _ room := if first then (.ok, 0, [66].take room, false) else (.ok, 0, [], false)
  fits first _ room := by
    cases first with
    | false => exact Nat.zero_le _
    | true => exact List.length_take_le room [66]

/-- A sink that takes every byte, with buffers of the given size. -/
def takingSink (size : Option UInt32) : UncompSink Unit where
  getOutbuf := size.map fun n _ => (some n, ())
  writefunc _ data := (data.length, ())

/-- The truncated stream is reported as decompressed, and of a buffer of 16383 bytes a byte is handed on that no decoder
has put there. -/
theorem truncated_stream_accepted :
    (ciMemBzunzip truncatedStream (takingSink none) 40 0 (fun _ => 0) 1 (some true) ()).map (fun out => (out.ret, out.ended)) =
        some (.ok, false) ∧
      (brDecompress listedOutputs (takingSink (some 16383)) 40 0 (fun _ => 7) 1 [] ()).map
          (fun out => (out.trace.produced, out.trace.handed)) =
        some ([], [7]) := by
  decide +kernel

end IcapService
