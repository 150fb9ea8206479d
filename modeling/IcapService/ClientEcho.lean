import IcapService.ClientRequest
import IcapService.EchoService

/-! A client and the echo service: what the one writes is what the other reads. -/

namespace IcapService

open CString Machine Chunked Client

variable {fresh : Nat → UInt8} {conf : ClientConf} {c s : Client} {reqHeaders respHeaders : Option HeadersList}
variable {source : List SourceData}

/-- The header blocks of a request. -/
def Client.blocksText (fresh : Nat → UInt8) (s : Client) : Bytes :=
  (s.started fresh).requestHeader.content ++
    ((s.started fresh).headText .reqHdr ++ (s.started fresh).headText .resHdr)

theorem Client.frontText_split (fresh : Nat → UInt8) (s : Client) :
    s.frontText fresh = s.blocksText fresh ++ s.previewText := by
  obtain ⟨-, pending⟩ := (s.ciRequestPack fresh).display_loaded (s.ciRequestPack fresh).requestHeader.content
    .writeIcapHeaders
  have ahead : (s.started fresh).ahead =
      (s.started fresh).headText .reqHdr ++ ((s.started fresh).headText .resHdr ++ s.previewText) := rfl
  have first : (s.started fresh).write.pending = (s.started fresh).requestHeader.content := pending
  rw [frontText, first, ahead, blocksText]
  simp only [List.append_assoc]

/-- A server behind the header blocks of the client's request: it has the rest of what the client writes, and what the
client writes behind the answer to a preview comes when it asks for it. -/
structure Setting.Receives (S : Setting EchoState) (q : Exchange (RequestData EchoState)) (fresh : Nat → UInt8)
    (s : Client) : Prop where
  asked : S.info.preview = if s.preview < 0 then none else some s.preview.toNat
  wire : s.blocksText fresh ++ (q.read.unread ++ q.conn.input) =
    s.frontText fresh ++ if s.preview < 0 then s.bodyText else []
  held : q.conn.held = if s.preview < 0 then [] else s.bodyText

variable {S : Setting EchoState} {q : Exchange (RequestData EchoState)}

/-- The service is given the data of the client's source, a part of it in a preview. -/
theorem Setting.Receives.carries (receives : S.Receives q fresh s)
    (prepared : c.prepareHeaders fresh conf reqHeaders respHeaders = some s) (has : c.source = some source)
    (open_ : c.eofSent = false) (small : c.preview + 2 < 2147483648) (gives : GivesPreview c.preview.toNat source)
    (works : sourceFails source = false) (room : c.preview ≤ S.size) :
    ∃ front body interim, S.Carries q front body interim ∧ front ++ body = sourceData source ∧
      front.length ≤ c.preview.toNat ∧ (interim = [] ∨ interim = continueText) := by
  obtain ⟨asked, wire, held⟩ := receives
  rw [frontText_split, List.append_assoc] at wire
  have stream := List.append_cancel_left wire
  by_cases plain : c.preview < 0
  · obtain ⟨negative, none, k, fits, code, body, -⟩ := plain_coding prepared has open_ plain works
    rw [if_pos negative] at asked
    rw [if_pos negative, none, List.nil_append, ← code] at stream
    exact ⟨[], k.body, [], .plain k fits asked stream, body, Nat.zero_le _, .inl rfl⟩
  · obtain ⟨asks, less, front, fits, code, size, ways⟩ :=
      previewed_coding prepared has open_ (Int.not_lt.mp plain) small gives works
    rw [if_neg (Int.not_lt.mpr asks)] at asked held
    rw [if_neg (Int.not_lt.mpr asks), List.append_nil, ← code] at stream
    have short : front.body.length ≤ c.preview.toNat := by omega
    have fitting : front.body.length ≤ S.size := by omega
    rcases ways with ⟨final, -, body⟩ | ⟨more, k, fits', code', body⟩
    · exact ⟨front.body, [], [], .complete front _ fits asked fitting stream final, (List.append_nil _).trans body,
        short, .inl rfl⟩
    · rw [← code'] at held
      exact ⟨front.body, k.body, continueText, .continued front k _ fits asked fitting stream more fits' held, body,
        short, .inr rfl⟩

/-- The echo service answers a request of the client with exactly the data of the client's source: with a preview or
without one, in whatever pieces the socket takes and gives the bytes, unless the schedule ends before. -/
theorem client_echoed (svc : S.svc = echoService)
    (prepared : c.prepareHeaders fresh conf reqHeaders respHeaders = some s) (has : c.source = some source)
    (open_ : c.eofSent = false) (gives : GivesPreview c.preview.toNat source) (works : sourceFails source = false)
    (small : c.preview ≤ echoBodySize) (room : c.preview ≤ S.size) (hasbody : S.info.hasbody = true)
    (enough : 2 * bufsize + 1 < S.fuel) (echoable : S.Echoable q) (receives : S.Receives q fresh s)
    (takes : q.data.service.whattodo = false) :
    ∃ n out interim, S.doRequest n q = some out ∧ (interim = [] ∨ interim = continueText) ∧
      S.Echoes (q.conn.output ++ interim) (sourceData source) out := by
  have limit : (echoBodySize : Int) + 2 < 2147483648 := by decide
  obtain ⟨front, body, interim, carries, whole, short, way⟩ :=
    receives.carries prepared has open_ (by omega) gives works room
  obtain ⟨n, out, result, echoes⟩ := (echo_enters svc hasbody enough echoable carries (.inl takes)).request
  have kept : front.take echoBodySize = front := List.take_of_length_le (by omega)
  rw [kept, whole] at echoes
  exact ⟨n, out, interim, result, way, echoes⟩

/-- A server behind the header blocks of a request with a preview. -/
def askedSetting (s : Client) : Setting EchoState :=
  { echoSetting with info := ⟨true, if s.preview < 0 then none else some s.preview.toNat, false, false⟩ }

def askedRequest (s : Client) : Exchange (RequestData EchoState) :=
  .fresh [] ⟨s.previewText, s.bodyText, [], .replicate 8 (.ready (some (.bytes 9)) (some (.bytes 30)))⟩
    ⟨⟨false, echoInitRequestData true⟩, none⟩ true

theorem askedRequest_echoable (s : Client) : (askedSetting s).Echoable (askedRequest s) where
  atBody :=
    have start : (ReadSide.bodyStart []).AtBody := ⟨⟨by decide, by decide, by decide⟩, rfl, rfl, rfl⟩
    start
  small :=
    have empty : (ReadSide.bodyStart []).unread.length ≤ bufsize := by decide
    empty
  open_ := rfl
  fresh := rfl
  plain := rfl
  data := rfl
  nothing := rfl
  idle := rfl
  ready := echoRequest_echoable.ready
  steady := echoRequest_echoable.steady

theorem askedRequest_receives {s : Client} (fresh : Nat → UInt8) (asks : 0 ≤ s.preview) :
    (askedSetting s).Receives (askedRequest s) fresh s where
  asked := rfl
  wire := by
    rw [if_neg (Int.not_lt.mpr asks), List.append_nil, frontText_split]
    rfl
  held := (if_neg (Int.not_lt.mpr asks)).symm

theorem client_echoed_asking :
    ∃ s, asking.prepareHeaders (fun _ => 0) askingConf none none = some s ∧
      ∃ n out interim, (askedSetting s).doRequest n (askedRequest s) = some out ∧
        (interim = [] ∨ interim = continueText) ∧ (askedSetting s).Echoes interim (ascii "abc") out := by
  have works : (asking.prepareHeaders (fun _ => 0) askingConf none none).isSome := by
    rw [prepareHeaders, Option.isSome_map]
    rfl
  obtain ⟨s, prepared⟩ := Option.isSome_iff_exists.mp works
  have gives : GivesPreview 2 [.bytes (ascii "abc")] := .inl (by decide)
  obtain ⟨asks, -⟩ := previewed_coding prepared rfl rfl (by decide) (by decide) gives rfl
  have room : asking.preview ≤ echoSetting.size := by decide
  have enough : 2 * bufsize + 1 < echoSetting.fuel := by decide
  exact ⟨s, prepared, @client_echoed (fun _ => 0) askingConf asking s none none [.bytes (ascii "abc")] (askedSetting s)
    (askedRequest s) rfl prepared rfl rfl gives rfl (by decide) room rfl enough (askedRequest_echoable s)
    (askedRequest_receives _ asks) rfl⟩

end IcapService
