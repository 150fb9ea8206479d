import IcapService.Lib.Words

/-! The directives of `txt_format.c`, and how one is found in a format.

A handler gets the address and the length of the space it may write to, and returns how many bytes it has used or
needed. -/

namespace IcapService

open CString

/-- An address as `ci_sockaddr_t_to_ip` writes it. -/
structure IpText where
  bytes : Bytes
  short : bytes.length < 46

/-- A header: its first line, and the value of a field. -/
structure HeaderView where
  first : Option Bytes
  value : Bytes → Option Bytes

/-- What the handlers of the internal table read of a request and of the clock. -/
structure FmtRequest where
  remoteIp : Option IpText
  localIp : Option IpText
  method : Bytes
  service : Bytes
  user : Bytes
  args : Bytes
  localtime : Bytes → Bytes
  gmttime : Bytes → Bytes
  /-- What `strftime` leaves of a text that does not fit. -/
  spilled : Bytes
  seconds : Int
  icapStatus : Int
  icapRequest : HeaderView
  icapResponse : HeaderView
  xheaders : Option HeaderView
  httpRequest : Option HeaderView
  httpResponse : Option HeaderView
  bytesIn : Int
  bytesOut : Int
  httpBytesIn : Int
  httpBytesOut : Int
  bodyBytesIn : Int
  bodyBytesOut : Int
  preview : Int
  previewData : Bytes
  logStr : Option Bytes
  attributes : Bytes → Option Bytes

/-- An entry of a table. `name` is the directive behind its first byte, and `σ` is all that the handlers read and
may change besides the memory. -/
structure FmtEntry (σ : Type) where
  name : Bytes
  format : σ → Mem → Nat → Nat → Bytes → Int × Mem × σ
  within : ∀ st m addr len param a, a < addr ∨ addr + len ≤ a → (format st m addr len param).2.1 a = m a

/-! ### The texts of the handlers -/

/-- The loop that copies a string. -/
def copyText (text : Bytes) (len : Nat) : Int × Bytes := ((text.take len).length, text.take len)

/-- `snprintf` of a text. -/
def snprintfText (text : Bytes) (len : Nat) : Int × Bytes :=
  (text.length, if len = 0 then [] else text.take (len - 1) ++ [0])

def decimalText (n : Int) : Bytes := if n < 0 then 45 :: digitsText 10 n.natAbs else digitsText 10 n.natAbs

/-- A single character, if there is space for it. -/
def oneByte (c : UInt8) (len : Nat) : Int × Bytes := if len = 0 then (0, []) else (1, [c])

def headerEnd (c : UInt8) : Bool := c == 0 || c == 10 || c == 13

/-- The line of a header up to its end, or a dash. -/
def headerText (line : Option Bytes) (len : Nat) : Int × Bytes :=
  if len = 0 then (0, [])
  else
    match line with
    | some s => copyText (s.takeWhile (fun c => !headerEnd c)) len
    | none => (1, [45])

/-- `fmt_none`. -/
def fmtNone (len : Nat) : Int × Bytes := oneByte 45 len

/-- `fmt_percent`. -/
def fmtPercent (len : Nat) : Int × Bytes := oneByte 37 len

/-- `fmt_remoteip` and `fmt_localip`. -/
def fmtIp (ip : Option IpText) (len : Nat) : Int × Bytes :=
  if len < 46 then (0, [])
  else
    let text := (ip.map (·.bytes)).getD [45]
    (text.length, text ++ [0])

/-- `fmt_request`. -/
def fmtRequest (q : FmtRequest) (len : Nat) : Int × Bytes :=
  copyText (if q.args = [] then q.service else q.service ++ 63 :: q.args) len

/-- `fmt_localtime` and `fmt_gmttime`, with the default format of each. -/
def fmtTime (time : Bytes → Bytes) (spilled default param : Bytes) (len : Nat) : Int × Bytes :=
  if len = 0 then (0, [])
  else
    let text := time (if param = [] then default else param)
    if text.length < len then (text.length, text ++ [0]) else (0, spilled.take len)

/-- `ci_http_request_url`; `bufSize` is positive. -/
def ciHttpRequestUrl (heads : Option HeaderView) (bufSize : Nat) : Int × Bytes :=
  match heads.bind (·.first) with
  | none => (0, [])
  | some line =>
      let str := line.dropWhile (· != 32)
      if str = [] then (0, [])
      else
        let str := str.dropWhile (· == 32)
        let host :=
          match str.head?, heads.bind (·.value (ascii "Host")) with
          | some 47, some host => (host.takeWhile (fun c => !headerEnd c && !isSpace c)).take (bufSize - 1)
          | _, _ => []
        let url := (str.takeWhile (fun c => !headerEnd c && !isSpace c && c != 63)).take (bufSize - host.length - 1)
        ((host.length + url.length : Nat), host ++ url ++ [0])

/-- `fmt_http_req_url_o`. -/
def fmtHttpReqUrlO (q : FmtRequest) (len : Nat) : Int × Bytes :=
  if len = 0 then (0, []) else ciHttpRequestUrl q.httpRequest len

/-- The line or field of a header that the parameter asks for. -/
def HeaderView.asked (h : HeaderView) (param : Bytes) : Option Bytes := if param = [] then h.first else h.value param

/-- `fmt_icap_res_head`; a field may also be one of the headers that are sent besides. -/
def fmtIcapResHead (q : FmtRequest) (param : Bytes) (len : Nat) : Int × Bytes :=
  let s := q.icapResponse.asked param
  headerText (if param ≠ [] ∧ s = none then q.xheaders.bind (·.value param) else s) len

/-- `fmt_req_preview_len`. -/
def fmtReqPreviewLen (q : FmtRequest) (len : Nat) : Int × Bytes :=
  if len = 0 then (0, [])
  else if 0 ≤ q.preview then snprintfText (decimalText q.previewData.length) len
  else (1, [45])

/-- `%X` of a byte. -/
def hexByte (c : UInt8) : Bytes := (hexText c.toNat).map (fun d => if 97 ≤ d then d - 32 else d)

/-- The loop of `fmt_req_preview_hex`; what is printed for a byte of the preview that is not printable is the byte of
the buffer at its place. -/
def previewHex (addr : Nat) (num : Int) : Bytes → Mem → Nat → Nat → Nat → Int × Mem
  | [], m, _, n, _ => (n, m)
  | c :: rest, m, i, n, len =>
      if i < num ∧ 0 < len then
        if 32 ≤ c ∧ c ≤ 126 then previewHex addr num rest (m.store (addr + n) [c]) (i + 1) (n + 1) (len - 1)
        else
          let out := snprintfText (ascii "\\x" ++ hexByte (m (addr + i))) len
          let bytes := min out.1.toNat len
          previewHex addr num rest (m.store (addr + n) out.2) (i + 1) (n + bytes) (len - bytes)
      else (n, m)

/-- `fmt_req_preview_hex`. -/
def fmtReqPreviewHex (q : FmtRequest) (m : Mem) (addr len : Nat) (param : Bytes) : Int × Mem :=
  if len = 0 then (0, m)
  else if q.previewData = [] then (1, m.store addr [45])
  else previewHex addr (CInt.wrap32 (strtol 10 param).1) q.previewData m 0 0 len

/-! ### They fit the space -/

theorem copyText_fits (text : Bytes) (len : Nat) : (copyText text len).2.length ≤ len := List.length_take_le _ _

theorem snprintfText_fits (text : Bytes) (len : Nat) : (snprintfText text len).2.length ≤ len := by
  simp only [snprintfText]
  split
  · exact Nat.zero_le _
  · simp only [List.length_append, List.length_take, List.length_singleton]
    omega

theorem oneByte_fits (c : UInt8) (len : Nat) : (oneByte c len).2.length ≤ len := by
  simp only [oneByte]
  split
  · exact Nat.zero_le _
  · rename_i space
    exact Nat.pos_of_ne_zero space

theorem headerText_fits (line : Option Bytes) (len : Nat) : (headerText line len).2.length ≤ len := by
  simp only [headerText]
  split
  · exact Nat.zero_le _
  · split
    · exact copyText_fits _ _
    · rename_i space _
      exact Nat.pos_of_ne_zero space

theorem fmtIp_fits (ip : Option IpText) (len : Nat) : (fmtIp ip len).2.length ≤ len := by
  simp only [fmtIp]
  split
  · exact Nat.zero_le _
  · cases ip with
    | none =>
        simp only [Option.map_none, Option.getD_none, List.length_append, List.length_singleton]
        omega
    | some text =>
        have short := text.short
        simp only [Option.map_some, Option.getD_some, List.length_append, List.length_singleton]
        omega

theorem fmtTime_fits (time : Bytes → Bytes) (spilled default param : Bytes) (len : Nat) :
    (fmtTime time spilled default param len).2.length ≤ len := by
  simp only [fmtTime]
  generalize time (if param = [] then default else param) = text
  split
  · exact Nat.zero_le _
  · split
    · simp only [List.length_append, List.length_singleton]
      omega
    · exact List.length_take_le _ _

theorem ciHttpRequestUrl_fits (heads : Option HeaderView) (bufSize : Nat) (positive : 0 < bufSize) :
    (ciHttpRequestUrl heads bufSize).2.length ≤ bufSize := by
  simp only [ciHttpRequestUrl]
  split
  · exact Nat.zero_le _
  · split
    · exact Nat.zero_le _
    · split
      · simp only [List.length_append, List.length_take, List.length_singleton]
        omega
      · simp only [List.length_append, List.length_take, List.length_singleton, List.length_nil]
        omega

theorem fmtHttpReqUrlO_fits (q : FmtRequest) (len : Nat) : (fmtHttpReqUrlO q len).2.length ≤ len := by
  simp only [fmtHttpReqUrlO]
  split
  · exact Nat.zero_le _
  · rename_i space
    exact ciHttpRequestUrl_fits _ _ (Nat.pos_of_ne_zero space)

theorem fmtReqPreviewLen_fits (q : FmtRequest) (len : Nat) : (fmtReqPreviewLen q len).2.length ≤ len := by
  simp only [fmtReqPreviewLen]
  split
  · exact Nat.zero_le _
  · split
    · exact snprintfText_fits _ _
    · rename_i space _
      exact Nat.pos_of_ne_zero space

/-- The loop stays between the bytes written and the end of the space. -/
theorem previewHex_within (addr : Nat) (num : Int) (data : Bytes) (m : Mem) (i n len a : Nat)
    (outside : a < addr + n ∨ addr + n + len ≤ a) : (previewHex addr num data m i n len).2 a = m a := by
  induction data generalizing m i n len with
  | nil => rfl
  | cons c rest ih =>
      rw [previewHex]
      split
      · rename_i space
        split
        · rw [ih _ _ _ _ (by omega)]
          exact Mem.store_apart _ _ _ (by simp only [List.length_singleton]; omega)
        · have fits := snprintfText_fits (ascii "\\x" ++ hexByte (m (addr + i))) len
          dsimp only
          rw [ih _ _ _ _ (by omega)]
          exact Mem.store_apart _ _ _ (by omega)
      · rfl

theorem fmtReqPreviewHex_within (q : FmtRequest) (m : Mem) (addr len : Nat) (param : Bytes) (a : Nat)
    (outside : a < addr ∨ addr + len ≤ a) : (fmtReqPreviewHex q m addr len param).2 a = m a := by
  simp only [fmtReqPreviewHex]
  split
  · rfl
  · split
    · exact Mem.store_apart _ _ _ (by simp only [List.length_singleton]; omega)
    · exact previewHex_within _ _ _ _ _ _ _ _ (by omega)

/-! ### The internal table -/

variable {σ : Type}

/-- An entry whose handler writes a text to the front of its space. -/
def FmtEntry.ofText (name : Bytes) (view : σ → FmtRequest) (text : FmtRequest → Bytes → Nat → Int × Bytes)
    (fits : ∀ q param len, (text q param len).2.length ≤ len) : FmtEntry σ where
  name := name
  format st m addr len param :=
    let out := text (view st) param len
    (out.1, m.store addr out.2, st)
  within st m addr len param a outside := by
    have short := fits (view st) param len
    exact Mem.store_apart _ _ _ (by omega)

/-- An entry that prints a number. -/
def FmtEntry.ofNumber (name : Bytes) (view : σ → FmtRequest) (number : FmtRequest → Int) : FmtEntry σ :=
  .ofText name view (fun q _ len => snprintfText (decimalText (number q)) len) (fun _ _ len => snprintfText_fits _ len)

/-- An entry that copies a string. -/
def FmtEntry.ofString (name : Bytes) (view : σ → FmtRequest) (text : FmtRequest → Bytes → Bytes) : FmtEntry σ :=
  .ofText name view (fun q param len => copyText (text q param) len) (fun _ _ len => copyText_fits _ len)

/-- An entry that shows a line or a field of a header. -/
def FmtEntry.ofHeader (name : Bytes) (view : σ → FmtRequest) (line : FmtRequest → Bytes → Option Bytes) : FmtEntry σ :=
  .ofText name view (fun q param len => headerText (line q param) len) (fun _ _ len => headerText_fits _ len)

/-- An entry of a directive that is not implemented. -/
def FmtEntry.ofNone (name : Bytes) (view : σ → FmtRequest) : FmtEntry σ :=
  .ofText name view (fun _ _ len => fmtNone len) (fun _ _ len => oneByte_fits _ len)

/-- `GlobalTable`. -/
def globalTable (view : σ → FmtRequest) : List (FmtEntry σ) :=
  [.ofText (ascii "a") view (fun q _ len => fmtIp q.remoteIp len) (fun _ _ _ => fmtIp_fits _ _),
    .ofText (ascii "la") view (fun q _ len => fmtIp q.localIp len) (fun _ _ _ => fmtIp_fits _ _),
    .ofNone (ascii "lp") view,
    .ofHeader (ascii ">a") view (fun q _ => q.icapRequest.value (ascii "X-Client-IP")),
    .ofHeader (ascii "<A") view (fun q _ => q.icapRequest.value (ascii "X-Server-IP")),
    .ofNumber (ascii "ts") view FmtRequest.seconds,
    .ofText (ascii "tl") view (fun q param len => fmtTime q.localtime q.spilled (ascii "%d/%b/%Y:%H:%M:%S %z") param len)
      (fun _ _ _ => fmtTime_fits _ _ _ _ _),
    .ofText (ascii "tg") view (fun q param len => fmtTime q.gmttime q.spilled (ascii "%d/%b/%Y:%H:%M:%S") param len)
      (fun _ _ _ => fmtTime_fits _ _ _ _ _),
    .ofNone (ascii "tr") view,
    .ofNone (ascii ">hi") view,
    .ofHeader (ascii ">ho") view (fun q param => q.httpRequest.bind (·.asked param)),
    .ofText (ascii "huo") view (fun q _ len => fmtHttpReqUrlO q len) (fun _ _ _ => fmtHttpReqUrlO_fits _ _),
    .ofNone (ascii "hu") view,
    .ofNone (ascii "<hi") view,
    .ofHeader (ascii "<ho") view (fun q param => q.httpResponse.bind (·.asked param)),
    .ofNone (ascii "Hs") view,
    .ofNone (ascii "Hso") view,
    .ofText (ascii "iu") view (fun q _ len => fmtRequest q len) (fun _ _ _ => copyText_fits _ _),
    .ofString (ascii "im") view (fun q _ => q.method),
    .ofNumber (ascii "is") view FmtRequest.icapStatus,
    .ofHeader (ascii ">ih") view (fun q param => q.icapRequest.asked param),
    .ofText (ascii "<ih") view (fun q param len => fmtIcapResHead q param len) (fun _ _ _ => headerText_fits _ _),
    .ofText (ascii "ipl") view (fun q _ len => fmtReqPreviewLen q len) (fun _ _ _ => fmtReqPreviewLen_fits _ _),
    .ofNumber (ascii "Ih") view FmtRequest.httpBytesIn,
    .ofNumber (ascii "Oh") view FmtRequest.httpBytesOut,
    .ofNumber (ascii "Ib") view FmtRequest.bodyBytesIn,
    .ofNumber (ascii "Ob") view FmtRequest.bodyBytesOut,
    .ofNumber (ascii "I") view FmtRequest.bytesIn,
    .ofNumber (ascii "O") view FmtRequest.bytesOut,
    { name := ascii "bph"
      format := fun st m addr len param =>
        let out := fmtReqPreviewHex (view st) m addr len param
        (out.1, out.2, st)
      within := fun st m addr len param a outside => fmtReqPreviewHex_within (view st) m addr len param a outside },
    .ofString (ascii "un") view (fun q _ => q.user),
    .ofString (ascii "Sl") view (fun q _ => q.logStr.getD []),
    .ofString (ascii "Sa") view (fun q param => (q.attributes param).getD []),
    .ofText (ascii "%") view (fun _ _ len => fmtPercent len) (fun _ _ _ => oneByte_fits _ _)]

/-! ### Directives in a format -/

/-- What `parse_directive` finds behind a `%`. -/
structure Directive where
  paramsLen : Nat
  width : Nat
  leftAlign : Bool
  parameter : Bytes

/-- `parse_directive`, from the byte behind the `%` on; a parameter has at most 255 bytes. -/
def parseDirective (s : Bytes) : Directive :=
  let leftAlign := s.head? == some 45
  let at_ := if leftAlign then 1 else 0
  let num := strtol 10 (s.drop at_)
  let width := if num.2 = 0 then 0 else CInt.u32 num.1
  let s := s.drop (at_ + num.2)
  if s.head? = some 123 then
    let parameter := ((s.drop 1).takeWhile (· != 125)).take 255
    if (s.drop (1 + parameter.length)).head? = some 125 then
      ⟨1 + at_ + num.2 + 1 + parameter.length + 1, width, leftAlign, parameter⟩
    else ⟨0, width, leftAlign, parameter⟩
  else ⟨1 + at_ + num.2, width, leftAlign, []⟩

/-- `check_tables`, from a `%` on: the entry of the directive and its length, with its width and parameter. -/
def checkTables (view : σ → FmtRequest) (user : List (FmtEntry σ)) (var : Bytes) :
    Option (FmtEntry σ × Nat) × Directive :=
  let d := parseDirective (var.drop 1)
  let rest := var.drop d.paramsLen
  -- `check_directive`
  (((globalTable view ++ user).find? fun e => e.name.isPrefixOf rest).map fun e => (e, d.paramsLen + e.name.length), d)

end IcapService
