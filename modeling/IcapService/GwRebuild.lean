import IcapService.DoRequest
import IcapService.SimpleApi
import IcapService.SimpleFile

/-! The `gw_rebuild` service: the body is stored in a file, a proxy program rebuilds it into another
one, and the rebuilt file, the stored one or an error page is sent. -/

namespace IcapService

open CString CInt

/-- The values of `gw_proxy_api_return`. -/
def gwUnprocessed : Int := 0
def gwRebuilt : Int := 1
def gwFailed : Int := 2
def gwError : Int := 9

/-- A run of the proxy program: its exit status, or `GW_ERROR` where there is none, and the bytes it left
in the output file, unless the size of that file cannot be obtained. -/
structure ProxyResult where
  status : Int
  output : Option Bytes
  deriving DecidableEq

/-- The error page that the templates give, and its language. -/
structure ErrorPage where
  text : Bytes
  lang : Option Bytes
  small : text.length < 2147483648
  plain : ∀ name ∈ lang, 0 ∉ name

def somePage : ErrorPage := ⟨ascii "<p>blocked</p>", none, by decide, by simp⟩

/-- The store and the file for the rebuilt content. -/
structure BodyData where
  store : SimpleFile
  rebuild : SimpleFile
  deriving DecidableEq

/-- `gw_body_data_new`. -/
def BodyData.new (size : Int) : BodyData := ⟨.new size, .new 0⟩

/-- The data of a request. -/
structure GwData where
  body : BodyData
  allow204 : Bool
  gwStatus : Int
  errorPage : Option Bytes
  sizelimit : Bool
  maxObjectSize : Nat
  deriving DecidableEq

namespace GwData

variable (d : GwData)

/-- `init_body_data`; the limit becomes an `int` on its way to the store. -/
def initBodyData : GwData :=
  let body := BodyData.new (if d.sizelimit then wrap32 d.maxObjectSize else 0)
  { d with body := { body with store := body.store.lockAll } }

/-- `gw_rebuild_check_preview_handler`. -/
def checkPreviewHandler (hasbody hasalldata : Bool) (preview : Bytes) : ModRet × GwData :=
  if hasbody = false then (.allow204, d)
  else
    let d := d.initBodyData
    if preview = [] then (.continue, d)
    else (.continue, { d with body := { d.body with store := (d.body.store.write preview hasalldata).2 } })

/-- `gw_rebuild_read_from_net`: the bytes taken, or nothing for `CI_ERROR`. -/
def readFromNet (data : Bytes) (iseof : Bool) : Option (Nat × GwData) :=
  if d.sizelimit ∧ d.maxObjectSize ≤ d.body.store.endpos then none
  else
    let out := d.body.store.write data iseof
    some (out.1, { d with body := { d.body with store := out.2 } })

/-- The read half of `gw_rebuild_io`. -/
def ioRead (c : IoCall) : Option (Nat × GwData) :=
  match c.offered with
  | some data => d.readFromNet data c.iseof
  | none => if c.iseof then (d.readFromNet [] true).map (fun out => (0, out.2)) else some (0, d)

/-- `gw_rebuild_io`. Where the assertion of the store fails the process ends; the answer is that of a
call that fails. -/
def gwRebuildIo (c : IoCall) : IoAnswer × GwData :=
  match d.ioRead c with
  | none => (⟨true, .untouched, 0, c.dataLocked⟩, d)
  | some (taken, d) =>
      match c.room with
      | none => (⟨false, .bytes [], taken, c.dataLocked⟩, d)
      | some len =>
          match d.body.store.read len with
          | none => (⟨true, .untouched, taken, c.dataLocked⟩, d)
          | some (none, store) => (⟨false, .eof, taken, c.dataLocked⟩, { d with body := { d.body with store := store } })
          | some (some bytes, store) =>
              (⟨false, .bytes bytes, taken, c.dataLocked⟩, { d with body := { d.body with store := store } })

end GwData

/-- `file_size`, and `refresh_externally_updated_file` on the rebuilt file: the size is an `int`. -/
def SimpleFile.refreshExternallyUpdated (f : SimpleFile) (output : Option Bytes) : Option SimpleFile :=
  match output with
  | none => none
  | some file =>
      if wrap32 file.length < 0 then none
      else some { (f.write [] true).2 with file := file, endpos := (wrap32 file.length).toNat, readpos := 0 }

def contentLength : Bytes := ascii "Content-Length"

/-- `rebuild_content_length`. -/
def rebuildContentLength (fresh : Nat → UInt8) (r : HttpSide) (body : BodyData) : HttpSide :=
  let line := ascii "Content-Length: " ++ digitsText 10 body.store.endpos
  match r.type with
  | .reqmod => (r.requestRemoveHeader contentLength).requestAddHeader fresh line
  | .respmod => (r.responseRemoveHeader contentLength).responseAddHeader fresh line
  | .options => r

def ErrorPage.languageLine (page : ErrorPage) : Bytes :=
  match page.lang with
  | some name => (ascii "content-language: " ++ name).take 1023
  | none => ascii "Content-Language: en"

/-- The lines `generate_error_page` puts into the header. -/
def ErrorPage.lines (page : ErrorPage) : List Bytes :=
  [ascii "HTTP/1.0 403 Forbidden", ascii "Server: C-ICAP", ascii "Connection: close",
    ascii "Content-Type: text/html"] ++ [page.languageLine]

/-- `generate_error_page`. -/
def generateErrorPage (fresh : Nat → UInt8) (page : ErrorPage) (r : HttpSide) : HttpSide :=
  let r := if r.table.httpResponseHeaders.isSome then r.responseResetHeaders else r.responseCreate fresh
  page.lines.foldl (HttpSide.responseAddHeader fresh) r

/-- What `rebuild_request_body` returns: `CI_OK`, `CI_MOD_ALLOW204` or `CI_ERROR`. -/
inductive RebuildStatus where
  | ok
  | allow204
  | error
  deriving DecidableEq

/-- `rebuild_request_body`; the rebuilt file takes the place of the store. -/
def rebuildRequestBody (fresh : Nat → UInt8) (proxy : ProxyResult) (r : HttpSide) (d : GwData) :
    RebuildStatus × HttpSide × GwData :=
  let d := { d with gwStatus := proxy.status }
  if proxy.status = gwUnprocessed then (.allow204, r, d)
  else if proxy.status = gwRebuilt then
    match d.body.rebuild.refreshExternallyUpdated proxy.output with
    | none => (.error, r, d)
    | some rebuild =>
        if rebuild.endpos = 0 then (.error, r, d)
        else
          let d := { d with body := ⟨rebuild, rebuild⟩ }
          (.ok, rebuildContentLength fresh r d.body, d)
  else (.error, r, d)

/-- The error outcome of `gw_rebuild_end_of_data_handler`: the page becomes the body. -/
def replaceByErrorPage (fresh : Nat → UInt8) (page : ErrorPage) (r : HttpSide) (d : GwData) : HttpSide × GwData :=
  let body := BodyData.new page.text.length
  let body := { body with store := (body.store.write page.text true).2 }
  (rebuildContentLength fresh (generateErrorPage fresh page r) body,
    { d with body := body, errorPage := some page.text })

/-- `gw_rebuild_end_of_data_handler`. -/
def gwRebuildEndOfData (fresh : Nat → UInt8) (page : ErrorPage) (proxy : ProxyResult) (r : HttpSide) (d : GwData) :
    ModRet × HttpSide × GwData :=
  let out := rebuildRequestBody fresh proxy r d
  let after := if out.1 = .error then replaceByErrorPage fresh page out.2.1 out.2.2 else out.2
  if after.2.allow204 ∧ out.1 = .allow204 then (.allow204, after)
  else (.done, after.1, { after.2 with body := { after.2.body with store := after.2.body.store.unlockAll } })

/-! ### The callback -/

namespace GwData

variable (d : GwData)

theorem readFromNet_le {d : GwData} {data : Bytes} {iseof : Bool} {n : Nat} {after : GwData}
    (took : d.readFromNet data iseof = some (n, after)) : n ≤ data.length := by
  simp only [readFromNet] at took
  split at took
  · cases took
  · simp only [Option.some.injEq, Prod.mk.injEq] at took
    rw [← took.1]
    exact SimpleFile.write_le _ _ _

theorem ioRead_le {d : GwData} {c : IoCall} {n : Nat} {after : GwData} (took : d.ioRead c = some (n, after)) :
    n ≤ c.data.length := by
  simp only [ioRead] at took
  split at took
  · rename_i data offered
    rw [IoCall.data, offered]
    exact readFromNet_le took
  · split at took
    · obtain ⟨out, -, same⟩ := Option.map_eq_some_iff.mp took
      cases same
      exact Nat.zero_le _
    · cases took
      exact Nat.zero_le _

theorem gwRebuildIo_taken (c : IoCall) : (d.gwRebuildIo c).1.taken ≤ c.data.length := by
  simp only [gwRebuildIo]
  split
  · exact Nat.zero_le _
  · rename_i took
    have bound := ioRead_le took
    split
    · exact bound
    · split <;> exact bound

theorem gwRebuildIo_room (c : IoCall) (data : Bytes) (produced : (d.gwRebuildIo c).1.produced = .bytes data) :
    data.length ≤ c.space := by
  simp only [gwRebuildIo] at produced
  split at produced
  · cases produced
  · split at produced
    · cases produced
      exact Nat.zero_le _
    · rename_i len room
      split at produced
      · cases produced
      · cases produced
      · rename_i bytes store answer
        cases produced
        rw [IoCall.space, room]
        exact SimpleFile.read_le answer

theorem gwRebuildIo_touched (c : IoCall) (untouched : (d.gwRebuildIo c).1.produced = .untouched) :
    (d.gwRebuildIo c).1.failed = true := by
  simp only [gwRebuildIo] at untouched ⊢
  split at untouched
  · rfl
  · split at untouched
    · cases untouched
    · split at untouched
      · rfl
      · cases untouched
      · cases untouched

end GwData

/-- The callback of the service. -/
def gwIo : IoModule GwData where
  io := GwData.gwRebuildIo
  room := GwData.gwRebuildIo_room
  taken := GwData.gwRebuildIo_taken
  touched := GwData.gwRebuildIo_touched

end IcapService
