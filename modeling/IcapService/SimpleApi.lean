import IcapService.EncapsHeaders
import IcapService.Framing

/-! The calls of `simple_api.c` by which a service edits the HTTP headers of a request, and what
`mk_responce_header` then makes of the entities. -/

namespace IcapService

open CString

namespace EntityTable

/-- `ci_request_release_entity`. -/
def release (t : EntityTable) (pos : Nat) : EntityTable :=
  match t.get pos with
  | none => t
  | some e => (t.set (entitiesSize + e.type.index) (some e)).set pos none

/-- The entity at a position is there and of the kind. -/
def hasKind (t : EntityTable) (pos : Nat) (type : EncapsType) : Bool := (t.get pos).any (·.type == type)

/-- `ci_http_response_headers`: the position of the list. -/
def httpResponseHeaders (t : EntityTable) : Option Nat :=
  ((List.range 3).takeWhile (fun i => (t.get i).isSome)).find? (t.hasKind · .resHdr)

/-- `ci_http_request_headers`: the list may have gone to the trash. -/
def httpRequestHeaders (t : EntityTable) : Option Nat :=
  if t.hasKind 0 .reqHdr then some 0
  else if (t.get (entitiesSize + EncapsType.reqHdr.index)).any (·.list.used != 0) then
    some (entitiesSize + EncapsType.reqHdr.index)
  else none

def edit (t : EntityTable) (pos : Option Nat) (f : HeadersList → HeadersList) : EntityTable :=
  match pos with
  | none => t
  | some i => t.set i ((t.get i).map fun e => { e with list := f e.list })

end EntityTable

/-- The part of a request that the calls edit; `packed` says that its response is made. -/
structure HttpSide where
  type : RequestType
  table : EntityTable
  packed : Bool
  deriving DecidableEq

namespace HttpSide

variable (fresh : Nat → UInt8) (r : HttpSide)

/-- `ci_http_response_add_header`. -/
def responseAddHeader (line : Bytes) : HttpSide :=
  if r.packed then r
  else { r with table := r.table.edit r.table.httpResponseHeaders (fun h => (h.add fresh line).2) }

/-- `ci_http_request_add_header`. -/
def requestAddHeader (line : Bytes) : HttpSide :=
  if r.packed then r
  else { r with table := r.table.edit r.table.httpRequestHeaders (fun h => (h.add fresh line).2) }

/-- `ci_http_response_remove_header`. -/
def responseRemoveHeader (name : Bytes) : HttpSide :=
  if r.packed then r
  else { r with table := r.table.edit r.table.httpResponseHeaders (fun h => (h.remove name).2) }

/-- `ci_http_request_remove_header`. -/
def requestRemoveHeader (name : Bytes) : HttpSide :=
  if r.packed then r
  else { r with table := r.table.edit r.table.httpRequestHeaders (fun h => (h.remove name).2) }

/-- `ci_http_response_reset_headers`. -/
def responseResetHeaders : HttpSide :=
  { r with table := r.table.edit r.table.httpResponseHeaders HeadersList.reset }

/-- `ci_http_response_create(req, 1, 1)`. -/
def responseCreate : HttpSide :=
  let t := (List.range 4).foldl EntityTable.release r.table
  let header := t.alloc fresh .resHdr 0
  let t := header.2.set 0 (some header.1)
  let body := t.alloc fresh .resBody 0
  { r with table := body.2.set 1 (some body.1) }

/-- A response to RESPMOD has no request header. -/
def dropRequestHeader : HttpSide :=
  if r.type = .respmod ∧ r.table.hasKind 0 .reqHdr then
    let t := r.table.release 0
    { r with table := ((t.set 0 (t.get 1)).set 1 (t.get 2)).set 2 none }
  else r

end HttpSide

/-- The texts in the Via header of a response. -/
structure Server where
  hostname : Bytes
  version : Bytes
  descr : Bytes
  plain : 0 ∉ hostname ∧ 0 ∉ version ∧ 0 ∉ descr

def Server.viaLine (server : Server) : Bytes :=
  (ascii "Via: ICAP/1.0 " ++ (server.hostname ++ ascii " (C-ICAP/" ++ server.version ++ ascii " " ++ server.descr ++
    ascii " )")).take 511

/-- `mk_responce_header` up to `ci_response_pack`. -/
def HttpSide.mkResponceHeader (fresh : Nat → UInt8) (server : Server) (r : HttpSide) : HttpSide :=
  let r := r.dropRequestHeader
  match r.type with
  | .respmod => r.responseAddHeader fresh server.viaLine
  | .reqmod => r.requestAddHeader fresh server.viaLine
  | .options => r

/-! ### The entities of a table -/

namespace EntityTable

end EntityTable

namespace HttpSide

/-- The request with another list in the entity at a position. -/
def put (r : HttpSide) (i : Nat) (e : EncapsEntity) (list : HeadersList) : HttpSide :=
  { r with table := r.table.set i (some { e with list := list }) }

section

variable {r : HttpSide} {i : Nat} {e : EncapsEntity} (here : r.table.get i = some e) (inside : i < 12)

include here inside

variable (editable : r.packed = false) (found : r.table.httpResponseHeaders = some i) (h : HeadersList)

include editable found

end

section

variable {r : HttpSide} {e : EncapsEntity} (here : r.table.get 0 = some e) (header : e.type = .reqHdr)
  (h : HeadersList)

include here header

variable (editable : r.packed = false)

include editable

end

/-! ### The entities of a response -/

section

variable (fresh : Nat → UInt8) (server : Server) {r : HttpSide} (editable : r.packed = false) {e f : EncapsEntity}

include editable

end

end HttpSide

end IcapService
