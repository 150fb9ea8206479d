import IcapService.Lib.Strings
import IcapService.Acl
import IcapService.Base64
import IcapService.Headers
import IcapService.UserGroup

/-! The authentication of `http_auth.c`, with the basic method and the authenticator over the users' table.

The header names a scheme and, behind a blank, the user and the password in base64. They are decoded into a buffer
and copied to a block from `malloc`. `HAVE_CRYPT_R` is not defined by the build, so passwords are compared as they
are. -/

namespace IcapService

open CString

def maxUsernameLen : Nat := 255
def httpMaxPassLen : Nat := 256

/-- A `struct http_basic_auth_data`; behind `httpPass` lies what follows in memory. -/
structure HttpBasicAuthData where
  httpUser : Bytes
  httpPass : Bytes

/-- What memory holds before it is written: the block from `malloc`, the buffer on the stack, and new headers. -/
structure AuthMemory where
  data : HttpBasicAuthData
  decHttpUser : Bytes
  fresh : Nat → UInt8

/-- The fields of a request that the authentication reads and writes. -/
structure AuthRequest where
  requestHeader : HeadersList
  xheaders : HeadersList
  user : Bytes
  authRequired : Bool

/-- The global settings; `DEFAULT_AUTH_METHOD` and `REMOTE_PROXY_USER_HEADER` among them. -/
structure AuthConf where
  defaultAuthMethod : Bytes
  remoteProxyUserHeader : Bytes
  allowRemoteProxyUsers : Bool
  remoteProxyUserHeaderEncoded : Bool

/-- A `http_auth_method_t`: the data made from the header with the user name in it, and the header that asks for
authentication. -/
structure HttpAuthMethod (δ : Type) where
  createAuthData : Bytes → δ × Bytes
  authenticationHeader : Bytes

/-- `call_authenticators`. -/
def callAuthenticators {δ : Type} : List (δ → Access) → δ → Access
  | [], _ => .deny
  | authenticate :: rest, methodData =>
      let res := authenticate methodData
      if res ≠ .unknown then res else callAuthenticators rest methodData

/-- The value of a header, as a C string. -/
def AuthRequest.headerValue (req : AuthRequest) (name : Bytes) : Option Bytes :=
  (req.requestHeader.headersValue name).map (cstring req.requestHeader.buf)

/-- `req->user` after a copy of a user name to it. -/
def copyUser (user username : Bytes) : Bytes := poke (strncpy maxUsernameLen user username) maxUsernameLen [0]

/-- The branch of `http_authenticate` for a user whom a remote proxy has authenticated. -/
def remoteProxyUser (conf : AuthConf) (req : AuthRequest) : Access × AuthRequest :=
  match req.headerValue conf.remoteProxyUserHeader with
  | some username =>
      (.allow, { req with
        user := if conf.remoteProxyUserHeaderEncoded then (ciBase64Decode username req.user maxUsernameLen).2
          else copyUser req.user username })
  | none => (.deny, req)

def proxyAuthorization : Bytes := ascii "Proxy-Authorization"

/-- The end of `http_authenticate`. -/
def authResult (fresh : Nat → UInt8) (authHeader : Bytes) (res : Access) (req : AuthRequest) :
    Access × AuthRequest :=
  if res = .deny then
    (res, { req with xheaders := (req.xheaders.add fresh authHeader).2, authRequired := true })
  else (res, req)

/-- `http_authenticate`; `schema` is `get_authentication_schema`. -/
def httpAuthenticate {δ : Type} (conf : AuthConf) (schema : Bytes → Option (HttpAuthMethod δ × List (δ → Access)))
    (fresh : Nat → UInt8) (req : AuthRequest) (useMethod : Option Bytes) : Access × AuthRequest :=
  if conf.allowRemoteProxyUsers && useMethod.isNone then remoteProxyUser conf req
  else
    let useMethod := useMethod.getD conf.defaultAuthMethod
    match schema useMethod with
    | none => (.deny, req)
    | some (authMethod, authenticators) =>
        match req.headerValue proxyAuthorization with
        | none => authResult fresh authMethod.authenticationHeader .deny req
        | some methodStr =>
            match strchr methodStr 32 with
            | none => (.deny, req)
            | some len =>
                if strncmpeq len methodStr useMethod then
                  let (methodData, username) := authMethod.createAuthData (methodStr.drop (len + 1))
                  authResult fresh authMethod.authenticationHeader (callAuthenticators authenticators methodData)
                    { req with user := copyUser req.user username }
                else (.deny, req)

/-! ### The basic method -/

/-- `basic_authentication`, which `basic_post_init` makes of the realm. -/
def basicAuthentication (basicRealm : Bytes) : Bytes :=
  ascii "Proxy-Authenticate: Basic realm=\"" ++ basicRealm ++ [34]

/-- `basic_create_auth_data`. -/
def basicCreateAuthData (mem : AuthMemory) (authLine : Bytes) : HttpBasicAuthData :=
  let decHttpUser := (ciBase64Decode authLine mem.decHttpUser (maxUsernameLen + httpMaxPassLen + 2)).2
  match strchr decHttpUser 58 with
  | some colon =>
      { httpUser := copyUser mem.data.httpUser (poke decHttpUser colon [0])
        httpPass :=
          poke (strncpy httpMaxPassLen mem.data.httpPass (decHttpUser.drop (colon + 1))) (httpMaxPassLen - 1) [0] }
  | none =>
      { mem.data with httpUser := copyUser mem.data.httpUser decHttpUser }

/-- `basic_simple_db_athenticate`. -/
def basicSimpleDbAthenticate (usersDb : Option TableSearch) (data : HttpBasicAuthData) : Access :=
  match usersDb with
  | none => .deny
  | some search =>
      match search (cstring data.httpUser 0) with
      | none => .deny
      | some pass =>
          match pass.bind List.head? with
          | none => if at0 data.httpPass 0 ≠ 0 then .deny else .allow
          | some stored => if streq data.httpPass stored then .allow else .deny

/-- `basic_auth`. -/
def basicAuth (mem : AuthMemory) (basicRealm : Bytes) : HttpAuthMethod HttpBasicAuthData where
  createAuthData authLine :=
    let data := basicCreateAuthData mem authLine
    (data, cstring data.httpUser 0)
  authenticationHeader := basicAuthentication basicRealm

def basicName : Bytes := [98, 97, 115, 105, 99]

/-- `get_authentication_schema`, when `basic` is the only method and has the one authenticator. -/
def getAuthenticationSchema (mem : AuthMemory) (basicRealm : Bytes) (usersDb : Option TableSearch)
    (methodName : Bytes) : Option (HttpAuthMethod HttpBasicAuthData × List (HttpBasicAuthData → Access)) :=
  if strcaseeq methodName basicName then some (basicAuth mem basicRealm, [basicSimpleDbAthenticate usersDb])
  else none

/-! ### Whom the basic method lets in -/

/-- `http_authenticate` as it is called with the basic method: by its name, or by none when it is the default. -/
structure BasicSetup where
  conf : AuthConf
  basicRealm : Bytes
  usersDb : Option TableSearch
  useMethod : Option Bytes
  method : Bytes
  used : useMethod = some method ∨
    useMethod = none ∧ conf.allowRemoteProxyUsers = false ∧ conf.defaultAuthMethod = method
  basic : method.map toLower = basicName

/-- `ci_request_reset`, and what a request that is new starts with. -/
def requestReset (req : AuthRequest) : AuthRequest := { req with user := poke req.user 0 [0] }

/-- The authentication of the next request in a reused `ci_request_t`. -/
def BasicSetup.run (s : BasicSetup) (mem : AuthMemory) (req : AuthRequest) : Access × AuthRequest :=
  httpAuthenticate s.conf (getAuthenticationSchema mem s.basicRealm s.usersDb) mem.fresh (requestReset req)
    s.useMethod

/-- The user that is authenticated. -/
def BasicSetup.user (s : BasicSetup) (mem : AuthMemory) (req : AuthRequest) : Bytes :=
  cstring (s.run mem req).2.user 0

/-- What stands before the colon, and what behind it. -/
def credUser (text : Bytes) : Bytes := text.takeWhile (· != 58)

def credPassword (text : Bytes) : Option Bytes :=
  if 58 ∈ text then some (text.drop ((credUser text).length + 1)) else none

/-- The text that the credentials decode to. -/
def decodedText (auth : Bytes) : Bytes := cstring (base64Text auth) 0

/-- A row without values has no password. -/
def rowPassword (vals : Option (List Bytes)) : Bytes := ((vals.bind List.head?).map (cstring · 0)).getD []

/-- The table has a row for the user, with the password. -/
def PasswordOf (usersDb : Option TableSearch) (user password : Bytes) : Prop :=
  ∃ search vals, usersDb = some search ∧ search user = some vals ∧ rowPassword vals = password

/-- The scheme is the method, and the user is in the table with the password; a missing password counts as empty. -/
def Entitled (s : BasicSetup) (value : Option Bytes) : Prop :=
  ∃ auth, value = some (s.method ++ 32 :: auth) ∧
    PasswordOf s.usersDb (credUser (decodedText auth)) ((credPassword (decodedText auth)).getD [])

/-- The verdict and the user depend on the header alone, and only credentials of the table are let in. -/
def CredentialsDecide (s : BasicSetup) (req : AuthRequest) : Prop :=
  (∀ mem mem' req', req'.headerValue proxyAuthorization = req.headerValue proxyAuthorization →
    (s.run mem req').1 = (s.run mem' req).1 ∧ s.user mem req' = s.user mem' req) ∧
  ∀ mem, (s.run mem req).1 = .allow → Entitled s (req.headerValue proxyAuthorization)

/-- What the buffer holds of the text, and what the data holds of the user and the password. -/
def heldText (auth : Bytes) : Bytes := (decodedText auth).take (maxUsernameLen + httpMaxPassLen - 1)

def heldUser (auth : Bytes) : Bytes := (credUser (heldText auth)).take maxUsernameLen

def heldPassword (auth : Bytes) : Option Bytes := (credPassword (heldText auth)).map (·.take (httpMaxPassLen - 1))

/-- Nothing of the user and the password is cut off. -/
def HeldWhole (auth : Bytes) : Prop :=
  credUser (decodedText auth) = heldUser auth ∧ credPassword (decodedText auth) = heldPassword auth

/-- Whenever the first bytes of the method's name are given, and what is held of the user has a row, there is a
colon; and when what is held of the password is that of the row, the name is whole, and nothing has been cut off or
the table has what was sent as well. -/
def CredentialsHeld (s : BasicSetup) (value : Option Bytes) : Prop :=
  ∀ token auth w, value = some (token ++ 32 :: auth) → 32 ∉ token → token <+: s.method →
    PasswordOf s.usersDb (heldUser auth) w →
    58 ∈ heldText auth ∧ (heldPassword auth = some w → token = s.method ∧ (HeldWhole auth ∨
      ∃ p, credPassword (decodedText auth) = some p ∧ PasswordOf s.usersDb (credUser (decodedText auth)) p))

/-! ### What is held of the credentials -/

theorem copyUser_held (user username : Bytes) :
    cstring (copyUser user username) 0 = (cstring username 0).take maxUsernameLen :=
  strncpy_ended user username (Nat.le_refl _)

/-- The buffer holds what fits of the decoded text. -/
theorem decoded_held (auth stack : Bytes) :
    cstring (ciBase64Decode auth stack (maxUsernameLen + httpMaxPassLen + 2)).2 0 = heldText auth := by
  have written : (ciBase64Decode auth stack (maxUsernameLen + httpMaxPassLen + 2)).2 =
      (base64Text auth).take (maxUsernameLen + httpMaxPassLen - 1) ++
        0 :: stack.drop (base64Loop (maxUsernameLen + httpMaxPassLen + 2) auth ++ [0]).length := by
    rw [ciBase64Decode, if_neg (by decide)]
    dsimp only
    rw [poke, List.take_zero, List.nil_append, Nat.zero_add, List.append_assoc]
    exact congrArg (· ++ _) (base64Loop_eq _ auth)
  rw [written, cstring_stored, cstring_take]
  rfl

theorem basicCreateAuthData_user (mem : AuthMemory) (auth : Bytes) :
    cstring (basicCreateAuthData mem auth).httpUser 0 = heldUser auth := by
  have held := decoded_held auth mem.decHttpUser
  by_cases member : 58 ∈ heldText auth
  · have inside : (credUser (heldText auth)).length ≤ (heldText auth).length := (List.takeWhile_prefix _).length_le
    simp only [basicCreateAuthData, strchr, held, if_pos member]
    rw [copyUser_held, cstring_poke (held ▸ inside), held]
    exact congrArg _ (List.prefix_iff_eq_take.mp (List.takeWhile_prefix _)).symm
  · simp only [basicCreateAuthData, strchr, held, if_neg member]
    rw [copyUser_held, held, heldUser, credUser, List.takeWhile_eq_self_iff.mpr]
    intro c present
    have other : c ≠ 58 := fun same => member (same ▸ present)
    simpa using other

/-- Behind a colon the password is held; without one it is what memory had. -/
theorem basicCreateAuthData_password (mem : AuthMemory) (auth : Bytes) :
    cstring (basicCreateAuthData mem auth).httpPass 0 = (heldPassword auth).getD (cstring mem.data.httpPass 0) := by
  have held := decoded_held auth mem.decHttpUser
  by_cases member : 58 ∈ heldText auth
  · have inside : (credUser (heldText auth)).length + 1 ≤ (heldText auth).length := by
      have cut := congrArg List.length (takeWhile_cut member)
      rw [List.length_append, List.length_cons] at cut
      rw [credUser]
      omega
    simp only [basicCreateAuthData, strchr, held, if_pos member, heldPassword, credPassword, Option.map_some,
      Option.getD_some]
    rw [strncpy_ended _ _ (Nat.sub_le _ _), cstring_behind (held ▸ inside), held]
    rfl
  · simp only [basicCreateAuthData, strchr, held, if_neg member, heldPassword, credPassword, Option.map_none,
      Option.getD_none]

/-! ### The verdict -/

theorem rowPassword_plain (vals : Option (List Bytes)) : 0 ∉ rowPassword vals := by
  rw [rowPassword]
  cases vals.bind List.head? with
  | none => exact List.not_mem_nil
  | some stored => exact cstring_plain stored 0

theorem PasswordOf.unique {usersDb : Option TableSearch} {user w w' : Bytes} (row : PasswordOf usersDb user w)
    (row' : PasswordOf usersDb user w') : w = w' := by
  obtain ⟨search, vals, rfl, found, rfl⟩ := row
  obtain ⟨_, vals', same, found', rfl⟩ := row'
  cases same
  rw [found] at found'
  cases found'
  rfl

theorem at0_eq_zero_iff (b : Bytes) : at0 b 0 = 0 ↔ cstring b 0 = [] := by
  cases b with
  | nil => simp [at0, cstring]
  | cons c b => by_cases nul : c = 0 <;> simp [at0, cstring, nul]

/-- A user with a row is let in with its password. -/
theorem basicSimpleDbAthenticate_known {usersDb : Option TableSearch} {data : HttpBasicAuthData} {w : Bytes}
    (row : PasswordOf usersDb (cstring data.httpUser 0) w) :
    basicSimpleDbAthenticate usersDb data = if cstring data.httpPass 0 = w then .allow else .deny := by
  obtain ⟨search, vals, rfl, found, rfl⟩ := row
  cases first : vals.bind List.head? with
  | none =>
      simp only [basicSimpleDbAthenticate, found, rowPassword, first, Option.map_none, Option.getD_none, ne_eq,
        at0_eq_zero_iff]
      exact ite_not _ _ _
  | some stored =>
      simp only [basicSimpleDbAthenticate, found, rowPassword, first, streq, beq_iff_eq, Option.map_some,
        Option.getD_some]

theorem basicSimpleDbAthenticate_unknown {usersDb : Option TableSearch} {data : HttpBasicAuthData}
    (unknown : ∀ w, ¬ PasswordOf usersDb (cstring data.httpUser 0) w) :
    basicSimpleDbAthenticate usersDb data = .deny := by
  cases usersDb with
  | none => rfl
  | some search =>
      cases found : search (cstring data.httpUser 0) with
      | none => simp only [basicSimpleDbAthenticate, found]
      | some vals => exact absurd ⟨search, vals, rfl, found, rfl⟩ (unknown (rowPassword vals))

theorem basicSimpleDbAthenticate_cases (usersDb : Option TableSearch) (data : HttpBasicAuthData) :
    basicSimpleDbAthenticate usersDb data = .allow ∨ basicSimpleDbAthenticate usersDb data = .deny := by
  by_cases known : ∃ w, PasswordOf usersDb (cstring data.httpUser 0) w
  · obtain ⟨w, row⟩ := known
    rw [basicSimpleDbAthenticate_known row]
    exact ite_eq_or_eq _ _ _
  · exact .inr (basicSimpleDbAthenticate_unknown (not_exists.mp known))

/-- The authenticator decides. -/
theorem callAuthenticators_basic (usersDb : Option TableSearch) (data : HttpBasicAuthData) :
    callAuthenticators [basicSimpleDbAthenticate usersDb] data = basicSimpleDbAthenticate usersDb data := by
  rw [callAuthenticators]
  rcases basicSimpleDbAthenticate_cases usersDb data with verdict | verdict <;> simp [verdict]

theorem authResult_verdict (fresh : Nat → UInt8) (authHeader : Bytes) (res : Access) (req : AuthRequest) :
    (authResult fresh authHeader res req).1 = res ∧ (authResult fresh authHeader res req).2.user = req.user := by
  rw [authResult]
  split <;> exact ⟨rfl, rfl⟩

theorem requestReset_user (req : AuthRequest) : cstring (requestReset req).user 0 = [] := by
  simp [requestReset, poke, cstring]

namespace BasicSetup

variable (s : BasicSetup) (mem : AuthMemory) (req : AuthRequest)

theorem method_clear : 0 ∉ s.method ∧ 32 ∉ s.method := by
  constructor <;> intro member
  · have lower := List.mem_map_of_mem (f := toLower) member
    rw [s.basic] at lower
    revert lower
    decide
  · have lower := List.mem_map_of_mem (f := toLower) member
    rw [s.basic] at lower
    revert lower
    decide

/-- The header decides, by the method's name. -/
theorem run_eq : s.run mem req =
    match req.headerValue proxyAuthorization with
    | none => authResult mem.fresh (basicAuthentication s.basicRealm) .deny (requestReset req)
    | some methodStr =>
        match strchr methodStr 32 with
        | none => (.deny, requestReset req)
        | some len =>
            if strncmpeq len methodStr s.method then
              let data := basicCreateAuthData mem (methodStr.drop (len + 1))
              authResult mem.fresh (basicAuthentication s.basicRealm) (basicSimpleDbAthenticate s.usersDb data)
                { requestReset req with user := copyUser (requestReset req).user (cstring data.httpUser 0) }
            else (.deny, requestReset req) := by
  have named : strcaseeq s.method basicName = true := by
    rw [strcaseeq, cstring_of_plain s.method_clear.1, s.basic]
    decide
  have asked : (s.conf.allowRemoteProxyUsers && s.useMethod.isNone) = false ∧
      s.useMethod.getD s.conf.defaultAuthMethod = s.method := by
    rcases s.used with given | ⟨none_, local_, default_⟩
    · simp [given]
    · simp [none_, local_, default_]
  rw [run, httpAuthenticate, asked.1, asked.2]
  simp only [Bool.false_eq_true, if_false, getAuthenticationSchema, if_pos named, basicAuth,
    callAuthenticators_basic]
  rfl

/-- A scheme that starts the method's name is accepted, and the authenticator decides. -/
theorem run_accepted {token auth : Bytes} (given : req.headerValue proxyAuthorization = some (token ++ 32 :: auth))
    (clear : 32 ∉ token) (named : token <+: s.method) :
    (s.run mem req).1 = basicSimpleDbAthenticate s.usersDb (basicCreateAuthData mem auth) ∧
      s.user mem req = heldUser auth := by
  have plain : 0 ∉ token ++ 32 :: auth := by
    obtain ⟨start, -, value⟩ := Option.map_eq_some_iff.mp given
    exact value ▸ cstring_plain _ _
  have found := strchr_front plain clear
  have accepted : strncmpeq token.length (token ++ 32 :: auth) s.method = true :=
    (strncmpeq_iff token _ s.method (fun member => plain (List.mem_append_left _ member))).mpr named
  have behind : (token ++ 32 :: auth).drop (token.length + 1) = auth := by
    rw [← List.drop_drop, List.drop_left, List.drop_succ_cons, List.drop_zero]
  have result := s.run_eq mem req
  simp only [given, found, if_pos accepted, behind] at result
  have verdict := authResult_verdict mem.fresh (basicAuthentication s.basicRealm)
    (basicSimpleDbAthenticate s.usersDb (basicCreateAuthData mem auth)) { requestReset req with
      user := copyUser (requestReset req).user (cstring (basicCreateAuthData mem auth).httpUser 0) }
  rw [← result] at verdict
  refine ⟨verdict.1, ?_⟩
  rw [user, verdict.2, copyUser_held, cstring_of_plain (cstring_plain _ _), basicCreateAuthData_user, heldUser,
    List.take_take, Nat.min_self]

/-- Any other header is refused. -/
theorem run_refused (refused : ∀ token auth, req.headerValue proxyAuthorization = some (token ++ 32 :: auth) →
    32 ∉ token → ¬ token <+: s.method) : (s.run mem req).1 = .deny ∧ s.user mem req = [] := by
  have result := s.run_eq mem req
  cases given : req.headerValue proxyAuthorization with
  | none =>
      have verdict := authResult_verdict mem.fresh (basicAuthentication s.basicRealm) .deny (requestReset req)
      simp only [given] at result
      rw [← result] at verdict
      exact ⟨verdict.1, (congrArg (cstring · 0) verdict.2).trans (requestReset_user req)⟩
  | some value =>
      have plain : 0 ∉ value := by
        obtain ⟨start, -, same⟩ := Option.map_eq_some_iff.mp given
        exact same ▸ cstring_plain _ _
      have stays : s.run mem req = (.deny, requestReset req) := by
        rw [result]
        by_cases blank : 32 ∈ value
        · obtain ⟨token, auth, rfl, clear⟩ : ∃ token auth, value = token ++ 32 :: auth ∧ 32 ∉ token :=
            ⟨_, _, takeWhile_cut blank, cut_clear 32 value⟩
          have other : ¬ strncmpeq token.length (token ++ 32 :: auth) s.method = true := by
            rw [strncmpeq_iff token _ s.method (fun member => plain (List.mem_append_left _ member))]
            exact refused token auth given clear
          simp only [given, strchr_front plain clear, if_neg other]
        · simp only [given, strchr, cstring_of_plain plain, if_neg blank]
      rw [user, stays]
      exact ⟨rfl, requestReset_user req⟩

/-- For a known user what is held of the password decides, or what memory had when there was no colon. -/
theorem run_known {token auth w : Bytes} (given : req.headerValue proxyAuthorization = some (token ++ 32 :: auth))
    (clear : 32 ∉ token) (named : token <+: s.method) (row : PasswordOf s.usersDb (heldUser auth) w) :
    (s.run mem req).1 = .allow ↔ (heldPassword auth).getD (cstring mem.data.httpPass 0) = w := by
  have known : PasswordOf s.usersDb (cstring (basicCreateAuthData mem auth).httpUser 0) w := by
    rwa [basicCreateAuthData_user]
  rw [(s.run_accepted mem req given clear named).1, basicSimpleDbAthenticate_known known,
    basicCreateAuthData_password]
  simp

theorem run_unknown {token auth : Bytes} (given : req.headerValue proxyAuthorization = some (token ++ 32 :: auth))
    (clear : 32 ∉ token) (named : token <+: s.method) (unknown : ∀ w, ¬ PasswordOf s.usersDb (heldUser auth) w) :
    (s.run mem req).1 = .deny := by
  rw [(s.run_accepted mem req given clear named).1]
  apply basicSimpleDbAthenticate_unknown
  rwa [basicCreateAuthData_user]

theorem run_cases : (s.run mem req).1 = .allow ∨ (s.run mem req).1 = .deny := by
  by_cases accepted : ∃ token auth, req.headerValue proxyAuthorization = some (token ++ 32 :: auth) ∧ 32 ∉ token ∧
      token <+: s.method
  · obtain ⟨token, auth, given, clear, named⟩ := accepted
    rw [(s.run_accepted mem req given clear named).1]
    exact basicSimpleDbAthenticate_cases _ _
  · refine .inr (s.run_refused mem req ?_).1
    exact fun token auth given clear named => accepted ⟨token, auth, given, clear, named⟩

end BasicSetup

theorem heldPassword_some {auth : Bytes} (colon : 58 ∈ heldText auth) : ∃ p, heldPassword auth = some p := by
  rw [heldPassword, credPassword, if_pos colon]
  exact ⟨_, rfl⟩

theorem heldPassword_none {auth : Bytes} (colon : 58 ∉ heldText auth) : heldPassword auth = none := by
  rw [heldPassword, credPassword, if_neg colon]
  rfl

/-- Credentials decide when they are held well enough. -/
theorem credentials_decide {s : BasicSetup} {req : AuthRequest}
    (held : CredentialsHeld s (req.headerValue proxyAuthorization)) : CredentialsDecide s req := by
  constructor
  · intro mem mem' req' same
    by_cases accepted : ∃ token auth, req.headerValue proxyAuthorization = some (token ++ 32 :: auth) ∧ 32 ∉ token ∧
        token <+: s.method
    · obtain ⟨token, auth, given, clear, named⟩ := accepted
      have given' := same.trans given
      refine ⟨?_, ?_⟩
      · by_cases known : ∃ w, PasswordOf s.usersDb (heldUser auth) w
        · obtain ⟨w, row⟩ := known
          obtain ⟨p, password⟩ := heldPassword_some (held token auth w given clear named row).1
          have allowed : (s.run mem req').1 = .allow ↔ (s.run mem' req).1 = .allow := by
            rw [s.run_known mem req' given' clear named row, s.run_known mem' req given clear named row, password]
            rfl
          rcases s.run_cases mem req' with verdict | verdict <;>
            rcases s.run_cases mem' req with verdict' | verdict' <;>
            simp [verdict, verdict'] at allowed ⊢
        · have unknown := not_exists.mp known
          rw [s.run_unknown mem req' given' clear named unknown, s.run_unknown mem' req given clear named unknown]
      · rw [(s.run_accepted mem req' given' clear named).2, (s.run_accepted mem' req given clear named).2]
    · have refused : ∀ token auth, req.headerValue proxyAuthorization = some (token ++ 32 :: auth) → 32 ∉ token →
          ¬ token <+: s.method := fun token auth given clear named => accepted ⟨token, auth, given, clear, named⟩
      have first := s.run_refused mem req' (same ▸ refused)
      have second := s.run_refused mem' req refused
      rw [first.1, first.2, second.1, second.2]
      exact ⟨rfl, rfl⟩
  · intro mem allowed
    have denied : (s.run mem req).1 ≠ .deny := by
      rw [allowed]
      decide
    obtain ⟨token, auth, given, clear, named⟩ : ∃ token auth,
        req.headerValue proxyAuthorization = some (token ++ 32 :: auth) ∧ 32 ∉ token ∧ token <+: s.method := by
      by_contra refused
      exact denied (s.run_refused mem req
        (fun token auth given clear named => refused ⟨token, auth, given, clear, named⟩)).1
    obtain ⟨w, row⟩ : ∃ w, PasswordOf s.usersDb (heldUser auth) w := by
      by_contra unknown
      exact denied (s.run_unknown mem req given clear named (not_exists.mp unknown))
    obtain ⟨colon, decides⟩ := held token auth w given clear named row
    obtain ⟨p, password⟩ := heldPassword_some colon
    have same := (s.run_known mem req given clear named row).mp allowed
    rw [password, Option.getD_some] at same
    subst same
    obtain ⟨whole, sent⟩ := decides password
    subst whole
    refine ⟨auth, given, ?_⟩
    rcases sent with uncut | ⟨p', password', row'⟩
    · rw [uncut.1, uncut.2, password]
      exact row
    · rw [password']
      exact row'

/-- A blank ends the scheme. -/
theorem scheme_unique {token token' auth auth' : Bytes} (same : token ++ 32 :: auth = token' ++ 32 :: auth')
    (clear : 32 ∉ token) (clear' : 32 ∉ token') : token = token' ∧ auth = auth' := by
  have first : token = token' := by
    rw [← takeWhile_front auth clear, same, takeWhile_front auth' clear']
  subst first
  exact ⟨rfl, (List.cons.inj (List.append_cancel_left same)).2⟩

/-- Authentication is decided by the credentials exactly when they are held well enough. -/
theorem credentials_decide_iff (s : BasicSetup) (req : AuthRequest) :
    CredentialsDecide s req ↔ CredentialsHeld s (req.headerValue proxyAuthorization) := by
  refine ⟨?_, credentials_decide⟩
  intro decide_ token auth w given clear named row
  have colon : 58 ∈ heldText auth := by
    by_contra none_
    have decided : ∀ mem : AuthMemory, (s.run mem req).1 = .allow ↔ cstring mem.data.httpPass 0 = w := by
      intro mem
      rw [s.run_known mem req given clear named row, heldPassword_none none_]
      rfl
    -- memory that has the row's password, and memory that has another
    have plain : 0 ∉ w := by
      obtain ⟨_, vals, -, -, rfl⟩ := row
      exact rowPassword_plain vals
    let left (pass : Bytes) : AuthMemory := ⟨⟨[], pass⟩, [], fun _ => 0⟩
    have allowed : (s.run (left w) req).1 = .allow := (decided (left w)).mpr (cstring_of_plain plain)
    have refused : (s.run (left (1 :: w)) req).1 ≠ .allow := by
      intro allow
      have same : cstring (1 :: w) 0 = w := (decided (left (1 :: w))).mp allow
      rw [cstring_of_plain (by simpa using plain)] at same
      exact List.cons_ne_self _ _ same
    exact refused (((decide_.1 (left w) (left (1 :: w)) req rfl).1).symm.trans allowed)
  refine ⟨colon, fun password => ?_⟩
  have allowed : (s.run ⟨⟨[], []⟩, [], fun _ => 0⟩ req).1 = .allow := by
    rw [s.run_known _ req given clear named row, password]
    rfl
  obtain ⟨auth', given', row'⟩ := decide_.2 _ allowed
  obtain ⟨whole, rfl⟩ := scheme_unique (Option.some.inj (given.symm.trans given')) clear s.method_clear.2
  have present : 58 ∈ decodedText auth := List.mem_of_mem_take colon
  have sent : ∃ p, credPassword (decodedText auth) = some p := ⟨_, if_pos present⟩
  obtain ⟨p, sent⟩ := sent
  rw [sent] at row'
  exact ⟨whole, .inr ⟨p, sent, row'⟩⟩

/-- The users' file `b:1`. -/
def onePasswordTable : TextTable := ⟨[⟨[98], some [some [49], none]⟩], 1⟩

def oneUser : BasicSetup where
  conf := ⟨basicName, [], false, false⟩
  basicRealm := []
  usersDb := some onePasswordTable.search
  useMethod := some basicName
  method := basicName
  used := .inl rfl
  basic := by decide

/-- A request with the header `Proxy-Authorization` and a value. -/
def authorizationRequest (value : Bytes) : AuthRequest where
  requestHeader := ((HeadersList.create (fun _ => 0)).add (fun _ => 0) (proxyAuthorization ++ [58, 32] ++ value)).2
  xheaders := HeadersList.create (fun _ => 0)
  user := []
  authRequired := false

/-- The value `basic Yg==` has no password, and is let in or not by what memory was left with. A scheme `b` is taken
for the method's name. -/
theorem old_memory_decides :
    fileTableOpen (-1) [98, 58, 49, 10] = some (some onePasswordTable) ∧
      ¬ CredentialsDecide oneUser (authorizationRequest [98, 97, 115, 105, 99, 32, 89, 103, 61, 61]) ∧
      ¬ CredentialsDecide oneUser (authorizationRequest [98, 32, 89, 106, 111, 120]) := by
  refine ⟨by decide +kernel, fun decided => ?_, fun decided => ?_⟩
  · have same := (decided.1 ⟨⟨[], [49]⟩, [], fun _ => 0⟩ ⟨⟨[], []⟩, [], fun _ => 0⟩ _ rfl).1
    revert same
    decide +kernel
  · obtain ⟨auth, given, -⟩ := decided.2 ⟨⟨[], []⟩, [], fun _ => 0⟩ (by decide +kernel)
    have value : (authorizationRequest [98, 32, 89, 106, 111, 120]).headerValue proxyAuthorization =
        some [98, 32, 89, 106, 111, 120] := by decide +kernel
    rw [value] at given
    simp [oneUser, basicName] at given

end IcapService
