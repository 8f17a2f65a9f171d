import Hnc.Httpd.RateLimit
import Hnc.Httpd.TokensStore
import Hnc.Lib.Posix

/-!
# Addresses of requests

The functions of Go's `net` that the httpd reads `RemoteAddr` with.
-/

namespace Httpd.Net

open Posix

/-- The parts before and behind the last `c`. -/
def cutLast (c : Char) (s : Text) : Option (Text × Text) :=
  if c ∈ s then
    let last := s.reverse.takeWhile (· ≠ c)
    some (s.take (s.length - last.length - 1), last.reverse)
  else none

/-- `net.SplitHostPort`; the port is left out. -/
def splitHostPort (hostport : Text) : Option Text :=
  match cutLast ':' hostport with
  | none => none
  | some (front, _) =>
      if hostport.head? = some '[' then
        let stop := hostport.idxOf ']'
        if stop + 1 ≠ front.length then none
        else if '[' ∈ hostport.drop 1 ∨ ']' ∈ hostport.drop (stop + 1) then none
        else some ((front.drop 1).dropLast)
      else if ':' ∈ front ∨ '[' ∈ hostport ∨ ']' ∈ hostport then none
      else some front

def isHexDigit (c : Char) : Bool :=
  isDigit c || ('a' ≤ c && c ≤ 'f') || ('A' ≤ c && c ≤ 'F')

def hexDigit (c : Char) : Nat :=
  if isDigit c then c.toNat - 48
  else if 'a' ≤ c then c.toNat - 87
  else c.toNat - 55

def octet (s : Text) : Option UInt8 :=
  let value := s.foldl (fun sum c => sum * 10 + (c.toNat - 48)) 0
  if s = [] ∨ !s.all isDigit then none
  else if 1 < s.length ∧ s.head? = some '0' then none
  else if 255 < value then none
  else some (UInt8.ofNat value)

def parseIPv4 (s : Text) : Option (List UInt8) :=
  match (fields '.' s).mapM octet with
  | some [a, b, c, d] => some [a, b, c, d]
  | _ => none

/-- The groups of an IPv6 address: the bytes so far, the place of the ellipsis
and what is left. -/
def groups : (left : Nat) → (bytes : List UInt8) → (ellipsis : Option Nat) →
    Text → Option (List UInt8 × Option Nat × Text)
  | 0, bytes, ellipsis, s => some (bytes, ellipsis, s)
  | left + 1, bytes, ellipsis, s =>
      let digits := s.takeWhile isHexDigit
      if digits = [] ∨ 4 < digits.length then none
      else
        let acc := digits.foldl (fun sum c => sum * 16 + hexDigit c) 0
        let more := bytes ++ [UInt8.ofNat (acc / 256), UInt8.ofNat acc]
        match s.drop digits.length with
        | [] => some (more, ellipsis, [])
        | '.' :: _ =>
            if ellipsis = none ∧ bytes.length ≠ 12 ∨ 12 < bytes.length then none
            else (parseIPv4 s).map fun four => (bytes ++ four, ellipsis, [])
        | [':'] => none
        | ':' :: ':' :: rest =>
            if ellipsis ≠ none then none
            else if rest = [] then some (more, some more.length, [])
            else groups left more (some more.length) rest
        | ':' :: rest => groups left more ellipsis rest
        | _ => none

def parseIPv6 (s : Text) : Option (List UInt8) :=
  let parsed :=
    match s with
    | [':', ':'] => some ([], some 0, [])
    | ':' :: ':' :: rest => groups 8 [] (some 0) rest
    | _ => groups 8 [] none s
  match parsed with
  | some (bytes, none, []) => if bytes.length = 16 then some bytes else none
  | some (bytes, some place, []) =>
      if bytes.length < 16 then
        some (bytes.take place ++ List.replicate (16 - bytes.length) 0 ++
          bytes.drop place)
      else none
  | _ => none

/-- `net.ParseIP`: always 16 bytes, and no zone. -/
def parseIP (s : Text) : Option (List UInt8) :=
  match s.find? fun c => c = '.' || c = ':' || c = '%' with
  | some '.' =>
      (parseIPv4 s).map fun four =>
        List.replicate 10 0 ++ [0xff, 0xff] ++ four
  | some ':' => parseIPv6 s
  | _ => none

/-- `IP.To4`. -/
def to4 (ip : List UInt8) : Option (List UInt8) :=
  if ip.take 12 = List.replicate 10 0 ++ [0xff, 0xff] then some (ip.drop 12)
  else none

/-- `IP.IsLoopback`. -/
def isLoopback (ip : List UInt8) : Bool :=
  match to4 ip with
  | some four => four.head? = some 127
  | none => ip = List.replicate 15 0 ++ [1]

/-- Both spellings of the loopback address of IPv4, and the one of IPv6. -/
example : (["127.0.0.1".toList, "::ffff:127.0.0.1".toList, "::1".toList].all
    fun s => (parseIP s).any isLoopback) = true := by
  decide +kernel

end Httpd.Net

/-!
## Who reaches which handler

`authMiddleware` decides on the path of a request whether it may go on, and the
mux then chooses the handler.  Anonymous requests get past the middleware on the
public paths and, as long as remote requests need no login, on the paths that
are in neither of two lists.  Every route with data or with an effect is in one
of the lists.
-/

namespace Httpd

open Posix

/-- The parts of a request that the chain and the mux read. -/
structure HttpRequest where
  method : Text
  host : Text
  path : Text
  rawPath : Text
  origin : Text
  referer : Text
  remoteAddr : Text
  cookies : List (Text × Text)

/-- `r.Cookie`: the first cookie with the name. -/
def HttpRequest.cookie (r : HttpRequest) (name : Text) : Option Text :=
  r.cookies.lookup name

def cookieName : Text := "hnc_token".toList

inductive Handler where
  | serveIndex
  | serveStatic
  | handlePair
  | handlePairVerify
  | apiHealth
  | apiDevices
  | apiLive
  | apiCapabilities
  | apiSQMStatus
  | apiMetrics
  | apiStats
  | apiTemplates
  | apiDPIState
  | apiDPIProbe
  | handleLogout
  | apiConfig
  | apiTokens
  | apiIfaceInfo
  | apiLogs
  | apiOffloadStatus
  | serveChangelog
  | handleAction
deriving DecidableEq, Repr

/-- A pattern of the mux; `limited` when `unauthRateLimitMiddleware` is around
its handler. -/
structure Route where
  pattern : Text
  handler : Handler
  limited : Bool := false
deriving DecidableEq, Repr

/-- What `handler` registers. -/
def routes : List Route :=
  [⟨"/".toList, .serveIndex, false⟩,
    ⟨"/static/".toList, .serveStatic, false⟩,
    ⟨"/pair".toList, .handlePair, true⟩,
    ⟨"/api/pair/verify".toList, .handlePairVerify, true⟩,
    ⟨"/api/health".toList, .apiHealth, false⟩,
    ⟨"/api/devices".toList, .apiDevices, false⟩,
    ⟨"/api/live".toList, .apiLive, false⟩,
    ⟨"/api/capabilities".toList, .apiCapabilities, false⟩,
    ⟨"/api/sqm".toList, .apiSQMStatus, false⟩,
    ⟨"/api/metrics".toList, .apiMetrics, false⟩,
    ⟨"/api/stats".toList, .apiStats, false⟩,
    ⟨"/api/templates".toList, .apiTemplates, false⟩,
    ⟨"/api/dpi_state".toList, .apiDPIState, false⟩,
    ⟨"/api/dpi_probe".toList, .apiDPIProbe, false⟩,
    ⟨"/api/logout".toList, .handleLogout, false⟩,
    ⟨"/api/config".toList, .apiConfig, false⟩,
    ⟨"/api/tokens".toList, .apiTokens, false⟩,
    ⟨"/api/iface_info".toList, .apiIfaceInfo, false⟩,
    ⟨"/api/logs".toList, .apiLogs, false⟩,
    ⟨"/api/offload_status".toList, .apiOffloadStatus, false⟩,
    ⟨"/changelog.html".toList, .serveChangelog, false⟩,
    ⟨"/api/action".toList, .handleAction, false⟩]

/-- `http.ServeMux`, as far as the chain depends on it: the pattern that serves
a request, or `none` for a redirect and for a path that is not found.  A pattern
that does not end in a slash serves its own path only. -/
structure ServeMux where
  find : List Text → HttpRequest → Option Text
  registered : ∀ patterns r pattern, find patterns r = some pattern →
    pattern ∈ patterns
  exact_path : ∀ patterns r pattern, find patterns r = some pattern →
    pattern.getLast? ≠ some '/' → r.path = pattern

def isPublicPath (p : Text) : Bool :=
  p = "/pair".toList || p = "/api/pair/verify".toList ||
    p = "/api/health".toList || p = "/api/pairing/status".toList ||
    "/static/".toList.isPrefixOf p

def isWritePath (p : Text) : Bool :=
  p = "/api/action".toList

def sensitiveReadPaths : List Text :=
  ["/api/logs".toList, "/api/devices".toList, "/api/live".toList,
    "/api/capabilities".toList, "/api/tokens".toList, "/api/config".toList,
    "/api/stats".toList, "/api/templates".toList, "/api/metrics".toList,
    "/api/iface_info".toList, "/api/offload_status".toList, "/api/sqm".toList,
    "/api/dpi_state".toList, "/api/dpi_probe".toList]

def isSensitiveReadPath (p : Text) : Bool :=
  p ∈ sensitiveReadPaths

/-- What `auth_required` holds when it is there. -/
inductive AuthValue where
  | bool (value : Bool)
  | other

/-- What `readAuthRequired` finds in `rules.json`. -/
inductive RulesContent where
  | unreadable
  | unparsable
  | object (authRequired : Option AuthValue)

def readAuthRequired : RulesContent → Bool
  | .object (some (.bool value)) => value
  | _ => true

def tokenIDLen : Nat := 11

def secretLen : Nat := 32

def hardExpireSec : Int := 60 * 86400

def isBase64URLString (s : Text) : Bool :=
  s ≠ [] && s.all fun c =>
    ('A' ≤ c && c ≤ 'Z') || ('a' ≤ c && c ≤ 'z') || isDigit c ||
      c = '_' || c = '-'

/-- `parseCookie`; `none` is `ErrBadCookieFormat`. -/
def parseCookie (v : Text) : Option (Text × Text) :=
  match v.idxOf? '.' with
  | none => none
  | some i =>
      let tokenID := v.take i
      let secret := v.drop (i + 1)
      if '.' ∈ secret then none
      else if tokenID.length ≠ tokenIDLen then none
      else if secret.length ≠ secretLen then none
      else if isBase64URLString tokenID && isBase64URLString secret then
        some (tokenID, secret)
      else none

inductive VerifyError where
  | badCookieFormat
  | unknownToken
  | tokenRevoked
  | hardExpired
  | secretMismatch
deriving DecidableEq, Repr

section

-- `bcrypt.CompareHashAndPassword` has no error.
variable (compareHashAndPassword : (hash password : Text) → Bool)

def verifyCookie (store : TokensStore) (now : Int) (cookieValue : Text) :
    Except VerifyError (Text × Token) :=
  match parseCookie cookieValue with
  | none => .error .badCookieFormat
  | some (tokenID, secret) =>
      match store.get tokenID with
      | none => .error .unknownToken
      | some tok =>
          if tok.revoked then .error .tokenRevoked
          else if 0 < tok.lastSeen ∧ hardExpireSec < now - tok.lastSeen then
            .error .hardExpired
          else if compareHashAndPassword tok.hash secret then
            .ok (tokenID, tok)
          else .error .secretMismatch

/-- `ipOnly`: an address without a port is taken as it is. -/
def ipOnly (addr : Text) : Text :=
  (Net.splitHostPort addr).getD addr

def isLoopbackRequest (r : HttpRequest) : Bool :=
  ((Net.splitHostPort r.remoteAddr).bind Net.parseIP).any Net.isLoopback

structure Server where
  store : TokensStore
  limiter : RateLimiter
  forceRemoteAuth : Bool
  rules : RulesContent
  /-- The file of the tokens while the store reads it. -/
  view : Nat → Option File
  now : Int

/-- What the chain makes of a request.  `context` is what the middleware hands
to a handler. -/
inductive Reply where
  | ran (route : Route) (context : Option (Text × Token))
  | redirectOrNotFound
  | rateLimited (retry : Int)
  | unauthorized (clearExisting : Bool)

variable (mux : ServeMux)

/-- The mux, with `unauthRateLimitMiddleware` around some handlers. -/
def Server.serve (s : Server) (r : HttpRequest)
    (context : Option (Text × Token)) : Server × Reply :=
  match (mux.find (routes.map Route.pattern) r).bind fun pattern =>
      routes.find? fun route => route.pattern = pattern with
  | none => (s, .redirectOrNotFound)
  | some route =>
      if route.limited then
        let checked := s.limiter.checkUnauth (ipOnly r.remoteAddr) s.now
        if checked.2.1 then
          ({ s with limiter := checked.1 }, .ran route context)
        else ({ s with limiter := checked.1 }, .rateLimited checked.2.2)
      else (s, .ran route context)

/-- `SyncIfChanged`, whose error is dropped. -/
def Server.sync (s : Server) : Server :=
  match s.store.syncIfChanged s.view with
  | .ok store => { s with store := store }
  | .error _ => s

def Server.authMiddleware (s : Server) (r : HttpRequest) : Server × Reply :=
  if isPublicPath r.path then s.serve mux r none
  else if isLoopbackRequest r ∧ r.origin = [] ∧ r.referer = [] then
    s.serve mux r none
  else
    let s := s.sync
    let value := (r.cookie cookieName).getD []
    if value = [] then
      if !readAuthRequired s.rules && !s.forceRemoteAuth &&
          !isWritePath r.path && !isSensitiveReadPath r.path then
        s.serve mux r none
      else (s, .unauthorized false)
    else
      match verifyCookie compareHashAndPassword s.store s.now value with
      | .error _ => (s, .unauthorized true)
      | .ok (tokenID, tok) =>
          let s := { s with store := s.store.updateLastSeen s.now tokenID }
          s.serve mux r (some (tokenID, tok))

/-- `handler`; what `accessLogMiddleware` adds does not change the reply. -/
def Server.handle (s : Server) (r : HttpRequest) : Server × Reply :=
  s.authMiddleware compareHashAndPassword mux r

end

/-- The routes under `/api/` that need credentials. -/
def Route.isProtected (route : Route) : Bool :=
  "/api/".toList.isPrefixOf route.pattern &&
    route.pattern ≠ "/api/health".toList &&
    route.pattern ≠ "/api/pair/verify".toList &&
    route.pattern ≠ "/api/logout".toList

/-- The cookie of the request passes `VerifyCookie`. -/
structure ValidCookie (compareHashAndPassword : (hash password : Text) → Bool)
    (store : TokensStore) (now : Int) (r : HttpRequest) : Prop where
  verified : ∃ value tokenID secret tok,
    r.cookie cookieName = some value ∧
    verifyCookie compareHashAndPassword store now value = .ok (tokenID, tok) ∧
    parseCookie value = some (tokenID, secret) ∧
    store.get tokenID = some tok ∧
    tok.revoked = false ∧
    (0 < tok.lastSeen → now - tok.lastSeen ≤ hardExpireSec) ∧
    compareHashAndPassword tok.hash secret = true

theorem verifyCookie_ok {compareHashAndPassword : Text → Text → Bool}
    {store : TokensStore} {now : Int} {value tokenID : Text} {tok : Token}
    (verified : verifyCookie compareHashAndPassword store now value =
      .ok (tokenID, tok)) :
    ∃ secret, parseCookie value = some (tokenID, secret) ∧
      store.get tokenID = some tok ∧ tok.revoked = false ∧
      (0 < tok.lastSeen → now - tok.lastSeen ≤ hardExpireSec) ∧
      compareHashAndPassword tok.hash secret = true := by
  unfold verifyCookie at verified
  split at verified
  · cases verified
  rename_i id secret parsed
  split at verified
  · cases verified
  rename_i found stored
  split at verified
  · cases verified
  rename_i live
  split at verified
  · cases verified
  rename_i young
  split at verified
  · rename_i same
    cases verified
    refine ⟨secret, parsed, stored, by simpa using live, ?_, same⟩
    intro seen
    exact not_lt.mp fun old => young ⟨seen, old⟩
  · cases verified

/-- Each protected path is in one of the two lists and is not public. -/
theorem protected_listed : (routes.all fun route =>
    !route.isProtected ||
      (route.pattern.getLast? ≠ some '/' && !isPublicPath route.pattern &&
        (isWritePath route.pattern || isSensitiveReadPath route.pattern))) =
      true := by
  decide +kernel

theorem serve_ran {mux : ServeMux} {s s' : Server} {r : HttpRequest}
    {context shown : Option (Text × Token)} {route : Route}
    (ran : s.serve mux r context = (s', .ran route shown))
    (isProtected : route.isProtected = true) :
    isPublicPath r.path = false ∧
      (isWritePath r.path || isSensitiveReadPath r.path) = true := by
  have chosen : ((mux.find (routes.map Route.pattern) r).bind fun pattern =>
      routes.find? fun route => route.pattern = pattern) = some route := by
    unfold Server.serve at ran
    split at ran
    · cases ran
    · rename_i found choice
      rw [choice]
      split at ran
      · dsimp only at ran
        split at ran
        · cases ran
          rfl
        · cases ran
      · cases ran
        rfl
  obtain ⟨pattern, matched, located⟩ := Option.bind_eq_some_iff.mp chosen
  have same : route.pattern = pattern := by
    simpa using List.find?_some located
  have listed := List.all_eq_true.mp protected_listed route
    (List.mem_of_find?_eq_some located)
  rw [isProtected] at listed
  simp only [Bool.not_true, Bool.false_or, Bool.and_eq_true,
    decide_eq_true_eq, Bool.not_eq_true'] at listed
  obtain ⟨⟨noSlash, hidden⟩, either⟩ := listed
  rw [mux.exact_path _ r pattern matched (same ▸ noSlash), ← same]
  exact ⟨hidden, either⟩

/-- A protected handler runs only for a request with a valid cookie, or for one
from the loopback interface that no browser has sent. -/
theorem protected_needs_credentials
    (compareHashAndPassword : (hash password : Text) → Bool) (mux : ServeMux)
    (s s' : Server) (r : HttpRequest) (route : Route)
    (context : Option (Text × Token))
    (isProtected : route.isProtected = true)
    (ran : s.handle compareHashAndPassword mux r = (s', .ran route context)) :
    ValidCookie compareHashAndPassword s.sync.store s.sync.now r ∨
      isLoopbackRequest r = true ∧ r.origin = [] ∧ r.referer = [] := by
  unfold Server.handle Server.authMiddleware at ran
  split at ran
  · rename_i isPublic
    rw [(serve_ran ran isProtected).1] at isPublic
    cases isPublic
  split at ran
  · rename_i loopback
    exact .inr loopback
  dsimp only at ran
  split at ran
  · split at ran
    · rename_i anonymous
      obtain ⟨_, listed⟩ := serve_ran ran isProtected
      simp only [Bool.and_eq_true, Bool.not_eq_true'] at anonymous
      rw [anonymous.1.2, anonymous.2] at listed
      cases listed
    · cases ran
  rename_i notEmpty
  split at ran
  · cases ran
  rename_i tokenID tok verified
  obtain ⟨secret, parsed, stored, live, young, same⟩ := verifyCookie_ok verified
  obtain ⟨value, sent⟩ : ∃ value, r.cookie cookieName = some value := by
    cases sent : r.cookie cookieName with
    | none => simp [sent] at notEmpty
    | some value => exact ⟨value, rfl⟩
  rw [sent, Option.getD_some] at verified parsed
  exact .inl ⟨value, tokenID, secret, tok, sent, verified, parsed, stored, live,
    young, same⟩

/-- A mux that serves exact paths, and everything else under `/`. -/
def exactMux : ServeMux where
  find patterns r :=
    if r.path ∈ patterns then some r.path
    else if "/".toList ∈ patterns then some "/".toList
    else none
  registered := by
    intro patterns r pattern found
    split at found
    · cases found
      assumption
    · split at found
      · cases found
        assumption
      · cases found
  exact_path := by
    intro patterns r pattern found noSlash
    split at found
    · cases found
      rfl
    · split at found
      · cases found
        exact absurd rfl noSlash
      · cases found

/-- The page on the device itself asks for the devices. -/
def localRequest : HttpRequest :=
  { method := "GET".toList
    host := "127.0.0.1:8080".toList
    path := "/api/devices".toList
    rawPath := []
    origin := []
    referer := []
    remoteAddr := "127.0.0.1:40000".toList
    cookies := [] }

def strictServer : Server :=
  { store := { tokens := ∅, lastRead := 0, dirty := ∅ }
    limiter := RateLimiter.newRateLimiter 0
    forceRemoteAuth := true
    rules := .unreadable
    view := fun _ => none
    now := 0 }

theorem local_request_is_served :
    ValidCookie (fun _ _ => false) strictServer.sync.store
        strictServer.sync.now localRequest ∨
      isLoopbackRequest localRequest = true ∧ localRequest.origin = [] ∧
        localRequest.referer = [] := by
  apply protected_needs_credentials (fun _ _ => false) exactMux strictServer
    strictServer localRequest ⟨"/api/devices".toList, .apiDevices, false⟩ none
  · decide +kernel
  · have notPublic : isPublicPath localRequest.path = false := by
      decide +kernel
    have loopback : isLoopbackRequest localRequest = true := by
      decide +kernel
    have chosen : ((exactMux.find (routes.map Route.pattern) localRequest).bind
        fun pattern => routes.find? fun route => route.pattern = pattern) =
        some ⟨"/api/devices".toList, .apiDevices, false⟩ := by
      decide +kernel
    unfold Server.handle Server.authMiddleware
    rw [notPublic, loopback]
    simp only [Server.serve, chosen]
    rfl

end Httpd
