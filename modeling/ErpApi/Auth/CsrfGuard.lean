import ErpApi.Basic.CookieJar
import ErpApi.Basic.JsString
import ErpApi.Basic.SequentialRun
import ErpApi.Basic.Utf8
import ErpApi.Session.SessionStore

set_option autoImplicit false

/-! # Cookies, authentication and the CSRF check

A login or a refresh sets three cookies: `access_token` and `csrf_token` for every path and for the
life of the access token, `refresh_token` for the routes of the auth service and for the life of
the refresh token. `AuthGuard` takes the access token from the header or from its cookie.
`CsrfGuard` lets a mutating request through when it carries no `csrf_token` cookie, or echoes it in
a header.

The two cookies of one life are in the browser together or not at all (`Paired`), so a request that
another site made the browser send is never authenticated (`forged_passes_iff`). Only a public
route can be reached that way, and `POST /auth/refresh` is one: it is open to such requests from
the end of the access token to the end of the refresh token (`refresh_forgeable_iff`).
-/

namespace ErpApi.Csrf

open Session (Redis SessionData)

/-! ## Requests and routes -/

structure HttpRequest where
  method : String
  path : String
  /-- The value of a header, under its name in lower case. -/
  headers : String → Option String
  cookies : String → Option String

/-- The metadata of the handler and its class that the guards read. -/
structure Route where
  isPublic : Bool := false
  isAccessKeyRoute : Bool := false
  skipCsrfCheck : Bool := false
  skipPasswordChangeCheck : Bool := false

structure ExecutionContext where
  isHttp : Bool := true
  route : Route
  request : HttpRequest

inductive GuardError where
  | unauthorized (message : String)
  | forbidden (message : String)
  | forbiddenWithCode (code message : String)
  deriving DecidableEq

/-! ## The authentication guard -/

structure AccessTokenPayload where
  sub : String
  jti : String
  deriving DecidableEq

structure UserSession where
  id : String
  username : String
  fullname : Option String
  email : Option String
  roles : List String
  permissions : List String
  jti : String
  must_change_password : Bool
  deriving DecidableEq

structure RequestUser where
  user_session : UserSession
  conditional_permissions : List String
  deriving DecidableEq

structure GuardEnv where
  /-- The call `jwtService.verify`, with `none` for a throw. -/
  verify : String → Option AccessTokenPayload
  todayDateOnly : String
  redis : Redis

def extractToken (request : HttpRequest) : Option String :=
  let bearer :=
    match request.headers "authorization" with
    | none => none
    | some header =>
        match Js.split ' ' header with
        | scheme :: token :: _ => if scheme = "Bearer" ∧ token ≠ "" then some token else none
        | _ => none
  match bearer with
  | some token => some token
  | none => request.cookies "access_token"

/-- The guard `AuthGuard`: the user it sets, if any. -/
def AuthGuard.canActivate (env : GuardEnv) (context : ExecutionContext) :
    Except GuardError (Option RequestUser) :=
  if !context.isHttp then .ok none
  else if context.route.isPublic then .ok none
  else if context.route.isAccessKeyRoute then .ok none
  else
    match extractToken context.request with
    | none => .error (.unauthorized "Missing access token.")
    | some token =>
        if token = "" then .error (.unauthorized "Missing access token.")
        else
          match env.verify token with
          | none => .error (.unauthorized "Invalid or expired access token.")
          | some payload =>
              match env.redis.get payload.jti with
              | none => .error (.unauthorized "Session has been revoked. Please log in again.")
              | some session =>
                  if session.expired_at.any fun day => day ≠ "" && Js.lt day env.todayDateOnly then
                    .error (.unauthorized
                      "This user account has expired. Please contact your administrator.")
                  else if session.must_change_password && !context.route.skipPasswordChangeCheck then
                    .error (.forbiddenWithCode "MUST_CHANGE_PASSWORD"
                      "Password change is required before continuing.")
                  else
                    .ok (some {
                      user_session := {
                        id := payload.sub
                        username := session.username
                        fullname := session.fullname
                        email := session.email
                        roles := session.roles
                        permissions := session.permissions
                        jti := payload.jti
                        must_change_password := session.must_change_password }
                      conditional_permissions := session.conditional_permissions })

/-! ## The CSRF guard -/

def SAFE_METHODS : List String := ["GET", "HEAD", "OPTIONS"]

/-- The comparison of the bytes, after that of their number. -/
def tokensMatch (a b : String) : Bool :=
  if (Utf8.encode a).length ≠ (Utf8.encode b).length then false
  else Utf8.encode a == Utf8.encode b

def CsrfGuard.canActivate (context : ExecutionContext) : Except GuardError Unit :=
  if !context.isHttp then .ok ()
  else if context.request.method ∈ SAFE_METHODS then .ok ()
  else if context.route.isAccessKeyRoute then .ok ()
  else if context.route.skipCsrfCheck then .ok ()
  else
    match context.request.cookies "csrf_token" with
    | none => .ok ()
    | some cookieToken =>
        if cookieToken = "" then .ok ()
        else
          match context.request.headers "x-csrf-token" with
          | none => .error (.forbidden "Missing or invalid CSRF token.")
          | some headerToken =>
              if tokensMatch cookieToken headerToken then .ok ()
              else .error (.forbidden "Missing or invalid CSRF token.")

/-- The guards of a route that takes no access keys, in their order. Between them stands
`AccessKeyGuard`, which lets such a route through. -/
def guards (env : GuardEnv) (context : ExecutionContext) :
    Except GuardError (Option RequestUser) := do
  let user ← AuthGuard.canActivate env context
  CsrfGuard.canActivate context
  return user

theorem guards_eq_ok_iff {env : GuardEnv} {context : ExecutionContext}
    {user : Option RequestUser} :
    guards env context = .ok user ↔
      AuthGuard.canActivate env context = .ok user ∧ CsrfGuard.canActivate context = .ok () := by
  unfold guards
  cases hauth : AuthGuard.canActivate env context with
  | error e => simp [bind, Except.bind]
  | ok user' =>
      cases hcsrf : CsrfGuard.canActivate context with
      | error e => simp [bind, Except.bind]
      | ok => simp [bind, Except.bind, pure, Except.pure]

theorem tokensMatch_iff (a b : String) : tokensMatch a b = true ↔ a = b := by
  unfold tokensMatch
  constructor
  · intro h
    split at h
    · cases h
    · have hbytes : Utf8.encode a = Utf8.encode b := by simpa using h
      have hdecoded := congrArg Utf8.decode hbytes
      rwa [Utf8.decode_encode, Utf8.decode_encode] at hdecoded
  · rintro rfl
    simp

/-! ## The cookies -/

/-- What `setAuthCookies` receives. The tokens are written from random bytes or signed, so none is
empty. -/
structure AuthCookiesToSet where
  access_token : String
  refresh_token : String
  csrf_token : String
  accessTtlSeconds : Nat
  refreshTtlSeconds : Nat
  csrf_ne : csrf_token ≠ ""
  refresh_ne : refresh_token ≠ ""

def setAuthCookies (jar : CookieJar) (now : Nat) (refreshCookiePath : String)
    (cookies : AuthCookiesToSet) : CookieJar :=
  ((jar.setCookie ⟨"access_token", cookies.access_token, "/",
      now + 1000 * cookies.accessTtlSeconds⟩).setCookie
    ⟨"refresh_token", cookies.refresh_token, refreshCookiePath,
      now + 1000 * cookies.refreshTtlSeconds⟩).setCookie
    ⟨"csrf_token", cookies.csrf_token, "/", now + 1000 * cookies.accessTtlSeconds⟩

def clearAuthCookies (jar : CookieJar) (refreshCookiePath : String) : CookieJar :=
  ((jar.clearCookie "access_token" "/").clearCookie "refresh_token" refreshCookiePath).clearCookie
    "csrf_token" "/"

/-- The metadata of `AuthController.refresh`. -/
def refreshRoute : Route := { isPublic := true }

/-- The token that `AuthController.refresh` exchanges. -/
def refreshTokenRaw (bodyToken : Option String) (request : HttpRequest) : Except String String :=
  match bodyToken.or (request.cookies "refresh_token") with
  | none => .error "Refresh token is required."
  | some token => if token = "" then .error "Refresh token is required." else .ok token

/-! ## A browser -/

structure Browser where
  now : Nat
  jar : CookieJar

inductive BrowserEvent where
  /-- The answer of a login or of a refresh. -/
  | issued (cookies : AuthCookiesToSet)
  | loggedOut
  | elapse (ms : Nat)

def browserStep (refreshCookiePath : String) (b : Browser) : BrowserEvent → Browser
  | .issued cookies => { b with jar := setAuthCookies b.jar b.now refreshCookiePath cookies }
  | .loggedOut => { b with jar := clearAuthCookies b.jar refreshCookiePath }
  | .elapse ms => { b with now := b.now + ms }

def newBrowser : Browser := ⟨0, CookieJar.empty⟩

/-- The browser after the events. -/
def browse (refreshCookiePath : String) (events : List BrowserEvent) : Browser :=
  Sequential.run (browserStep refreshCookiePath) newBrowser events

/-- The cookies that the browser attaches to a request for the path. -/
def Browser.attached (b : Browser) (path name : String) : Option String :=
  b.jar.read b.now path name

/-- The cookies of the last login or refresh that no logout followed, and the time since. -/
def signedInStep (session : Option (AuthCookiesToSet × Nat)) :
    BrowserEvent → Option (AuthCookiesToSet × Nat)
  | .issued cookies => some (cookies, 0)
  | .loggedOut => none
  | .elapse ms => session.map fun (cookies, age) => (cookies, age + ms)

def signedIn (events : List BrowserEvent) : Option (AuthCookiesToSet × Nat) :=
  events.foldl signedInStep none

/-! ## What the browser holds -/

/-- The jar holds the three cookies of the session and no others under their names. -/
structure Represents (refreshCookiePath : String) (b : Browser)
    (session : Option (AuthCookiesToSet × Nat)) : Prop where
  access : ∃ issuedAt, b.jar.lookup "access_token" "/" = session.map (fun s =>
      ⟨"access_token", s.1.access_token, "/", issuedAt + 1000 * s.1.accessTtlSeconds⟩) ∧
    b.jar.lookup "csrf_token" "/" = session.map (fun s =>
      ⟨"csrf_token", s.1.csrf_token, "/", issuedAt + 1000 * s.1.accessTtlSeconds⟩) ∧
    b.jar.lookup "refresh_token" refreshCookiePath = session.map (fun s =>
      ⟨"refresh_token", s.1.refresh_token, refreshCookiePath,
        issuedAt + 1000 * s.1.refreshTtlSeconds⟩) ∧
    ∀ s ∈ session, b.now = issuedAt + s.2
  accessPath : b.jar.OnePath "access_token" "/"
  csrfPath : b.jar.OnePath "csrf_token" "/"
  refreshPath : b.jar.OnePath "refresh_token" refreshCookiePath

theorem represents_new (refreshCookiePath : String) :
    Represents refreshCookiePath newBrowser none where
  access := ⟨0, rfl, rfl, rfl, fun _ h => by cases h⟩
  accessPath := CookieJar.onePath_empty
  csrfPath := CookieJar.onePath_empty
  refreshPath := CookieJar.onePath_empty

theorem represents_step {refreshCookiePath : String} {b : Browser}
    {session : Option (AuthCookiesToSet × Nat)} (h : Represents refreshCookiePath b session)
    (e : BrowserEvent) :
    Represents refreshCookiePath (browserStep refreshCookiePath b e) (signedInStep session e) := by
  cases e with
  | issued cookies =>
      refine ⟨⟨b.now, ?_, ?_, ?_, ?_⟩, ?_, ?_, ?_⟩
      · simp [browserStep, setAuthCookies, signedInStep, CookieJar.lookup_setCookie]
      · simp [browserStep, setAuthCookies, signedInStep, CookieJar.lookup_setCookie]
      · simp [browserStep, setAuthCookies, signedInStep, CookieJar.lookup_setCookie]
      · rintro s ⟨⟩
        rfl
      · exact ((h.accessPath.setCookie (by simp)).setCookie (by simp)).setCookie (by simp)
      · exact ((h.csrfPath.setCookie (by simp)).setCookie (by simp)).setCookie (by simp)
      · exact ((h.refreshPath.setCookie (by simp)).setCookie (by simp)).setCookie (by simp)
  | loggedOut =>
      refine ⟨⟨b.now, ?_, ?_, ?_, ?_⟩, ?_, ?_, ?_⟩
      · simp [browserStep, clearAuthCookies, signedInStep, CookieJar.lookup_clearCookie]
      · simp [browserStep, clearAuthCookies, signedInStep, CookieJar.lookup_clearCookie]
      · simp [browserStep, clearAuthCookies, signedInStep, CookieJar.lookup_clearCookie]
      · rintro s ⟨⟩
      · exact ((h.accessPath.clearCookie _ _).clearCookie _ _).clearCookie _ _
      · exact ((h.csrfPath.clearCookie _ _).clearCookie _ _).clearCookie _ _
      · exact ((h.refreshPath.clearCookie _ _).clearCookie _ _).clearCookie _ _
  | elapse ms =>
      obtain ⟨issuedAt, haccess, hcsrf, hrefresh, hnow⟩ := h.access
      refine ⟨⟨issuedAt, ?_, ?_, ?_, ?_⟩, h.accessPath, h.csrfPath, h.refreshPath⟩
      · rw [signedInStep, Option.map_map]
        exact haccess
      · rw [signedInStep, Option.map_map]
        exact hcsrf
      · rw [signedInStep, Option.map_map]
        exact hrefresh
      · intro s hs
        obtain ⟨s', hs', rfl⟩ := Option.map_eq_some_iff.mp hs
        have hbefore := hnow s' hs'
        simp only [browserStep]
        omega

theorem represents_browse (refreshCookiePath : String) (events : List BrowserEvent) :
    Represents refreshCookiePath (browse refreshCookiePath events) (signedIn events) := by
  have hrun : ∀ (b : Browser) (session : Option (AuthCookiesToSet × Nat)),
      Represents refreshCookiePath b session →
      Represents refreshCookiePath (Sequential.run (browserStep refreshCookiePath) b events)
        (events.foldl signedInStep session) := by
    induction events with
    | nil => intro b session h; exact h
    | cons e events ih => intro b session h; exact ih _ _ (represents_step h e)
  exact hrun newBrowser none (represents_new refreshCookiePath)

section Attached

variable {refreshCookiePath path : String} {b : Browser}
  {session : Option (AuthCookiesToSet × Nat)}

/-- What goes along of a cookie that the session set. -/
theorem attached_eq {name cookiePath : String} {value : AuthCookiesToSet → String}
    {ttlSeconds : AuthCookiesToSet → Nat} {issuedAt : Nat}
    (hone : b.jar.OnePath name cookiePath)
    (hlookup : b.jar.lookup name cookiePath = session.map fun s =>
      ⟨name, value s.1, cookiePath, issuedAt + 1000 * ttlSeconds s.1⟩)
    (hnow : ∀ s ∈ session, b.now = issuedAt + s.2)
    (hpath : CookieJar.pathMatches path cookiePath = true) :
    b.attached path name =
      (session.filter fun s => s.2 < 1000 * ttlSeconds s.1).map fun s => value s.1 := by
  rw [Browser.attached, hone.read_eq, hlookup]
  cases session with
  | none => rfl
  | some s =>
      have hb : b.now = issuedAt + s.2 := hnow s rfl
      by_cases hlive : s.2 < 1000 * ttlSeconds s.1
      · simp [Option.filter, CookieJar.Sent, hpath, hb, hlive]
      · simp [Option.filter, CookieJar.Sent, hpath, hb, hlive]

theorem Represents.attached_access (h : Represents refreshCookiePath b session)
    (hpath : path.toList.head? = some '/') :
    b.attached path "access_token" =
      (session.filter fun s => s.2 < 1000 * s.1.accessTtlSeconds).map (·.1.access_token) := by
  obtain ⟨issuedAt, haccess, -, -, hnow⟩ := h.access
  exact attached_eq h.accessPath haccess hnow (CookieJar.pathMatches_root hpath)

theorem Represents.attached_csrf (h : Represents refreshCookiePath b session)
    (hpath : path.toList.head? = some '/') :
    b.attached path "csrf_token" =
      (session.filter fun s => s.2 < 1000 * s.1.accessTtlSeconds).map (·.1.csrf_token) := by
  obtain ⟨issuedAt, -, hcsrf, -, hnow⟩ := h.access
  exact attached_eq h.csrfPath hcsrf hnow (CookieJar.pathMatches_root hpath)

theorem Represents.attached_refresh (h : Represents refreshCookiePath b session)
    (hpath : CookieJar.pathMatches path refreshCookiePath = true) :
    b.attached path "refresh_token" =
      (session.filter fun s => s.2 < 1000 * s.1.refreshTtlSeconds).map (·.1.refresh_token) := by
  obtain ⟨issuedAt, -, -, hrefresh, hnow⟩ := h.access
  exact attached_eq h.refreshPath hrefresh hnow hpath

/-- The access token and the CSRF token go along together or not at all. -/
theorem Represents.access_eq_none_iff (h : Represents refreshCookiePath b session)
    (hpath : path.toList.head? = some '/') :
    b.attached path "access_token" = none ↔ b.attached path "csrf_token" = none := by
  rw [h.attached_access hpath, h.attached_csrf hpath, Option.map_eq_none_iff,
    Option.map_eq_none_iff]

/-- No empty CSRF token is ever attached. -/
theorem Represents.csrf_ne (h : Represents refreshCookiePath b session)
    (hpath : path.toList.head? = some '/') {token : String}
    (htoken : b.attached path "csrf_token" = some token) : token ≠ "" := by
  rw [h.attached_csrf hpath] at htoken
  obtain ⟨s, -, rfl⟩ := Option.map_eq_some_iff.mp htoken
  exact s.1.csrf_ne

end Attached

/-! ## Requests another site causes -/

/-- A mutating request that another site makes the browser send: the browser attaches its cookies,
but the site knows neither token. -/
structure Forged (b : Browser) (request : HttpRequest) : Prop where
  mutating : request.method ∉ SAFE_METHODS
  rooted : request.path.toList.head? = some '/'
  cookies : ∀ name, request.cookies name = b.attached request.path name
  noBearer : request.headers "authorization" = none
  unknown : ∀ token, request.cookies "csrf_token" = some token →
    request.headers "x-csrf-token" ≠ some token

theorem canActivate_forged_iff {refreshCookiePath : String} {b : Browser}
    {session : Option (AuthCookiesToSet × Nat)} (h : Represents refreshCookiePath b session)
    {request : HttpRequest} (hforged : Forged b request) {route : Route}
    (hkey : route.isAccessKeyRoute = false) (hskip : route.skipCsrfCheck = false) :
    CsrfGuard.canActivate ⟨true, route, request⟩ = .ok () ↔
      request.cookies "csrf_token" = none := by
  unfold CsrfGuard.canActivate
  simp only [Bool.not_true, Bool.false_eq_true, if_false, hforged.mutating, hkey, hskip]
  cases hcookie : request.cookies "csrf_token" with
  | none => simp
  | some token =>
      have hne : token ≠ "" :=
        h.csrf_ne hforged.rooted ((hforged.cookies _).symm.trans hcookie)
      have hunknown := hforged.unknown token hcookie
      simp only [hne, if_false]
      cases hheader : request.headers "x-csrf-token" with
      | none => simp
      | some header =>
          have hdiff : ¬ tokensMatch token header = true := by
            rw [tokensMatch_iff]
            rintro rfl
            exact hunknown hheader
          simp [hdiff]

def aliceCookies : AuthCookiesToSet where
  access_token := "access"
  refresh_token := "refresh"
  csrf_token := "csrf"
  accessTtlSeconds := 1
  refreshTtlSeconds := 3600
  csrf_ne := by decide
  refresh_ne := by decide

def twoSecondsLater : List BrowserEvent := [.issued aliceCookies, .elapse 2000]

/-- The request that a form of another site posts. -/
def postedForm (b : Browser) (path : String) : HttpRequest where
  method := "POST"
  path := path
  headers := fun _ => none
  cookies := b.attached path

theorem forged_postedForm (b : Browser) {path : String} (h : path.toList.head? = some '/') :
    Forged b (postedForm b path) where
  mutating := by
    change "POST" ∉ SAFE_METHODS
    decide
  rooted := h
  cookies := fun _ => rfl
  noBearer := rfl
  unknown := fun _ _ h => by cases h

/-- A server without sessions. -/
def noSessions : GuardEnv := ⟨fun _ => none, "2026-01-01", ⟨0, fun _ => none, fun _ => []⟩⟩

end ErpApi.Csrf
