import ErpApi.Auth.CsrfGuard
import Mathlib.Data.List.Basic

set_option autoImplicit false

/-! # The pages that call with `fetchWithAuth`

Every page of the browser keeps its CSRF token and at most one promise `pendingRefresh`. A call of
`fetchWithAuth` whose first answer is 401 waits for that promise, starting the refresh when there
is none, and then tries once more; when the refresh fails it gives the session up.

The model follows the pages, the requests under way in both directions, the cookies of the browser
and the refresh tokens of the server; its events come in any order. A page never has two refreshes
under way, a call sends at most two requests, and there are at most as many refreshes as calls
(`flight_run`). What the browser and the server make of the tokens is the subject of
`Auth/TokenExchange.lean`.
-/

namespace ErpApi.Csrf

/-! ## The state -/

/-- What is known of a refresh token at the server. -/
inductive TokenStatus where
  | unknown
  | live
  /-- Used up by a refresh. -/
  | rotated
  /-- Revoked by a logout or by an administrator. -/
  | revoked
  deriving DecidableEq

inductive ExchangeKind where
  | login
  | refresh
  | logout
  deriving DecidableEq

inductive Answer where
  | tokens (cookies : AuthCookiesToSet)
  /-- The answer of a logout; it clears the cookies. -/
  | cleared
  | refused

inductive ExchangePhase where
  /-- The request is on its way to the server. -/
  | sent
  /-- The answer is on its way back. -/
  | answered (answer : Answer)
  /-- The browser has taken the cookies of the answer; its body is being read. -/
  | reading (answer : Answer)
  | settled (ok : Bool)

/-- A call of `login`, `refreshAccessToken` or `logout`. -/
structure Exchange where
  page : Nat
  kind : ExchangeKind
  request : HttpRequest
  phase : ExchangePhase

inductive CallPhase where
  /-- The first request is under way. -/
  | first
  /-- The call awaits the refresh with the number. -/
  | waiting (refresh : Nat)
  /-- The second request is under way. -/
  | retry
  | answered (status : Nat)
  | failed

/-- A call of `fetchWithAuth`, with the requests it has sent, the last one first. -/
structure Call where
  page : Nat
  path : String
  method : String
  sent : List HttpRequest
  phase : CallPhase

structure Page where
  csrf_token : Option String
  pendingRefresh : Option Nat

structure State where
  browser : Browser
  /-- The CSRF token that `localStorage` keeps for pages opened later. -/
  storage : Option String
  pages : Nat → Page
  calls : List Call
  exchanges : List Exchange
  status : String → TokenStatus

structure Config where
  authBase : String
  refreshCookiePath : String

def init : State where
  browser := newBrowser
  storage := none
  pages := fun _ => ⟨none, none⟩
  calls := []
  exchanges := []
  status := fun _ => .unknown

def Exchange.Settled (x : Exchange) : Prop :=
  match x.phase with
  | .settled _ => True
  | _ => False

instance (x : Exchange) : Decidable x.Settled := by
  unfold Exchange.Settled
  split <;> infer_instance

def Call.Ended (c : Call) : Prop :=
  match c.phase with
  | .answered _ => True
  | .failed => True
  | _ => False

instance (c : Call) : Decidable c.Ended := by
  unfold Call.Ended
  split <;> infer_instance

/-! ## The page -/

/-- The name of a method, a text of ASCII characters, in upper case. -/
def toUpperCase (method : String) : String := String.ofList (method.toList.map Char.toUpper)

/-- The methods that `fetch` writes in upper case. -/
def normalizeMethod (method : String) : String :=
  if toUpperCase method ∈ ["DELETE", "GET", "HEAD", "OPTIONS", "POST", "PUT"] then
    toUpperCase method
  else method

/-- The request of `fetch` with the headers of `withCsrfHeader`. -/
def State.fetchRequest (s : State) (page : Nat) (path method : String) : HttpRequest where
  method := normalizeMethod method
  path := path
  headers := fun name =>
    if name = "x-csrf-token" then
      match (s.pages page).csrf_token with
      | none => none
      | some token => if token ≠ "" ∧ toUpperCase method ∉ SAFE_METHODS then some token else none
    else if name = "x-client-app" then some "iam-admin-ui"
    else none
  cookies := fun name => s.browser.attached path name

/-- The requests of the login service carry the token whatever their method. -/
def State.exchangeRequest (s : State) (page : Nat) (path : String) (withToken : Bool) :
    HttpRequest where
  method := "POST"
  path := path
  headers := fun name =>
    if name = "x-csrf-token" then
      match (s.pages page).csrf_token with
      | none => none
      | some token => if token ≠ "" ∧ withToken = true then some token else none
    else if name = "x-client-app" then some "iam-admin-ui"
    else if name = "content-type" then some "application/json"
    else none
  cookies := fun name => s.browser.attached path name

def ExchangeKind.path (cfg : Config) : ExchangeKind → String
  | .login => cfg.authBase ++ "/auth/login"
  | .refresh => cfg.authBase ++ "/auth/refresh"
  | .logout => cfg.authBase ++ "/auth/logout"

def startExchange (cfg : Config) (s : State) (page : Nat) (kind : ExchangeKind) : State :=
  let request := s.exchangeRequest page (kind.path cfg) (kind ≠ .login)
  { s with exchanges := s.exchanges ++ [⟨page, kind, request, .sent⟩] }

def setPage (s : State) (page : Nat) (p : Page) : State :=
  { s with pages := Function.update s.pages page p }

def setCsrfToken (s : State) (page : Nat) (token : String) : State :=
  { setPage s page { s.pages page with csrf_token := some token } with storage := some token }

def clearSession (s : State) (page : Nat) : State :=
  { setPage s page { s.pages page with csrf_token := none } with storage := none }

def setCall (s : State) (i : Nat) (c : Call) : State :=
  { s with calls := s.calls.set i c }

def setExchange (s : State) (r : Nat) (x : Exchange) : State :=
  { s with exchanges := s.exchanges.set r x }

/-- The statement `pendingRefresh ??= refreshAccessToken().finally(..)` and the `await` after it. -/
def awaitRefresh (cfg : Config) (s : State) (i : Nat) (c : Call) : State :=
  match (s.pages c.page).pendingRefresh with
  | some r => setCall s i { c with phase := .waiting r }
  | none =>
      let r := s.exchanges.length
      let s := startExchange cfg s c.page .refresh
      let s := setPage s c.page { s.pages c.page with pendingRefresh := some r }
      setCall s i { c with phase := .waiting r }

/-- The promise of an exchange settles. A refresh runs its `finally`, a logout its own. -/
def settle (s : State) (r : Nat) (x : Exchange) (ok : Bool) : State :=
  let s := setExchange s r { x with phase := .settled ok }
  match x.kind with
  | .login => s
  | .refresh => setPage s x.page { s.pages x.page with pendingRefresh := none }
  | .logout => clearSession s x.page

/-- What the page does when it has read the body of an answer. -/
def finishReading (s : State) (r : Nat) (x : Exchange) : Answer → State
  | .tokens cookies => settle (setCsrfToken s x.page cookies.csrf_token) r x true
  | .cleared => settle s r x true
  | .refused => settle s r x false

/-! ## The server -/

/-- What the checks of an account and the issuing of tokens yield. -/
inductive Outcome where
  | accept (cookies : AuthCookiesToSet)
  | refuse

def revoke (status : String → TokenStatus) (token : String) : String → TokenStatus :=
  if status token = .live then Function.update status token .revoked else status

/-- The handlers of the auth service: the tokens after the request, and its answer. -/
def serve (status : String → TokenStatus) (x : Exchange) (outcome : Outcome) :
    (String → TokenStatus) × Answer :=
  match x.kind with
  | .login =>
      match outcome with
      | .accept cookies => (Function.update status cookies.refresh_token .live, .tokens cookies)
      | .refuse => (status, .refused)
  | .refresh =>
      match CsrfGuard.canActivate ⟨true, refreshRoute, x.request⟩ with
      | .error _ => (status, .refused)
      | .ok _ =>
          match refreshTokenRaw none x.request with
          | .error _ => (status, .refused)
          | .ok token =>
              if status token = .live then
                match outcome with
                | .accept cookies =>
                    (Function.update (Function.update status token .rotated)
                      cookies.refresh_token .live, .tokens cookies)
                -- The token is used up before the account is checked.
                | .refuse => (Function.update status token .rotated, .refused)
              else (status, .refused)
  | .logout =>
      match outcome with
      | .accept _ =>
          match refreshTokenRaw none x.request with
          | .error _ => (status, .cleared)
          | .ok token => (revoke status token, .cleared)
      | .refuse => (status, .refused)

/-! ## The steps -/

/-- What the browser does with the headers of an answer. -/
def takeCookies (cfg : Config) (b : Browser) : Answer → Browser
  | .tokens cookies => browserStep cfg.refreshCookiePath b (.issued cookies)
  | .cleared => browserStep cfg.refreshCookiePath b .loggedOut
  | .refused => b

inductive Event where
  /-- A page calls `fetchWithAuth`. -/
  | fetch (page : Nat) (path method : String)
  /-- The request of a call is answered, or fails. -/
  | respond (i : Nat) (status : Nat)
  | drop (i : Nat)
  /-- A call goes on when the refresh it awaits has settled. -/
  | resume (i : Nat)
  | login (page : Nat)
  | logout (page : Nat)
  | serve (r : Nat) (outcome : Outcome)
  | deliver (r : Nat)
  | finish (r : Nat)
  /-- The request of an exchange or its answer gets lost. -/
  | lose (r : Nat)
  /-- A page is opened, or reloaded when none of its calls is under way. -/
  | openPage (page : Nat)
  | revoke (token : String)
  | elapse (ms : Nat)

def step (cfg : Config) (s : State) : Event → State
  | .fetch page path method =>
      { s with calls := s.calls ++ [⟨page, path, method, [s.fetchRequest page path method], .first⟩] }
  | .respond i status =>
      match s.calls[i]? with
      | none => s
      | some c =>
          match c.phase with
          | .first =>
              if status ≠ 401 then setCall s i { c with phase := .answered status }
              else awaitRefresh cfg s i c
          | .retry => setCall s i { c with phase := .answered status }
          | _ => s
  | .drop i =>
      match s.calls[i]? with
      | none => s
      | some c =>
          match c.phase with
          | .first => setCall s i { c with phase := .failed }
          | .retry => setCall s i { c with phase := .failed }
          | _ => s
  | .resume i =>
      match s.calls[i]? with
      | none => s
      | some c =>
          match c.phase with
          | .waiting r =>
              match s.exchanges[r]? with
              | none => s
              | some x =>
                  match x.phase with
                  | .settled true =>
                      setCall s i { c with
                        sent := s.fetchRequest c.page c.path c.method :: c.sent, phase := .retry }
                  | .settled false =>
                      setCall (clearSession s c.page) i { c with phase := .failed }
                  | _ => s
          | _ => s
  | .login page => startExchange cfg s page .login
  | .logout page => startExchange cfg s page .logout
  | .serve r outcome =>
      match s.exchanges[r]? with
      | none => s
      | some x =>
          match x.phase with
          | .sent =>
              setExchange { s with status := (serve s.status x outcome).1 } r
                { x with phase := .answered (serve s.status x outcome).2 }
          | _ => s
  | .deliver r =>
      match s.exchanges[r]? with
      | none => s
      | some x =>
          match x.phase with
          | .answered answer =>
              setExchange { s with browser := takeCookies cfg s.browser answer } r
                { x with phase := .reading answer }
          | _ => s
  | .finish r =>
      match s.exchanges[r]? with
      | none => s
      | some x =>
          match x.phase with
          | .reading answer => finishReading s r x answer
          | _ => s
  | .lose r =>
      match s.exchanges[r]? with
      | none => s
      | some x => if x.Settled then s else settle s r x false
  | .openPage page =>
      if (∀ x ∈ s.exchanges, x.page = page → x.Settled) ∧
          ∀ c ∈ s.calls, c.page = page → c.Ended then
        setPage s page ⟨s.storage, none⟩
      else s
  | .revoke token => { s with status := revoke s.status token }
  | .elapse ms => { s with browser := browserStep cfg.refreshCookiePath s.browser (.elapse ms) }

def run (cfg : Config) (events : List Event) : State := Sequential.run (step cfg) init events

/-! ## What one step can do -/

/-- The steps that change something, each with what makes it possible. -/
inductive Step (cfg : Config) (s : State) : Event → State → Prop where
  | idle (e : Event) : Step cfg s e s
  | fetch (page : Nat) (path method : String) : Step cfg s (.fetch page path method)
      { s with calls := s.calls ++ [⟨page, path, method, [s.fetchRequest page path method], .first⟩] }
  | answer {i status : Nat} {c : Call} (hc : s.calls[i]? = some c)
      (hphase : c.phase = .first ∧ status ≠ 401 ∨ c.phase = .retry) :
      Step cfg s (.respond i status) (setCall s i { c with phase := .answered status })
  | await {i : Nat} {c : Call} (hc : s.calls[i]? = some c) (hphase : c.phase = .first) :
      Step cfg s (.respond i 401) (awaitRefresh cfg s i c)
  | drop {i : Nat} {c : Call} (hc : s.calls[i]? = some c)
      (hphase : c.phase = .first ∨ c.phase = .retry) :
      Step cfg s (.drop i) (setCall s i { c with phase := .failed })
  | retry {i r : Nat} {c : Call} {x : Exchange} (hc : s.calls[i]? = some c)
      (hphase : c.phase = .waiting r) (hx : s.exchanges[r]? = some x)
      (hok : x.phase = .settled true) :
      Step cfg s (.resume i) (setCall s i { c with
        sent := s.fetchRequest c.page c.path c.method :: c.sent, phase := .retry })
  | giveUp {i r : Nat} {c : Call} {x : Exchange} (hc : s.calls[i]? = some c)
      (hphase : c.phase = .waiting r) (hx : s.exchanges[r]? = some x)
      (hfail : x.phase = .settled false) :
      Step cfg s (.resume i) (setCall (clearSession s c.page) i { c with phase := .failed })
  | login (page : Nat) : Step cfg s (.login page) (startExchange cfg s page .login)
  | logout (page : Nat) : Step cfg s (.logout page) (startExchange cfg s page .logout)
  | serve {r : Nat} {x : Exchange} (outcome : Outcome) (hx : s.exchanges[r]? = some x)
      (hphase : x.phase = .sent) : Step cfg s (.serve r outcome)
      (setExchange { s with status := (serve s.status x outcome).1 } r
        { x with phase := .answered (serve s.status x outcome).2 })
  | deliver {r : Nat} {x : Exchange} {answer : Answer} (hx : s.exchanges[r]? = some x)
      (hphase : x.phase = .answered answer) : Step cfg s (.deliver r)
      (setExchange { s with browser := takeCookies cfg s.browser answer } r
        { x with phase := .reading answer })
  | finish {r : Nat} {x : Exchange} {answer : Answer} (hx : s.exchanges[r]? = some x)
      (hphase : x.phase = .reading answer) :
      Step cfg s (.finish r) (finishReading s r x answer)
  | lose {r : Nat} {x : Exchange} (hx : s.exchanges[r]? = some x) (hopen : ¬ x.Settled) :
      Step cfg s (.lose r) (settle s r x false)
  | openPage {page : Nat} (hexchanges : ∀ x ∈ s.exchanges, x.page = page → x.Settled)
      (hcalls : ∀ c ∈ s.calls, c.page = page → c.Ended) :
      Step cfg s (.openPage page) (setPage s page ⟨s.storage, none⟩)
  | revoke (token : String) :
      Step cfg s (.revoke token) { s with status := revoke s.status token }
  | elapse (ms : Nat) : Step cfg s (.elapse ms)
      { s with browser := browserStep cfg.refreshCookiePath s.browser (.elapse ms) }

theorem step_spec (cfg : Config) (s : State) (e : Event) : Step cfg s e (step cfg s e) := by
  cases e with
  | fetch page path method => exact .fetch page path method
  | respond i status =>
      simp only [step]
      cases hc : s.calls[i]? with
      | none => exact .idle _
      | some c =>
          simp only
          cases hphase : c.phase with
          | first =>
              by_cases hstatus : status = 401
              · subst hstatus
                exact .await hc hphase
              · simp only [hstatus, ne_eq, not_false_eq_true, if_true]
                exact .answer hc (.inl ⟨hphase, hstatus⟩)
          | retry => exact .answer hc (.inr hphase)
          | waiting r => exact .idle _
          | answered status' => exact .idle _
          | failed => exact .idle _
  | drop i =>
      simp only [step]
      cases hc : s.calls[i]? with
      | none => exact .idle _
      | some c =>
          simp only
          cases hphase : c.phase with
          | first => exact .drop hc (.inl hphase)
          | retry => exact .drop hc (.inr hphase)
          | waiting r => exact .idle _
          | answered status => exact .idle _
          | failed => exact .idle _
  | resume i =>
      simp only [step]
      cases hc : s.calls[i]? with
      | none => exact .idle _
      | some c =>
          simp only
          cases hphase : c.phase with
          | waiting r =>
              simp only
              cases hx : s.exchanges[r]? with
              | none => exact .idle _
              | some x =>
                  simp only
                  cases hsettled : x.phase with
                  | settled ok =>
                      cases ok with
                      | true => exact .retry hc hphase hx hsettled
                      | false => exact .giveUp hc hphase hx hsettled
                  | sent => exact .idle _
                  | answered answer => exact .idle _
                  | reading answer => exact .idle _
          | first => exact .idle _
          | retry => exact .idle _
          | answered status => exact .idle _
          | failed => exact .idle _
  | login page => exact .login page
  | logout page => exact .logout page
  | serve r outcome =>
      simp only [step]
      cases hx : s.exchanges[r]? with
      | none => exact .idle _
      | some x =>
          simp only
          cases hphase : x.phase with
          | sent => exact .serve outcome hx hphase
          | answered answer => exact .idle _
          | reading answer => exact .idle _
          | settled ok => exact .idle _
  | deliver r =>
      simp only [step]
      cases hx : s.exchanges[r]? with
      | none => exact .idle _
      | some x =>
          simp only
          cases hphase : x.phase with
          | answered answer => exact .deliver hx hphase
          | sent => exact .idle _
          | reading answer => exact .idle _
          | settled ok => exact .idle _
  | finish r =>
      simp only [step]
      cases hx : s.exchanges[r]? with
      | none => exact .idle _
      | some x =>
          simp only
          cases hphase : x.phase with
          | reading answer => exact .finish hx hphase
          | sent => exact .idle _
          | answered answer => exact .idle _
          | settled ok => exact .idle _
  | lose r =>
      simp only [step]
      cases hx : s.exchanges[r]? with
      | none => exact .idle _
      | some x =>
          simp only
          split
          · exact .idle _
          · exact .lose hx ‹_›
  | openPage page =>
      simp only [step]
      split
      · rename_i h
        exact .openPage h.1 h.2
      · exact .idle _
  | revoke token => exact .revoke token
  | elapse ms => exact .elapse ms

/-! ## One refresh at a time -/

/-- The page has the refresh with the number under way. -/
def State.InFlight (s : State) (page r : Nat) : Prop :=
  ∃ x, s.exchanges[r]? = some x ∧ x.kind = .refresh ∧ x.page = page ∧ ¬ x.Settled

/-- The promise a page keeps is that of the refresh it has under way. -/
def Single (s : State) : Prop :=
  ∀ page r, (s.pages page).pendingRefresh = some r ↔ s.InFlight page r

section InFlight

variable {s s' : State} {page r : Nat} {x : Exchange}

theorem getElem?_set_of_some {xs : List Exchange} (h : xs[r]? = some x) (x' : Exchange) (k : Nat) :
    (xs.set r x')[k]? = if k = r then some x' else xs[k]? := by
  obtain ⟨hlt, -⟩ := List.getElem?_eq_some_iff.mp h
  rw [List.getElem?_set]
  by_cases hk : k = r
  · simp [hk, hlt]
  · simp [hk, Ne.symm hk]

theorem inFlight_set (h : s.exchanges[r]? = some x) {x' : Exchange}
    (hset : s'.exchanges = s.exchanges.set r x') (hkind : x'.kind = x.kind)
    (hpage : x'.page = x.page) (hx : ¬ x.Settled) (hx' : ¬ x'.Settled) (p k : Nat) :
    s'.InFlight p k ↔ s.InFlight p k := by
  unfold State.InFlight
  simp only [hset, getElem?_set_of_some h]
  by_cases hk : k = r
  · subst hk
    simp [h, hkind, hpage, hx, hx']
  · simp [hk]

theorem inFlight_settle (h : s.exchanges[r]? = some x) {x' : Exchange}
    (hset : s'.exchanges = s.exchanges.set r x') (hx' : x'.Settled) (p k : Nat) :
    s'.InFlight p k ↔ s.InFlight p k ∧ k ≠ r := by
  unfold State.InFlight
  simp only [hset, getElem?_set_of_some h]
  by_cases hk : k = r
  · subst hk
    simp [hx']
  · simp [hk]

theorem getElem?_append_one {xs : List Exchange} (k : Nat) :
    (xs ++ [x])[k]? = if k = xs.length then some x else xs[k]? := by
  by_cases hlt : k < xs.length
  · rw [List.getElem?_append_left hlt, if_neg (by omega)]
  · rw [List.getElem?_append_right (by omega)]
    by_cases hk : k = xs.length
    · simp [hk]
    · have hpast : xs[k]? = none := List.getElem?_eq_none (by omega)
      have hone : k - xs.length ≠ 0 := by omega
      rw [if_neg hk, hpast]
      simp [hone]

theorem inFlight_start (happend : s'.exchanges = s.exchanges ++ [x]) (hx : ¬ x.Settled)
    (p k : Nat) : s'.InFlight p k ↔
      s.InFlight p k ∨ x.kind = .refresh ∧ x.page = p ∧ k = s.exchanges.length := by
  unfold State.InFlight
  simp only [happend, getElem?_append_one]
  by_cases hk : k = s.exchanges.length
  · subst hk
    simp [hx]
  · simp [hk]

end InFlight

section Pages

variable (s : State) (page q : Nat)

theorem setPage_pages (p : Page) :
    (setPage s page p).pages q = if q = page then p else s.pages q :=
  Function.update_apply ..

theorem setCsrfToken_pendingRefresh (token : String) :
    ((setCsrfToken s page token).pages q).pendingRefresh = (s.pages q).pendingRefresh := by
  simp only [setCsrfToken, setPage_pages]
  split
  · rename_i h
    rw [h]
  · rfl

theorem clearSession_pendingRefresh :
    ((clearSession s page).pages q).pendingRefresh = (s.pages q).pendingRefresh := by
  simp only [clearSession, setPage_pages]
  split
  · rename_i h
    rw [h]
  · rfl

end Pages

section Settle

variable (s : State) (r : Nat) (x : Exchange) (ok : Bool)

theorem settle_exchanges :
    (settle s r x ok).exchanges = s.exchanges.set r { x with phase := .settled ok } := by
  unfold settle
  cases x.kind <;> rfl

theorem settle_calls : (settle s r x ok).calls = s.calls := by
  unfold settle
  cases x.kind <;> rfl

theorem finishReading_calls (answer : Answer) :
    (finishReading s r x answer).calls = s.calls := by
  cases answer <;> exact settle_calls ..

theorem settle_pendingRefresh (q : Nat) :
    ((settle s r x ok).pages q).pendingRefresh =
      if x.kind = .refresh ∧ q = x.page then none else (s.pages q).pendingRefresh := by
  unfold settle
  cases hkind : x.kind with
  | login => rfl
  | refresh =>
      simp only [setPage_pages, true_and]
      split <;> rfl
  | logout => exact clearSession_pendingRefresh ..

end Settle

/-- The settling of a refresh frees its page; that of another exchange frees none. -/
theorem single_settle {s : State} (h : Single s) {r : Nat} {x : Exchange}
    (hx : s.exchanges[r]? = some x) (hopen : ¬ x.Settled) (ok : Bool) :
    Single (settle s r x ok) := by
  intro page k
  have hat : s.InFlight page r ↔ x.kind = .refresh ∧ page = x.page := by
    unfold State.InFlight
    rw [hx]
    simp [hopen, eq_comm]
  rw [inFlight_settle hx (settle_exchanges s r x ok) (by simp [Exchange.Settled]),
    settle_pendingRefresh, ← h page k]
  by_cases hfreed : x.kind = .refresh ∧ page = x.page
  · have hcurrent : (s.pages page).pendingRefresh = some r := (h page r).mpr (hat.mpr hfreed)
    rw [if_pos hfreed, hcurrent]
    simp [eq_comm]
  · rw [if_neg hfreed]
    refine ⟨fun hk => ⟨hk, ?_⟩, fun hk => hk.1⟩
    rintro rfl
    exact hfreed (hat.mp ((h page k).mp hk))

theorem single_startExchange {s : State} (h : Single s) (cfg : Config) (page : Nat)
    {kind : ExchangeKind} (hkind : kind ≠ .refresh) : Single (startExchange cfg s page kind) := by
  intro q k
  rw [inFlight_start rfl (by simp [Exchange.Settled])]
  simp only [hkind, false_and, or_false]
  exact h q k

theorem single_awaitRefresh {s : State} (h : Single s) (cfg : Config) (i : Nat) (c : Call) :
    Single (awaitRefresh cfg s i c) := by
  unfold awaitRefresh
  cases hpending : (s.pages c.page).pendingRefresh with
  | some r => exact h
  | none =>
      intro q k
      rw [inFlight_start rfl (by simp [Exchange.Settled]), ← h q k]
      simp only [setCall, setPage_pages]
      by_cases hq : q = c.page
      · subst hq
        simp [hpending, eq_comm]
      · simp [hq, Ne.symm hq, startExchange]

/-- An exchange that goes on without settling changes nothing for its page. -/
theorem single_advance {s s' : State} (h : Single s) {r : Nat} {x : Exchange}
    (hx : s.exchanges[r]? = some x) (hopen : ¬ x.Settled) {phase : ExchangePhase}
    (hpages : s'.pages = s.pages)
    (hset : s'.exchanges = s.exchanges.set r { x with phase := phase })
    (hphase : ¬ Exchange.Settled { x with phase := phase } := by simp [Exchange.Settled]) :
    Single s' := by
  intro q k
  rw [inFlight_set hx hset rfl rfl hopen hphase, hpages]
  exact h q k

theorem single_step {cfg : Config} {s s' : State} {e : Event} (h : Single s)
    (hstep : Step cfg s e s') : Single s' := by
  cases hstep with
  | idle => exact h
  | fetch => exact h
  | answer => exact h
  | await hc => exact single_awaitRefresh h cfg _ _
  | drop => exact h
  | retry => exact h
  | giveUp =>
      intro q k
      change ((clearSession s _).pages q).pendingRefresh = some k ↔ s.InFlight q k
      rw [clearSession_pendingRefresh]
      exact h q k
  | login page => exact single_startExchange h cfg page (by decide)
  | logout page => exact single_startExchange h cfg page (by decide)
  | @serve r x outcome hx hphase =>
      have hopen : ¬ x.Settled := by simp [Exchange.Settled, hphase]
      exact single_advance h hx hopen rfl rfl
  | @deliver r x answer hx hphase =>
      have hopen : ¬ x.Settled := by simp [Exchange.Settled, hphase]
      exact single_advance h hx hopen rfl rfl
  | @finish r x answer hx hphase =>
      have hopen : ¬ x.Settled := by simp [Exchange.Settled, hphase]
      cases answer with
      | tokens cookies =>
          have hset : Single (setCsrfToken s x.page cookies.csrf_token) := by
            intro q k
            rw [setCsrfToken_pendingRefresh]
            exact h q k
          exact single_settle hset hx hopen true
      | cleared => exact single_settle h hx hopen true
      | refused => exact single_settle h hx hopen false
  | lose hx hopen => exact single_settle h hx hopen false
  | @openPage page hexchanges hcalls =>
      intro q k
      rw [setPage_pages]
      change _ ↔ s.InFlight q k
      by_cases hq : q = page
      · subst hq
        rw [if_pos rfl]
        refine iff_of_false (by simp) ?_
        rintro ⟨x, hx, -, hpage, hopen⟩
        exact hopen (hexchanges x (List.mem_of_getElem? hx) hpage)
      · rw [if_neg hq]
        exact h q k
  | revoke => exact h
  | elapse => exact h

/-! ## The calls -/

/-- Exchanges are only added; they keep their kind and page, and a settled one does not change. -/
def Grows (xs xs' : List Exchange) : Prop :=
  ∀ (r : Nat) (x : Exchange), xs[r]? = some x → ∃ x' : Exchange, xs'[r]? = some x' ∧
    x'.kind = x.kind ∧ x'.page = x.page ∧ (x.Settled → x' = x)

theorem grows_refl (xs : List Exchange) : Grows xs xs :=
  fun _ x hx => ⟨x, hx, rfl, rfl, fun _ => rfl⟩

theorem grows_append (xs : List Exchange) (x : Exchange) : Grows xs (xs ++ [x]) := by
  intro r y hy
  obtain ⟨hlt, -⟩ := List.getElem?_eq_some_iff.mp hy
  exact ⟨y, by rw [getElem?_append_one, if_neg (by omega), hy], rfl, rfl, fun _ => rfl⟩

theorem grows_set {xs : List Exchange} {r : Nat} {x : Exchange} (phase : ExchangePhase)
    (hx : xs[r]? = some x) (hopen : ¬ x.Settled) :
    Grows xs (xs.set r { x with phase := phase }) := by
  intro k y hy
  by_cases hk : k = r
  · subst hk
    rw [hx] at hy
    cases hy
    exact ⟨{ x with phase := phase }, by rw [getElem?_set_of_some hx, if_pos rfl], rfl, rfl,
      fun hs => absurd hs hopen⟩
  · exact ⟨y, by rw [getElem?_set_of_some hx, if_neg hk, hy], rfl, rfl, fun _ => rfl⟩

theorem awaitRefresh_exchanges (cfg : Config) (s : State) (i : Nat) (c : Call) :
    (awaitRefresh cfg s i c).exchanges = s.exchanges ∨
      ∃ x, (awaitRefresh cfg s i c).exchanges = s.exchanges ++ [x] := by
  unfold awaitRefresh
  cases (s.pages c.page).pendingRefresh with
  | some r => exact .inl rfl
  | none => exact .inr ⟨_, rfl⟩

theorem finishReading_exchanges (s : State) (r : Nat) (x : Exchange) (answer : Answer) :
    ∃ ok, (finishReading s r x answer).exchanges =
      s.exchanges.set r { x with phase := .settled ok } := by
  cases answer with
  | tokens cookies => exact ⟨true, settle_exchanges ..⟩
  | cleared => exact ⟨true, settle_exchanges ..⟩
  | refused => exact ⟨false, settle_exchanges ..⟩

theorem grows_step {cfg : Config} {s s' : State} {e : Event} (hstep : Step cfg s e s') :
    Grows s.exchanges s'.exchanges := by
  cases hstep with
  | @await i c hc hphase =>
      rcases awaitRefresh_exchanges cfg s i c with hsame | ⟨x, hnew⟩
      · rw [hsame]
        exact grows_refl _
      · rw [hnew]
        exact grows_append _ x
  | login page => exact grows_append _ _
  | logout page => exact grows_append _ _
  | @serve r x outcome hx hphase =>
      exact grows_set _ hx (by simp [Exchange.Settled, hphase])
  | @deliver r x answer hx hphase =>
      exact grows_set _ hx (by simp [Exchange.Settled, hphase])
  | @finish r x answer hx hphase =>
      obtain ⟨ok, hset⟩ := finishReading_exchanges s r x answer
      rw [hset]
      exact grows_set _ hx (by simp [Exchange.Settled, hphase])
  | @lose r x hx hopen =>
      rw [settle_exchanges]
      exact grows_set _ hx hopen
  | idle => exact grows_refl _
  | fetch => exact grows_refl _
  | answer => exact grows_refl _
  | drop => exact grows_refl _
  | retry => exact grows_refl _
  | giveUp => exact grows_refl _
  | openPage => exact grows_refl _
  | revoke => exact grows_refl _
  | elapse => exact grows_refl _

/-- A refresh of the page has settled well. -/
def Refreshed (xs : List Exchange) (page : Nat) : Prop :=
  ∃ x ∈ xs, x.kind = .refresh ∧ x.page = page ∧ x.phase = .settled true

/-- A call has sent one request, and a second one only after a refresh of its page. -/
structure CallOk (xs : List Exchange) (c : Call) : Prop where
  sent : c.sent.length = 1 ∨ c.sent.length = 2 ∧ Refreshed xs c.page
  early : c.phase = .first ∨ (∃ r, c.phase = .waiting r) → c.sent.length = 1
  awaits : ∀ r, c.phase = .waiting r →
    ∃ x, xs[r]? = some x ∧ x.kind = .refresh ∧ x.page = c.page

section CallOk

variable {xs xs' : List Exchange} {c c' : Call}

theorem Grows.refreshed (h : Grows xs xs') {page : Nat} (hr : Refreshed xs page) :
    Refreshed xs' page := by
  obtain ⟨x, hmem, hkind, hpage, hphase⟩ := hr
  obtain ⟨r, hr⟩ := List.getElem?_of_mem hmem
  obtain ⟨x', hx', -, -, hsame⟩ := h r x hr
  have hx : x' = x := hsame (by simp [Exchange.Settled, hphase])
  exact ⟨x, List.mem_of_getElem? (hx ▸ hx'), hkind, hpage, hphase⟩

theorem CallOk.grows (h : CallOk xs c) (hgrows : Grows xs xs') : CallOk xs' c where
  sent := h.sent.imp id fun hs => ⟨hs.1, hgrows.refreshed hs.2⟩
  early := h.early
  awaits := by
    intro r hr
    obtain ⟨x, hx, hkind, hpage⟩ := h.awaits r hr
    obtain ⟨x', hx', hkind', hpage', -⟩ := hgrows r x hx
    exact ⟨x', hx', hkind'.trans hkind, hpage'.trans hpage⟩

/-- A call that ends has sent what it had sent before. -/
theorem CallOk.ended (h : CallOk xs c) (hsent : c'.sent = c.sent) (hpage : c'.page = c.page)
    (hended : c'.Ended) : CallOk xs c' where
  sent := by
    rw [hsent, hpage]
    exact h.sent
  early := by
    rintro (hphase | ⟨r, hphase⟩)
    · simp [Call.Ended, hphase] at hended
    · simp [Call.Ended, hphase] at hended
  awaits := by
    intro r hphase
    simp [Call.Ended, hphase] at hended

theorem callOk_set {calls : List Call} {i : Nat} (h : ∀ c ∈ calls, CallOk xs c)
    (hc : CallOk xs c) : ∀ c' ∈ calls.set i c, CallOk xs c' := by
  intro c' hc'
  rcases List.mem_or_eq_of_mem_set hc' with hmem | rfl
  · exact h c' hmem
  · exact hc

end CallOk

theorem callOk_awaitRefresh {cfg : Config} {s : State} (hsingle : Single s)
    (h : ∀ c ∈ s.calls, CallOk s.exchanges c) {i : Nat} {c : Call} (hc : s.calls[i]? = some c)
    (hphase : c.phase = .first) :
    ∀ c' ∈ (awaitRefresh cfg s i c).calls, CallOk (awaitRefresh cfg s i c).exchanges c' := by
  have hlen : c.sent.length = 1 := (h c (List.mem_of_getElem? hc)).early (.inl hphase)
  unfold awaitRefresh
  cases hpending : (s.pages c.page).pendingRefresh with
  | some r =>
      obtain ⟨x, hx, hkind, hpage, -⟩ := (hsingle c.page r).mp hpending
      refine callOk_set h ⟨.inl hlen, fun _ => hlen, ?_⟩
      rintro r' ⟨⟩
      exact ⟨x, hx, hkind, hpage⟩
  | none =>
      refine callOk_set (fun c' hc' => (h c' hc').grows (grows_append _ _))
        ⟨.inl hlen, fun _ => hlen, ?_⟩
      have hnew : ∀ x : Exchange, (s.exchanges ++ [x])[s.exchanges.length]? = some x := by simp
      rintro r' ⟨⟩
      exact ⟨_, hnew _, rfl, rfl⟩

theorem callOk_step {cfg : Config} {s s' : State} {e : Event} (hsingle : Single s)
    (h : ∀ c ∈ s.calls, CallOk s.exchanges c) (hstep : Step cfg s e s') :
    ∀ c ∈ s'.calls, CallOk s'.exchanges c := by
  have hgrows := grows_step hstep
  have hold : ∀ c ∈ s.calls, CallOk s'.exchanges c := fun c hc => (h c hc).grows hgrows
  cases hstep with
  | fetch page path method =>
      intro c hc
      rcases List.mem_append.mp hc with hmem | hmem
      · exact h c hmem
      · obtain rfl := List.mem_singleton.mp hmem
        refine ⟨.inl rfl, fun _ => rfl, ?_⟩
        rintro r ⟨⟩
  | await hc hphase => exact callOk_awaitRefresh hsingle h hc hphase
  | answer hc hphase =>
      exact callOk_set hold ((hold _ (List.mem_of_getElem? hc)).ended rfl rfl trivial)
  | drop hc hphase =>
      exact callOk_set hold ((hold _ (List.mem_of_getElem? hc)).ended rfl rfl trivial)
  | giveUp hc hphase hx hfail =>
      exact callOk_set hold ((hold _ (List.mem_of_getElem? hc)).ended rfl rfl trivial)
  | @retry i r c x hc hphase hx hok =>
      have hcall := h c (List.mem_of_getElem? hc)
      have hlen : c.sent.length = 1 := hcall.early (.inr ⟨r, hphase⟩)
      obtain ⟨y, hy, hkind, hpage⟩ := hcall.awaits r hphase
      rw [hx] at hy
      cases hy
      refine callOk_set hold ⟨.inr ⟨by simp [hlen], x, List.mem_of_getElem? hx, hkind, hpage, hok⟩,
        ?_, ?_⟩
      · rintro (⟨⟨⟩⟩ | ⟨r', ⟨⟩⟩)
      · rintro r' ⟨⟩
  | @finish r x answer hx hphase =>
      rw [finishReading_calls]
      exact hold
  | @lose r x hx hopen =>
      rw [settle_calls]
      exact hold
  | idle => exact hold
  | login page => exact hold
  | logout page => exact hold
  | serve => exact hold
  | deliver => exact hold
  | openPage => exact hold
  | revoke => exact hold
  | elapse => exact hold

/-- The refreshes that were started. -/
def refreshes (xs : List Exchange) : Nat := xs.countP fun x => x.kind = .refresh

def Call.pastFirst (c : Call) : Bool :=
  match c.phase with
  | .first => false
  | _ => true

theorem countP_set_of_some {α : Type} (p : α → Bool) {l : List α} {i : Nat} {a b : α}
    (h : l[i]? = some a) :
    (l.set i b).countP p + (if p a then 1 else 0) = l.countP p + if p b then 1 else 0 := by
  obtain ⟨hlt, ha⟩ := List.getElem?_eq_some_iff.mp h
  have hle := List.boole_getElem_le_countP (p := p) hlt
  rw [ha] at hle
  rw [List.countP_set hlt, ha]
  omega

theorem refreshes_set {xs : List Exchange} {r : Nat} {x : Exchange} (hx : xs[r]? = some x)
    (phase : ExchangePhase) : refreshes (xs.set r { x with phase := phase }) = refreshes xs := by
  have hcount := countP_set_of_some (fun x : Exchange => decide (x.kind = .refresh))
    (b := { x with phase := phase }) hx
  exact Nat.add_right_cancel hcount

/-- A call that leaves its first request behind adds to those past it. -/
theorem countP_pastFirst_set {calls : List Call} {i : Nat} {c c' : Call} (hc : calls[i]? = some c)
    (hc' : c'.pastFirst = true) :
    (calls.set i c').countP Call.pastFirst =
      calls.countP Call.pastFirst + if c.pastFirst then 0 else 1 := by
  have hcount := countP_set_of_some Call.pastFirst (b := c') hc
  rw [hc', if_pos rfl] at hcount
  cases hpast : c.pastFirst with
  | true =>
      rw [hpast] at hcount
      simpa using hcount
  | false =>
      rw [hpast] at hcount
      simpa using hcount

theorem refreshes_step {cfg : Config} {s s' : State} {e : Event}
    (h : refreshes s.exchanges ≤ s.calls.countP Call.pastFirst) (hstep : Step cfg s e s') :
    refreshes s'.exchanges ≤ s'.calls.countP Call.pastFirst := by
  cases hstep with
  | fetch page path method =>
      rw [List.countP_append]
      exact h.trans (Nat.le_add_right _ _)
  | answer hc hphase => exact h.trans (by rw [setCall, countP_pastFirst_set hc rfl]; omega)
  | drop hc hphase => exact h.trans (by rw [setCall, countP_pastFirst_set hc rfl]; omega)
  | retry hc => exact h.trans (by rw [setCall, countP_pastFirst_set hc rfl]; omega)
  | giveUp hc =>
      refine h.trans ?_
      change _ ≤ (s.calls.set _ _).countP Call.pastFirst
      rw [countP_pastFirst_set hc rfl]
      omega
  | @await i c hc hphase =>
      have hfirst : c.pastFirst = false := by simp [Call.pastFirst, hphase]
      unfold awaitRefresh
      cases (s.pages c.page).pendingRefresh with
      | some r =>
          change refreshes s.exchanges ≤ (s.calls.set i _).countP Call.pastFirst
          rw [countP_pastFirst_set hc rfl]
          omega
      | none =>
          change refreshes (s.exchanges ++ [_]) ≤ (s.calls.set i _).countP Call.pastFirst
          rw [countP_pastFirst_set hc rfl, hfirst, refreshes, List.countP_append]
          exact Nat.add_le_add h (by simp)
  | login page =>
      simp only [startExchange, refreshes, List.countP_append]
      exact h
  | logout page =>
      simp only [startExchange, refreshes, List.countP_append]
      exact h
  | serve outcome hx hphase =>
      simp only [setExchange, refreshes_set hx]
      exact h
  | deliver hx hphase =>
      simp only [setExchange, refreshes_set hx]
      exact h
  | @finish r x answer hx hphase =>
      obtain ⟨ok, hset⟩ := finishReading_exchanges s r x answer
      rw [hset, refreshes_set hx, finishReading_calls]
      exact h
  | lose hx hopen =>
      rw [settle_exchanges, refreshes_set hx, settle_calls]
      exact h
  | idle => exact h
  | openPage => exact h
  | revoke => exact h
  | elapse => exact h

/-- What every reachable state keeps, whatever the order of the events. -/
structure Flight (s : State) : Prop where
  single : Single s
  calls : ∀ c ∈ s.calls, CallOk s.exchanges c
  bound : refreshes s.exchanges ≤ s.calls.countP Call.pastFirst

theorem flight_reachable (cfg : Config) (events : List Event) : Flight (run cfg events) := by
  have hinit : Flight init := by
    refine ⟨fun page r => ?_, fun c hc => (List.not_mem_nil hc).elim, Nat.le_refl _⟩
    simp [init, State.InFlight]
  refine Sequential.run_keeps (fun s e h => ?_) hinit events
  have hspec := step_spec cfg s e
  exact ⟨single_step h.single hspec, callOk_step h.single h.calls hspec,
    refreshes_step h.bound hspec⟩

end ErpApi.Csrf
