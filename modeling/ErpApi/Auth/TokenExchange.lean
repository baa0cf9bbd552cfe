import ErpApi.Auth.FetchWithAuth

set_option autoImplicit false

/-! # Exchanges of tokens that do not overlap

A refresh uses up the token it presents and issues another one. The pages of a browser share its
cookies, so what one page is handed the next one presents. As long as the exchanges do not overlap
and every token that is used up has a successor which reaches the browser, no refresh presents a
token used up before (`never_rotated`). Each of the two conditions can fail: two pages refresh at a
time (`two_pages_rotated`), and a refresh that is refused after the rotation, for a blocked account
say, leaves the used-up token in the browser (`refused_rotated`).

The page keeps the CSRF token of the last answer it has read, the browser that of the last one it
has received. Where only one page exchanges tokens the two agree whenever no answer is being read,
so what the page sends then passes the CSRF check (`page_passes`).
-/

namespace ErpApi.Csrf

/-! ## The conditions -/

/-- The page on which the event starts an exchange. -/
def startsOn (s : State) : Event → Option Nat
  | .login page => some page
  | .logout page => some page
  | .respond i status =>
      match s.calls[i]? with
      | none => none
      | some c =>
          if status = 401 ∧ c.pastFirst = false ∧ (s.pages c.page).pendingRefresh = none then
            some c.page
          else none
  | _ => none

/-- An exchange starts when no other one is under way. -/
def Apart (s : State) (e : Event) : Prop :=
  (startsOn s e).isSome = true → ∀ x ∈ s.exchanges, x.Settled

instance (s : State) (e : Event) : Decidable (Apart s e) :=
  inferInstanceAs (Decidable (_ → _))

/-- The token that a refresh presents. -/
def Exchange.presented (x : Exchange) : Option String :=
  match x.kind with
  | .refresh =>
      match refreshTokenRaw none x.request with
      | .ok token => some token
      | .error _ => none
  | _ => none

/-- An answer with tokens is on its way. -/
def Exchange.carriesTokens (x : Exchange) : Bool :=
  match x.phase with
  | .answered (.tokens _) => true
  | _ => false

/-- A refresh with a live token is not refused, and no answer with tokens gets lost on its way. -/
def Handed (s : State) : Event → Prop
  | .serve r .refuse => ∀ x ∈ s.exchanges[r]?, ∀ token ∈ x.presented, s.status token ≠ .live
  | .lose r => ∀ x ∈ s.exchanges[r]?, x.carriesTokens = false
  | _ => True

instance (s : State) (e : Event) : Decidable (Handed s e) := by
  unfold Handed
  split <;> infer_instance

/-- At most one exchange is under way. -/
def OneOpen (xs : List Exchange) : Prop :=
  ∀ (i j : Nat) (x y : Exchange), xs[i]? = some x → xs[j]? = some y → ¬ x.Settled → ¬ y.Settled →
    i = j

section OneOpen

variable {xs : List Exchange} {r : Nat} {x x' : Exchange}

theorem OneOpen.eq (h : OneOpen xs) (hx : xs[r]? = some x) (hopen : ¬ x.Settled) {y : Exchange}
    (hy : y ∈ xs) (hyopen : ¬ y.Settled) : y = x := by
  obtain ⟨j, hj⟩ := List.getElem?_of_mem hy
  have hij : j = r := h j r y x hj hx hyopen hopen
  subst hij
  exact Option.some.inj (hj.symm.trans hx)

/-- When the open exchange is replaced, the others are the settled ones. -/
theorem OneOpen.mem_set (h : OneOpen xs) (hx : xs[r]? = some x) (hopen : ¬ x.Settled)
    {y : Exchange} (hy : y ∈ xs.set r x') : y = x' ∨ y.Settled := by
  obtain ⟨j, hj⟩ := List.getElem?_of_mem hy
  rw [getElem?_set_of_some hx] at hj
  by_cases hjr : j = r
  · rw [if_pos hjr] at hj
    exact .inl (Option.some.inj hj).symm
  · rw [if_neg hjr] at hj
    right
    by_contra hyopen
    exact hjr (h j r y x hj hx hyopen hopen)

theorem OneOpen.set (h : OneOpen xs) (hx : xs[r]? = some x) (hopen : ¬ x.Settled) :
    OneOpen (xs.set r x') := by
  intro i j y z hy hz hyopen hzopen
  have hat : ∀ (k : Nat) (w : Exchange), (xs.set r x')[k]? = some w → ¬ w.Settled → k = r := by
    intro k w hw hwopen
    rw [getElem?_set_of_some hx] at hw
    by_contra hk
    rw [if_neg hk] at hw
    exact hk (h k r w x hw hx hwopen hopen)
  rw [hat i y hy hyopen, hat j z hz hzopen]

theorem oneOpen_append (h : ∀ y ∈ xs, y.Settled) : OneOpen (xs ++ [x]) := by
  intro i j y z hy hz hyopen hzopen
  have hat : ∀ (k : Nat) (w : Exchange), (xs ++ [x])[k]? = some w → ¬ w.Settled →
      k = xs.length := by
    intro k w hw hwopen
    rw [getElem?_append_one] at hw
    by_contra hk
    rw [if_neg hk] at hw
    exact hwopen (h w (List.mem_of_getElem? hw))
  rw [hat i y hy hyopen, hat j z hz hzopen]

end OneOpen

/-! ## Tokens that are used up -/

theorem refreshTokenRaw_eq_ok {request : HttpRequest} {token : String} :
    refreshTokenRaw none request = .ok token ↔
      request.cookies "refresh_token" = some token ∧ token ≠ "" := by
  unfold refreshTokenRaw
  cases hcookie : request.cookies "refresh_token" with
  | none => simp
  | some t =>
      by_cases ht : t = ""
      · simp only [Option.none_or, ht, if_true, Option.some.injEq, reduceCtorEq, false_iff]
        rintro ⟨rfl, hne⟩
        exact hne rfl
      · simp only [Option.none_or, ht, if_false, Except.ok.injEq, Option.some.injEq]
        constructor
        · rintro rfl
          exact ⟨rfl, ht⟩
        · exact fun h => h.1

theorem revoke_eq_rotated {status : String → TokenStatus} {token t : String}
    (h : revoke status token t = .rotated) : status t = .rotated := by
  unfold revoke at h
  split at h
  · by_cases ht : t = token
    · subst ht
      simp at h
    · rwa [Function.update_of_ne ht] at h
  · exact h

/-- A refusal changes no token unless a refresh presents a live one. -/
theorem serve_refuse_eq {status : String → TokenStatus} {x : Exchange}
    (h : ∀ token ∈ x.presented, status token ≠ .live) : (serve status x .refuse).1 = status := by
  unfold serve
  unfold Exchange.presented at h
  cases hkind : x.kind with
  | login => rfl
  | logout => rfl
  | refresh =>
      rw [hkind] at h
      simp only at h ⊢
      split
      · rfl
      · cases htoken : refreshTokenRaw none x.request with
        | error e => rfl
        | ok token =>
            have hdead : status token ≠ .live := h token (by rw [htoken]; rfl)
            simp [hdead]

/-- A request is answered with tokens, of which the refresh token is live, or without; then a token
is used up only when a refresh is refused. -/
theorem serve_spec (status : String → TokenStatus) (x : Exchange) (outcome : Outcome) :
    (∃ cookies, (serve status x outcome).2 = .tokens cookies ∧
      (serve status x outcome).1 cookies.refresh_token = .live) ∨
    (∀ cookies, (serve status x outcome).2 ≠ .tokens cookies) ∧
      (outcome = .refuse ∨
        ∀ token, (serve status x outcome).1 token = .rotated → status token = .rotated) := by
  cases outcome with
  | refuse =>
      right
      refine ⟨fun cookies => ?_, .inl rfl⟩
      unfold serve
      cases x.kind with
      | login => simp
      | logout => simp
      | refresh =>
          simp only
          split
          · simp
          · split
            · simp
            · split <;> simp
  | accept cookies =>
      unfold serve
      cases x.kind with
      | login => exact .inl ⟨cookies, rfl, Function.update_self ..⟩
      | logout =>
          simp only
          split
          · exact .inr ⟨fun _ h => (nomatch h), .inr fun _ h => h⟩
          · exact .inr ⟨fun _ h => (nomatch h), .inr fun _ h => revoke_eq_rotated h⟩
      | refresh =>
          simp only
          split
          · exact .inr ⟨fun _ h => (nomatch h), .inr fun _ h => h⟩
          · split
            · exact .inr ⟨fun _ h => (nomatch h), .inr fun _ h => h⟩
            · split
              · exact .inl ⟨cookies, rfl, Function.update_self ..⟩
              · exact .inr ⟨fun _ h => (nomatch h), .inr fun _ h => h⟩

/-- What the runs under the two conditions keep. A used-up token stays in the browser only while
its successor is on its way. -/
structure Sound (cfg : Config) (s : State) : Prop where
  oneOpen : OneOpen s.exchanges
  onePath : s.browser.jar.OnePath "refresh_token" cfg.refreshCookiePath
  kept : ∀ c, s.browser.jar.lookup "refresh_token" cfg.refreshCookiePath = some c →
    s.status c.value ≠ .rotated ∨
      ∃ x ∈ s.exchanges, ∃ cookies, x.phase = .answered (.tokens cookies)
  answers : ∀ x ∈ s.exchanges, ∀ cookies, x.phase = .answered (.tokens cookies) →
    s.status cookies.refresh_token ≠ .rotated
  presents : ∀ x ∈ s.exchanges, x.phase = .sent → ∀ token,
    refreshTokenRaw none x.request = .ok token → s.status token ≠ .rotated

section Sound

variable {cfg : Config} {s s' : State}

/-- A step that leaves exchanges and cookies alone and uses no token up. -/
theorem Sound.mono (h : Sound cfg s) (hexchanges : s'.exchanges = s.exchanges)
    (hjar : s'.browser.jar = s.browser.jar)
    (hstatus : ∀ token, s'.status token = .rotated → s.status token = .rotated) :
    Sound cfg s' where
  oneOpen := by
    rw [hexchanges]
    exact h.oneOpen
  onePath := by
    rw [hjar]
    exact h.onePath
  kept := by
    intro c hc
    rw [hjar] at hc
    rw [hexchanges]
    exact (h.kept c hc).imp (fun hne hr => hne (hstatus _ hr)) id
  answers := by
    intro x hx cookies hphase hr
    rw [hexchanges] at hx
    exact h.answers x hx cookies hphase (hstatus _ hr)
  presents := by
    intro x hx hphase token htoken hr
    rw [hexchanges] at hx
    exact h.presents x hx hphase token htoken (hstatus _ hr)

/-- While the open exchange is not an answer with tokens, the browser holds no used-up token. -/
theorem Sound.not_rotated (h : Sound cfg s) {r : Nat} {x : Exchange}
    (hx : s.exchanges[r]? = some x) (hopen : ¬ x.Settled)
    (hphase : ∀ cookies, x.phase ≠ .answered (.tokens cookies)) {c : Cookie}
    (hc : s.browser.jar.lookup "refresh_token" cfg.refreshCookiePath = some c) :
    s.status c.value ≠ .rotated := by
  rcases h.kept c hc with hne | ⟨y, hy, cookies, hyphase⟩
  · exact hne
  · have hyx : y = x := h.oneOpen.eq hx hopen hy (by simp [Exchange.Settled, hyphase])
    subst hyx
    exact absurd hyphase (hphase cookies)

/-- The open exchange goes on: what has to be shown is about it and the browser only. -/
theorem Sound.set (h : Sound cfg s) {r : Nat} {x : Exchange} (phase : ExchangePhase)
    (hx : s.exchanges[r]? = some x) (hopen : ¬ x.Settled)
    (hset : s'.exchanges = s.exchanges.set r { x with phase := phase })
    (honePath : s'.browser.jar.OnePath "refresh_token" cfg.refreshCookiePath)
    (hkept : ∀ c, s'.browser.jar.lookup "refresh_token" cfg.refreshCookiePath = some c →
      s'.status c.value ≠ .rotated ∨ ∃ cookies, phase = .answered (.tokens cookies))
    (hanswers : ∀ cookies, phase = .answered (.tokens cookies) →
      s'.status cookies.refresh_token ≠ .rotated)
    (hsent : phase ≠ .sent) : Sound cfg s' where
  oneOpen := by
    rw [hset]
    exact h.oneOpen.set hx hopen
  onePath := honePath
  kept := by
    intro c hc
    refine (hkept c hc).imp id ?_
    rintro ⟨cookies, hphase⟩
    refine ⟨{ x with phase := phase }, ?_, cookies, hphase⟩
    rw [hset]
    exact List.mem_of_getElem? (by rw [getElem?_set_of_some hx, if_pos rfl])
  answers := by
    intro y hy cookies hphase
    rw [hset] at hy
    rcases h.oneOpen.mem_set hx hopen hy with rfl | hsettled
    · exact hanswers cookies hphase
    · simp [Exchange.Settled, hphase] at hsettled
  presents := by
    intro y hy hphase
    rw [hset] at hy
    rcases h.oneOpen.mem_set hx hopen hy with rfl | hsettled
    · exact absurd hphase hsent
    · simp [Exchange.Settled, hphase] at hsettled

end Sound

theorem sound_startExchange {cfg : Config} {s s' : State} (h : Sound cfg s)
    (hsettled : ∀ x ∈ s.exchanges, x.Settled) {page : Nat} {kind : ExchangeKind}
    (hexchanges : s'.exchanges = (startExchange cfg s page kind).exchanges)
    (hbrowser : s'.browser = s.browser) (hstatus : s'.status = s.status) : Sound cfg s' where
  oneOpen := by
    rw [hexchanges]
    exact oneOpen_append hsettled
  onePath := by
    rw [hbrowser]
    exact h.onePath
  kept := by
    intro c hc
    rw [hbrowser] at hc
    rw [hstatus]
    refine (h.kept c hc).imp id ?_
    rintro ⟨x, hx, cookies, hphase⟩
    have hopen := hsettled x hx
    simp [Exchange.Settled, hphase] at hopen
  answers := by
    intro x hx cookies hphase
    rw [hexchanges] at hx
    rw [hstatus]
    rcases List.mem_append.mp hx with hx | hx
    · exact h.answers x hx cookies hphase
    · obtain rfl := List.mem_singleton.mp hx
      cases hphase
  presents := by
    intro x hx hphase token htoken
    rw [hexchanges] at hx
    rw [hstatus]
    rcases List.mem_append.mp hx with hx | hx
    · exact h.presents x hx hphase token htoken
    · obtain rfl := List.mem_singleton.mp hx
      -- The token it presents is the one the browser keeps.
      obtain ⟨hcookie, -⟩ := refreshTokenRaw_eq_ok.mp htoken
      have hattached : s.browser.attached (kind.path cfg) "refresh_token" = some token := hcookie
      rw [Browser.attached, h.onePath.read_eq] at hattached
      obtain ⟨c, hc, rfl⟩ := Option.map_eq_some_iff.mp hattached
      obtain ⟨hlookup, -⟩ := Option.filter_eq_some_iff.mp hc
      rcases h.kept c hlookup with hne | ⟨y, hy, cookies, hyphase⟩
      · exact hne
      · have hopen := hsettled y hy
        simp [Exchange.Settled, hyphase] at hopen

theorem sound_serve {cfg : Config} {s : State} (h : Sound cfg s) {r : Nat} {x : Exchange}
    (hx : s.exchanges[r]? = some x) (hphase : x.phase = .sent) (outcome : Outcome)
    (hhanded : outcome = .refuse → (serve s.status x outcome).1 = s.status) :
    Sound cfg (setExchange { s with status := (serve s.status x outcome).1 } r
      { x with phase := .answered (serve s.status x outcome).2 }) := by
  have hopen : ¬ x.Settled := by simp [Exchange.Settled, hphase]
  have hclean : ∀ c, s.browser.jar.lookup "refresh_token" cfg.refreshCookiePath = some c →
      s.status c.value ≠ .rotated := fun c hc => h.not_rotated hx hopen (by simp [hphase]) hc
  refine h.set _ hx hopen rfl h.onePath (fun c hc => ?_) (fun cookies hanswer => ?_) (by simp)
  · rcases serve_spec s.status x outcome with ⟨cookies, hanswer, -⟩ | ⟨-, hstatus⟩
    · exact .inr ⟨cookies, by rw [hanswer]⟩
    · left
      rcases hstatus with hrefuse | hstatus
      · change (serve s.status x outcome).1 c.value ≠ .rotated
        rw [hhanded hrefuse]
        exact hclean c hc
      · exact fun hrotated => hclean c hc (hstatus _ hrotated)
  · rcases serve_spec s.status x outcome with ⟨cookies', hanswer', hlive⟩ | ⟨hno, -⟩
    · rw [hanswer'] at hanswer
      cases hanswer
      exact fun hrotated => absurd (hlive.symm.trans hrotated) (by decide)
    · exact absurd (ExchangePhase.answered.inj hanswer) (hno cookies)

theorem sound_deliver {cfg : Config} {s : State} (h : Sound cfg s) {r : Nat} {x : Exchange}
    {answer : Answer} (hx : s.exchanges[r]? = some x) (hphase : x.phase = .answered answer) :
    Sound cfg (setExchange { s with browser := takeCookies cfg s.browser answer } r
      { x with phase := .reading answer }) := by
  have hopen : ¬ x.Settled := by simp [Exchange.Settled, hphase]
  cases answer with
  | tokens cookies =>
      refine h.set _ hx hopen rfl ?_ (fun c hc => .inl ?_) (by simp) (by simp)
      · exact ((h.onePath.setCookie (by simp)).setCookie (by simp)).setCookie (by simp)
      · have hnew : c = ⟨"refresh_token", cookies.refresh_token, cfg.refreshCookiePath,
            s.browser.now + 1000 * cookies.refreshTtlSeconds⟩ := by
          simpa [setExchange, takeCookies, browserStep, setAuthCookies, CookieJar.lookup_setCookie,
            eq_comm] using hc
        rw [hnew]
        exact h.answers x (List.mem_of_getElem? hx) cookies hphase
  | cleared =>
      refine h.set _ hx hopen rfl ?_ (fun c hc => ?_) (by simp) (by simp)
      · exact ((h.onePath.clearCookie _ _).clearCookie _ _).clearCookie _ _
      · simp [setExchange, takeCookies, browserStep, clearAuthCookies,
          CookieJar.lookup_clearCookie] at hc
  | refused =>
      refine h.set _ hx hopen rfl h.onePath (fun c hc => .inl ?_) (by simp) (by simp)
      exact h.not_rotated hx hopen (by simp [hphase]) hc

theorem settle_browser (s : State) (r : Nat) (x : Exchange) (ok : Bool) :
    (settle s r x ok).browser = s.browser ∧ (settle s r x ok).status = s.status := by
  unfold settle
  cases x.kind <;> exact ⟨rfl, rfl⟩

theorem finishReading_browser (s : State) (r : Nat) (x : Exchange) (answer : Answer) :
    (finishReading s r x answer).browser = s.browser ∧
      (finishReading s r x answer).status = s.status := by
  cases answer with
  | tokens cookies => exact settle_browser (setCsrfToken s x.page cookies.csrf_token) r x true
  | cleared => exact settle_browser s r x true
  | refused => exact settle_browser s r x false

/-- An exchange that ends leaves no used-up token behind unless its tokens get lost. -/
theorem sound_end {cfg : Config} {s s' : State} (h : Sound cfg s) {r : Nat} {x : Exchange}
    (hx : s.exchanges[r]? = some x) (hopen : ¬ x.Settled)
    (hphase : ∀ cookies, x.phase ≠ .answered (.tokens cookies)) {ok : Bool}
    (hset : s'.exchanges = s.exchanges.set r { x with phase := .settled ok })
    (hbrowser : s'.browser = s.browser) (hstatus : s'.status = s.status) : Sound cfg s' := by
  refine h.set _ hx hopen hset ?_ (fun c hc => .inl ?_) (by simp) (by simp)
  · rw [hbrowser]
    exact h.onePath
  · rw [hbrowser] at hc
    rw [hstatus]
    exact h.not_rotated hx hopen hphase hc

theorem sound_step {cfg : Config} {s s' : State} {e : Event} (h : Sound cfg s)
    (hapart : Apart s e) (hhanded : Handed s e) (hstep : Step cfg s e s') : Sound cfg s' := by
  cases hstep with
  | idle => exact h
  | fetch => exact h.mono rfl rfl fun _ ht => ht
  | answer => exact h.mono rfl rfl fun _ ht => ht
  | drop => exact h.mono rfl rfl fun _ ht => ht
  | retry => exact h.mono rfl rfl fun _ ht => ht
  | giveUp => exact h.mono rfl rfl fun _ ht => ht
  | openPage => exact h.mono rfl rfl fun _ ht => ht
  | elapse => exact h.mono rfl rfl fun _ ht => ht
  | revoke => exact h.mono rfl rfl fun _ ht => revoke_eq_rotated ht
  | @await i c hc hphase =>
      unfold awaitRefresh
      cases hpending : (s.pages c.page).pendingRefresh with
      | some r => exact h.mono rfl rfl fun _ ht => ht
      | none =>
          have hstarts : startsOn s (.respond i 401) = some c.page := by
            simp [startsOn, hc, Call.pastFirst, hphase, hpending]
          have hsettled := hapart (by rw [hstarts]; rfl)
          exact sound_startExchange h hsettled rfl rfl rfl
  | login page => exact sound_startExchange h (hapart rfl) rfl rfl rfl
  | logout page => exact sound_startExchange h (hapart rfl) rfl rfl rfl
  | serve outcome hx hphase =>
      refine sound_serve h hx hphase outcome ?_
      rintro rfl
      exact serve_refuse_eq (hhanded _ hx)
  | deliver hx hphase => exact sound_deliver h hx hphase
  | @finish r x answer hx hphase =>
      obtain ⟨ok, hset⟩ := finishReading_exchanges s r x answer
      obtain ⟨hbrowser, hstatus⟩ := finishReading_browser s r x answer
      exact sound_end h hx (by simp [Exchange.Settled, hphase]) (by simp [hphase]) hset hbrowser
        hstatus
  | @lose r x hx hopen =>
      obtain ⟨hbrowser, hstatus⟩ := settle_browser s r x false
      have hcarries : x.carriesTokens = false := hhanded x hx
      have hphase : ∀ cookies, x.phase ≠ .answered (.tokens cookies) := by
        intro cookies hphase
        simp [Exchange.carriesTokens, hphase] at hcarries
      exact sound_end h hx hopen hphase (settle_exchanges ..) hbrowser hstatus

theorem sound_init (cfg : Config) : Sound cfg init where
  oneOpen := fun i j x y hx => by simp [init] at hx
  onePath := CookieJar.onePath_empty
  kept := fun c hc => by cases hc
  answers := fun x hx => (List.not_mem_nil hx).elim
  presents := fun x hx => (List.not_mem_nil hx).elim

def site : Config := ⟨"/auth/v1", "/auth/v1"⟩

def renewedCookies : AuthCookiesToSet where
  access_token := "access2"
  refresh_token := "refresh2"
  csrf_token := "csrf2"
  accessTtlSeconds := 1
  refreshTtlSeconds := 3600
  csrf_ne := by decide
  refresh_ne := by decide

def signIn : List Event := [.login 0, .serve 0 (.accept aliceCookies), .deliver 0, .finish 0]

def signInAndRefresh : List Event :=
  signIn ++ [.elapse 2000, .fetch 0 "/iam/v1/users" "POST", .respond 0 401,
    .serve 1 (.accept renewedCookies), .deliver 1, .finish 1, .resume 0, .respond 0 201]

/-- A second page is opened; both find the access token expired. -/
def twoRefreshes : List Event :=
  signIn ++ [.openPage 1, .elapse 2000, .fetch 0 "/iam/v1/users" "GET",
    .fetch 1 "/iam/v1/roles" "GET", .respond 0 401, .respond 1 401,
    .serve 1 (.accept renewedCookies)]

/-- Two pages that refresh at a time present one token; the server takes it once. -/
theorem two_pages_rotated : ∃ x, (run site twoRefreshes).exchanges[2]? = some x ∧
    x.phase = .sent ∧ x.presented = some "refresh" ∧
    (run site twoRefreshes).status "refresh" = .rotated :=
  ⟨_, rfl, rfl, by decide +kernel, by decide +kernel⟩

/-- A refresh is refused for the account, and the page tries again. -/
def refusedRefresh : List Event :=
  signIn ++ [.elapse 2000, .fetch 0 "/iam/v1/users" "GET", .respond 0 401, .serve 1 .refuse,
    .deliver 1, .finish 1, .resume 0, .fetch 0 "/iam/v1/users" "GET", .respond 1 401]

theorem refused_rotated : ∃ x, (run site refusedRefresh).exchanges[2]? = some x ∧
    x.phase = .sent ∧ x.presented = some "refresh" ∧
    (run site refusedRefresh).status "refresh" = .rotated :=
  ⟨_, rfl, rfl, by decide +kernel, by decide +kernel⟩

/-! ## The token the page keeps -/

/-- Exchanges start on the page only. -/
def OnlyOn (page : Nat) (s : State) (e : Event) : Prop := ∀ q ∈ startsOn s e, q = page

instance (page : Nat) (s : State) (e : Event) : Decidable (OnlyOn page s e) :=
  inferInstanceAs (Decidable (∀ q ∈ startsOn s e, q = page))

/-- Whether the page is reading an answer that changed the cookies. -/
def Exchange.readsCookies (x : Exchange) : Bool :=
  match x.phase with
  | .reading (.tokens _) => true
  | .reading .cleared => true
  | _ => false

/-- No answer gets lost while it is read. -/
def Read (s : State) : Event → Prop
  | .lose r => ∀ x ∈ s.exchanges[r]?, x.readsCookies = false
  | _ => True

instance (s : State) (e : Event) : Decidable (Read s e) := by
  unfold Read
  split <;> infer_instance

/-- The page has no token, or the one in the cookie. -/
def Agreed (page : Nat) (s : State) : Prop :=
  (s.pages page).csrf_token = none ∨
    ∀ c, s.browser.jar.lookup "csrf_token" "/" = some c →
      (s.pages page).csrf_token = some c.value

/-- What the runs on one page keep. The token of the page may lag behind the cookie only while an
answer is read that will put it right. -/
structure Agree (page : Nat) (s : State) : Prop where
  oneOpen : OneOpen s.exchanges
  mine : ∀ x ∈ s.exchanges, x.page = page
  storage : s.storage = none ∨ s.storage = (s.pages page).csrf_token
  csrfPath : s.browser.jar.OnePath "csrf_token" "/"
  agreed : (∃ x ∈ s.exchanges, x.readsCookies = true) ∨ Agreed page s
  tokens : ∀ x ∈ s.exchanges, ∀ cookies, x.phase = .reading (.tokens cookies) →
    ∀ c, s.browser.jar.lookup "csrf_token" "/" = some c → c.value = cookies.csrf_token
  cleared : ∀ x ∈ s.exchanges, x.phase = .reading .cleared →
    s.browser.jar.lookup "csrf_token" "/" = none

section Agree

variable {page : Nat} {s s' : State}

theorem Exchange.readsCookies_open {x : Exchange} (h : x.readsCookies = true) : ¬ x.Settled := by
  unfold Exchange.readsCookies at h
  unfold Exchange.Settled
  split at h <;> simp_all

theorem Agreed.congr (h : Agreed page s)
    (hcsrf : (s'.pages page).csrf_token = (s.pages page).csrf_token)
    (hjar : s'.browser.jar = s.browser.jar) : Agreed page s' := by
  unfold Agreed
  rw [hcsrf, hjar]
  exact h

/-- While the open exchange does not read cookies, the tokens agree. -/
theorem Agree.now (h : Agree page s) {r : Nat} {x : Exchange} (hx : s.exchanges[r]? = some x)
    (hopen : ¬ x.Settled) (hreads : x.readsCookies = false) : Agreed page s := by
  rcases h.agreed with ⟨y, hy, hyreads⟩ | hagreed
  · rw [h.oneOpen.eq hx hopen hy (Exchange.readsCookies_open hyreads), hreads] at hyreads
    cases hyreads
  · exact hagreed

/-- A step that leaves exchanges and cookies alone. -/
theorem Agree.mono (h : Agree page s) (hexchanges : s'.exchanges = s.exchanges)
    (hjar : s'.browser.jar = s.browser.jar)
    (hcsrf : (s'.pages page).csrf_token = (s.pages page).csrf_token ∨
      (s'.pages page).csrf_token = none)
    (hstorage : s'.storage = none ∨ s'.storage = (s'.pages page).csrf_token) : Agree page s' where
  oneOpen := by
    rw [hexchanges]
    exact h.oneOpen
  mine := by
    rw [hexchanges]
    exact h.mine
  storage := hstorage
  csrfPath := by
    rw [hjar]
    exact h.csrfPath
  agreed := by
    rw [hexchanges]
    refine h.agreed.imp id fun hagreed => ?_
    rcases hcsrf with hsame | hnone
    · exact hagreed.congr hsame hjar
    · exact .inl hnone
  tokens := by
    rw [hexchanges, hjar]
    exact h.tokens
  cleared := by
    rw [hexchanges, hjar]
    exact h.cleared

/-- The open exchange goes on. -/
theorem Agree.set (h : Agree page s) {r : Nat} {x : Exchange} (phase : ExchangePhase)
    (hx : s.exchanges[r]? = some x) (hopen : ¬ x.Settled)
    (hset : s'.exchanges = s.exchanges.set r { x with phase := phase })
    (hcsrfPath : s'.browser.jar.OnePath "csrf_token" "/")
    (hstorage : s'.storage = none ∨ s'.storage = (s'.pages page).csrf_token)
    (hagreed : Exchange.readsCookies { x with phase := phase } = true ∨ Agreed page s')
    (htokens : ∀ cookies, phase = .reading (.tokens cookies) →
      ∀ c, s'.browser.jar.lookup "csrf_token" "/" = some c → c.value = cookies.csrf_token)
    (hcleared : phase = .reading .cleared →
      s'.browser.jar.lookup "csrf_token" "/" = none) : Agree page s' where
  oneOpen := by
    rw [hset]
    exact h.oneOpen.set hx hopen
  mine := by
    intro y hy
    rw [hset] at hy
    rcases List.mem_or_eq_of_mem_set hy with hmem | rfl
    · exact h.mine y hmem
    · exact h.mine x (List.mem_of_getElem? hx)
  storage := hstorage
  csrfPath := hcsrfPath
  agreed := by
    refine hagreed.imp (fun hreads => ⟨{ x with phase := phase }, ?_, hreads⟩) id
    rw [hset]
    exact List.mem_of_getElem? (by rw [getElem?_set_of_some hx, if_pos rfl])
  tokens := by
    intro y hy cookies hphase
    rw [hset] at hy
    rcases h.oneOpen.mem_set hx hopen hy with rfl | hsettled
    · exact htokens cookies hphase
    · simp [Exchange.Settled, hphase] at hsettled
  cleared := by
    intro y hy hphase
    rw [hset] at hy
    rcases h.oneOpen.mem_set hx hopen hy with rfl | hsettled
    · exact hcleared hphase
    · simp [Exchange.Settled, hphase] at hsettled

end Agree

theorem settle_storage (s : State) (r : Nat) (x : Exchange) (ok : Bool) :
    (settle s r x ok).storage = if x.kind = .logout then none else s.storage := by
  unfold settle
  cases x.kind <;> rfl

theorem settle_csrf_token (s : State) (r : Nat) (x : Exchange) (ok : Bool) :
    ((settle s r x ok).pages x.page).csrf_token =
      if x.kind = .logout then none else (s.pages x.page).csrf_token := by
  unfold settle
  cases x.kind with
  | login => rfl
  | refresh => simp [setPage]; rfl
  | logout => simp [clearSession, setPage]

theorem agree_startExchange {cfg : Config} {page : Nat} {s s' : State} (h : Agree page s)
    (hsettled : ∀ x ∈ s.exchanges, x.Settled) {kind : ExchangeKind}
    (hexchanges : s'.exchanges = (startExchange cfg s page kind).exchanges)
    (hbrowser : s'.browser = s.browser) (hstorage : s'.storage = s.storage)
    (hcsrf : (s'.pages page).csrf_token = (s.pages page).csrf_token) : Agree page s' where
  oneOpen := by
    rw [hexchanges]
    exact oneOpen_append hsettled
  mine := by
    intro x hx
    rw [hexchanges] at hx
    rcases List.mem_append.mp hx with hx | hx
    · exact h.mine x hx
    · obtain rfl := List.mem_singleton.mp hx
      rfl
  storage := by
    rw [hstorage, hcsrf]
    exact h.storage
  csrfPath := by
    rw [hbrowser]
    exact h.csrfPath
  agreed := by
    right
    rcases h.agreed with ⟨x, hx, hreads⟩ | hagreed
    · exact absurd (hsettled x hx) (Exchange.readsCookies_open hreads)
    · exact hagreed.congr hcsrf (by rw [hbrowser])
  tokens := by
    intro x hx cookies hphase
    rw [hexchanges] at hx
    rw [hbrowser]
    rcases List.mem_append.mp hx with hx | hx
    · exact h.tokens x hx cookies hphase
    · obtain rfl := List.mem_singleton.mp hx
      cases hphase
  cleared := by
    intro x hx hphase
    rw [hexchanges] at hx
    rw [hbrowser]
    rcases List.mem_append.mp hx with hx | hx
    · exact h.cleared x hx hphase
    · obtain rfl := List.mem_singleton.mp hx
      cases hphase

theorem agree_deliver {cfg : Config} {page : Nat} {s : State} (h : Agree page s) {r : Nat}
    {x : Exchange} {answer : Answer} (hx : s.exchanges[r]? = some x)
    (hphase : x.phase = .answered answer) :
    Agree page (setExchange { s with browser := takeCookies cfg s.browser answer } r
      { x with phase := .reading answer }) := by
  have hopen : ¬ x.Settled := by simp [Exchange.Settled, hphase]
  cases answer with
  | tokens cookies =>
      refine h.set _ hx hopen rfl ?_ h.storage (.inl rfl) ?_ (by simp)
      · exact ((h.csrfPath.setCookie (by simp)).setCookie (by simp)).setCookie (by simp)
      · rintro cookies' ⟨⟩ c hc
        have hnew : c = ⟨"csrf_token", cookies.csrf_token, "/",
            s.browser.now + 1000 * cookies.accessTtlSeconds⟩ := by
          simpa [setExchange, takeCookies, browserStep, setAuthCookies, CookieJar.lookup_setCookie,
            eq_comm] using hc
        rw [hnew]
  | cleared =>
      refine h.set _ hx hopen rfl ?_ h.storage (.inl rfl) (by simp) fun _ => ?_
      · exact ((h.csrfPath.clearCookie _ _).clearCookie _ _).clearCookie _ _
      · simp [setExchange, takeCookies, browserStep, clearAuthCookies,
          CookieJar.lookup_clearCookie]
  | refused =>
      have hnow := h.now hx hopen (by simp [Exchange.readsCookies, hphase])
      exact h.set _ hx hopen rfl h.csrfPath h.storage (.inr (hnow.congr rfl rfl)) (by simp)
        (by simp)

/-- An exchange that ends without tokens leaves the tokens in agreement: either they agreed, or
the browser has no token, or the page drops its own. -/
theorem agree_settle {page : Nat} {s : State} (h : Agree page s) {r : Nat} {x : Exchange}
    (hx : s.exchanges[r]? = some x) (hopen : ¬ x.Settled)
    (hphase : ∀ cookies, x.phase ≠ .reading (.tokens cookies)) (ok : Bool) :
    Agree page (settle s r x ok) := by
  have hpage : x.page = page := h.mine x (List.mem_of_getElem? hx)
  have hjar := (settle_browser s r x ok).1
  have hcsrf := settle_csrf_token s r x ok
  rw [hpage] at hcsrf
  refine h.set _ hx hopen (settle_exchanges ..) ?_ ?_ (.inr ?_) (by simp) (by simp)
  · rw [hjar]
    exact h.csrfPath
  · rw [settle_storage, hcsrf]
    split
    · exact .inl rfl
    · exact h.storage
  · by_cases hlogout : x.kind = .logout
    · rw [if_pos hlogout] at hcsrf
      exact .inl hcsrf
    · rw [if_neg hlogout] at hcsrf
      cases hreads : x.readsCookies with
      | false => exact (h.now hx hopen hreads).congr hcsrf (by rw [hjar])
      | true =>
          have hcleared : x.phase = .reading .cleared := by
            unfold Exchange.readsCookies at hreads
            split at hreads
            · rename_i cookies heq
              exact absurd heq (hphase cookies)
            · assumption
            · cases hreads
          right
          intro c hc
          rw [hjar, h.cleared x (List.mem_of_getElem? hx) hcleared] at hc
          cases hc

theorem agree_finishTokens {page : Nat} {s : State} (h : Agree page s) {r : Nat} {x : Exchange}
    {cookies : AuthCookiesToSet} (hx : s.exchanges[r]? = some x)
    (hphase : x.phase = .reading (.tokens cookies)) :
    Agree page (settle (setCsrfToken s x.page cookies.csrf_token) r x true) := by
  have hopen : ¬ x.Settled := by simp [Exchange.Settled, hphase]
  obtain rfl : x.page = page := h.mine x (List.mem_of_getElem? hx)
  have hjar := (settle_browser (setCsrfToken s x.page cookies.csrf_token) r x true).1
  have hcsrf := settle_csrf_token (setCsrfToken s x.page cookies.csrf_token) r x true
  have hset : ((setCsrfToken s x.page cookies.csrf_token).pages x.page).csrf_token =
      some cookies.csrf_token := by
    simp [setCsrfToken, setPage]
  rw [hset] at hcsrf
  refine h.set _ hx hopen (settle_exchanges ..) ?_ ?_ (.inr ?_) (by simp) (by simp)
  · rw [hjar]
    exact h.csrfPath
  · rw [settle_storage, hcsrf]
    split
    · exact .inl rfl
    · exact .inr rfl
  · by_cases hlogout : x.kind = .logout
    · rw [if_pos hlogout] at hcsrf
      exact .inl hcsrf
    · rw [if_neg hlogout] at hcsrf
      right
      intro c hc
      rw [hjar] at hc
      rw [hcsrf, h.tokens x (List.mem_of_getElem? hx) cookies hphase c hc]

theorem agree_step {cfg : Config} {page : Nat} {s s' : State} {e : Event} (h : Agree page s)
    (hapart : Apart s e) (honly : OnlyOn page s e) (hread : Read s e)
    (hstep : Step cfg s e s') : Agree page s' := by
  cases hstep with
  | idle => exact h
  | fetch => exact h.mono rfl rfl (.inl rfl) h.storage
  | answer => exact h.mono rfl rfl (.inl rfl) h.storage
  | drop => exact h.mono rfl rfl (.inl rfl) h.storage
  | retry => exact h.mono rfl rfl (.inl rfl) h.storage
  | elapse => exact h.mono rfl rfl (.inl rfl) h.storage
  | revoke => exact h.mono rfl rfl (.inl rfl) h.storage
  | @giveUp i r c x hc =>
      refine h.mono rfl rfl ?_ (.inl rfl)
      simp only [setCall, clearSession, setPage_pages]
      split
      · exact .inr rfl
      · exact .inl rfl
  | @openPage q =>
      refine h.mono rfl rfl ?_ ?_
      · simp only [setPage_pages]
        split
        · exact h.storage.symm.imp id id
        · exact .inl rfl
      · simp only [setPage_pages]
        split
        · exact .inr rfl
        · exact h.storage
  | @await i c hc hphase =>
      unfold awaitRefresh
      cases hpending : (s.pages c.page).pendingRefresh with
      | some r => exact h.mono rfl rfl (.inl rfl) h.storage
      | none =>
          have hstarts : startsOn s (.respond i 401) = some c.page := by
            simp [startsOn, hc, Call.pastFirst, hphase, hpending]
          have hsettled := hapart (by rw [hstarts]; rfl)
          have hpage : c.page = page := honly c.page hstarts
          subst hpage
          refine agree_startExchange h hsettled rfl rfl rfl ?_
          simp [setCall, setPage]
          rfl
  | login q =>
      have hpage : q = page := honly q rfl
      subst hpage
      exact agree_startExchange h (hapart rfl) rfl rfl rfl rfl
  | logout q =>
      have hpage : q = page := honly q rfl
      subst hpage
      exact agree_startExchange h (hapart rfl) rfl rfl rfl rfl
  | @serve r x outcome hx hphase =>
      have hopen : ¬ x.Settled := by simp [Exchange.Settled, hphase]
      have hnow := h.now hx hopen (by simp [Exchange.readsCookies, hphase])
      exact h.set _ hx hopen rfl h.csrfPath h.storage (.inr (hnow.congr rfl rfl)) (by simp)
        (by simp)
  | deliver hx hphase => exact agree_deliver h hx hphase
  | @finish r x answer hx hphase =>
      have hopen : ¬ x.Settled := by simp [Exchange.Settled, hphase]
      cases answer with
      | tokens cookies => exact agree_finishTokens h hx hphase
      | cleared => exact agree_settle h hx hopen (by simp [hphase]) true
      | refused => exact agree_settle h hx hopen (by simp [hphase]) false
  | @lose r x hx hopen =>
      have hreads : x.readsCookies = false := hread x hx
      refine agree_settle h hx hopen (fun cookies hphase => ?_) false
      simp [Exchange.readsCookies, hphase] at hreads

theorem agree_init (page : Nat) : Agree page init where
  oneOpen := fun i j x y hx => by simp [init] at hx
  mine := fun x hx => (List.not_mem_nil hx).elim
  storage := .inl rfl
  csrfPath := CookieJar.onePath_empty
  agreed := .inr (.inl rfl)
  tokens := fun x hx => (List.not_mem_nil hx).elim
  cleared := fun x hx => (List.not_mem_nil hx).elim

theorem normalizeMethod_safe {method : String} (h : toUpperCase method ∈ SAFE_METHODS) :
    normalizeMethod method ∈ SAFE_METHODS := by
  have hknown : toUpperCase method ∈ ["DELETE", "GET", "HEAD", "OPTIONS", "POST", "PUT"] := by
    simp only [SAFE_METHODS, List.mem_cons, List.not_mem_nil, or_false] at h ⊢
    rcases h with h | h | h
    · simp [h]
    · simp [h]
    · simp [h]
  rwa [normalizeMethod, if_pos hknown]

/-- A page whose token is the one in the cookie passes the CSRF check. -/
theorem fetchRequest_passes {page : Nat} {s : State}
    (hcsrfPath : s.browser.jar.OnePath "csrf_token" "/") (hagreed : Agreed page s)
    (htoken : (s.pages page).csrf_token ≠ none) (route : Route) (path method : String) :
    CsrfGuard.canActivate ⟨true, route, s.fetchRequest page path method⟩ = .ok () := by
  unfold CsrfGuard.canActivate
  simp only [Bool.not_true, Bool.false_eq_true, if_false]
  by_cases hsafe : (s.fetchRequest page path method).method ∈ SAFE_METHODS
  · rw [if_pos hsafe]
  · rw [if_neg hsafe]
    split
    · rfl
    · split
      · rfl
      · have hmutating : toUpperCase method ∉ SAFE_METHODS := fun h => hsafe (normalizeMethod_safe h)
        cases hcookie : (s.fetchRequest page path method).cookies "csrf_token" with
        | none => rfl
        | some token =>
            by_cases hempty : token = ""
            · simp [hempty]
            · have hattached : s.browser.attached path "csrf_token" = some token := hcookie
              rw [Browser.attached, hcsrfPath.read_eq] at hattached
              obtain ⟨c, hc, rfl⟩ := Option.map_eq_some_iff.mp hattached
              obtain ⟨hlookup, -⟩ := Option.filter_eq_some_iff.mp hc
              have hpage : (s.pages page).csrf_token = some c.value :=
                hagreed.resolve_left htoken c hlookup
              have hheader : (s.fetchRequest page path method).headers "x-csrf-token" =
                  some c.value := by
                simp [State.fetchRequest, hpage, hempty, hmutating]
              simp [hempty, hheader, (tokensMatch_iff c.value c.value).mpr rfl]

/-- A request sent while the page reads the answer of its refresh carries the old token next to the
new cookie. -/
theorem reading_refused : ∃ e, CsrfGuard.canActivate ⟨true, {},
    (run site (signInAndRefresh.take 9)).fetchRequest 0 "/iam/v1/users" "POST"⟩ = .error e :=
  ⟨.forbidden "Missing or invalid CSRF token.", by decide +kernel⟩

end ErpApi.Csrf
