import ErpApi.Auth.AuthService
import ErpApi.Session.Rewrites

set_option autoImplicit false

/-! # The flag `must_change_password` in the sessions

A login and a refresh copy the flag from the credential into the session that they write at their
end; a password operation writes the credential and then the flag into the sessions that it finds.
So a session can get a flag that the credential does not have any more
(`reset_missed_by_refresh`). When all calls have completed, the sessions agree with the credential,
provided that every write of a flag is of the credential's value or is followed by another one, and
that every session with another value is in the index when a password operation lists the sessions
(`flags_agree`).
-/

namespace ErpApi.Auth

open Session (Redis SessionData)

/-! ## The runs -/

/-- The calls are logins, refreshes and password operations. -/
def NoRevocation (_ : ServerConfig) : ServerEvent → Prop
  | .start (.revoke _) => False
  | _ => True

instance (c : ServerConfig) : (e : ServerEvent) → Decidable (NoRevocation c e)
  | .start (.login _) => .isTrue trivial
  | .start (.refresh _) => .isTrue trivial
  | .start (.password _) => .isTrue trivial
  | .start (.revoke _) => .isFalse not_false
  | .advance _ => .isTrue trivial
  | .surroundings _ => .isTrue trivial

/-- The flag of the session is that of the credential. -/
def FlagCurrent (userId : String) (s : Server) (data : SessionData) : Prop :=
  ∀ c ∈ s.credentials.rows, c.user_id = userId → data.must_change_password = c.must_change_password

instance (userId : String) (s : Server) (data : SessionData) :
    Decidable (FlagCurrent userId s data) :=
  inferInstanceAs (Decidable (∀ c ∈ s.credentials.rows, c.user_id = userId →
    data.must_change_password = c.must_change_password))

/-- Every live session of the user has the flag of the credential. -/
def FlagsAgree (userId : String) (s : Server) : Prop :=
  ∀ jti data, s.redis.live jti = some data → data.user_id = userId → FlagCurrent userId s data

/-- The session that the next command of a call writes. -/
def ServerCall.sets : ServerCall → Option (String × SessionData)
  | .login _ (.issue _ call) => call.phase.sets
  | .refresh call => call.phase.sets
  | .password _ (.sessions call) => call.phase.written
  | _ => none

/-- A password operation is going to list the sessions of the user, or to write this one. -/
def ServerCall.Rewrites (userId jti : String) : ServerCall → Prop
  | .password _ (.sessions call) => call.phase = .smembers userId ∨ call.phase.treats jti
  | _ => False

instance (userId jti : String) : (call : ServerCall) → Decidable (call.Rewrites userId jti)
  | .password _ (.sessions call) =>
      inferInstanceAs (Decidable (call.phase = .smembers userId ∨ call.phase.treats jti))
  | .password _ .find => .isFalse not_false
  | .password _ (.preload _) => .isFalse not_false
  | .password _ (.write _ _) => .isFalse not_false
  | .password _ (.insert _) => .isFalse not_false
  | .password _ (.done _) => .isFalse not_false
  | .login _ _ => .isFalse not_false
  | .refresh _ => .isFalse not_false
  | .revoke _ _ => .isFalse not_false

/-- A call that writes a session of the user writes the flag that the credential has, or another
call is going to write the session after it. -/
def WritesFlag (userId : String) (c : ServerConfig) : ServerEvent → Prop
  | .advance i => ∀ call ∈ c.calls[i]?, ∀ w ∈ call.sets, w.2.user_id = userId →
      FlagCurrent userId c.shared w.2 ∨ ∃ other ∈ c.calls.eraseIdx i, other.Rewrites userId w.1
  | _ => True

instance (userId : String) (c : ServerConfig) :
    (e : ServerEvent) → Decidable (WritesFlag userId c e)
  | .advance i => inferInstanceAs (Decidable (∀ call ∈ c.calls[i]?, ∀ w ∈ call.sets,
      w.2.user_id = userId → FlagCurrent userId c.shared w.2 ∨
        ∃ other ∈ c.calls.eraseIdx i, other.Rewrites userId w.1))
  | .start _ => .isTrue trivial
  | .surroundings _ => .isTrue trivial

/-- The call lists the sessions of the user. -/
def ServerCall.lists (userId : String) : ServerCall → Bool
  | .password _ (.sessions call) => call.phase = .smembers userId
  | _ => false

/-- When a password operation lists the sessions of the user, a live session that is not in the
index has the flag that the credential has. -/
def ListsAll (userId : String) (c : ServerConfig) : ServerEvent → Prop
  | .advance i => ∀ call ∈ c.calls[i]?, call.lists userId = true →
      ∀ jti data, c.shared.redis.live jti = some data → data.user_id = userId →
        jti ∈ c.shared.redis.index userId ∨ FlagCurrent userId c.shared data
  | _ => True

/-! ## What a call does -/

/-- A password operation knows a row of its user, and writes the sessions of its user. -/
def PasswordPhase.Ok (s : Server) (request : PasswordRequest) : PasswordPhase → Prop
  | .preload entity => entity.user_id = request.userId ∧
      ∃ row ∈ s.credentials.rows, row.id = entity.id ∧ row.user_id = request.userId
  | .write entity _ =>
      ∃ row ∈ s.credentials.rows, row.id = entity.id ∧ row.user_id = request.userId
  | .insert entity => entity.user_id = request.userId
  | .sessions call =>
      call.method = .setMustChangePasswordForUser request.userId request.flag ∧
        call.phase.Positive
  | _ => True

def ServerCall.Ok (s : Server) : ServerCall → Prop
  | .password request phase => phase.Ok s request
  | .revoke _ _ => False
  | _ => True

/-- Every credential is still there, of the same user. -/
def RowsKept (s s' : Server) : Prop :=
  ∀ row ∈ s.credentials.rows, ∃ row' ∈ s'.credentials.rows,
    row'.id = row.id ∧ row'.user_id = row.user_id

theorem RowsKept.refl (s : Server) : RowsKept s s := fun row hrow => ⟨row, hrow, rfl, rfl⟩

theorem RowsKept.of_eq {s s' : Server} (h : s'.credentials = s.credentials) : RowsKept s s' := by
  intro row hrow
  exact ⟨row, h ▸ hrow, rfl, rfl⟩

theorem RowsKept.exists {s s' : Server} (h : RowsKept s s') {id userId : String}
    (hrow : ∃ row ∈ s.credentials.rows, row.id = id ∧ row.user_id = userId) :
    ∃ row ∈ s'.credentials.rows, row.id = id ∧ row.user_id = userId := by
  obtain ⟨row, hrow, hid, huser⟩ := hrow
  obtain ⟨row', hrow', hid', huser'⟩ := h row hrow
  exact ⟨row', hrow', hid'.trans hid, huser'.trans huser⟩

theorem ServerCall.Ok.kept {s s' : Server} {call : ServerCall} (h : call.Ok s)
    (hkept : RowsKept s s') : call.Ok s' := by
  cases call with
  | password request phase =>
      cases phase with
      | preload entity => exact ⟨h.1, hkept.exists h.2⟩
      | write entity stored => exact hkept.exists h
      | insert entity => exact h
      | sessions call => exact h
      | _ => trivial
  | revoke jti phase => exact h
  | _ => trivial

/-- The call does not touch the credentials, and writes the session that it is about to write. -/
structure Quiet (s s' : Server) (call : ServerCall) : Prop where
  credentials : s'.credentials = s.credentials
  live : ∀ jti data, s'.redis.live jti = some data →
    s.redis.live jti = some data ∨ call.sets = some (jti, data)
  promises : ∀ userId jti, ¬ call.Rewrites userId jti

/-- The call has stored the credential of a user. -/
structure Stores (s s' : Server) (call call' : ServerCall) (user : String) : Prop where
  redis : s'.redis = s.redis
  rewrites : ∀ jti, call'.Rewrites user jti
  others : ∀ row ∈ s'.credentials.rows, row.user_id ≠ user → row ∈ s.credentials.rows
  promises : ∀ userId jti, ¬ call.Rewrites userId jti

inductive CallView (s s' : Server) (call call' : ServerCall) : Prop where
  | quiet (h : Quiet s s' call)
  | stores (user : String) (h : Stores s s' call call' user)
  | sessions (request : PasswordRequest) (inner inner' : Session.Call)
      (before : call = .password request (.sessions inner))
      (after : call' = .password request (.sessions inner'))
      (credentials : s'.credentials = s.credentials)
      (rewrite : Session.Rewrite s.redis s'.redis inner.phase inner'.phase)

section Commands

variable {env : ServiceEnv} {s : Server}

theorem Quiet.of_redis {s' : Server} {call : ServerCall}
    (hcredentials : s'.credentials = s.credentials) (hredis : s'.redis = s.redis) (hpromises : ∀ userId jti, ¬ call.Rewrites userId jti) :
    Quiet s s' call :=
  ⟨hcredentials, fun _ _ h => Or.inl (hredis ▸ h), hpromises⟩

/-- A login reads, writes its history and the block list, and issues tokens. -/
theorem login_quiet (request : LoginRequest) (phase : LoginPhase) :
    Quiet s (loginCommand env s request phase).1 (.login request phase) := by
  have hsame : ∀ s' : Server, s'.credentials = s.credentials → s'.redis = s.redis →
      Quiet s s' (.login request phase) :=
    fun s' hcredentials hredis => Quiet.of_redis hcredentials hredis fun _ _ h => h
  cases phase with
  | findCredential =>
      simp only [loginCommand]
      split <;> exact hsame _ rfl rfl
  | assertNotBlocked credential =>
      simp only [loginCommand]
      split
      · exact hsame _ rfl rfl
      · split
        · exact hsame _ rfl rfl
        · split <;> exact hsame _ rfl rfl
  | findUser credential =>
      simp only [loginCommand]
      split
      · exact hsame _ rfl rfl
      · exact hsame _ rfl rfl
      · split
        · exact hsame _ rfl rfl
        · split <;> exact hsame _ rfl rfl
  | resolve credential iamUser =>
      simp only [loginCommand]
      split <;> exact hsame _ rfl rfl
  | issue userId call =>
      simp only [loginCommand]
      split
      · exact hsame _ rfl rfl
      · exact hsame _ rfl rfl
      · exact ⟨rfl, fun jti data h => live_refresh h, fun _ _ h => h⟩
  | recordFailure userId lockFor e =>
      simp only [loginCommand]
      split <;> exact hsame _ rfl rfl
  | countFailures userId e =>
      simp only [loginCommand]
      split <;> exact hsame _ rfl rfl
  | countRecentFailures userId since e =>
      simp only [loginCommand]
      split <;> exact hsame _ rfl rfl
  | block userId e => exact hsame _ rfl rfl
  | done result => exact hsame _ rfl rfl

theorem passwordFind_ok (request : PasswordRequest) :
    (passwordFind env s request).Ok s request := by
  cases request with
  | changePassword userId current_password new_password confirm_password passwordHash =>
      simp only [passwordFind]
      split
      · trivial
      · rename_i credential hfind
        have hmem := List.mem_of_find?_eq_some hfind
        have huser : credential.user_id = userId := by
          have hcond := List.find?_some hfind
          simp only [Bool.and_eq_true, beq_iff_eq] at hcond
          exact hcond.1.1
        split
        · trivial
        · exact ⟨huser, credential, hmem, rfl, huser⟩
  | resetPassword userId username reset_by passwordHash newId =>
      simp only [passwordFind]
      split
      · rename_i credential hfind
        have hmem := List.mem_of_find?_eq_some hfind
        have huser : credential.user_id = userId := by
          have hcond := List.find?_some hfind
          simp only [Bool.and_eq_true, beq_iff_eq] at hcond
          exact hcond.1
        exact ⟨huser, credential, hmem, rfl, huser⟩
      · rfl

theorem passwordFind_view (request : PasswordRequest) :
    CallView s s (.password request .find) (.password request (passwordFind env s request)) :=
  .quiet (Quiet.of_redis rfl rfl fun _ _ h => h)

/-- The operation has stored the credential: it is going to list the sessions of its user. -/
theorem setMustChangePassword_ok (request : PasswordRequest) :
    request.setMustChangePassword.Ok s request := ⟨rfl, trivial⟩

/-- One statement of a password operation. -/
theorem password_view {request : PasswordRequest} {phase : PasswordPhase}
    (hok : phase.Ok s request) :
    (passwordCommand env s request phase).2.Ok (passwordCommand env s request phase).1 request ∧
    RowsKept s (passwordCommand env s request phase).1 ∧
    CallView s (passwordCommand env s request phase).1 (.password request phase)
      (.password request (passwordCommand env s request phase).2) := by
  cases phase with
  | find => exact ⟨passwordFind_ok request, RowsKept.refl s, passwordFind_view request⟩
  | preload entity =>
      obtain ⟨huser, hrow⟩ := hok
      simp only [passwordCommand]
      split
      · exact ⟨huser, RowsKept.refl s, .quiet (Quiet.of_redis rfl rfl fun _ _ h => h)⟩
      · exact ⟨hrow, RowsKept.refl s, .quiet (Quiet.of_redis rfl rfl fun _ _ h => h)⟩
  | write entity stored =>
      simp only [passwordCommand]
      split
      · exact ⟨trivial, RowsKept.refl s, .quiet (Quiet.of_redis rfl rfl fun _ _ h => h)⟩
      · refine ⟨setMustChangePassword_ok request, ?_, .stores request.userId ⟨rfl, ?_, ?_, ?_⟩⟩
        · intro row hrow
          refine ⟨_, List.mem_map_of_mem hrow, ?_, ?_⟩
          · split <;> rfl
          · split <;> rfl
        · exact fun jti => Or.inl rfl
        · intro row hrow hne
          obtain ⟨old, hold, rfl⟩ := List.mem_map.mp hrow
          by_cases hid : old.id = entity.id
          · -- The row of the entity is one of the user.
            obtain ⟨known, hknown, hid', huser⟩ := hok
            obtain rfl := s.credentials.eq_of_key_eq hold hknown (hid.trans hid'.symm)
            rw [if_pos hid] at hne
            exact absurd huser hne
          · rw [if_neg hid]
            exact hold
        · exact fun _ _ h => h
  | insert entity =>
      simp only [passwordCommand]
      split
      · exact ⟨trivial, RowsKept.refl s, .quiet (Quiet.of_redis rfl rfl fun _ _ h => h)⟩
      · split
        · exact ⟨trivial, RowsKept.refl s, .quiet (Quiet.of_redis rfl rfl fun _ _ h => h)⟩
        · rename_i credentials hinsert
          refine ⟨setMustChangePassword_ok request, ?_, .stores request.userId ⟨rfl, ?_, ?_, ?_⟩⟩
          · intro row hrow
            refine ⟨row, ?_, rfl, rfl⟩
            show row ∈ credentials.rows
            rw [Table.rows_of_insert hinsert]
            exact List.mem_append_left _ hrow
          · exact fun jti => Or.inl rfl
          · intro row hrow hne
            have hrow' : row ∈ credentials.rows := hrow
            rw [Table.rows_of_insert hinsert] at hrow'
            rcases List.mem_append.mp hrow' with hold | hnew
            · exact hold
            · obtain rfl := List.mem_singleton.mp hnew
              exact absurd hok hne
          · exact fun _ _ h => h
  | sessions inner =>
      obtain ⟨hmethod, hpositive⟩ := hok
      simp only [passwordCommand]
      split
      · rename_i hended
        refine ⟨trivial, RowsKept.refl s, .quiet (Quiet.of_redis rfl rfl fun userId jti h => ?_)⟩
        rcases h with hlist | htreats
        · rw [hended] at hlist
          cases hlist
        · rw [hended] at htreats
          obtain ⟨ttlSeconds, data, hmem⟩ := htreats
          cases hmem
      · obtain ⟨method, phase⟩ := inner
        have hm : method.rewrites = true := by
          rw [show method = _ from hmethod]
          rfl
        obtain ⟨hrewrite, hpositive'⟩ := Session.command_rewrite (r := s.redis) hm hpositive
        exact ⟨⟨(Session.command_method _ _).trans hmethod, hpositive'⟩, RowsKept.of_eq rfl,
          .sessions request _ _ rfl rfl rfl hrewrite⟩
  | done result => exact ⟨trivial, RowsKept.refl s, .quiet (Quiet.of_redis rfl rfl fun _ _ h => h)⟩

/-- **What a statement of a call does.** -/
theorem serverCommand_view {call : ServerCall} (hok : call.Ok s) :
    (serverCommand env s call).2.Ok (serverCommand env s call).1 ∧
    RowsKept s (serverCommand env s call).1 ∧
    CallView s (serverCommand env s call).1 call (serverCommand env s call).2 := by
  cases call with
  | login request phase =>
      have hquiet : Quiet s (loginCommand env s request phase).1 (.login request phase) :=
        login_quiet request phase
      exact ⟨trivial, RowsKept.of_eq hquiet.credentials, .quiet hquiet⟩
  | refresh call =>
      exact ⟨trivial, RowsKept.refl s,
        .quiet ⟨rfl, fun jti data h => live_refresh h, fun _ _ h => h⟩⟩
  | password request phase => exact password_view hok
  | revoke jti phase => exact hok.elim

end Commands

/-! ## The sessions while calls are running -/

section Runs

variable {env : ServiceEnv} {userId : String}

/-- A live session with another flag than the credential's is going to be written. -/
structure FlagInv (userId : String) (c : ServerConfig) : Prop where
  calls : ∀ call ∈ c.calls, call.Ok c.shared
  synced : ∀ jti data, c.shared.redis.live jti = some data → data.user_id = userId →
    FlagCurrent userId c.shared data ∨ ∃ call ∈ c.calls, call.Rewrites userId jti

/-- The steps that are considered. -/
def FlagStep (userId : String) (c : ServerConfig) (e : ServerEvent) : Prop :=
  (NoRevocation c e ∧ WritesFlag userId c e) ∧ ListsAll userId c e

theorem FlagCurrent.congr {s s' : Server} {data : SessionData} (h : FlagCurrent userId s data)
    (hcredentials : s'.credentials = s.credentials) : FlagCurrent userId s' data := by
  intro c hc
  rw [hcredentials] at hc
  exact h c hc

/-- Another call stays as it is. -/
theorem rewrites_set {calls : List ServerCall} {i : Nat} {call' : ServerCall} {jti : String}
    (h : ∃ other ∈ calls.eraseIdx i, other.Rewrites userId jti) :
    ∃ other ∈ calls.set i call', other.Rewrites userId jti := by
  obtain ⟨other, hmem, hrewrites⟩ := h
  obtain ⟨k, hk, hother⟩ := List.mem_eraseIdx_iff_getElem?.mp hmem
  refine ⟨other, List.mem_of_getElem? (i := k) ?_, hrewrites⟩
  rw [List.getElem?_set_ne (Ne.symm hk)]
  exact hother

theorem rewrites_or {calls : List ServerCall} {i : Nat} {call : ServerCall} {jti : String}
    (hi : calls[i]? = some call) (h : ∃ other ∈ calls, other.Rewrites userId jti) :
    call.Rewrites userId jti ∨ ∃ other ∈ calls.eraseIdx i, other.Rewrites userId jti := by
  obtain ⟨other, hmem, hrewrites⟩ := h
  obtain ⟨k, hk⟩ := List.mem_iff_getElem?.mp hmem
  by_cases hki : k = i
  · subst hki
    rw [hi] at hk
    obtain rfl := Option.some.inj hk
    exact Or.inl hrewrites
  · exact Or.inr ⟨other, List.mem_eraseIdx_iff_getElem?.mpr ⟨k, hki, hk⟩, hrewrites⟩

/-- A password operation performs a command of `setMustChangePasswordForUser`. -/
theorem synced_sessions {c : ServerConfig} {i : Nat} {s' : Server} {request : PasswordRequest}
    {inner inner' : Session.Call} (hok : FlagStep userId c (.advance i))
    (hi : c.calls[i]? = some (.password request (.sessions inner))) (h : FlagInv userId c)
    (hcredentials : s'.credentials = c.shared.credentials)
    (hrewrite : Session.Rewrite c.shared.redis s'.redis inner.phase inner'.phase) (jti : String)
    (data : SessionData) (hlive : s'.redis.live jti = some data) (huser : data.user_id = userId) :
    FlagCurrent userId s' data ∨
      ∃ call ∈ c.calls.set i (.password request (.sessions inner')), call.Rewrites userId jti := by
  have hmem : ServerCall.password request (.sessions inner') ∈
      c.calls.set i (.password request (.sessions inner')) :=
    List.mem_set (List.getElem?_eq_some_iff.mp hi).1 _
  by_cases hwritten : ∃ data', inner.phase.written = some (jti, data')
  · obtain ⟨data', hdata⟩ := hwritten
    obtain ⟨expires, hsession⟩ := hrewrite.written jti data' hdata
    obtain ⟨expires', hsession'⟩ := Redis.session_of_live hlive
    rw [hsession] at hsession'
    obtain ⟨rfl, -⟩ := Prod.mk.inj (Option.some.inj hsession')
    rcases hok.1.2 _ hi _ hdata huser with hcurrent | hother
    · exact Or.inl (hcurrent.congr hcredentials)
    · exact Or.inr (rewrites_set hother)
  · have hsame : s'.redis.live jti = c.shared.redis.live jti :=
      Redis.live_congr hrewrite.clock (hrewrite.session jti (not_exists.mp hwritten))
    rw [hsame] at hlive
    rcases h.synced jti data hlive huser with hcurrent | hpromised
    · exact Or.inl (hcurrent.congr hcredentials)
    · rcases rewrites_or hi hpromised with (hlist | htreats) | hother
      · -- The sessions of the user are listed, and this one is in the index.
        have hlists : ServerCall.lists userId (.password request (.sessions inner)) = true := by
          simpa [ServerCall.lists] using hlist
        rcases hok.2 _ hi hlists jti data hlive huser with hindex | hcurrent
        · exact Or.inr ⟨_, hmem, Or.inr (hrewrite.listed userId hlist jti hindex)⟩
        · exact Or.inl (hcurrent.congr hcredentials)
      · rcases hrewrite.treated jti htreats with hstill | hnone | hyes
        · exact Or.inr ⟨_, hmem, Or.inr hstill⟩
        · rw [hlive] at hnone
          cases hnone
        · exact absurd hyes hwritten
      · exact Or.inr (rewrites_set hother)

theorem synced_advance {c : ServerConfig} {i : Nat} {call : ServerCall}
    (hok : FlagStep userId c (.advance i)) (hi : c.calls[i]? = some call) (h : FlagInv userId c)
    {s' : Server} {call' : ServerCall} (hview : CallView c.shared s' call call') (jti : String)
    (data : SessionData) (hlive : s'.redis.live jti = some data) (huser : data.user_id = userId) :
    FlagCurrent userId s' data ∨ ∃ other ∈ c.calls.set i call', other.Rewrites userId jti := by
  cases hview with
  | quiet hquiet =>
      rcases hquiet.live jti data hlive with hold | hsets
      · rcases h.synced jti data hold huser with hcurrent | hpromised
        · exact Or.inl (hcurrent.congr hquiet.credentials)
        · have hother := (rewrites_or hi hpromised).resolve_left (hquiet.promises userId jti)
          exact Or.inr (rewrites_set hother)
      · rcases hok.1.2 _ hi _ hsets huser with hcurrent | hother
        · exact Or.inl (hcurrent.congr hquiet.credentials)
        · exact Or.inr (rewrites_set hother)
  | stores user hstores =>
      by_cases hsame : user = userId
      · subst hsame
        exact Or.inr ⟨call', List.mem_set (List.getElem?_eq_some_iff.mp hi).1 _,
          hstores.rewrites jti⟩
      · rw [hstores.redis] at hlive
        rcases h.synced jti data hlive huser with hcurrent | hpromised
        · refine Or.inl fun row hrow hid => hcurrent row (hstores.others row hrow ?_) hid
          rintro rfl
          exact hsame hid
        · have hother := (rewrites_or hi hpromised).resolve_left (hstores.promises userId jti)
          exact Or.inr (rewrites_set hother)
  | sessions request inner inner' before after credentials rewrite =>
      subst before
      subst after
      exact synced_sessions hok hi h credentials rewrite jti data hlive huser

theorem start_ok {c : ServerConfig} {s : Server} {request : ServerRequest}
    (hok : NoRevocation c (.start request)) : (ServerCall.start request).Ok s := by
  cases request with
  | revoke jti => exact hok
  | password request =>
      cases request with
      | changePassword userId current_password new_password confirm_password passwordHash =>
          show (PasswordRequest.start _).Ok s _
          unfold PasswordRequest.start
          dsimp only
          split <;> trivial
      | resetPassword userId username reset_by passwordHash newId => trivial
  | _ => trivial

/-- **One step.** -/
theorem step_flagInv (c : ServerConfig) (e : ServerEvent) (hok : FlagStep userId c e)
    (h : FlagInv userId c) : FlagInv userId (Interleaving.step (server env) c e) := by
  cases e with
  | start request =>
      refine ⟨?_, ?_⟩
      · intro call hcall
        rcases List.mem_append.mp hcall with hold | hnew
        · exact h.calls call hold
        · obtain rfl := List.mem_singleton.mp hnew
          exact start_ok hok.1.1
      · intro jti data hlive huser
        refine (h.synced jti data hlive huser).imp_right ?_
        rintro ⟨call, hcall, hrewrites⟩
        exact ⟨call, List.mem_append_left _ hcall, hrewrites⟩
  | surroundings x =>
      cases x with
      | tick ms =>
          refine ⟨fun call hcall => (h.calls call hcall).kept (RowsKept.of_eq rfl), ?_⟩
          intro jti data hlive huser
          exact h.synced jti data (Redis.live_of_later hlive) huser
      | accounts blockedUsers findById resolvePermissions =>
          exact ⟨fun call hcall => (h.calls call hcall).kept (RowsKept.of_eq rfl), h.synced⟩
  | advance i =>
      cases hi : c.calls[i]? with
      | none =>
          simp only [Interleaving.step, hi]
          exact h
      | some call =>
          have hcall := h.calls call (List.mem_of_getElem? hi)
          obtain ⟨hcall', hkept, hview⟩ := @serverCommand_view env c.shared call hcall
          simp only [Interleaving.step, hi]
          refine ⟨?_, synced_advance hok hi h hview⟩
          intro other hother
          rcases List.mem_or_eq_of_mem_set hother with hold | rfl
          · exact (h.calls other hold).kept hkept
          · exact hcall'

theorem not_rewrites_of_completed {call : ServerCall} (h : call.completed = true) (jti : String) :
    ¬ call.Rewrites userId jti := by
  intro hrewrites
  cases call with
  | password request phase =>
      cases phase with
      | sessions inner => cases h
      | _ => exact hrewrites
  | _ => exact hrewrites

/-- **When all calls have completed, the sessions of the user have the flag of the credential**, in
every run in which a flag that is written into a session is the credential's or is overwritten, and
every session with another flag is in the index when the sessions are listed. -/
theorem flags_agree (env : ServiceEnv) (s : Server) (userId : String) (events : List ServerEvent)
    (hstart : FlagsAgree userId s)
    (hcalls : Interleaving.AllSteps (server env) NoRevocation ⟨s, []⟩ events)
    (hwrites : Interleaving.AllSteps (server env) (WritesFlag userId) ⟨s, []⟩ events)
    (hlists : Interleaving.AllSteps (server env) (ListsAll userId) ⟨s, []⟩ events)
    (hdone : ∀ call ∈ (Interleaving.run (server env) ⟨s, []⟩ events).calls,
      call.completed = true) :
    FlagsAgree userId (Interleaving.run (server env) ⟨s, []⟩ events).shared := by
  have hinit : FlagInv userId ⟨s, []⟩ :=
    ⟨by simp, fun jti data hlive huser => Or.inl (hstart jti data hlive huser)⟩
  have hsteps := Interleaving.allSteps_and _ (Interleaving.allSteps_and _ hcalls hwrites) hlists
  have hinv := Interleaving.run_invariant (server env) step_flagInv hsteps hinit
  intro jti data hlive huser
  refine (hinv.synced jti data hlive huser).resolve_right ?_
  rintro ⟨call, hcall, hrewrites⟩
  exact not_rewrites_of_completed (hdone call hcall) jti hrewrites

end Runs

/-! ## Two runs with one user -/

/-- No password operation lists the sessions of the user. -/
def ListsNone (userId : String) (c : ServerConfig) : ServerEvent → Prop
  | .advance i => ∀ call ∈ c.calls[i]?, call.lists userId = false
  | _ => True

instance (userId : String) (c : ServerConfig) :
    (e : ServerEvent) → Decidable (ListsNone userId c e)
  | .advance i => inferInstanceAs (Decidable (∀ call ∈ c.calls[i]?, call.lists userId = false))
  | .start _ => .isTrue trivial
  | .surroundings _ => .isTrue trivial

theorem listsAll_of_listsNone (userId : String) (c : ServerConfig) (e : ServerEvent)
    (h : ListsNone userId c e) : ListsAll userId c e := by
  cases e with
  | advance i =>
      intro call hcall hlists
      rw [h call hcall] at hlists
      cases hlists
  | _ => trivial

def sampleReset : ServerRequest := .password (.resetPassword "u" "alice" none "temporary" "c2")

/-- A refresh reads the credential, a reset stores it, and the refresh creates its session with the
flag that it has read. -/
def untilListing : List ServerEvent :=
  .start (.refresh firstRequest) :: List.replicate 3 (.advance 0) ++
    .start sampleReset :: List.replicate 3 (.advance 1) ++ List.replicate 7 (.advance 0)

/-- Then the reset lists the sessions and writes both. -/
def resetAfterRefresh : List ServerEvent :=
  untilListing ++ .advance 1 :: List.replicate 7 (.advance 1)

theorem oneSession_flagsAgree : FlagsAgree "u" oneSession := by
  intro jti data hlive _ c hc _
  obtain rfl := List.mem_singleton.mp hc
  obtain ⟨expires, hsession⟩ := Redis.session_of_live hlive
  have hsome : (if jti = "j0" then some (Session.aliceSession, 900000) else none) =
      some (data, expires) := hsession
  split at hsome
  · rw [← (Prod.mk.inj (Option.some.inj hsome)).1]
    rfl
  · cases hsome

/-- Both sessions are in the index when the reset lists them. -/
theorem listsAll_resetAfterRefresh : Interleaving.AllSteps (server plainServiceEnv) (ListsAll "u")
    ⟨oneSession, []⟩ resetAfterRefresh := by
  have hnone : Interleaving.AllSteps (server plainServiceEnv) (ListsNone "u") ⟨oneSession, []⟩
      untilListing := by decide +kernel
  have hrest : Interleaving.AllSteps (server plainServiceEnv) (ListsNone "u")
      (Interleaving.step (server plainServiceEnv)
        (Interleaving.run (server plainServiceEnv) ⟨oneSession, []⟩ untilListing) (.advance 1))
      (List.replicate 7 (.advance 1)) := by decide +kernel
  rw [resetAfterRefresh, Interleaving.allSteps_append]
  refine ⟨Interleaving.allSteps_mono _ (listsAll_of_listsNone "u") hnone, ?_,
    Interleaving.allSteps_mono _ (listsAll_of_listsNone "u") hrest⟩
  intro call _ _ jti data hlive _
  left
  obtain ⟨expires, hsession⟩ := Redis.session_of_live hlive
  have hredis : (Interleaving.run (server plainServiceEnv) ⟨oneSession, []⟩
      untilListing).shared.redis.session = fun k =>
        if k = "j1" then some (Session.aliceSession, 900000)
        else if k = "j0" then some (Session.aliceSession, 900000) else none := rfl
  have hindex : (Interleaving.run (server plainServiceEnv) ⟨oneSession, []⟩
      untilListing).shared.redis.index "u" = ["j0", "j1"] := rfl
  rw [hredis] at hsession
  rw [hindex]
  by_cases h1 : jti = "j1"
  · simp [h1]
  · by_cases h0 : jti = "j0"
    · simp [h0]
    · simp [h0, h1] at hsession

theorem flags_agree_resetAfterRefresh :
    (∀ call ∈ (Interleaving.run (server plainServiceEnv) ⟨oneSession, []⟩
      resetAfterRefresh).calls, call.completed = true) ∧
    FlagsAgree "u" (Interleaving.run (server plainServiceEnv) ⟨oneSession, []⟩
      resetAfterRefresh).shared := by
  have hdone : ∀ call ∈ (Interleaving.run (server plainServiceEnv) ⟨oneSession, []⟩
      resetAfterRefresh).calls, call.completed = true := by decide +kernel
  exact ⟨hdone, flags_agree plainServiceEnv oneSession "u" resetAfterRefresh oneSession_flagsAgree
    (by decide +kernel) (by decide +kernel) listsAll_resetAfterRefresh hdone⟩

/-- The reset runs to its end between the look-up of the credential and the new session. -/
def resetInsideRefresh : List ServerEvent :=
  .start (.refresh firstRequest) :: List.replicate 3 (.advance 0) ++
    .start sampleReset :: List.replicate 8 (.advance 1) ++ List.replicate 7 (.advance 0)

/-- **A reset account stays usable**: the new session does not require a change of the password,
although the credential does. -/
theorem reset_missed_by_refresh :
    FlagsAgree "u" oneSession ∧
    Interleaving.AllSteps (server plainServiceEnv) NoRevocation ⟨oneSession, []⟩
      resetInsideRefresh ∧
    (∀ call ∈ (Interleaving.run (server plainServiceEnv) ⟨oneSession, []⟩
      resetInsideRefresh).calls, call.completed = true) ∧
    ¬ FlagsAgree "u" (Interleaving.run (server plainServiceEnv) ⟨oneSession, []⟩
      resetInsideRefresh).shared := by
  refine ⟨oneSession_flagsAgree, by decide +kernel, by decide +kernel, fun h => ?_⟩
  have hlive : (Interleaving.run (server plainServiceEnv) ⟨oneSession, []⟩
      resetInsideRefresh).shared.redis.live "j1" = some Session.aliceSession := by decide +kernel
  have hcurrent := h "j1" _ hlive rfl
  revert hcurrent
  decide +kernel

end ErpApi.Auth
