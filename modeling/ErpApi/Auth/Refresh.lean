import ErpApi.Basic.JsString
import ErpApi.Basic.Table
import ErpApi.Session.SessionStore

set_option autoImplicit false

/-! # Refreshing a token pair

`AuthService.refresh` exchanges a refresh token for a new token pair. It looks the token up
among the unrevoked ones, revokes it in a second statement, checks the account, and issues
the new pair. The statements of different calls interleave.

Rotation is meant to make a refresh token good for one exchange, but between a look-up and
the write that revokes the token another call finds the token unrevoked too
(`both_refreshes_succeed`). At most one call succeeds in every run in which no call looks a
token up while another call that presented it stands between the two statements
(`refresh_at_most_once`).
-/

namespace ErpApi.Auth

open Session (Redis SessionData)

structure RefreshToken where
  id : String
  user_id : String
  token_hash : String
  expires_at : Nat
  revoked_at : Option Nat
  deleted_at : Option Nat := none
  deriving DecidableEq

structure Credential where
  user_id : String
  is_active : Bool
  must_change_password : Bool
  deleted_at : Option Nat := none
  deriving DecidableEq

structure BlockedUser where
  user_id : String
  blocked_until : Option Nat
  deleted_at : Option Nat := none
  deriving DecidableEq

inductive UserStatus where
  | active
  | pending
  | suspended
  deriving DecidableEq

structure IamUser where
  id : String
  username : String
  email : Option String
  full_name : Option String
  status : UserStatus
  expired_at : Option String
  deriving DecidableEq

structure ResolvedPermissions where
  roles : List String
  permissions : List String
  conditional_permissions : List String
  deriving DecidableEq

inductive AuthError where
  | unauthorized (message : String)
  | forbidden (message : String)
  /-- An error passed on from iam or from the database. -/
  | other
  deriving DecidableEq

structure LoginResult where
  access_token : String
  refresh_token : String
  csrf_token : String
  expires_in : Nat
  must_change_password : Bool
  deriving DecidableEq

structure TokenPayload where
  sub : String
  username : String
  fullname : Option String
  email : Option String
  jti : String
  deriving DecidableEq

/-- What the service takes from its libraries and its configuration. -/
structure Env where
  /-- The hex digest of a token. -/
  hashToken : String → String
  sign : TokenPayload → Nat → String
  /-- The calendar day of a point in time, in the project's time zone. -/
  dateOnly : Nat → String
  accessTtlSeconds : Nat
  refreshTtlSeconds : Nat

/-- The database of the service, its Redis, and the answers of iam. -/
structure State where
  /-- The column `token_hash` is unique. -/
  refreshTokens : Table RefreshToken (·.token_hash)
  credentials : List Credential
  blockedUsers : List BlockedUser
  findById : String → Except AuthError (Option IamUser)
  resolvePermissions : String → Except AuthError (Option ResolvedPermissions)
  redis : Redis

def State.now (s : State) : Nat := s.redis.clock

/-! ## The call -/

/-- The presented token, and the random values the call will draw. -/
structure Request where
  refreshTokenRaw : String
  jti : String
  newId : String
  newRefreshTokenRaw : String
  csrfToken : String
  deriving DecidableEq

/-- Where a call stands: the statement it performs next, and what it has read. -/
inductive Phase where
  | lookUp
  | revoke (row : RefreshToken)
  | findCredential (row : RefreshToken)
  | assertNotBlocked (row : RefreshToken) (credential : Credential)
  | findUser (row : RefreshToken) (credential : Credential)
  | resolve (row : RefreshToken) (credential : Credential) (iamUser : IamUser)
  | saveToken (iamUser : IamUser) (resolved : ResolvedPermissions) (mustChangePassword : Bool)
  | createSession (commands : List Session.Command) (result : LoginResult)
  | done (result : Except AuthError LoginResult)
  deriving DecidableEq

structure Call where
  request : Request
  phase : Phase
  deriving DecidableEq

def Call.goto (call : Call) (phase : Phase) : Call := { call with phase := phase }

def Call.fail (call : Call) (e : AuthError) : Call := call.goto (.done (.error e))

/-- The `where` value of the look-up. -/
def RefreshToken.isUsable (hash : String) (now : Nat) (row : RefreshToken) : Bool :=
  row.token_hash == hash && row.revoked_at.isNone && decide (now < row.expires_at) &&
    row.deleted_at.isNone

def BlockedUser.blocks (userId : String) (now : Nat) (row : BlockedUser) : Bool :=
  row.user_id == userId && row.deleted_at.isNone && row.blocked_until.all fun t => now < t

/-- The day is past the account's last day; no date means that it never expires. -/
def isExpired (env : Env) (now : Nat) (expiredAt : Option String) : Bool :=
  match expiredAt with
  | none => false
  | some day => day != "" && Js.lt day (env.dateOnly now)

/-- The write that revokes a token: `save` updates the row by its id. -/
def State.revokeToken (s : State) (id : String) : State :=
  { s with
    refreshTokens := s.refreshTokens.update
      (fun r => if r.id = id then { r with revoked_at := some s.now } else r)
      (fun r => by split <;> rfl) }

def invalidToken : AuthError := .unauthorized "Refresh token is invalid or expired."

/-- The session that `issueTokens` stores. -/
def sessionOf (iamUser : IamUser) (resolved : ResolvedPermissions) (mustChangePassword : Bool) :
    SessionData where
  user_id := iamUser.id
  username := iamUser.username
  fullname := iamUser.full_name
  email := iamUser.email
  roles := resolved.roles
  permissions := resolved.permissions
  conditional_permissions := resolved.conditional_permissions
  expired_at := iamUser.expired_at
  must_change_password := mustChangePassword

/-- The next statement of a call. -/
def command (env : Env) (s : State) (call : Call) : State × Call :=
  match call.phase with
  | .lookUp =>
      match s.refreshTokens.rows.find?
          (·.isUsable (env.hashToken call.request.refreshTokenRaw) s.now) with
      | none => (s, call.fail invalidToken)
      | some row => (s, call.goto (.revoke row))
  | .revoke row => (s.revokeToken row.id, call.goto (.findCredential row))
  | .findCredential row =>
      match s.credentials.find? fun c => c.user_id == row.user_id && c.deleted_at.isNone with
      | none => (s, call.fail invalidToken)
      | some credential =>
          if credential.is_active then (s, call.goto (.assertNotBlocked row credential))
          else (s, call.fail invalidToken)
  | .assertNotBlocked row credential =>
      if s.blockedUsers.any (·.blocks row.user_id s.now) then
        (s, call.fail (.forbidden "This account is currently blocked."))
      else (s, call.goto (.findUser row credential))
  | .findUser row credential =>
      match s.findById row.user_id with
      | .error e => (s, call.fail e)
      | .ok none => (s, call.fail (.forbidden "This user account is not active."))
      | .ok (some iamUser) =>
          if iamUser.status ≠ .active then
            (s, call.fail (.forbidden "This user account is not active."))
          else if isExpired env s.now iamUser.expired_at then
            (s, call.fail (.forbidden "This user account has expired."))
          else (s, call.goto (.resolve row credential iamUser))
  | .resolve row credential iamUser =>
      match s.resolvePermissions row.user_id with
      | .error e => (s, call.fail e)
      | .ok resolved =>
          (s, call.goto (.saveToken iamUser (resolved.getD ⟨[], [], []⟩)
            credential.must_change_password))
  | .saveToken iamUser resolved mustChangePassword =>
      let payload : TokenPayload :=
        ⟨iamUser.id, iamUser.username, iamUser.full_name, iamUser.email, call.request.jti⟩
      let row : RefreshToken :=
        { id := call.request.newId
          user_id := iamUser.id
          token_hash := env.hashToken call.request.newRefreshTokenRaw
          expires_at := s.now + env.refreshTtlSeconds * 1000
          revoked_at := none }
      match s.refreshTokens.insert row with
      | none => (s, call.fail .other)
      | some refreshTokens =>
          ({ s with refreshTokens := refreshTokens },
            call.goto (.createSession
              [.setex call.request.jti env.accessTtlSeconds
                  (sessionOf iamUser resolved mustChangePassword),
                .sadd iamUser.id call.request.jti]
              { access_token := env.sign payload env.accessTtlSeconds
                refresh_token := call.request.newRefreshTokenRaw
                csrf_token := call.request.csrfToken
                expires_in := env.accessTtlSeconds
                must_change_password := mustChangePassword }))
  | .createSession [] result => (s, call.goto (.done (.ok result)))
  | .createSession (c :: commands) result =>
      ({ s with redis := s.redis.exec c }, call.goto (.createSession commands result))
  | .done _ => (s, call)

/-- What happens around the refresh calls. -/
inductive Surroundings where
  | tick (ms : Nat)
  /-- Any change of credentials, of the block list and of what iam answers. -/
  | accounts (credentials : List Credential) (blockedUsers : List BlockedUser)
      (findById : String → Except AuthError (Option IamUser))
      (resolvePermissions : String → Except AuthError (Option ResolvedPermissions))
  /-- A logout that presents a refresh token. -/
  | logout (refreshTokenRaw : String)
  /-- An administrator revokes the tokens of a user. -/
  | revokeUser (userId : String)
  /-- A login inserts a refresh token. -/
  | login (row : RefreshToken)

/-- An update of `revoked_at` where it is null. -/
def State.revokeWhere (s : State) (cond : RefreshToken → Bool) : State :=
  { s with
    refreshTokens := s.refreshTokens.update
      (fun r => if cond r && r.revoked_at.isNone then { r with revoked_at := some s.now } else r)
      (fun r => by split <;> rfl) }

def surroundings (env : Env) (s : State) : Surroundings → State
  | .tick ms => { s with redis := { s.redis with clock := s.redis.clock + ms } }
  | .accounts credentials blockedUsers findById resolvePermissions =>
      { s with
        credentials := credentials
        blockedUsers := blockedUsers
        findById := findById
        resolvePermissions := resolvePermissions }
  | .logout refreshTokenRaw => s.revokeWhere (·.token_hash == env.hashToken refreshTokenRaw)
  | .revokeUser userId => s.revokeWhere (·.user_id == userId)
  | .login row =>
      match s.refreshTokens.insert row with
      | none => s
      | some refreshTokens => { s with refreshTokens := refreshTokens }

def service (env : Env) : Interleaving.System State Call Request Surroundings where
  start _ request := ⟨request, .lookUp⟩
  command := command env
  surroundings := surroundings env

abbrev Config := Interleaving.Config State Call
abbrev Event := Interleaving.Event Request Surroundings

/-! ## Rows only get older -/

/-- Every row is still there, under its id and hash, and a revoked one is still revoked. -/
def Ages (s s' : State) : Prop :=
  ∀ r ∈ s.refreshTokens.rows, ∃ r' ∈ s'.refreshTokens.rows,
    r'.id = r.id ∧ r'.token_hash = r.token_hash ∧
      (r.revoked_at.isSome = true → r'.revoked_at.isSome = true)

theorem Ages.refl (s : State) : Ages s s := fun r hr => ⟨r, hr, rfl, rfl, id⟩

theorem ages_update {s : State} (f : RefreshToken → RefreshToken)
    (hf : ∀ r, (f r).token_hash = r.token_hash) (hid : ∀ r, (f r).id = r.id)
    (hrev : ∀ r, r.revoked_at.isSome = true → (f r).revoked_at.isSome = true) :
    Ages s { s with refreshTokens := s.refreshTokens.update f hf } := fun r hr =>
  ⟨f r, List.mem_map_of_mem hr, hid r, hf r, hrev r⟩

theorem ages_insert {s : State} {row : RefreshToken}
    {refreshTokens : Table RefreshToken (·.token_hash)}
    (h : s.refreshTokens.insert row = some refreshTokens) :
    Ages s { s with refreshTokens := refreshTokens } := by
  intro r hr
  refine ⟨r, ?_, rfl, rfl, id⟩
  rw [Table.rows_of_insert h]
  exact List.mem_append_left _ hr

theorem ages_revokeToken (s : State) (id : String) : Ages s (s.revokeToken id) := by
  refine ages_update _ _ (fun r => ?_) (fun r h => ?_)
  · by_cases hr : r.id = id
    · rw [if_pos hr]
    · rw [if_neg hr]
  · by_cases hr : r.id = id
    · rw [if_pos hr]
      rfl
    · rw [if_neg hr]
      exact h

theorem ages_revokeWhere (s : State) (cond : RefreshToken → Bool) :
    Ages s (s.revokeWhere cond) := by
  refine ages_update _ _ (fun r => ?_) (fun r h => ?_)
  · split <;> rfl
  · split
    · rfl
    · exact h

/-- **What a statement of a call does to the state**: it only reads, it revokes the token, it
stores the new token, or it performs a command of the session store. -/
theorem command_state (env : Env) (s : State) (call : Call) :
    (command env s call).1 = s ∨
    (∃ row, call.phase = .revoke row ∧ (command env s call).1 = s.revokeToken row.id) ∨
    (∃ iamUser resolved mustChangePassword row refreshTokens,
      call.phase = .saveToken iamUser resolved mustChangePassword ∧ row.user_id = iamUser.id ∧
      s.refreshTokens.insert row = some refreshTokens ∧
      (command env s call).1 = { s with refreshTokens := refreshTokens }) ∨
    (∃ c commands result, call.phase = .createSession (c :: commands) result ∧
      (command env s call).1 = { s with redis := s.redis.exec c }) := by
  obtain ⟨request, phase⟩ := call
  cases phase with
  | revoke row => exact .inr (.inl ⟨row, rfl, rfl⟩)
  | saveToken iamUser resolved mustChangePassword =>
      simp only [command]
      split
      · exact .inl rfl
      · rename_i refreshTokens h
        exact .inr (.inr (.inl ⟨iamUser, resolved, mustChangePassword, _, refreshTokens, rfl, rfl,
          h, rfl⟩))
  | createSession commands result =>
      cases commands with
      | nil => exact .inl rfl
      | cons c commands => exact .inr (.inr (.inr ⟨c, commands, result, rfl, rfl⟩))
  | lookUp =>
      simp only [command]
      split <;> exact .inl rfl
  | findCredential row =>
      simp only [command]
      split
      · exact .inl rfl
      · split <;> exact .inl rfl
  | assertNotBlocked row credential =>
      simp only [command]
      split <;> exact .inl rfl
  | findUser row credential =>
      simp only [command]
      split
      · exact .inl rfl
      · exact .inl rfl
      · split
        · exact .inl rfl
        · split <;> exact .inl rfl
  | resolve row credential iamUser =>
      simp only [command]
      split <;> exact .inl rfl
  | done result => exact .inl rfl

theorem ages_command (env : Env) (s : State) (call : Call) : Ages s (command env s call).1 := by
  rcases command_state env s call with heq | ⟨row, -, heq⟩ |
    ⟨-, -, -, row, refreshTokens, -, -, hinsert, heq⟩ | ⟨c, commands, result, -, heq⟩
  · rw [heq]
    exact Ages.refl s
  · rw [heq]
    exact ages_revokeToken s row.id
  · rw [heq]
    exact ages_insert hinsert
  · rw [heq]
    exact Ages.refl s

theorem ages_surroundings (env : Env) (s : State) (x : Surroundings) :
    Ages s (surroundings env s x) := by
  cases x with
  | tick ms => exact Ages.refl s
  | accounts _ _ _ _ => exact Ages.refl s
  | logout raw => exact ages_revokeWhere s _
  | revokeUser userId => exact ages_revokeWhere s _
  | login row =>
      unfold surroundings
      dsimp only
      split
      · exact Ages.refl s
      · rename_i refreshTokens h
        exact ages_insert h

/-! ## One exchange for each token -/

/-- Between a successful look-up and the write that revokes the token. -/
def Phase.holding : Phase → Option RefreshToken
  | .revoke row => some row
  | _ => none

/-- After the write that revokes the token, unless the call has failed. -/
def Phase.past : Phase → Bool
  | .lookUp => false
  | .revoke _ => false
  | .done (.error _) => false
  | _ => true

def Call.presents (token : String) (call : Call) : Bool :=
  call.request.refreshTokenRaw == token

def Call.succeeded (call : Call) : Bool :=
  match call.phase with
  | .done (.ok _) => true
  | _ => false

/-- The call has found the token and has not failed since. -/
def Call.found (token : String) (call : Call) : Bool :=
  call.presents token && (call.phase.holding.isSome || call.phase.past)

/-- The token that the event looks up. -/
def lookedUp (c : Config) : Event → Option String
  | .advance i =>
      match c.calls[i]? with
      | some ⟨request, .lookUp⟩ => some request.refreshTokenRaw
      | _ => none
  | _ => none

/-- No call looks a token up while another call that presented it is about to revoke it. -/
def Exclusive (c : Config) (e : Event) : Prop :=
  ∀ token ∈ lookedUp c e, ∀ call ∈ c.calls, call.presents token = true →
    call.phase.holding = none

instance (c : Config) (e : Event) : Decidable (Exclusive c e) :=
  inferInstanceAs (Decidable (∀ token ∈ lookedUp c e, ∀ call ∈ c.calls,
    call.presents token = true → call.phase.holding = none))

/-- A row with this hash is revoked. -/
def Spent (s : State) (hash : String) : Prop :=
  ∃ r ∈ s.refreshTokens.rows, r.token_hash = hash ∧ r.revoked_at.isSome = true

/-- What a call that presents the token knows of the table: the row it found is there, and
after its write the token is spent. -/
def Knows (env : Env) (token : String) (s : State) (call : Call) : Prop :=
  call.presents token = true →
    (∀ row, call.phase.holding = some row → ∃ r ∈ s.refreshTokens.rows,
      r.id = row.id ∧ r.token_hash = env.hashToken token) ∧
    (call.phase.past = true → Spent s (env.hashToken token))

theorem Spent.ages {s s' : State} {hash : String} (h : Spent s hash) (hages : Ages s s') :
    Spent s' hash := by
  obtain ⟨r, hr, hhash, hrev⟩ := h
  obtain ⟨r', hr', -, hhash', hrev'⟩ := hages r hr
  exact ⟨r', hr', hhash'.trans hhash, hrev' hrev⟩

theorem Knows.ages {env : Env} {token : String} {s s' : State} {call : Call}
    (h : Knows env token s call) (hages : Ages s s') : Knows env token s' call := by
  intro hp
  obtain ⟨hhold, hpast⟩ := h hp
  refine ⟨fun row hrow => ?_, fun hc => (hpast hc).ages hages⟩
  obtain ⟨r, hr, hid, hhash⟩ := hhold row hrow
  obtain ⟨r', hr', hid', hhash', -⟩ := hages r hr
  exact ⟨r', hr', hid'.trans hid, hhash'.trans hhash⟩

/-- A spent token is not found: its hash is unique. -/
theorem find?_of_spent {s : State} {hash : String} (h : Spent s hash) :
    s.refreshTokens.rows.find? (·.isUsable hash s.now) = none := by
  obtain ⟨r, hr, hhash, hrev⟩ := h
  rw [List.find?_eq_none]
  intro r' hr' huse
  simp only [RefreshToken.isUsable, Bool.and_eq_true, beq_iff_eq] at huse
  have heq : r' = r := s.refreshTokens.eq_of_key_eq hr' hr (huse.1.1.1.trans hhash.symm)
  rw [heq, Option.isNone_iff_eq_none] at huse
  rw [huse.1.1.2] at hrev
  cases hrev

theorem spent_revokeToken {s : State} {id hash : String}
    (h : ∃ r ∈ s.refreshTokens.rows, r.id = id ∧ r.token_hash = hash) :
    Spent (s.revokeToken id) hash := by
  obtain ⟨r, hr, hid, hhash⟩ := h
  refine ⟨_, List.mem_map_of_mem hr, ?_, ?_⟩
  · rw [if_pos hid]
    exact hhash
  · rw [if_pos hid]
    rfl

/-- **What a statement of a call can do**: find the token, revoke it, move on after that, or
end without having found it. -/
theorem command_cases (env : Env) (s : State) (call : Call) :
    (command env s call).2.request = call.request ∧
    ((∃ row, call.phase = .lookUp ∧
        s.refreshTokens.rows.find?
          (·.isUsable (env.hashToken call.request.refreshTokenRaw) s.now) = some row ∧
        command env s call = (s, call.goto (.revoke row))) ∨
      (∃ row, call.phase = .revoke row ∧
        command env s call = (s.revokeToken row.id, call.goto (.findCredential row))) ∨
      (call.phase.past = true ∧ (command env s call).2.phase.holding = none) ∨
      ((command env s call).2.phase.holding = none ∧
        (command env s call).2.phase.past = false)) := by
  obtain ⟨request, phase⟩ := call
  cases phase with
  | lookUp =>
      cases hfind : s.refreshTokens.rows.find?
          (·.isUsable (env.hashToken request.refreshTokenRaw) s.now) with
      | none =>
          simp only [command, hfind]
          exact ⟨rfl, .inr (.inr (.inr ⟨rfl, rfl⟩))⟩
      | some row =>
          simp only [command, hfind]
          exact ⟨rfl, .inl ⟨row, trivial, rfl, rfl⟩⟩
  | revoke row => exact ⟨rfl, .inr (.inl ⟨row, rfl, rfl⟩)⟩
  | findCredential row =>
      refine ⟨?_, .inr (.inr (.inl ⟨rfl, ?_⟩))⟩ <;>
      · simp only [command]
        split
        · rfl
        · split <;> rfl
  | assertNotBlocked row credential =>
      refine ⟨?_, .inr (.inr (.inl ⟨rfl, ?_⟩))⟩ <;>
      · simp only [command]
        split <;> rfl
  | findUser row credential =>
      refine ⟨?_, .inr (.inr (.inl ⟨rfl, ?_⟩))⟩ <;>
      · simp only [command]
        split
        · rfl
        · rfl
        · split
          · rfl
          · split <;> rfl
  | resolve row credential iamUser =>
      refine ⟨?_, .inr (.inr (.inl ⟨rfl, ?_⟩))⟩ <;>
      · simp only [command]
        split <;> rfl
  | saveToken iamUser resolved mustChangePassword =>
      refine ⟨?_, .inr (.inr (.inl ⟨rfl, ?_⟩))⟩ <;>
      · simp only [command]
        split <;> rfl
  | createSession commands result =>
      cases commands <;> exact ⟨rfl, .inr (.inr (.inl ⟨rfl, rfl⟩))⟩
  | done result =>
      cases result with
      | error e => exact ⟨rfl, .inr (.inr (.inr ⟨rfl, rfl⟩))⟩
      | ok result => exact ⟨rfl, .inr (.inr (.inl ⟨rfl, rfl⟩))⟩

theorem knows_command {env : Env} {token : String} {s : State} {call : Call}
    (h : Knows env token s call) :
    Knows env token (command env s call).1 (command env s call).2 := by
  obtain ⟨hreq, hcases⟩ := command_cases env s call
  intro hp
  have hp' : call.presents token = true := by rwa [Call.presents, hreq] at hp
  obtain ⟨hhold, hpast⟩ := h hp'
  rcases hcases with ⟨row, -, hfind, heq⟩ | ⟨row, hphase, heq⟩ | ⟨hlate, hnone⟩ | ⟨hnone, hno⟩
  · rw [heq]
    refine ⟨?_, fun hc => by cases hc⟩
    intro row' hrow'
    obtain rfl := Option.some.inj hrow'
    refine ⟨row, List.mem_of_find?_eq_some hfind, rfl, ?_⟩
    have huse := List.find?_some hfind
    simp only [RefreshToken.isUsable, Bool.and_eq_true, beq_iff_eq] at huse
    rw [huse.1.1.1, beq_iff_eq.mp hp']
  · rw [heq]
    refine ⟨fun row' hrow' => (by cases hrow'), fun _ => ?_⟩
    exact spent_revokeToken (hhold row (by rw [hphase]; rfl))
  · refine ⟨fun row' hrow' => ?_, fun _ => (hpast hlate).ages (ages_command env s call)⟩
    rw [hnone] at hrow'
    cases hrow'
  · refine ⟨fun row' hrow' => ?_, fun hc => ?_⟩
    · rw [hnone] at hrow'
      cases hrow'
    · rw [hno] at hc
      cases hc

theorem preserved_knows (env : Env) (token : String) :
    Interleaving.Preserved (service env) Exclusive (fun _ => True) (Knows env token) where
  start _ _ _ _ := fun _ => ⟨fun _ h => (by cases h), fun h => (by cases h)⟩
  command _ _ _ _ _ _ hcall := ⟨trivial, knows_command hcall⟩
  others c _ _ call _ _ _ _ _ _ _ hother := hother.ages (ages_command env c.shared call)
  surroundings c x _ _ := ⟨trivial, fun _ _ h => h.ages (ages_surroundings env c.shared x)⟩

/-- A call finds the token only if no other call has. -/
theorem found_command {env : Env} {token : String} {c : Config} {i : Nat} {call : Call}
    (hok : Exclusive c (.advance i)) (hi : c.calls[i]? = some call)
    (hknows : ∀ other ∈ c.calls, Knows env token c.shared other)
    (hnew : (command env c.shared call).2.found token = true) :
    call.found token = true ∨ c.calls.countP (·.found token) = 0 := by
  obtain ⟨hreq, hcases⟩ := command_cases env c.shared call
  have hp : call.presents token = true := by
    rw [Call.found, Bool.and_eq_true] at hnew
    rw [Call.presents, ← hreq]
    exact hnew.1
  rcases hcases with ⟨row, hphase, hfind, -⟩ | ⟨row, hphase, -⟩ | ⟨hlate, -⟩ | ⟨hnone, hno⟩
  · refine .inr (List.countP_eq_zero.mpr fun other hmem hfound => ?_)
    simp only [Call.found, Bool.and_eq_true, Bool.or_eq_true] at hfound
    obtain ⟨hpo, hhold | hpast⟩ := hfound
    · -- Another call is about to revoke the token: excluded at a look-up.
      have hlook : token ∈ lookedUp c (.advance i) := by
        obtain ⟨request, phase⟩ := call
        obtain rfl : phase = .lookUp := hphase
        simp only [lookedUp, hi, Option.mem_def, Option.some.injEq]
        exact beq_iff_eq.mp hp
      rw [hok token hlook other hmem hpo] at hhold
      cases hhold
    · -- Another call has revoked it: then it is not found.
      rw [beq_iff_eq.mp hp, find?_of_spent ((hknows other hmem hpo).2 hpast)] at hfind
      cases hfind
  · refine .inl ?_
    simp [Call.found, hp, hphase, Phase.holding]
  · refine .inl ?_
    simp [Call.found, hp, hlate]
  · simp [Call.found, hnone, hno] at hnew

/-- The invariant: what each call knows, and at most one of them has found the token. -/
def OneFinder (env : Env) (token : String) (c : Config) : Prop :=
  Interleaving.Keeps (fun _ => True) (Knows env token) c ∧
    c.calls.countP (·.found token) ≤ 1

theorem oneFinder_step (env : Env) (token : String) (c : Config) (e : Event)
    (hok : Exclusive c e) (h : OneFinder env token c) :
    OneFinder env token (Interleaving.step (service env) c e) := by
  obtain ⟨hkeeps, hle⟩ := h
  refine ⟨Interleaving.step_keeps (preserved_knows env token) c e hok hkeeps, ?_⟩
  cases e with
  | start request =>
      have hnew : Call.found token ⟨request, .lookUp⟩ = false := by
        simp [Call.found, Phase.holding, Phase.past]
      simpa [Interleaving.step, service, hnew] using hle
  | surroundings x => exact hle
  | advance i =>
      cases hi : c.calls[i]? with
      | none => simpa [Interleaving.step, hi] using hle
      | some call =>
          simp only [Interleaving.step, hi]
          exact Interleaving.countP_set_le_one hi hle (found_command hok hi hkeeps.2)

theorem found_of_succeeded {token : String} {call : Call} (hp : call.presents token = true)
    (hs : call.succeeded = true) : call.found token = true := by
  rw [Call.found, hp, Bool.true_and, Bool.or_eq_true]
  right
  unfold Call.succeeded at hs
  split at hs
  · rename_i result hphase
    rw [hphase]
    rfl
  · cases hs

/-- **A refresh token is exchanged at most once**, in every run in which no call looks a token
up while another call that presented it stands between its look-up and its revocation. -/
theorem refresh_at_most_once (env : Env) (s : State) (token : String) (events : List Event)
    (hexclusive : Interleaving.AllSteps (service env) Exclusive ⟨s, []⟩ events) :
    (Interleaving.run (service env) ⟨s, []⟩ events).calls.countP
      (fun call => call.presents token && call.succeeded) ≤ 1 := by
  have hinit : OneFinder env token ⟨s, []⟩ := ⟨⟨trivial, by simp⟩, by simp⟩
  have hinv := Interleaving.run_invariant (service env) (oneFinder_step env token) hexclusive
    hinit
  refine Nat.le_trans (List.countP_mono_left fun call _ h => ?_) hinv.2
  rw [Bool.and_eq_true] at h
  exact found_of_succeeded h.1 h.2

/-! ## Two calls with one token -/

/-- A service whose digest and signature are the texts themselves. -/
def plainEnv : Env where
  hashToken raw := raw
  sign payload _ := payload.jti
  dateOnly _ := "2026-01-01"
  accessTtlSeconds := 900
  refreshTtlSeconds := 604800

/-- One active user with one refresh token. -/
def oneToken : State where
  refreshTokens := ⟨[
    { id := "r1", user_id := "u", token_hash := "t", expires_at := 604800000,
      revoked_at := none }], by decide⟩
  credentials := [{ user_id := "u", is_active := true, must_change_password := false }]
  blockedUsers := []
  findById _ := .ok (some
    { id := "u", username := "alice", email := none, full_name := none, status := .active,
      expired_at := none })
  resolvePermissions _ := .ok none
  redis := ⟨0, fun _ => none, fun _ => []⟩

def firstRequest : Request := ⟨"t", "j1", "r2", "t1", "c1"⟩

def secondRequest : Request := ⟨"t", "j2", "r3", "t2", "c2"⟩

/-- One call after the other: the second finds the token revoked. -/
theorem refresh_at_most_once_in_turn :
    Interleaving.AllSteps (service plainEnv) Exclusive ⟨oneToken, []⟩
      (.start firstRequest :: List.replicate 10 (.advance 0) ++
        .start secondRequest :: List.replicate 10 (.advance 1)) ∧
    (Interleaving.run (service plainEnv) ⟨oneToken, []⟩
      (.start firstRequest :: List.replicate 10 (.advance 0) ++
        .start secondRequest :: List.replicate 10 (.advance 1))).calls.countP
      (fun call => call.presents "t" && call.succeeded) ≤ 1 := by
  have hexclusive : Interleaving.AllSteps (service plainEnv) Exclusive ⟨oneToken, []⟩
      (.start firstRequest :: List.replicate 10 (.advance 0) ++
        .start secondRequest :: List.replicate 10 (.advance 1)) := by decide
  exact ⟨hexclusive, refresh_at_most_once _ _ _ _ hexclusive⟩

/-- **Both calls succeed**: both look the token up before either revokes it. -/
theorem both_refreshes_succeed :
    (Interleaving.run (service plainEnv) ⟨oneToken, []⟩
      ([.start firstRequest, .start secondRequest, .advance 0, .advance 1] ++
        List.replicate 9 (.advance 0) ++ List.replicate 9 (.advance 1))).calls.countP
      (fun call => call.presents "t" && call.succeeded) = 2 := by
  decide

end ErpApi.Auth
