import ErpApi.Auth.Refresh
import ErpApi.Session.RefreshAll

set_option autoImplicit false

/-! # The calls of the auth service

Logins, refreshes, the two password operations and the revocation of a session by an
administrator, statement by statement, over one database and one session store. A refresh is the
call of `Refresh.lean`; a login ends in `issueTokens` as a refresh does. The security log is written
and never read, so its statements are left out.
-/

namespace ErpApi.Auth

open Session (Redis SessionData)

/-! ## The state -/

/-- A row of `credentials`. -/
structure CredentialRow extends Credential where
  id : String
  username : String
  password_hash : String
  is_deleted : Bool := false
  updated_by : Option String := none
  deriving DecidableEq

structure LoginHistory where
  user_id : Option String
  is_success : Bool
  logged_in_at : Nat
  deriving DecidableEq

structure ServiceEnv extends Env where
  bcryptCompare : String → String → Bool

/-- The database of the service, its Redis, and the answers of iam. -/
structure Server where
  refreshTokens : Table RefreshToken (·.token_hash)
  credentials : Table CredentialRow (·.id)
  blockedUsers : List BlockedUser
  loginHistories : List LoginHistory
  findById : String → Except AuthError (Option IamUser)
  resolvePermissions : String → Except AuthError (Option ResolvedPermissions)
  redis : Redis

def Server.now (s : Server) : Nat := s.redis.clock

/-- What a refresh sees of the state. -/
def Server.toState (s : Server) : State where
  refreshTokens := s.refreshTokens
  credentials := s.credentials.rows.map (·.toCredential)
  blockedUsers := s.blockedUsers
  findById := s.findById
  resolvePermissions := s.resolvePermissions
  redis := s.redis

/-- A statement of a refresh writes tokens and sessions only. -/
def Server.withState (s : Server) (t : State) : Server :=
  { s with refreshTokens := t.refreshTokens, redis := t.redis }

/-! ## Login -/

def MAX_FAILED_ATTEMPTS : Nat := 5

def FAILED_ATTEMPTS_WINDOW_MINUTES : Nat := 15

def AUTO_LOCK_MINUTES : Nat := 30

/-- The arguments, and the random values the call will draw. -/
structure LoginRequest where
  username : String
  password : String
  jti : String
  newId : String
  newRefreshTokenRaw : String
  csrfToken : String
  deriving DecidableEq

/-- What `issueTokens` draws. -/
def LoginRequest.draws (request : LoginRequest) : Request where
  refreshTokenRaw := ""
  jti := request.jti
  newId := request.newId
  newRefreshTokenRaw := request.newRefreshTokenRaw
  csrfToken := request.csrfToken

inductive LoginPhase where
  | findCredential
  | assertNotBlocked (credential : CredentialRow)
  | findUser (credential : CredentialRow)
  | resolve (credential : CredentialRow) (iamUser : IamUser)
  /-- In `issueTokens`. -/
  | issue (userId : String) (call : Call)
  /-- A failed attempt is recorded; a wrong password may lock the account of `lockFor`. -/
  | recordFailure (userId lockFor : Option String) (e : AuthError)
  | countFailures (userId : String) (e : AuthError)
  | countRecentFailures (userId : String) (since : Nat) (e : AuthError)
  | block (userId : String) (e : AuthError)
  | done (result : Except AuthError LoginResult)
  deriving DecidableEq

def invalidLogin : AuthError := .unauthorized "Invalid username or password."

def Server.record (s : Server) (userId : Option String) (isSuccess : Bool) : Server :=
  { s with loginHistories := s.loginHistories ++ [⟨userId, isSuccess, s.now⟩] }

def LoginHistory.failureOf (userId : String) (row : LoginHistory) : Bool :=
  row.user_id == some userId && !row.is_success

def loginCommand (env : ServiceEnv) (s : Server) (request : LoginRequest) :
    LoginPhase → Server × LoginPhase
  | .findCredential =>
      match s.credentials.rows.find? fun c =>
          c.username == request.username && !c.is_deleted && c.deleted_at.isNone with
      | none => (s, .recordFailure none none invalidLogin)
      | some credential => (s, .assertNotBlocked credential)
  | .assertNotBlocked credential =>
      if s.blockedUsers.any (·.blocks credential.user_id s.now) then
        (s, .done (.error (.forbidden "This account is currently blocked.")))
      else if !credential.is_active then
        (s, .recordFailure (some credential.user_id) none
          (.forbidden "This account has been disabled."))
      else if !env.bcryptCompare request.password credential.password_hash then
        (s, .recordFailure (some credential.user_id) (some credential.user_id) invalidLogin)
      else (s, .findUser credential)
  | .findUser credential =>
      match s.findById credential.user_id with
      | .error e => (s, .done (.error e))
      | .ok none =>
          (s, .recordFailure (some credential.user_id) none
            (.forbidden "This user account is not active."))
      | .ok (some iamUser) =>
          if iamUser.status ≠ .active then
            (s, .recordFailure (some credential.user_id) none
              (.forbidden "This user account is not active."))
          else if isExpired env.toEnv s.now iamUser.expired_at then
            (s, .recordFailure (some credential.user_id) none
              (.forbidden "This user account has expired."))
          else (s, .resolve credential iamUser)
  | .resolve credential iamUser =>
      match s.resolvePermissions credential.user_id with
      | .error e => (s, .done (.error e))
      | .ok resolved =>
          (s, .issue credential.user_id ⟨request.draws, .saveToken iamUser
            (resolved.getD ⟨[], [], []⟩) credential.must_change_password⟩)
  | .issue userId call =>
      match call.phase with
      | .done (.ok result) => (s.record (some userId) true, .done (.ok result))
      | .done (.error e) => (s, .done (.error e))
      | _ =>
          (s.withState (command env.toEnv s.toState call).1,
            .issue userId (command env.toEnv s.toState call).2)
  | .recordFailure userId lockFor e =>
      match lockFor with
      | none => (s.record userId false, .done (.error e))
      | some locked => (s.record userId false, .countFailures locked e)
  | .countFailures userId e =>
      if s.loginHistories.countP (·.failureOf userId) < MAX_FAILED_ATTEMPTS then
        (s, .done (.error e))
      else (s, .countRecentFailures userId s.now e)
  | .countRecentFailures userId since e =>
      if s.loginHistories.countP (fun row => row.failureOf userId &&
          since < row.logged_in_at + FAILED_ATTEMPTS_WINDOW_MINUTES * 60 * 1000) <
          MAX_FAILED_ATTEMPTS then
        (s, .done (.error e))
      else (s, .block userId e)
  | .block userId e =>
      ({ s with blockedUsers :=
          s.blockedUsers ++ [⟨userId, some (s.now + AUTO_LOCK_MINUTES * 60 * 1000), none⟩] },
        .done (.error e))
  | .done result => (s, .done result)

/-! ## The password operations -/

/-- The arguments, and what the call will draw: the hash of the new password, and the id of a new
row. -/
inductive PasswordRequest where
  | changePassword (userId current_password new_password confirm_password passwordHash : String)
  | resetPassword (userId username : String) (reset_by : Option String)
      (passwordHash newId : String)
  deriving DecidableEq

def PasswordRequest.userId : PasswordRequest → String
  | .changePassword userId _ _ _ _ => userId
  | .resetPassword userId _ _ _ _ => userId

/-- The value that the operation gives to `must_change_password`. -/
def PasswordRequest.flag : PasswordRequest → Bool
  | .changePassword _ _ _ _ _ => false
  | .resetPassword _ _ _ _ _ => true

inductive PasswordError where
  | badRequest (message : String)
  | unauthorized (message : String)
  /-- An error passed on from the database. -/
  | other
  deriving DecidableEq

inductive PasswordPhase where
  | find
  /-- The query of `save` for the stored row. -/
  | preload (entity : CredentialRow)
  /-- The write of the columns in which the entity differs from the stored row. -/
  | write (entity stored : CredentialRow)
  | insert (entity : CredentialRow)
  /-- In `setMustChangePasswordForUser`. -/
  | sessions (call : Session.Call)
  | done (result : Except PasswordError Unit)
  deriving DecidableEq

def PasswordRequest.start : PasswordRequest → PasswordPhase
  | .changePassword _ _ new_password confirm_password _ =>
      if new_password ≠ confirm_password then
        .done (.error (.badRequest "New password and confirmation do not match."))
      else .find
  | .resetPassword _ _ _ _ _ => .find

/-- After the credential is stored. -/
def PasswordRequest.setMustChangePassword (request : PasswordRequest) : PasswordPhase :=
  .sessions (Session.start (.setMustChangePasswordForUser request.userId request.flag))

/-- The stored row after a write of what is changed in the entity. -/
def CredentialRow.merge (row entity stored : CredentialRow) : CredentialRow :=
  { row with
    username := if entity.username ≠ stored.username then entity.username else row.username
    password_hash :=
      if entity.password_hash ≠ stored.password_hash then entity.password_hash
      else row.password_hash
    is_active := if entity.is_active ≠ stored.is_active then entity.is_active else row.is_active
    must_change_password :=
      if entity.must_change_password ≠ stored.must_change_password then
        entity.must_change_password
      else row.must_change_password
    updated_by :=
      if entity.updated_by ≠ stored.updated_by then entity.updated_by else row.updated_by }

/-- The index `uq_credentials_username`. -/
def Server.usernameTaken (s : Server) (entity : CredentialRow) : Bool :=
  !entity.is_deleted && s.credentials.rows.any fun c =>
    c.id != entity.id && !c.is_deleted && c.username == entity.username

def passwordFind (env : ServiceEnv) (s : Server) : PasswordRequest → PasswordPhase
  | .changePassword userId current_password _ _ passwordHash =>
      match s.credentials.rows.find? fun c =>
          c.user_id == userId && !c.is_deleted && c.deleted_at.isNone with
      | none => .done (.error (.unauthorized "Credential not found."))
      | some credential =>
          if !env.bcryptCompare current_password credential.password_hash then
            .done (.error (.unauthorized "Current password is incorrect."))
          else
            .preload { credential with
              password_hash := passwordHash
              must_change_password := false
              updated_by := some userId }
  | .resetPassword userId username reset_by passwordHash newId =>
      match s.credentials.rows.find? fun c => c.user_id == userId && c.deleted_at.isNone with
      | some credential =>
          .preload { credential with
            username := username
            password_hash := passwordHash
            is_active := true
            must_change_password := true
            updated_by := reset_by }
      | none =>
          .insert
            { id := newId
              user_id := userId
              username := username
              password_hash := passwordHash
              is_active := true
              must_change_password := true
              updated_by := reset_by }

def passwordCommand (env : ServiceEnv) (s : Server) (request : PasswordRequest) :
    PasswordPhase → Server × PasswordPhase
  | .find => (s, passwordFind env s request)
  | .preload entity =>
      match s.credentials.lookup entity.id with
      | none => (s, .insert entity)
      | some stored => (s, .write entity stored)
  | .write entity stored =>
      if entity.username != stored.username && s.usernameTaken entity then
        (s, .done (.error .other))
      else
        ({ s with
            credentials := s.credentials.update
              (fun row => if row.id = entity.id then row.merge entity stored else row)
              (fun row => by split <;> rfl) },
          request.setMustChangePassword)
  | .insert entity =>
      if s.usernameTaken entity then (s, .done (.error .other))
      else
        match s.credentials.insert entity with
        | none => (s, .done (.error .other))
        | some credentials => ({ s with credentials := credentials }, request.setMustChangePassword)
  | .sessions call =>
      if call.phase = .pipeline [] then (s, .done (.ok ()))
      else
        ({ s with redis := (Session.command s.redis call).1 },
          .sessions (Session.command s.redis call).2)
  | .done result => (s, .done result)

/-! ## Revoking a session -/

inductive RevokePhase where
  | get
  /-- In `revoke` of the session store. -/
  | store (userId : String) (call : Session.Call)
  | updateTokens (userId : String)
  | notFound (message : String)
  /-- The session of this user is revoked. -/
  | done (userId : String)
  deriving DecidableEq

/-- An update of `revoked_at` where it is null. -/
def Server.revokeTokens (s : Server) (userId : String) : Server :=
  s.withState (s.toState.revokeWhere fun row => row.user_id == userId)

/-- The statements of `SessionsService.revoke`. -/
def revokeCommand (s : Server) (jti : String) : RevokePhase → Server × RevokePhase
  | .get =>
      match s.redis.get jti with
      | none => (s, .notFound ("Session '" ++ jti ++ "' not found or already expired."))
      | some session => (s, .store session.user_id (Session.start (.revoke jti)))
  | .store userId call =>
      if call.phase = .pipeline [] then (s, .updateTokens userId)
      else
        ({ s with redis := (Session.command s.redis call).1 },
          .store userId (Session.command s.redis call).2)
  | .updateTokens userId => (s.revokeTokens userId, .done userId)
  | .notFound message => (s, .notFound message)
  | .done userId => (s, .done userId)

/-! ## The service under concurrent calls -/

inductive ServerRequest where
  | login (request : LoginRequest)
  | refresh (request : Request)
  | password (request : PasswordRequest)
  | revoke (jti : String)
  deriving DecidableEq

inductive ServerCall where
  | login (request : LoginRequest) (phase : LoginPhase)
  | refresh (call : Call)
  | password (request : PasswordRequest) (phase : PasswordPhase)
  | revoke (jti : String) (phase : RevokePhase)
  deriving DecidableEq

def ServerCall.start : ServerRequest → ServerCall
  | .login request => .login request .findCredential
  | .refresh request => .refresh ⟨request, .lookUp⟩
  | .password request => .password request request.start
  | .revoke jti => .revoke jti .get

/-- The call has returned or thrown. -/
def ServerCall.completed : ServerCall → Bool
  | .login _ (.done _) => true
  | .refresh ⟨_, .done _⟩ => true
  | .password _ (.done _) => true
  | .revoke _ (.notFound _) => true
  | .revoke _ (.done _) => true
  | _ => false

def serverCommand (env : ServiceEnv) (s : Server) : ServerCall → Server × ServerCall
  | .login request phase =>
      ((loginCommand env s request phase).1, .login request (loginCommand env s request phase).2)
  | .refresh call =>
      (s.withState (command env.toEnv s.toState call).1,
        .refresh (command env.toEnv s.toState call).2)
  | .password request phase =>
      ((passwordCommand env s request phase).1,
        .password request (passwordCommand env s request phase).2)
  | .revoke jti phase =>
      ((revokeCommand s jti phase).1, .revoke jti (revokeCommand s jti phase).2)

/-- What happens around the calls: time passes, the block list changes, iam answers otherwise. -/
inductive ServerSurroundings where
  | tick (ms : Nat)
  | accounts (blockedUsers : List BlockedUser)
      (findById : String → Except AuthError (Option IamUser))
      (resolvePermissions : String → Except AuthError (Option ResolvedPermissions))

def serverSurroundings (s : Server) : ServerSurroundings → Server
  | .tick ms => { s with redis := { s.redis with clock := s.redis.clock + ms } }
  | .accounts blockedUsers findById resolvePermissions =>
      { s with
        blockedUsers := blockedUsers
        findById := findById
        resolvePermissions := resolvePermissions }

def server (env : ServiceEnv) :
    Interleaving.System Server ServerCall ServerRequest ServerSurroundings where
  start _ := ServerCall.start
  command := serverCommand env
  surroundings := serverSurroundings

abbrev ServerConfig := Interleaving.Config Server ServerCall
abbrev ServerEvent := Interleaving.Event ServerRequest ServerSurroundings

/-! ## What a refresh does to the sessions -/

/-- The session that the next command writes. -/
def Phase.sets : Phase → Option (String × SessionData)
  | .createSession (.setex jti _ data :: _) _ => some (jti, data)
  | _ => none

theorem clock_exec (r : Redis) (c : Session.Command) : (r.exec c).clock = r.clock := by
  cases c with
  | setex jti ttlSeconds data =>
      rw [Redis.exec]
      split <;> rfl
  | _ => rfl

/-- A command that is no `SETEX` of the session writes nothing into it. -/
theorem session_exec {r : Redis} {c : Session.Command} {jti : String} {entry : SessionData × Nat}
    (h : (r.exec c).session jti = some entry) : r.session jti = some entry ∨
      ∃ ttlSeconds, c = .setex jti ttlSeconds entry.1 := by
  cases c with
  | setex k ttlSeconds data =>
      rw [Redis.exec] at h
      split at h
      · exact Or.inl h
      · by_cases hk : jti = k
        · subst hk
          dsimp only at h
          rw [if_pos rfl] at h
          refine Or.inr ⟨ttlSeconds, ?_⟩
          rw [← Option.some.inj h]
        · dsimp only at h
          rw [if_neg hk] at h
          exact Or.inl h
  | del k =>
      rw [Redis.exec] at h
      dsimp only at h
      split at h
      · cases h
      · exact Or.inl h
  | delIndex user => exact Or.inl h
  | srem user jtis => exact Or.inl h
  | sadd user k => exact Or.inl h

section Sessions

variable {env : Env} {s : State} {call : Call} {jti : String}

theorem clock_command : (command env s call).1.redis.clock = s.redis.clock := by
  rcases command_state env s call with heq | ⟨row, -, heq⟩ |
    ⟨-, -, -, row, refreshTokens, -, -, -, heq⟩ | ⟨c, commands, result, -, heq⟩
  · rw [heq]
  · rw [heq]
    rfl
  · rw [heq]
  · rw [heq]
    exact clock_exec s.redis c

/-- A refresh writes one session, in one command. -/
theorem session_refresh {entry : SessionData × Nat}
    (h : (command env s call).1.redis.session jti = some entry) :
    s.redis.session jti = some entry ∨ call.phase.sets = some (jti, entry.1) := by
  rcases command_state env s call with heq | ⟨row, -, heq⟩ |
    ⟨-, -, -, row, refreshTokens, -, -, -, heq⟩ | ⟨c, commands, result, hphase, heq⟩
  · rw [heq] at h
    exact Or.inl h
  · rw [heq] at h
    exact Or.inl h
  · rw [heq] at h
    exact Or.inl h
  · rw [heq] at h
    refine (session_exec h).imp_right ?_
    rintro ⟨ttlSeconds, rfl⟩
    rw [hphase]
    rfl

theorem live_refresh {data : SessionData}
    (h : (command env s call).1.redis.live jti = some data) :
    s.redis.live jti = some data ∨ call.phase.sets = some (jti, data) := by
  obtain ⟨expires, hsession⟩ := Redis.session_of_live h
  refine (session_refresh hsession).imp_left fun hold => ?_
  rw [← h]
  exact (Redis.live_congr clock_command (hsession.trans hold.symm)).symm

end Sessions

/-! ## One user with one session -/

def plainServiceEnv : ServiceEnv where
  toEnv := plainEnv
  bcryptCompare password hash := password == hash

/-- One active user with one refresh token and one session. -/
def oneSession : Server where
  refreshTokens := oneToken.refreshTokens
  credentials := ⟨[
    { id := "c1", user_id := "u", username := "alice", password_hash := "secret",
      is_active := true, must_change_password := false }], by decide⟩
  blockedUsers := []
  loginHistories := []
  findById := oneToken.findById
  resolvePermissions := oneToken.resolvePermissions
  redis :=
    { clock := 0
      session := fun jti => if jti = "j0" then some (Session.aliceSession, 900000) else none
      index := fun userId => if userId = "u" then ["j0"] else [] }

end ErpApi.Auth
