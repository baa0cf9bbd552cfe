import ErpApi.Auth.AuthService
import ErpApi.Basic.SequentialRun

set_option autoImplicit false

/-! # The lock after failed logins

Logins one after the other, each at one instant. Between two logins the server may change in every
way, except that nothing else writes login histories or blocks.

`runLogin` performs the statements of a login, and the rank of the phases bounds their number
(`login_returns`). A wrong password is recorded, and blocks the user when five failures are recorded
within the window (`login_wrong`); no other login writes a block (`login_other`). The count without
a window decides nothing: it is never smaller than the count in the window.

A wrong password needs a user who is not blocked, so five of them in a window leave a block that
outlasts the window (`LockInv`).
-/

namespace ErpApi.Auth

open Sequential

/-! ## A whole login -/

/-- The statements left to a call of `issueTokens`, and one more. -/
def Phase.rank : Phase → Nat
  | .lookUp => 11
  | .revoke _ => 10
  | .findCredential _ => 9
  | .assertNotBlocked _ _ => 8
  | .findUser _ _ => 7
  | .resolve _ _ _ => 6
  | .saveToken _ _ _ => 5
  | .createSession commands _ => commands.length + 2
  | .done _ => 1

/-- At most so many statements are left. -/
def LoginPhase.rank : LoginPhase → Nat
  | .findCredential => 9
  | .assertNotBlocked _ => 8
  | .findUser _ => 7
  | .resolve _ _ => 6
  | .issue _ call => call.phase.rank
  | .recordFailure _ _ _ => 4
  | .countFailures _ _ => 3
  | .countRecentFailures _ _ _ => 2
  | .block _ _ => 1
  | .done _ => 0

def runLogin (env : ServiceEnv) (request : LoginRequest) :
    Nat → Server × LoginPhase → Server × LoginPhase
  | 0, p => p
  | n + 1, p => runLogin env request n (loginCommand env p.1 request p.2)

/-- A login, with nothing in between. -/
def Server.login (s : Server) (env : ServiceEnv) (request : LoginRequest) : Server × LoginPhase :=
  runLogin env request LoginPhase.findCredential.rank (s, .findCredential)

section Login

variable {env : ServiceEnv} {s : Server} {request : LoginRequest}

@[simp] theorem Call.phase_fail (call : Call) (e : AuthError) :
    (call.fail e).phase = .done (.error e) := rfl

@[simp] theorem Call.phase_goto (call : Call) (phase : Phase) :
    (call.goto phase).phase = phase := rfl

theorem rank_command {env : Env} {s : State} {call : Call} (h : 1 < call.phase.rank) :
    (command env s call).2.phase.rank < call.phase.rank := by
  obtain ⟨request, phase⟩ := call
  unfold command
  cases phase with
  | createSession commands result =>
      cases commands with
      | nil => simp [Phase.rank]
      | cons c commands => simp [Phase.rank]
  | done result => cases Nat.lt_irrefl 1 h
  | _ =>
      dsimp only
      repeat' split
      all_goals simp [Phase.rank]

theorem Phase.one_lt_rank {phase : Phase} (h : ∀ result, phase ≠ .done result) :
    1 < phase.rank := by
  cases phase with
  | done result => exact absurd rfl (h result)
  | _ => simp [Phase.rank]

theorem rank_loginCommand {phase : LoginPhase} (h : 0 < phase.rank) :
    (loginCommand env s request phase).2.rank < phase.rank := by
  cases phase with
  | issue userId call =>
      unfold loginCommand
      dsimp only
      split
      · rename_i hphase
        simp [LoginPhase.rank, hphase, Phase.rank]
      · rename_i hphase
        simp [LoginPhase.rank, hphase, Phase.rank]
      · rename_i hok herror
        refine rank_command (Phase.one_lt_rank ?_)
        rintro (e | result) hphase
        · exact herror e hphase
        · exact hok result hphase
  | done result => cases Nat.lt_irrefl 0 h
  | _ =>
      unfold loginCommand
      dsimp only
      repeat' split
      all_goals simp [LoginPhase.rank, Phase.rank]

theorem LoginPhase.eq_done {phase : LoginPhase} (h : phase.rank = 0) :
    ∃ result, phase = .done result := by
  cases phase with
  | done result => exact ⟨result, rfl⟩
  | issue userId call =>
      obtain ⟨request, phase⟩ := call
      cases phase with
      | _ => cases h
  | _ => cases h

/-- A call with enough statements comes to its end. -/
theorem runLogin_returns {n : Nat} {phase : LoginPhase} (h : phase.rank ≤ n) :
    ∃ result, (runLogin env request n (s, phase)).2 = .done result := by
  induction n generalizing s phase with
  | zero => exact LoginPhase.eq_done (Nat.le_zero.mp h)
  | succ n ih =>
      apply ih
      by_cases hrank : phase.rank = 0
      · obtain ⟨result, rfl⟩ := LoginPhase.eq_done hrank
        exact Nat.zero_le n
      · have hless : (loginCommand env s request phase).2.rank < phase.rank :=
          rank_loginCommand (Nat.pos_of_ne_zero hrank)
        exact Nat.le_of_lt_succ (Nat.lt_of_lt_of_le hless h)

/-- Every login returns or throws. -/
theorem login_returns : ∃ result, (s.login env request).2 = .done result :=
  runLogin_returns (Nat.le_refl _)

theorem runLogin_done (n : Nat) (result : Except AuthError LoginResult) :
    runLogin env request n (s, .done result) = (s, .done result) := by
  induction n with
  | zero => rfl
  | succ n ih => exact ih

/-! ## What a login records -/

/-- The credential that a login finds. -/
def Server.credentialOf (s : Server) (username : String) : Option CredentialRow :=
  s.credentials.rows.find? fun c =>
    c.username == username && !c.is_deleted && c.deleted_at.isNone

/-- The comparison of passwords in a login, where there is one: the user, and its outcome. -/
def Server.comparison (s : Server) (env : ServiceEnv) (request : LoginRequest) :
    Option (String × Bool) :=
  match s.credentialOf request.username with
  | none => none
  | some credential =>
      if s.blockedUsers.any (·.blocks credential.user_id s.now) || !credential.is_active then none
      else some (credential.user_id, env.bcryptCompare request.password credential.password_hash)

/-- The length of the window, in milliseconds. -/
def windowMs : Nat := FAILED_ATTEMPTS_WINDOW_MINUTES * 60 * 1000

/-- The length of a block, in milliseconds. -/
def lockMs : Nat := AUTO_LOCK_MINUTES * 60 * 1000

/-- The failures of the user that are recorded within the window before now. -/
def Server.recentFailures (s : Server) (userId : String) : Nat :=
  s.loginHistories.countP fun row => row.failureOf userId && s.now < row.logged_in_at + windowMs

/-- The user whose password the login finds wrong, if this completes five recorded failures within
the window. -/
def Server.locks (s : Server) (env : ServiceEnv) (request : LoginRequest) : Option String :=
  match s.comparison env request with
  | some (userId, false) =>
      if MAX_FAILED_ATTEMPTS ≤ (s.record (some userId) false).recentFailures userId then some userId
      else none
  | _ => none

def Server.autoBlock (s : Server) (userId : String) : BlockedUser :=
  ⟨userId, some (s.now + lockMs), none⟩

/-- The result of a login of a blocked user. -/
def blockedResult : LoginPhase :=
  .done (.error (.forbidden "This account is currently blocked."))

theorem findCredential_some {credential : CredentialRow}
    (hfind : s.credentialOf request.username = some credential) :
    loginCommand env s request .findCredential = (s, .assertNotBlocked credential) := by
  unfold Server.credentialOf at hfind
  simp only [loginCommand, hfind]

theorem login_blocked {credential : CredentialRow}
    (hfind : s.credentialOf request.username = some credential)
    (hblocked : s.blockedUsers.any (·.blocks credential.user_id s.now) = true) :
    s.login env request = (s, blockedResult) := by
  have hassert : loginCommand env s request (.assertNotBlocked credential) = (s, blockedResult) :=
    if_pos hblocked
  show runLogin env request 8 (loginCommand env s request .findCredential) = _
  rw [findCredential_some hfind]
  show runLogin env request 7 (loginCommand env s request (.assertNotBlocked credential)) = _
  rw [hassert]
  exact runLogin_done 7 _

theorem comparison_eq_some {userId : String} {outcome : Bool}
    (h : s.comparison env request = some (userId, outcome)) :
    ∃ credential, s.credentialOf request.username = some credential ∧
      credential.user_id = userId ∧ credential.is_active = true ∧
      s.blockedUsers.any (·.blocks userId s.now) = false ∧
      env.bcryptCompare request.password credential.password_hash = outcome := by
  unfold Server.comparison at h
  split at h
  · cases h
  · rename_i credential hfind
    split at h
    · cases h
    · rename_i hcond
      obtain ⟨rfl, rfl⟩ := Prod.mk.inj (Option.some.inj h)
      obtain ⟨hblocked, hactive⟩ := Bool.or_eq_false_iff.mp (Bool.eq_false_iff.mpr hcond)
      exact ⟨credential, hfind, rfl, by simpa using hactive, hblocked, rfl⟩

/-- A wrong password is recorded, and blocks the user when it completes five recorded failures
within the window. -/
theorem login_wrong {userId : String} (h : s.comparison env request = some (userId, false)) :
    s.login env request =
      (if MAX_FAILED_ATTEMPTS ≤ (s.record (some userId) false).recentFailures userId then
        { s.record (some userId) false with
          blockedUsers := s.blockedUsers ++ [s.autoBlock userId] }
      else s.record (some userId) false, .done (.error invalidLogin)) := by
  obtain ⟨credential, hfind, rfl, hactive, hblocked, hwrong⟩ := comparison_eq_some h
  have hassert : loginCommand env s request (.assertNotBlocked credential) =
      (s, .recordFailure (some credential.user_id) (some credential.user_id) invalidLogin) := by
    simp [loginCommand, hblocked, hactive, hwrong]
  show runLogin env request 8 (loginCommand env s request .findCredential) = _
  rw [findCredential_some hfind]
  show runLogin env request 7 (loginCommand env s request (.assertNotBlocked credential)) = _
  rw [hassert]
  generalize credential.user_id = userId
  show runLogin env request 5
    (loginCommand env (s.record (some userId) false) request (.countFailures userId _)) = _
  generalize hs₁ : s.record (some userId) false = s₁
  have hblocks : s₁.blockedUsers = s.blockedUsers ∧ s₁.autoBlock userId = s.autoBlock userId := by
    subst hs₁
    exact ⟨rfl, rfl⟩
  -- The count without a window is at least the count in the window.
  have hle : s₁.recentFailures userId ≤ s₁.loginHistories.countP (·.failureOf userId) := by
    refine List.countP_mono_left fun row _ hrow => ?_
    exact (Bool.and_eq_true_iff.mp hrow).1
  by_cases htotal : s₁.loginHistories.countP (·.failureOf userId) < MAX_FAILED_ATTEMPTS
  · have hcount : loginCommand env s₁ request (.countFailures userId invalidLogin) =
        (s₁, .done (.error invalidLogin)) := if_pos htotal
    rw [hcount, runLogin_done, if_neg (by omega)]
  · have hcount : loginCommand env s₁ request (.countFailures userId invalidLogin) =
        (s₁, .countRecentFailures userId s₁.now invalidLogin) := if_neg htotal
    rw [hcount]
    show runLogin env request 4
      (loginCommand env s₁ request (.countRecentFailures userId s₁.now invalidLogin)) = _
    by_cases hrecent : s₁.recentFailures userId < MAX_FAILED_ATTEMPTS
    · have hrecount : loginCommand env s₁ request (.countRecentFailures userId s₁.now invalidLogin) =
          (s₁, .done (.error invalidLogin)) := if_pos hrecent
      rw [hrecount, runLogin_done, if_neg (by omega)]
    · have hrecount : loginCommand env s₁ request (.countRecentFailures userId s₁.now invalidLogin) =
          (s₁, .block userId invalidLogin) := if_neg hrecent
      rw [hrecount, if_pos (by omega), ← hblocks.1, ← hblocks.2]
      exact runLogin_done 3 _

/-- After the comparison: nothing but the records of the login is left. -/
def LoginPhase.later : LoginPhase → Bool
  | .findUser _ => true
  | .resolve _ _ => true
  | .issue _ _ => true
  | .recordFailure _ none _ => true
  | .done _ => true
  | _ => false

/-- The blocks are the same, and no record is gone. -/
def KeepsRecords (s s' : Server) : Prop :=
  s'.blockedUsers = s.blockedUsers ∧ ∃ rows, s'.loginHistories = s.loginHistories ++ rows

theorem KeepsRecords.refl (s : Server) : KeepsRecords s s := ⟨rfl, [], by simp⟩

theorem keepsRecords_record (s : Server) (userId : Option String) (isSuccess : Bool) :
    KeepsRecords s (s.record userId isSuccess) := ⟨rfl, _, rfl⟩

theorem KeepsRecords.trans {s s' s'' : Server} (h : KeepsRecords s s') (h' : KeepsRecords s' s'') :
    KeepsRecords s s'' := by
  obtain ⟨hblocks, rows, hrows⟩ := h
  obtain ⟨hblocks', rows', hrows'⟩ := h'
  exact ⟨hblocks'.trans hblocks, rows ++ rows', by rw [hrows', hrows, List.append_assoc]⟩

theorem loginCommand_later {phase : LoginPhase} (h : phase.later = true) :
    (loginCommand env s request phase).2.later = true ∧
      KeepsRecords s (loginCommand env s request phase).1 := by
  cases phase with
  | findUser credential =>
      unfold loginCommand
      dsimp only
      repeat' split
      all_goals exact ⟨rfl, KeepsRecords.refl s⟩
  | resolve credential iamUser =>
      unfold loginCommand
      dsimp only
      split
      all_goals exact ⟨rfl, KeepsRecords.refl s⟩
  | issue userId call =>
      unfold loginCommand
      dsimp only
      split
      · exact ⟨rfl, keepsRecords_record s _ _⟩
      · exact ⟨rfl, KeepsRecords.refl s⟩
      · exact ⟨rfl, KeepsRecords.refl s⟩
  | recordFailure userId lockFor e =>
      cases lockFor with
      | none => exact ⟨rfl, keepsRecords_record s _ _⟩
      | some locked => cases h
  | done result => exact ⟨rfl, KeepsRecords.refl s⟩
  | _ => cases h

theorem runLogin_later {n : Nat} {phase : LoginPhase} (h : phase.later = true) :
    KeepsRecords s (runLogin env request n (s, phase)).1 := by
  induction n generalizing s phase with
  | zero => exact KeepsRecords.refl s
  | succ n ih =>
      obtain ⟨hlater, hkeeps⟩ := loginCommand_later (s := s) h
      exact hkeeps.trans (ih hlater)

/-- No other login writes a block or deletes a record. -/
theorem login_other (h : ∀ userId, s.comparison env request ≠ some (userId, false)) :
    KeepsRecords s (s.login env request).1 := by
  unfold Server.comparison at h
  show KeepsRecords s (runLogin env request 8 (loginCommand env s request .findCredential)).1
  cases hfind : s.credentialOf request.username with
  | none =>
      have hnone : loginCommand env s request .findCredential =
          (s, .recordFailure none none invalidLogin) := by
        unfold Server.credentialOf at hfind
        simp only [loginCommand, hfind]
      rw [hnone]
      exact runLogin_later rfl
  | some credential =>
      rw [findCredential_some hfind]
      rw [hfind] at h
      obtain ⟨phase, hassert, hlater⟩ : ∃ phase, loginCommand env s request
          (.assertNotBlocked credential) = (s, phase) ∧ phase.later = true := by
        unfold loginCommand
        dsimp only at h ⊢
        split
        · exact ⟨_, rfl, rfl⟩
        · rename_i hblocked
          split
          · exact ⟨_, rfl, rfl⟩
          · rename_i hactive
            split
            · rename_i hwrong
              rw [if_neg (by simp [hblocked, hactive])] at h
              exact absurd (congrArg (fun b => some (credential.user_id, b)) (by simpa using hwrong))
                (h credential.user_id)
            · exact ⟨_, rfl, rfl⟩
      show KeepsRecords s
        (runLogin env request 7 (loginCommand env s request (.assertNotBlocked credential))).1
      rw [hassert]
      exact runLogin_later hlater

/-- The blocks after a login. -/
theorem login_blockedUsers : (s.login env request).1.blockedUsers =
    s.blockedUsers ++ (s.locks env request).toList.map s.autoBlock := by
  unfold Server.locks
  split
  · rename_i userId hwrong
    rw [login_wrong hwrong]
    split
    · rfl
    · exact (List.append_nil _).symm
  · rename_i hother
    rw [(login_other hother).1]
    exact (List.append_nil _).symm

/-- No record is gone after a login, and a wrong password has one. -/
theorem login_loginHistories : ∃ rows,
    (s.login env request).1.loginHistories = s.loginHistories ++ rows ∧
      ∀ userId, s.comparison env request = some (userId, false) →
        rows = [⟨some userId, false, s.now⟩] := by
  by_cases h : ∃ userId, s.comparison env request = some (userId, false)
  · obtain ⟨userId, hwrong⟩ := h
    refine ⟨[⟨some userId, false, s.now⟩], ?_, ?_⟩
    · rw [login_wrong hwrong]
      split
      all_goals rfl
    · intro userId' hwrong'
      obtain ⟨rfl, -⟩ := Prod.mk.inj (Option.some.inj (hwrong.symm.trans hwrong'))
      rfl
  · obtain ⟨-, rows, hrows⟩ := login_other (not_exists.mp h)
    exact ⟨rows, hrows, fun userId hwrong => absurd ⟨userId, hwrong⟩ h⟩

end Login

/-! ## Runs -/

/-- A login in a run: the server that it finds, but for the login histories and the blocks. -/
structure Attempt where
  server : Server
  request : LoginRequest

namespace Attempt

def time (a : Attempt) : Nat := a.server.now

/-- The server when the login starts, after the earlier logins of the run. -/
def on (a : Attempt) (s : Server) : Server :=
  { a.server with loginHistories := s.loginHistories, blockedUsers := s.blockedUsers }

end Attempt

def loginStep (env : ServiceEnv) (s : Server) (a : Attempt) : Server :=
  ((a.on s).login env a.request).1

/-- The times at which logins of a run find the password of the user wrong. -/
def failures (env : ServiceEnv) (userId : String) : Server → List Attempt → List Nat
  | _, [] => []
  | s, a :: attempts =>
      if (a.on s).comparison env a.request = some (userId, false) then
        a.time :: failures env userId (loginStep env s a) attempts
      else failures env userId (loginStep env s a) attempts

/-- The half-open window that begins at `t`. -/
def inWindow (t time : Nat) : Bool := t ≤ time && time < t + windowMs

/-- The invariant of a run, after wrong passwords at the times `past`. -/
structure LockInv (userId : String) (past : List Nat) (s : Server) : Prop where
  recorded : ∀ p : Nat → Bool, past.countP p ≤
    s.loginHistories.countP fun row => row.failureOf userId && p row.logged_in_at
  bounded : ∀ t, past.countP (inWindow t) ≤ MAX_FAILED_ATTEMPTS
  locked : ∀ t, past.countP (inWindow t) = MAX_FAILED_ATTEMPTS →
    ∃ row ∈ s.blockedUsers, ∀ now, now < t + windowMs → row.blocks userId now = true

section Runs

variable {env : ServiceEnv} {s : Server} {a : Attempt} {userId : String} {past : List Nat}

theorem blocks_of_lt {now blockedUntil : Nat} (h : now < blockedUntil) :
    BlockedUser.blocks userId now ⟨userId, some blockedUntil, none⟩ = true := by
  simp [BlockedUser.blocks, h]

theorem autoBlock_blocks (s : Server) {now : Nat} (h : now < s.now + lockMs) :
    (s.autoBlock userId).blocks userId now = true := blocks_of_lt h

theorem blockedUsers_loginStep : (loginStep env s a).blockedUsers =
    s.blockedUsers ++ ((a.on s).locks env a.request).toList.map (a.on s).autoBlock :=
  login_blockedUsers

/-- A block stays. -/
theorem mem_blockedUsers_loginStep {row : BlockedUser} (h : row ∈ s.blockedUsers) :
    row ∈ (loginStep env s a).blockedUsers := by
  rw [blockedUsers_loginStep]
  exact List.mem_append_left _ h

/-- A login that finds no wrong password of this user. -/
theorem lockInv_other (h : LockInv userId past s) : LockInv userId past (loginStep env s a) := by
  obtain ⟨rows, hrows, -⟩ := @login_loginHistories env (a.on s) a.request
  refine ⟨fun p => ?_, h.bounded, fun t hcount => ?_⟩
  · rw [show (loginStep env s a).loginHistories = s.loginHistories ++ rows from hrows,
      List.countP_append]
    exact Nat.le_trans (h.recorded p) (Nat.le_add_right _ _)
  · obtain ⟨row, hrow, hblocks⟩ := h.locked t hcount
    exact ⟨row, mem_blockedUsers_loginStep hrow, hblocks⟩

/-- A wrong password of a user who is not blocked. There were fewer than five in every window that
it falls in, and if it is the fifth of a window, the user is blocked until after its end. -/
theorem lockInv_wrong (h : LockInv userId past s)
    (hwrong : (a.on s).comparison env a.request = some (userId, false)) :
    LockInv userId (past ++ [a.time]) (loginStep env s a) := by
  obtain ⟨rows, hrows, hrow⟩ := @login_loginHistories env (a.on s) a.request
  obtain rfl := hrow userId hwrong
  have hhistories : (loginStep env s a).loginHistories =
      s.loginHistories ++ [⟨some userId, false, a.time⟩] := hrows
  obtain ⟨-, -, -, -, hnotBlocked, -⟩ := comparison_eq_some hwrong
  have hfew : ∀ t, inWindow t a.time = true → past.countP (inWindow t) < MAX_FAILED_ATTEMPTS := by
    intro t hin
    refine Nat.lt_of_le_of_ne (h.bounded t) fun hcount => ?_
    obtain ⟨row, hmem, hblocks⟩ := h.locked t hcount
    have hnow : a.time < t + windowMs := by
      simp only [inWindow, Bool.and_eq_true, decide_eq_true_eq] at hin
      exact hin.2
    have hany : (a.on s).blockedUsers.any (·.blocks userId (a.on s).now) = true :=
      List.any_eq_true.mpr ⟨row, hmem, hblocks a.time hnow⟩
    rw [hnotBlocked] at hany
    cases hany
  have hrecorded : ∀ p : Nat → Bool, (past ++ [a.time]).countP p ≤
      (loginStep env s a).loginHistories.countP fun row =>
        row.failureOf userId && p row.logged_in_at := by
    intro p
    rw [hhistories, List.countP_append, List.countP_append]
    refine Nat.add_le_add (h.recorded p) ?_
    simp [List.countP_singleton, LoginHistory.failureOf]
  refine ⟨hrecorded, fun t => ?_, fun t hcount => ?_⟩
  · rw [List.countP_append, List.countP_singleton]
    split
    · rename_i hin
      exact hfew t hin
    · exact h.bounded t
  · cases hin : inWindow t a.time with
    | false =>
        rw [List.countP_append, List.countP_singleton, hin] at hcount
        obtain ⟨row, hmem, hblocks⟩ := h.locked t hcount
        exact ⟨row, mem_blockedUsers_loginStep hmem, hblocks⟩
    | true =>
        simp only [inWindow, Bool.and_eq_true, decide_eq_true_eq] at hin
        have hrecent : MAX_FAILED_ATTEMPTS ≤
            ((a.on s).record (some userId) false).recentFailures userId := by
          calc MAX_FAILED_ATTEMPTS
              = (past ++ [a.time]).countP (inWindow t) := hcount.symm
            _ ≤ (past ++ [a.time]).countP fun time => decide (a.time < time + windowMs) := by
                refine List.countP_mono_left fun time _ htime => ?_
                simp only [inWindow, Bool.and_eq_true, decide_eq_true_eq] at htime ⊢
                omega
            _ ≤ (loginStep env s a).loginHistories.countP fun row =>
                  row.failureOf userId && decide (a.time < row.logged_in_at + windowMs) :=
                hrecorded _
            _ = ((a.on s).record (some userId) false).recentFailures userId := by
                rw [hhistories]
                rfl
        refine ⟨(a.on s).autoBlock userId, ?_, fun now hnow => autoBlock_blocks _ ?_⟩
        · rw [blockedUsers_loginStep]
          unfold Server.locks
          simp [hwrong, hrecent]
        · have hlonger : windowMs ≤ lockMs := by decide
          show now < a.time + lockMs
          omega

theorem lockInv_failures {attempts : List Attempt} (h : LockInv userId past s) (t : Nat) :
    (past ++ failures env userId s attempts).countP (inWindow t) ≤ MAX_FAILED_ATTEMPTS := by
  induction attempts generalizing past s with
  | nil =>
      rw [failures, List.append_nil]
      exact h.bounded t
  | cons a attempts ih =>
      unfold failures
      split
      · rename_i hwrong
        rw [List.append_cons]
        exact ih (lockInv_wrong h hwrong)
      · exact ih (lockInv_other h)

theorem lockInv_start (userId : String) (s : Server) : LockInv userId [] s := by
  refine ⟨fun p => Nat.zero_le _, fun t => Nat.zero_le _, fun t h => ?_⟩
  cases h

/-- A block stays over a run. -/
theorem mem_blockedUsers_run {row : BlockedUser} {attempts : List Attempt}
    (h : row ∈ s.blockedUsers) : row ∈ (run (loginStep env) s attempts).blockedUsers := by
  induction attempts generalizing s with
  | nil => exact h
  | cons a attempts ih => exact ih (mem_blockedUsers_loginStep h)

/-- A login that locks the user blocks every later login of the user for thirty minutes. -/
theorem locked_login {a b : Attempt} {between : List Attempt} {credential : CredentialRow}
    (hlocks : (a.on s).locks env a.request = some userId) (hb : b.time < a.time + lockMs)
    (hfind : b.server.credentialOf b.request.username = some credential)
    (huser : credential.user_id = userId) :
    ((b.on (run (loginStep env) (loginStep env s a) between)).login env b.request).2 =
      blockedResult := by
  subst huser
  have hmem : (a.on s).autoBlock credential.user_id ∈ (loginStep env s a).blockedUsers := by
    rw [blockedUsers_loginStep, hlocks]
    exact List.mem_append_right _ (List.mem_singleton.mpr rfl)
  have hany : (b.on (run (loginStep env) (loginStep env s a) between)).blockedUsers.any
      (·.blocks credential.user_id b.time) = true :=
    List.any_eq_true.mpr ⟨_, mem_blockedUsers_run hmem, autoBlock_blocks _ hb⟩
  have hlogin : (b.on (run (loginStep env) (loginStep env s a) between)).login env b.request =
      (b.on (run (loginStep env) (loginStep env s a) between), blockedResult) :=
    login_blocked hfind hany
  rw [hlogin]

end Runs

/-- A login of `alice` with the wrong password. -/
def wrongPassword : Attempt := ⟨oneSession, ⟨"alice", "guess", "j", "t", "r", "c"⟩⟩

/-- The sixth of six logins at one instant is rejected before its password is looked at. -/
example : failures plainServiceEnv "u" oneSession (List.replicate 6 wrongPassword) =
    List.replicate 5 0 := by
  decide +kernel

end ErpApi.Auth
