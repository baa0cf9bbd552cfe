import ErpApi.Auth.AuthService

set_option autoImplicit false

/-! # Revoking a session while its owner refreshes

`SessionsService.revoke` kills one session and then revokes the refresh tokens that its owner has at
that moment, so that the client cannot silently mint a new access token. A refresh that has
exchanged its token before stores a new token and a new session only several statements later, and
when the revocation falls into this time both survive (`refresh_survives_revocation`). Nothing
survives when every new token is stored before the revocation updates the tokens, and every
session that is written is the revoked one, before it is deleted (`revocation_reaches_refreshes`).
-/

namespace ErpApi.Auth

open Session (Redis SessionData)

/-! ## The runs -/

def ServerCall.isRevoke : ServerCall → Bool
  | .revoke _ _ => true
  | _ => false

/-- The calls are refreshes, each of which draws a new id for its session, and one revocation of
the session, after all of them have started. -/
def RefreshesThenRevoke (jti : String) (c : ServerConfig) : ServerEvent → Prop
  | .start (.refresh request) =>
      (∀ call ∈ c.calls, call.isRevoke = false) ∧ c.shared.redis.session request.jti = none
  | .start (.revoke j) => j = jti ∧ ∀ call ∈ c.calls, call.isRevoke = false
  | .start _ => False
  | .advance _ => True
  | .surroundings _ => True

instance (jti : String) (c : ServerConfig) :
    (e : ServerEvent) → Decidable (RefreshesThenRevoke jti c e)
  | .start (.refresh request) => inferInstanceAs (Decidable
      ((∀ call ∈ c.calls, call.isRevoke = false) ∧ c.shared.redis.session request.jti = none))
  | .start (.revoke j) =>
      inferInstanceAs (Decidable (j = jti ∧ ∀ call ∈ c.calls, call.isRevoke = false))
  | .start (.login _) => .isFalse not_false
  | .start (.password _) => .isFalse not_false
  | .advance _ => .isTrue trivial
  | .surroundings _ => .isTrue trivial

/-- The user of the token that the next statement stores. -/
def Phase.saves : Phase → Option String
  | .saveToken iamUser _ _ => some iamUser.id
  | _ => none

/-- The revocation has updated the tokens. -/
def ServerCall.updated : ServerCall → Bool
  | .revoke _ (.done _) => true
  | _ => false

def RevokePhase.deleted (jti : String) : RevokePhase → Bool
  | .get => false
  | .store _ call =>
      match call.phase with
      | .pipeline commands => !commands.contains (.del jti)
      | _ => false
  | .updateTokens _ => true
  | .notFound _ => false
  | .done _ => true

/-- The revocation has deleted the session. -/
def ServerCall.deleted (jti : String) : ServerCall → Bool
  | .revoke _ phase => phase.deleted jti
  | _ => false

/-- The refresh that performs its next statement. -/
def refreshing (c : ServerConfig) : ServerEvent → Option Call
  | .advance i =>
      match c.calls[i]? with
      | some (.refresh call) => some call
      | _ => none
  | _ => none

/-- A refresh stores a token of the user only before the revocation updates the tokens, and writes
a session of the user only if it is the revoked one, before the revocation deletes it. -/
def IssuesBefore (userId jti : String) (c : ServerConfig) (e : ServerEvent) : Prop :=
  ∀ call ∈ refreshing c e,
    (∀ user ∈ call.phase.saves, user = userId → ∀ other ∈ c.calls, other.updated = false) ∧
    ∀ w ∈ call.phase.sets, w.2.user_id = userId →
      w.1 = jti ∧ ∀ other ∈ c.calls, other.deleted jti = false

instance (userId jti : String) (c : ServerConfig) (e : ServerEvent) :
    Decidable (IssuesBefore userId jti c e) :=
  inferInstanceAs (Decidable (∀ call ∈ refreshing c e,
    (∀ user ∈ call.phase.saves, user = userId → ∀ other ∈ c.calls, other.updated = false) ∧
    ∀ w ∈ call.phase.sets, w.2.user_id = userId →
      w.1 = jti ∧ ∀ other ∈ c.calls, other.deleted jti = false))

theorem refreshing_eq {c : ServerConfig} {i : Nat} {call : Call}
    (h : c.calls[i]? = some (.refresh call)) : refreshing c (.advance i) = some call := by
  simp only [refreshing, h]

/-! ## The tokens and the sessions -/

/-- The user has no unrevoked refresh token. -/
def TokensRevoked (userId : String) (tokens : Table RefreshToken (·.token_hash)) : Prop :=
  ∀ row ∈ tokens.rows, row.user_id = userId → row.revoked_at.isSome = true

section Statements

variable {env : Env} {s : State} {call : Call} {userId jti : String}

theorem tokensRevoked_map {tokens tokens' : Table RefreshToken (·.token_hash)}
    {f : RefreshToken → RefreshToken} (h : TokensRevoked userId tokens)
    (hrows : tokens'.rows = tokens.rows.map f) (huser : ∀ r, (f r).user_id = r.user_id)
    (hrevoked : ∀ r, r.revoked_at.isSome = true → (f r).revoked_at.isSome = true) :
    TokensRevoked userId tokens' := by
  intro row hrow hid
  rw [hrows] at hrow
  obtain ⟨r, hr, rfl⟩ := List.mem_map.mp hrow
  exact hrevoked r (h r hr ((huser r).symm.trans hid))

/-- A refresh revokes tokens; it stores an unrevoked one in one statement only. -/
theorem tokensRevoked_command (h : TokensRevoked userId s.refreshTokens)
    (hsaves : call.phase.saves ≠ some userId) :
    TokensRevoked userId (command env s call).1.refreshTokens := by
  rcases command_state env s call with heq | ⟨row, -, heq⟩ |
    ⟨iamUser, resolved, flag, row, refreshTokens, hphase, huser, hinsert, heq⟩ |
    ⟨c, commands, result, -, heq⟩
  · rw [heq]
    exact h
  · rw [heq]
    refine tokensRevoked_map h rfl (fun r => ?_) (fun r hr => ?_)
    · split <;> rfl
    · split
      · rfl
      · exact hr
  · rw [heq]
    intro r hr hid
    rw [Table.rows_of_insert hinsert] at hr
    rcases List.mem_append.mp hr with hold | hnew
    · exact h r hold hid
    · obtain rfl := List.mem_singleton.mp hnew
      refine absurd ?_ hsaves
      rw [hphase, ← hid, huser]
      rfl
  · rw [heq]
    exact h

end Statements

/-! ## The revocation -/

section Revocation

variable (userId jti : String)

/-- The session is not one of the user. -/
def NotOf (r : Redis) (k : String) : Prop :=
  ∀ entry, r.session k = some entry → entry.1.user_id ≠ userId

/-- The call of the session store: its `GET`, then commands that write no session. -/
def RevokePhase.Ok : RevokePhase → Prop
  | .store _ call => call.phase = .getRevoked jti ∨
      ∃ commands, call.phase = .pipeline commands ∧
        ∀ c ∈ commands, ∀ k ttlSeconds data, c ≠ .setex k ttlSeconds data
  | _ => True

/-- What holds for each call: a refresh has written no session of the user but the revoked one; a
revocation that has deleted the session has ended it, and one that has updated the tokens has
revoked them all. -/
def Reached (s : Server) : ServerCall → Prop
  | .refresh call => call.request.jti ≠ jti → NotOf userId s.redis call.request.jti
  | .revoke j phase => j = jti ∧ phase.Ok jti ∧
      (phase.deleted jti = true → NotOf userId s.redis jti) ∧
      (phase = .done userId → TokensRevoked userId s.refreshTokens)
  | _ => False

variable {userId jti} {s : Server} {phase : RevokePhase}

/-- The revocation writes no session. -/
theorem session_revokeCommand {k : String} {entry : SessionData × Nat} (hphase : phase.Ok jti)
    (h : (revokeCommand s jti phase).1.redis.session k = some entry) :
    s.redis.session k = some entry := by
  cases phase with
  | get =>
      rw [revokeCommand] at h
      split at h <;> exact h
  | store user call =>
      obtain ⟨method, phase⟩ := call
      rcases hphase with heq | ⟨commands, heq, hcommands⟩
      · obtain rfl : phase = .getRevoked jti := heq
        exact h
      · obtain rfl : phase = .pipeline commands := heq
        cases commands with
        | nil => exact h
        | cons c commands =>
            have hexec : (s.redis.exec c).session k = some entry := h
            rcases session_exec hexec with hold | ⟨ttlSeconds, heq⟩
            · exact hold
            · exact absurd heq (hcommands c List.mem_cons_self _ _ _)
  | updateTokens user => exact h
  | notFound message => exact h
  | done user => exact h

theorem tokensRevoked_revokeTokens (s : Server) (userId : String) :
    TokensRevoked userId (s.revokeTokens userId).refreshTokens := by
  intro row hrow hid
  obtain ⟨r, -, rfl⟩ := List.mem_map.mp hrow
  dsimp only at hid ⊢
  by_cases hr : (r.user_id == userId && r.revoked_at.isNone) = true
  · rw [if_pos hr]
    rfl
  · rw [if_neg hr] at hid ⊢
    rw [Option.isSome_iff_ne_none]
    intro hnone
    rw [hid, hnone] at hr
    simp at hr

theorem tokensRevoked_revokeCommand (h : TokensRevoked userId s.refreshTokens) :
    TokensRevoked userId (revokeCommand s jti phase).1.refreshTokens := by
  cases phase with
  | get =>
      rw [revokeCommand]
      split <;> exact h
  | store user call =>
      rw [revokeCommand]
      split <;> exact h
  | updateTokens user =>
      refine tokensRevoked_map h rfl (fun r => ?_) (fun r hr => ?_)
      · split <;> rfl
      · split
        · rfl
        · exact hr
  | notFound message => exact h
  | done user => exact h

/-- One statement of the revocation. -/
theorem reached_revokeCommand (h : Reached userId jti s (.revoke jti phase)) :
    Reached userId jti (revokeCommand s jti phase).1
      (.revoke jti (revokeCommand s jti phase).2) := by
  obtain ⟨-, hok, hdeleted, htokens⟩ := h
  have hkept : ∀ k, NotOf userId s.redis k → NotOf userId (revokeCommand s jti phase).1.redis k :=
    fun k hk entry hentry => hk entry (session_revokeCommand hok hentry)
  refine ⟨rfl, ?_⟩
  cases phase with
  | get =>
      rw [revokeCommand]
      split
      · exact ⟨trivial, fun hno => absurd hno (by simp [RevokePhase.deleted]),
          fun hno => by cases hno⟩
      · exact ⟨Or.inl rfl, fun hno => absurd hno (by simp [RevokePhase.deleted, Session.start]),
          fun hno => by cases hno⟩
  | store user call =>
      obtain ⟨method, phase⟩ := call
      rcases hok with heq | ⟨commands, heq, hcommands⟩
      · obtain rfl : phase = .getRevoked jti := heq
        refine ⟨Or.inr ⟨_, rfl, ?_⟩, fun hno => absurd hno ?_, fun hno => by cases hno⟩
        · intro c hc k ttlSeconds data heq
          subst heq
          rcases List.mem_cons.mp hc with hdel | hsrem
          · cases hdel
          · cases hget : s.redis.get jti with
            | none => simp [hget] at hsrem
            | some session => simp [hget] at hsrem
        · simp [RevokePhase.deleted, revokeCommand, Session.command]
      · obtain rfl : phase = .pipeline commands := heq
        cases commands with
        | nil => exact ⟨trivial, fun _ => hdeleted rfl, fun hno => by cases hno⟩
        | cons c commands =>
            refine ⟨Or.inr ⟨commands, rfl, fun c' hc' => hcommands c' (List.mem_cons_of_mem _ hc')⟩,
              ?_, fun hno => by cases hno⟩
            intro hnow
            have hnot : commands.contains (.del jti) = false := by
              simpa [RevokePhase.deleted, revokeCommand, Session.command] using hnow
            by_cases hc : c = .del jti
            · subst hc
              intro entry hentry
              have hnone : (s.redis.exec (.del jti)).session jti = none := if_pos rfl
              exact absurd (hnone.symm.trans hentry) (by simp)
            · refine hkept jti (hdeleted ?_)
              have hne : ¬ (Session.Command.del jti = c) := fun heq => hc heq.symm
              simpa [RevokePhase.deleted, hne] using hnot
  | updateTokens user =>
      refine ⟨trivial, fun _ => hkept jti (hdeleted rfl), ?_⟩
      intro hdone
      obtain rfl := RevokePhase.done.inj hdone
      exact tokensRevoked_revokeTokens s user
  | notFound message => exact ⟨hok, hdeleted, htokens⟩
  | done user => exact ⟨hok, hdeleted, htokens⟩

end Revocation

/-! ## The runs of the service -/

section Runs

variable {env : ServiceEnv} {userId jti : String}

/-- The steps that are considered. -/
def Ordered (userId jti : String) (c : ServerConfig) (e : ServerEvent) : Prop :=
  RefreshesThenRevoke jti c e ∧ IssuesBefore userId jti c e

/-- A refresh writes a session of the user only if it is the revoked one. -/
theorem notOf_refresh {c : ServerConfig} {i : Nat} {call : Call}
    (hok : Ordered userId jti c (.advance i)) (hi : c.calls[i]? = some (.refresh call)) {k : String}
    (hk : k ≠ jti ∨ ∃ other ∈ c.calls, other.deleted jti = true)
    (h : NotOf userId c.shared.redis k) :
    NotOf userId (c.shared.withState (command env.toEnv c.shared.toState call).1).redis k := by
  have hwrites := hok.2 call (refreshing_eq hi)
  intro entry hentry
  rcases session_refresh hentry with hold | hsets
  · exact h entry hold
  · intro hid
    obtain ⟨hjti, hbefore⟩ := hwrites.2 _ hsets hid
    rcases hk with hne | ⟨other, hmem, hdeleted⟩
    · exact hne hjti
    · rw [hbefore other hmem] at hdeleted
      cases hdeleted

theorem reached_preserved : Interleaving.Preserved (server env) (Ordered userId jti)
    (fun _ => True) (Reached userId jti) where
  start := by
    intro c request hok _
    have hstart := hok.1
    cases request with
    | refresh request =>
        intro _ entry hentry
        exact absurd (hstart.2.symm.trans hentry) (by simp)
    | revoke j =>
        obtain ⟨rfl, -⟩ := hstart
        exact ⟨rfl, trivial, fun hno => absurd hno (by simp [RevokePhase.deleted]),
          fun hno => by cases hno⟩
    | login request => exact hstart
    | password request => exact hstart
  command := by
    intro c i call hok hi _ hcall
    refine ⟨trivial, ?_⟩
    cases call with
    | refresh call =>
        have hrequest := (command_cases env.toEnv c.shared.toState call).1
        show _ ≠ jti → NotOf userId _ _
        rw [hrequest]
        exact fun hne => notOf_refresh hok hi (Or.inl hne) (hcall hne)
    | revoke j phase =>
        obtain rfl : j = jti := hcall.1
        exact reached_revokeCommand hcall
    | login request phase => exact hcall.elim
    | password request phase => exact hcall.elim
  others := by
    intro c i j call other hok _ hi hj _ hcall hother
    have hmem := List.mem_of_getElem? hj
    cases call with
    | refresh call =>
        cases other with
        | refresh other => exact fun hne => notOf_refresh hok hi (Or.inl hne) (hother hne)
        | revoke k phase =>
            obtain ⟨hk, hphase, hdeleted, htokens⟩ := hother
            refine ⟨hk, hphase, fun hnow => ?_, ?_⟩
            · exact notOf_refresh hok hi (Or.inr ⟨_, hmem, hnow⟩) (hdeleted hnow)
            · rintro rfl
              refine tokensRevoked_command (htokens rfl) fun hsaves => ?_
              have hwrites := hok.2 call (refreshing_eq hi)
              exact absurd (hwrites.1 userId hsaves rfl _ hmem) (by simp [ServerCall.updated])
        | login request phase => exact hother
        | password request phase => exact hother
    | revoke k phase =>
        obtain rfl : k = jti := hcall.1
        have hkept : ∀ k', NotOf userId c.shared.redis k' →
            NotOf userId (revokeCommand c.shared k phase).1.redis k' :=
          fun k' hk' entry hentry => hk' entry (session_revokeCommand hcall.2.1 hentry)
        cases other with
        | refresh other => exact fun hne => hkept _ (hother hne)
        | revoke k' phase' =>
            obtain ⟨hk, hphase, hdeleted, htokens⟩ := hother
            exact ⟨hk, hphase, fun hnow => hkept k (hdeleted hnow),
              fun hdone => tokensRevoked_revokeCommand (htokens hdone)⟩
        | login request phase => exact hother
        | password request phase => exact hother
    | login request phase => exact hcall.elim
    | password request phase => exact hcall.elim
  surroundings := by
    intro c x _ _
    refine ⟨trivial, fun call _ hcall => ?_⟩
    cases x with
    | tick ms => cases call <;> exact hcall
    | accounts blockedUsers findById resolvePermissions => cases call <;> exact hcall

/-- **After the revocation** no unrevoked refresh token of the user is left, and no live session
that a refresh has created for the user, in every run in which every new token is stored before
the revocation updates the tokens, and every session that is written for the user is the revoked
one, before it is deleted. -/
theorem revocation_reaches_refreshes (env : ServiceEnv) (s : Server) (userId jti : String)
    (events : List ServerEvent)
    (hcalls : Interleaving.AllSteps (server env) (RefreshesThenRevoke jti) ⟨s, []⟩ events)
    (hbefore : Interleaving.AllSteps (server env) (IssuesBefore userId jti) ⟨s, []⟩ events)
    (hdone : .revoke jti (.done userId) ∈ (Interleaving.run (server env) ⟨s, []⟩ events).calls) :
    (∀ row ∈ (Interleaving.run (server env) ⟨s, []⟩ events).shared.refreshTokens.rows,
      row.user_id = userId → row.revoked_at.isSome = true) ∧
    ∀ call, .refresh call ∈ (Interleaving.run (server env) ⟨s, []⟩ events).calls →
      ∀ data, (Interleaving.run (server env) ⟨s, []⟩ events).shared.redis.live call.request.jti =
        some data → data.user_id ≠ userId := by
  obtain ⟨-, hkeeps⟩ := Interleaving.run_keeps reached_preserved
    (Interleaving.allSteps_and _ hcalls hbefore)
    (show Interleaving.Keeps _ (Reached userId jti) ⟨s, []⟩ from ⟨trivial, by simp⟩)
  obtain ⟨-, -, hdeleted, htokens⟩ := hkeeps _ hdone
  refine ⟨htokens rfl, ?_⟩
  intro call hcall data hlive
  obtain ⟨expires, hsession⟩ := Redis.session_of_live hlive
  by_cases hjti : call.request.jti = jti
  · rw [hjti] at hsession
    exact hdeleted rfl _ hsession
  · exact hkeeps _ hcall hjti _ hsession

end Runs

/-! ## Two runs with one user -/

/-- A refresh creates a session, which is revoked; a second refresh with the new token comes too
late. -/
def refreshThenRevoked : List ServerEvent :=
  .start (.refresh firstRequest) :: List.replicate 10 (.advance 0) ++
    .start (.refresh ⟨"t1", "j2", "r3", "t2", "c2"⟩) :: .start (.revoke "j1") ::
      List.replicate 6 (.advance 2) ++ [.advance 1]

theorem revocation_reaches_refreshThenRevoked :
    .revoke "j1" (.done "u") ∈
      (Interleaving.run (server plainServiceEnv) ⟨oneSession, []⟩ refreshThenRevoked).calls ∧
    (∀ row ∈ (Interleaving.run (server plainServiceEnv) ⟨oneSession, []⟩
        refreshThenRevoked).shared.refreshTokens.rows,
      row.user_id = "u" → row.revoked_at.isSome = true) ∧
    ∀ call, .refresh call ∈ (Interleaving.run (server plainServiceEnv) ⟨oneSession, []⟩
        refreshThenRevoked).calls →
      ∀ data, (Interleaving.run (server plainServiceEnv) ⟨oneSession, []⟩
        refreshThenRevoked).shared.redis.live call.request.jti = some data →
          data.user_id ≠ "u" := by
  have hdone : .revoke "j1" (.done "u") ∈
      (Interleaving.run (server plainServiceEnv) ⟨oneSession, []⟩ refreshThenRevoked).calls := by
    decide +kernel
  exact ⟨hdone, revocation_reaches_refreshes plainServiceEnv oneSession "u" "j1" refreshThenRevoked
    (by decide +kernel) (by decide +kernel) hdone⟩

/-- The refresh has exchanged its token when the revocation runs, and goes on after it. -/
def revokedInsideRefresh : List ServerEvent :=
  .start (.refresh firstRequest) :: List.replicate 6 (.advance 0) ++
    .start (.revoke "j0") :: List.replicate 6 (.advance 1) ++ List.replicate 4 (.advance 0)

/-- **The refresh survives the revocation**: after both have completed the user has an unrevoked
token and a live session that the refresh has created. -/
theorem refresh_survives_revocation :
    Interleaving.AllSteps (server plainServiceEnv) (RefreshesThenRevoke "j0") ⟨oneSession, []⟩
      revokedInsideRefresh ∧
    (∀ call ∈ (Interleaving.run (server plainServiceEnv) ⟨oneSession, []⟩
      revokedInsideRefresh).calls, call.completed = true) ∧
    .revoke "j0" (.done "u") ∈
      (Interleaving.run (server plainServiceEnv) ⟨oneSession, []⟩ revokedInsideRefresh).calls ∧
    (∃ row ∈ (Interleaving.run (server plainServiceEnv) ⟨oneSession, []⟩
        revokedInsideRefresh).shared.refreshTokens.rows,
      row.user_id = "u" ∧ row.revoked_at = none) ∧
    ((Interleaving.run (server plainServiceEnv) ⟨oneSession, []⟩
      revokedInsideRefresh).shared.redis.live firstRequest.jti).map (·.user_id) = some "u" := by
  decide +kernel

end ErpApi.Auth
