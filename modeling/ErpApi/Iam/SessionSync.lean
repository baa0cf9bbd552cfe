import ErpApi.Iam.MutationEffects
import ErpApi.Iam.PermissionGuard
import ErpApi.Session.RefreshAll

set_option autoImplicit false

/-! # Sessions after administration

After a mutation of users, roles or policies, `SessionSyncService` writes freshly resolved
permissions into the live sessions of the users that the mutation returns: one call of
`refreshPermissionsForUser` for each, and the mutation completes when all of them have ended.

Three mutations change what resolution answers without a refresh that reaches the sessions
(`Mutation.Misses`): the update of a policy that takes it into force or out of force
(`deactivated_policy_in_session`), the delete of a user, and an assignment of roles in which the id
of the user is written with capital letters, because the keys of Redis are compared as texts. In
a run in which none of these happens to a user with a live session, every live session has the
permissions that resolution answers (`sessions_synced`).
-/

namespace ErpApi.Iam

open Session (Redis SessionData Perms HasPerms RedisOk)

/-! ## The service and the session store -/

/-- The answer of `resolveForUser`. The database reads the id without regard to case. -/
def permissionsOf (db : Db) (today userId : String) : Perms :=
  let resolved := resolveForUser db today (uuid userId)
  ⟨resolved.roles, resolved.permissions, resolved.conditional_permissions⟩

structure World where
  db : Db
  redis : Redis

inductive Action where
  /-- A mutation. The schedule is the order of the Redis commands of the refresh after it. -/
  | admin (mutation : Mutation) (schedule : List Session.Event)
  | login (jti : String) (data : SessionData) (ttlSeconds : Int)

/-- The call `syncUsers` after a mutation has written `db`. -/
def syncUsers (today : String) (redis : Redis) (db : Db) (m : Mutation)
    (schedule : List Session.Event) : Session.Config :=
  Interleaving.run Session.store
    ⟨redis, Session.refreshCalls (permissionsOf db today) (m.refreshes db)⟩ schedule

/-- The session that a login creates. -/
def loginSession (db : Db) (today : String) (data : SessionData) : SessionData :=
  let perms := permissionsOf db today data.user_id
  { data with
    roles := perms.roles
    permissions := perms.permissions
    conditional_permissions := perms.conditional_permissions }

def World.perform (today : String) (w : World) : Action → World
  | .admin m schedule =>
      match m.run w.db with
      | .error _ => w
      | .ok db => ⟨db, (syncUsers today w.redis db m schedule).shared⟩
  | .login jti data ttlSeconds =>
      { w with redis := w.redis.create jti (loginSession w.db today data) ttlSeconds }

def World.run (today : String) (w : World) (actions : List Action) : World :=
  actions.foldl (World.perform today) w

/-- The action completes: all calls of the refresh have ended. A login draws a new id, and gives
the id of the user as the database has it. -/
def Action.Completes (today : String) (w : World) : Action → Prop
  | .admin m schedule => ∀ db, m.run w.db = .ok db →
      Session.NoStart schedule ∧ Session.Ended (syncUsers today w.redis db m schedule)
  | .login jti data _ => Session.Fresh w.redis jti ∧ uuid data.user_id = data.user_id

/-- The action misses no user who has a live session. -/
def Action.Reaches (today : String) (w : World) : Action → Prop
  | .admin m _ => ∀ db, m.run w.db = .ok db →
      ∀ jti data, w.redis.live jti = some data → ¬ m.Misses today w.db data.user_id
  | .login _ _ _ => True

/-- Every action of the run satisfies `ok` in the state before it. -/
def World.AllActions (today : String) (ok : World → Action → Prop) : World → List Action → Prop
  | _, [] => True
  | w, action :: actions =>
      ok w action ∧ World.AllActions today ok (w.perform today action) actions

/-! ## Every live session has the resolved permissions -/

/-- The live sessions have the permissions that resolution answers for their users. -/
structure Synced (today : String) (w : World) : Prop where
  foreignKeys : w.db.ForeignKeys
  sessions : RedisOk (permissionsOf w.db today) [] w.redis
  /-- The ids of users are written as the database has them. -/
  canonical : ∀ userId jti, jti ∈ w.redis.index userId → uuid userId = userId

section Run

variable {today : String} {w : World}

theorem Unchanged.hasPerms {db db' : Db} {userId : String} {data : SessionData}
    (h : Unchanged today db db' (uuid userId))
    (hdata : HasPerms (permissionsOf db today userId) data) :
    HasPerms (permissionsOf db' today userId) data := by
  have hlists := resolveForUser_lists db' today (uuid userId)
  rw [h, ← resolveForUser_lists db today (uuid userId)] at hlists
  obtain ⟨hpermissions, hconditional⟩ := Prod.mk.inj hlists
  exact ⟨hdata.1.trans hpermissions.symm, hdata.2.trans hconditional.symm⟩

theorem Mutation.write_of_run {db db' : Db} {m : Mutation} (h : m.run db = .ok db') :
    m.write db = .ok db' := by
  unfold Mutation.run executeDbOperation at h
  cases hwrite : m.write db with
  | error e =>
      rw [hwrite] at h
      cases h
  | ok db'' =>
      rw [hwrite] at h
      exact h

/-- The sessions of the users who are not refreshed have their permissions already. -/
theorem Synced.others (hw : Synced today w) {m : Mutation} {db : Db} (hrun : m.run w.db = .ok db)
    (hreaches : ∀ jti data, w.redis.live jti = some data → ¬ m.Misses today w.db data.user_id) :
    RedisOk (permissionsOf db today) (m.refreshes db) w.redis := by
  obtain ⟨hindexed, hperms⟩ := hw.sessions
  refine ⟨hindexed, ?_⟩
  intro jti data hlive hout
  have hcanonical := hw.canonical _ jti (hindexed.indexed jti data hlive)
  have hunchanged := write_unchanged hw.foreignKeys (Mutation.write_of_run hrun) hout
    (hreaches jti data hlive)
  rw [← hcanonical] at hunchanged
  exact hunchanged.hasPerms (hperms jti data hlive List.not_mem_nil)

/-- **One action.** -/
theorem perform_synced (hw : Synced today w) {action : Action}
    (hcompletes : action.Completes today w) (hreaches : action.Reaches today w) :
    Synced today (w.perform today action) := by
  cases action with
  | admin m schedule =>
      simp only [World.perform]
      cases hrun : m.run w.db with
      | error e => exact hw
      | ok db =>
          obtain ⟨hno, hended⟩ := hcompletes db hrun
          have hothers := hw.others hrun (hreaches db hrun)
          have hnodup := m.nodup_refreshes db
          refine ⟨write_foreignKeys hw.foreignKeys (Mutation.write_of_run hrun),
            Session.refreshAll_hasPerms hnodup hothers hno hended, ?_⟩
          intro userId jti hmem
          exact hw.canonical userId jti (Session.refreshAll_index hnodup hothers hno hmem)
  | login jti data ttlSeconds =>
      obtain ⟨hfresh, hcanonical⟩ := hcompletes
      have hperms : HasPerms (permissionsOf w.db today data.user_id)
          (loginSession w.db today data) := ⟨rfl, rfl⟩
      refine ⟨hw.foreignKeys, Redis.create_redisOk ttlSeconds hw.sessions hfresh hperms, ?_⟩
      intro userId j hmem
      rcases Redis.mem_create_index.mp hmem with hold | ⟨rfl, -⟩
      · exact hw.canonical userId j hold
      · exact hcanonical

theorem run_synced (hw : Synced today w) {actions : List Action}
    (hactions : w.AllActions today
      (fun w action => action.Completes today w ∧ action.Reaches today w) actions) :
    Synced today (w.run today actions) := by
  induction actions generalizing w with
  | nil => exact hw
  | cons action actions ih =>
      obtain ⟨⟨hcompletes, hreaches⟩, hrest⟩ := hactions
      exact ih (perform_synced hw hcompletes hreaches) hrest

/-- **After every run** of mutations and logins that complete and miss no user with a live session,
each live session has the permissions that resolution answers for its user. -/
theorem sessions_synced (hw : Synced today w) {actions : List Action}
    (hactions : w.AllActions today
      (fun w action => action.Completes today w ∧ action.Reaches today w) actions) :
    ∀ jti data, (w.run today actions).redis.live jti = some data →
      HasPerms (permissionsOf (w.run today actions).db today data.user_id) data := by
  intro jti data hlive
  exact (run_synced hw hactions).sessions.2 jti data hlive List.not_mem_nil

end Run

/-! ## Two runs with one session -/

/-- One user, and no session. -/
def oneUser : World := ⟨twoAllows "sales", Session.init.shared⟩

/-- The policy is no longer active. -/
def deactivation : PolicyDTO := ⟨.undefined, .value false, .undefined, .undefined⟩

theorem oneUser_synced (today : String) : Synced today oneUser := by
  refine ⟨⟨by decide, by decide, by decide⟩, ⟨⟨?_, ?_, ?_, ?_⟩, ?_⟩, ?_⟩
  · intro jti data hlive
    cases hlive
  · intro userId jti data expires hmem
    cases hmem
  · intro userId
    exact List.nodup_nil
  · intro userId userId' jti hmem
    cases hmem
  · intro jti data hlive
    cases hlive
  · intro userId jti hmem
    cases hmem

theorem login_completes (today : String) :
    (Action.login "j" Session.aliceSession 3600).Completes today oneUser := by
  refine ⟨⟨rfl, ?_⟩, by decide⟩
  intro userId hmem
  cases hmem

/-- The user has a session, loses the role, and the policy is then deactivated. -/
def roleRemoved : List Action :=
  [.login "j" Session.aliceSession 3600,
    .admin (.assignRoles "u" []) [.advance 0, .advance 0, .advance 0, .advance 0],
    .admin (.updatePolicy "p" deactivation) []]

/-- The session is in step with the database. -/
theorem sessions_synced_roleRemoved :
    oneUser.AllActions "2026-01-01" (fun w action =>
      action.Completes "2026-01-01" w ∧ action.Reaches "2026-01-01" w) roleRemoved ∧
    ∀ jti data, (oneUser.run "2026-01-01" roleRemoved).redis.live jti = some data →
      HasPerms (permissionsOf (oneUser.run "2026-01-01" roleRemoved).db "2026-01-01"
        data.user_id) data := by
  have hactions : oneUser.AllActions "2026-01-01" (fun w action =>
      action.Completes "2026-01-01" w ∧ action.Reaches "2026-01-01" w) roleRemoved := by
    refine ⟨⟨login_completes _, trivial⟩, ⟨?_, ?_⟩, ⟨?_, ?_⟩, trivial⟩
    · intro db hrun
      obtain rfl := Except.ok.inj hrun
      exact ⟨by simp [Session.NoStart], by decide +kernel⟩
    · rintro db - jti data - ⟨heq, hne⟩
      exact hne (heq.trans (by decide)).symm
    · intro db hrun
      obtain rfl := Except.ok.inj hrun
      exact ⟨by simp [Session.NoStart], by decide +kernel⟩
    · rintro db - jti data - ⟨policy, -, -, ⟨-, roleId, -, hpair, -⟩, -⟩
      cases hpair
  exact ⟨hactions, sessions_synced (oneUser_synced _) hactions⟩

/-- The policy is deactivated while the user has a session. -/
def policyDeactivated : List Action :=
  [.login "j" Session.aliceSession 3600, .admin (.updatePolicy "p" deactivation) []]

/-- **A deactivated policy stays in the session.** -/
theorem deactivated_policy_in_session :
    Synced "2026-01-01" oneUser ∧
    oneUser.AllActions "2026-01-01" (fun w action => action.Completes "2026-01-01" w)
      policyDeactivated ∧
    ¬ ∀ jti data, (oneUser.run "2026-01-01" policyDeactivated).redis.live jti = some data →
      HasPerms (permissionsOf (oneUser.run "2026-01-01" policyDeactivated).db "2026-01-01"
        data.user_id) data := by
  refine ⟨oneUser_synced _, ⟨login_completes _, ?_, trivial⟩, ?_⟩
  · intro db hrun
    obtain rfl := Except.ok.inj hrun
    exact ⟨by simp [Session.NoStart], by decide +kernel⟩
  · intro h
    have hlive : (oneUser.run "2026-01-01" policyDeactivated).redis.live "j" =
        some (loginSession (twoAllows "sales") "2026-01-01" Session.aliceSession) := by
      decide +kernel
    have hperms := (h "j" _ hlive).2
    revert hperms
    decide +kernel

end ErpApi.Iam
