import ErpApi.Iam.ConcurrentWrites
import ErpApi.Iam.SessionSync
import ErpApi.Session.Rewrites

set_option autoImplicit false

/-! # Two changes at the same time, and the sessions

Two administrative changes run at the same time, each followed by its session sync: after its
commit a change looks up the users to refresh, resolves the permissions of each of them with
several queries and writes them into the user's sessions, all users at once. The statements of the
two changes, and the Redis commands, interleave freely.

For one user the sync of a change is at a `Stage`: the user is not refreshed, the sessions are still
to be listed, or they are and the commands from some phase on are left. `step_view` says what a step
does to the database, to the store and to the stages.
-/

namespace ErpApi.Iam

open Session (Redis SessionData Perms HasPerms Kept Shape Move)

/-! ## Resolving -/

/-- The queries of `resolveForUser`, in their order. -/
inductive Query where
  | userRoles
  | rolePolicies
  | activePolicies
  | statements
  | targets
  | actions
  | conditions
  | permissions
  deriving DecidableEq

/-- The tables as a resolution has seen them, after one more query. -/
def Query.read (db seen : Db) : Query → Db
  | .userRoles => { seen with users := db.users, usersRoles := db.usersRoles, roles := db.roles }
  | .rolePolicies =>
      { seen with roles := db.roles, rolesPolicies := db.rolesPolicies, policies := db.policies }
  | .activePolicies => { seen with policies := db.policies }
  | .statements => { seen with policyStatements := db.policyStatements }
  | .targets => { seen with statementTargets := db.statementTargets }
  | .actions => { seen with statementActions := db.statementActions }
  | .conditions => { seen with statementConditions := db.statementConditions }
  | .permissions => { seen with permissions := db.permissions }

def queries : List Query :=
  [.userRoles, .rolePolicies, .activePolicies, .statements, .targets, .actions, .conditions,
    .permissions]

/-! ## The two changes -/

/-- Where `syncUser` stands: it resolves, then it refreshes the sessions. A resolution that finds
no role, no policy or no statement ends early; it answers the same. -/
inductive SyncPhase where
  | resolving (seen : Db) (todo : List Query)
  /-- The permissions are resolved, from the tables as the queries have seen them. -/
  | refreshing (seen : Db) (call : Session.Call)

structure UserSync where
  userId : String
  phase : SyncPhase

def UserSync.start (db : Db) (userId : String) : UserSync := ⟨userId, .resolving db queries⟩

/-- The next query or command of `syncUser`. -/
def UserSync.next (today : String) (db : Db) (r : Redis) (x : UserSync) : Redis × UserSync :=
  match x.phase with
  | .resolving seen (query :: todo) => (r, { x with phase := .resolving (query.read db seen) todo })
  | .resolving seen [] =>
      (r, { x with phase := .refreshing seen (Session.start
        (.refreshPermissionsForUser x.userId (permissionsOf seen today x.userId))) })
  | .refreshing seen call =>
      ((Session.command r call).1, { x with phase := .refreshing seen (Session.command r call).2 })

/-- Where a change stands. -/
inductive Admin where
  | reading
  | committing (diff : Diff)
  /-- The change has committed; the users to refresh are to be looked up. -/
  | listing
  /-- The second query of `syncUsersByPolicy`. -/
  | listingUsers (roleIds : List String)
  | syncing (users : List UserSync)
  | failed

/-- The first query of the sync. -/
def Change.list (db : Db) : Change → Admin
  | .assignRoles userId _ => .syncing [UserSync.start db userId]
  | .attachPolicies roleId _ => .syncing ((usersByRole db roleId).map (UserSync.start db))
  | .setStatements policyId _ _ =>
      let roles := find (·.toBaseEntity) db.roles.rows fun role =>
        (db.policiesOf role.id).any fun policy => policy.id = uuid policyId
      if roles.length = 0 then .syncing [] else .listingUsers (roles.map (·.id))

/-- The database, the session store and the two changes. -/
structure Consoles where
  db : Db
  redis : Redis
  admin : Bool → Admin

inductive ConsoleEvent where
  /-- The change performs its next statement; while it syncs, the sync number `k` does. -/
  | advance (b : Bool) (k : Nat)
  | tick (ms : Nat)

def Consoles.set (s : Consoles) (b : Bool) (admin : Admin) : Consoles :=
  { s with admin := fun b' => if b' = b then admin else s.admin b' }

section Run

variable (today : String) (changes : Bool → Change)

def Consoles.step (s : Consoles) : ConsoleEvent → Consoles
  | .advance b k =>
      match s.admin b with
      | .reading =>
          match (changes b).read s.db with
          | .error _ => s.set b .failed
          | .ok diff => s.set b (.committing diff)
      | .committing diff =>
          match diff.commit s.db with
          | .error _ => s.set b .failed
          | .ok db => { s with db := db }.set b .listing
      | .listing => s.set b ((changes b).list s.db)
      | .listingUsers roleIds =>
          s.set b (.syncing ((usersWithRoles s.db roleIds).map (UserSync.start s.db)))
      | .syncing users =>
          match users[k]? with
          | none => s
          | some x =>
              { s with redis := (x.next today s.db s.redis).1 }.set b
                (.syncing (users.set k (x.next today s.db s.redis).2))
      | .failed => s
  | .tick ms => { s with redis := { s.redis with clock := s.redis.clock + ms } }

def Consoles.run (s : Consoles) (events : List ConsoleEvent) : Consoles :=
  events.foldl (Consoles.step today changes) s

/-- Every step of the run satisfies `ok` in the state before it. -/
def Consoles.AllSteps (ok : Consoles → ConsoleEvent → Prop) :
    Consoles → List ConsoleEvent → Prop
  | _, [] => True
  | s, e :: events => ok s e ∧ Consoles.AllSteps ok (s.step today changes e) events

def SyncPhase.unlisted : SyncPhase → Bool
  | .resolving _ _ => true
  | .refreshing _ call => call.phase.unlisted

def SyncPhase.treats (jti : String) : SyncPhase → Prop
  | .resolving _ _ => False
  | .refreshing _ call => call.phase.treats jti

instance (jti : String) : (phase : SyncPhase) → Decidable (phase.treats jti)
  | .resolving _ _ => .isFalse not_false
  | .refreshing _ call => inferInstanceAs (Decidable (call.phase.treats jti))

/-- The sync refreshes the user and has not listed the sessions yet. -/
def Admin.Pending (db : Db) (change : Change) (userId : String) : Admin → Prop
  | .listing => userId ∈ change.mutation.refreshes db
  | .listingUsers roleIds => userId ∈ usersWithRoles db roleIds
  | .syncing users => ∃ x ∈ users, x.userId = userId ∧ x.phase.unlisted = true
  | _ => False

instance (db : Db) (change : Change) (userId : String) :
    (admin : Admin) → Decidable (admin.Pending db change userId)
  | .listing => inferInstanceAs (Decidable (userId ∈ change.mutation.refreshes db))
  | .listingUsers roleIds => inferInstanceAs (Decidable (userId ∈ usersWithRoles db roleIds))
  | .syncing users =>
      inferInstanceAs (Decidable (∃ x ∈ users, x.userId = userId ∧ x.phase.unlisted = true))
  | .reading => .isFalse not_false
  | .committing _ => .isFalse not_false
  | .failed => .isFalse not_false

/-- The sync has listed the session of the user and is going to write it. -/
def Admin.Rewrites (userId jti : String) : Admin → Prop
  | .syncing users => ∃ x ∈ users, x.userId = userId ∧ x.phase.treats jti
  | _ => False

instance (userId jti : String) : (admin : Admin) → Decidable (admin.Rewrites userId jti)
  | .syncing users =>
      inferInstanceAs (Decidable (∃ x ∈ users, x.userId = userId ∧ x.phase.treats jti))
  | .listing => .isFalse not_false
  | .listingUsers _ => .isFalse not_false
  | .reading => .isFalse not_false
  | .committing _ => .isFalse not_false
  | .failed => .isFalse not_false

/-- The tables that the sync has seen and the session that it writes next. -/
def SyncPhase.writes : SyncPhase → Option (Db × String)
  | .resolving _ _ => none
  | .refreshing seen call => call.phase.written.map fun w => (seen, w.1)

/-- The sync number `k` of the change. -/
def Admin.sync (k : Nat) : Admin → Option UserSync
  | .syncing users => users[k]?
  | _ => none

/-- When a sync writes into a session, resolution finds in the database what it has found in the
tables that the sync has seen, or the other sync is going to write into the session after it. -/
def WritesCurrent (s : Consoles) : ConsoleEvent → Prop
  | .advance b k => ∀ x ∈ (s.admin b).sync k, ∀ w ∈ x.phase.writes,
      Unchanged today w.1 s.db (uuid x.userId) ∨
        (s.admin !b).Pending s.db (changes !b) x.userId ∨ (s.admin !b).Rewrites x.userId w.2
  | .tick _ => True

deriving instance DecidableEq for ResolvedStatement

instance (today : String) (db db' : Db) (userId : String) :
    Decidable (Unchanged today db db' userId) :=
  inferInstanceAs (Decidable (statementsFor db' today userId none =
    statementsFor db today userId none))

instance (s : Consoles) : (e : ConsoleEvent) → Decidable (WritesCurrent today changes s e)
  | .advance b k => inferInstanceAs (Decidable (∀ x ∈ (s.admin b).sync k, ∀ w ∈ x.phase.writes,
      Unchanged today w.1 s.db (uuid x.userId) ∨
        (s.admin !b).Pending s.db (changes !b) x.userId ∨ (s.admin !b).Rewrites x.userId w.2))
  | .tick _ => .isTrue trivial

instance decidableAllSteps (ok : Consoles → ConsoleEvent → Prop)
    [∀ s e, Decidable (ok s e)] : (s : Consoles) → (events : List ConsoleEvent) →
    Decidable (s.AllSteps today changes ok events)
  | _, [] => .isTrue trivial
  | s, e :: events =>
      have := decidableAllSteps ok (s.step today changes e) events
      inferInstanceAs (Decidable (ok s e ∧
        Consoles.AllSteps today changes ok (s.step today changes e) events))

/-- The ids of users in the session store are written as the database has them. -/
structure CanonicalIds (r : Redis) : Prop where
  index : ∀ userId jti, jti ∈ r.index userId → uuid userId = userId
  sessions : ∀ jti data expires, r.session jti = some (data, expires) →
    uuid data.user_id = data.user_id

/-- One of the two syncs refreshes the user, or the two changes have changed what resolution
answers for the user. -/
def Consoles.Affects (before : Db) (s : Consoles) (userId : String) : Prop :=
  (∃ b users, s.admin b = .syncing users ∧ ∃ x ∈ users, x.userId = userId) ∨
    ¬ Unchanged today before s.db userId

def SyncPhase.Ended : SyncPhase → Prop
  | .resolving _ _ => False
  | .refreshing _ call => call.phase = .pipeline []

instance : (phase : SyncPhase) → Decidable phase.Ended
  | .resolving _ _ => .isFalse not_false
  | .refreshing _ call => inferInstanceAs (Decidable (call.phase = .pipeline []))

/-- The change has failed, or its sync has ended. -/
def Admin.Completed : Admin → Prop
  | .syncing users => ∀ x ∈ users, x.phase.Ended
  | .failed => True
  | _ => False

instance : (admin : Admin) → Decidable admin.Completed
  | .syncing users => inferInstanceAs (Decidable (∀ x ∈ users, x.phase.Ended))
  | .failed => .isTrue trivial
  | .reading => .isFalse not_false
  | .committing _ => .isFalse not_false
  | .listing => .isFalse not_false
  | .listingUsers _ => .isFalse not_false

end Run

/-! ## How far the sync of a user is -/

/-- What is left of the sync of one user: nothing, as the change does not refresh the user; all of
it; or the commands from a phase on. -/
inductive Stage where
  | none
  | pending
  | listed (phase : Session.Phase)

def UserSync.stage (x : UserSync) : Stage :=
  match x.phase with
  | .resolving _ _ => .pending
  | .refreshing _ call => if call.phase.unlisted then .pending else .listed call.phase

def stageOf (users : List UserSync) (userId : String) : Stage :=
  match users.find? fun x => x.userId = userId with
  | none => .none
  | some x => x.stage

/-- The stage of a user that the sync has still to look up. -/
def lookup (users : List String) (userId : String) : Stage :=
  if userId ∈ users then .pending else .none

def Admin.stage (db : Db) (change : Change) (userId : String) : Admin → Stage
  | .listing => lookup (change.mutation.refreshes db) userId
  | .listingUsers roleIds => lookup (usersWithRoles db roleIds) userId
  | .syncing users => stageOf users userId
  | _ => .none

theorem stageOf_of_mem {users : List UserSync} (hnodup : (users.map UserSync.userId).Nodup)
    {x : UserSync} (hx : x ∈ users) : stageOf users x.userId = x.stage := by
  have hfind : users.find? (fun y => y.userId = x.userId) = some x := by
    induction users with
    | nil => cases hx
    | cons y users ih =>
        obtain ⟨hy, hrest⟩ := List.nodup_cons.mp hnodup
        rcases List.mem_cons.mp hx with rfl | hmem
        · simp
        · have hne : y.userId ≠ x.userId := fun heq => hy (heq ▸ List.mem_map_of_mem hmem)
          rw [List.find?_cons_of_neg (by simpa using hne)]
          exact ih hrest hmem
  rw [stageOf, hfind]

theorem stageOf_of_not_mem {users : List UserSync} {userId : String}
    (h : userId ∉ users.map UserSync.userId) : stageOf users userId = .none := by
  have hfind : users.find? (fun x => x.userId = userId) = none := by
    refine List.find?_eq_none.mpr fun x hx => ?_
    simp only [decide_eq_true_eq]
    exact fun heq => h (heq ▸ List.mem_map_of_mem hx)
  rw [stageOf, hfind]

theorem stageOf_start (db : Db) {users : List String} (hnodup : users.Nodup) (userId : String) :
    stageOf (users.map (UserSync.start db)) userId = lookup users userId := by
  have hids : (users.map (UserSync.start db)).map UserSync.userId = users := by
    rw [List.map_map]
    exact List.map_id users
  by_cases hmem : userId ∈ users
  · rw [lookup, if_pos hmem]
    exact stageOf_of_mem (by rwa [hids]) (List.mem_map_of_mem (f := UserSync.start db) hmem)
  · rw [lookup, if_neg hmem]
    exact stageOf_of_not_mem (by rwa [hids])

/-- One sync has moved on. -/
theorem stageOf_set {users : List UserSync} (hnodup : (users.map UserSync.userId).Nodup) {k : Nat}
    {x x' : UserSync} (hk : users[k]? = some x) (hid : x'.userId = x.userId) :
    ((users.set k x').map UserSync.userId).Nodup ∧
    stageOf (users.set k x') x.userId = x'.stage ∧
    ∀ userId, userId ≠ x.userId → stageOf (users.set k x') userId = stageOf users userId := by
  have hids : (users.set k x').map UserSync.userId = users.map UserSync.userId := by
    rw [List.map_set, hid]
    refine List.ext_getElem? fun i => ?_
    by_cases hik : k = i
    · subst hik
      rw [List.getElem?_set, List.getElem?_map, hk]
      have hlt := (List.getElem?_eq_some_iff.mp hk).1
      simp [hlt]
    · rw [List.getElem?_set_ne hik]
  have hnodup' : ((users.set k x').map UserSync.userId).Nodup := by rwa [hids]
  have hlt := (List.getElem?_eq_some_iff.mp hk).1
  refine ⟨hnodup', ?_, ?_⟩
  · rw [← hid]
    exact stageOf_of_mem hnodup' (List.mem_set hlt x')
  · intro userId hne
    by_cases hmem : userId ∈ users.map UserSync.userId
    · obtain ⟨y, hy, rfl⟩ := List.mem_map.mp hmem
      obtain ⟨i, hi⟩ := List.mem_iff_getElem?.mp hy
      have hik : k ≠ i := by
        rintro rfl
        rw [hk] at hi
        exact hne (congrArg UserSync.userId (Option.some.inj hi)).symm
      have hy' : y ∈ users.set k x' :=
        List.mem_of_getElem? ((List.getElem?_set_ne hik).trans hi)
      rw [stageOf_of_mem hnodup hy, stageOf_of_mem hnodup' hy']
    · rw [stageOf_of_not_mem hmem, stageOf_of_not_mem (by rwa [hids])]

/-- Looking up the users leaves the stages as they are. -/
theorem stage_list (db : Db) (change : Change) (userId : String) :
    (change.list db).stage db change userId = Admin.listing.stage db change userId := by
  cases change with
  | assignRoles id roleIds => exact stageOf_start db (List.nodup_singleton id) userId
  | attachPolicies id policyIds =>
      exact stageOf_start db ((Change.attachPolicies id policyIds).mutation.nodup_refreshes db)
        userId
  | setStatements id statements draws =>
      simp only [Change.list, Admin.stage, Change.mutation, Mutation.refreshes, usersByPolicy]
      by_cases hroles : (find (·.toBaseEntity) db.roles.rows fun role =>
          (db.policiesOf role.id).any fun policy => policy.id = uuid id).length = 0
      · rw [if_pos hroles, if_pos hroles]
        rfl
      · rw [if_neg hroles, if_neg hroles]
        rfl

theorem stage_listingUsers (db : Db) (change : Change) (roleIds : List String) (userId : String) :
    (Admin.syncing ((usersWithRoles db roleIds).map (UserSync.start db))).stage db change userId =
      (Admin.listingUsers roleIds).stage db change userId :=
  stageOf_start db (nodup_usersWithRoles db roleIds) userId

/-! ## What a step can do -/

section Step

variable (owner : String → String) (today : String)

/-- A sync that refreshes the sessions of its user with what it has resolved. -/
def UserSync.Ok (x : UserSync) : Prop :=
  match x.phase with
  | .resolving _ _ => True
  | .refreshing seen call =>
      call.method = .refreshPermissionsForUser x.userId (permissionsOf seen today x.userId) ∧
      Shape owner x.userId call.phase ∧ Session.PhaseOwned owner call.phase ∧
      call.phase.Writes (HasPerms (permissionsOf seen today x.userId))

def Admin.Ok (change : Change) : Admin → Prop
  | .committing diff => diff.Of change
  | .syncing users => (users.map UserSync.userId).Nodup ∧ ∀ x ∈ users, x.Ok owner today
  | _ => True

/-- The stages of the users in both syncs. -/
def Consoles.stage (changes : Bool → Change) (s : Consoles) (b : Bool) (userId : String) : Stage :=
  (s.admin b).stage s.db (changes b) userId

/-- A change has committed. -/
structure Commits (changes : Bool → Change) (s s' : Consoles) (b : Bool) : Prop where
  redis : s'.redis = s.redis
  writes : Writes s.db s'.db (changes b)
  pending : ∀ userId ∈ (changes b).mutation.refreshes s'.db, s'.stage changes b userId = .pending
  others : ∀ userId, userId ∉ (changes b).mutation.refreshes s'.db →
    ∀ c, s'.stage changes c userId = s.stage changes c userId
  listed : ∀ c userId phase,
    s'.stage changes c userId = .listed phase ↔ s.stage changes c userId = .listed phase

/-- The sync of a user has performed a command. What it has written is what resolution answers, or
the other sync is going to write the session. -/
structure Commands (changes : Bool → Change) (s s' : Consoles) (b : Bool)
    (userId : String) (phase phase' : Session.Phase) : Prop where
  db : s'.db = s.db
  owned : Session.RedisOwned owner s'.redis
  shape : Shape owner userId phase
  move : Move userId s.redis s'.redis phase phase'
  before : s.stage changes b userId = if phase.unlisted then .pending else .listed phase
  after : s'.stage changes b userId = .listed phase'
  others : ∀ c user, c ≠ b ∨ user ≠ userId → s'.stage changes c user = s.stage changes c user
  current : ∀ jti data, phase.written = some (jti, data) →
    HasPerms (permissionsOf s.db today userId) data ∨ s.stage changes (!b) userId = .pending ∨
      ∃ phase', s.stage changes (!b) userId = .listed phase' ∧ phase'.treats jti

inductive StepView (changes : Bool → Change) (s s' : Consoles) : Prop where
  | same (db : s'.db = s.db) (redis : s'.redis = s.redis)
      (stage : ∀ b userId, s'.stage changes b userId = s.stage changes b userId)
  | commit (b : Bool) (h : Commits changes s s' b)
  | command (b : Bool) (userId : String) (phase phase' : Session.Phase)
      (h : Commands owner today changes s s' b userId phase phase')
  | tick (ms : Nat) (db : s'.db = s.db)
      (redis : s'.redis = { s.redis with clock := s.redis.clock + ms })
      (stage : ∀ b userId, s'.stage changes b userId = s.stage changes b userId)

variable {owner today} {changes : Bool → Change} {s : Consoles}

theorem Consoles.set_same (s : Consoles) (b : Bool) (admin : Admin) :
    (s.set b admin).admin b = admin := if_pos rfl

theorem Consoles.set_other (s : Consoles) {b c : Bool} (admin : Admin) (h : c ≠ b) :
    (s.set b admin).admin c = s.admin c := if_neg h

theorem UserSync.ok_start (db : Db) (userId : String) : (UserSync.start db userId).Ok owner today :=
  trivial

theorem ok_starts (db : Db) (change : Change) {users : List String} (hnodup : users.Nodup) :
    (Admin.syncing (users.map (UserSync.start db))).Ok owner today change := by
  refine ⟨?_, ?_⟩
  · rw [List.map_map]
    exact hnodup.map fun _ _ h => h
  · intro x hx
    obtain ⟨userId, -, rfl⟩ := List.mem_map.mp hx
    exact UserSync.ok_start db userId

theorem ok_list (db : Db) (change : Change) : (change.list db).Ok owner today change := by
  cases change with
  | assignRoles id roleIds => exact ok_starts db _ (List.nodup_singleton id)
  | attachPolicies id policyIds =>
      exact ok_starts db _ ((Change.attachPolicies id policyIds).mutation.nodup_refreshes db)
  | setStatements id statements draws =>
      rw [Change.list]
      split
      · exact ok_starts db _ List.nodup_nil
      · trivial

/-- One query or command of `syncUser`. -/
theorem UserSync.next_ok {x : UserSync} {db : Db} {r : Redis} (hr : Kept owner r)
    (hx : x.Ok owner today) :
    (x.next today db r).2.userId = x.userId ∧ (x.next today db r).2.Ok owner today ∧
    ((x.next today db r).1 = r ∧ (x.next today db r).2.stage = x.stage ∨
      ∃ seen call phase', x.phase = .refreshing seen call ∧
        Session.RedisOwned owner (x.next today db r).1 ∧ Shape owner x.userId call.phase ∧
        Move x.userId r (x.next today db r).1 call.phase phase' ∧
        call.phase.Writes (HasPerms (permissionsOf seen today x.userId)) ∧
        (x.next today db r).2.stage = .listed phase') := by
  obtain ⟨userId, phase⟩ := x
  cases phase with
  | resolving seen todo =>
      cases todo with
      | cons query todo => exact ⟨rfl, trivial, Or.inl ⟨rfl, rfl⟩⟩
      | nil => exact ⟨rfl, ⟨rfl, rfl, trivial, trivial⟩, Or.inl ⟨rfl, rfl⟩⟩
  | refreshing seen call =>
      obtain ⟨hmethod, hshape, howned, hwrites⟩ := hx
      obtain ⟨method, phase⟩ := call
      obtain rfl : method = .refreshPermissionsForUser userId (permissionsOf seen today userId) :=
        hmethod
      have hrewrites : (Session.Method.refreshPermissionsForUser userId
          (permissionsOf seen today userId)).rewrites = true := rfl
      obtain ⟨hmove, hshape'⟩ := Session.rewrite_move hrewrites hr hshape
      obtain ⟨hredis, howned'⟩ := Session.owned_command hr.owned howned
      have hwrites' := Session.command_writes (r := r) hrewrites (fun _ => ⟨rfl, rfl⟩) hwrites
      refine ⟨rfl, ⟨Session.command_method r _, hshape', howned', hwrites'⟩,
        Or.inr ⟨seen, _, _, rfl, hredis, hshape, hmove, hwrites, ?_⟩⟩
      show (if _ then _ else _) = _
      rw [hmove.unlisted]
      rfl

/-- A change has moved on, and nothing else has. -/
theorem StepView.of_set {b : Bool} {admin : Admin}
    (hstage : ∀ userId, admin.stage s.db (changes b) userId = s.stage changes b userId) :
    StepView owner today changes s (s.set b admin) := by
  refine .same rfl rfl fun c userId => ?_
  by_cases hc : c = b
  · subst hc
    show ((s.set c admin).admin c).stage s.db (changes c) userId = _
    rw [s.set_same, hstage]
  · show ((s.set b admin).admin c).stage s.db (changes c) userId = _
    rw [s.set_other admin hc]
    rfl

theorem pending_stage {admin : Admin} {db : Db} {change : Change} {userId : String}
    (hadmin : admin.Ok owner today change) (h : admin.Pending db change userId) :
    admin.stage db change userId = .pending := by
  cases admin with
  | listing => exact if_pos h
  | listingUsers roleIds => exact if_pos h
  | syncing users =>
      obtain ⟨x, hx, rfl, hunlisted⟩ := h
      refine (stageOf_of_mem hadmin.1 hx).trans ?_
      obtain ⟨userId, phase⟩ := x
      cases phase with
      | resolving seen todo => rfl
      | refreshing seen call => exact if_pos hunlisted
  | _ => exact absurd h not_false

theorem rewrites_stage {admin : Admin} {userId jti : String} {change : Change} (db : Db)
    (hadmin : admin.Ok owner today change) (h : admin.Rewrites userId jti) :
    ∃ phase, admin.stage db change userId = .listed phase ∧ phase.treats jti := by
  cases admin with
  | syncing users =>
      obtain ⟨x, hx, rfl, htreats⟩ := h
      show ∃ phase, stageOf users x.userId = .listed phase ∧ phase.treats jti
      rw [stageOf_of_mem hadmin.1 hx]
      obtain ⟨userId, phase⟩ := x
      cases phase with
      | resolving seen todo => exact absurd htreats not_false
      | refreshing seen call =>
          refine ⟨call.phase, if_neg fun hunlisted => ?_, htreats⟩
          exact (Session.Phase.of_unlisted hunlisted).1 htreats
  | _ => exact absurd h not_false

/-- The stage of a user whose sessions a commit does not refresh. -/
theorem stage_writes {db db' : Db} {change other : Change} {admin : Admin} {userId : String}
    (h : Writes db db' change) (hcanonical : change.Canonical)
    (hout : userId ∉ change.mutation.refreshes db') :
    admin.stage db' other userId = admin.stage db other userId := by
  cases admin with
  | listing =>
      simp only [Admin.stage, lookup, h.refreshed_iff hcanonical hout other]
  | listingUsers roleIds =>
      simp only [Admin.stage, lookup, h.withRoles_iff hcanonical hout roleIds]
  | _ => rfl

theorem lookup_ne_listed (users : List String) (userId : String) (phase : Session.Phase) :
    lookup users userId ≠ .listed phase := by
  unfold lookup
  split
  · exact Stage.noConfusion
  · exact Stage.noConfusion

theorem listed_writes (db db' : Db) (change : Change) (admin : Admin) (userId : String)
    (phase : Session.Phase) :
    admin.stage db' change userId = .listed phase ↔
      admin.stage db change userId = .listed phase := by
  cases admin with
  | listing =>
      exact iff_of_false (lookup_ne_listed _ _ _) (lookup_ne_listed _ _ _)
  | listingUsers roleIds =>
      exact iff_of_false (lookup_ne_listed _ _ _) (lookup_ne_listed _ _ _)
  | _ => exact Iff.rfl

theorem commits_set {b : Bool} {diff : Diff} {db : Db} (hb : s.admin b = .committing diff)
    (hof : diff.Of (changes b)) (hcanonical : (changes b).Canonical)
    (hcommit : diff.commit s.db = .ok db) :
    Commits changes s ({ s with db := db }.set b .listing) b := by
  have hwrites := Diff.commit_writes hof hcommit
  have hset : ∀ c, c ≠ b → ({ s with db := db }.set b .listing).admin c = s.admin c :=
    fun c hc => Consoles.set_other _ _ hc
  have hnone : ∀ userId, s.stage changes b userId = .none := by
    intro userId
    rw [Consoles.stage, hb]
    rfl
  have hlisting : ∀ userId, ({ s with db := db }.set b .listing).stage changes b userId =
      lookup ((changes b).mutation.refreshes db) userId := by
    intro userId
    rw [Consoles.stage, Consoles.set_same]
    rfl
  refine ⟨rfl, hwrites, fun userId hmem => (hlisting userId).trans (if_pos hmem), ?_, ?_⟩
  · intro userId hout c
    by_cases hc : c = b
    · subst hc
      rw [hlisting, hnone]
      exact if_neg hout
    · rw [Consoles.stage, hset c hc]
      exact stage_writes hwrites hcanonical hout
  · intro c userId phase
    by_cases hc : c = b
    · subst hc
      rw [hlisting, hnone]
      exact iff_of_false (lookup_ne_listed _ _ _) Stage.noConfusion
    · rw [Consoles.stage, hset c hc]
      exact listed_writes _ _ _ _ _ _

theorem ok_set {b : Bool} {admin : Admin} {db : Db} {redis : Redis}
    (hadmin : ∀ c, (s.admin c).Ok owner today (changes c)) (h : admin.Ok owner today (changes b)) :
    ∀ c, ((Consoles.mk db redis s.admin).set b admin).admin c |>.Ok owner today (changes c) := by
  intro c
  by_cases hc : c = b
  · subst hc
    rw [Consoles.set_same]
    exact h
  · rw [Consoles.set_other _ _ hc]
    exact hadmin c

/-- A sync performs its next query or command. -/
theorem view_syncing {b : Bool} {k : Nat} {users : List UserSync} {x : UserSync}
    (hr : Kept owner s.redis) (hadmin : ∀ c, (s.admin c).Ok owner today (changes c))
    (hb : s.admin b = .syncing users) (hk : users[k]? = some x)
    (hok : WritesCurrent today changes s (.advance b k)) :
    (∀ c, ((s.step today changes (.advance b k)).admin c).Ok owner today (changes c)) ∧
      StepView owner today changes s (s.step today changes (.advance b k)) := by
  have hstep : s.step today changes (.advance b k) =
      { s with redis := (x.next today s.db s.redis).1 }.set b
        (.syncing (users.set k (x.next today s.db s.redis).2)) := by
    simp only [Consoles.step, hb, hk]
  have hb' := hadmin b
  rw [hb] at hb'
  obtain ⟨hnodup, hall⟩ := hb'
  have hx := List.mem_of_getElem? hk
  obtain ⟨hid, hnext, hview⟩ := UserSync.next_ok hr (hall x hx)
  obtain ⟨hnodup', hself, hothers⟩ := stageOf_set hnodup hk hid
  have hstage : s.stage changes b x.userId = x.stage := by
    rw [Consoles.stage, hb]
    exact stageOf_of_mem hnodup hx
  rw [hstep]
  refine ⟨ok_set hadmin ⟨hnodup', ?_⟩, ?_⟩
  · intro y hy
    rcases List.mem_or_eq_of_mem_set hy with hold | rfl
    · exact hall y hold
    · exact hnext
  · rcases hview with ⟨hredis, hsame⟩ |
      ⟨seen, call, phase', hcall, howned, hshape, hmove, hwrites, hlisted⟩
    · rw [hredis]
      refine StepView.of_set fun userId => ?_
      rw [Consoles.stage, hb]
      by_cases hu : userId = x.userId
      · subst hu
        exact hself.trans (hsame.trans (stageOf_of_mem hnodup hx).symm)
      · exact hothers userId hu
    · refine .command b x.userId call.phase phase' ⟨rfl, howned, hshape, hmove, ?_, ?_, ?_, ?_⟩
      · rw [hstage, UserSync.stage, hcall]
      · rw [Consoles.stage, Consoles.set_same]
        exact hself.trans hlisted
      · intro c user hne
        by_cases hc : c = b
        · subst hc
          rw [Consoles.stage, Consoles.stage, Consoles.set_same, hb]
          exact hothers user (hne.resolve_left fun h => h rfl)
        · rw [Consoles.stage, Consoles.set_other _ _ hc]
          rfl
      · intro jti data hwritten
        have hsync : (s.admin b).sync k = some x := by
          rw [hb]
          exact hk
        have hwrites' : x.phase.writes = some (seen, jti) := by
          rw [hcall, SyncPhase.writes, hwritten]
          rfl
        rcases hok x hsync _ hwrites' with hsame | hpending | hrewrites
        · exact Or.inl (hsame.hasPerms (hwrites.written hwritten))
        · exact Or.inr (Or.inl (pending_stage (hadmin _) hpending))
        · exact Or.inr (Or.inr (rewrites_stage s.db (hadmin _) hrewrites))

/-- **What a step can do.** -/
theorem step_view (hr : Kept owner s.redis) (hadmin : ∀ c, (s.admin c).Ok owner today (changes c))
    (hcanonical : ∀ c, (changes c).Canonical) {e : ConsoleEvent}
    (hok : WritesCurrent today changes s e) :
    (∀ c, ((s.step today changes e).admin c).Ok owner today (changes c)) ∧
      StepView owner today changes s (s.step today changes e) := by
  cases e with
  | tick ms => exact ⟨hadmin, .tick ms rfl rfl fun _ _ => rfl⟩
  | advance b k =>
      have hnone : ∀ {admin : Admin}, s.admin b = admin →
          (∀ userId, Admin.failed.stage s.db (changes b) userId =
            admin.stage s.db (changes b) userId) →
          (∀ c, ((s.set b .failed).admin c).Ok owner today (changes c)) ∧
            StepView owner today changes s (s.set b .failed) := by
        intro admin hb hstage
        refine ⟨ok_set hadmin trivial, StepView.of_set fun userId => ?_⟩
        rw [hstage, Consoles.stage, hb]
      cases hb : s.admin b with
      | reading =>
          simp only [Consoles.step, hb]
          cases hread : (changes b).read s.db with
          | error err => exact hnone hb fun _ => rfl
          | ok diff =>
              refine ⟨ok_set hadmin (Change.read_of hread), StepView.of_set fun userId => ?_⟩
              rw [Consoles.stage, hb]
              rfl
      | committing diff =>
          simp only [Consoles.step, hb]
          have hof := hadmin b
          rw [hb] at hof
          cases hcommit : diff.commit s.db with
          | error err => exact hnone hb fun _ => rfl
          | ok db =>
              exact ⟨ok_set hadmin trivial, .commit b (commits_set hb hof (hcanonical b) hcommit)⟩
      | listing =>
          simp only [Consoles.step, hb]
          refine ⟨ok_set hadmin (ok_list s.db (changes b)), StepView.of_set fun userId => ?_⟩
          rw [Consoles.stage, hb]
          exact stage_list s.db (changes b) userId
      | listingUsers roleIds =>
          simp only [Consoles.step, hb]
          refine ⟨ok_set hadmin (ok_starts s.db _ (nodup_usersWithRoles s.db roleIds)),
            StepView.of_set fun userId => ?_⟩
          rw [Consoles.stage, hb]
          exact stage_listingUsers s.db (changes b) roleIds userId
      | syncing users =>
          cases hk : users[k]? with
          | none =>
              have hstep : s.step today changes (.advance b k) = s := by
                simp only [Consoles.step, hb, hk]
              rw [hstep]
              exact ⟨hadmin, .same rfl rfl fun _ _ => rfl⟩
          | some x => exact view_syncing hr hadmin hb hk hok
      | failed =>
          have hstep : s.step today changes (.advance b k) = s := by
            simp only [Consoles.step, hb]
          rw [hstep]
          exact ⟨hadmin, .same rfl rfl fun _ _ => rfl⟩

end Step

end ErpApi.Iam
