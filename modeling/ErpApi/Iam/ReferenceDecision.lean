import ErpApi.Iam.PermissionResolver

set_option autoImplicit false

/-! # The reference decision

What it means that a user may do something, stated on the rows of the database and without
the resolver's lists: some allow statement that carries the permission, of an active and
in-date policy reachable through the user's roles, has all its conditions satisfied, and no
such deny statement has. `mem_statementsFor` connects it to the resolver: the list
`statementsFor` holds one resolved statement per applicable row, and nothing else.
-/

namespace ErpApi.Iam

/-- The policy is attached to one of the user's roles. -/
def Reaches (db : Db) (userId : String) (policy : Policy) : Prop :=
  ∃ user ∈ db.users.rows, user.live = true ∧ user.id = userId ∧
    ∃ role ∈ db.roles.rows, role.live = true ∧ (userId, role.id) ∈ db.usersRoles ∧
      (role.id, policy.id) ∈ db.rolesPolicies

/-- The policy is in force on `today`: no bound excludes the day. -/
def InDate (today : String) (policy : Policy) : Prop :=
  (∀ d, policy.valid_from = some d → Js.lt today d = false) ∧
  (∀ d, policy.valid_until = some d → Js.lt d today = false)

/-- The statement belongs to an active, in-date policy the user reaches. -/
def Applies (db : Db) (today userId : String) (statement : PolicyStatement) : Prop :=
  statement ∈ db.policyStatements.rows ∧ statement.live = true ∧
    ∃ policy ∈ db.policies.rows, policy.live = true ∧ policy.id = statement.policy_id ∧
      policy.is_active = true ∧ InDate today policy ∧ Reaches db userId policy

/-- One of the statement's actions names a catalog row with this permission string. -/
def Carries (db : Db) (statement : PolicyStatement) (permission : String) : Prop :=
  ∃ action ∈ db.statementActions.rows, action.live = true ∧ action.statement_id = statement.id ∧
    ∃ p ∈ db.permissions.rows, p.live = true ∧ p.id = action.permission_id ∧
      p.permission = permission

/-- The condition rows of a statement. -/
def conditionsOf (db : Db) (statement : PolicyStatement) : List StatementCondition :=
  find (·.toBaseEntity) db.statementConditions.rows (·.statement_id == statement.id)

/-- Every condition holds; one that cannot be evaluated does not. -/
def Satisfied (rt : JsRuntime) (userId : String) (context : EvaluationContext)
    (conditions : List StatementCondition) : Prop :=
  ∀ c ∈ conditions, evaluateCondition rt c userId context = .ok true

/-- **The reference decision**: allowed by some applicable statement, denied by none. -/
def ReferenceDecision (rt : JsRuntime) (db : Db) (today userId permission : String)
    (context : EvaluationContext) : Prop :=
  (∃ st, Applies db today userId st ∧ st.effect = .allow ∧ Carries db st permission ∧
    Satisfied rt userId context (conditionsOf db st)) ∧
  ¬ ∃ st, Applies db today userId st ∧ st.effect = .deny ∧ Carries db st permission ∧
    Satisfied rt userId context (conditionsOf db st)

/-! ## The resolver's lists, row by row -/

theorem isPolicyValidNow_iff {today : String} {policy : Policy} :
    isPolicyValidNow today policy = true ↔ InDate today policy := by
  unfold isPolicyValidNow InDate
  cases policy.valid_from <;> cases policy.valid_until <;> simp

theorem mem_roleIdsOf {db : Db} {userId roleId : String} :
    roleId ∈ roleIdsOf db userId ↔
      (∃ user ∈ db.users.rows, user.live = true ∧ user.id = userId) ∧
      ∃ role ∈ db.roles.rows, role.live = true ∧ role.id = roleId ∧
        (userId, roleId) ∈ db.usersRoles := by
  unfold roleIdsOf
  cases hu : (find (·.toBaseEntity) db.users.rows (·.id == userId)).head? with
  | none =>
      have hnil : find (·.toBaseEntity) db.users.rows (·.id == userId) = [] := by
        simpa using hu
      simp only [List.not_mem_nil, false_iff, not_and]
      rintro ⟨user, hmem, hlive, hid⟩
      have : user ∈ find (·.toBaseEntity) db.users.rows (·.id == userId) :=
        mem_find.mpr ⟨hmem, hlive, by simpa using hid⟩
      rw [hnil] at this
      cases this
  | some user =>
      have hmem := mem_find.mp (List.mem_of_mem_head? hu)
      obtain ⟨hrow, hlive, hid⟩ := hmem
      have hid : user.id = userId := by simpa using hid
      simp only [hid, List.mem_eraseDups, List.mem_map, Db.mem_rolesOf]
      constructor
      · rintro ⟨role, ⟨hr, hl, hj⟩, rfl⟩
        exact ⟨⟨user, hrow, hlive, hid⟩, role, hr, hl, rfl, hj⟩
      · rintro ⟨-, role, hr, hl, rfl, hj⟩
        exact ⟨role, ⟨hr, hl, hj⟩, rfl⟩

/-- The active policies the resolver works with are those the user reaches. -/
theorem mem_activePolicies {db : Db} {today userId : String} {policy : Policy} :
    policy ∈ activePolicies db today
        (policyIdsOf db (rolesWithIds db (roleIdsOf db userId))) ↔
      policy ∈ db.policies.rows ∧ policy.live = true ∧ policy.is_active = true ∧
        InDate today policy ∧ Reaches db userId policy := by
  simp only [activePolicies, List.mem_filter, mem_find, isPolicyValidNow_iff,
    Bool.and_eq_true, List.contains_iff_mem]
  constructor
  · rintro ⟨⟨hrow, hlive, hids, hactive⟩, hdate⟩
    refine ⟨hrow, hlive, hactive, hdate, ?_⟩
    simp only [policyIdsOf, List.mem_eraseDups, List.mem_flatMap, List.mem_map,
      rolesWithIds, mem_find, List.contains_iff_mem, mem_roleIdsOf, Db.mem_policiesOf] at hids
    obtain ⟨role, ⟨hr, hl, ⟨user, hu, hul, huid⟩, -, -, -, -, hj⟩, p, ⟨-, -, hp⟩, hpid⟩ := hids
    exact ⟨user, hu, hul, huid, role, hr, hl, hj, hpid ▸ hp⟩
  · rintro ⟨hrow, hlive, hactive, hdate, user, hu, hul, huid, role, hr, hl, hj, hp⟩
    refine ⟨⟨hrow, hlive, ?_, hactive⟩, hdate⟩
    simp only [policyIdsOf, List.mem_eraseDups, List.mem_flatMap, List.mem_map,
      rolesWithIds, mem_find, List.contains_iff_mem, mem_roleIdsOf, Db.mem_policiesOf]
    exact ⟨role, ⟨hr, hl, ⟨user, hu, hul, huid⟩, role, hr, hl, rfl, hj⟩,
      policy, ⟨hrow, hlive, hp⟩, rfl⟩

/-- What the resolver's object for a statement row says about the row. -/
structure Represents (db : Db) (st : PolicyStatement) (s : ResolvedStatement) : Prop where
  effect : s.effect = st.effect
  permissions : ∀ permission, permission ∈ s.permissions ↔ Carries db st permission
  conditions : s.conditions = conditionsOf db st
  hasConditions : s.hasConditions = !(conditionsOf db st).isEmpty

/-- On a table the map of permission rows returns the row's own permission. -/
theorem permissionById_eq_some {rows : List Permission} (hpk : (rows.map (·.id)).Nodup)
    {id permission : String} :
    permissionById rows id = some permission ↔
      ∃ p ∈ rows, p.id = id ∧ p.permission = permission := by
  unfold permissionById
  rw [Option.map_eq_some_iff]
  constructor
  · rintro ⟨p, hp, rfl⟩
    have hmem := List.mem_of_find?_eq_some hp
    have hid := List.find?_some hp
    exact ⟨p, by simpa using hmem, by simpa using hid, rfl⟩
  · rintro ⟨p, hp, hid, rfl⟩
    obtain ⟨q, hq⟩ : ∃ q, rows.reverse.find? (fun p => p.id == id) = some q := by
      rw [← Option.isSome_iff_exists, List.find?_isSome]
      exact ⟨p, by simpa using hp, by simpa using hid⟩
    have hqmem : q ∈ rows := by simpa using List.mem_of_find?_eq_some hq
    have hqid : q.id = id := by simpa using List.find?_some hq
    have : q = p := List.inj_on_of_nodup_map hpk hqmem hp (hqid.trans hid.symm)
    exact ⟨q, hq, by rw [this]⟩

theorem resolveStatement_represents (db : Db) (targets : List StatementTarget)
    {statementIds : List String} {st : PolicyStatement} (hst : st.id ∈ statementIds) :
    let actions := find (·.toBaseEntity) db.statementActions.rows fun a =>
      statementIds.contains a.statement_id
    let permissionIds := (actions.map (·.permission_id)).eraseDups
    Represents db st (resolveStatement targets actions
      (find (·.toBaseEntity) db.statementConditions.rows fun c =>
        statementIds.contains c.statement_id)
      (if permissionIds.length > 0 then
        find (·.toBaseEntity) db.permissions.rows fun p => permissionIds.contains p.id
      else []) st) := by
  intro actions permissionIds
  have hcond : (find (·.toBaseEntity) db.statementConditions.rows fun c =>
      statementIds.contains c.statement_id).filter (·.statement_id == st.id) =
      conditionsOf db st := by
    simp only [conditionsOf, find, List.filter_filter]
    apply List.filter_congr
    intro c _
    by_cases hc : c.statement_id = st.id
    · simp [hc, hst]
    · have hne : (c.statement_id == st.id) = false := by simpa using hc
      simp [hne]
  refine ⟨rfl, fun permission => ?_, hcond, ?_⟩
  · simp only [resolveStatement, List.mem_filterMap, List.mem_filter, beq_iff_eq]
    constructor
    · rintro ⟨a, ⟨ha, hid⟩, hp⟩
      obtain ⟨harow, halive, -⟩ := mem_find.mp ha
      split at hp
      · rw [permissionById_eq_some (nodup_map_find _ db.permissions.pk _)] at hp
        obtain ⟨p, hpm, hpid, rfl⟩ := hp
        obtain ⟨hprow, hplive, -⟩ := mem_find.mp hpm
        exact ⟨a, harow, halive, hid, p, hprow, hplive, hpid, rfl⟩
      · simp [permissionById] at hp
    · rintro ⟨a, harow, halive, hid, p, hprow, hplive, hpid, rfl⟩
      have ha : a ∈ actions := mem_find.mpr ⟨harow, halive, by simpa [hid] using hst⟩
      have hpmem : a.permission_id ∈ permissionIds :=
        List.mem_eraseDups.mpr (List.mem_map_of_mem ha)
      refine ⟨a, ⟨ha, hid⟩, ?_⟩
      rw [if_pos (List.length_pos_of_mem hpmem),
        permissionById_eq_some (nodup_map_find _ db.permissions.pk _)]
      exact ⟨p, mem_find.mpr ⟨hprow, hplive, by simpa [hpid] using hpmem⟩, hpid, rfl⟩
  · simp only [resolveStatement, ← hcond]
    rw [Bool.eq_iff_iff]
    simp only [List.any_eq_true, Bool.not_eq_true', List.isEmpty_eq_false_iff, ne_eq,
      List.filter_eq_nil_iff, not_forall, Decidable.not_not, exists_prop]

/-- Without a filter the resolver returns one object per live statement row of the given
policies, in table order, and the object represents the row. -/
theorem resolveStatements_eq_map (db : Db) (policyIds : List String) :
    ∃ f : PolicyStatement → ResolvedStatement,
      resolveStatements db policyIds none =
        (find (·.toBaseEntity) db.policyStatements.rows fun s =>
          policyIds.contains s.policy_id).map f ∧
      ∀ st ∈ find (·.toBaseEntity) db.policyStatements.rows (fun s =>
        policyIds.contains s.policy_id), Represents db st (f st) := by
  set statements := find (·.toBaseEntity) db.policyStatements.rows fun s =>
    policyIds.contains s.policy_id with hstatements
  set statementIds := statements.map (·.id) with hids
  have hrep : ∀ st ∈ statements, st.id ∈ statementIds := by
    intro st hst
    exact List.mem_map.mpr ⟨st, hst, rfl⟩
  refine ⟨_, ?_, fun st hst => resolveStatement_represents db
    (find (·.toBaseEntity) db.statementTargets.rows fun t =>
      statementIds.contains t.statement_id) (hrep st hst)⟩
  unfold resolveStatements
  by_cases hp : policyIds.length = 0
  · have hnil : statements = [] := by
      rw [hstatements, List.length_eq_zero_iff.mp hp]
      simp [find]
    simp [hp, hnil]
  · by_cases hs : statements.length = 0
    · simp only [if_neg hp, ← hstatements, if_pos hs]
      rw [List.length_eq_zero_iff.mp hs]
      rfl
    · simp only [if_neg hp, ← hstatements, if_neg hs, List.filter_true, ← hids]

/-- Every object of the list stands for an applicable row. -/
theorem exists_applies_of_mem_statementsFor {db : Db} {today userId : String}
    {s : ResolvedStatement} (hs : s ∈ statementsFor db today userId none) :
    ∃ st, Applies db today userId st ∧ Represents db st s := by
  obtain ⟨f, hf, hrep⟩ := resolveStatements_eq_map db ((activePolicies db today
    (policyIdsOf db (rolesWithIds db (roleIdsOf db userId)))).map (·.id))
  rw [statementsFor, hf] at hs
  obtain ⟨st, hst, rfl⟩ := List.mem_map.mp hs
  refine ⟨st, ?_, hrep st hst⟩
  obtain ⟨hrow, hlive, hpid⟩ := mem_find.mp hst
  obtain ⟨policy, hpolicy, hid⟩ := List.mem_map.mp (List.contains_iff_mem.mp hpid)
  obtain ⟨hprow, hplive, hactive, hdate, hreach⟩ := mem_activePolicies.mp hpolicy
  exact ⟨hrow, hlive, policy, hprow, hplive, hid, hactive, hdate, hreach⟩

/-- Every applicable row has its object in the list. -/
theorem exists_mem_statementsFor_of_applies {db : Db} {today userId : String}
    {st : PolicyStatement} (hst : Applies db today userId st) :
    ∃ s ∈ statementsFor db today userId none, Represents db st s := by
  obtain ⟨hrow, hlive, policy, hprow, hplive, hid, hactive, hdate, hreach⟩ := hst
  obtain ⟨f, hf, hrep⟩ := resolveStatements_eq_map db ((activePolicies db today
    (policyIdsOf db (rolesWithIds db (roleIdsOf db userId)))).map (·.id))
  have hpolicy : policy ∈ activePolicies db today
      (policyIdsOf db (rolesWithIds db (roleIdsOf db userId))) :=
    mem_activePolicies.mpr ⟨hprow, hplive, hactive, hdate, hreach⟩
  have hmem : st ∈ find (·.toBaseEntity) db.policyStatements.rows fun s =>
      ((activePolicies db today (policyIdsOf db (rolesWithIds db (roleIdsOf db userId)))).map
        (·.id)).contains s.policy_id := by
    refine mem_find.mpr ⟨hrow, hlive, List.contains_iff_mem.mpr ?_⟩
    exact List.mem_map.mpr ⟨policy, hpolicy, hid⟩
  exact ⟨f st, by rw [statementsFor, hf]; exact List.mem_map_of_mem hmem, hrep st hmem⟩

end ErpApi.Iam
