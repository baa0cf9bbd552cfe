import ErpApi.AccessKeys.AccessKeyGuard
import ErpApi.AccessKeys.CachedRecord
import ErpApi.Iam.EvaluationContext
import Mathlib.Data.Fintype.EquivFin

set_option autoImplicit false

/-! # The permissions of an access key

A request that an access key authenticates carries the permissions of the key's own policies:
`resolveForPolicyIds` splits them into those granted at once and those that depend on conditions.
`PermissionGuard` sends the second kind to iam under the id of the key's owner, and iam evaluates
the owner's roles. The decision then has nothing to do with the key.

`OwnDecision` is what the key's policies say. `own_policies_decide_iff` says for which requests
the guard follows them: those for which no statement with conditions carries the permission.
-/

namespace ErpApi.AccessKeys

open Iam

/-- The ids of the policies attached to the key of a record. -/
def attachedIds (s : Store) (record : CachedAccessKeyRecord) : List String :=
  match s.findById record.id with
  | none => []
  | some key => s.policyIdsOf key.id

/-- What the guard learns from a valid signature; nothing if the key is gone. -/
def authenticated (env : Env) (s : Store) (record : CachedAccessKeyRecord) :
    Option AccessKeyContext :=
  match verified env s record with
  | .verified response => if response.valid then response.context else none
  | _ => none

/-- The decision of `PermissionGuard` on a request that the key has authenticated, on a route
that requires `required`. -/
def decision (rt : JsRuntime) (env : Env) (s : Store) (record : CachedAccessKeyRecord)
    (required : String) (context : EvaluationContext) : Option (Except GuardError Bool) :=
  (authenticated env s record).map fun keyContext =>
    Iam.canActivate (evaluateConditions rt env.db env.today)
      { requirePermission := some required
        user_session := some (requestUser keyContext).user_session
        conditional_permissions := some (requestUser keyContext).conditional_permissions
        context := context }

/-! ## What the key's policies say -/

section Own

variable (rt : JsRuntime) (env : Env) (s : Store) (record : CachedAccessKeyRecord)

/-- The statement belongs to an active, in-date policy attached to the key. -/
def KeyApplies (statement : PolicyStatement) : Prop :=
  statement ∈ env.db.policyStatements.rows ∧ statement.live = true ∧
    ∃ policy ∈ env.db.policies.rows, policy.live = true ∧ policy.id = statement.policy_id ∧
      policy.is_active = true ∧ InDate env.today policy ∧ policy.id ∈ attachedIds s record

/-- The decision of the key's own policies. -/
def OwnDecision (required : String) (context : EvaluationContext) : Prop :=
  (∃ st, KeyApplies env s record st ∧ st.effect = .allow ∧ Carries env.db st required ∧
    Satisfied rt record.owner_id context (conditionsOf env.db st)) ∧
  ¬ ∃ st, KeyApplies env s record st ∧ st.effect = .deny ∧ Carries env.db st required ∧
    Satisfied rt record.owner_id context (conditionsOf env.db st)

/-- A statement with conditions of the key's policies carries the permission. -/
def Conditional (required : String) : Prop :=
  ∃ st, KeyApplies env s record st ∧ conditionsOf env.db st ≠ [] ∧ Carries env.db st required

/-- The permission is granted at once: allowed and not denied without conditions, and carried by
no statement with conditions. -/
def Unconditional (required : String) : Prop :=
  (∃ st, KeyApplies env s record st ∧ conditionsOf env.db st = [] ∧ st.effect = .allow ∧
    Carries env.db st required) ∧
  (¬ ∃ st, KeyApplies env s record st ∧ conditionsOf env.db st = [] ∧ st.effect = .deny ∧
    Carries env.db st required) ∧
  ¬ Conditional env s record required

end Own

/-! ## The lists of the session -/

section Lists

variable {env : Env} {s : Store} {record : CachedAccessKeyRecord}

/-- The list of statements behind both lists of the session. -/
def keyStatements (env : Env) (s : Store) (record : CachedAccessKeyRecord) :
    List ResolvedStatement :=
  resolveStatements env.db ((activePolicies env.db env.today
    ((find (·.toBaseEntity) env.db.policies.rows fun p =>
      (attachedIds s record).contains p.id).map (·.id))).map (·.id)) none

theorem resolveForPolicyIds_eq (env : Env) (policyIds : List String) :
    resolveForPolicyIds env policyIds = computeAllowDenyConditional
      (resolveStatements env.db ((activePolicies env.db env.today policyIds).map (·.id)) none) := by
  unfold resolveForPolicyIds
  simp only [List.length_eq_zero_iff]
  split
  · rename_i h
    subst h
    simp [activePolicies, find, resolveStatements]
    rfl
  · split
    · rename_i h
      rw [h]
      rfl
    · rfl

theorem authenticated_eq_none (h : s.findById record.id = none) :
    authenticated env s record = none := by
  simp [authenticated, verified, h, notFound]

theorem authenticated_eq_some {key : AccessKey} (h : s.findById record.id = some key) :
    authenticated env s record = some
      { id := record.id
        access_key_id := record.access_key_id
        name := record.name
        owner_id := record.owner_id
        owner_type := record.owner_type
        permissions := (computeAllowDenyConditional (keyStatements env s record)).1
        conditional_permissions :=
          (computeAllowDenyConditional (keyStatements env s record)).2 } := by
  simp [authenticated, verified, h, resolveForPolicyIds_eq, keyStatements, attachedIds]

theorem mem_keyPolicies {policy : Policy} :
    policy ∈ activePolicies env.db env.today
        ((find (·.toBaseEntity) env.db.policies.rows fun p =>
          (attachedIds s record).contains p.id).map (·.id)) ↔
      policy ∈ env.db.policies.rows ∧ policy.live = true ∧ policy.is_active = true ∧
        InDate env.today policy ∧ policy.id ∈ attachedIds s record := by
  simp only [activePolicies, List.mem_filter, mem_find, isPolicyValidNow_iff,
    Bool.and_eq_true, List.contains_iff_mem, List.mem_map]
  constructor
  · rintro ⟨⟨hrow, hlive, ⟨p, ⟨-, -, hp⟩, hid⟩, hactive⟩, hdate⟩
    exact ⟨hrow, hlive, hactive, hdate, hid ▸ hp⟩
  · rintro ⟨hrow, hlive, hactive, hdate, hid⟩
    exact ⟨⟨hrow, hlive, ⟨policy, ⟨hrow, hlive, hid⟩, rfl⟩, hactive⟩, hdate⟩

/-- A statement row applies when its policy is among those the list was resolved for. -/
theorem keyApplies_iff {st : PolicyStatement} : KeyApplies env s record st ↔
    st ∈ find (·.toBaseEntity) env.db.policyStatements.rows fun st =>
      ((activePolicies env.db env.today
        ((find (·.toBaseEntity) env.db.policies.rows fun p =>
          (attachedIds s record).contains p.id).map (·.id))).map (·.id)).contains
        st.policy_id := by
  simp only [mem_find, List.contains_iff_mem, List.mem_map,
    mem_keyPolicies]
  constructor
  · rintro ⟨hrow, hlive, policy, hp, hpl, hid, hactive, hdate, hattached⟩
    exact ⟨hrow, hlive, policy, ⟨hp, hpl, hactive, hdate, hattached⟩, hid⟩
  · rintro ⟨hrow, hlive, policy, ⟨hp, hpl, hactive, hdate, hattached⟩, hid⟩
    exact ⟨hrow, hlive, policy, hp, hpl, hid, hactive, hdate, hattached⟩

/-- What some object of the list satisfies, some applicable row satisfies. -/
theorem exists_keyStatements_iff {Q : ResolvedStatement → Prop} {R : PolicyStatement → Prop}
    (h : ∀ st r, Represents env.db st r → (Q r ↔ R st)) :
    (∃ r ∈ keyStatements env s record, Q r) ↔ ∃ st, KeyApplies env s record st ∧ R st := by
  simp only [keyApplies_iff]
  obtain ⟨f, hf, hrep⟩ := resolveStatements_eq_map env.db ((activePolicies env.db env.today
    ((find (·.toBaseEntity) env.db.policies.rows fun p =>
      (attachedIds s record).contains p.id).map (·.id))).map (·.id))
  rw [keyStatements, hf]
  constructor
  · rintro ⟨r, hr, hq⟩
    obtain ⟨st, hst, rfl⟩ := List.mem_map.mp hr
    exact ⟨st, hst, (h st (f st) (hrep st hst)).mp hq⟩
  · rintro ⟨st, hst, hst'⟩
    exact ⟨f st, List.mem_map_of_mem hst, (h st (f st) (hrep st hst)).mpr hst'⟩

theorem hasConditions_iff {db : Db} {st : PolicyStatement} {r : ResolvedStatement}
    (h : Represents db st r) : r.hasConditions = true ↔ conditionsOf db st ≠ [] := by
  simp [h.hasConditions]

theorem hasConditions_eq_false_iff {db : Db} {st : PolicyStatement} {r : ResolvedStatement}
    (h : Represents db st r) : r.hasConditions = false ↔ conditionsOf db st = [] := by
  simp [h.hasConditions]

theorem mem_conditional {required : String} :
    required ∈ (computeAllowDenyConditional (keyStatements env s record)).2 ↔
      Conditional env s record required := by
  rw [mem_computeAllowDenyConditional_snd]
  apply exists_keyStatements_iff
  intro st r hrep
  rw [hasConditions_iff hrep, hrep.permissions]

theorem mem_unconditional {required : String} :
    required ∈ (computeAllowDenyConditional (keyStatements env s record)).1 ↔
      Unconditional env s record required := by
  have heffect : ∀ effect,
      (∃ r ∈ keyStatements env s record, r.hasConditions = false ∧ r.effect = effect ∧
        required ∈ r.permissions) ↔
      ∃ st, KeyApplies env s record st ∧ conditionsOf env.db st = [] ∧ st.effect = effect ∧
        Carries env.db st required := by
    intro effect
    apply exists_keyStatements_iff
    intro st r hrep
    rw [hasConditions_eq_false_iff hrep, hrep.effect, hrep.permissions]
  rw [mem_computeAllowDenyConditional_fst, heffect, heffect,
    ← mem_computeAllowDenyConditional_snd, mem_conditional]
  rfl

end Lists

/-! ## The decision, case by case -/

section Decision

variable {rt : JsRuntime} {env : Env} {s : Store} {record : CachedAccessKeyRecord}
variable {required : String} {context : EvaluationContext} {key : AccessKey}

theorem decision_eq_none (h : s.findById record.id = none) :
    decision rt env s record required context = none := by
  rw [decision, authenticated_eq_none h]
  rfl

/-- Without an owner or a required permission the guard refuses before it looks at the lists. -/
theorem decision_of_blank (hkey : s.findById record.id = some key)
    (h : record.owner_id = "" ∨ required = "") :
    decision rt env s record required context = some (.error (.forbidden (
      if record.owner_id = "" then "Not authenticated." else Iam.canActivate.missingDecorator))) := by
  rw [decision, authenticated_eq_some hkey]
  by_cases howner : record.owner_id = ""
  · simp [Iam.canActivate, requestUser, howner]
  · have hrequired : required = "" := h.resolve_left howner
    simp [Iam.canActivate, requestUser, howner, hrequired]

/-- The permission that the guard asks iam about. -/
def askedFor (required : String) : String :=
  (Js.split ':' required).headD "" ++ ":" ++ ((Js.split ':' required)[1]?).getD "undefined"

/-- The decision that follows iam's answer. -/
def answered (required : String) : Except RegExpError Bool → Except GuardError Bool
  | .error _ => .error .internalServerError
  | .ok true => .ok true
  | .ok false => .error (.forbidden ("Missing required permission: " ++ required))

theorem decision_eq (hkey : s.findById record.id = some key) (howner : record.owner_id ≠ "")
    (hrequired : required ≠ "") : decision rt env s record required context = some (
      if required ∈ (computeAllowDenyConditional (keyStatements env s record)).1 then .ok true
      else if required ∈ (computeAllowDenyConditional (keyStatements env s record)).2 then
        answered required
          (evaluate rt env.db env.today record.owner_id "*" (askedFor required) context)
      else .error (.forbidden ("Missing required permission: " ++ required))) := by
  rw [decision, authenticated_eq_some hkey]
  simp only [Option.map_some, Iam.canActivate, requestUser, howner, hrequired, if_false,
    Bool.not_true, Bool.false_eq_true, Option.getD_some, List.contains_iff_mem,
    evaluateConditions, askedFor]
  rfl

theorem decision_of_unconditional (hkey : s.findById record.id = some key)
    (howner : record.owner_id ≠ "") (hrequired : required ≠ "")
    (h : Unconditional env s record required) :
    decision rt env s record required context = some (.ok true) := by
  rw [decision_eq hkey howner hrequired, if_pos (mem_unconditional.mpr h)]

theorem decision_of_not_carried (hkey : s.findById record.id = some key)
    (howner : record.owner_id ≠ "") (hrequired : required ≠ "")
    (hu : ¬ Unconditional env s record required) (hc : ¬ Conditional env s record required) :
    decision rt env s record required context =
      some (.error (.forbidden ("Missing required permission: " ++ required))) := by
  rw [decision_eq hkey howner hrequired, if_neg (mem_unconditional.not.mpr hu),
    if_neg (mem_conditional.not.mpr hc)]

/-- A conditional permission is decided by the roles of the owner. -/
theorem decision_of_conditional (hkey : s.findById record.id = some key)
    (howner : record.owner_id ≠ "") (hrequired : required ≠ "")
    (hc : Conditional env s record required) {answer : Bool}
    (heval : evaluate rt env.db env.today record.owner_id "*" (askedFor required) context =
      .ok answer) :
    decision rt env s record required context = some (
      if answer then .ok true
      else .error (.forbidden ("Missing required permission: " ++ required))) := by
  have hu : ¬ Unconditional env s record required := fun h => h.2.2 hc
  rw [decision_eq hkey howner hrequired, if_neg (mem_unconditional.not.mpr hu),
    if_pos (mem_conditional.mpr hc), heval]
  cases answer <;> rfl

/-- What is granted at once, the key's policies grant. -/
theorem ownDecision_of_unconditional (h : Unconditional env s record required) :
    OwnDecision rt env s record required context := by
  obtain ⟨⟨st, happ, hnone, heff, hcar⟩, hdeny, hcond⟩ := h
  constructor
  · refine ⟨st, happ, heff, hcar, ?_⟩
    intro c hc
    rw [hnone] at hc
    cases hc
  · rintro ⟨d, hd, hdeff, hdcar, -⟩
    by_cases hdc : conditionsOf env.db d = []
    · exact hdeny ⟨d, hd, hdc, hdeff, hdcar⟩
    · exact hcond ⟨d, hd, hdc, hdcar⟩

end Decision

/-! ## States that agree on a key -/

/-- Two states that agree on the key and on its policies: their rows, the rows of their
statements, and the permissions that the statements name. -/
structure AgreeOnKey (record : CachedAccessKeyRecord) (db db' : Db) (s s' : Store) : Prop where
  key : s'.findById record.id = s.findById record.id
  attached : attachedIds s' record = attachedIds s record
  policies : ∀ policy : Policy, policy.id ∈ attachedIds s record →
    (policy ∈ db'.policies.rows ↔ policy ∈ db.policies.rows)
  statements : ∀ st : PolicyStatement, st.policy_id ∈ attachedIds s record →
    (st ∈ db'.policyStatements.rows ↔ st ∈ db.policyStatements.rows)
  targets : ∀ st ∈ db.policyStatements.rows, st.policy_id ∈ attachedIds s record →
    ∀ target : StatementTarget, target.statement_id = st.id →
      (target ∈ db'.statementTargets.rows ↔ target ∈ db.statementTargets.rows)
  actions : ∀ st ∈ db.policyStatements.rows, st.policy_id ∈ attachedIds s record →
    ∀ action : StatementAction, action.statement_id = st.id →
      (action ∈ db'.statementActions.rows ↔ action ∈ db.statementActions.rows)
  conditions : ∀ st ∈ db.policyStatements.rows, st.policy_id ∈ attachedIds s record →
    ∀ condition : StatementCondition, condition.statement_id = st.id →
      (condition ∈ db'.statementConditions.rows ↔ condition ∈ db.statementConditions.rows)
  permissions : ∀ st ∈ db.policyStatements.rows, st.policy_id ∈ attachedIds s record →
    ∀ action ∈ db.statementActions.rows, action.statement_id = st.id →
    ∀ permission : Permission, permission.id = action.permission_id →
      (permission ∈ db'.permissions.rows ↔ permission ∈ db.permissions.rows)

section Agree

variable {env : Env} {s s' : Store} {record : CachedAccessKeyRecord} {db' : Db}

theorem AgreeOnKey.keyApplies (h : AgreeOnKey record env.db db' s s') {st : PolicyStatement} :
    KeyApplies { env with db := db' } s' record st ↔ KeyApplies env s record st := by
  unfold KeyApplies
  rw [h.attached]
  constructor
  · rintro ⟨hrow, hlive, policy, hp, hpl, hid, hactive, hdate, hatt⟩
    exact ⟨(h.statements st (hid ▸ hatt)).mp hrow, hlive, policy, (h.policies policy hatt).mp hp,
      hpl, hid, hactive, hdate, hatt⟩
  · rintro ⟨hrow, hlive, policy, hp, hpl, hid, hactive, hdate, hatt⟩
    exact ⟨(h.statements st (hid ▸ hatt)).mpr hrow, hlive, policy,
      (h.policies policy hatt).mpr hp, hpl, hid, hactive, hdate, hatt⟩

theorem KeyApplies.attached {st : PolicyStatement} (h : KeyApplies env s record st) :
    st ∈ env.db.policyStatements.rows ∧ st.policy_id ∈ attachedIds s record := by
  obtain ⟨hrow, -, policy, -, -, hid, -, -, hatt⟩ := h
  exact ⟨hrow, hid ▸ hatt⟩

theorem AgreeOnKey.carries (h : AgreeOnKey record env.db db' s s') {st : PolicyStatement}
    (hst : KeyApplies env s record st) {required : String} :
    Carries db' st required ↔ Carries env.db st required := by
  obtain ⟨hrow, hatt⟩ := hst.attached
  constructor
  · rintro ⟨a, ha, hal, hid, p, hp, hpl, hpid, hperm⟩
    have ha' := (h.actions st hrow hatt a hid).mp ha
    exact ⟨a, ha', hal, hid, p, (h.permissions st hrow hatt a ha' hid p hpid).mp hp, hpl, hpid,
      hperm⟩
  · rintro ⟨a, ha, hal, hid, p, hp, hpl, hpid, hperm⟩
    exact ⟨a, (h.actions st hrow hatt a hid).mpr ha, hal, hid, p,
      (h.permissions st hrow hatt a ha hid p hpid).mpr hp, hpl, hpid, hperm⟩

theorem AgreeOnKey.conditionsOf_eq_nil (h : AgreeOnKey record env.db db' s s')
    {st : PolicyStatement} (hst : KeyApplies env s record st) :
    conditionsOf db' st = [] ↔ conditionsOf env.db st = [] := by
  obtain ⟨hrow, hatt⟩ := hst.attached
  simp only [List.eq_nil_iff_forall_not_mem, conditionsOf, mem_find, beq_iff_eq]
  constructor
  · rintro hno c ⟨hc, hl, hid⟩
    exact hno c ⟨(h.conditions st hrow hatt c hid).mpr hc, hl, hid⟩
  · rintro hno c ⟨hc, hl, hid⟩
    exact hno c ⟨(h.conditions st hrow hatt c hid).mp hc, hl, hid⟩

theorem AgreeOnKey.conditional (h : AgreeOnKey record env.db db' s s') {required : String} :
    Conditional { env with db := db' } s' record required ↔
      Conditional env s record required := by
  unfold Conditional
  simp only [h.keyApplies]
  refine exists_congr fun st => and_congr_right fun hst => ?_
  rw [h.carries hst, Ne, h.conditionsOf_eq_nil hst]

theorem AgreeOnKey.unconditional (h : AgreeOnKey record env.db db' s s') {required : String} :
    Unconditional { env with db := db' } s' record required ↔
      Unconditional env s record required := by
  have heffect : ∀ effect,
      (∃ st, KeyApplies env s record st ∧ conditionsOf db' st = [] ∧ st.effect = effect ∧
        Carries db' st required) ↔
      ∃ st, KeyApplies env s record st ∧ conditionsOf env.db st = [] ∧ st.effect = effect ∧
        Carries env.db st required := by
    intro effect
    refine exists_congr fun st => and_congr_right fun hst => ?_
    rw [h.carries hst, h.conditionsOf_eq_nil hst]
  unfold Unconditional
  rw [h.conditional]
  simp only [h.keyApplies]
  rw [heffect, heffect]

end Agree

/-! ## Changing the owner's roles -/

section Owner

variable (db : Db) (fresh ownerId permission : String)

/-- The owner has one role, whose one policy allows `permission`; the rest stays. -/
def grantingDb : Db :=
  { db with
    users := ⟨[{ id := ownerId }], by simp⟩
    roles := ⟨[{ id := fresh, code := fresh }], by simp⟩
    usersRoles := [(ownerId, fresh)]
    rolesPolicies := [(fresh, fresh)]
    policies := (db.policies.insert (policy fresh)).getD db.policies
    policyStatements := (db.policyStatements.insert (statement fresh)).getD db.policyStatements
    statementActions := (db.statementActions.insert (action fresh)).getD db.statementActions
    permissions := (db.permissions.insert (catalogRow fresh permission)).getD db.permissions }
where
  policy (fresh : String) : Policy :=
    { id := fresh, code := fresh, is_active := true, valid_from := none, valid_until := none }
  statement (fresh : String) : PolicyStatement :=
    { id := fresh, policy_id := fresh, effect := .allow, plane := .api }
  action (fresh : String) : StatementAction :=
    { id := fresh, statement_id := fresh, permission_id := fresh }
  catalogRow (fresh permission : String) : Permission :=
    { id := fresh, service := "*", permission := permission }

/-- No row of the database and no key refers to the id. -/
structure Fresh (ids : List String) : Prop where
  policies : fresh ∉ db.policies.rows.map (·.id)
  statements : fresh ∉ db.policyStatements.rows.map (·.id)
  statementPolicies : fresh ∉ db.policyStatements.rows.map (·.policy_id)
  actions : fresh ∉ db.statementActions.rows.map (·.id)
  actionStatements : fresh ∉ db.statementActions.rows.map (·.statement_id)
  actionPermissions : fresh ∉ db.statementActions.rows.map (·.permission_id)
  conditionStatements : fresh ∉ db.statementConditions.rows.map (·.statement_id)
  permissions : fresh ∉ db.permissions.rows.map (·.id)
  attached : fresh ∉ ids

theorem exists_fresh (ids : List String) : ∃ fresh, Fresh db fresh ids := by
  obtain ⟨fresh, h⟩ := Infinite.exists_notMem_finset
    (db.policies.rows.map (·.id) ++ db.policyStatements.rows.map (·.id) ++
      db.policyStatements.rows.map (·.policy_id) ++ db.statementActions.rows.map (·.id) ++
      db.statementActions.rows.map (·.statement_id) ++
      db.statementActions.rows.map (·.permission_id) ++
      db.statementConditions.rows.map (·.statement_id) ++ db.permissions.rows.map (·.id) ++
      ids).toFinset
  simp only [List.mem_toFinset, List.mem_append, not_or] at h
  obtain ⟨⟨⟨⟨⟨⟨⟨⟨h1, h2⟩, h3⟩, h4⟩, h5⟩, h6⟩, h7⟩, h8⟩, h9⟩ := h
  exact ⟨fresh, h1, h2, h3, h4, h5, h6, h7, h8, h9⟩

variable {db fresh} {ids : List String} (h : Fresh db fresh ids)

include h

theorem Fresh.rows_policies : (grantingDb db fresh ownerId permission).policies.rows =
    db.policies.rows ++ [grantingDb.policy fresh] :=
  Table.rows_insert_getD h.policies

theorem Fresh.rows_statements : (grantingDb db fresh ownerId permission).policyStatements.rows =
    db.policyStatements.rows ++ [grantingDb.statement fresh] :=
  Table.rows_insert_getD h.statements

theorem Fresh.rows_actions : (grantingDb db fresh ownerId permission).statementActions.rows =
    db.statementActions.rows ++ [grantingDb.action fresh] :=
  Table.rows_insert_getD h.actions

theorem Fresh.rows_permissions : (grantingDb db fresh ownerId permission).permissions.rows =
    db.permissions.rows ++ [grantingDb.catalogRow fresh permission] :=
  Table.rows_insert_getD h.permissions

/-- The new statement is the only one that applies to the owner. -/
theorem Fresh.applies_iff {today : String} {st : PolicyStatement} :
    Applies (grantingDb db fresh ownerId permission) today ownerId st ↔
      st = grantingDb.statement fresh := by
  unfold Applies
  rw [h.rows_statements, h.rows_policies]
  constructor
  · rintro ⟨hrow, -, policy, -, -, hid, -, -, hreach⟩
    obtain ⟨_, -, -, -, _, -, -, -, hpair⟩ := hreach
    have hpolicy : policy.id = fresh := (Prod.mk.inj (List.mem_singleton.mp hpair)).2
    rcases List.mem_append.mp hrow with hold | hnew
    · exact absurd (List.mem_map.mpr ⟨st, hold, hid.symm.trans hpolicy⟩) h.statementPolicies
    · exact List.mem_singleton.mp hnew
  · rintro rfl
    refine ⟨by simp, rfl, grantingDb.policy fresh, by simp, rfl, rfl, rfl, ?_, ?_⟩
    · exact ⟨by rintro d ⟨⟩, by rintro d ⟨⟩⟩
    · exact ⟨_, List.mem_singleton_self _, rfl, rfl, _, List.mem_singleton_self _, rfl,
        List.mem_singleton_self _, List.mem_singleton_self _⟩

theorem Fresh.conditionsOf_eq_nil :
    conditionsOf (grantingDb db fresh ownerId permission) (grantingDb.statement fresh) = [] := by
  rw [List.eq_nil_iff_forall_not_mem]
  intro c hc
  obtain ⟨hrow, -, hid⟩ := mem_find.mp hc
  have hid : c.statement_id = fresh := beq_iff_eq.mp hid
  exact h.conditionStatements (List.mem_map.mpr ⟨c, hrow, hid⟩)

theorem Fresh.carries :
    Carries (grantingDb db fresh ownerId permission) (grantingDb.statement fresh) permission := by
  refine ⟨grantingDb.action fresh, ?_, rfl, rfl, grantingDb.catalogRow fresh permission, ?_, rfl,
    rfl, rfl⟩
  · rw [h.rows_actions]
    simp
  · rw [h.rows_permissions]
    simp

/-- iam grants the owner the permission, whatever the key's policies say. -/
theorem Fresh.evaluate_eq (rt : JsRuntime) (today service : String)
    (context : EvaluationContext) :
    evaluate rt (grantingDb db fresh ownerId permission) today ownerId service permission
      context = .ok true := by
  have hall : ∀ r ∈ statementsFor (grantingDb db fresh ownerId permission) today ownerId none,
      r.effect = .allow ∧ Satisfied rt ownerId context r.conditions := by
    intro r hr
    obtain ⟨st, happ, hrep⟩ := exists_applies_of_mem_statementsFor hr
    rw [h.applies_iff] at happ
    subst happ
    refine ⟨hrep.effect, ?_⟩
    rw [hrep.conditions, h.conditionsOf_eq_nil]
    intro c hc
    cases hc
  have hnew : Applies (grantingDb db fresh ownerId permission) today ownerId
      (grantingDb.statement fresh) := (h.applies_iff ownerId permission).mpr rfl
  obtain ⟨r, hr, hrep⟩ := exists_mem_statementsFor_of_applies hnew
  have hcarrying : r ∈ carrying (grantingDb db fresh ownerId permission) today ownerId
      permission .allow :=
    mem_carrying.mpr ⟨hr, (hall r hr).1, (hrep.permissions permission).mpr (h.carries ownerId _)⟩
  rw [evaluate_eq_ok_true]
  refine ⟨?_, ?_, ?_⟩
  · intro d hd
    obtain ⟨hmem, heff, -⟩ := mem_carrying.mp hd
    rw [(hall d hmem).1] at heff
    cases heff
  · intro d hd
    exact not_raises_of_satisfied (hall d (mem_carrying.mp hd).1).2
  · obtain ⟨before, rest, hl⟩ := List.append_of_mem hcarrying
    refine ⟨before, r, rest, hl, (hall r hr).2, fun b hb => ?_⟩
    have hb' : b ∈ carrying (grantingDb db fresh ownerId permission) today ownerId
        permission .allow := by
      rw [hl]
      exact List.mem_append_left _ hb
    exact not_raises_of_satisfied (hall b (mem_carrying.mp hb').1).2

/-- The new rows are none of the key's. -/
theorem Fresh.agree {s : Store} {record : CachedAccessKeyRecord}
    (hids : ids = attachedIds s record) :
    AgreeOnKey record db (grantingDb db fresh ownerId permission) s s := by
  subst hids
  have hne : ∀ {ρ : Type} {column : ρ → String} {rows : List ρ} {row : ρ},
      fresh ∉ rows.map column → row ∈ rows → fresh ≠ column row := by
    rintro ρ column rows row hfresh hrow rfl
    exact hfresh (List.mem_map_of_mem hrow)
  refine ⟨rfl, rfl, ?_, ?_, ?_, ?_, ?_, ?_⟩
  · intro policy hatt
    rw [h.rows_policies, List.mem_append, List.mem_singleton]
    refine or_iff_left ?_
    rintro rfl
    exact h.attached hatt
  · intro st hatt
    rw [h.rows_statements, List.mem_append, List.mem_singleton]
    refine or_iff_left ?_
    rintro rfl
    exact h.attached hatt
  · intro st _ _ target _
    exact Iff.rfl
  · intro st hst _ action hid
    rw [h.rows_actions, List.mem_append, List.mem_singleton]
    refine or_iff_left ?_
    rintro rfl
    exact hne h.statements hst hid
  · intro st _ _ condition _
    exact Iff.rfl
  · intro st _ _ action haction _ permission' hid
    rw [h.rows_permissions, List.mem_append, List.mem_singleton]
    refine or_iff_left ?_
    rintro rfl
    exact hne h.actionPermissions haction hid

omit h

/-- The same database without users. -/
def withoutUsers (db : Db) : Db := { db with users := ⟨[], List.nodup_nil⟩ }

theorem withoutUsers_agree {s : Store} {record : CachedAccessKeyRecord} :
    AgreeOnKey record db (withoutUsers db) s s where
  key := rfl
  attached := rfl
  policies _ _ := Iff.rfl
  statements _ _ := Iff.rfl
  targets _ _ _ _ _ := Iff.rfl
  actions _ _ _ _ _ := Iff.rfl
  conditions _ _ _ _ _ := Iff.rfl
  permissions _ _ _ _ _ _ _ _ := Iff.rfl

theorem evaluate_withoutUsers (rt : JsRuntime) (today service : String)
    (context : EvaluationContext) :
    evaluate rt (withoutUsers db) today ownerId service permission context = .ok false := by
  have hroles : roleIdsOf (withoutUsers db) ownerId = [] := rfl
  rw [evaluate, hroles]
  rfl

end Owner

/-! ## When the key's own policies decide -/

section Main

variable (rt : JsRuntime) (env : Env) (s : Store) (record : CachedAccessKeyRecord)
variable (required : String) (context : EvaluationContext)

/-- The guard grants only what the key's policies grant, and its decision is the same in every
state that agrees on the key. -/
def OwnPoliciesDecide : Prop :=
  (decision rt env s record required context = some (.ok true) →
    OwnDecision rt env s record required context) ∧
  ∀ (db' : Db) (s' : Store), AgreeOnKey record env.db db' s s' →
    decision rt { env with db := db' } s' record required context =
      decision rt env s record required context

variable {rt env s record required context}

/-- A conditional permission: with no users the request is refused, and with a role that allows
it to the owner it is granted. -/
theorem not_ownPoliciesDecide (howner : record.owner_id ≠ "") (hrequired : required ≠ "")
    (hc : Conditional env s record required) :
    ¬ OwnPoliciesDecide rt env s record required context := by
  rintro ⟨-, hsame⟩
  cases hkey : s.findById record.id with
  | none =>
      obtain ⟨st, hst, -⟩ := hc
      have hatt := hst.attached.2
      simp [attachedIds, hkey] at hatt
  | some key =>
      obtain ⟨fresh, hfresh⟩ := exists_fresh env.db (attachedIds s record)
      have hgrant := hfresh.agree record.owner_id (askedFor required) rfl
      have hrefuse : AgreeOnKey record env.db (withoutUsers env.db) s s := withoutUsers_agree
      have hgranted := decision_of_conditional hkey howner hrequired (hgrant.conditional.mpr hc)
        (hfresh.evaluate_eq record.owner_id (askedFor required) rt env.today "*" context)
      have hrefused := decision_of_conditional hkey howner hrequired (hrefuse.conditional.mpr hc)
        (evaluate_withoutUsers record.owner_id (askedFor required) rt env.today "*" context)
      rw [hsame _ _ hgrant] at hgranted
      rw [hsame _ _ hrefuse, hgranted] at hrefused
      cases hrefused

theorem ownPoliciesDecide_of_no_key (hkey : s.findById record.id = none) :
    OwnPoliciesDecide rt env s record required context := by
  refine ⟨?_, fun db' s' hagree => ?_⟩
  · rw [decision_eq_none hkey]
    rintro ⟨⟩
  · rw [decision_eq_none hkey, decision_eq_none (hagree.key.trans hkey)]

theorem ownPoliciesDecide_of_blank (h : record.owner_id = "" ∨ required = "") :
    OwnPoliciesDecide rt env s record required context := by
  cases hkey : s.findById record.id with
  | none => exact ownPoliciesDecide_of_no_key hkey
  | some key =>
      refine ⟨?_, fun db' s' hagree => ?_⟩
      · rw [decision_of_blank hkey h]
        rintro ⟨⟩
      · rw [decision_of_blank hkey h, decision_of_blank (hagree.key.trans hkey) h]

theorem ownPoliciesDecide_of_not_conditional (howner : record.owner_id ≠ "")
    (hrequired : required ≠ "") (hc : ¬ Conditional env s record required) :
    OwnPoliciesDecide rt env s record required context := by
  cases hkey : s.findById record.id with
  | none => exact ownPoliciesDecide_of_no_key hkey
  | some key =>
      by_cases hu : Unconditional env s record required
      · refine ⟨fun _ => ownDecision_of_unconditional hu, fun db' s' hagree => ?_⟩
        rw [decision_of_unconditional hkey howner hrequired hu,
          decision_of_unconditional (hagree.key.trans hkey) howner hrequired
            (hagree.unconditional.mpr hu)]
      · refine ⟨?_, fun db' s' hagree => ?_⟩
        · rw [decision_of_not_carried hkey howner hrequired hu hc]
          rintro ⟨⟩
        · rw [decision_of_not_carried hkey howner hrequired hu hc,
            decision_of_not_carried (hagree.key.trans hkey) howner hrequired
              (hagree.unconditional.not.mpr hu) (hagree.conditional.not.mpr hc)]

variable (rt env s record required context)

/-- **When the key's own policies decide.** The guard grants only what they grant, and no change
to the owner's roles or policies changes its decision, exactly if no statement with conditions
of the key's policies carries the required permission (or the guard refuses for want of an owner
or of a required permission). -/
theorem own_policies_decide_iff :
    OwnPoliciesDecide rt env s record required context ↔
      record.owner_id = "" ∨ required = "" ∨ ¬ Conditional env s record required := by
  by_cases howner : record.owner_id = ""
  · exact iff_of_true (ownPoliciesDecide_of_blank (Or.inl howner)) (Or.inl howner)
  by_cases hrequired : required = ""
  · exact iff_of_true (ownPoliciesDecide_of_blank (Or.inr hrequired)) (Or.inr (Or.inl hrequired))
  constructor
  · intro h
    refine Or.inr (Or.inr fun hc => ?_)
    exact not_ownPoliciesDecide howner hrequired hc h
  · intro h
    exact ownPoliciesDecide_of_not_conditional howner hrequired
      ((h.resolve_left howner).resolve_left hrequired)

end Main

/-- The first statement is now of a policy of its own, for the key: it allows `order:view` to
requests of the sales department. The owner has a role whose policy allows it without
conditions. -/
def ownerAndKey : Db :=
  { twoAllows "sales" with
    policies := ⟨[
      { id := "p-key", code := "sales-orders", is_active := true, valid_from := none,
        valid_until := none },
      { id := "p", code := "orders", is_active := true, valid_from := none,
        valid_until := none }], by decide⟩
    policyStatements := ⟨[
      { id := "s1", policy_id := "p-key", effect := .allow, plane := .api },
      { id := "s2", policy_id := "p", effect := .allow, plane := .api }], by decide⟩ }

def salesKey : AccessKey where
  name := "orders"
  description := none
  status := .active
  expires_at := none
  metadata := none
  is_deleted := false
  id := "k"
  access_key_id := "AKIA0000000000000000"
  secret_key_encrypted := "secret"
  owner_id := "u"
  owner_type := .user
  changes := fun _ => []

def ownerAndKeyEnv : Env := { sampleEnv with db := ownerAndKey, today := "2026-01-01" }

def salesKeyStore : Store :=
  { Store.init with
    keys := ⟨[salesKey], by decide, by decide⟩
    accessKeysPolicies := [("k", "p-key")] }

/-- The context of a request without parameters, query or body. -/
def outsideContext : EvaluationContext := buildEvaluationContext ⟨9, 0⟩ outsideRequest

/-- The key is granted a request from outside the sales department because its owner may view
all orders. -/
theorem borrowed_from_owner :
    decision plainRuntime ownerAndKeyEnv salesKeyStore salesKey.record "order:view"
      outsideContext = some (.ok true) ∧
    ¬ OwnDecision plainRuntime ownerAndKeyEnv salesKeyStore salesKey.record "order:view"
      outsideContext := by
  refine ⟨by decide, ?_⟩
  rintro ⟨⟨st, hst, -, -, hsat⟩, -⟩
  obtain ⟨hrow, hatt⟩ := hst.attached
  have hids : attachedIds salesKeyStore salesKey.record = ["p-key"] := by decide
  rw [hids, List.mem_singleton] at hatt
  have hone : st = { id := "s1", policy_id := "p-key", effect := .allow, plane := .api } := by
    rcases List.mem_cons.mp hrow with rfl | hrow
    · rfl
    · obtain rfl := List.mem_singleton.mp hrow
      exact absurd hatt (by decide)
  subst hone
  have hcondition := hsat
    { id := "c1", statement_id := "s1", operator := .stringLike,
      condition_key := "department", condition_value := "sales" } (by decide)
  exact absurd hcondition (by decide)

end ErpApi.AccessKeys
