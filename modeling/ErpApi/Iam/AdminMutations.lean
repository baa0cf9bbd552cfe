import ErpApi.Common.BaseService
import ErpApi.Iam.PermissionResolver

set_option autoImplicit false

/-! # Administering users, roles and policies

The mutations of `UsersService`, `RolesService` and `PoliciesService` that their controllers
expose. The generic ones come from the base service; the three deletes are soft deletes, and a
role or a policy that is still attached is not deleted. The special ones replace the roles of a
user, the policies of a role and the statements of a policy, and they alone refresh sessions
afterwards: each returns the ids of the users whose sessions `SessionSyncService` refreshes.

The validation pipe strips a request of everything that its DTO does not name, so the generic
mutations set columns of one row only. Of the columns, those are modelled that permission
resolution reads or that identify a row; the audit logs are left out. Ids that the database draws
are part of a mutation.
-/

namespace ErpApi.Iam

/-! ## The base service -/

/-- What the base service knows of an entity. -/
structure EntityType (ρ : Type) where
  table : String
  base : ρ → BaseEntity
  setBase : ρ → BaseEntity → ρ
  base_setBase : ∀ r b, base (setBase r b) = b
  /-- The column whose values are distinct among the rows that are not deleted. -/
  unique : ρ → String
  uniqueColumn : String

@[reducible] def userType : EntityType User where
  table := "users"
  base := (·.toBaseEntity)
  setBase := fun r b => { r with toBaseEntity := b }
  base_setBase := fun _ _ => rfl
  unique := (·.username)
  uniqueColumn := "username"

@[reducible] def roleType : EntityType Role where
  table := "roles"
  base := (·.toBaseEntity)
  setBase := fun r b => { r with toBaseEntity := b }
  base_setBase := fun _ _ => rfl
  unique := (·.code)
  uniqueColumn := "code"

@[reducible] def policyType : EntityType Policy where
  table := "policies"
  base := (·.toBaseEntity)
  setBase := fun r b => { r with toBaseEntity := b }
  base_setBase := fun _ _ => rfl
  unique := (·.code)
  uniqueColumn := "code"

namespace EntityType

variable {ρ : Type} (E : EntityType ρ)

abbrev Rows : Type := Table ρ (fun r => (E.base r).id)

/-- The partial unique index. -/
def Unique (rows : List ρ) : Prop :=
  ((rows.filter fun r => !(E.base r).is_deleted).map E.unique).Nodup

instance (rows : List ρ) : Decidable (E.Unique rows) := inferInstanceAs (Decidable (List.Nodup _))

def notFound (id : String) : ServiceError :=
  .notFound (E.table ++ " with ID '" ++ id ++ "' not found.")

def create (t : E.Rows) (row : ρ) : Except ServiceError E.Rows :=
  match t.insert row with
  | none => .error (.uniqueViolation "id")
  | some t' => if E.Unique t'.rows then .ok t' else .error (.uniqueViolation E.uniqueColumn)

/-- The row with the id becomes `row'`, but for the base columns, which no DTO names. -/
def put (t : E.Rows) (row row' : ρ) : E.Rows :=
  t.update (fun r => if (E.base r).id = (E.base row).id then E.setBase row' (E.base row) else r)
    fun r => by
      split
      · rename_i heq
        rw [E.base_setBase, heq]
      · rfl

def update (t : E.Rows) (id : String) (change : ρ → Except ServiceError ρ) :
    Except ServiceError E.Rows :=
  match t.rows.find? fun r => (E.base r).live && (E.base r).id = uuid id with
  | none => .error (E.notFound id)
  | some row =>
      match change row with
      | .error e => .error e
      | .ok row' =>
          if E.Unique (E.put t row row').rows then .ok (E.put t row row')
          else .error (.uniqueViolation E.uniqueColumn)

/-- A row after the soft delete of an id. -/
def markDeleted (id : String) (now : Nat) (r : ρ) : ρ :=
  if (E.base r).id = id then
    E.setBase r { E.base r with is_deleted := true, deleted_at := some now }
  else r

theorem markDeleted_id (id : String) (now : Nat) (r : ρ) :
    (E.base (E.markDeleted id now r)).id = (E.base r).id := by
  unfold markDeleted
  split
  · rw [E.base_setBase]
  · rfl

/-- The soft delete; it also marks a row that is deleted already. -/
def delete (t : E.Rows) (id : String) (now : Nat) : Except ServiceError E.Rows :=
  if t.rows.all fun r => (E.base r).id ≠ uuid id then .error (E.notFound id)
  else .ok (t.update (E.markDeleted (uuid id) now) (E.markDeleted_id (uuid id) now))

end EntityType

/-! ## Requests -/

structure PolicyDTO where
  code : Field String
  is_active : Field Bool
  /-- The dates as the database stores them. -/
  valid_from : Field String
  valid_until : Field String
  deriving DecidableEq

/-- The row of a new policy. -/
def PolicyDTO.create (dto : PolicyDTO) (id : String) : Except ServiceError Policy := do
  let code ← dto.code.notNull "code" ""
  let is_active ← dto.is_active.notNull "is_active" true
  return { id := id
           code := code
           is_active := is_active
           valid_from := dto.valid_from.nullable none
           valid_until := dto.valid_until.nullable none }

def PolicyDTO.merge (dto : PolicyDTO) (policy : Policy) : Except ServiceError Policy := do
  let code ← dto.code.notNull "code" policy.code
  let is_active ← dto.is_active.notNull "is_active" policy.is_active
  return { policy with
    code := code
    is_active := is_active
    valid_from := dto.valid_from.nullable policy.valid_from
    valid_until := dto.valid_until.nullable policy.valid_until }

structure StatementConditionInput where
  operator : ConditionOperator
  condition_key : String
  condition_value : String
  deriving DecidableEq

structure PolicyStatementInput where
  effect : StatementEffect
  plane : StatementPlane
  service : List String
  resource : List String
  permission_ids : List String
  /-- May be left out, and then the statement cannot be stored. -/
  conditions : Option (List StatementConditionInput)
  deriving DecidableEq

/-- The ids that the database draws for the statements, and for the rows below each. -/
structure Draws where
  statement : Nat → String
  target : Nat → Nat → String
  action : Nat → Nat → String
  condition : Nat → Nat → String

/-! ## The special mutations -/

/-- The rows of a join table when `save` has set the relation of `id`: it adds the pairs that are
not there, then it removes those that are no longer wanted. The database reads an id without
regard to case, TypeORM does not. -/
def saveRelation (pairs : List (String × String)) (id : String) (ids : List String)
    (exists_ : String → Bool) (foreignKey : String) :
    Except ServiceError (List (String × String)) :=
  let current := (pairs.filter fun pair => pair.1 = id).map Prod.snd
  let add := (ids.filter fun i => !current.contains i).map uuid
  let remove := current.filter fun i => !ids.contains i
  let inserted := pairs ++ add.map fun i => (id, i)
  if !add.all exists_ then .error (.foreignKeyViolation foreignKey)
  else if ¬ inserted.Nodup then .error (.uniqueViolation "id")
  else .ok (inserted.filter fun pair => !(pair.1 = id && remove.contains pair.2))

def Db.assignRoles (db : Db) (userId : String) (roleIds : List String) : Except ServiceError Db :=
  match (find (·.toBaseEntity) db.users.rows fun user => user.id = uuid userId).head? with
  | none => .error (.notFound ("User " ++ userId ++ " not found"))
  | some user => do
      let pairs ← saveRelation db.usersRoles user.id roleIds
        (fun id => db.roles.rows.any fun role => role.id = id) "fk_users_roles_role_id"
      return { db with usersRoles := pairs }

def Db.attachPolicies (db : Db) (roleId : String) (policyIds : List String) :
    Except ServiceError Db :=
  match (find (·.toBaseEntity) db.roles.rows fun role => role.id = uuid roleId).head? with
  | none => .error (.notFound ("Role " ++ roleId ++ " not found"))
  | some role => do
      let pairs ← saveRelation db.rolesPolicies role.id policyIds
        (fun id => db.policies.rows.any fun policy => policy.id = id) "fk_roles_policies_policy_id"
      return { db with rolesPolicies := pairs }

/-- Inserts rows one after another. -/
def insertAll {ρ κ : Type} [DecidableEq κ] {key : ρ → κ} (t : Table ρ key) (rows : List ρ) :
    Except ServiceError (Table ρ key) :=
  rows.foldlM (fun t row =>
    match t.insert row with
    | none => .error (.uniqueViolation "id")
    | some t' => .ok t') t

/-- The statements of the policy are deleted, and with them the rows that refer to them. -/
def deleteStatements (db : Db) (policyId : String) : Db :=
  let gone := (db.policyStatements.rows.filter fun s => s.policy_id = policyId).map (·.id)
  { db with
    policyStatements := db.policyStatements.filter fun s => s.policy_id ≠ policyId
    statementTargets := db.statementTargets.filter fun t => !gone.contains t.statement_id
    statementActions := db.statementActions.filter fun a => !gone.contains a.statement_id
    statementConditions := db.statementConditions.filter fun c => !gone.contains c.statement_id }

section Statement

variable (draws : Draws) (policyId : String) (input : PolicyStatementInput) (i : Nat)

def statementRow : PolicyStatement :=
  { id := draws.statement i, policy_id := policyId, effect := input.effect, plane := input.plane }

def targetRows : List StatementTarget :=
  (input.service.flatMap fun service => input.resource.map fun resource =>
    (service, resource)).mapIdx fun j pair =>
      { id := draws.target i j, statement_id := draws.statement i, service := pair.1,
        resource := pair.2 }

def actionRows : List StatementAction :=
  input.permission_ids.mapIdx fun j permissionId =>
    { id := draws.action i j, statement_id := draws.statement i,
      permission_id := uuid permissionId }

def conditionRows (conditions : List StatementConditionInput) : List StatementCondition :=
  conditions.mapIdx fun j condition =>
    { id := draws.condition i j, statement_id := draws.statement i, operator := condition.operator,
      condition_key := condition.condition_key, condition_value := condition.condition_value }

/-- One turn of the loop of `setStatements`. -/
def insertStatement (db : Db) : Except ServiceError Db := do
  if db.policies.rows.all fun policy => policy.id ≠ policyId then
    throw (.foreignKeyViolation "fk_policy_statements_policy_id")
  let policyStatements ← insertAll db.policyStatements [statementRow draws policyId input i]
  let statementTargets ← insertAll db.statementTargets (targetRows draws input i)
  let statementActions ← insertAll db.statementActions (actionRows draws input i)
  match input.conditions with
  | none => throw .typeError
  | some conditions =>
      let statementConditions ← insertAll db.statementConditions (conditionRows draws i conditions)
      return { db with policyStatements, statementTargets, statementActions, statementConditions }

end Statement

def insertStatements (draws : Draws) (policyId : String) (db : Db) :
    Nat → List PolicyStatementInput → Except ServiceError Db
  | _, [] => .ok db
  | i, input :: statements => do
      let db' ← insertStatement draws policyId input i db
      insertStatements draws policyId db' (i + 1) statements

def Db.setStatements (db : Db) (policyId : String) (statements : List PolicyStatementInput)
    (draws : Draws) : Except ServiceError Db :=
  insertStatements draws (uuid policyId) (deleteStatements db (uuid policyId)) 0 statements

/-! ## The sessions that are refreshed -/

/-- The users of `syncUsersByRole`. -/
def usersByRole (db : Db) (roleId : String) : List String :=
  (find (·.toBaseEntity) db.users.rows fun user =>
    (db.rolesOf user.id).any fun role => role.id = uuid roleId).map (·.id)

/-- The users of `syncUsersByPolicy`. -/
def usersByPolicy (db : Db) (policyId : String) : List String :=
  let roles := find (·.toBaseEntity) db.roles.rows fun role =>
    (db.policiesOf role.id).any fun policy => policy.id = uuid policyId
  if roles.length = 0 then []
  else
    ((find (·.toBaseEntity) db.users.rows fun user =>
      (db.rolesOf user.id).any fun role => (roles.map (·.id)).contains role.id).map
        (·.id)).eraseDups

/-! ## The mutations -/

inductive Mutation where
  | createUser (id username : String)
  | updateUser (id : String) (username : Field String)
  | deleteUser (id : String) (now : Nat)
  | assignRoles (userId : String) (roleIds : List String)
  | createRole (id code : String)
  | updateRole (id : String) (code : Field String)
  | deleteRole (id : String) (now : Nat)
  | attachPolicies (roleId : String) (policyIds : List String)
  | createPolicy (id : String) (dto : PolicyDTO)
  | updatePolicy (id : String) (dto : PolicyDTO)
  | deletePolicy (id : String) (now : Nat)
  | setStatements (policyId : String) (statements : List PolicyStatementInput) (draws : Draws)

/-- What a mutation writes. -/
def Mutation.write (db : Db) : Mutation → Except ServiceError Db
  | .createUser id username => do
      let users ← userType.create db.users { id := uuid id, username := username }
      return { db with users }
  | .updateUser id username => do
      let users ← userType.update db.users id fun user => do
        return { user with username := ← username.notNull "username" user.username }
      return { db with users }
  | .deleteUser id now => do
      let users ← userType.delete db.users id now
      return { db with users }
  | .assignRoles userId roleIds => db.assignRoles userId roleIds
  | .createRole id code => do
      let roles ← roleType.create db.roles { id := uuid id, code := code }
      return { db with roles }
  | .updateRole id code => do
      let roles ← roleType.update db.roles id fun role => do
        return { role with code := ← code.notNull "code" role.code }
      return { db with roles }
  | .deleteRole id now =>
      if db.usersRoles.any fun pair => pair.2 = uuid id then
        .error (.conflict "ไม่สามารถลบบทบาทนี้ได้ เนื่องจากมีผู้ใช้งานผูกใช้งานอยู่ กรุณายกเลิกการผูกกับผู้ใช้งานก่อน")
      else do
        let roles ← roleType.delete db.roles id now
        return { db with roles }
  | .attachPolicies roleId policyIds => db.attachPolicies roleId policyIds
  | .createPolicy id dto => do
      let row ← dto.create (uuid id)
      let policies ← policyType.create db.policies row
      return { db with policies }
  | .updatePolicy id dto => do
      let policies ← policyType.update db.policies id dto.merge
      return { db with policies }
  | .deletePolicy id now =>
      if db.rolesPolicies.any fun pair => pair.2 = uuid id then
        .error (.conflict "ไม่สามารถลบนโยบายนี้ได้ เนื่องจากมีบทบาท (Role) ผูกใช้งานอยู่ กรุณายกเลิกการผูกกับบทบาทก่อน")
      else do
        let policies ← policyType.delete db.policies id now
        return { db with policies }
  | .setStatements policyId statements draws => db.setStatements policyId statements draws

/-- The users whose sessions are refreshed after the write; `assignRoles` gives the id as the
request has it. -/
def Mutation.refreshes (db : Db) : Mutation → List String
  | .assignRoles userId _ => [userId]
  | .attachPolicies roleId _ => usersByRole db roleId
  | .setStatements policyId _ _ => usersByPolicy db policyId
  | _ => []

/-- A mutation: an error for the caller, or the new database. -/
def Mutation.run (db : Db) (m : Mutation) : Except ServiceError Db :=
  executeDbOperation (m.write db)

end ErpApi.Iam
