import ErpApi.Basic.Table

set_option autoImplicit false

/-! # The IAM database

The tables of the identity and access service as far as permission resolution reads them.
A table is a list of rows with distinct ids (`Table`); the two join tables hold id pairs.
TypeORM's finds leave out soft-deleted rows, in the table queried and in every joined table:
`find` and the relation loaders below do the same.
-/

namespace ErpApi.Iam

/-- The columns every entity shares, as far as they are read here. -/
structure BaseEntity where
  id : String
  is_deleted : Bool := false
  deleted_at : Option Nat := none
  deriving DecidableEq

/-- A row that a TypeORM find returns: its `deleted_at` is null. -/
def BaseEntity.live (e : BaseEntity) : Bool := e.deleted_at.isNone

structure User extends BaseEntity where
  username : String := ""
  deriving DecidableEq

structure Role extends BaseEntity where
  code : String
  deriving DecidableEq

/-- A policy; the two dates are `YYYY-MM-DD` texts, `none` for a null column. -/
structure Policy extends BaseEntity where
  code : String
  is_active : Bool
  valid_from : Option String
  valid_until : Option String
  deriving DecidableEq

inductive StatementEffect where
  | allow
  | deny
  deriving DecidableEq

inductive StatementPlane where
  | ui
  | api
  deriving DecidableEq

structure PolicyStatement extends BaseEntity where
  policy_id : String
  effect : StatementEffect
  plane : StatementPlane
  deriving DecidableEq

structure StatementTarget extends BaseEntity where
  statement_id : String
  service : String
  resource : String
  deriving DecidableEq

structure StatementAction extends BaseEntity where
  statement_id : String
  permission_id : String
  deriving DecidableEq

/-- The operator of a condition. The column is a plain `varchar` and the DTO accepts any
string, so a text outside the eight operators is possible (`other`). -/
inductive ConditionOperator where
  | stringEquals
  | stringLike
  | numericEquals
  | numericGreaterThan
  | numericLessThan
  | dateGreaterThan
  | dateLessThan
  | ipAddress
  | other (text : String)
  deriving DecidableEq

structure StatementCondition extends BaseEntity where
  statement_id : String
  operator : ConditionOperator
  condition_key : String
  condition_value : String
  deriving DecidableEq

structure Permission extends BaseEntity where
  service : String
  permission : String
  deriving DecidableEq

/-- The state of the IAM database. -/
structure Db where
  users : Table User (·.id)
  roles : Table Role (·.id)
  policies : Table Policy (·.id)
  /-- `users_roles`: pairs of a user id and a role id. -/
  usersRoles : List (String × String)
  /-- `roles_policies`: pairs of a role id and a policy id. -/
  rolesPolicies : List (String × String)
  policyStatements : Table PolicyStatement (·.id)
  statementTargets : Table StatementTarget (·.id)
  statementActions : Table StatementAction (·.id)
  statementConditions : Table StatementCondition (·.id)
  permissions : Table Permission (·.id)

/-- A TypeORM `find`: the rows that satisfy the `where` value and are not soft-deleted. -/
def find {ρ : Type} (base : ρ → BaseEntity) (rows : List ρ) (cond : ρ → Bool) : List ρ :=
  rows.filter fun r => (base r).live && cond r

theorem mem_find {ρ : Type} {base : ρ → BaseEntity} {rows : List ρ} {cond : ρ → Bool} {r : ρ} :
    r ∈ find base rows cond ↔ r ∈ rows ∧ (base r).live = true ∧ cond r = true := by
  simp [find, List.mem_filter]

theorem nodup_map_find {ρ κ : Type} {key : ρ → κ} (base : ρ → BaseEntity) {rows : List ρ}
    (hpk : (rows.map key).Nodup) (cond : ρ → Bool) :
    ((find base rows cond).map key).Nodup :=
  (List.filter_sublist.map key).nodup hpk

/-- The relation `user.roles` as TypeORM loads it. -/
def Db.rolesOf (db : Db) (userId : String) : List Role :=
  find (·.toBaseEntity) db.roles.rows fun r => db.usersRoles.contains (userId, r.id)

/-- The relation `role.policies` as TypeORM loads it. -/
def Db.policiesOf (db : Db) (roleId : String) : List Policy :=
  find (·.toBaseEntity) db.policies.rows fun p => db.rolesPolicies.contains (roleId, p.id)

theorem Db.mem_rolesOf {db : Db} {userId : String} {r : Role} :
    r ∈ db.rolesOf userId ↔
      r ∈ db.roles.rows ∧ r.live = true ∧ (userId, r.id) ∈ db.usersRoles := by
  simp [Db.rolesOf, mem_find]

theorem Db.mem_policiesOf {db : Db} {roleId : String} {p : Policy} :
    p ∈ db.policiesOf roleId ↔
      p ∈ db.policies.rows ∧ p.live = true ∧ (roleId, p.id) ∈ db.rolesPolicies := by
  simp [Db.policiesOf, mem_find]

end ErpApi.Iam
