import ErpApi.Basic.JsString
import ErpApi.Iam.Entities

set_option autoImplicit false

/-! # Permission resolution

`PermissionResolverService`: the net permission set of a user (`resolveForUser`), which is
written into the session at login, and the request-time evaluation of conditions
(`evaluate`). Both walk user → roles → policies → statements on the same database.

`new RegExp(..)` throws on a malformed pattern, and nothing between it and the caller
catches the exception. Condition evaluation is therefore in `Except`, and `every` and `some`
are the short-circuiting `allM` and `anyM`: an exception ends the evaluation unless a
decisive element was found before it.
-/

namespace ErpApi.Iam

/-- The exception `new RegExp(..)` throws on a malformed pattern. -/
inductive RegExpError where
  | syntaxError
  deriving DecidableEq

/-- The built-in functions of the language that condition evaluation calls. -/
structure JsRuntime where
  /-- The call `new RegExp(source).test(text)`. -/
  regExpTest : String → String → Except RegExpError Bool
  /-- The conversion `Number(text)`. -/
  number : String → Float
  /-- The call `Date.parse(text)`, with `none` for `NaN`. -/
  dateParse : String → Option Int

/-- The comparison `a < b` on results of `Date.parse`: false as soon as one is `NaN`. -/
def dateLt (a b : Option Int) : Bool :=
  match a, b with
  | some a, some b => decide (a < b)
  | _, _ => false

/-- The request-time values that condition keys refer to. -/
abbrev EvaluationContext := String → Option String

structure ResolvedStatement where
  effect : StatementEffect
  permissions : List String
  hasConditions : Bool
  targets : List (String × String)
  conditions : List StatementCondition

structure PermissionResolution where
  roles : List String
  permissions : List String
  conditional_permissions : List String
  deriving DecidableEq

/-! ## Conditions -/

/-- The value a context entry is compared with. -/
def expectedValue (condition : StatementCondition) (userId : String) : String :=
  Js.replace condition.condition_value "$\x7buser.id\x7d" userId

/-- The pattern of a `StringLike` condition: `*` stands for any text. -/
def likePattern (condition : StatementCondition) (userId : String) : String :=
  "^" ++ Js.replaceAllChar (expectedValue condition userId) '*' ".*" ++ "$"

def evaluateCondition (rt : JsRuntime) (condition : StatementCondition) (userId : String)
    (context : EvaluationContext) : Except RegExpError Bool :=
  let expected := expectedValue condition userId
  match context condition.condition_key with
  | none => .ok false
  | some actual =>
      match condition.operator with
      | .stringEquals => .ok (actual == expected)
      | .stringLike => rt.regExpTest (likePattern condition userId) actual
      | .numericEquals => .ok (rt.number actual == rt.number expected)
      | .numericGreaterThan => .ok (rt.number actual > rt.number expected)
      | .numericLessThan => .ok (rt.number actual < rt.number expected)
      | .dateGreaterThan =>
          .ok (dateLt (rt.dateParse expected) (rt.dateParse actual) || Js.lt expected actual)
      | .dateLessThan =>
          .ok (dateLt (rt.dateParse actual) (rt.dateParse expected) || Js.lt actual expected)
      | .ipAddress => .ok (actual == expected)
      | .other _ => .ok false

def conditionsHold (rt : JsRuntime) (conditions : List StatementCondition) (userId : String)
    (context : EvaluationContext) : Except RegExpError Bool :=
  if conditions.length = 0 then .ok true
  else conditions.allM fun condition => evaluateCondition rt condition userId context

/-! ## Statements -/

/-- A policy is in force on `today`; both bounds are inclusive, a null bound is open. -/
def isPolicyValidNow (today : String) (policy : Policy) : Bool :=
  if policy.valid_from.any fun d => Js.lt today d then false
  else if policy.valid_until.any fun d => Js.lt d today then false
  else true

/-- The lookup `permissionById.get(id)` in the map built from the permission rows: a later
row overwrites an earlier one. -/
def permissionById (permissions : List Permission) (id : String) : Option String :=
  (permissions.reverse.find? fun p => p.id == id).map (·.permission)

/-- The object `resolveStatements` builds from one statement row. -/
def resolveStatement (targets : List StatementTarget) (actions : List StatementAction)
    (conditions : List StatementCondition) (permissions : List Permission)
    (statement : PolicyStatement) : ResolvedStatement where
  effect := statement.effect
  permissions := (actions.filter (·.statement_id == statement.id)).filterMap
    fun a => permissionById permissions a.permission_id
  hasConditions := conditions.any (·.statement_id == statement.id)
  targets := (targets.filter (·.statement_id == statement.id)).map
    fun t => (t.service, t.resource)
  conditions := conditions.filter (·.statement_id == statement.id)

def resolveStatements (db : Db) (policyIds : List String) (filter : Option String) :
    List ResolvedStatement :=
  if policyIds.length = 0 then []
  else
    let statements := find (·.toBaseEntity) db.policyStatements.rows fun s =>
      policyIds.contains s.policy_id
    if statements.length = 0 then []
    else
      let statementIds := statements.map (·.id)
      let targets := find (·.toBaseEntity) db.statementTargets.rows fun t =>
        statementIds.contains t.statement_id
      let actions := find (·.toBaseEntity) db.statementActions.rows fun a =>
        statementIds.contains a.statement_id
      let conditions := find (·.toBaseEntity) db.statementConditions.rows fun c =>
        statementIds.contains c.statement_id
      let permissionIds := (actions.map (·.permission_id)).eraseDups
      let permissions :=
        if permissionIds.length > 0 then
          find (·.toBaseEntity) db.permissions.rows fun p => permissionIds.contains p.id
        else []
      (statements.map (resolveStatement targets actions conditions permissions)).filter fun s =>
        match filter with
        | none => true
        | some permission => s.permissions.contains permission

/-! ## The session's permission set -/

/-- The three sets of `computeAllowDenyConditional`, in insertion order. -/
structure PermissionSets where
  allow : List String
  deny : List String
  conditional : List String

/-- The call `set.add(x)`. -/
def addToSet (set : List String) (x : String) : List String :=
  if set.contains x then set else set ++ [x]

def PermissionSets.add (sets : PermissionSets) (statement : ResolvedStatement)
    (permission : String) : PermissionSets :=
  if statement.hasConditions then
    { sets with conditional := addToSet sets.conditional permission }
  else if statement.effect = .allow then
    { sets with allow := addToSet sets.allow permission }
  else { sets with deny := addToSet sets.deny permission }

/-- The two nested loops of `computeAllowDenyConditional`. -/
def collectSets (statements : List ResolvedStatement) : PermissionSets :=
  statements.foldl (fun sets statement =>
    statement.permissions.foldl (fun sets permission => sets.add statement permission) sets)
    ⟨[], [], []⟩

/-- Deny overrides; a permission that needs condition evaluation is left out of the
unconditional set even if it is also allowed without conditions. -/
def computeAllowDenyConditional (statements : List ResolvedStatement) :
    List String × List String :=
  let sets := collectSets statements
  (sets.allow.filter fun p => !sets.deny.contains p && !sets.conditional.contains p,
    sets.conditional)

/-! ## The two entry points -/

/-- The distinct ids of the user's roles; none when the user is not found. -/
def roleIdsOf (db : Db) (userId : String) : List String :=
  match (find (·.toBaseEntity) db.users.rows (·.id == userId)).head? with
  | none => []
  | some user => ((db.rolesOf user.id).map (·.id)).eraseDups

/-- The find `roleRepository.find` with `id: In(roleIds)`. -/
def rolesWithIds (db : Db) (roleIds : List String) : List Role :=
  find (·.toBaseEntity) db.roles.rows fun r => roleIds.contains r.id

/-- The distinct ids of the policies attached to the roles. -/
def policyIdsOf (db : Db) (roles : List Role) : List String :=
  (roles.flatMap fun role => (db.policiesOf role.id).map (·.id)).eraseDups

def activePolicies (db : Db) (today : String) (policyIds : List String) : List Policy :=
  (find (·.toBaseEntity) db.policies.rows fun p => policyIds.contains p.id && p.is_active).filter
    (isPolicyValidNow today)

def resolveForUser (db : Db) (today userId : String) : PermissionResolution :=
  let roleIds := roleIdsOf db userId
  if roleIds.length = 0 then ⟨[], [], []⟩
  else
    let roles := rolesWithIds db roleIds
    let policyIds := policyIdsOf db roles
    if policyIds.length = 0 then ⟨roles.map (·.code), [], []⟩
    else
      let activePolicyIds := (activePolicies db today policyIds).map (·.id)
      let sets := computeAllowDenyConditional (resolveStatements db activePolicyIds none)
      ⟨roles.map (·.code), sets.1, sets.2⟩

/-- The statements of one effect that carry the permission (`matches` in the source). -/
def matchesEffect (statements : List ResolvedStatement) (effect : StatementEffect)
    (permission : String) : List ResolvedStatement :=
  (statements.filter (·.effect = effect)).filter (·.permissions.contains permission)

def evaluate (rt : JsRuntime) (db : Db) (today userId _service permission : String)
    (context : EvaluationContext) : Except RegExpError Bool :=
  let roleIds := roleIdsOf db userId
  if roleIds.length = 0 then .ok false
  else
    let policyIds := policyIdsOf db (rolesWithIds db roleIds)
    if policyIds.length = 0 then .ok false
    else
      let statements := resolveStatements db
        ((activePolicies db today policyIds).map (·.id)) (some permission)
      do
        let denied ← (matchesEffect statements .deny permission).anyM
          fun s => conditionsHold rt s.conditions userId context
        if denied then return false
        (matchesEffect statements .allow permission).anyM
          fun s => conditionsHold rt s.conditions userId context

/-! ## What the three sets hold -/

theorem mem_addToSet {set : List String} {x p : String} :
    p ∈ addToSet set x ↔ p ∈ set ∨ p = x := by
  unfold addToSet
  split
  · rename_i h
    constructor
    · exact Or.inl
    · rintro (hp | rfl)
      · exact hp
      · exact List.contains_iff_mem.mp h
  · simp

/-- Which of the three sets a statement's permissions go to. -/
def PermissionSets.Contain (sets : PermissionSets) (ss : List ResolvedStatement) : Prop :=
  (∀ p, p ∈ sets.allow ↔
    ∃ s ∈ ss, s.hasConditions = false ∧ s.effect = .allow ∧ p ∈ s.permissions) ∧
  (∀ p, p ∈ sets.deny ↔
    ∃ s ∈ ss, s.hasConditions = false ∧ s.effect = .deny ∧ p ∈ s.permissions) ∧
  (∀ p, p ∈ sets.conditional ↔ ∃ s ∈ ss, s.hasConditions = true ∧ p ∈ s.permissions)

/-- The inner loop adds the statement's permissions to one of the sets. -/
theorem foldl_add_mem (s : ResolvedStatement) (ps : List String) (sets : PermissionSets)
    (p : String) :
    (p ∈ (ps.foldl (fun sets q => sets.add s q) sets).allow ↔
      p ∈ sets.allow ∨ s.hasConditions = false ∧ s.effect = .allow ∧ p ∈ ps) ∧
    (p ∈ (ps.foldl (fun sets q => sets.add s q) sets).deny ↔
      p ∈ sets.deny ∨ s.hasConditions = false ∧ s.effect = .deny ∧ p ∈ ps) ∧
    (p ∈ (ps.foldl (fun sets q => sets.add s q) sets).conditional ↔
      p ∈ sets.conditional ∨ s.hasConditions = true ∧ p ∈ ps) := by
  induction ps generalizing sets with
  | nil => simp
  | cons q ps ih =>
      simp only [List.foldl_cons, List.mem_cons]
      obtain ⟨ha, hd, hc⟩ := ih (sets.add s q)
      rw [ha, hd, hc]
      cases hcond : s.hasConditions <;> cases heff : s.effect <;>
        simp [PermissionSets.add, hcond, heff, mem_addToSet, or_assoc]

theorem collectSets_contain (ss : List ResolvedStatement) :
    (collectSets ss).Contain ss := by
  suffices h : ∀ (ss : List ResolvedStatement) (sets : PermissionSets) (done : List _),
      sets.Contain done →
      (ss.foldl (fun sets s => s.permissions.foldl (fun sets q => sets.add s q) sets)
        sets).Contain (done ++ ss) by
    exact h ss ⟨[], [], []⟩ [] (by simp [PermissionSets.Contain])
  intro ss
  induction ss with
  | nil => intro sets done h; simpa using h
  | cons s ss ih =>
      intro sets done h
      rw [List.foldl_cons, List.append_cons done s ss]
      apply ih
      obtain ⟨ha, hd, hc⟩ := h
      refine ⟨fun p => ?_, fun p => ?_, fun p => ?_⟩
      · rw [(foldl_add_mem s s.permissions sets p).1, ha p]
        simp [or_and_right, exists_or]
      · rw [(foldl_add_mem s s.permissions sets p).2.1, hd p]
        simp [or_and_right, exists_or]
      · rw [(foldl_add_mem s s.permissions sets p).2.2, hc p]
        simp [or_and_right, exists_or]

/-- A permission is in the unconditional list when some statement without conditions allows
it, none denies it, and no statement with conditions carries it. -/
theorem mem_computeAllowDenyConditional_fst {ss : List ResolvedStatement} {p : String} :
    p ∈ (computeAllowDenyConditional ss).1 ↔
      (∃ s ∈ ss, s.hasConditions = false ∧ s.effect = .allow ∧ p ∈ s.permissions) ∧
      (¬ ∃ s ∈ ss, s.hasConditions = false ∧ s.effect = .deny ∧ p ∈ s.permissions) ∧
      ¬ ∃ s ∈ ss, s.hasConditions = true ∧ p ∈ s.permissions := by
  obtain ⟨ha, hd, hc⟩ := collectSets_contain ss
  rw [← ha, ← hd, ← hc]
  simp [computeAllowDenyConditional]

theorem mem_computeAllowDenyConditional_snd {ss : List ResolvedStatement} {p : String} :
    p ∈ (computeAllowDenyConditional ss).2 ↔
      ∃ s ∈ ss, s.hasConditions = true ∧ p ∈ s.permissions :=
  (collectSets_contain ss).2.2 p

/-! ## One list of statements behind both entry points -/

/-- The statements of the active, in-date policies reachable through the user's roles. -/
def statementsFor (db : Db) (today userId : String) (filter : Option String) :
    List ResolvedStatement :=
  resolveStatements db ((activePolicies db today
    (policyIdsOf db (rolesWithIds db (roleIdsOf db userId)))).map (·.id)) filter

theorem statementsFor_eq_nil_of_no_roles {db : Db} {today userId : String}
    {filter : Option String} (h : roleIdsOf db userId = []) :
    statementsFor db today userId filter = [] := by
  have hr : rolesWithIds db [] = [] := by simp [rolesWithIds, find]
  simp [statementsFor, h, hr, policyIdsOf, activePolicies, find, resolveStatements]

theorem statementsFor_eq_nil_of_no_policies {db : Db} {today userId : String}
    {filter : Option String}
    (h : policyIdsOf db (rolesWithIds db (roleIdsOf db userId)) = []) :
    statementsFor db today userId filter = [] := by
  simp [statementsFor, h, activePolicies, find, resolveStatements]

theorem resolveForUser_lists (db : Db) (today userId : String) :
    ((resolveForUser db today userId).permissions,
      (resolveForUser db today userId).conditional_permissions) =
    computeAllowDenyConditional (statementsFor db today userId none) := by
  unfold resolveForUser
  simp only [List.length_eq_zero_iff]
  split
  · rename_i h
    rw [statementsFor_eq_nil_of_no_roles h]
    rfl
  · split
    · rename_i h
      rw [statementsFor_eq_nil_of_no_policies h]
      rfl
    · rfl

/-- Request-time evaluation: first the deny statements, then the allow statements. -/
theorem evaluate_eq (rt : JsRuntime) (db : Db) (today userId service permission : String)
    (context : EvaluationContext) :
    evaluate rt db today userId service permission context = (do
      let ss := statementsFor db today userId (some permission)
      let denied ← (matchesEffect ss .deny permission).anyM
        fun s => conditionsHold rt s.conditions userId context
      if denied then return false
      (matchesEffect ss .allow permission).anyM
        fun s => conditionsHold rt s.conditions userId context) := by
  unfold evaluate
  simp only [List.length_eq_zero_iff]
  split
  · rename_i h
    rw [statementsFor_eq_nil_of_no_roles h]
    rfl
  · split
    · rename_i h
      rw [statementsFor_eq_nil_of_no_policies h]
      rfl
    · rfl

theorem resolveStatements_filter (db : Db) (policyIds : List String) (permission : String) :
    resolveStatements db policyIds (some permission) =
      (resolveStatements db policyIds none).filter (·.permissions.contains permission) := by
  unfold resolveStatements
  by_cases hp : policyIds.length = 0
  · simp only [if_pos hp, List.filter_nil]
  · simp only [if_neg hp]
    by_cases hs : (find (·.toBaseEntity) db.policyStatements.rows fun s =>
        policyIds.contains s.policy_id).length = 0
    · simp only [if_pos hs, List.filter_nil]
    · simp only [if_neg hs, List.filter_true]

theorem matchesEffect_statementsFor (db : Db) (today userId permission : String)
    (effect : StatementEffect) :
    matchesEffect (statementsFor db today userId (some permission)) effect permission =
      matchesEffect (statementsFor db today userId none) effect permission := by
  unfold matchesEffect statementsFor
  rw [resolveStatements_filter]
  simp only [List.filter_filter]
  apply List.filter_congr
  intro s _
  cases s.permissions.contains permission <;> simp

end ErpApi.Iam
