import ErpApi.Basic.ShortCircuit
import ErpApi.Iam.ReferenceDecision

set_option autoImplicit false

/-! # The permission guard

`PermissionGuard.canActivate` decides in two tiers: a permission of the session's flat list
is granted at once; one of `conditional_permissions` is sent to iam for evaluation against
the request context; anything else is refused. The session lists are what `resolveForUser`
returned.

The two tiers never grant more than the reference decision
(`reference_of_granted`). They can grant less: an allow statement whose `StringLike`
pattern is not a regular expression makes the evaluation throw, and the request fails
although another statement allows it. `canActivate_eq_reference_iff` says exactly when.
-/

namespace ErpApi.Iam

inductive GuardError where
  | forbidden (message : String)
  /-- What `sendWithContext` rethrows when the iam handler threw a plain error. -/
  | internalServerError
  deriving DecidableEq

structure UserSession where
  id : Option String
  permissions : List String

/-- What the guard reads from the execution context: the route's metadata and the request. -/
structure GuardInput where
  isHttp : Bool := true
  isPublic : Bool := false
  skipPermissionCheck : Bool := false
  requirePermission : Option String
  user_session : Option UserSession
  conditional_permissions : Option (List String)
  /-- The result of `buildEvaluationContext` on the request. -/
  context : EvaluationContext

structure EvaluateConditionsPayload where
  user_id : String
  service : String
  resource : String
  action : Option String
  context : EvaluationContext

/-- The message handler of iam. An `action` that is undefined prints as such. -/
def evaluateConditions (rt : JsRuntime) (db : Db) (today : String)
    (payload : EvaluateConditionsPayload) : Except RegExpError Bool :=
  evaluate rt db today payload.user_id payload.service
    (payload.resource ++ ":" ++ payload.action.getD "undefined") payload.context

/-- The guard, with iam reachable: `iam` is the answer of its message handler. A handler
that throws reaches the guard as an internal server error. -/
def canActivate (iam : EvaluateConditionsPayload → Except RegExpError Bool)
    (input : GuardInput) : Except GuardError Bool :=
  if !input.isHttp then .ok true
  else if input.isPublic then .ok true
  else
    match input.user_session with
    | none => .error (.forbidden "Not authenticated.")
    | some session =>
        match session.id with
        | none => .error (.forbidden "Not authenticated.")
        | some userId =>
            if userId = "" then .error (.forbidden "Not authenticated.")
            else if input.skipPermissionCheck then .ok true
            else
              match input.requirePermission with
              | none => .error (.forbidden missingDecorator)
              | some required =>
                  if required = "" then .error (.forbidden missingDecorator)
                  else if session.permissions.contains required then .ok true
                  else if (input.conditional_permissions.getD []).contains required then
                    let parts := Js.split ':' required
                    match iam ⟨userId, "*", parts.headD "", parts[1]?, input.context⟩ with
                    | .error _ => .error .internalServerError
                    | .ok true => .ok true
                    | .ok false =>
                        .error (.forbidden ("Missing required permission: " ++ required))
                  else .error (.forbidden ("Missing required permission: " ++ required))
where
  missingDecorator : String := "This endpoint is missing @RequirePermission() — default deny."

/-- The request of a user whose session holds what `resolveForUser` returned, on a route
that requires `permission`. -/
def sessionRequest (db : Db) (today userId permission : String)
    (context : EvaluationContext) : GuardInput where
  requirePermission := some permission
  user_session := some ⟨some userId, (resolveForUser db today userId).permissions⟩
  conditional_permissions := some (resolveForUser db today userId).conditional_permissions
  context := context

/-- The guard's decision on that request. -/
def Granted (rt : JsRuntime) (db : Db) (today userId permission : String)
    (context : EvaluationContext) : Prop :=
  canActivate (evaluateConditions rt db today)
    (sessionRequest db today userId permission context) = .ok true

/-- The two tiers. The permission string reaches iam unchanged because it has one colon. -/
theorem granted_iff (rt : JsRuntime) (db : Db) {today userId permission : String}
    {context : EvaluationContext} (hu : userId ≠ "")
    (hp : permission.toList.count ':' = 1) :
    Granted rt db today userId permission context ↔
      permission ∈ (resolveForUser db today userId).permissions ∨
      permission ∈ (resolveForUser db today userId).conditional_permissions ∧
        evaluate rt db today userId "*" permission context = .ok true := by
  have hne : permission ≠ "" := by
    rintro rfl
    simp at hp
  obtain ⟨a, b, hsplit, hab⟩ := Js.split_of_count_one hp
  have hpay : a ++ ":" ++ b = permission := hab
  unfold Granted canActivate sessionRequest
  simp only [Bool.not_true, Bool.false_eq_true, if_false, hu, hne, Option.getD_some,
    List.contains_iff_mem, hsplit, evaluateConditions, List.headD_cons, List.getElem?_cons_succ,
    List.getElem?_cons_zero, hpay]
  by_cases h1 : permission ∈ (resolveForUser db today userId).permissions
  · simp [h1]
  · by_cases h2 : permission ∈ (resolveForUser db today userId).conditional_permissions
    · simp only [if_neg h1, if_pos h2]
      cases evaluate rt db today userId "*" permission context with
      | error e => simp [h1]
      | ok answer => cases answer <;> simp [h1, h2]
    · simp [h1, h2]

/-! ## Raising evaluations -/

/-- A `StringLike` condition whose key is in the context and whose value, with `*` expanded,
is not a regular expression. -/
def Malformed (rt : JsRuntime) (userId : String) (context : EvaluationContext)
    (c : StatementCondition) : Prop :=
  c.operator = .stringLike ∧ ∃ actual, context c.condition_key = some actual ∧
    ∃ e, rt.regExpTest (likePattern c userId) actual = .error e

/-- A malformed condition is reached: the conditions before it hold. -/
def Raises (rt : JsRuntime) (userId : String) (context : EvaluationContext)
    (s : ResolvedStatement) : Prop :=
  ∃ before c rest, s.conditions = before ++ c :: rest ∧ Satisfied rt userId context before ∧
    Malformed rt userId context c

theorem evaluateCondition_eq_error {rt : JsRuntime} {userId : String}
    {context : EvaluationContext} {c : StatementCondition} :
    (∃ e, evaluateCondition rt c userId context = .error e) ↔
      Malformed rt userId context c := by
  unfold evaluateCondition Malformed
  cases hkey : context c.condition_key with
  | none => simp
  | some actual => cases hop : c.operator <;> simp [likePattern]

theorem raises_iff {rt : JsRuntime} {userId : String} {context : EvaluationContext}
    {s : ResolvedStatement} : Raises rt userId context s ↔
      ∃ e, conditionsHold rt s.conditions userId context = .error e := by
  unfold Raises conditionsHold
  split
  · rename_i h
    simp [List.length_eq_zero_iff.mp h]
  · rw [allM_eq_error]
    simp only [evaluateCondition_eq_error]
    rfl

theorem not_raises_iff {rt : JsRuntime} {userId : String} {context : EvaluationContext}
    {s : ResolvedStatement} : ¬ Raises rt userId context s ↔
      ∃ answer, conditionsHold rt s.conditions userId context = .ok answer := by
  rw [raises_iff]
  cases conditionsHold rt s.conditions userId context with
  | error e =>
      constructor
      · intro h
        exact absurd ⟨e, rfl⟩ h
      · rintro ⟨answer, ⟨⟩⟩
  | ok answer => simp

theorem conditionsHold_eq_ok_true {rt : JsRuntime} {userId : String}
    {context : EvaluationContext} {conditions : List StatementCondition} :
    conditionsHold rt conditions userId context = .ok true ↔
      Satisfied rt userId context conditions := by
  unfold conditionsHold Satisfied
  split
  · rename_i h
    simp [List.length_eq_zero_iff.mp h]
  · exact allM_eq_ok_true

/-- The deny and allow statements that carry the permission, in the order in which the
evaluation visits them. -/
def carrying (db : Db) (today userId permission : String) (effect : StatementEffect) :
    List ResolvedStatement :=
  matchesEffect (statementsFor db today userId none) effect permission

theorem mem_carrying {db : Db} {today userId permission : String} {effect : StatementEffect}
    {s : ResolvedStatement} : s ∈ carrying db today userId permission effect ↔
      s ∈ statementsFor db today userId none ∧ s.effect = effect ∧
        permission ∈ s.permissions := by
  simp [carrying, matchesEffect, and_comm]

/-- No exception stands between the evaluation and its answer: no deny statement raises, and
no allow statement raises before the first satisfied one. -/
def EvaluatesThrough (rt : JsRuntime) (db : Db) (today userId permission : String)
    (context : EvaluationContext) : Prop :=
  (∀ s ∈ carrying db today userId permission .deny, ¬ Raises rt userId context s) ∧
  ∃ before s rest, carrying db today userId permission .allow = before ++ s :: rest ∧
    Satisfied rt userId context s.conditions ∧ ∀ b ∈ before, ¬ Raises rt userId context b

/-- The reference decision, read off the resolver's lists. -/
theorem referenceDecision_iff {rt : JsRuntime} {db : Db} {today userId permission : String}
    {context : EvaluationContext} :
    ReferenceDecision rt db today userId permission context ↔
      (∃ s ∈ carrying db today userId permission .allow,
        Satisfied rt userId context s.conditions) ∧
      ∀ s ∈ carrying db today userId permission .deny,
        ¬ Satisfied rt userId context s.conditions := by
  have key : ∀ effect,
      (∃ st, Applies db today userId st ∧ st.effect = effect ∧ Carries db st permission ∧
        Satisfied rt userId context (conditionsOf db st)) ↔
      ∃ s ∈ carrying db today userId permission effect,
        Satisfied rt userId context s.conditions := by
    intro effect
    constructor
    · rintro ⟨st, happ, heff, hcar, hsat⟩
      obtain ⟨s, hs, hrep⟩ := exists_mem_statementsFor_of_applies happ
      refine ⟨s, mem_carrying.mpr ⟨hs, hrep.effect.trans heff, ?_⟩, ?_⟩
      · exact (hrep.permissions permission).mpr hcar
      · rw [hrep.conditions]
        exact hsat
    · rintro ⟨s, hs, hsat⟩
      obtain ⟨hmem, heff, hper⟩ := mem_carrying.mp hs
      obtain ⟨st, happ, hrep⟩ := exists_applies_of_mem_statementsFor hmem
      refine ⟨st, happ, hrep.effect.symm.trans heff, ?_, ?_⟩
      · exact (hrep.permissions permission).mp hper
      · rw [← hrep.conditions]
        exact hsat
  unfold ReferenceDecision
  rw [key .allow, key .deny]
  simp

instance (rt : JsRuntime) (userId : String) (context : EvaluationContext)
    (conditions : List StatementCondition) :
    Decidable (Satisfied rt userId context conditions) :=
  inferInstanceAs (Decidable (∀ c ∈ conditions, evaluateCondition rt c userId context = .ok true))

instance (rt : JsRuntime) (db : Db) (today userId permission : String)
    (context : EvaluationContext) :
    Decidable (ReferenceDecision rt db today userId permission context) :=
  decidable_of_iff _ referenceDecision_iff.symm

instance (rt : JsRuntime) (db : Db) (today userId permission : String)
    (context : EvaluationContext) : Decidable (Granted rt db today userId permission context) :=
  inferInstanceAs (Decidable (canActivate _ _ = .ok true))

/-- A statement without conditions is satisfied. -/
theorem satisfied_of_hasConditions_false {rt : JsRuntime} {db : Db} {today userId : String}
    {context : EvaluationContext} {s : ResolvedStatement}
    (hs : s ∈ statementsFor db today userId none) (h : s.hasConditions = false) :
    Satisfied rt userId context s.conditions := by
  obtain ⟨st, -, hrep⟩ := exists_applies_of_mem_statementsFor hs
  have hnil : s.conditions = [] := by
    rw [hrep.conditions, ← List.isEmpty_iff]
    simpa [hrep.hasConditions] using h
  rw [hnil]
  intro c hc
  cases hc

theorem mem_permissions_iff {db : Db} {today userId permission : String} :
    permission ∈ (resolveForUser db today userId).permissions ↔
      permission ∈ (computeAllowDenyConditional (statementsFor db today userId none)).1 := by
  rw [← resolveForUser_lists]

theorem mem_conditional_permissions_iff {db : Db} {today userId permission : String} :
    permission ∈ (resolveForUser db today userId).conditional_permissions ↔
      permission ∈ (computeAllowDenyConditional (statementsFor db today userId none)).2 := by
  rw [← resolveForUser_lists]

/-- The evaluation answers `true` when no deny statement is satisfied and it reaches a
satisfied allow statement, without an exception on the way. -/
theorem evaluate_eq_ok_true {rt : JsRuntime} {db : Db} {today userId service : String}
    {permission : String} {context : EvaluationContext} :
    evaluate rt db today userId service permission context = .ok true ↔
      (∀ s ∈ carrying db today userId permission .deny,
        ¬ Satisfied rt userId context s.conditions) ∧
      EvaluatesThrough rt db today userId permission context := by
  have hdeny : ∀ s, conditionsHold rt s.conditions userId context = .ok false ↔
      ¬ Satisfied rt userId context s.conditions ∧ ¬ Raises rt userId context s := by
    intro s
    rw [not_raises_iff, ← conditionsHold_eq_ok_true]
    cases conditionsHold rt s.conditions userId context with
    | error e => simp
    | ok b => cases b <;> simp
  rw [evaluate_eq]
  simp only [matchesEffect_statementsFor]
  rw [overrideM_eq_ok_true, anyM_eq_ok_false, anyM_eq_ok_true]
  simp only [hdeny, conditionsHold_eq_ok_true, ← not_raises_iff]
  constructor
  · rintro ⟨hd, ha⟩
    exact ⟨fun s hs => (hd s hs).1, fun s hs => (hd s hs).2, ha⟩
  · rintro ⟨hd, hr, ha⟩
    exact ⟨fun s hs => ⟨hd s hs, hr s hs⟩, ha⟩

/-- **The guard never grants more than the reference decision.** -/
theorem reference_of_granted {rt : JsRuntime} {db : Db} {today userId permission : String}
    {context : EvaluationContext} (hu : userId ≠ "") (hp : permission.toList.count ':' = 1)
    (h : Granted rt db today userId permission context) :
    ReferenceDecision rt db today userId permission context := by
  rw [referenceDecision_iff]
  rcases (granted_iff rt db hu hp).mp h with hflat | ⟨-, heval⟩
  · -- The flat list: an unconditional allow, no unconditional deny, nothing conditional.
    rw [mem_permissions_iff, mem_computeAllowDenyConditional_fst] at hflat
    obtain ⟨⟨s, hs, hcond, heff, hper⟩, hdeny, hconditional⟩ := hflat
    refine ⟨⟨s, mem_carrying.mpr ⟨hs, heff, hper⟩,
      satisfied_of_hasConditions_false hs hcond⟩, ?_⟩
    intro d hd
    obtain ⟨hdmem, hdeff, hdper⟩ := mem_carrying.mp hd
    cases hdc : d.hasConditions with
    | false => exact absurd ⟨d, hdmem, hdc, hdeff, hdper⟩ hdeny
    | true => exact absurd ⟨d, hdmem, hdc, hdper⟩ hconditional
  · obtain ⟨hdeny, -, before, s, rest, hl, hsat, -⟩ := evaluate_eq_ok_true.mp heval
    exact ⟨⟨s, by rw [hl]; simp, hsat⟩, hdeny⟩

/-- A satisfied statement is evaluated without an exception. -/
theorem not_raises_of_satisfied {rt : JsRuntime} {userId : String}
    {context : EvaluationContext} {s : ResolvedStatement}
    (h : Satisfied rt userId context s.conditions) : ¬ Raises rt userId context s :=
  not_raises_iff.mpr ⟨true, conditionsHold_eq_ok_true.mpr h⟩

/-- Where the reference decision allows, the guard grants exactly when the evaluation is not
cut short by an exception. -/
theorem granted_iff_evaluatesThrough {rt : JsRuntime} {db : Db}
    {today userId permission : String} {context : EvaluationContext} (hu : userId ≠ "")
    (hp : permission.toList.count ':' = 1)
    (href : ReferenceDecision rt db today userId permission context) :
    Granted rt db today userId permission context ↔
      EvaluatesThrough rt db today userId permission context := by
  obtain ⟨⟨s, hs, hsat⟩, hdeny⟩ := referenceDecision_iff.mp href
  obtain ⟨hsmem, hseff, hsper⟩ := mem_carrying.mp hs
  rw [granted_iff rt db hu hp, mem_permissions_iff, mem_conditional_permissions_iff,
    mem_computeAllowDenyConditional_fst, mem_computeAllowDenyConditional_snd,
    evaluate_eq_ok_true]
  by_cases hc : ∃ s ∈ statementsFor db today userId none,
      s.hasConditions = true ∧ permission ∈ s.permissions
  · simp only [hc, not_true_eq_false, and_false, false_or, true_and]
    exact ⟨And.right, fun h => ⟨hdeny, h⟩⟩
  · -- Nothing conditional carries the permission, so no carrying statement can raise.
    have hfree : ∀ t ∈ statementsFor db today userId none, permission ∈ t.permissions →
        t.hasConditions = false := by
      intro t ht hper
      cases htc : t.hasConditions with
      | false => rfl
      | true => exact absurd ⟨t, ht, htc, hper⟩ hc
    simp only [hc, not_false_eq_true, and_true, false_and, or_false]
    constructor
    · intro _
      obtain ⟨before, rest, hl⟩ := List.append_of_mem hs
      refine ⟨fun d hd => ?_, before, s, rest, hl, hsat, fun b hb => ?_⟩
      · obtain ⟨hdmem, -, hdper⟩ := mem_carrying.mp hd
        exact not_raises_of_satisfied
          (satisfied_of_hasConditions_false hdmem (hfree d hdmem hdper))
      · obtain ⟨hbmem, -, hbper⟩ := mem_carrying.mp
          (show b ∈ carrying db today userId permission .allow by rw [hl]; simp [hb])
        exact not_raises_of_satisfied
          (satisfied_of_hasConditions_false hbmem (hfree b hbmem hbper))
    · intro _
      refine ⟨⟨s, hsmem, hfree s hsmem hsper, hseff, hsper⟩, ?_⟩
      rintro ⟨d, hd, hdc, hdeff, hdper⟩
      exact hdeny d (mem_carrying.mpr ⟨hd, hdeff, hdper⟩)
        (satisfied_of_hasConditions_false hd hdc)

/-- A runtime for patterns without special characters, on which `^[$` does not compile. -/
def plainRuntime : JsRuntime where
  regExpTest source text :=
    if source = "^[$" then .error .syntaxError else .ok (source == "^" ++ text ++ "$")
  number _ := 0
  dateParse _ := none

/-- One user with one role and one policy. Two statements of the policy allow `order:view`:
the first for a department that matches `pattern`, the second without conditions. -/
def twoAllows (pattern : String) : Db where
  users := ⟨[{ id := "u" }], by decide⟩
  roles := ⟨[{ id := "r", code := "clerk" }], by decide⟩
  policies := ⟨[
    { id := "p", code := "orders", is_active := true, valid_from := none,
      valid_until := none }], by decide⟩
  usersRoles := [("u", "r")]
  rolesPolicies := [("r", "p")]
  policyStatements := ⟨[
    { id := "s1", policy_id := "p", effect := .allow, plane := .api },
    { id := "s2", policy_id := "p", effect := .allow, plane := .api }], by decide⟩
  statementTargets := ⟨[], by decide⟩
  statementActions := ⟨[
    { id := "a1", statement_id := "s1", permission_id := "order-view" },
    { id := "a2", statement_id := "s2", permission_id := "order-view" }], by decide⟩
  statementConditions := ⟨[
    { id := "c1", statement_id := "s1", operator := .stringLike,
      condition_key := "department", condition_value := pattern }], by simp⟩
  permissions := ⟨[
    { id := "order-view", service := "sales", permission := "order:view" }], by decide⟩

def salesContext : EvaluationContext := fun key =>
  if key = "department" then some "sales" else none

end ErpApi.Iam
