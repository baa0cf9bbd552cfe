import ErpApi.Iam.MutationEffects

set_option autoImplicit false

/-! # Administering at the same time

The three mutations that refresh sessions, one database statement after another: the assignment of
roles to a user, the attachment of policies to a role and the replacement of the statements of a
policy. What such a change writes is decided by its first statements (`Change.read`): `save`
compares the relation it has read with the wanted one, and the `DELETE` of `setStatements` removes
the statements it sees. Other changes may commit before this one does (`Diff.commit`). Without any
other change the two together are the mutation (`read_commit`).

A commit leaves alone what resolution answers for a user whose sessions it does not refresh, and
whether another change refreshes that user (`Writes.unchanged`, `Writes.refreshed_iff`).
-/

namespace ErpApi.Iam

/-! ## The statements of a change -/

inductive Change where
  | assignRoles (userId : String) (roleIds : List String)
  | attachPolicies (roleId : String) (policyIds : List String)
  | setStatements (policyId : String) (statements : List PolicyStatementInput) (draws : Draws)

def Change.mutation : Change → Mutation
  | .assignRoles userId roleIds => .assignRoles userId roleIds
  | .attachPolicies roleId policyIds => .attachPolicies roleId policyIds
  | .setStatements policyId statements draws => .setStatements policyId statements draws

/-- What the transaction of a change writes. -/
inductive Diff where
  | usersRoles (userId : String) (add remove : List String)
  | rolesPolicies (roleId : String) (add remove : List String)
  | policyStatements (policyId : String) (gone : List String)
      (statements : List PolicyStatementInput) (draws : Draws)

/-- The ids to add to a relation, and those to remove, as `save` reads them off the join table. -/
def relationDiff (pairs : List (String × String)) (id : String) (ids : List String) :
    List String × List String :=
  let current := (pairs.filter fun pair => pair.1 = id).map Prod.snd
  ((ids.filter fun i => !current.contains i).map uuid, current.filter fun i => !ids.contains i)

def Change.read (db : Db) : Change → Except ServiceError Diff
  | .assignRoles userId roleIds =>
      match (find (·.toBaseEntity) db.users.rows fun user => user.id = uuid userId).head? with
      | none => .error (.notFound ("User " ++ userId ++ " not found"))
      | some user =>
          let diff := relationDiff db.usersRoles user.id roleIds
          .ok (.usersRoles user.id diff.1 diff.2)
  | .attachPolicies roleId policyIds =>
      match (find (·.toBaseEntity) db.roles.rows fun role => role.id = uuid roleId).head? with
      | none => .error (.notFound ("Role " ++ roleId ++ " not found"))
      | some role =>
          let diff := relationDiff db.rolesPolicies role.id policyIds
          .ok (.rolesPolicies role.id diff.1 diff.2)
  | .setStatements policyId statements draws =>
      let gone := (db.policyStatements.rows.filter fun s => s.policy_id = uuid policyId).map (·.id)
      .ok (.policyStatements (uuid policyId) gone statements draws)

/-- The transaction of `save` on a join table. -/
def writeRelation (pairs : List (String × String)) (id : String) (add remove : List String)
    (exists_ : String → Bool) (foreignKey : String) :
    Except ServiceError (List (String × String)) :=
  let inserted := pairs ++ add.map fun i => (id, i)
  if !add.all exists_ then .error (.foreignKeyViolation foreignKey)
  else if ¬ inserted.Nodup then .error (.uniqueViolation "id")
  else .ok (inserted.filter fun pair => !(pair.1 = id && remove.contains pair.2))

/-- The statements of the policy that were there for the `DELETE`, and what refers to them. -/
def deleteSeen (db : Db) (policyId : String) (seen : List String) : Db :=
  let gone := (db.policyStatements.rows.filter fun s =>
    s.policy_id = policyId && seen.contains s.id).map (·.id)
  { db with
    policyStatements := db.policyStatements.filter fun s =>
      !(s.policy_id = policyId && seen.contains s.id)
    statementTargets := db.statementTargets.filter fun t => !gone.contains t.statement_id
    statementActions := db.statementActions.filter fun a => !gone.contains a.statement_id
    statementConditions := db.statementConditions.filter fun c => !gone.contains c.statement_id }

def Diff.commit (db : Db) : Diff → Except ServiceError Db
  | .usersRoles userId add remove => do
      let pairs ← writeRelation db.usersRoles userId add remove
        (fun id => db.roles.rows.any fun role => role.id = id) "fk_users_roles_role_id"
      return { db with usersRoles := pairs }
  | .rolesPolicies roleId add remove => do
      let pairs ← writeRelation db.rolesPolicies roleId add remove
        (fun id => db.policies.rows.any fun policy => policy.id = id) "fk_roles_policies_policy_id"
      return { db with rolesPolicies := pairs }
  | .policyStatements policyId gone statements draws =>
      insertStatements draws policyId (deleteSeen db policyId gone) 0 statements

theorem deleteSeen_all (db : Db) (policyId : String) :
    deleteSeen db policyId
        ((db.policyStatements.rows.filter fun s => s.policy_id = policyId).map (·.id)) =
      deleteStatements db policyId := by
  have hseen : ∀ s ∈ db.policyStatements.rows, (decide (s.policy_id = policyId) &&
      ((db.policyStatements.rows.filter fun s => s.policy_id = policyId).map (·.id)).contains
        s.id) = decide (s.policy_id = policyId) := by
    intro s hs
    by_cases hp : s.policy_id = policyId
    · have hmem : s.id ∈ (db.policyStatements.rows.filter fun s =>
          s.policy_id = policyId).map (·.id) :=
        List.mem_map_of_mem (List.mem_filter.mpr ⟨hs, by simpa using hp⟩)
      rw [List.contains_iff_mem.mpr hmem, Bool.and_true]
    · simp [hp]
  have hgone : (db.policyStatements.rows.filter fun s => decide (s.policy_id = policyId) &&
      ((db.policyStatements.rows.filter fun s => s.policy_id = policyId).map (·.id)).contains
        s.id) = db.policyStatements.rows.filter fun s => s.policy_id = policyId :=
    List.filter_congr hseen
  have hkeep : (db.policyStatements.filter fun s => !(decide (s.policy_id = policyId) &&
      ((db.policyStatements.rows.filter fun s => s.policy_id = policyId).map (·.id)).contains
        s.id)) = db.policyStatements.filter fun s => s.policy_id ≠ policyId := by
    refine Table.filter_congr _ fun s hs => ?_
    rw [hseen s hs, decide_not]
  unfold deleteSeen deleteStatements
  rw [hgone, hkeep]

/-- **One change on its own** is the mutation. -/
theorem read_commit (change : Change) (db : Db) :
    (change.read db >>= fun diff => diff.commit db) = change.mutation.write db := by
  cases change with
  | assignRoles userId roleIds =>
      simp only [Change.read, Change.mutation, Mutation.write, Db.assignRoles]
      cases (find (·.toBaseEntity) db.users.rows fun user => user.id = uuid userId).head? with
      | none => rfl
      | some user => rfl
  | attachPolicies roleId policyIds =>
      simp only [Change.read, Change.mutation, Mutation.write, Db.attachPolicies]
      cases (find (·.toBaseEntity) db.roles.rows fun role => role.id = uuid roleId).head? with
      | none => rfl
      | some role => rfl
  | setStatements policyId statements draws =>
      show insertStatements draws (uuid policyId) (deleteSeen db (uuid policyId) _) 0 statements = _
      rw [deleteSeen_all]
      rfl

/-! ## What a commit leaves alone -/

/-- The diff is that of the change: it is about the same user, role or policy. -/
def Diff.Of : Change → Diff → Prop
  | .assignRoles userId _, .usersRoles id _ _ => id = uuid userId
  | .attachPolicies roleId _, .rolesPolicies id _ _ => id = uuid roleId
  | .setStatements policyId _ _, .policyStatements id _ _ _ => id = uuid policyId
  | _, _ => False

/-- What a commit of the change does to the database. -/
def Writes (db db' : Db) : Change → Prop
  | .assignRoles userId _ => ∃ pairs, db' = { db with usersRoles := pairs } ∧
      ∀ id x, id ≠ uuid userId → ((id, x) ∈ pairs ↔ (id, x) ∈ db.usersRoles)
  | .attachPolicies roleId _ => ∃ pairs, db' = { db with rolesPolicies := pairs } ∧
      ∀ id x, id ≠ uuid roleId → ((id, x) ∈ pairs ↔ (id, x) ∈ db.rolesPolicies)
  | .setStatements policyId _ _ => SameElsewhere (uuid policyId) db db'

theorem Change.read_of {change : Change} {db : Db} {diff : Diff}
    (h : change.read db = .ok diff) : diff.Of change := by
  cases change with
  | assignRoles userId roleIds =>
      rw [Change.read] at h
      split at h
      · cases h
      · rename_i user hfind
        obtain rfl := Except.ok.inj h
        exact (head?_find User.toBaseEntity hfind).2.2
  | attachPolicies roleId policyIds =>
      rw [Change.read] at h
      split at h
      · cases h
      · rename_i role hfind
        obtain rfl := Except.ok.inj h
        exact (head?_find Role.toBaseEntity hfind).2.2
  | setStatements policyId statements draws =>
      obtain rfl := Except.ok.inj h
      rfl

theorem writeRelation_pairs {pairs pairs' : List (String × String)} {id : String}
    {add remove : List String} {exists_ : String → Bool} {foreignKey : String}
    (h : writeRelation pairs id add remove exists_ foreignKey = .ok pairs') :
    ∀ id' x, id' ≠ id → ((id', x) ∈ pairs' ↔ (id', x) ∈ pairs) := by
  unfold writeRelation at h
  dsimp only at h
  split at h
  · cases h
  · split at h
    · cases h
    · rw [← Except.ok.inj h]
      intro id' x hne
      simp [hne, Ne.symm hne]

theorem deleteSeen_elsewhere (db : Db) (policyId : String) (seen : List String) :
    SameElsewhere policyId db (deleteSeen db policyId seen) := by
  have hpolicy : ∀ s : PolicyStatement,
      (decide (s.policy_id = policyId) && seen.contains s.id) = true → s.policy_id = policyId := by
    intro s hs
    simpa using (Bool.and_eq_true_iff.mp hs).1
  refine sameElsewhere_of_gone ?_ fun s hs => not_mem_gone hpolicy hs
  show (db.policyStatements.rows.filter _).filter _ = db.policyStatements.rows.filter _
  rw [List.filter_filter]
  apply List.filter_congr
  intro s _
  by_cases hp : s.policy_id = policyId <;> simp [hp]

theorem Diff.commit_writes {change : Change} {diff : Diff} {db db' : Db}
    (hof : diff.Of change) (h : diff.commit db = .ok db') : Writes db db' change := by
  cases change with
  | assignRoles userId roleIds =>
      cases diff with
      | usersRoles id add remove =>
          obtain rfl : id = uuid userId := hof
          obtain ⟨pairs, hpairs, h⟩ := bind_eq_ok.mp h
          exact ⟨pairs, (Except.ok.inj h).symm, writeRelation_pairs hpairs⟩
      | _ => exact absurd hof not_false
  | attachPolicies roleId policyIds =>
      cases diff with
      | rolesPolicies id add remove =>
          obtain rfl : id = uuid roleId := hof
          obtain ⟨pairs, hpairs, h⟩ := bind_eq_ok.mp h
          exact ⟨pairs, (Except.ok.inj h).symm, writeRelation_pairs hpairs⟩
      | _ => exact absurd hof not_false
  | setStatements policyId statements draws =>
      cases diff with
      | policyStatements id gone statements' draws' =>
          obtain rfl : id = uuid policyId := hof
          exact insertStatements_elsewhere (deleteSeen_elsewhere db (uuid policyId) gone) h
      | _ => exact absurd hof not_false

/-- The change names its user as the database has it. -/
def Change.Canonical : Change → Prop
  | .assignRoles userId _ => uuid userId = userId
  | _ => True

instance : (change : Change) → Decidable change.Canonical
  | .assignRoles userId _ => inferInstanceAs (Decidable (uuid userId = userId))
  | .attachPolicies _ _ => .isTrue trivial
  | .setStatements _ _ _ => .isTrue trivial

/-- The users who have one of the roles. -/
def usersWithRoles (db : Db) (roleIds : List String) : List String :=
  ((find (·.toBaseEntity) db.users.rows fun user =>
    (db.rolesOf user.id).any fun role => roleIds.contains role.id).map (·.id)).eraseDups

theorem mem_usersWithRoles {db : Db} {userId : String} {roleIds : List String} :
    userId ∈ usersWithRoles db roleIds ↔ userId ∈ userType.liveIds db.users.rows ∧
      ∃ roleId ∈ roleIds, roleId ∈ roleType.liveIds db.roles.rows ∧
        (userId, roleId) ∈ db.usersRoles := by
  simp only [usersWithRoles, List.mem_eraseDups, List.mem_map, mem_find, List.any_eq_true,
    Db.mem_rolesOf, EntityType.mem_liveIds, List.contains_iff_mem]
  constructor
  · rintro ⟨user, ⟨huser, hlive, role, ⟨hrole, hlive', hpair⟩, hmem⟩, rfl⟩
    exact ⟨⟨user, huser, hlive, rfl⟩, role.id, hmem, ⟨role, hrole, hlive', rfl⟩, hpair⟩
  · rintro ⟨⟨user, huser, hlive, rfl⟩, roleId, hmem, ⟨role, hrole, hlive', rfl⟩, hpair⟩
    exact ⟨user, ⟨huser, hlive, role, ⟨hrole, hlive', hpair⟩, hmem⟩, rfl⟩

theorem nodup_usersWithRoles (db : Db) (roleIds : List String) :
    (usersWithRoles db roleIds).Nodup := by
  have hnodup := nodup_map_find (·.toBaseEntity) db.users.pk fun user =>
    (db.rolesOf user.id).any fun role => roleIds.contains role.id
  rw [usersWithRoles, eraseDups_of_nodup hnodup]
  exact hnodup

section Writes

variable {db db' : Db} {change : Change} {userId : String}

/-- The tables that no change writes. -/
theorem Writes.same (h : Writes db db' change) :
    db'.users = db.users ∧ db'.roles = db.roles ∧ db'.policies = db.policies := by
  cases change with
  | assignRoles id roleIds =>
      obtain ⟨pairs, rfl, -⟩ := h
      exact ⟨rfl, rfl, rfl⟩
  | attachPolicies id policyIds =>
      obtain ⟨pairs, rfl, -⟩ := h
      exact ⟨rfl, rfl, rfl⟩
  | setStatements policyId statements draws => exact ⟨h.users, h.roles, h.policies⟩

theorem ne_of_not_refreshed {id : String} {roleIds : List String}
    (hcanonical : (Change.assignRoles id roleIds).Canonical)
    (hout : userId ∉ (Change.assignRoles id roleIds).mutation.refreshes db') :
    userId ≠ uuid id := by
  rintro rfl
  refine hout ?_
  rw [hcanonical]
  exact List.mem_singleton_self id

/-- The user has the same roles after the commit. -/
theorem Writes.usersRoles_iff (h : Writes db db' change) (hcanonical : change.Canonical)
    (hout : userId ∉ change.mutation.refreshes db') (roleId : String) :
    (userId, roleId) ∈ db'.usersRoles ↔ (userId, roleId) ∈ db.usersRoles := by
  cases change with
  | assignRoles id roleIds =>
      obtain ⟨pairs, rfl, hothers⟩ := h
      exact hothers userId roleId (ne_of_not_refreshed hcanonical hout)
  | attachPolicies id policyIds =>
      obtain ⟨pairs, rfl, -⟩ := h
      exact Iff.rfl
  | setStatements policyId statements draws => rw [h.usersRoles]

/-- The user holds the same policies after the commit. -/
theorem Writes.holds_iff (h : Writes db db' change) (hcanonical : change.Canonical)
    (hout : userId ∉ change.mutation.refreshes db') (policyId : String) :
    db'.Holds userId policyId ↔ db.Holds userId policyId := by
  cases change with
  | assignRoles id roleIds =>
      have hroles := h.usersRoles_iff hcanonical hout
      obtain ⟨pairs, rfl, -⟩ := h
      refine and_congr_right fun _ => exists_congr fun roleId => and_congr_right fun _ => ?_
      exact and_congr_left fun _ => hroles roleId
  | attachPolicies id policyIds =>
      obtain ⟨pairs, rfl, hothers⟩ := h
      refine and_congr_right fun huser => exists_congr fun roleId => and_congr_right fun hrole =>
        and_congr_right fun hpair => and_congr_right fun _ => ?_
      refine hothers roleId policyId fun heq => hout ?_
      exact mem_usersByRole.mpr ⟨huser, heq ▸ hrole, heq ▸ hpair⟩
  | setStatements id statements draws => exact h.holds userId policyId

/-- **A commit leaves alone what resolution answers** for a user whose sessions the change does
not refresh. -/
theorem Writes.unchanged {today : String} (h : Writes db db' change)
    (hcanonical : change.Canonical) (hout : userId ∉ change.mutation.refreshes db') :
    Unchanged today db db' userId := by
  have hholds := h.holds_iff hcanonical hout
  refine statementsFor_congr hholds ?_ ?_
  · intro q _
    rw [Db.inForceIds, Db.inForceIds, h.same.2.2]
  · intro policyIds hheld
    cases change with
    | assignRoles id roleIds =>
        obtain ⟨pairs, rfl, -⟩ := h
        exact SameStatements.resolve ⟨rfl, rfl, rfl, rfl, rfl⟩ policyIds
    | attachPolicies id ids =>
        obtain ⟨pairs, rfl, -⟩ := h
        exact SameStatements.resolve ⟨rfl, rfl, rfl, rfl, rfl⟩ policyIds
    | setStatements id statements draws =>
        refine h.resolve fun hmem => hout ?_
        exact mem_usersByPolicy.mpr ((hholds _).mpr (hheld _ hmem))

/-- **A commit does not decide whether another change refreshes** a user whose sessions it does
not refresh itself. -/
theorem Writes.refreshed_iff (h : Writes db db' change) (hcanonical : change.Canonical)
    (hout : userId ∉ change.mutation.refreshes db') (other : Change) :
    userId ∈ other.mutation.refreshes db' ↔ userId ∈ other.mutation.refreshes db := by
  cases other with
  | assignRoles id roleIds => exact Iff.rfl
  | attachPolicies id policyIds =>
      refine mem_usersByRole.trans (Iff.trans ?_ mem_usersByRole.symm)
      rw [h.same.1, h.same.2.1, h.usersRoles_iff hcanonical hout]
  | setStatements id statements draws =>
      exact mem_usersByPolicy.trans
        ((h.holds_iff hcanonical hout (uuid id)).trans mem_usersByPolicy.symm)

theorem Writes.withRoles_iff (h : Writes db db' change) (hcanonical : change.Canonical)
    (hout : userId ∉ change.mutation.refreshes db') (roleIds : List String) :
    userId ∈ usersWithRoles db' roleIds ↔ userId ∈ usersWithRoles db roleIds := by
  rw [mem_usersWithRoles, mem_usersWithRoles, h.same.1, h.same.2.1]
  simp only [h.usersRoles_iff hcanonical hout]

end Writes

end ErpApi.Iam
