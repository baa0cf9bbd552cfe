import ErpApi.Basic.ShortCircuit
import ErpApi.Iam.AdminMutations
import ErpApi.Iam.ReferenceDecision

set_option autoImplicit false

/-! # What a mutation changes for a user

What permission resolution answers for a user depends on which policies the user holds through
roles, on which of these are in force, and on their statements (`statementsFor_congr`). From this
follows for each mutation whose permissions it leaves alone. The mutations that refresh sessions
afterwards change nothing for a user who is not refreshed, and most of the others change nothing
for anybody. The exceptions are in `Mutation.Misses`: `write_unchanged` holds without them.
-/

namespace ErpApi.Iam

/-! ## What resolution depends on -/

section Resolution

/-- The ids of the rows that a find returns. -/
def EntityType.liveIds {ρ : Type} (E : EntityType ρ) (rows : List ρ) : List String :=
  (rows.filter fun r => (E.base r).live).map fun r => (E.base r).id

/-- The user holds the policy through a role. -/
def Db.Holds (db : Db) (userId policyId : String) : Prop :=
  userId ∈ userType.liveIds db.users.rows ∧
    ∃ roleId ∈ roleType.liveIds db.roles.rows, (userId, roleId) ∈ db.usersRoles ∧
      policyId ∈ policyType.liveIds db.policies.rows ∧ (roleId, policyId) ∈ db.rolesPolicies

def inForce (today : String) (policy : Policy) : Bool :=
  policy.live && policy.is_active && isPolicyValidNow today policy

def Db.inForceIds (db : Db) (today : String) : List String :=
  (db.policies.rows.filter (inForce today)).map (·.id)

theorem EntityType.mem_liveIds {ρ : Type} {E : EntityType ρ} {rows : List ρ} {id : String} :
    id ∈ E.liveIds rows ↔ ∃ r ∈ rows, (E.base r).live = true ∧ (E.base r).id = id := by
  simp [EntityType.liveIds, and_assoc]

/-- The policies that resolution reaches are those that the user holds. -/
theorem mem_policyIdsOf {db : Db} {userId policyId : String} :
    policyId ∈ policyIdsOf db (rolesWithIds db (roleIdsOf db userId)) ↔
      db.Holds userId policyId := by
  simp only [policyIdsOf, rolesWithIds, List.mem_eraseDups, List.mem_flatMap, mem_find,
    List.contains_iff_mem, List.mem_map, Db.mem_policiesOf, mem_roleIdsOf, Db.Holds,
    EntityType.mem_liveIds]
  constructor
  · rintro ⟨role, ⟨hrole, hlive, huser, -, -, -, -, hpair⟩, policy, ⟨hpolicy, hplive, hattached⟩,
      rfl⟩
    exact ⟨huser, role.id, ⟨role, hrole, hlive, rfl⟩, hpair, ⟨policy, hpolicy, hplive, rfl⟩,
      hattached⟩
  · rintro ⟨huser, roleId, ⟨role, hrole, hlive, rfl⟩, hpair, ⟨policy, hpolicy, hplive, rfl⟩,
      hattached⟩
    exact ⟨role, ⟨hrole, hlive, huser, role, hrole, hlive, rfl, hpair⟩, policy,
      ⟨hpolicy, hplive, hattached⟩, rfl⟩

theorem activePolicies_ids (db : Db) (today : String) (policyIds : List String) :
    (activePolicies db today policyIds).map (·.id) =
      (db.inForceIds today).filter fun id => policyIds.contains id := by
  unfold activePolicies Db.inForceIds find
  rw [List.filter_map, List.filter_filter, List.filter_filter]
  congr 1
  apply List.filter_congr
  intro policy _
  simp only [inForce, Function.comp]
  ac_rfl

/-- **What resolution depends on**: the policies that the user holds, which of them are in force,
and their statements. -/
theorem statementsFor_congr {db db' : Db} {today userId : String}
    (hholds : ∀ policyId, db'.Holds userId policyId ↔ db.Holds userId policyId)
    (hforce : ∀ q : String → Bool, (∀ id, q id = true → db.Holds userId id) →
      (db'.inForceIds today).filter q = (db.inForceIds today).filter q)
    (hstatements : ∀ policyIds, (∀ id ∈ policyIds, db.Holds userId id) →
      resolveStatements db' policyIds none = resolveStatements db policyIds none) :
    statementsFor db' today userId none = statementsFor db today userId none := by
  unfold statementsFor
  rw [activePolicies_ids, activePolicies_ids]
  have hcontains : (fun id => (policyIdsOf db' (rolesWithIds db' (roleIdsOf db' userId))).contains
      id) = fun id => (policyIdsOf db (rolesWithIds db (roleIdsOf db userId))).contains id := by
    funext id
    rw [Bool.eq_iff_iff, List.contains_iff_mem, List.contains_iff_mem, mem_policyIdsOf,
      mem_policyIdsOf]
    exact hholds id
  have hheld : ∀ id, (policyIdsOf db (rolesWithIds db (roleIdsOf db userId))).contains id = true →
      db.Holds userId id := by
    intro id hid
    exact mem_policyIdsOf.mp (List.contains_iff_mem.mp hid)
  rw [hcontains, hforce _ hheld]
  apply hstatements
  intro id hid
  exact hheld id (List.mem_filter.mp hid).2

/-- The tables of the statements are the same. -/
structure SameStatements (db db' : Db) : Prop where
  policyStatements : db'.policyStatements = db.policyStatements
  statementTargets : db'.statementTargets = db.statementTargets
  statementActions : db'.statementActions = db.statementActions
  statementConditions : db'.statementConditions = db.statementConditions
  permissions : db'.permissions = db.permissions

theorem SameStatements.resolve {db db' : Db} (h : SameStatements db db') (policyIds : List String) :
    resolveStatements db' policyIds none = resolveStatements db policyIds none := by
  unfold resolveStatements
  rw [h.policyStatements, h.statementTargets, h.statementActions, h.statementConditions,
    h.permissions]

end Resolution

/-! ## What the base service does to the rows -/

namespace EntityType

variable {ρ : Type} {E : EntityType ρ} {t t' : E.Rows}

theorem create_rows {row : ρ} (h : E.create t row = .ok t') :
    t'.rows = t.rows ++ [row] ∧ (E.base row).id ∉ t.rows.map fun r => (E.base r).id := by
  unfold create at h
  split at h
  · cases h
  · rename_i t'' hinsert
    split at h
    · obtain rfl := Except.ok.inj h
      refine ⟨Table.rows_of_insert hinsert, fun hmem => ?_⟩
      rw [Table.insert, dif_pos hmem] at hinsert
      cases hinsert
    · cases h

theorem update_rows {id : String} {change : ρ → Except ServiceError ρ}
    (h : E.update t id change = .ok t') :
    ∃ row ∈ t.rows, (E.base row).live = true ∧ (E.base row).id = uuid id ∧
      ∃ row', change row = .ok row' ∧ t' = E.put t row row' := by
  unfold update at h
  split at h
  · cases h
  · rename_i row hfind
    have hrow := List.find?_some hfind
    simp only [Bool.and_eq_true, decide_eq_true_eq] at hrow
    split at h
    · cases h
    · rename_i row' hchange
      split at h
      · exact ⟨row, List.mem_of_find?_eq_some hfind, hrow.1, hrow.2, row', hchange,
          (Except.ok.inj h).symm⟩
      · cases h

theorem delete_rows {id : String} {now : Nat} (h : E.delete t id now = .ok t') :
    t'.rows = t.rows.map (E.markDeleted (uuid id) now) := by
  unfold delete at h
  split at h
  · cases h
  · rw [← Except.ok.inj h]
    rfl

theorem liveIds_append (rows : List ρ) (row : ρ) : E.liveIds (rows ++ [row]) =
    E.liveIds rows ++ if (E.base row).live then [(E.base row).id] else [] := by
  unfold liveIds
  rw [List.filter_append, List.map_append]
  cases hlive : (E.base row).live <;> simp [hlive]

/-- An update leaves the base columns as they are. -/
theorem put_base {row : ρ} (hrow : row ∈ t.rows) (row' : ρ) :
    (E.put t row row').rows.map E.base = t.rows.map E.base := by
  unfold put
  rw [Table.rows_update, List.map_map]
  apply List.map_congr_left
  intro r hr
  simp only [Function.comp]
  split
  · rename_i heq
    rw [E.base_setBase, t.eq_of_key_eq hr hrow heq]
  · rfl

theorem liveIds_of_base {rows rows' : List ρ} (h : rows'.map E.base = rows.map E.base) :
    E.liveIds rows' = E.liveIds rows := by
  have heq : ∀ rows : List ρ,
      E.liveIds rows = ((rows.map E.base).filter BaseEntity.live).map (·.id) := by
    intro rows
    rw [liveIds, List.filter_map, List.map_map]
    rfl
  rw [heq, heq, h]

theorem mem_liveIds_delete {id id' : String} {now : Nat} {rows : List ρ} :
    id' ∈ E.liveIds (rows.map (E.markDeleted id now)) ↔ id' ∈ E.liveIds rows ∧ id' ≠ id := by
  rw [mem_liveIds, mem_liveIds]
  constructor
  · rintro ⟨_, hmem, hlive, rfl⟩
    obtain ⟨r, hr, rfl⟩ := List.mem_map.mp hmem
    rw [E.markDeleted_id]
    by_cases heq : (E.base r).id = id
    · rw [markDeleted, if_pos heq, E.base_setBase] at hlive
      cases hlive
    · rw [markDeleted, if_neg heq] at hlive
      exact ⟨⟨r, hr, hlive, rfl⟩, heq⟩
  · rintro ⟨⟨r, hr, hlive, rfl⟩, hne⟩
    refine ⟨E.markDeleted id now r, List.mem_map_of_mem hr, ?_, E.markDeleted_id id now r⟩
    rw [markDeleted, if_neg hne]
    exact hlive

end EntityType

/-- The ids of the policies in force, among those that `q` selects, after a change of the rows. -/
theorem inForce_filter_congr {today : String} {f : Policy → Policy} {q : String → Bool}
    {rows : List Policy} (hid : ∀ r ∈ rows, (f r).id = r.id)
    (h : ∀ r ∈ rows, q r.id = true → inForce today (f r) = inForce today r) :
    (((rows.map f).filter (inForce today)).map (·.id)).filter q =
      ((rows.filter (inForce today)).map (·.id)).filter q := by
  induction rows with
  | nil => rfl
  | cons r rows ih =>
      have hrest := ih (fun r' hr' => hid r' (List.mem_cons_of_mem _ hr'))
        (fun r' hr' => h r' (List.mem_cons_of_mem _ hr'))
      have hidr := hid r List.mem_cons_self
      simp only [List.map_cons, List.filter_cons]
      cases hq : q r.id with
      | false =>
          cases inForce today (f r) <;> cases inForce today r <;> simp [hidr, hq, hrest]
      | true =>
          rw [h r List.mem_cons_self hq]
          cases inForce today r <;> simp [hidr, hq, hrest]

/-! ## Mutations that change nothing for a user -/

/-- Resolution finds the same statements for the user. -/
def Unchanged (today : String) (db db' : Db) (userId : String) : Prop :=
  statementsFor db' today userId none = statementsFor db today userId none

section Frames

variable {today userId : String} {db : Db}

theorem unchanged_users {users : Table User (·.id)}
    (h : (userId ∈ userType.liveIds users.rows ↔ userId ∈ userType.liveIds db.users.rows) ∨
      ∀ roleId, (userId, roleId) ∉ db.usersRoles) :
    Unchanged today db { db with users := users } userId := by
  refine statementsFor_congr (fun policyId => ?_) (fun _ _ => rfl) (fun ids _ =>
    SameStatements.resolve ⟨rfl, rfl, rfl, rfl, rfl⟩ ids)
  rcases h with hlive | hno
  · exact and_congr_left fun _ => hlive
  · refine iff_of_false ?_ ?_
    · rintro ⟨-, roleId, -, hpair, -⟩
      exact hno roleId hpair
    · rintro ⟨-, roleId, -, hpair, -⟩
      exact hno roleId hpair

theorem unchanged_roles {roles : Table Role (·.id)}
    (h : ∀ roleId, (userId, roleId) ∈ db.usersRoles →
      (roleId ∈ roleType.liveIds roles.rows ↔ roleId ∈ roleType.liveIds db.roles.rows)) :
    Unchanged today db { db with roles := roles } userId := by
  refine statementsFor_congr (fun policyId => ?_) (fun _ _ => rfl) (fun ids _ =>
    SameStatements.resolve ⟨rfl, rfl, rfl, rfl, rfl⟩ ids)
  refine and_congr_right fun _ => ⟨?_, ?_⟩
  · rintro ⟨roleId, hlive, hpair, hrest⟩
    exact ⟨roleId, (h roleId hpair).mp hlive, hpair, hrest⟩
  · rintro ⟨roleId, hlive, hpair, hrest⟩
    exact ⟨roleId, (h roleId hpair).mpr hlive, hpair, hrest⟩

theorem unchanged_policies {policies : Table Policy (·.id)}
    (hlive : ∀ roleId policyId, (roleId, policyId) ∈ db.rolesPolicies →
      (policyId ∈ policyType.liveIds policies.rows ↔
        policyId ∈ policyType.liveIds db.policies.rows))
    (hforce : ∀ q : String → Bool, (∀ id, q id = true → db.Holds userId id) →
      ((policies.rows.filter (inForce today)).map (·.id)).filter q =
        (db.inForceIds today).filter q) :
    Unchanged today db { db with policies := policies } userId := by
  refine statementsFor_congr (fun policyId => ?_) hforce (fun ids _ =>
    SameStatements.resolve ⟨rfl, rfl, rfl, rfl, rfl⟩ ids)
  refine and_congr_right fun _ => ⟨?_, ?_⟩
  · rintro ⟨roleId, hrole, hpair, hpolicy, hattached⟩
    exact ⟨roleId, hrole, hpair, (hlive roleId policyId hattached).mp hpolicy, hattached⟩
  · rintro ⟨roleId, hrole, hpair, hpolicy, hattached⟩
    exact ⟨roleId, hrole, hpair, (hlive roleId policyId hattached).mpr hpolicy, hattached⟩

theorem unchanged_usersRoles {pairs : List (String × String)}
    (h : ∀ roleId, (userId, roleId) ∈ pairs ↔ (userId, roleId) ∈ db.usersRoles) :
    Unchanged today db { db with usersRoles := pairs } userId := by
  refine statementsFor_congr (fun policyId => ?_) (fun _ _ => rfl) (fun ids _ =>
    SameStatements.resolve ⟨rfl, rfl, rfl, rfl, rfl⟩ ids)
  refine and_congr_right fun _ => exists_congr fun roleId => and_congr_right fun _ => ?_
  exact and_congr_left fun _ => h roleId

theorem unchanged_rolesPolicies {pairs : List (String × String)}
    (h : userId ∈ userType.liveIds db.users.rows →
      ∀ roleId ∈ roleType.liveIds db.roles.rows, (userId, roleId) ∈ db.usersRoles →
      ∀ policyId, (roleId, policyId) ∈ pairs ↔ (roleId, policyId) ∈ db.rolesPolicies) :
    Unchanged today db { db with rolesPolicies := pairs } userId := by
  refine statementsFor_congr (fun policyId => ?_) (fun _ _ => rfl) (fun ids _ =>
    SameStatements.resolve ⟨rfl, rfl, rfl, rfl, rfl⟩ ids)
  refine and_congr_right fun hlive => exists_congr fun roleId => and_congr_right fun hrole =>
    and_congr_right fun hpair => and_congr_right fun _ => ?_
  exact h hlive roleId hrole hpair policyId

/-- What `save` does to a join table: the pairs of other ids stay, and new ones refer to rows that
exist. -/
theorem saveRelation_pairs {pairs pairs' : List (String × String)} {id : String}
    {ids : List String} {exists_ : String → Bool} {foreignKey : String}
    (h : saveRelation pairs id ids exists_ foreignKey = .ok pairs') :
    (∀ id' x, id' ≠ id → ((id', x) ∈ pairs' ↔ (id', x) ∈ pairs)) ∧
      ∀ pair ∈ pairs', pair ∈ pairs ∨ pair.1 = id ∧ exists_ pair.2 = true := by
  unfold saveRelation at h
  dsimp only at h
  split at h
  · cases h
  · rename_i hexists
    split at h
    · cases h
    · rw [← Except.ok.inj h]
      constructor
      · intro id' x hne
        simp [hne, Ne.symm hne]
      · intro pair hmem
        rcases List.mem_append.mp (List.mem_filter.mp hmem).1 with hold | hnew
        · exact Or.inl hold
        · obtain ⟨x, hx, rfl⟩ := List.mem_map.mp hnew
          have hall := by simpa only [Bool.not_eq_true', Bool.not_eq_false] using hexists
          exact Or.inr ⟨rfl, List.all_eq_true.mp hall x hx⟩

end Frames

/-! ## Replacing the statements of a policy -/

/-- The statements of the other policies. -/
def Db.statementsElsewhere (db : Db) (policyId : String) : List PolicyStatement :=
  db.policyStatements.rows.filter fun s => s.policy_id ≠ policyId

/-- The tables that say who holds which policy are the same. -/
structure SameHolders (db db' : Db) : Prop where
  users : db'.users = db.users
  roles : db'.roles = db.roles
  policies : db'.policies = db.policies
  usersRoles : db'.usersRoles = db.usersRoles
  rolesPolicies : db'.rolesPolicies = db.rolesPolicies

theorem SameHolders.trans {db db' db'' : Db} (h : SameHolders db db') (h' : SameHolders db' db'') :
    SameHolders db db'' :=
  ⟨h'.users.trans h.users, h'.roles.trans h.roles, h'.policies.trans h.policies,
    h'.usersRoles.trans h.usersRoles, h'.rolesPolicies.trans h.rolesPolicies⟩

theorem SameHolders.holds {db db' : Db} (h : SameHolders db db') (userId policyId : String) :
    db'.Holds userId policyId ↔ db.Holds userId policyId := by
  rw [Db.Holds, Db.Holds, h.users, h.roles, h.policies, h.usersRoles, h.rolesPolicies]

/-- The rows of other policies are the same: their statements, and what refers to these. -/
structure SameElsewhere (policyId : String) (db db' : Db) : Prop extends SameHolders db db' where
  policyStatements : db'.statementsElsewhere policyId = db.statementsElsewhere policyId
  statementTargets :
    db'.statementTargets.rows.filter
        (fun t => ((db.statementsElsewhere policyId).map (·.id)).contains t.statement_id) =
      db.statementTargets.rows.filter
        fun t => ((db.statementsElsewhere policyId).map (·.id)).contains t.statement_id
  statementActions :
    db'.statementActions.rows.filter
        (fun a => ((db.statementsElsewhere policyId).map (·.id)).contains a.statement_id) =
      db.statementActions.rows.filter
        fun a => ((db.statementsElsewhere policyId).map (·.id)).contains a.statement_id
  statementConditions :
    db'.statementConditions.rows.filter
        (fun c => ((db.statementsElsewhere policyId).map (·.id)).contains c.statement_id) =
      db.statementConditions.rows.filter
        fun c => ((db.statementsElsewhere policyId).map (·.id)).contains c.statement_id
  permissions : db'.permissions = db.permissions

theorem SameElsewhere.trans {policyId : String} {db db' db'' : Db}
    (h : SameElsewhere policyId db db') (h' : SameElsewhere policyId db' db'') :
    SameElsewhere policyId db db'' := by
  obtain ⟨hh, hs, ht, ha, hc, hp⟩ := h
  obtain ⟨hh', hs', ht', ha', hc', hp'⟩ := h'
  rw [hs] at hs' ht' ha' hc'
  exact ⟨hh.trans hh', hs', ht'.trans ht, ha'.trans ha, hc'.trans hc, hp'.trans hp⟩

/-- A find that selects among some rows. -/
theorem find_filter {ρ : Type} (base : ρ → BaseEntity) {cond keep : ρ → Bool}
    (h : ∀ r, cond r = true → keep r = true) (rows : List ρ) :
    find base (rows.filter keep) cond = find base rows cond := by
  unfold find
  rw [List.filter_filter]
  apply List.filter_congr
  intro r _
  cases hcond : cond r with
  | false => simp
  | true => simp [h r hcond]

theorem find_eq_of_filter {ρ : Type} (base : ρ → BaseEntity) {rows rows' : List ρ}
    {cond keep : ρ → Bool} (heq : rows'.filter keep = rows.filter keep)
    (h : ∀ r, cond r = true → keep r = true) : find base rows' cond = find base rows cond := by
  rw [← find_filter base h rows', ← find_filter base h rows, heq]

/-- Resolution of other policies does not see the difference. -/
theorem SameElsewhere.resolve {policyId : String} {db db' : Db}
    (h : SameElsewhere policyId db db') {policyIds : List String} (hno : policyId ∉ policyIds) :
    resolveStatements db' policyIds none = resolveStatements db policyIds none := by
  have hstatements : (find (·.toBaseEntity) db'.policyStatements.rows fun s =>
      policyIds.contains s.policy_id) = find (·.toBaseEntity) db.policyStatements.rows fun s =>
      policyIds.contains s.policy_id := by
    refine find_eq_of_filter _ h.policyStatements ?_
    intro s hs
    have hne : s.policy_id ≠ policyId := by
      intro heq
      exact hno (heq ▸ List.contains_iff_mem.mp hs)
    simpa using hne
  -- The statements that are found are statements of other policies.
  have helsewhere : ∀ id, ((find (·.toBaseEntity) db.policyStatements.rows fun s =>
      policyIds.contains s.policy_id).map (·.id)).contains id = true →
      ((db.statementsElsewhere policyId).map (·.id)).contains id = true := by
    intro id hid
    obtain ⟨s, hs, rfl⟩ := List.mem_map.mp (List.contains_iff_mem.mp hid)
    obtain ⟨hmem, -, hin⟩ := mem_find.mp hs
    have hne : s.policy_id ≠ policyId := by
      intro heq
      exact hno (heq ▸ List.contains_iff_mem.mp hin)
    refine List.contains_iff_mem.mpr (List.mem_map_of_mem (List.mem_filter.mpr ⟨hmem, ?_⟩))
    simpa using hne
  have htargets := find_eq_of_filter (·.toBaseEntity) h.statementTargets
    fun t => helsewhere t.statement_id
  have hactions := find_eq_of_filter (·.toBaseEntity) h.statementActions
    fun a => helsewhere a.statement_id
  have hconditions := find_eq_of_filter (·.toBaseEntity) h.statementConditions
    fun c => helsewhere c.statement_id
  unfold resolveStatements
  simp only [hstatements, htargets, hactions, hconditions, h.permissions]

/-- Rows that refer to statements which are gone are not seen from elsewhere. -/
theorem sameElsewhere_of_gone {policyId : String} {db : Db}
    {statements : Table PolicyStatement (·.id)} {gone : List String}
    (hstatements : (statements.rows.filter fun s => s.policy_id ≠ policyId) =
      db.statementsElsewhere policyId)
    (hgone : ∀ s ∈ db.statementsElsewhere policyId, s.id ∉ gone) :
    SameElsewhere policyId db
      { db with
        policyStatements := statements
        statementTargets := db.statementTargets.filter fun t => !gone.contains t.statement_id
        statementActions := db.statementActions.filter fun a => !gone.contains a.statement_id
        statementConditions :=
          db.statementConditions.filter fun c => !gone.contains c.statement_id } := by
  have hfilter : ∀ {ρ : Type} (key : ρ → String) (rows : List ρ),
      (rows.filter fun r => !gone.contains (key r)).filter
          (fun r => ((db.statementsElsewhere policyId).map (·.id)).contains (key r)) =
        rows.filter fun r => ((db.statementsElsewhere policyId).map (·.id)).contains (key r) := by
    intro ρ key rows
    rw [List.filter_filter]
    apply List.filter_congr
    intro r _
    cases hr : ((db.statementsElsewhere policyId).map (·.id)).contains (key r) with
    | false => rw [Bool.false_and]
    | true =>
        obtain ⟨s, hs, heq⟩ := List.mem_map.mp (List.contains_iff_mem.mp hr)
        have hno : gone.contains (key r) = false := by
          rw [Bool.eq_false_iff, ne_eq, List.contains_iff_mem, ← heq]
          exact hgone s hs
        rw [hno]
        rfl
  exact ⟨⟨rfl, rfl, rfl, rfl, rfl⟩, hstatements, hfilter StatementTarget.statement_id _,
    hfilter StatementAction.statement_id _, hfilter StatementCondition.statement_id _, rfl⟩

/-- A statement elsewhere is not among those of the policy, because the ids are distinct. -/
theorem not_mem_gone {db : Db} {policyId : String} {p : PolicyStatement → Bool}
    (hp : ∀ s, p s = true → s.policy_id = policyId) {s : PolicyStatement}
    (hs : s ∈ db.statementsElsewhere policyId) :
    s.id ∉ (db.policyStatements.rows.filter p).map (·.id) := by
  intro hgone
  obtain ⟨hmem, hne⟩ := List.mem_filter.mp hs
  obtain ⟨s', hs', heq⟩ := List.mem_map.mp hgone
  obtain ⟨hmem', hpolicy⟩ := List.mem_filter.mp hs'
  rw [db.policyStatements.eq_of_key_eq hmem' hmem heq] at hpolicy
  simp only [decide_eq_true_eq] at hne
  exact hne (hp s hpolicy)

theorem deleteStatements_elsewhere (db : Db) (policyId : String) :
    SameElsewhere policyId db (deleteStatements db policyId) := by
  refine sameElsewhere_of_gone ?_ fun s hs => not_mem_gone (by simp) hs
  show (db.policyStatements.rows.filter _).filter _ = db.policyStatements.rows.filter _
  rw [List.filter_filter]
  simp only [Bool.and_self]

theorem insertAll_rows {ρ κ : Type} [DecidableEq κ] {key : ρ → κ} {t t' : Table ρ key}
    {rows : List ρ} (h : insertAll t rows = .ok t') :
    t'.rows = t.rows ++ rows ∧ ∀ r ∈ rows, key r ∉ t.rows.map key := by
  induction rows generalizing t with
  | nil =>
      obtain rfl := Except.ok.inj h
      simp
  | cons row rows ih =>
      rw [insertAll, List.foldlM_cons] at h
      cases hinsert : t.insert row with
      | none =>
          rw [hinsert] at h
          cases h
      | some t'' =>
          rw [hinsert] at h
          obtain ⟨hrows, hfresh⟩ := ih h
          have hfirst := Table.rows_of_insert hinsert
          refine ⟨by rw [hrows, hfirst, List.append_assoc]; rfl, ?_⟩
          intro r hr
          rcases List.mem_cons.mp hr with rfl | hr
          · intro hmem
            rw [Table.insert, dif_pos hmem] at hinsert
            cases hinsert
          · intro hmem
            refine hfresh r hr ?_
            rw [hfirst, List.map_append]
            exact List.mem_append_left _ hmem

/-- Rows of a new statement are not seen from elsewhere. -/
theorem filter_append_new {ρ : Type} {key : ρ → String} {ids : List String} {id : String}
    (hid : id ∉ ids) {rows new : List ρ} (hnew : ∀ r ∈ new, key r = id) :
    (rows ++ new).filter (fun r => ids.contains (key r)) =
      rows.filter fun r => ids.contains (key r) := by
  have hnil : new.filter (fun r => ids.contains (key r)) = [] := by
    rw [List.filter_eq_nil_iff]
    intro r hr
    rw [hnew r hr, List.contains_iff_mem]
    exact hid
  rw [List.filter_append, hnil, List.append_nil]

theorem insertStatement_elsewhere {draws : Draws} {policyId : String}
    {input : PolicyStatementInput} {i : Nat} {db db' : Db}
    (h : insertStatement draws policyId input i db = .ok db') :
    SameElsewhere policyId db db' := by
  unfold insertStatement at h
  by_cases hpolicy : (db.policies.rows.all fun policy => policy.id ≠ policyId) = true
  · rw [if_pos hpolicy] at h
    cases h
  · rw [if_neg hpolicy] at h
    obtain ⟨policyStatements, hs, h⟩ := bind_eq_ok.mp h
    obtain ⟨statementTargets, ht, h⟩ := bind_eq_ok.mp h
    obtain ⟨statementActions, ha, h⟩ := bind_eq_ok.mp h
    cases hconditions : input.conditions with
    | none =>
        rw [hconditions] at h
        cases h
    | some conditions =>
        rw [hconditions] at h
        obtain ⟨statementConditions, hc, h⟩ := bind_eq_ok.mp h
        obtain rfl := Except.ok.inj h
        -- The id of the new statement is not that of a statement elsewhere.
        obtain ⟨hrows, hfresh⟩ := insertAll_rows hs
        have hid : draws.statement i ∉ (db.statementsElsewhere policyId).map (·.id) := by
          intro hmem
          refine hfresh _ (List.mem_singleton_self _) ?_
          obtain ⟨s, hs, heq⟩ := List.mem_map.mp hmem
          exact List.mem_map.mpr ⟨s, (List.mem_filter.mp hs).1, heq⟩
        have hnew : ∀ {ρ α : Type} {key : ρ → String} {f : Nat → α → ρ} {xs : List α},
            (∀ j x, key (f j x) = draws.statement i) →
            ∀ r ∈ xs.mapIdx f, key r = draws.statement i := by
          intro ρ α key f xs hf r hr
          obtain ⟨j, hj, rfl⟩ := List.mem_mapIdx.mp hr
          exact hf j _
        refine ⟨⟨rfl, rfl, rfl, rfl, rfl⟩, ?_, ?_, ?_, ?_, rfl⟩
        · show policyStatements.rows.filter _ = db.policyStatements.rows.filter _
          rw [hrows, List.filter_append]
          simp [statementRow]
        · show statementTargets.rows.filter _ = _
          rw [(insertAll_rows ht).1]
          exact filter_append_new hid (hnew fun _ _ => rfl)
        · show statementActions.rows.filter _ = _
          rw [(insertAll_rows ha).1]
          exact filter_append_new hid (hnew fun _ _ => rfl)
        · show statementConditions.rows.filter _ = _
          rw [(insertAll_rows hc).1]
          exact filter_append_new hid (hnew fun _ _ => rfl)

theorem insertStatements_elsewhere {draws : Draws} {policyId : String} {db db₁ db' : Db} {i : Nat}
    {statements : List PolicyStatementInput} (hdb₁ : SameElsewhere policyId db db₁)
    (h : insertStatements draws policyId db₁ i statements = .ok db') :
    SameElsewhere policyId db db' := by
  induction statements generalizing i db₁ with
  | nil =>
      obtain rfl := Except.ok.inj h
      exact hdb₁
  | cons input statements ih =>
      rw [insertStatements] at h
      obtain ⟨db₂, hfirst, hrest⟩ := bind_eq_ok.mp h
      exact ih (hdb₁.trans (insertStatement_elsewhere hfirst)) hrest

/-- **Replacing the statements of a policy** changes nothing elsewhere. -/
theorem setStatements_elsewhere {db db' : Db} {policyId : String}
    {statements : List PolicyStatementInput} {draws : Draws}
    (h : db.setStatements policyId statements draws = .ok db') :
    SameElsewhere (uuid policyId) db db' :=
  insertStatements_elsewhere (deleteStatements_elsewhere db (uuid policyId)) h

/-! ## The users whose sessions are refreshed -/

theorem mem_usersByRole {db : Db} {userId roleId : String} :
    userId ∈ usersByRole db roleId ↔ userId ∈ userType.liveIds db.users.rows ∧
      uuid roleId ∈ roleType.liveIds db.roles.rows ∧ (userId, uuid roleId) ∈ db.usersRoles := by
  simp only [usersByRole, List.mem_map, mem_find, List.any_eq_true, decide_eq_true_eq,
    Db.mem_rolesOf, EntityType.mem_liveIds]
  constructor
  · rintro ⟨user, ⟨huser, hlive, role, ⟨hrole, hrlive, hpair⟩, hid⟩, rfl⟩
    exact ⟨⟨user, huser, hlive, rfl⟩, ⟨role, hrole, hrlive, hid⟩, hid ▸ hpair⟩
  · rintro ⟨⟨user, huser, hlive, rfl⟩, ⟨role, hrole, hrlive, hid⟩, hpair⟩
    exact ⟨user, ⟨huser, hlive, role, ⟨hrole, hrlive, hid ▸ hpair⟩, hid⟩, rfl⟩

theorem mem_usersByPolicy {db : Db} {userId policyId : String} :
    userId ∈ usersByPolicy db policyId ↔ db.Holds userId (uuid policyId) := by
  have hroles : ∀ role, role ∈ find (·.toBaseEntity) db.roles.rows (fun role =>
      (db.policiesOf role.id).any fun policy => policy.id = uuid policyId) ↔
      role ∈ db.roles.rows ∧ role.live = true ∧
        uuid policyId ∈ policyType.liveIds db.policies.rows ∧
        (role.id, uuid policyId) ∈ db.rolesPolicies := by
    intro role
    simp only [mem_find, List.any_eq_true, decide_eq_true_eq, Db.mem_policiesOf,
      EntityType.mem_liveIds]
    constructor
    · rintro ⟨hrole, hlive, policy, ⟨hpolicy, hplive, hpair⟩, hid⟩
      exact ⟨hrole, hlive, ⟨policy, hpolicy, hplive, hid⟩, hid ▸ hpair⟩
    · rintro ⟨hrole, hlive, ⟨policy, hpolicy, hplive, hid⟩, hpair⟩
      exact ⟨hrole, hlive, policy, ⟨hpolicy, hplive, hid ▸ hpair⟩, hid⟩
  unfold usersByPolicy
  dsimp only
  split
  · -- No role has the policy.
    rename_i hnone
    refine iff_of_false List.not_mem_nil ?_
    rintro ⟨-, roleId, hrole, -, hpolicy, hpair⟩
    obtain ⟨role, hmem, hlive, rfl⟩ := EntityType.mem_liveIds.mp hrole
    have hfound := (hroles role).mpr ⟨hmem, hlive, hpolicy, hpair⟩
    rw [List.length_eq_zero_iff.mp hnone] at hfound
    cases hfound
  · simp only [List.mem_eraseDups, List.mem_map, mem_find, List.any_eq_true, Db.mem_rolesOf,
      List.contains_iff_mem, hroles, Db.Holds, EntityType.mem_liveIds]
    constructor
    · rintro ⟨user, ⟨huser, hlive, role, ⟨hrole, hrlive, hpair⟩, role', ⟨-, -, hpolicy, hattached⟩,
        hid⟩, rfl⟩
      exact ⟨⟨user, huser, hlive, rfl⟩, role.id, ⟨role, hrole, hrlive, rfl⟩, hpair, hpolicy,
        hid ▸ hattached⟩
    · rintro ⟨⟨user, huser, hlive, rfl⟩, roleId, ⟨role, hrole, hrlive, rfl⟩, hpair, hpolicy,
        hattached⟩
      exact ⟨user, ⟨huser, hlive, role, ⟨hrole, hrlive, hpair⟩, role,
        ⟨hrole, hrlive, hpolicy, hattached⟩, rfl⟩, rfl⟩

theorem eraseDups_of_nodup {xs : List String} (h : xs.Nodup) : xs.eraseDups = xs := by
  induction xs with
  | nil => rfl
  | cons x xs ih =>
      obtain ⟨hx, hxs⟩ := List.nodup_cons.mp h
      have hfilter : xs.filter (fun y => !y == x) = xs := by
        rw [List.filter_eq_self]
        intro y hy
        have hne : y ≠ x := fun heq => hx (heq ▸ hy)
        simpa using hne
      rw [List.eraseDups_cons, hfilter, ih hxs]

/-- No user is refreshed twice. -/
theorem Mutation.nodup_refreshes (db : Db) (m : Mutation) : (m.refreshes db).Nodup := by
  cases m with
  | assignRoles userId roleIds => exact List.nodup_singleton userId
  | attachPolicies roleId policyIds => exact nodup_map_find _ db.users.pk _
  | setStatements policyId statements draws =>
      show (usersByPolicy db policyId).Nodup
      unfold usersByPolicy
      dsimp only
      split
      · exact List.nodup_nil
      · have hnodup := nodup_map_find (·.toBaseEntity) db.users.pk fun user =>
          (db.rolesOf user.id).any fun role => ((find (·.toBaseEntity) db.roles.rows fun role =>
            (db.policiesOf role.id).any fun policy => policy.id = uuid policyId).map
              (·.id)).contains role.id
        rw [eraseDups_of_nodup hnodup]
        exact hnodup
  | _ => exact List.nodup_nil

/-! ## One mutation -/

/-- The foreign keys of the join tables. -/
structure Db.ForeignKeys (db : Db) : Prop where
  users : ∀ pair ∈ db.usersRoles, pair.1 ∈ db.users.rows.map (·.id)
  roles : ∀ pair ∈ db.usersRoles, pair.2 ∈ db.roles.rows.map (·.id)
  policies : ∀ pair ∈ db.rolesPolicies, pair.2 ∈ db.policies.rows.map (·.id)

/-- The mutation changes what resolution answers for the user, and does not refresh the sessions:
the delete of a user who holds a policy in force, the update of a policy of the user that takes it
into force or out of force, and an assignment of roles to an id that is not written as it is
stored. -/
def Mutation.Misses (today : String) (db : Db) (userId : String) : Mutation → Prop
  | .deleteUser id _ =>
      userId = uuid id ∧ ∃ policyId ∈ db.inForceIds today, db.Holds userId policyId
  | .updatePolicy id dto =>
      ∃ policy ∈ db.policies.rows, policy.id = uuid id ∧ db.Holds userId policy.id ∧
        ∃ policy', dto.merge policy = .ok policy' ∧ inForce today policy' ≠ inForce today policy
  | .assignRoles id _ => userId = uuid id ∧ id ≠ userId
  | _ => False

section Mutations

variable {today : String} {db db' : Db}

/-- The rows of a table keep their ids. -/
def EntityType.Keeps {ρ : Type} (E : EntityType ρ) (t t' : E.Rows) : Prop :=
  ∀ id ∈ t.rows.map (fun r => (E.base r).id), id ∈ t'.rows.map fun r => (E.base r).id

theorem EntityType.create_keeps {ρ : Type} {E : EntityType ρ} {t t' : E.Rows} {row : ρ}
    (h : E.create t row = .ok t') : E.Keeps t t' := by
  intro id hid
  rw [(create_rows h).1, List.map_append]
  exact List.mem_append_left _ hid

theorem EntityType.update_keeps {ρ : Type} {E : EntityType ρ} {t t' : E.Rows} {id : String}
    {change : ρ → Except ServiceError ρ} (h : E.update t id change = .ok t') : E.Keeps t t' := by
  obtain ⟨row, hrow, -, -, row', -, rfl⟩ := update_rows h
  intro id hid
  have hids := congrArg (List.map BaseEntity.id) (put_base hrow row')
  rw [List.map_map, List.map_map] at hids
  exact hids.symm ▸ hid

theorem EntityType.delete_keeps {ρ : Type} {E : EntityType ρ} {t t' : E.Rows} {id : String}
    {now : Nat} (h : E.delete t id now = .ok t') : E.Keeps t t' := by
  intro id' hid
  obtain ⟨r, hr, rfl⟩ := List.mem_map.mp hid
  rw [delete_rows h]
  exact List.mem_map.mpr ⟨_, List.mem_map_of_mem hr, E.markDeleted_id _ _ r⟩

theorem Db.ForeignKeys.withUsers (h : db.ForeignKeys) {users : Table User (·.id)}
    (hkeeps : userType.Keeps db.users users) : ({ db with users := users } : Db).ForeignKeys :=
  ⟨fun pair hpair => hkeeps _ (h.users pair hpair), h.roles, h.policies⟩

theorem Db.ForeignKeys.withRoles (h : db.ForeignKeys) {roles : Table Role (·.id)}
    (hkeeps : roleType.Keeps db.roles roles) : ({ db with roles := roles } : Db).ForeignKeys :=
  ⟨h.users, fun pair hpair => hkeeps _ (h.roles pair hpair), h.policies⟩

theorem Db.ForeignKeys.withPolicies (h : db.ForeignKeys) {policies : Table Policy (·.id)}
    (hkeeps : policyType.Keeps db.policies policies) :
    ({ db with policies := policies } : Db).ForeignKeys :=
  ⟨h.users, h.roles, fun pair hpair => hkeeps _ (h.policies pair hpair)⟩

theorem Db.ForeignKeys.of_sameHolders (h : db.ForeignKeys) (hsame : SameHolders db db') :
    db'.ForeignKeys := by
  obtain ⟨hu, hr, hp⟩ := h
  refine ⟨?_, ?_, ?_⟩
  · rw [hsame.usersRoles, hsame.users]
    exact hu
  · rw [hsame.usersRoles, hsame.roles]
    exact hr
  · rw [hsame.rolesPolicies, hsame.policies]
    exact hp

/-- The row that a special mutation finds. -/
theorem head?_find {ρ : Type} (base : ρ → BaseEntity) {rows : List ρ} {id : String} {row : ρ}
    (h : (find base rows fun r => (base r).id = id).head? = some row) :
    row ∈ rows ∧ (base row).live = true ∧ (base row).id = id := by
  obtain ⟨hmem, hlive, hid⟩ := mem_find.mp (List.mem_of_head? h)
  exact ⟨hmem, hlive, by simpa using hid⟩

theorem assignRoles_pairs {userId : String} {roleIds : List String}
    (h : db.assignRoles userId roleIds = .ok db') :
    ∃ pairs, db' = { db with usersRoles := pairs } ∧
      (∀ id x, id ≠ uuid userId → ((id, x) ∈ pairs ↔ (id, x) ∈ db.usersRoles)) ∧
      ∀ pair ∈ pairs, pair ∈ db.usersRoles ∨
        pair.1 ∈ db.users.rows.map (·.id) ∧ pair.2 ∈ db.roles.rows.map (·.id) := by
  unfold Db.assignRoles at h
  split at h
  · cases h
  · rename_i user hfind
    obtain ⟨huser, -, hid⟩ := head?_find User.toBaseEntity hfind
    obtain ⟨pairs, hpairs, h⟩ := bind_eq_ok.mp h
    obtain ⟨hothers, hnew⟩ := saveRelation_pairs hpairs
    refine ⟨pairs, (Except.ok.inj h).symm, hid ▸ hothers, ?_⟩
    intro pair hpair
    rcases hnew pair hpair with hold | ⟨hfirst, hexists⟩
    · exact Or.inl hold
    · obtain ⟨role, hrole, heq⟩ := List.any_eq_true.mp hexists
      exact Or.inr ⟨hfirst ▸ List.mem_map_of_mem huser,
        List.mem_map.mpr ⟨role, hrole, by simpa using heq⟩⟩

theorem attachPolicies_pairs {roleId : String} {policyIds : List String}
    (h : db.attachPolicies roleId policyIds = .ok db') :
    ∃ pairs, db' = { db with rolesPolicies := pairs } ∧
      (∀ id x, id ≠ uuid roleId → ((id, x) ∈ pairs ↔ (id, x) ∈ db.rolesPolicies)) ∧
      ∀ pair ∈ pairs, pair ∈ db.rolesPolicies ∨ pair.2 ∈ db.policies.rows.map (·.id) := by
  unfold Db.attachPolicies at h
  split at h
  · cases h
  · rename_i role hfind
    obtain ⟨-, -, hid⟩ := head?_find Role.toBaseEntity hfind
    obtain ⟨pairs, hpairs, h⟩ := bind_eq_ok.mp h
    obtain ⟨hothers, hnew⟩ := saveRelation_pairs hpairs
    refine ⟨pairs, (Except.ok.inj h).symm, hid ▸ hothers, ?_⟩
    intro pair hpair
    rcases hnew pair hpair with hold | ⟨-, hexists⟩
    · exact Or.inl hold
    · obtain ⟨policy, hpolicy, heq⟩ := List.any_eq_true.mp hexists
      exact Or.inr (List.mem_map.mpr ⟨policy, hpolicy, by simpa using heq⟩)

/-- **A mutation keeps the foreign keys.** -/
theorem write_foreignKeys {m : Mutation} (hdb : db.ForeignKeys) (h : m.write db = .ok db') :
    db'.ForeignKeys := by
  cases m with
  | createUser id username =>
      obtain ⟨users, hcreate, h⟩ := bind_eq_ok.mp h
      exact Except.ok.inj h ▸ hdb.withUsers (EntityType.create_keeps hcreate)
  | updateUser id username =>
      obtain ⟨users, hupdate, h⟩ := bind_eq_ok.mp h
      exact Except.ok.inj h ▸ hdb.withUsers (EntityType.update_keeps hupdate)
  | deleteUser id now =>
      obtain ⟨users, hdelete, h⟩ := bind_eq_ok.mp h
      exact Except.ok.inj h ▸ hdb.withUsers (EntityType.delete_keeps hdelete)
  | assignRoles userId roleIds =>
      obtain ⟨pairs, rfl, -, hnew⟩ := assignRoles_pairs h
      refine ⟨?_, ?_, hdb.policies⟩
      · intro pair hpair
        exact (hnew pair hpair).elim (hdb.users pair) And.left
      · intro pair hpair
        exact (hnew pair hpair).elim (hdb.roles pair) And.right
  | createRole id code =>
      obtain ⟨roles, hcreate, h⟩ := bind_eq_ok.mp h
      exact Except.ok.inj h ▸ hdb.withRoles (EntityType.create_keeps hcreate)
  | updateRole id code =>
      obtain ⟨roles, hupdate, h⟩ := bind_eq_ok.mp h
      exact Except.ok.inj h ▸ hdb.withRoles (EntityType.update_keeps hupdate)
  | deleteRole id now =>
      rw [Mutation.write] at h
      split at h
      · cases h
      · obtain ⟨roles, hdelete, h⟩ := bind_eq_ok.mp h
        exact Except.ok.inj h ▸ hdb.withRoles (EntityType.delete_keeps hdelete)
  | attachPolicies roleId policyIds =>
      obtain ⟨pairs, rfl, -, hnew⟩ := attachPolicies_pairs h
      refine ⟨hdb.users, hdb.roles, ?_⟩
      intro pair hpair
      exact (hnew pair hpair).elim (hdb.policies pair) id
  | createPolicy id dto =>
      obtain ⟨row, -, h⟩ := bind_eq_ok.mp h
      obtain ⟨policies, hcreate, h⟩ := bind_eq_ok.mp h
      exact Except.ok.inj h ▸ hdb.withPolicies (EntityType.create_keeps hcreate)
  | updatePolicy id dto =>
      obtain ⟨policies, hupdate, h⟩ := bind_eq_ok.mp h
      exact Except.ok.inj h ▸ hdb.withPolicies (EntityType.update_keeps hupdate)
  | deletePolicy id now =>
      rw [Mutation.write] at h
      split at h
      · cases h
      · obtain ⟨policies, hdelete, h⟩ := bind_eq_ok.mp h
        exact Except.ok.inj h ▸ hdb.withPolicies (EntityType.delete_keeps hdelete)
  | setStatements policyId statements draws =>
      exact hdb.of_sameHolders (setStatements_elsewhere h).toSameHolders

/-! ### Generic mutations -/

/-- Resolution finds nothing for a user who holds no policy in force. -/
theorem statementsFor_eq_nil {userId : String}
    (h : ∀ policyId ∈ db.inForceIds today, ¬ db.Holds userId policyId) :
    statementsFor db today userId none = [] := by
  have hnil : (db.inForceIds today).filter (fun id =>
      (policyIdsOf db (rolesWithIds db (roleIdsOf db userId))).contains id) = [] := by
    rw [List.filter_eq_nil_iff]
    intro policyId hforce
    rw [List.contains_iff_mem, mem_policyIdsOf]
    exact h policyId hforce
  unfold statementsFor
  rw [activePolicies_ids, hnil]
  rfl

/-- A new row is live under its own id only. -/
theorem EntityType.mem_liveIds_create {ρ : Type} {E : EntityType ρ} {t t' : E.Rows} {row : ρ}
    (h : E.create t row = .ok t') {id : String} (hne : id ≠ (E.base row).id) :
    id ∈ E.liveIds t'.rows ↔ id ∈ E.liveIds t.rows := by
  rw [(create_rows h).1, liveIds_append, List.mem_append]
  refine or_iff_left ?_
  split
  · simpa using hne
  · exact List.not_mem_nil

theorem EntityType.mem_liveIds_update {ρ : Type} {E : EntityType ρ} {t t' : E.Rows} {id' : String}
    {change : ρ → Except ServiceError ρ} (h : E.update t id' change = .ok t') (id : String) :
    id ∈ E.liveIds t'.rows ↔ id ∈ E.liveIds t.rows := by
  obtain ⟨row, hrow, -, -, row', -, rfl⟩ := update_rows h
  rw [liveIds_of_base (put_base hrow row')]

theorem createUser_unchanged (hdb : db.ForeignKeys) {users : Table User (·.id)} {row : User}
    (h : userType.create db.users row = .ok users) (userId : String) :
    Unchanged today db { db with users := users } userId := by
  apply unchanged_users
  by_cases heq : userId = row.id
  · -- The id was not taken, so no pair refers to it.
    refine Or.inr fun roleId hpair => ?_
    exact (EntityType.create_rows h).2 (heq ▸ hdb.users _ hpair)
  · exact Or.inl (EntityType.mem_liveIds_create h heq)

theorem deleteUser_unchanged {users : Table User (·.id)} {id : String} {now : Nat}
    (h : userType.delete db.users id now = .ok users) {userId : String}
    (hmiss : ¬ (Mutation.deleteUser id now).Misses today db userId) :
    Unchanged today db { db with users := users } userId := by
  have hlive : ∀ {userId'}, userId' ∈ userType.liveIds users.rows ↔
      userId' ∈ userType.liveIds db.users.rows ∧ userId' ≠ uuid id := by
    intro userId'
    rw [EntityType.delete_rows h]
    exact EntityType.mem_liveIds_delete
  by_cases heq : userId = uuid id
  · have hbefore : statementsFor db today userId none = [] := by
      refine statementsFor_eq_nil fun policyId hforce hholds => hmiss ?_
      exact ⟨heq, policyId, hforce, hholds⟩
    have hafter : statementsFor { db with users := users } today userId none = [] := by
      refine statementsFor_eq_nil fun policyId _ hholds => ?_
      exact (hlive.mp hholds.1).2 heq
    exact hafter.trans hbefore.symm
  · exact unchanged_users (Or.inl (hlive.trans (and_iff_left heq)))

theorem createPolicy_unchanged (hdb : db.ForeignKeys) {policies : Table Policy (·.id)}
    {row : Policy} (h : policyType.create db.policies row = .ok policies) (userId : String) :
    Unchanged today db { db with policies := policies } userId := by
  obtain ⟨hrows, hfresh⟩ := EntityType.create_rows h
  have hne : ∀ {roleId policyId}, (roleId, policyId) ∈ db.rolesPolicies → policyId ≠ row.id := by
    intro roleId policyId hpair heq
    exact hfresh (heq ▸ hdb.policies _ hpair)
  apply unchanged_policies
  · intro roleId policyId hpair
    exact EntityType.mem_liveIds_create h (hne hpair)
  · intro q hq
    have hrow : q row.id = false := by
      rw [Bool.eq_false_iff]
      intro hrow
      obtain ⟨-, roleId, -, -, -, hpair⟩ := hq row.id hrow
      exact hne hpair rfl
    rw [hrows, List.filter_append, List.map_append, List.filter_append, Db.inForceIds]
    cases hforce : inForce today row <;> simp [hforce, hrow]

theorem updatePolicy_unchanged {policies : Table Policy (·.id)} {id : String} {dto : PolicyDTO}
    (h : policyType.update db.policies id dto.merge = .ok policies) {userId : String}
    (hmiss : ¬ (Mutation.updatePolicy id dto).Misses today db userId) :
    Unchanged today db { db with policies := policies } userId := by
  apply unchanged_policies
  · intro roleId policyId _
    exact EntityType.mem_liveIds_update h policyId
  · intro q hq
    obtain ⟨row, hrow, -, hid, row', hmerge, rfl⟩ := EntityType.update_rows h
    have hbase : policyType.setBase row' (policyType.base row) = row' := by
      obtain ⟨code, -, hrest⟩ := bind_eq_ok.mp hmerge
      obtain ⟨is_active, -, hrest⟩ := bind_eq_ok.mp hrest
      rw [← Except.ok.inj hrest]
    apply inForce_filter_congr
    · intro r _
      split
      · rename_i heq
        exact heq.symm
      · rfl
    · intro r hr hqr
      split
      · rename_i heq
        rw [db.policies.eq_of_key_eq hr hrow heq, hbase]
        by_contra hne
        refine hmiss ⟨row, hrow, hid, hq row.id (heq ▸ hqr), row', hmerge, hne⟩
      · rfl

theorem deletePolicy_unchanged {policies : Table Policy (·.id)} {id : String} {now : Nat}
    (hno : (db.rolesPolicies.any fun pair => pair.2 = uuid id) = false)
    (h : policyType.delete db.policies id now = .ok policies) (userId : String) :
    Unchanged today db { db with policies := policies } userId := by
  have hne : ∀ {roleId policyId}, (roleId, policyId) ∈ db.rolesPolicies → policyId ≠ uuid id := by
    intro roleId policyId hpair heq
    have hfalse := List.any_eq_false.mp hno _ hpair
    simp [heq] at hfalse
  apply unchanged_policies
  · intro roleId policyId hpair
    rw [EntityType.delete_rows h]
    exact EntityType.mem_liveIds_delete.trans (and_iff_left (hne hpair))
  · intro q hq
    rw [EntityType.delete_rows h]
    apply inForce_filter_congr
    · intro r _
      exact policyType.markDeleted_id (uuid id) now r
    · intro r _ hqr
      obtain ⟨-, roleId, -, -, -, hpair⟩ := hq r.id hqr
      rw [EntityType.markDeleted, if_neg (hne hpair)]

/-- **What a mutation leaves alone**: it changes nothing for a user whose sessions it does not
refresh, unless it misses the user. -/
theorem write_unchanged {m : Mutation} (hdb : db.ForeignKeys) (h : m.write db = .ok db')
    {userId : String} (hout : userId ∉ m.refreshes db') (hmiss : ¬ m.Misses today db userId) :
    Unchanged today db db' userId := by
  cases m with
  | createUser id username =>
      obtain ⟨users, hcreate, h⟩ := bind_eq_ok.mp h
      exact Except.ok.inj h ▸ createUser_unchanged hdb hcreate userId
  | updateUser id username =>
      obtain ⟨users, hupdate, h⟩ := bind_eq_ok.mp h
      exact Except.ok.inj h ▸
        unchanged_users (Or.inl (EntityType.mem_liveIds_update hupdate userId))
  | deleteUser id now =>
      obtain ⟨users, hdelete, h⟩ := bind_eq_ok.mp h
      exact Except.ok.inj h ▸ deleteUser_unchanged hdelete hmiss
  | assignRoles id roleIds =>
      obtain ⟨pairs, rfl, hothers, -⟩ := assignRoles_pairs h
      have hne : userId ≠ uuid id := by
        intro heq
        have hsame : id ≠ userId := fun hid => hout (hid ▸ List.mem_singleton_self _)
        exact hmiss ⟨heq, hsame⟩
      exact unchanged_usersRoles fun roleId => hothers userId roleId hne
  | createRole id code =>
      obtain ⟨roles, hcreate, h⟩ := bind_eq_ok.mp h
      refine Except.ok.inj h ▸ unchanged_roles fun roleId hpair => ?_
      refine EntityType.mem_liveIds_create hcreate fun heq => ?_
      exact (EntityType.create_rows hcreate).2 (heq ▸ hdb.roles _ hpair)
  | updateRole id code =>
      obtain ⟨roles, hupdate, h⟩ := bind_eq_ok.mp h
      exact Except.ok.inj h ▸ unchanged_roles fun roleId _ =>
        EntityType.mem_liveIds_update hupdate roleId
  | deleteRole id now =>
      rw [Mutation.write] at h
      split at h
      · cases h
      · rename_i hno
        obtain ⟨roles, hdelete, h⟩ := bind_eq_ok.mp h
        refine Except.ok.inj h ▸ unchanged_roles fun roleId hpair => ?_
        rw [EntityType.delete_rows hdelete]
        refine EntityType.mem_liveIds_delete.trans (and_iff_left fun heq => hno ?_)
        exact List.any_eq_true.mpr ⟨_, hpair, by simpa using heq⟩
  | attachPolicies roleId policyIds =>
      obtain ⟨pairs, rfl, hothers, -⟩ := attachPolicies_pairs h
      refine unchanged_rolesPolicies fun huser roleId' hrole hpair policyId => ?_
      refine hothers roleId' policyId fun heq => hout ?_
      exact mem_usersByRole.mpr ⟨huser, heq ▸ hrole, heq ▸ hpair⟩
  | createPolicy id dto =>
      obtain ⟨row, -, h⟩ := bind_eq_ok.mp h
      obtain ⟨policies, hcreate, h⟩ := bind_eq_ok.mp h
      exact Except.ok.inj h ▸ createPolicy_unchanged hdb hcreate userId
  | updatePolicy id dto =>
      obtain ⟨policies, hupdate, h⟩ := bind_eq_ok.mp h
      exact Except.ok.inj h ▸ updatePolicy_unchanged hupdate hmiss
  | deletePolicy id now =>
      rw [Mutation.write] at h
      split at h
      · cases h
      · rename_i hno
        obtain ⟨policies, hdelete, h⟩ := bind_eq_ok.mp h
        exact Except.ok.inj h ▸ deletePolicy_unchanged (Bool.eq_false_iff.mpr hno) hdelete userId
  | setStatements policyId statements draws =>
      have hsame := setStatements_elsewhere h
      refine statementsFor_congr (hsame.holds userId) ?_ ?_
      · intro q _
        rw [Db.inForceIds, Db.inForceIds, hsame.policies]
      · intro policyIds hheld
        refine hsame.resolve fun hmem => hout ?_
        exact mem_usersByPolicy.mpr ((hsame.holds userId _).mpr (hheld _ hmem))

end Mutations

end ErpApi.Iam
