import ErpApi.Basic.ChangeLog
import ErpApi.Basic.SequentialRun
import ErpApi.Iam.AdminMutations

set_option autoImplicit false

/-! # The audit logs of assignments

`UsersService.assignRoles` and `RolesService.attachPolicies` write twice: `save` replaces the
relation in one transaction, and the entries of the audit log, if there are any, are inserted in a
second one. Either write may fail on its own, and then the call rejects; what was written before
stays.

The difference that is logged is taken from the relation as TypeORM loads it, without soft-deleted
members, while `save` compares with every row of the join table. So a log agrees with its join
table in every state of a run exactly when every call satisfies `Assignment.Keeps`
(`logs_agree_iff`).
-/

namespace ErpApi.Iam

open Sequential (run AllStates AllSteps)

inductive AuditAction where
  | attached
  | detached
  deriving DecidableEq

/-- A row of `user_role_audit_logs` or of `role_policy_audit_logs`: the user and a role, or the
role and a policy. Neither refers to a row by a foreign key. -/
structure AuditLog where
  owner_id : String
  member_id : String
  action : AuditAction
  created_by : Option String
  deriving DecidableEq

/-- A join table and its log, oldest entry first. -/
structure Membership where
  pairs : List (String × String)
  log : List AuditLog

/-- The database writes of a call. -/
inductive Write where
  | relation
  | auditLog
  deriving DecidableEq

/-! ## One call -/

/-- What a call has read when it comes to write. -/
structure Assignment where
  /-- The id as the request has it. -/
  requestId : String
  /-- The id of the row that is found. -/
  owner : String
  previousIds : List String
  ids : List String
  currentUserId : Option String
  exists_ : String → Bool
  foreignKey : String

namespace Assignment

variable (a : Assignment) (m : Membership) (fails : Write → Option ServiceError)

def attached : List String := a.ids.filter fun id => !a.previousIds.contains id

def detached : List String := a.previousIds.filter fun id => !a.ids.contains id

def auditEntry (action : AuditAction) (id : String) : AuditLog :=
  { owner_id := uuid a.requestId, member_id := uuid id, action,
    created_by := a.currentUserId.map uuid }

def auditEntries : List AuditLog :=
  a.attached.map (a.auditEntry .attached) ++ a.detached.map (a.auditEntry .detached)

def saveRelation : Except ServiceError (List (String × String)) :=
  match fails .relation with
  | some e => .error e
  | none => Iam.saveRelation m.pairs a.owner a.ids a.exists_ a.foreignKey

def perform : Membership × Except ServiceError Unit :=
  match a.saveRelation m fails with
  | .error e => (m, .error e)
  | .ok pairs =>
      if a.auditEntries.length > 0 then
        match fails .auditLog with
        | some e => ({ m with pairs }, .error e)
        | none => ({ pairs, log := m.log ++ a.auditEntries }, .ok ())
      else ({ m with pairs }, .ok ())

end Assignment

structure AuditedDb where
  db : Db
  userRoleAuditLogs : List AuditLog
  rolePolicyAuditLogs : List AuditLog

namespace AuditedDb

variable (s : AuditedDb)

def usersRoles : Membership := ⟨s.db.usersRoles, s.userRoleAuditLogs⟩

def rolesPolicies : Membership := ⟨s.db.rolesPolicies, s.rolePolicyAuditLogs⟩

/-- `assignRoles` up to its first write. -/
def roleAssignment (userId : String) (roleIds : List String) (currentUserId : Option String) :
    Except ServiceError Assignment :=
  match (find (·.toBaseEntity) s.db.users.rows fun user => user.id = uuid userId).head? with
  | none => .error (.notFound ("User " ++ userId ++ " not found"))
  | some user => .ok
      { requestId := userId
        owner := user.id
        previousIds := (s.db.rolesOf user.id).map (·.id)
        ids := roleIds
        currentUserId
        exists_ := fun id => s.db.roles.rows.any fun role => role.id = id
        foreignKey := "fk_users_roles_role_id" }

/-- `attachPolicies` up to its first write. -/
def policyAssignment (roleId : String) (policyIds : List String) (currentUserId : Option String) :
    Except ServiceError Assignment :=
  match (find (·.toBaseEntity) s.db.roles.rows fun role => role.id = uuid roleId).head? with
  | none => .error (.notFound ("Role " ++ roleId ++ " not found"))
  | some role => .ok
      { requestId := roleId
        owner := role.id
        previousIds := (s.db.policiesOf role.id).map (·.id)
        ids := policyIds
        currentUserId
        exists_ := fun id => s.db.policies.rows.any fun policy => policy.id = id
        foreignKey := "fk_roles_policies_policy_id" }

def setUsersRoles (m : Membership) : AuditedDb :=
  { s with db := { s.db with usersRoles := m.pairs }, userRoleAuditLogs := m.log }

def setRolesPolicies (m : Membership) : AuditedDb :=
  { s with db := { s.db with rolesPolicies := m.pairs }, rolePolicyAuditLogs := m.log }

def assignRoles (userId : String) (roleIds : List String) (currentUserId : Option String)
    (fails : Write → Option ServiceError) : AuditedDb × Except ServiceError Unit :=
  match s.roleAssignment userId roleIds currentUserId with
  | .error e => (s, executeDbOperation (.error e))
  | .ok a =>
      let written := a.perform s.usersRoles fails
      (s.setUsersRoles written.1, executeDbOperation written.2)

def attachPolicies (roleId : String) (policyIds : List String) (currentUserId : Option String)
    (fails : Write → Option ServiceError) : AuditedDb × Except ServiceError Unit :=
  match s.policyAssignment roleId policyIds currentUserId with
  | .error e => (s, executeDbOperation (.error e))
  | .ok a =>
      let written := a.perform s.rolesPolicies fails
      (s.setRolesPolicies written.1, executeDbOperation written.2)

end AuditedDb

inductive AssignmentCall where
  | assignRoles (userId : String) (roleIds : List String) (currentUserId : Option String)
  | attachPolicies (roleId : String) (policyIds : List String) (currentUserId : Option String)

/-- A call with the writes of it that fail. -/
structure AttemptedCall where
  call : AssignmentCall
  fails : Write → Option ServiceError

def AuditedDb.step (s : AuditedDb) (c : AttemptedCall) : AuditedDb :=
  match c.call with
  | .assignRoles userId roleIds currentUserId =>
      (s.assignRoles userId roleIds currentUserId c.fails).1
  | .attachPolicies roleId policyIds currentUserId =>
      (s.attachPolicies roleId policyIds currentUserId c.fails).1

/-! ## Agreement -/

def AuditLog.change (entry : AuditLog) : SetChange (String × String) :=
  match entry.action with
  | .attached => .add (entry.owner_id, entry.member_id)
  | .detached => .remove (entry.owner_id, entry.member_id)

def Membership.replay (m : Membership) : List (String × String) :=
  SetChange.replay (m.log.map AuditLog.change)

/-- Replaying the log gives the join table. -/
def Membership.Agrees (m : Membership) : Prop :=
  (∀ pair ∈ m.replay, pair ∈ m.pairs) ∧ ∀ pair ∈ m.pairs, pair ∈ m.replay

instance (m : Membership) : Decidable m.Agrees := inferInstanceAs (Decidable (_ ∧ _))

def AuditedDb.LogsAgree (s : AuditedDb) : Prop := s.usersRoles.Agrees ∧ s.rolesPolicies.Agrees

instance (s : AuditedDb) : Decidable s.LogsAgree := inferInstanceAs (Decidable (_ ∧ _))

theorem Membership.agrees_iff {m : Membership} :
    m.Agrees ↔ ∀ pair, pair ∈ m.replay ↔ pair ∈ m.pairs := by
  constructor
  · intro h pair
    exact ⟨h.1 pair, h.2 pair⟩
  · intro h
    exact ⟨fun pair => (h pair).mp, fun pair => (h pair).mpr⟩

/-- The ids of a join table are as the database writes them. -/
def Membership.UuidColumns (m : Membership) : Prop := ∀ pair ∈ m.pairs, uuid pair.2 = pair.2

instance (m : Membership) : Decidable m.UuidColumns :=
  inferInstanceAs (Decidable (∀ pair ∈ m.pairs, _))

/-! ## The two writes -/

namespace Assignment

/-- The ids that the join table has for the owner; `save` compares with these. -/
def storedIds (a : Assignment) (m : Membership) : List String :=
  (m.pairs.filter fun pair => pair.1 = a.owner).map Prod.snd

def newIds (a : Assignment) (m : Membership) : List String :=
  a.ids.filter fun id => !(a.storedIds m).contains id

/-- The join table with the new pairs. -/
def inserted (a : Assignment) (m : Membership) : List (String × String) :=
  m.pairs ++ ((a.newIds m).map uuid).map fun id => (a.owner, id)

/-- The database takes the new pairs: they refer to rows, and none is there already. -/
def Accepted (a : Assignment) (m : Membership) : Prop :=
  ((a.newIds m).map uuid).all a.exists_ = true ∧ (a.inserted m).Nodup

instance (a : Assignment) (m : Membership) : Decidable (a.Accepted m) :=
  inferInstanceAs (Decidable (_ ∧ _))

/-- **The condition on a call** whose relation is written: it asks for the ids that are stored, or
its audit write does not fail and it asks for every stored id that was not loaded. -/
def Keeps (a : Assignment) (m : Membership) (fails : Write → Option ServiceError) : Prop :=
  fails .relation = none → a.Accepted m →
    ((∀ id ∈ a.ids, id ∈ a.storedIds m) ∧ ∀ id ∈ a.storedIds m, id ∈ a.ids) ∨
      (fails .auditLog = none ∧ ∀ id ∈ a.storedIds m, id ∈ a.previousIds ∨ id ∈ a.ids)

instance (a : Assignment) (m : Membership) (fails : Write → Option ServiceError) :
    Decidable (a.Keeps m fails) := inferInstanceAs (Decidable (_ → _ → _))

/-- What the two services have read. -/
structure Read (a : Assignment) (m : Membership) : Prop where
  owner : a.owner = uuid a.requestId
  previous : ∀ id ∈ a.previousIds, id ∈ a.storedIds m

variable {a : Assignment} {m : Membership} {fails : Write → Option ServiceError}

theorem mem_storedIds {id : String} : id ∈ a.storedIds m ↔ (a.owner, id) ∈ m.pairs := by
  simp [storedIds]

theorem mem_newIds {id : String} : id ∈ a.newIds m ↔ id ∈ a.ids ∧ id ∉ a.storedIds m := by
  simp [newIds]

theorem mem_attached {id : String} : id ∈ a.attached ↔ id ∈ a.ids ∧ id ∉ a.previousIds := by
  simp [attached]

theorem mem_detached {id : String} : id ∈ a.detached ↔ id ∈ a.previousIds ∧ id ∉ a.ids := by
  simp [detached]

theorem mem_inserted {pair : String × String} :
    pair ∈ a.inserted m ↔
      pair ∈ m.pairs ∨ pair.1 = a.owner ∧ ∃ id ∈ a.newIds m, uuid id = pair.2 := by
  rw [inserted, List.mem_append, List.map_map, List.mem_map]
  refine or_congr_right ⟨?_, ?_⟩
  · rintro ⟨id, hid, rfl⟩
    exact ⟨rfl, id, hid, rfl⟩
  · rintro ⟨howner, id, hid, huuid⟩
    exact ⟨id, hid, Prod.ext howner.symm huuid⟩

/-- The relation is written exactly when the statement does not fail and the pairs are taken. -/
theorem saveRelation_cases :
    ((∃ pairs, a.saveRelation m fails = .ok pairs ∧ ∀ pair, pair ∈ pairs ↔
        pair ∈ a.inserted m ∧ (pair.1 = a.owner → pair.2 ∈ a.storedIds m → pair.2 ∈ a.ids)) ∧
      fails .relation = none ∧ a.Accepted m) ∨
    (∃ e, a.saveRelation m fails = .error e) ∧ ¬ (fails .relation = none ∧ a.Accepted m) := by
  cases hfails : fails .relation with
  | some e =>
      refine .inr ⟨⟨e, ?_⟩, fun h => by cases h.1⟩
      rw [saveRelation, hfails]
  | none =>
      have hsave : a.saveRelation m fails =
          if !((a.newIds m).map uuid).all a.exists_ then
            .error (.foreignKeyViolation a.foreignKey)
          else if ¬ (a.inserted m).Nodup then .error (.uniqueViolation "id")
          else .ok ((a.inserted m).filter fun pair => !(pair.1 = a.owner &&
            ((a.storedIds m).filter fun id => !a.ids.contains id).contains pair.2)) := by
        rw [saveRelation, hfails]
        rfl
      rw [hsave]
      split
      · rename_i hno
        refine .inr ⟨⟨_, rfl⟩, ?_⟩
        rintro ⟨-, hall, -⟩
        rw [hall] at hno
        cases hno
      · rename_i hall
        split
        · rename_i hdup
          exact .inr ⟨⟨_, rfl⟩, fun h => hdup h.2.2⟩
        · rename_i hnodup
          refine .inl ⟨⟨_, rfl, fun pair => ?_⟩, rfl, by simpa using hall, not_not.mp hnodup⟩
          rw [List.mem_filter]
          simp [imp_iff_not_or]

theorem mem_replay_perform {log : List AuditLog} {pairs : List (String × String)}
    {pair : String × String} :
    pair ∈ Membership.replay ⟨pairs, log ++ a.auditEntries⟩ ↔
      (pair ∈ Membership.replay ⟨pairs, log⟩ ∨
        pair.1 = uuid a.requestId ∧ ∃ id ∈ a.attached, uuid id = pair.2) ∧
      ¬ (pair.1 = uuid a.requestId ∧ ∃ id ∈ a.detached, uuid id = pair.2) := by
  have hpair : ∀ ids : List String,
      pair ∈ ids.map (fun id => (uuid a.requestId, uuid id)) ↔
        pair.1 = uuid a.requestId ∧ ∃ id ∈ ids, uuid id = pair.2 := by
    intro ids
    rw [List.mem_map]
    constructor
    · rintro ⟨id, hid, rfl⟩
      exact ⟨rfl, id, hid, rfl⟩
    · rintro ⟨howner, id, hid, huuid⟩
      exact ⟨id, hid, Prod.ext howner.symm huuid⟩
  have hchanges : (log ++ a.auditEntries).map AuditLog.change = log.map AuditLog.change ++
      ((a.attached.map fun id => (uuid a.requestId, uuid id)).map SetChange.add ++
        (a.detached.map fun id => (uuid a.requestId, uuid id)).map SetChange.remove) := by
    rw [auditEntries, List.map_append, List.map_append]
    simp only [List.map_map]
    rfl
  rw [Membership.replay, hchanges, SetChange.mem_replay_append, hpair, hpair]
  rfl

/-! ## One call keeps the agreement -/

theorem uuid_stored (huuid : m.UuidColumns) {id : String} (hid : id ∈ a.storedIds m) :
    uuid id = id :=
  huuid (a.owner, id) (mem_storedIds.mp hid)

/-- A pair that is new to the database is not stored. -/
theorem Accepted.new_not_stored (h : a.Accepted m) {id : String} (hid : id ∈ a.newIds m) :
    uuid id ∉ a.storedIds m := by
  intro hstored
  have hdisjoint := (List.nodup_append.mp h.2).2.2
  refine hdisjoint _ (mem_storedIds.mp hstored) (a.owner, uuid id) ?_ rfl
  exact List.mem_map_of_mem (List.mem_map_of_mem hid)

section Agreement

variable (hread : a.Read m) (huuid : m.UuidColumns) (hagrees : m.Agrees) (haccepted : a.Accepted m)
  {pairs : List (String × String)} (hpairs : ∀ pair, pair ∈ pairs ↔
    pair ∈ a.inserted m ∧ (pair.1 = a.owner → pair.2 ∈ a.storedIds m → pair.2 ∈ a.ids))

include hread huuid in
theorem uuid_detached {id : String} :
    (∃ id' ∈ a.detached, uuid id' = id) ↔ id ∈ a.detached := by
  have hsame : ∀ id' ∈ a.detached, uuid id' = id' := fun id' hid' =>
    uuid_stored huuid (hread.previous id' (mem_detached.mp hid').1)
  constructor
  · rintro ⟨id', hid', rfl⟩
    rw [hsame id' hid']
    exact hid'
  · intro hid
    exact ⟨id, hid, hsame id hid⟩

include haccepted hpairs in
/-- The ids of the owner after the write are the wanted ones. -/
theorem mem_written {id : String} :
    (a.owner, id) ∈ pairs ↔
      (id ∈ a.storedIds m ∧ id ∈ a.ids) ∨ ∃ id' ∈ a.newIds m, uuid id' = id := by
  rw [hpairs, mem_inserted, mem_storedIds]
  constructor
  · rintro ⟨hstored | ⟨-, hnew⟩, hkept⟩
    · exact .inl ⟨hstored, hkept rfl hstored⟩
    · exact .inr hnew
  · rintro (⟨hstored, hid⟩ | hnew)
    · exact ⟨.inl hstored, fun _ _ => hid⟩
    · refine ⟨.inr ⟨rfl, hnew⟩, fun _ hstored => ?_⟩
      obtain ⟨id', hid', rfl⟩ := hnew
      exact absurd (mem_storedIds.mpr hstored) (haccepted.new_not_stored hid')

include hread huuid hagrees haccepted hpairs in
/-- With the entries in the log. -/
theorem logged_agrees_iff :
    Membership.Agrees ⟨pairs, m.log ++ a.auditEntries⟩ ↔
      ∀ id ∈ a.storedIds m, id ∈ a.previousIds ∨ id ∈ a.ids := by
  have hold := Membership.agrees_iff.mp hagrees
  rw [Membership.agrees_iff]
  constructor
  · intro h id hstored
    by_contra hno
    rw [not_or] at hno
    have hreplay : (a.owner, id) ∈ Membership.replay ⟨pairs, m.log ++ a.auditEntries⟩ := by
      rw [mem_replay_perform]
      refine ⟨.inl ((hold _).mpr (mem_storedIds.mp hstored)), ?_⟩
      rintro ⟨-, hdetached⟩
      exact hno.1 (mem_detached.mp ((uuid_detached hread huuid).mp hdetached)).1
    have hwritten := (hpairs _).mp ((h _).mp hreplay)
    exact hno.2 (hwritten.2 rfl hstored)
  · intro hkeeps pair
    obtain ⟨owner, id⟩ := pair
    show _ ↔ (owner, id) ∈ pairs
    rw [mem_replay_perform, ← hread.owner, uuid_detached hread huuid]
    show ((owner, id) ∈ m.replay ∨ _) ∧ _ ↔ _
    rw [hold]
    by_cases howner : owner = a.owner
    · subst howner
      rw [mem_written haccepted hpairs, ← mem_storedIds, mem_detached]
      constructor
      · rintro ⟨hstored | ⟨-, id', hid', rfl⟩, hno⟩
        · refine .inl ⟨hstored, ?_⟩
          by_contra hunwanted
          exact hno ⟨rfl, (hkeeps id hstored).resolve_right hunwanted, hunwanted⟩
        · obtain ⟨hwanted, -⟩ := mem_attached.mp hid'
          by_cases hstored : id' ∈ a.storedIds m
          · rw [uuid_stored huuid hstored]
            exact .inl ⟨hstored, hwanted⟩
          · exact .inr ⟨id', mem_newIds.mpr ⟨hwanted, hstored⟩, rfl⟩
      · rintro (⟨hstored, hwanted⟩ | ⟨id', hid', rfl⟩)
        · exact ⟨.inl hstored, fun h => h.2.2 hwanted⟩
        · obtain ⟨hwanted, hfresh⟩ := mem_newIds.mp hid'
          constructor
          · refine .inr ⟨rfl, id', mem_attached.mpr ⟨hwanted, ?_⟩, rfl⟩
            exact fun hprevious => hfresh (hread.previous id' hprevious)
          · rintro ⟨-, hprevious, -⟩
            exact haccepted.new_not_stored hid' (hread.previous _ hprevious)
    · rw [hpairs, mem_inserted]
      simp [howner]

include hagrees haccepted hpairs in
/-- Without the entries in the log. -/
theorem unlogged_agrees_iff :
    Membership.Agrees ⟨pairs, m.log⟩ ↔
      (∀ id ∈ a.ids, id ∈ a.storedIds m) ∧ ∀ id ∈ a.storedIds m, id ∈ a.ids := by
  have hold : ∀ pair, pair ∈ Membership.replay ⟨pairs, m.log⟩ ↔ pair ∈ m.pairs :=
    Membership.agrees_iff.mp hagrees
  rw [Membership.agrees_iff]
  constructor
  · intro h
    have hsame : ∀ id, id ∈ a.storedIds m ↔ (a.owner, id) ∈ pairs := fun id =>
      mem_storedIds.trans ((hold _).symm.trans (h _))
    constructor
    · intro id hwanted
      by_contra hstored
      have hnew := mem_newIds.mpr ⟨hwanted, hstored⟩
      have hwritten := (mem_written haccepted hpairs).mpr (.inr ⟨id, hnew, rfl⟩)
      exact haccepted.new_not_stored hnew ((hsame _).mpr hwritten)
    · intro id hstored
      exact ((hpairs _).mp ((hsame id).mp hstored)).2 rfl hstored
  · rintro ⟨hwanted, hkept⟩ pair
    show _ ↔ pair ∈ pairs
    have hnone : ¬ ∃ id ∈ a.newIds m, uuid id = pair.2 := by
      rintro ⟨id, hid, -⟩
      exact (mem_newIds.mp hid).2 (hwanted id (mem_newIds.mp hid).1)
    rw [hold, hpairs, mem_inserted]
    constructor
    · intro hpair
      exact ⟨.inl hpair, fun _ hstored => hkept _ hstored⟩
    · rintro ⟨hpair | ⟨-, hnew⟩, -⟩
      · exact hpair
      · exact absurd hnew hnone

end Agreement

/-- **One call** keeps the log in agreement exactly under its condition. -/
theorem perform_agrees_iff (hread : a.Read m) (huuid : m.UuidColumns) (hagrees : m.Agrees) :
    (a.perform m fails).1.Agrees ↔ a.Keeps m fails := by
  unfold Keeps
  rcases @saveRelation_cases a m fails with
    ⟨⟨pairs, hsave, hpairs⟩, hfails, haccepted⟩ | ⟨⟨e, hsave⟩, hno⟩
  · have hlogged := logged_agrees_iff hread huuid hagrees haccepted hpairs
    have hunlogged := unlogged_agrees_iff hagrees haccepted hpairs
    simp only [hfails, haccepted, true_implies]
    rw [perform, hsave]
    dsimp only
    split
    · cases hlog : fails .auditLog with
      | some e => exact hunlogged.trans (by simp)
      | none =>
          refine hlogged.trans ⟨fun hkeeps => .inr ⟨rfl, hkeeps⟩, ?_⟩
          rintro (⟨-, hkept⟩ | ⟨-, hkeeps⟩)
          · exact fun id hid => .inr (hkept id hid)
          · exact hkeeps
    · -- No entry: the loaded ids are the wanted ones.
      rename_i hno
      have hentries : a.auditEntries = [] := List.eq_nil_of_length_eq_zero (by omega)
      obtain ⟨hattached, hdetached⟩ := List.append_eq_nil_iff.mp hentries
      refine hunlogged.trans ⟨.inl, ?_⟩
      rintro (hsame | ⟨-, hkeeps⟩)
      · exact hsame
      · constructor
        · intro id hwanted
          apply hread.previous
          by_contra hprevious
          have hmem := mem_attached.mpr ⟨hwanted, hprevious⟩
          rw [List.map_eq_nil_iff.mp hattached] at hmem
          cases hmem
        · intro id hstored
          by_contra hunwanted
          have hmem := mem_detached.mpr ⟨(hkeeps id hstored).resolve_right hunwanted, hunwanted⟩
          rw [List.map_eq_nil_iff.mp hdetached] at hmem
          cases hmem
  · rw [perform, hsave]
    exact iff_of_true hagrees fun hfails haccepted => absurd ⟨hfails, haccepted⟩ hno

theorem perform_uuidColumns (huuid : m.UuidColumns) :
    (a.perform m fails).1.UuidColumns := by
  rcases @saveRelation_cases a m fails with ⟨⟨pairs, hsave, hpairs⟩, -, -⟩ | ⟨⟨e, hsave⟩, -⟩
  · have hnew : ∀ pair ∈ pairs, uuid pair.2 = pair.2 := by
      intro pair hpair
      rcases mem_inserted.mp ((hpairs pair).mp hpair).1 with hold | ⟨-, id, -, hid⟩
      · exact huuid pair hold
      · rw [← hid, uuid_uuid]
    rw [perform, hsave]
    dsimp only
    split
    · cases fails .auditLog with
      | some e => exact hnew
      | none => exact hnew
    · exact hnew
  · rw [perform, hsave]
    exact huuid

/-- When no write fails, the call saves the relation and returns. -/
theorem perform_of_no_failure (hfails : ∀ w, fails w = none) :
    Iam.saveRelation m.pairs a.owner a.ids a.exists_ a.foreignKey =
      (a.perform m fails).2.map fun _ => (a.perform m fails).1.pairs := by
  rw [perform, saveRelation, hfails .relation]
  dsimp only
  cases Iam.saveRelation m.pairs a.owner a.ids a.exists_ a.foreignKey with
  | error e => rfl
  | ok pairs =>
      dsimp only
      rw [hfails .auditLog]
      split
      · rfl
      · rfl

end Assignment

section Mutations

variable {s : AuditedDb} {currentUserId : Option String} {fails : Write → Option ServiceError}

/-- **The calls are the mutations** of the same name when no write fails. -/
theorem assignRoles_run (userId : String) (roleIds : List String)
    (hfails : ∀ w, fails w = none) :
    Mutation.run s.db (.assignRoles userId roleIds) =
      (s.assignRoles userId roleIds currentUserId fails).2.map fun _ =>
        (s.assignRoles userId roleIds currentUserId fails).1.db := by
  unfold Mutation.run Mutation.write Db.assignRoles AuditedDb.assignRoles AuditedDb.roleAssignment
  dsimp only
  cases (find (·.toBaseEntity) s.db.users.rows fun user => user.id = uuid userId).head? with
  | none => rfl
  | some user =>
      have hsave := fun a : Assignment => a.perform_of_no_failure (m := s.usersRoles) hfails
      dsimp only
      rw [show saveRelation s.db.usersRoles user.id roleIds _ _ = _ from
        hsave ⟨userId, user.id, (s.db.rolesOf user.id).map (·.id), roleIds, currentUserId, _, _⟩]
      generalize Assignment.perform _ _ _ = written
      obtain ⟨m, result⟩ := written
      cases result with
      | error e => rfl
      | ok _ => rfl

theorem attachPolicies_run (roleId : String) (policyIds : List String)
    (hfails : ∀ w, fails w = none) :
    Mutation.run s.db (.attachPolicies roleId policyIds) =
      (s.attachPolicies roleId policyIds currentUserId fails).2.map fun _ =>
        (s.attachPolicies roleId policyIds currentUserId fails).1.db := by
  unfold Mutation.run Mutation.write Db.attachPolicies AuditedDb.attachPolicies
    AuditedDb.policyAssignment
  dsimp only
  cases (find (·.toBaseEntity) s.db.roles.rows fun role => role.id = uuid roleId).head? with
  | none => rfl
  | some role =>
      have hsave := fun a : Assignment => a.perform_of_no_failure (m := s.rolesPolicies) hfails
      dsimp only
      rw [show saveRelation s.db.rolesPolicies role.id policyIds _ _ = _ from
        hsave ⟨roleId, role.id, (s.db.policiesOf role.id).map (·.id), policyIds, currentUserId, _,
          _⟩]
      generalize Assignment.perform _ _ _ = written
      obtain ⟨m, result⟩ := written
      cases result with
      | error e => rfl
      | ok _ => rfl

end Mutations

/-! ## Runs -/

/-- The condition on a call in the state before it. -/
def AttemptedCall.Keeps (s : AuditedDb) (c : AttemptedCall) : Prop :=
  match c.call with
  | .assignRoles userId roleIds currentUserId =>
      match s.roleAssignment userId roleIds currentUserId with
      | .error _ => True
      | .ok a => a.Keeps s.usersRoles c.fails
  | .attachPolicies roleId policyIds currentUserId =>
      match s.policyAssignment roleId policyIds currentUserId with
      | .error _ => True
      | .ok a => a.Keeps s.rolesPolicies c.fails

instance (s : AuditedDb) (c : AttemptedCall) : Decidable (c.Keeps s) :=
  match c with
  | ⟨.assignRoles userId roleIds currentUserId, fails⟩ =>
      match h : s.roleAssignment userId roleIds currentUserId with
      | .error _ => .isTrue (by unfold AttemptedCall.Keeps; simp [h])
      | .ok a => decidable_of_iff (a.Keeps s.usersRoles fails)
          (by unfold AttemptedCall.Keeps; simp [h])
  | ⟨.attachPolicies roleId policyIds currentUserId, fails⟩ =>
      match h : s.policyAssignment roleId policyIds currentUserId with
      | .error _ => .isTrue (by unfold AttemptedCall.Keeps; simp [h])
      | .ok a => decidable_of_iff (a.Keeps s.rolesPolicies fails)
          (by unfold AttemptedCall.Keeps; simp [h])

namespace AuditedDb

variable {s : AuditedDb}

def UuidColumns (s : AuditedDb) : Prop :=
  s.usersRoles.UuidColumns ∧ s.rolesPolicies.UuidColumns

instance (s : AuditedDb) : Decidable s.UuidColumns := inferInstanceAs (Decidable (_ ∧ _))

theorem read_roleAssignment {userId : String} {roleIds : List String}
    {currentUserId : Option String} {a : Assignment}
    (h : s.roleAssignment userId roleIds currentUserId = .ok a) : a.Read s.usersRoles := by
  unfold roleAssignment at h
  split at h
  · cases h
  · rename_i user hfind
    obtain rfl := Except.ok.inj h
    obtain ⟨-, -, hid⟩ := mem_find.mp (List.mem_of_head? hfind)
    refine ⟨by simpa using hid, ?_⟩
    intro id hprevious
    obtain ⟨role, hrole, rfl⟩ := List.mem_map.mp hprevious
    exact Assignment.mem_storedIds.mpr (Db.mem_rolesOf.mp hrole).2.2

theorem read_policyAssignment {roleId : String} {policyIds : List String}
    {currentUserId : Option String} {a : Assignment}
    (h : s.policyAssignment roleId policyIds currentUserId = .ok a) : a.Read s.rolesPolicies := by
  unfold policyAssignment at h
  split at h
  · cases h
  · rename_i role hfind
    obtain rfl := Except.ok.inj h
    obtain ⟨-, -, hid⟩ := mem_find.mp (List.mem_of_head? hfind)
    refine ⟨by simpa using hid, ?_⟩
    intro id hprevious
    obtain ⟨policy, hpolicy, rfl⟩ := List.mem_map.mp hprevious
    exact Assignment.mem_storedIds.mpr (Db.mem_policiesOf.mp hpolicy).2.2

/-- **One step.** The other relation and its log stay as they are. -/
theorem step_logsAgree_iff (c : AttemptedCall) (huuid : s.UuidColumns) (hagree : s.LogsAgree) :
    (s.step c).LogsAgree ↔ c.Keeps s := by
  unfold step AttemptedCall.Keeps
  cases c.call with
  | assignRoles userId roleIds currentUserId =>
      simp only [assignRoles]
      cases hread : s.roleAssignment userId roleIds currentUserId with
      | error e => exact iff_of_true hagree trivial
      | ok a =>
          have hone : (a.perform s.usersRoles c.fails).1.Agrees ↔ a.Keeps s.usersRoles c.fails :=
            Assignment.perform_agrees_iff (read_roleAssignment hread) huuid.1 hagree.1
          exact (and_iff_left hagree.2).trans hone
  | attachPolicies roleId policyIds currentUserId =>
      simp only [attachPolicies]
      cases hread : s.policyAssignment roleId policyIds currentUserId with
      | error e => exact iff_of_true hagree trivial
      | ok a =>
          have hone : (a.perform s.rolesPolicies c.fails).1.Agrees ↔
              a.Keeps s.rolesPolicies c.fails :=
            Assignment.perform_agrees_iff (read_policyAssignment hread) huuid.2 hagree.2
          exact (and_iff_right hagree.1).trans hone

theorem step_uuidColumns (c : AttemptedCall) (huuid : s.UuidColumns) : (s.step c).UuidColumns := by
  unfold step
  cases c.call with
  | assignRoles userId roleIds currentUserId =>
      simp only [assignRoles]
      split
      · exact huuid
      · exact ⟨Assignment.perform_uuidColumns huuid.1, huuid.2⟩
  | attachPolicies roleId policyIds currentUserId =>
      simp only [attachPolicies]
      split
      · exact huuid
      · exact ⟨huuid.1, Assignment.perform_uuidColumns huuid.2⟩

end AuditedDb

/-- A user, a role, a role that is deleted, and a policy; nothing is assigned. -/
def unassigned : AuditedDb where
  db :=
    { users := ⟨[{ id := "alice" }], by decide⟩
      roles := ⟨[⟨{ id := "r" }, "reader"⟩,
        ⟨{ id := "d", is_deleted := true, deleted_at := some 1 }, "gone"⟩], by decide⟩
      policies := ⟨[⟨{ id := "p" }, "read", true, none, none⟩], by decide⟩
      usersRoles := []
      rolesPolicies := []
      policyStatements := ⟨[], List.nodup_nil⟩
      statementTargets := ⟨[], List.nodup_nil⟩
      statementActions := ⟨[], List.nodup_nil⟩
      statementConditions := ⟨[], List.nodup_nil⟩
      permissions := ⟨[], List.nodup_nil⟩ }
  userRoleAuditLogs := []
  rolePolicyAuditLogs := []

/-- The given write fails, if any. -/
def failing (failed : Option Write) (w : Write) : Option ServiceError :=
  if failed = some w then some (.error "Connection terminated") else none

/-- A role that is deleted is assigned, and taken away without an entry; no write fails. -/
theorem deleted_role_leaves_silently :
    ¬ AuditedDb.LogsAgree (run AuditedDb.step unassigned
      [⟨.assignRoles "alice" ["d"] none, failing none⟩,
        ⟨.assignRoles "alice" [] none, failing none⟩]) := by
  decide +kernel

end ErpApi.Iam
