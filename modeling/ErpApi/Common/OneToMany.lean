import ErpApi.Common.BulkReconcile

set_option autoImplicit false

/-! # One-to-many relations in an update

`BaseServiceOperations.update` of an entity with relations to children. The children of a request
get the key of the entity and are saved in one call; then the live children of the entity that are
not among them, its orphans, are deleted.

The save goes by the id of a child alone. It takes a row from another parent, and it leaves a
soft-deleted one deleted; `updated_iff` says for which children the live ones are afterwards those
of the request.

Each relation has a table of its own here. The many-to-many relations are in
`Common/ManyToMany.lean`.
-/

namespace ErpApi.OneToMany

open Bulk

/-- A relation to children, with the table that they are in. -/
structure Relation where
  propertyName : String
  /-- The property of the child that is the key of its parent. -/
  fk : String
  /-- The property of the child that is its parent. -/
  inverseSide : String
  entity : EntityTable
  rows : Rows

/-- What a request has for a relation. -/
inductive Payload where
  | array (children : List Item)
  /-- A value that is not an array. -/
  | other

structure UpdateData where
  own : Item
  /-- `none` where the key is omitted. -/
  relations : String → Option Payload

structure IUpdateOptions where
  hardDeleteOneToMany : Bool := false
  softDeleteOneToMany : Bool := true

structure Db where
  parents : Rows
  relations : List Relation

/-- The key of a parent, as its column gives it back. -/
def parentKey (id : String) : Value := .text (uuid id)

/-- A child of the request with the key set, then the parent removed. -/
def Relation.assign (rel : Relation) (id : String) (child : Item) : Item := fun c =>
  if c = .own rel.inverseSide then none
  else if c = .own rel.fk then some (parentKey id)
  else child c

/-- An object of a `save`, and its id afterwards. -/
structure Saved where
  entity : Item
  id : Value

/-- The save writes the drawn ids back into the objects. -/
def saves (draws : Nat → String) (i : Nat) : List Item → List Saved
  | [] => []
  | entity :: entities =>
      ⟨entity, entity.id?.getD (.text (draws i))⟩ :: saves draws (i + 1) entities

def saveChildren (E : EntityTable) (t : Rows) (children : List Item) (draws : Nat → String) :
    Except ServiceError Rows :=
  if children.length = 0 then .ok t else save E t children draws

/-- The key of the row is that of the parent. -/
def Relation.childOf (rel : Relation) (id : String) (r : Row) : Prop :=
  r (.own rel.fk) = parentKey id

instance (rel : Relation) (id : String) (r : Row) : Decidable (rel.childOf id r) :=
  inferInstanceAs (Decidable (_ = _))

def existingChildren (rel : Relation) (t : Rows) (id : String) : List Row :=
  t.rows.filter fun r => r.live && rel.childOf id r

def orphanIds (rel : Relation) (t : Rows) (id : String) (incomingIds : List Value) : List Value :=
  ((existingChildren rel t id).map (· .id)).filter fun rid => !incomingIds.contains rid

def handleOrphans (rel : Relation) (t : Rows) (id : String) (incomingIds : List Value)
    (options : IUpdateOptions) (user : Option (Option String)) (now : String) :
    Except ServiceError Rows :=
  let ids := orphanIds rel t id incomingIds
  if options.hardDeleteOneToMany || options.softDeleteOneToMany then
    if ids.length = 0 then .ok t
    else if options.hardDeleteOneToMany then
      rel.entity.check (t.filter fun r => !ids.contains (r .id))
    else rel.entity.check (deleteBulkEntities t ids user "delete with cascade" now)
  else .ok t

def updateRelation (rel : Relation) (id : String) (payload : Option Payload)
    (options : IUpdateOptions) (user : Option (Option String)) (draws : Nat → String)
    (now : String) : Except ServiceError Relation :=
  match payload with
  | some (.array incomingChildren) => do
      let children := incomingChildren.map (rel.assign id)
      let t ← saveChildren rel.entity rel.rows children draws
      let incomingIds := (saves draws 0 children).map (·.id)
      let rows ← handleOrphans rel t id incomingIds options user now
      return { rel with rows }
  | _ => return rel

/-- The object that `preload` merges into the stored entity. -/
def preloadData (id : String) (user : Option (Option String)) (data : Item) : Item := fun c =>
  match c, user with
  | .updated_by, some none => some .null
  | .updated_by, some (some userId) => some (.text userId)
  | .id, _ => some ((data .id).getD (.text id))
  | c, _ => data c

/-- `draws` are the ids that the database draws for the new rows of a relation. -/
def update (E : EntityTable) (tableName : String) (s : Db) (id : String) (data : UpdateData)
    (user : Option (Option String)) (options : IUpdateOptions) (draws : String → Nat → String)
    (now : String) : Except ServiceError Db :=
  executeDbOperation do
    match preload s.parents (preloadData id user data.own) with
    | none => throw (.notFound (tableName ++ " with ID '" ++ id ++ "' not found."))
    | some entityToUpdate =>
        let parents ← save E s.parents [entityToUpdate] (draws tableName)
        let relations ← s.relations.mapM fun rel =>
          updateRelation rel id (data.relations rel.propertyName) options user
            (draws rel.propertyName) now
        return { parents, relations }

/-! ## What the update is for -/

/-- The row has what the entity says. -/
def Holds (entity : Item) (r : Row) : Prop :=
  ∀ c v, c ≠ .id → entity c = some v → r c = v

/-- The live children of the parent are the saved ones, and the rows of the other parents are as
they were. -/
structure Matched (rel : Relation) (id : String) (saved : List Saved) (t' : Rows) : Prop where
  all : ∀ s ∈ saved, ∃ r ∈ t'.rows,
    r .id = s.id ∧ r.live = true ∧ rel.childOf id r ∧ Holds s.entity r
  only : ∀ r ∈ t'.rows, r.live = true → rel.childOf id r → ∃ s ∈ saved, s.id = r .id
  others : ∀ r ∈ rel.rows.rows, ¬ rel.childOf id r → r ∈ t'.rows

structure Updated (rel : Relation) (id : String) (payload : Option Payload)
    (draws : Nat → String) (rel' : Relation) : Prop where
  sent : ∀ children, payload = some (.array children) →
    Matched rel id (saves draws 0 (children.map (rel.assign id))) rel'.rows
  omitted : payload = none → rel'.rows = rel.rows

/-- What the entities with an id say of a column. -/
def told (entities : List Item) (rid : Value) : Item := fun c =>
  entities.findSome? fun entity => if entity.id? = some rid then entity c else none

/-- The row with what the entity says. -/
def merged (entity : Item) (r : Row) : Row := fun c => (entity c).getD (r c)

/-- Every row that an entity names is the parent's, entities that name one row do not contradict
each other, and with what they say it is live. Those that name no row make live children. -/
structure Adoptable (rel : Relation) (id : String) (entities : List Item) : Prop where
  owned : ∀ r ∈ rel.rows.rows, (∃ entity ∈ entities, entity.id? = some (r .id)) →
    rel.childOf id r ∧ (merged (told entities (r .id)) r).live = true
  agree : ∀ r ∈ rel.rows.rows, ∀ entity ∈ entities, entity.id? = some (r .id) →
    ∀ entity' ∈ entities, entity'.id? = some (r .id) →
      ∀ c v v', c ≠ .id → entity c = some v → entity' c = some v' → v = v'
  new : ∀ entity ∈ entities, (∀ r ∈ rel.rows.rows, entity.id? ≠ some (r .id)) →
    (merged entity rel.entity.defaults).live = true ∧
      rel.childOf id (merged entity rel.entity.defaults)

/-! ## The save -/

/-- The entity has no id, or one that is not in the table. -/
def fresh (t : Rows) (entity : Item) : Bool := (entity.id?.bind t.lookup).isNone

section Save

variable {t : Rows} {draws : Nat → String} {i : Nat} {entities : List Item} {E : EntityTable}

theorem map_entity_saves (draws : Nat → String) (i : Nat) (entities : List Item) :
    (saves draws i entities).map (·.entity) = entities := by
  induction entities generalizing i with
  | nil => rfl
  | cons entity entities ih => exact congrArg (entity :: ·) (ih (i + 1))

theorem mem_of_mem_saves {s : Saved} (h : s ∈ saves draws i entities) : s.entity ∈ entities := by
  rw [← map_entity_saves draws i entities]
  exact List.mem_map_of_mem h

variable (draws i) in
theorem exists_of_mem {entity : Item} (h : entity ∈ entities) :
    ∃ s ∈ saves draws i entities, s.entity = entity := by
  rw [← map_entity_saves draws i entities] at h
  exact List.mem_map.mp h

theorem saves_id {s : Saved} (hs : s ∈ saves draws i entities) {id : Value}
    (hid : s.entity.id? = some id) : s.id = id := by
  induction entities generalizing i with
  | nil => cases hs
  | cons entity entities ih =>
      rcases List.mem_cons.mp hs with rfl | hs
      · exact congrArg (Option.getD · (.text (draws i))) hid
      · exact ih hs

theorem fresh_iff {entity : Item} :
    fresh t entity = true ↔ ∀ r ∈ t.rows, entity.id? ≠ some (r .id) := by
  rw [fresh, Option.isNone_iff_eq_none, Option.bind_eq_none_iff]
  constructor
  · intro h r hr hid
    exact Table.lookup_eq_none.mp (h _ hid) (List.mem_map_of_mem hr)
  · intro h id hid
    rw [Table.lookup_eq_none]
    intro hmem
    obtain ⟨r, hr, rfl⟩ := List.mem_map.mp hmem
    exact h r hr hid

/-- The inserted rows are those of the fresh entities. -/
theorem inserts_eq : inserts E t draws i entities =
    ((saves draws i entities).filter fun s => fresh t s.entity).map
      fun s => insertRow E s.entity s.id := by
  induction entities generalizing i with
  | nil => rfl
  | cons entity entities ih =>
      rw [inserts, saves, List.filter_cons]
      cases hid : entity.id? with
      | none => simp [fresh, hid, ih]
      | some id =>
          cases hlookup : t.lookup id with
          | none => simp [fresh, hid, hlookup, ih]
          | some r => simp [fresh, hid, hlookup, ih]

theorem rows_saveChildren {t₁ : Rows} (h : saveChildren E t entities draws = .ok t₁) :
    t₁.rows = (t.rows ++ inserts E t draws 0 entities).map (writes (updates t entities)) := by
  unfold saveChildren at h
  split at h
  · rename_i hlength
    obtain rfl := List.eq_nil_of_length_eq_zero hlength
    obtain rfl := Except.ok.inj h
    simp only [inserts, updates, List.append_nil, List.filterMap_nil]
    exact (List.map_id' _).symm
  · exact rows_save h

/-! ## What the rows hold after it -/

variable (entities) in
theorem told_cases (rid : Value) (c : Column) :
    (told entities rid c = none ∧ ∀ entity ∈ entities, entity.id? = some rid → entity c = none) ∨
      ∃ entity ∈ entities, entity.id? = some rid ∧ entity c = told entities rid c ∧
        (told entities rid c).isSome = true := by
  cases htold : told entities rid c with
  | none =>
      refine .inl ⟨rfl, fun entity hmem hid => ?_⟩
      have hnone := List.findSome?_eq_none_iff.mp htold entity hmem
      rwa [if_pos hid] at hnone
  | some v =>
      obtain ⟨entity, hmem, hv⟩ := List.exists_of_findSome?_eq_some htold
      split at hv
      · rename_i hid
        exact .inr ⟨entity, hmem, hid, hv, rfl⟩
      · cases hv

/-- The updates of a row set what its entities say, if these agree. -/
theorem writes_eq_merged {r : Row} (hr : r ∈ t.rows)
    (hagree : ∀ entity ∈ entities, entity.id? = some (r .id) →
      ∀ entity' ∈ entities, entity'.id? = some (r .id) →
        ∀ c v v', c ≠ .id → entity c = some v → entity' c = some v' → v = v')
    {c : Column} (hc : c ≠ .id) :
    writes (updates t entities) r c = merged (told entities (r .id)) r c := by
  have hstored : ∀ u ∈ updates t entities, u.stored .id = r .id →
      u.stored = r ∧ u.entity ∈ entities ∧ u.entity.id? = some (r .id) := by
    intro u hu hid
    obtain ⟨hentity, rid, hrid, hlookup⟩ := mem_updates.mp hu
    obtain ⟨hmem, hkey⟩ := Table.lookup_eq_some.mp hlookup
    exact ⟨t.eq_of_key_eq hmem hr hid, hentity, hrid.trans (by rw [← hkey, hid])⟩
  rcases writes_cases (updates t entities) r hc with ⟨hsame, hnone⟩ | ⟨u, hu, hid, hset, -⟩
  · rw [hsame, merged]
    rcases told_cases entities (r .id) c with ⟨htold, -⟩ | ⟨entity, hmem, hid, hv, hs⟩
    · rw [htold]
      rfl
    · -- What an entity says and no update sets is what the row had.
      obtain ⟨v, htold⟩ := Option.isSome_iff_exists.mp hs
      rw [htold] at hv ⊢
      have hu : (⟨r, entity⟩ : RowUpdate) ∈ updates t entities :=
        mem_updates.mpr ⟨hmem, r .id, hid, Table.lookup_key hr⟩
      by_contra hne
      exact hnone _ hu rfl ⟨v, hv, fun heq => hne heq.symm⟩
  · obtain ⟨-, hentity, hrid⟩ := hstored u hu hid
    rw [merged]
    rcases told_cases entities (r .id) c with ⟨-, hno⟩ | ⟨entity, hmem, hid', hv, hs⟩
    · rw [hno u.entity hentity hrid] at hset
      cases hset
    · obtain ⟨v, htold⟩ := Option.isSome_iff_exists.mp hs
      rw [htold] at hv ⊢
      exact hagree u.entity hentity hrid entity hmem hid' c _ v hc hset hv

theorem writes_live {r : Row} (hr : r ∈ t.rows)
    (hagree : ∀ entity ∈ entities, entity.id? = some (r .id) →
      ∀ entity' ∈ entities, entity'.id? = some (r .id) →
        ∀ c v v', c ≠ .id → entity c = some v → entity' c = some v' → v = v') :
    Row.live (writes (updates t entities) r) = (merged (told entities (r .id)) r).live := by
  unfold Row.live
  rw [writes_eq_merged hr hagree (c := .is_deleted) (fun h => by cases h),
    writes_eq_merged hr hagree (c := .deleted_at) (fun h => by cases h)]

/-- A row that no entity names stays. -/
theorem writes_of_unnamed {r : Row} (h : ∀ entity ∈ entities, entity.id? ≠ some (r .id)) :
    writes (updates t entities) r = r := by
  apply writes_eq_self
  intro u hu hid
  obtain ⟨hentity, rid, hrid, hlookup⟩ := mem_updates.mp hu
  refine h u.entity hentity ?_
  rw [hrid, ← hid, (Table.lookup_eq_some.mp hlookup).2]

/-- The table after the save: the rows with their updates, and one row for each fresh entity. -/
theorem mem_saved {t₁ : Rows} (h : saveChildren E t entities draws = .ok t₁) {r₁ : Row} :
    r₁ ∈ t₁.rows ↔ (∃ r ∈ t.rows, writes (updates t entities) r = r₁) ∨
      ∃ s ∈ saves draws 0 entities, fresh t s.entity = true ∧
        insertRow E s.entity s.id = r₁ := by
  have hrows := rows_saveChildren h
  have hids : t₁.rows.map (· .id) =
      t.rows.map (· .id) ++ (inserts E t draws 0 entities).map (· .id) := by
    rw [hrows, List.map_map, ← List.map_append]
    exact List.map_congr_left fun r _ => writes_id _ r
  have hinserted : ∀ r ∈ inserts E t draws 0 entities,
      writes (updates t entities) r = r := by
    intro r hr
    apply writes_eq_self
    intro u hu hid
    obtain ⟨-, rid, -, hlookup⟩ := mem_updates.mp hu
    have hnodup := t₁.pk
    rw [hids, List.nodup_append] at hnodup
    exact hnodup.2.2 _ (List.mem_map_of_mem (Table.lookup_eq_some.mp hlookup).1) _
      (List.mem_map_of_mem hr) hid
  rw [hrows, List.map_append, List.mem_append, List.mem_map, List.map_congr_left hinserted,
    List.map_id', inserts_eq, List.mem_map]
  simp only [List.mem_filter, and_assoc]

end Save

/-! ## The orphans -/

section Orphans

variable {rel : Relation} {id : String} {incomingIds : List Value} {t₁ t' : Rows}
  {user : Option (Option String)} {now : String}

theorem mem_orphanIds {r : Row} (hr : r ∈ t₁.rows) : r .id ∈ orphanIds rel t₁ id incomingIds ↔
    r.live = true ∧ rel.childOf id r ∧ r .id ∉ incomingIds := by
  rw [orphanIds, List.mem_filter, List.mem_map]
  constructor
  · rintro ⟨⟨r', hr', hid⟩, hout⟩
    obtain ⟨hmem, hchild⟩ := List.mem_filter.mp hr'
    obtain rfl := t₁.eq_of_key_eq hmem hr hid
    rw [Bool.and_eq_true, decide_eq_true_iff] at hchild
    exact ⟨hchild.1, hchild.2, by simpa using hout⟩
  · rintro ⟨hlive, hchild, hout⟩
    refine ⟨⟨r, List.mem_filter.mpr ⟨hr, ?_⟩, rfl⟩, by simpa using hout⟩
    rw [hlive, decide_eq_true hchild]
    rfl

variable (h : handleOrphans rel t₁ id incomingIds {} user now = .ok t')

include h in
/-- By default the orphans are soft-deleted. -/
theorem rows_handleOrphans : t'.rows =
    t₁.rows.map (softDeleted (orphanIds rel t₁ id incomingIds) user "delete with cascade" now) := by
  change (if (orphanIds rel t₁ id incomingIds).length = 0 then _ else rel.entity.check _) = _ at h
  split at h
  · rename_i hlength
    obtain rfl := Except.ok.inj h
    rw [List.eq_nil_of_length_eq_zero hlength, List.map_congr_left fun r _ =>
      softDeleted_nil user "delete with cascade" now r]
    exact (List.map_id' _).symm
  · rw [check_eq_ok h]
    rfl

include h in
theorem mem_of_not_orphan {r : Row} (hr : r ∈ t₁.rows)
    (hkept : ¬ (r.live = true ∧ rel.childOf id r ∧ r .id ∉ incomingIds)) : r ∈ t'.rows := by
  rw [rows_handleOrphans h]
  refine List.mem_map.mpr ⟨r, hr, ?_⟩
  unfold softDeleted
  rw [if_neg]
  rw [Bool.and_eq_true, List.contains_iff_mem, mem_orphanIds hr]
  exact fun hboth => hkept hboth.1

include h in
/-- A row that is live afterwards, or not a child of the parent, was there as it is. -/
theorem mem_before {r : Row} (hr : r ∈ t'.rows)
    (hstays : r.live = true ∨ ¬ rel.childOf id r) :
    r ∈ t₁.rows ∧ ¬ (r.live = true ∧ rel.childOf id r ∧ r .id ∉ incomingIds) := by
  rw [rows_handleOrphans h] at hr
  obtain ⟨r₁, hr₁, rfl⟩ := List.mem_map.mp hr
  unfold softDeleted at hstays ⊢
  split at hstays
  · rename_i hdeleted
    rw [Bool.and_eq_true, List.contains_iff_mem, mem_orphanIds hr₁] at hdeleted
    rcases hstays with hlive | hother
    · cases hlive
    · exact absurd hdeleted.1.2.1 hother
  · rename_i hkept
    rw [Bool.and_eq_true, List.contains_iff_mem, mem_orphanIds hr₁] at hkept
    rw [if_neg (by rwa [Bool.and_eq_true, List.contains_iff_mem, mem_orphanIds hr₁])]
    exact ⟨hr₁, fun horphan => hkept ⟨horphan, horphan.1⟩⟩

end Orphans

/-! ## The children after an update -/

section Update

variable {rel : Relation} {id : String} {entities : List Item} {draws : Nat → String}
  {user : Option (Option String)} {now : String} {t₁ t' : Rows}

variable (hsave : saveChildren rel.entity rel.rows entities draws = .ok t₁)
  (horphans : handleOrphans rel t₁ id ((saves draws 0 entities).map (·.id)) {} user now = .ok t')

include hsave horphans in
/-- The row of a saved entity that names a stored one. -/
theorem Matched.written (h : Matched rel id (saves draws 0 entities) t') {entity : Item}
    (hentity : entity ∈ entities) {r : Row} (hr : r ∈ rel.rows.rows)
    (hid : entity.id? = some (r .id)) :
    Row.live (writes (updates rel.rows entities) r) = true ∧
      rel.childOf id (writes (updates rel.rows entities) r) ∧
      Holds entity (writes (updates rel.rows entities) r) := by
  obtain ⟨s, hs, rfl⟩ := exists_of_mem draws 0 hentity
  obtain ⟨r', hr', hrid, hlive, hchild, hholds⟩ := h.all s hs
  have hmem := (mem_before horphans hr' (.inl hlive)).1
  have hwritten : writes (updates rel.rows entities) r ∈ t₁.rows :=
    (mem_saved hsave).mpr (.inl ⟨r, hr, rfl⟩)
  have hsame : r' = writes (updates rel.rows entities) r := by
    apply t₁.eq_of_key_eq hmem hwritten
    show r' .id = writes (updates rel.rows entities) r .id
    rw [hrid, saves_id hs hid, writes_id]
  rw [← hsame]
  exact ⟨hlive, hchild, hholds⟩

include hsave horphans in
theorem Matched.adoptable (h : Matched rel id (saves draws 0 entities) t') :
    Adoptable rel id entities := by
  have hagree : ∀ r ∈ rel.rows.rows, ∀ entity ∈ entities, entity.id? = some (r .id) →
      ∀ entity' ∈ entities, entity'.id? = some (r .id) →
        ∀ c v v', c ≠ .id → entity c = some v → entity' c = some v' → v = v' := by
    intro r hr entity hentity hid entity' hentity' hid' c v v' hc hv hv'
    have hholds := (h.written hsave horphans hentity hr hid).2.2 c v hc hv
    have hholds' := (h.written hsave horphans hentity' hr hid').2.2 c v' hc hv'
    exact hholds.symm.trans hholds'
  refine ⟨?_, hagree, ?_⟩
  · rintro r hr ⟨entity, hentity, hid⟩
    obtain ⟨hlive, hchild, -⟩ := h.written hsave horphans hentity hr hid
    refine ⟨?_, by rwa [← writes_live hr (hagree r hr)]⟩
    by_contra hother
    -- A row of another parent is both as it was and a child of this one.
    have hkept := (mem_before horphans (h.others r hr hother) (.inr hother)).1
    have hwritten : writes (updates rel.rows entities) r ∈ t₁.rows :=
      (mem_saved hsave).mpr (.inl ⟨r, hr, rfl⟩)
    have hsame : r = writes (updates rel.rows entities) r :=
      t₁.eq_of_key_eq hkept hwritten (writes_id _ r).symm
    rw [← hsame] at hchild
    exact hother hchild
  · intro entity hentity hnew
    obtain ⟨s, hs, rfl⟩ := exists_of_mem draws 0 hentity
    obtain ⟨r, hr, hrid, hlive, hchild, -⟩ := h.all s hs
    have hmem := (mem_before horphans hr (.inl hlive)).1
    have hinserted : insertRow rel.entity s.entity s.id ∈ t₁.rows :=
      (mem_saved hsave).mpr (.inr ⟨s, hs, fresh_iff.mpr hnew, rfl⟩)
    have hsame : r = insertRow rel.entity s.entity s.id :=
      t₁.eq_of_key_eq hmem hinserted hrid
    rw [hsame] at hlive hchild
    exact ⟨hlive, hchild⟩

include hsave horphans in
theorem Adoptable.matched
    (hkey : ∀ entity ∈ entities, ∀ v, entity (.own rel.fk) = some v → v = parentKey id)
    (h : Adoptable rel id entities) : Matched rel id (saves draws 0 entities) t' := by
  refine ⟨?_, ?_, ?_⟩
  · intro s hs
    have hentity := mem_of_mem_saves hs
    have hkept : ∀ r ∈ t₁.rows, r .id = s.id → r ∈ t'.rows := by
      intro r hr hrid
      refine mem_of_not_orphan horphans hr fun horphan => horphan.2.2 ?_
      rw [hrid]
      exact List.mem_map_of_mem hs
    by_cases hnew : ∀ r ∈ rel.rows.rows, s.entity.id? ≠ some (r .id)
    · obtain ⟨hlive, hchild⟩ := h.new s.entity hentity hnew
      refine ⟨insertRow rel.entity s.entity s.id, hkept _ ?_ rfl, rfl, hlive, hchild, ?_⟩
      · exact (mem_saved hsave).mpr (.inr ⟨s, hs, fresh_iff.mpr hnew, rfl⟩)
      · intro c v hc hv
        rw [insertRow, if_neg hc, hv]
        rfl
    · push Not at hnew
      obtain ⟨r, hr, hid⟩ := hnew
      obtain ⟨hchild, hlive⟩ := h.owned r hr ⟨s.entity, hentity, hid⟩
      have hagree := h.agree r hr
      refine ⟨writes (updates rel.rows entities) r, hkept _ ?_ ?_, ?_, ?_, ?_, ?_⟩
      · exact (mem_saved hsave).mpr (.inl ⟨r, hr, rfl⟩)
      · rw [writes_id, saves_id hs hid]
      · rw [writes_id, saves_id hs hid]
      · rwa [writes_live hr hagree]
      · show writes (updates rel.rows entities) r (.own rel.fk) = parentKey id
        rw [writes_eq_merged hr hagree (fun heq => by cases heq), merged]
        rcases told_cases entities (r .id) (.own rel.fk) with
          ⟨htold, -⟩ | ⟨entity, hmem, -, hv, hsome⟩
        · rw [htold]
          exact hchild
        · obtain ⟨v, htold⟩ := Option.isSome_iff_exists.mp hsome
          rw [htold] at hv ⊢
          exact hkey entity hmem v hv
      · intro c v hc hv
        rw [writes_eq_merged hr hagree hc, merged]
        rcases told_cases entities (r .id) c with
          ⟨-, hno⟩ | ⟨entity, hmem, hid', hv', hsome⟩
        · rw [hno s.entity hentity hid] at hv
          cases hv
        · obtain ⟨v', htold⟩ := Option.isSome_iff_exists.mp hsome
          rw [htold] at hv' ⊢
          exact hagree entity hmem hid' s.entity hentity hid c v' v hc hv' hv
  · intro r hr hlive hchild
    obtain ⟨-, hkept⟩ := mem_before horphans hr (.inl hlive)
    have hin : r .id ∈ (saves draws 0 entities).map (·.id) := by
      by_contra hout
      exact hkept ⟨hlive, hchild, hout⟩
    exact List.mem_map.mp hin
  · intro r hr hother
    have hunnamed : ∀ entity ∈ entities, entity.id? ≠ some (r .id) :=
      fun entity hentity hid => hother (h.owned r hr ⟨entity, hentity, hid⟩).1
    refine mem_of_not_orphan horphans ?_ fun horphan => hother horphan.2.1
    exact (mem_saved hsave).mpr (.inl ⟨r, hr, writes_of_unnamed hunnamed⟩)

end Update

theorem assign_key {rel : Relation} {id : String} {child : Item} {v : Value}
    (h : rel.assign id child (.own rel.fk) = some v) : v = parentKey id := by
  unfold Relation.assign at h
  split at h
  · cases h
  · rw [if_pos rfl] at h
    exact (Option.some.inj h).symm

/-- What an update does to a relation whose children it is sent. -/
theorem updateRelation_eq_ok {rel rel' : Relation} {id : String} {payload : Option Payload}
    {options : IUpdateOptions} {user : Option (Option String)} {draws : Nat → String} {now : String}
    (h : updateRelation rel id payload options user draws now = .ok rel') :
    (∃ children t₁, payload = some (.array children) ∧
        saveChildren rel.entity rel.rows (children.map (rel.assign id)) draws = .ok t₁ ∧
        handleOrphans rel t₁ id ((saves draws 0 (children.map (rel.assign id))).map (·.id))
          options user now = .ok rel'.rows) ∨
      (∀ children, payload ≠ some (.array children)) ∧ rel' = rel := by
  unfold updateRelation at h
  split at h
  · rename_i children
    obtain ⟨t₁, hsave, hrest⟩ := bind_eq_ok.mp h
    obtain ⟨rows, horphans, heq⟩ := bind_eq_ok.mp hrest
    obtain rfl := Except.ok.inj heq
    exact .inl ⟨children, t₁, rfl, hsave, horphans⟩
  · rename_i hother
    exact .inr ⟨fun children heq => hother children heq, (Except.ok.inj h).symm⟩

/-- A relation after an update that succeeds. -/
theorem updated_relation_iff {rel rel' : Relation} {id : String} {payload : Option Payload}
    {user : Option (Option String)} {draws : Nat → String} {now : String}
    (h : updateRelation rel id payload {} user draws now = .ok rel') :
    Updated rel id payload draws rel' ↔ ∀ children, payload = some (.array children) →
      Adoptable rel id (children.map (rel.assign id)) := by
  rcases updateRelation_eq_ok h with ⟨children, t₁, rfl, hsave, horphans⟩ | ⟨hno, rfl⟩
  · constructor
    · rintro ⟨hmatched, -⟩ children' heq
      cases heq
      exact (hmatched children rfl).adoptable hsave horphans
    · intro hadopt
      refine ⟨fun children' heq => ?_, fun heq => by cases heq⟩
      cases heq
      refine (hadopt children rfl).matched hsave horphans ?_
      intro entity hentity v hv
      obtain ⟨child, -, rfl⟩ := List.mem_map.mp hentity
      exact assign_key hv
  · constructor
    · intro _ children hsent
      exact absurd hsent (hno children)
    · intro _
      exact ⟨fun children hsent => absurd hsent (hno children), fun _ => rfl⟩

theorem relations_of_update {E : EntityTable} {tableName : String} {s s' : Db} {id : String}
    {data : UpdateData} {user : Option (Option String)} {options : IUpdateOptions}
    {draws : String → Nat → String} {now : String}
    (h : update E tableName s id data user options draws now = .ok s') :
    List.Forall₂ (fun rel rel' => updateRelation rel id (data.relations rel.propertyName) options
      user (draws rel.propertyName) now = .ok rel') s.relations s'.relations := by
  have hbody := executeDbOperation_eq_ok.mp h
  split at hbody
  · cases hbody
  · obtain ⟨parents, -, hrest⟩ := bind_eq_ok.mp hbody
    obtain ⟨relations, hrelations, heq⟩ := bind_eq_ok.mp hrest
    obtain rfl := Except.ok.inj heq
    exact mapM_eq_ok.mp hrelations

/-- **The children of an updated entity.** When an update succeeds, each relation whose children are
sent has afterwards these as its live children, with the rows of the other parents as they were, and
each one whose key is omitted has the rows it had, if and only if the children sent can be
adopted. -/
theorem updated_iff {E : EntityTable} {tableName : String} {s s' : Db} {id : String}
    {data : UpdateData} {user : Option (Option String)} {draws : String → Nat → String}
    {now : String} (h : update E tableName s id data user {} draws now = .ok s') :
    List.Forall₂ (fun rel rel' =>
        Updated rel id (data.relations rel.propertyName) (draws rel.propertyName) rel' ↔
          ∀ children, data.relations rel.propertyName = some (.array children) →
            Adoptable rel id (children.map (rel.assign id)))
      s.relations s'.relations :=
  (relations_of_update h).imp fun _ _ hrel => updated_relation_iff hrel

/-! ## The statements of two policies -/

def policyRow (id : String) : Row := fun c =>
  if c = .id then .text id else if c = .is_deleted then .bool false else .null

def statementRow (id policy : String) (deleted : Bool) : Row := fun c =>
  if c = .id then .text id
  else if c = .is_deleted then .bool deleted
  else if c = .deleted_at then (if deleted then .text "then" else .null)
  else if c = .own "policy_id" then .text policy
  else .null

/-- The policy `p` has a statement, and had another one; the policy `q` has one. -/
def statements : Relation where
  propertyName := "statements"
  fk := "policy_id"
  inverseSide := "policy"
  entity := plainTable
  rows := ⟨[statementRow "a" "p" false, statementRow "b" "p" true, statementRow "c" "q" false],
    by decide⟩

def policies : Db where
  parents := ⟨[policyRow "p", policyRow "q"], by decide⟩
  relations := [statements]

def sendStatements (children : List Item) : UpdateData where
  own := fun _ => none
  relations := fun name => if name = "statements" then some (.array children) else none

/-- The update of the policy `p` with these statements. -/
def updatePolicy (children : List Item) : Except ServiceError Db :=
  update plainTable "policies" policies "p" (sendStatements children) none {} (fun _ _ => "d") "now"

/-- The statement that is there is changed, and one is added. -/
def changeAndAdd : List Item :=
  [item [(.id, .text "a"), (.own "effect", .text "deny")], item [(.own "effect", .text "allow")]]

theorem adoptable_changeAndAdd :
    Adoptable statements "p" (changeAndAdd.map (statements.assign "p")) := by
  refine ⟨by decide +kernel, ?_, by decide +kernel⟩
  intro r hr entity hentity hid entity' hentity' hid' c v v' hc hv hv'
  have hfirst : ∀ entity ∈ changeAndAdd.map (statements.assign "p"),
      entity.id? = some (r .id) → entity =
        statements.assign "p" (item [(.id, .text "a"), (.own "effect", .text "deny")]) := by
    intro entity hentity hid
    rcases List.mem_cons.mp hentity with rfl | hentity
    · rfl
    · obtain rfl := List.mem_singleton.mp hentity
      cases hid
  rw [hfirst entity hentity hid] at hv
  rw [hfirst entity' hentity' hid'] at hv'
  exact Option.some.inj (hv.symm.trans hv')

theorem updated_changeAndAdd : ∃ s', updatePolicy changeAndAdd = .ok s' ∧
    List.Forall₂ (fun rel rel' => Updated rel "p" (some (.array changeAndAdd)) (fun _ => "d") rel')
      [statements] s'.relations := by
  obtain ⟨s', hrun⟩ := exists_of_isOk (x := updatePolicy changeAndAdd) (by decide +kernel)
  refine ⟨s', hrun, ?_⟩
  obtain ⟨rel', rest, hrel, hrest, heq⟩ := List.forall₂_cons_left_iff.mp (updated_iff hrun)
  rw [heq]
  refine .cons (hrel.mpr fun children hsent => ?_) ?_
  · cases hsent
    exact adoptable_changeAndAdd
  · obtain rfl := List.forall₂_nil_left_iff.mp hrest
    exact .nil

/-- The statements sent cannot be adopted. -/
theorem not_updated {children : List Item}
    (hok : (updatePolicy children).isOk = true)
    (hno : ¬ Adoptable statements "p" (children.map (statements.assign "p"))) :
    ∃ s', updatePolicy children = .ok s' ∧
      ¬ List.Forall₂ (fun rel rel' => Updated rel "p" (some (.array children)) (fun _ => "d") rel')
        [statements] s'.relations := by
  obtain ⟨s', hrun⟩ := exists_of_isOk hok
  refine ⟨s', hrun, fun hall => ?_⟩
  obtain ⟨rel', rest, hrel, -, heq⟩ :=
    List.forall₂_cons_left_iff.mp (relations_of_update hrun)
  rw [heq] at hall
  obtain ⟨hupdated, -⟩ := List.forall₂_cons.mp hall
  exact hno ((updated_relation_iff hrel).mp hupdated children rfl)

/-- **A statement is taken from the other policy**, and a deleted one stays deleted. -/
theorem takes_and_leaves :
    (∃ s', updatePolicy [item [(.id, .text "c")]] = .ok s' ∧
      ¬ List.Forall₂ (fun rel rel' => Updated rel "p" (some (.array [item [(.id, .text "c")]]))
        (fun _ => "d") rel') [statements] s'.relations) ∧
    ∃ s', updatePolicy [item [(.id, .text "b")]] = .ok s' ∧
      ¬ List.Forall₂ (fun rel rel' => Updated rel "p" (some (.array [item [(.id, .text "b")]]))
        (fun _ => "d") rel') [statements] s'.relations := by
  constructor
  · refine not_updated (by decide +kernel) fun hadopt => ?_
    have howned := (hadopt.owned (statementRow "c" "q" false)
      (List.mem_cons_of_mem _ (List.mem_cons_of_mem _ List.mem_cons_self))
      ⟨_, List.mem_cons_self, rfl⟩).1
    exact absurd howned (by decide +kernel)
  · refine not_updated (by decide +kernel) fun hadopt => ?_
    have hlive := (hadopt.owned (statementRow "b" "p" true)
      (List.mem_cons_of_mem _ List.mem_cons_self)
      ⟨_, List.mem_cons_self, rfl⟩).2
    exact absurd hlive (by decide +kernel)

end ErpApi.OneToMany
