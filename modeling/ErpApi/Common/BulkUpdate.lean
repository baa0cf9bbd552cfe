import ErpApi.Basic.ShortCircuit
import ErpApi.Basic.Table
import ErpApi.Common.BaseService

set_option autoImplicit false

/-! # Bulk updates

`BaseServiceOperations.updateBulk` over any table. The items of a request with an id are updated,
those without one are created, and the rows of the scope that no item names are soft-deleted, all
in one transaction.

A call that succeeds has deleted, then inserted, then updated (`rows_updateBulk`). The rows of the
table after it are the old ones, each with its changes (`final`), and the inserted ones
(`mem_after`).

The time stamps `created_at` and `updated_at` are left out: nothing here reads them.
-/

namespace ErpApi.Bulk

/-! ## Tables, items and filters -/

inductive Column where
  | id
  | is_deleted
  | deleted_at
  | deleted_by
  | deleted_reason
  | created_by
  | updated_by
  /-- A column of the table's own. -/
  | own (name : String)
  deriving DecidableEq

/-- A value of a column; one that is neither a truth value nor null is its text. -/
inductive Value where
  | null
  | bool (b : Bool)
  | text (s : String)
  deriving DecidableEq

abbrev Row := Column → Value

abbrev Rows := Table Row (· .id)

/-- An entity before it is stored, or an item of a request: `none` for a property that is
undefined. -/
abbrev Item := Column → Option Value

/-- One property of a filter: what `find` makes of it, and the value itself. -/
structure FilterEntry where
  column : Column
  selects : Value → Bool
  value : Option Value
  /-- A `find` does not look at a property that is null or undefined. -/
  blank : value.getD .null = .null → ∀ v, selects v = true

structure Filter where
  entries : List FilterEntry
  nodup : (entries.map (·.column)).Nodup

/-- A property that a column must equal. -/
def FilterEntry.equal (column : Column) (value : Value) : FilterEntry where
  column := column
  selects := fun v => value = .null || v = value
  value := some value
  blank := by
    intro h v
    have hnull : value = .null := h
    simp [hnull]

/-- What the database knows of a table besides its rows. -/
structure EntityTable where
  defaults : Column → Value
  defaults_live : defaults .is_deleted = .bool false ∧ defaults .deleted_at = .null
  /-- The error of a statement that leaves the table with these rows, if a constraint forbids
  them. -/
  violates : List Row → Option ServiceError

/-! ## The parts of the call -/

/-- The condition `softDeleteFilter`. -/
def Row.live (r : Row) : Bool := r .is_deleted = .bool false && r .deleted_at = .null

/-- The part of the filter that the conditions of `softDeleteFilter` leave. -/
def Filter.selects (filter : Filter) (r : Row) : Bool :=
  filter.entries.all fun e =>
    e.column = .is_deleted || e.column = .deleted_at || e.selects (r e.column)

def fetchExistingEntities (t : Rows) (filter : Filter) : List Row :=
  t.rows.filter fun r => r.live && filter.selects r

/-- The id of an item, unless it is null or undefined. -/
def Item.id? (item : Item) : Option Value := (item .id).filter fun v => v ≠ .null

def toCreate (items : List Item) : List Item := items.filter fun item => item.id?.isNone

def toUpdate (items : List Item) : List Item := items.filter fun item => item.id?.isSome

def incomingIds (items : List Item) : List Value := items.filterMap Item.id?

def idsToDelete (t : Rows) (filter : Filter) (items : List Item) : List Value :=
  ((fetchExistingEntities t filter).filter fun r => !(incomingIds items).contains (r .id)).map
    (· .id)

/-- The spread `{ ...data, ...filter }`. -/
def spread (filter : Filter) (data : Item) : Item := fun c =>
  match filter.entries.find? fun e => e.column = c with
  | some e => e.value
  | none => data c

def createEntity (filter : Filter) (userId : Option String) (data : Item) : Item := fun c =>
  match c, userId with
  | .created_by, some user => some (.text user)
  | .updated_by, some user => some (.text user)
  | c, _ => spread filter data c

def preloadData (userId : Option String) (data : Item) : Item := fun c =>
  match c, userId with
  | .updated_by, some user => some (.text user)
  | c, _ => data c

/-- The loaded row with the properties of the item over it. -/
def Item.over (data : Item) (r : Row) : Item := fun c => some ((data c).getD (r c))

/-- The loaded row is compared with the given id as text. -/
def preload (t : Rows) (data : Item) : Option Item := do
  let id ← data.id?
  let r ← t.rows.find? fun r => r .id = id && r .deleted_at = .null
  return data.over r

def processCreates (filter : Filter) (userId : Option String) (items : List Item) : List Item :=
  (toCreate items).map (createEntity filter userId)

def processUpdates (t : Rows) (userId : Option String) (items : List Item) : List Item :=
  (toUpdate items).filterMap fun data => preload t (preloadData userId data)

/-- A row after the reconcile delete; `user` is the caller, whose id may be null. -/
def softDeleted (ids : List Value) (user : Option (Option String)) (reason : String) (now : String)
    (r : Row) : Row :=
  if ids.contains (r .id) && r.live then fun
    | .is_deleted => .bool true
    | .deleted_at => .text now
    | .deleted_by =>
        match user with
        | none => r .deleted_by
        | some none => .null
        | some (some userId) => .text userId
    | .deleted_reason => .text reason
    | c => r c
  else r

theorem softDeleted_id (ids : List Value) (user : Option (Option String)) (reason now : String)
    (r : Row) : softDeleted ids user reason now r .id = r .id := by
  unfold softDeleted
  split
  · rfl
  · rfl

theorem softDeleted_nil (user : Option (Option String)) (reason now : String) (r : Row) :
    softDeleted [] user reason now r = r := by
  simp [softDeleted]

def deleteBulkEntities (t : Rows) (ids : List Value) (user : Option (Option String))
    (reason now : String) : Rows :=
  t.update (softDeleted ids user reason now) (softDeleted_id ids user reason now)

/-! ## Saving -/

/-- The table after a statement, unless a constraint forbids it. -/
def EntityTable.check (E : EntityTable) (t : Rows) : Except ServiceError Rows :=
  match E.violates t.rows with
  | some e => .error e
  | none => .ok t

def processDeletes (E : EntityTable) (t : Rows) (ids : List Value) (user : Option (Option String))
    (reason now : String) : Except ServiceError Rows :=
  if ids.length = 0 then .ok t else E.check (deleteBulkEntities t ids user reason now)

/-- An entity whose id is in the table, with the row that `save` has loaded for it. -/
structure RowUpdate where
  stored : Row
  entity : Item

/-- The statement sets the columns in which the entity differs from the loaded row. -/
def RowUpdate.write (u : RowUpdate) (r : Row) : Row := fun c =>
  if r .id = u.stored .id ∧ c ≠ .id then
    match u.entity c with
    | some v => if v = u.stored c then r c else v
    | none => r c
  else r c

theorem RowUpdate.write_id (u : RowUpdate) (r : Row) : u.write r .id = r .id := by
  unfold write
  rw [if_neg (fun h => h.2 rfl)]

def insertRow (E : EntityTable) (entity : Item) (id : Value) : Row := fun c =>
  if c = .id then id else (entity c).getD (E.defaults c)

/-- The rows of the entities to insert, those from number `i` on; the database draws the ids of the
entities that have none. -/
def inserts (E : EntityTable) (t : Rows) (draws : Nat → String) (i : Nat) : List Item → List Row
  | [] => []
  | entity :: entities =>
      match entity.id? with
      | none => insertRow E entity (.text (draws i)) :: inserts E t draws (i + 1) entities
      | some id =>
          match t.lookup id with
          | none => insertRow E entity id :: inserts E t draws (i + 1) entities
          | some _ => inserts E t draws (i + 1) entities

def updates (t : Rows) (entities : List Item) : List RowUpdate :=
  entities.filterMap fun entity => do
    let id ← entity.id?
    let stored ← t.lookup id
    return { stored, entity }

def save (E : EntityTable) (t : Rows) (entities : List Item) (draws : Nat → String) :
    Except ServiceError Rows := do
  match t.insertMany (inserts E t draws 0 entities) with
  | none => throw (.uniqueViolation "id")
  | some t' =>
      let t' ← E.check t'
      (updates t entities).foldlM (fun t u => E.check (t.update u.write u.write_id)) t'

/-! ## The call -/

def updateBulkEntities (E : EntityTable) (t : Rows) (items : List Item) (filter : Filter)
    (user : Option (Option String)) (skipDelete : Bool) (draws : Nat → String) (now : String) :
    Except ServiceError Rows := do
  let userId := user.join
  let ids := if skipDelete then [] else idsToDelete t filter items
  let createdEntities := processCreates filter userId items
  let updatedEntities := processUpdates t userId items
  let t' ← processDeletes E t ids user "delete with bulk reconcile" now
  let entitiesToSave := createdEntities ++ updatedEntities
  if entitiesToSave.length = 0 then return t' else save E t' entitiesToSave draws

def updateBulk (E : EntityTable) (t : Rows) (items : List Item) (filter : Filter)
    (user : Option (Option String)) (skipDelete : Bool) (draws : Nat → String) (now : String) :
    Except ServiceError Rows :=
  if items.length = 0 then .ok t
  else executeDbOperation (updateBulkEntities E t items filter user skipDelete draws now)

/-! ## The table after a call -/

/-- The updates of a row, one statement after another. -/
def writes (us : List RowUpdate) (r : Row) : Row := us.foldl (fun r u => u.write r) r

theorem writes_id (us : List RowUpdate) (r : Row) : writes us r .id = r .id := by
  unfold writes
  induction us generalizing r with
  | nil => rfl
  | cons u us ih => exact (ih (u.write r)).trans (u.write_id r)

/-- The update sets the column. -/
def RowUpdate.Sets (u : RowUpdate) (c : Column) : Prop :=
  ∃ v, u.entity c = some v ∧ v ≠ u.stored c

theorem RowUpdate.write_cases (u : RowUpdate) (r : Row) {c : Column} (hc : c ≠ .id) :
    (u.write r c = r c ∧ ¬ (u.stored .id = r .id ∧ u.Sets c)) ∨
      (u.stored .id = r .id ∧ u.entity c = some (u.write r c) ∧ u.write r c ≠ u.stored c) := by
  unfold write
  by_cases hid : r .id = u.stored .id
  · rw [if_pos ⟨hid, hc⟩]
    cases hv : u.entity c with
    | none =>
        refine .inl ⟨rfl, ?_⟩
        rintro ⟨-, v, hv', -⟩
        rw [hv] at hv'
        cases hv'
    | some v =>
        dsimp only
        split
        · rename_i heq
          refine .inl ⟨rfl, ?_⟩
          rintro ⟨-, v', hv', hne⟩
          rw [hv] at hv'
          exact hne ((Option.some.inj hv').symm.trans heq)
        · rename_i hne
          exact .inr ⟨hid.symm, rfl, hne⟩
  · rw [if_neg fun h => hid h.1]
    exact .inl ⟨rfl, fun h => hid h.1.symm⟩

/-- A column after the updates is what it was, and then no update sets it, or it is what some update
sets. -/
theorem writes_cases (us : List RowUpdate) (r : Row) {c : Column} (hc : c ≠ .id) :
    (writes us r c = r c ∧ ∀ u ∈ us, u.stored .id = r .id → ¬ u.Sets c) ∨
      ∃ u ∈ us, u.stored .id = r .id ∧ u.entity c = some (writes us r c) ∧
        writes us r c ≠ u.stored c := by
  induction us generalizing r with
  | nil => exact .inl ⟨rfl, fun u hu => by cases hu⟩
  | cons u us ih =>
      show (writes us (u.write r) c = r c ∧ _) ∨ _
      rcases ih (u.write r) with ⟨hsame, hnone⟩ | ⟨u', hu', hid, hset⟩
      · rw [u.write_id] at hnone
        rcases u.write_cases r hc with ⟨hkept, hno⟩ | ⟨hid, hset, hne⟩
        · refine .inl ⟨hsame.trans hkept, ?_⟩
          intro u' hu' hid'
          rcases List.mem_cons.mp hu' with rfl | hu'
          · exact fun hsets => hno ⟨hid', hsets⟩
          · exact hnone u' hu' hid'
        · refine .inr ⟨u, List.mem_cons_self, hid, ?_⟩
          show u.entity c = some (writes us (u.write r) c) ∧ writes us (u.write r) c ≠ u.stored c
          rw [hsame]
          exact ⟨hset, hne⟩
      · rw [u.write_id] at hid
        exact .inr ⟨u', List.mem_cons_of_mem _ hu', hid, hset⟩

/-- A row that no update is about stays. -/
theorem writes_eq_self {us : List RowUpdate} {r : Row}
    (h : ∀ u ∈ us, u.stored .id ≠ r .id) : writes us r = r := by
  funext c
  by_cases hc : c = .id
  · rw [hc, writes_id]
  · rcases writes_cases us r hc with ⟨hsame, -⟩ | ⟨u, hu, hid, -⟩
    · exact hsame
    · exact absurd hid (h u hu)

theorem check_eq_ok {E : EntityTable} {t t' : Rows} (h : E.check t = .ok t') : t' = t := by
  unfold EntityTable.check at h
  split at h
  · cases h
  · exact (Except.ok.inj h).symm

theorem rows_foldlM_check {E : EntityTable} {us : List RowUpdate} {t t' : Rows}
    (h : us.foldlM (fun t u => E.check (t.update u.write u.write_id)) t = .ok t') :
    t'.rows = t.rows.map (writes us) := by
  induction us generalizing t with
  | nil =>
      obtain rfl := Except.ok.inj h
      exact (List.map_id' _).symm
  | cons u us ih =>
      rw [List.foldlM_cons] at h
      obtain ⟨t₁, hcheck, hrest⟩ := bind_eq_ok.mp h
      obtain rfl := check_eq_ok hcheck
      rw [ih hrest, Table.rows_update, List.map_map]
      rfl

/-- A save inserts, then updates. -/
theorem rows_save {E : EntityTable} {t t' : Rows} {entities : List Item} {draws : Nat → String}
    (h : save E t entities draws = .ok t') :
    t'.rows = (t.rows ++ inserts E t draws 0 entities).map (writes (updates t entities)) := by
  unfold save at h
  split at h
  · cases h
  · rename_i t₁ hinsert
    obtain ⟨t₂, ht₂, hupdates⟩ := bind_eq_ok.mp h
    obtain rfl := check_eq_ok ht₂
    rw [rows_foldlM_check hupdates, Table.rows_of_insertMany hinsert]

def Rows.ids (t : Rows) : List Value := t.rows.map (· .id)

/-- A live row that the filter selects. -/
def Row.inScope (filter : Filter) (r : Row) : Prop := r.live = true ∧ filter.selects r = true

section Call

variable (t : Rows) (items : List Item) (filter : Filter) (user : Option (Option String))
  (now : String)

/-- A row after the reconcile delete of the call. -/
def rowDeleted (r : Row) : Row :=
  softDeleted (idsToDelete t filter items) user "delete with bulk reconcile" now r

/-- The table after the reconcile delete. -/
def afterDelete : Rows :=
  deleteBulkEntities t (idsToDelete t filter items) user "delete with bulk reconcile" now

def entitiesToSave : List Item :=
  processCreates filter user.join items ++ processUpdates t user.join items

/-- The updates of the call. -/
def callUpdates : List RowUpdate :=
  updates (afterDelete t items filter user now) (entitiesToSave t items filter user)

/-- The rows that the call inserts. -/
def callInserts (E : EntityTable) (draws : Nat → String) : List Row :=
  inserts E (afterDelete t items filter user now) draws 0 (entitiesToSave t items filter user)

theorem rows_afterDelete :
    (afterDelete t items filter user now).rows = t.rows.map (rowDeleted t items filter user now) :=
  rfl

theorem afterDelete_of_none (h : (idsToDelete t filter items).length = 0) :
    afterDelete t items filter user now = t := by
  have hids := List.eq_nil_of_length_eq_zero h
  obtain ⟨rows, pk⟩ := t
  have hsame : rows.map (rowDeleted ⟨rows, pk⟩ items filter user now) = rows := by
    rw [List.map_congr_left (g := id) fun r _ => by rw [rowDeleted, hids, softDeleted_nil, id]]
    exact List.map_id rows
  unfold afterDelete deleteBulkEntities Table.update
  congr 1

variable {t items filter user now} {E : EntityTable} {draws : Nat → String} {t' : Rows}

/-- **What a call does**: it deletes, inserts, then updates. -/
theorem rows_updateBulk (hne : items ≠ [])
    (h : updateBulk E t items filter user false draws now = .ok t') :
    t'.rows = ((t.rows.map (rowDeleted t items filter user now)) ++
        callInserts t items filter user now E draws).map
      (writes (callUpdates t items filter user now)) := by
  have hbody : updateBulkEntities E t items filter user false draws now = .ok t' := by
    unfold updateBulk at h
    rw [if_neg (fun hlength => hne (List.eq_nil_of_length_eq_zero hlength))] at h
    exact executeDbOperation_eq_ok.mp h
  obtain ⟨t₁, ht₁, hsave⟩ := bind_eq_ok.mp hbody
  have hdeleted : t₁ = afterDelete t items filter user now := by
    change processDeletes E t (idsToDelete t filter items) user _ now = _ at ht₁
    unfold processDeletes at ht₁
    split at ht₁
    · rename_i hnone
      rw [afterDelete_of_none t items filter user now hnone]
      exact (Except.ok.inj ht₁).symm
    · exact check_eq_ok ht₁
  subst hdeleted
  rw [← rows_afterDelete]
  change (if (entitiesToSave t items filter user).length = 0 then _ else
    save E _ (entitiesToSave t items filter user) draws) = _ at hsave
  split at hsave
  · rename_i hlength
    obtain rfl := Except.ok.inj hsave
    have hnil : entitiesToSave t items filter user = [] := List.eq_nil_of_length_eq_zero hlength
    unfold callInserts callUpdates
    rw [hnil]
    simp only [inserts, updates, List.append_nil, List.filterMap_nil]
    exact (List.map_id' _).symm
  · exact rows_save hsave

/-! ## The deleted rows -/

theorem inScope_iff {r : Row} : r.inScope filter ↔ (r.live && filter.selects r) = true := by
  rw [Bool.and_eq_true]
  rfl

theorem mem_idsToDelete {r : Row} (hr : r ∈ t.rows) :
    r .id ∈ idsToDelete t filter items ↔ r.inScope filter ∧ r .id ∉ incomingIds items := by
  unfold idsToDelete fetchExistingEntities
  constructor
  · intro h
    obtain ⟨r', hr', hid⟩ := List.mem_map.mp h
    obtain ⟨hexisting, hout⟩ := List.mem_filter.mp hr'
    obtain ⟨hmem, hscope⟩ := List.mem_filter.mp hexisting
    obtain rfl := t.eq_of_key_eq hmem hr hid
    exact ⟨inScope_iff.mpr hscope, by simpa using hout⟩
  · rintro ⟨hscope, hout⟩
    refine List.mem_map_of_mem (List.mem_filter.mpr ⟨List.mem_filter.mpr ⟨hr, ?_⟩, ?_⟩)
    · exact inScope_iff.mp hscope
    · simpa using hout

theorem rowDeleted_eq_self {r : Row} (hr : r ∈ t.rows)
    (h : ¬ (r.inScope filter ∧ r .id ∉ incomingIds items)) :
    rowDeleted t items filter user now r = r := by
  unfold rowDeleted softDeleted
  rw [if_neg]
  rw [Bool.and_eq_true, List.contains_iff_mem, mem_idsToDelete hr]
  exact fun hdeleted => h hdeleted.1

variable (user now) in
theorem rowDeleted_of_inScope {r : Row} (hr : r ∈ t.rows) (hscope : r.inScope filter)
    (hout : r .id ∉ incomingIds items) :
    rowDeleted t items filter user now r .is_deleted = .bool true ∧
      rowDeleted t items filter user now r .deleted_at = .text now := by
  unfold rowDeleted softDeleted
  rw [if_pos]
  · exact ⟨rfl, rfl⟩
  · rw [Bool.and_eq_true, List.contains_iff_mem, mem_idsToDelete hr]
    exact ⟨⟨hscope, hout⟩, hscope.1⟩

theorem rowDeleted_id (r : Row) : rowDeleted t items filter user now r .id = r .id :=
  softDeleted_id _ _ _ _ r

theorem lookup_afterDelete (id : Value) :
    (afterDelete t items filter user now).lookup id =
      (t.lookup id).map (rowDeleted t items filter user now) :=
  Table.lookup_update t _ (fun r => rowDeleted_id r) id

/-! ## The entities -/

theorem Item.id?_eq_some {item : Item} {id : Value} :
    item.id? = some id ↔ item .id = some id ∧ id ≠ .null := by
  unfold Item.id?
  rw [Option.filter_eq_some_iff]
  simp

theorem mem_incomingIds {id : Value} :
    id ∈ incomingIds items ↔ ∃ item ∈ items, item.id? = some id :=
  List.mem_filterMap

theorem mem_toUpdate {item : Item} :
    item ∈ toUpdate items ↔ item ∈ items ∧ ∃ id, item.id? = some id := by
  rw [toUpdate, List.mem_filter, Option.isSome_iff_exists]

theorem mem_toCreate {item : Item} : item ∈ toCreate items ↔ item ∈ items ∧ item.id? = none := by
  rw [toCreate, List.mem_filter, Option.isNone_iff_eq_none]

theorem preloadData_id? (userId : Option String) (item : Item) :
    (preloadData userId item).id? = item.id? := rfl

theorem over_id? {userId : Option String} {item : Item} {r : Row} (h : item.id? = some (r .id)) :
    ((preloadData userId item).over r).id? = some (r .id) := by
  obtain ⟨hvalue, hnull⟩ := Item.id?_eq_some.mp h
  refine Item.id?_eq_some.mpr ⟨?_, hnull⟩
  show some ((item .id).getD (r .id)) = _
  rw [hvalue]
  rfl

/-- A column that differs from the loaded row is one that the item sets. -/
theorem over_sets {data : Item} {r : Row} {c : Column} {v : Value} (h : data.over r c = some v)
    (hne : v ≠ r c) : data c = some v := by
  have hvalue : (data c).getD (r c) = v := Option.some.inj h
  cases hdata : data c with
  | none =>
      rw [hdata] at hvalue
      exact absurd hvalue.symm hne
  | some v' =>
      rw [hdata] at hvalue
      exact congrArg some hvalue

theorem preload_eq_some {data entity : Item} :
    preload t data = some entity ↔ ∃ r ∈ t.rows, data.id? = some (r .id) ∧ r .deleted_at = .null ∧
      entity = data.over r := by
  unfold preload
  constructor
  · intro h
    obtain ⟨id, hid, hfind⟩ := Option.bind_eq_some_iff.mp h
    obtain ⟨r, hr, hentity⟩ := Option.bind_eq_some_iff.mp hfind
    have hfound := List.find?_some hr
    rw [Bool.and_eq_true, decide_eq_true_iff, decide_eq_true_iff] at hfound
    exact ⟨r, List.mem_of_find?_eq_some hr, hfound.1 ▸ hid, hfound.2,
      (Option.some.inj hentity).symm⟩
  · rintro ⟨r, hr, hid, hdeleted, rfl⟩
    have hfind : t.rows.find? (fun r' => r' .id = r .id && r' .deleted_at = .null) = some r := by
      cases hfind : t.rows.find? fun r' => r' .id = r .id && r' .deleted_at = .null with
      | none =>
          have hno := List.find?_eq_none.mp hfind r hr
          simp [hdeleted] at hno
      | some r' =>
          have hfound := List.find?_some hfind
          rw [Bool.and_eq_true, decide_eq_true_iff] at hfound
          rw [t.eq_of_key_eq (List.mem_of_find?_eq_some hfind) hr hfound.1]
    rw [hid]
    show (t.rows.find? _).bind _ = _
    rw [hfind]
    rfl

theorem mem_processUpdates {userId : Option String} {entity : Item} :
    entity ∈ processUpdates t userId items ↔ ∃ item ∈ items, ∃ r ∈ t.rows,
      item.id? = some (r .id) ∧ r .deleted_at = .null ∧
        entity = (preloadData userId item).over r := by
  unfold processUpdates
  rw [List.mem_filterMap]
  simp only [preload_eq_some, preloadData_id?]
  constructor
  · rintro ⟨item, hitem, h⟩
    exact ⟨item, (mem_toUpdate.mp hitem).1, h⟩
  · rintro ⟨item, hitem, r, hr, hid, h⟩
    exact ⟨item, mem_toUpdate.mpr ⟨hitem, _, hid⟩, r, hr, hid, h⟩

theorem mem_updates {entities : List Item} {u : RowUpdate} :
    u ∈ updates t entities ↔
      u.entity ∈ entities ∧ ∃ id, u.entity.id? = some id ∧ t.lookup id = some u.stored := by
  unfold updates
  rw [List.mem_filterMap]
  constructor
  · rintro ⟨entity, hentity, hbind⟩
    obtain ⟨id, hid, hlookup⟩ := Option.bind_eq_some_iff.mp hbind
    obtain ⟨stored, hstored, hu⟩ := Option.bind_eq_some_iff.mp hlookup
    obtain rfl := Option.some.inj hu
    exact ⟨hentity, id, hid, hstored⟩
  · rintro ⟨hentity, id, hid, hlookup⟩
    refine ⟨u.entity, hentity, ?_⟩
    rw [hid]
    show (t.lookup id).bind _ = _
    rw [hlookup]
    rfl

/-- An update is that of an item with its loaded row, or a filter gives the id of a stored row to
new ones. -/
theorem callUpdates_cases {u : RowUpdate} (hu : u ∈ callUpdates t items filter user now) :
    (∃ item ∈ items, ∃ r ∈ t.rows, item.id? = some (r .id) ∧ r .deleted_at = .null ∧
        u.stored = r ∧ u.entity = (preloadData user.join item).over r) ∨
      ∃ item ∈ toCreate items, (createEntity filter user.join item).id? = some (u.stored .id) ∧
        u.stored .id ∈ t.ids := by
  obtain ⟨hentity, id, hid, hlookup⟩ := mem_updates.mp hu
  rw [lookup_afterDelete] at hlookup
  obtain ⟨r, hr, hstored⟩ := Option.map_eq_some_iff.mp hlookup
  obtain ⟨hmem, hkey⟩ := Table.lookup_eq_some.mp hr
  rcases List.mem_append.mp hentity with hcreate | hupdate
  · obtain ⟨item, hitem, hdata⟩ := List.mem_map.mp hcreate
    refine .inr ⟨item, hitem, ?_, ?_⟩
    · rw [hdata, hid, ← hstored, rowDeleted_id, hkey]
    · rw [← hstored, rowDeleted_id]
      exact List.mem_map_of_mem hmem
  · obtain ⟨item, hitem, r', hr', hid', hdeleted, hdata⟩ := mem_processUpdates.mp hupdate
    have hover : u.entity.id? = some (r' .id) := hdata ▸ over_id? hid'
    have hsame : r = r' :=
      t.eq_of_key_eq hmem hr' (hkey.trans (Option.some.inj (hid.symm.trans hover)))
    subst hsame
    refine .inl ⟨item, hitem, r, hmem, hid', hdeleted, ?_, hdata⟩
    rw [← hstored]
    refine rowDeleted_eq_self hmem fun h => h.2 ?_
    exact mem_incomingIds.mpr ⟨item, hitem, hid'⟩

theorem mem_callUpdates {item : Item} {r : Row} (hitem : item ∈ items) (hr : r ∈ t.rows)
    (hid : item.id? = some (r .id)) (hdeleted : r .deleted_at = .null) :
    ⟨r, (preloadData user.join item).over r⟩ ∈ callUpdates t items filter user now := by
  refine mem_updates.mpr ⟨?_, r .id, ?_, ?_⟩
  · exact List.mem_append_right _ (mem_processUpdates.mpr ⟨item, hitem, r, hr, hid, hdeleted, rfl⟩)
  · exact over_id? hid
  · rw [lookup_afterDelete, Table.lookup_eq_some.mpr ⟨hr, rfl⟩, Option.map_some,
      rowDeleted_eq_self hr fun h => h.2 (mem_incomingIds.mpr ⟨item, hitem, hid⟩)]

theorem stored_mem_ids {u : RowUpdate} (hu : u ∈ callUpdates t items filter user now) :
    u.stored .id ∈ t.ids := by
  rcases callUpdates_cases hu with ⟨item, -, r, hr, -, -, hstored, -⟩ | ⟨item, -, -, hid⟩
  · rw [hstored]
    exact List.mem_map_of_mem hr
  · exact hid

/-! ## The new rows -/

theorem mem_inserts {entities : List Item} {i : Nat} {r : Row}
    (h : r ∈ inserts E t draws i entities) :
    ∃ entity ∈ entities, ∃ id, r = insertRow E entity id ∧
      ∀ id', entity.id? = some id' → id = id' ∧ t.lookup id' = none := by
  induction entities generalizing i with
  | nil => cases h
  | cons entity entities ih =>
      have hrest : ∀ i, r ∈ inserts E t draws i entities → ∃ entity' ∈ entity :: entities,
          ∃ id, r = insertRow E entity' id ∧
            ∀ id', entity'.id? = some id' → id = id' ∧ t.lookup id' = none := by
        intro i hr
        obtain ⟨entity', hmem, h⟩ := ih hr
        exact ⟨entity', List.mem_cons_of_mem _ hmem, h⟩
      rw [inserts] at h
      cases hid : entity.id? with
      | none =>
          rw [hid] at h
          rcases List.mem_cons.mp h with rfl | h
          · refine ⟨entity, List.mem_cons_self, _, rfl, ?_⟩
            intro id' hid'
            rw [hid] at hid'
            cases hid'
          · exact hrest _ h
      | some id =>
          rw [hid] at h
          dsimp only at h
          cases hlookup : t.lookup id with
          | none =>
              rw [hlookup] at h
              rcases List.mem_cons.mp h with rfl | h
              · refine ⟨entity, List.mem_cons_self, _, rfl, ?_⟩
                intro id' hid'
                obtain rfl := Option.some.inj (hid.symm.trans hid')
                exact ⟨rfl, hlookup⟩
              · exact hrest _ h
          | some stored =>
              rw [hlookup] at h
              exact hrest _ h

/-- Where the entities up to a point are new and the later ones are not, the rows are those of the
first, in their order. -/
theorem inserts_forall₂ {new old : List Item} {i : Nat}
    (hnew : ∀ entity ∈ new, ∀ id, entity.id? = some id → t.lookup id = none)
    (hold : ∀ entity ∈ old, ∃ id, entity.id? = some id ∧ (t.lookup id).isSome) :
    List.Forall₂ (fun entity r => ∃ id, r = insertRow E entity id ∧
        ∀ id', entity.id? = some id' → id = id')
      new (inserts E t draws i (new ++ old)) := by
  induction new generalizing i with
  | nil =>
      have hnone : ∀ i, inserts E t draws i old = [] := by
        intro i
        induction old generalizing i with
        | nil => rfl
        | cons entity old ih =>
            obtain ⟨id, hid, hsome⟩ := hold entity List.mem_cons_self
            obtain ⟨stored, hstored⟩ := Option.isSome_iff_exists.mp hsome
            rw [inserts, hid]
            dsimp only
            rw [hstored]
            exact ih (fun entity' hmem => hold entity' (List.mem_cons_of_mem _ hmem)) (i + 1)
      rw [List.nil_append, hnone]
      exact .nil
  | cons entity new ih =>
      have hrest := fun i => @ih i fun entity' hmem => hnew entity' (List.mem_cons_of_mem _ hmem)
      rw [List.cons_append, inserts]
      cases hid : entity.id? with
      | none =>
          refine .cons ⟨_, rfl, fun id' hid' => ?_⟩ (hrest _)
          rw [hid] at hid'
          cases hid'
      | some id =>
          dsimp only
          rw [hnew entity List.mem_cons_self id hid]
          refine .cons ⟨_, rfl, fun id' hid' => ?_⟩ (hrest _)
          exact Option.some.inj (hid.symm.trans hid')

/-! ## The rows after a call -/

variable (t items filter user now) in
/-- A row of the table after the call. -/
def final (r : Row) : Row :=
  writes (callUpdates t items filter user now) (rowDeleted t items filter user now r)

theorem final_id (r : Row) : final t items filter user now r .id = r .id :=
  (writes_id _ _).trans (rowDeleted_id r)

section Result

variable (hrows : t'.rows = ((t.rows.map (rowDeleted t items filter user now)) ++
    callInserts t items filter user now E draws).map (writes (callUpdates t items filter user now)))

include hrows in
theorem ids_after :
    t'.ids = t.ids ++ (callInserts t items filter user now E draws).map (· .id) := by
  unfold Rows.ids
  rw [hrows, List.map_map, List.map_append, List.map_map]
  congr 1
  · apply List.map_congr_left
    intro r hr
    exact final_id r
  · apply List.map_congr_left
    intro r hr
    exact writes_id _ r

include hrows in
theorem inserted_not_mem {r : Row} (hr : r ∈ callInserts t items filter user now E draws) :
    r .id ∉ t.ids := by
  have hnodup : t'.ids.Nodup := t'.pk
  rw [ids_after hrows] at hnodup
  intro hmem
  exact (List.nodup_append.mp hnodup).2.2 _ hmem _ (List.mem_map_of_mem hr) rfl

include hrows in
theorem mem_after {r' : Row} : r' ∈ t'.rows ↔
    (∃ r ∈ t.rows, final t items filter user now r = r') ∨
      r' ∈ callInserts t items filter user now E draws := by
  have hkept : ∀ r ∈ callInserts t items filter user now E draws,
      writes (callUpdates t items filter user now) r = r := by
    intro r hr
    apply writes_eq_self
    intro u hu hid
    exact inserted_not_mem hrows hr (hid ▸ stored_mem_ids hu)
  rw [hrows, List.map_append, List.mem_append, List.map_map, List.mem_map]
  refine or_congr_right ?_
  rw [List.map_congr_left hkept, List.map_id']

include hrows in
theorem mem_inserted {r : Row} : r ∈ callInserts t items filter user now E draws ↔
    r ∈ t'.rows ∧ r .id ∉ t.ids := by
  constructor
  · intro h
    exact ⟨(mem_after hrows).mpr (.inr h), inserted_not_mem hrows h⟩
  · rintro ⟨hmem, hnew⟩
    rcases (mem_after hrows).mp hmem with ⟨r', hr', rfl⟩ | h
    · rw [final_id] at hnew
      exact absurd (List.mem_map_of_mem hr') hnew
    · exact h

include hrows in
theorem final_mem {r : Row} (hr : r ∈ t.rows) : final t items filter user now r ∈ t'.rows :=
  (mem_after hrows).mpr (.inl ⟨r, hr, rfl⟩)

include hrows in
/-- The row of a stored id. -/
theorem eq_final {r r' : Row} (hr : r ∈ t.rows) (hr' : r' ∈ t'.rows) (hid : r' .id = r .id) :
    r' = final t items filter user now r :=
  t'.eq_of_key_eq hr' (final_mem hrows hr) (hid.trans (final_id r).symm)

end Result

end Call

end ErpApi.Bulk
