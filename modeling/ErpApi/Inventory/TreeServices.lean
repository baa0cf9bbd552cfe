import ErpApi.Basic.Table
import ErpApi.Inventory.RebuildNestedSet

set_option autoImplicit false

/-! # The services of item groups and warehouses

Both services keep a tree in a table: a row has a parent and the bounds `lft` and `rgt`. They
are the same program over two tables, here `TreeService`, with the texts of its errors and the
columns of the two tables as parameters.

Every call is a transaction that ends with a rebuild of the whole tree. The rebuild throws
unless the live rows are a forest, so the calls need not know how a move, an insert or a delete
affects the tree: whatever a call did before, its result is a nested set
(`rebuildTree_isNestedSet`), and a call that throws leaves the table as it was.

The time stamps of the rows are left out; `deleted_at` is set together with `is_deleted`.
-/

namespace ErpApi.Inventory

variable {δ π : Type}

/-! ## Rows and requests -/

/-- A row of a tree; `attributes` are the columns that only one of the two tables has and the
names. -/
structure TreeRow (δ : Type) where
  id : String
  attributes : δ
  is_group : Bool
  /-- The column `parent_item_group_id`, or `parent_warehouse_id`. -/
  parent : Option String
  lft : Nat
  rgt : Nat
  is_deleted : Bool
  created_by : Option String
  updated_by : Option String
  deleted_by : Option String
  deriving DecidableEq

abbrev Rows (δ : Type) := Table (TreeRow δ) TreeRow.id

structure CreateDTO (δ : Type) where
  attributes : δ
  is_group : Bool
  parent : Option String

/-- All fields of an update are optional. -/
structure UpdateDTO (π : Type) where
  attributes : π
  is_group : Field Bool
  parent : Field String

/-- The order in which the database returns rows when no order is asked for. -/
structure Scan (ρ : Type) where
  order : List ρ → List ρ
  perm : ∀ rows, (order rows).Perm rows

/-! ## The services -/

/-- What differs between the two services. -/
structure TreeService (δ π : Type) where
  parentNotFound : String → String
  leafParent : String
  ownParent : String
  rowNotFound : String → String
  hasChildren : String
  merge : π → δ → Except ServiceError δ

def live (t : Rows δ) : List (TreeRow δ) := t.rows.filter fun r => !r.is_deleted

def findLive (t : Rows δ) (id : String) : Option (TreeRow δ) :=
  (live t).find? fun r => r.id = id

def save (t : Rows δ) (entities : List (TreeRow δ)) : Rows δ :=
  t.update (fun r => (entities.find? fun e => e.id = r.id).getD r) (by
    intro r
    cases hfind : entities.find? fun e => e.id = r.id with
    | none => rfl
    | some e => simpa using List.find?_some hfind)

/-- The number of rows that a statement finds by the id. -/
def affected (t : Rows δ) (id : String) : Nat := t.rows.countP fun r => r.id = uuid id

def findOneOrFail (t : Rows δ) (id : String) : Except ServiceError (TreeRow δ) :=
  match findLive t id with
  | none => throw .entityNotFound
  | some r => pure r

/-- The node that `rebuildNestedSetFor` makes of a row. -/
def TreeRow.mirror (r : TreeRow δ) : NestedSetNode :=
  ⟨r.id, r.parent, r.lft, r.rgt⟩

def rebuildNestedSetFor (entities : List (TreeRow δ)) : Except ServiceError (List (TreeRow δ)) := do
  let mirrors ← rebuildNestedSet (entities.map TreeRow.mirror)
  return entities.map fun entity =>
    -- In the map `byId` a later mirror replaces an earlier one.
    match mirrors.reverse.find? fun mirror => mirror.id = entity.id with
    | none => entity
    | some mirror => { entity with lft := mirror.lft, rgt := mirror.rgt }

def rebuildTree (scan : Scan (TreeRow δ)) (t : Rows δ) : Except ServiceError (Rows δ) := do
  let nodes ← rebuildNestedSetFor (scan.order (live t))
  return save t nodes

namespace TreeService

variable (s : TreeService δ π)

def assertValidParent (t : Rows δ) (parentId : String) : Except ServiceError Unit :=
  match findLive t (uuid parentId) with
  | none => throw (.badRequest (s.parentNotFound parentId))
  | some parent => if !parent.is_group then throw (.badRequest s.leafParent) else pure ()

/-- The check of `create`. -/
def checkNewParent (t : Rows δ) (parent : Option String) : Except ServiceError Unit :=
  match parent with
  | none => pure ()
  | some parentId => if parentId = "" then pure () else s.assertValidParent t parentId

/-- The check of `update`. -/
def checkParent (t : Rows δ) (id : String) (parent : Field String) : Except ServiceError Unit :=
  match parent with
  | .undefined => pure ()
  | .null => pure ()
  | .value parentId =>
      if parentId = id then throw (.badRequest s.ownParent) else s.assertValidParent t parentId

/-- The check of `delete`. -/
def checkChildren (t : Rows δ) (id : String) : Except ServiceError Unit :=
  let childCount := (live t).countP fun r => r.parent = some (uuid id)
  if childCount > 0 then throw (.badRequest s.hasChildren) else pure ()

/-- The row that `create` inserts; the database generates `newId`. -/
def newRow (newId : String) (data : CreateDTO δ) (currentUser : Option String) : TreeRow δ where
  id := newId
  attributes := data.attributes
  is_group := data.is_group
  parent := data.parent.map uuid
  lft := 0
  rgt := 0
  is_deleted := false
  created_by := currentUser
  updated_by := currentUser
  deleted_by := none

def createBody (t : Rows δ) (newId : String) (data : CreateDTO δ) (currentUser : Option String)
    (scan : Scan (TreeRow δ)) : Except ServiceError (Rows δ × TreeRow δ) := do
  s.checkNewParent t data.parent
  match t.insert (newRow newId data currentUser) with
  | none => throw (.uniqueViolation "id")
  | some t =>
      let t ← rebuildTree scan t
      let saved ← findOneOrFail t newId
      return (t, saved)

/-- The row that `preload` makes of the stored one. -/
def preload (data : UpdateDTO π) (currentUser : Option String) (r : TreeRow δ) :
    Except ServiceError (TreeRow δ) := do
  let attributes ← s.merge data.attributes r.attributes
  let is_group ← data.is_group.notNull "is_group" r.is_group
  return { r with
    attributes := attributes
    is_group := is_group
    parent := match data.parent with
      | .undefined => r.parent
      | .null => none
      | .value parentId => some (uuid parentId)
    updated_by := currentUser.or r.updated_by }

def updateBody (t : Rows δ) (id : String) (data : UpdateDTO π) (currentUser : Option String)
    (scan : Scan (TreeRow δ)) : Except ServiceError (Rows δ × TreeRow δ) := do
  s.checkParent t id data.parent
  -- The loaded row is compared with the given id as text.
  match findLive t id with
  | none => throw (.notFound (s.rowNotFound id))
  | some r =>
      let entity ← s.preload data currentUser r
      let t ← rebuildTree scan (save t [entity])
      let saved ← findOneOrFail t id
      return (t, saved)

def deleteBody (t : Rows δ) (id : String) (softDelete : Bool) (currentUser : Option String)
    (scan : Scan (TreeRow δ)) : Except ServiceError (Rows δ) := do
  s.checkChildren t id
  if affected t id = 0 then throw (.notFound (s.rowNotFound id))
  else if softDelete then
    -- The statement finds the row by its id alone, so it also finds a deleted one.
    rebuildTree scan (t.update
      (fun r => if r.id = uuid id then
        { r with is_deleted := true, deleted_by := currentUser.or r.deleted_by } else r)
      (fun r => by split <;> rfl))
  else
    rebuildTree scan (t.filter fun r => r.id ≠ uuid id)

end TreeService

/-! ## Calls -/

/-- A transaction: the table after it and its result. -/
def transaction {α : Type} (t : Rows δ) (body : Except ServiceError (Rows δ × α)) :
    Rows δ × Except ServiceError α :=
  match body with
  | .ok (t', a) => (t', .ok a)
  | .error e => (t, executeDbOperation (.error e))

inductive Call (δ π : Type) where
  | create (newId : String) (data : CreateDTO δ)
  | update (id : String) (data : UpdateDTO π)
  | delete (id : String) (softDelete : Bool)

namespace TreeService

variable (s : TreeService δ π)

/-- A call, with the user that makes it and the order that its rebuild meets. -/
def call (t : Rows δ) (currentUser : Option String) (scan : Scan (TreeRow δ)) :
    Call δ π → Rows δ × Except ServiceError (Option (TreeRow δ))
  | .create newId data => transaction t do
      let (t, saved) ← s.createBody t newId data currentUser scan
      return (t, some saved)
  | .update id data => transaction t do
      let (t, saved) ← s.updateBody t id data currentUser scan
      return (t, some saved)
  | .delete id softDelete => transaction t do
      let t ← s.deleteBody t id softDelete currentUser scan
      return (t, none)

/-- A run of calls, each with its user and its order. -/
def run (t : Rows δ) (calls : List (Call δ π × Option String × Scan (TreeRow δ))) : Rows δ :=
  calls.foldl (fun t c => (s.call t c.2.1 c.2.2 c.1).1) t

end TreeService

/-! ## The two services -/

structure ItemGroupColumns where
  name_th : String
  name_en : String
  deriving DecidableEq

structure ItemGroupFields where
  name_th : Field String
  name_en : Field String

def itemGroupsService : TreeService ItemGroupColumns ItemGroupFields where
  parentNotFound parentId := "Parent item group '" ++ parentId ++ "' not found."
  leafParent := "Cannot attach a child item group to a leaf (is_group=false) parent."
  ownParent := "An item group cannot be its own parent."
  rowNotFound id := "ItemGroup with ID '" ++ id ++ "' not found."
  hasChildren := "Cannot delete an item group that still has child item groups."
  merge fields columns := do
    let name_th ← fields.name_th.notNull "name_th" columns.name_th
    let name_en ← fields.name_en.notNull "name_en" columns.name_en
    return { name_th, name_en }

inductive WarehouseType where
  | stock
  | transit
  | reject
  deriving DecidableEq

structure WarehouseColumns where
  name_th : String
  name_en : String
  warehouse_type : WarehouseType
  deriving DecidableEq

structure WarehouseFields where
  name_th : Field String
  name_en : Field String
  warehouse_type : Field WarehouseType

def warehousesService : TreeService WarehouseColumns WarehouseFields where
  parentNotFound parentId := "Parent warehouse '" ++ parentId ++ "' not found."
  leafParent := "Cannot attach a child warehouse to a leaf (is_group=false) parent."
  ownParent := "A warehouse cannot be its own parent."
  rowNotFound id := "Warehouse with ID '" ++ id ++ "' not found."
  hasChildren := "Cannot delete a warehouse that still has child warehouses."
  merge fields columns := do
    let name_th ← fields.name_th.notNull "name_th" columns.name_th
    let name_en ← fields.name_en.notNull "name_en" columns.name_en
    let warehouse_type ← fields.warehouse_type.notNull "warehouse_type" columns.warehouse_type
    return { name_th, name_en, warehouse_type }

/-! ## The rebuild -/

/-- The order of the nodes does not matter. -/
theorem IsNestedSet.of_perm {nodes nodes' : List NestedSetNode} (h : IsNestedSet nodes)
    (hnodup : (nodes.map NestedSetNode.id).Nodup) (hperm : nodes.Perm nodes') :
    IsNestedSet nodes' := by
  have hids := hperm.map NestedSetNode.id
  have hnodup' : (nodes'.map NestedSetNode.id).Nodup := hids.nodup_iff.mp hnodup
  have hparent : parentOf nodes' = parentOf nodes := by
    funext id
    by_cases hid : id ∈ nodes.map NestedSetNode.id
    · obtain ⟨n, hn, rfl⟩ := List.mem_map.mp hid
      rw [parentOf_of_mem hnodup hn, parentOf_of_mem hnodup' (hperm.mem_iff.mp hn)]
    · have hnone : ∀ {l : List NestedSetNode}, id ∉ l.map NestedSetNode.id →
          parentOf l id = none := by
        intro l hl
        have hfind : (l.find? fun n => n.id = id) = none := by
          refine List.find?_eq_none.mpr ?_
          intro n hn heq
          exact hl (List.mem_map.mpr ⟨n, hn, of_decide_eq_true heq⟩)
        rw [parentOf, hfind]
        rfl
      rw [hnone hid, hnone fun hmem => hid (hids.mem_iff.mpr hmem)]
  constructor
  · intro n hn p hp
    exact hids.mem_iff.mp (h.parent_mem n (hperm.mem_iff.mpr hn) p hp)
  · intro n hn
    rw [hparent]
    exact h.acyclic n (hperm.mem_iff.mpr hn)
  · rw [← hperm.length_eq]
    exact (hperm.symm.flatMap_right _).trans h.bounds_perm
  · intro n hn
    exact h.lft_lt_rgt n (hperm.mem_iff.mpr hn)
  · intro a ha b hb
    rw [hparent]
    exact h.contains_iff a (hperm.mem_iff.mpr ha) b (hperm.mem_iff.mpr hb)

/-- The live rows as nodes. -/
def liveNodes (t : Rows δ) : List NestedSetNode := (live t).map TreeRow.mirror

/-- The row with the bounds that a walk found. -/
def TreeRow.withBounds (w : Walk) (r : TreeRow δ) : TreeRow δ :=
  { r with lft := w.lft r.id, rgt := w.rgt r.id }

theorem map_id_mirror (rows : List (TreeRow δ)) :
    (rows.map TreeRow.mirror).map NestedSetNode.id = rows.map TreeRow.id := by
  rw [List.map_map]
  rfl

theorem nodup_live (t : Rows δ) : ((live t).map TreeRow.id).Nodup :=
  t.pk.sublist (List.filter_sublist.map TreeRow.id)

/-- If it does not throw, the rows get the bounds of one walk, a nested set of their nodes. -/
theorem rebuildNestedSetFor_eq {entities rebuilt : List (TreeRow δ)}
    (hnodup : (entities.map TreeRow.id).Nodup) (h : rebuildNestedSetFor entities = .ok rebuilt) :
    ∃ w, rebuilt = entities.map (TreeRow.withBounds w) ∧
      IsNestedSet ((entities.map (TreeRow.withBounds w)).map TreeRow.mirror) := by
  obtain ⟨mirrors, hmirrors, hrest⟩ := bind_eq_ok.mp h
  rw [← map_id_mirror] at hnodup
  obtain ⟨w, rfl, hset⟩ := rebuildNestedSet_isNestedSet hnodup hmirrors
  have hswap : (entities.map TreeRow.mirror).map (NestedSetNode.withBounds w) =
      (entities.map (TreeRow.withBounds w)).map TreeRow.mirror := by
    rw [List.map_map, List.map_map]
    rfl
  rw [hswap] at hset hrest
  refine ⟨w, ?_, hset⟩
  obtain rfl := Except.ok.inj hrest
  apply List.map_congr_left
  intro r hr
  -- The mirror of a row is the only one with its id.
  have hmem : (r.withBounds w).mirror ∈
      ((entities.map (TreeRow.withBounds w)).map TreeRow.mirror).reverse := by
    rw [List.mem_reverse]
    exact List.mem_map_of_mem (List.mem_map_of_mem hr)
  have hnodup' : (((entities.map (TreeRow.withBounds w)).map TreeRow.mirror).reverse.map
      NestedSetNode.id).Nodup := by
    rw [List.map_reverse, List.nodup_reverse, ← hswap, List.map_map]
    exact hnodup
  have hfind := find_of_mem hnodup' hmem
  have hid : (r.withBounds w).mirror.id = r.id := rfl
  rw [hid] at hfind
  rw [hfind]
  rfl

/-- Saving live rows with new bounds changes the live rows and no others. -/
theorem live_save (t : Rows δ) {nodes : List (TreeRow δ)} (hperm : nodes.Perm (live t))
    (w : Walk) :
    live (save t (nodes.map (TreeRow.withBounds w))) = (live t).map (TreeRow.withBounds w) := by
  have hrow : ∀ r ∈ t.rows, (((nodes.map (TreeRow.withBounds w)).find?
      fun e => e.id = r.id).getD r) = if !r.is_deleted then r.withBounds w else r := by
    intro r hr
    rw [List.find?_map]
    cases hfind : nodes.find? ((fun e => decide (e.id = r.id)) ∘ TreeRow.withBounds w) with
    | none =>
        rw [Option.map_none, Option.getD_none]
        split
        · rename_i hlive
          have hmem : r ∈ nodes := hperm.mem_iff.mpr (List.mem_filter.mpr ⟨hr, hlive⟩)
          exact absurd (decide_eq_true rfl) (List.find?_eq_none.mp hfind r hmem)
        · rfl
    | some e =>
        have hid : e.id = r.id := by
          have hkey := List.find?_some hfind
          exact of_decide_eq_true hkey
        obtain ⟨he, hlive⟩ := List.mem_filter.mp
          (hperm.mem_iff.mp (List.mem_of_find?_eq_some hfind))
        obtain rfl := t.eq_of_key_eq he hr hid
        rw [Option.map_some, Option.getD_some, if_pos hlive]
  rw [live, save, Table.rows_update, List.map_congr_left hrow, live, List.filter_map]
  have hkeep : ((fun r : TreeRow δ => !r.is_deleted) ∘
      fun r => if !r.is_deleted then r.withBounds w else r) = fun r => !r.is_deleted := by
    funext r
    show (!(if !r.is_deleted then r.withBounds w else r).is_deleted) = !r.is_deleted
    split
    · rfl
    · rfl
  rw [hkeep]
  apply List.map_congr_left
  intro r hr
  rw [if_pos (List.mem_filter.mp hr).2]

/-- **Whatever the table was before, a rebuild that does not throw leaves a nested set.** -/
theorem rebuildTree_isNestedSet {t t' : Rows δ} {scan : Scan (TreeRow δ)}
    (h : rebuildTree scan t = .ok t') : IsNestedSet (liveNodes t') := by
  obtain ⟨nodes, hnodes, hsave⟩ := bind_eq_ok.mp h
  obtain rfl := Except.ok.inj hsave
  have hperm := scan.perm (live t)
  have hnodup : ((scan.order (live t)).map TreeRow.id).Nodup :=
    (hperm.map TreeRow.id).nodup_iff.mpr (nodup_live t)
  obtain ⟨w, rfl, hset⟩ := rebuildNestedSetFor_eq hnodup hnodes
  rw [liveNodes, live_save t hperm w]
  refine hset.of_perm ?_ ((hperm.map _).map _)
  rw [map_id_mirror, List.map_map]
  exact hnodup

/-! ## Runs -/

section Calls

variable {s : TreeService δ π} {t : Rows δ}

/-- A call that returns has rebuilt the tree. -/
theorem createBody_isNestedSet {newId : String} {data : CreateDTO δ} {currentUser : Option String}
    {scan : Scan (TreeRow δ)} {r : Rows δ × TreeRow δ}
    (h : s.createBody t newId data currentUser scan = .ok r) : IsNestedSet (liveNodes r.1) := by
  obtain ⟨-, -, hinsert⟩ := bind_eq_ok.mp h
  split at hinsert
  · cases hinsert
  · obtain ⟨t', hrebuild, hfind⟩ := bind_eq_ok.mp hinsert
    obtain ⟨saved, -, hr⟩ := bind_eq_ok.mp hfind
    obtain rfl := Except.ok.inj hr
    exact rebuildTree_isNestedSet hrebuild

theorem updateBody_isNestedSet {id : String} {data : UpdateDTO π} {currentUser : Option String}
    {scan : Scan (TreeRow δ)} {r : Rows δ × TreeRow δ}
    (h : s.updateBody t id data currentUser scan = .ok r) : IsNestedSet (liveNodes r.1) := by
  obtain ⟨-, -, hload⟩ := bind_eq_ok.mp h
  split at hload
  · cases hload
  · obtain ⟨entity, -, hsave⟩ := bind_eq_ok.mp hload
    obtain ⟨t', hrebuild, hfind⟩ := bind_eq_ok.mp hsave
    obtain ⟨saved, -, hr⟩ := bind_eq_ok.mp hfind
    obtain rfl := Except.ok.inj hr
    exact rebuildTree_isNestedSet hrebuild

theorem deleteBody_isNestedSet {id : String} {softDelete : Bool} {currentUser : Option String}
    {scan : Scan (TreeRow δ)} {t' : Rows δ}
    (h : s.deleteBody t id softDelete currentUser scan = .ok t') : IsNestedSet (liveNodes t') := by
  obtain ⟨-, -, hwrite⟩ := bind_eq_ok.mp h
  split at hwrite
  · cases hwrite
  split at hwrite
  · exact rebuildTree_isNestedSet hwrite
  · exact rebuildTree_isNestedSet hwrite

/-- A transaction whose body ends with a nested set returns with one, or it throws and changes
nothing. -/
theorem transaction_cases {α : Type} {body : Except ServiceError (Rows δ × α)}
    (hbody : ∀ r, body = .ok r → IsNestedSet (liveNodes r.1)) :
    ((transaction t body).2.isOk ∧ IsNestedSet (liveNodes (transaction t body).1)) ∨
      (∃ e, transaction t body = (t, .error e)) := by
  cases body with
  | error e => exact .inr ⟨_, rfl⟩
  | ok r => exact .inl ⟨rfl, hbody r rfl⟩

theorem call_cases (currentUser : Option String) (scan : Scan (TreeRow δ)) (c : Call δ π) :
    ((s.call t currentUser scan c).2.isOk ∧
        IsNestedSet (liveNodes (s.call t currentUser scan c).1)) ∨
      (∃ e, s.call t currentUser scan c = (t, .error e)) := by
  cases c with
  | create newId data =>
      apply transaction_cases
      intro r hbody
      obtain ⟨r', hr', hret⟩ := bind_eq_ok.mp hbody
      obtain rfl := Except.ok.inj hret
      exact createBody_isNestedSet hr'
  | update id data =>
      apply transaction_cases
      intro r hbody
      obtain ⟨r', hr', hret⟩ := bind_eq_ok.mp hbody
      obtain rfl := Except.ok.inj hret
      exact updateBody_isNestedSet hr'
  | delete id softDelete =>
      apply transaction_cases
      intro r hbody
      obtain ⟨t', ht', hret⟩ := bind_eq_ok.mp hbody
      obtain rfl := Except.ok.inj hret
      exact deleteBody_isNestedSet ht'

/-- The invariant of every run. -/
theorem run_isNestedSet {calls : List (Call δ π × Option String × Scan (TreeRow δ))}
    (h : IsNestedSet (liveNodes t)) : IsNestedSet (liveNodes (s.run t calls)) := by
  induction calls generalizing t with
  | nil => exact h
  | cons c calls ih =>
      apply ih
      show IsNestedSet (liveNodes (s.call t c.2.1 c.2.2 c.1).1)
      rcases call_cases c.2.1 c.2.2 c.1 with ⟨-, hset⟩ | ⟨e, herror⟩
      · exact hset
      · rw [herror]
        exact h

theorem call_error {currentUser : Option String} {scan : Scan (TreeRow δ)} {c : Call δ π}
    {e : ServiceError} (h : (s.call t currentUser scan c).2 = .error e) :
    (s.call t currentUser scan c).1 = t := by
  rcases call_cases currentUser scan c with ⟨hok, -⟩ | ⟨e', herror⟩
  · rw [h] at hok
    cases hok
  · rw [herror]

end Calls

def emptyRows (δ : Type) : Rows δ := ⟨[], List.nodup_nil⟩

theorem isNestedSet_empty : IsNestedSet (liveNodes (emptyRows δ)) := by
  constructor
  · intro n hn
    cases hn
  · intro n hn
    cases hn
  · exact List.Perm.nil
  · intro n hn
    cases hn
  · intro n hn
    cases hn

/-- The trees of a service in every run from the empty table: after any calls the live rows are a
forest with its nested-set bounds, and a further call that throws changes nothing. -/
def TreeService.KeepsTree (s : TreeService δ π) : Prop :=
  ∀ calls, IsNestedSet (liveNodes (s.run (emptyRows δ) calls)) ∧
    ∀ currentUser scan c e, (s.call (s.run (emptyRows δ) calls) currentUser scan c).2 = .error e →
      (s.call (s.run (emptyRows δ) calls) currentUser scan c).1 = s.run (emptyRows δ) calls

theorem keepsTree (s : TreeService δ π) : s.KeepsTree := by
  intro calls
  refine ⟨run_isNestedSet isNestedSet_empty, ?_⟩
  intro currentUser scan c e h
  exact call_error h

/-- **Item groups and warehouses are nested sets in every reachable state.** -/
theorem services_keep_trees : itemGroupsService.KeepsTree ∧ warehousesService.KeepsTree :=
  ⟨keepsTree itemGroupsService, keepsTree warehousesService⟩

-- A root with two children; the second is created as a root and then moved.
example : (live (itemGroupsService.run (emptyRows ItemGroupColumns)
    [(.create "a" ⟨⟨"n", "n"⟩, true, none⟩, none, ⟨id, fun _ => .refl _⟩),
      (.create "b" ⟨⟨"n", "n"⟩, false, none⟩, none, ⟨id, fun _ => .refl _⟩),
      (.create "c" ⟨⟨"n", "n"⟩, false, some "a"⟩, none, ⟨id, fun _ => .refl _⟩),
      (.update "b" ⟨⟨.undefined, .undefined⟩, .undefined, .value "A"⟩, none,
        ⟨List.reverse, List.reverse_perm⟩),
      (.delete "a" true, none, ⟨id, fun _ => .refl _⟩)])).map
    (fun r => (r.id, r.lft, r.rgt)) = [("a", 1, 6), ("b", 4, 5), ("c", 2, 3)] := by
  decide +kernel

end ErpApi.Inventory
