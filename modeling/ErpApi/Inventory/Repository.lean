import ErpApi.Basic.ShortCircuit
import ErpApi.Basic.Table
import ErpApi.Common.BaseService

set_option autoImplicit false

/-! # Rows of the inventory

The methods `create`, `update` and `delete` of the base service over the tables of the inventory.
An entity type says where a row keeps the columns that every entity has, and which contents of its
table a constraint forbids.

Each method has one lemma about the live rows that it leaves: an insert adds the row
(`mem_live_insert`), an update replaces one (`live_update`), a delete takes one away
(`mem_live_delete`).
-/

namespace ErpApi.Inventory

/-- The columns that every entity has. The time stamps are left out; `deleted_at` is set together
with `is_deleted`. -/
structure BaseEntity where
  id : String
  is_deleted : Bool := false
  created_by : Option String := none
  updated_by : Option String := none
  deleted_by : Option String := none
  deriving DecidableEq

/-- The columns of a new row; the database draws the id. -/
def BaseEntity.create (newId : String) (currentUser : Option String) : BaseEntity where
  id := uuid newId
  created_by := currentUser
  updated_by := currentUser

structure EntityType (ρ : Type) where
  table : String
  base : ρ → BaseEntity
  setBase : ρ → BaseEntity → ρ
  base_setBase : ∀ r b, base (setBase r b) = b
  /-- The error of a statement that leaves the table with these rows, if there is one. -/
  violates : List ρ → Option ServiceError

namespace EntityType

variable {ρ : Type} (E : EntityType ρ)

abbrev Rows : Type := Table ρ (fun r => (E.base r).id)

def live (t : E.Rows) : List ρ := t.rows.filter fun r => !(E.base r).is_deleted

def findLive (t : E.Rows) (id : String) : Option ρ := (E.live t).find? fun r => (E.base r).id = id

def notFound (id : String) : ServiceError :=
  .notFound (E.table ++ " with ID '" ++ id ++ "' not found.")

/-- The table after a statement, unless a constraint forbids it. -/
def check (t : E.Rows) : Except ServiceError E.Rows :=
  match E.violates t.rows with
  | some e => .error e
  | none => .ok t

def insert (t : E.Rows) (row : ρ) : Except ServiceError E.Rows :=
  match t.insert row with
  | none => .error (.uniqueViolation "id")
  | some t' => E.check t'

def put (row' : ρ) (r : ρ) : ρ := if (E.base r).id = (E.base row').id then row' else r

theorem put_id (row' r : ρ) : (E.base (E.put row' r)).id = (E.base r).id := by
  unfold put
  split
  · rename_i heq
    exact heq.symm
  · rfl

/-- The loaded row is compared with the given id as text. -/
def update (t : E.Rows) (id : String) (merge : ρ → Except ServiceError ρ)
    (currentUser : Option String) : Except ServiceError (E.Rows × ρ) :=
  match E.findLive t id with
  | none => .error (E.notFound id)
  | some r => do
      let merged ← merge r
      let entity := E.setBase merged
        { E.base r with updated_by := currentUser.or (E.base r).updated_by }
      let t' ← E.check (t.update (E.put entity) (E.put_id entity))
      return (t', entity)

/-- The number of rows that a statement finds by the id. -/
def affected (t : E.Rows) (id : String) : Nat := t.rows.countP fun r => (E.base r).id = uuid id

def markDeleted (id : String) (currentUser : Option String) (r : ρ) : ρ :=
  if (E.base r).id = uuid id then
    E.setBase r { E.base r with
      is_deleted := true, deleted_by := currentUser.or (E.base r).deleted_by }
  else r

theorem markDeleted_id (id : String) (currentUser : Option String) (r : ρ) :
    (E.base (E.markDeleted id currentUser r)).id = (E.base r).id := by
  unfold markDeleted
  split
  · rw [E.base_setBase]
  · rfl

/-- The statement finds the row by its id alone, so it also finds a deleted one. -/
def delete (t : E.Rows) (id : String) (softDelete : Bool) (currentUser : Option String) :
    Except ServiceError E.Rows :=
  if E.affected t id = 0 then .error (E.notFound id)
  else if softDelete then
    .ok (t.update (E.markDeleted id currentUser) (E.markDeleted_id id currentUser))
  else .ok (t.filter fun r => (E.base r).id ≠ uuid id)

/-! ## The live rows after each method -/

variable {E} {t t' : E.Rows} {r : ρ}

theorem mem_live : r ∈ E.live t ↔ r ∈ t.rows ∧ (E.base r).is_deleted = false := by
  simp [live]

theorem findLive_eq_some {id : String} :
    E.findLive t id = some r ↔ r ∈ E.live t ∧ (E.base r).id = id := by
  constructor
  · intro h
    exact ⟨List.mem_of_find?_eq_some h, by simpa using List.find?_some h⟩
  · rintro ⟨hr, hid⟩
    cases hfind : E.findLive t id with
    | none =>
        have hno := List.find?_eq_none.mp hfind r hr
        simp [hid] at hno
    | some r' =>
        have hid' : (E.base r').id = id := by simpa using List.find?_some hfind
        rw [t.eq_of_key_eq (mem_live.mp (List.mem_of_find?_eq_some hfind)).1 (mem_live.mp hr).1
          (hid'.trans hid.symm)]

theorem live_id_unique {r' : ρ} (hr : r ∈ E.live t) (hr' : r' ∈ E.live t)
    (h : (E.base r).id = (E.base r').id) : r = r' :=
  t.eq_of_key_eq (mem_live.mp hr).1 (mem_live.mp hr').1 h

theorem check_eq_ok (h : E.check t = .ok t') : t' = t := by
  unfold check at h
  split at h
  · cases h
  · exact (Except.ok.inj h).symm

theorem mem_live_insert {row : ρ} (h : E.insert t row = .ok t')
    (hlive : (E.base row).is_deleted = false) :
    (∀ r, r ∈ E.live t' ↔ r ∈ E.live t ∨ r = row) ∧
      ∀ r ∈ t.rows, (E.base r).id ≠ (E.base row).id := by
  unfold insert at h
  split at h
  · cases h
  · rename_i t₁ hinsert
    obtain rfl := check_eq_ok h
    constructor
    · intro r
      rw [mem_live, Table.rows_of_insert hinsert, List.mem_append, List.mem_singleton, mem_live]
      constructor
      · rintro ⟨hmem | rfl, hr⟩
        · exact .inl ⟨hmem, hr⟩
        · exact .inr rfl
      · rintro (⟨hmem, hr⟩ | rfl)
        · exact ⟨.inl hmem, hr⟩
        · exact ⟨.inr rfl, hlive⟩
    · intro r hr heq
      rw [Table.insert_eq_none.mpr ⟨r, Table.lookup_eq_some.mpr ⟨hr, heq⟩⟩] at hinsert
      cases hinsert

theorem live_update {id : String} {merge : ρ → Except ServiceError ρ} {currentUser : Option String}
    {r' : ρ} (h : E.update t id merge currentUser = .ok (t', r')) :
    ∃ r ∈ E.live t, (E.base r).id = id ∧ (E.base r').id = id ∧
      (∃ merged, merge r = .ok merged ∧ r' = E.setBase merged
        { E.base r with updated_by := currentUser.or (E.base r).updated_by }) ∧
      ∀ x, x ∈ E.live t' ↔ (x ∈ E.live t ∧ (E.base x).id ≠ id) ∨ x = r' := by
  unfold update at h
  split at h
  · cases h
  · rename_i r hfind
    obtain ⟨hr, rfl⟩ := findLive_eq_some.mp hfind
    obtain ⟨merged, hmerged, hrest⟩ := bind_eq_ok.mp h
    obtain ⟨t₁, hcheck, hresult⟩ := bind_eq_ok.mp hrest
    obtain ⟨rfl, rfl⟩ := Prod.mk.inj (Except.ok.inj hresult)
    obtain rfl := check_eq_ok hcheck
    have hbase : ∀ b, E.base (E.setBase merged b) = b := E.base_setBase merged
    refine ⟨r, hr, rfl, by rw [hbase], ⟨merged, hmerged, rfl⟩, fun x => ?_⟩
    rw [mem_live, Table.rows_update, List.mem_map]
    constructor
    · rintro ⟨⟨old, hold, rfl⟩, hx⟩
      unfold put at hx ⊢
      rw [hbase] at hx ⊢
      split at hx
      · rename_i heq
        rw [if_pos heq]
        exact .inr rfl
      · rename_i hne
        rw [if_neg hne]
        exact .inl ⟨mem_live.mpr ⟨hold, hx⟩, hne⟩
    · rintro (⟨hx, hne⟩ | rfl)
      · obtain ⟨hmem, hdeleted⟩ := mem_live.mp hx
        refine ⟨⟨x, hmem, ?_⟩, hdeleted⟩
        unfold put
        rw [hbase, if_neg hne]
      · obtain ⟨hmem, hdeleted⟩ := mem_live.mp hr
        refine ⟨⟨r, hmem, ?_⟩, by rw [hbase]; exact hdeleted⟩
        unfold put
        rw [hbase, if_pos rfl]

theorem mem_live_delete {id : String} {softDelete : Bool} {currentUser : Option String}
    (h : E.delete t id softDelete currentUser = .ok t') :
    r ∈ E.live t' ↔ r ∈ E.live t ∧ (E.base r).id ≠ uuid id := by
  unfold delete at h
  split at h
  · cases h
  split at h
  · obtain rfl := Except.ok.inj h
    rw [mem_live, Table.rows_update, List.mem_map, mem_live]
    constructor
    · rintro ⟨⟨old, hold, rfl⟩, hr⟩
      unfold markDeleted at hr ⊢
      split at hr
      · rw [E.base_setBase] at hr
        cases hr
      · rename_i hne
        rw [if_neg hne]
        exact ⟨⟨hold, hr⟩, hne⟩
    · rintro ⟨⟨hmem, hr⟩, hne⟩
      refine ⟨⟨r, hmem, ?_⟩, hr⟩
      unfold markDeleted
      rw [if_neg hne]
  · obtain rfl := Except.ok.inj h
    rw [mem_live, mem_live, Table.filter, List.mem_filter]
    simp [and_right_comm]

end EntityType

end ErpApi.Inventory
