import ErpApi.Basic.ShortCircuit
import ErpApi.Basic.Table
import ErpApi.Common.BaseService

set_option autoImplicit false

/-! # Many-to-many relations in an update

`_syncManyToManyRelations` makes the links of an entity those that a request asks for. It loads the
linked rows, leaves out the soft-deleted ones, compares ids as texts, and writes the difference: one
statement deletes the links that are no longer asked for, one inserts the others.

The difference is taken against the live links, and the ids to add are not made distinct. What the
insert needs is that each id it adds is new to the junction table and given once; `synced_iff` says
for which requests that is so.
-/

namespace ErpApi.ManyToMany

/-- A row on the other side of the relation. Without a column `is_deleted` it is never deleted. -/
structure Target where
  id : String
  is_deleted : Bool := false
  deriving DecidableEq

/-- A link of the junction table: the entity's id and the target's id are its key. -/
abbrev Link := String × String

structure Db where
  targets : Table Target Target.id
  links : Table Link id

/-- What `loadMany` returns; `returned` says of a soft-deleted target whether it is among them. -/
def loadMany (s : Db) (returned : Target → Bool) (entityId : String) : List Target :=
  s.targets.rows.filter fun t =>
    s.links.rows.contains (uuid entityId, t.id) && (!t.is_deleted || returned t)

def currentIds (s : Db) (returned : Target → Bool) (entityId : String) : List String :=
  ((loadMany s returned entityId).filter fun item => !item.is_deleted).map (·.id)

/-- The ids of the request; an item may have none, or an empty one. -/
def newIds (newItems : List (Option String)) : List String :=
  newItems.filterMap fun id => id.filter (· ≠ "")

section Sync

variable (s : Db) (returned : Target → Bool) (entityId : String) (newItems : List (Option String))

def toAdd : List String :=
  (newIds newItems).filter fun nid => !(currentIds s returned entityId).contains nid

def toRemove : List String :=
  (currentIds s returned entityId).filter fun cid => !(newIds newItems).contains cid

/-- The links after the statement that deletes. -/
def removed : Table Link id :=
  s.links.filter fun link =>
    !(link.1 = uuid entityId && ((toRemove s returned entityId newItems).map uuid).contains link.2)

/-- The rows of the statement that inserts. -/
def inserted : List Link :=
  (toAdd s returned entityId newItems).map fun id => (uuid entityId, uuid id)

/-- Every link refers to a target. -/
def refers (links : List Link) : Bool :=
  links.all fun link => (s.targets.rows.map (·.id)).contains link.2

def addAndRemove : Except ServiceError Db :=
  match (removed s returned entityId newItems).insertMany
      (inserted s returned entityId newItems) with
  | none => .error (.uniqueViolation "id")
  | some links =>
      if refers s (inserted s returned entityId newItems) then .ok { s with links }
      else .error (.foreignKeyViolation "fk_target_id")

/-- The sync of one relation. -/
def syncOne : Except ServiceError Db :=
  if (toAdd s returned entityId newItems).length > 0 ∨
      (toRemove s returned entityId newItems).length > 0 then
    addAndRemove s returned entityId newItems
  else .ok s

end Sync

/-! ## What the sync is for -/

/-- The live targets that the entity is linked to. -/
def liveLinks (s : Db) (entityId : String) (id : String) : Prop :=
  (∃ t ∈ s.targets.rows, t.id = id ∧ t.is_deleted = false) ∧ (uuid entityId, id) ∈ s.links.rows

/-- No row is inserted that is there already, none twice, and afterwards the live links are those
of the request. -/
structure Synced (s : Db) (returned : Target → Bool) (entityId : String)
    (newItems : List (Option String)) : Prop where
  once : (inserted s returned entityId newItems).Nodup
  fresh : ∀ link ∈ inserted s returned entityId newItems,
    link ∉ (removed s returned entityId newItems).rows
  links : ∃ s', syncOne s returned entityId newItems = .ok s' ∧
    ∀ id, liveLinks s' entityId id ↔ id ∈ (newIds newItems).map uuid

/-- Every id of the request is that of a live target. Those that are not, as they are written,
linked already are distinct as UUIDs, and none of them is also asked for as it is linked. -/
structure Addable (s : Db) (entityId : String) (newItems : List (Option String)) : Prop where
  live : ∀ id ∈ newIds newItems, ∃ t ∈ s.targets.rows, t.id = uuid id ∧ t.is_deleted = false
  once : (((newIds newItems).filter fun id =>
    ¬ (uuid entityId, id) ∈ s.links.rows).map uuid).Nodup
  apart : ∀ id ∈ newIds newItems, (uuid entityId, id) ∉ s.links.rows →
    (uuid entityId, uuid id) ∈ s.links.rows → uuid id ∉ newIds newItems

/-- What a `uuid` column gives back is in lower case. -/
structure UuidColumns (s : Db) : Prop where
  targets : ∀ t ∈ s.targets.rows, uuid t.id = t.id
  links : ∀ link ∈ s.links.rows, uuid link.2 = link.2

/-! ## The difference -/

section Difference

variable {s : Db} {returned : Target → Bool} {entityId id : String}
  {newItems : List (Option String)}

variable (returned) in
theorem mem_currentIds : id ∈ currentIds s returned entityId ↔ liveLinks s entityId id := by
  rw [currentIds, List.mem_map, liveLinks]
  constructor
  · rintro ⟨t, ht, rfl⟩
    simp only [loadMany, List.mem_filter, Bool.and_eq_true, List.contains_iff_mem,
      Bool.not_eq_true'] at ht
    exact ⟨⟨t, ht.1.1, rfl, ht.2⟩, ht.1.2.1⟩
  · rintro ⟨⟨t, ht, rfl, hlive⟩, hlink⟩
    refine ⟨t, ?_, rfl⟩
    simp [loadMany, ht, hlive, hlink]

theorem mem_toAdd : id ∈ toAdd s returned entityId newItems ↔
    id ∈ newIds newItems ∧ ¬ liveLinks s entityId id := by
  rw [toAdd, List.mem_filter, ← mem_currentIds returned]
  simp

variable (returned) in
theorem mem_toRemove : id ∈ toRemove s returned entityId newItems ↔
    liveLinks s entityId id ∧ id ∉ newIds newItems := by
  rw [toRemove, List.mem_filter, mem_currentIds returned]
  simp

theorem inserted_nodup : (inserted s returned entityId newItems).Nodup ↔
    ((toAdd s returned entityId newItems).map uuid).Nodup := by
  have hpairs : inserted s returned entityId newItems =
      ((toAdd s returned entityId newItems).map uuid).map fun id => (uuid entityId, id) := by
    rw [List.map_map]
    rfl
  rw [hpairs]
  exact List.nodup_map_iff fun a b h => congrArg Prod.snd h

theorem syncOne_targets {s' : Db} (h : syncOne s returned entityId newItems = .ok s') :
    s'.targets = s.targets := by
  unfold syncOne at h
  split at h
  · unfold addAndRemove at h
    split at h
    · cases h
    · split at h
      · obtain rfl := Except.ok.inj h
        rfl
      · cases h
  · obtain rfl := Except.ok.inj h
    rfl

/-- The sync writes the difference when the insert is possible. -/
theorem syncOne_written (hnodup : (inserted s returned entityId newItems).Nodup)
    (hfresh : ∀ link ∈ inserted s returned entityId newItems,
      link ∉ (removed s returned entityId newItems).rows)
    (hlive : ∀ id ∈ newIds newItems, ∃ t ∈ s.targets.rows, t.id = uuid id ∧ t.is_deleted = false) :
    ∃ s', syncOne s returned entityId newItems = .ok s' ∧ s'.targets = s.targets ∧
      s'.links.rows = (removed s returned entityId newItems).rows ++
        inserted s returned entityId newItems := by
  have hall : (((removed s returned entityId newItems).rows ++
      inserted s returned entityId newItems).map id).Nodup := by
    rw [List.map_id, List.nodup_append]
    refine ⟨by simpa using (removed s returned entityId newItems).pk, hnodup, ?_⟩
    rintro link hold _ hnew rfl
    exact hfresh link hnew hold
  have hrefers : refers s (inserted s returned entityId newItems) = true := by
    simp only [refers, inserted, List.all_eq_true, List.mem_map, List.contains_iff_mem]
    rintro link ⟨nid, hnid, rfl⟩
    obtain ⟨t, ht, hid, -⟩ := hlive nid (mem_toAdd.mp hnid).1
    exact ⟨t, ht, hid⟩
  unfold syncOne
  split
  · refine ⟨⟨s.targets, ⟨_, hall⟩⟩, ?_, rfl, rfl⟩
    rw [addAndRemove, Table.insertMany, dif_pos hall]
    simp only [hrefers, if_true]
  · rename_i hempty
    obtain ⟨hadd, hremove⟩ := not_or.mp hempty
    have hadd : toAdd s returned entityId newItems = [] := by
      rw [← List.length_eq_zero_iff]
      omega
    have hremove : toRemove s returned entityId newItems = [] := by
      rw [← List.length_eq_zero_iff]
      omega
    refine ⟨s, rfl, rfl, ?_⟩
    simp [removed, inserted, hadd, hremove, Table.filter]

variable (hs : UuidColumns s)
include hs

theorem uuid_liveLinks (h : liveLinks s entityId id) : uuid id = id :=
  hs.links (uuid entityId, id) h.2

theorem mem_removed : (uuid entityId, id) ∈ (removed s returned entityId newItems).rows ↔
    (uuid entityId, id) ∈ s.links.rows ∧
      ¬ (liveLinks s entityId id ∧ id ∉ newIds newItems) := by
  have hmem : id ∈ (toRemove s returned entityId newItems).map uuid ↔
      id ∈ toRemove s returned entityId newItems := by
    rw [List.mem_map]
    constructor
    · rintro ⟨cid, hcid, rfl⟩
      rw [uuid_liveLinks hs ((mem_toRemove returned).mp hcid).1]
      exact hcid
    · intro h
      exact ⟨id, h, uuid_liveLinks hs ((mem_toRemove returned).mp h).1⟩
  rw [removed, Table.filter, List.mem_filter, ← mem_toRemove returned, ← hmem]
  simp

/-- The links of the entity once the difference is written. -/
theorem liveLinks_written {s' : Db} (htargets : s'.targets = s.targets)
    (hlinks : s'.links.rows = (removed s returned entityId newItems).rows ++
      inserted s returned entityId newItems)
    (hlive : ∀ id ∈ newIds newItems, ∃ t ∈ s.targets.rows, t.id = uuid id ∧ t.is_deleted = false) :
    liveLinks s' entityId id ↔ id ∈ (newIds newItems).map uuid := by
  have hinserted : (uuid entityId, id) ∈ inserted s returned entityId newItems ↔
      ∃ nid ∈ toAdd s returned entityId newItems, uuid nid = id := by
    simp [inserted]
  rw [liveLinks, htargets, hlinks, List.mem_append, mem_removed hs, hinserted, List.mem_map]
  constructor
  · rintro ⟨⟨t, ht, hid, hdeleted⟩, ⟨hlink, hkept⟩ | ⟨nid, hnid, heq⟩⟩
    · have hcurrent : liveLinks s entityId id := ⟨⟨t, ht, hid, hdeleted⟩, hlink⟩
      by_cases hnew : id ∈ newIds newItems
      · exact ⟨id, hnew, uuid_liveLinks hs hcurrent⟩
      · exact absurd ⟨hcurrent, hnew⟩ hkept
    · exact ⟨nid, (mem_toAdd.mp hnid).1, heq⟩
  · rintro ⟨nid, hnid, rfl⟩
    refine ⟨hlive nid hnid, ?_⟩
    by_cases hcurrent : liveLinks s entityId nid
    · -- The id is linked as it is written, so it is neither removed nor added.
      left
      rw [uuid_liveLinks hs hcurrent]
      exact ⟨hcurrent.2, fun h => h.2 hnid⟩
    · exact .inr ⟨nid, mem_toAdd.mpr ⟨hnid, hcurrent⟩, rfl⟩

variable (returned) in
/-- For ids of live targets, the live links are all links. -/
theorem toAdd_eq
    (hlive : ∀ id ∈ newIds newItems, ∃ t ∈ s.targets.rows, t.id = uuid id ∧ t.is_deleted = false) :
    toAdd s returned entityId newItems =
      (newIds newItems).filter fun id => ¬ (uuid entityId, id) ∈ s.links.rows := by
  refine List.filter_congr fun id hid => ?_
  have hiff : liveLinks s entityId id ↔ (uuid entityId, id) ∈ s.links.rows := by
    refine ⟨And.right, fun hlink => ⟨?_, hlink⟩⟩
    obtain ⟨t, ht, heq, hdeleted⟩ := hlive id hid
    exact ⟨t, ht, heq.trans (hs.links (uuid entityId, id) hlink), hdeleted⟩
  have hmem : id ∈ currentIds s returned entityId ↔ (uuid entityId, id) ∈ s.links.rows := by
    rw [mem_currentIds returned, hiff]
  by_cases hlink : (uuid entityId, id) ∈ s.links.rows
  · simp [hlink, hmem]
  · simp [hlink, hmem]

/-- The sync inserts no link twice and leaves the links of the request, if and only if the ids of
the request can be added. -/
theorem synced_iff (returned : Target → Bool) (entityId : String)
    (newItems : List (Option String)) :
    Synced s returned entityId newItems ↔ Addable s entityId newItems := by
  constructor
  · rintro ⟨honce, hfresh, s', hok, hlinks⟩
    have hlive : ∀ id ∈ newIds newItems, ∃ t ∈ s.targets.rows,
        t.id = uuid id ∧ t.is_deleted = false := by
      intro id hid
      obtain ⟨⟨t, ht, hrow⟩, -⟩ := (hlinks (uuid id)).mpr (List.mem_map_of_mem hid)
      rw [syncOne_targets hok] at ht
      exact ⟨t, ht, hrow⟩
    refine ⟨hlive, ?_, ?_⟩
    · rw [← toAdd_eq returned hs hlive]
      exact inserted_nodup.mp honce
    · intro id hid hunlinked hlink hnew
      have hadd : id ∈ toAdd s returned entityId newItems :=
        mem_toAdd.mpr ⟨hid, fun h => hunlinked h.2⟩
      refine hfresh (uuid entityId, uuid id) (List.mem_map_of_mem hadd) ?_
      exact (mem_removed hs).mpr ⟨hlink, fun h => h.2 hnew⟩
  · rintro ⟨hlive, honce, hapart⟩
    have hnodup : (inserted s returned entityId newItems).Nodup := by
      rw [inserted_nodup, toAdd_eq returned hs hlive]
      exact honce
    have hfresh : ∀ link ∈ inserted s returned entityId newItems,
        link ∉ (removed s returned entityId newItems).rows := by
      intro link hinserted hold
      obtain ⟨nid, hnid, rfl⟩ := List.mem_map.mp hinserted
      obtain ⟨hlink, hkept⟩ := (mem_removed hs).mp hold
      have hadd := hnid
      rw [toAdd_eq returned hs hlive, List.mem_filter] at hadd
      have hunlinked : (uuid entityId, nid) ∉ s.links.rows := by simpa using hadd.2
      have hcurrent : liveLinks s entityId (uuid nid) := ⟨hlive nid hadd.1, hlink⟩
      exact hkept ⟨hcurrent, hapart nid hadd.1 hunlinked hlink⟩
    obtain ⟨s', hok, htargets, hrows⟩ := syncOne_written hnodup hfresh hlive
    exact ⟨hnodup, hfresh, s', hok, fun id => liveLinks_written hs htargets hrows hlive⟩

end Difference

/-! ## A user with two roles -/

def admin : String := "a0000000-0000-4000-8000-000000000001"

def editor : String := "a0000000-0000-4000-8000-000000000002"

def somsak : String := "b0000000-0000-4000-8000-000000000001"

/-- Two roles; the user has the first one. -/
def roles : Db where
  targets := ⟨[⟨admin, false⟩, ⟨editor, false⟩], by decide⟩
  links := ⟨[(somsak, admin)], List.nodup_singleton _⟩

theorem uuid_roles : UuidColumns roles := ⟨by decide +kernel, by decide +kernel⟩

/-- The role that the user has is asked for twice, and taken once; the other one is added. -/
theorem synced_roles :
    Synced roles (fun _ => false) somsak [some admin, some editor, some admin] :=
  (synced_iff uuid_roles (fun _ => false) somsak _).mpr
    ⟨by decide +kernel, by decide +kernel, by decide +kernel⟩

/-- The role is soft-deleted, and the user still linked to it. -/
def retiredRole : Db where
  targets := ⟨[⟨admin, true⟩], by decide⟩
  links := ⟨[(somsak, admin)], List.nodup_singleton _⟩

/-- A new role that is asked for twice is inserted twice, and a link to a soft-deleted role is
inserted although it is there. -/
theorem inserts_again :
    ¬ (inserted roles (fun _ => false) somsak [some editor, some editor]).Nodup ∧
      ∃ link ∈ inserted retiredRole (fun _ => true) somsak [some admin],
        link ∈ (removed retiredRole (fun _ => true) somsak [some admin]).rows := by
  decide +kernel

end ErpApi.ManyToMany
