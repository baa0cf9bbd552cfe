import ErpApi.AccessKeys.AccessKeysService

set_option autoImplicit false

/-! # Cached records under concurrent calls

A `verifySignature` that starts after a change of a key has returned should decide on a record
that includes the change. Two interleavings break this.

* A `verifySignature` reads the row, a `revoke` writes it and deletes the cached record, and then
  the first call fills the cache with what it has read (`stale_record_used`).
* A `save` writes back every column in which its entity differs from the stored row. A change
  that another call has made to such a column since the entity was read is undone.

`Undisturbed` excludes these two, at the `DEL` of the change and at the query of the `save`. In
every run without them the records in use include all changes that have returned
(`verifies_on_current_record`). What carries the induction: the rows include every change that
has returned or is about to (`RowsInclude`), and the cache and every call that is about to fill it
hold records that include every change that has returned (`Current`).
-/

namespace ErpApi.AccessKeys

open Interleaving (run AllSteps)

/-! ## What a record includes -/

/-- The record was read after the change. A record of a deleted key is never that. -/
def CachedAccessKeyRecord.Includes (record : CachedAccessKeyRecord) (change : Change) : Prop :=
  change.deletes = false ∧ ∀ c ∈ change.columns, change.number ∈ record.changes c

instance (record : CachedAccessKeyRecord) (change : Change) : Decidable (record.Includes change) :=
  inferInstanceAs (Decidable (_ ∧ _))

/-- The call is about to fill the cache with a record of the key that lacks the change. -/
def Phase.fillsWithout (change : Change) : Phase → Bool
  | .setex _ record => record.id = change.id && !decide (record.Includes change)
  | _ => false

/-- The call's next command deletes the cached record while another call is about to fill it with
a record that lacks the change. -/
def Phase.deletesTooEarly (calls : List Call) : Phase → Bool
  | .del change _ _ => calls.any fun other => other.phase.fillsWithout change
  | _ => false

/-- The call's next command is the query of a `save`, and the entity differs from the stored row
in a column that the call does not mean to change. -/
def Phase.undoes (s : Store) : Phase → Bool
  | .load change entity _ => s.keys.rows.any fun k =>
      k.id = entity.id && (entity.toColumns.diff k.toColumns).any fun c => c ∉ change.columns
  | _ => false

/-- The step is neither of these. -/
def Undisturbed (c : Config) : Event → Prop
  | .advance i => (c.calls[i]?).any (fun call =>
      call.phase.deletesTooEarly c.calls || call.phase.undoes c.shared) = false
  | _ => True

instance decidableUndisturbed (c : Config) : (e : Event) → Decidable (Undisturbed c e)
  | .advance _ => inferInstanceAs (Decidable (_ = false))
  | .start _ => .isTrue trivial
  | .surroundings _ => .isTrue trivial

/-! ## The invariant -/

section Invariant

variable (env : Env)

/-- The rows of the key were written after the change. -/
def RowsInclude (s : Store) (change : Change) : Prop :=
  ∀ k ∈ s.keys.rows, k.id = change.id →
    (change.deletes = true → k.is_deleted = true) ∧
      ∀ c ∈ change.columns, change.number ∈ k.changes c

/-- The record includes every change of its key that has returned. -/
def Current (s : Store) (record : CachedAccessKeyRecord) : Prop :=
  ∀ change ∈ s.returned, change.id = record.id → record.Includes change

structure StoreInv (s : Store) : Prop where
  rows_issued : ∀ k ∈ s.keys.rows, s.issued k.id = some k.access_key_id
  issued_generated : ∀ id a, s.issued id = some a → ∃ n < s.generated, env.generate n = id
  returned : ∀ change ∈ s.returned, (∃ a, s.issued change.id = some a) ∧ RowsInclude s change
  cache : ∀ a record expires, s.cache a = some (record, expires) →
    s.issued record.id = some a ∧ Current s record

/-- The change is one of a `save`: it leaves the deletion alone. -/
def Change.Saves (change : Change) : Prop :=
  change.deletes = false ∧ .is_deleted ∉ change.columns

/-- What a call has in hand, by where it stands. -/
def PhaseInv (s : Store) : Phase → Prop
  | .preload change id _ => (∃ a, s.issued change.id = some a) ∧ change.id = uuid id ∧ change.Saves
  | .load change entity _ =>
      s.issued change.id = some entity.access_key_id ∧ entity.id = change.id ∧ change.Saves
  | .write change entity columns _ =>
      s.issued change.id = some entity.access_key_id ∧ entity.id = change.id ∧ change.Saves ∧
        (∀ c ∈ columns, c ∈ change.columns) ∧
        ∀ k ∈ s.keys.rows, k.id = change.id →
          ∀ c ∈ change.columns, c ∉ columns → change.number ∈ k.changes c
  | .remove change _ access_key_id _ => s.issued change.id = some access_key_id
  | .del change access_key_id _ =>
      s.issued change.id = some access_key_id ∧ RowsInclude s change
  | .setex payload record =>
      s.issued record.id = some payload.access_key_id ∧ Current s record
  | _ => True

structure CallInv (s : Store) (call : Call) : Prop where
  earlier : ∀ change ∈ call.atStart.returned, change ∈ s.returned
  record : ∀ record, call.record = some record →
    ∀ change ∈ call.atStart.returned, change.id = record.id → record.Includes change
  phase : PhaseInv s call.phase

/-- Nothing is lost from `s` to `s'`: a row has an earlier row behind it, whose history and
deletion it keeps, or it has a new id. -/
structure Grows (s s' : Store) : Prop where
  rows : ∀ k' ∈ s'.keys.rows, s.issued k'.id = none ∨
    ∃ k ∈ s.keys.rows, k.id = k'.id ∧ (k.is_deleted = true → k'.is_deleted = true) ∧
      ∀ c n, n ∈ k.changes c → n ∈ k'.changes c
  issued : ∀ id a, s.issued id = some a → s'.issued id = some a
  returned : ∀ change ∈ s.returned, change ∈ s'.returned

variable {env}

theorem Grows.of_rows_eq {s s' : Store} (hrows : s'.keys.rows = s.keys.rows)
    (hissued : s'.issued = s.issued) (hreturned : ∀ change ∈ s.returned, change ∈ s'.returned) :
    Grows s s' := by
  refine ⟨?_, ?_, hreturned⟩
  · intro k hk
    rw [hrows] at hk
    exact .inr ⟨k, hk, rfl, id, fun _ _ h => h⟩
  · intro id a h
    rw [hissued]
    exact h

theorem Grows.refl (s : Store) : Grows s s := .of_rows_eq rfl rfl fun _ h => h

theorem Grows.rowsInclude {s s' : Store} {change : Change} (h : Grows s s')
    (hissued : ∃ a, s.issued change.id = some a) (hrows : RowsInclude s change) :
    RowsInclude s' change := by
  intro k' hk' hid
  rcases h.rows k' hk' with hnew | ⟨k, hk, hkid, hdeleted, hchanges⟩
  · obtain ⟨a, ha⟩ := hissued
    rw [hid, ha] at hnew
    cases hnew
  · obtain ⟨hdel, hcols⟩ := hrows k hk (hkid.trans hid)
    exact ⟨fun hdeletes => hdeleted (hdel hdeletes),
      fun c hc => hchanges c _ (hcols c hc)⟩

/-- What a call has in hand stays good while others proceed; a record that is about to be cached
has to include the changes that return. -/
theorem Grows.phaseInv {s s' : Store} {phase : Phase} (h : Grows s s')
    (hcurrent : ∀ payload record, phase = .setex payload record → Current s record →
      Current s' record)
    (hphase : PhaseInv s phase) : PhaseInv s' phase := by
  cases phase with
  | preload change id data =>
      obtain ⟨⟨a, ha⟩, hid, hsaves⟩ := hphase
      exact ⟨⟨a, h.issued _ a ha⟩, hid, hsaves⟩
  | load change entity policyIds =>
      obtain ⟨hissued, hid, hsaves⟩ := hphase
      exact ⟨h.issued _ _ hissued, hid, hsaves⟩
  | write change entity columns sync =>
      obtain ⟨hissued, hid, hsaves, hcolumns, hstamped⟩ := hphase
      refine ⟨h.issued _ _ hissued, hid, hsaves, hcolumns, ?_⟩
      intro k' hk' hkid c hc hno
      rcases h.rows k' hk' with hnew | ⟨k, hk, hkk', -, hchanges⟩
      · rw [hkid, hissued] at hnew
        cases hnew
      · exact hchanges c _ (hstamped k hk (hkk'.trans hkid) c hc hno)
  | remove change id access_key_id softDelete => exact h.issued _ _ hphase
  | del change access_key_id answer =>
      obtain ⟨hissued, hrows⟩ := hphase
      exact ⟨h.issued _ _ hissued, h.rowsInclude ⟨_, hissued⟩ hrows⟩
  | setex payload record =>
      obtain ⟨hissued, hrecord⟩ := hphase
      exact ⟨h.issued _ _ hissued, hcurrent payload record rfl hrecord⟩
  | _ => trivial

theorem StoreInv.grows {s s' : Store} (hs : StoreInv env s) (h : Grows s s')
    (hrows : ∀ k ∈ s'.keys.rows, s'.issued k.id = some k.access_key_id)
    (hgenerated : ∀ id a, s'.issued id = some a → ∃ n < s'.generated, env.generate n = id)
    (hcache : s'.cache = s.cache) (hreturned : s'.returned = s.returned) : StoreInv env s' := by
  refine ⟨hrows, hgenerated, ?_, ?_⟩
  · intro change hchange
    rw [hreturned] at hchange
    obtain ⟨⟨a, ha⟩, hinclude⟩ := hs.returned change hchange
    exact ⟨⟨a, h.issued _ a ha⟩, h.rowsInclude ⟨a, ha⟩ hinclude⟩
  · intro a record expires hcached
    rw [hcache] at hcached
    obtain ⟨hissued, hcurrent⟩ := hs.cache a record expires hcached
    refine ⟨h.issued _ a hissued, ?_⟩
    rw [Current, hreturned]
    exact hcurrent

/-! ## The commands -/

/-- What one command leads to: the invariants, a store that grows, and a change that returns only
by its `DEL`. -/
structure StepInv (env : Env) (s : Store) (phase : Phase) (s' : Store) (call' : Call) :
    Prop where
  store : StoreInv env s'
  call : CallInv s' call'
  grows : Grows s s'
  returned : s'.returned = s.returned ∨ ∃ change access_key_id answer,
    phase = .del change access_key_id answer ∧ s'.returned = s.returned ++ [change]

/-- A command that writes nothing. -/
theorem StepInv.of_read {s : Store} {call : Call} {phase : Phase} (hs : StoreInv env s)
    (hc : CallInv s call) (hphase : PhaseInv s phase) :
    StepInv env s call.phase s { call with phase := phase } :=
  ⟨hs, ⟨hc.earlier, hc.record, hphase⟩, .refl s, .inl rfl⟩

/-- A command that changes neither the cache nor the returned changes. -/
theorem StepInv.of_write {s s' : Store} {call : Call} {phase : Phase} (hs : StoreInv env s)
    (hc : CallInv s call) (h : Grows s s')
    (hrows : ∀ k ∈ s'.keys.rows, s'.issued k.id = some k.access_key_id)
    (hgenerated : ∀ id a, s'.issued id = some a → ∃ n < s'.generated, env.generate n = id)
    (hcache : s'.cache = s.cache) (hreturned : s'.returned = s.returned)
    (hphase : PhaseInv s' phase) :
    StepInv env s call.phase s' { call with phase := phase } := by
  refine ⟨hs.grows h hrows hgenerated hcache hreturned, ⟨?_, hc.record, hphase⟩, h, .inl hreturned⟩
  intro change hchange
  exact h.returned change (hc.earlier change hchange)

theorem insert_step {s : Store} {call : Call} (hs : StoreInv env s) (hc : CallInv s call)
    (dto : CreateAccessKeyDTO) (pair : KeyPair) :
    StepInv env s call.phase (insert env s dto pair).1
      { call with phase := .done (insert env s dto pair).2 } := by
  have hgenerated : ∀ id a, s.issued id = some a →
      ∃ n < s.generated + 1, env.generate n = id := by
    intro id a ha
    obtain ⟨n, hn, hid⟩ := hs.issued_generated id a ha
    exact ⟨n, Nat.lt_succ_of_lt hn, hid⟩
  -- The id is not issued yet: the generator gives none twice.
  have hnew : s.issued (env.generate s.generated) = none := by
    cases hissued : s.issued (env.generate s.generated) with
    | none => rfl
    | some a =>
        obtain ⟨n, hn, hid⟩ := hs.issued_generated _ a hissued
        have heq : n = s.generated := env.generate_injective hid
        omega
  unfold insert
  dsimp only
  split
  · exact StepInv.of_write hs hc (.of_rows_eq rfl rfl fun _ h => h) hs.rows_issued hgenerated
      rfl rfl trivial
  · split
    · exact StepInv.of_write hs hc (.of_rows_eq rfl rfl fun _ h => h) hs.rows_issued hgenerated
        rfl rfl trivial
    · rename_i keys hcommit
      have hrows := AccessKeyTable.rows_of_commit hcommit
      have hmem : ∀ k ∈ keys.rows, k ∈ s.keys.rows ∨
          k = newKey (env.generate s.generated) dto pair := by
        intro k hk
        rw [hrows] at hk
        simpa using hk
      have hissued : ∀ id a, s.issued id = some a → Function.update s.issued
          (env.generate s.generated) (some pair.access_key_id) id = some a := by
        intro id a ha
        rw [Function.update_of_ne]
        · exact ha
        · rintro rfl
          rw [hnew] at ha
          cases ha
      refine StepInv.of_write hs hc ⟨?_, hissued, fun _ h => h⟩ ?_ ?_ rfl rfl trivial
      · intro k' hk'
        rcases hmem k' hk' with hold | rfl
        · exact .inr ⟨k', hold, rfl, id, fun _ _ h => h⟩
        · exact .inl hnew
      · intro k hk
        rcases hmem k hk with hold | rfl
        · exact hissued k.id _ (hs.rows_issued k hold)
        · exact Function.update_self ..
      · intro id a ha
        by_cases hid : id = env.generate s.generated
        · exact ⟨s.generated, Nat.lt_succ_self _, hid.symm⟩
        · have ha' : Function.update s.issued (env.generate s.generated)
              (some pair.access_key_id) id = some a := ha
          rw [Function.update_of_ne hid] at ha'
          exact hgenerated id a ha'

theorem is_deleted_not_mem_columns (data : UpdateAccessKeyDTO) : .is_deleted ∉ data.columns := by
  unfold UpdateAccessKeyDTO.columns
  intro hmem
  simp only [List.mem_append] at hmem
  rcases hmem with (((h | h) | h) | h) | h <;> split at h <;> simp at h

theorem findById_step {s : Store} {call : Call} {id : String} {key : AccessKey}
    {change : Change} {operation : Operation} (hs : StoreInv env s) (hc : CallInv s call)
    (hfind : s.findById id = some key)
    (hchange : change = ⟨s.numbered, key.id, operation.columns, operation.deletes⟩) :
    StepInv env s call.phase { s with numbered := s.numbered + 1 }
      { call with phase := afterFind id change key operation } := by
  subst hchange
  obtain ⟨hmem, hid, -⟩ := mem_of_findById hfind
  have hissued := hs.rows_issued key hmem
  refine StepInv.of_write hs hc (.of_rows_eq rfl rfl fun _ h => h) hs.rows_issued
    hs.issued_generated rfl rfl ?_
  cases operation with
  | update data => exact ⟨⟨_, hissued⟩, hid, rfl, is_deleted_not_mem_columns data⟩
  | delete softDelete => exact hissued
  | revoke => exact ⟨hissued, rfl, rfl, by simp [Operation.columns]⟩
  | attachPolicies policyIds => exact ⟨hissued, rfl, rfl, by simp [Operation.columns]⟩

/-- The row that `preload` finds by the text of the id is the one that `findById` found. -/
theorem preload_phaseInv {s : Store} {change : Change} {id : String} {key : AccessKey}
    {columns : Columns} (hs : StoreInv env s)
    (hfind : (s.keys.rows.find? fun k => k.id = id && !k.is_deleted) = some key)
    (hid : change.id = uuid id) (hsaves : change.Saves) :
    PhaseInv s (.load change { key with toColumns := columns } none) := by
  have hkey := List.find?_some hfind
  simp only [Bool.and_eq_true, decide_eq_true_eq, Bool.not_eq_true'] at hkey
  have hissued := hs.rows_issued key (List.mem_of_find?_eq_some hfind)
  obtain ⟨n, -, hn⟩ := hs.issued_generated _ _ hissued
  have hkid : key.id = change.id := by
    rw [hid, ← hkey.1, ← hn, env.uuid_generate]
  refine ⟨?_, hkid, hsaves⟩
  rw [← hkid]
  exact hissued

theorem AccessKey.mem_changes_stamp {change : Change} {columns : List Column} {k : AccessKey}
    {c : Column} {n : Nat} (h : n ∈ k.changes c) : n ∈ (k.stamp change columns).changes c := by
  unfold AccessKey.stamp
  split
  · dsimp only
    split
    · exact List.mem_append_left _ h
    · exact h
  · exact h

theorem AccessKey.number_mem_stamp {change : Change} {columns : List Column} {k : AccessKey}
    {c : Column} (hid : k.id = change.id) (hc : c ∈ change.columns) (hno : c ∉ columns) :
    change.number ∈ (k.stamp change columns).changes c := by
  rw [AccessKey.stamp, if_pos hid]
  dsimp only
  rw [if_pos ⟨hc, hno⟩]
  exact List.mem_append_right _ (List.mem_singleton_self _)

theorem load_step {s : Store} {call : Call} {change : Change} {entity stored : AccessKey}
    {sync : Option PolicySync} (hs : StoreInv env s) (hc : CallInv s call)
    (hissued : s.issued change.id = some entity.access_key_id) (hid : entity.id = change.id)
    (hsaves : change.Saves)
    (hundoes : ∀ c ∈ entity.toColumns.diff stored.toColumns, c ∈ change.columns) :
    StepInv env s call.phase
      { s with keys := s.keys.stamp change (entity.toColumns.diff stored.toColumns) }
      { call with
        phase := .write change entity (entity.toColumns.diff stored.toColumns) sync } := by
  refine StepInv.of_write hs hc ⟨?_, fun _ _ h => h, fun _ h => h⟩ ?_ hs.issued_generated rfl rfl
    ⟨hissued, hid, hsaves, hundoes, ?_⟩
  · intro k' hk'
    obtain ⟨k, hk, rfl⟩ := List.mem_map.mp hk'
    refine .inr ⟨k, hk, (k.stamp_id change _).symm, ?_, fun _ _ h => k.mem_changes_stamp h⟩
    rw [k.stamp_toColumns]
    exact id
  · intro k' hk'
    obtain ⟨k, hk, rfl⟩ := List.mem_map.mp hk'
    rw [k.stamp_id, k.stamp_access_key_id]
    exact hs.rows_issued k hk
  · intro k' hk' hkid c hcol hno
    obtain ⟨k, hk, rfl⟩ := List.mem_map.mp hk'
    rw [k.stamp_id] at hkid
    exact k.number_mem_stamp hkid hcol hno

/-- The `UPDATE` of columns that the change names only adds to the history. -/
theorem AccessKey.mem_changes_write {change : Change} {entity k : AccessKey}
    {columns : List Column} {c : Column} {n : Nat} (hcolumns : ∀ c ∈ columns, c ∈ change.columns)
    (h : n ∈ k.changes c) : n ∈ (k.write change entity columns).changes c := by
  unfold AccessKey.write
  split
  · dsimp only
    split
    · rename_i hc
      rw [if_pos (hcolumns c hc)]
      exact List.mem_append_left _ h
    · exact h
  · exact h

theorem AccessKey.number_mem_write {change : Change} {entity k : AccessKey}
    {columns : List Column} {c : Column} (hid : k.id = entity.id) (hc : c ∈ columns)
    (hcolumns : c ∈ change.columns) :
    change.number ∈ (k.write change entity columns).changes c := by
  rw [AccessKey.write, if_pos hid]
  dsimp only
  rw [if_pos hc, if_pos hcolumns]
  exact List.mem_append_right _ (List.mem_singleton_self _)

theorem AccessKey.write_is_deleted {change : Change} {entity k : AccessKey}
    {columns : List Column} (hno : .is_deleted ∉ columns) :
    (k.write change entity columns).is_deleted = k.is_deleted := by
  unfold AccessKey.write
  split
  · show (if .is_deleted ∈ columns then entity.is_deleted else k.is_deleted) = k.is_deleted
    rw [if_neg hno]
  · rfl

theorem write_step {s s' : Store} {call : Call} {change : Change} {entity : AccessKey}
    {columns : List Column} {sync : Option PolicySync} {answer : Answer} (hs : StoreInv env s)
    (hc : CallInv s call) (hphase : PhaseInv s (.write change entity columns sync))
    (hwrite : write env s change entity columns sync = .ok s') :
    StepInv env s call.phase s'
      { call with phase := .del change entity.access_key_id answer } := by
  obtain ⟨hissued, hid, ⟨hdeletes, hsaves⟩, hcolumns, hstamped⟩ := hphase
  obtain ⟨hrows, hcache, hgenerated, hreturned, hissued'⟩ := write_eq_ok hwrite
  refine StepInv.of_write hs hc ⟨?_, ?_, ?_⟩ ?_ ?_ hcache hreturned ⟨?_, ?_⟩
  · intro k' hk'
    rw [hrows] at hk'
    obtain ⟨k, hk, rfl⟩ := List.mem_map.mp hk'
    refine .inr ⟨k, hk, (AccessKey.write_id ..).symm, ?_,
      fun _ _ h => AccessKey.mem_changes_write hcolumns h⟩
    rw [AccessKey.write_is_deleted fun hmem => hsaves (hcolumns _ hmem)]
    exact id
  · intro id a ha
    rw [hissued']
    exact ha
  · intro change' hchange'
    rw [hreturned]
    exact hchange'
  · intro k' hk'
    rw [hrows] at hk'
    obtain ⟨k, hk, rfl⟩ := List.mem_map.mp hk'
    rw [AccessKey.write_id, AccessKey.write_access_key_id, hissued']
    exact hs.rows_issued k hk
  · rw [hissued', hgenerated]
    exact hs.issued_generated
  · rw [hissued']
    exact hissued
  · intro k' hk' hkid
    rw [hrows] at hk'
    obtain ⟨k, hk, rfl⟩ := List.mem_map.mp hk'
    rw [AccessKey.write_id] at hkid
    refine ⟨fun htrue => absurd (htrue.symm.trans hdeletes) (by simp), ?_⟩
    intro c hcol
    by_cases hmem : c ∈ columns
    · exact AccessKey.number_mem_write (hkid.trans hid.symm) hmem hcol
    · exact AccessKey.mem_changes_write hcolumns (hstamped k hk hkid c hcol hmem)

theorem AccessKey.mem_changes_remove {change : Change} {k : AccessKey} {c : Column} {n : Nat}
    (h : n ∈ k.changes c) : n ∈ (k.remove change).changes c := by
  unfold AccessKey.remove
  split
  · dsimp only
    split
    · exact List.mem_append_left _ h
    · exact h
  · exact h

theorem AccessKey.remove_access_key_id (change : Change) (k : AccessKey) :
    (k.remove change).access_key_id = k.access_key_id := by
  unfold AccessKey.remove
  split <;> rfl

theorem remove_step {s s' : Store} {call : Call} {change : Change} {id access_key_id : String}
    {softDelete : Bool} (hs : StoreInv env s) (hc : CallInv s call)
    (hissued : s.issued change.id = some access_key_id)
    (hremove : remove s change id softDelete = .ok s') :
    StepInv env s call.phase s' { call with phase := .del change access_key_id .void } := by
  obtain ⟨hrows, hcache, hgenerated, hreturned, hissued'⟩ := remove_eq_ok hremove
  -- Either way a row comes from a row, and the rows of the key are deleted.
  have hmem : ∀ k' ∈ s'.keys.rows, ∃ k ∈ s.keys.rows, (k' = k ∧ k.id ≠ change.id) ∨
      k' = k.remove change := by
    intro k' hk'
    rcases hrows with hrows | hrows
    · rw [hrows] at hk'
      obtain ⟨k, hk, rfl⟩ := List.mem_map.mp hk'
      exact ⟨k, hk, .inr rfl⟩
    · rw [hrows] at hk'
      obtain ⟨hk, hne⟩ := List.mem_filter.mp hk'
      exact ⟨k', hk, .inl ⟨rfl, of_decide_eq_true hne⟩⟩
  refine StepInv.of_write hs hc ⟨?_, ?_, ?_⟩ ?_ ?_ hcache hreturned ⟨?_, ?_⟩
  · intro k' hk'
    obtain ⟨k, hk, ⟨rfl, -⟩ | rfl⟩ := hmem k' hk'
    · exact .inr ⟨k', hk, rfl, fun h => h, fun _ _ h => h⟩
    · refine .inr ⟨k, hk, (k.remove_id change).symm, ?_, fun _ _ h => k.mem_changes_remove h⟩
      intro hdeleted
      unfold AccessKey.remove
      split
      · rfl
      · exact hdeleted
  · intro id a ha
    rw [hissued']
    exact ha
  · intro change' hchange'
    rw [hreturned]
    exact hchange'
  · intro k' hk'
    rw [hissued']
    obtain ⟨k, hk, ⟨rfl, -⟩ | rfl⟩ := hmem k' hk'
    · exact hs.rows_issued k' hk
    · rw [k.remove_id, k.remove_access_key_id]
      exact hs.rows_issued k hk
  · rw [hissued', hgenerated]
    exact hs.issued_generated
  · rw [hissued']
    exact hissued
  · intro k' hk' hkid
    obtain ⟨k, hk, ⟨rfl, hne⟩ | rfl⟩ := hmem k' hk'
    · exact absurd hkid hne
    · rw [k.remove_id] at hkid
      rw [AccessKey.remove, if_pos hkid]
      refine ⟨fun _ => rfl, ?_⟩
      intro c hcol
      dsimp only
      rw [if_pos hcol]
      exact List.mem_append_right _ (List.mem_singleton_self _)

theorem del_step {s : Store} {call : Call} {change : Change} {access_key_id : String}
    {answer : Answer} (hs : StoreInv env s) (hc : CallInv s call)
    (hphase : call.phase = .del change access_key_id answer)
    (hissued : s.issued change.id = some access_key_id) (hrows : RowsInclude s change) :
    StepInv env s call.phase
      { s.del access_key_id with returned := s.returned ++ [change] }
      { call with phase := .done answer } := by
  refine ⟨⟨hs.rows_issued, hs.issued_generated, ?_, ?_⟩, ⟨?_, hc.record, trivial⟩,
    .of_rows_eq rfl rfl fun _ h => List.mem_append_left _ h,
    .inr ⟨change, access_key_id, answer, hphase, rfl⟩⟩
  · intro change' hchange'
    rcases List.mem_append.mp hchange' with hold | hnew
    · exact hs.returned change' hold
    · rw [List.mem_singleton.mp hnew]
      exact ⟨⟨_, hissued⟩, hrows⟩
  · intro a record expires hcached
    have hcached' : (if a = access_key_id then none else s.cache a) = some (record, expires) :=
      hcached
    split at hcached'
    · cases hcached'
    rename_i hne
    obtain ⟨hissuedRecord, hcurrent⟩ := hs.cache a record expires hcached'
    refine ⟨hissuedRecord, ?_⟩
    intro change' hchange' hid
    rcases List.mem_append.mp hchange' with hold | hnew
    · exact hcurrent change' hold hid
    · -- The records of the key are cached under its access key id alone.
      rw [List.mem_singleton.mp hnew] at hid
      rw [← hid, hissued] at hissuedRecord
      exact absurd (Option.some.inj hissuedRecord).symm hne
  · intro change' hchange'
    exact List.mem_append_left _ (hc.earlier change' hchange')

theorem phaseInv_decideOn (env : Env) (s s' : Store) (payload : VerifyPayload)
    (record : CachedAccessKeyRecord) : PhaseInv s (decideOn env s' payload record) := by
  unfold decideOn
  split <;> trivial

theorem setex_step {s : Store} {call : Call} {payload : VerifyPayload}
    {record : CachedAccessKeyRecord} (hs : StoreInv env s) (hc : CallInv s call)
    (hissued : s.issued record.id = some payload.access_key_id) (hcurrent : Current s record) :
    StepInv env s call.phase (s.setex payload.access_key_id KEY_CACHE_TTL_SECONDS record)
      { call with record := some record, phase := decideOn env s payload record } := by
  refine ⟨⟨hs.rows_issued, hs.issued_generated, hs.returned, ?_⟩, ⟨hc.earlier, ?_, ?_⟩,
    .of_rows_eq rfl rfl fun _ h => h, .inl rfl⟩
  · intro a record' expires hcached
    have hcached' : (if a = payload.access_key_id then
        some (record, s.clock + 1000 * KEY_CACHE_TTL_SECONDS) else s.cache a) =
          some (record', expires) := hcached
    split at hcached'
    · rename_i heq
      obtain ⟨rfl, -⟩ := Prod.mk.inj (Option.some.inj hcached')
      rw [heq]
      exact ⟨hissued, hcurrent⟩
    · exact hs.cache a record' expires hcached'
  · intro record' hrecord' change hchange hid
    obtain rfl := Option.some.inj hrecord'
    exact hcurrent change (hc.earlier change hchange) hid
  · exact phaseInv_decideOn env _ s payload record

/-- **One command of a call among others.** -/
theorem command_step {s : Store} {call : Call} (hs : StoreInv env s) (hc : CallInv s call)
    (hundoes : call.phase.undoes s = false) :
    StepInv env s call.phase (command env s call).1 (command env s call).2 := by
  have hphase := hc.phase
  obtain ⟨request, atStart, record, phase⟩ := call
  cases phase with
  | insert dto pair => exact insert_step hs hc dto pair
  | findById id operation =>
      simp only [command]
      split
      · exact .of_read hs hc trivial
      · rename_i key hfind
        exact findById_step hs hc hfind rfl
  | preload change id data =>
      obtain ⟨-, hid, hsaves⟩ := hphase
      simp only [command]
      split
      · exact .of_read hs hc trivial
      · rename_i key hfind
        split
        · exact .of_read hs hc trivial
        · exact .of_read hs hc (preload_phaseInv hs hfind hid hsaves)
  | load change entity policyIds =>
      obtain ⟨hissued, hid, hsaves⟩ := hphase
      simp only [command]
      split
      · exact .of_read hs hc trivial
      · rename_i stored hfind
        refine load_step hs hc hissued hid hsaves ?_
        have hkey : stored.id = entity.id := by simpa using List.find?_some hfind
        intro c hcol
        by_contra hno
        have htrue : Phase.undoes s (.load change entity policyIds) = true := by
          refine List.any_eq_true.mpr ⟨stored, List.mem_of_find?_eq_some hfind, ?_⟩
          rw [Bool.and_eq_true, List.any_eq_true]
          exact ⟨decide_eq_true hkey, c, hcol, decide_eq_true hno⟩
        rw [htrue] at hundoes
        cases hundoes
  | write change entity columns sync =>
      simp only [command]
      split
      · exact .of_read hs hc trivial
      · rename_i s' hwrite
        exact write_step hs hc hphase hwrite
  | remove change id access_key_id softDelete =>
      simp only [command]
      split
      · exact .of_read hs hc trivial
      · rename_i s' hremove
        exact remove_step hs hc hphase hremove
  | del change access_key_id answer =>
      obtain ⟨hissued, hrows⟩ := hphase
      exact del_step hs hc rfl hissued hrows
  | get payload =>
      simp only [command]
      split
      · rename_i record' hcached
        obtain ⟨expires, hcached⟩ := getCached_eq_some hcached
        obtain ⟨-, hcurrent⟩ := hs.cache _ record' expires hcached
        refine ⟨hs, ⟨hc.earlier, ?_, phaseInv_decideOn env s s payload record'⟩, .refl s, .inl rfl⟩
        intro record'' hrecord change hchange hid
        obtain rfl := Option.some.inj hrecord
        exact hcurrent change (hc.earlier change hchange) hid
      · exact .of_read hs hc trivial
  | select payload =>
      simp only [command]
      split
      · exact .of_read hs hc trivial
      · rename_i key hfind
        obtain ⟨hmem, haccess, hlive⟩ := mem_of_findByAccessKeyId hfind
        refine .of_read hs hc ⟨?_, ?_⟩
        · rw [← haccess]
          exact hs.rows_issued key hmem
        · -- The row includes what has returned, and it is not deleted.
          intro change hchange hid
          obtain ⟨-, hinclude⟩ := hs.returned change hchange
          obtain ⟨hdeleted, hcolumns⟩ := hinclude key hmem hid.symm
          refine ⟨?_, hcolumns⟩
          cases hdeletes : change.deletes with
          | false => rfl
          | true =>
              rw [hdeleted hdeletes] at hlive
              cases hlive
  | setex payload record' =>
      obtain ⟨hissued, hcurrent⟩ := hphase
      exact setex_step hs hc hissued hcurrent
  | policies payload record' => exact .of_read hs hc trivial
  | done answer => exact .of_read hs hc trivial

/-- What `Undisturbed` says of the call that advances. -/
theorem Undisturbed.of_advance {c : Config} {i : Nat} {call : Call}
    (h : Undisturbed c (.advance i)) (hi : c.calls[i]? = some call) :
    call.phase.deletesTooEarly c.calls = false ∧ call.phase.undoes c.shared = false := by
  rw [Undisturbed, hi] at h
  exact Bool.or_eq_false_iff.mp h

/-- The commands of one call leave what another one has in hand good. -/
theorem others_inv {c : Config} {i j : Nat} {call other : Call}
    (hok : Undisturbed c (.advance i)) (hi : c.calls[i]? = some call)
    (hj : c.calls[j]? = some other) (hs : StoreInv env c.shared) (hc : CallInv c.shared call)
    (hother : CallInv c.shared other) : CallInv (command env c.shared call).1 other := by
  obtain ⟨hearly, hundoes⟩ := hok.of_advance hi
  have hstep := command_step hs hc hundoes
  refine ⟨fun change h => hstep.grows.returned change (hother.earlier change h), hother.record, ?_⟩
  refine hstep.grows.phaseInv ?_ hother.phase
  intro payload record hphase hcurrent change hchange hid
  rcases hstep.returned with hsame | ⟨change', access_key_id, answer, hdel, hreturned⟩
  · rw [hsame] at hchange
    exact hcurrent change hchange hid
  · rw [hreturned] at hchange
    rcases List.mem_append.mp hchange with hold | hnew
    · exact hcurrent change hold hid
    · -- At the `DEL` no such record lacks the change.
      obtain rfl := List.mem_singleton.mp hnew
      by_contra hno
      have htrue : call.phase.deletesTooEarly c.calls = true := by
        rw [hdel]
        refine List.any_eq_true.mpr ⟨other, List.mem_of_getElem? hj, ?_⟩
        rw [hphase]
        show (decide (record.id = change.id) && !decide (record.Includes change)) = true
        rw [Bool.and_eq_true, decide_eq_false hno]
        exact ⟨decide_eq_true hid.symm, rfl⟩
      rw [htrue] at hearly
      cases hearly

theorem preserved : Interleaving.Preserved (service env) Undisturbed (StoreInv env) CallInv where
  start c request _ _ := by
    refine ⟨fun _ h => h, ?_, ?_⟩
    · intro record hrecord
      cases hrecord
    · cases request <;> trivial
  command c i call hok hi hs hc := by
    have hstep := command_step hs hc (hok.of_advance hi).2
    exact ⟨hstep.store, hstep.call⟩
  others c i j call other hok _ hi hj hs hc hother := others_inv hok hi hj hs hc hother
  surroundings c ms _ hs :=
    ⟨⟨hs.rows_issued, hs.issued_generated, hs.returned, hs.cache⟩,
      fun call _ hc => ⟨hc.earlier, hc.record, (Grows.of_rows_eq rfl rfl fun _ h => h).phaseInv
        (fun _ _ _ h => h) hc.phase⟩⟩

end Invariant

theorem storeInv_init (env : Env) : StoreInv env init.shared := by
  constructor
  · intro k hk
    cases hk
  · intro id a h
    cases h
  · intro change hchange
    cases hchange
  · intro a record expires hcached
    cases hcached

/-- **No call decides on an old record.** In every run whose steps are undisturbed, a record that
`verifySignature` decides on includes every change of its key that had returned when the call
started. -/
theorem verifies_on_current_record (env : Env) (events : List Event)
    (hok : AllSteps (service env) Undisturbed init events) :
    ∀ call ∈ (run (service env) init events).calls, ∀ record, call.record = some record →
      ∀ change ∈ call.atStart.returned, change.id = record.id → record.Includes change := by
  have hinit : Interleaving.Keeps (StoreInv env) CallInv init := by
    refine ⟨storeInv_init env, ?_⟩
    intro call hcall
    cases hcall
  obtain ⟨-, hcalls⟩ := Interleaving.run_keeps preserved hok hinit
  intro call hcall
  exact (hcalls call hcall).record

/-- A key is issued and verified, then revoked and verified again, the last call before and after
the `DEL` of the `revoke`. -/
def verifyAndRevoke : List Event :=
  [.start sampleIssue, .advance 0, .start sampleVerify, .advance 1, .advance 1, .advance 1,
    .start (.operate "a" .revoke), .advance 2, .advance 2, .advance 2, .start sampleVerify,
    .advance 3, .advance 2, .start sampleVerify, .advance 4, .advance 4, .advance 4]

theorem verifies_on_current_record_revoked :
    AllSteps (service sampleEnv) Undisturbed init verifyAndRevoke ∧
    ∀ call ∈ (run (service sampleEnv) init verifyAndRevoke).calls, ∀ record,
      call.record = some record →
      ∀ change ∈ call.atStart.returned, change.id = record.id → record.Includes change := by
  have hok : AllSteps (service sampleEnv) Undisturbed init verifyAndRevoke := by decide +kernel
  exact ⟨hok, verifies_on_current_record sampleEnv verifyAndRevoke hok⟩

/-- A `verifySignature` has read the row of a key when a `revoke` of the key runs. -/
def readThenRevoke : List Event :=
  [.start sampleIssue, .advance 0, .start sampleVerify, .advance 1, .advance 1,
    .start (.operate "a" .revoke), .advance 2, .advance 2, .advance 2, .advance 2]

/-- The first call fills the cache, and a call that starts now uses the record. -/
def fillThenVerify : List Event := [.advance 1, .start sampleVerify, .advance 3]

/-- The record that the call decides on lacks a change that had returned before. -/
def Call.usesOldRecord (call : Call) : Bool :=
  call.record.any fun record => call.atStart.returned.any fun change =>
    change.id = record.id && !decide (record.Includes change)

/-- A record from before a `revoke` is used after it. -/
theorem stale_record_used :
    ¬ ∀ events : List Event, ∀ call ∈ (run (service sampleEnv) init events).calls, ∀ record,
      call.record = some record →
      ∀ change ∈ call.atStart.returned, change.id = record.id → record.Includes change := by
  intro h
  have hany : ((run (service sampleEnv) init (readThenRevoke ++ fillThenVerify)).calls.any
      Call.usesOldRecord) = true := by decide +kernel
  obtain ⟨call, hcall, hold⟩ := List.any_eq_true.mp hany
  obtain ⟨record, hrecord, hold⟩ := (Option.any_eq_true _ _).mp hold
  obtain ⟨change, hchange, hold⟩ := List.any_eq_true.mp hold
  obtain ⟨hid, hlacks⟩ := Bool.and_eq_true_iff.mp hold
  have hincludes := h _ call hcall record hrecord change hchange (of_decide_eq_true hid)
  rw [decide_eq_true hincludes] at hlacks
  cases hlacks

end ErpApi.AccessKeys
