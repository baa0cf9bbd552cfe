import ErpApi.Common.BulkUpdate

set_option autoImplicit false

/-! # What a bulk update reconciles

After `updateBulk` the rows of the scope should be those of the items (`Reconciled`). The three
parts of the call do not share a notion of scope: the rows to delete are found with the filter, a
new row gets the values of the filter, and an item with an id is loaded by that id alone. So the
call leaves in the scope what it was given exactly under `Meets` (`updateBulk_reconciled_iff`).
-/

namespace ErpApi.Bulk

/-! ## What the call should leave behind -/

/-- The row has what the item says; the id is compared where it matters. -/
def Item.Carried (data : Item) (r : Row) : Prop :=
  ∀ c v, c ≠ .id → data c = some v → r c = v

section Statement

variable (E : EntityTable) (t : Rows) (items : List Item) (filter : Filter)
  (userId : Option String)

/-- **The postcondition.** The rows of the scope are those of the items: an existing row for each
item with an id, a new row for each without one. The others of the scope are deleted, and the rows
that the filter does not select are what they were. -/
structure Reconciled (t' : Rows) : Prop where
  updated : ∀ item ∈ items, ∀ id, item.id? = some id → id ∈ t.ids ∧
    ∃ r ∈ t'.rows, r .id = id ∧ r.inScope filter ∧ (preloadData userId item).Carried r
  created : ∃ rows : List Row,
    List.Forall₂ (fun item r => (createEntity filter userId item).Carried r ∧ r.inScope filter)
      (toCreate items) rows ∧
    (rows.map (· .id)).Nodup ∧ ∀ r, r ∈ rows ↔ r ∈ t'.rows ∧ r .id ∉ t.ids
  only : ∀ r ∈ t'.rows, r.inScope filter → r .id ∈ incomingIds items ∨ r .id ∉ t.ids
  deleted : ∀ r ∈ t.rows, r.inScope filter → r .id ∉ incomingIds items →
    ∃ r' ∈ t'.rows, r' .id = r .id ∧ r' .is_deleted = .bool true ∧ r' .deleted_at ≠ .null
  outside : ∀ r ∈ t.rows, filter.selects r = false → r ∈ t'.rows

/-- A column with the value does not take a row out of the scope. -/
def Filter.Allows (filter : Filter) (c : Column) (v : Value) : Prop :=
  match c with
  | .is_deleted => v = .bool false
  | .deleted_at => v = .null
  | c => ∀ e ∈ filter.entries, e.column = c → e.selects v = true

/-- **The condition on a request.** -/
structure Meets : Prop where
  /-- An id is that of a row that the filter selects and that is loaded. -/
  known : ∀ item ∈ items, ∀ id, item.id? = some id →
    ∃ r ∈ t.rows, r .id = id ∧ filter.selects r = true ∧ r .deleted_at = .null ∧
      -- A row marked as deleted without a time has to be unmarked.
      (r .is_deleted = .bool false ∨ ∃ item' ∈ items, item'.id? = some id ∧
        ∃ v, item' .is_deleted = some v)
  /-- No update takes its row out of the scope. -/
  stays : ∀ item ∈ toUpdate items, ∀ c v, c ≠ .id → preloadData userId item c = some v →
    filter.Allows c v
  /-- Items of one id do not contradict each other. -/
  agree : ∀ item ∈ items, ∀ item' ∈ items, ∀ id, item.id? = some id → item'.id? = some id →
    ∀ c v v', c ≠ .id → preloadData userId item c = some v → preloadData userId item' c = some v' →
      v = v'
  /-- A new row is in the scope, with the default values where nothing is given. -/
  creates : ∀ item ∈ toCreate items, ∀ c, c ≠ .id →
    filter.Allows c ((createEntity filter userId item c).getD (E.defaults c))
  /-- An id that the filter gives to the new rows is not taken, and selected. -/
  newId : ∀ item ∈ toCreate items, ∀ id, (createEntity filter userId item).id? = some id →
    id ∉ t.ids ∧ filter.Allows .id id

end Statement

section Call

variable {t : Rows} {items : List Item} {filter : Filter} {user : Option (Option String)}
  {now : String} {E : EntityTable} {draws : Nat → String} {t' : Rows}

theorem allows_of_selects {r : Row} (h : filter.selects r = true) {c : Column}
    (hdeleted : c ≠ .is_deleted) (hat : c ≠ .deleted_at) : filter.Allows c (r c) := by
  have hentries : ∀ e ∈ filter.entries, e.column = c → e.selects (r c) = true := by
    intro e he hc
    have hentry := List.all_eq_true.mp h e he
    rw [hc] at hentry
    simpa [hdeleted, hat] using hentry
  cases c with
  | is_deleted => exact absurd rfl hdeleted
  | deleted_at => exact absurd rfl hat
  | _ => exact hentries

theorem inScope_iff_allows {r : Row} : r.inScope filter ↔ ∀ c, filter.Allows c (r c) := by
  unfold Row.inScope Row.live
  rw [Bool.and_eq_true, decide_eq_true_iff, decide_eq_true_iff]
  constructor
  · rintro ⟨⟨hdeleted, hat⟩, hselects⟩ c
    by_cases hc : c = .is_deleted
    · rw [hc]
      exact hdeleted
    · by_cases hc' : c = .deleted_at
      · rw [hc']
        exact hat
      · exact allows_of_selects hselects hc hc'
  · intro h
    refine ⟨⟨h .is_deleted, h .deleted_at⟩, ?_⟩
    refine List.all_eq_true.mpr fun e he => ?_
    have hcolumn := h e.column
    cases hc : e.column with
    | is_deleted => simp
    | deleted_at => simp
    | _ =>
        rw [hc] at hcolumn
        simpa [hc] using hcolumn e he hc

/-! ## The condition is enough -/

section Enough

variable (hmeets : Meets E t items filter user.join)

include hmeets in
/-- Every update is that of an item. -/
theorem Meets.update_cases {u : RowUpdate} (hu : u ∈ callUpdates t items filter user now) :
    ∃ item ∈ items, ∃ r ∈ t.rows, item.id? = some (r .id) ∧ u.stored = r ∧
      u.entity = (preloadData user.join item).over r := by
  rcases callUpdates_cases hu with ⟨item, hitem, r, hr, hid, -, h⟩ | ⟨item, hitem, hid, hmem⟩
  · exact ⟨item, hitem, r, hr, hid, h⟩
  · exact absurd hmem (hmeets.newId item hitem _ hid).1

include hmeets in
/-- A row that no item names is changed by the delete alone. -/
theorem Meets.final_of_not_incoming {r : Row} (hr : r ∈ t.rows) (hout : r .id ∉ incomingIds items) :
    final t items filter user now r = rowDeleted t items filter user now r := by
  apply writes_eq_self
  intro u hu hid
  obtain ⟨item, hitem, r', hr', hid', hstored, -⟩ := hmeets.update_cases hu
  rw [rowDeleted_id, hstored] at hid
  exact hout (mem_incomingIds.mpr ⟨item, hitem, hid ▸ hid'⟩)

variable (now) in
include hmeets in
/-- A column of an updated row is what some item says, or what it was where no item says anything
else. -/
theorem Meets.final_cases {r : Row} (hr : r ∈ t.rows) (hat : r .deleted_at = .null)
    (hin : r .id ∈ incomingIds items) {c : Column} (hc : c ≠ .id) :
    (∃ item ∈ items, item.id? = some (r .id) ∧
      preloadData user.join item c = some (final t items filter user now r c)) ∨
    (final t items filter user now r c = r c ∧ ∀ item ∈ items, item.id? = some (r .id) →
      ∀ v, preloadData user.join item c = some v → v = r c) := by
  have hkept : rowDeleted t items filter user now r = r :=
    rowDeleted_eq_self hr fun h => h.2 hin
  unfold final
  rw [hkept]
  rcases writes_cases (callUpdates t items filter user now) r hc with
    ⟨hsame, hnone⟩ | ⟨u, hu, hid, hset, hne⟩
  · refine .inr ⟨hsame, fun item hitem hid v hv => ?_⟩
    by_contra hdiffers
    refine hnone _ (mem_callUpdates hitem hr hid hat) rfl ⟨v, ?_, hdiffers⟩
    show some ((preloadData user.join item c).getD (r c)) = _
    rw [hv]
    rfl
  · obtain ⟨item, hitem, r', hr', hid', hstored, hentity⟩ := hmeets.update_cases hu
    obtain rfl : r' = r := t.eq_of_key_eq hr' hr (hstored ▸ hid)
    rw [hentity] at hset
    rw [hstored] at hne
    exact .inl ⟨item, hitem, hid', over_sets hset hne⟩

include hmeets in
theorem Meets.carried {item : Item} {r : Row} (hitem : item ∈ items) (hr : r ∈ t.rows)
    (hat : r .deleted_at = .null) (hid : item.id? = some (r .id)) :
    (preloadData user.join item).Carried (final t items filter user now r) := by
  have hin : r .id ∈ incomingIds items := mem_incomingIds.mpr ⟨item, hitem, hid⟩
  intro c v hc hv
  rcases hmeets.final_cases now hr hat hin hc with ⟨item', hitem', hid', hv'⟩ | ⟨hsame, hclaim⟩
  · exact hmeets.agree item' hitem' item hitem _ hid' hid c _ _ hc hv' hv
  · exact hsame.trans (hclaim item hitem hid v hv).symm

variable (now) in
include hmeets in
theorem Meets.final_inScope {item : Item} {r : Row} (hitem : item ∈ items) (hr : r ∈ t.rows)
    (hid : item.id? = some (r .id)) : r .deleted_at = .null ∧ filter.selects r = true ∧
      (final t items filter user now r).inScope filter := by
  obtain ⟨r', hr', hid', hselects, hat, hmark⟩ := hmeets.known item hitem _ hid
  obtain rfl : r' = r := t.eq_of_key_eq hr' hr hid'
  have hin : r' .id ∈ incomingIds items := mem_incomingIds.mpr ⟨item, hitem, hid⟩
  refine ⟨hat, hselects, inScope_iff_allows.mpr fun c => ?_⟩
  by_cases hc : c = .id
  · rw [hc, final_id]
    exact allows_of_selects hselects (by simp) (by simp)
  · rcases hmeets.final_cases now hr hat hin hc with
      ⟨item', hitem', hid', hv⟩ | ⟨hsame, hclaim⟩
    · exact hmeets.stays item' (mem_toUpdate.mpr ⟨hitem', _, hid'⟩) c _ hc hv
    · rw [hsame]
      by_cases hdeleted : c = .is_deleted
      · subst hdeleted
        rcases hmark with hfalse | ⟨item', hitem', hid', v, hv⟩
        · exact hfalse
        · -- The item says what the column was.
          have hallowed := hmeets.stays item' (mem_toUpdate.mpr ⟨hitem', _, hid'⟩) _ v hc hv
          rw [← hclaim item' hitem' hid' v hv]
          exact hallowed
      · by_cases hcat : c = .deleted_at
        · rw [hcat]
          exact hat
        · exact allows_of_selects hselects hdeleted hcat

end Enough

theorem lookup_afterDelete_eq_none {id : Value} (h : id ∉ t.ids) :
    (afterDelete t items filter user now).lookup id = none := by
  rw [lookup_afterDelete, Table.lookup_eq_none.mpr h]
  rfl

/-- Where no id of a new row is taken, the inserted rows are those of the items without an id, in
their order. -/
theorem callInserts_forall₂
    (hnew : ∀ item ∈ toCreate items, ∀ id,
      (createEntity filter user.join item).id? = some id → id ∉ t.ids) :
    List.Forall₂ (fun item r => ∃ id, r = insertRow E (createEntity filter user.join item) id ∧
        ∀ id', (createEntity filter user.join item).id? = some id' → id = id')
      (toCreate items) (callInserts t items filter user now E draws) := by
  have hentities := @inserts_forall₂ (afterDelete t items filter user now) E draws
    (processCreates filter user.join items) (processUpdates t user.join items) 0
    (by
      intro entity hentity id hid
      obtain ⟨item, hitem, rfl⟩ := List.mem_map.mp hentity
      exact lookup_afterDelete_eq_none (hnew item hitem id hid))
    (by
      intro entity hentity
      obtain ⟨item, hitem, r, hr, hid, -, rfl⟩ := mem_processUpdates.mp hentity
      refine ⟨r .id, over_id? hid, ?_⟩
      rw [lookup_afterDelete, Table.lookup_eq_some.mpr ⟨hr, rfl⟩]
      rfl)
  exact List.forall₂_map_left_iff.mp hentities

theorem insertRow_inScope {item : Item} {id : Value}
    (hcreates : ∀ c, c ≠ .id →
      filter.Allows c ((createEntity filter user.join item c).getD (E.defaults c)))
    (hid : filter.Allows .id id) :
    (insertRow E (createEntity filter user.join item) id).inScope filter := by
  refine inScope_iff_allows.mpr fun c => ?_
  unfold insertRow
  split
  · rename_i hc
    rw [hc]
    exact hid
  · rename_i hc
    exact hcreates c hc

/-- A filter that gives new rows no id does not look at it. -/
theorem allows_id_of_none {userId : Option String} {item : Item} (hitem : item.id? = none)
    (h : (createEntity filter userId item).id? = none) (id : Value) : filter.Allows .id id := by
  intro e he hc
  apply e.blank
  have hfind : filter.entries.find? (fun e => e.column = .id) = some e := by
    cases hfind : filter.entries.find? fun e => e.column = .id with
    | none =>
        have hno := List.find?_eq_none.mp hfind e he
        simp [hc] at hno
    | some e' =>
        have hc' : e'.column = .id := by simpa using List.find?_some hfind
        rw [List.inj_on_of_nodup_map filter.nodup (List.mem_of_find?_eq_some hfind) he
          (hc'.trans hc.symm)]
  have hvalue : createEntity filter userId item .id = e.value := by
    show spread filter item .id = e.value
    unfold spread
    rw [hfind]
  unfold Item.id? at h
  rw [hvalue] at h
  cases hv : e.value with
  | none => rfl
  | some v =>
      rw [hv] at h
      by_contra hne
      have hsome : (some v).filter (fun v => v ≠ .null) = some v :=
        Option.filter_eq_some_iff.mpr ⟨rfl, by simpa using hne⟩
      rw [hsome] at h
      cases h

theorem Meets.reconciled (hmeets : Meets E t items filter user.join)
    (hrows : t'.rows = ((t.rows.map (rowDeleted t items filter user now)) ++
      callInserts t items filter user now E draws).map
        (writes (callUpdates t items filter user now))) :
    Reconciled t items filter user.join t' := by
  constructor
  · intro item hitem id hid
    obtain ⟨r, hr, rfl, -, -, -⟩ := hmeets.known item hitem id hid
    obtain ⟨hat, -, hscope⟩ := hmeets.final_inScope now hitem hr hid
    exact ⟨List.mem_map_of_mem hr, _, final_mem hrows hr, final_id r, hscope,
      hmeets.carried hitem hr hat hid⟩
  · refine ⟨callInserts t items filter user now E draws, ?_, ?_, fun r => mem_inserted hrows⟩
    · have hinserts := (List.forall₂_and_left _ _).mpr ⟨fun item hitem => hitem,
        @callInserts_forall₂ t items filter user now E draws fun item hitem id hid =>
          (hmeets.newId item hitem id hid).1⟩
      refine hinserts.imp ?_
      rintro item r ⟨hitem, id, rfl, hid⟩
      constructor
      · intro c v hc hv
        unfold insertRow
        rw [if_neg hc, hv]
        rfl
      · refine insertRow_inScope (hmeets.creates item hitem) ?_
        cases hgiven : (createEntity filter user.join item).id? with
        | none => exact allows_id_of_none (mem_toCreate.mp hitem).2 hgiven id
        | some id' =>
            rw [hid id' hgiven]
            exact (hmeets.newId item hitem id' hgiven).2
    · have hnodup : t'.ids.Nodup := t'.pk
      rw [ids_after hrows] at hnodup
      exact (List.nodup_append.mp hnodup).2.1
  · intro r' hr' hscope
    by_cases hin : r' .id ∈ incomingIds items
    · exact .inl hin
    · refine .inr fun hmem => ?_
      obtain ⟨r, hr, hid⟩ := List.mem_map.mp hmem
      obtain rfl := eq_final hrows hr hr' hid.symm
      rw [final_id] at hin
      rw [hmeets.final_of_not_incoming hr hin] at hscope
      by_cases hold : r.inScope filter
      · have hdeleted := (rowDeleted_of_inScope user now hr hold hin).1
        have hlive := inScope_iff_allows.mp hscope .is_deleted
        rw [hdeleted] at hlive
        cases hlive
      · rw [rowDeleted_eq_self hr fun h => hold h.1] at hscope
        exact hold hscope
  · intro r hr hscope hout
    refine ⟨_, final_mem hrows hr, final_id r, ?_⟩
    rw [hmeets.final_of_not_incoming hr hout]
    obtain ⟨hdeleted, hat⟩ := rowDeleted_of_inScope user now hr hscope hout
    refine ⟨hdeleted, ?_⟩
    rw [hat]
    simp
  · intro r hr hselects
    have hout : r .id ∉ incomingIds items := by
      intro hin
      obtain ⟨item, hitem, hid⟩ := mem_incomingIds.mp hin
      have hselected := (hmeets.final_inScope now hitem hr hid).2.1
      rw [hselects] at hselected
      cases hselected
    have hsame : final t items filter user now r = r := by
      rw [hmeets.final_of_not_incoming hr hout, rowDeleted_eq_self hr]
      rintro ⟨hscope, -⟩
      rw [hscope.2] at hselects
      cases hselects
    rw [← hsame]
    exact final_mem hrows hr

/-! ## The condition is necessary -/

section Necessary

variable (hrec : Reconciled t items filter user.join t')
  (hrows : t'.rows = ((t.rows.map (rowDeleted t items filter user now)) ++
    callInserts t items filter user now E draws).map (writes (callUpdates t items filter user now)))

/-- All new rows get one id from the filter, or none does. -/
theorem createEntity_id?_eq {userId : Option String} {item item' : Item}
    (hitem : item ∈ toCreate items) (hitem' : item' ∈ toCreate items) :
    (createEntity filter userId item).id? = (createEntity filter userId item').id? := by
  have hnone : ∀ i ∈ toCreate items, (i .id).filter (fun v => v ≠ .null) = none :=
    fun i hi => (mem_toCreate.mp hi).2
  show (spread filter item .id).filter _ = (spread filter item' .id).filter _
  unfold spread
  cases filter.entries.find? fun e => e.column = .id with
  | none => exact (hnone item hitem).trans (hnone item' hitem').symm
  | some e => rfl

include hrec hrows in
/-- The filter gives no new row the id of a stored one: there would be no new row. -/
theorem Reconciled.newId {item : Item} (hitem : item ∈ toCreate items) {id : Value}
    (hid : (createEntity filter user.join item).id? = some id) : id ∉ t.ids := by
  intro hmem
  obtain ⟨rows, hforall, -, hall⟩ := hrec.created
  have hsome : rows ≠ [] := by
    rintro rfl
    rw [List.forall₂_nil_right_iff.mp hforall] at hitem
    cases hitem
  obtain ⟨r, hr⟩ := List.exists_mem_of_ne_nil rows hsome
  obtain ⟨entity, hentity, id', rfl, hnew⟩ :=
    mem_inserts ((mem_inserted hrows).mpr ((hall r).mp hr))
  have hstored : ∀ id', id' ∈ t.ids →
      (afterDelete t items filter user now).lookup id' ≠ none := by
    intro id' hid' hlookup
    obtain ⟨r', hr', rfl⟩ := List.mem_map.mp hid'
    rw [lookup_afterDelete, Table.lookup_eq_some.mpr ⟨hr', rfl⟩] at hlookup
    cases hlookup
  rcases List.mem_append.mp hentity with hcreate | hupdate
  · obtain ⟨item', hitem', rfl⟩ := List.mem_map.mp hcreate
    rw [createEntity_id?_eq hitem hitem'] at hid
    exact hstored id hmem (hnew id hid).2
  · obtain ⟨item', -, r', hr', hid', -, rfl⟩ := mem_processUpdates.mp hupdate
    exact hstored _ (List.mem_map_of_mem hr') (hnew _ (over_id? hid')).2

include hrec hrows in
theorem Reconciled.update_cases {u : RowUpdate} (hu : u ∈ callUpdates t items filter user now) :
    ∃ item ∈ items, ∃ r ∈ t.rows, item.id? = some (r .id) ∧ r .deleted_at = .null ∧
      u.stored = r ∧ u.entity = (preloadData user.join item).over r := by
  rcases callUpdates_cases hu with h | ⟨item, hitem, hid, hmem⟩
  · exact h
  · exact absurd hmem (hrec.newId hrows hitem hid)

include hrec hrows in
/-- The row of an item, before the call and after it. -/
theorem Reconciled.updated_final {item : Item} (hitem : item ∈ items) {id : Value}
    (hid : item.id? = some id) : ∃ r ∈ t.rows, r .id = id ∧
      (final t items filter user now r).inScope filter ∧
      (preloadData user.join item).Carried (final t items filter user now r) := by
  obtain ⟨hmem, r', hr', hid', hscope, hcarried⟩ := hrec.updated item hitem id hid
  obtain ⟨r, hr, hkey⟩ := List.mem_map.mp hmem
  obtain rfl := eq_final hrows hr hr' (hid'.trans hkey.symm)
  exact ⟨r, hr, hkey, hscope, hcarried⟩

include hrec hrows in
/-- The new row of an item is in the scope. -/
theorem Reconciled.inserted_inScope {item : Item} (hitem : item ∈ toCreate items) : ∃ id,
    (insertRow E (createEntity filter user.join item) id).inScope filter ∧
      ∀ id', (createEntity filter user.join item).id? = some id' → id = id' := by
  obtain ⟨rows, hforall, -, hall⟩ := hrec.created
  have hinserts := @callInserts_forall₂ t items filter user now E draws
    fun item hitem id hid => hrec.newId hrows hitem hid
  obtain ⟨r, hr, id, rfl, hgiven⟩ := exists_of_mem_left_of_forall₂ hinserts hitem
  have hmem := (hall _).mpr ((mem_inserted hrows).mp hr)
  obtain ⟨item', -, -, hscope⟩ := exists_of_mem_left_of_forall₂ hforall.flip hmem
  exact ⟨id, hscope, hgiven⟩

include hrec hrows in
theorem Reconciled.meets : Meets E t items filter user.join := by
  constructor
  · intro item hitem id hid
    obtain ⟨r, hr, rfl, hscope, -⟩ := hrec.updated_final hrows hitem hid
    have hkept : rowDeleted t items filter user now r = r :=
      rowDeleted_eq_self hr fun h => h.2 (mem_incomingIds.mpr ⟨item, hitem, hid⟩)
    have hcolumn : ∀ c, c ≠ .id → final t items filter user now r c = r c ∨
        r .deleted_at = .null ∧ ∃ item' ∈ items, item'.id? = some (r .id) ∧
          preloadData user.join item' c = some (final t items filter user now r c) := by
      intro c hc
      unfold final
      rw [hkept]
      rcases writes_cases (callUpdates t items filter user now) r hc with
        ⟨hsame, -⟩ | ⟨u, hu, huid, hset, hne⟩
      · exact .inl hsame
      · obtain ⟨item', hitem', r', hr', hid', hat, hstored, hentity⟩ :=
          hrec.update_cases hrows hu
        obtain rfl : r' = r := t.eq_of_key_eq hr' hr (hstored ▸ huid)
        rw [hentity] at hset
        rw [hstored] at hne
        exact .inr ⟨hat, item', hitem', hid', over_sets hset hne⟩
    have hallows := inScope_iff_allows.mp hscope
    refine ⟨r, hr, rfl, ?_, ?_, ?_⟩
    · by_contra hunselected
      rw [Bool.not_eq_true] at hunselected
      have hsame := eq_final hrows hr (hrec.outside r hr hunselected) rfl
      rw [← hsame] at hscope
      rw [hscope.2] at hunselected
      cases hunselected
    · rcases hcolumn .deleted_at (by simp) with hsame | ⟨hat, -⟩
      · rw [← hsame]
        exact hallows .deleted_at
      · exact hat
    · rcases hcolumn .is_deleted (by simp) with hsame | ⟨-, item', hitem', hid', hset⟩
      · rw [← hsame]
        exact .inl (hallows .is_deleted)
      · exact .inr ⟨item', hitem', hid', _, hset⟩
  · intro item hitem c v hc hv
    obtain ⟨hmem, id, hid⟩ := mem_toUpdate.mp hitem
    obtain ⟨r, -, -, hscope, hcarried⟩ := hrec.updated_final hrows hmem hid
    rw [← hcarried c v hc hv]
    exact inScope_iff_allows.mp hscope c
  · intro item hitem item' hitem' id hid hid' c v v' hc hv hv'
    obtain ⟨r, hr, hkey, -, hcarried⟩ := hrec.updated_final hrows hitem hid
    obtain ⟨r', hr', hkey', -, hcarried'⟩ := hrec.updated_final hrows hitem' hid'
    obtain rfl : r = r' := t.eq_of_key_eq hr hr' (hkey.trans hkey'.symm)
    exact (hcarried c v hc hv).symm.trans (hcarried' c v' hc hv')
  · intro item hitem c hc
    obtain ⟨id, hscope, -⟩ := hrec.inserted_inScope hrows hitem
    have hallowed := inScope_iff_allows.mp hscope c
    unfold insertRow at hallowed
    rw [if_neg hc] at hallowed
    exact hallowed
  · intro item hitem id hid
    refine ⟨hrec.newId hrows hitem hid, ?_⟩
    obtain ⟨id', hscope, hgiven⟩ := hrec.inserted_inScope hrows hitem
    rw [← hgiven id hid]
    exact inScope_iff_allows.mp hscope .id

end Necessary

/-- **A bulk update reconciles its scope with the items exactly under the condition.** -/
theorem updateBulk_reconciled_iff (hne : items ≠ [])
    (h : updateBulk E t items filter user false draws now = .ok t') :
    Reconciled t items filter user.join t' ↔ Meets E t items filter user.join := by
  have hrows := rows_updateBulk hne h
  exact ⟨fun hrec => hrec.meets hrows, fun hmeets => hmeets.reconciled hrows⟩

end Call

/-! ## Two calls -/

def plainTable : EntityTable where
  defaults := fun c => if c = .is_deleted then .bool false else .null
  defaults_live := ⟨rfl, rfl⟩
  violates := fun _ => none

def item (properties : List (Column × Value)) : Item := fun c => properties.lookup c

/-- A live row of a group. -/
def memberRow (id group name : String) : Row := fun c =>
  ((item [(.id, .text id), (.is_deleted, .bool false), (.own "group", .text group),
    (.own "name", .text name)]) c).getD .null

/-- Two rows of the group `g`, and one of the group `h`. -/
def twoGroups : Rows :=
  ⟨[memberRow "a" "g" "n", memberRow "b" "g" "n", memberRow "c" "h" "n"], by decide⟩

def inGroup (group : String) : Filter where
  entries := [.equal (.own "group") (.text group)]
  nodup := List.nodup_singleton _

theorem allows_inGroup {group : String} {c : Column} {v : Value} (hdeleted : c ≠ .is_deleted)
    (hat : c ≠ .deleted_at) (h : c = .own "group" → v = .text group) :
    (inGroup group).Allows c v := by
  have hentries : ∀ e ∈ (inGroup group).entries, e.column = c → e.selects v = true := by
    intro e he hc
    obtain rfl := List.mem_singleton.mp he
    rw [h hc.symm]
    simp [FilterEntry.equal]
  cases c with
  | is_deleted => exact absurd rfl hdeleted
  | deleted_at => exact absurd rfl hat
  | _ => exact hentries

/-- One row is renamed, and one is created. -/
def renameAndCreate : List Item :=
  [item [(.id, .text "a"), (.own "name", .text "m")], item [(.own "name", .text "k")]]

theorem meets_renameAndCreate :
    Meets plainTable twoGroups renameAndCreate (inGroup "g") (some "u") := by
  have hupdate : toUpdate renameAndCreate =
      [item [(.id, .text "a"), (.own "name", .text "m")]] := rfl
  have hcreate : toCreate renameAndCreate = [item [(.own "name", .text "k")]] := rfl
  constructor
  · intro i hi id hid
    rcases List.mem_cons.mp hi with rfl | hi
    · obtain rfl := Option.some.inj hid
      exact ⟨memberRow "a" "g" "n", List.mem_cons_self, rfl, by decide, rfl, .inl rfl⟩
    · obtain rfl := List.mem_singleton.mp hi
      cases hid
  · intro i hi c v hc hv
    rw [hupdate] at hi
    obtain rfl := List.mem_singleton.mp hi
    apply allows_inGroup
    · rintro rfl
      cases hv
    · rintro rfl
      cases hv
    · rintro rfl
      cases hv
  · intro i hi i' hi' id hid hid' c v v' hc hv hv'
    have hfirst : ∀ i ∈ renameAndCreate, i.id? = some id →
        i = item [(.id, .text "a"), (.own "name", .text "m")] := by
      intro i hi hid
      rcases List.mem_cons.mp hi with rfl | hi
      · rfl
      · obtain rfl := List.mem_singleton.mp hi
        cases hid
    rw [hfirst i hi hid] at hv
    rw [hfirst i' hi' hid'] at hv'
    exact Option.some.inj (hv.symm.trans hv')
  · intro i hi c hc
    rw [hcreate] at hi
    obtain rfl := List.mem_singleton.mp hi
    by_cases hdeleted : c = .is_deleted
    · subst hdeleted
      exact rfl
    · by_cases hat : c = .deleted_at
      · subst hat
        exact rfl
      · refine allows_inGroup hdeleted hat ?_
        rintro rfl
        rfl
  · intro i hi id hid
    rw [hcreate] at hi
    obtain rfl := List.mem_singleton.mp hi
    cases hid

theorem renameAndCreate_reconciled :
    ∃ t', updateBulk plainTable twoGroups renameAndCreate (inGroup "g") (some (some "u")) false
        (fun _ => "d") "now" = .ok t' ∧
      Reconciled twoGroups renameAndCreate (inGroup "g") (some "u") t' := by
  have hisOk : (updateBulk plainTable twoGroups renameAndCreate (inGroup "g") (some (some "u"))
      false (fun _ => "d") "now").isOk = true := by
    decide +kernel
  cases hrun : updateBulk plainTable twoGroups renameAndCreate (inGroup "g") (some (some "u"))
      false (fun _ => "d") "now" with
  | error e =>
      rw [hrun] at hisOk
      cases hisOk
  | ok t' =>
      exact ⟨t', rfl, (updateBulk_reconciled_iff (by decide) hrun).mpr meets_renameAndCreate⟩

/-- **An item changes a row of another scope**, and the scope is emptied. -/
theorem other_scope_is_changed :
    ∃ t', updateBulk plainTable twoGroups [item [(.id, .text "c"), (.own "name", .text "m")]]
        (inGroup "g") none false (fun _ => "d") "now" = .ok t' ∧
      memberRow "c" "h" "n" ∈ twoGroups.rows ∧
      (inGroup "g").selects (memberRow "c" "h" "n") = false ∧
      memberRow "c" "h" "n" ∉ t'.rows ∧
      ¬ Reconciled twoGroups [item [(.id, .text "c"), (.own "name", .text "m")]] (inGroup "g") none
        t' := by
  have hname : (updateBulk plainTable twoGroups
      [item [(.id, .text "c"), (.own "name", .text "m")]] (inGroup "g") none false (fun _ => "d")
      "now").map (fun t' => (t'.lookup (.text "c")).map fun r => r (.own "name")) =
        .ok (some (.text "m")) := by
    decide +kernel
  cases hrun : updateBulk plainTable twoGroups
      [item [(.id, .text "c"), (.own "name", .text "m")]] (inGroup "g") none false (fun _ => "d")
      "now" with
  | error e =>
      rw [hrun] at hname
      cases hname
  | ok t' =>
      rw [hrun] at hname
      have hold : memberRow "c" "h" "n" ∈ twoGroups.rows := by
        exact List.mem_cons_of_mem _ (List.mem_cons_of_mem _ List.mem_cons_self)
      have hgone : memberRow "c" "h" "n" ∉ t'.rows := by
        intro hmem
        have hlookup : t'.lookup (.text "c") = some (memberRow "c" "h" "n") :=
          Table.lookup_eq_some.mpr ⟨hmem, rfl⟩
        have hname' : (t'.lookup (.text "c")).map (fun r => r (.own "name")) = some (.text "m") :=
          Except.ok.inj hname
        rw [hlookup] at hname'
        exact absurd hname' (by decide)
      exact ⟨t', rfl, hold, by decide, hgone, fun hrec => hgone (hrec.outside _ hold (by decide))⟩

end ErpApi.Bulk
