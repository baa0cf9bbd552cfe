import ErpApi.Inventory.TreeServices

set_option autoImplicit false

/-! # Groups and leaves

A row with `is_group = false` is a leaf and has no children. `assertValidParent` checks this when a
child is attached. Nothing checks it when the row itself is updated, so a group with children can be
turned into a leaf (`group_with_child_becomes_leaf`). In a run in which no call does that, every live
row with a live child is a group (`run_leafRule`).
-/

namespace ErpApi.Inventory

variable {δ π : Type}

/-- A live row with a live child is a group. -/
def LeafRule (t : Rows δ) : Prop :=
  ∀ child ∈ live t, ∀ parent ∈ live t, child.parent = some parent.id → parent.is_group = true

instance (t : Rows δ) : Decidable (LeafRule t) :=
  inferInstanceAs (Decidable (∀ child ∈ live t, ∀ parent ∈ live t,
    child.parent = some parent.id → parent.is_group = true))

/-- The call is not an update that makes a leaf of a row with a live child. -/
def Call.KeepsGroups (t : Rows δ) : Call δ π → Prop
  | .update id data => data.is_group = .value false → ∀ child ∈ live t, child.parent ≠ some id
  | _ => True

/-- The database does not draw the empty text as an id. -/
def Call.Drawn : Call δ π → Prop
  | .create newId _ => newId ≠ ""
  | _ => True

instance (t : Rows δ) : (c : Call δ π) → Decidable (c.KeepsGroups t)
  | .update id data => inferInstanceAs (Decidable
      (data.is_group = .value false → ∀ child ∈ live t, child.parent ≠ some id))
  | .create _ _ => .isTrue trivial
  | .delete _ _ => .isTrue trivial

instance : (c : Call δ π) → Decidable c.Drawn
  | .create newId _ => inferInstanceAs (Decidable (newId ≠ ""))
  | .update _ _ => .isTrue trivial
  | .delete _ _ => .isTrue trivial

namespace TreeService

/-- Every call of the run that returns leaves the groups with children as they are. -/
def AllKeepGroups (s : TreeService δ π) :
    Rows δ → List (Call δ π × Option String × Scan (TreeRow δ)) → Prop
  | _, [] => True
  | t, c :: calls =>
      (c.1.Drawn ∧ ((s.call t c.2.1 c.2.2 c.1).2.isOk → c.1.KeepsGroups t)) ∧
        AllKeepGroups s (s.call t c.2.1 c.2.2 c.1).1 calls

instance decidableAllKeepGroups (s : TreeService δ π) :
    (t : Rows δ) → (calls : List (Call δ π × Option String × Scan (TreeRow δ))) →
      Decidable (s.AllKeepGroups t calls)
  | _, [] => .isTrue trivial
  | t, c :: calls =>
      have := decidableAllKeepGroups s (s.call t c.2.1 c.2.2 c.1).1 calls
      inferInstanceAs (Decidable (_ ∧ _))

end TreeService

section Calls

variable {s : TreeService δ π} {t t' : Rows δ}

/-- A rebuild gives the live rows new bounds and changes nothing else of them. -/
theorem live_rebuildTree {scan : Scan (TreeRow δ)} (h : rebuildTree scan t = .ok t') :
    ∃ w, live t' = (live t).map (TreeRow.withBounds w) := by
  obtain ⟨nodes, hnodes, hsave⟩ := bind_eq_ok.mp h
  obtain rfl := Except.ok.inj hsave
  have hperm := scan.perm (live t)
  have hnodup : ((scan.order (live t)).map TreeRow.id).Nodup :=
    (hperm.map TreeRow.id).nodup_iff.mpr (nodup_live t)
  obtain ⟨w, rfl, -⟩ := rebuildNestedSetFor_eq hnodup hnodes
  exact ⟨w, live_save t hperm w⟩

theorem rebuildTree_leafRule {scan : Scan (TreeRow δ)} (h : rebuildTree scan t = .ok t') :
    LeafRule t' ↔ LeafRule t := by
  obtain ⟨w, hlive⟩ := live_rebuildTree h
  unfold LeafRule
  rw [hlive]
  simp only [List.forall_mem_map]
  rfl

/-- No row of a nested set is its own parent. -/
theorem IsNestedSet.parent_ne (h : IsNestedSet (liveNodes t)) {r : TreeRow δ} (hr : r ∈ live t) :
    r.parent ≠ some r.id := by
  intro hself
  have hmem : r.mirror ∈ liveNodes t := List.mem_map_of_mem hr
  have hnodup : ((liveNodes t).map NestedSetNode.id).Nodup := by
    rw [liveNodes, map_id_mirror]
    exact nodup_live t
  refine h.acyclic r.mirror hmem (Relation.TransGen.single ?_)
  exact (parentOf_of_mem hnodup hmem).trans hself

/-- The parent of a live row is live. -/
theorem IsNestedSet.exists_parent (h : IsNestedSet (liveNodes t)) {r : TreeRow δ} (hr : r ∈ live t)
    {parentId : String} (hparent : r.parent = some parentId) :
    ∃ parent ∈ live t, parent.id = parentId := by
  have hmem := h.parent_mem r.mirror (List.mem_map_of_mem hr) parentId hparent
  rw [liveNodes, map_id_mirror] at hmem
  exact List.mem_map.mp hmem

theorem findLive_some {id : String} {r : TreeRow δ} (h : findLive t id = some r) :
    r ∈ live t ∧ r.id = id :=
  ⟨List.mem_of_find?_eq_some h, by simpa using List.find?_some h⟩

/-- What the check of a parent finds. -/
theorem assertValidParent_ok {parentId : String} (h : s.assertValidParent t parentId = .ok ()) :
    ∃ parent ∈ live t, parent.id = uuid parentId ∧ parent.is_group = true := by
  unfold TreeService.assertValidParent at h
  split at h
  · cases h
  · rename_i parent hfind
    obtain ⟨hmem, hid⟩ := findLive_some hfind
    refine ⟨parent, hmem, hid, ?_⟩
    cases hgroup : parent.is_group with
    | true => rfl
    | false =>
        rw [hgroup] at h
        cases h

/-! ## One call -/

/-- The invariant of a run. -/
structure GroupsOk (t : Rows δ) : Prop where
  nestedSet : IsNestedSet (liveNodes t)
  leafRule : LeafRule t
  ids : ∀ r ∈ live t, r.id ≠ ""

/-- What is left to show when a call ends with a rebuild. -/
theorem groupsOk_rebuildTree {scan : Scan (TreeRow δ)} (h : rebuildTree scan t = .ok t')
    (hleaf : LeafRule t) (hids : ∀ r ∈ live t, r.id ≠ "") : GroupsOk t' := by
  refine ⟨rebuildTree_isNestedSet h, (rebuildTree_leafRule h).mpr hleaf, ?_⟩
  obtain ⟨w, hlive⟩ := live_rebuildTree h
  rw [hlive, List.forall_mem_map]
  exact hids

theorem mem_live_insert {r r' : TreeRow δ} (hinsert : t.insert r = some t')
    (hr : r' ∈ live t') : r' ∈ live t ∨ r' = r := by
  obtain ⟨hmem, hlive⟩ := List.mem_filter.mp hr
  rw [Table.rows_of_insert hinsert] at hmem
  rcases List.mem_append.mp hmem with hold | hnew
  · exact Or.inl (List.mem_filter.mpr ⟨hold, hlive⟩)
  · exact Or.inr (List.mem_singleton.mp hnew)

theorem id_ne_of_insert {r r' : TreeRow δ} (hinsert : t.insert r = some t') (hr : r' ∈ live t) :
    r'.id ≠ r.id := by
  intro heq
  have hlookup : t.lookup r.id = some r' :=
    Table.lookup_eq_some.mpr ⟨(List.mem_filter.mp hr).1, heq⟩
  rw [Table.insert_eq_none.mpr ⟨r', hlookup⟩] at hinsert
  cases hinsert

/-- The parent of a new row, where there is one. -/
theorem checkNewParent_ok {parent : Option String} (h : s.checkNewParent t parent = .ok ())
    {parentId : String} (hparent : parent.map uuid = some parentId) :
    parentId = "" ∨ ∃ r ∈ live t, r.id = parentId ∧ r.is_group = true := by
  obtain ⟨text, rfl, rfl⟩ := Option.map_eq_some_iff.mp hparent
  by_cases hempty : text = ""
  · exact Or.inl (by rw [hempty]; decide)
  · rw [TreeService.checkNewParent, if_neg hempty] at h
    exact Or.inr (assertValidParent_ok h)

/-- An insert under a checked parent. -/
theorem createBody_groupsOk {newId : String} {data : CreateDTO δ} {currentUser : Option String}
    {scan : Scan (TreeRow δ)} {result : Rows δ × TreeRow δ} (hok : GroupsOk t)
    (hnewId : newId ≠ "") (h : s.createBody t newId data currentUser scan = .ok result) :
    GroupsOk result.1 := by
  obtain ⟨⟨⟩, hcheck, hbody⟩ := bind_eq_ok.mp h
  split at hbody
  · cases hbody
  · rename_i t₁ hinsert
    obtain ⟨t₂, hrebuild, hfind⟩ := bind_eq_ok.mp hbody
    obtain ⟨saved, -, hresult⟩ := bind_eq_ok.mp hfind
    obtain rfl := Except.ok.inj hresult
    refine groupsOk_rebuildTree hrebuild ?_ ?_
    · intro child hchild parent hparent hpair
      rcases mem_live_insert hinsert hchild with hchild | rfl
      · obtain ⟨parent', hparent', hid⟩ := hok.nestedSet.exists_parent hchild hpair
        rcases mem_live_insert hinsert hparent with hparent | rfl
        · exact hok.leafRule child hchild parent hparent hpair
        · exact absurd hid (id_ne_of_insert hinsert hparent')
      · -- The new row. Its parent was checked, and it is a row that was there.
        rcases checkNewParent_ok hcheck hpair with hempty | ⟨r, hr, hid, hgroup⟩
        · rcases mem_live_insert hinsert hparent with hparent | rfl
          · exact absurd hempty (hok.ids parent hparent)
          · exact absurd hempty hnewId
        · rcases mem_live_insert hinsert hparent with hparent | rfl
          · rw [t.eq_of_key_eq (List.mem_filter.mp hparent).1 (List.mem_filter.mp hr).1 hid.symm]
            exact hgroup
          · exact absurd hid (id_ne_of_insert hinsert hr)
    · intro r hr
      rcases mem_live_insert hinsert hr with hr | rfl
      · exact hok.ids r hr
      · exact hnewId

/-- The live rows when one of them was saved. -/
theorem live_save_one {r entity : TreeRow δ} (hid : entity.id = r.id) {r' : TreeRow δ}
    (hr' : r' ∈ live (save t [entity])) :
    r' = entity ∨ r' ∈ live t ∧ r'.id ≠ r.id := by
  obtain ⟨hmem, hlive'⟩ := List.mem_filter.mp hr'
  obtain ⟨old, hold, rfl⟩ := List.mem_map.mp hmem
  by_cases heq : entity.id = old.id
  · left
    simp [heq]
  · right
    have hsame : ([entity].find? fun e => e.id = old.id).getD old = old := by simp [heq]
    rw [hsame] at hlive' ⊢
    exact ⟨List.mem_filter.mpr ⟨hold, hlive'⟩, fun hno => heq (hid.trans hno.symm)⟩

/-- What an update makes of its row. -/
theorem preload_ok {data : UpdateDTO π} {currentUser : Option String} {r entity : TreeRow δ}
    (h : s.preload data currentUser r = .ok entity) :
    entity.id = r.id ∧
      (entity.is_group = r.is_group ∨ data.is_group = .value entity.is_group) ∧
      (data.parent = .undefined ∧ entity.parent = r.parent ∨
        data.parent = .null ∧ entity.parent = none ∨
        ∃ parentId, data.parent = .value parentId ∧ entity.parent = some (uuid parentId)) := by
  obtain ⟨attributes, -, h⟩ := bind_eq_ok.mp h
  obtain ⟨is_group, hgroup, h⟩ := bind_eq_ok.mp h
  obtain rfl := Except.ok.inj h
  refine ⟨rfl, ?_, ?_⟩
  · cases hfield : data.is_group with
    | undefined =>
        rw [hfield] at hgroup
        exact Or.inl (Except.ok.inj hgroup).symm
    | null =>
        rw [hfield] at hgroup
        cases hgroup
    | value b =>
        rw [hfield] at hgroup
        exact Or.inr (congrArg Field.value (Except.ok.inj hgroup))
  · cases data.parent with
    | undefined => exact Or.inl ⟨rfl, rfl⟩
    | null => exact Or.inr (Or.inl ⟨rfl, rfl⟩)
    | value parentId => exact Or.inr (Or.inr ⟨parentId, rfl, rfl⟩)

/-- An update of a row, under a checked parent. -/
theorem updateBody_groupsOk {id : String} {data : UpdateDTO π} {currentUser : Option String}
    {scan : Scan (TreeRow δ)} {result : Rows δ × TreeRow δ} (hok : GroupsOk t)
    (hkeeps : data.is_group = .value false → ∀ child ∈ live t, child.parent ≠ some id)
    (h : s.updateBody t id data currentUser scan = .ok result) : GroupsOk result.1 := by
  obtain ⟨⟨⟩, hcheck, hbody⟩ := bind_eq_ok.mp h
  split at hbody
  · cases hbody
  · rename_i r hfind
    obtain ⟨hr, rfl⟩ := findLive_some hfind
    obtain ⟨entity, hpreload, hbody⟩ := bind_eq_ok.mp hbody
    obtain ⟨t₂, hrebuild, hbody⟩ := bind_eq_ok.mp hbody
    obtain ⟨saved, -, hresult⟩ := bind_eq_ok.mp hbody
    obtain rfl := Except.ok.inj hresult
    obtain ⟨hid, hgroup, hparent⟩ := preload_ok hpreload
    have hset := rebuildTree_isNestedSet hrebuild
    refine groupsOk_rebuildTree hrebuild ?_ ?_
    · intro child hchild parent hparent' hpair
      rcases live_save_one hid hparent' with rfl | ⟨hlive, -⟩
      · rcases live_save_one hid hchild with rfl | ⟨hchild, -⟩
        · -- The row would be its own parent, and the rebuild would have thrown.
          obtain ⟨w, hlive⟩ := live_rebuildTree hrebuild
          have hmem : child.withBounds w ∈ live t₂ := hlive ▸ List.mem_map_of_mem hchild
          exact absurd (show (child.withBounds w).parent = some (child.withBounds w).id from hpair)
            (hset.parent_ne hmem)
        · -- The row had this child before, so it was a group, and it still is.
          have hold := hok.leafRule child hchild r hr (hpair.trans (congrArg some hid))
          rcases hgroup with hsame | hvalue
          · exact hsame.trans hold
          · cases hb : parent.is_group with
            | true => rfl
            | false =>
                rw [hb] at hvalue
                exact absurd (hpair.trans (congrArg some hid)) (hkeeps hvalue child hchild)
      · rcases live_save_one hid hchild with rfl | ⟨hchild, -⟩
        · rcases hparent with ⟨-, heq⟩ | ⟨-, heq⟩ | ⟨parentId, hdata, heq⟩
          · exact hok.leafRule r hr parent hlive (heq ▸ hpair)
          · rw [heq] at hpair
            cases hpair
          · -- A new parent was checked.
            rw [hdata, TreeService.checkParent] at hcheck
            split at hcheck
            · cases hcheck
            · obtain ⟨r', hr', hid', hgroup'⟩ := assertValidParent_ok hcheck
              rw [heq] at hpair
              have hsame : parent.id = r'.id := (Option.some.inj hpair).symm.trans hid'.symm
              rw [t.eq_of_key_eq (List.mem_filter.mp hlive).1 (List.mem_filter.mp hr').1 hsame]
              exact hgroup'
        · exact hok.leafRule child hchild parent hlive hpair
    · intro r' hr'
      rcases live_save_one hid hr' with rfl | ⟨hr', -⟩
      · rw [hid]
        exact hok.ids r hr
      · exact hok.ids r' hr'

/-- A delete leaves fewer live rows. -/
theorem GroupsOk.of_subset {t₁ : Rows δ} {scan : Scan (TreeRow δ)} (hok : GroupsOk t)
    (hsub : ∀ r ∈ live t₁, r ∈ live t) (h : rebuildTree scan t₁ = .ok t') : GroupsOk t' := by
  refine groupsOk_rebuildTree h ?_ fun r hr => hok.ids r (hsub r hr)
  intro child hchild parent hparent hpair
  exact hok.leafRule child (hsub child hchild) parent (hsub parent hparent) hpair

theorem deleteBody_groupsOk {id : String} {softDelete : Bool} {currentUser : Option String}
    {scan : Scan (TreeRow δ)} (hok : GroupsOk t)
    (h : s.deleteBody t id softDelete currentUser scan = .ok t') : GroupsOk t' := by
  obtain ⟨-, -, hwrite⟩ := bind_eq_ok.mp h
  split at hwrite
  · cases hwrite
  split at hwrite
  · refine hok.of_subset ?_ hwrite
    intro r hr
    obtain ⟨hmem, hlive⟩ := List.mem_filter.mp hr
    obtain ⟨old, hold, rfl⟩ := List.mem_map.mp hmem
    split at hlive
    · cases hlive
    · rename_i hne
      rw [if_neg hne]
      exact List.mem_filter.mpr ⟨hold, hlive⟩
  · refine hok.of_subset ?_ hwrite
    intro r hr
    obtain ⟨hmem, hlive⟩ := List.mem_filter.mp hr
    exact List.mem_filter.mpr ⟨(List.mem_filter.mp hmem).1, hlive⟩

/-- **One call.** -/
theorem call_groupsOk {currentUser : Option String} {scan : Scan (TreeRow δ)} {c : Call δ π}
    (hok : GroupsOk t) (hdrawn : c.Drawn)
    (hkeeps : (s.call t currentUser scan c).2.isOk → c.KeepsGroups t) :
    GroupsOk (s.call t currentUser scan c).1 := by
  cases c with
  | create newId data =>
      cases hbody : s.createBody t newId data currentUser scan with
      | error e =>
          simp only [TreeService.call, hbody]
          exact hok
      | ok result =>
          simp only [TreeService.call, hbody]
          exact createBody_groupsOk hok hdrawn hbody
  | update id data =>
      cases hbody : s.updateBody t id data currentUser scan with
      | error e =>
          simp only [TreeService.call, hbody]
          exact hok
      | ok result =>
          simp only [TreeService.call, hbody] at hkeeps ⊢
          exact updateBody_groupsOk hok (hkeeps rfl) hbody
  | delete id softDelete =>
      cases hbody : s.deleteBody t id softDelete currentUser scan with
      | error e =>
          simp only [TreeService.call, hbody]
          exact hok
      | ok result =>
          simp only [TreeService.call, hbody]
          exact deleteBody_groupsOk hok hbody

/-! ## Runs -/

theorem run_groupsOk {calls : List (Call δ π × Option String × Scan (TreeRow δ))}
    (hok : GroupsOk t) (hcalls : s.AllKeepGroups t calls) : GroupsOk (s.run t calls) := by
  induction calls generalizing t with
  | nil => exact hok
  | cons c calls ih =>
      obtain ⟨⟨hdrawn, hkeeps⟩, hrest⟩ := hcalls
      exact ih (call_groupsOk hok hdrawn hkeeps) hrest

theorem groupsOk_empty : GroupsOk (emptyRows δ) := by
  refine ⟨isNestedSet_empty, ?_, ?_⟩
  · intro child hchild
    cases hchild
  · intro r hr
    cases hr

/-- **Groups stay groups**: in every run of a service from the empty table in which no call that
returns makes a leaf of a row with a live child, every live row with a live child is a group. -/
theorem run_leafRule (s : TreeService δ π)
    {calls : List (Call δ π × Option String × Scan (TreeRow δ))}
    (hcalls : s.AllKeepGroups (emptyRows δ) calls) : LeafRule (s.run (emptyRows δ) calls) :=
  (run_groupsOk groupsOk_empty hcalls).leafRule

end Calls

/-- The rows in the order of the table. -/
def inOrder {ρ : Type} : Scan ρ := ⟨id, fun _ => .refl _⟩

def newGroup (id : String) (is_group : Bool) (parent : Option String) :
    Call ItemGroupColumns ItemGroupFields × Option String × Scan (TreeRow ItemGroupColumns) :=
  (.create id ⟨⟨"n", "n"⟩, is_group, parent⟩, none, inOrder)

/-- An update of `is_group` alone. -/
def setGroup (id : String) (is_group : Bool) :
    Call ItemGroupColumns ItemGroupFields × Option String × Scan (TreeRow ItemGroupColumns) :=
  (.update id ⟨⟨.undefined, .undefined⟩, .value is_group, .undefined⟩, none, inOrder)

/-- A leaf becomes a group and gets a child. -/
theorem run_leafRule_child :
    itemGroupsService.AllKeepGroups (emptyRows ItemGroupColumns)
      [newGroup "a" false none, setGroup "a" true, newGroup "b" false (some "a")] ∧
    LeafRule (itemGroupsService.run (emptyRows ItemGroupColumns)
      [newGroup "a" false none, setGroup "a" true, newGroup "b" false (some "a")]) := by
  have hcalls : itemGroupsService.AllKeepGroups (emptyRows ItemGroupColumns)
      [newGroup "a" false none, setGroup "a" true, newGroup "b" false (some "a")] := by
    decide +kernel
  exact ⟨hcalls, run_leafRule itemGroupsService hcalls⟩

/-- **A group with a child becomes a leaf.** -/
theorem group_with_child_becomes_leaf :
    ¬ LeafRule (itemGroupsService.run (emptyRows ItemGroupColumns)
      [newGroup "a" true none, newGroup "b" false (some "a"), setGroup "a" false]) := by
  decide +kernel

end ErpApi.Inventory
