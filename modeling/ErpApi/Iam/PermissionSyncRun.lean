import Mathlib.Data.List.Induction
import ErpApi.Iam.PermissionSync

set_option autoImplicit false

/-! # A full sync of the permission catalog

A full sync handles the api plane, then the ui plane, in one transaction. The existing rows of a
plane are those with its value in `plane`, but a scanned permission is matched by service and
permission alone, and the match writes neither `plane` nor `is_manual`. So a permission that moved
to the other plane is revived by one pass and removed by the other (`moved_permission_lost`), and a
permission that a manual row holds is reported as added in every run (`manual_permission_added`).

The catalog reflects the scans exactly when no such row is concerned (`sync_reflects_iff`), and the
second run has nothing to do exactly when, in addition, no scanned pair is held by a manual row or
scanned on both planes (`second_sync_quiet_iff`).
-/

namespace ErpApi.PermissionSync

/-! ## The transaction -/

/-- A row of `permission_sync_logs`. -/
structure PermissionSyncLog where
  added : List (Pair × PermissionPlane)
  removed : List Pair
  added_count : Nat
  removed_count : Nat
  unchanged_count : Nat
  triggered_by : Varchar 100

def syncLog (apiDiff uiDiff : PlaneDiff) (triggeredBy : Varchar 100) : PermissionSyncLog where
  added := (apiDiff.added ++ uiDiff.added).map fun p => (p.pair, p.plane)
  removed := apiDiff.removed ++ uiDiff.removed
  added_count := (apiDiff.added ++ uiDiff.added).length
  removed_count := (apiDiff.removed ++ uiDiff.removed).length
  unchanged_count := (apiDiff.unchanged ++ uiDiff.unchanged).length
  triggered_by := triggeredBy

/-- The api plane, the ui plane and the log. An error rolls everything back. -/
def syncWith (syncPlane : Catalog → PermissionPlane → List ScannedPermission → String →
      Except ServiceError (Catalog × PlaneDiff))
    (catalog : Catalog) (apiScanned uiScanned : List ScannedPermission) (triggeredBy : String) :
    Except ServiceError (Catalog × PermissionSyncLog) := do
  let api ← syncPlane catalog .api apiScanned "no longer declared via @RequirePermission()"
  let ui ← syncPlane api.1 .ui uiScanned "no longer declared via data-permission attribute"
  let triggeredBy ← varchar 100 triggeredBy
  return (ui.1, syncLog api.2 ui.2 triggeredBy)

/-- The transaction of the script's `main`; `hostname` is the host it runs on. -/
def Script.sync (now : Nat) (catalog : Catalog) (apiScanned uiScanned : List ScannedPermission)
    (hostname : String) : Except ServiceError (Catalog × PermissionSyncLog) :=
  syncWith (Script.syncPlane now) catalog apiScanned uiScanned hostname

def Service.runSync (now : Pair → Nat) (catalog : Catalog)
    (apiScanned uiScanned : List ScannedPermission) (triggeredBy : String) :
    Except ServiceError (Catalog × PermissionSyncLog) :=
  syncWith (Service.syncPlane now) catalog apiScanned uiScanned triggeredBy

theorem syncWith_eq_ok {syncPlane : Catalog → PermissionPlane → List ScannedPermission → String →
      Except ServiceError (Catalog × PlaneDiff)}
    {catalog : Catalog} {apiScanned uiScanned : List ScannedPermission} {triggeredBy : String}
    {result : Catalog × PermissionSyncLog} :
    syncWith syncPlane catalog apiScanned uiScanned triggeredBy = .ok result ↔
      ∃ api ui text,
        syncPlane catalog .api apiScanned "no longer declared via @RequirePermission()" = .ok api ∧
        syncPlane api.1 .ui uiScanned "no longer declared via data-permission attribute" = .ok ui ∧
        varchar 100 triggeredBy = .ok text ∧ result = (ui.1, syncLog api.2 ui.2 text) := by
  constructor
  · intro h
    obtain ⟨api, hapi, h⟩ := bind_eq_ok.mp h
    obtain ⟨ui, hui, h⟩ := bind_eq_ok.mp h
    obtain ⟨text, htext, h⟩ := bind_eq_ok.mp h
    exact ⟨api, ui, text, hapi, hui, htext, (Except.ok.inj h).symm⟩
  · rintro ⟨api, ui, text, hapi, hui, htext, rfl⟩
    exact bind_eq_ok.mpr ⟨api, hapi, bind_eq_ok.mpr ⟨ui, hui, bind_eq_ok.mpr ⟨text, htext, rfl⟩⟩⟩

/-! ## What a scan writes into one row -/

/-- The rows that a scan proposes, each with whether it names them. -/
abbrev Proposals := List (Permission × Bool)

def proposals (plane : PermissionPlane) (scanned : List ScannedPermission) (k : Pair) : Proposals :=
  scanned.filterMap fun p =>
    if p.pair = k then (p.row plane).toOption.map fun row => (row, p.name.isSome) else none

def Permission.refreshes (r : Permission) (l : Proposals) : Permission :=
  l.foldl (fun r x => r.refresh x.1 x.2) r

/-- The row of a pair after the scan. -/
def written (old : Option Permission) : Proposals → Option Permission
  | [] => old
  | x :: l => some ((old.getD x.1).refreshes (x :: l))

theorem refreshes_concat (r : Permission) (l : Proposals) (x : Permission × Bool) :
    r.refreshes (l ++ [x]) = (r.refreshes l).refresh x.1 x.2 := by
  rw [Permission.refreshes, List.foldl_append]
  rfl

/-- The columns that a refresh leaves alone. -/
def Permission.fixed (r : Permission) : Pair × PermissionPlane × Bool :=
  (r.pair, r.plane, r.is_manual)

def Permission.names (r : Permission) : Varchar 200 × Varchar 200 :=
  (r.permission_name_th, r.permission_name_en)

theorem refreshes_fixed (r : Permission) (l : Proposals) : (r.refreshes l).fixed = r.fixed := by
  induction l using List.reverseRecOn with
  | nil => rfl
  | append_singleton l x ih => rw [refreshes_concat, ← ih]; rfl

theorem refresh_names (r : Permission) (x : Permission × Bool) :
    (r.refresh x.1 x.2).names = if x.2 then x.1.names else r.names := by
  obtain ⟨row, b⟩ := x
  cases b <;> rfl

/-- The names after the scan depend on the names before it and on nothing else. -/
theorem refreshes_names {r r' : Permission} (h : r.names = r'.names) (l : Proposals) :
    (r.refreshes l).names = (r'.refreshes l).names := by
  induction l using List.reverseRecOn with
  | nil => exact h
  | append_singleton l x ih =>
      rw [refreshes_concat, refreshes_concat, refresh_names, refresh_names, ih]

theorem refresh_congr {r r' : Permission} (x : Permission × Bool) (hfixed : r.fixed = r'.fixed)
    (hnames : x.2 = false → r.names = r'.names) : r.refresh x.1 x.2 = r'.refresh x.1 x.2 := by
  obtain ⟨row, b⟩ := x
  obtain ⟨service, permission, resource, action, plane, th, en, manual, deleted, at', reason⟩ := r
  obtain ⟨service', permission', resource', action', plane', th', en', manual', deleted', at'',
    reason'⟩ := r'
  obtain ⟨hpair, hplane, hmanual⟩ : _ ∧ plane = plane' ∧ manual = manual' := by
    simpa [Permission.fixed] using hfixed
  obtain ⟨hservice, hpermission⟩ : service.val = service'.val ∧
      permission.val.text = permission'.val.text := Prod.ext_iff.mp hpair
  obtain rfl : service = service' := Subtype.ext hservice
  obtain rfl : permission = permission' := by
    obtain ⟨⟨text, hwf⟩, hlength⟩ := permission
    obtain ⟨⟨text', hwf'⟩, hlength'⟩ := permission'
    obtain rfl : text = text' := hpermission
    rfl
  subst hplane hmanual
  cases b with
  | true => rfl
  | false =>
      obtain ⟨rfl, rfl⟩ : th = th' ∧ en = en' := Prod.ext_iff.mp (hnames rfl)
      rfl

/-- Writing the same scan once more changes nothing. -/
theorem refreshes_refreshes (r : Permission) (l : Proposals) :
    (r.refreshes l).refreshes l = r.refreshes l := by
  induction l using List.reverseRecOn with
  | nil => rfl
  | append_singleton l x ih =>
      rw [refreshes_concat, refreshes_concat]
      apply refresh_congr
      · rw [refreshes_fixed]
        rfl
      · -- The last proposal has no names, so they come from the ones before it.
        intro hx
        have hlast : ((r.refreshes l).refresh x.1 x.2).names = (r.refreshes l).names := by
          rw [refresh_names, hx]
          rfl
        rw [refreshes_names hlast, ih]

theorem written_written (old : Option Permission) (l : Proposals) :
    written (written old l) l = written old l := by
  cases l with
  | nil => rfl
  | cons x l =>
      show some (((old.getD x.1).refreshes (x :: l)).refreshes (x :: l)) = _
      rw [refreshes_refreshes]
      rfl

theorem refreshes_live {r : Permission} {l : Proposals} (h : l ≠ []) :
    (r.refreshes l).is_deleted = false ∧ (r.refreshes l).deleted_at = none := by
  rcases List.eq_nil_or_concat l with rfl | ⟨init, x, rfl⟩
  · exact absurd rfl h
  · rw [List.concat_eq_append, refreshes_concat]
    exact ⟨rfl, rfl⟩

theorem mem_proposals {plane : PermissionPlane} {scanned : List ScannedPermission} {k : Pair}
    {x : Permission × Bool} (h : x ∈ proposals plane scanned k) :
    x.1.plane = plane ∧ x.1.is_manual = false := by
  obtain ⟨p, -, hp⟩ := List.mem_filterMap.mp h
  split at hp
  · cases hrow : p.row plane with
    | error e =>
        rw [hrow] at hp
        cases hp
    | ok row =>
        rw [hrow] at hp
        obtain rfl := Option.some.inj hp
        obtain ⟨hisRow, -⟩ := row_ok hrow
        exact ⟨hisRow.plane, hisRow.manual⟩
  · cases hp

theorem proposals_eq_nil {plane : PermissionPlane} {scanned : List ScannedPermission} {k : Pair}
    (h : k ∉ scanned.map ScannedPermission.pair) : proposals plane scanned k = [] := by
  rw [proposals, List.filterMap_eq_nil_iff]
  intro p hp
  rw [if_neg]
  rintro rfl
  exact h (List.mem_map_of_mem hp)

theorem proposals_ne_nil {plane : PermissionPlane} {scanned : List ScannedPermission} {k : Pair}
    (hfits : ∀ p ∈ scanned, p.Fits) (h : k ∈ scanned.map ScannedPermission.pair) :
    proposals plane scanned k ≠ [] := by
  obtain ⟨p, hp, rfl⟩ := List.mem_map.mp h
  obtain ⟨row, hrow⟩ := row_of_fits plane (hfits p hp)
  have hmem : (row, p.name.isSome) ∈ proposals plane scanned p.pair := by
    refine List.mem_filterMap.mpr ⟨p, hp, ?_⟩
    rw [if_pos rfl, hrow]
    rfl
  exact List.ne_nil_of_mem hmem

/-- A row that is proposed is there already as it is. -/
theorem refresh_self {p : ScannedPermission} {plane : PermissionPlane} {row : Permission}
    (h : p.IsRow plane row) (b : Bool) : row.refresh row b = row := by
  obtain ⟨hdeleted, hat, hreason⟩ := h.live
  obtain ⟨service, permission, resource, action, plane', th, en, manual, deleted, at', reason⟩ := row
  subst hdeleted hat hreason
  cases b <;> rfl

/-- The row of every pair after the scan. -/
theorem lookup_upserts {plane : PermissionPlane} {scanned : List ScannedPermission}
    {catalog catalog' : Catalog} (h : scanned.foldlM (upsert plane) catalog = .ok catalog')
    (k : Pair) :
    catalog'.lookup k = written (catalog.lookup k) (proposals plane scanned k) := by
  induction scanned generalizing catalog with
  | nil =>
      obtain rfl := Except.ok.inj h
      rfl
  | cons p scanned ih =>
      rw [List.foldlM_cons] at h
      obtain ⟨catalog₁, hupsert, hrest⟩ := bind_eq_ok.mp h
      obtain ⟨row, hrow, hlookup⟩ := upsert_ok hupsert
      rw [ih hrest, hlookup k]
      by_cases hk : p.pair = k
      · have hcons : proposals plane (p :: scanned) k =
            (row, p.name.isSome) :: proposals plane scanned k := by
          rw [proposals, List.filterMap_cons, if_pos hk, hrow]
          rfl
        have hbase : ((catalog.lookup k).map (·.refresh row p.name.isSome)).getD row =
            ((catalog.lookup k).getD row).refresh row p.name.isSome := by
          cases catalog.lookup k with
          | none => exact (refresh_self (row_ok hrow).1 _).symm
          | some r => rfl
        rw [if_pos hk, hcons, hbase]
        cases proposals plane scanned k with
        | nil => rfl
        | cons x l => rfl
      · have hcons : proposals plane (p :: scanned) k = proposals plane scanned k := by
          rw [proposals, List.filterMap_cons, if_neg hk]
          rfl
        rw [if_neg hk, hcons]

/-! ## One plane, row by row -/

/-- The row counts as existing on the plane. -/
structure Permission.Existing (sees : Permission → Bool) (plane : PermissionPlane)
    (r : Permission) : Prop where
  seen : sees r = true
  plane : r.plane = plane
  notManual : r.is_manual = false
  notDeleted : r.is_deleted = false

theorem existing_iff {sees : Permission → Bool} {catalog : Catalog} {plane : PermissionPlane}
    {k : Pair} : k ∈ (existingRows sees catalog plane).map Permission.pair ↔
      ∃ r, catalog.lookup k = some r ∧ r.Existing sees plane := by
  simp only [List.mem_map, mem_existingRows, Table.lookup_eq_some]
  constructor
  · rintro ⟨r, ⟨hr, hsees, hplane, hmanual, hdeleted⟩, hk⟩
    exact ⟨r, ⟨hr, hk⟩, hsees, hplane, hmanual, hdeleted⟩
  · rintro ⟨r, ⟨hr, hk⟩, hsees, hplane, hmanual, hdeleted⟩
    exact ⟨r, ⟨hr, hsees, hplane, hmanual, hdeleted⟩, hk⟩

section Pass

variable {sees : Permission → Bool} {now : Pair → Nat} {catalog catalog' : Catalog}
  {plane : PermissionPlane} {scanned : List ScannedPermission} {reason : String} {d : PlaneDiff}

theorem pass_diff
    (h : syncPlaneWith sees upsert now catalog plane scanned reason = .ok (catalog', d)) :
    d = diff (existingRows sees catalog plane) scanned := by
  obtain ⟨final, -, heq⟩ := syncPlaneWith_eq_ok.mp h
  exact (Prod.mk.inj heq).2

theorem pass_fits
    (h : syncPlaneWith sees upsert now catalog plane scanned reason = .ok (catalog', d)) :
    ∀ p ∈ scanned, p.Fits := by
  obtain ⟨final, hfold, -⟩ := syncPlaneWith_eq_ok.mp h
  exact fits_of_upserts hfold

/-- A scanned pair has its row written. -/
theorem pass_scanned
    (h : syncPlaneWith sees upsert now catalog plane scanned reason = .ok (catalog', d)) {k : Pair}
    (hk : k ∈ scanned.map ScannedPermission.pair) :
    catalog'.lookup k = written (catalog.lookup k) (proposals plane scanned k) := by
  obtain ⟨final, hfold, heq⟩ := syncPlaneWith_eq_ok.mp h
  obtain ⟨rfl, -⟩ := Prod.mk.inj heq
  have hkept : k ∉ (diff (existingRows sees catalog plane) scanned).removed :=
    fun hmem => (mem_removed.mp hmem).2 hk
  rw [lookup_removes, lookup_upserts hfold]
  simp [hkept]

/-- The row of a pair that is not scanned is removed if it counts as existing. -/
theorem pass_removed
    (h : syncPlaneWith sees upsert now catalog plane scanned reason = .ok (catalog', d)) {k : Pair}
    (hk : k ∉ scanned.map ScannedPermission.pair) {r : Permission}
    (hr : catalog.lookup k = some r) (hexisting : r.Existing sees plane) :
    catalog'.lookup k = some (r.softDelete reason (now k)) := by
  obtain ⟨final, hfold, heq⟩ := syncPlaneWith_eq_ok.mp h
  obtain ⟨rfl, -⟩ := Prod.mk.inj heq
  have hremoved : k ∈ (diff (existingRows sees catalog plane) scanned).removed :=
    mem_removed.mpr ⟨existing_iff.mpr ⟨r, hr, hexisting⟩, hk⟩
  rw [lookup_removes, lookup_upserts hfold, proposals_eq_nil hk]
  show (catalog.lookup k).map _ = _
  rw [hr]
  simp [hremoved, hexisting.notManual]

/-- Every other row stays as it is. -/
theorem pass_kept
    (h : syncPlaneWith sees upsert now catalog plane scanned reason = .ok (catalog', d)) {k : Pair}
    (hk : k ∉ scanned.map ScannedPermission.pair)
    (hr : ∀ r, catalog.lookup k = some r → ¬ r.Existing sees plane) :
    catalog'.lookup k = catalog.lookup k := by
  obtain ⟨final, hfold, heq⟩ := syncPlaneWith_eq_ok.mp h
  obtain ⟨rfl, -⟩ := Prod.mk.inj heq
  have hkept : k ∉ (diff (existingRows sees catalog plane) scanned).removed := by
    intro hmem
    obtain ⟨r, hlookup, hexisting⟩ := existing_iff.mp (mem_removed.mp hmem).1
    exact hr r hlookup hexisting
  rw [lookup_removes, lookup_upserts hfold, proposals_eq_nil hk]
  show (catalog.lookup k).map _ = _
  simp [hkept]

/-- A scanned pair has a live row, on the plane of the scan if it had none before. -/
theorem pass_live
    (h : syncPlaneWith sees upsert now catalog plane scanned reason = .ok (catalog', d)) {k : Pair}
    (hk : k ∈ scanned.map ScannedPermission.pair) :
    ∃ r', catalog'.lookup k = some r' ∧ (r'.is_deleted = false ∧ r'.deleted_at = none) ∧
      (∀ r, catalog.lookup k = some r → r'.fixed = r.fixed) ∧
      (catalog.lookup k = none → r'.plane = plane ∧ r'.is_manual = false) := by
  rw [pass_scanned h hk]
  cases hl : proposals plane scanned k with
  | nil => exact absurd hl (proposals_ne_nil (pass_fits h) hk)
  | cons x l =>
      refine ⟨_, rfl, refreshes_live (List.cons_ne_nil x l), ?_, ?_⟩
      · intro r hr
        rw [hr, refreshes_fixed]
        rfl
      · intro hnone
        have hfixed := refreshes_fixed ((catalog.lookup k).getD x.1) (x :: l)
        rw [hnone] at hfixed ⊢
        obtain ⟨-, hplane, hmanual⟩ : _ ∧ _ = x.1.plane ∧ _ = x.1.is_manual := by
          simpa [Permission.fixed] using hfixed
        have hx := mem_proposals (hl ▸ List.mem_cons_self : x ∈ proposals plane scanned k)
        exact ⟨hplane.trans hx.1, hmanual.trans hx.2⟩

/-- A row keeps its pair, its plane and whether it is manual. -/
theorem pass_fixed
    (h : syncPlaneWith sees upsert now catalog plane scanned reason = .ok (catalog', d)) {k : Pair}
    {r : Permission} (hr : catalog.lookup k = some r) :
    ∃ r', catalog'.lookup k = some r' ∧ r'.fixed = r.fixed := by
  by_cases hk : k ∈ scanned.map ScannedPermission.pair
  · obtain ⟨r', hr', -, hfixed, -⟩ := pass_live h hk
    exact ⟨r', hr', hfixed r hr⟩
  · by_cases hexisting : r.Existing sees plane
    · exact ⟨_, pass_removed h hk hr hexisting, rfl⟩
    · refine ⟨r, ?_, rfl⟩
      rw [pass_kept h hk, hr]
      intro r' hr'
      rw [hr] at hr'
      exact Option.some.inj hr' ▸ hexisting

/-- A row that is not scanned does not count as existing afterwards. -/
theorem pass_not_existing
    (h : syncPlaneWith sees upsert now catalog plane scanned reason = .ok (catalog', d)) {k : Pair}
    (hk : k ∉ scanned.map ScannedPermission.pair) {r : Permission}
    (hr : catalog'.lookup k = some r) : ¬ r.Existing sees plane := by
  intro hexisting
  cases hold : catalog.lookup k with
  | none =>
      rw [pass_kept h hk (by simp [hold]), hold] at hr
      cases hr
  | some old =>
      by_cases hexisting' : old.Existing sees plane
      · rw [pass_removed h hk hold hexisting'] at hr
        obtain rfl := Option.some.inj hr
        cases hexisting.notDeleted
      · rw [pass_kept h hk (by simpa [hold] using hexisting'), hold] at hr
        exact hexisting' (Option.some.inj hr ▸ hexisting)

/-- A row that is not soft-deleted and not scanned was there before as it is. -/
theorem pass_before
    (h : syncPlaneWith sees upsert now catalog plane scanned reason = .ok (catalog', d)) {k : Pair}
    (hk : k ∉ scanned.map ScannedPermission.pair) {r : Permission}
    (hr : catalog'.lookup k = some r) (hlive : r.is_deleted = false) :
    catalog.lookup k = some r := by
  cases hold : catalog.lookup k with
  | none =>
      rw [pass_kept h hk (by simp [hold]), hold] at hr
      cases hr
  | some old =>
      by_cases hexisting : old.Existing sees plane
      · rw [pass_removed h hk hold hexisting] at hr
        obtain rfl := Option.some.inj hr
        cases hlive
      · rw [pass_kept h hk (by simpa [hold] using hexisting), hold] at hr
        exact hr

end Pass

/-! ## The catalog after a full sync -/

def Permission.live (r : Permission) : Prop := r.is_deleted = false ∧ r.deleted_at = none

/-- The live rows that are not manual are the scanned pairs that no manual row holds, each on the
plane it was scanned on. -/
structure Reflects (catalog : Catalog) (apiScanned uiScanned : List ScannedPermission) : Prop where
  pairs : ∀ k, (∃ r ∈ catalog.rows, r.pair = k ∧ r.live ∧ r.is_manual = false) ↔
    (k ∈ apiScanned.map ScannedPermission.pair ∨ k ∈ uiScanned.map ScannedPermission.pair) ∧
      ∀ r ∈ catalog.rows, r.pair = k → r.is_manual = false
  planes : ∀ r ∈ catalog.rows, r.live → r.is_manual = false →
    (r.pair ∈ apiScanned.map ScannedPermission.pair → r.plane = .api) ∧
      (r.pair ∈ uiScanned.map ScannedPermission.pair → r.plane = .ui)

/-- Every row of a scanned pair that is not manual is on the plane of the scan, be it live or
soft-deleted. -/
def PlanesKept (catalog : Catalog) (apiScanned uiScanned : List ScannedPermission) : Prop :=
  ∀ r ∈ catalog.rows, r.is_manual = false →
    (r.pair ∈ apiScanned.map ScannedPermission.pair → r.plane = .api) ∧
      (r.pair ∈ uiScanned.map ScannedPermission.pair → r.plane = .ui)

instance (catalog : Catalog) (apiScanned uiScanned : List ScannedPermission) :
    Decidable (PlanesKept catalog apiScanned uiScanned) :=
  inferInstanceAs (Decidable (∀ r ∈ catalog.rows, r.is_manual = false → _ ∧ _))

section Sync

variable {now : Pair → Nat} {catalog catalog₁ catalog₂ : Catalog}
  {apiScanned uiScanned : List ScannedPermission} {reason reason' : String} {d d' : PlaneDiff}

/-- A live row that is not manual is scanned on one of the planes. -/
theorem scanned_of_live
    (hapi : syncPlaneWith (fun _ => true) upsert now catalog .api apiScanned reason =
      .ok (catalog₁, d))
    (hui : syncPlaneWith (fun _ => true) upsert now catalog₁ .ui uiScanned reason' =
      .ok (catalog₂, d'))
    {k : Pair} {r : Permission} (hr : catalog₂.lookup k = some r) (hlive : r.is_deleted = false)
    (hmanual : r.is_manual = false) :
    k ∈ apiScanned.map ScannedPermission.pair ∨ k ∈ uiScanned.map ScannedPermission.pair := by
  by_contra hno
  obtain ⟨hno, hno'⟩ := not_or.mp hno
  have hbefore := pass_before hui hno' hr hlive
  cases hplane : r.plane with
  | api => exact pass_not_existing hapi hno hbefore ⟨rfl, hplane, hmanual, hlive⟩
  | ui => exact pass_not_existing hui hno' hr ⟨rfl, hplane, hmanual, hlive⟩

/-- Where a row is on the plane of its scan, a scanned pair without a manual row is live. -/
theorem live_of_scanned
    (hapi : syncPlaneWith (fun _ => true) upsert now catalog .api apiScanned reason =
      .ok (catalog₁, d))
    (hui : syncPlaneWith (fun _ => true) upsert now catalog₁ .ui uiScanned reason' =
      .ok (catalog₂, d'))
    (hdisjoint : ∀ p ∈ apiScanned, ∀ q ∈ uiScanned, p.pair ≠ q.pair)
    (hplanes : PlanesKept catalog apiScanned uiScanned) {k : Pair}
    (hk : k ∈ apiScanned.map ScannedPermission.pair ∨ k ∈ uiScanned.map ScannedPermission.pair) :
    ∃ r, catalog₂.lookup k = some r ∧ (r.is_manual = false → r.live ∧
      (k ∈ apiScanned.map ScannedPermission.pair → r.plane = .api) ∧
      (k ∈ uiScanned.map ScannedPermission.pair → r.plane = .ui)) := by
  have hnotboth : ∀ {k : Pair}, k ∈ apiScanned.map ScannedPermission.pair →
      k ∉ uiScanned.map ScannedPermission.pair := by
    intro k hmem hmem'
    obtain ⟨p, hp, hpair⟩ := List.mem_map.mp hmem
    obtain ⟨q, hq, hpair'⟩ := List.mem_map.mp hmem'
    exact hdisjoint p hp q hq (hpair.trans hpair'.symm)
  rcases hk with hk | hk
  · -- The api pass writes the row; the ui pass lets it be, since it is on the api plane.
    have hk' := hnotboth hk
    obtain ⟨r, hr, hlive, hfixed, hnew⟩ := pass_live hapi hk
    have hplane : r.is_manual = false → r.plane = .api := by
      intro hmanual
      cases hold : catalog.lookup k with
      | none => exact (hnew hold).1
      | some old =>
          obtain ⟨hmem, hpair⟩ := Table.lookup_eq_some.mp hold
          obtain ⟨-, hsame, hsame'⟩ : _ ∧ r.plane = old.plane ∧ r.is_manual = old.is_manual := by
            simpa [Permission.fixed] using hfixed old hold
          rw [hsame]
          exact (hplanes old hmem (hsame' ▸ hmanual)).1 (hpair ▸ hk)
    refine ⟨r, ?_, fun hmanual => ⟨hlive, fun _ => hplane hmanual, fun hno => absurd hno hk'⟩⟩
    rw [pass_kept hui hk', hr]
    intro r' hr' hexisting
    rw [hr] at hr'
    obtain rfl := Option.some.inj hr'
    have := hplane hexisting.notManual
    rw [hexisting.plane] at this
    cases this
  · -- The ui pass writes the row last.
    have hk' : k ∉ apiScanned.map ScannedPermission.pair := fun hmem => hnotboth hmem hk
    obtain ⟨r, hr, hlive, hfixed, hnew⟩ := pass_live hui hk
    refine ⟨r, hr, fun hmanual => ⟨hlive, fun hno => absurd hno hk', fun _ => ?_⟩⟩
    cases hold : catalog.lookup k with
    | none =>
        have hnone : catalog₁.lookup k = none := by
          rw [pass_kept hapi hk' (by simp [hold]), hold]
        exact (hnew hnone).1
    | some old =>
        obtain ⟨hmem, hpair⟩ := Table.lookup_eq_some.mp hold
        obtain ⟨r₁, hr₁, hfixed₁⟩ := pass_fixed hapi hold
        obtain ⟨-, hsame, hsame'⟩ : _ ∧ r.plane = old.plane ∧ r.is_manual = old.is_manual := by
          simpa [Permission.fixed] using (hfixed r₁ hr₁).trans hfixed₁
        rw [hsame]
        exact (hplanes old hmem (hsame' ▸ hmanual)).2 (hpair ▸ hk)

end Sync

section ScriptSync

variable {now : Nat} {catalog catalog' : Catalog} {apiScanned uiScanned : List ScannedPermission}
  {hostname : String} {log : PermissionSyncLog}

/-- The two passes of the script. -/
theorem Script.sync_passes
    (h : Script.sync now catalog apiScanned uiScanned hostname = .ok (catalog', log)) :
    ∃ catalog₁ d d' reason reason',
      syncPlaneWith (fun _ => true) upsert (fun _ => now) catalog .api apiScanned reason =
        .ok (catalog₁, d) ∧
      syncPlaneWith (fun _ => true) upsert (fun _ => now) catalog₁ .ui uiScanned reason' =
        .ok (catalog', d') := by
  obtain ⟨⟨catalog₁, d⟩, ⟨catalog₂, d'⟩, text, hapi, hui, -, heq⟩ := syncWith_eq_ok.mp h
  obtain ⟨rfl, -⟩ := Prod.mk.inj heq
  exact ⟨catalog₁, d, d', _, _, hapi, hui⟩

/-- A row is there after the sync with its plane, and the sync has to have made it live. -/
theorem planesKept_of_reflects
    (h : Script.sync now catalog apiScanned uiScanned hostname = .ok (catalog', log))
    (hreflects : Reflects catalog' apiScanned uiScanned) :
    PlanesKept catalog apiScanned uiScanned := by
  obtain ⟨catalog₁, d, d', reason, reason', hapi, hui⟩ := Script.sync_passes h
  intro r hr hmanual
  obtain ⟨r₁, hr₁, hfixed₁⟩ := pass_fixed hapi (Table.lookup_key hr)
  obtain ⟨r', hr', hfixed'⟩ := pass_fixed hui hr₁
  obtain ⟨-, hplane, hsame⟩ : _ ∧ r'.plane = r.plane ∧ r'.is_manual = r.is_manual := by
    simpa [Permission.fixed] using hfixed'.trans hfixed₁
  obtain ⟨hmem, hpair⟩ := Table.lookup_eq_some.mp hr'
  have hlive : r.pair ∈ apiScanned.map ScannedPermission.pair ∨
      r.pair ∈ uiScanned.map ScannedPermission.pair → r'.live := by
    intro hscanned
    have hmanuals : ∀ r'' ∈ catalog'.rows, r''.pair = r.pair → r''.is_manual = false := by
      intro r'' hr'' hpair''
      rw [catalog'.eq_of_key_eq hr'' hmem (hpair''.trans hpair.symm), hsame, hmanual]
    obtain ⟨r'', hr'', hpair'', hlive, -⟩ := (hreflects.pairs r.pair).mpr ⟨hscanned, hmanuals⟩
    exact catalog'.eq_of_key_eq hr'' hmem (hpair''.trans hpair.symm) ▸ hlive
  have hplanes : r'.live → _ := fun hlive => hreflects.planes r' hmem hlive (hsame.trans hmanual)
  rw [hpair, hplane] at hplanes
  exact ⟨fun hscanned => (hplanes (hlive (.inl hscanned))).1 hscanned,
    fun hscanned => (hplanes (hlive (.inr hscanned))).2 hscanned⟩

theorem reflects_of_planesKept
    (hdisjoint : ∀ p ∈ apiScanned, ∀ q ∈ uiScanned, p.pair ≠ q.pair)
    (h : Script.sync now catalog apiScanned uiScanned hostname = .ok (catalog', log))
    (hplanes : PlanesKept catalog apiScanned uiScanned) :
    Reflects catalog' apiScanned uiScanned := by
  obtain ⟨catalog₁, d, d', reason, reason', hapi, hui⟩ := Script.sync_passes h
  refine ⟨fun k => ⟨?_, ?_⟩, ?_⟩
  · rintro ⟨r, hr, rfl, hlive, hmanual⟩
    refine ⟨scanned_of_live hapi hui (Table.lookup_key hr) hlive.1 hmanual, ?_⟩
    intro r' hr' hpair
    rw [catalog'.eq_of_key_eq hr' hr hpair, hmanual]
  · rintro ⟨hscanned, hmanuals⟩
    obtain ⟨r, hr, hrest⟩ := live_of_scanned hapi hui hdisjoint hplanes hscanned
    obtain ⟨hmem, hpair⟩ := Table.lookup_eq_some.mp hr
    have hmanual := hmanuals r hmem hpair
    exact ⟨r, hmem, hpair, (hrest hmanual).1, hmanual⟩
  · intro r hr hlive hmanual
    have hscanned := scanned_of_live hapi hui (Table.lookup_key hr) hlive.1 hmanual
    obtain ⟨r', hr', hrest⟩ := live_of_scanned hapi hui hdisjoint hplanes hscanned
    rw [Table.lookup_key hr] at hr'
    obtain rfl := Option.some.inj hr'
    exact (hrest hmanual).2

/-- **When the catalog reflects the scans after a sync of the script.** -/
theorem sync_reflects_iff (hdisjoint : ∀ p ∈ apiScanned, ∀ q ∈ uiScanned, p.pair ≠ q.pair)
    (h : Script.sync now catalog apiScanned uiScanned hostname = .ok (catalog', log)) :
    Reflects catalog' apiScanned uiScanned ↔ PlanesKept catalog apiScanned uiScanned :=
  ⟨planesKept_of_reflects h, reflects_of_planesKept hdisjoint h⟩

end ScriptSync

/-- A pass of the script commits if the scanned texts fit. -/
theorem pass_of_fits (sees : Permission → Bool) (now : Pair → Nat) (catalog : Catalog)
    (plane : PermissionPlane) {scanned : List ScannedPermission} (reason : String)
    (hfits : ∀ p ∈ scanned, p.Fits) :
    ∃ result, syncPlaneWith sees upsert now catalog plane scanned reason = .ok result := by
  obtain ⟨final, hfold⟩ := upserts_of_fits catalog hfits
  exact ⟨_, syncPlaneWith_eq_ok.mpr ⟨final, hfold, rfl⟩⟩

theorem Script.sync_of_fits (now : Nat) (catalog : Catalog)
    {apiScanned uiScanned : List ScannedPermission} {hostname : String}
    (hapi : ∀ p ∈ apiScanned, p.Fits) (hui : ∀ p ∈ uiScanned, p.Fits)
    (hhost : hostname.length ≤ 100) :
    ∃ catalog' log,
      Script.sync now catalog apiScanned uiScanned hostname = .ok (catalog', log) := by
  obtain ⟨api, hapi⟩ := pass_of_fits (fun _ => true) (fun _ => now) catalog .api
    "no longer declared via @RequirePermission()" hapi
  obtain ⟨ui, hui⟩ := pass_of_fits (fun _ => true) (fun _ => now) api.1 .ui
    "no longer declared via data-permission attribute" hui
  exact ⟨_, _, syncWith_eq_ok.mpr ⟨api, ui, _, hapi, hui, varchar_fits hhost, rfl⟩⟩

/-- A soft-deleted permission is declared again, on its own plane. -/
theorem sync_reflects_revived :
    ∃ catalog' log, Script.sync 2 staleCatalog [roleRead] [] "host" =
      .ok (catalog', log) ∧ Reflects catalog' [roleRead] [] := by
  obtain ⟨catalog', log, h⟩ := Script.sync_of_fits 2 staleCatalog roleRead_fits
    (fun p (hp : p ∈ []) => absurd hp List.not_mem_nil)
    (show "host".length ≤ 100 by decide)
  refine ⟨catalog', log, h, ?_⟩
  exact (sync_reflects_iff (fun _ _ _ hq => absurd hq List.not_mem_nil) h).mpr (by decide +kernel)

/-- The permission is in the catalog on the ui plane. -/
def roleReadOnUi : Permission :=
  { staleRoleRead with plane := .ui, is_deleted := false, deleted_at := none, deleted_reason := none }

/-- The code now declares it for the api, and the sync removes it. -/
theorem moved_permission_lost :
    ∃ catalog' log, Script.sync 2 ⟨[roleReadOnUi], by decide +kernel⟩ [roleRead] [] "host" =
      .ok (catalog', log) ∧ ¬ Reflects catalog' [roleRead] [] := by
  obtain ⟨catalog', log, h⟩ := Script.sync_of_fits 2 ⟨[roleReadOnUi], by decide +kernel⟩
    roleRead_fits (fun p (hp : p ∈ []) => absurd hp List.not_mem_nil)
    (show "host".length ≤ 100 by decide)
  refine ⟨catalog', log, h, fun hreflects => ?_⟩
  exact absurd (planesKept_of_reflects h hreflects) (by decide +kernel)

/-! ## The second run -/

/-- The run commits, changes no row but for its times, and logs nothing added and nothing
removed. -/
def Quiet (catalog : Catalog) (run : Except ServiceError (Catalog × PermissionSyncLog)) : Prop :=
  ∃ catalog' log, run = .ok (catalog', log) ∧ SameCatalog catalog' catalog ∧
    log.added_count = 0 ∧ log.removed_count = 0

/-- Every row of a scanned pair is of a scan and on its plane, and no pair is scanned twice. -/
structure Settled (catalog : Catalog) (apiScanned uiScanned : List ScannedPermission) : Prop where
  api : ∀ r ∈ catalog.rows, r.pair ∈ apiScanned.map ScannedPermission.pair →
    r.plane = .api ∧ r.is_manual = false
  ui : ∀ r ∈ catalog.rows, r.pair ∈ uiScanned.map ScannedPermission.pair →
    r.plane = .ui ∧ r.is_manual = false
  disjoint : ∀ p ∈ apiScanned, ∀ q ∈ uiScanned, p.pair ≠ q.pair

theorem Settled.not_both {catalog : Catalog} {apiScanned uiScanned : List ScannedPermission}
    (h : Settled catalog apiScanned uiScanned) {k : Pair}
    (hk : k ∈ apiScanned.map ScannedPermission.pair) :
    k ∉ uiScanned.map ScannedPermission.pair := by
  intro hk'
  obtain ⟨p, hp, hpair⟩ := List.mem_map.mp hk
  obtain ⟨q, hq, hpair'⟩ := List.mem_map.mp hk'
  exact h.disjoint p hp q hq (hpair.trans hpair'.symm)

/-- The pass of the plane has nothing to do. -/
structure PlaneReady (sees : Permission → Bool) (catalog : Catalog) (plane : PermissionPlane)
    (scanned : List ScannedPermission) : Prop where
  present : ∀ k ∈ scanned.map ScannedPermission.pair,
    ∃ r, catalog.lookup k = some r ∧ r.Existing sees plane ∧ r.deleted_at = none
  existing : ∀ k r, catalog.lookup k = some r → r.Existing sees plane →
    k ∈ scanned.map ScannedPermission.pair
  unchanged : ∀ k ∈ scanned.map ScannedPermission.pair,
    written (catalog.lookup k) (proposals plane scanned k) = catalog.lookup k

section PlaneReady

variable {sees : Permission → Bool} {now : Pair → Nat} {catalog catalog' : Catalog}
  {plane : PermissionPlane} {scanned : List ScannedPermission} {reason : String} {d : PlaneDiff}

theorem PlaneReady.congr (h : PlaneReady sees catalog plane scanned)
    (hsame : ∀ k, catalog'.lookup k = catalog.lookup k) :
    PlaneReady sees catalog' plane scanned := by
  refine ⟨?_, ?_, ?_⟩
  · intro k hk
    rw [hsame]
    exact h.present k hk
  · intro k r hr
    rw [hsame] at hr
    exact h.existing k r hr
  · intro k hk
    rw [hsame]
    exact h.unchanged k hk

/-- A pass with nothing to do. -/
theorem PlaneReady.pass (hready : PlaneReady sees catalog plane scanned)
    (h : syncPlaneWith sees upsert now catalog plane scanned reason = .ok (catalog', d)) :
    (∀ k, catalog'.lookup k = catalog.lookup k) ∧ d.added = [] ∧ d.removed = [] := by
  refine ⟨?_, ?_, ?_⟩
  · intro k
    by_cases hk : k ∈ scanned.map ScannedPermission.pair
    · rw [pass_scanned h hk, hready.unchanged k hk]
    · exact pass_kept h hk fun r hr hexisting => hk (hready.existing k r hr hexisting)
  · rw [pass_diff h, List.eq_nil_iff_forall_not_mem]
    intro p hp
    obtain ⟨hscanned, hnew⟩ := mem_added.mp hp
    obtain ⟨r, hr, hexisting, -⟩ := hready.present p.pair (List.mem_map_of_mem hscanned)
    exact hnew (existing_iff.mpr ⟨r, hr, hexisting⟩)
  · rw [pass_diff h, List.eq_nil_iff_forall_not_mem]
    intro k hk
    obtain ⟨hold, hno⟩ := mem_removed.mp hk
    obtain ⟨r, hr, hexisting⟩ := existing_iff.mp hold
    exact hno (hready.existing k r hr hexisting)

/-- After a pass over rows that are on the plane and not manual, the same pass has nothing to
do. -/
theorem planeReady_of_pass (hsees : ∀ r, r.deleted_at = none → sees r = true)
    (h : syncPlaneWith sees upsert now catalog plane scanned reason = .ok (catalog', d))
    (hrows : ∀ k ∈ scanned.map ScannedPermission.pair, ∀ r, catalog.lookup k = some r →
      r.plane = plane ∧ r.is_manual = false) :
    PlaneReady sees catalog' plane scanned := by
  refine ⟨?_, ?_, ?_⟩
  · intro k hk
    obtain ⟨r, hr, ⟨hdeleted, hat⟩, hfixed, hnew⟩ := pass_live h hk
    have hplane : r.plane = plane ∧ r.is_manual = false := by
      cases hold : catalog.lookup k with
      | none => exact hnew hold
      | some old =>
          obtain ⟨-, hsame, hsame'⟩ : _ ∧ r.plane = old.plane ∧ r.is_manual = old.is_manual := by
            simpa [Permission.fixed] using hfixed old hold
          rw [hsame, hsame']
          exact hrows k hk old hold
    exact ⟨r, hr, ⟨hsees r hat, hplane.1, hplane.2, hdeleted⟩, hat⟩
  · intro k r hr hexisting
    by_contra hk
    exact pass_not_existing h hk hr hexisting
  · intro k hk
    rw [pass_scanned h hk, written_written]

/-- The pass of the other plane leaves it so. -/
theorem PlaneReady.other_pass {other : PermissionPlane} {scanned' : List ScannedPermission}
    (hready : PlaneReady sees catalog plane scanned) (hne : plane ≠ other)
    (h : syncPlaneWith sees upsert now catalog other scanned' reason = .ok (catalog', d))
    (hready' : PlaneReady sees catalog' other scanned')
    (hdisjoint : ∀ k ∈ scanned.map ScannedPermission.pair,
      k ∉ scanned'.map ScannedPermission.pair) :
    PlaneReady sees catalog' plane scanned := by
  have hkept : ∀ k ∈ scanned.map ScannedPermission.pair, catalog'.lookup k = catalog.lookup k := by
    intro k hk
    refine pass_kept h (hdisjoint k hk) fun r hr hexisting => hne ?_
    obtain ⟨r', hr', hexisting', -⟩ := hready.present k hk
    rw [hr] at hr'
    obtain rfl := Option.some.inj hr'
    exact hexisting'.plane.symm.trans hexisting.plane
  refine ⟨?_, ?_, ?_⟩
  · intro k hk
    rw [hkept k hk]
    exact hready.present k hk
  · intro k r hr hexisting
    by_cases hk : k ∈ scanned'.map ScannedPermission.pair
    · obtain ⟨r', hr', hexisting', -⟩ := hready'.present k hk
      rw [hr] at hr'
      obtain rfl := Option.some.inj hr'
      exact absurd (hexisting.plane.symm.trans hexisting'.plane) hne
    · exact hready.existing k r (pass_before h hk hr hexisting.notDeleted) hexisting
  · intro k hk
    rw [hkept k hk]
    exact hready.unchanged k hk

end PlaneReady

section SecondRun

variable {sees : Permission → Bool} {now now' : Pair → Nat} {catalog catalog₁ catalog₂ : Catalog}
  {apiScanned uiScanned : List ScannedPermission} {triggeredBy triggeredBy' : String}
  {log log' : PermissionSyncLog}

/-- A second run that adds nothing finds every scanned pair on its plane. -/
theorem settled_of_quiet
    (h : syncWith (syncPlaneWith sees upsert now) catalog apiScanned uiScanned triggeredBy =
      .ok (catalog₁, log))
    (h' : syncWith (syncPlaneWith sees upsert now') catalog₁ apiScanned uiScanned triggeredBy' =
      .ok (catalog₂, log'))
    (hadded : log'.added_count = 0) : Settled catalog apiScanned uiScanned := by
  obtain ⟨⟨c, d⟩, ⟨c₁, d₁⟩, text, hapi, hui, -, heq⟩ := syncWith_eq_ok.mp h
  obtain ⟨rfl, -⟩ := Prod.mk.inj heq
  obtain ⟨⟨c', d'⟩, ⟨c₂, d₂⟩, text', hapi', hui', -, heq'⟩ := syncWith_eq_ok.mp h'
  obtain ⟨rfl, rfl⟩ := Prod.mk.inj heq'
  have hnil : d'.added ++ d₂.added = [] := List.length_eq_zero_iff.mp hadded
  obtain ⟨hapiNil, huiNil⟩ := List.append_eq_nil_iff.mp hnil
  -- A scanned pair that is not added has an existing row.
  have hapiRow : ∀ k ∈ apiScanned.map ScannedPermission.pair,
      ∃ r, catalog₁.lookup k = some r ∧ r.Existing sees .api := by
    intro k hk
    by_contra hno
    obtain ⟨p, hp, rfl⟩ := List.mem_map.mp hk
    have hmem : p ∈ d'.added := by
      rw [pass_diff hapi']
      exact mem_added.mpr ⟨hp, fun hold => hno (existing_iff.mp hold)⟩
    rw [hapiNil] at hmem
    cases hmem
  have huiRow : ∀ k ∈ uiScanned.map ScannedPermission.pair,
      ∃ r, c'.lookup k = some r ∧ r.Existing sees .ui := by
    intro k hk
    by_contra hno
    obtain ⟨p, hp, rfl⟩ := List.mem_map.mp hk
    have hmem : p ∈ d₂.added := by
      rw [pass_diff hui']
      exact mem_added.mpr ⟨hp, fun hold => hno (existing_iff.mp hold)⟩
    rw [huiNil] at hmem
    cases hmem
  have hfirst : ∀ r ∈ catalog.rows, ∃ r', catalog₁.lookup r.pair = some r' ∧ r'.fixed = r.fixed := by
    intro r hr
    obtain ⟨r₁, hr₁, hfixed₁⟩ := pass_fixed hapi (Table.lookup_key hr)
    obtain ⟨r', hr', hfixed'⟩ := pass_fixed hui hr₁
    exact ⟨r', hr', hfixed'.trans hfixed₁⟩
  refine ⟨?_, ?_, ?_⟩
  · intro r hr hscanned
    obtain ⟨r', hr', hexisting⟩ := hapiRow r.pair hscanned
    obtain ⟨r'', hr'', hfixed⟩ := hfirst r hr
    rw [hr'] at hr''
    obtain rfl := Option.some.inj hr''
    obtain ⟨-, hplane, hmanual⟩ : _ ∧ r'.plane = r.plane ∧ r'.is_manual = r.is_manual := by
      simpa [Permission.fixed] using hfixed
    exact ⟨hplane ▸ hexisting.plane, hmanual ▸ hexisting.notManual⟩
  · intro r hr hscanned
    obtain ⟨r', hr', hexisting⟩ := huiRow r.pair hscanned
    obtain ⟨r₁, hr₁, hfixed₁⟩ := hfirst r hr
    obtain ⟨r'', hr'', hfixed⟩ := pass_fixed hapi' hr₁
    rw [hr'] at hr''
    obtain rfl := Option.some.inj hr''
    obtain ⟨-, hplane, hmanual⟩ : _ ∧ r'.plane = r.plane ∧ r'.is_manual = r.is_manual := by
      simpa [Permission.fixed] using hfixed.trans hfixed₁
    exact ⟨hplane ▸ hexisting.plane, hmanual ▸ hexisting.notManual⟩
  · -- One row cannot be on both planes.
    intro p hp q hq hpair
    obtain ⟨r₁, hr₁, hexisting₁⟩ := hapiRow p.pair (List.mem_map_of_mem hp)
    obtain ⟨r₂, hr₂, hexisting₂⟩ := huiRow q.pair (List.mem_map_of_mem hq)
    obtain ⟨r', hr', hfixed⟩ := pass_fixed hapi' hr₁
    rw [hpair, hr₂] at hr'
    obtain rfl := Option.some.inj hr'
    have hplane : r₂.plane = r₁.plane := congrArg (fun x => x.2.1) hfixed
    rw [hexisting₁.plane, hexisting₂.plane] at hplane
    cases hplane

/-- After the first run both passes have nothing to do. -/
theorem ready_of_settled (hsees : ∀ r, r.deleted_at = none → sees r = true)
    (h : syncWith (syncPlaneWith sees upsert now) catalog apiScanned uiScanned triggeredBy =
      .ok (catalog₁, log))
    (hsettled : Settled catalog apiScanned uiScanned) :
    PlaneReady sees catalog₁ .api apiScanned ∧ PlaneReady sees catalog₁ .ui uiScanned ∧
      (∀ p ∈ apiScanned, p.Fits) ∧ ∀ p ∈ uiScanned, p.Fits := by
  obtain ⟨⟨c, d⟩, ⟨c₁, d₁⟩, text, hapi, hui, -, heq⟩ := syncWith_eq_ok.mp h
  obtain ⟨rfl, -⟩ := Prod.mk.inj heq
  have hapiReady : PlaneReady sees c .api apiScanned := by
    apply planeReady_of_pass hsees hapi
    intro k hk r hr
    obtain ⟨hmem, rfl⟩ := Table.lookup_eq_some.mp hr
    exact hsettled.api r hmem hk
  have huiReady : PlaneReady sees catalog₁ .ui uiScanned := by
    apply planeReady_of_pass hsees hui
    intro k hk r hr
    have hk' : k ∉ apiScanned.map ScannedPermission.pair := fun hmem => hsettled.not_both hmem hk
    cases hold : catalog.lookup k with
    | none =>
        rw [pass_kept hapi hk' (by simp [hold]), hold] at hr
        cases hr
    | some old =>
        obtain ⟨hmem, rfl⟩ := Table.lookup_eq_some.mp hold
        obtain ⟨r', hr', hfixed⟩ := pass_fixed hapi hold
        rw [hr] at hr'
        obtain rfl := Option.some.inj hr'
        obtain ⟨-, hplane, hmanual⟩ : _ ∧ r.plane = old.plane ∧ r.is_manual = old.is_manual := by
          simpa [Permission.fixed] using hfixed
        rw [hplane, hmanual]
        exact hsettled.ui old hmem hk
  exact ⟨hapiReady.other_pass (by decide) hui huiReady fun k hk => hsettled.not_both hk, huiReady,
    pass_fits hapi, pass_fits hui⟩

theorem syncLog_quiet {d d' : PlaneDiff} (text : Varchar 100) (h : d.added = [] ∧ d.removed = [])
    (h' : d'.added = [] ∧ d'.removed = []) :
    (syncLog d d' text).added_count = 0 ∧ (syncLog d d' text).removed_count = 0 := by
  simp [syncLog, h.1, h.2, h'.1, h'.2]

end SecondRun

/-! ## The passes of the service -/

/-- Where the service commits, it does what upserts do. -/
theorem Service.pass_of_syncPlane {now : Pair → Nat} {catalog : Catalog} {plane : PermissionPlane}
    {scanned : List ScannedPermission} {reason : String} {result : Catalog × PlaneDiff}
    (h : Service.syncPlane now catalog plane scanned reason = .ok result) :
    syncPlaneWith Permission.found upsert now catalog plane scanned reason = .ok result := by
  obtain ⟨final, hfold, heq⟩ := syncPlaneWith_eq_ok.mp h
  exact syncPlaneWith_eq_ok.mpr ⟨final, (upserts_of_saves hfold).1, heq⟩

/-- It commits on rows that are ready. -/
theorem Service.syncPlane_of_ready {now : Pair → Nat} {catalog : Catalog} {plane : PermissionPlane}
    {scanned : List ScannedPermission} {reason : String}
    (hready : PlaneReady Permission.found catalog plane scanned) (hfits : ∀ p ∈ scanned, p.Fits) :
    ∃ result, Service.syncPlane now catalog plane scanned reason = .ok result := by
  have hvisible : ∀ p ∈ scanned, ¬ Hidden catalog p.pair := by
    rintro p hp ⟨r, hr, hfound⟩
    obtain ⟨r', hr', hexisting, -⟩ := hready.present p.pair (List.mem_map_of_mem hp)
    rw [hr] at hr'
    obtain rfl := Option.some.inj hr'
    rw [hexisting.seen] at hfound
    cases hfound
  obtain ⟨final, hfold⟩ := saves_of_fits hfits hvisible
  exact ⟨_, syncPlaneWith_eq_ok.mpr ⟨final, hfold, rfl⟩⟩

theorem Service.pass_of_runSync {now : Pair → Nat} {catalog : Catalog}
    {apiScanned uiScanned : List ScannedPermission} {triggeredBy : String}
    {result : Catalog × PermissionSyncLog}
    (h : Service.runSync now catalog apiScanned uiScanned triggeredBy = .ok result) :
    syncWith (syncPlaneWith Permission.found upsert now) catalog apiScanned uiScanned triggeredBy =
      .ok result := by
  obtain ⟨api, ui, text, hapi, hui, htext, heq⟩ := syncWith_eq_ok.mp h
  exact syncWith_eq_ok.mpr ⟨api, ui, text, Service.pass_of_syncPlane hapi,
    Service.pass_of_syncPlane hui, htext, heq⟩

/-! ## Both implementations -/

/-- A run over rows that are ready, for an implementation whose passes commit there and do what
upserts do. -/
theorem quiet_of_ready {syncPlane : Catalog → PermissionPlane → List ScannedPermission → String →
      Except ServiceError (Catalog × PlaneDiff)}
    {sees : Permission → Bool} {now : Pair → Nat}
    (hcommits : ∀ catalog plane scanned reason, PlaneReady sees catalog plane scanned →
      (∀ p ∈ scanned, p.Fits) → ∃ result, syncPlane catalog plane scanned reason = .ok result)
    (hpass : ∀ catalog plane scanned reason result,
      syncPlane catalog plane scanned reason = .ok result →
      syncPlaneWith sees upsert now catalog plane scanned reason = .ok result)
    {catalog : Catalog} {apiScanned uiScanned : List ScannedPermission} {triggeredBy : String}
    (hready : PlaneReady sees catalog .api apiScanned ∧ PlaneReady sees catalog .ui uiScanned ∧
      (∀ p ∈ apiScanned, p.Fits) ∧ ∀ p ∈ uiScanned, p.Fits)
    (hname : triggeredBy.length ≤ 100) :
    Quiet catalog (syncWith syncPlane catalog apiScanned uiScanned triggeredBy) := by
  obtain ⟨hapiReady, huiReady, hapiFits, huiFits⟩ := hready
  obtain ⟨api, hapi⟩ := hcommits catalog .api apiScanned
    "no longer declared via @RequirePermission()" hapiReady hapiFits
  obtain ⟨hsame, hapiQuiet⟩ := hapiReady.pass (hpass _ _ _ _ _ hapi)
  have huiReady' : PlaneReady sees api.1 .ui uiScanned := huiReady.congr hsame
  obtain ⟨ui, hui⟩ := hcommits api.1 .ui uiScanned
    "no longer declared via data-permission attribute" huiReady' huiFits
  obtain ⟨hsame', huiQuiet⟩ := huiReady'.pass (hpass _ _ _ _ _ hui)
  refine ⟨ui.1, _, syncWith_eq_ok.mpr ⟨api, ui, _, hapi, hui, varchar_fits hname, rfl⟩, ?_,
    syncLog_quiet _ hapiQuiet huiQuiet⟩
  intro k
  rw [hsame' k, hsame k]

/-- **When a second run with the same scans has nothing to do**, in the script and in the
service. -/
theorem second_sync_quiet_iff (catalog : Catalog) (apiScanned uiScanned : List ScannedPermission) :
    (∀ now now' hostname hostname' catalog' log, hostname'.length ≤ 100 →
      Script.sync now catalog apiScanned uiScanned hostname = .ok (catalog', log) →
      (Quiet catalog' (Script.sync now' catalog' apiScanned uiScanned hostname') ↔
        Settled catalog apiScanned uiScanned)) ∧
    (∀ now now' triggeredBy triggeredBy' catalog' log, triggeredBy'.length ≤ 100 →
      Service.runSync now catalog apiScanned uiScanned triggeredBy = .ok (catalog', log) →
      (Quiet catalog' (Service.runSync now' catalog' apiScanned uiScanned triggeredBy') ↔
        Settled catalog apiScanned uiScanned)) := by
  refine ⟨?_, ?_⟩
  · intro now now' hostname hostname' catalog' log hname h
    constructor
    · rintro ⟨catalog₂, log', h', -, hadded, -⟩
      exact settled_of_quiet h h' hadded
    · intro hsettled
      refine quiet_of_ready ?_ (fun _ _ _ _ _ h => h) (ready_of_settled (fun _ _ => rfl) h hsettled)
        hname
      intro catalog plane scanned reason _ hfits
      exact pass_of_fits (fun _ => true) (fun _ => now') catalog plane reason hfits
  · intro now now' triggeredBy triggeredBy' catalog' log hname h
    have hfound : ∀ r : Permission, r.deleted_at = none → r.found = true := by
      intro r hr
      rw [Permission.found, hr]
      rfl
    constructor
    · rintro ⟨catalog₂, log', h', -, hadded, -⟩
      exact settled_of_quiet (Service.pass_of_runSync h) (Service.pass_of_runSync h') hadded
    · intro hsettled
      refine quiet_of_ready ?_ (fun _ _ _ _ _ => Service.pass_of_syncPlane)
        (ready_of_settled hfound (Service.pass_of_runSync h) hsettled) hname
      intro catalog plane scanned reason hready hfits
      exact Service.syncPlane_of_ready hready hfits

/-- A fresh installation. -/
theorem second_sync_quiet_fresh :
    (∃ catalog' log, Script.sync 2 ⟨[], by decide⟩ [roleRead] [] "host" = .ok (catalog', log) ∧
      Quiet catalog' (Script.sync 3 catalog' [roleRead] [] "host")) ∧
    (∃ catalog' log, Service.runSync (fun _ => 2) ⟨[], by decide⟩ [roleRead] [] "admin" =
        .ok (catalog', log) ∧
      Quiet catalog' (Service.runSync (fun _ => 3) catalog' [roleRead] [] "admin")) := by
  have hsettled : Settled ⟨[], by decide⟩ [roleRead] [] :=
    ⟨fun r (hr : r ∈ []) => absurd hr List.not_mem_nil,
      fun r (hr : r ∈ []) => absurd hr List.not_mem_nil,
      fun _ _ q (hq : q ∈ []) => absurd hq List.not_mem_nil⟩
  refine ⟨?_, ?_⟩
  · obtain ⟨catalog', log, h⟩ := Script.sync_of_fits 2 ⟨[], by decide⟩ roleRead_fits
      (fun p (hp : p ∈ []) => absurd hp List.not_mem_nil) (show "host".length ≤ 100 by decide)
    exact ⟨catalog', log, h, ((second_sync_quiet_iff _ _ _).1 2 3 "host" "host" catalog' log
      (by decide) h).mpr hsettled⟩
  · have hrun : ∃ catalog' log, Service.runSync (fun _ => 2) ⟨[], by decide⟩ [roleRead] [] "admin" =
        .ok (catalog', log) := by
      have hvisible : ∀ p ∈ [roleRead], ¬ Hidden ⟨[], by decide⟩ p.pair := by
        rintro p - ⟨r, hr, -⟩
        cases hr
      have hsaves : ∃ final, [roleRead].foldlM (save .api) ⟨[], by decide⟩ = .ok final :=
        saves_of_fits roleRead_fits hvisible
      obtain ⟨final, hfold⟩ := hsaves
      exact ⟨_, _, syncWith_eq_ok.mpr ⟨_, _, ⟨"admin", by decide⟩,
        syncPlaneWith_eq_ok.mpr ⟨final, hfold, rfl⟩, syncPlaneWith_eq_ok.mpr ⟨_, rfl, rfl⟩, rfl,
        rfl⟩⟩
    obtain ⟨catalog', log, h⟩ := hrun
    exact ⟨catalog', log, h, ((second_sync_quiet_iff _ _ _).2 (fun _ => 2) (fun _ => 3) "admin"
      "admin" catalog' log (by decide) h).mpr hsettled⟩

def viewReports : ScannedPermission :=
  ⟨"iam", ⟨"page:view_reports", by decide +kernel⟩, "page_reports", "view_reports", none, .ui⟩

/-- A page that an admin added by hand before the code declared it. -/
def manualReports : Permission :=
  { roleReadOnUi with
    permission := ⟨viewReports.permission, by decide⟩
    resource := ⟨"page", by decide⟩
    action := ⟨"view_reports", by decide⟩
    permission_name_th := ⟨"View reports page", by decide⟩
    permission_name_en := ⟨"View reports page", by decide⟩
    is_manual := true }

/-- Every run reports it as added. -/
theorem manual_permission_added :
    ∃ catalog' log, Script.sync 2 ⟨[manualReports], by decide⟩ [] [viewReports] "host" =
        .ok (catalog', log) ∧
      ¬ Quiet catalog' (Script.sync 3 catalog' [] [viewReports] "host") := by
  have hfits : ∀ p ∈ [viewReports], p.Fits := by
    intro p hp
    rw [List.mem_singleton.mp hp]
    exact ⟨by decide, by decide, by decide, by decide, by simp [viewReports]⟩
  obtain ⟨catalog', log, h⟩ := Script.sync_of_fits 2 ⟨[manualReports], by decide⟩
    (fun p (hp : p ∈ []) => absurd hp List.not_mem_nil) hfits (show "host".length ≤ 100 by decide)
  refine ⟨catalog', log, h, ?_⟩
  rintro ⟨catalog₂, log', h', -, hadded, -⟩
  have hsettled := settled_of_quiet h h' hadded
  have hmanual : manualReports.is_manual = false :=
    (hsettled.ui manualReports (List.mem_singleton_self _) (by decide +kernel)).2
  cases hmanual

end ErpApi.PermissionSync
