import ErpApi.Iam.PermissionSyncRun

set_option autoImplicit false

/-! # Manual permissions in a full sync

A row with `is_manual = true` was added by an admin. The diff leaves such rows out, so none is
removed, but the write of a scanned permission addresses the row of its pair whether it is manual or
not: it writes the resource and the action, the names if the scan has them, brings the row back if it
is soft-deleted, and sets `updated_at` (`scanned_manual_permission_rewritten`). A manual row keeps
all its columns exactly when its pair is not scanned, or when the sync does not commit
(`manual_rows_kept_iff`).

Here the catalog has its column `updated_at`. A statement of one transaction sets it to the time at
which the transaction started; the script's removal, which is a plain `UPDATE`, does not set it.
-/

namespace ErpApi.PermissionSync

/-! ## The column `updated_at` -/

structure Dated where
  catalog : Catalog
  updated_at : Pair → Nat

/-- The column after one plane: `stamps` says whether the removal of a row sets it. -/
def stampPlane (stamps : Bool) (time : Nat) (scanned : List ScannedPermission) (d : PlaneDiff)
    (updated_at : Pair → Nat) : Pair → Nat := fun k =>
  if k ∈ scanned.map ScannedPermission.pair then time
  else if stamps = true ∧ k ∈ d.removed then time
  else updated_at k

/-- The full sync with the column. -/
def syncDatedWith (syncPlane : Catalog → PermissionPlane → List ScannedPermission → String →
      Except ServiceError (Catalog × PlaneDiff))
    (stamps : Bool) (time : Nat) (s : Dated) (apiScanned uiScanned : List ScannedPermission)
    (triggeredBy : String) : Except ServiceError (Dated × PermissionSyncLog) := do
  let api ← syncPlane s.catalog .api apiScanned "no longer declared via @RequirePermission()"
  let ui ← syncPlane api.1 .ui uiScanned "no longer declared via data-permission attribute"
  let triggeredBy ← varchar 100 triggeredBy
  let updated_at :=
    stampPlane stamps time uiScanned ui.2 (stampPlane stamps time apiScanned api.2 s.updated_at)
  return (⟨ui.1, updated_at⟩, syncLog api.2 ui.2 triggeredBy)

def Script.syncDated (now : Nat) (s : Dated) (apiScanned uiScanned : List ScannedPermission)
    (hostname : String) : Except ServiceError (Dated × PermissionSyncLog) :=
  syncDatedWith (Script.syncPlane now) false now s apiScanned uiScanned hostname

/-- `time` is the time of the transaction, `now` the times of its removals. -/
def Service.runSyncDated (time : Nat) (now : Pair → Nat) (s : Dated)
    (apiScanned uiScanned : List ScannedPermission) (triggeredBy : String) :
    Except ServiceError (Dated × PermissionSyncLog) :=
  syncDatedWith (Service.syncPlane now) true time s apiScanned uiScanned triggeredBy

section Dated

variable {syncPlane : Catalog → PermissionPlane → List ScannedPermission → String →
    Except ServiceError (Catalog × PlaneDiff)}
  {stamps : Bool} {time : Nat} {s s' : Dated} {apiScanned uiScanned : List ScannedPermission}
  {triggeredBy : String} {log : PermissionSyncLog}

theorem syncDatedWith_eq_ok :
    syncDatedWith syncPlane stamps time s apiScanned uiScanned triggeredBy = .ok (s', log) ↔
      ∃ api ui text,
        syncPlane s.catalog .api apiScanned "no longer declared via @RequirePermission()" =
          .ok api ∧
        syncPlane api.1 .ui uiScanned "no longer declared via data-permission attribute" = .ok ui ∧
        varchar 100 triggeredBy = .ok text ∧ s' = ⟨ui.1, stampPlane stamps time uiScanned ui.2
          (stampPlane stamps time apiScanned api.2 s.updated_at)⟩ ∧
        log = syncLog api.2 ui.2 text := by
  constructor
  · intro h
    obtain ⟨api, hapi, h⟩ := bind_eq_ok.mp h
    obtain ⟨ui, hui, h⟩ := bind_eq_ok.mp h
    obtain ⟨text, htext, h⟩ := bind_eq_ok.mp h
    obtain ⟨hs, hlog⟩ := Prod.mk.inj (Except.ok.inj h)
    exact ⟨api, ui, text, hapi, hui, htext, hs.symm, hlog.symm⟩
  · rintro ⟨api, ui, text, hapi, hui, htext, rfl, rfl⟩
    exact bind_eq_ok.mpr ⟨api, hapi, bind_eq_ok.mpr ⟨ui, hui, bind_eq_ok.mpr ⟨text, htext, rfl⟩⟩⟩

/-- Without the column it is the full sync. -/
theorem syncDatedWith_catalog :
    (syncDatedWith syncPlane stamps time s apiScanned uiScanned triggeredBy).map
        (fun result => (result.1.catalog, result.2)) =
      syncWith syncPlane s.catalog apiScanned uiScanned triggeredBy := by
  unfold syncDatedWith syncWith
  cases syncPlane s.catalog .api apiScanned "no longer declared via @RequirePermission()" with
  | error e => rfl
  | ok api =>
      cases hui : syncPlane api.1 .ui uiScanned
          "no longer declared via data-permission attribute" with
      | error e => simp [bind, Except.bind, Except.map, hui]
      | ok ui =>
          cases varchar 100 triggeredBy with
          | error e => simp [bind, Except.bind, Except.map, hui]
          | ok text => simp [bind, Except.bind, Except.map, pure, Except.pure, hui]

end Dated

/-! ## When a sync commits -/

/-- The script commits: every text fits its column. -/
structure Script.Commits (apiScanned uiScanned : List ScannedPermission) (hostname : String) :
    Prop where
  api : ∀ p ∈ apiScanned, p.Fits
  ui : ∀ p ∈ uiScanned, p.Fits
  hostname : hostname.length ≤ 100

/-- The service commits: in addition, no row of a scanned pair has its `deleted_at` set when the
plane is synced. For the ui plane that includes the rows that the api plane removes. -/
structure Service.Commits (catalog : Catalog) (apiScanned uiScanned : List ScannedPermission)
    (triggeredBy : String) : Prop extends Script.Commits apiScanned uiScanned triggeredBy where
  apiVisible : ∀ p ∈ apiScanned, ¬ Hidden catalog p.pair
  uiVisible : ∀ p ∈ uiScanned, p.pair ∉ apiScanned.map ScannedPermission.pair →
    ¬ Hidden catalog p.pair ∧
      ∀ r, catalog.lookup p.pair = some r → ¬ r.Existing Permission.found .api

/-- What is hidden after a pass. -/
theorem hidden_pass {catalog catalog' : Catalog} {plane : PermissionPlane} {now : Pair → Nat}
    {scanned : List ScannedPermission} {reason : String} {d : PlaneDiff}
    (h : syncPlaneWith Permission.found upsert now catalog plane scanned reason =
      .ok (catalog', d)) (k : Pair) :
    Hidden catalog' k ↔ k ∉ scanned.map ScannedPermission.pair ∧
      (Hidden catalog k ∨ ∃ r, catalog.lookup k = some r ∧ r.Existing Permission.found plane) := by
  by_cases hk : k ∈ scanned.map ScannedPermission.pair
  · refine iff_of_false ?_ fun hhidden => hhidden.1 hk
    rintro ⟨r, hr, hfound⟩
    obtain ⟨r', hr', ⟨-, hat⟩, -⟩ := pass_live h hk
    rw [hr] at hr'
    rw [Permission.found, Option.some.inj hr', hat] at hfound
    cases hfound
  · rw [and_iff_right hk]
    by_cases hexisting : ∃ r, catalog.lookup k = some r ∧ r.Existing Permission.found plane
    · obtain ⟨r, hr, hr'⟩ := hexisting
      exact iff_of_true ⟨_, pass_removed h hk hr hr', rfl⟩ (Or.inr ⟨r, hr, hr'⟩)
    · rw [or_iff_left hexisting, Hidden, Hidden,
        pass_kept h hk fun r hr hr' => hexisting ⟨r, hr, hr'⟩]

theorem Script.syncDated_commits (now : Nat) (s : Dated)
    (apiScanned uiScanned : List ScannedPermission) (hostname : String) :
    (∃ result, Script.syncDated now s apiScanned uiScanned hostname = .ok result) ↔
      Script.Commits apiScanned uiScanned hostname := by
  constructor
  · rintro ⟨⟨s', log⟩, h⟩
    obtain ⟨api, ui, text, hapi, hui, htext, -⟩ := syncDatedWith_eq_ok.mp h
    exact ⟨pass_fits hapi, pass_fits hui, varchar_length htext⟩
  · rintro ⟨hapi, hui, hname⟩
    obtain ⟨api, hapi⟩ := pass_of_fits (fun _ => true) (fun _ => now) s.catalog .api
      "no longer declared via @RequirePermission()" hapi
    obtain ⟨ui, hui⟩ := pass_of_fits (fun _ => true) (fun _ => now) api.1 .ui
      "no longer declared via data-permission attribute" hui
    exact ⟨_, syncDatedWith_eq_ok.mpr ⟨api, ui, _, hapi, hui, varchar_fits hname, rfl, rfl⟩⟩

/-- The service gets through a plane. -/
theorem Service.syncPlane_commits (now : Pair → Nat) (catalog : Catalog) (plane : PermissionPlane)
    (scanned : List ScannedPermission) (reason : String) :
    (∃ result, Service.syncPlane now catalog plane scanned reason = .ok result) ↔
      (∀ p ∈ scanned, p.Fits) ∧ ∀ p ∈ scanned, ¬ Hidden catalog p.pair := by
  constructor
  · rintro ⟨result, h⟩
    obtain ⟨final, hfold, -⟩ := syncPlaneWith_eq_ok.mp h
    obtain ⟨hupserts, hvisible⟩ := upserts_of_saves hfold
    exact ⟨fits_of_upserts hupserts, hvisible⟩
  · rintro ⟨hfits, hvisible⟩
    obtain ⟨final, hfold⟩ := saves_of_fits hfits hvisible
    exact ⟨_, syncPlaneWith_eq_ok.mpr ⟨final, hfold, rfl⟩⟩

theorem Service.runSyncDated_commits (time : Nat) (now : Pair → Nat) (s : Dated)
    (apiScanned uiScanned : List ScannedPermission) (triggeredBy : String) :
    (∃ result, Service.runSyncDated time now s apiScanned uiScanned triggeredBy = .ok result) ↔
      Service.Commits s.catalog apiScanned uiScanned triggeredBy := by
  -- What the ui plane asks for, in terms of the catalog before the api plane.
  have hui : ∀ {api}, Service.syncPlane now s.catalog .api apiScanned
      "no longer declared via @RequirePermission()" = .ok api →
      ((∀ p ∈ uiScanned, ¬ Hidden api.1 p.pair) ↔
        ∀ p ∈ uiScanned, p.pair ∉ apiScanned.map ScannedPermission.pair →
          ¬ Hidden s.catalog p.pair ∧
            ∀ r, s.catalog.lookup p.pair = some r → ¬ r.Existing Permission.found .api) := by
    intro api hapi
    refine forall₂_congr fun p _ => ?_
    rw [hidden_pass (Service.pass_of_syncPlane hapi) p.pair]
    simp only [not_and, not_or, not_exists]
  constructor
  · rintro ⟨⟨s', log⟩, h⟩
    obtain ⟨api, ui, text, hapi, hrun, htext, -⟩ := syncDatedWith_eq_ok.mp h
    obtain ⟨hapiFits, hapiVisible⟩ := (Service.syncPlane_commits _ _ _ _ _).mp ⟨api, hapi⟩
    obtain ⟨huiFits, huiVisible⟩ := (Service.syncPlane_commits _ _ _ _ _).mp ⟨ui, hrun⟩
    exact ⟨⟨hapiFits, huiFits, varchar_length htext⟩, hapiVisible, (hui hapi).mp huiVisible⟩
  · rintro ⟨⟨hapiFits, huiFits, hname⟩, hapiVisible, huiVisible⟩
    obtain ⟨api, hapi⟩ := (Service.syncPlane_commits now s.catalog .api apiScanned
      "no longer declared via @RequirePermission()").mpr ⟨hapiFits, hapiVisible⟩
    obtain ⟨ui, hrun⟩ := (Service.syncPlane_commits now api.1 .ui uiScanned
      "no longer declared via data-permission attribute").mpr ⟨huiFits, (hui hapi).mpr huiVisible⟩
    exact ⟨_, syncDatedWith_eq_ok.mpr ⟨api, ui, _, hapi, hrun, varchar_fits hname, rfl, rfl⟩⟩

/-! ## Manual rows -/

/-- The sync changes no column of a manual row; one that throws is rolled back. -/
def KeepsManual (s : Dated) : Except ServiceError (Dated × PermissionSyncLog) → Prop
  | .error _ => True
  | .ok (s', _) => ∀ k r, s.catalog.lookup k = some r → r.is_manual = true →
      s'.catalog.lookup k = some r ∧ s'.updated_at k = s.updated_at k

/-- No scan has the pair of a manual row. -/
def ManualUnscanned (catalog : Catalog) (apiScanned uiScanned : List ScannedPermission) : Prop :=
  ∀ r ∈ catalog.rows, r.is_manual = true → r.pair ∉ apiScanned.map ScannedPermission.pair ∧
    r.pair ∉ uiScanned.map ScannedPermission.pair

/-- A pass leaves a manual row alone that is not scanned, and its time too. -/
theorem pass_manual {sees : Permission → Bool} {now : Pair → Nat} {catalog catalog' : Catalog}
    {plane : PermissionPlane} {scanned : List ScannedPermission} {reason : String} {d : PlaneDiff}
    (h : syncPlaneWith sees upsert now catalog plane scanned reason = .ok (catalog', d))
    {k : Pair} {r : Permission} (hr : catalog.lookup k = some r) (hmanual : r.is_manual = true)
    (hk : k ∉ scanned.map ScannedPermission.pair) (stamps : Bool) (time : Nat)
    (updated_at : Pair → Nat) : catalog'.lookup k = some r ∧
      stampPlane stamps time scanned d updated_at k = updated_at k := by
  have hnot : ∀ r', catalog.lookup k = some r' → ¬ r'.Existing sees plane := by
    intro r' hr' hexisting
    rw [hr] at hr'
    have hfalse := hexisting.notManual
    rw [← Option.some.inj hr', hmanual] at hfalse
    cases hfalse
  have hkept : k ∉ d.removed := by
    rw [pass_diff h]
    intro hmem
    obtain ⟨r', hr', hexisting⟩ := existing_iff.mp (mem_removed.mp hmem).1
    exact hnot r' hr' hexisting
  refine ⟨(pass_kept h hk hnot).trans hr, ?_⟩
  rw [stampPlane, if_neg hk, if_neg fun hstamped => hkept hstamped.2]

/-- **A sync that commits** keeps the manual rows exactly when none of them is scanned. -/
theorem kept_iff {sees : Permission → Bool} {now : Pair → Nat} {stamps : Bool} {time : Nat}
    {s : Dated} {apiScanned uiScanned : List ScannedPermission} {reason reason' : String}
    {api ui : Catalog × PlaneDiff} {log : PermissionSyncLog}
    (hclock : ∀ k, s.updated_at k < time)
    (hapi : syncPlaneWith sees upsert now s.catalog .api apiScanned reason = .ok api)
    (hui : syncPlaneWith sees upsert now api.1 .ui uiScanned reason' = .ok ui) :
    KeepsManual s (.ok (⟨ui.1, stampPlane stamps time uiScanned ui.2
        (stampPlane stamps time apiScanned api.2 s.updated_at)⟩, log)) ↔
      ManualUnscanned s.catalog apiScanned uiScanned := by
  constructor
  · intro h r hr hmanual
    have htime : stampPlane stamps time uiScanned ui.2
        (stampPlane stamps time apiScanned api.2 s.updated_at) r.pair = s.updated_at r.pair :=
      (h r.pair r (Table.lookup_key hr) hmanual).2
    have hlater := hclock r.pair
    refine ⟨fun hk => ?_, fun hk => ?_⟩
    · -- The api plane sets the time, and the ui plane sets it again or leaves it.
      rw [stampPlane, stampPlane, if_pos hk] at htime
      split at htime
      · omega
      · split at htime
        · omega
        · omega
    · rw [stampPlane, if_pos hk] at htime
      omega
  · intro h k r hr hmanual
    obtain ⟨hmem, rfl⟩ := Table.lookup_eq_some.mp hr
    obtain ⟨hkapi, hkui⟩ := h r hmem hmanual
    obtain ⟨hr₁, htime₁⟩ := pass_manual hapi hr hmanual hkapi stamps time s.updated_at
    obtain ⟨hr₂, htime₂⟩ := pass_manual hui hr₁ hmanual hkui stamps time
      (stampPlane stamps time apiScanned api.2 s.updated_at)
    exact ⟨hr₂, htime₂.trans htime₁⟩

/-- **When a full sync keeps the manual rows**, in the script and in the service. -/
theorem manual_rows_kept_iff (s : Dated) (apiScanned uiScanned : List ScannedPermission)
    (time : Nat) (hclock : ∀ k, s.updated_at k < time) :
    (∀ hostname, KeepsManual s (Script.syncDated time s apiScanned uiScanned hostname) ↔
      (Script.Commits apiScanned uiScanned hostname →
        ManualUnscanned s.catalog apiScanned uiScanned)) ∧
    (∀ now triggeredBy,
      KeepsManual s (Service.runSyncDated time now s apiScanned uiScanned triggeredBy) ↔
        (Service.Commits s.catalog apiScanned uiScanned triggeredBy →
          ManualUnscanned s.catalog apiScanned uiScanned)) := by
  refine ⟨fun hostname => ?_, fun now triggeredBy => ?_⟩
  · rw [← Script.syncDated_commits time s]
    cases h : Script.syncDated time s apiScanned uiScanned hostname with
    | error e => exact iff_of_true trivial fun ⟨_, hok⟩ => by cases hok
    | ok result =>
        obtain ⟨api, ui, text, hapi, hui, -, hs', -⟩ := syncDatedWith_eq_ok.mp h
        obtain ⟨s', log⟩ := result
        obtain rfl : s' = _ := hs'
        rw [kept_iff hclock hapi hui]
        exact ⟨fun hmanual _ => hmanual, fun hmanual => hmanual ⟨_, rfl⟩⟩
  · rw [← Service.runSyncDated_commits time now s]
    cases h : Service.runSyncDated time now s apiScanned uiScanned triggeredBy with
    | error e => exact iff_of_true trivial fun ⟨_, hok⟩ => by cases hok
    | ok result =>
        obtain ⟨api, ui, text, hapi, hui, -, hs', -⟩ := syncDatedWith_eq_ok.mp h
        obtain ⟨s', log⟩ := result
        obtain rfl : s' = _ := hs'
        rw [kept_iff hclock (Service.pass_of_syncPlane hapi) (Service.pass_of_syncPlane hui)]
        exact ⟨fun hmanual _ => hmanual, fun hmanual => hmanual ⟨_, rfl⟩⟩

/-- The page of the admin, last written at time 1. -/
def manualPage : Dated := ⟨⟨[manualReports], by decide⟩, fun _ => 1⟩

/-- The code declares another permission. -/
theorem manual_rows_kept_unscanned :
    (∀ k, manualPage.updated_at k < 2) ∧
    KeepsManual manualPage (Script.syncDated 2 manualPage [roleRead] [] "host") ∧
    KeepsManual manualPage (Service.runSyncDated 2 (fun _ => 2) manualPage [roleRead] [] "admin") := by
  have hclock : ∀ k, manualPage.updated_at k < 2 := fun _ => Nat.one_lt_two
  have hunscanned : ManualUnscanned manualPage.catalog [roleRead] [] := by
    intro r hr _
    rw [List.mem_singleton.mp hr]
    decide
  obtain ⟨hscript, hservice⟩ := manual_rows_kept_iff manualPage [roleRead] [] 2 hclock
  exact ⟨hclock, (hscript "host").mpr fun _ => hunscanned,
    (hservice (fun _ => 2) "admin").mpr fun _ => hunscanned⟩

/-- The sync commits, and the row of the page is not what it was. -/
def Rewrites (result : Except ServiceError (Dated × PermissionSyncLog)) : Bool :=
  match result with
  | .error _ => false
  | .ok (s', _) => s'.catalog.lookup manualReports.pair ≠ some manualReports

theorem not_keepsManual_of_rewrites {result : Except ServiceError (Dated × PermissionSyncLog)}
    (h : Rewrites result = true) : (∃ s' log, result = .ok (s', log) ∧
      s'.catalog.lookup manualReports.pair ≠ some manualReports) ∧
      ¬ KeepsManual manualPage result := by
  cases result with
  | error e => cases h
  | ok result =>
      obtain ⟨s', log⟩ := result
      have hrow : s'.catalog.lookup manualReports.pair ≠ some manualReports := by
        simpa [Rewrites] using h
      refine ⟨⟨s', log, rfl, hrow⟩, fun hkeeps => hrow ?_⟩
      exact (hkeeps manualReports.pair manualReports (by decide +kernel) rfl).1

/-- **The code declares the page of the admin**: both implementations write its row. -/
theorem scanned_manual_permission_rewritten :
    ((∃ s' log, Script.syncDated 2 manualPage [] [viewReports] "host" = .ok (s', log) ∧
        s'.catalog.lookup manualReports.pair ≠ some manualReports) ∧
      ¬ KeepsManual manualPage (Script.syncDated 2 manualPage [] [viewReports] "host")) ∧
    ((∃ s' log, Service.runSyncDated 2 (fun _ => 2) manualPage [] [viewReports] "admin" =
        .ok (s', log) ∧ s'.catalog.lookup manualReports.pair ≠ some manualReports) ∧
      ¬ KeepsManual manualPage
        (Service.runSyncDated 2 (fun _ => 2) manualPage [] [viewReports] "admin")) :=
  ⟨not_keepsManual_of_rewrites (by decide +kernel), not_keepsManual_of_rewrites (by decide +kernel)⟩

end ErpApi.PermissionSync
