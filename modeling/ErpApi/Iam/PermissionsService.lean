import ErpApi.Iam.ManifestScan

set_option autoImplicit false

/-! # Permissions that an admin adds

`PermissionsService` lets an admin add a ui permission by hand and change it later. It splits the
permission at the colon and stores the two parts as resource and action. The scans store what
`derivePermissionParts` gives, and that is a resource of its own for each page: the two agree on a
component and disagree on every page (`split_eq_derive_iff`).
-/

namespace ErpApi.PermissionSync

/-! ## Requests -/

/-- The pattern `^(page|component):[a-zA-Z0-9_]+$`. -/
def isUiPermission (text : String) : Bool :=
  match Js.split ':' text with
  | [head, slug] => (head == "page" || head == "component") && isWord slug
  | _ => false

/-- A permission that the DTOs accept. -/
structure UiPermission where
  text : String
  accepted : isUiPermission text = true
  deriving DecidableEq

/-- The pattern `^[a-z][a-z0-9-]*$`. -/
def isServiceName (text : String) : Bool :=
  match text.toList with
  | [] => false
  | c :: rest => c.isLower && rest.all fun c => c.isLower || c.isDigit || c == '-'

structure CreatePermissionDTO where
  service : String
  permission : UiPermission
  permission_name_th : String
  permission_name_en : String
  isService : isServiceName service = true
  namesNotEmpty : permission_name_th ≠ "" ∧ permission_name_en ≠ ""

structure UpdatePermissionDTO where
  service : Field String
  permission : Field UiPermission
  permission_name_th : Field String
  permission_name_en : Field String
  isService : service.All fun service => isServiceName service = true

/-- What the destructuring `[resource, action] = permission.split(':')` binds. -/
theorem UiPermission.split (permission : UiPermission) :
    ∃ head slug, Js.split ':' permission.text = [head, slug] ∧
      (head = "page" ∨ head = "component") ∧ isWord slug = true := by
  have haccepted := permission.accepted
  unfold isUiPermission at haccepted
  split at haccepted
  · rename_i head slug hsplit
    simp only [Bool.and_eq_true, Bool.or_eq_true, beq_iff_eq] at haccepted
    exact ⟨head, slug, hsplit, haccepted⟩
  · cases haccepted

theorem UiPermission.wellFormed (permission : UiPermission) :
    (execPermissionString permission.text).isSome = true := by
  obtain ⟨head, slug, hsplit, hhead, hslug⟩ := permission.split
  have hword : isWord head = true := by
    rcases hhead with rfl | rfl
    · decide
    · decide
  simp [execPermissionString, hsplit, hword, hslug]

def UiPermission.toPermissionString (permission : UiPermission) : PermissionString :=
  ⟨permission.text, permission.wellFormed⟩

/-! ## The table -/

structure StoredPermission where
  id : String
  row : Permission
  deriving DecidableEq

/-- The table `permissions` with its ids and its unique constraint. -/
structure Permissions where
  table : Table StoredPermission StoredPermission.id
  uq : (table.rows.map fun r => r.row.pair).Nodup

/-- The rows as the sync sees them. -/
def Permissions.catalog (s : Permissions) : Catalog :=
  ⟨s.table.rows.map StoredPermission.row, by rw [List.map_map]; exact s.uq⟩

def Permissions.check (table : Table StoredPermission StoredPermission.id) :
    Except ServiceError Permissions :=
  if h : (table.rows.map fun r => r.row.pair).Nodup then .ok ⟨table, h⟩
  else .error (.uniqueViolation "service, permission")

/-- The row that a find by the id returns. -/
def Permissions.findById (s : Permissions) (id : String) : Option StoredPermission :=
  s.table.rows.find? fun r => r.id = uuid id && r.row.found && !r.row.is_deleted

/-! ## PermissionsService -/

/-- What a call throws. -/
inductive PermissionsError where
  | service (e : ServiceError)
  | forbidden (message : String)

/-- The row of a manual permission. -/
def CreatePermissionDTO.row (dto : CreatePermissionDTO) (resource action : String) :
    Except ServiceError Permission := do
  let service ← varchar 100 dto.service
  let permission ← dto.permission.toPermissionString.column
  let resource ← varchar 100 resource
  let action ← varchar 100 action
  let permission_name_th ← varchar 200 dto.permission_name_th
  let permission_name_en ← varchar 200 dto.permission_name_en
  return { service, permission, resource, action, plane := .ui, permission_name_th,
           permission_name_en, is_manual := true }

def createManual (s : Permissions) (newId : String) (dto : CreatePermissionDTO) :
    Except ServiceError (Permissions × StoredPermission) :=
  let parts := Js.split ':' dto.permission.text
  let resource := parts.headD ""
  let action := (parts.drop 1).headD ""
  executeDbOperation do
    let row ← dto.row resource action
    let stored : StoredPermission := ⟨uuid newId, row⟩
    match s.table.insert stored with
    | none => throw (.uniqueViolation "id")
    | some table => do
        let s' ← Permissions.check table
        return (s', stored)

/-- A `varchar` column that is not nullable, in an update. -/
def varcharField (n : Nat) (column : String) (old : Varchar n) :
    Field String → Except ServiceError (Varchar n)
  | .undefined => .ok old
  | .null => .error (.notNullViolation column)
  | .value text => varchar n text

/-- The columns that `updateManual` passes to `update`. -/
structure ManualPatch where
  service : Field String
  permission : Option (UiPermission × String × String)
  permission_name_th : Field String
  permission_name_en : Field String

def ManualPatch.row (patch : ManualPatch) (r : Permission) : Except ServiceError Permission := do
  let permission_name_th ← varcharField 200 "permission_name_th" r.permission_name_th
    patch.permission_name_th
  let permission_name_en ← varcharField 200 "permission_name_en" r.permission_name_en
    patch.permission_name_en
  let service ← varcharField 100 "service" r.service patch.service
  match patch.permission with
  | none => return { r with permission_name_th, permission_name_en, service }
  | some (given, resource, action) =>
      let permission ← given.toPermissionString.column
      let resource ← varchar 100 resource
      let action ← varchar 100 action
      return { r with
        permission_name_th, permission_name_en, service, permission, resource, action }

/-- The patch of a request. A permission that is null cannot be split. -/
def UpdatePermissionDTO.patch (dto : UpdatePermissionDTO) : Except ServiceError ManualPatch :=
  match dto.permission with
  | .undefined =>
      .ok ⟨dto.service, none, dto.permission_name_th, dto.permission_name_en⟩
  | .null => .error .typeError
  | .value permission =>
      let parts := Js.split ':' permission.text
      .ok ⟨dto.service, some (permission, parts.headD "", (parts.drop 1).headD ""),
        dto.permission_name_th, dto.permission_name_en⟩

/-- The base class's `update` of the row. -/
def updateStored (s : Permissions) (id : String) (patch : ManualPatch) :
    Except ServiceError (Permissions × StoredPermission) :=
  match s.findById id with
  | none => .error (.notFound ("permissions with ID '" ++ id ++ "' not found."))
  | some existing => do
      let row ← patch.row existing.row
      let stored : StoredPermission := ⟨existing.id, row⟩
      let s' ← Permissions.check
        (s.table.update (fun r => if r.id = existing.id then stored else r)
          fun r => by
            split
            · rename_i heq
              exact heq.symm
            · rfl)
      return (s', stored)

def updateManual (s : Permissions) (id : String) (dto : UpdatePermissionDTO) :
    Except PermissionsError (Permissions × StoredPermission) :=
  match s.findById id with
  | none => .error (.service (.notFound ("permissions with ID '" ++ id ++ "' not found.")))
  | some existing =>
      let changesIdentity := dto.service.isDefined || dto.permission.isDefined
      if changesIdentity && !existing.row.is_manual then
        .error (.forbidden ("This permission is synced from code — edit the " ++
          "@RequirePermission()/data-permission source and run permissions:sync instead of " ++
          "changing service/permission here."))
      else
        (do
          let patch ← dto.patch
          executeDbOperation (updateStored s id patch)).mapError .service

/-! ## What a row of a permission says -/

/-- The permission is one of a component. -/
def UiPermission.IsComponent (permission : UiPermission) : Prop :=
  (Js.split ':' permission.text).headD "" = "component"

instance (permission : UiPermission) : Decidable permission.IsComponent :=
  inferInstanceAs (Decidable (_ = _))

/-- The parts at the colon are those of the scans exactly for a component. -/
theorem split_eq_derive_iff (permission : UiPermission) :
    derivePermissionParts permission.text =
        some ((Js.split ':' permission.text).headD "",
          ((Js.split ':' permission.text).drop 1).headD "") ↔
      permission.IsComponent := by
  obtain ⟨head, slug, hsplit, hhead, hslug⟩ := permission.split
  have hexec : execPermissionString permission.text = some (head, slug) := by
    have hword : isWord head = true := by
      rcases hhead with rfl | rfl
      · decide
      · decide
    simp [execPermissionString, hsplit, hword, hslug]
  rw [UiPermission.IsComponent, derivePermissionParts, hexec, hsplit]
  dsimp only [List.headD, List.drop]
  rcases hhead with rfl | rfl
  · -- The resource of a page is longer than `page`.
    refine iff_of_false ?_ (by decide)
    intro h
    rw [if_neg (by decide)] at h
    have hresource := congrArg Prod.fst (Option.some.inj h)
    dsimp only at hresource
    have hlength := congrArg String.length hresource
    rw [String.length_append] at hlength
    have hpage : "page".length = 4 := by decide
    have hpage' : "page_".length = 5 := by decide
    omega
  · exact iff_of_true (if_pos (by decide)) rfl

theorem CreatePermissionDTO.row_ok {dto : CreatePermissionDTO} {resource action : String}
    {row : Permission} (h : dto.row resource action = .ok row) :
    row.resource.val = resource ∧ row.action.val = action := by
  obtain ⟨service, -, h⟩ := bind_eq_ok.mp h
  obtain ⟨permission, -, h⟩ := bind_eq_ok.mp h
  obtain ⟨resource', hresource, h⟩ := bind_eq_ok.mp h
  obtain ⟨action', haction, h⟩ := bind_eq_ok.mp h
  obtain ⟨th, -, h⟩ := bind_eq_ok.mp h
  obtain ⟨en, -, h⟩ := bind_eq_ok.mp h
  obtain rfl := Except.ok.inj h
  exact ⟨varchar_eq_ok.mp hresource, varchar_eq_ok.mp haction⟩

theorem ManualPatch.row_ok {patch : ManualPatch} {given : UiPermission} {resource action : String}
    {r row : Permission} (hpatch : patch.permission = some (given, resource, action))
    (h : patch.row r = .ok row) : row.resource.val = resource ∧ row.action.val = action := by
  obtain ⟨th, -, h⟩ := bind_eq_ok.mp h
  obtain ⟨en, -, h⟩ := bind_eq_ok.mp h
  obtain ⟨service, -, h⟩ := bind_eq_ok.mp h
  rw [hpatch] at h
  obtain ⟨permission, -, h⟩ := bind_eq_ok.mp h
  obtain ⟨resource', hresource, h⟩ := bind_eq_ok.mp h
  obtain ⟨action', haction, h⟩ := bind_eq_ok.mp h
  obtain rfl := Except.ok.inj h
  exact ⟨varchar_eq_ok.mp hresource, varchar_eq_ok.mp haction⟩

theorem check_table {table : Table StoredPermission StoredPermission.id} {s : Permissions}
    (h : Permissions.check table = .ok s) : s.table = table := by
  unfold Permissions.check at h
  split at h
  · obtain rfl := Except.ok.inj h
    rfl
  · cases h

section Stored

variable {s s' : Permissions} {stored : StoredPermission}

/-- What a call stores. -/
def Stores (s' : Permissions) (stored : StoredPermission) (permission : UiPermission) : Prop :=
  stored ∈ s'.table.rows ∧
    stored.row.resource.val = (Js.split ':' permission.text).headD "" ∧
    stored.row.action.val = ((Js.split ':' permission.text).drop 1).headD ""

theorem createManual_stores {newId : String} {dto : CreatePermissionDTO}
    (h : createManual s newId dto = .ok (s', stored)) : Stores s' stored dto.permission := by
  have h := executeDbOperation_eq_ok.mp h
  obtain ⟨row, hrow, h⟩ := bind_eq_ok.mp h
  dsimp only at h
  split at h
  · cases h
  · rename_i table hinsert
    obtain ⟨s₁, hcheck, h⟩ := bind_eq_ok.mp h
    obtain ⟨rfl, rfl⟩ := Prod.mk.inj (Except.ok.inj h)
    refine ⟨?_, CreatePermissionDTO.row_ok hrow⟩
    rw [check_table hcheck, Table.rows_of_insert hinsert]
    simp

theorem updateManual_stores {id : String} {dto : UpdatePermissionDTO} {permission : UiPermission}
    (hdto : dto.permission = .value permission)
    (h : updateManual s id dto = .ok (s', stored)) : Stores s' stored permission := by
  unfold updateManual at h
  split at h
  · cases h
  · rename_i existing hfind
    dsimp only at h
    split at h
    · cases h
    · obtain ⟨patch, hpatch, h⟩ := bind_eq_ok.mp (mapError_eq_ok.mp h)
      rw [UpdatePermissionDTO.patch, hdto] at hpatch
      obtain rfl := Except.ok.inj hpatch
      have hupdate := executeDbOperation_eq_ok.mp h
      unfold updateStored at hupdate
      rw [hfind] at hupdate
      obtain ⟨row, hrow, hupdate⟩ := bind_eq_ok.mp hupdate
      obtain ⟨s₁, hcheck, hupdate⟩ := bind_eq_ok.mp hupdate
      obtain ⟨rfl, rfl⟩ := Prod.mk.inj (Except.ok.inj hupdate)
      refine ⟨?_, ManualPatch.row_ok rfl hrow⟩
      rw [check_table hcheck, Table.rows_update, List.mem_map]
      exact ⟨existing, List.mem_of_find?_eq_some hfind, if_pos rfl⟩

end Stored

/-- The resource and the action that a call stores are those of the scans if and only if the
permission is one of a component. -/
theorem manual_parts_iff (permission : UiPermission) :
    (∀ s newId dto s' stored, dto.permission = permission →
      createManual s newId dto = .ok (s', stored) →
        stored ∈ s'.table.rows ∧
          (derivePermissionParts permission.text =
              some (stored.row.resource.val, stored.row.action.val) ↔
            permission.IsComponent)) ∧
    ∀ s id dto s' stored, dto.permission = .value permission →
      updateManual s id dto = .ok (s', stored) →
        stored ∈ s'.table.rows ∧
          (derivePermissionParts permission.text =
              some (stored.row.resource.val, stored.row.action.val) ↔
            permission.IsComponent) := by
  have hiff : ∀ {s' stored}, Stores s' stored permission → stored ∈ s'.table.rows ∧
      (derivePermissionParts permission.text =
          some (stored.row.resource.val, stored.row.action.val) ↔ permission.IsComponent) := by
    rintro s' stored ⟨hmem, hresource, haction⟩
    refine ⟨hmem, ?_⟩
    rw [hresource, haction]
    exact split_eq_derive_iff permission
  constructor
  · rintro s newId dto s' stored rfl h
    exact hiff (createManual_stores h)
  · intro s id dto s' stored hdto h
    exact hiff (updateManual_stores hdto h)

/-! ## A page and a component -/

def exportButton : CreatePermissionDTO where
  service := "iam"
  permission := ⟨"component:btn_export", by decide⟩
  permission_name_th := "Export"
  permission_name_en := "Export"
  isService := by decide
  namesNotEmpty := by decide

def reportsPage : CreatePermissionDTO where
  service := "iam"
  permission := ⟨"page:view_reports", by decide⟩
  permission_name_th := "Reports"
  permission_name_en := "Reports"
  isService := by decide
  namesNotEmpty := by decide

def noPermissions : Permissions := ⟨⟨[], List.nodup_nil⟩, List.nodup_nil⟩

theorem exportButton_parts : ∃ s' stored,
    createManual noPermissions "a" exportButton = .ok (s', stored) ∧
      derivePermissionParts "component:btn_export" =
        some (stored.row.resource.val, stored.row.action.val) := by
  have hok : (createManual noPermissions "a" exportButton).isOk = true := by decide +kernel
  obtain ⟨⟨s', stored⟩, hrun⟩ := exists_of_isOk hok
  refine ⟨s', stored, hrun, ?_⟩
  have hparts := (manual_parts_iff exportButton.permission).1 noPermissions "a" exportButton s'
    stored rfl hrun
  exact hparts.2.mpr (by decide)

/-- The page is stored with the resource `page`, and the scans store `page_reports`. -/
theorem reportsPage_parts : ∃ s' stored,
    createManual noPermissions "a" reportsPage = .ok (s', stored) ∧
      derivePermissionParts "page:view_reports" ≠
        some (stored.row.resource.val, stored.row.action.val) := by
  have hok : (createManual noPermissions "a" reportsPage).isOk = true := by decide +kernel
  obtain ⟨⟨s', stored⟩, hrun⟩ := exists_of_isOk hok
  refine ⟨s', stored, hrun, ?_⟩
  obtain ⟨-, hresource, haction⟩ := createManual_stores hrun
  rw [hresource, haction]
  decide

end ErpApi.PermissionSync
