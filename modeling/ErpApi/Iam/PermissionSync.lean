import ErpApi.Basic.Table
import ErpApi.Basic.ShortCircuit
import ErpApi.Common.BaseService

set_option autoImplicit false

/-! # Syncing the permission catalog

The catalog `permissions` follows what the code declares: a scan lists the permissions of one
plane, and `syncPlane` inserts what is new, brings back what was soft-deleted, and soft-deletes
what is no longer declared. There are two implementations: the script `permissions:sync`, which
upserts with `ON CONFLICT`, and `PermissionsSyncService`, which looks a row up through TypeORM and
then updates or inserts. A TypeORM find does not see a row whose `deleted_at` is set, so the
service inserts the permission again, and the unique constraint refuses it
(`stale_permission_refused`). The two agree exactly when no such row is concerned
(`syncPlane_agree_iff`).

Ids, `created_at` and `updated_at` are left out; `deleted_at` is kept, since finds read it.
-/

namespace ErpApi.PermissionSync

/-! ## Permission strings -/

/-- The class `[a-zA-Z0-9_]+`. -/
def isWord (text : String) : Bool :=
  text ≠ "" && text.toList.all fun c => c.isAlphanum || c == '_'

/-- The call `PERMISSION_STRING.exec(permission)`: the two captures. -/
def execPermissionString (permission : String) : Option (String × String) :=
  match Js.split ':' permission with
  | [resource, action] => if isWord resource && isWord action then some (resource, action) else none
  | _ => none

/-- A permission as the scan, the seeds and the DTO of the Permissions page accept it:
one `<prefix>:<action>` pair. -/
structure PermissionString where
  text : String
  wellFormed : (execPermissionString text).isSome = true
  deriving DecidableEq

def PermissionString.parts (permission : PermissionString) : String × String :=
  (execPermissionString permission.text).get permission.wellFormed

theorem PermissionString.split_text (permission : PermissionString) :
    Js.split ':' permission.text = [permission.parts.1, permission.parts.2] := by
  have hparts : execPermissionString permission.text = some permission.parts := by
    rw [PermissionString.parts, Option.some_get]
  unfold execPermissionString at hparts
  split at hparts
  · rename_i resource action hsplit
    split at hparts
    · rw [hsplit, ← Option.some.inj hparts]
    · cases hparts
  · cases hparts

/-- A word in upper case at the front; `part.charAt(0).toUpperCase() + part.slice(1)`. -/
def capitalize (part : String) : String :=
  match part.toList with
  | [] => ""
  | c :: rest => String.ofList (c.toUpper :: rest)

def humanize (word : String) : String :=
  " ".intercalate ((Js.split '_' word).map capitalize)

/-- The name of a permission that declares none. A permission string always matches. -/
def derivePlaceholderName (permission : PermissionString) : String :=
  humanize permission.parts.2 ++ " " ++ humanize permission.parts.1

/-! ## The catalog -/

/-- The value of a `varchar(n)` column. -/
abbrev Varchar (n : Nat) := { text : String // text.length ≤ n }

/-- Writing a text into a `varchar(n)` column. -/
def varchar (n : Nat) (text : String) : Except ServiceError (Varchar n) :=
  if h : text.length ≤ n then .ok ⟨text, h⟩ else .error .stringTooLong

inductive PermissionPlane where
  | ui
  | api
  deriving DecidableEq

/-- A row of `permissions`. -/
structure Permission where
  service : Varchar 100
  permission : { p : PermissionString // p.text.length ≤ 150 }
  resource : Varchar 100
  action : Varchar 100
  plane : PermissionPlane
  permission_name_th : Varchar 200
  permission_name_en : Varchar 200
  is_manual : Bool
  is_deleted : Bool := false
  deleted_at : Option Nat := none
  deleted_reason : Option String := none
  deriving DecidableEq

/-- The columns of the unique constraint. -/
abbrev Pair := String × String

def Permission.pair (r : Permission) : Pair := (r.service.val, r.permission.val.text)

/-- The table with its constraint `uq_permissions_service_permission`. -/
abbrev Catalog := Table Permission Permission.pair

structure Name where
  th : String
  en : String
  deriving DecidableEq

structure ScannedPermission where
  service : String
  permission : PermissionString
  resource : String
  action : String
  name : Option Name
  plane : PermissionPlane
  deriving DecidableEq

def ScannedPermission.pair (p : ScannedPermission) : Pair := (p.service, p.permission.text)

/-- The key of the sets in the code. -/
def keyText (pair : Pair) : String := pair.1 ++ "::" ++ pair.2

structure PlaneDiff where
  added : List ScannedPermission
  removed : List Pair
  unchanged : List ScannedPermission
  deriving DecidableEq

/-- Diffs one plane's scan against the rows of the plane. -/
def diff (existingRows : List Permission) (scanned : List ScannedPermission) : PlaneDiff :=
  let existing := existingRows.map fun r => keyText r.pair
  let scannedKeys := scanned.map fun p => keyText p.pair
  { added := scanned.filter fun p => !existing.contains (keyText p.pair)
    removed := (existingRows.map Permission.pair).filter fun k => !scannedKeys.contains (keyText k)
    unchanged := scanned.filter fun p => existing.contains (keyText p.pair) }

/-! ## One scanned permission -/

/-- Writing a permission into its column, a `varchar(150)`. -/
def PermissionString.column (permission : PermissionString) :
    Except ServiceError { p : PermissionString // p.text.length ≤ 150 } :=
  if h : permission.text.length ≤ 150 then .ok ⟨permission, h⟩ else .error .stringTooLong

def ScannedPermission.nameTh (p : ScannedPermission) : String :=
  (p.name.map Name.th).getD (derivePlaceholderName p.permission)

def ScannedPermission.nameEn (p : ScannedPermission) : String :=
  (p.name.map Name.en).getD (derivePlaceholderName p.permission)

/-- The row that a scanned permission is inserted as. -/
def ScannedPermission.row (p : ScannedPermission) (plane : PermissionPlane) :
    Except ServiceError Permission := do
  let service ← varchar 100 p.service
  let permission ← p.permission.column
  let resource ← varchar 100 p.resource
  let action ← varchar 100 p.action
  let permission_name_th ← varchar 200 p.nameTh
  let permission_name_en ← varchar 200 p.nameEn
  return { service, permission, resource, action, plane, permission_name_th, permission_name_en,
           is_manual := false }

/-- The columns that a scan writes into a row that is there. The plane and `is_manual` stay, and
the names too unless the scan has them. -/
def Permission.refresh (r excluded : Permission) (hasExplicitName : Bool) : Permission :=
  { r with
    resource := excluded.resource
    action := excluded.action
    permission_name_th :=
      if hasExplicitName then excluded.permission_name_th else r.permission_name_th
    permission_name_en :=
      if hasExplicitName then excluded.permission_name_en else r.permission_name_en
    is_deleted := false
    deleted_at := none
    deleted_reason := none }

@[simp] theorem Permission.refresh_pair (r excluded : Permission) (b : Bool) :
    (r.refresh excluded b).pair = r.pair := rfl

/-- The statement of the script: `INSERT .. ON CONFLICT (service, permission) DO UPDATE`. -/
def upsert (plane : PermissionPlane) (catalog : Catalog) (p : ScannedPermission) :
    Except ServiceError Catalog := do
  let row ← p.row plane
  return catalog.upsert row (·.refresh row p.name.isSome) fun r => r.refresh_pair row _

/-- A TypeORM find leaves out the rows whose `deleted_at` is set. -/
def Permission.found (r : Permission) : Bool := r.deleted_at.isNone

/-- The `findOne` of the service. -/
def findOne (catalog : Catalog) (p : ScannedPermission) : Option Permission :=
  catalog.rows.find? fun r => r.found && r.pair = p.pair

/-- The columns that the service passes to `repo.update`; the names only if the scan has them. -/
structure Patch where
  resource : Varchar 100
  action : Varchar 100
  names : Option (Varchar 200 × Varchar 200)
  deriving DecidableEq

def Name.columns (name : Name) : Except ServiceError (Varchar 200 × Varchar 200) := do
  let th ← varchar 200 name.th
  let en ← varchar 200 name.en
  return (th, en)

def ScannedPermission.patch (p : ScannedPermission) : Except ServiceError Patch := do
  let resource ← varchar 100 p.resource
  let action ← varchar 100 p.action
  let names ← p.name.mapM Name.columns
  return { resource, action, names }

def Patch.set (patch : Patch) (r : Permission) : Permission :=
  { r with
    resource := patch.resource
    action := patch.action
    permission_name_th := (patch.names.map Prod.fst).getD r.permission_name_th
    permission_name_en := (patch.names.map Prod.snd).getD r.permission_name_en
    is_deleted := false
    deleted_at := none
    deleted_reason := none }

/-- One scanned permission in the service: `findOne`, then `update` or `insert`. -/
def save (plane : PermissionPlane) (catalog : Catalog) (p : ScannedPermission) :
    Except ServiceError Catalog :=
  match findOne catalog p with
  | some existingRow => do
      let patch ← p.patch
      return catalog.update (fun r => if r.pair = existingRow.pair then patch.set r else r)
        fun r => by split <;> rfl
  | none => do
      let row ← p.row plane
      match catalog.insert row with
      | some catalog => return catalog
      | none => throw (.uniqueViolation "service, permission")

/-! ## One plane -/

def Permission.softDelete (r : Permission) (reason : String) (now : Nat) : Permission :=
  { r with is_deleted := true, deleted_at := some now, deleted_reason := some reason }

/-- The update of a removed permission; `now` is the time of the statement. -/
def remove (removedReason : String) (now : Pair → Nat) (catalog : Catalog) (removed : Pair) :
    Catalog :=
  catalog.update
    (fun r => if r.pair = removed ∧ r.is_manual = false then r.softDelete removedReason (now removed)
      else r)
    fun r => by split <;> rfl

/-- The rows that the `SELECT` at the start of `syncPlane` returns. -/
def existingRows (sees : Permission → Bool) (catalog : Catalog) (plane : PermissionPlane) :
    List Permission :=
  catalog.rows.filter fun r => sees r && r.plane == plane && !r.is_manual && !r.is_deleted

/-- What both implementations of `syncPlane` do: `sees` says which rows a `SELECT` returns,
`write` is the work on one scanned permission. -/
def syncPlaneWith (sees : Permission → Bool)
    (write : PermissionPlane → Catalog → ScannedPermission → Except ServiceError Catalog)
    (now : Pair → Nat) (catalog : Catalog) (plane : PermissionPlane)
    (scanned : List ScannedPermission) (removedReason : String) :
    Except ServiceError (Catalog × PlaneDiff) := do
  let d := diff (existingRows sees catalog plane) scanned
  let catalog ← scanned.foldlM (write plane) catalog
  return (d.removed.foldl (remove removedReason now) catalog, d)

namespace Script

/-- The script; `now()` is one time for the whole transaction. -/
def syncPlane (now : Nat) : Catalog → PermissionPlane → List ScannedPermission → String →
    Except ServiceError (Catalog × PlaneDiff) :=
  syncPlaneWith (fun _ => true) upsert fun _ => now

end Script

namespace Service

/-- The service; every removed row has its own `new Date()`. -/
def syncPlane (now : Pair → Nat) : Catalog → PermissionPlane → List ScannedPermission → String →
    Except ServiceError (Catalog × PlaneDiff) :=
  syncPlaneWith Permission.found save now

end Service

/-! ## Texts and columns -/

theorem capitalize_length (part : String) : (capitalize part).length = part.length := by
  unfold capitalize
  cases h : part.toList with
  | nil =>
      rw [String.toList_eq_nil_iff.mp h]
  | cons c rest =>
      have hlength : part.length = (c :: rest).length := by rw [← h, String.length_toList]
      show (String.ofList (c.toUpper :: rest)).length = part.length
      rw [hlength, String.length_ofList]
      rfl

/-- Joining with a blank what was split at a character changes no length. -/
theorem intercalate_length (c : Char) (l : List String) :
    (" ".intercalate (l.map capitalize)).length = ([c].intercalate (l.map String.toList)).length := by
  induction l with
  | nil => rfl
  | cons part l ih =>
      cases l with
      | nil =>
          rw [List.map_singleton, String.intercalate_singleton, List.map_singleton,
            List.intercalate_singleton, capitalize_length, String.length_toList]
      | cons next l =>
          rw [List.map_cons, List.map_cons, String.intercalate_cons_cons, List.map_cons,
            List.map_cons, List.intercalate_cons_cons, ← List.map_cons, ← List.map_cons]
          simp only [String.length_append, List.length_append, capitalize_length, ih,
            String.length_toList]
          rfl

theorem humanize_length (word : String) : (humanize word).length = word.length := by
  have hlists : (Js.split '_' word).map String.toList = word.toList.splitOn '_' := by
    rw [Js.split, List.map_map]
    exact (List.map_congr_left fun part _ => String.toList_ofList).trans (List.map_id _)
  rw [humanize, intercalate_length '_', hlists, List.intercalate_splitOn, String.length_toList]

/-- The text of a permission is the two parts around the colon. -/
theorem PermissionString.toList_text (permission : PermissionString) :
    permission.text.toList = permission.parts.1.toList ++ ':' :: permission.parts.2.toList := by
  have hlists : permission.text.toList.splitOn ':' =
      [permission.parts.1.toList, permission.parts.2.toList] := by
    have hsplit := congrArg (List.map String.toList) permission.split_text
    rw [Js.split, List.map_map] at hsplit
    rw [← List.map_id (permission.text.toList.splitOn ':'), ← List.map_singleton, ← List.map_cons,
      ← hsplit]
    exact List.map_congr_left fun part _ => String.toList_ofList.symm
  have htext : [':'].intercalate (permission.text.toList.splitOn ':') = permission.text.toList :=
    List.intercalate_splitOn ':'
  rw [hlists, List.intercalate_cons_cons, List.intercalate_singleton, List.append_assoc] at htext
  exact htext.symm

theorem PermissionString.text_length (permission : PermissionString) :
    permission.text.length = permission.parts.1.length + 1 + permission.parts.2.length := by
  rw [← String.length_toList, permission.toList_text]
  simp only [List.length_append, List.length_cons, String.length_toList]
  omega

/-- A placeholder is as long as the permission, so it fits if the permission does. -/
theorem derivePlaceholderName_length (permission : PermissionString) :
    (derivePlaceholderName permission).length = permission.text.length := by
  rw [derivePlaceholderName, String.length_append, String.length_append, humanize_length,
    humanize_length, permission.text_length]
  show permission.parts.2.length + 1 + permission.parts.1.length = _
  omega

/-- The sets of the code are keyed without ambiguity. -/
theorem keyText_injective (p p' : PermissionString) {service service' : String}
    (h : keyText (service, p.text) = keyText (service', p'.text)) :
    (service, p.text) = (service', p'.text) := by
  have hsplit : ∀ (service text : String), Js.split ':' (keyText (service, text)) =
      Js.split ':' service ++ "" :: Js.split ':' text := by
    intro service text
    have hlist : (keyText (service, text)).toList =
        service.toList ++ ':' :: ([] ++ ':' :: text.toList) := by
      simp [keyText]
    rw [Js.split, hlist, List.splitOn_append_cons_self, List.splitOn_append_cons_self]
    simp [Js.split]
  have heq : Js.split ':' service ++ "" :: Js.split ':' p.text =
      Js.split ':' service' ++ "" :: Js.split ':' p'.text := by
    rw [← hsplit, ← hsplit, h]
  rw [p.split_text, p'.split_text] at heq
  obtain ⟨hfst, hsnd⟩ := List.append_inj' heq rfl
  have hpermission : p.text = p'.text := by
    apply Js.split_injective ':'
    rw [p.split_text, p'.split_text]
    exact (List.cons.inj hsnd).2
  exact Prod.ext (Js.split_injective ':' hfst) hpermission

/-! ## One scanned permission in both implementations -/

/-- The texts of the scanned permission fit into the columns. -/
structure ScannedPermission.Fits (p : ScannedPermission) : Prop where
  service : p.service.length ≤ 100
  permission : p.permission.text.length ≤ 150
  resource : p.resource.length ≤ 100
  action : p.action.length ≤ 100
  name : ∀ name ∈ p.name, name.th.length ≤ 200 ∧ name.en.length ≤ 200

theorem varchar_eq_ok {n : Nat} {text : String} {column : Varchar n} :
    varchar n text = .ok column ↔ column.val = text := by
  obtain ⟨val, hval⟩ := column
  rw [varchar]
  split
  · simp [eq_comm]
  · rename_i hlong
    refine iff_of_false (fun h => by cases h) ?_
    rintro rfl
    exact hlong hval

theorem varchar_length {n : Nat} {text : String} {column : Varchar n}
    (h : varchar n text = .ok column) : text.length ≤ n := by
  rw [← varchar_eq_ok.mp h]
  exact column.property

theorem varchar_fits {n : Nat} {text : String} (h : text.length ≤ n) :
    varchar n text = .ok ⟨text, h⟩ := varchar_eq_ok.mpr rfl

/-- The row that a scanned permission is inserted as. -/
structure ScannedPermission.IsRow (p : ScannedPermission) (plane : PermissionPlane)
    (row : Permission) : Prop where
  pair : row.pair = p.pair
  resource : row.resource.val = p.resource
  action : row.action.val = p.action
  name : ∀ name ∈ p.name,
    row.permission_name_th.val = name.th ∧ row.permission_name_en.val = name.en
  plane : row.plane = plane
  manual : row.is_manual = false
  live : row.is_deleted = false ∧ row.deleted_at = none ∧ row.deleted_reason = none

theorem row_ok {p : ScannedPermission} {plane : PermissionPlane} {row : Permission}
    (h : p.row plane = .ok row) : p.IsRow plane row ∧ p.Fits := by
  unfold ScannedPermission.row at h
  obtain ⟨service, hservice, h⟩ := bind_eq_ok.mp h
  obtain ⟨permission, hpermission, h⟩ := bind_eq_ok.mp h
  obtain ⟨resource, hresource, h⟩ := bind_eq_ok.mp h
  obtain ⟨action, haction, h⟩ := bind_eq_ok.mp h
  obtain ⟨th, hth, h⟩ := bind_eq_ok.mp h
  obtain ⟨en, hen, h⟩ := bind_eq_ok.mp h
  obtain rfl := Except.ok.inj h
  have hperm : permission.val = p.permission ∧ p.permission.text.length ≤ 150 := by
    unfold PermissionString.column at hpermission
    split at hpermission
    · rename_i hfits
      obtain rfl := Except.ok.inj hpermission
      exact ⟨rfl, hfits⟩
    · cases hpermission
  refine ⟨⟨?_, varchar_eq_ok.mp hresource, varchar_eq_ok.mp haction, ?_, rfl, rfl, rfl, rfl, rfl⟩,
    varchar_length hservice, hperm.2, varchar_length hresource, varchar_length haction, ?_⟩
  · exact Prod.ext (varchar_eq_ok.mp hservice) (congrArg PermissionString.text hperm.1)
  · intro name hname
    rw [Option.mem_def] at hname
    rw [ScannedPermission.nameTh, hname] at hth
    rw [ScannedPermission.nameEn, hname] at hen
    exact ⟨varchar_eq_ok.mp hth, varchar_eq_ok.mp hen⟩
  · intro name hname
    rw [Option.mem_def] at hname
    rw [ScannedPermission.nameTh, hname] at hth
    rw [ScannedPermission.nameEn, hname] at hen
    exact ⟨varchar_length hth, varchar_length hen⟩

theorem row_of_fits {p : ScannedPermission} (plane : PermissionPlane) (h : p.Fits) :
    ∃ row, p.row plane = .ok row := by
  have hplaceholder : (derivePlaceholderName p.permission).length ≤ 200 := by
    have := h.permission
    rw [derivePlaceholderName_length]
    omega
  have hname : p.nameTh.length ≤ 200 ∧ p.nameEn.length ≤ 200 := by
    unfold ScannedPermission.nameTh ScannedPermission.nameEn
    cases hp : p.name with
    | none => exact ⟨hplaceholder, hplaceholder⟩
    | some name => exact h.name name hp
  rw [ScannedPermission.row, PermissionString.column, dif_pos h.permission,
    varchar_fits h.service, varchar_fits h.resource, varchar_fits h.action,
    varchar_fits hname.1, varchar_fits hname.2]
  exact ⟨_, rfl⟩

theorem row_of_not_fits {p : ScannedPermission} (plane : PermissionPlane) (h : ¬ p.Fits) :
    ∃ e, p.row plane = .error e := by
  cases hrow : p.row plane with
  | error e => exact ⟨e, rfl⟩
  | ok row => exact absurd (row_ok hrow).2 h

theorem columns_ok {name : Name} {columns : Varchar 200 × Varchar 200}
    (h : name.columns = .ok columns) :
    (columns.1.val = name.th ∧ columns.2.val = name.en) ∧
      name.th.length ≤ 200 ∧ name.en.length ≤ 200 := by
  unfold Name.columns at h
  obtain ⟨th, hth, h⟩ := bind_eq_ok.mp h
  obtain ⟨en, hen, h⟩ := bind_eq_ok.mp h
  obtain rfl := Except.ok.inj h
  exact ⟨⟨varchar_eq_ok.mp hth, varchar_eq_ok.mp hen⟩, varchar_length hth, varchar_length hen⟩

/-- The patch of the service writes what the script writes on a conflict. -/
theorem patch_set {p : ScannedPermission} {patch : Patch} {plane : PermissionPlane}
    {row : Permission} (h : p.patch = .ok patch) (hrow : p.IsRow plane row) (r : Permission) :
    patch.set r = r.refresh row p.name.isSome := by
  unfold ScannedPermission.patch at h
  obtain ⟨resource, hresource, h⟩ := bind_eq_ok.mp h
  obtain ⟨action, haction, h⟩ := bind_eq_ok.mp h
  obtain ⟨names, hnames, h⟩ := bind_eq_ok.mp h
  obtain rfl := Except.ok.inj h
  have hres : resource = row.resource :=
    Subtype.ext ((varchar_eq_ok.mp hresource).trans hrow.resource.symm)
  have hact : action = row.action :=
    Subtype.ext ((varchar_eq_ok.mp haction).trans hrow.action.symm)
  cases hname : p.name with
  | none =>
      rw [hname] at hnames
      obtain rfl := Except.ok.inj hnames
      simp [Patch.set, Permission.refresh, hres, hact]
  | some name =>
      rw [hname, Option.mapM_some] at hnames
      obtain ⟨columns, hcolumns, hsome⟩ := bind_eq_ok.mp hnames
      obtain rfl := Except.ok.inj hsome
      obtain ⟨⟨hth, hen⟩, -⟩ := columns_ok hcolumns
      obtain ⟨hth', hen'⟩ := hrow.name name hname
      have hfst : columns.1 = row.permission_name_th := Subtype.ext (hth.trans hth'.symm)
      have hsnd : columns.2 = row.permission_name_en := Subtype.ext (hen.trans hen'.symm)
      simp [Patch.set, Permission.refresh, hres, hact, hfst, hsnd]

theorem patch_of_fits {p : ScannedPermission} (h : p.Fits) : ∃ patch, p.patch = .ok patch := by
  have hnames : ∃ names, p.name.mapM Name.columns = .ok names := by
    cases hname : p.name with
    | none => exact ⟨none, rfl⟩
    | some name =>
        obtain ⟨hth, hen⟩ := h.name name hname
        refine ⟨some (⟨name.th, hth⟩, ⟨name.en, hen⟩), ?_⟩
        rw [Option.mapM_some, Name.columns, varchar_fits hth, varchar_fits hen]
        rfl
  obtain ⟨names, hnames⟩ := hnames
  rw [ScannedPermission.patch, varchar_fits h.resource, varchar_fits h.action, hnames]
  exact ⟨_, rfl⟩

/-- The row that is there has the service and the permission already. -/
theorem fits_of_patch {p : ScannedPermission} {patch : Patch} {r : Permission}
    (h : p.patch = .ok patch) (hr : r.pair = p.pair) : p.Fits := by
  unfold ScannedPermission.patch at h
  obtain ⟨resource, hresource, h⟩ := bind_eq_ok.mp h
  obtain ⟨action, haction, h⟩ := bind_eq_ok.mp h
  obtain ⟨names, hnames, -⟩ := bind_eq_ok.mp h
  obtain ⟨hservice, hpermission⟩ := Prod.ext_iff.mp hr
  refine ⟨?_, ?_, varchar_length hresource, varchar_length haction, ?_⟩
  · rw [← show r.service.val = p.service from hservice]
    exact r.service.property
  · rw [← show r.permission.val.text = p.permission.text from hpermission]
    exact r.permission.property
  · intro name hname
    rw [Option.mem_def] at hname
    rw [hname, Option.mapM_some] at hnames
    obtain ⟨columns, hcolumns, -⟩ := bind_eq_ok.mp hnames
    exact (columns_ok hcolumns).2

/-- A row holds the pair and a TypeORM find does not see it. -/
def Hidden (catalog : Catalog) (pair : Pair) : Prop :=
  ∃ r, catalog.lookup pair = some r ∧ r.found = false

theorem findOne_eq_some {catalog : Catalog} {p : ScannedPermission} {r : Permission}
    (h : catalog.lookup p.pair = some r) (hfound : r.found = true) :
    findOne catalog p = some r := by
  obtain ⟨hmem, hpair⟩ := Table.lookup_eq_some.mp h
  cases hfind : findOne catalog p with
  | none =>
      have hno := List.find?_eq_none.mp hfind r hmem
      simp [hfound, hpair] at hno
  | some r' =>
      have hr' := List.find?_some hfind
      have hpair' : r'.pair = p.pair := by
        simp only [Bool.and_eq_true, decide_eq_true_eq] at hr'
        exact hr'.2
      rw [catalog.eq_of_key_eq (List.mem_of_find?_eq_some hfind) hmem (hpair'.trans hpair.symm)]

theorem findOne_eq_none {catalog : Catalog} {p : ScannedPermission}
    (h : ∀ r, catalog.lookup p.pair = some r → r.found = false) : findOne catalog p = none := by
  rw [findOne, List.find?_eq_none]
  intro r hmem hr
  simp only [Bool.and_eq_true, decide_eq_true_eq] at hr
  have hlookup : catalog.lookup p.pair = some r := Table.lookup_eq_some.mpr ⟨hmem, hr.2⟩
  rw [h r hlookup] at hr
  cases hr.1

/-- **One scanned permission: the service does what the script does, unless the row is hidden.** -/
theorem save_eq_upsert (plane : PermissionPlane) {catalog : Catalog} {p : ScannedPermission}
    (hvisible : ¬ Hidden catalog p.pair) (hfits : p.Fits) :
    ∃ catalog', save plane catalog p = .ok catalog' ∧ upsert plane catalog p = .ok catalog' := by
  obtain ⟨row, hrow⟩ := row_of_fits plane hfits
  have hisRow := (row_ok hrow).1
  refine ⟨catalog.upsert row (·.refresh row p.name.isSome) fun r => r.refresh_pair row _, ?_, ?_⟩
  · cases hlookup : catalog.lookup p.pair with
    | none =>
        have hfind : findOne catalog p = none :=
          findOne_eq_none fun r hr => by rw [hlookup] at hr; cases hr
        cases hinsert : catalog.insert row with
        | none =>
            obtain ⟨r, hr⟩ := Table.insert_eq_none.mp hinsert
            rw [hisRow.pair, hlookup] at hr
            cases hr
        | some catalog' =>
            rw [save, hfind, hrow, Table.upsert, hinsert]
            show (match catalog.insert row with | some c => _ | none => _) = _
            rw [hinsert]
            rfl
    | some r =>
        have hfound : r.found = true := by
          cases hb : r.found with
          | true => rfl
          | false => exact absurd ⟨r, hlookup, hb⟩ hvisible
        obtain ⟨patch, hpatch⟩ := patch_of_fits hfits
        have hinsert : catalog.insert row = none :=
          Table.insert_eq_none.mpr ⟨r, by rw [hisRow.pair, hlookup]⟩
        have hpair : r.pair = row.pair :=
          (Table.lookup_eq_some.mp hlookup).2.trans hisRow.pair.symm
        rw [save, findOne_eq_some hlookup hfound, hpatch, Table.upsert, hinsert]
        refine congrArg Except.ok (catalog.update_congr _ _ fun r' => ?_)
        rw [hpair, patch_set hpatch hisRow]
  · rw [upsert, hrow]
    rfl

theorem save_error_of_hidden (plane : PermissionPlane) {catalog : Catalog} {p : ScannedPermission}
    (h : Hidden catalog p.pair) : ∃ e, save plane catalog p = .error e := by
  obtain ⟨r, hlookup, hfound⟩ := h
  have hfind : findOne catalog p = none := by
    apply findOne_eq_none
    intro r' hr'
    rw [hlookup] at hr'
    rw [← Option.some.inj hr']
    exact hfound
  rw [save, hfind]
  cases hrow : p.row plane with
  | error e => exact ⟨e, rfl⟩
  | ok row =>
      have hinsert : catalog.insert row = none :=
        Table.insert_eq_none.mpr ⟨r, by rw [(row_ok hrow).1.pair, hlookup]⟩
      refine ⟨.uniqueViolation "service, permission", ?_⟩
      show (match catalog.insert row with | some c => _ | none => _) = _
      rw [hinsert]
      rfl

theorem save_error_of_not_fits (plane : PermissionPlane) (catalog : Catalog)
    {p : ScannedPermission} (h : ¬ p.Fits) : ∃ e, save plane catalog p = .error e := by
  rw [save]
  cases hfind : findOne catalog p with
  | some r =>
      have hr := List.find?_some hfind
      simp only [Bool.and_eq_true, decide_eq_true_eq] at hr
      cases hpatch : p.patch with
      | error e => exact ⟨e, rfl⟩
      | ok patch => exact absurd (fits_of_patch hpatch hr.2) h
  | none =>
      obtain ⟨e, he⟩ := row_of_not_fits plane h
      rw [he]
      exact ⟨e, rfl⟩

/-! ## The scanned permissions of a plane -/

theorem upsert_ok {plane : PermissionPlane} {catalog catalog' : Catalog} {p : ScannedPermission}
    (h : upsert plane catalog p = .ok catalog') : ∃ row, p.row plane = .ok row ∧
      ∀ k, catalog'.lookup k = if p.pair = k then
        some (((catalog.lookup k).map (·.refresh row p.name.isSome)).getD row)
        else catalog.lookup k := by
  unfold upsert at h
  obtain ⟨row, hrow, h⟩ := bind_eq_ok.mp h
  obtain rfl := Except.ok.inj h
  refine ⟨row, hrow, ?_⟩
  intro k
  rw [Table.lookup_upsert, (row_ok hrow).1.pair]

/-- A permission that was upserted is not hidden, and the other rows are as before. -/
theorem hidden_upsert {plane : PermissionPlane} {catalog catalog' : Catalog}
    {p : ScannedPermission} (h : upsert plane catalog p = .ok catalog') (k : Pair) :
    Hidden catalog' k ↔ Hidden catalog k ∧ p.pair ≠ k := by
  obtain ⟨row, hrow, hlookup⟩ := upsert_ok h
  unfold Hidden
  rw [hlookup k]
  by_cases hk : p.pair = k
  · rw [if_pos hk]
    refine iff_of_false ?_ (fun h => h.2 hk)
    rintro ⟨r, hr, hfound⟩
    have hlive : r.deleted_at = none := by
      rw [← Option.some.inj hr]
      cases catalog.lookup k with
      | none => exact (row_ok hrow).1.live.2.1
      | some old => rfl
    rw [Permission.found, hlive] at hfound
    cases hfound
  · rw [if_neg hk]
    simp [hk]

theorem upserts_of_fits {plane : PermissionPlane} {scanned : List ScannedPermission}
    (catalog : Catalog) (h : ∀ p ∈ scanned, p.Fits) :
    ∃ catalog', scanned.foldlM (upsert plane) catalog = .ok catalog' := by
  induction scanned generalizing catalog with
  | nil => exact ⟨catalog, rfl⟩
  | cons p scanned ih =>
      obtain ⟨row, hrow⟩ := row_of_fits plane (h p List.mem_cons_self)
      have hupsert : ∃ catalog', upsert plane catalog p = .ok catalog' := by
        rw [upsert, hrow]
        exact ⟨_, rfl⟩
      obtain ⟨catalog', hupsert⟩ := hupsert
      obtain ⟨final, hfinal⟩ := ih catalog' fun q hq => h q (List.mem_cons_of_mem _ hq)
      exact ⟨final, by rw [List.foldlM_cons]; exact bind_eq_ok.mpr ⟨catalog', hupsert, hfinal⟩⟩

theorem fits_of_upserts {plane : PermissionPlane} {scanned : List ScannedPermission}
    {catalog catalog' : Catalog} (h : scanned.foldlM (upsert plane) catalog = .ok catalog') :
    ∀ p ∈ scanned, p.Fits := by
  induction scanned generalizing catalog with
  | nil => simp
  | cons p scanned ih =>
      rw [List.foldlM_cons] at h
      obtain ⟨catalog₁, hupsert, hrest⟩ := bind_eq_ok.mp h
      obtain ⟨row, hrow, -⟩ := upsert_ok hupsert
      exact List.forall_mem_cons.mpr ⟨(row_ok hrow).2, ih hrest⟩

/-- When the service gets through the scan, the script does the same, and no row was hidden. -/
theorem upserts_of_saves {plane : PermissionPlane} {scanned : List ScannedPermission}
    {catalog catalog' : Catalog} (h : scanned.foldlM (save plane) catalog = .ok catalog') :
    scanned.foldlM (upsert plane) catalog = .ok catalog' ∧
      ∀ p ∈ scanned, ¬ Hidden catalog p.pair := by
  induction scanned generalizing catalog with
  | nil => exact ⟨h, by simp⟩
  | cons p scanned ih =>
      rw [List.foldlM_cons] at h
      obtain ⟨catalog₁, hsave, hrest⟩ := bind_eq_ok.mp h
      have hvisible : ¬ Hidden catalog p.pair := by
        intro hhidden
        obtain ⟨e, he⟩ := save_error_of_hidden plane hhidden
        rw [hsave] at he
        cases he
      have hfits : p.Fits := by
        by_contra hlong
        obtain ⟨e, he⟩ := save_error_of_not_fits plane catalog hlong
        rw [hsave] at he
        cases he
      obtain ⟨catalog₂, hsave', hupsert⟩ := save_eq_upsert plane hvisible hfits
      obtain rfl := Except.ok.inj (hsave.symm.trans hsave')
      obtain ⟨hupserts, htail⟩ := ih hrest
      refine ⟨by rw [List.foldlM_cons]; exact bind_eq_ok.mpr ⟨catalog₁, hupsert, hupserts⟩, ?_⟩
      refine List.forall_mem_cons.mpr ⟨hvisible, fun q hq hhidden => ?_⟩
      by_cases hpair : p.pair = q.pair
      · exact hvisible (hpair ▸ hhidden)
      · exact htail q hq ((hidden_upsert hupsert q.pair).mpr ⟨hhidden, hpair⟩)

theorem saves_of_fits {plane : PermissionPlane} {scanned : List ScannedPermission}
    {catalog : Catalog} (hfits : ∀ p ∈ scanned, p.Fits)
    (hvisible : ∀ p ∈ scanned, ¬ Hidden catalog p.pair) :
    ∃ catalog', scanned.foldlM (save plane) catalog = .ok catalog' := by
  induction scanned generalizing catalog with
  | nil => exact ⟨catalog, rfl⟩
  | cons p scanned ih =>
      obtain ⟨catalog₁, hsave, hupsert⟩ := save_eq_upsert plane
        (hvisible p List.mem_cons_self) (hfits p List.mem_cons_self)
      have htail : ∀ q ∈ scanned, ¬ Hidden catalog₁ q.pair := by
        intro q hq hhidden
        exact hvisible q (List.mem_cons_of_mem _ hq) ((hidden_upsert hupsert q.pair).mp hhidden).1
      obtain ⟨final, hfinal⟩ := ih (fun q hq => hfits q (List.mem_cons_of_mem _ hq)) htail
      exact ⟨final, by rw [List.foldlM_cons]; exact bind_eq_ok.mpr ⟨catalog₁, hsave, hfinal⟩⟩

/-! ## Removing -/

theorem lookup_remove (reason : String) (now : Pair → Nat) (catalog : Catalog) (removed k : Pair) :
    (remove reason now catalog removed).lookup k = (catalog.lookup k).map fun r =>
      if removed = k ∧ r.is_manual = false then r.softDelete reason (now removed) else r := by
  rw [remove, Table.lookup_update]
  cases h : catalog.lookup k with
  | none => rfl
  | some r =>
      have hpair : r.pair = k := (Table.lookup_eq_some.mp h).2
      simp only [Option.map_some, hpair, eq_comm]

/-- The removed permissions are soft-deleted, unless they are manual. -/
theorem lookup_removes (reason : String) (now : Pair → Nat) (removed : List Pair)
    (catalog : Catalog) (k : Pair) :
    (removed.foldl (remove reason now) catalog).lookup k = (catalog.lookup k).map fun r =>
      if k ∈ removed ∧ r.is_manual = false then r.softDelete reason (now k) else r := by
  induction removed generalizing catalog with
  | nil => simp
  | cons k' removed ih =>
      rw [List.foldl_cons, ih, lookup_remove, Option.map_map]
      congr 1
      funext r
      by_cases hmanual : r.is_manual = false
      · by_cases hk : k' = k
        · subst hk
          simp [Permission.softDelete, hmanual]
        · have hk' : ¬ k = k' := fun h => hk h.symm
          simp [hk, hk', hmanual]
      · simp [hmanual]

/-! ## The diff -/

theorem mem_keys_of_rows {rows : List Permission} {p : ScannedPermission} :
    keyText p.pair ∈ rows.map (fun r => keyText r.pair) ↔ p.pair ∈ rows.map Permission.pair := by
  simp only [List.mem_map]
  constructor
  · rintro ⟨r, hr, hkey⟩
    exact ⟨r, hr, keyText_injective r.permission.val p.permission hkey⟩
  · rintro ⟨r, hr, hpair⟩
    exact ⟨r, hr, by rw [hpair]⟩

theorem mem_keys_of_scanned {scanned : List ScannedPermission} {r : Permission} :
    keyText r.pair ∈ scanned.map (fun p => keyText p.pair) ↔
      r.pair ∈ scanned.map ScannedPermission.pair := by
  simp only [List.mem_map]
  constructor
  · rintro ⟨p, hp, hkey⟩
    exact ⟨p, hp, keyText_injective p.permission r.permission.val hkey⟩
  · rintro ⟨p, hp, hpair⟩
    exact ⟨p, hp, by rw [hpair]⟩

theorem mem_added {rows : List Permission} {scanned : List ScannedPermission}
    {p : ScannedPermission} :
    p ∈ (diff rows scanned).added ↔ p ∈ scanned ∧ p.pair ∉ rows.map Permission.pair := by
  rw [diff, List.mem_filter, Bool.not_eq_true', ← Bool.not_eq_true, List.contains_iff_mem,
    mem_keys_of_rows]

theorem mem_removed {rows : List Permission} {scanned : List ScannedPermission} {k : Pair} :
    k ∈ (diff rows scanned).removed ↔
      k ∈ rows.map Permission.pair ∧ k ∉ scanned.map ScannedPermission.pair := by
  rw [diff, List.mem_filter, Bool.not_eq_true', ← Bool.not_eq_true, List.contains_iff_mem]
  refine and_congr_right fun hk => not_congr ?_
  obtain ⟨r, -, rfl⟩ := List.mem_map.mp hk
  exact mem_keys_of_scanned

/-! ## The two implementations -/

theorem mem_existingRows {sees : Permission → Bool} {catalog : Catalog} {plane : PermissionPlane}
    {r : Permission} : r ∈ existingRows sees catalog plane ↔
      r ∈ catalog.rows ∧ sees r = true ∧ r.plane = plane ∧ r.is_manual = false ∧
        r.is_deleted = false := by
  simp only [existingRows, List.mem_filter, Bool.and_eq_true, beq_iff_eq, Bool.not_eq_true',
    and_assoc]

theorem syncPlaneWith_eq_ok {sees : Permission → Bool}
    {write : PermissionPlane → Catalog → ScannedPermission → Except ServiceError Catalog}
    {now : Pair → Nat} {catalog : Catalog} {plane : PermissionPlane}
    {scanned : List ScannedPermission} {reason : String} {result : Catalog × PlaneDiff} :
    syncPlaneWith sees write now catalog plane scanned reason = .ok result ↔
      ∃ catalog', scanned.foldlM (write plane) catalog = .ok catalog' ∧
        result = ((diff (existingRows sees catalog plane) scanned).removed.foldl
          (remove reason now) catalog', diff (existingRows sees catalog plane) scanned) := by
  rw [syncPlaneWith, bind_eq_ok]
  refine exists_congr fun catalog' => and_congr_right fun _ => ?_
  exact ⟨fun h => (Except.ok.inj h).symm, fun h => congrArg Except.ok h.symm⟩

theorem syncPlaneWith_error {sees : Permission → Bool}
    {write : PermissionPlane → Catalog → ScannedPermission → Except ServiceError Catalog}
    {now : Pair → Nat} {catalog : Catalog} {plane : PermissionPlane}
    {scanned : List ScannedPermission} {reason : String}
    (h : ∀ catalog', scanned.foldlM (write plane) catalog ≠ .ok catalog') :
    ∃ e, syncPlaneWith sees write now catalog plane scanned reason = .error e := by
  cases hsync : syncPlaneWith sees write now catalog plane scanned reason with
  | error e => exact ⟨e, rfl⟩
  | ok result =>
      obtain ⟨catalog', hfold, -⟩ := syncPlaneWith_eq_ok.mp hsync
      exact absurd hfold (h catalog')

/-- A row without its times. -/
def Permission.forgetTimes (r : Permission) : Permission :=
  { r with deleted_at := r.deleted_at.map fun _ => 0 }

/-- The catalogs hold the same rows up to their times. -/
def SameCatalog (catalog catalog' : Catalog) : Prop :=
  ∀ k, (catalog.lookup k).map Permission.forgetTimes = (catalog'.lookup k).map Permission.forgetTimes

/-- Both fail, or both succeed with the same catalog and the same report. -/
def Agree : Except ServiceError (Catalog × PlaneDiff) → Except ServiceError (Catalog × PlaneDiff) →
    Prop
  | .ok (catalog, d), .ok (catalog', d') =>
      SameCatalog catalog catalog' ∧ d.added = d'.added ∧ d.removed = d'.removed
  | .error _, .error _ => True
  | _, _ => False

/-- No row that a TypeORM find leaves out is scanned, and none of them counts as existing for the
script. -/
def NoneHidden (catalog : Catalog) (plane : PermissionPlane) (scanned : List ScannedPermission) :
    Prop :=
  ∀ r ∈ catalog.rows, r.found = false → r.pair ∉ scanned.map ScannedPermission.pair ∧
    (r.plane = plane → r.is_manual = false → r.is_deleted = true)

theorem hidden_iff {catalog : Catalog} {k : Pair} :
    Hidden catalog k ↔ ∃ r ∈ catalog.rows, r.pair = k ∧ r.found = false := by
  simp only [Hidden, Table.lookup_eq_some, and_assoc]

theorem existingRows_eq {catalog : Catalog} {plane : PermissionPlane}
    {scanned : List ScannedPermission} (h : NoneHidden catalog plane scanned) :
    existingRows Permission.found catalog plane = existingRows (fun _ => true) catalog plane := by
  apply List.filter_congr
  intro r hr
  cases hfound : r.found with
  | true => rfl
  | false =>
      -- A hidden row of the plane is soft-deleted or manual.
      have hrest := (h r hr hfound).2
      by_cases hplane : r.plane = plane
      · by_cases hmanual : r.is_manual = false
        · simp [hrest hplane hmanual]
        · simp [hmanual]
      · simp [hplane]

/-- The times do not matter. -/
theorem sameCatalog_removes (reason : String) (now now' : Pair → Nat) (removed : List Pair)
    (catalog : Catalog) : SameCatalog (removed.foldl (remove reason now) catalog)
      (removed.foldl (remove reason now') catalog) := by
  intro k
  rw [lookup_removes, lookup_removes, Option.map_map, Option.map_map]
  congr 1
  funext r
  show Permission.forgetTimes (if _ then _ else _) = Permission.forgetTimes (if _ then _ else _)
  split
  · rfl
  · rfl

theorem agree_of_not_fits (now : Pair → Nat) (time : Nat) (catalog : Catalog)
    (plane : PermissionPlane) (scanned : List ScannedPermission) (removedReason : String)
    (h : ¬ ∀ p ∈ scanned, p.Fits) :
    Agree (Service.syncPlane now catalog plane scanned removedReason)
      (Script.syncPlane time catalog plane scanned removedReason) := by
  have hscript : ∃ e, Script.syncPlane time catalog plane scanned removedReason = .error e :=
    syncPlaneWith_error fun catalog' hupserts => h (fits_of_upserts hupserts)
  have hservice : ∃ e, Service.syncPlane now catalog plane scanned removedReason = .error e :=
    syncPlaneWith_error fun catalog' hsaves => h (fits_of_upserts (upserts_of_saves hsaves).1)
  obtain ⟨e, he⟩ := hscript
  obtain ⟨e', he'⟩ := hservice
  rw [he, he']
  trivial

/-- The service fails on a hidden row that is scanned; the script does not. -/
theorem not_agree_of_hidden (now : Pair → Nat) (time : Nat) {catalog : Catalog}
    {plane : PermissionPlane} {scanned : List ScannedPermission} (removedReason : String)
    (hfits : ∀ p ∈ scanned, p.Fits) {p : ScannedPermission} (hp : p ∈ scanned)
    (hhidden : Hidden catalog p.pair) :
    ¬ Agree (Service.syncPlane now catalog plane scanned removedReason)
      (Script.syncPlane time catalog plane scanned removedReason) := by
  obtain ⟨catalog', hupserts⟩ := upserts_of_fits catalog hfits
  have hscript : Script.syncPlane time catalog plane scanned removedReason = .ok _ :=
    syncPlaneWith_eq_ok.mpr ⟨catalog', hupserts, rfl⟩
  have hservice : ∃ e, Service.syncPlane now catalog plane scanned removedReason = .error e :=
    syncPlaneWith_error fun final hsaves => (upserts_of_saves hsaves).2 p hp hhidden
  obtain ⟨e, he⟩ := hservice
  rw [hscript, he]
  exact not_false

/-- A hidden row that is not scanned: only the script can remove it. -/
theorem removed_of_hidden {catalog : Catalog} {plane : PermissionPlane}
    {scanned : List ScannedPermission} {r : Permission} (hr : r ∈ catalog.rows)
    (hfound : r.found = false) (hscanned : r.pair ∉ scanned.map ScannedPermission.pair)
    (hplane : r.plane = plane) (hmanual : r.is_manual = false) (hdeleted : r.is_deleted = false) :
    (diff (existingRows Permission.found catalog plane) scanned).removed ≠
      (diff (existingRows (fun _ => true) catalog plane) scanned).removed := by
  intro heq
  have hmem : r.pair ∈ (diff (existingRows (fun _ => true) catalog plane) scanned).removed :=
    mem_removed.mpr ⟨List.mem_map_of_mem
      (mem_existingRows.mpr ⟨hr, rfl, hplane, hmanual, hdeleted⟩), hscanned⟩
  rw [← heq] at hmem
  obtain ⟨r', hr', hpair⟩ := List.mem_map.mp (mem_removed.mp hmem).1
  obtain ⟨hr'mem, hfound', -⟩ := mem_existingRows.mp hr'
  rw [catalog.eq_of_key_eq hr'mem hr hpair, hfound] at hfound'
  cases hfound'

/-- **When the service and the script agree.** -/
theorem syncPlane_agree_iff (now : Pair → Nat) (time : Nat) (catalog : Catalog)
    (plane : PermissionPlane) (scanned : List ScannedPermission) (removedReason : String) :
    Agree (Service.syncPlane now catalog plane scanned removedReason)
        (Script.syncPlane time catalog plane scanned removedReason) ↔
      (∃ p ∈ scanned, ¬ p.Fits) ∨ NoneHidden catalog plane scanned := by
  by_cases hfits : ∀ p ∈ scanned, p.Fits
  · have hno : ¬ ∃ p ∈ scanned, ¬ p.Fits := fun ⟨p, hp, hlong⟩ => hlong (hfits p hp)
    rw [or_iff_right hno]
    by_cases hvisible : ∀ p ∈ scanned, ¬ Hidden catalog p.pair
    · -- Both get through the scan, with the same catalog.
      obtain ⟨catalog', hsaves⟩ := saves_of_fits hfits hvisible
      have hservice : Service.syncPlane now catalog plane scanned removedReason = .ok _ :=
        syncPlaneWith_eq_ok.mpr ⟨catalog', hsaves, rfl⟩
      have hscript : Script.syncPlane time catalog plane scanned removedReason = .ok _ :=
        syncPlaneWith_eq_ok.mpr ⟨catalog', (upserts_of_saves hsaves).1, rfl⟩
      rw [hservice, hscript]
      constructor
      · rintro ⟨-, -, hremoved⟩ r hr hfound
        have hscanned : r.pair ∉ scanned.map ScannedPermission.pair := by
          intro hmem
          obtain ⟨p, hp, hpair⟩ := List.mem_map.mp hmem
          exact hvisible p hp (hidden_iff.mpr ⟨r, hr, hpair.symm, hfound⟩)
        refine ⟨hscanned, fun hplane hmanual => ?_⟩
        by_contra hdeleted
        exact removed_of_hidden hr hfound hscanned hplane hmanual (by simpa using hdeleted) hremoved
      · intro hnone
        rw [existingRows_eq hnone]
        exact ⟨sameCatalog_removes removedReason now _ _ catalog', rfl, rfl⟩
    · simp only [not_forall, not_not] at hvisible
      obtain ⟨p, hp, hhidden⟩ := hvisible
      refine iff_of_false (not_agree_of_hidden now time removedReason hfits hp hhidden) ?_
      intro hnone
      obtain ⟨r, hr, hpair, hfound⟩ := hidden_iff.mp hhidden
      exact (hnone r hr hfound).1 (List.mem_map.mpr ⟨p, hp, hpair.symm⟩)
  · refine iff_of_true (agree_of_not_fits now time catalog plane scanned removedReason hfits) ?_
    simp only [not_forall] at hfits
    obtain ⟨p, hp, hlong⟩ := hfits
    exact .inl ⟨p, hp, hlong⟩

/-- A permission as the scan of the api plane lists it. -/
def roleRead : ScannedPermission :=
  ⟨"iam", ⟨"role:read", by decide +kernel⟩, "role", "read", none, .api⟩

/-- The permission was declared, was removed from the code and synced, and is declared again. -/
def staleRoleRead : Permission where
  service := ⟨"iam", by decide⟩
  permission := ⟨roleRead.permission, by decide⟩
  resource := ⟨"role", by decide⟩
  action := ⟨"read", by decide⟩
  plane := .api
  permission_name_th := ⟨"Read Role", by decide⟩
  permission_name_en := ⟨"Read Role", by decide⟩
  is_manual := false
  is_deleted := true
  deleted_at := some 1
  deleted_reason := some "no longer declared via @RequirePermission()"

def staleCatalog : Catalog := ⟨[staleRoleRead], by decide +kernel⟩

theorem roleRead_fits : ∀ p ∈ [roleRead], p.Fits := by
  intro p hp
  rw [List.mem_singleton.mp hp]
  exact ⟨by decide, by decide, by decide, by decide, by simp [roleRead]⟩

/-- The service cannot bring a soft-deleted permission back; the script can. -/
theorem stale_permission_refused :
    (∃ e, Service.syncPlane (fun _ => 2) staleCatalog .api [roleRead]
      "no longer declared via @RequirePermission()" = .error e) ∧
    (∃ result, Script.syncPlane 2 staleCatalog .api [roleRead]
      "no longer declared via @RequirePermission()" = .ok result) ∧
    ¬ Agree (Service.syncPlane (fun _ => 2) staleCatalog .api [roleRead]
        "no longer declared via @RequirePermission()")
      (Script.syncPlane 2 staleCatalog .api [roleRead]
        "no longer declared via @RequirePermission()") := by
  have hhidden : Hidden staleCatalog roleRead.pair :=
    hidden_iff.mpr ⟨staleRoleRead, List.mem_singleton_self _, rfl, rfl⟩
  refine ⟨syncPlaneWith_error fun final hsaves => ?_, ?_,
    not_agree_of_hidden _ _ _ roleRead_fits (List.mem_singleton_self _) hhidden⟩
  · exact (upserts_of_saves hsaves).2 roleRead (List.mem_singleton_self _) hhidden
  · obtain ⟨catalog', hupserts⟩ := upserts_of_fits _ roleRead_fits
    exact ⟨_, syncPlaneWith_eq_ok.mpr ⟨catalog', hupserts, rfl⟩⟩

end ErpApi.PermissionSync
