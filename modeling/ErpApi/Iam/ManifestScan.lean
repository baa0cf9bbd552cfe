import ErpApi.Basic.JsValue
import ErpApi.Iam.PermissionScan

set_option autoImplicit false

/-! # Permissions of a manifest

A frontend can list its pages and their components in `ui-permissions.manifest.json`. The file is
written by hand, so the scan checks the type of each value before it reads on: an entry that is not
as it should be is skipped with a warning, and the others are kept. `scan_rows` says which rows a
scan that returns has.

The one step that can throw is the warning about `components` that are no array: it writes
`String(page.permission)` into its text, and an object with a property `toString` of its own has no
text (`scan_throws_iff`).
-/

namespace ErpApi.PermissionSync

/-! ## The text of a value -/

mutual

/-- `String(value)` throws: the value, or a member of the array, is an object whose `toString` is
no function. -/
def textThrows : Json → Bool
  | .obj fields => (fields.map Prod.fst).contains "toString"
  | .arr items => someTextThrows items
  | _ => false

def someTextThrows : List Json → Bool
  | [] => false
  | v :: items => textThrows v || someTextThrows items

end

/-- `String(value)`; `none` is `undefined`. -/
def stringOf : Option Json → Except JsError String
  | none => .ok "undefined"
  | some v => if textThrows v then .error .typeError else .ok v.toText

/-! ## One entry -/

/-- The property of a record; `none` is `undefined`, also when the value is no record. -/
def property (name : String) : Json → Option Json
  | .obj fields => fields.lookup name
  | _ => none

/-- The value as a text that is not blank. -/
def nonEmptyString : Option Json → Option String
  | some (.str text) => if Js.trim text = "" then none else some text
  | _ => none

/-- The two prefixes of a ui permission, and the two levels of a manifest. -/
inductive UiPermissionPrefix where
  | page
  | component
  deriving DecidableEq

def UiPermissionPrefix.text : UiPermissionPrefix → String
  | .page => "page"
  | .component => "component"

def parseManifestName (value : Option Json) : Option Name :=
  match value with
  | none => none
  | some value => do
      let th ← nonEmptyString (property "th" value)
      let en ← nonEmptyString (property "en" value)
      return ⟨th, en⟩

theorem isSome_of_derive {permission : String} {parts : String × String}
    (h : derivePermissionParts permission = some parts) :
    (execPermissionString permission).isSome = true := by
  cases hexec : execPermissionString permission with
  | none =>
      rw [derivePermissionParts, hexec] at h
      cases h
  | some _ => rfl

section Scan

variable (service manifestPath : String)

/-- The row of an entry, or the warning that it is skipped with. -/
def parseManifestEntry (entry : Json) (expectedPrefix : UiPermissionPrefix) :
    Except String ScannedPermission :=
  match nonEmptyString (property "permission" entry) with
  | none => .error ("⚠ " ++ manifestPath ++ ": skipping " ++ expectedPrefix.text ++
      " entry with a missing or non-string \"permission\".")
  | some permission =>
      match h : derivePermissionParts permission with
      | none => .error ("⚠ " ++ manifestPath ++ ": skipping \"" ++ permission ++
          "\" — not a valid <resource>:<action> pair.")
      | some parts =>
          if !(expectedPrefix.text ++ ":").toList.isPrefixOf permission.toList then
            .error ("⚠ " ++ manifestPath ++ ": skipping \"" ++ permission ++
              "\" — an entry listed as a " ++ expectedPrefix.text ++ " must be a \"" ++
              expectedPrefix.text ++ ":*\" permission.")
          else .ok { service, permission := ⟨permission, isSome_of_derive h⟩,
                     resource := parts.1, action := parts.2,
                     name := parseManifestName (property "name" entry), plane := .ui }

/-! ## The scan -/

/-- What a scan has pushed and what it has warned of, in order. -/
structure ManifestScan where
  scanned : List ScannedPermission
  warnings : List String

def ManifestScan.push (s : ManifestScan) (row : ScannedPermission) : ManifestScan :=
  { s with scanned := s.scanned ++ [row] }

def ManifestScan.warn (s : ManifestScan) (text : String) : ManifestScan :=
  { s with warnings := s.warnings ++ [text] }

/-- One turn of the inner loop. -/
def scanComponent (scannedPage : Option ScannedPermission) (s : ManifestScan) (component : Json) :
    ManifestScan :=
  match parseManifestEntry service manifestPath component .component with
  | .error warning => s.warn warning
  | .ok scannedComponent =>
      match scannedPage with
      | none => s.push scannedComponent
      | some page => s.push { scannedComponent with resource := page.resource }

/-- What follows the entry of the page itself. -/
def scanComponents (page : Json) (scannedPage : Option ScannedPermission) (s : ManifestScan) :
    Except JsError ManifestScan :=
  match property "components" page with
  | none => .ok s
  | some (.arr components) =>
      .ok (components.foldl (scanComponent service manifestPath scannedPage) s)
  | some _ => do
      let permission ← stringOf (property "permission" page)
      return s.warn ("⚠ " ++ manifestPath ++ ": ignoring \"components\" of \"" ++ permission ++
        "\" — must be an array.")

/-- One turn of the outer loop. -/
def scanPage (s : ManifestScan) (page : Json) : Except JsError ManifestScan :=
  match parseManifestEntry service manifestPath page .page with
  | .error warning => scanComponents service manifestPath page none (s.warn warning)
  | .ok row => scanComponents service manifestPath page (some row) (s.push row)

/-- The scan of a manifest that is valid JSON. -/
def scanUiPermissionsManifest (manifest : Json) : Except JsError ManifestScan :=
  match property "pages" manifest with
  | none => .ok ⟨[], []⟩
  | some (.arr pages) => pages.foldlM (scanPage service manifestPath) ⟨[], []⟩
  | some _ => .ok ⟨[], ["⚠ Skipping " ++ manifestPath ++ ": \"pages\" must be an array."]⟩

end Scan

/-! ## The rows that a manifest declares -/

/-- The values of an array property. -/
def elements (name : String) (value : Json) : List Json :=
  match property name value with
  | some (.arr items) => items
  | _ => []

theorem elements_of_none {name : String} {value : Json} (h : property name value = none) :
    elements name value = [] := by
  rw [elements, h]

theorem elements_of_arr {name : String} {value : Json} {items : List Json}
    (h : property name value = some (.arr items)) : elements name value = items := by
  rw [elements, h]

theorem elements_of_other {name : String} {value v : Json} (h : property name value = some v)
    (hnotArr : ∀ items, v = .arr items → False) : elements name value = [] := by
  unfold elements
  split
  · rename_i items harr
    exact (hnotArr items (Option.some.inj (h.symm.trans harr))).elim
  · rfl

/-- The name counts: both halves of it are texts that are not blank. -/
def IsName (value : Json) (name : Name) : Prop :=
  property "th" value = some (.str name.th) ∧ Js.trim name.th ≠ "" ∧
    property "en" value = some (.str name.en) ∧ Js.trim name.en ≠ ""

/-- The entry declares the row: it is a record with a well-formed permission of its level. -/
structure Declared (service : String) (level : UiPermissionPrefix) (entry : Json)
    (row : ScannedPermission) : Prop where
  service_eq : row.service = service
  permission : property "permission" entry = some (.str row.permission.text)
  level_eq : row.permission.parts.1 = level.text
  action : row.action = row.permission.parts.2
  name : ∀ name, row.name = some name ↔
    ∃ value, property "name" entry = some value ∧ IsName value name
  plane : row.plane = .ui

/-- The rows of components, in order; each takes the given resource. -/
inductive ComponentRows (service resource : String) : List Json → List ScannedPermission → Prop
  | nil : ComponentRows service resource [] []
  | row {component : Json} {components : List Json} {row : ScannedPermission}
      {rows : List ScannedPermission} : Declared service .component component row →
      row.resource = resource → ComponentRows service resource components rows →
      ComponentRows service resource (component :: components) (row :: rows)
  | skip {component : Json} {components : List Json} {rows : List ScannedPermission} :
      (∀ row, ¬ Declared service .component component row) →
      ComponentRows service resource components rows →
      ComponentRows service resource (component :: components) rows

/-- The rows of pages, each followed by those of its components. -/
inductive PageRows (service : String) : List Json → List ScannedPermission → Prop
  | nil : PageRows service [] []
  | row {page : Json} {pages : List Json} {row : ScannedPermission}
      {components rows : List ScannedPermission} : Declared service .page page row →
      derivePermissionParts row.permission.text = some (row.resource, row.action) →
      ComponentRows service row.resource (elements "components" page) components →
      PageRows service pages rows → PageRows service (page :: pages) (row :: components ++ rows)
  | skip {page : Json} {pages : List Json} {components rows : List ScannedPermission} :
      (∀ row, ¬ Declared service .page page row) →
      ComponentRows service "component" (elements "components" page) components →
      PageRows service pages rows → PageRows service (page :: pages) (components ++ rows)

/-! ## An entry is kept when it declares a row -/

variable {service manifestPath : String} {entry : Json} {level : UiPermissionPrefix}
  {row row' : ScannedPermission}

theorem nonEmptyString_eq_some {value : Option Json} {text : String} :
    nonEmptyString value = some text ↔ value = some (.str text) ∧ Js.trim text ≠ "" := by
  unfold nonEmptyString
  split
  · rename_i text'
    split
    · rename_i hblank
      constructor
      · intro h
        cases h
      · rintro ⟨h, hne⟩
        obtain rfl := Json.str.inj (Option.some.inj h)
        exact absurd hblank hne
    · rename_i hne
      constructor
      · rintro ⟨⟩
        exact ⟨rfl, hne⟩
      · rintro ⟨⟨⟩, -⟩
        rfl
  · rename_i hother
    constructor
    · intro h
      cases h
    · rintro ⟨rfl, -⟩
      exact absurd rfl (hother text)

theorem parseManifestName_eq_some {value : Option Json} {name : Name} :
    parseManifestName value = some name ↔ ∃ v, value = some v ∧ IsName v name := by
  cases value with
  | none =>
      constructor
      · intro h
        cases h
      · rintro ⟨v, h, -⟩
        cases h
  | some v =>
      simp only [parseManifestName, Option.bind_eq_bind, Option.bind_eq_some_iff,
        nonEmptyString_eq_some]
      constructor
      · rintro ⟨th, ⟨hth, hthne⟩, en, ⟨hen, henne⟩, hname⟩
        obtain rfl : Name.mk th en = name := Option.some.inj hname
        exact ⟨v, rfl, hth, hthne, hen, henne⟩
      · rintro ⟨v', hv, hth, hthne, hen, henne⟩
        obtain rfl := Option.some.inj hv
        exact ⟨name.th, ⟨hth, hthne⟩, name.en, ⟨hen, henne⟩, rfl⟩

/-- The text starts with the level and a colon when the level is the first part. -/
theorem startsWith_iff (permission : PermissionString) (level : UiPermissionPrefix) :
    (level.text ++ ":").toList.isPrefixOf permission.text.toList = true ↔
      permission.parts.1 = level.text := by
  have hlevel : ':' ∉ level.text.toList := by cases level <;> decide
  have hpart : ':' ∉ permission.parts.1.toList := by
    have hmem : permission.parts.1 ∈ Js.split ':' permission.text := by
      rw [permission.split_text]
      exact List.mem_cons_self
    exact Js.not_mem_of_mem_split hmem
  rw [List.isPrefixOf_iff_prefix, permission.toList_text, String.toList_append]
  constructor
  · rintro ⟨rest, hrest⟩
    have hlists : level.text.toList = permission.parts.1.toList := by
      have h := congrArg (List.takeWhile (· != ':')) hrest
      have htake : ∀ {l : List Char} (l' : List Char), ':' ∉ l →
          (l ++ ':' :: l').takeWhile (· != ':') = l := by
        intro l l' hl
        rw [List.takeWhile_append_of_pos]
        · simp
        · intro c hc
          simpa using fun heq : c = ':' => hl (heq ▸ hc)
      rw [htake _ hpart] at h
      rw [← h, List.append_assoc]
      exact (htake rest hlevel).symm
    exact (String.toList_injective hlists).symm
  · intro h
    rw [h]
    exact ⟨permission.parts.2.toList, by simp⟩

theorem derive_parts (permission : PermissionString) {parts : String × String}
    (h : derivePermissionParts permission.text = some parts) :
    parts.2 = permission.parts.2 ∧
      (permission.parts.1 ≠ "page" → parts.1 = permission.parts.1) := by
  have hexec : execPermissionString permission.text = some permission.parts := by
    rw [PermissionString.parts, Option.some_get]
  rw [derivePermissionParts, hexec] at h
  dsimp only at h
  split at h
  · obtain rfl := Option.some.inj h
    exact ⟨rfl, fun _ => rfl⟩
  · rename_i hpage
    obtain rfl := Option.some.inj h
    exact ⟨rfl, fun hne => absurd hne hpage⟩

/-- The row of an entry is one that it declares, with the resource of its permission. -/
theorem declared_of_parse (h : parseManifestEntry service manifestPath entry level = .ok row) :
    Declared service level entry row ∧
      derivePermissionParts row.permission.text = some (row.resource, row.action) := by
  unfold parseManifestEntry at h
  split at h
  · cases h
  · rename_i permission hpermission
    split at h
    · cases h
    · rename_i parts hparts
      split at h
      · cases h
      · rename_i hstarts
        obtain rfl := Except.ok.inj h
        have hlevel : (level.text ++ ":").toList.isPrefixOf permission.toList = true := by
          simpa using hstarts
        refine ⟨⟨rfl, (nonEmptyString_eq_some.mp hpermission).1, ?_, ?_, ?_, rfl⟩, hparts⟩
        · exact (startsWith_iff ⟨permission, isSome_of_derive hparts⟩ level).mp hlevel
        · exact (derive_parts ⟨permission, isSome_of_derive hparts⟩ hparts).1
        · intro name
          exact parseManifestName_eq_some

variable (manifestPath) in
/-- An entry that declares a row is kept; the scan takes the resource from the permission. -/
theorem parse_of_declared (h : Declared service level entry row) :
    ∃ resource, derivePermissionParts row.permission.text = some (resource, row.action) ∧
      parseManifestEntry service manifestPath entry level = .ok { row with resource } := by
  obtain ⟨parts, hparts⟩ := row.permission.derive_isSome
  have haction : parts.2 = row.action := by rw [(derive_parts row.permission hparts).1, h.action]
  have hcolon : ':' ∈ row.permission.text.toList := by
    rw [row.permission.toList_text]
    simp
  have hpermission : nonEmptyString (property "permission" entry) = some row.permission.text :=
    nonEmptyString_eq_some.mpr ⟨h.permission, Js.trim_ne_empty hcolon (by decide)⟩
  have hstarts : (level.text ++ ":").toList.isPrefixOf row.permission.text.toList = true :=
    (startsWith_iff row.permission level).mpr h.level_eq
  have hname : parseManifestName (property "name" entry) = row.name := by
    refine Option.ext fun name => ?_
    rw [parseManifestName_eq_some]
    exact (h.name name).symm
  refine ⟨parts.1, by rw [hparts, ← haction], ?_⟩
  unfold parseManifestEntry
  rw [hpermission]
  dsimp only
  split
  · rename_i hnone
    rw [hparts] at hnone
    cases hnone
  · rename_i parts' hparts'
    obtain rfl : parts = parts' := Option.some.inj (hparts.symm.trans hparts')
    rw [hstarts, hname, haction, ← h.service_eq, ← h.plane]
    rfl

/-- An entry declares one row at most, but for the resource. -/
theorem Declared.unique (h : Declared service level entry row)
    (h' : Declared service level entry row') (hresource : row.resource = row'.resource) :
    row = row' := by
  obtain ⟨resource, -, hparse⟩ := parse_of_declared "" h
  obtain ⟨resource', -, hparse'⟩ := parse_of_declared "" h'
  have hrows := Except.ok.inj (hparse.symm.trans hparse')
  calc row = { { row with resource } with resource := row.resource } := rfl
    _ = { { row' with resource := resource' } with resource := row'.resource } := by
        rw [hrows, hresource]
    _ = row' := rfl

theorem not_declared_of_parse {warning : String}
    (h : parseManifestEntry service manifestPath entry level = .error warning) :
    ∀ row, ¬ Declared service level entry row := by
  intro row hrow
  obtain ⟨resource, -, hparse⟩ := parse_of_declared manifestPath hrow
  rw [h] at hparse
  cases hparse

/-! ## The loops -/

/-- The resource that a page's components take. -/
def componentResource (scannedPage : Option ScannedPermission) : String :=
  (scannedPage.map (·.resource)).getD "component"

theorem componentRows_skip_iff {resource : String} {component : Json} {components : List Json}
    {rows : List ScannedPermission} (h : ∀ row, ¬ Declared service .component component row) :
    ComponentRows service resource (component :: components) rows ↔
      ComponentRows service resource components rows := by
  constructor
  · rintro (_ | ⟨hrow, _, _⟩ | ⟨_, hrest⟩)
    · exact absurd hrow (h _)
    · exact hrest
  · exact .skip h

theorem componentRows_row_iff {resource : String} {component : Json} {components : List Json}
    {rows : List ScannedPermission} (h : Declared service .component component row)
    (hresource : row.resource = resource) :
    ComponentRows service resource (component :: components) rows ↔
      ∃ rest, ComponentRows service resource components rest ∧ rows = row :: rest := by
  constructor
  · rintro (_ | ⟨hrow, hsame, hrest⟩ | ⟨hskip, _⟩)
    · exact ⟨_, hrest, by rw [h.unique hrow (hresource.trans hsame.symm)]⟩
    · exact absurd h (hskip row)
  · rintro ⟨rest, hrest, rfl⟩
    exact .row h hresource hrest

variable (manifestPath) in
/-- The inner loop pushes the rows of the components. -/
theorem scanComponent_rows (scannedPage : Option ScannedPermission) (components : List Json)
    (s : ManifestScan) :
    ∃ rows, (components.foldl (scanComponent service manifestPath scannedPage) s).scanned =
        s.scanned ++ rows ∧
      ∀ rows', ComponentRows service (componentResource scannedPage) components rows' ↔
        rows' = rows := by
  induction components generalizing s with
  | nil =>
      refine ⟨[], by simp, fun rows' => ?_⟩
      constructor
      · rintro ⟨⟩
        rfl
      · rintro rfl
        exact .nil
  | cons component components ih =>
      rw [List.foldl_cons]
      cases hparse : parseManifestEntry service manifestPath component .component with
      | error warning =>
          have hstep : scanComponent service manifestPath scannedPage s component =
              s.warn warning := by rw [scanComponent, hparse]
          obtain ⟨rows, hscanned, hrows⟩ := ih (s.warn warning)
          refine ⟨rows, by rw [hstep, hscanned]; rfl, fun rows' => ?_⟩
          rw [componentRows_skip_iff (not_declared_of_parse hparse)]
          exact hrows rows'
      | ok scannedComponent =>
          obtain ⟨hdeclared, hderive⟩ := declared_of_parse hparse
          -- The row as the loop pushes it.
          let row : ScannedPermission :=
            { scannedComponent with resource := componentResource scannedPage }
          have hrow : Declared service .component component row :=
            ⟨hdeclared.service_eq, hdeclared.permission, hdeclared.level_eq, hdeclared.action,
              hdeclared.name, hdeclared.plane⟩
          have hstep : scanComponent service manifestPath scannedPage s component =
              s.push row := by
            rw [scanComponent, hparse]
            cases scannedPage with
            | none =>
                have hresource : scannedComponent.resource = "component" := by
                  have hlevel := hdeclared.level_eq
                  have hne : scannedComponent.permission.parts.1 ≠ "page" := by
                    rw [hlevel]
                    decide
                  exact ((derive_parts scannedComponent.permission hderive).2 hne).trans hlevel
                show s.push scannedComponent =
                  s.push { scannedComponent with resource := "component" }
                rw [← hresource]
            | some page => rfl
          obtain ⟨rows, hscanned, hrows⟩ := ih (s.push row)
          refine ⟨row :: rows, ?_, fun rows' => ?_⟩
          · rw [hstep, hscanned, ManifestScan.push, List.append_assoc]
            rfl
          · rw [componentRows_row_iff hrow rfl]
            constructor
            · rintro ⟨rest, hrest, rfl⟩
              rw [(hrows rest).mp hrest]
            · rintro rfl
              exact ⟨rows, (hrows rows).mpr rfl, rfl⟩

/-- The text of the warning about the components of a page throws. -/
def warningThrows (page : Json) : Bool :=
  match property "components" page with
  | none => false
  | some (.arr _) => false
  | some _ => (property "permission" page).any textThrows

variable (manifestPath) in
/-- After the entry of a page, the scan throws or pushes the rows of the components. -/
theorem scanComponents_rows (page : Json) (scannedPage : Option ScannedPermission)
    (s : ManifestScan) :
    (warningThrows page = true ∧
        scanComponents service manifestPath page scannedPage s = .error .typeError) ∨
      (warningThrows page = false ∧ ∃ s' rows,
        scanComponents service manifestPath page scannedPage s = .ok s' ∧
        s'.scanned = s.scanned ++ rows ∧
        ∀ rows', ComponentRows service (componentResource scannedPage)
          (elements "components" page) rows' ↔ rows' = rows) := by
  have hnil : ∀ rows', ComponentRows service (componentResource scannedPage) [] rows' ↔
      rows' = [] := (scanComponent_rows "" scannedPage [] ⟨[], []⟩).elim
    fun rows h => by
      obtain rfl : rows = [] := by simpa using h.1.symm
      exact h.2
  unfold scanComponents warningThrows
  split
  · rename_i hnone
    rw [elements_of_none hnone]
    exact .inr ⟨rfl, s, [], rfl, by simp, hnil⟩
  · rename_i components harr
    rw [elements_of_arr harr]
    obtain ⟨rows, hscanned, hrows⟩ :=
      scanComponent_rows manifestPath scannedPage components s
    exact .inr ⟨rfl, _, rows, rfl, hscanned, hrows⟩
  · rename_i value hnotArr hvalue
    rw [elements_of_other hvalue hnotArr]
    cases hpermission : property "permission" page with
    | none => exact .inr ⟨rfl, _, [], rfl, by simp [ManifestScan.warn], hnil⟩
    | some permission =>
        cases hthrows : textThrows permission with
        | true => exact .inl ⟨hthrows, by simp [stringOf, hthrows, bind, Except.bind]⟩
        | false =>
            have hstring : stringOf (some permission) = .ok permission.toText := by
              rw [stringOf, hthrows]
              rfl
            rw [hstring]
            exact .inr ⟨hthrows, _, [], rfl, by simp [ManifestScan.warn], hnil⟩

theorem pageRows_skip_iff {page : Json} {pages : List Json}
    {components rows : List ScannedPermission}
    (h : ∀ row, ¬ Declared service .page page row)
    (hcomponents : ∀ rows', ComponentRows service "component" (elements "components" page) rows' ↔
      rows' = components) :
    PageRows service (page :: pages) rows ↔
      ∃ rest, PageRows service pages rest ∧ rows = components ++ rest := by
  constructor
  · rintro (_ | ⟨hrow, _, _, _⟩ | ⟨_, hmine, hrest⟩)
    · exact absurd hrow (h _)
    · exact ⟨_, hrest, by rw [(hcomponents _).mp hmine]⟩
  · rintro ⟨rest, hrest, rfl⟩
    exact .skip h ((hcomponents _).mpr rfl) hrest

theorem pageRows_row_iff {page : Json} {pages : List Json}
    {components rows : List ScannedPermission}
    (h : Declared service .page page row)
    (hderive : derivePermissionParts row.permission.text = some (row.resource, row.action))
    (hcomponents : ∀ rows', ComponentRows service row.resource (elements "components" page) rows' ↔
      rows' = components) :
    PageRows service (page :: pages) rows ↔
      ∃ rest, PageRows service pages rest ∧ rows = row :: components ++ rest := by
  constructor
  · rintro (_ | ⟨hrow, hderive', hmine, hrest⟩ | ⟨hskip, _, _⟩)
    · rename_i row' _ _
      obtain ⟨resource, hresource, hparse⟩ := parse_of_declared "" h
      obtain ⟨resource', hresource', hparse'⟩ := parse_of_declared "" hrow
      have hrows := Except.ok.inj (hparse.symm.trans hparse')
      have hpermission := congrArg ScannedPermission.permission hrows
      dsimp only at hpermission
      rw [← hpermission, hderive] at hderive'
      obtain rfl := h.unique hrow (congrArg Prod.fst (Option.some.inj hderive'))
      exact ⟨_, hrest, by rw [(hcomponents _).mp hmine]⟩
    · exact absurd h (hskip row)
  · rintro ⟨rest, hrest, rfl⟩
    exact .row h hderive ((hcomponents _).mpr rfl) hrest

variable (service manifestPath) in
/-- The outer loop pushes the rows of the pages, unless a warning throws. -/
theorem scanPage_rows (pages : List Json) (s : ManifestScan) :
    ((∃ page ∈ pages, warningThrows page = true) ∧
        pages.foldlM (scanPage service manifestPath) s = .error .typeError) ∨
      ((∀ page ∈ pages, warningThrows page = false) ∧ ∃ s' rows,
        pages.foldlM (scanPage service manifestPath) s = .ok s' ∧
        s'.scanned = s.scanned ++ rows ∧ ∀ rows', PageRows service pages rows' ↔ rows' = rows) := by
  induction pages generalizing s with
  | nil =>
      refine .inr ⟨by simp, s, [], rfl, by simp, fun rows' => ?_⟩
      constructor
      · rintro ⟨⟩
        rfl
      · rintro rfl
        exact .nil
  | cons page pages ih =>
      -- The turn of the page, and what its rows are.
      have hturn : (warningThrows page = true ∧
            scanPage service manifestPath s page = .error .typeError) ∨
          (warningThrows page = false ∧ ∃ s' mine,
            scanPage service manifestPath s page = .ok s' ∧ s'.scanned = s.scanned ++ mine ∧
            ∀ rows, PageRows service (page :: pages) rows ↔
              ∃ rest, PageRows service pages rest ∧ rows = mine ++ rest) := by
        unfold scanPage
        cases hparse : parseManifestEntry service manifestPath page .page with
        | error warning =>
            rcases scanComponents_rows manifestPath page none (s.warn warning) with
              ⟨hthrows, herror⟩ | ⟨hthrows, s', rows, hok, hscanned, hrows⟩
            · exact .inl ⟨hthrows, herror⟩
            · exact .inr ⟨hthrows, s', rows, hok, hscanned, fun rows' =>
                pageRows_skip_iff (not_declared_of_parse hparse) hrows⟩
        | ok row =>
            obtain ⟨hdeclared, hderive⟩ := declared_of_parse hparse
            rcases scanComponents_rows manifestPath page (some row) (s.push row)
              with ⟨hthrows, herror⟩ | ⟨hthrows, s', rows, hok, hscanned, hrows⟩
            · exact .inl ⟨hthrows, herror⟩
            · refine .inr ⟨hthrows, s', row :: rows, hok, ?_, fun rows' =>
                pageRows_row_iff hdeclared hderive hrows⟩
              rw [hscanned, ManifestScan.push, List.append_assoc]
              rfl
      rw [List.foldlM_cons]
      rcases hturn with ⟨hthrows, herror⟩ | ⟨hthrows, s₁, mine, hok, hscanned, hmine⟩
      · exact .inl ⟨⟨page, List.mem_cons_self, hthrows⟩, by rw [herror]; rfl⟩
      · rw [hok]
        rcases ih s₁ with
          ⟨⟨page', hmem, hthrows'⟩, herror⟩ | ⟨hnone, s', rows, hrest, hscanned', hrows⟩
        · exact .inl ⟨⟨page', List.mem_cons_of_mem _ hmem, hthrows'⟩, herror⟩
        · refine .inr ⟨List.forall_mem_cons.mpr ⟨hthrows, hnone⟩, s', mine ++ rows, hrest, ?_, ?_⟩
          · rw [hscanned', hscanned, List.append_assoc]
          · intro rows'
            rw [hmine]
            constructor
            · rintro ⟨rest, hrest, rfl⟩
              rw [(hrows rest).mp hrest]
            · rintro rfl
              exact ⟨rows, (hrows rows).mpr rfl, rfl⟩

/-! ## A manifest -/

/-- An entry that declares nothing leaves the rows of the other pages as they are. -/
theorem pageRows_insert {before after : List Json} {rows : List ScannedPermission}
    (h : ∀ row, ¬ Declared service .page entry row) (hnone : elements "components" entry = []) :
    PageRows service (before ++ entry :: after) rows ↔ PageRows service (before ++ after) rows := by
  have hnil : ∀ rows', ComponentRows service "component" (elements "components" entry) rows' ↔
      rows' = [] := by
    intro rows'
    rw [hnone]
    constructor
    · rintro ⟨⟩
      rfl
    · rintro rfl
      exact .nil
  induction before generalizing rows with
  | nil =>
      rw [List.nil_append, List.nil_append, pageRows_skip_iff h hnil]
      simp
  | cons page before ih =>
      constructor
      · rintro (_ | ⟨hrow, hderive, hmine, hrest⟩ | ⟨hskip, hmine, hrest⟩)
        · exact .row hrow hderive hmine (ih.mp hrest)
        · exact .skip hskip hmine (ih.mp hrest)
      · rintro (_ | ⟨hrow, hderive, hmine, hrest⟩ | ⟨hskip, hmine, hrest⟩)
        · exact .row hrow hderive hmine (ih.mpr hrest)
        · exact .skip hskip hmine (ih.mpr hrest)

theorem componentRows_insert {resource : String} {before after : List Json}
    {rows : List ScannedPermission} (h : ∀ row, ¬ Declared service .component entry row) :
    ComponentRows service resource (before ++ entry :: after) rows ↔
      ComponentRows service resource (before ++ after) rows := by
  induction before generalizing rows with
  | nil => exact componentRows_skip_iff h
  | cons component before ih =>
      constructor
      · rintro (_ | ⟨hrow, hresource, hrest⟩ | ⟨hskip, hrest⟩)
        · exact .row hrow hresource (ih.mp hrest)
        · exact .skip hskip (ih.mp hrest)
      · rintro (_ | ⟨hrow, hresource, hrest⟩ | ⟨hskip, hrest⟩)
        · exact .row hrow hresource (ih.mpr hrest)
        · exact .skip hskip (ih.mpr hrest)

/-- The scan of a manifest returns the rows that the manifest declares if and only if no warning
about the components of a page throws. What an entry declares is decided by the entry: one that
declares nothing changes no row of the others. -/
theorem scan_rows_iff (service manifestPath : String) (manifest : Json) :
    ((∃ s, scanUiPermissionsManifest service manifestPath manifest = .ok s ∧
        ∀ rows, PageRows service (elements "pages" manifest) rows ↔ rows = s.scanned) ↔
      ∀ page ∈ elements "pages" manifest, warningThrows page = false) ∧
    (∀ entry before after rows, (∀ row, ¬ Declared service .page entry row) →
      elements "components" entry = [] →
      (PageRows service (before ++ entry :: after) rows ↔
        PageRows service (before ++ after) rows)) ∧
    ∀ resource entry before after rows, (∀ row, ¬ Declared service .component entry row) →
      (ComponentRows service resource (before ++ entry :: after) rows ↔
        ComponentRows service resource (before ++ after) rows) := by
  refine ⟨?_, fun _ _ _ _ h hnone => pageRows_insert h hnone,
    fun _ _ _ _ _ h => componentRows_insert h⟩
  have hnil : ∀ rows, PageRows service [] rows ↔ rows = [] := by
    intro rows
    constructor
    · rintro ⟨⟩
      rfl
    · rintro rfl
      exact .nil
  unfold scanUiPermissionsManifest
  split
  · rename_i hnone
    rw [elements_of_none hnone]
    exact iff_of_true ⟨⟨[], []⟩, rfl, hnil⟩ (by simp)
  · rename_i pages harr
    rw [elements_of_arr harr]
    rcases scanPage_rows service manifestPath pages ⟨[], []⟩ with
      ⟨⟨page, hmem, hthrows⟩, herror⟩ | ⟨hnone, s, rows, hok, hscanned, hrows⟩
    · refine iff_of_false ?_ fun h => ?_
      · rintro ⟨s, hok, -⟩
        rw [herror] at hok
        cases hok
      · rw [h page hmem] at hthrows
        cases hthrows
    · rw [List.nil_append] at hscanned
      exact iff_of_true ⟨s, hok, by rw [hscanned]; exact hrows⟩ hnone
  · rename_i value hnotArr hvalue
    rw [elements_of_other hvalue hnotArr]
    exact iff_of_true ⟨⟨[], _⟩, rfl, hnil⟩ (by simp)

/-- A page whose permission is an object with a property `toString`, and whose components are no
array, beside a page that is as it should be. -/
def toStringManifest : Json :=
  .obj [("pages", .arr [
    .obj [("permission", .str "page:view_reports")],
    .obj [("permission", .obj [("toString", .bool true)]), ("components", .obj [])]])]

/-- The scan throws, and the row of the other page is lost. -/
theorem toStringManifest_throws : ¬ ∃ s,
    scanUiPermissionsManifest "iam" "apps/iam/ui-permissions.manifest.json" toStringManifest =
        .ok s ∧
      ∀ rows, PageRows "iam" (elements "pages" toStringManifest) rows ↔ rows = s.scanned := by
  have hthrows : (scanUiPermissionsManifest "iam" "apps/iam/ui-permissions.manifest.json"
      toStringManifest).isOk = false := by decide +kernel
  rintro ⟨s, hok, -⟩
  rw [hok] at hthrows
  cases hthrows

end ErpApi.PermissionSync
