import ErpApi.Basic.Interleaving
import ErpApi.Basic.Utf8
import ErpApi.Common.BaseService

set_option autoImplicit false

/-! # Updating a print template

The HTML and the JavaScript of a print template are objects of the storage service; the row has
their places and the hashes of their contents. `PrintTemplatesService.update` reads the row,
uploads each content that is new, writes the row, and then asks the storage service to remove
the objects that it has replaced. The row is written with TypeORM's `preload` and `save`: the
first takes the stored row and sets the columns of the update, among them always the six columns
of the two assets; the second loads the row again and writes the columns in which the two differ.

Each database statement and each operation of the storage service is atomic and may fail, before
or after it takes effect; those of different calls interleave. `update` does not wait for the
removals, so they are messages on their way to the storage service.

The calls here are all about one template. Left out are the columns that nothing here reads.
-/

namespace ErpApi.Report.PrintTemplates

/-! ## The storage service -/

/-- The place of an object. -/
structure Ref where
  bucket : String
  path : String
  deriving DecidableEq

/-- The bytes of the name are taken from the low bytes of its code units. -/
def decodeOriginalName (originalname : String) : String :=
  Utf8.decode ((originalname.toList.flatMap Js.codeUnits).map UInt8.ofNat)

/-- The last portion of a path, without the slashes after it. -/
def lastPortion (path : String) : List Char :=
  ((path.toList.reverse.dropWhile (· = '/')).takeWhile (· ≠ '/')).reverse

/-- The call `path.extname(path)`: what follows the last dot, with the dot, unless the dot is the
first character of the name. -/
def extname (path : String) : String :=
  let name := lastPortion path
  let afterDot := name.reverse.takeWhile (· ≠ '.')
  if name.length ≤ afterDot.length + 1 ∨ name = ['.', '.'] then ""
  else String.ofList ('.' :: afterDot.reverse)

/-- The call `path.basename(path, suffix)`. -/
def basename (path suffix : String) : String :=
  let name := lastPortion path
  if suffix.toList.isSuffixOf name ∧ name ≠ suffix.toList then
    String.ofList (name.take (name.length - suffix.length))
  else String.ofList name

/-- The call `baseName.replace(/[^a-zA-Z0-9.\-_]/g, '_')`. -/
def sanitize (baseName : String) : String :=
  String.ofList (baseName.toList.flatMap fun c =>
    if c.isAlphanum || c = '.' || c = '-' || c = '_' then [c]
    else (Js.codeUnits c).map fun _ => '_')

/-- The key that `upload` gives to a new object. -/
def objectKey (key originalname uuid : String) : String :=
  let originalName := decodeOriginalName originalname
  let fileExt := extname originalName
  key ++ "/" ++ sanitize (basename originalName fileExt) ++ "-" ++ uuid ++ fileExt

example : objectKey "reports/print-templates/t" "invoice a4.html" "u" =
    "reports/print-templates/t/invoice_a4-u.html" := by decide +kernel

/-! ## Rows -/

/-- The columns of the two assets. -/
structure Assets where
  html_bucket : String
  html_path : String
  html_hash : Option String
  js_bucket : Option String
  js_path : Option String
  js_hash : Option String
  deriving DecidableEq

structure PrintTemplate extends Assets where
  code : String
  deriving DecidableEq

namespace Assets

def htmlRef (a : Assets) : Ref := ⟨a.html_bucket, a.html_path⟩

def jsRef (a : Assets) : Option Ref :=
  match a.js_bucket, a.js_path with
  | some bucket, some path => some ⟨bucket, path⟩
  | _, _ => none

/-- The objects that the columns refer to. -/
def refs (a : Assets) : List Ref := a.htmlRef :: a.jsRef.toList

end Assets

/-- A column after the `UPDATE` of `save`, which leaves out what does not differ from the row that
it has loaded. -/
def column {α : Type} [DecidableEq α] (entity loaded stored : α) : α :=
  if entity = loaded then stored else entity

def PrintTemplate.save (entity loaded stored : PrintTemplate) : PrintTemplate where
  html_bucket := column entity.html_bucket loaded.html_bucket stored.html_bucket
  html_path := column entity.html_path loaded.html_path stored.html_path
  html_hash := column entity.html_hash loaded.html_hash stored.html_hash
  js_bucket := column entity.js_bucket loaded.js_bucket stored.js_bucket
  js_path := column entity.js_path loaded.js_path stored.js_path
  js_hash := column entity.js_hash loaded.js_hash stored.js_hash
  code := column entity.code loaded.code stored.code

/-! ## Requests -/

structure UpdatePrintTemplateDTO where
  code : Field String
  html_content : Field String
  js_content : Field String
  deriving DecidableEq

structure Request where
  dto : UpdatePrintTemplateDTO
  /-- What the storage service draws for the uploads of the call. -/
  htmlUuid : String
  jsUuid : String
  deriving DecidableEq

/-- What the service takes from its libraries and its configuration. -/
structure Env where
  /-- The template that the calls update. -/
  id : String
  bucket : String
  /-- The hex digest of a content. -/
  hashContent : String → String

def templateStorageKey (id : String) : String := "reports/print-templates/" ++ id

/-- An object that a call puts into the storage. -/
structure Upload where
  ref : Ref
  content : String
  deriving DecidableEq

section Plan

variable (env : Env) (request : Request) (existing : PrintTemplate)

/-- The name of a file without its ending: `rest.code ?? existing.code`. -/
def fileCode : String :=
  match request.dto.code with
  | .value code => code
  | _ => existing.code

/-- The upload that the request needs for the HTML: none if the content has the stored hash. -/
def htmlUpload : Option Upload :=
  match request.dto.html_content with
  | .value content =>
      if some (env.hashContent content) = existing.html_hash then none
      else some ⟨⟨env.bucket, objectKey (templateStorageKey env.id)
        (fileCode request existing ++ ".html") request.htmlUuid⟩, content⟩
  | _ => none

def jsUpload : Option Upload :=
  match request.dto.js_content with
  | .value content =>
      if some (env.hashContent content) = existing.js_hash then none
      else some ⟨⟨env.bucket, objectKey (templateStorageKey env.id)
        (fileCode request existing ++ ".js") request.jsUuid⟩, content⟩
  | _ => none

/-- The columns of the assets in `preloadData`. -/
def preloadData : Assets :=
  let html := htmlUpload env request existing
  let js := jsUpload env request existing
  { html_bucket := (html.map (·.ref.bucket)).getD existing.html_bucket
    html_path := (html.map (·.ref.path)).getD existing.html_path
    html_hash := (html.map (env.hashContent ·.content)).or existing.html_hash
    js_bucket := if request.dto.js_content = .null then none
      else (js.map (·.ref.bucket)).or existing.js_bucket
    js_path := if request.dto.js_content = .null then none
      else (js.map (·.ref.path)).or existing.js_path
    js_hash := if request.dto.js_content = .null then none
      else (js.map (env.hashContent ·.content)).or existing.js_hash }

/-- The object of the old JavaScript, `if (existing.js_bucket && existing.js_path)`. -/
def supersededJs : Option Ref :=
  existing.jsRef.filter fun ref => ref.bucket ≠ "" && ref.path ≠ ""

/-- The objects that the call removes once it has written the row. -/
def superseded : List Ref :=
  (if (htmlUpload env request existing).isSome then [existing.htmlRef] else []) ++
    if request.dto.js_content = .null ∨ (jsUpload env request existing).isSome then
      (supersededJs existing).toList
    else []

end Plan

/-! ## The calls -/

inductive UpdateError where
  | service (e : ServiceError)
  | serviceUnavailable (message : String)
  /-- An error passed on from the database or from the storage service. -/
  | other
  deriving DecidableEq

/-- How an operation ends. One that fails may have taken effect all the same. -/
inductive Outcome where
  | ok
  | error (effect : Bool)
  | noReply (effect : Bool)
  deriving DecidableEq

def Outcome.takesEffect : Outcome → Bool
  | .ok => true
  | .error effect => effect
  | .noReply effect => effect

/-- Where a call stands: the operation that it performs next, and what it has read. -/
inductive Phase where
  | findById
  | uploadHtml (existing : PrintTemplate) (upload : Upload)
  | uploadJs (existing : PrintTemplate) (upload : Upload)
  | preload (existing : PrintTemplate)
  /-- The query with which `save` loads the stored row; nothing here deletes it. -/
  | load (existing entity : PrintTemplate)
  | write (existing entity loaded : PrintTemplate)
  | done (result : Except UpdateError PrintTemplate)
  deriving DecidableEq

structure Call where
  request : Request
  phase : Phase
  deriving DecidableEq

/-- The row of the template and the storage service. -/
structure State where
  row : Option PrintTemplate
  objects : Ref → Option String
  /-- The removals on their way to the storage service. -/
  removals : List Ref
  /-- How the next operation of a call ends. -/
  outcome : Outcome

def State.put (s : State) (upload : Upload) : State :=
  { s with objects := fun ref => if ref = upload.ref then some upload.content else s.objects ref }

def Call.goto (call : Call) (phase : Phase) : Call := { call with phase := phase }

def Call.fail (call : Call) (e : UpdateError) : Call := call.goto (.done (.error e))

def notFound (env : Env) : UpdateError :=
  .service (.notFound ("print_templates with ID '" ++ env.id ++ "' not found."))

/-- What the call does after the HTML: the JavaScript. -/
def afterHtml (env : Env) (request : Request) (existing : PrintTemplate) : Phase :=
  match jsUpload env request existing with
  | some upload => .uploadJs existing upload
  | none => .preload existing

/-- What the call does with the row that it has read. The hash of `null` is an error. -/
def afterFind (env : Env) (request : Request) (existing : PrintTemplate) : Phase :=
  if request.dto.html_content = .null then .done (.error (.service .typeError))
  else
    match htmlUpload env request existing with
    | some upload => .uploadHtml existing upload
    | none => afterHtml env request existing

/-- An upload: a call that gets no answer throws an error of its own. -/
def uploadTemplateAsset (s : State) (call : Call) (upload : Upload) (label : String)
    (next : Phase) : State × Call :=
  let s' := if s.outcome.takesEffect then s.put upload else s
  match s.outcome with
  | .ok => (s', call.goto next)
  | .error _ => (s', call.fail .other)
  | .noReply _ => (s', call.fail (.serviceUnavailable
      ("Failed to store the template " ++ label ++ " — the storage service is unavailable.")))

/-- A query: the row if the database answers. -/
def select (env : Env) (s : State) (call : Call) (next : PrintTemplate → Phase) : State × Call :=
  match s.outcome with
  | .ok =>
      match s.row with
      | none => (s, call.fail (notFound env))
      | some row => (s, call.goto (next row))
  | _ => (s, call.fail .other)

/-- The row after the `UPDATE` of a call. -/
def State.write (s : State) (entity loaded : PrintTemplate) : State :=
  { s with row := s.row.map (entity.save loaded) }

/-- The next operation of a call. The column `code` does not take a `null`. -/
def command (env : Env) (s : State) (call : Call) : State × Call :=
  match call.phase with
  | .findById => select env s call (afterFind env call.request)
  | .uploadHtml existing upload =>
      uploadTemplateAsset s call upload "HTML" (afterHtml env call.request existing)
  | .uploadJs existing upload =>
      uploadTemplateAsset s call upload "JavaScript" (.preload existing)
  | .preload existing =>
      select env s call fun row => .load existing
        { toAssets := preloadData env call.request existing, code := fileCode call.request row }
  | .load existing entity => select env s call (.write existing entity)
  | .write existing entity loaded =>
      if call.request.dto.code = .null then
        (s, call.fail (.service (ServiceError.ofDb (.notNullViolation "code"))))
      else
        let s' := if s.outcome.takesEffect then s.write entity loaded else s
        match s.outcome with
        | .ok =>
            ({ s' with removals := s.removals ++ superseded env call.request existing },
              call.goto (.done (.ok entity)))
        | _ => (s', call.fail .other)
  | .done _ => (s, call)

/-- What happens around the calls. -/
inductive Surroundings where
  | outcome (o : Outcome)
  /-- The storage service performs a removal. -/
  | remove (i : Nat) (effect : Bool)

def surroundings (s : State) : Surroundings → State
  | .outcome o => { s with outcome := o }
  | .remove i effect =>
      { s with
        objects := fun ref => if effect && s.removals[i]? = some ref then none else s.objects ref
        removals := s.removals.eraseIdx i }

def service (env : Env) : Interleaving.System State Call Request Surroundings where
  start := fun _ request => ⟨request, .findById⟩
  command := command env
  surroundings := surroundings

abbrev Config := Interleaving.Config State Call

end ErpApi.Report.PrintTemplates
