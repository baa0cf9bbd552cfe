import ErpApi.Report.PrintTemplates

set_option autoImplicit false

/-! # Templates and their objects

The row of a template is meant to refer to objects that exist and have the contents that its
hashes say. An `update` writes all columns of both assets, those of an asset that it leaves alone
with the values that it read at its start. If another call has replaced that asset in between,
the row refers to the old object again, which the other call removes (`row_refers_to_removed`).

In a run in which no call writes back an asset that has changed, and no `UPDATE` leaves out a
column that has changed since `save` loaded the row, the row is consistent with the storage in
every state (`updates_consistent`): whatever fails, and in whatever order the calls proceed. The
argument is that an object which a call has uploaded is known to this call alone until it writes
the row, and that what is to be removed is in no row.
-/

namespace ErpApi.Report.PrintTemplates

open Interleaving (Event AllSteps Pairs)

/-! ## Consistent rows -/

section Consistent

variable (env : Env)

/-- There is an object with the content that the hash says. -/
def Stored (objects : Ref → Option String) (ref : Ref) (hash : Option String) : Prop :=
  ∃ content, objects ref = some content ∧ hash = some (env.hashContent content)

structure Consistent (objects : Ref → Option String) (a : Assets) : Prop where
  html : Stored env objects a.htmlRef a.html_hash
  js : ∀ path, a.js_path = some path → ∃ bucket, a.js_bucket = some bucket ∧
    Stored env objects ⟨bucket, path⟩ a.js_hash

variable {env}

theorem Stored.congr {objects objects' : Ref → Option String} {ref : Ref} {hash : Option String}
    (h : Stored env objects ref hash) (heq : objects' ref = objects ref) :
    Stored env objects' ref hash := by
  obtain ⟨content, hcontent, hhash⟩ := h
  exact ⟨content, heq.trans hcontent, hhash⟩

theorem Assets.jsRef_eq_some {a : Assets} {ref : Ref} :
    a.jsRef = some ref ↔ a.js_bucket = some ref.bucket ∧ a.js_path = some ref.path := by
  obtain ⟨bucket, path⟩ := ref
  unfold Assets.jsRef
  cases hb : a.js_bucket <;> cases hp : a.js_path <;> simp

theorem Assets.mem_refs {a : Assets} {ref : Ref} :
    ref ∈ a.refs ↔ ref = a.htmlRef ∨ a.jsRef = some ref := by
  simp [Assets.refs, eq_comm]

/-- Nothing but the objects of the row matters. -/
theorem Consistent.congr {objects objects' : Ref → Option String} {a : Assets}
    (h : Consistent env objects a) (heq : ∀ ref ∈ a.refs, objects' ref = objects ref) :
    Consistent env objects' a := by
  refine ⟨h.html.congr (heq _ (Assets.mem_refs.mpr (Or.inl rfl))), fun path hpath => ?_⟩
  obtain ⟨bucket, hbucket, hstored⟩ := h.js path hpath
  refine ⟨bucket, hbucket, hstored.congr (heq _ (Assets.mem_refs.mpr (Or.inr ?_)))⟩
  exact Assets.jsRef_eq_some.mpr ⟨hbucket, hpath⟩

end Consistent

/-! ## What a call writes -/

def SameHtml (a b : Assets) : Prop :=
  a.html_bucket = b.html_bucket ∧ a.html_path = b.html_path ∧ a.html_hash = b.html_hash

def SameJs (a b : Assets) : Prop :=
  a.js_bucket = b.js_bucket ∧ a.js_path = b.js_path ∧ a.js_hash = b.js_hash

instance (a b : Assets) : Decidable (SameHtml a b) := inferInstanceAs (Decidable (_ ∧ _ ∧ _))

instance (a b : Assets) : Decidable (SameJs a b) := inferInstanceAs (Decidable (_ ∧ _ ∧ _))

section Plan

variable (env : Env) (request : Request) (existing : PrintTemplate)

/-- The uploads of a call. -/
def uploads : List Upload :=
  (htmlUpload env request existing).toList ++ (jsUpload env request existing).toList

/-- The call writes the HTML back as it read it. -/
def KeepsHtml : Prop := htmlUpload env request existing = none

def KeepsJs : Prop := request.dto.js_content ≠ .null ∧ jsUpload env request existing = none

instance : Decidable (KeepsHtml env request existing) := inferInstanceAs (Decidable (_ = _))

instance : Decidable (KeepsJs env request existing) := inferInstanceAs (Decidable (_ ∧ _))

variable {env request existing}

theorem sameHtml_preloadData (h : KeepsHtml env request existing) :
    SameHtml (preloadData env request existing) existing.toAssets := by
  unfold KeepsHtml at h
  simp [SameHtml, preloadData, h]

theorem sameJs_preloadData (h : KeepsJs env request existing) :
    SameJs (preloadData env request existing) existing.toAssets := by
  obtain ⟨hnull, hupload⟩ := h
  simp [SameJs, preloadData, hnull, hupload]

/-- The three cases for the JavaScript. -/
theorem keepsJs_or (env : Env) (request : Request) (existing : PrintTemplate) :
    KeepsJs env request existing ∨ request.dto.js_content = .null ∨
      request.dto.js_content ≠ .null ∧ ∃ u, jsUpload env request existing = some u := by
  by_cases hnull : request.dto.js_content = .null
  · exact Or.inr (Or.inl hnull)
  · cases hupload : jsUpload env request existing with
    | none => exact Or.inl ⟨hnull, hupload⟩
    | some u => exact Or.inr (Or.inr ⟨hnull, u, rfl⟩)

/-- The columns that a call writes are consistent if its uploads are in the storage and what it
keeps is still in the row. -/
theorem consistent_preloadData {objects : Ref → Option String} {row : Assets}
    (hrow : Consistent env objects row)
    (huploads : ∀ u ∈ uploads env request existing, objects u.ref = some u.content)
    (hhtml : KeepsHtml env request existing → SameHtml row existing.toAssets)
    (hjs : KeepsJs env request existing → SameJs row existing.toAssets) :
    Consistent env objects (preloadData env request existing) := by
  constructor
  · cases hupload : htmlUpload env request existing with
    | none =>
        obtain ⟨hb, hp, hh⟩ := sameHtml_preloadData hupload
        obtain ⟨hb', hp', hh'⟩ := hhtml hupload
        have hstored := hrow.html
        rw [Assets.htmlRef, hb', hp', hh'] at hstored
        rwa [Assets.htmlRef, hb, hp, hh]
    | some u =>
        refine ⟨u.content, ?_, by simp [preloadData, hupload]⟩
        have hstored := huploads u (by simp [uploads, hupload])
        simpa [Assets.htmlRef, preloadData, hupload] using hstored
  · intro path hpath
    rcases keepsJs_or env request existing with hkeep | hnull | ⟨hnull, u, hupload⟩
    · obtain ⟨hb, hp, hh⟩ := sameJs_preloadData hkeep
      obtain ⟨hb', hp', hh'⟩ := hjs hkeep
      obtain ⟨bucket, hbucket, hstored⟩ := hrow.js path (by rw [hp', ← hp, hpath])
      refine ⟨bucket, ?_, ?_⟩
      · rw [hb, ← hb', hbucket]
      · rwa [hh, ← hh']
    · simp [preloadData, hnull] at hpath
    · have hstored := huploads u (by simp [uploads, hupload])
      obtain rfl : u.ref.path = path := by simpa [preloadData, hnull, hupload] using hpath
      exact ⟨u.ref.bucket, by simp [preloadData, hnull, hupload], u.content, hstored,
        by simp [preloadData, hnull, hupload]⟩

/-- An object that a call writes into the row is one that it has uploaded or one that it keeps. -/
theorem mem_refs_preloadData {ref : Ref} (h : ref ∈ (preloadData env request existing).refs) :
    (∃ u ∈ uploads env request existing, u.ref = ref) ∨
    (KeepsHtml env request existing ∧ ref = existing.htmlRef) ∨
    (KeepsJs env request existing ∧ existing.jsRef = some ref) := by
  rcases Assets.mem_refs.mp h with rfl | hjs
  · cases hupload : htmlUpload env request existing with
    | none =>
        obtain ⟨hb, hp, -⟩ := sameHtml_preloadData hupload
        exact Or.inr (Or.inl ⟨hupload, by rw [Assets.htmlRef, hb, hp]; rfl⟩)
    | some u =>
        exact Or.inl ⟨u, by simp [uploads, hupload], by simp [Assets.htmlRef, preloadData, hupload]⟩
  · obtain ⟨hbucket, hpath⟩ := Assets.jsRef_eq_some.mp hjs
    rcases keepsJs_or env request existing with hkeep | hnull | ⟨hnull, u, hupload⟩
    · obtain ⟨hb, hp, -⟩ := sameJs_preloadData hkeep
      exact Or.inr (Or.inr ⟨hkeep, Assets.jsRef_eq_some.mpr
        ⟨by rw [← hb, hbucket], by rw [← hp, hpath]⟩⟩)
    · simp [preloadData, hnull] at hpath
    · refine Or.inl ⟨u, by simp [uploads, hupload], ?_⟩
      obtain ⟨bucket, path⟩ := ref
      simp only [preloadData, hnull, hupload, if_false, Option.map_some, Option.some_or,
        Option.some.injEq] at hbucket hpath
      rw [← hbucket, ← hpath]

/-- A call removes nothing but objects of the row that it read. -/
theorem superseded_subset : superseded env request existing ⊆ existing.refs := by
  intro ref h
  rcases List.mem_append.mp h with hhtml | hjs
  · split at hhtml
    · exact Assets.mem_refs.mpr (Or.inl (List.mem_singleton.mp hhtml))
    · cases hhtml
  · split at hjs
    · have hsome := Option.mem_toList.mp hjs
      exact Assets.mem_refs.mpr (Or.inr (Option.filter_eq_some_iff.mp hsome).1)
    · cases hjs

end Plan

/-! ## What a call knows -/

section Calls

variable (env : Env)

/-- The upload that a call is about to perform. -/
def Call.uploading (call : Call) : Option Upload :=
  match call.phase with
  | .uploadHtml _ upload => some upload
  | .uploadJs _ upload => some upload
  | _ => none

/-- What a call has uploaded and not yet written into the row. -/
def Call.held (call : Call) : List Upload :=
  match call.phase with
  | .uploadJs existing _ => (htmlUpload env call.request existing).toList
  | .preload existing => uploads env call.request existing
  | .load existing _ => uploads env call.request existing
  | .write existing _ _ => uploads env call.request existing
  | _ => []

/-- The objects of the row that a call read at its start. -/
def Call.read (call : Call) : List Ref :=
  match call.phase with
  | .uploadHtml existing _ => existing.refs
  | .uploadJs existing _ => existing.refs
  | .preload existing => existing.refs
  | .load existing _ => existing.refs
  | .write existing _ _ => existing.refs
  | _ => []

def Call.known (call : Call) : List Ref := call.read ++ (call.held env).map (·.ref)

/-- The names of objects that the row, the removals and the calls refer to. -/
def names (c : Config) : List Ref :=
  (c.shared.row.map (·.refs)).getD [] ++ c.shared.removals ++ c.calls.flatMap (Call.known env)

/-- The `uuid` that the storage service draws makes a new name. -/
def NewNames (c : Config) : Event Request Surroundings → Prop
  | .advance i => ∀ call ∈ c.calls[i]?, ∀ upload ∈ call.uploading,
      c.shared.outcome.takesEffect = true → upload.ref ∉ names env c
  | _ => True

instance (c : Config) : (e : Event Request Surroundings) → Decidable (NewNames env c e)
  | .advance _ => inferInstanceAs (Decidable (∀ call ∈ _, ∀ upload ∈ _, _ → _))
  | .start _ => .isTrue trivial
  | .surroundings _ => .isTrue trivial

/-- No column of the assets that the `UPDATE` leaves out has changed since `save` loaded it. -/
def LeavesOutUnchanged (entity loaded row : Assets) : Prop :=
  (entity.html_bucket = loaded.html_bucket → row.html_bucket = loaded.html_bucket) ∧
  (entity.html_path = loaded.html_path → row.html_path = loaded.html_path) ∧
  (entity.html_hash = loaded.html_hash → row.html_hash = loaded.html_hash) ∧
  (entity.js_bucket = loaded.js_bucket → row.js_bucket = loaded.js_bucket) ∧
  (entity.js_path = loaded.js_path → row.js_path = loaded.js_path) ∧
  (entity.js_hash = loaded.js_hash → row.js_hash = loaded.js_hash)

/-- An asset that the call does not replace is in the row as the call read it at its start, and
the call does not remove its object. -/
def WritesBackUnchanged (request : Request) (existing : PrintTemplate) (row : Assets) : Prop :=
  (KeepsHtml env request existing →
    SameHtml row existing.toAssets ∧ existing.htmlRef ∉ superseded env request existing) ∧
  (KeepsJs env request existing →
    SameJs row existing.toAssets ∧ ∀ ref ∈ existing.jsRef, ref ∉ superseded env request existing)

instance (entity loaded row : Assets) : Decidable (LeavesOutUnchanged entity loaded row) :=
  inferInstanceAs (Decidable ((_ → _) ∧ (_ → _) ∧ (_ → _) ∧ (_ → _) ∧ (_ → _) ∧ (_ → _)))

instance (request : Request) (existing : PrintTemplate) (row : Assets) :
    Decidable (WritesBackUnchanged env request existing row) :=
  inferInstanceAs (Decidable ((_ → _ ∧ _) ∧ (_ → _ ∧ ∀ ref ∈ _, _)))

/-- The condition on the `UPDATE` of a call. -/
def CurrentWrite (request : Request) : Phase → PrintTemplate → Prop
  | .write existing entity loaded, row =>
      LeavesOutUnchanged entity.toAssets loaded.toAssets row.toAssets ∧
        WritesBackUnchanged env request existing row.toAssets
  | _, _ => True

instance (request : Request) : (phase : Phase) → (row : PrintTemplate) →
    Decidable (CurrentWrite env request phase row)
  | .write _ _ _, _ => inferInstanceAs (Decidable (_ ∧ _))
  | .findById, _ => .isTrue trivial
  | .uploadHtml _ _, _ => .isTrue trivial
  | .uploadJs _ _, _ => .isTrue trivial
  | .preload _, _ => .isTrue trivial
  | .load _ _, _ => .isTrue trivial
  | .done _, _ => .isTrue trivial

/-- Every `UPDATE` that takes effect meets the condition. -/
def CurrentWrites (c : Config) : Event Request Surroundings → Prop
  | .advance i => ∀ call ∈ c.calls[i]?, ∀ row ∈ c.shared.row,
      c.shared.outcome.takesEffect = true → call.request.dto.code ≠ .null →
      CurrentWrite env call.request call.phase row
  | _ => True

instance (c : Config) : (e : Event Request Surroundings) → Decidable (CurrentWrites env c e)
  | .advance _ => inferInstanceAs (Decidable (∀ call ∈ _, ∀ row ∈ _, _ → _ → _))
  | .start _ => .isTrue trivial
  | .surroundings _ => .isTrue trivial

end Calls

/-! ## What a command does -/

section Commands

variable {env : Env}

/-- What a call is about to do follows from its request and from the row that it read. -/
def Planned (env : Env) (call : Call) : Prop :=
  match call.phase with
  | .uploadHtml existing upload => htmlUpload env call.request existing = some upload
  | .uploadJs existing upload => jsUpload env call.request existing = some upload
  | .load existing entity => entity.toAssets = preloadData env call.request existing
  | .write existing entity _ => entity.toAssets = preloadData env call.request existing
  | _ => True

/-- What a command does, as far as objects are concerned. -/
inductive Effect (env : Env) (s : State) (call : Call) : State → Call → Prop
  | shrinks (call' : Call) (hheld : call'.held env ⊆ call.held env)
      (hread : call'.read ⊆ call.read) : Effect env s call s call'
  | reads (call' : Call) (row : PrintTemplate) (hrow : s.row = some row)
      (hheld : call'.held env = []) (hread : call'.read ⊆ row.refs) : Effect env s call s call'
  | puts (call' : Call) (upload : Upload) (huploading : call.uploading = some upload)
      (heffect : s.outcome.takesEffect = true) (hheld : call'.held env ⊆ upload :: call.held env)
      (hread : call'.read ⊆ call.read) : Effect env s call (s.put upload) call'
  | writes (call' : Call) (existing entity loaded : PrintTemplate) (removals : List Ref)
      (hphase : call.phase = .write existing entity loaded)
      (heffect : s.outcome.takesEffect = true) (hcode : call.request.dto.code ≠ .null)
      (hremovals : removals ⊆ superseded env call.request existing)
      (hheld : call'.held env = []) (hread : call'.read = []) :
      Effect env s call { s.write entity loaded with removals := s.removals ++ removals } call'

theorem held_afterHtml (call : Call) (existing : PrintTemplate) :
    (call.goto (afterHtml env call.request existing)).held env =
      (htmlUpload env call.request existing).toList := by
  unfold afterHtml
  cases hjs : jsUpload env call.request existing with
  | none => simp [Call.held, Call.goto, uploads, hjs]
  | some upload => rfl

theorem read_afterHtml (call : Call) (existing : PrintTemplate) :
    (call.goto (afterHtml env call.request existing)).read = existing.refs := by
  unfold afterHtml
  split <;> rfl

theorem planned_afterHtml (call : Call) (existing : PrintTemplate) :
    Planned env (call.goto (afterHtml env call.request existing)) := by
  unfold afterHtml
  split
  · rename_i upload hupload
    exact hupload
  · trivial

theorem held_afterFind (call : Call) (existing : PrintTemplate) :
    (call.goto (afterFind env call.request existing)).held env = [] := by
  unfold afterFind
  split
  · rfl
  · split
    · rfl
    · rename_i hnone
      rw [held_afterHtml, hnone]
      rfl

theorem read_afterFind (call : Call) (existing : PrintTemplate) :
    (call.goto (afterFind env call.request existing)).read ⊆ existing.refs := by
  unfold afterFind
  split
  · exact List.nil_subset _
  · split
    · exact List.Subset.refl _
    · rw [read_afterHtml]
      exact List.Subset.refl _

theorem planned_afterFind (call : Call) (existing : PrintTemplate) :
    Planned env (call.goto (afterFind env call.request existing)) := by
  unfold afterFind
  split
  · trivial
  · split
    · rename_i upload hupload
      exact hupload
    · exact planned_afterHtml call existing

theorem effect_fail (s : State) (call : Call) (e : UpdateError) :
    Effect env s call s (call.fail e) :=
  .shrinks _ (List.nil_subset _) (List.nil_subset _)

theorem select_cases (env : Env) (s : State) (call : Call) (next : PrintTemplate → Phase) :
    (∃ e, select env s call next = (s, call.fail e)) ∨
      ∃ row, s.row = some row ∧ select env s call next = (s, call.goto (next row)) := by
  unfold select
  split
  · split
    · exact Or.inl ⟨_, rfl⟩
    · rename_i row hrow
      exact Or.inr ⟨row, hrow, rfl⟩
  · exact Or.inl ⟨_, rfl⟩

theorem uploadTemplateAsset_cases (s : State) (call : Call) (upload : Upload) (label : String)
    (next : Phase) :
    (∃ e, uploadTemplateAsset s call upload label next =
      (if s.outcome.takesEffect then s.put upload else s, call.fail e)) ∨
    s.outcome.takesEffect = true ∧
      uploadTemplateAsset s call upload label next = (s.put upload, call.goto next) := by
  unfold uploadTemplateAsset
  cases houtcome : s.outcome with
  | ok => exact Or.inr ⟨rfl, rfl⟩
  | error effect => exact Or.inl ⟨_, rfl⟩
  | noReply effect => exact Or.inl ⟨_, rfl⟩

theorem planned_select {s : State} {call : Call} {next : PrintTemplate → Phase}
    (h : ∀ row, Planned env (call.goto (next row))) : Planned env (select env s call next).2 := by
  rcases select_cases env s call next with ⟨e, heq⟩ | ⟨row, -, heq⟩
  · rw [heq]
    trivial
  · rw [heq]
    exact h row

theorem planned_upload {s : State} {call : Call} {upload : Upload} {label : String} {next : Phase}
    (h : Planned env (call.goto next)) :
    Planned env (uploadTemplateAsset s call upload label next).2 := by
  rcases uploadTemplateAsset_cases s call upload label next with ⟨e, heq⟩ | ⟨-, heq⟩
  · rw [heq]
    trivial
  · rw [heq]
    exact h

theorem planned_command (s : State) {call : Call} (h : Planned env call) :
    Planned env (command env s call).2 := by
  obtain ⟨request, phase⟩ := call
  cases phase with
  | findById => exact planned_select (planned_afterFind _)
  | uploadHtml existing upload => exact planned_upload (planned_afterHtml _ existing)
  | uploadJs existing upload => exact planned_upload trivial
  | preload existing => exact planned_select fun row => rfl
  | load existing entity => exact planned_select fun row => h
  | write existing entity loaded =>
      simp only [command]
      split
      · trivial
      · split <;> trivial
  | done result => trivial

theorem effect_select {s : State} {call : Call} {next : PrintTemplate → Phase}
    (h : ∀ row, s.row = some row → Effect env s call s (call.goto (next row))) :
    Effect env s call (select env s call next).1 (select env s call next).2 := by
  rcases select_cases env s call next with ⟨e, heq⟩ | ⟨row, hrow, heq⟩
  · rw [heq]
    exact effect_fail s call e
  · rw [heq]
    exact h row hrow

theorem effect_upload {s : State} {call : Call} {upload : Upload} {label : String} {next : Phase}
    (huploading : call.uploading = some upload)
    (hheld : (call.goto next).held env ⊆ upload :: call.held env)
    (hread : (call.goto next).read ⊆ call.read) :
    Effect env s call (uploadTemplateAsset s call upload label next).1
      (uploadTemplateAsset s call upload label next).2 := by
  rcases uploadTemplateAsset_cases s call upload label next with ⟨e, heq⟩ | ⟨heffect, heq⟩
  · rw [heq]
    by_cases heffect : s.outcome.takesEffect = true
    · simp only [heffect, if_true]
      exact .puts _ upload huploading heffect (List.nil_subset _) (List.nil_subset _)
    · simp only [heffect, if_false, Bool.false_eq_true]
      exact effect_fail s call e
  · rw [heq]
    exact .puts _ upload huploading heffect hheld hread

theorem effect_write (s : State) (request : Request) (existing entity loaded : PrintTemplate) :
    Effect env s ⟨request, .write existing entity loaded⟩
      (command env s ⟨request, .write existing entity loaded⟩).1
      (command env s ⟨request, .write existing entity loaded⟩).2 := by
  simp only [command]
  split
  · exact effect_fail _ _ _
  · rename_i hcode
    -- An `UPDATE` that fails removes nothing.
    have hfailed : ∀ o : Outcome, s.outcome = o → Effect env s ⟨request, .write existing entity loaded⟩
        (if o.takesEffect then s.write entity loaded else s)
        (Call.fail ⟨request, .write existing entity loaded⟩ .other) := by
      intro o ho
      by_cases heffect : o.takesEffect = true
      · rw [if_pos heffect]
        have hnil : s.write entity loaded =
            { s.write entity loaded with removals := s.removals ++ [] } := by
          rw [List.append_nil]
          rfl
        rw [hnil]
        exact .writes _ existing entity loaded [] rfl (ho ▸ heffect) hcode (List.nil_subset _)
          rfl rfl
      · rw [if_neg heffect]
        exact effect_fail _ _ _
    cases houtcome : s.outcome with
    | ok =>
        exact .writes _ existing entity loaded _ rfl (by rw [houtcome]; rfl) hcode
          (List.Subset.refl _) rfl rfl
    | error effect => exact hfailed _ houtcome
    | noReply effect => exact hfailed _ houtcome

/-- **One command of a call.** -/
theorem effect_command (s : State) {call : Call} (h : Planned env call) :
    Effect env s call (command env s call).1 (command env s call).2 := by
  obtain ⟨request, phase⟩ := call
  cases phase with
  | findById =>
      exact effect_select fun row hrow =>
        .reads _ row hrow (held_afterFind _ row) (read_afterFind _ row)
  | uploadHtml existing upload =>
      refine effect_upload rfl ?_ ?_
      · have hupload : htmlUpload env request existing = some upload := h
        rw [held_afterHtml, hupload]
        exact List.Subset.refl _
      · rw [read_afterHtml]
        exact List.Subset.refl _
  | uploadJs existing upload =>
      refine effect_upload rfl ?_ (List.Subset.refl _)
      have hupload : jsUpload env request existing = some upload := h
      intro u hu
      simp only [Call.held, Call.goto, uploads, hupload] at hu ⊢
      simpa [or_comm] using hu
  | preload existing =>
      exact effect_select fun row _ => .shrinks _ (List.Subset.refl _) (List.Subset.refl _)
  | load existing entity =>
      exact effect_select fun row _ => .shrinks _ (List.Subset.refl _) (List.Subset.refl _)
  | write existing entity loaded => exact effect_write s request existing entity loaded
  | done result => exact .shrinks _ (List.Subset.refl _) (List.Subset.refl _)

end Commands

/-! ## Runs -/

section Runs

variable {env : Env}

/-- The row is consistent, and none of its objects is to be removed. -/
def SharedInv (env : Env) (s : State) : Prop :=
  ∃ row, s.row = some row ∧ Consistent env s.objects row.toAssets ∧
    ∀ ref ∈ s.removals, ref ∉ row.refs

/-- What a call has uploaded is in the storage, is not to be removed, and is in no row. -/
structure CallInv (env : Env) (s : State) (call : Call) : Prop where
  planned : Planned env call
  stored : ∀ u ∈ call.held env, s.objects u.ref = some u.content
  kept : ∀ u ∈ call.held env, u.ref ∉ s.removals
  unpublished : ∀ u ∈ call.held env, ∀ row, s.row = some row → u.ref ∉ row.refs
  new : ∀ u ∈ call.held env, u.ref ∉ call.read

/-- Neither call knows what the other has uploaded. -/
def Apart (env : Env) (p q : Call) : Prop :=
  (∀ u ∈ p.held env, u.ref ∉ q.known env) ∧ ∀ u ∈ q.held env, u.ref ∉ p.known env

/-- The condition on a step. -/
def Careful (env : Env) (c : Config) (e : Event Request Surroundings) : Prop :=
  NewNames env c e ∧ CurrentWrites env c e

theorem Call.mem_known {call : Call} {ref : Ref} :
    ref ∈ call.known env ↔ ref ∈ call.read ∨ ∃ u ∈ call.held env, u.ref = ref := by
  simp [Call.known]

/-- Less is held and less is read. -/
theorem Apart.mono {p p' q : Call} (h : Apart env p q) (hheld : p'.held env ⊆ p.held env)
    (hread : p'.read ⊆ p.read) : Apart env p' q := by
  refine ⟨fun u hu => h.1 u (hheld hu), fun u hu hmem => h.2 u hu ?_⟩
  rcases Call.mem_known.mp hmem with hmem | ⟨v, hv, heq⟩
  · exact Call.mem_known.mpr (Or.inl (hread hmem))
  · exact Call.mem_known.mpr (Or.inr ⟨v, hheld hv, heq⟩)

theorem not_mem_names {c : Config} {ref : Ref} (h : ref ∉ names env c) :
    (∀ row, c.shared.row = some row → ref ∉ row.refs) ∧ ref ∉ c.shared.removals ∧
      ∀ call ∈ c.calls, ref ∉ call.known env := by
  simp only [names, List.mem_append, List.mem_flatMap, not_or, not_exists, not_and] at h
  obtain ⟨⟨hrow, hremovals⟩, hcalls⟩ := h
  refine ⟨fun row hsome => ?_, hremovals, hcalls⟩
  rw [hsome] at hrow
  exact hrow

/-- A new object leaves the row as it is. -/
theorem SharedInv.put {s : State} {upload : Upload} (h : SharedInv env s)
    (hnew : ∀ row, s.row = some row → upload.ref ∉ row.refs) : SharedInv env (s.put upload) := by
  obtain ⟨row, hrow, hconsistent, hremovals⟩ := h
  refine ⟨row, hrow, hconsistent.congr fun ref hmem => ?_, hremovals⟩
  have hne : ref ≠ upload.ref := by
    rintro rfl
    exact hnew row hrow hmem
  exact if_neg hne

theorem CallInv.put {s : State} {call : Call} {upload : Upload} (h : CallInv env s call)
    (hnew : upload.ref ∉ call.known env) : CallInv env (s.put upload) call := by
  refine ⟨h.planned, fun u hu => ?_, h.kept, h.unpublished, h.new⟩
  have hne : u.ref ≠ upload.ref := by
    intro heq
    exact hnew (Call.mem_known.mpr (Or.inr ⟨u, hu, heq⟩))
  exact (if_neg hne).trans (h.stored u hu)

/-- The call has uploaded an object with a new name. -/
theorem CallInv.uploaded {s : State} {call call' : Call} {upload : Upload} (h : CallInv env s call)
    (hplanned : Planned env call') (hheld : call'.held env ⊆ upload :: call.held env)
    (hread : call'.read ⊆ call.read) (hrow : ∀ row, s.row = some row → upload.ref ∉ row.refs)
    (hremovals : upload.ref ∉ s.removals) (hknown : upload.ref ∉ call.known env) :
    CallInv env (s.put upload) call' := by
  have hput := h.put hknown
  have hcases : ∀ u ∈ call'.held env, u = upload ∨ u ∈ call.held env :=
    fun u hu => List.mem_cons.mp (hheld hu)
  refine ⟨hplanned, fun u hu => ?_, fun u hu => ?_, fun u hu => ?_, fun u hu => ?_⟩
  · rcases hcases u hu with rfl | hu
    · exact if_pos rfl
    · exact hput.stored u hu
  · rcases hcases u hu with rfl | hu
    · exact hremovals
    · exact hput.kept u hu
  · rcases hcases u hu with rfl | hu
    · exact hrow
    · exact hput.unpublished u hu
  · rcases hcases u hu with rfl | hu
    · exact fun hmem => hknown (Call.mem_known.mpr (Or.inl (hread hmem)))
    · exact fun hmem => hput.new u hu (hread hmem)

theorem Apart.uploaded {call call' other : Call} {upload : Upload} (h : Apart env call other)
    (hheld : call'.held env ⊆ upload :: call.held env) (hread : call'.read ⊆ call.read)
    (hknown : upload.ref ∉ other.known env) : Apart env call' other := by
  constructor
  · intro u hu
    rcases List.mem_cons.mp (hheld hu) with rfl | hu
    · exact hknown
    · exact h.1 u hu
  · intro u hu hmem
    rcases Call.mem_known.mp hmem with hmem | ⟨v, hv, heq⟩
    · exact h.2 u hu (Call.mem_known.mpr (Or.inl (hread hmem)))
    · rcases List.mem_cons.mp (hheld hv) with rfl | hv
      · exact hknown (Call.mem_known.mpr (Or.inr ⟨u, hu, heq.symm⟩))
      · exact h.2 u hu (Call.mem_known.mpr (Or.inr ⟨v, hv, heq⟩))

theorem column_eq {α : Type} [DecidableEq α] {entity loaded stored : α}
    (h : entity = loaded → stored = loaded) : column entity loaded stored = entity := by
  unfold column
  split
  · rename_i heq
    exact (h heq).trans heq.symm
  · rfl

/-- The row has all columns of the assets from the entity. -/
theorem save_toAssets {entity loaded row : PrintTemplate}
    (h : LeavesOutUnchanged entity.toAssets loaded.toAssets row.toAssets) :
    (entity.save loaded row).toAssets = entity.toAssets := by
  obtain ⟨h1, h2, h3, h4, h5, h6⟩ := h
  simp only [PrintTemplate.save, column_eq h1, column_eq h2, column_eq h3, column_eq h4,
    column_eq h5, column_eq h6]

/-- A call that is about to write the row. -/
theorem Planned.of_write {call : Call} {existing entity loaded : PrintTemplate}
    (h : Planned env call) (hphase : call.phase = .write existing entity loaded) :
    entity.toAssets = preloadData env call.request existing ∧
      call.held env = uploads env call.request existing ∧ call.read = existing.refs := by
  rw [Planned, hphase] at h
  exact ⟨h, by simp only [Call.held, hphase], by simp only [Call.read, hphase]⟩

/-- **The `UPDATE` of a call** keeps the row consistent. -/
theorem SharedInv.write {s : State} {call : Call} {existing entity loaded : PrintTemplate}
    {removals : List Ref} (h : SharedInv env s) (hcall : CallInv env s call)
    (hphase : call.phase = .write existing entity loaded)
    (hremovals : removals ⊆ superseded env call.request existing)
    (hcurrent : ∀ row, s.row = some row → CurrentWrite env call.request call.phase row) :
    SharedInv env { s.write entity loaded with removals := s.removals ++ removals } := by
  obtain ⟨row, hrow, hconsistent, hkept⟩ := h
  obtain ⟨hplanned, hheld, hread⟩ := hcall.planned.of_write hphase
  obtain ⟨hleaves, hhtml, hjs⟩ :
      LeavesOutUnchanged entity.toAssets loaded.toAssets row.toAssets ∧
        WritesBackUnchanged env call.request existing row.toAssets := by
    have h := hcurrent row hrow
    rwa [hphase] at h
  refine ⟨entity.save loaded row, ?_, ?_, fun ref hmem hrefs => ?_⟩
  · show s.row.map (entity.save loaded) = _
    rw [hrow]
    rfl
  · rw [save_toAssets hleaves, hplanned]
    refine consistent_preloadData hconsistent (fun u hu => ?_) (fun hkeep => (hhtml hkeep).1)
      (fun hkeep => (hjs hkeep).1)
    exact hcall.stored u (hheld ▸ hu)
  · rw [save_toAssets hleaves, hplanned] at hrefs
    rcases mem_refs_preloadData hrefs with ⟨u, hu, rfl⟩ | ⟨hkeep, rfl⟩ | ⟨hkeep, hjsRef⟩
    · rw [← hheld] at hu
      rcases List.mem_append.mp hmem with hmem | hmem
      · exact hcall.kept u hu hmem
      · apply hcall.new u hu
        rw [hread]
        exact superseded_subset (hremovals hmem)
    · obtain ⟨⟨hb, hp, -⟩, hnot⟩ := hhtml hkeep
      rcases List.mem_append.mp hmem with hmem | hmem
      · refine hkept _ hmem (Assets.mem_refs.mpr (Or.inl ?_))
        rw [Assets.htmlRef, Assets.htmlRef, hb, hp]
      · exact hnot (hremovals hmem)
    · obtain ⟨⟨hb, hp, -⟩, hnot⟩ := hjs hkeep
      rcases List.mem_append.mp hmem with hmem | hmem
      · refine hkept _ hmem (Assets.mem_refs.mpr (Or.inr ?_))
        rw [Assets.jsRef_eq_some, hb, hp]
        exact Assets.jsRef_eq_some.mp hjsRef
      · exact hnot ref hjsRef (hremovals hmem)

/-- The `UPDATE` of one call and the uploads of another. -/
theorem CallInv.written {s : State} {call other : Call} {existing entity loaded : PrintTemplate}
    {removals : List Ref} (h : CallInv env s other) (hcall : CallInv env s call)
    (hapart : Apart env call other) (hphase : call.phase = .write existing entity loaded)
    (hremovals : removals ⊆ superseded env call.request existing)
    (hcurrent : ∀ row, s.row = some row → CurrentWrite env call.request call.phase row) :
    CallInv env { s.write entity loaded with removals := s.removals ++ removals } other := by
  obtain ⟨hplanned, hheld, hread⟩ := hcall.planned.of_write hphase
  have hunread : ∀ u ∈ other.held env, u.ref ∉ existing.refs := by
    intro u hu hmem
    exact hapart.2 u hu (Call.mem_known.mpr (Or.inl (hread ▸ hmem)))
  refine ⟨h.planned, h.stored, fun u hu hmem => ?_, fun u hu row' hrow' hmem => ?_, h.new⟩
  · rcases List.mem_append.mp hmem with hmem | hmem
    · exact h.kept u hu hmem
    · exact hunread u hu (superseded_subset (hremovals hmem))
  · obtain ⟨row, hrow, rfl⟩ := Option.map_eq_some_iff.mp hrow'
    have hcur := hcurrent row hrow
    rw [hphase] at hcur
    rw [save_toAssets hcur.1, hplanned] at hmem
    rcases mem_refs_preloadData hmem with ⟨v, hv, heq⟩ | ⟨-, heq⟩ | ⟨-, heq⟩
    · exact hapart.2 u hu (Call.mem_known.mpr (Or.inr ⟨v, hheld ▸ hv, heq⟩))
    · exact hunread u hu (Assets.mem_refs.mpr (Or.inl heq))
    · exact hunread u hu (Assets.mem_refs.mpr (Or.inr heq))

/-- A call that holds no upload. -/
theorem callInv_of_held_nil {s : State} {call : Call} (hplanned : Planned env call)
    (hheld : call.held env = []) : CallInv env s call := by
  constructor
  · exact hplanned
  all_goals
    intro u hu
    rw [hheld] at hu
    cases hu

/-- A removal takes away no object that the row or a call needs. -/
theorem surroundings_keeps (s : State) (x : Surroundings) (h : SharedInv env s) :
    SharedInv env (surroundings s x) ∧
      ∀ call, CallInv env s call → CallInv env (surroundings s x) call := by
  obtain ⟨row, hrow, hconsistent, hkept⟩ := h
  cases x with
  | outcome o =>
      exact ⟨⟨row, hrow, hconsistent, hkept⟩, fun call hcall =>
        ⟨hcall.planned, hcall.stored, hcall.kept, hcall.unpublished, hcall.new⟩⟩
  | remove i effect =>
      have hobjects : ∀ ref, ref ∉ s.removals →
          (surroundings s (.remove i effect)).objects ref = s.objects ref := by
        intro ref href
        have hne : s.removals[i]? ≠ some ref := fun heq => href (List.mem_of_getElem? heq)
        simp [surroundings, hne]
      have hsubset : ∀ ref ∈ s.removals.eraseIdx i, ref ∈ s.removals :=
        fun ref hmem => List.mem_of_mem_eraseIdx hmem
      refine ⟨⟨row, hrow, ?_, fun ref hmem => hkept ref (hsubset ref hmem)⟩, fun call hcall => ?_⟩
      · exact hconsistent.congr fun ref hmem =>
          hobjects ref fun hremoved => hkept ref hremoved hmem
      · refine ⟨hcall.planned, fun u hu => ?_, fun u hu hmem => ?_, hcall.unpublished, hcall.new⟩
        · rw [hobjects u.ref (hcall.kept u hu)]
          exact hcall.stored u hu
        · exact hcall.kept u hu (hsubset u.ref hmem)

/-- What the condition gives for the call that performs a command. -/
theorem Careful.of_call {c : Config} {i : Nat} {call : Call} (h : Careful env c (.advance i))
    (hi : c.calls[i]? = some call) (heffect : c.shared.outcome.takesEffect = true) :
    (∀ upload, call.uploading = some upload → upload.ref ∉ names env c) ∧
    (call.request.dto.code ≠ .null → ∀ row, c.shared.row = some row →
      CurrentWrite env call.request call.phase row) :=
  ⟨fun upload hupload => h.1 call hi upload hupload heffect,
    fun hcode row hrow => h.2 call hi row hrow heffect hcode⟩

theorem command_keeps {c : Config} {i : Nat} {call : Call} (hok : Careful env c (.advance i))
    (hi : c.calls[i]? = some call) (h : SharedInv env c.shared)
    (hcall : CallInv env c.shared call) :
    SharedInv env (command env c.shared call).1 ∧
      CallInv env (command env c.shared call).1 (command env c.shared call).2 := by
  have hplanned := planned_command c.shared hcall.planned
  have hcommand := effect_command c.shared hcall.planned
  generalize (command env c.shared call).1 = s' at hcommand ⊢
  generalize (command env c.shared call).2 = call' at hplanned hcommand ⊢
  cases hcommand with
  | shrinks _ hheld hread =>
      exact ⟨h, hplanned, fun u hu => hcall.stored u (hheld hu), fun u hu => hcall.kept u (hheld hu),
        fun u hu => hcall.unpublished u (hheld hu),
        fun u hu hmem => hcall.new u (hheld hu) (hread hmem)⟩
  | reads _ row hrow hheld hread => exact ⟨h, callInv_of_held_nil hplanned hheld⟩
  | puts _ upload huploading heffect hheld hread =>
      have hnew := (hok.of_call hi heffect).1 upload huploading
      obtain ⟨hrow, hremovals, hcalls⟩ := not_mem_names hnew
      exact ⟨h.put hrow, hcall.uploaded hplanned hheld hread hrow hremovals
        (hcalls call (List.mem_of_getElem? hi))⟩
  | writes _ existing entity loaded removals hphase heffect hcode hremovals hheld hread =>
      have hcurrent := (hok.of_call hi heffect).2 hcode
      exact ⟨h.write hcall hphase hremovals hcurrent, callInv_of_held_nil hplanned hheld⟩

theorem command_others {c : Config} {i j : Nat} {call other : Call}
    (hok : Careful env c (.advance i)) (hi : c.calls[i]? = some call)
    (hj : c.calls[j]? = some other) (hcall : CallInv env c.shared call)
    (hother : CallInv env c.shared other) (hapart : Apart env call other) :
    CallInv env (command env c.shared call).1 other ∧
      Apart env (command env c.shared call).2 other := by
  have hcommand := effect_command c.shared hcall.planned
  generalize (command env c.shared call).1 = s' at hcommand ⊢
  generalize (command env c.shared call).2 = call' at hcommand ⊢
  cases hcommand with
  | shrinks _ hheld hread => exact ⟨hother, hapart.mono hheld hread⟩
  | reads _ row hrow hheld hread =>
      refine ⟨hother, ?_, fun u hu hmem => ?_⟩
      · rw [hheld]
        intro u hu
        cases hu
      · rcases Call.mem_known.mp hmem with hmem | ⟨v, hv, -⟩
        · exact hother.unpublished u hu row hrow (hread hmem)
        · rw [hheld] at hv
          cases hv
  | puts _ upload huploading heffect hheld hread =>
      have hnew := (hok.of_call hi heffect).1 upload huploading
      have hknown := (not_mem_names hnew).2.2 other (List.mem_of_getElem? hj)
      exact ⟨hother.put hknown, hapart.uploaded hheld hread hknown⟩
  | writes _ existing entity loaded removals hphase heffect hcode hremovals hheld hread =>
      have hcurrent := (hok.of_call hi heffect).2 hcode
      refine ⟨hother.written hcall hapart hphase hremovals hcurrent, hapart.mono ?_ ?_⟩
      · rw [hheld]
        exact List.nil_subset _
      · rw [hread]
        exact List.nil_subset _

theorem preserved (env : Env) : Interleaving.PreservedPairs (service env) (Careful env)
    (SharedInv env) (CallInv env) (Apart env) where
  symm := fun p q h => ⟨h.2, h.1⟩
  start := fun c request _ _ => callInv_of_held_nil trivial rfl
  start_pair := by
    intro c request call _ _
    refine ⟨fun u _ hmem => ?_, fun u hu => ?_⟩
    · cases hmem
    · cases hu
  command := fun c i call hok hi h hcall => command_keeps hok hi h hcall
  others := fun c i j call other hok _ hi hj _ hcall hother hapart =>
    command_others hok hi hj hcall hother hapart
  surroundings := fun c x _ h => ⟨(surroundings_keeps c.shared x h).1,
    fun call _ hcall => (surroundings_keeps c.shared x h).2 call hcall⟩

/-- **The row stays consistent with the storage.** In a run of updates from a consistent row in
which every draw of a `uuid` makes a new name, no call writes back an asset that has changed since
the call read it, and no `UPDATE` leaves out a column that has changed since `save` loaded it, the
row is consistent with the storage in the state that is reached, whether or not calls are in
flight or have failed. -/
theorem updates_consistent (env : Env) (row : PrintTemplate) (objects : Ref → Option String)
    (outcome : Outcome) (hstart : Consistent env objects row.toAssets)
    (events : List (Event Request Surroundings))
    (hnames : AllSteps (service env) (NewNames env) ⟨⟨some row, objects, [], outcome⟩, []⟩ events)
    (hcurrent : AllSteps (service env) (CurrentWrites env)
      ⟨⟨some row, objects, [], outcome⟩, []⟩ events) :
    ∃ row', (Interleaving.run (service env) ⟨⟨some row, objects, [], outcome⟩, []⟩ events).shared.row =
        some row' ∧
      Consistent env (Interleaving.run (service env) ⟨⟨some row, objects, [], outcome⟩, []⟩
        events).shared.objects row'.toAssets := by
  have hshared : SharedInv env ⟨some row, objects, [], outcome⟩ :=
    ⟨row, rfl, hstart, fun _ hmem => by cases hmem⟩
  have hkeeps := Interleaving.run_keepsPairs (preserved env) (Interleaving.allSteps_and _ hnames hcurrent)
    ⟨⟨hshared, fun _ hmem => by cases hmem⟩, Interleaving.pairs_nil _⟩
  obtain ⟨⟨⟨row', hrow', hconsistent, -⟩, -⟩, -⟩ := hkeeps
  exact ⟨row', hrow', hconsistent⟩

end Runs

/-! ## Two updates at a time -/

/-- The hash of the contents below is their SHA-256. -/
def sampleEnv : Env where
  id := "7c9e6679-7425-40de-944b-e07fc1f90ae7"
  bucket := "erp-storage"
  hashContent := fun content =>
    if content = "<p>old</p>" then
      "d9cf2422b35b8f3dafe9ae7f7eff7b7349630701989600b60be0d426d1d86ea3"
    else if content = "<p>new</p>" then
      "0e930c34fc8ed8f6adfab6ca883e2f133e79c1ba057017c6b996955a5105ef0a"
    else if content = "<p>other</p>" then
      "f23c5ff9e7e8a570099b8b9e4bf198fb526892b94f5256b722d84bfeecaa01d6"
    else "32afa1a55ac8051a87a9f7b5dabc1b01cf93c4a453960346be7e34be6d1678fc"

def sampleRow : PrintTemplate where
  html_bucket := "erp-storage"
  html_path := "reports/print-templates/7c9e6679-7425-40de-944b-e07fc1f90ae7/invoice-1.html"
  html_hash := some "d9cf2422b35b8f3dafe9ae7f7eff7b7349630701989600b60be0d426d1d86ea3"
  js_bucket := none
  js_path := none
  js_hash := none
  code := "invoice"

def sampleObjects (ref : Ref) : Option String :=
  if ref = sampleRow.htmlRef then some "<p>old</p>" else none

def sampleStart : Config := ⟨⟨some sampleRow, sampleObjects, [], .ok⟩, []⟩

theorem sampleStart_consistent : Consistent sampleEnv sampleObjects sampleRow.toAssets :=
  ⟨⟨"<p>old</p>", by decide +kernel, by decide +kernel⟩, fun _ hpath => by cases hpath⟩

/-- A request with the last digits of what the storage service draws. -/
def sampleRequest (html js : Field String) (htmlDigit jsDigit : String) : Request :=
  ⟨⟨.undefined, html, js⟩, "1b9d6bcd-bbfd-4b2d-9b5d-ab8dfbbd4be" ++ htmlDigit,
    "1b9d6bcd-bbfd-4b2d-9b5d-ab8dfbbd4be" ++ jsDigit⟩

/-- Two calls replace the HTML at the same time, and a third one gets no answer to its upload. -/
def overlappingUploads : List (Event Request Surroundings) :=
  [.start (sampleRequest (.value "<p>new</p>") .undefined "2" "3"),
    .start (sampleRequest (.value "<p>other</p>") (.value "paginate()") "4" "5"),
    .start (sampleRequest (.value "<p>new</p>") .null "6" "7"),
    .advance 0, .advance 1, .advance 0, .advance 1, .advance 1, .advance 2,
    .advance 0, .advance 0, .advance 0, .surroundings (.outcome (.noReply true)), .advance 2,
    .surroundings (.outcome .ok), .advance 1, .advance 1, .advance 1,
    .surroundings (.remove 1 true), .surroundings (.remove 0 false)]

theorem updates_consistent_overlapping :
    Consistent sampleEnv sampleObjects sampleRow.toAssets ∧
    AllSteps (service sampleEnv) (NewNames sampleEnv) sampleStart overlappingUploads ∧
    AllSteps (service sampleEnv) (CurrentWrites sampleEnv) sampleStart overlappingUploads ∧
    ∃ row', (Interleaving.run (service sampleEnv) sampleStart overlappingUploads).shared.row =
        some row' ∧
      Consistent sampleEnv (Interleaving.run (service sampleEnv) sampleStart
        overlappingUploads).shared.objects row'.toAssets := by
  have hnames : AllSteps (service sampleEnv) (NewNames sampleEnv) sampleStart
      overlappingUploads := by decide +kernel
  have hcurrent : AllSteps (service sampleEnv) (CurrentWrites sampleEnv) sampleStart
      overlappingUploads := by decide +kernel
  exact ⟨sampleStart_consistent, hnames, hcurrent, updates_consistent sampleEnv sampleRow
    sampleObjects .ok sampleStart_consistent overlappingUploads hnames hcurrent⟩

/-- An update that leaves both assets alone reads the row; another one replaces the HTML, and the
old object is removed; then the first one writes the row. -/
def staleWrite : List (Event Request Surroundings) :=
  [.start (sampleRequest .undefined .undefined "2" "3"),
    .start (sampleRequest (.value "<p>new</p>") .undefined "4" "5"),
    .advance 0, .advance 1, .advance 1, .advance 1, .advance 1, .advance 1,
    .surroundings (.remove 0 true), .advance 0, .advance 0, .advance 0]

def Call.isDone (call : Call) : Bool :=
  match call.phase with
  | .done _ => true
  | _ => false

/-- **The row refers to a removed object** when all calls have returned. -/
theorem row_refers_to_removed :
    ¬ ∀ (row : PrintTemplate) (objects : Ref → Option String) (outcome : Outcome)
        (events : List (Event Request Surroundings)),
      Consistent sampleEnv objects row.toAssets →
      AllSteps (service sampleEnv) (NewNames sampleEnv)
        ⟨⟨some row, objects, [], outcome⟩, []⟩ events →
      (Interleaving.run (service sampleEnv) ⟨⟨some row, objects, [], outcome⟩, []⟩
        events).calls.all Call.isDone = true →
      ∃ row', (Interleaving.run (service sampleEnv) ⟨⟨some row, objects, [], outcome⟩, []⟩
          events).shared.row = some row' ∧
        Consistent sampleEnv (Interleaving.run (service sampleEnv)
          ⟨⟨some row, objects, [], outcome⟩, []⟩ events).shared.objects row'.toAssets := by
  intro h
  obtain ⟨row', hrow', hconsistent⟩ := h sampleRow sampleObjects .ok staleWrite
    sampleStart_consistent (by decide +kernel) (by decide +kernel)
  have hrow : (Interleaving.run (service sampleEnv) sampleStart staleWrite).shared.row =
      some sampleRow := by decide +kernel
  have hremoved : (Interleaving.run (service sampleEnv) sampleStart staleWrite).shared.objects
      sampleRow.htmlRef = none := by decide +kernel
  obtain rfl : sampleRow = row' := Option.some.inj (hrow.symm.trans hrow')
  obtain ⟨content, hcontent, -⟩ := hconsistent.html
  cases hremoved.symm.trans hcontent

end ErpApi.Report.PrintTemplates
