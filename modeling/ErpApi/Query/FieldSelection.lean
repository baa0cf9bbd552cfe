import ErpApi.Basic.ObjectPlaces
import ErpApi.Basic.ShortCircuit
import ErpApi.Query.TypeOrmQueryBuilder

set_option autoImplicit false

/-! # The selected fields of a listing

`parseAndValidateFields` turns the parameter `fields` into the select object of the repository. A
path along relations becomes nested objects: each relation on the way gets its primary columns, or
all its columns if the path goes on beyond the next segment, and the last segment gets `true`.

A relation and its join column may have one name. Where that name holds `true`, a path through the
relation does not go down; `fieldsSelect_iff` says for which fields that does not happen, and that then
every field is at its path and their order does not matter.
-/

namespace ErpApi.Query

open ObjectTree

/-- A select object; its leaves are `true`. -/
abbrev Select := Fields Unit

variable (schema : Schema)

def isValidColumn (metadata : EntityMetadata) (columnName : String) : Bool :=
  (metadata.findColumnWithPropertyName columnName).isSome

/-- The columns of an object on the way. -/
def columnsToSelect (metadata : EntityMetadata) (isPassThrough : Bool) : List String :=
  if isPassThrough then metadata.columns.map ColumnMetadata.propertyName
  else metadata.primaryColumns

/-- The loop over `columnsToSelect`: what is there stays. -/
def selectColumns (columns : List String) (relationTarget : Select) : Select :=
  columns.foldl (fun target column =>
    if (target.get column).isSome then target else target.set column (.leaf ())) relationTarget

/-- The object that is there, or a new one. -/
def objectOrNew : Option (Node Unit) → Select
  | some (.obj inner) => inner
  | _ => .nil

/-- The loop over the parts of a path. Where the level holds `true` it goes on with the next part,
at the same level and in the same entity. -/
def buildNestedSelect (path : String) :
    EntityMetadata → List String → Select → Except QueryError Select
  | _, [], currentLevel => pure currentLevel
  | metadata, [part], currentLevel =>
      if isValidColumn metadata part then pure (currentLevel.set part (.leaf ()))
      else throw (.invalidParameter "fields"
        ("Invalid nested column: '" ++ part ++ "' in path '" ++ path ++ "'"))
  | metadata, part :: next :: rest, currentLevel =>
      match metadata.findRelationWithPropertyPath part with
      | none => throw (.invalidParameter "fields"
          ("Invalid relation: '" ++ part ++ "' in path '" ++ path ++ "'"))
      | some relation =>
          match currentLevel.get part with
          | some (.leaf ()) => buildNestedSelect path metadata (next :: rest) currentLevel
          | node => do
              let relationMetadata := schema.entity relation.inverseEntity
              let relationTarget := selectColumns (columnsToSelect relationMetadata (rest ≠ []))
                (objectOrNew node)
              let target ← buildNestedSelect path relationMetadata (next :: rest) relationTarget
              return currentLevel.set part (.obj target)

/-- The fields asked for, and the primary columns of the root that are not among them. -/
def requestedFields (fieldsString : String) : List String :=
  schema.root.primaryColumns.foldl
    (fun fields pk => if fields.contains pk then fields else fields ++ [pk])
    (parseCommaSeparatedValues fieldsString)

/-- One turn of the loop over the fields. -/
def selectField (selectObject : Select) (fieldPath : String) : Except QueryError Select :=
  if fieldPath.toList.contains '.' then
    buildNestedSelect schema fieldPath schema.root (parts fieldPath) selectObject
  else if isValidColumn schema.root fieldPath then pure (selectObject.set fieldPath (.leaf ()))
  else throw (.invalidParameter "fields" ("Invalid column: '" ++ fieldPath ++ "'"))

def parseAndValidateFields (fieldsString : String) : Except QueryError Select :=
  (requestedFields schema fieldsString).foldlM (selectField schema) .nil

/-! ## What the fields are for -/

/-- The fields are accepted, each is in the select object at its path, as a column or as a nested
object, and the same fields in another order give the same object. -/
def SelectsAll (fieldsString : String) : Prop :=
  ∃ select, parseAndValidateFields schema fieldsString = .ok select ∧
    (∀ field ∈ parseCommaSeparatedValues fieldsString, select.Has (parts field)) ∧
    ∀ reordered, (parseCommaSeparatedValues reordered).Perm
        (parseCommaSeparatedValues fieldsString) →
      ∃ select', parseAndValidateFields schema reordered = .ok select' ∧
        ∀ path, select'.kind path = select.kind path

/-- The path goes along relations, and none of them has the name of a column of its entity; the
first one may, where `free` is set. -/
def AlongRelations : Bool → EntityMetadata → List String → Prop
  | _, _, [] => True
  | free, metadata, part :: rest =>
      (free = true ∨ metadata.findColumnWithPropertyName part = none) ∧
        ∃ relation, metadata.findRelationWithPropertyPath part = some relation ∧
          AlongRelations false (schema.entity relation.inverseEntity) rest

/-- The first relation of a path is not asked for as a column, nor is it a primary column, and no
later one has the name of a column. -/
structure Separate (fields : List String) : Prop where
  first : ∀ field ∈ fields, ∀ part next rest, parts field = part :: next :: rest →
    part ∉ fields ∧ part ∉ schema.root.primaryColumns
  later : ∀ field ∈ fields, AlongRelations schema true schema.root (parts field).dropLast

/-- The primary columns of an entity are columns of it. A name has no dot. -/
structure HasPrimaryColumns : Prop where
  root : ∀ pk ∈ schema.root.primaryColumns,
    isValidColumn schema.root pk = true ∧ '.' ∉ pk.toList
  entity : ∀ e, ∀ pk ∈ (schema.entity e).primaryColumns, isValidColumn (schema.entity e) pk = true

/-! ## The fields asked for -/

section Requested

variable {schema}

theorem mem_requestedFields {fieldsString field : String} :
    field ∈ requestedFields schema fieldsString ↔
      field ∈ parseCommaSeparatedValues fieldsString ∨ field ∈ schema.root.primaryColumns := by
  unfold requestedFields
  generalize parseCommaSeparatedValues fieldsString = fields
  induction schema.root.primaryColumns generalizing fields with
  | nil => simp
  | cons pk pks ih =>
      rw [List.foldl_cons, ih, List.mem_cons]
      by_cases hmem : pk ∈ fields
      · rw [if_pos (List.contains_iff_mem.mpr hmem)]
        constructor
        · rintro (h | h)
          · exact .inl h
          · exact .inr (.inr h)
        · rintro (h | rfl | h)
          · exact .inl h
          · exact .inl hmem
          · exact .inr h
      · rw [if_neg fun h => hmem (List.contains_iff_mem.mp h), List.mem_append,
          List.mem_singleton, or_assoc]

theorem parts_of_no_dot {field : String} (h : '.' ∉ field.toList) : parts field = [field] :=
  Js.split_of_not_mem h

theorem no_dot_of_mem_parts {field part : String} (h : part ∈ parts field) :
    '.' ∉ part.toList :=
  Js.not_mem_of_mem_split h

theorem parts_eq_singleton {field part : String} (h : parts field = [part]) : field = part := by
  have hdot : '.' ∉ part.toList := no_dot_of_mem_parts (h ▸ List.mem_singleton.mpr rfl)
  exact Js.split_injective '.' (h.trans (parts_of_no_dot hdot).symm)

theorem selectField_eq_ok {select select' : Select} {field : String} :
    selectField schema select field = .ok select' ↔
      buildNestedSelect schema field schema.root (parts field) select = .ok select' := by
  unfold selectField
  by_cases hdot : field.toList.contains '.' = true
  · rw [if_pos hdot]
  · rw [if_neg hdot, parts_of_no_dot fun h => hdot (List.contains_iff_mem.mpr h)]
    unfold buildNestedSelect
    split
    · rfl
    · exact iff_of_false (fun h => by cases h) (fun h => by cases h)

end Requested

/-! ## Fields that are apart from each other -/

/-- The leaves that a path asks for: its own, and the columns on the way. -/
def leaves : EntityMetadata → List String → List (List String)
  | _, [] => []
  | _, [part] => [[part]]
  | metadata, part :: next :: rest =>
      match metadata.findRelationWithPropertyPath part with
      | none => []
      | some relation =>
          let relationMetadata := schema.entity relation.inverseEntity
          ((columnsToSelect relationMetadata (rest ≠ [])).map (fun column => [column]) ++
            leaves relationMetadata (next :: rest)).map (part :: ·)

section Places

variable {schema} {isObj : List String → Prop}

theorem mem_leaves_cons {metadata : EntityMetadata} {part next : String} {rest : List String}
    {relation : RelationMetadata}
    (hrelation : metadata.findRelationWithPropertyPath part = some relation) {p : List String} :
    p ∈ leaves schema metadata (part :: next :: rest) ↔
      ∃ q, p = part :: q ∧ ((∃ column ∈ columnsToSelect (schema.entity relation.inverseEntity)
          (rest ≠ []), q = [column]) ∨
        q ∈ leaves schema (schema.entity relation.inverseEntity) (next :: rest)) := by
  simp only [leaves, hrelation, List.mem_map, List.mem_append]
  constructor
  · rintro ⟨q, ⟨column, hcolumn, rfl⟩ | hq, rfl⟩
    · exact ⟨_, rfl, .inl ⟨column, hcolumn, rfl⟩⟩
    · exact ⟨q, rfl, .inr hq⟩
  · rintro ⟨q, rfl, ⟨column, hcolumn, rfl⟩ | hq⟩
    · exact ⟨_, .inl ⟨column, hcolumn, rfl⟩, rfl⟩
    · exact ⟨q, .inr hq, rfl⟩

theorem selectColumns_places (columns : List String) {target : Select}
    (h : target.Shaped isObj) (hleaf : ∀ column ∈ columns, ¬ isObj [column]) :
    (selectColumns columns target).Shaped isObj ∧ ∀ p ≠ [],
      ((selectColumns columns target).Has p ↔ target.Has p ∨ ∃ column ∈ columns, p = [column]) := by
  induction columns generalizing target with
  | nil => exact ⟨h, fun p _ => by simp [selectColumns]⟩
  | cons column columns ih =>
      have htail : ∀ column ∈ columns, ¬ isObj [column] :=
        fun column' hmem => hleaf column' (List.mem_cons_of_mem _ hmem)
      have hcolumn := hleaf column List.mem_cons_self
      by_cases hsome : (target.get column).isSome = true
      · have hstep : selectColumns (column :: columns) target = selectColumns columns target :=
          congrArg (selectColumns columns) (if_pos hsome)
        have hhas : target.Has [column] := by
          obtain ⟨v, hv⟩ := Option.isSome_iff_exists.mp hsome
          cases v with
          | leaf a =>
              rw [Fields.Has, Fields.kind_of_leaf hv]
              rfl
          | obj inner => exact absurd hv (h.not_obj hcolumn)
        obtain ⟨hshaped, hplaces⟩ := ih h htail
        rw [hstep]
        refine ⟨hshaped, fun p hp => (hplaces p hp).trans ?_⟩
        rw [List.exists_mem_cons_iff]
        constructor
        · rintro (hold | hnew)
          · exact .inl hold
          · exact .inr (.inr hnew)
        · rintro (hold | rfl | hnew)
          · exact .inl hold
          · exact .inl hhas
          · exact .inr hnew
      · have hstep : selectColumns (column :: columns) target =
            selectColumns columns (target.set column (.leaf ())) :=
          congrArg (selectColumns columns) (if_neg hsome)
        obtain ⟨hshaped, hplaces⟩ := ih (h.set_leaf hcolumn) htail
        rw [hstep]
        refine ⟨hshaped, fun p hp => (hplaces p hp).trans ?_⟩
        rw [h.has_set_leaf hcolumn hp, List.exists_mem_cons_iff, or_assoc]

theorem objectOrNew_places {level : Select} {part : String} (h : level.Shaped isObj)
    (hpart : isObj [part]) :
    (objectOrNew (level.get part)).Shaped (fun p => isObj (part :: p)) ∧
      ∀ p ≠ [], ((objectOrNew (level.get part)).Has p ↔ level.Has (part :: p)) := by
  cases hget : level.get part with
  | none =>
      refine ⟨Fields.shaped_nil, fun p hp => ?_⟩
      show ((Fields.nil : Select).kind p).isSome = true ↔ _
      rw [Fields.Has, Fields.kind_of_none hget, Fields.kind_nil hp]
  | some v =>
      cases v with
      | leaf a => exact absurd hget (h.not_leaf hpart)
      | obj inner =>
          refine ⟨h.of_get hget, fun p _ => ?_⟩
          rw [Fields.Has, Fields.Has, Fields.kind_of_obj hget, objectOrNew]

/-- A path whose places keep to the agreement is accepted, and adds exactly these places. -/
theorem buildNestedSelect_places (path : String) : ∀ {ps : List String} {metadata : EntityMetadata}
    {level : Select} {isObj : List String → Prop}, (resolveFrom schema metadata ps).isSome = true →
      level.Shaped isObj → (∀ p ≠ [], p <+: ps → p ≠ ps → isObj p) →
      (∀ p ∈ leaves schema metadata ps, ¬ isObj p) →
      ∃ level', buildNestedSelect schema path metadata ps level = .ok level' ∧
        level'.Shaped isObj ∧ ∀ p ≠ [], (level'.Has p ↔
          level.Has p ∨ (p <+: ps ∧ p ≠ ps) ∨ p ∈ leaves schema metadata ps)
  | [], _, _, _, hvalid, _, _, _ => by cases hvalid
  | [part], metadata, level, isObj, hvalid, hshaped, _, hleaves => by
      have hpart : ¬ isObj [part] := hleaves [part] (List.mem_singleton.mpr rfl)
      refine ⟨level.set part (.leaf ()), if_pos hvalid, hshaped.set_leaf hpart, fun p hp => ?_⟩
      have hno : ¬ (p <+: [part] ∧ p ≠ [part]) := by
        rintro ⟨hstarts, hne⟩
        cases p with
        | nil => exact hp rfl
        | cons key p =>
            obtain ⟨rfl, hrest⟩ := List.cons_prefix_cons.mp hstarts
            rw [List.prefix_nil.mp hrest] at hne
            exact hne rfl
      rw [hshaped.has_set_leaf hpart hp, leaves, List.mem_singleton]
      tauto
  | part :: next :: rest, metadata, level, isObj, hvalid, hshaped, hobj, hleaves => by
      unfold resolveFrom at hvalid
      split at hvalid
      · cases hvalid
      · rename_i relation hrelation
        have hpart : isObj [part] := hobj [part] (List.cons_ne_nil part [])
          (List.cons_prefix_cons.mpr ⟨rfl, List.nil_prefix⟩) (by simp)
        obtain ⟨hinner, hinnerHas⟩ := objectOrNew_places hshaped hpart
        obtain ⟨hfilled, hfilledHas⟩ := selectColumns_places (columnsToSelect
            (schema.entity relation.inverseEntity) (rest ≠ [])) hinner fun column hcolumn =>
          hleaves _ ((mem_leaves_cons hrelation).mpr ⟨_, rfl, .inl ⟨column, hcolumn, rfl⟩⟩)
        obtain ⟨target, hrun, htarget, htargetHas⟩ :=
          buildNestedSelect_places path hvalid hfilled
            (fun p _ hstarts hne => hobj (part :: p) (List.cons_ne_nil part p)
              (List.cons_prefix_cons.mpr ⟨rfl, hstarts⟩) fun heq => hne (List.cons.inj heq).2)
            (fun p hp => hleaves _ ((mem_leaves_cons hrelation).mpr ⟨p, rfl, .inr hp⟩))
        refine ⟨level.set part (.obj target), ?_, hshaped.set_obj hpart htarget, fun p hp => ?_⟩
        · unfold buildNestedSelect
          rw [hrelation]
          dsimp only
          split
          · rename_i hget
            exact absurd hget (hshaped.not_leaf hpart)
          · rw [hrun]
            rfl
        · cases p with
          | nil => exact absurd rfl hp
          | cons key p =>
              by_cases heq : part = key
              · subst heq
                rw [Fields.has_set_obj_self, mem_leaves_cons hrelation, List.cons_prefix_cons]
                by_cases hnil : p = []
                · subst hnil
                  exact iff_of_true rfl (.inr (.inl ⟨⟨rfl, List.nil_prefix⟩, by simp⟩))
                · rw [htargetHas p hnil, hfilledHas p hnil, hinnerHas p hnil]
                  simp only [List.cons.injEq, true_and, exists_eq_left', ne_eq]
                  exact or_assoc.trans (or_congr_right or_left_comm)
              · rw [Fields.has_set_of_ne heq, mem_leaves_cons hrelation, List.cons_prefix_cons]
                refine ⟨.inl, ?_⟩
                rintro (hold | ⟨⟨rfl, -⟩, -⟩ | ⟨q, hcons, -⟩)
                · exact hold
                · exact absurd rfl heq
                · exact absurd (List.cons.inj hcons).1.symm heq

/-- The proper beginnings of the paths hold objects. -/
def Above (paths : List (List String)) (p : List String) : Prop :=
  ∃ ps ∈ paths, p <+: ps ∧ p ≠ ps

/-- The loop over fields whose places agree. -/
theorem foldlM_places (all : List (List String)) : ∀ {fields : List String} {select : Select},
    select.Shaped (Above all) →
      (∀ field ∈ fields, parts field ∈ all ∧ (resolveColumnMetadata schema field).isSome = true ∧
        ∀ p ∈ leaves schema schema.root (parts field), ¬ Above all p) →
      ∃ select', fields.foldlM (selectField schema) select = .ok select' ∧
        select'.Shaped (Above all) ∧ ∀ p ≠ [], (select'.Has p ↔ select.Has p ∨
          ∃ field ∈ fields, (p <+: parts field ∧ p ≠ parts field) ∨
            p ∈ leaves schema schema.root (parts field))
  | [], select, hshaped, _ => ⟨select, rfl, hshaped, fun p _ => by simp⟩
  | field :: fields, select, hshaped, hfields => by
      obtain ⟨hmem, hvalid, hleaves⟩ := hfields field List.mem_cons_self
      obtain ⟨select₁, hrun, hshaped₁, hplaces₁⟩ := buildNestedSelect_places field hvalid hshaped
        (fun p _ hstarts hne => ⟨parts field, hmem, hstarts, hne⟩) hleaves
      obtain ⟨select', hrest, hshaped', hplaces'⟩ := foldlM_places all hshaped₁ fun field' hmem' =>
        hfields field' (List.mem_cons_of_mem _ hmem')
      refine ⟨select', ?_, hshaped', fun p hp => ?_⟩
      · rw [List.foldlM_cons, selectField_eq_ok.mpr hrun]
        exact hrest
      · rw [hplaces' p hp, hplaces₁ p hp, List.exists_mem_cons_iff, or_assoc]

end Places

/-! ## Names that relations and columns share -/

section Shared

variable {schema}

theorem AlongRelations.of_append : ∀ {p q : List String} {free : Bool}
    {metadata : EntityMetadata}, AlongRelations schema free metadata (p ++ q) →
      AlongRelations schema free metadata p
  | [], _, _, _, _ => trivial
  | _ :: _, _, _, _, ⟨hname, relation, hrelation, hrest⟩ =>
      ⟨hname, relation, hrelation, hrest.of_append⟩

theorem isValidColumn_of_mem (hprimary : HasPrimaryColumns schema) {e : String}
    {isPassThrough : Bool} {column : String}
    (h : column ∈ columnsToSelect (schema.entity e) isPassThrough) :
    isValidColumn (schema.entity e) column = true := by
  unfold columnsToSelect at h
  split at h
  · obtain ⟨c, hc, rfl⟩ := List.mem_map.mp h
    unfold isValidColumn EntityMetadata.findColumnWithPropertyName
    rw [List.find?_isSome]
    exact ⟨c, hc, beq_self_eq_true _⟩
  · exact hprimary.entity e column h

theorem not_alongRelations {metadata : EntityMetadata} {column : String}
    (h : isValidColumn metadata column = true) :
    ¬ AlongRelations schema false metadata [column] := by
  rintro ⟨hname, -⟩
  rcases hname with hfree | hnone
  · cases hfree
  · rw [isValidColumn, hnone] at h
    cases h

/-- A leaf is a column at its end. -/
theorem not_alongRelations_of_mem_leaves (hprimary : HasPrimaryColumns schema) :
    ∀ {ps : List String} {metadata : EntityMetadata} {p : List String},
      (resolveFrom schema metadata ps).isSome = true → p ∈ leaves schema metadata ps →
        ¬ AlongRelations schema false metadata p
  | [], _, _, hvalid, _ => by cases hvalid
  | [part], metadata, p, hvalid, hp => by
      obtain rfl := List.mem_singleton.mp hp
      exact not_alongRelations hvalid
  | part :: next :: rest, metadata, p, hvalid, hp => by
      unfold resolveFrom at hvalid
      split at hvalid
      · cases hvalid
      · rename_i relation hrelation
        obtain ⟨q, rfl, hq⟩ := (mem_leaves_cons hrelation).mp hp
        rintro ⟨-, relation', hrelation', halong⟩
        obtain rfl := Option.some.inj (hrelation.symm.trans hrelation')
        rcases hq with ⟨column, hcolumn, rfl⟩ | hq
        · exact not_alongRelations (isValidColumn_of_mem hprimary hcolumn) halong
        · exact not_alongRelations_of_mem_leaves hprimary hvalid hq halong

theorem mem_leaves_self : ∀ {ps : List String} {metadata : EntityMetadata},
    (resolveFrom schema metadata ps).isSome = true → ps ∈ leaves schema metadata ps
  | [], _, hvalid => by cases hvalid
  | [_], _, _ => List.mem_singleton.mpr rfl
  | part :: next :: rest, metadata, hvalid => by
      unfold resolveFrom at hvalid
      split at hvalid
      · cases hvalid
      · rename_i relation hrelation
        exact (mem_leaves_cons hrelation).mpr ⟨_, rfl, .inr (mem_leaves_self hvalid)⟩

theorem ne_nil_of_mem_leaves {ps : List String} {metadata : EntityMetadata} {p : List String}
    (hvalid : (resolveFrom schema metadata ps).isSome = true) (hp : p ∈ leaves schema metadata ps) :
    p ≠ [] := by
  match ps, hp with
  | [], _ => cases hvalid
  | [part], hp =>
      rw [List.mem_singleton.mp hp]
      exact List.cons_ne_nil part []
  | part :: next :: rest, hp =>
      unfold resolveFrom at hvalid
      split at hvalid
      · cases hvalid
      · rename_i relation hrelation
        obtain ⟨q, rfl, -⟩ := (mem_leaves_cons hrelation).mp hp
        exact List.cons_ne_nil part q

end Shared

/-! ## Separate fields are selected -/

section Parse

variable {schema}
variable (hprimary : HasPrimaryColumns schema) {fieldsString : String}
  (hvalid : ∀ field ∈ parseCommaSeparatedValues fieldsString,
    (resolveColumnMetadata schema field).isSome = true)

include hprimary in
theorem parts_of_primary {pk : String} (h : pk ∈ schema.root.primaryColumns) : parts pk = [pk] :=
  parts_of_no_dot (hprimary.root pk h).2

include hprimary hvalid in
theorem requestedFields_valid {field : String} (h : field ∈ requestedFields schema fieldsString) :
    (resolveFrom schema schema.root (parts field)).isSome = true := by
  rcases mem_requestedFields.mp h with hrequested | hpk
  · exact hvalid field hrequested
  · rw [parts_of_primary hprimary hpk]
    exact (hprimary.root field hpk).1

include hprimary hvalid in
/-- No path goes through a leaf of another one. -/
theorem not_above_of_separate (hsep : Separate schema (parseCommaSeparatedValues fieldsString))
    {field : String} (hfield : field ∈ requestedFields schema fieldsString) {p : List String}
    (hp : p ∈ leaves schema schema.root (parts field)) :
    ¬ Above ((requestedFields schema fieldsString).map parts) p := by
  rintro ⟨ps, hps, ⟨s, hs⟩, hne⟩
  obtain ⟨other, hother, rfl⟩ := List.mem_map.mp hps
  have hfieldValid := requestedFields_valid hprimary hvalid hfield
  have hpne := ne_nil_of_mem_leaves hfieldValid hp
  have hsne : s ≠ [] := by
    rintro rfl
    rw [List.append_nil] at hs
    exact hne hs
  have hrequested : other ∈ parseCommaSeparatedValues fieldsString := by
    rcases mem_requestedFields.mp hother with h | hpk
    · exact h
    · -- The path of a primary column has nothing above it.
      rw [parts_of_primary hprimary hpk] at hs
      have hlength := congrArg List.length hs
      have hplength := List.length_pos_iff.mpr hpne
      have hslength := List.length_pos_iff.mpr hsne
      rw [List.length_append, List.length_singleton] at hlength
      omega
  have halong : AlongRelations schema true schema.root p := by
    have hwhole := hsep.later other hrequested
    rw [← hs, List.dropLast_append_of_ne_nil hsne] at hwhole
    exact hwhole.of_append
  match hparts : parts field with
  | [] =>
      rw [hparts] at hfieldValid
      cases hfieldValid
  | [part] =>
      rw [hparts] at hp
      obtain rfl := List.mem_singleton.mp hp
      obtain ⟨next, rest, rfl⟩ := List.exists_cons_of_ne_nil hsne
      obtain ⟨hno, hnoPk⟩ := hsep.first other hrequested part next rest hs.symm
      rw [parts_eq_singleton hparts] at hfield
      exact (mem_requestedFields.mp hfield).elim hno hnoPk
  | part :: next :: rest =>
      rw [hparts] at hp hfieldValid
      unfold resolveFrom at hfieldValid
      split at hfieldValid
      · cases hfieldValid
      · rename_i relation hrelation
        obtain ⟨q, rfl, hq⟩ := (mem_leaves_cons hrelation).mp hp
        obtain ⟨-, relation', hrelation', hlater⟩ := halong
        obtain rfl := Option.some.inj (hrelation.symm.trans hrelation')
        rcases hq with ⟨column, hcolumn, rfl⟩ | hq
        · exact not_alongRelations (isValidColumn_of_mem hprimary hcolumn) hlater
        · exact not_alongRelations_of_mem_leaves hprimary hfieldValid hq hlater

include hprimary hvalid in
/-- The places of the select object. -/
theorem parse_places (hsep : Separate schema (parseCommaSeparatedValues fieldsString)) :
    ∃ select, parseAndValidateFields schema fieldsString = .ok select ∧
      select.Shaped (Above ((requestedFields schema fieldsString).map parts)) ∧
      ∀ p ≠ [], (select.Has p ↔ ∃ field ∈ requestedFields schema fieldsString,
        (p <+: parts field ∧ p ≠ parts field) ∨ p ∈ leaves schema schema.root (parts field)) := by
  obtain ⟨select, hrun, hshaped, hplaces⟩ := foldlM_places
    ((requestedFields schema fieldsString).map parts) Fields.shaped_nil fun field hfield =>
      ⟨List.mem_map_of_mem hfield, requestedFields_valid hprimary hvalid hfield,
        fun p hp => not_above_of_separate hprimary hvalid hsep hfield hp⟩
  refine ⟨select, hrun, hshaped, fun p hp => ?_⟩
  have hnil : ¬ (Fields.nil : Select).Has p := by
    rw [Fields.Has, Fields.kind_nil hp]
    exact Bool.false_ne_true
  rw [hplaces p hp, or_iff_right hnil]

theorem Separate.congr {fields fields' : List String} (h : Separate schema fields)
    (hsame : ∀ field, field ∈ fields ↔ field ∈ fields') : Separate schema fields' := by
  constructor
  · intro field hfield part next rest hparts
    obtain ⟨hno, hpk⟩ := h.first field ((hsame field).mpr hfield) part next rest hparts
    exact ⟨fun hmem => hno ((hsame part).mpr hmem), hpk⟩
  · intro field hfield
    exact h.later field ((hsame field).mpr hfield)

include hprimary hvalid in
theorem selectsAll_of_separate
    (hsep : Separate schema (parseCommaSeparatedValues fieldsString)) :
    SelectsAll schema fieldsString := by
  obtain ⟨select, hrun, hshaped, hplaces⟩ := parse_places hprimary hvalid hsep
  refine ⟨select, hrun, fun field hfield => ?_, fun reordered hperm => ?_⟩
  · have hmem : parts field ∈ leaves schema schema.root (parts field) :=
      mem_leaves_self (hvalid field hfield)
    exact (hplaces _ (ne_nil_of_mem_leaves (hvalid field hfield) hmem)).mpr
      ⟨field, mem_requestedFields.mpr (.inl hfield), .inr hmem⟩
  · have hsame : ∀ field, field ∈ requestedFields schema reordered ↔
        field ∈ requestedFields schema fieldsString := by
      intro field
      rw [mem_requestedFields, mem_requestedFields, hperm.mem_iff]
    have hvalid' : ∀ field ∈ parseCommaSeparatedValues reordered,
        (resolveColumnMetadata schema field).isSome = true :=
      fun field hfield => hvalid field (hperm.mem_iff.mp hfield)
    obtain ⟨select', hrun', hshaped', hplaces'⟩ := parse_places hprimary hvalid'
      (hsep.congr fun field => hperm.mem_iff.symm)
    refine ⟨select', hrun', Fields.kind_eq_of_shaped (hshaped'.congr ?_) hshaped ?_⟩
    · intro p
      simp only [Above, List.mem_map, hsame]
    · intro p hp
      rw [hplaces' p hp, hplaces p hp]
      simp only [hsame]

end Parse

/-! ## Fields that are not separate are lost -/

section Lost

variable {schema}

/-- A leaf stays a leaf. -/
theorem buildNestedSelect_leaf {path name : String} :
    ∀ {ps : List String} {metadata : EntityMetadata} {level level' : Select},
      buildNestedSelect schema path metadata ps level = .ok level' →
        level.get name = some (.leaf ()) → level'.get name = some (.leaf ())
  | [], _, _, _, hrun, hleaf => by
      obtain rfl := Except.ok.inj hrun
      exact hleaf
  | [part], _, level, _, hrun, hleaf => by
      unfold buildNestedSelect at hrun
      split at hrun
      · obtain rfl := Except.ok.inj hrun
        by_cases heq : part = name
        · subst heq
          exact Fields.get_set_self part _ level
        · rwa [Fields.get_set_of_ne heq]
      · cases hrun
  | part :: next :: rest, metadata, level, level', hrun, hleaf => by
      unfold buildNestedSelect at hrun
      split at hrun
      · cases hrun
      · split at hrun
        · exact buildNestedSelect_leaf hrun hleaf
        · rename_i hnot
          obtain ⟨target, -, heq⟩ := bind_eq_ok.mp hrun
          obtain rfl := Except.ok.inj heq
          have hne : part ≠ name := by
            rintro rfl
            exact hnot hleaf
          rwa [Fields.get_set_of_ne hne]

theorem selectField_leaf {name field : String} {select select' : Select}
    (hrun : selectField schema select field = .ok select')
    (hleaf : select.get name = some (.leaf ())) : select'.get name = some (.leaf ()) :=
  buildNestedSelect_leaf (selectField_eq_ok.mp hrun) hleaf

theorem selectField_single {name : String} (hname : parts name = [name]) {select select' : Select}
    (hrun : selectField schema select name = .ok select') :
    select'.get name = some (.leaf ()) := by
  have hbuild := selectField_eq_ok.mp hrun
  rw [hname] at hbuild
  unfold buildNestedSelect at hbuild
  split at hbuild
  · obtain rfl := Except.ok.inj hbuild
    exact Fields.get_set_self name _ select
  · cases hbuild

variable (schema) in
/-- The nested objects are those of relations without the name of a column. -/
def RelationsOnly (free : Bool) (metadata : EntityMetadata) (level : Select) : Prop :=
  ∀ p, level.kind p = some .obj → AlongRelations schema free metadata p

/-- Every column has its place. -/
def Filled (metadata : EntityMetadata) (level : Select) : Prop :=
  ∀ column, isValidColumn metadata column = true → (level.get column).isSome = true

theorem selectColumns_relationsOnly {free : Bool} {metadata : EntityMetadata}
    {columns : List String} {target : Select}
    (h : RelationsOnly schema free metadata target) :
    RelationsOnly schema free metadata (selectColumns columns target) := by
  induction columns generalizing target with
  | nil => exact h
  | cons column columns ih =>
      refine ih ?_
      dsimp only
      split
      · exact h
      · intro p hp
        cases p with
        | nil => trivial
        | cons key p =>
            by_cases heq : column = key
            · subst heq
              rw [Fields.kind_of_leaf (Fields.get_set_self column _ target)] at hp
              split at hp
              · cases hp
              · cases hp
            · rw [Fields.kind_set_of_ne heq] at hp
              exact h _ hp

theorem get_selectColumns {columns : List String} {target : Select} {column : String}
    (h : column ∈ columns ∨ (target.get column).isSome = true) :
    ((selectColumns columns target).get column).isSome = true := by
  induction columns generalizing target with
  | nil => exact h.resolve_left List.not_mem_nil
  | cons first columns ih =>
      refine ih ?_
      dsimp only
      by_cases hsome : (target.get first).isSome = true
      · rw [if_pos hsome]
        rcases h with hmem | htarget
        · rcases List.mem_cons.mp hmem with rfl | hmem
          · exact .inr hsome
          · exact .inl hmem
        · exact .inr htarget
      · rw [if_neg hsome]
        by_cases heq : first = column
        · subst heq
          rw [Fields.get_set_self]
          exact .inr rfl
        · rw [Fields.get_set_of_ne heq]
          refine h.imp_left fun hmem => ?_
          exact (List.mem_cons.mp hmem).resolve_left fun hfirst => heq hfirst.symm

theorem filled_selectColumns (e : String) (target : Select) :
    Filled (schema.entity e) (selectColumns (columnsToSelect (schema.entity e) true) target) := by
  intro column hcolumn
  refine get_selectColumns (.inl ?_)
  obtain ⟨c, hc⟩ := Option.isSome_iff_exists.mp hcolumn
  have hname : c.propertyName = column := by simpa using List.find?_some hc
  exact List.mem_map.mpr ⟨c, List.mem_of_find?_eq_some hc, hname⟩

/-- A path adds nested objects for relations only: where it goes on beyond a level, all columns of
the entity have their places there already. -/
theorem buildNestedSelect_relationsOnly {path : String} :
    ∀ {ps : List String} {free : Bool} {metadata : EntityMetadata} {level level' : Select},
      RelationsOnly schema free metadata level →
      (free = false → 1 < ps.length → Filled metadata level) →
      buildNestedSelect schema path metadata ps level = .ok level' →
        RelationsOnly schema free metadata level'
  | [], _, _, _, _, honly, _, hrun => by
      obtain rfl := Except.ok.inj hrun
      exact honly
  | [part], _, _, level, _, honly, _, hrun => by
      unfold buildNestedSelect at hrun
      split at hrun
      · obtain rfl := Except.ok.inj hrun
        intro p hp
        cases p with
        | nil => trivial
        | cons key p =>
            by_cases heq : part = key
            · subst heq
              rw [Fields.kind_of_leaf (Fields.get_set_self part _ level)] at hp
              split at hp
              · cases hp
              · cases hp
            · rw [Fields.kind_set_of_ne heq] at hp
              exact honly _ hp
      · cases hrun
  | part :: next :: rest, free, metadata, level, level', honly, hfilled, hrun => by
      have hlong : 1 < (part :: next :: rest).length := by simp
      unfold buildNestedSelect at hrun
      split at hrun
      · cases hrun
      · rename_i relation hrelation
        split at hrun
        · exact buildNestedSelect_relationsOnly honly (fun hfree _ => hfilled hfree hlong) hrun
        · rename_i hnot
          obtain ⟨target, htarget, heq⟩ := bind_eq_ok.mp hrun
          obtain rfl := Except.ok.inj heq
          have hpart : free = true ∨ metadata.findColumnWithPropertyName part = none := by
            cases hget : level.get part with
            | none =>
                cases hfree : free with
                | true => exact .inl rfl
                | false =>
                    refine .inr (Option.eq_none_iff_forall_ne_some.mpr fun c hc => ?_)
                    have hplace := hfilled hfree hlong part (by rw [isValidColumn, hc]; rfl)
                    rw [hget] at hplace
                    cases hplace
            | some v =>
                cases v with
                | leaf a => exact absurd hget hnot
                | obj inner => exact (honly [part] (Fields.kind_of_obj hget)).1
          have hinner : RelationsOnly schema false
              (schema.entity relation.inverseEntity) (objectOrNew (level.get part)) := by
            intro p hp
            cases p with
            | nil => trivial
            | cons key p =>
                cases hget : level.get part with
                | none =>
                    rw [hget] at hp
                    exact absurd hp (by simp [objectOrNew, Fields.kind_nil])
                | some v =>
                    rw [hget] at hp
                    cases v with
                    | leaf a => exact absurd hget hnot
                    | obj inner =>
                        have hold := honly (part :: key :: p) ((Fields.kind_of_obj hget).trans hp)
                        obtain ⟨-, relation', hrelation', hlater⟩ := hold
                        obtain rfl := Option.some.inj (hrelation.symm.trans hrelation')
                        exact hlater
          have honly' := buildNestedSelect_relationsOnly (selectColumns_relationsOnly hinner)
            (fun _ hrest => by
              have hpass : (decide (rest ≠ []) : Bool) = true := by
                rw [decide_eq_true_iff, ← List.length_pos_iff]
                simpa using hrest
              rw [hpass]
              exact filled_selectColumns _ _) htarget
          intro p hp
          cases p with
          | nil => trivial
          | cons key p =>
              by_cases heq : part = key
              · subst heq
                rw [Fields.kind_of_obj (Fields.get_set_self part _ level)] at hp
                exact ⟨hpart, relation, hrelation, honly' p hp⟩
              · rw [Fields.kind_set_of_ne heq] at hp
                exact honly _ hp

theorem separate_of_selectsAll {fieldsString : String} (h : SelectsAll schema fieldsString) :
    Separate schema (parseCommaSeparatedValues fieldsString) := by
  obtain ⟨select, hrun, hplaces, -⟩ := h
  constructor
  · intro field hfield part next rest hparts
    have hlost : part ∉ requestedFields schema fieldsString := by
      intro hmem
      have hdot : '.' ∉ part.toList := no_dot_of_mem_parts (hparts ▸ List.mem_cons_self)
      have hkeep : ∀ select field select', select.get part = some (.leaf ()) →
          selectField schema select field = .ok select' → select'.get part = some (.leaf ()) :=
        fun _ _ _ hleaf hstep => selectField_leaf hstep hleaf
      have hset : ∀ select select', selectField schema select part = .ok select' →
          select'.get part = some (.leaf ()) :=
        fun _ _ hstep => selectField_single (parts_of_no_dot hdot) hstep
      have hleaf := foldlM_establishes hkeep hset hmem hrun
      have hhas := hplaces field hfield
      rw [hparts, Fields.Has, Fields.kind_of_leaf hleaf,
        if_neg (List.cons_ne_nil next rest)] at hhas
      cases hhas
    exact ⟨fun hmem => hlost (mem_requestedFields.mpr (.inl hmem)),
      fun hmem => hlost (mem_requestedFields.mpr (.inr hmem))⟩
  · intro field hfield
    have honly : RelationsOnly schema true schema.root select := by
      refine foldlM_keeps (fun select₁ field' select₂ honly hstep => ?_) ?_ hrun
      · exact buildNestedSelect_relationsOnly honly (fun hfree => by cases hfree)
          (selectField_eq_ok.mp hstep)
      · intro p hp
        by_cases hnil : p = []
        · subst hnil
          trivial
        · rw [Fields.kind_nil hnil] at hp
          cases hp
    have hhas := hplaces field hfield
    have hne : parts field ≠ [] := by
      intro hnil
      have hlength := congrArg List.length hnil
      simp [parts, Js.split, List.splitOn_ne_nil] at hlength
    rw [← List.dropLast_append_getLast hne] at hhas
    exact honly _ (Fields.kind_of_has hhas)

end Lost

/-- **The selected fields.** For fields that are column paths of the schema: all of them are
selected, in any order, if and only if no path goes through a relation whose name is selected as a
column. -/
theorem fieldsSelect_iff (hprimary : HasPrimaryColumns schema) {fieldsString : String}
    (hvalid : ∀ field ∈ parseCommaSeparatedValues fieldsString,
      (resolveColumnMetadata schema field).isSome = true) :
    SelectsAll schema fieldsString ↔ Separate schema (parseCommaSeparatedValues fieldsString) :=
  ⟨separate_of_selectsAll, selectsAll_of_separate hprimary hvalid⟩

/-! ## Products and their categories -/

def plainColumn (propertyName : String) : ColumnMetadata := ⟨propertyName, .other⟩

/-- A product has a category; the join column has the name of the relation. -/
def productEntity : EntityMetadata where
  columns := ["id", "name", "category"].map plainColumn
  relations := [⟨"category", "Category"⟩]
  primaryColumns := ["id"]

/-- A category has a parent, likewise. -/
def categoryEntity : EntityMetadata where
  columns := ["id", "code", "name", "parent"].map plainColumn
  relations := [⟨"parent", "Category"⟩]
  primaryColumns := ["id"]

def catalog : Schema where
  root := productEntity
  entity _ := categoryEntity
  root_names := by decide
  entity_names _ := by decide

theorem catalog_primary : HasPrimaryColumns catalog where
  root := by decide +kernel
  entity _ := by
    show ∀ pk ∈ categoryEntity.primaryColumns, isValidColumn categoryEntity pk = true
    decide +kernel

/-- The names of a product and of its category, and the code of the category. -/
theorem category_selected : SelectsAll catalog "name,category.code,category.name" := by
  have hways : ∀ field ∈ parseCommaSeparatedValues "name,category.code,category.name",
      (parts field).dropLast = [] ∨ (parts field).dropLast = ["category"] := by
    decide +kernel
  refine (fieldsSelect_iff catalog catalog_primary (by decide +kernel)).mpr ⟨?_, ?_⟩
  · intro field hfield part next rest hparts
    have hway := hways field hfield
    rw [hparts, List.dropLast_cons_of_ne_nil (List.cons_ne_nil next rest)] at hway
    have hcategory : part = "category" := by
      rcases hway with hnil | hone
      · cases hnil
      · exact (List.cons.inj hone).1
    rw [hcategory]
    decide +kernel
  · intro field hfield
    rcases hways field hfield with hway | hway
    · rw [hway]
      trivial
    · rw [hway]
      exact ⟨.inl rfl, _, rfl, trivial⟩

/-- A category asked for with its code is lost, and so is the code of a parent. -/
theorem join_column_hides :
    ((∀ field ∈ parseCommaSeparatedValues "category,category.code",
        (resolveColumnMetadata catalog field).isSome = true) ∧
      ¬ SelectsAll catalog "category,category.code") ∧
    (∀ field ∈ parseCommaSeparatedValues "category.parent.code",
        (resolveColumnMetadata catalog field).isSome = true) ∧
      ¬ SelectsAll catalog "category.parent.code" := by
  refine ⟨⟨by decide +kernel, fun hall => ?_⟩, by decide +kernel, fun hall => ?_⟩
  · have hfirst := (separate_of_selectsAll hall).first "category.code" (by decide +kernel)
      "category" "code" [] (by decide +kernel)
    exact hfirst.1 (by decide +kernel)
  · have hlater := (separate_of_selectsAll hall).later "category.parent.code" (by decide +kernel)
    have hparts : (parts "category.parent.code").dropLast = ["category", "parent"] := by
      decide +kernel
    rw [hparts] at hlater
    obtain ⟨-, relation, -, hname, -⟩ := hlater
    exact hname.elim (fun h => by cases h) (fun h => by cases h)

end ErpApi.Query
