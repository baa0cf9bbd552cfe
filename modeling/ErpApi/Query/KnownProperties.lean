import ErpApi.Query.SoftDelete

set_option autoImplicit false

/-! # The properties in a where value

TypeORM looks up every key of a where object in the metadata of the entity and throws an error
if there is no such property. The builder validates the field paths of a query before it uses
them, so the where values it returns pass this check (`known_buildWhere`): their leaves lie at
paths along relations to a column, their objects at paths along relations.
-/

namespace ErpApi.Query

open ErpApi.ObjectTree

/-! ## The check -/

mutual

/-- The keys under a value are known. The value of a column is not looked into. -/
def nodeKnown (schema : Schema) (entity : EntityMetadata) (key : String) : Node Leaf → Bool
  | .leaf leaf => leaf.isSkipped || (entity.findColumnWithPropertyName key).isSome ||
      (entity.findRelationWithPropertyPath key).isSome
  | .obj fields =>
      (entity.findColumnWithPropertyName key).isSome ||
        match entity.findRelationWithPropertyPath key with
        | some relation => fieldsKnown schema (schema.entity relation.inverseEntity) fields
        | none => false

/-- Every key of a where object that is not passed over is a property of its entity. -/
def fieldsKnown (schema : Schema) (entity : EntityMetadata) : Fields Leaf → Bool
  | .nil => true
  | .cons key value rest => nodeKnown schema entity key value && fieldsKnown schema entity rest

end

def Where.isKnown (schema : Schema) (where_ : Where) : Bool :=
  where_.alternatives.all (fieldsKnown schema schema.root)

/-! ## Paths along relations -/

section Paths

variable (schema : Schema)

/-- The entity at the end of the relations. -/
def entityAt : EntityMetadata → List String → Option EntityMetadata
  | entity, [] => some entity
  | entity, part :: rest =>
      match entity.findRelationWithPropertyPath part with
      | none => none
      | some relation => entityAt (schema.entity relation.inverseEntity) rest

/-- The path leads along relations to a column. -/
def LeadsToColumn (path : List String) : Prop := (resolveFrom schema schema.root path).isSome = true

def LeadsToEntity (path : List String) : Prop := (entityAt schema schema.root path).isSome = true

/-- The leaves of the object lie at columns and its objects at relations. -/
def InSchema (fields : WhereObject) : Prop :=
  fields.All (fun path _ => LeadsToColumn schema path) (LeadsToEntity schema) []

variable {schema}

theorem resolveFrom_append {entity target : EntityMetadata} {pre path : List String}
    (h : entityAt schema entity pre = some target) (hpath : path ≠ []) :
    resolveFrom schema entity (pre ++ path) = resolveFrom schema target path := by
  induction pre generalizing entity with
  | nil =>
      obtain rfl := Option.some.inj h
      rfl
  | cons part pre ih =>
      rw [entityAt] at h
      cases hrel : entity.findRelationWithPropertyPath part with
      | none =>
          rw [hrel] at h
          cases h
      | some relation =>
          rw [hrel] at h
          obtain ⟨next, rest, hcons⟩ :=
            List.exists_cons_of_ne_nil (List.append_ne_nil_of_right_ne_nil pre hpath)
          have hstep := ih h
          rw [hcons] at hstep
          rw [List.cons_append, hcons, resolveFrom, hrel]
          exact hstep

theorem entityAt_append {entity target : EntityMetadata} {pre : List String} {key : String}
    (h : entityAt schema entity pre = some target) :
    entityAt schema entity (pre ++ [key]) = entityAt schema target [key] := by
  induction pre generalizing entity with
  | nil =>
      obtain rfl := Option.some.inj h
      rfl
  | cons part pre ih =>
      rw [entityAt] at h
      cases hrel : entity.findRelationWithPropertyPath part with
      | none =>
          rw [hrel] at h
          cases h
      | some relation =>
          rw [hrel] at h
          rw [List.cons_append, entityAt, hrel]
          exact ih h

/-- Above a column there are relations. -/
theorem entityAt_of_prefix {entity : EntityMetadata} {p path : List String}
    (hpath : (resolveFrom schema entity path).isSome = true) (h : p <+: path) (hne : p ≠ path) :
    (entityAt schema entity p).isSome = true := by
  induction p generalizing entity path with
  | nil => rfl
  | cons part p ih =>
      obtain ⟨rest, rfl⟩ := h
      rw [List.cons_append] at hpath hne
      have hrest : p ++ rest ≠ [] := by
        intro hnil
        obtain ⟨rfl, rfl⟩ := List.append_eq_nil_iff.mp hnil
        exact hne rfl
      obtain ⟨next, tail, hcons⟩ := List.exists_cons_of_ne_nil hrest
      rw [hcons, resolveFrom] at hpath
      rw [entityAt]
      cases hrel : entity.findRelationWithPropertyPath part with
      | none =>
          rw [hrel] at hpath
          cases hpath
      | some relation =>
          rw [hrel, ← hcons] at hpath
          have hne' : p ≠ p ++ rest := fun heq => hne (congrArg (part :: ·) heq)
          exact ih hpath (List.prefix_append p rest) hne'

theorem InSchema.nil : InSchema schema .nil := trivial

theorem InSchema.single {path : List String} (leaf : Leaf) (hpath : LeadsToColumn schema path) :
    InSchema schema (Fields.single leaf path) :=
  Fields.all_single [] path hpath fun _ => entityAt_of_prefix hpath

theorem InSchema.merge {t u : WhereObject} (ht : InSchema schema t) (hu : InSchema schema u) :
    InSchema schema (deepMerge t u) :=
  Fields.layout_merge mergeRule [] t u ht hu

theorem InSchema.transform {t : WhereObject} (ht : InSchema schema t) :
    InSchema schema (transformNullValues t) :=
  Fields.layout_map transformNullValue ht

theorem InSchema.setNestedValue {t : WhereObject} (ht : InSchema schema t) {path : List String}
    (leaf : Leaf) (hne : path ≠ []) (hpath : LeadsToColumn schema path) :
    InSchema schema (setNestedValue t path leaf) :=
  Fields.layout_setPath mergeRule path [] t hne ht hpath fun _ => entityAt_of_prefix hpath

/-! ## What is laid out along the schema is known -/

mutual

theorem nodeKnown_of_layout : (entity : EntityMetadata) → (pre : List String) → (key : String) →
    (node : Node Leaf) → entityAt schema schema.root pre = some entity →
    node.All (fun path _ => LeadsToColumn schema path) (LeadsToEntity schema) (pre ++ [key]) →
    nodeKnown schema entity key node = true
  | entity, pre, key, .leaf leaf, hpre, h => by
      have hcolumn : (entity.findColumnWithPropertyName key).isSome = true := by
        have hresolve := resolveFrom_append hpre (List.cons_ne_nil key [])
        have hsome : (resolveFrom schema schema.root (pre ++ [key])).isSome = true := h
        rw [hresolve, resolveFrom] at hsome
        exact hsome
      simp [nodeKnown, hcolumn]
  | entity, pre, key, .obj fields, hpre, h => by
      have hentity : (entityAt schema schema.root (pre ++ [key])).isSome = true := h.1
      rw [entityAt_append hpre, entityAt] at hentity
      cases hrel : entity.findRelationWithPropertyPath key with
      | none =>
          rw [hrel] at hentity
          cases hentity
      | some relation =>
          have hnext : entityAt schema schema.root (pre ++ [key]) =
              some (schema.entity relation.inverseEntity) := by
            rw [entityAt_append hpre, entityAt, hrel]
            rfl
          have hfields := fieldsKnown_of_layout _ _ fields hnext h.2
          simp [nodeKnown, hrel, hfields]

theorem fieldsKnown_of_layout : (entity : EntityMetadata) → (pre : List String) →
    (fields : Fields Leaf) → entityAt schema schema.root pre = some entity →
    fields.All (fun path _ => LeadsToColumn schema path) (LeadsToEntity schema) pre →
    fieldsKnown schema entity fields = true
  | _, _, .nil, _, _ => rfl
  | entity, pre, .cons key value rest, hpre, h => by
      have hvalue := nodeKnown_of_layout entity pre key value hpre h.1
      have hrest := fieldsKnown_of_layout entity pre rest hpre h.2
      simp [fieldsKnown, hvalue, hrest]

end

theorem InSchema.known {t : WhereObject} (h : InSchema schema t) :
    fieldsKnown schema schema.root t = true :=
  fieldsKnown_of_layout schema.root [] t rfl h

end Paths

/-! ## The fields of a query -/

section Fields

variable {schema : Schema} {lib : Library} {timezone : String}

theorem resolveFrom_of_validateFrom {fieldPath : String} {entity : EntityMetadata}
    {path : List String} (hne : path ≠ [])
    (h : validateFrom schema fieldPath entity path = .ok ()) :
    (resolveFrom schema entity path).isSome = true := by
  induction entity, path using validateFrom.induct schema with
  | case1 => exact absurd rfl hne
  | case2 entity part column hcolumn =>
      rw [resolveFrom, hcolumn]
      rfl
  | case3 entity part hcolumn =>
      rw [validateFrom, hcolumn] at h
      cases h
  | case4 entity part next rest relation hrel ih =>
      rw [validateFrom, hrel] at h
      rw [resolveFrom, hrel]
      exact ih (List.cons_ne_nil next rest) h
  | case5 entity part next rest hrel =>
      rw [validateFrom, hrel] at h
      cases h

theorem findColumn_of_mem {entity : EntityMetadata} {name : String}
    (h : name ∈ entity.columns.map ColumnMetadata.propertyName) :
    (entity.findColumnWithPropertyName name).isSome = true := by
  obtain ⟨column, hmem, rfl⟩ := List.mem_map.mp h
  rw [EntityMetadata.findColumnWithPropertyName, List.find?_isSome]
  exact ⟨column, hmem, by simp⟩

/-- A field of a plain column that is accepted leads to it. -/
theorem leadsToColumn_of_validate {fieldPath : String}
    (hplain : isJsonbPath schema fieldPath = false)
    (h : validateFieldName schema fieldPath = .ok ()) :
    LeadsToColumn schema (parts fieldPath) := by
  rw [validateFieldName, hplain, if_neg Bool.false_ne_true] at h
  by_cases hdot : fieldPath.toList.contains '.' = true
  · rw [if_neg (by rw [hdot]; decide)] at h
    exact resolveFrom_of_validateFrom (parts_ne_nil fieldPath) h
  · rw [if_pos (by simpa using hdot)] at h
    rw [parts_of_not_contains hdot]
    dsimp only at h
    split at h
    · rename_i hmem
      exact findColumn_of_mem (by simpa using hmem)
    · cases h

theorem leadsToColumn_of_extract {fieldPath column : String} {jsonPath : List String}
    (h : extractJsonbColumnAndPath schema fieldPath = some (column, jsonPath)) :
    LeadsToColumn schema [column] := by
  rw [extractJsonbColumnAndPath] at h
  split at h
  · rename_i first segment rest _
    split at h
    · rename_i hjsonb
      obtain rfl : first = column := (Prod.mk.inj (Option.some.inj h)).1
      show (schema.root.findColumnWithPropertyName first).isSome = true
      cases hcolumn : schema.root.findColumnWithPropertyName first with
      | none =>
          rw [isJsonbColumn, hcolumn] at hjsonb
          cases hjsonb
      | some column => rfl
    · cases h
  · cases h

theorem InSchema.addSearchCondition {t t' : WhereObject} {entry : String × Json}
    (hvalid : validateFieldName schema entry.1 = .ok ()) (ht : InSchema schema t)
    (h : addSearchCondition schema lib timezone t entry = .ok t') : InSchema schema t' := by
  obtain ⟨key, condition⟩ := entry
  rw [ErpApi.Query.addSearchCondition] at h
  split at h
  · split at h
    · rename_i column jsonPath hextract
      obtain ⟨op, -, h⟩ := bind_eq_ok.mp h
      rw [← Except.ok.inj h]
      exact ht.merge (InSchema.single _ (leadsToColumn_of_extract hextract))
    · rw [← Except.ok.inj h]
      exact ht
  · rename_i hplain
    have hpath := leadsToColumn_of_validate (Bool.eq_false_iff.mpr hplain) hvalid
    obtain ⟨leaf, -, h⟩ := bind_eq_ok.mp h
    split at h
    · rw [← Except.ok.inj h]
      exact ht.setNestedValue leaf (parts_ne_nil key) hpath
    · rename_i hdot
      rw [parts_of_not_contains hdot] at hpath
      rw [← Except.ok.inj h]
      exact Fields.all_set key ht hpath

theorem InSchema.singleCondition {f : Filter} {w : WhereObject}
    (hvalid : validateFieldName schema f.field = .ok ())
    (h : singleCondition schema lib timezone f = .ok w) : InSchema schema w := by
  rw [ErpApi.Query.singleCondition] at h
  split at h
  · split at h
    · rename_i column jsonPath hextract
      obtain ⟨op, -, h⟩ := bind_eq_ok.mp h
      rw [← Except.ok.inj h]
      exact InSchema.single _ (leadsToColumn_of_extract hextract)
    · rw [← Except.ok.inj h]
      exact InSchema.nil
  · rename_i hplain
    have hpath := leadsToColumn_of_validate (Bool.eq_false_iff.mpr hplain) hvalid
    obtain ⟨-, -, h⟩ := bind_eq_ok.mp h
    obtain ⟨value, -, h⟩ := bind_eq_ok.mp h
    obtain ⟨leaf, -, h⟩ := bind_eq_ok.mp h
    split at h
    · rw [← Except.ok.inj h]
      exact InSchema.nil.setNestedValue leaf (parts_ne_nil f.field) hpath
    · rename_i hdot
      rw [parts_of_not_contains hdot] at hpath
      rw [← Except.ok.inj h]
      exact Fields.all_set f.field InSchema.nil hpath

theorem inSchema_parseSearchParameter {s : Option Json} {t : WhereObject}
    (h : parseSearchParameter schema lib timezone s = .ok t) : InSchema schema t := by
  obtain ⟨entries, -, hbuild⟩ := parseSearchParameter_ok h
  obtain ⟨_, hvalid, hfold⟩ := bind_eq_ok.mp hbuild
  refine foldlM_keeps_of_mem ?_ InSchema.nil hfold
  intro u entry hmem u' hu hstep
  exact InSchema.addSearchCondition (forM_eq_ok hvalid entry.1 (List.mem_map_of_mem hmem)) hu hstep

theorem inSchema_buildFilterWhereClause {filters : List Filter} {t : WhereObject}
    (hvalid : validateFieldNamesRecursive schema (filters.map Filter.field) = .ok ())
    (h : buildFilterWhereClause schema lib timezone filters = .ok t) : InSchema schema t := by
  refine foldlM_keeps_of_mem ?_ InSchema.nil h
  intro u f hmem u' hu hstep
  obtain ⟨w, hw, hstep⟩ := bind_eq_ok.mp hstep
  rw [← Except.ok.inj hstep]
  exact hu.merge (InSchema.singleCondition (forM_eq_ok hvalid f.field (List.mem_map_of_mem hmem)) hw)

theorem inSchema_parseFilterParameter {filter : Option Json} {t : WhereObject}
    (h : parseFilterParameter schema lib timezone filter = .ok t) : InSchema schema t := by
  rw [parseFilterParameter] at h
  split at h
  · rw [← Except.ok.inj h]
    exact InSchema.nil
  · obtain ⟨filters, -, h⟩ := bind_eq_ok.mp h
    obtain ⟨_, hvalid, h⟩ := bind_eq_ok.mp h
    exact inSchema_buildFilterWhereClause hvalid h

theorem inSchema_parseOrParameter {or : Option Json} {ts : List WhereObject}
    (h : parseOrParameter schema lib timezone or = .ok ts) : ∀ t ∈ ts, InSchema schema t := by
  rw [parseOrParameter] at h
  split at h
  · rw [← Except.ok.inj h]
    intro t ht
    exact absurd ht List.not_mem_nil
  · obtain ⟨filters, -, h⟩ := bind_eq_ok.mp h
    split at h
    · rw [← Except.ok.inj h]
      intro t ht
      exact absurd ht List.not_mem_nil
    · obtain ⟨_, hvalid, h⟩ := bind_eq_ok.mp h
      intro t ht
      obtain ⟨f, hmem, hf⟩ := exists_of_mem_of_forall₂ (mapM_eq_ok.mp h) ht
      obtain ⟨w, hw, hf⟩ := bind_eq_ok.mp hf
      rw [← Except.ok.inj hf]
      have hfield := forM_eq_ok hvalid f.field (List.mem_map_of_mem hmem)
      exact (InSchema.singleCondition hfield hw).transform

/-! ## The where value of a query -/

theorem inSchema_combine {t : WhereObject} {ts : List WhereObject} (ht : InSchema schema t)
    (hts : ∀ u ∈ ts, InSchema schema u) :
    ∀ condition ∈ (combineAndOrConditions t ts).alternatives, InSchema schema condition := by
  intro condition hmem
  unfold combineAndOrConditions at hmem
  dsimp only at hmem
  split at hmem
  · obtain rfl := List.mem_singleton.mp hmem
    exact InSchema.nil
  · split at hmem
    · obtain rfl := List.mem_singleton.mp hmem
      exact ht
    · split at hmem
      · exact hts condition hmem
      · obtain ⟨u, hu, rfl⟩ := List.mem_map.mp hmem
        exact ht.merge (hts u hu)

variable {query : QueryParams}

theorem inSchema_applyFilters {client : Where} (h : applyFilters schema lib query = .ok client) :
    ∀ condition ∈ client.alternatives, InSchema schema condition := by
  obtain ⟨searchObject, hsearch, h⟩ := bind_eq_ok.mp h
  obtain ⟨filterObject, hfilter, h⟩ := bind_eq_ok.mp h
  obtain ⟨alternatives, hor, h⟩ := bind_eq_ok.mp h
  rw [← Except.ok.inj h]
  have hmerged := (inSchema_parseSearchParameter hsearch).merge (inSchema_parseFilterParameter hfilter)
  exact inSchema_combine hmerged.transform (inSchema_parseOrParameter hor)

/-- **The builder names properties of the entity only.** -/
theorem inSchema_buildWhere
    (hprimary : ∀ name ∈ schema.root.primaryColumns,
      (schema.root.findColumnWithPropertyName name).isSome = true)
    {client : Where} (h : buildWhere schema lib query = .ok client) :
    ∀ condition ∈ client.alternatives, InSchema schema condition := by
  obtain ⟨filtered, hfilters, h⟩ := bind_eq_ok.mp h
  rw [← Except.ok.inj h]
  have hfiltered := inSchema_applyFilters hfilters
  simp only [applyExclusions]
  split
  · exact hfiltered
  · split
    · exact hfiltered
    · rename_i pkName rest hpk
      have hkey : LeadsToColumn schema [pkName] := hprimary pkName (by simp [hpk])
      cases filtered with
      | any conditions =>
          intro condition hmem
          obtain ⟨u, hu, rfl⟩ := List.mem_map.mp hmem
          exact (hfiltered u hu).merge (InSchema.single _ hkey)
      | one condition =>
          intro u hmem
          obtain rfl := List.mem_singleton.mp hmem
          exact (hfiltered condition (List.mem_singleton_self _)).merge (InSchema.single _ hkey)

end Fields

end ErpApi.Query
