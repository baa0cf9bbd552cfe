import ErpApi.Query.WhereCorrect

set_option autoImplicit false

/-! # Listings of one product

The conversion factors and the reorder levels of a product are listed by the general listing of
the base service, with the filter `product_id||$eq||<id>` appended to the client's own. The
filter is one more condition among the client's: it is merged with theirs, distributed over the
alternatives, and merged again with the exclusions and the soft-delete filter.

Whatever the client sends, the value at the key `product_id` stays one that only the product
passes (`Scoped`): a merge with anything else is a conjunction, in either order.
-/

namespace ErpApi.Query

open ErpApi.ObjectTree

/-! ## The services -/

/-- The columns that every entity inherits. -/
def baseColumns : List ColumnMetadata :=
  [⟨"id", .other⟩, ⟨"created_at", .timestamptz⟩, ⟨"created_by", .other⟩,
    ⟨"updated_at", .timestamptz⟩, ⟨"updated_by", .other⟩, ⟨"is_deleted", .other⟩,
    ⟨"deleted_reason", .other⟩, ⟨"deleted_at", .timestamptz⟩, ⟨"deleted_by", .other⟩]

def uomConversionFactor : EntityMetadata where
  columns := baseColumns ++
    [⟨"product_id", .other⟩, ⟨"uom_id", .other⟩, ⟨"conversion_factor", .other⟩,
      ⟨"uom_type", .enum (some ["purchase", "sales"])⟩]
  relations := []
  primaryColumns := ["id"]

def reorderLevel : EntityMetadata where
  columns := baseColumns ++
    [⟨"product_id", .other⟩, ⟨"warehouse_id", .other⟩, ⟨"alert_qty", .other⟩]
  relations := []
  primaryColumns := ["id"]

inductive ProductListing where
  | uomConversionFactors
  | reorderLevels
  deriving DecidableEq

def ProductListing.entity : ProductListing → EntityMetadata
  | .uomConversionFactors => uomConversionFactor
  | .reorderLevels => reorderLevel

def ProductListing.schema (listing : ProductListing) : Schema where
  root := listing.entity
  entity _ := listing.entity
  root_names := by cases listing <;> decide
  entity_names _ := by cases listing <;> decide

/-- The filter that every listing of the base service adds. -/
def softDeleteFilter : WhereObject :=
  .cons "is_deleted" (.leaf (.value (.bool false)))
    (.cons "deleted_at" (.leaf (.operator .isNull)) .nil)

/-- The where value that `_findEntitiesWithPagination` hands to the repository. The sort order,
the selected fields and the page do not enter it. -/
def findEntitiesWithPagination (schema : Schema) (lib : Library) (query : QueryParams) :
    Except QueryError Where := do
  match applyExclusions schema query.exclude_ids (← applyFilters schema lib query) with
  | .any alternatives => return .any (alternatives.map fun condition =>
      softDeleteFilter.spread condition)
  | .one condition => return .one (softDeleteFilter.spread condition)

/-- The call `[].concat(filter ?? [])`. -/
def concatFilter : Option Json → List Json
  | none => []
  | some .null => []
  | some (.arr items) => items
  | some v => [v]

def productFilter (productId : String) : String := "product_id||$eq||" ++ productId

def ProductListing.findPaginatedByProductId (listing : ProductListing) (lib : Library)
    (productId : String) (query : QueryParams) : Except QueryError Where :=
  findEntitiesWithPagination listing.schema lib
    { query with
      filter := some (.arr (concatFilter query.filter ++ [.str (productFilter productId)])) }

def isHexDigit (c : Char) : Bool :=
  c.isDigit || ('a' ≤ c && c ≤ 'f') || ('A' ≤ c && c ≤ 'F')

/-- Groups of 8, 4, 4, 4 and 12 hexadecimal digits with hyphens between them. -/
def isUUID (text : String) : Bool :=
  text.toList.length = 36 && text.toList.zipIdx.all fun (c, i) =>
    if [8, 13, 18, 23].contains i then c = '-' else isHexDigit c

/-! ## A value that only the product passes -/

section Scoped

variable {V : Type} (sql : Sql V) (productId : String)

/-- The leaf holds of no value but the product's id. -/
def OnlyProduct (leaf : Leaf) : Prop :=
  leaf = .value (.str productId) ∨ ∃ op, leaf = .operator op ∧
    ∀ x, op.eval sql x = some true → equalTo sql x (.str productId) = some true

def OnlyProductNode (node : Node Leaf) : Prop :=
  ∃ leaf, node = .leaf leaf ∧ OnlyProduct sql productId leaf

/-- The object has such a leaf at the key `product_id`. -/
def Scoped (t : WhereObject) : Prop :=
  ∃ node, t.get "product_id" = some node ∧ OnlyProductNode sql productId node

variable {sql productId}

theorem OnlyProduct.eval_ensure {leaf : Leaf} (h : OnlyProduct sql productId leaf) {x : Option V}
    (heval : (ensureFindOperator (.leaf leaf)).eval sql x = some true) :
    equalTo sql x (.str productId) = some true := by
  rcases h with rfl | ⟨op, rfl, hop⟩
  · exact heval
  · exact hop x heval

/-- A conjunction with one such part is one again. -/
theorem OnlyProduct.and {ops : List FindOperator} {leaf : Leaf}
    (h : OnlyProduct sql productId leaf) (hmem : ensureFindOperator (.leaf leaf) ∈ ops) :
    OnlyProduct sql productId (.operator (.and ops)) := by
  refine .inr ⟨_, rfl, ?_⟩
  intro x heval
  exact h.eval_ensure (FindOperator.eval_and.mp heval _ hmem)

theorem OnlyProductNode.mergeInto_old {old : Node Leaf} (new : Node Leaf)
    (h : OnlyProductNode sql productId old) :
    OnlyProductNode sql productId (new.mergeInto mergeRule (some old)) := by
  obtain ⟨leaf, rfl, hleaf⟩ := h
  have habsent : mergeRule.absent leaf = false := by
    rcases hleaf with rfl | ⟨op, rfl, -⟩ <;> rfl
  have hmerge : new.mergeInto mergeRule (some (.leaf leaf)) =
      .leaf (mergeRule.collide (.leaf leaf) new) := by
    cases new <;> simp [Node.mergeInto, habsent]
  rw [hmerge]
  exact ⟨_, rfl, hleaf.and (by simp)⟩

theorem OnlyProductNode.mergeInto_new (old : Option (Node Leaf)) {new : Node Leaf}
    (h : OnlyProductNode sql productId new) :
    OnlyProductNode sql productId (new.mergeInto mergeRule old) := by
  obtain ⟨leaf, rfl, hleaf⟩ := h
  match old with
  | none => exact ⟨leaf, by rw [Node.mergeInto], hleaf⟩
  | some (.obj fields) =>
      rw [Node.mergeInto]
      exact ⟨_, rfl, hleaf.and (by simp)⟩
  | some (.leaf a) =>
      rw [Node.mergeInto]
      split
      · exact ⟨leaf, rfl, hleaf⟩
      · exact ⟨_, rfl, hleaf.and (by simp)⟩

/-- **A merge keeps the scope**, on whichever side it is. -/
theorem Scoped.deepMerge_left {t : WhereObject} (h : Scoped sql productId t) (u : WhereObject) :
    Scoped sql productId (deepMerge t u) :=
  Fields.get_merge_of_target (fun _ new hold => hold.mergeInto_old new) t u h

theorem Scoped.deepMerge_right (t : WhereObject) {u : WhereObject}
    (h : Scoped sql productId u) : Scoped sql productId (deepMerge t u) :=
  Fields.get_merge_of_source (fun _ new hold => hold.mergeInto_old new)
    (fun old _ hnew => hnew.mergeInto_new old) t u h

theorem Scoped.transformNullValues (hsettled : isEmptyValue (.str productId) = false)
    {t : WhereObject} (h : Scoped sql productId t) :
    Scoped sql productId (transformNullValues t) := by
  obtain ⟨_, hget, leaf, rfl, hleaf⟩ := h
  have hsame : transformNullValue leaf = leaf := by
    apply transformNullValue_of_isSettled
    rcases hleaf with rfl | ⟨op, rfl, -⟩
    · simp [Leaf.isSettled, hsettled]
    · rfl
  refine ⟨.leaf leaf, ?_, leaf, rfl, hleaf⟩
  rw [Query.transformNullValues, Fields.get_map, hget]
  simp [Node.map, hsame]

theorem Scoped.spread {t : WhereObject} (h : Scoped sql productId t) (hd : t.Distinct)
    (u : WhereObject) : Scoped sql productId (u.spread t) := by
  obtain ⟨node, hget, hnode⟩ := h
  refine ⟨node, ?_, hnode⟩
  rw [Fields.get_spread u t hd, hget]
  rfl

/-- A row that a scoped object selects is of the product. -/
theorem Scoped.product {t : WhereObject} {row : Row V} (h : Scoped sql productId t)
    (hnull : isEmptyValue (.str productId) = false) (hselects : t.selects sql row = true) :
    equalTo sql (row ["product_id"]) (.str productId) = some true := by
  obtain ⟨_, hget, leaf, rfl, hleaf⟩ := h
  have hholds := Fields.all_of_get (WhereObject.selects_iff.mp hselects) hget
  have hsettled : leaf.isSettled = true := by
    rcases hleaf with rfl | ⟨op, rfl, -⟩
    · simp [Leaf.isSettled, hnull]
    · rfl
  exact hleaf.eval_ensure ((holds_iff_eval_ensure hsettled).mp hholds)

/-- A scoped object has a condition. -/
theorem Scoped.isBlank_eq_false {t : WhereObject} (h : Scoped sql productId t) :
    t.isBlank = false := by
  obtain ⟨_, hget, leaf, rfl, hleaf⟩ := h
  rw [Bool.eq_false_iff]
  intro hblank
  have hskipped := Fields.all_of_get (WhereObject.isBlank_iff.mp hblank) hget
  rcases hleaf with rfl | ⟨op, rfl, -⟩ <;> cases hskipped

end Scoped

/-! ## The keys of the objects that are built -/

section Distinct

variable {schema : Schema} {lib : Library} {timezone : String}

theorem distinct_addSearchCondition {t t' : WhereObject} {entry : String × Json}
    (ht : t.Distinct) (h : addSearchCondition schema lib timezone t entry = .ok t') :
    t'.Distinct := by
  obtain ⟨key, condition⟩ := entry
  rw [addSearchCondition] at h
  split at h
  · split at h
    · obtain ⟨op, -, h⟩ := bind_eq_ok.mp h
      rw [← Except.ok.inj h]
      exact Fields.distinct_merge mergeRule t _ ht (Fields.distinct_single _ [_])
    · rw [← Except.ok.inj h]
      exact ht
  · obtain ⟨leaf, -, h⟩ := bind_eq_ok.mp h
    split at h
    · rw [← Except.ok.inj h]
      exact Fields.distinct_setPath mergeRule (Node.distinct_leaf _) _ t ht
    · rw [← Except.ok.inj h]
      exact Fields.distinct_set (Node.distinct_leaf _) t ht

theorem distinct_singleCondition {f : Filter} {w : WhereObject}
    (h : singleCondition schema lib timezone f = .ok w) : w.Distinct := by
  rw [singleCondition] at h
  split at h
  · split at h
    · obtain ⟨op, -, h⟩ := bind_eq_ok.mp h
      rw [← Except.ok.inj h]
      exact Fields.distinct_single _ [_]
    · rw [← Except.ok.inj h]
      trivial
  · obtain ⟨-, -, h⟩ := bind_eq_ok.mp h
    obtain ⟨value, -, h⟩ := bind_eq_ok.mp h
    obtain ⟨leaf, -, h⟩ := bind_eq_ok.mp h
    split at h
    · rw [← Except.ok.inj h]
      exact Fields.distinct_setPath mergeRule (Node.distinct_leaf _) _ .nil Fields.distinct_nil
    · rw [← Except.ok.inj h]
      exact Fields.distinct_set (Node.distinct_leaf _) .nil Fields.distinct_nil

theorem distinct_parseSearchParameter {s : Option Json} {t : WhereObject}
    (h : parseSearchParameter schema lib timezone s = .ok t) : t.Distinct := by
  obtain ⟨entries, -, hbuild⟩ := parseSearchParameter_ok h
  obtain ⟨-, -, hfold⟩ := bind_eq_ok.mp hbuild
  exact foldlM_keeps (fun _ _ _ ht hstep => distinct_addSearchCondition ht hstep)
    Fields.distinct_nil hfold

theorem distinct_buildFilterWhereClause {filters : List Filter} {t : WhereObject}
    (h : buildFilterWhereClause schema lib timezone filters = .ok t) : t.Distinct := by
  refine foldlM_keeps ?_ Fields.distinct_nil h
  intro u f u' hu hstep
  obtain ⟨w, hw, hstep⟩ := bind_eq_ok.mp hstep
  rw [← Except.ok.inj hstep]
  exact Fields.distinct_merge mergeRule u w hu (distinct_singleCondition hw)

theorem distinct_buildOrWhereClause {filters : List Filter} {ts : List WhereObject}
    (h : buildOrWhereClause schema lib timezone filters = .ok ts) : ∀ t ∈ ts, t.Distinct := by
  intro t ht
  obtain ⟨f, -, hf⟩ := exists_of_mem_of_forall₂ (mapM_eq_ok.mp h) ht
  obtain ⟨w, hw, hf⟩ := bind_eq_ok.mp hf
  rw [← Except.ok.inj hf]
  exact Fields.distinct_map transformNullValue w (distinct_singleCondition hw)

end Distinct

/-! ## The injected filter -/

section Injected

variable {productId : String}

theorem isUUID_chars (h : isUUID productId = true) {c : Char} (hc : c ∈ productId.toList) :
    c = '-' ∨ isHexDigit c = true := by
  obtain ⟨-, hall⟩ := Bool.and_eq_true_iff.mp h
  rw [← List.zipIdx_map_fst 0 productId.toList] at hc
  obtain ⟨⟨c', i⟩, hmem, rfl⟩ := List.mem_map.mp hc
  have hci : (if [8, 13, 18, 23].contains i then decide (c' = '-') else isHexDigit c') = true :=
    List.all_eq_true.mp hall _ hmem
  split at hci
  · exact .inl (of_decide_eq_true hci)
  · exact .inr hci

theorem isUUID_ne (h : isUUID productId = true) {c : Char} (hdash : c ≠ '-')
    (hhex : isHexDigit c = false) : c ∉ productId.toList := by
  intro hc
  rcases isUUID_chars h hc with heq | hdigit
  · exact hdash heq
  · rw [hhex] at hdigit
    cases hdigit

theorem isUUID_length (h : isUUID productId = true) : productId.toList.length = 36 :=
  of_decide_eq_true (Bool.and_eq_true_iff.mp h).1

/-- White space is neither a hyphen nor a hexadecimal digit. -/
theorem isSpace_of_isUUID (h : isUUID productId = true) :
    ∀ c ∈ productId.toList, Js.isSpace c = false := by
  intro c hc
  have hrange : 45 ≤ c.toNat ∧ c.toNat ≤ 102 := by
    rcases isUUID_chars h hc with rfl | hhex
    · decide
    · simp only [isHexDigit, Char.isDigit, Char.le_def, UInt32.le_iff_toNat_le, Bool.or_eq_true,
        Bool.and_eq_true, decide_eq_true_eq] at hhex
      simp at hhex
      omega
  rw [Bool.eq_false_iff]
  intro hspace
  simp only [Js.isSpace, Bool.or_eq_true, List.contains_iff_mem, Bool.and_eq_true,
    decide_eq_true_eq] at hspace
  simp at hspace
  omega

/-- A UUID is neither empty nor a null literal. -/
theorem isEmptyValue_of_isUUID (h : isUUID productId = true) :
    isEmptyValue (.str productId) = false := by
  have hlen := isUUID_length h
  have hne : productId ≠ "" := by
    rintro rfl
    cases hlen
  have hword : ∀ word : String, word.toList.length ≠ 36 →
      Js.lowerEq (Js.trim productId) word = false := by
    intro word hword
    rw [Js.trim_eq_self (isSpace_of_isUUID h), Js.lowerEq, decide_eq_false_iff_not]
    intro heq
    apply hword
    rw [← heq, List.length_map, hlen]
  simp [isEmptyValue, hne, isNullishLiteral, hword "null" (by decide),
    hword "undefined" (by decide)]

/-- The injected string is read as the equality that it writes. -/
theorem parseFilterString_productFilter (h : isUUID productId = true) :
    parseFilterString (productFilter productId) = .ok (some ⟨"product_id", .eq, productId⟩) := by
  have hbar : '|' ∉ productId.toList := isUUID_ne h (by decide) (by decide)
  have hsplit : Js.splitPair '|' '|' (productFilter productId) =
      ["product_id", "$eq", productId] := by
    have hlist : (productFilter productId).toList = "product_id".toList ++
        '|' :: '|' :: ("$eq".toList ++ '|' :: '|' :: productId.toList) := by
      show ("product_id||$eq||" ++ productId).toList = _
      rw [String.toList_append]
      rfl
    rw [Js.splitPair, hlist, Js.splitPairList_append (by decide),
      Js.splitPairList_append (by decide), Js.splitPairList_of_not_mem hbar]
    simp
  have hfield : Js.trim "product_id" = "product_id" := by decide +kernel
  have hoperator : Js.trim "$eq" = "$eq" := by decide +kernel
  have hfind : (FilterOperator.all.find? fun op => op.text == "$eq") = some .eq := by
    decide +kernel
  have hvalue : String.intercalate "||" [productId] = productId := rfl
  rw [parseFilterString, hsplit]
  simp only [hfield, hoperator, hfind, hvalue]
  rw [if_neg (by decide)]
  rfl

/-- The injected filter is among those that the builder reads. -/
theorem mem_parseFilterStrings_productFilter (h : isUUID productId = true) {filter : Option Json}
    {filters : List Filter}
    (hfilters : parseFilterStrings (normalizeFilterInput (some (.arr
      (concatFilter filter ++ [.str (productFilter productId)])))) = .ok filters) :
    ⟨"product_id", .eq, productId⟩ ∈ filters := by
  have hblank : Js.trim (productFilter productId) ≠ "" := by
    have hmem : 'p' ∈ ("product_id||$eq||" ++ productId).toList := by simp
    exact Js.trim_ne_empty hmem (by decide)
  have hmem : productFilter productId ∈ normalizeFilterInput (some (.arr
      (concatFilter filter ++ [.str (productFilter productId)]))) := by
    simp [normalizeFilterInput, hblank]
  obtain ⟨parsed, hparsed, hok⟩ := bind_eq_ok.mp hfilters
  obtain ⟨result, hresult, hparse⟩ :=
    exists_of_mem_left_of_forall₂ (mapM_eq_ok.mp hparsed) hmem
  rw [parseFilterString_productFilter h] at hparse
  rw [← Except.ok.inj hok]
  exact List.mem_filterMap.mpr ⟨result, hresult, (Except.ok.inj hparse).symm⟩

end Injected

/-! ## Every selected row is of the product -/

section Listing

variable {V : Type} {sql : Sql V} {productId : String} {lib : Library}

/-- The object of the injected filter. -/
theorem singleCondition_productFilter (listing : ProductListing) {timezone : String}
    (h : isUUID productId = true) {w : WhereObject}
    (hw : singleCondition listing.schema lib timezone ⟨"product_id", .eq, productId⟩ = .ok w) :
    Scoped sql productId w := by
  have hjsonb : isJsonbPath listing.schema "product_id" = false := by
    cases listing <;> decide +kernel
  have hdate : isDateColumnRecursive listing.schema "product_id" = false := by
    cases listing <;> decide +kernel
  have hdot : "product_id".toList.contains '.' = false := by decide
  have hnullish : isNullishLiteral productId = false := by
    have hempty := isEmptyValue_of_isUUID h
    rw [isEmptyValue, Bool.or_eq_false_iff] at hempty
    exact hempty.2
  simp only [singleCondition, hjsonb, Bool.false_eq_true, if_false] at hw
  obtain ⟨-, -, hw⟩ := bind_eq_ok.mp hw
  obtain ⟨value, hvalue, hw⟩ := bind_eq_ok.mp hw
  obtain ⟨leaf, hleaf, hw⟩ := bind_eq_ok.mp hw
  have hsame : productId = value := by
    simp only [filterOperand, hdate, Bool.false_eq_true, if_false] at hvalue
    exact Except.ok.inj hvalue
  subst hsame
  have heq : Leaf.value (.str productId) = leaf := by
    simp only [applyFilterOperator, hnullish, Bool.false_eq_true, if_false] at hleaf
    exact Except.ok.inj hleaf
  subst heq
  simp only [hdot, Bool.false_eq_true, if_false] at hw
  rw [← Except.ok.inj hw]
  exact ⟨_, rfl, _, rfl, .inl rfl⟩

theorem buildFilterWhereClause_scoped {listing : ProductListing} {timezone : String}
    (h : isUUID productId = true) {filters : List Filter}
    (hmem : ⟨"product_id", .eq, productId⟩ ∈ filters) {t : WhereObject}
    (ht : buildFilterWhereClause listing.schema lib timezone filters = .ok t) :
    Scoped sql productId t := by
  refine foldlM_establishes ?_ ?_ hmem ht
  · intro u f u' hu hstep
    obtain ⟨w, -, hstep⟩ := bind_eq_ok.mp hstep
    rw [← Except.ok.inj hstep]
    exact hu.deepMerge_left w
  · intro u u' hstep
    obtain ⟨w, hw, hstep⟩ := bind_eq_ok.mp hstep
    rw [← Except.ok.inj hstep]
    exact Scoped.deepMerge_right u (singleCondition_productFilter listing h hw)

/-- Every alternative of the where value is scoped. -/
def ScopedWhere (sql : Sql V) (productId : String) : Where → Prop
  | .one t => Scoped sql productId t ∧ t.Distinct
  | .any ts => ts ≠ [] ∧ ∀ t ∈ ts, Scoped sql productId t ∧ t.Distinct

theorem combineAndOrConditions_scoped {t : WhereObject} {ts : List WhereObject}
    (ht : Scoped sql productId t) (hd : t.Distinct) (hts : ∀ u ∈ ts, u.Distinct) :
    ScopedWhere sql productId (combineAndOrConditions t ts) := by
  cases ts with
  | nil =>
      rw [combineAndOrConditions_nil]
      exact ⟨ht, hd⟩
  | cons u ts =>
      have hkeys : t.keys.length > 0 := by
        by_contra hnone
        obtain ⟨node, hget, -⟩ := ht
        rw [eq_nil_of_keys hnone] at hget
        cases hget
      have hany : combineAndOrConditions t (u :: ts) = .any ((u :: ts).map (deepMerge t)) := by
        simp [combineAndOrConditions, hkeys]
      rw [hany]
      refine ⟨by simp, ?_⟩
      intro v hv
      obtain ⟨u', hu', rfl⟩ := List.mem_map.mp hv
      exact ⟨ht.deepMerge_left u', Fields.distinct_merge mergeRule t u' hd (hts u' hu')⟩

theorem applyFilters_scoped {listing : ProductListing} (h : isUUID productId = true)
    {query : QueryParams} {filter : Option Json}
    (hfilter : query.filter = some (.arr (concatFilter filter ++ [.str (productFilter productId)])))
    {where_ : Where} (hrun : applyFilters listing.schema lib query = .ok where_) :
    ScopedWhere sql productId where_ := by
  obtain ⟨searchObject, hsearch, hrun⟩ := bind_eq_ok.mp hrun
  obtain ⟨filterObject, hfilterObject, hrun⟩ := bind_eq_ok.mp hrun
  obtain ⟨alternatives, hor, hrun⟩ := bind_eq_ok.mp hrun
  obtain ⟨filters, hfilters, hbuild⟩ := parseFilterParameter_ok hfilterObject
  obtain ⟨ors, -, hor⟩ := parseOrParameter_ok hor
  rw [hfilter] at hfilters
  have hscoped : Scoped sql productId filterObject :=
    buildFilterWhereClause_scoped h (mem_parseFilterStrings_productFilter h hfilters) hbuild
  have hdistinct : (deepMerge searchObject filterObject).Distinct :=
    Fields.distinct_merge mergeRule _ _ (distinct_parseSearchParameter hsearch)
      (distinct_buildFilterWhereClause hbuild)
  rw [← Except.ok.inj hrun]
  exact combineAndOrConditions_scoped
    ((Scoped.deepMerge_right searchObject hscoped).transformNullValues
      (isEmptyValue_of_isUUID h))
    (Fields.distinct_map transformNullValue _ hdistinct) (distinct_buildOrWhereClause hor)

theorem applyExclusions_scoped (schema : Schema) (exclude_ids : Option Json) {where_ : Where}
    (h : ScopedWhere sql productId where_) :
    ScopedWhere sql productId (applyExclusions schema exclude_ids where_) := by
  simp only [applyExclusions]
  split
  · exact h
  · split
    · exact h
    · split
      · refine ⟨by simpa using h.1, ?_⟩
        intro t ht
        obtain ⟨u, hu, rfl⟩ := List.mem_map.mp ht
        obtain ⟨hscoped, hdistinct⟩ := h.2 u hu
        exact ⟨hscoped.deepMerge_left _,
          Fields.distinct_merge mergeRule _ _ hdistinct (Fields.distinct_single _ [_])⟩
      · exact ⟨h.1.deepMerge_left _,
          Fields.distinct_merge mergeRule _ _ h.2 (Fields.distinct_single _ [_])⟩

/-- **A listing of a product shows no other product.** Whatever the client's query, a row that
the where value of the listing selects has the product's id. -/
theorem findPaginatedByProductId_selects_product (listing : ProductListing)
    (h : isUUID productId = true) {query : QueryParams} {where_ : Where}
    (hrun : listing.findPaginatedByProductId lib productId query = .ok where_) (row : Row V)
    (hselects : where_.selects sql row = true) :
    equalTo sql (row ["product_id"]) (.str productId) = some true := by
  have hempty := isEmptyValue_of_isUUID h
  obtain ⟨base, hbase, hrun⟩ := bind_eq_ok.mp hrun
  have hfilters : ScopedWhere sql productId base := applyFilters_scoped h rfl hbase
  have hscoped := applyExclusions_scoped listing.schema query.exclude_ids hfilters
  -- The soft-delete filter is spread under the object and does not name the product.
  split at hrun
  · rename_i ts heq
    rw [heq] at hscoped
    rw [← Except.ok.inj hrun] at hselects
    have hspread : ∀ t ∈ ts.map (fun condition => softDeleteFilter.spread condition),
        Scoped sql productId t := by
      intro t ht
      obtain ⟨u, hu, rfl⟩ := List.mem_map.mp ht
      obtain ⟨hu, hdistinct⟩ := hscoped.2 u hu
      exact hu.spread hdistinct softDeleteFilter
    rw [Where.selects_any (by simpa using hscoped.1)
      (fun t ht => (hspread t ht).isBlank_eq_false)] at hselects
    obtain ⟨t, ht, htselects⟩ := hselects
    exact (hspread t ht).product hempty htselects
  · rename_i t heq
    rw [heq] at hscoped
    rw [← Except.ok.inj hrun] at hselects
    exact (hscoped.1.spread hscoped.2 softDeleteFilter).product hempty hselects

/-- The client names the product column in every parameter. -/
def strayQuery : QueryParams where
  s := some (.obj [("product_id", .obj [])])
  filter := some (.arr [.str "product_id||$ne||other"])
  or := some (.arr [.str "warehouse_id||$eq||north", .str "product_id||$notnull||true"])
  exclude_ids := some (.str "a,b")
  timezone := none

/-- A reorder level of the product. -/
def strayRow : Row String
  | ["id"] => some "c"
  | ["product_id"] => some "6f9619ff-8b86-4d01-b42d-00cf4fc964ff"
  | ["warehouse_id"] => some "north"
  | ["is_deleted"] => some "false"
  | _ => none

theorem findPaginatedByProductId_stray :
    ∃ where_, ProductListing.reorderLevels.findPaginatedByProductId plainLibrary
        "6f9619ff-8b86-4d01-b42d-00cf4fc964ff" strayQuery = .ok where_ ∧
      where_.selects textSql strayRow = true ∧
      equalTo textSql (strayRow ["product_id"]) (.str "6f9619ff-8b86-4d01-b42d-00cf4fc964ff") =
        some true := by
  have hselects : (match ProductListing.reorderLevels.findPaginatedByProductId plainLibrary
      "6f9619ff-8b86-4d01-b42d-00cf4fc964ff" strayQuery with
      | .ok where_ => where_.selects textSql strayRow
      | .error _ => false) = true := by decide +kernel
  cases hrun : ProductListing.reorderLevels.findPaginatedByProductId plainLibrary
      "6f9619ff-8b86-4d01-b42d-00cf4fc964ff" strayQuery with
  | error e =>
      rw [hrun] at hselects
      cases hselects
  | ok where_ =>
      rw [hrun] at hselects
      exact ⟨where_, rfl, hselects,
        findPaginatedByProductId_selects_product _ (by decide +kernel) hrun strayRow hselects⟩

end Listing

end ErpApi.Query
