import ErpApi.Query.ProductScope

set_option autoImplicit false

/-! # The soft-delete filter

The listings of the base service put `is_deleted = false` and `deleted_at IS NULL` under the
where value of the query builder: `findAll` under the value as a whole, `findOneOrQuery` and
`findPaginated` under each of its alternatives. They use the spread of an object literal, in
which a key of the client replaces that of the filter.

So the filter is there for the columns that the client does not name, and the client's own
conditions stand alone for those it does. `listing_live_iff` says what that means for the rows.
-/

namespace ErpApi.Query

open ErpApi.ObjectTree

/-! ## The three listings -/

inductive Listing where
  | findAll
  | findOneOrQuery
  | findPaginated
  deriving DecidableEq

/-- The where value that the builder makes of the query. -/
def buildWhere (schema : Schema) (lib : Library) (query : QueryParams) :
    Except QueryError Where := do
  return applyExclusions schema query.exclude_ids (← applyFilters schema lib query)

/-- What the spread of an array contributes: its members under their indices. -/
def indexedFrom (i : Nat) : List WhereObject → WhereObject
  | [] => .nil
  | condition :: conditions => .cons (toString i) (.obj condition) (indexedFrom (i + 1) conditions)

def addSoftDeleteFilter : Listing → Where → Where
  | .findAll, .any conditions => .one (softDeleteFilter.spread (indexedFrom 0 conditions))
  | _, .any conditions => .any (conditions.map fun condition => softDeleteFilter.spread condition)
  | _, .one condition => .one (softDeleteFilter.spread condition)

/-- The where value that a listing hands to the repository. -/
def Listing.where_ (listing : Listing) (schema : Schema) (lib : Library) (query : QueryParams) :
    Except QueryError Where := do
  return addSoftDeleteFilter listing (← buildWhere schema lib query)

/-- The listing with pages is the one that the product listings use. -/
theorem findPaginated_where (schema : Schema) (lib : Library) (query : QueryParams) :
    Listing.findPaginated.where_ schema lib query =
      findEntitiesWithPagination schema lib query := by
  unfold Listing.where_ buildWhere findEntitiesWithPagination
  cases applyFilters schema lib query with
  | error e => rfl
  | ok w =>
      simp only [bind, Except.bind]
      cases applyExclusions schema query.exclude_ids w with
      | one condition => rfl
      | any conditions => rfl

def Where.alternatives : Where → List WhereObject
  | .one condition => [condition]
  | .any conditions => conditions

/-! ## Rows that are not deleted -/

section Live

variable {V : Type} (sql : Sql V)

/-- The row has `is_deleted = false` and a null `deleted_at`. -/
def Live (row : Row V) : Prop :=
  equalTo sql (row ["is_deleted"]) (.bool false) = some true ∧ row ["deleted_at"] = none

/-- The object selects no other rows. -/
def EntailsLive (condition : WhereObject) : Prop :=
  ∀ row : Row V, condition.selects sql row = true → Live sql row

/-- The client's conditions themselves imply the soft-delete condition on each of the two columns
that they name. -/
def KeepsLive (condition : WhereObject) : Prop :=
  ∀ row : Row V, condition.selects sql row = true →
    (condition.get "is_deleted" ≠ none →
      equalTo sql (row ["is_deleted"]) (.bool false) = some true) ∧
    (condition.get "deleted_at" ≠ none → row ["deleted_at"] = none)

variable {sql}

theorem isDeleted_holds {row : Row V} :
    (Node.leaf (Leaf.value (.bool false))).All
      (fun path leaf => leaf.holds sql (row path) = true) (fun _ => True) ([] ++ ["is_deleted"]) ↔
    equalTo sql (row ["is_deleted"]) (.bool false) = some true := by
  simp [Node.All, Leaf.holds, FindOperator.eval]

theorem deletedAt_holds {row : Row V} :
    (Node.leaf (Leaf.operator .isNull)).All
      (fun path leaf => leaf.holds sql (row path) = true) (fun _ => True) ([] ++ ["deleted_at"]) ↔
    row ["deleted_at"] = none := by
  simp [Node.All, Leaf.holds, FindOperator.eval]

theorem get_softDeleteFilter (key : String) : softDeleteFilter.get key =
    if "is_deleted" = key then some (.leaf (.value (.bool false)))
    else if "deleted_at" = key then some (.leaf (.operator .isNull)) else none := rfl

theorem softDeleteFilter_distinct : softDeleteFilter.Distinct := by
  refine ⟨by decide, trivial, by decide, trivial, trivial⟩

/-- **What the spread selects**: what the client's object selects, with the filter on the columns
that it does not name. -/
theorem selects_spread {condition : WhereObject} (hd : condition.Distinct) {row : Row V} :
    WhereObject.selects sql row (softDeleteFilter.spread condition) = true ↔
      condition.selects sql row = true ∧
      (condition.get "is_deleted" = none →
        equalTo sql (row ["is_deleted"]) (.bool false) = some true) ∧
      (condition.get "deleted_at" = none → row ["deleted_at"] = none) := by
  rw [WhereObject.selects_iff, WhereObject.selects_iff, Fields.all_iff_get _
    (Fields.distinct_spread _ _ softDeleteFilter_distinct hd), Fields.all_iff_get _ hd]
  simp only [Fields.get_spread _ _ hd]
  constructor
  · intro h
    refine ⟨fun k v hget => h k v (by simp [hget]), fun hnone => ?_, fun hnone => ?_⟩
    · exact isDeleted_holds.mp (h "is_deleted" _ (by rw [hnone]; rfl))
    · exact deletedAt_holds.mp (h "deleted_at" _ (by rw [hnone]; rfl))
  · rintro ⟨hclient, hdeleted, hat⟩ k v hget
    cases hk : condition.get k with
    | some node =>
        rw [hk, Option.some_or] at hget
        obtain rfl := Option.some.inj hget
        exact hclient k _ hk
    | none =>
        rw [hk, Option.none_or, get_softDeleteFilter] at hget
        split at hget
        · rename_i heq
          subst heq
          obtain rfl := Option.some.inj hget
          exact isDeleted_holds.mpr (hdeleted hk)
        · split at hget
          · rename_i heq
            subst heq
            obtain rfl := Option.some.inj hget
            exact deletedAt_holds.mpr (hat hk)
          · cases hget

/-- A column that the client does not name can be set without a change to what it selects. -/
theorem selects_congr {condition : WhereObject} (hd : condition.Distinct) {row row' : Row V}
    (hrow : ∀ k path, condition.get k ≠ none → [k] <+: path → row path = row' path)
    (h : condition.selects sql row = true) : condition.selects sql row' = true := by
  rw [WhereObject.selects_iff, Fields.all_iff_get _ hd] at h ⊢
  intro k v hget
  have hnamed : condition.get k ≠ none := by simp [hget]
  refine Node.All.imp_below ?_ _ (List.prefix_refl _) v (h k v hget)
  intro path leaf hpre hleaf
  rwa [← hrow k path hnamed hpre]

/-- The filter is effective exactly if the client's conditions imply it on the columns that they
name. -/
theorem entailsLive_spread_iff (hfalse : ∃ v, sql.equal v (.bool false) = some true)
    {condition : WhereObject} (hd : condition.Distinct) :
    EntailsLive sql (softDeleteFilter.spread condition) ↔ KeepsLive sql condition := by
  constructor
  · intro h row hselects
    obtain ⟨v, hv⟩ := hfalse
    -- The row with the filter's values in the columns that the client does not name.
    let row' : Row V := fun path =>
      if path = ["is_deleted"] ∧ condition.get "is_deleted" = none then some v
      else if path = ["deleted_at"] ∧ condition.get "deleted_at" = none then none
      else row path
    have hsame : ∀ k path, condition.get k ≠ none → [k] <+: path → row path = row' path := by
      intro k path hnamed hpre
      have hne : ∀ column : String, condition.get column = none → path ≠ [column] := by
        rintro column hcolumn rfl
        obtain rfl : k = column := by simpa using hpre
        exact hnamed hcolumn
      have h1 : ¬ (path = ["is_deleted"] ∧ condition.get "is_deleted" = none) :=
        fun hc => hne _ hc.2 hc.1
      have h2 : ¬ (path = ["deleted_at"] ∧ condition.get "deleted_at" = none) :=
        fun hc => hne _ hc.2 hc.1
      simp only [row', if_neg h1, if_neg h2]
    have hlive : Live sql row' := by
      apply h
      rw [selects_spread hd]
      refine ⟨selects_congr hd hsame hselects, fun hnone => ?_, fun hnone => ?_⟩
      · simp [row', hnone, equalTo, hv]
      · simp [row', hnone]
    refine ⟨fun hnamed => ?_, fun hnamed => ?_⟩
    · rw [hsame "is_deleted" _ hnamed (List.prefix_refl _)]
      exact hlive.1
    · rw [hsame "deleted_at" _ hnamed (List.prefix_refl _)]
      exact hlive.2
  · intro h row hselects
    obtain ⟨hclient, hdeleted, hat⟩ := (selects_spread hd).mp hselects
    obtain ⟨hkeptDeleted, hkeptAt⟩ := h row hclient
    refine ⟨?_, ?_⟩
    · by_cases hnone : condition.get "is_deleted" = none
      · exact hdeleted hnone
      · exact hkeptDeleted hnone
    · by_cases hnone : condition.get "deleted_at" = none
      · exact hat hnone
      · exact hkeptAt hnone

theorem keys_indexedFrom {key : String} {conditions : List WhereObject} {i : Nat}
    (h : key ∈ (indexedFrom i conditions).keys) : ∃ j : Nat, key = toString j := by
  induction conditions generalizing i with
  | nil => cases h
  | cons condition conditions ih =>
      rcases List.mem_cons.mp h with rfl | h
      · exact ⟨i, rfl⟩
      · exact ih h

/-- A name with a letter is no index. -/
theorem ne_toString {key : String} {c : Char} (hc : c ∈ key.toList) (hdigit : c.isDigit = false)
    (j : Nat) : key ≠ toString j := by
  rintro rfl
  rw [Nat.toString_eq_ofList_toDigits, String.toList_ofList] at hc
  rw [Nat.isDigit_of_mem_toDigits (by decide) (by decide) hc] at hdigit
  cases hdigit

/-- Under an array the filter stays as it is: the client's conditions are at the indices. -/
theorem entailsLive_spread_indexed (conditions : List WhereObject) :
    EntailsLive sql (softDeleteFilter.spread (indexedFrom 0 conditions)) := by
  have hget : ∀ key ∈ ["is_deleted", "deleted_at"],
      (softDeleteFilter.spread (indexedFrom 0 conditions)).get key =
        softDeleteFilter.get key := by
    intro key hkey
    apply Fields.get_spread_of_not_mem
    intro hmem
    obtain ⟨j, hj⟩ := keys_indexedFrom hmem
    have hletter : 'd' ∈ key.toList := by
      rcases List.mem_cons.mp hkey with rfl | hkey
      · decide
      · obtain rfl := List.mem_singleton.mp hkey
        decide
    exact ne_toString hletter (by decide) j hj
  intro row hselects
  have hall := WhereObject.selects_iff.mp hselects
  exact ⟨isDeleted_holds.mp (Fields.all_of_get hall (hget "is_deleted" (by decide))),
    deletedAt_holds.mp (Fields.all_of_get hall (hget "deleted_at" (by decide)))⟩

end Live

/-! ## Every listing -/

section Listings

variable {schema : Schema} {lib : Library} {query : QueryParams}

theorem distinct_combineAndOrConditions {t : WhereObject} {ts : List WhereObject}
    (ht : t.Distinct) (hts : ∀ u ∈ ts, u.Distinct) :
    ∀ condition ∈ (combineAndOrConditions t ts).alternatives, condition.Distinct := by
  intro condition hmem
  unfold combineAndOrConditions at hmem
  dsimp only at hmem
  split at hmem
  · obtain rfl := List.mem_singleton.mp hmem
    exact Fields.distinct_nil
  · split at hmem
    · obtain rfl := List.mem_singleton.mp hmem
      exact ht
    · split at hmem
      · exact hts condition hmem
      · obtain ⟨u, hu, rfl⟩ := List.mem_map.mp hmem
        exact Fields.distinct_merge mergeRule t u ht (hts u hu)

theorem distinct_applyFilters {client : Where} (h : applyFilters schema lib query = .ok client) :
    ∀ condition ∈ client.alternatives, condition.Distinct := by
  obtain ⟨searchObject, hsearch, h⟩ := bind_eq_ok.mp h
  obtain ⟨filterObject, hfilter, h⟩ := bind_eq_ok.mp h
  obtain ⟨alternatives, hor, h⟩ := bind_eq_ok.mp h
  obtain ⟨filters, -, hbuild⟩ := parseFilterParameter_ok hfilter
  obtain ⟨ors, -, hor⟩ := parseOrParameter_ok hor
  have hmerged : (deepMerge searchObject filterObject).Distinct :=
    Fields.distinct_merge mergeRule _ _ (distinct_parseSearchParameter hsearch)
      (distinct_buildFilterWhereClause hbuild)
  rw [← Except.ok.inj h]
  exact distinct_combineAndOrConditions (Fields.distinct_map transformNullValue _ hmerged)
    (distinct_buildOrWhereClause hor)

theorem distinct_applyExclusions (exclude_ids : Option Json) {client : Where}
    (h : ∀ condition ∈ client.alternatives, condition.Distinct) :
    ∀ condition ∈ (applyExclusions schema exclude_ids client).alternatives,
      condition.Distinct := by
  simp only [applyExclusions]
  split
  · exact h
  · split
    · exact h
    · cases client with
      | any conditions =>
          intro condition hmem
          obtain ⟨u, hu, rfl⟩ := List.mem_map.mp hmem
          exact Fields.distinct_merge mergeRule _ _ (h u hu) (Fields.distinct_single _ [_])
      | one condition =>
          intro u hmem
          obtain rfl := List.mem_singleton.mp hmem
          exact Fields.distinct_merge mergeRule _ _ (h condition (List.mem_singleton_self _))
            (Fields.distinct_single _ [_])

/-- The keys of every object that the builder returns are distinct. -/
theorem distinct_buildWhere {client : Where} (h : buildWhere schema lib query = .ok client) :
    ∀ condition ∈ client.alternatives, condition.Distinct := by
  obtain ⟨filtered, hfilters, h⟩ := bind_eq_ok.mp h
  rw [← Except.ok.inj h]
  exact distinct_applyExclusions query.exclude_ids (distinct_applyFilters hfilters)

variable {V : Type} (sql : Sql V)

/-- The filter under each alternative. -/
theorem entailsLive_each_iff (hfalse : ∃ v, sql.equal v (.bool false) = some true)
    {conditions : List WhereObject} (hd : ∀ condition ∈ conditions, condition.Distinct) :
    (∀ condition ∈ conditions.map fun condition => softDeleteFilter.spread condition,
      EntailsLive sql condition) ↔ ∀ condition ∈ conditions, KeepsLive sql condition := by
  rw [List.forall_mem_map]
  exact forall_congr' fun condition => forall_congr' fun hmem =>
    entailsLive_spread_iff hfalse (hd condition hmem)

theorem alternatives_addSoftDeleteFilter {listing : Listing} {client : Where}
    (h : ¬ (listing = .findAll ∧ ∃ conditions, client = .any conditions)) :
    (addSoftDeleteFilter listing client).alternatives =
      client.alternatives.map fun condition => softDeleteFilter.spread condition := by
  cases client with
  | one condition => cases listing <;> rfl
  | any conditions =>
      cases listing with
      | findAll => exact absurd ⟨rfl, conditions, rfl⟩ h
      | findOneOrQuery => rfl
      | findPaginated => rfl

/-- **When a listing shows no deleted rows.** Every alternative of the where value that a listing
hands to the repository implies `is_deleted = false` and `deleted_at IS NULL` exactly if the
listing is `findAll` with alternatives, or every alternative that the builder makes of the
client's conditions implies them on the columns that it names. -/
theorem listing_live_iff (hfalse : ∃ v, sql.equal v (.bool false) = some true)
    (listing : Listing) {client : Where} (hbuild : buildWhere schema lib query = .ok client) :
    (∀ w, listing.where_ schema lib query = .ok w →
      ∀ condition ∈ w.alternatives, EntailsLive sql condition) ↔
    (listing = .findAll ∧ ∃ conditions, client = .any conditions) ∨
      ∀ condition ∈ client.alternatives, KeepsLive sql condition := by
  have hwhere : listing.where_ schema lib query = .ok (addSoftDeleteFilter listing client) := by
    rw [Listing.where_, hbuild]
    rfl
  have hunique : (∀ w, listing.where_ schema lib query = .ok w →
      ∀ condition ∈ w.alternatives, EntailsLive sql condition) ↔
      ∀ condition ∈ (addSoftDeleteFilter listing client).alternatives,
        EntailsLive sql condition := by
    constructor
    · intro h
      exact h _ hwhere
    · rintro h w hw
      rw [hwhere] at hw
      obtain rfl := Except.ok.inj hw
      exact h
  rw [hunique]
  by_cases hall : listing = .findAll ∧ ∃ conditions, client = .any conditions
  · refine iff_of_true ?_ (Or.inl hall)
    obtain ⟨rfl, conditions, rfl⟩ := hall
    intro condition hmem
    obtain rfl := List.mem_singleton.mp hmem
    exact entailsLive_spread_indexed conditions
  · rw [alternatives_addSoftDeleteFilter hall,
      entailsLive_each_iff sql hfalse (distinct_buildWhere hbuild)]
    exact (or_iff_right hall).symm

/-- An object that names neither column keeps the filter. -/
theorem keepsLive_of_unnamed {condition : WhereObject} (hdeleted : condition.get "is_deleted" = none)
    (hat : condition.get "deleted_at" = none) : KeepsLive sql condition := by
  intro row _
  exact ⟨fun hnamed => absurd hdeleted hnamed, fun hnamed => absurd hat hnamed⟩

/-- A query with one filter. -/
def filterQuery (filter : String) : QueryParams where
  s := none
  filter := some (.str filter)
  or := none
  exclude_ids := none
  timezone := none

/-- Neither of the filter's columns is a key of the object. -/
def unnamed (condition : WhereObject) : Bool :=
  (condition.get "is_deleted").isNone && (condition.get "deleted_at").isNone

/-- A client that names another column sees no deleted reorder levels. -/
theorem listing_live_warehouse :
    ∃ client, buildWhere ProductListing.reorderLevels.schema plainLibrary
        (filterQuery "warehouse_id||$eq||north") = .ok client ∧
      (∃ v, textSql.equal v (.bool false) = some true) ∧
      ∀ w, Listing.findPaginated.where_ ProductListing.reorderLevels.schema plainLibrary
        (filterQuery "warehouse_id||$eq||north") = .ok w →
        ∀ condition ∈ w.alternatives, EntailsLive textSql condition := by
  have hfalse : ∃ v, textSql.equal v (.bool false) = some true := ⟨"false", by decide⟩
  have hunnamed : (match buildWhere ProductListing.reorderLevels.schema plainLibrary
      (filterQuery "warehouse_id||$eq||north") with
      | .ok client => client.alternatives.all unnamed
      | .error _ => false) = true := by decide +kernel
  cases hbuild : buildWhere ProductListing.reorderLevels.schema plainLibrary
      (filterQuery "warehouse_id||$eq||north") with
  | error e =>
      rw [hbuild] at hunnamed
      cases hunnamed
  | ok client =>
      rw [hbuild] at hunnamed
      refine ⟨client, rfl, hfalse, (listing_live_iff textSql hfalse .findPaginated hbuild).mpr ?_⟩
      right
      intro condition hmem
      have h := List.all_eq_true.mp hunnamed condition hmem
      simp only [unnamed, Bool.and_eq_true, Option.isNone_iff_eq_none] at h
      exact keepsLive_of_unnamed textSql h.1 h.2

/-- A reorder level that is deleted. -/
def deletedRow : Row String
  | ["is_deleted"] => some "true"
  | _ => none

/-- A client that asks for the deleted reorder levels gets them. -/
theorem listing_shows_deleted :
    ¬ ∀ w, Listing.findPaginated.where_ ProductListing.reorderLevels.schema plainLibrary
      (filterQuery "is_deleted||$eq||true") = .ok w →
      ∀ condition ∈ w.alternatives, EntailsLive textSql condition := by
  intro h
  have hselects : (match Listing.findPaginated.where_ ProductListing.reorderLevels.schema
      plainLibrary (filterQuery "is_deleted||$eq||true") with
      | .ok w => w.alternatives.any (fun condition => condition.selects textSql deletedRow)
      | .error _ => false) = true := by decide +kernel
  cases hrun : Listing.findPaginated.where_ ProductListing.reorderLevels.schema plainLibrary
      (filterQuery "is_deleted||$eq||true") with
  | error e =>
      rw [hrun] at hselects
      cases hselects
  | ok w =>
      rw [hrun] at hselects
      obtain ⟨condition, hmem, hcondition⟩ := List.any_eq_true.mp hselects
      have hlive := h w hrun condition hmem deletedRow hcondition
      exact absurd hlive.1 (by decide)

end Listings

end ErpApi.Query
