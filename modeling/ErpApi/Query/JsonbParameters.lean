import ErpApi.Basic.Effects
import ErpApi.Query.TypeOrmQueryBuilder
import Mathlib.Data.List.Nodup

set_option autoImplicit false

/-! # The parameters of JSONB conditions

A condition on a JSONB path is a text of SQL with placeholders, and the values bound to them.
TypeORM gathers the values of all conditions of a statement under their names, so two conditions
with one name would read one value. The names are numbered by a counter, a field of the builder;
here the methods of the builder are programs over this field. They compute what those without it
do, and `jsonbParameters_separate` says that no condition reads the value of another.
-/

namespace ErpApi.Query.Builder

open ErpApi.ObjectTree

/-! ## The texts -/

inductive SqlPiece where
  | text (sql : String)
  | placeholder (name : String)
  deriving DecidableEq

/-- The arguments of `Raw`: the text for the alias of the column, and the values by name. The
values are listed as they are assigned, before a name that comes twice would replace the first. -/
structure RawCondition where
  sql : String → List SqlPiece
  parameters : List (String × String)

def RawCondition.names (condition : RawCondition) : List String :=
  condition.parameters.map Prod.fst

def paramPrefix (counter : Nat) : String := "jsonb_" ++ toString counter ++ "_"

/-- The values under the names `stem0`, `stem1`, and so on. -/
def numbered (stem : String) (values : List String) : List (String × String) :=
  values.mapIdx fun index value => (stem ++ toString index, value)

def placeholders (separator : String) : List (String × String) → List SqlPiece
  | [] => []
  | [(name, _)] => [.placeholder name]
  | (name, _) :: rest => .placeholder name :: .text separator :: placeholders separator rest

def columnRef (column path : String) : String :=
  let table := String.ofList (path.toList.takeWhile (· ≠ '.'))
  if path.toList.contains '.' ∧ table ≠ "" then "\"" ++ table ++ "\".\"" ++ column ++ "\""
  else "\"" ++ column ++ "\""

def accessor (column : String) (pathParams : List (String × String)) (path : String) :
    List SqlPiece :=
  .text (columnRef column path ++ " #>> ARRAY[") ::
    (placeholders ", " pathParams ++ [.text "]::text[]"])

/-- The text goes on after the column with `test`. -/
def buildRaw (counter : Nat) (column : String) (jsonPath : List String) (test : List SqlPiece)
    (valueParams : List (String × String)) : RawCondition :=
  let pathParams := numbered (paramPrefix counter ++ "p") jsonPath
  { sql := fun path => accessor column pathParams path ++ test
    parameters := pathParams ++ valueParams }

/-- A test against the one value `v`. -/
def buildValueTest (counter : Nat) (column : String) (jsonPath : List String) (symbol : String)
    (value : String) : RawCondition :=
  let paramName := paramPrefix counter ++ "v"
  buildRaw counter column jsonPath [.text symbol, .placeholder paramName] [(paramName, value)]

/-- What `buildJsonbRawCondition` passes to `Raw`. -/
def rawCondition (counter : Nat) (column : String) (jsonPath : List String)
    (operator : JsonbOperator) (value : String) : RawCondition :=
  let isNull := buildRaw counter column jsonPath [.text " IS NULL"] []
  let isNotNull := buildRaw counter column jsonPath [.text " IS NOT NULL"] []
  if operator = .eq ∧ value = "" then isNull
  else if operator = .ne ∧ value = "" then isNotNull
  else
    match operator with
    | .eq => buildValueTest counter column jsonPath " = " value
    | .ieq => buildValueTest counter column jsonPath " ILIKE " value
    | .ne => buildValueTest counter column jsonPath " != " value
    | .cont => buildValueTest counter column jsonPath " ILIKE " ("%" ++ value ++ "%")
    | .starts => buildValueTest counter column jsonPath " ILIKE " (value ++ "%")
    | .ends => buildValueTest counter column jsonPath " ILIKE " ("%" ++ value)
    | .isIn =>
        let values := parseCommaSeparatedValues value
        if values.length = 0 then ⟨fun _ => [.text "1 = 0"], []⟩
        else
          let valueParams := numbered (paramPrefix counter ++ "i") values
          buildRaw counter column jsonPath
            (.text " IN (" :: (placeholders "," valueParams ++ [.text ")"])) valueParams
    | .isNull => if Js.lowerEq value "false" then isNotNull else isNull
    | .notNull => if Js.lowerEq value "false" then isNull else isNotNull

/-- The text that a test of the text at a path stands for. -/
def renderTest (counter : Nat) (column : String) (jsonPath : List String) :
    JsonbTest → RawCondition
  | .isNull => buildRaw counter column jsonPath [.text " IS NULL"] []
  | .isNotNull => buildRaw counter column jsonPath [.text " IS NOT NULL"] []
  | .equal value => buildValueTest counter column jsonPath " = " value
  | .notEqual value => buildValueTest counter column jsonPath " != " value
  | .iLike pattern => buildValueTest counter column jsonPath " ILIKE " pattern
  | .inList values =>
      let valueParams := numbered (paramPrefix counter ++ "i") values
      buildRaw counter column jsonPath
        (.text " IN (" :: (placeholders "," valueParams ++ [.text ")"])) valueParams

/-- The condition that a `Raw` operator is made of. -/
def Renders (counter : Nat) (column : String) (condition : RawCondition) : FindOperator → Prop
  | .jsonb jsonPath test => condition = renderTest counter column jsonPath test
  | .never => condition = ⟨fun _ => [.text "1 = 0"], []⟩
  | _ => False

/-- The operator that the builder without the counter makes is the one of this text. -/
theorem renders_rawCondition (counter : Nat) (column : String) (jsonPath : List String)
    (operator : JsonbOperator) (value : String) :
    Renders counter column (rawCondition counter column jsonPath operator value)
      (Query.buildJsonbRawCondition jsonPath operator value) := by
  unfold rawCondition Query.buildJsonbRawCondition
  dsimp only
  by_cases heq : operator = .eq ∧ value = ""
  · rw [if_pos heq, if_pos heq]
    rfl
  rw [if_neg heq, if_neg heq]
  by_cases hne : operator = .ne ∧ value = ""
  · rw [if_pos hne, if_pos hne]
    rfl
  rw [if_neg hne, if_neg hne]
  cases operator with
  | eq | ieq | ne | cont | starts | ends => rfl
  | isIn =>
      by_cases hlist : (parseCommaSeparatedValues value).length = 0
      · simp only [hlist, if_true]
        rfl
      · simp only [hlist, if_false]
        rfl
  | isNull | notNull =>
      by_cases hfalse : Js.lowerEq value "false" = true
      · simp only [hfalse, if_true]
        rfl
      · simp only [hfalse]
        rfl

/-! ## The names -/

theorem toString_injective : Function.Injective (fun n : Nat => toString n) := by
  intro m n h
  have hdigits : Nat.toDigits 10 m = Nat.toDigits 10 n := by
    simpa only [Nat.toString_eq_repr, Nat.toList_repr] using congrArg String.toList h
  have hread := congrArg (fun digits => Nat.ofDigitChars 10 digits 0) hdigits
  simpa using hread

theorem underscore_notMem_toString (n : Nat) : '_' ∉ (toString n).toList := by
  intro hmem
  have hdigit : Char.isDigit '_' = true :=
    Nat.isDigit_of_mem_toDigits (b := 10) (by decide) (by decide)
      (by simpa only [Nat.toString_eq_repr, Nat.toList_repr] using hmem)
  exact absurd hdigit (by decide)

/-- The number in a name ends at the underscore after it, so the name tells it. -/
theorem paramPrefix_append_inj {m n : Nat} {a b : String}
    (h : paramPrefix m ++ a = paramPrefix n ++ b) : m = n ∧ a = b := by
  have hlist := congrArg String.toList h
  simp only [paramPrefix, String.toList_append, List.append_assoc] at hlist
  have hrest : toString m ++ String.singleton '_' ++ a =
      toString n ++ String.singleton '_' ++ b := by
    apply String.toList_injective
    simpa [List.append_assoc] using List.append_cancel_left hlist
  have hsplit := congrArg (Js.split '_') hrest
  rw [Js.split_append, Js.split_append, Js.split_of_not_mem (underscore_notMem_toString m),
    Js.split_of_not_mem (underscore_notMem_toString n)] at hsplit
  obtain ⟨hnumber, htail⟩ := List.cons.inj hsplit
  exact ⟨toString_injective hnumber, Js.split_injective '_' htail⟩

theorem names_numbered (stem : String) (values : List String) :
    (numbered stem values).map Prod.fst =
      (List.range values.length).map fun index => stem ++ toString index := by
  apply List.ext_getElem
  · simp [numbered]
  · intro i _ _
    simp [numbered]

theorem nodup_numbered (stem : String) (values : List String) :
    ((numbered stem values).map Prod.fst).Nodup := by
  rw [names_numbered]
  refine List.Nodup.map ?_ List.nodup_range
  intro i j h
  have hlist : stem.toList ++ (toString i).toList = stem.toList ++ (toString j).toList := by
    simpa only [String.toList_append] using congrArg String.toList h
  exact toString_injective (String.toList_injective (List.append_cancel_left hlist))

theorem mem_numbered {stem name : String} {values : List String}
    (h : name ∈ (numbered stem values).map Prod.fst) :
    ∃ index : Nat, name = stem ++ toString index := by
  rw [names_numbered] at h
  obtain ⟨index, _, rfl⟩ := List.mem_map.mp h
  exact ⟨index, rfl⟩

theorem mem_placeholders {separator name : String} :
    ∀ {params : List (String × String)}, .placeholder name ∈ placeholders separator params →
      name ∈ params.map Prod.fst
  | [], h => absurd h (by simp [placeholders])
  | [(first, _)], h => by
      obtain rfl : name = first := by simpa [placeholders] using h
      exact List.mem_cons_self
  | (first, _) :: next :: rest, h => by
      rw [placeholders] at h
      rcases List.mem_cons.mp h with hfirst | h
      · obtain rfl : name = first := by simpa using hfirst
        exact List.mem_cons_self
      · rcases List.mem_cons.mp h with htext | h
        · exact absurd htext (by simp)
        · exact List.mem_cons_of_mem _ (mem_placeholders h)
      · simp

/-! ## One condition -/

/-- The condition reads its own values only, under names that no other number gives. -/
structure RawCondition.IsNumbered (condition : RawCondition) (counter : Nat) : Prop where
  nodup : condition.names.Nodup
  bound : ∀ path name, .placeholder name ∈ condition.sql path → name ∈ condition.names
  numbered : ∀ name ∈ condition.names, ∃ rest, name = paramPrefix counter ++ rest

/-- The names of the values do not start with the `p` of the path. -/
theorem isNumbered_buildRaw {counter : Nat} {column : String} {jsonPath : List String}
    {test : List SqlPiece} {valueParams : List (String × String)}
    (hnodup : (valueParams.map Prod.fst).Nodup)
    (hnames : ∀ name ∈ valueParams.map Prod.fst, ∃ first rest, first ≠ 'p' ∧
      name = paramPrefix counter ++ String.ofList (first :: rest))
    (htest : ∀ name, .placeholder name ∈ test → name ∈ valueParams.map Prod.fst) :
    (buildRaw counter column jsonPath test valueParams).IsNumbered counter where
  nodup := by
    rw [RawCondition.names, buildRaw, List.map_append]
    refine List.nodup_append.mpr ⟨nodup_numbered _ _, hnodup, ?_⟩
    rintro name hpath _ hvalue rfl
    obtain ⟨index, hindex⟩ := mem_numbered hpath
    obtain ⟨first, rest, hfirst, hname⟩ := hnames name hvalue
    rw [hname, String.append_assoc] at hindex
    have htail := congrArg String.toList (paramPrefix_append_inj hindex).2
    rw [String.toList_ofList, String.toList_append] at htail
    exact hfirst (List.cons.inj htail).1
  bound path name hname := by
    rw [RawCondition.names, buildRaw, List.map_append]
    apply List.mem_append.mpr
    rcases List.mem_append.mp hname with haccessor | hname
    · left
      rw [accessor] at haccessor
      rcases List.mem_cons.mp haccessor with htext | haccessor
      · exact absurd htext (by simp)
      · rcases List.mem_append.mp haccessor with hpath | htext
        · exact mem_placeholders hpath
        · exact absurd htext (by simp)
    · exact Or.inr (htest name hname)
  numbered name hname := by
    rw [RawCondition.names, buildRaw, List.map_append] at hname
    rcases List.mem_append.mp hname with hpath | hvalue
    · obtain ⟨index, rfl⟩ := mem_numbered hpath
      exact ⟨"p" ++ toString index, String.append_assoc⟩
    · obtain ⟨first, rest, _, rfl⟩ := hnames name hvalue
      exact ⟨_, rfl⟩

theorem isNumbered_noValues (counter : Nat) (column : String) (jsonPath : List String)
    (sql : String) : (buildRaw counter column jsonPath [.text sql] []).IsNumbered counter :=
  isNumbered_buildRaw List.nodup_nil (by simp) (by simp)

theorem isNumbered_buildValueTest (counter : Nat) (column : String) (jsonPath : List String)
    (symbol value : String) :
    (buildValueTest counter column jsonPath symbol value).IsNumbered counter := by
  apply isNumbered_buildRaw
  · exact List.nodup_singleton _
  · intro name hname
    obtain rfl : name = paramPrefix counter ++ "v" := by simpa using hname
    exact ⟨'v', [], by decide, rfl⟩
  · intro name hname
    simpa using hname

theorem isNumbered_inList (counter : Nat) (column : String) (jsonPath values : List String) :
    (buildRaw counter column jsonPath
      (.text " IN (" :: (placeholders "," (numbered (paramPrefix counter ++ "i") values) ++
        [.text ")"]))
      (numbered (paramPrefix counter ++ "i") values)).IsNumbered counter := by
  apply isNumbered_buildRaw (nodup_numbered _ _)
  · intro name hname
    obtain ⟨index, rfl⟩ := mem_numbered hname
    refine ⟨'i', (toString index).toList, by decide, ?_⟩
    apply String.toList_injective
    simp
  · intro name hname
    rcases List.mem_cons.mp hname with htext | hname
    · exact absurd htext (by simp)
    · rcases List.mem_append.mp hname with hvalue | htext
      · exact mem_placeholders hvalue
      · exact absurd htext (by simp)

theorem isNumbered_rawCondition (counter : Nat) (column : String) (jsonPath : List String)
    (operator : JsonbOperator) (value : String) :
    (rawCondition counter column jsonPath operator value).IsNumbered counter := by
  have hrenders := renders_rawCondition counter column jsonPath operator value
  generalize rawCondition counter column jsonPath operator value = condition at hrenders ⊢
  generalize Query.buildJsonbRawCondition jsonPath operator value = made at hrenders
  cases made with
  | jsonb path test =>
      obtain rfl : condition = renderTest counter column path test := hrenders
      cases test with
      | isNull | isNotNull => exact isNumbered_noValues _ _ _ _
      | equal value | notEqual value | iLike value => exact isNumbered_buildValueTest _ _ _ _ _
      | inList values => exact isNumbered_inList _ _ _ _
  | never =>
      obtain rfl : condition = ⟨fun _ => [.text "1 = 0"], []⟩ := hrenders
      exact ⟨List.nodup_nil, by simp, by simp [RawCondition.names]⟩
  | equal | equalObject | not | compare | iLike | inList | between | isNull | and =>
      exact hrenders.elim

/-! ## The conditions of one builder -/

/-- The counter, and the conditions made so far. -/
structure BuildState where
  jsonbParamCounter : Nat
  rawConditions : List RawCondition

/-- A builder after its constructor. -/
def BuildState.new : BuildState := ⟨0, []⟩

abbrev Build := Effect BuildState QueryError

/-- The names in use are distinct, and come of numbers below the counter. -/
structure BuildState.Separate (state : BuildState) : Prop where
  nodup : (state.rawConditions.flatMap RawCondition.names).Nodup
  bound : ∀ condition ∈ state.rawConditions, ∀ path name,
    .placeholder name ∈ condition.sql path → name ∈ condition.names
  below : ∀ condition ∈ state.rawConditions, ∀ name ∈ condition.names,
    ∃ number < state.jsonbParamCounter, ∃ rest, name = paramPrefix number ++ rest

theorem BuildState.separate_new : BuildState.new.Separate :=
  ⟨List.nodup_nil, by simp [BuildState.new], by simp [BuildState.new]⟩

/-- The step of the counter: the next condition takes its number. -/
theorem BuildState.Separate.add {state : BuildState} {condition : RawCondition}
    (h : state.Separate) (hcondition : condition.IsNumbered state.jsonbParamCounter) :
    BuildState.Separate
      ⟨state.jsonbParamCounter + 1, state.rawConditions ++ [condition]⟩ where
  nodup := by
    have hlist : (state.rawConditions ++ [condition]).flatMap RawCondition.names =
        state.rawConditions.flatMap RawCondition.names ++ condition.names := by
      rw [List.flatMap_append, List.flatMap_singleton]
    rw [hlist]
    refine List.nodup_append.mpr ⟨h.nodup, hcondition.nodup, ?_⟩
    rintro name hold _ hnew rfl
    obtain ⟨earlier, hearlier, hname⟩ := List.mem_flatMap.mp hold
    obtain ⟨number, hnumber, rest, hrest⟩ := h.below earlier hearlier name hname
    obtain ⟨rest', hrest'⟩ := hcondition.numbered name hnew
    have heq : number = state.jsonbParamCounter :=
      (paramPrefix_append_inj (hrest.symm.trans hrest')).1
    omega
  bound := by
    intro other hother
    rcases List.mem_append.mp hother with hold | hnew
    · exact h.bound other hold
    · obtain rfl : other = condition := List.mem_singleton.mp hnew
      exact hcondition.bound
  below := by
    intro other hother name hname
    rcases List.mem_append.mp hother with hold | hnew
    · obtain ⟨number, hnumber, hrest⟩ := h.below other hold name hname
      exact ⟨number, Nat.lt_succ_of_lt hnumber, hrest⟩
    · obtain rfl : other = condition := List.mem_singleton.mp hnew
      exact ⟨state.jsonbParamCounter, Nat.lt_succ_self _, hcondition.numbered name hname⟩

/-! ## The methods of the builder -/

section Methods

variable (schema : Schema) (lib : Library) (timezone : String)

def buildJsonbRawCondition (column : String) (jsonPath : List String) (operator : JsonbOperator)
    (value : String) : Build FindOperator := do
  let state ← get
  let counter := state.jsonbParamCounter
  set (BuildState.mk (counter + 1)
    (state.rawConditions ++ [rawCondition counter column jsonPath operator value]))
  return Query.buildJsonbRawCondition jsonPath operator value

def jsonbSearchOperator (column : String) (jsonPath : List String) (entry : String × Json) :
    Build FindOperator := do
  let operator ← Effect.lift (assertValidSearchOperator entry.1)
  let jsonbOperator ← Effect.lift (mapSearchOperatorToJsonbOperator operator)
  buildJsonbRawCondition column jsonPath jsonbOperator entry.2.toText

def buildJsonbSearchCondition (column : String) (jsonPath : List String) :
    Json → Build FindOperator
  | .obj operatorObj =>
      if operatorObj.length = 0 then Effect.lift (throw (.invalidParameter "s"
        ("JSONB search condition for '" ++ column ++
          "' requires an operator object with at least one operator.")))
      else do return conjunction (← operatorObj.mapM (jsonbSearchOperator column jsonPath))
  | condition => buildJsonbRawCondition column jsonPath .eq condition.toText

def addSearchCondition (where_ : WhereObject) (entry : String × Json) : Build WhereObject :=
  let (key, condition) := entry
  if isJsonbPath schema key then
    match extractJsonbColumnAndPath schema key with
    | some (column, jsonPath) => do
        let conditionValue ← buildJsonbSearchCondition column jsonPath condition
        return deepMerge where_ (.cons column (.leaf (.operator conditionValue)) .nil)
    | none => pure where_
  else Effect.lift do
    let isDateColumn := isDateColumnRecursive schema key
    let conditionValue ← buildConditionValue lib timezone condition isDateColumn
    if key.toList.contains '.' then return setNestedValue where_ (parts key) conditionValue
    else return where_.set key (.leaf conditionValue)

def buildSearchWhereClause (conditions : List (String × Json)) : Build WhereObject := do
  Effect.lift (validateFieldNamesRecursive schema (conditions.map Prod.fst))
  conditions.foldlM (addSearchCondition schema lib timezone) .nil

def parseSearchParameter (s : Option Json) : Build WhereObject :=
  Effect.mapError asSearchError do
    let conditions ← Effect.lift (searchConditionsOf lib s)
    buildSearchWhereClause schema lib timezone conditions

def singleCondition (filter : Filter) : Build WhereObject :=
  if isJsonbPath schema filter.field then
    match extractJsonbColumnAndPath schema filter.field with
    | some (column, jsonPath) => do
        let jsonbOperator ← Effect.lift (mapFilterOperatorToJsonbOperator filter.operator column)
        let operatorValue ← buildJsonbRawCondition column jsonPath jsonbOperator filter.value
        return .cons column (.leaf (.operator operatorValue)) .nil
    | none => pure .nil
  else Effect.lift do
    validateEnumValueForFilter schema filter
    let processedValue ← filterOperand schema lib timezone filter
    let operatorValue ← applyFilterOperator filter.operator processedValue
    if filter.field.toList.contains '.' then
      return setNestedValue .nil (parts filter.field) operatorValue
    else return Fields.nil.set filter.field (.leaf operatorValue)

def buildFilterWhereClause (filters : List Filter) : Build WhereObject :=
  filters.foldlM
    (fun where_ filter => do
      return deepMerge where_ (← singleCondition schema lib timezone filter))
    .nil

def buildOrWhereClause (filters : List Filter) : Build (List WhereObject) :=
  filters.mapM fun filter => do
    return transformNullValues (← singleCondition schema lib timezone filter)

def parseFilterParameter (filter : Option Json) : Build WhereObject := do
  let filters := normalizeFilterInput filter
  if filters.length = 0 then return .nil
  let parsedFilters ← Effect.lift (parseFilterStrings filters)
  Effect.lift (validateFieldNamesRecursive schema (parsedFilters.map Filter.field))
  buildFilterWhereClause schema lib timezone parsedFilters

def parseOrParameter (or : Option Json) : Build (List WhereObject) := do
  let orFilters := normalizeOrInput or
  if orFilters.length = 0 then return []
  let parsedFilters ← Effect.lift (parseFilterStrings orFilters)
  if parsedFilters.length = 0 then return []
  Effect.lift (validateFieldNamesRecursive schema (parsedFilters.map Filter.field))
  buildOrWhereClause schema lib timezone parsedFilters

def applyFilters (query : QueryParams) : Build Where := do
  let timezone := query.timezoneOrDefault
  let searchConditions ← parseSearchParameter schema lib timezone query.s
  let filterConditions ← parseFilterParameter schema lib timezone query.filter
  let orConditions ← parseOrParameter schema lib timezone query.or
  let andConditions := deepMerge searchConditions filterConditions
  return combineAndOrConditions (transformNullValues andConditions) orConditions

end Methods

/-! ## The methods keep the names apart -/

section Run

variable {schema : Schema} {lib : Library} {timezone : String}

/-- The method computes what the one without the counter does, and keeps the names apart. -/
abbrev Implements {α : Type} (m : Build α) (x : Except QueryError α) : Prop :=
  Effect.Refines BuildState.Separate m x

theorem implements_buildJsonbRawCondition (column : String) (jsonPath : List String)
    (operator : JsonbOperator) (value : String) :
    Implements (buildJsonbRawCondition column jsonPath operator value)
      (.ok (Query.buildJsonbRawCondition jsonPath operator value)) where
  result_eq _ := rfl
  keeps state h := h.add (isNumbered_rawCondition state.jsonbParamCounter _ _ _ _)

theorem implements_jsonbSearchOperator (column : String) (jsonPath : List String)
    (entry : String × Json) :
    Implements (jsonbSearchOperator column jsonPath entry)
      (Query.jsonbSearchOperator jsonPath entry) :=
  (Effect.Refines.lift _).bind fun _ =>
    (Effect.Refines.lift _).bind fun _ => implements_buildJsonbRawCondition _ _ _ _

theorem implements_buildJsonbSearchCondition (column : String) (jsonPath : List String)
    (condition : Json) :
    Implements (buildJsonbSearchCondition column jsonPath condition)
      (Query.buildJsonbSearchCondition column jsonPath condition) := by
  cases condition with
  | obj operatorObj =>
      rw [buildJsonbSearchCondition, Query.buildJsonbSearchCondition]
      split
      · exact .lift _
      · exact (Effect.Refines.mapM (implements_jsonbSearchOperator column jsonPath) _).bind
          fun _ => .pure _
  | null | bool | num | str | arr => exact implements_buildJsonbRawCondition _ _ _ _

theorem implements_addSearchCondition (where_ : WhereObject) (entry : String × Json) :
    Implements (addSearchCondition schema lib timezone where_ entry)
      (Query.addSearchCondition schema lib timezone where_ entry) := by
  obtain ⟨key, condition⟩ := entry
  simp only [addSearchCondition, Query.addSearchCondition]
  by_cases hjsonb : isJsonbPath schema key = true
  · rw [if_pos hjsonb, if_pos hjsonb]
    cases extractJsonbColumnAndPath schema key with
    | some path =>
        exact (implements_buildJsonbSearchCondition path.1 path.2 condition).bind fun _ => .pure _
    | none => exact .pure _
  · rw [if_neg hjsonb, if_neg hjsonb]
    exact .lift _

theorem implements_parseSearchParameter (s : Option Json) :
    Implements (parseSearchParameter schema lib timezone s)
      (Query.parseSearchParameter schema lib timezone s) := by
  have hbody : Implements
      (Effect.lift (searchConditionsOf lib s) >>= buildSearchWhereClause schema lib timezone)
      (searchConditionsOf lib s >>= Query.buildSearchWhereClause schema lib timezone) :=
    (Effect.Refines.lift _).bind fun conditions => (Effect.Refines.lift _).bind fun _ =>
      Effect.Refines.foldlM implements_addSearchCondition conditions .nil
  have herror : Query.parseSearchParameter schema lib timezone s =
      (searchConditionsOf lib s >>= Query.buildSearchWhereClause schema lib timezone).mapError
        asSearchError := by
    rw [Query.parseSearchParameter]
    cases searchConditionsOf lib s >>= Query.buildSearchWhereClause schema lib timezone with
    | ok where_ => rfl
    | error error => rfl
  rw [herror]
  exact hbody.mapError asSearchError

theorem implements_singleCondition (filter : Filter) :
    Implements (singleCondition schema lib timezone filter)
      (Query.singleCondition schema lib timezone filter) := by
  rw [singleCondition, Query.singleCondition]
  by_cases hjsonb : isJsonbPath schema filter.field = true
  · rw [if_pos hjsonb, if_pos hjsonb]
    cases extractJsonbColumnAndPath schema filter.field with
    | some path =>
        exact (Effect.Refines.lift _).bind fun jsonbOperator =>
          (implements_buildJsonbRawCondition path.1 path.2 jsonbOperator filter.value).bind
            fun _ => .pure _
    | none => exact .pure _
  · rw [if_neg hjsonb, if_neg hjsonb]
    exact .lift _

theorem implements_parseFilterParameter (filter : Option Json) :
    Implements (parseFilterParameter schema lib timezone filter)
      (Query.parseFilterParameter schema lib timezone filter) := by
  simp only [parseFilterParameter, Query.parseFilterParameter]
  split
  · exact .pure _
  · refine (Effect.Refines.lift _).bind fun parsedFilters =>
      (Effect.Refines.lift _).bind fun _ => ?_
    apply Effect.Refines.foldlM
    intro where_ filter
    exact (implements_singleCondition filter).bind fun _ => .pure _

theorem implements_parseOrParameter (or : Option Json) :
    Implements (parseOrParameter schema lib timezone or)
      (Query.parseOrParameter schema lib timezone or) := by
  simp only [parseOrParameter, Query.parseOrParameter]
  split
  · exact .pure _
  · refine (Effect.Refines.lift _).bind fun parsedFilters => ?_
    split
    · exact .pure _
    · refine (Effect.Refines.lift _).bind fun _ => ?_
      apply Effect.Refines.mapM
      intro filter
      exact (implements_singleCondition filter).bind fun _ => .pure _

theorem implements_applyFilters (query : QueryParams) :
    Implements (applyFilters schema lib query) (Query.applyFilters schema lib query) :=
  (implements_parseSearchParameter query.s).bind fun _ =>
    (implements_parseFilterParameter query.filter).bind fun _ =>
      (implements_parseOrParameter query.or).bind fun _ => .pure _

/-- A name is bound once in the whole build. -/
theorem BuildState.Separate.eq_of_mem {state : BuildState} (h : state.Separate)
    {name a b : String} {first second : RawCondition} (hfirst : first ∈ state.rawConditions)
    (hsecond : second ∈ state.rawConditions) (ha : (name, a) ∈ first.parameters)
    (hb : (name, b) ∈ second.parameters) : a = b := by
  have hnames : (state.rawConditions.flatMap RawCondition.parameters).map Prod.fst =
      state.rawConditions.flatMap RawCondition.names := List.map_flatMap
  have hnodup : ((state.rawConditions.flatMap RawCondition.parameters).map Prod.fst).Nodup :=
    hnames ▸ h.nodup
  have hma := List.mem_flatMap.mpr ⟨first, hfirst, ha⟩
  have hmb := List.mem_flatMap.mpr ⟨second, hsecond, hb⟩
  exact congrArg Prod.snd (List.inj_on_of_nodup_map hnodup hma hmb rfl)

/-- During one build, also of a query that is refused, the names of all JSONB conditions are
distinct. A placeholder of a condition is bound by that condition, to the only value that any
condition of the build has for its name. -/
theorem jsonbParameters_separate (schema : Schema) (lib : Library) (query : QueryParams) :
    let build := applyFilters schema lib query
    let conditions := (build.after .new).rawConditions
    build.result .new = Query.applyFilters schema lib query ∧
      (conditions.flatMap RawCondition.names).Nodup ∧
        ∀ condition ∈ conditions, ∀ path name, .placeholder name ∈ condition.sql path →
          ∃ value, (name, value) ∈ condition.parameters ∧
            ∀ other ∈ conditions, ∀ bound, (name, bound) ∈ other.parameters → bound = value := by
  intro build conditions
  have hbuild : Implements build (Query.applyFilters schema lib query) :=
    implements_applyFilters query
  have hseparate : (build.after .new).Separate := hbuild.keeps .new BuildState.separate_new
  refine ⟨hbuild.result_eq .new, hseparate.nodup, ?_⟩
  intro condition hcondition path name hname
  obtain ⟨⟨_, value⟩, hmem, rfl⟩ :=
    List.mem_map.mp (hseparate.bound condition hcondition path name hname)
  refine ⟨value, hmem, ?_⟩
  intro other hother bound hbound
  exact hseparate.eq_of_mem hother hcondition hbound hmem

end Run

end ErpApi.Query.Builder
