import ErpApi.Query.EntityMetadata
import ErpApi.Query.FindOperator

set_option autoImplicit false

/-! # The query builder

`TypeOrmQueryBuilder` turns the conditions of a request into a where value. They come from
three parameters: `s`, an object of conditions by field; `filter`, strings of the form
`field||operator||value`; and `or`, strings of the same form that are alternatives. The first
two are merged into one object, whose leaves are then normalised; each alternative is merged
into a copy of it.
-/

namespace ErpApi.Query

open ErpApi.ObjectTree

/-! ## The vocabularies -/

inductive SearchOperator where
  | greater
  | greaterEqual
  | less
  | lessEqual
  | ne
  | ieq
  | cont
  | starts
  | ends
  | isIn
  | between
  deriving DecidableEq

def SearchOperator.all : List SearchOperator :=
  [.greater, .greaterEqual, .less, .lessEqual, .ne, .ieq, .cont, .starts, .ends, .isIn, .between]

def SearchOperator.text : SearchOperator → String
  | .greater => ">"
  | .greaterEqual => ">="
  | .less => "<"
  | .lessEqual => "<="
  | .ne => "!="
  | .ieq => "ieq"
  | .cont => "cont"
  | .starts => "starts"
  | .ends => "ends"
  | .isIn => "in"
  | .between => "between"

inductive FilterOperator where
  | eq
  | ieq
  | ne
  | gt
  | lt
  | gte
  | lte
  | cont
  | starts
  | ends
  | isIn
  | notIn
  | isNull
  | notNull
  | between
  deriving DecidableEq

def FilterOperator.all : List FilterOperator :=
  [.eq, .ieq, .ne, .gt, .lt, .gte, .lte, .cont, .starts, .ends, .isIn, .notIn, .isNull, .notNull,
    .between]

def FilterOperator.text : FilterOperator → String
  | .eq => "$eq"
  | .ieq => "$ieq"
  | .ne => "$ne"
  | .gt => "$gt"
  | .lt => "$lt"
  | .gte => "$gte"
  | .lte => "$lte"
  | .cont => "$cont"
  | .starts => "$starts"
  | .ends => "$ends"
  | .isIn => "$in"
  | .notIn => "$notin"
  | .isNull => "$isnull"
  | .notNull => "$notnull"
  | .between => "$between"

inductive JsonbOperator where
  | eq
  | ieq
  | ne
  | cont
  | starts
  | ends
  | isIn
  | isNull
  | notNull
  deriving DecidableEq

def FilterOperator.toJsonb : FilterOperator → Option JsonbOperator
  | .eq => some .eq
  | .ieq => some .ieq
  | .ne => some .ne
  | .cont => some .cont
  | .starts => some .starts
  | .ends => some .ends
  | .isIn => some .isIn
  | .isNull => some .isNull
  | .notNull => some .notNull
  | _ => none

def SearchOperator.toJsonb : SearchOperator → Option JsonbOperator
  | .ne => some .ne
  | .ieq => some .ieq
  | .cont => some .cont
  | .starts => some .starts
  | .ends => some .ends
  | .isIn => some .isIn
  | _ => none

inductive ComparisonDirection where
  | greater
  | less
  | equal

/-! ## The query and the library -/

/-- A parsed filter string. -/
structure Filter where
  field : String
  operator : FilterOperator
  value : String
  deriving DecidableEq

/-- The parameters of a request that the conditions are read from. -/
structure QueryParams where
  s : Option Json
  filter : Option Json
  or : Option Json
  exclude_ids : Option Json
  timezone : Option String

def isNullishLiteral (value : String) : Bool :=
  Js.lowerEq (Js.trim value) "null" || Js.lowerEq (Js.trim value) "undefined"

/-- The text of an instant: neither empty nor a null literal. -/
structure IsoText where
  text : String
  not_empty : text ≠ ""
  not_nullish : isNullishLiteral text = false

/-- `JSON.parse`, and what is used of `dayjs`. A method that throws returns `none`. -/
structure Library where
  jsonParse : String → Option Json
  isValid : String → Bool
  toISOString : String → Option IsoText
  tzToISOString : String → String → Option IsoText
  tzStartOfDay : String → String → Option IsoText
  tzEndOfDay : String → String → Option IsoText

variable (schema : Schema) (lib : Library) (timezone : String)

/-! ## Merging -/

def ensureFindOperator : Node Leaf → FindOperator
  | .obj _ => .equalObject
  -- An undefined parameter is bound as `NULL`.
  | .leaf .undefined => .equal .null
  | .leaf (.value v) => .equal v
  | .leaf (.operator op) => op

/-- How `deepMerge` and `setNestedValue` treat two values at one key. -/
def mergeRule : Rule Leaf where
  absent
    | .undefined => true
    | _ => false
  isObject
    | .operator _ => true
    | .value v => v.isPlainObject
    | .undefined => false
  collide target source :=
    .operator (.and [ensureFindOperator target, ensureFindOperator source])

def deepMerge (target source : WhereObject) : WhereObject := target.merge mergeRule source

def setNestedValue (where_ : WhereObject) (path : List String) (value : Leaf) : WhereObject :=
  where_.setPath mergeRule (.leaf value) path

def transformNullValue : Leaf → Leaf
  | .undefined => .operator .isNull
  | .value (.str text) =>
      if text = "" then .operator .isNull
      else if isNullishLiteral text then .operator .isNull
      else .value (.str text)
  | leaf => leaf

def transformNullValues (conditions : WhereObject) : WhereObject :=
  conditions.map transformNullValue

/-! ## Dates -/

/-- The pattern `^\d{4}-\d{2}-\d{2}$`. -/
def isDateOnly (value : String) : Bool :=
  match value.toList with
  | [y1, y2, y3, y4, h1, m1, m2, h2, d1, d2] =>
      [y1, y2, y3, y4, m1, m2, d1, d2].all Char.isDigit && h1 = '-' && h2 = '-'
  | _ => false

/-- A final `Z`, or the pattern `[+-]\d{2}:\d{2}$`. -/
def hasTimezone (value : String) : Bool :=
  match value.toList.reverse with
  | 'Z' :: _ => true
  | m2 :: m1 :: colon :: h2 :: h1 :: sign :: _ =>
      [m1, m2, h1, h2].all Char.isDigit && colon = ':' && (sign = '+' || sign = '-')
  | _ => false

def orRangeError : Option IsoText → Except QueryError String
  | some iso => pure iso.text
  | none => throw .rangeError

def expandDateOnlyValue (dateString : String) : ComparisonDirection → Except QueryError String
  | .greater => orRangeError (lib.tzStartOfDay dateString timezone)
  | .less => orRangeError (lib.tzEndOfDay dateString timezone)
  | .equal => orRangeError (lib.tzStartOfDay dateString timezone)

/-- The method `processDateValue` on a string. -/
def processDateText (value : String) (direction : ComparisonDirection) :
    Except QueryError String :=
  if Js.trim value = "" then pure value
  else if isDateOnly value then expandDateOnlyValue lib timezone value direction
  else if lib.isValid value then
    if hasTimezone value then orRangeError (lib.toISOString value)
    else orRangeError (lib.tzToISOString value timezone)
  else throw (.invalidParameter "date"
    ("Invalid date value: '" ++ value ++ "'. Expected an ISO date or datetime string."))

/-- A value that is not a string passes through. -/
def processDateValue (value : Json) (direction : ComparisonDirection) : Except QueryError Json :=
  match value with
  | .str text => do return .str (← processDateText lib timezone text direction)
  | v => pure v

def parseCommaSeparatedValues (value : String) : List String :=
  ((Js.split ',' value).map Js.trim).filter (· ≠ "")

/-! ## JSONB conditions -/

def buildJsonbRawCondition (jsonPath : List String) (operator : JsonbOperator) (value : String) :
    FindOperator :=
  if operator = .eq ∧ value = "" then .jsonb jsonPath .isNull
  else if operator = .ne ∧ value = "" then .jsonb jsonPath .isNotNull
  else
    match operator with
    | .eq => .jsonb jsonPath (.equal value)
    | .ieq => .jsonb jsonPath (.iLike value)
    | .ne => .jsonb jsonPath (.notEqual value)
    | .cont => .jsonb jsonPath (.iLike ("%" ++ value ++ "%"))
    | .starts => .jsonb jsonPath (.iLike (value ++ "%"))
    | .ends => .jsonb jsonPath (.iLike ("%" ++ value))
    | .isIn =>
        let values := parseCommaSeparatedValues value
        if values.length = 0 then .never else .jsonb jsonPath (.inList values)
    | .isNull => .jsonb jsonPath (if Js.lowerEq value "false" then .isNotNull else .isNull)
    | .notNull => .jsonb jsonPath (if Js.lowerEq value "false" then .isNull else .isNotNull)

def assertValidSearchOperator (operator : String) : Except QueryError SearchOperator :=
  match SearchOperator.all.find? fun op => op.text == operator with
  | some op => pure op
  | none => throw (.invalidParameter "s"
      ("Invalid search operator: '" ++ operator ++ "'. Allowed operators are: [" ++
        joinNames (SearchOperator.all.map SearchOperator.text) ++ "]"))

def mapSearchOperatorToJsonbOperator (operator : SearchOperator) :
    Except QueryError JsonbOperator :=
  match operator.toJsonb with
  | some mapped => pure mapped
  | none => throw (.invalidParameter "s"
      ("Search operator '" ++ operator.text ++ "' is not supported for JSONB fields. Supported: " ++
        "!=, ieq, cont, starts, ends, in."))

def mapFilterOperatorToJsonbOperator (operator : FilterOperator) (column : String) :
    Except QueryError JsonbOperator :=
  match operator.toJsonb with
  | some mapped => pure mapped
  | none => throw (.invalidParameter column
      ("Operator '" ++ operator.text ++
        "' is not supported for JSONB fields in this version. Supported: " ++
        "$eq, $ieq, $ne, $cont, $starts, $ends, $in, $isnull, $notnull."))

def jsonbSearchOperator (jsonPath : List String) (entry : String × Json) :
    Except QueryError FindOperator := do
  let operator ← assertValidSearchOperator entry.1
  let jsonbOperator ← mapSearchOperatorToJsonbOperator operator
  return buildJsonbRawCondition jsonPath jsonbOperator entry.2.toText

/-- One operator stands for itself, several for their conjunction. -/
def conjunction : List FindOperator → FindOperator
  | [operator] => operator
  | operators => .and operators

def buildJsonbSearchCondition (column : String) (jsonPath : List String) :
    Json → Except QueryError FindOperator
  | .obj operatorObj =>
      if operatorObj.length = 0 then throw (.invalidParameter "s"
        ("JSONB search condition for '" ++ column ++
          "' requires an operator object with at least one operator."))
      else do return conjunction (← operatorObj.mapM (jsonbSearchOperator jsonPath))
  | condition => pure (buildJsonbRawCondition jsonPath .eq condition.toText)

/-! ## Conditions of `s` -/

def mapSearchOperatorToDirection : SearchOperator → ComparisonDirection
  | .greater => .greater
  | .greaterEqual => .greater
  | .less => .less
  | .lessEqual => .less
  | _ => .equal

def isDateComparisonSearch (operator : SearchOperator) : Bool :=
  [.greater, .greaterEqual, .less, .lessEqual, .ne].contains operator

def processDateRangeValue (value : Json) : Except QueryError Json :=
  match value with
  | .arr [start, finish] => do
      let processedStart ← processDateValue lib timezone start .greater
      let processedEnd ← processDateValue lib timezone finish .less
      return .arr [processedStart, processedEnd]
  | v => pure v

def createBetweenOperator : Json → Except QueryError FindOperator
  | .arr [start, finish] => pure (.between start finish)
  | _ => throw (.invalidParameter "between"
      "Between operator requires an array with exactly 2 values: [start, end]")

/-- The members that `in` compares with: a value that is not an array is the only member. -/
def membersOf : Json → List Json
  | .arr items => items
  | v => [v]

def applySearchOperator (operator : SearchOperator) (value : Json) :
    Except QueryError FindOperator :=
  match operator with
  | .greater => pure (.compare .moreThan value)
  | .greaterEqual => pure (.compare .moreThanOrEqual value)
  | .less => pure (.compare .lessThan value)
  | .lessEqual => pure (.compare .lessThanOrEqual value)
  | .ne => pure (.not (.equal value))
  | .cont => pure (.iLike ("%" ++ value.toText ++ "%"))
  | .ieq => pure (.iLike value.toText)
  | .starts => pure (.iLike (value.toText ++ "%"))
  | .ends => pure (.iLike ("%" ++ value.toText))
  | .isIn => pure (.inList (membersOf value))
  | .between => createBetweenOperator value

/-- The value of an operator; on a date column the instant it names. -/
def searchOperand (isDateColumn : Bool) (operator : SearchOperator) (value : Json) :
    Except QueryError Json :=
  if isDateColumn then
    if operator = .between then processDateRangeValue lib timezone value
    else if isDateComparisonSearch operator then
      processDateValue lib timezone value (mapSearchOperatorToDirection operator)
    else pure value
  else pure value

def searchOperatorCondition (isDateColumn : Bool) (entry : String × Json) :
    Except QueryError FindOperator := do
  let operator ← assertValidSearchOperator entry.1
  let value ← searchOperand lib timezone isDateColumn operator entry.2
  applySearchOperator operator value

def processOperatorCondition (operatorObj : List (String × Json)) (isDateColumn : Bool) :
    Except QueryError Leaf :=
  if operatorObj.length = 0 then pure .undefined
  else do
    let conditions ← operatorObj.mapM (searchOperatorCondition lib timezone isDateColumn)
    return .operator (conjunction conditions)

def buildConditionValue (condition : Json) (isDateColumn : Bool) : Except QueryError Leaf :=
  match condition with
  | .obj operatorObj => processOperatorCondition lib timezone operatorObj isDateColumn
  | condition =>
      if isDateColumn then do return .value (← processDateValue lib timezone condition .equal)
      else pure (.value condition)

/-- The body of the loop of `buildSearchWhereClause`. -/
def addSearchCondition (where_ : WhereObject) (entry : String × Json) :
    Except QueryError WhereObject :=
  let (key, condition) := entry
  if isJsonbPath schema key then
    match extractJsonbColumnAndPath schema key with
    | some (column, jsonPath) => do
        let conditionValue ← buildJsonbSearchCondition column jsonPath condition
        return deepMerge where_ (.cons column (.leaf (.operator conditionValue)) .nil)
    | none => pure where_
  else do
    let isDateColumn := isDateColumnRecursive schema key
    let conditionValue ← buildConditionValue lib timezone condition isDateColumn
    if key.toList.contains '.' then return setNestedValue where_ (parts key) conditionValue
    else return where_.set key (.leaf conditionValue)

def buildSearchWhereClause (conditions : List (String × Json)) :
    Except QueryError WhereObject := do
  validateFieldNamesRecursive schema (conditions.map Prod.fst)
  conditions.foldlM (addSearchCondition schema lib timezone) .nil

def isDangerousKey (key : String) : Bool :=
  ["__proto__", "constructor", "prototype"].contains key

mutual

def stripValue : Json → Json
  | .obj entries => .obj (stripEntries [] entries)
  | v => v

/-- The loop of `stripDangerousKeys`. Assigning keeps the last value of a repeated key, as
parsing the object does. -/
def stripEntries (sanitized : List (String × Json)) :
    List (String × Json) → List (String × Json)
  | [] => sanitized
  | (key, value) :: rest =>
      if isDangerousKey key then stripEntries sanitized rest
      else stripEntries (Json.assign sanitized key (stripValue value)) rest

end

def stripDangerousKeys (obj : Json) : Except QueryError (List (String × Json)) :=
  match obj.entries with
  | some entries => pure (stripEntries [] entries)
  | none => throw .typeError

def parseSearchConditions (searchParam : Json) : Except QueryError (List (String × Json)) :=
  match searchParam with
  | .str text =>
      match lib.jsonParse text with
      | some parsed => stripDangerousKeys parsed
      | none => throw .syntaxError
  | v => stripDangerousKeys v

def searchConditionsOf (s : Option Json) : Except QueryError (List (String × Json)) :=
  match s with
  | none => pure []
  | some .null => pure []
  | some (.bool _) => pure []
  | some (.num _) => pure []
  | some searchParam => parseSearchConditions lib searchParam

/-- Every error but an invalid parameter is reported as a format error of `s`. -/
def asSearchError : QueryError → QueryError
  | .invalidParameter field message => .invalidParameter field message
  | _ => .invalidParameter "s" "Invalid search parameter format. Must be a valid JSON string."

def parseSearchParameter (s : Option Json) : Except QueryError WhereObject :=
  match searchConditionsOf lib s >>= buildSearchWhereClause schema lib timezone with
  | .ok where_ => .ok where_
  | .error error => .error (asSearchError error)

/-! ## Conditions of `filter` and `or` -/

/-- The strings of a parameter that is a string or an array; blank ones are left out. -/
def normalizeFilterInput : Option Json → List String
  | some (.str text) => if Js.trim text ≠ "" then [text] else []
  | some (.arr items) => items.filterMap fun
      | .str text => if Js.trim text ≠ "" then some text else none
      | _ => none
  | _ => []

def normalizeOrInput : Option Json → List String := normalizeFilterInput

/-- One string of the loop of `parseFilterStrings`. -/
def parseFilterString (filter : String) : Except QueryError (Option Filter) :=
  match Js.splitPair '|' '|' filter with
  | field :: operator :: part :: rest =>
      let value := String.intercalate "||" (part :: rest)
      let trimmedField := Js.trim field
      let trimmedOperator := Js.trim operator
      if trimmedField = "" ∨ trimmedOperator = "" then pure none
      else
        match FilterOperator.all.find? fun op => op.text == trimmedOperator with
        | some op => pure (some ⟨trimmedField, op, value⟩)
        | none => throw (.invalidParameter trimmedField
            ("Invalid filter operator: '" ++ trimmedOperator ++ "'. Allowed operators are: [" ++
              joinNames (FilterOperator.all.map FilterOperator.text) ++ "]"))
  | _ => pure none

def parseFilterStrings (filters : List String) : Except QueryError (List Filter) := do
  return (← filters.mapM parseFilterString).filterMap id

def isEnumComparisonFilter (operator : FilterOperator) : Bool :=
  [.eq, .ne, .isIn, .notIn].contains operator

def validateEnumValueForFilter (filter : Filter) : Except QueryError Unit :=
  if !isEnumComparisonFilter filter.operator then pure ()
  else
    match getEnumValuesRecursive schema filter.field with
    | none => pure ()
    | some allowedValues =>
        let candidates :=
          if filter.operator = .isIn ∨ filter.operator = .notIn then
            parseCommaSeparatedValues filter.value
          else [filter.value]
        candidates.forM fun candidate =>
          if candidate = "" ∨ isNullishLiteral candidate ∨ candidate ∈ allowedValues then pure ()
          else throw (.invalidParameter filter.field
            ("Invalid value '" ++ candidate ++ "' for enum field '" ++ filter.field ++
              "'. Allowed values are: [" ++ joinNames allowedValues ++ "]"))

def mapFilterOperatorToDirection : FilterOperator → ComparisonDirection
  | .gt => .greater
  | .gte => .greater
  | .lt => .less
  | .lte => .less
  | _ => .equal

def isDateComparisonFilter (operator : FilterOperator) : Bool :=
  [.eq, .ne, .gt, .lt, .gte, .lte].contains operator

def processDateRangeString (value : String) : Except QueryError String :=
  match (Js.split ',' value).map Js.trim with
  | [start, finish] => do
      let startStr ← processDateText lib timezone start .greater
      let endStr ← processDateText lib timezone finish .less
      return startStr ++ "," ++ endStr
  | _ => pure value

def processDateValueForFilter (value : String) (operator : FilterOperator) :
    Except QueryError String :=
  if operator = .between then processDateRangeString lib timezone value
  else if !isDateComparisonFilter operator then pure value
  else processDateText lib timezone value (mapFilterOperatorToDirection operator)

def createBetweenFromString (value : String) : Except QueryError FindOperator :=
  match parseCommaSeparatedValues value with
  | [start, finish] => pure (.between (.str start) (.str finish))
  | _ => throw (.invalidParameter "$between"
      "Between operator requires exactly 2 comma-separated values: start,end")

def applyFilterOperator (operator : FilterOperator) (value : String) : Except QueryError Leaf :=
  match operator with
  | .eq => pure (if isNullishLiteral value then .operator .isNull else .value (.str value))
  | .ieq => pure (.operator (.iLike value))
  | .ne => pure (.operator
      (if isNullishLiteral value then .not .isNull else .not (.equal (.str value))))
  | .gt => pure (.operator (.compare .moreThan (.str value)))
  | .lt => pure (.operator (.compare .lessThan (.str value)))
  | .gte => pure (.operator (.compare .moreThanOrEqual (.str value)))
  | .lte => pure (.operator (.compare .lessThanOrEqual (.str value)))
  | .cont => pure (.operator (.iLike ("%" ++ value ++ "%")))
  | .starts => pure (.operator (.iLike (value ++ "%")))
  | .ends => pure (.operator (.iLike ("%" ++ value)))
  | .isIn => pure (.operator (.inList ((parseCommaSeparatedValues value).map .str)))
  | .notIn => pure (.operator (.not (.inList ((parseCommaSeparatedValues value).map .str))))
  | .isNull => pure (.operator (if Js.lowerEq value "false" then .not .isNull else .isNull))
  | .notNull => pure (.operator (if Js.lowerEq value "false" then .isNull else .not .isNull))
  | .between => do return .operator (← createBetweenFromString value)

/-- The value of a filter; on a date column the instant it names. -/
def filterOperand (filter : Filter) : Except QueryError String :=
  if isDateColumnRecursive schema filter.field then
    processDateValueForFilter lib timezone filter.value filter.operator
  else pure filter.value

/-- The object with the condition of one filter string, empty for a bare JSONB column. -/
def singleCondition (filter : Filter) : Except QueryError WhereObject :=
  if isJsonbPath schema filter.field then
    match extractJsonbColumnAndPath schema filter.field with
    | some (column, jsonPath) => do
        let jsonbOperator ← mapFilterOperatorToJsonbOperator filter.operator column
        return .cons column
          (.leaf (.operator (buildJsonbRawCondition jsonPath jsonbOperator filter.value))) .nil
    | none => pure .nil
  else do
    validateEnumValueForFilter schema filter
    let processedValue ← filterOperand schema lib timezone filter
    let operatorValue ← applyFilterOperator filter.operator processedValue
    if filter.field.toList.contains '.' then
      return setNestedValue .nil (parts filter.field) operatorValue
    else return Fields.nil.set filter.field (.leaf operatorValue)

/-- Merging the empty object of a bare JSONB column changes nothing. -/
def buildFilterWhereClause (filters : List Filter) : Except QueryError WhereObject :=
  filters.foldlM
    (fun where_ filter => do return deepMerge where_ (← singleCondition schema lib timezone filter))
    .nil

def buildOrWhereClause (filters : List Filter) : Except QueryError (List WhereObject) :=
  filters.mapM fun filter => do
    return transformNullValues (← singleCondition schema lib timezone filter)

def parseFilterParameter (filter : Option Json) : Except QueryError WhereObject := do
  let filters := normalizeFilterInput filter
  if filters.length = 0 then return .nil
  let parsedFilters ← parseFilterStrings filters
  validateFieldNamesRecursive schema (parsedFilters.map Filter.field)
  buildFilterWhereClause schema lib timezone parsedFilters

def parseOrParameter (or : Option Json) : Except QueryError (List WhereObject) := do
  let orFilters := normalizeOrInput or
  if orFilters.length = 0 then return []
  let parsedFilters ← parseFilterStrings orFilters
  if parsedFilters.length = 0 then return []
  validateFieldNamesRecursive schema (parsedFilters.map Filter.field)
  buildOrWhereClause schema lib timezone parsedFilters

/-! ## The where value -/

def combineAndOrConditions (andConditions : WhereObject) (orConditions : List WhereObject) :
    Where :=
  let hasAndConditions := andConditions.keys.length > 0
  let hasOrConditions := orConditions.length > 0
  if ¬ hasAndConditions ∧ ¬ hasOrConditions then .one .nil
  else if ¬ hasOrConditions then .one andConditions
  else if ¬ hasAndConditions then .any orConditions
  else .any (orConditions.map fun orCondition => deepMerge andConditions orCondition)

def QueryParams.timezoneOrDefault (query : QueryParams) : String :=
  query.timezone.getD "Asia/Bangkok"

def applyFilters (query : QueryParams) : Except QueryError Where := do
  let timezone := query.timezoneOrDefault
  let searchConditions ← parseSearchParameter schema lib timezone query.s
  let filterConditions ← parseFilterParameter schema lib timezone query.filter
  let orConditions ← parseOrParameter schema lib timezone query.or
  let andConditions := deepMerge searchConditions filterConditions
  return combineAndOrConditions (transformNullValues andConditions) orConditions

/-! ## Exclusions -/

/-- The ids of `exclude_ids`, none if the parameter is left out or lists nothing. -/
def excludeIdsOf : Option Json → List String
  | some (.str text) => ((Js.split ',' text).map Js.trim).filter (· ≠ "")
  | some (.arr items) => items.filterMap fun
      | .str text => if text ≠ "" then some text else none
      | _ => none
  | _ => []

def applyExclusions (exclude_ids : Option Json) (where_ : Where) : Where :=
  let excludeIds := excludeIdsOf exclude_ids
  if excludeIds.length = 0 then where_
  else
    match schema.root.primaryColumns with
    | [] => where_
    | pkName :: _ =>
        let exclusionCondition : WhereObject :=
          .cons pkName (.leaf (.operator (.not (.inList (excludeIds.map .str))))) .nil
        match where_ with
        | .any alternatives => .any (alternatives.map fun cond => deepMerge cond exclusionCondition)
        | .one cond => .one (deepMerge cond exclusionCondition)

end ErpApi.Query
