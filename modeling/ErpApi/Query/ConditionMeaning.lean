import ErpApi.Basic.ShortCircuit
import ErpApi.Query.TypeOrmQueryBuilder

set_option autoImplicit false

/-! # What a condition says

The meaning of a single condition, stated on the value of its column and without the where
value it is turned into. Under equality an empty text, an empty operator object and the null
literals ask for `NULL`. Each operator that the builder applies has that meaning
(`applySearchOperator_meaning`, `applyFilterOperator_meaning`, `buildJsonbRawCondition_meaning`),
and so has the leaf of a whole condition, after the normalisation of its nulls and unless the condition
is one of the few that `Condition.Clean` rules out (`Condition.holds_leaf`).
-/

namespace ErpApi.Query

open ErpApi.ObjectTree

/-- A value that asks for `NULL` under equality. -/
def isEmptyValue : Json → Bool
  | .null => true
  | .str text => text = "" || isNullishLiteral text
  | _ => false

section Says

variable {V : Type} (sql : Sql V)

/-! ## Operators on a column -/

def EqualitySays (value : Json) (x : Option V) : Prop :=
  if isEmptyValue value then x = none else equalTo sql x value = some true

/-- The stored value passes the test; `NULL` passes none. -/
def Stored (x : Option V) (test : V → Truth) : Prop := ∃ v, x = some v ∧ test v = some true

theorem stored_iff {x : Option V} {test : V → Truth} :
    Stored x test ↔ x.bind test = some true := by
  cases x <;> simp [Stored]

def SearchOperator.Says (value : Json) (x : Option V) : SearchOperator → Prop
  | .greater => Stored x (sql.compare .moreThan · value)
  | .greaterEqual => Stored x (sql.compare .moreThanOrEqual · value)
  | .less => Stored x (sql.compare .lessThan · value)
  | .lessEqual => Stored x (sql.compare .lessThanOrEqual · value)
  | .ne => equalTo sql x value = some false
  | .ieq => Stored x (sql.iLike · value.toText)
  | .cont => Stored x (sql.iLike · ("%" ++ value.toText ++ "%"))
  | .starts => Stored x (sql.iLike · (value.toText ++ "%"))
  | .ends => Stored x (sql.iLike · ("%" ++ value.toText))
  | .isIn => ∃ member ∈ membersOf value, equalTo sql x member = some true
  | .between => ∃ low high, value = .arr [low, high] ∧
      Stored x (sql.compare .moreThanOrEqual · low) ∧
      Stored x (sql.compare .lessThanOrEqual · high)

def FilterOperator.Says (value : String) (x : Option V) : FilterOperator → Prop
  | .eq => EqualitySays sql (.str value) x
  | .ieq => Stored x (sql.iLike · value)
  | .ne => if isNullishLiteral value then x ≠ none else equalTo sql x (.str value) = some false
  | .gt => Stored x (sql.compare .moreThan · (.str value))
  | .lt => Stored x (sql.compare .lessThan · (.str value))
  | .gte => Stored x (sql.compare .moreThanOrEqual · (.str value))
  | .lte => Stored x (sql.compare .lessThanOrEqual · (.str value))
  | .cont => Stored x (sql.iLike · ("%" ++ value ++ "%"))
  | .starts => Stored x (sql.iLike · (value ++ "%"))
  | .ends => Stored x (sql.iLike · ("%" ++ value))
  | .isIn => ∃ member ∈ parseCommaSeparatedValues value, equalTo sql x (.str member) = some true
  | .notIn => ∀ member ∈ parseCommaSeparatedValues value,
      equalTo sql x (.str member) = some false
  | .isNull => if Js.lowerEq value "false" then x ≠ none else x = none
  | .notNull => if Js.lowerEq value "false" then x = none else x ≠ none
  | .between => ∃ low high, parseCommaSeparatedValues value = [low, high] ∧
      Stored x (sql.compare .moreThanOrEqual · (.str low)) ∧
      Stored x (sql.compare .lessThanOrEqual · (.str high))

/-! ## Operators on the text at a JSON path -/

def JsonbOperator.Says (value : String) (text : Option String) : JsonbOperator → Prop
  | .eq => if value = "" || isNullishLiteral value then text = none else text = some value
  | .ieq => ∃ t, text = some t ∧ sql.textILike t value
  | .ne => if value = "" then text ≠ none else ∃ t, text = some t ∧ t ≠ value
  | .cont => ∃ t, text = some t ∧ sql.textILike t ("%" ++ value ++ "%")
  | .starts => ∃ t, text = some t ∧ sql.textILike t (value ++ "%")
  | .ends => ∃ t, text = some t ∧ sql.textILike t ("%" ++ value)
  | .isIn => ∃ member ∈ parseCommaSeparatedValues value, text = some member
  | .isNull => if Js.lowerEq value "false" then text ≠ none else text = none
  | .notNull => if Js.lowerEq value "false" then text = none else text ≠ none

/-- The texts that `in` compares the text at a JSON path with. -/
def memberTexts (value : Json) : List String :=
  ((membersOf value).filter fun member => !member.isNull).map Json.toText

/-- An operator of `s` on a JSON path: `in` compares with the members of the list. -/
def SearchOperator.SaysOfText (value : Json) (text : Option String) (operator : SearchOperator) :
    Prop :=
  if operator = .isIn then ∃ member ∈ memberTexts value, text = some member
  else ∃ jsonbOperator, operator.toJsonb = some jsonbOperator ∧
    jsonbOperator.Says sql value.toText text

end Says

/-! ## Conditions -/

/-- A condition of `s`, or one of `filter` or `or`. -/
inductive Condition where
  | search (key : String) (condition : Json)
  | filter (f : Filter)

def Condition.field : Condition → String
  | .search key _ => key
  | .filter f => f.field

variable (schema : Schema) (lib : Library) (timezone : String)

/-- The column and the path of a field inside a JSONB column. -/
def jsonbTarget (fieldPath : String) : Option (String × List String) :=
  if isJsonbPath schema fieldPath then extractJsonbColumnAndPath schema fieldPath else none

/-- The place of a condition in a where object. -/
def wherePath (fieldPath : String) : List String :=
  match jsonbTarget schema fieldPath with
  | some (column, _) => [column]
  | none => parts fieldPath

section Holds

variable {V : Type} (sql : Sql V) (row : Row V)

/-- What a condition of `s` says of a column; on a date column its values are instants. -/
def SearchSays (isDateColumn : Bool) (x : Option V) : Json → Prop
  | .obj [] => x = none
  | .obj entries => ∀ entry ∈ entries, ∃ operator value,
      assertValidSearchOperator entry.1 = .ok operator ∧
      searchOperand lib timezone isDateColumn operator entry.2 = .ok value ∧
      operator.Says sql value x
  | condition => ∃ value,
      (if isDateColumn then processDateValue lib timezone condition .equal
        else pure condition) = .ok value ∧
      EqualitySays sql value x

def SearchSaysOfText (text : Option String) : Json → Prop
  | .obj entries => ∀ entry ∈ entries, ∃ operator,
      assertValidSearchOperator entry.1 = .ok operator ∧ operator.SaysOfText sql entry.2 text
  | condition => JsonbOperator.Says sql condition.toText text .eq

/-- **The meaning of a condition** on a row. -/
def Condition.Holds (c : Condition) : Prop :=
  match jsonbTarget schema c.field with
  | some (column, jsonPath) =>
      let text := (row [column]).bind (sql.textAt · jsonPath)
      match c with
      | .search _ condition => SearchSaysOfText sql text condition
      | .filter f => ∃ operator, f.operator.toJsonb = some operator ∧
          operator.Says sql f.value text
  | none =>
      let x := row (parts c.field)
      match c with
      | .search key condition =>
          SearchSays lib timezone sql (isDateColumnRecursive schema key) x condition
      | .filter f => ∃ value, filterOperand schema lib timezone f = .ok value ∧
          f.operator.Says sql value x

end Holds

/-! ## Conditions that keep their meaning alone -/

/-- A list of `in` whose text, split at its commas, gives the members back. -/
def inListKept (value : Json) : Prop :=
  parseCommaSeparatedValues value.toText = memberTexts value

def TextClean : Json → Prop
  | .obj entries => ∀ entry ∈ entries, entry.1 = SearchOperator.isIn.text → inListKept entry.2
  | condition => isNullishLiteral condition.toText = false

/-- No bare JSONB column, no JSON `null`, no null literal compared with a JSON path, and no
list of `in` on a JSON path that the commas in it break up. -/
def Condition.Clean (c : Condition) : Prop :=
  match jsonbTarget schema c.field with
  | some _ =>
      match c with
      | .search _ condition => TextClean condition
      | .filter f => f.operator = .eq → isNullishLiteral f.value = false
  | none => isJsonbPath schema c.field = false ∧
      match c with
      | .search _ condition => condition.isNull = false
      | .filter _ => True

/-! ## The operators mean what they say -/

section Meaning

variable {V : Type} {sql : Sql V}

theorem applySearchOperator_meaning {operator : SearchOperator} {value : Json} {op : FindOperator}
    {x : Option V} (h : applySearchOperator operator value = .ok op) :
    op.eval sql x = some true ↔ operator.Says sql value x := by
  cases operator with
  | between =>
      rw [applySearchOperator, createBetweenOperator.eq_def] at h
      split at h
      · cases h
        rename_i low high
        simp only [FindOperator.eval, Truth.and_eq_true, SearchOperator.Says, stored_iff]
        constructor
        · intro hx
          exact ⟨low, high, rfl, hx⟩
        · rintro ⟨_, _, heq, hx⟩
          cases heq
          exact hx
      · cases h
  | ne =>
      cases h
      simp only [FindOperator.eval, Truth.not_eq_true, SearchOperator.Says]
  | isIn =>
      cases h
      simp only [FindOperator.eval, inListOf_eq_true, SearchOperator.Says]
  | _ =>
      cases h
      simp only [FindOperator.eval, SearchOperator.Says, stored_iff]

/-- A raw value that is not `null` is compared by equality, once its nulls are normalised. -/
theorem equality_meaning {value : Json} {x : Option V} (hnull : value.isNull = false) :
    (transformNullValue (.value value)).holds sql x = true ↔ EqualitySays sql value x := by
  cases value with
  | null => cases hnull
  | str text =>
      by_cases hempty : text = "" || isNullishLiteral text
      · have hleaf : transformNullValue (.value (.str text)) = .operator .isNull := by
          rcases Bool.or_eq_true _ _ ▸ hempty with h | h
          · simp [transformNullValue, of_decide_eq_true h]
          · simp [transformNullValue, h]
        simp [hleaf, Leaf.holds, FindOperator.eval, EqualitySays, isEmptyValue, hempty]
      · obtain ⟨hne, hlit⟩ : ¬ text = "" ∧ ¬ isNullishLiteral text = true := by
          simpa [not_or] using hempty
        simp [transformNullValue, hne, hlit, Leaf.holds, FindOperator.eval, EqualitySays,
          isEmptyValue]
  | _ => simp [transformNullValue, Leaf.holds, FindOperator.eval, EqualitySays, isEmptyValue]

theorem isNull_eval {x : Option V} : FindOperator.isNull.eval sql x = some true ↔ x = none := by
  simp [FindOperator.eval]

theorem not_isNull_eval {x : Option V} :
    (FindOperator.not .isNull).eval sql x = some true ↔ x ≠ none := by
  rw [FindOperator.eval, Truth.not_eq_true, FindOperator.eval]
  cases x <;> simp

theorem holds_operator {op : FindOperator} {x : Option V} :
    (transformNullValue (.operator op)).holds sql x = true ↔ op.eval sql x = some true := by
  simp [transformNullValue, Leaf.holds]

theorem applyFilterOperator_meaning {operator : FilterOperator} {value : String} {leaf : Leaf}
    {x : Option V} (h : applyFilterOperator operator value = .ok leaf) :
    (transformNullValue leaf).holds sql x = true ↔ operator.Says sql value x := by
  cases operator with
  | eq =>
      obtain rfl := Except.ok.inj h
      by_cases hlit : isNullishLiteral value = true
      · simp only [hlit, if_true, holds_operator, isNull_eval, FilterOperator.Says, EqualitySays,
          isEmptyValue, Bool.or_true]
      · rw [FilterOperator.Says, if_neg hlit]
        exact equality_meaning rfl
  | ne =>
      obtain rfl := Except.ok.inj h
      by_cases hlit : isNullishLiteral value = true
      · simp only [hlit, if_true, holds_operator, not_isNull_eval, FilterOperator.Says]
      · rw [FilterOperator.Says, if_neg hlit, if_neg hlit, holds_operator, FindOperator.eval,
          Truth.not_eq_true, FindOperator.eval]
  | isIn =>
      cases h
      rw [holds_operator, FindOperator.eval, inListOf_eq_true]
      simp [FilterOperator.Says]
  | notIn =>
      cases h
      rw [holds_operator, FindOperator.eval, Truth.not_eq_true, FindOperator.eval,
        inListOf_eq_false]
      simp [FilterOperator.Says]
  | isNull =>
      obtain rfl := Except.ok.inj h
      rw [holds_operator, FilterOperator.Says]
      split
      · exact not_isNull_eval
      · exact isNull_eval
  | notNull =>
      obtain rfl := Except.ok.inj h
      rw [holds_operator, FilterOperator.Says]
      split
      · exact isNull_eval
      · exact not_isNull_eval
  | between =>
      obtain ⟨op, hop, hleaf⟩ := bind_eq_ok.mp h
      cases hleaf
      rw [holds_operator]
      rw [createBetweenFromString.eq_def] at hop
      split at hop
      · cases hop
        rename_i low high heq
        simp only [FindOperator.eval, Truth.and_eq_true, FilterOperator.Says, stored_iff]
        constructor
        · intro hx
          exact ⟨low, high, heq, hx⟩
        · rintro ⟨_, _, heq', hx⟩
          rw [heq] at heq'
          cases heq'
          exact hx
      · cases hop
  | _ =>
      cases h
      simp only [holds_operator, FindOperator.eval, FilterOperator.Says, stored_iff]

/-- A condition on a JSON path means what its operator says, unless it is an equality with a
null literal. -/
theorem buildJsonbRawCondition_meaning {jsonPath : List String} {operator : JsonbOperator}
    {value : String} {x : Option V} (hclean : operator = .eq → isNullishLiteral value = false) :
    (buildJsonbRawCondition jsonPath operator value).eval sql x = some true ↔
      operator.Says sql value (x.bind (sql.textAt · jsonPath)) := by
  generalize htext : x.bind (sql.textAt · jsonPath) = text
  cases operator with
  | eq =>
      have hlit := hclean rfl
      by_cases hempty : value = ""
      · simp [buildJsonbRawCondition, hempty, FindOperator.eval, JsonbTest.eval, htext,
          JsonbOperator.Says]
      · simp [buildJsonbRawCondition, hempty, FindOperator.eval, JsonbTest.eval, htext,
          JsonbOperator.Says, hlit]
  | ne =>
      by_cases hempty : value = ""
      · simp [buildJsonbRawCondition, hempty, FindOperator.eval, JsonbTest.eval, htext,
          JsonbOperator.Says, Option.isSome_iff_ne_none]
      · simp [buildJsonbRawCondition, hempty, FindOperator.eval, JsonbTest.eval, htext,
          JsonbOperator.Says]
  | isIn =>
      by_cases hnil : parseCommaSeparatedValues value = []
      · simp [buildJsonbRawCondition, hnil, FindOperator.eval, JsonbOperator.Says]
      · have hlen : (parseCommaSeparatedValues value).length ≠ 0 := by simpa using hnil
        cases text with
        | none => simp [buildJsonbRawCondition, hnil, FindOperator.eval, JsonbTest.eval, htext,
            JsonbOperator.Says]
        | some t => simp [buildJsonbRawCondition, hnil, FindOperator.eval, JsonbTest.eval, htext,
            JsonbOperator.Says]
  | isNull =>
      by_cases hfalse : Js.lowerEq value "false" = true <;>
        simp [buildJsonbRawCondition, hfalse, FindOperator.eval, JsonbTest.eval, htext,
          JsonbOperator.Says, Option.isSome_iff_ne_none]
  | notNull =>
      by_cases hfalse : Js.lowerEq value "false" = true <;>
        simp [buildJsonbRawCondition, hfalse, FindOperator.eval, JsonbTest.eval, htext,
          JsonbOperator.Says, Option.isSome_iff_ne_none]
  | _ =>
      simp [buildJsonbRawCondition, FindOperator.eval, JsonbTest.eval, htext, JsonbOperator.Says]

theorem conjunction_eval {operators : List FindOperator} {x : Option V} :
    (conjunction operators).eval sql x = some true ↔
      ∀ op ∈ operators, op.eval sql x = some true := by
  match operators with
  | [op] => simp [conjunction]
  | [] => exact FindOperator.eval_and
  | _ :: _ :: _ => exact FindOperator.eval_and

end Meaning

/-! ## The leaf of a condition -/

/-- The leaf that the builder makes of a condition. -/
def Condition.leaf (c : Condition) : Except QueryError Leaf :=
  match jsonbTarget schema c.field with
  | some (column, jsonPath) =>
      match c with
      | .search _ condition => do
          return .operator (← buildJsonbSearchCondition column jsonPath condition)
      | .filter f => do
          let jsonbOperator ← mapFilterOperatorToJsonbOperator f.operator column
          return .operator (buildJsonbRawCondition jsonPath jsonbOperator f.value)
  | none =>
      match c with
      | .search key condition =>
          buildConditionValue lib timezone condition (isDateColumnRecursive schema key)
      | .filter f => do
          validateEnumValueForFilter schema f
          let processedValue ← filterOperand schema lib timezone f
          applyFilterOperator f.operator processedValue

/-- An equality that the builder normalises only after it has merged the conditions: with an
empty text, a null literal in `s`, or an empty operator object. -/
def Condition.isEmptyEquality (c : Condition) : Bool :=
  match jsonbTarget schema c.field with
  | some _ => false
  | none =>
      match c with
      | .search _ (.obj entries) => entries.isEmpty
      | .search _ condition => isEmptyValue condition
      | .filter f => f.operator = .eq && f.value = ""

/-- A leaf that the normalisation leaves alone. -/
def Leaf.isSettled : Leaf → Bool
  | .undefined => false
  | .value v => !isEmptyValue v
  | .operator _ => true

def Leaf.isNull : Leaf → Bool
  | .value v => v.isNull
  | _ => false

theorem transformNullValue_of_isSettled {leaf : Leaf} (h : leaf.isSettled = true) :
    transformNullValue leaf = leaf := by
  cases leaf with
  | undefined => cases h
  | operator op => rfl
  | value v =>
      cases v with
      | str text =>
          obtain ⟨hne, hlit⟩ : ¬ text = "" ∧ ¬ isNullishLiteral text = true := by
            simpa [Leaf.isSettled, isEmptyValue] using h
          simp [transformNullValue, hne, hlit]
      | _ => rfl

theorem isNull_of_isSettled {leaf : Leaf} (h : leaf.isSettled = true) : leaf.isNull = false := by
  cases leaf with
  | value v =>
      cases v with
      | null => cases h
      | _ => rfl
  | _ => rfl

theorem isSettled_transformNullValue {leaf : Leaf} (h : leaf.isNull = false) :
    (transformNullValue leaf).isSettled = true := by
  cases leaf with
  | undefined => rfl
  | operator op => rfl
  | value v =>
      cases v with
      | null => cases h
      | str text =>
          by_cases hne : text = ""
          · simp [transformNullValue, hne, Leaf.isSettled]
          · by_cases hlit : isNullishLiteral text = true
            · simp [transformNullValue, hlit, Leaf.isSettled]
            · simp [transformNullValue, hne, hlit, Leaf.isSettled, isEmptyValue]
      | _ => rfl

/-! ## Dates keep a value from being empty -/

section Dates

variable {lib timezone}

theorem isEmptyValue_of_orRangeError {iso : Option IsoText} {text : String}
    (h : orRangeError iso = .ok text) : isEmptyValue (.str text) = false := by
  cases iso with
  | none => cases h
  | some iso =>
      obtain rfl := Except.ok.inj h
      simp [isEmptyValue, iso.not_empty, iso.not_nullish]

/-- A date text becomes an instant, unless it is blank and passes through. -/
theorem processDateText_ok {value text : String} {direction : ComparisonDirection}
    (h : processDateText lib timezone value direction = .ok text) :
    text = value ∨ isEmptyValue (.str text) = false := by
  rw [processDateText] at h
  split at h
  · exact .inl (Except.ok.inj h).symm
  · right
    split at h
    · cases direction <;> exact isEmptyValue_of_orRangeError h
    · split at h
      · split at h <;> exact isEmptyValue_of_orRangeError h
      · cases h

theorem processDateValue_ok {value processed : Json} {direction : ComparisonDirection}
    (h : processDateValue lib timezone value direction = .ok processed) :
    processed = value ∨ isEmptyValue processed = false := by
  cases value with
  | str text =>
      obtain ⟨text', htext, hproc⟩ := bind_eq_ok.mp h
      obtain rfl := Except.ok.inj hproc
      rcases processDateText_ok htext with rfl | hempty
      · exact .inl rfl
      · exact .inr hempty
  | _ => exact .inl (Except.ok.inj h).symm

theorem processDateValueForFilter_eq (value : String) :
    processDateValueForFilter lib timezone value .eq =
      processDateText lib timezone value .equal := by
  simp [processDateValueForFilter, isDateComparisonFilter, mapFilterOperatorToDirection]

theorem isNull_le_isEmptyValue {value : Json} (h : isEmptyValue value = false) :
    value.isNull = false := by
  cases value with
  | null => cases h
  | _ => rfl

end Dates

theorem applyFilterOperator_isSettled {operator : FilterOperator} {value : String} {leaf : Leaf}
    (h : applyFilterOperator operator value = .ok leaf) (hne : operator = .eq → value ≠ "") :
    leaf.isSettled = true := by
  cases operator with
  | eq =>
      obtain rfl := Except.ok.inj h
      by_cases hlit : isNullishLiteral value = true
      · rw [if_pos hlit]
        rfl
      · rw [if_neg hlit]
        simp [Leaf.isSettled, isEmptyValue, hne rfl, hlit]
  | between =>
      obtain ⟨op, -, hleaf⟩ := bind_eq_ok.mp h
      obtain rfl := Except.ok.inj hleaf
      rfl
  | _ =>
      obtain rfl := Except.ok.inj h
      rfl

theorem applyFilterOperator_isNull {operator : FilterOperator} {value : String} {leaf : Leaf}
    (h : applyFilterOperator operator value = .ok leaf) : leaf.isNull = false := by
  by_cases hne : operator = .eq ∧ value = ""
  · obtain ⟨rfl, rfl⟩ := hne
    obtain rfl := Except.ok.inj h
    rfl
  · have hsettled := applyFilterOperator_isSettled h (fun heq hval => hne ⟨heq, hval⟩)
    exact isNull_of_isSettled hsettled

theorem processOperatorCondition_isSettled {entries : List (String × Json)} {isDateColumn : Bool}
    {leaf : Leaf} (h : processOperatorCondition lib timezone entries isDateColumn = .ok leaf) :
    entries = [] ∧ leaf = .undefined ∨ leaf.isSettled = true ∧ leaf.isNull = false := by
  rw [processOperatorCondition] at h
  split at h
  · rename_i hlen
    exact .inl ⟨List.length_eq_zero_iff.mp hlen, (Except.ok.inj h).symm⟩
  · obtain ⟨conditions, -, hleaf⟩ := bind_eq_ok.mp h
    obtain rfl := Except.ok.inj hleaf
    exact .inr ⟨rfl, rfl⟩

/-- The value that a condition of `s` on a plain column compares with. -/
theorem buildConditionValue_ok {condition : Json} {isDateColumn : Bool} {leaf : Leaf}
    (hobj : condition.isPlainObject = false)
    (h : buildConditionValue lib timezone condition isDateColumn = .ok leaf) :
    ∃ value, leaf = .value value ∧
      (if isDateColumn then processDateValue lib timezone condition .equal
        else pure condition) = .ok value := by
  rw [buildConditionValue.eq_def] at h
  split at h
  · cases hobj
  · by_cases hdate : isDateColumn = true
    · rw [if_pos hdate] at h ⊢
      obtain ⟨value, hvalue, hleaf⟩ := bind_eq_ok.mp h
      exact ⟨value, (Except.ok.inj hleaf).symm, hvalue⟩
    · rw [if_neg hdate] at h ⊢
      exact ⟨condition, (Except.ok.inj h).symm, rfl⟩

section Leaf

variable {schema lib timezone}

/-- A clean condition is not passed over. -/
theorem Condition.leaf_isNull {c : Condition} {leaf : Leaf} (hclean : c.Clean schema)
    (h : c.leaf schema lib timezone = .ok leaf) : leaf.isNull = false := by
  rw [Condition.leaf.eq_def] at h
  rw [Condition.Clean.eq_def] at hclean
  split at h
  · cases c with
    | search key condition =>
        obtain ⟨op, -, hleaf⟩ := bind_eq_ok.mp h
        obtain rfl := Except.ok.inj hleaf
        rfl
    | filter f =>
        obtain ⟨op, -, hleaf⟩ := bind_eq_ok.mp h
        obtain rfl := Except.ok.inj hleaf
        rfl
  · rename_i htarget
    simp only [htarget] at hclean
    cases c with
    | search key condition =>
        cases hobj : condition.isPlainObject with
        | true =>
            cases condition with
            | obj entries =>
                rcases processOperatorCondition_isSettled lib timezone h with ⟨-, rfl⟩ | ⟨-, hn⟩
                · rfl
                · exact hn
            | _ => cases hobj
        | false =>
            obtain ⟨value, rfl, hvalue⟩ := buildConditionValue_ok lib timezone hobj h
            split at hvalue
            · rcases processDateValue_ok hvalue with rfl | hempty
              · exact hclean.2
              · exact isNull_le_isEmptyValue hempty
            · obtain rfl := Except.ok.inj hvalue
              exact hclean.2
    | filter f =>
        obtain ⟨-, -, h⟩ := bind_eq_ok.mp h
        obtain ⟨value, -, h⟩ := bind_eq_ok.mp h
        exact applyFilterOperator_isNull h

/-- Only an empty equality needs the normalisation. -/
theorem Condition.leaf_isSettled {c : Condition} {leaf : Leaf}
    (hempty : c.isEmptyEquality schema = false)
    (h : c.leaf schema lib timezone = .ok leaf) : leaf.isSettled = true := by
  rw [Condition.leaf.eq_def] at h
  rw [Condition.isEmptyEquality.eq_def] at hempty
  split at h
  · cases c with
    | search key condition =>
        obtain ⟨op, -, hleaf⟩ := bind_eq_ok.mp h
        obtain rfl := Except.ok.inj hleaf
        rfl
    | filter f =>
        obtain ⟨op, -, hleaf⟩ := bind_eq_ok.mp h
        obtain rfl := Except.ok.inj hleaf
        rfl
  · rename_i htarget
    simp only [htarget] at hempty
    cases c with
    | search key condition =>
        cases hobj : condition.isPlainObject with
        | true =>
            cases condition with
            | obj entries =>
                rcases processOperatorCondition_isSettled lib timezone h with
                  ⟨rfl, -⟩ | ⟨hsettled, -⟩
                · cases hempty
                · exact hsettled
            | _ => cases hobj
        | false =>
            have hvalue' : isEmptyValue condition = false := by
              cases condition with
              | obj entries => cases hobj
              | _ => exact hempty
            obtain ⟨value, rfl, hvalue⟩ := buildConditionValue_ok lib timezone hobj h
            have hne : isEmptyValue value = false := by
              split at hvalue
              · rcases processDateValue_ok hvalue with rfl | hne
                · exact hvalue'
                · exact hne
              · obtain rfl := Except.ok.inj hvalue
                exact hvalue'
            simp [Leaf.isSettled, hne]
    | filter f =>
        obtain ⟨-, -, h⟩ := bind_eq_ok.mp h
        obtain ⟨value, hvalue, h⟩ := bind_eq_ok.mp h
        refine applyFilterOperator_isSettled h ?_
        intro heq
        have hne : f.value ≠ "" := by simpa [heq] using hempty
        rw [filterOperand, heq, processDateValueForFilter_eq] at hvalue
        split at hvalue
        · rcases processDateText_ok hvalue with hsame | hne'
          · rw [hsame]
            exact hne
          · simp only [isEmptyValue, Bool.or_eq_false_iff, decide_eq_false_iff_not] at hne'
            exact hne'.1
        · rw [← Except.ok.inj hvalue]
          exact hne

/-! ## The leaf means what the condition says -/

variable {V : Type} {sql : Sql V}

theorem assertValidSearchOperator_ok {text : String} {operator : SearchOperator}
    (h : assertValidSearchOperator text = .ok operator) : operator.text = text := by
  rw [assertValidSearchOperator] at h
  split at h
  · rename_i op hfind
    obtain rfl := Except.ok.inj h
    simpa using List.find?_some hfind
  · cases h

theorem mapSearchOperatorToJsonbOperator_ok {operator : SearchOperator} {mapped : JsonbOperator}
    (h : mapSearchOperatorToJsonbOperator operator = .ok mapped) :
    operator.toJsonb = some mapped := by
  rw [mapSearchOperatorToJsonbOperator] at h
  split at h
  · rename_i op hop
    rw [hop, Except.ok.inj h]
  · cases h

theorem mapFilterOperatorToJsonbOperator_ok {operator : FilterOperator} {column : String}
    {mapped : JsonbOperator} (h : mapFilterOperatorToJsonbOperator operator column = .ok mapped) :
    operator.toJsonb = some mapped := by
  rw [mapFilterOperatorToJsonbOperator] at h
  split at h
  · rename_i op hop
    rw [hop, Except.ok.inj h]
  · cases h

theorem SearchOperator.toJsonb_ne_eq (operator : SearchOperator) :
    operator.toJsonb ≠ some .eq := by
  cases operator <;> simp [SearchOperator.toJsonb]

theorem FilterOperator.eq_of_toJsonb {operator : FilterOperator}
    (h : operator.toJsonb = some .eq) : operator = .eq := by
  cases operator <;> simp_all [FilterOperator.toJsonb]

/-- One operator of `s` on a JSON path. -/
theorem jsonbSearchOperator_meaning {jsonPath : List String} {entry : String × Json}
    {op : FindOperator} {x : Option V}
    (hclean : entry.1 = SearchOperator.isIn.text → inListKept entry.2)
    (h : jsonbSearchOperator jsonPath entry = .ok op) :
    op.eval sql x = some true ↔ ∃ operator,
      assertValidSearchOperator entry.1 = .ok operator ∧
      operator.SaysOfText sql entry.2 (x.bind (sql.textAt · jsonPath)) := by
  obtain ⟨operator, hop, h⟩ := bind_eq_ok.mp h
  obtain ⟨mapped, hmapped, h⟩ := bind_eq_ok.mp h
  obtain rfl := Except.ok.inj h
  have hjsonb := mapSearchOperatorToJsonbOperator_ok hmapped
  have hmeaning : (buildJsonbRawCondition jsonPath mapped entry.2.toText).eval sql x = some true ↔
      mapped.Says sql entry.2.toText (x.bind (sql.textAt · jsonPath)) := by
    apply buildJsonbRawCondition_meaning
    rintro rfl
    exact absurd hjsonb operator.toJsonb_ne_eq
  have htext : mapped.Says sql entry.2.toText (x.bind (sql.textAt · jsonPath)) ↔
      operator.SaysOfText sql entry.2 (x.bind (sql.textAt · jsonPath)) := by
    rw [SearchOperator.SaysOfText]
    split
    · -- The members are those of the list, since its commas do not break it up.
      rename_i hin
      subst hin
      obtain rfl := Option.some.inj hjsonb
      have hkept := hclean (assertValidSearchOperator_ok hop).symm
      rw [JsonbOperator.Says, hkept]
    · constructor
      · intro hm
        exact ⟨mapped, hjsonb, hm⟩
      · rintro ⟨mapped', hmapped', hm⟩
        rw [hjsonb] at hmapped'
        cases hmapped'
        exact hm
  rw [hmeaning, htext, hop]
  constructor
  · intro hs
    exact ⟨operator, rfl, hs⟩
  · rintro ⟨operator', heq, hs⟩
    cases heq
    exact hs

theorem buildJsonbSearchCondition_meaning {column : String} {jsonPath : List String}
    {condition : Json} {op : FindOperator} {x : Option V} (hclean : TextClean condition)
    (h : buildJsonbSearchCondition column jsonPath condition = .ok op) :
    op.eval sql x = some true ↔
      SearchSaysOfText sql (x.bind (sql.textAt · jsonPath)) condition := by
  cases condition with
  | obj entries =>
      rw [buildJsonbSearchCondition] at h
      split at h
      · cases h
      · obtain ⟨operators, hops, h⟩ := bind_eq_ok.mp h
        obtain rfl := Except.ok.inj h
        rw [conjunction_eval, SearchSaysOfText]
        have hall := (List.forall₂_and_left _ _).mpr ⟨hclean, mapM_eq_ok.mp hops⟩
        symm
        apply forall_iff_of_forall₂ hall
        rintro entry op ⟨hkept, hop⟩
        exact (jsonbSearchOperator_meaning hkept hop).symm
  | _ =>
      obtain rfl := Except.ok.inj h
      exact buildJsonbRawCondition_meaning (fun _ => hclean)

theorem searchOperatorCondition_meaning {isDateColumn : Bool} {entry : String × Json}
    {op : FindOperator} {x : Option V}
    (h : searchOperatorCondition lib timezone isDateColumn entry = .ok op) :
    op.eval sql x = some true ↔ ∃ operator value,
      assertValidSearchOperator entry.1 = .ok operator ∧
      searchOperand lib timezone isDateColumn operator entry.2 = .ok value ∧
      operator.Says sql value x := by
  obtain ⟨operator, hop, h⟩ := bind_eq_ok.mp h
  obtain ⟨value, hvalue, h⟩ := bind_eq_ok.mp h
  rw [applySearchOperator_meaning h]
  constructor
  · intro hs
    exact ⟨operator, value, hop, hvalue, hs⟩
  · rintro ⟨operator', value', hop', hvalue', hs⟩
    rw [hop] at hop'
    cases hop'
    rw [hvalue] at hvalue'
    cases hvalue'
    exact hs

/-- A condition of `s` on a plain column. -/
theorem buildConditionValue_meaning {condition : Json} {isDateColumn : Bool} {leaf : Leaf}
    {x : Option V} (hnull : leaf.isNull = false)
    (h : buildConditionValue lib timezone condition isDateColumn = .ok leaf) :
    (transformNullValue leaf).holds sql x = true ↔
      SearchSays lib timezone sql isDateColumn x condition := by
  have hvalue : condition.isPlainObject = false →
      ((transformNullValue leaf).holds sql x = true ↔ ∃ value,
        (if isDateColumn then processDateValue lib timezone condition .equal
          else pure condition) = .ok value ∧ EqualitySays sql value x) := by
    intro hobj
    obtain ⟨value, rfl, hvalue⟩ := buildConditionValue_ok lib timezone hobj h
    rw [equality_meaning hnull, hvalue]
    constructor
    · intro hs
      exact ⟨value, rfl, hs⟩
    · rintro ⟨value', heq, hs⟩
      cases heq
      exact hs
  match condition with
  | .obj [] =>
      obtain rfl := Except.ok.inj h
      exact holds_operator.trans isNull_eval
  | .obj (entry :: rest) =>
      obtain ⟨operators, hops, hleaf⟩ := bind_eq_ok.mp h
      obtain rfl := Except.ok.inj hleaf
      rw [holds_operator, conjunction_eval, SearchSays]
      · symm
        apply forall_iff_of_forall₂ (mapM_eq_ok.mp hops)
        intro entry op hop
        exact (searchOperatorCondition_meaning hop).symm
      · simp
  | .null => exact hvalue rfl
  | .bool _ => exact hvalue rfl
  | .num _ => exact hvalue rfl
  | .str _ => exact hvalue rfl
  | .arr _ => exact hvalue rfl

/-- **The leaf of a clean condition means what the condition says**, once normalised. -/
theorem Condition.holds_leaf {c : Condition} {leaf : Leaf} (hclean : c.Clean schema)
    (h : c.leaf schema lib timezone = .ok leaf) (row : Row V) :
    (transformNullValue leaf).holds sql (row (wherePath schema c.field)) = true ↔
      c.Holds schema lib timezone sql row := by
  have hnull := Condition.leaf_isNull hclean h
  rw [Condition.leaf.eq_def] at h
  rw [Condition.Clean.eq_def] at hclean
  rw [Condition.Holds.eq_def, wherePath]
  split at h
  · rename_i column jsonPath htarget
    simp only [htarget] at hclean ⊢
    cases c with
    | search key condition =>
        obtain ⟨op, hop, hleaf⟩ := bind_eq_ok.mp h
        obtain rfl := Except.ok.inj hleaf
        rw [holds_operator]
        exact buildJsonbSearchCondition_meaning hclean hop
    | filter f =>
        obtain ⟨mapped, hmapped, hleaf⟩ := bind_eq_ok.mp h
        obtain rfl := Except.ok.inj hleaf
        have hjsonb := mapFilterOperatorToJsonbOperator_ok hmapped
        rw [holds_operator, buildJsonbRawCondition_meaning]
        · constructor
          · intro hs
            exact ⟨mapped, hjsonb, hs⟩
          · rintro ⟨mapped', heq, hs⟩
            rw [hjsonb] at heq
            cases heq
            exact hs
        · rintro rfl
          exact hclean (FilterOperator.eq_of_toJsonb hjsonb)
  · rename_i htarget
    simp only [htarget] at hclean ⊢
    cases c with
    | search key condition => exact buildConditionValue_meaning hnull h
    | filter f =>
        obtain ⟨-, -, h⟩ := bind_eq_ok.mp h
        obtain ⟨value, hvalue, h⟩ := bind_eq_ok.mp h
        rw [applyFilterOperator_meaning h]
        constructor
        · intro hs
          exact ⟨value, hvalue, hs⟩
        · rintro ⟨value', heq, hs⟩
          rw [hvalue] at heq
          cases heq
          exact hs

end Leaf

end ErpApi.Query
