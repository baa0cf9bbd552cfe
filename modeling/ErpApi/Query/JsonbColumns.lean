import ErpApi.Query.Postgres

set_option autoImplicit false

/-! # JSONB paths and plain columns

The operators on a JSONB path are a second implementation, which works on the `String` of the
value. It differs from that of a plain text column where the value asks for `NULL` or is `null`,
and where the commas and spaces of a list change its members. `agreement_iff` says for which
values a condition selects the same rows on both kinds of columns: those in `Test.Agrees`.
-/

namespace ErpApi.Query

/-! ## Lists in a text -/

/-- A text that stands for itself in a list: it has no comma, no space around it, and something
in it. -/
def IsListed (text : String) : Prop := text ≠ "" ∧ Js.trim text = text ∧ ',' ∉ text.toList

theorem parseCommaSeparatedValues_empty : parseCommaSeparatedValues "" = [] := by decide +kernel

theorem parseCommaSeparatedValues_of_isListed {text : String} (h : IsListed text) :
    parseCommaSeparatedValues text = [text] := by
  obtain ⟨hne, htrim, hcomma⟩ := h
  rw [parseCommaSeparatedValues, Js.split_of_not_mem hcomma]
  simp [htrim, hne]

/-- Every member of a list stands for itself. -/
theorem isListed_of_mem {text member : String} (h : member ∈ parseCommaSeparatedValues text) :
    IsListed member := by
  obtain ⟨hmem, hne⟩ := List.mem_filter.mp h
  obtain ⟨part, hpart, rfl⟩ := List.mem_map.mp hmem
  refine ⟨by simpa using hne, Js.trim_trim part, ?_⟩
  intro hcomma
  exact Js.not_mem_of_mem_split hpart (Js.mem_of_mem_trim hcomma)

theorem parseCommaSeparatedValues_append (a b : String) :
    parseCommaSeparatedValues (a ++ "," ++ b) =
      parseCommaSeparatedValues a ++ parseCommaSeparatedValues b := by
  have hsplit : Js.split ',' (a ++ "," ++ b) = Js.split ',' a ++ Js.split ',' b :=
    Js.split_append ',' a b
  simp only [parseCommaSeparatedValues, hsplit, List.map_append, List.filter_append]

/-- The text of an array lists what the texts of its members list. -/
theorem parseCommaSeparatedValues_joinText (items : List Json) :
    parseCommaSeparatedValues (Json.joinText items) =
      items.flatMap fun item => parseCommaSeparatedValues item.memberText := by
  induction items with
  | nil => exact parseCommaSeparatedValues_empty
  | cons item items ih =>
      cases items with
      | nil => simp [Json.joinText]
      | cons next items =>
          rw [Json.joinText, parseCommaSeparatedValues_append, ih]
          rfl

/-! ## Conditions on either kind of column -/

/-- A condition whose field is left open: an equality of `s`, an operator of `s`, or one of
`filter`. -/
inductive Test where
  | equality (value : Json)
  | search (operator : SearchOperator) (value : Json)
  | filter (operator : FilterOperator) (value : String)

def Test.on (field : String) : Test → Condition
  | .equality value => .search field value
  | .search operator value => .search field (.obj [(operator.text, value)])
  | .filter operator value => .filter ⟨field, operator, value⟩

def IsSingle (value : Json) : Prop := value.isScalar = true ∨ value = .null

/-- The operator works on JSONB paths; its value is a text, a number, a boolean or `null`, or a
list of these for `in`. -/
def Test.IsSupported : Test → Prop
  | .equality value => IsSingle value
  | .search operator value => operator.toJsonb ≠ none ∧ (operator ≠ .isIn → IsSingle value) ∧
      ∀ member ∈ membersOf value, IsSingle member
  | .filter operator _ => operator.toJsonb ≠ none

/-- The values for which both kinds of columns agree. -/
def Test.Agrees : Test → Prop
  | .equality .null => False
  | .equality (.str text) => isNullishLiteral text = false
  -- The text of a number or of a boolean is never empty.
  | .equality value => value.toText ≠ ""
  | .search .ne value => value ≠ .null ∧ value.toText ≠ ""
  | .search .isIn value => value ≠ .null ∧
      ∀ member ∈ membersOf value, member ≠ .null → IsListed member.toText
  | .search _ _ => True
  | .filter .eq value => isNullishLiteral value = false
  | .filter .ne value => value ≠ "" ∧ isNullishLiteral value = false
  | .filter _ _ => True

/-- A plain column whose values are any texts: neither dates nor the members of an enumeration. -/
structure IsTextColumn (schema : Schema) (field : String) : Prop where
  plain : isJsonbPath schema field = false
  notDate : isDateColumnRecursive schema field = false
  notEnum : getEnumValuesRecursive schema field = none

section Says

variable (db : Database)

/-- An operator on a JSONB path, as the builder applies it: only an empty text asks for `NULL`
there. -/
def JsonbOperator.Tests (value : String) (text : Option String) (operator : JsonbOperator) : Prop :=
  if operator = .eq then (if value = "" then text = none else text = some value)
  else operator.Says db.sql value text

/-- What a condition says of the text at a JSONB path. -/
def Test.SaysOfLeaf (text : Option String) : Test → Prop
  | .equality value => JsonbOperator.eq.Tests db value.toText text
  | .search operator value => ∃ mapped, operator.toJsonb = some mapped ∧
      mapped.Tests db value.toText text
  | .filter operator value => ∃ mapped, operator.toJsonb = some mapped ∧ mapped.Tests db value text

/-- What it says of a text column. -/
def Test.SaysOfColumn (x : Option Cell) : Test → Prop
  | .equality .null => True
  | .equality value => EqualitySays db.sql value x
  | .search operator value => operator.Says db.sql value x
  | .filter operator value => operator.Says db.sql value x

variable {db}

theorem buildJsonbRawCondition_tests {jsonPath : List String} {operator : JsonbOperator}
    {value : String} {x : Option Cell} :
    (buildJsonbRawCondition jsonPath operator value).eval db.sql x = some true ↔
      operator.Tests db value (x.bind (db.sql.textAt · jsonPath)) := by
  by_cases heq : operator = .eq
  · subst heq
    rw [JsonbOperator.Tests, if_pos rfl]
    generalize htext : x.bind (db.sql.textAt · jsonPath) = text
    by_cases hempty : value = ""
    · simp [buildJsonbRawCondition, hempty, FindOperator.eval, JsonbTest.eval, htext]
    · simp [buildJsonbRawCondition, hempty, FindOperator.eval, JsonbTest.eval, htext]
  · rw [JsonbOperator.Tests, if_neg heq]
    exact buildJsonbRawCondition_meaning (fun h => absurd h heq)

end Says

/-! ## What a condition selects -/

section Selects

variable {schema : Schema} (lib : Library) (timezone : String) {field : String} (db : Database)

theorem Test.field_on (test : Test) : (test.on field).field = field := by
  cases test <;> rfl

/-- The rows whose leaf passes the test of the condition. -/
theorem Test.selects_leaf {column : String} {jsonPath : List String}
    (htarget : jsonbTarget schema field = some (column, jsonPath)) {test : Test}
    (hsupported : test.IsSupported) (row : Row Cell) :
    ∃ selected, (test.on field).selectsRow schema lib timezone db.sql row = .ok selected ∧
      (selected = true ↔ test.SaysOfLeaf db (fieldText schema field row)) := by
  have hbare : jsonbTarget schema (test.on field).field = none →
      isJsonbPath schema (test.on field).field = false := by
    rw [test.field_on, htarget]
    nofun
  have hleaf : ∃ operator value,
      (test.on field).leaf schema lib timezone =
        .ok (.operator (buildJsonbRawCondition jsonPath operator value)) ∧
      ∀ text, test.SaysOfLeaf db text ↔ operator.Tests db value text := by
    have hone : ∀ {mapped : Option JsonbOperator} {operator : JsonbOperator} {value : String}
        (text : Option String), mapped = some operator →
        ((∃ m, mapped = some m ∧ m.Tests db value text) ↔ operator.Tests db value text) := by
      rintro _ operator value text rfl
      exact ⟨fun ⟨m, hm, h⟩ => Option.some.inj hm ▸ h, fun h => ⟨operator, rfl, h⟩⟩
    cases test with
    | equality value =>
        refine ⟨.eq, value.toText, ?_, fun text => Iff.rfl⟩
        simp only [Test.on, Condition.leaf, Condition.field, htarget]
        rcases hsupported with hscalar | rfl
        · cases value with
          | obj _ => cases hscalar
          | _ => rfl
        · rfl
    | search operator value =>
        obtain ⟨mapped, hmapped⟩ := Option.ne_none_iff_exists'.mp hsupported.1
        refine ⟨mapped, value.toText, ?_, fun text => hone text hmapped⟩
        have hentry : jsonbSearchOperator jsonPath (operator.text, value) =
            .ok (buildJsonbRawCondition jsonPath mapped value.toText) := by
          refine bind_eq_ok.mpr ⟨operator, assertValidSearchOperator_text operator, ?_⟩
          simp only [mapSearchOperatorToJsonbOperator, hmapped]
          rfl
        simp only [Test.on, Condition.leaf, Condition.field, htarget, buildJsonbSearchCondition,
          List.length_singleton, List.mapM_cons, List.mapM_nil, hentry]
        rfl
    | filter operator value =>
        obtain ⟨mapped, hmapped⟩ := Option.ne_none_iff_exists'.mp hsupported
        refine ⟨mapped, value, ?_, fun text => hone text hmapped⟩
        simp only [Test.on, Condition.leaf, Condition.field, htarget,
          mapFilterOperatorToJsonbOperator, hmapped]
        rfl
  obtain ⟨operator, value, hleaf, hmeaning⟩ := hleaf
  refine ⟨_, selectsRow_eq hbare hleaf, ?_⟩
  have hplace : wherePath schema (test.on field).field = [column] := by
    rw [test.field_on]
    simp [wherePath, htarget]
  have htext : fieldText schema field row = (row [column]).bind (db.sql.textAt · jsonPath) := by
    rw [fieldText, htarget]
    rfl
  rw [hplace, holds_operator, buildJsonbRawCondition_tests, htext]
  exact (hmeaning _).symm

theorem applySearchOperator_of_toJsonb {operator : SearchOperator} (h : operator.toJsonb ≠ none)
    (value : Json) : ∃ op, applySearchOperator operator value = .ok op := by
  cases operator with
  | between => exact absurd rfl h
  | _ => exact ⟨_, rfl⟩

theorem applyFilterOperator_of_toJsonb {operator : FilterOperator} (h : operator.toJsonb ≠ none)
    (value : String) : ∃ leaf, applyFilterOperator operator value = .ok leaf := by
  cases operator with
  | between => exact absurd rfl h
  | _ => exact ⟨_, rfl⟩

/-- The rows whose text passes the test of the condition. -/
theorem Test.selects_column (hcolumn : IsTextColumn schema field) {test : Test}
    (hsupported : test.IsSupported) (row : Row Cell) :
    ∃ selected, (test.on field).selectsRow schema lib timezone db.sql row = .ok selected ∧
      (selected = true ↔ test.SaysOfColumn db (row (parts field))) := by
  have hbare : jsonbTarget schema (test.on field).field = none →
      isJsonbPath schema (test.on field).field = false := by
    rw [test.field_on]
    exact fun _ => hcolumn.plain
  have htarget : jsonbTarget schema field = none := by simp [jsonbTarget, hcolumn.plain]
  have hleaf : ∃ leaf, (test.on field).leaf schema lib timezone = .ok leaf ∧
      ∀ x, (transformNullValue leaf).holds db.sql x = true ↔ test.SaysOfColumn db x := by
    cases test with
    | equality value =>
        refine ⟨.value value, ?_, fun x => ?_⟩
        · simp only [Test.on, Condition.leaf, Condition.field, htarget, hcolumn.notDate]
          rcases hsupported with hscalar | rfl
          · cases value with
            | obj _ => cases hscalar
            | _ => rfl
          · rfl
        · cases value with
          | null => exact iff_of_true rfl trivial
          | _ => exact equality_meaning rfl
    | search operator value =>
        obtain ⟨op, hop⟩ := applySearchOperator_of_toJsonb hsupported.1 value
        refine ⟨.operator op, ?_, fun x => ?_⟩
        · have hentry : searchOperatorCondition lib timezone false (operator.text, value) =
              .ok op :=
            bind_eq_ok.mpr ⟨operator, assertValidSearchOperator_text operator,
              bind_eq_ok.mpr ⟨value, rfl, hop⟩⟩
          simp only [Test.on, Condition.leaf, Condition.field, htarget, hcolumn.notDate,
            buildConditionValue, processOperatorCondition, List.length_singleton, List.mapM_cons,
            List.mapM_nil, hentry]
          rfl
        · rw [holds_operator]
          exact applySearchOperator_meaning hop
    | filter operator value =>
        obtain ⟨leaf, hop⟩ := applyFilterOperator_of_toJsonb hsupported value
        refine ⟨leaf, ?_, fun x => applyFilterOperator_meaning hop⟩
        have henum : validateEnumValueForFilter schema ⟨field, operator, value⟩ = .ok () := by
          rw [validateEnumValueForFilter]
          split
          · rfl
          · simp only [hcolumn.notEnum]
            rfl
        have hoperand : filterOperand schema lib timezone ⟨field, operator, value⟩ = .ok value := by
          simp only [filterOperand, hcolumn.notDate]
          rfl
        simp only [Test.on, Condition.leaf, Condition.field, htarget]
        exact bind_eq_ok.mpr ⟨(), henum, bind_eq_ok.mpr ⟨value, hoperand, hop⟩⟩
  obtain ⟨leaf, hleaf, hmeaning⟩ := hleaf
  refine ⟨_, selectsRow_eq hbare hleaf, ?_⟩
  have hplace : wherePath schema (test.on field).field = parts field := by
    rw [test.field_on]
    exact wherePath_of_plain hcolumn.plain
  rw [hplace]
  exact hmeaning _

end Selects

/-! ## Where the two kinds of columns agree -/

section Agreement

variable {db : Database}

/-- The test says the same of a text at a JSONB path and of the text in a column. -/
def Test.SaysSame (db : Database) (test : Test) : Prop :=
  ∀ text, test.SaysOfLeaf db text ↔ test.SaysOfColumn db (text.map Cell.text)

theorem equalTo_text {value : Json} (hscalar : value.isScalar = true) (text : Option String) :
    equalTo db.sql (text.map Cell.text) value = text.map (· == value.toText) := by
  have hbound := db.boundText_scalar value hscalar
  have hequal : equalTo db.sql (text.map Cell.text) value =
      (text.map Cell.text).bind (db.sql.equal · value) := by
    cases value with
    | null => cases hscalar
    | _ => rfl
  rw [hequal]
  cases text with
  | none => rfl
  | some c =>
      show (db.boundText value).map (c == ·) = some (c == value.toText)
      rw [hbound]
      rfl

theorem equalTo_text_true {value : Json} (hscalar : value.isScalar = true) {text : Option String} :
    equalTo db.sql (text.map Cell.text) value = some true ↔ text = some value.toText := by
  rw [equalTo_text hscalar]
  cases text <;> simp

theorem equalTo_text_false {value : Json} (hscalar : value.isScalar = true) {text : Option String} :
    equalTo db.sql (text.map Cell.text) value = some false ↔
      ∃ t, text = some t ∧ t ≠ value.toText := by
  rw [equalTo_text hscalar]
  cases text <;> simp

theorem stored_iLike {text : Option String} {pattern : String} :
    Stored (text.map Cell.text) (db.sql.iLike · pattern) ↔
      ∃ t, text = some t ∧ db.sql.textILike t pattern = true := by
  cases text with
  | none => simp [Stored]
  | some c =>
      have hsame : db.sql.iLike (.text c) pattern = some (db.sql.textILike c pattern) := rfl
      simp [Stored, hsame]

theorem ne_empty_of_isNullishLiteral {value : String} (h : isNullishLiteral value = true) :
    value ≠ "" := by
  rintro rfl
  have hempty : isNullishLiteral "" = false := by decide +kernel
  rw [hempty] at h
  cases h

/-- Equality with a text: a null literal is `NULL` in a column, and a text at a JSONB path. -/
theorem equality_says_same (value : String) :
    (∀ text, JsonbOperator.eq.Tests db value text ↔
      EqualitySays db.sql (.str value) (text.map Cell.text)) ↔ isNullishLiteral value = false := by
  constructor
  · intro hsame
    rw [← Bool.not_eq_true]
    intro hlit
    have hne : value ≠ "" := ne_empty_of_isNullishLiteral hlit
    -- A row without the value is found in the column only.
    have hcolumn : EqualitySays db.sql (.str value) ((none : Option String).map Cell.text) := by
      simp [EqualitySays, isEmptyValue, hlit]
    have hleaf := (hsame none).mpr hcolumn
    simp [JsonbOperator.Tests, hne] at hleaf
  · intro hlit text
    by_cases hempty : value = ""
    · simp [JsonbOperator.Tests, EqualitySays, isEmptyValue, hempty]
    · have hcolumn : EqualitySays db.sql (.str value) (text.map Cell.text) ↔
          equalTo db.sql (text.map Cell.text) (.str value) = some true := by
        simp [EqualitySays, isEmptyValue, hempty, hlit]
      have hleaf : JsonbOperator.eq.Tests db value text ↔ text = some value := by
        simp [JsonbOperator.Tests, hempty]
      rw [hcolumn, hleaf, equalTo_text_true rfl]
      rfl

/-- Equality with a number or a boolean asks for `NULL` in neither kind of column. -/
theorem number_says_same {value : Json} (hscalar : value.isScalar = true)
    (hvalue : isEmptyValue value = false) :
    (∀ text, JsonbOperator.eq.Tests db value.toText text ↔
      EqualitySays db.sql value (text.map Cell.text)) ↔ value.toText ≠ "" := by
  have hcolumn : ∀ text : Option String, EqualitySays db.sql value (text.map Cell.text) ↔
      text = some value.toText := by
    intro text
    rw [← @equalTo_text_true db value hscalar text]
    simp [EqualitySays, hvalue]
  constructor
  · intro hsame hempty
    have hleaf : JsonbOperator.eq.Tests db value.toText none := by
      simp [JsonbOperator.Tests, hempty]
    have hnone := (hcolumn none).mp ((hsame none).mp hleaf)
    cases hnone
  · intro hne text
    rw [hcolumn]
    simp [JsonbOperator.Tests, hne]

theorem equality_agrees {value : Json} (hsingle : IsSingle value) :
    (Test.equality value).SaysSame db ↔ (Test.equality value).Agrees := by
  rcases hsingle with hscalar | rfl
  · cases value with
    | null => cases hscalar
    | arr _ => cases hscalar
    | obj _ => cases hscalar
    | str text => exact equality_says_same text
    | bool b => exact number_says_same hscalar rfl
    | num n => exact number_says_same hscalar rfl
  · constructor
    · intro hsame
      have hleaf := (hsame none).mpr trivial
      simp [Test.SaysOfLeaf, JsonbOperator.Tests, Json.toText] at hleaf
    · exact False.elim

/-- The operators that put the text of the value into a pattern. -/
theorem pattern_says_same {operator : SearchOperator} (value : Json)
    (h : operator = .ieq ∨ operator = .cont ∨ operator = .starts ∨ operator = .ends) :
    (Test.search operator value).SaysSame db := by
  intro text
  rcases h with rfl | rfl | rfl | rfl
  all_goals
    simp only [Test.SaysOfLeaf, Test.SaysOfColumn, SearchOperator.toJsonb, SearchOperator.Says,
      stored_iLike, Option.some.injEq, exists_eq_left', JsonbOperator.Tests, JsonbOperator.Says,
      reduceCtorEq, if_false]

/-- Inequality with `null` selects nothing in a column; with an empty text it passes over the
empty text there. -/
theorem inequality_agrees {value : Json} (hsingle : IsSingle value) :
    (Test.search .ne value).SaysSame db ↔ (Test.search .ne value).Agrees := by
  have hleaf : ∀ text, (Test.search .ne value).SaysOfLeaf db text ↔
      if value.toText = "" then text ≠ none else ∃ t, text = some t ∧ t ≠ value.toText := by
    intro text
    simp only [Test.SaysOfLeaf, SearchOperator.toJsonb, Option.some.injEq, exists_eq_left',
      JsonbOperator.Tests, JsonbOperator.Says, reduceCtorEq, if_false]
  rcases hsingle with hscalar | rfl
  · have hne : value ≠ .null := by
      rintro rfl
      cases hscalar
    have hcolumn : ∀ text : Option String,
        (Test.search .ne value).SaysOfColumn db (text.map Cell.text) ↔
          ∃ t, text = some t ∧ t ≠ value.toText := fun _ => equalTo_text_false hscalar
    constructor
    · intro hsame
      refine ⟨hne, fun hempty => ?_⟩
      have hcol := (hsame (some "")).mp ((hleaf _).mpr (by simp [hempty]))
      obtain ⟨t, ht, hdiff⟩ := (hcolumn _).mp hcol
      exact hdiff ((Option.some.inj ht).symm.trans hempty.symm)
    · rintro ⟨-, hempty⟩ text
      rw [hleaf, hcolumn, if_neg hempty]
  · constructor
    · intro hsame
      have hcol := (hsame (some "")).mp ((hleaf _).mpr (by simp [Json.toText]))
      cases hcol
    · rintro ⟨hnull, -⟩
      exact absurd rfl hnull

/-! ### Lists -/

theorem memberText_of_isScalar {value : Json} (h : value.isScalar = true) :
    value.memberText = value.toText := by
  cases value with
  | null => cases h
  | arr _ => cases h
  | obj _ => cases h
  | _ => rfl

/-- The texts that a list of texts that stand for themselves is read as. -/
theorem mem_members {value : Json} (hsingle : ∀ member ∈ membersOf value, IsSingle member)
    (hnull : value ≠ .null)
    (hlisted : ∀ member ∈ membersOf value, member ≠ .null → IsListed member.toText) {t : String} :
    t ∈ parseCommaSeparatedValues value.toText ↔
      ∃ member ∈ membersOf value, member ≠ .null ∧ t = member.toText := by
  have hmember : ∀ member ∈ membersOf value, t ∈ parseCommaSeparatedValues member.memberText ↔
      member ≠ .null ∧ t = member.toText := by
    intro member hmem
    rcases hsingle member hmem with hscalar | rfl
    · have hne : member ≠ .null := by
        rintro rfl
        cases hscalar
      rw [memberText_of_isScalar hscalar,
        parseCommaSeparatedValues_of_isListed (hlisted member hmem hne), List.mem_singleton]
      exact (and_iff_right hne).symm
    · refine iff_of_false ?_ (fun h => h.1 rfl)
      show t ∉ parseCommaSeparatedValues ""
      rw [parseCommaSeparatedValues_empty]
      exact List.not_mem_nil
  by_cases harr : ∃ items, value = .arr items
  · obtain ⟨items, rfl⟩ := harr
    rw [Json.toText, parseCommaSeparatedValues_joinText, List.mem_flatMap]
    apply exists_congr
    intro member
    exact and_congr_right (hmember member)
  · have hone : membersOf value = [value] := by
      cases value with
      | arr items => exact absurd ⟨items, rfl⟩ harr
      | _ => rfl
    have hmem : value ∈ membersOf value := by
      rw [hone]
      exact List.mem_singleton_self value
    have hscalar : value.isScalar = true := (hsingle value hmem).resolve_right hnull
    rw [← memberText_of_isScalar hscalar, hmember value hmem, hone]
    simp

/-- A list agrees if its text reads as the list again; `null` is a text only at a JSONB path. -/
theorem inList_agrees {value : Json} (hsingle : ∀ member ∈ membersOf value, IsSingle member) :
    (Test.search .isIn value).SaysSame db ↔ (Test.search .isIn value).Agrees := by
  have hleaf : ∀ text, (Test.search .isIn value).SaysOfLeaf db text ↔
      ∃ t ∈ parseCommaSeparatedValues value.toText, text = some t := by
    intro text
    simp only [Test.SaysOfLeaf, SearchOperator.toJsonb, Option.some.injEq, exists_eq_left',
      JsonbOperator.Tests, JsonbOperator.Says, reduceCtorEq, if_false]
  have hcolumn : ∀ text : Option String,
      (Test.search .isIn value).SaysOfColumn db (text.map Cell.text) ↔
        ∃ member ∈ membersOf value, member ≠ .null ∧ text = some member.toText := by
    intro text
    apply exists_congr
    intro member
    apply and_congr_right
    intro hmem
    rcases hsingle member hmem with hscalar | rfl
    · have hne : member ≠ .null := by
        rintro rfl
        cases hscalar
      rw [equalTo_text_true hscalar]
      exact (and_iff_right hne).symm
    · refine iff_of_false ?_ (fun h => h.1 rfl)
      intro hnull
      cases hnull
  constructor
  · intro hsame
    constructor
    · rintro rfl
      have htext : "null" ∈ parseCommaSeparatedValues (Json.toText .null) := by decide +kernel
      obtain ⟨member, hmem, hne, -⟩ :=
        (hcolumn _).mp ((hsame (some "null")).mp ((hleaf _).mpr ⟨_, htext, rfl⟩))
      exact hne (List.mem_singleton.mp hmem)
    · intro member hmem hne
      have hcol := (hcolumn (some member.toText)).mpr ⟨member, hmem, hne, rfl⟩
      obtain ⟨t, ht, heq⟩ := (hleaf _).mp ((hsame _).mpr hcol)
      rw [Option.some.inj heq]
      exact isListed_of_mem ht
  · rintro ⟨hnull, hlisted⟩ text
    rw [hleaf, hcolumn]
    constructor
    · rintro ⟨t, ht, rfl⟩
      obtain ⟨member, hmem, hne, rfl⟩ := (mem_members hsingle hnull hlisted).mp ht
      exact ⟨member, hmem, hne, rfl⟩
    · rintro ⟨member, hmem, hne, rfl⟩
      exact ⟨_, (mem_members hsingle hnull hlisted).mpr ⟨member, hmem, hne, rfl⟩, rfl⟩

/-! ### Every condition -/

theorem search_agrees {operator : SearchOperator} {value : Json}
    (hsupported : (Test.search operator value).IsSupported) :
    (Test.search operator value).SaysSame db ↔ (Test.search operator value).Agrees := by
  obtain ⟨hmapped, hsingle, hmembers⟩ := hsupported
  cases operator with
  | ne => exact inequality_agrees (hsingle nofun)
  | isIn => exact inList_agrees hmembers
  | ieq => exact iff_of_true (pattern_says_same value (.inl rfl)) trivial
  | cont => exact iff_of_true (pattern_says_same value (.inr (.inl rfl))) trivial
  | starts => exact iff_of_true (pattern_says_same value (.inr (.inr (.inl rfl)))) trivial
  | ends => exact iff_of_true (pattern_says_same value (.inr (.inr (.inr rfl)))) trivial
  | _ => exact absurd rfl hmapped

/-- Inequality with an empty text or a null literal means different things. -/
theorem filter_inequality_agrees (value : String) :
    (Test.filter .ne value).SaysSame db ↔ (Test.filter .ne value).Agrees := by
  have hleaf : ∀ text, (Test.filter .ne value).SaysOfLeaf db text ↔
      if value = "" then text ≠ none else ∃ t, text = some t ∧ t ≠ value := by
    intro text
    simp only [Test.SaysOfLeaf, FilterOperator.toJsonb, Option.some.injEq, exists_eq_left',
      JsonbOperator.Tests, JsonbOperator.Says, reduceCtorEq, if_false]
  have hcolumn : ∀ text : Option String,
      (Test.filter .ne value).SaysOfColumn db (text.map Cell.text) ↔
        if isNullishLiteral value then text ≠ none else ∃ t, text = some t ∧ t ≠ value := by
    intro text
    simp only [Test.SaysOfColumn, FilterOperator.Says]
    split
    · rw [ne_eq, Option.map_eq_none_iff]
    · exact equalTo_text_false rfl
  have hiff : (Test.filter .ne value).SaysSame db ↔ ∀ text : Option String,
      (if value = "" then text ≠ none else ∃ t, text = some t ∧ t ≠ value) ↔
        if isNullishLiteral value then text ≠ none else ∃ t, text = some t ∧ t ≠ value :=
    forall_congr' fun text => iff_congr (hleaf text) (hcolumn text)
  rw [hiff]
  constructor
  · intro hsame
    constructor
    · intro hempty
      have hlit : ¬ isNullishLiteral value = true := fun h => ne_empty_of_isNullishLiteral h hempty
      have hrow := hsame (some "")
      rw [if_pos hempty, if_neg hlit] at hrow
      obtain ⟨t, ht, hdiff⟩ := hrow.mp (Option.some_ne_none "")
      exact hdiff ((Option.some.inj ht).symm.trans hempty.symm)
    · rw [← Bool.not_eq_true]
      intro hlit
      have hne : value ≠ "" := ne_empty_of_isNullishLiteral hlit
      have hrow := hsame (some value)
      rw [if_neg hne, if_pos hlit] at hrow
      obtain ⟨t, ht, hdiff⟩ := hrow.mpr (Option.some_ne_none value)
      exact hdiff (Option.some.inj ht).symm
  · rintro ⟨hne, hlit⟩ text
    have hlit' : ¬ isNullishLiteral value = true := Bool.eq_false_iff.mp hlit
    rw [if_neg hne, if_neg hlit']

theorem filter_inList_says_same (value : String) : (Test.filter .isIn value).SaysSame db := by
  intro text
  simp only [Test.SaysOfLeaf, FilterOperator.toJsonb, Option.some.injEq, exists_eq_left',
    JsonbOperator.Tests, JsonbOperator.Says, reduceCtorEq, if_false, Test.SaysOfColumn,
    FilterOperator.Says]
  apply exists_congr
  intro member
  apply and_congr_right
  intro _
  exact (@equalTo_text_true db (.str member) rfl text).symm

/-- The operators on the text that have one implementation, or two that are the same. -/
theorem filter_says_same {operator : FilterOperator} (value : String)
    (h : operator = .ieq ∨ operator = .cont ∨ operator = .starts ∨ operator = .ends ∨
      operator = .isNull ∨ operator = .notNull) :
    (Test.filter operator value).SaysSame db := by
  intro text
  rcases h with rfl | rfl | rfl | rfl | rfl | rfl
  all_goals
    simp only [Test.SaysOfLeaf, Test.SaysOfColumn, FilterOperator.toJsonb, FilterOperator.Says,
      stored_iLike, Option.some.injEq, exists_eq_left', JsonbOperator.Tests, JsonbOperator.Says,
      reduceCtorEq, if_false, ne_eq, Option.map_eq_none_iff]

theorem filter_agrees {operator : FilterOperator} {value : String}
    (hsupported : (Test.filter operator value).IsSupported) :
    (Test.filter operator value).SaysSame db ↔ (Test.filter operator value).Agrees := by
  cases operator with
  | eq =>
      have hleaf : ∀ text, (Test.filter .eq value).SaysOfLeaf db text ↔
          JsonbOperator.eq.Tests db value text := by
        intro text
        simp only [Test.SaysOfLeaf, FilterOperator.toJsonb, Option.some.injEq, exists_eq_left']
      have hsame : (Test.filter .eq value).SaysSame db ↔
          ∀ text, JsonbOperator.eq.Tests db value text ↔
            EqualitySays db.sql (.str value) (text.map Cell.text) :=
        forall_congr' fun text => iff_congr (hleaf text) Iff.rfl
      exact hsame.trans (equality_says_same value)
  | ne => exact filter_inequality_agrees value
  | isIn => exact iff_of_true (filter_inList_says_same value) trivial
  | ieq => exact iff_of_true (filter_says_same value (by simp)) trivial
  | cont => exact iff_of_true (filter_says_same value (by simp)) trivial
  | starts => exact iff_of_true (filter_says_same value (by simp)) trivial
  | ends => exact iff_of_true (filter_says_same value (by simp)) trivial
  | isNull => exact iff_of_true (filter_says_same value (by simp)) trivial
  | notNull => exact iff_of_true (filter_says_same value (by simp)) trivial
  | _ => exact absurd rfl hsupported

theorem Test.saysSame_iff {test : Test} (hsupported : test.IsSupported) :
    test.SaysSame db ↔ test.Agrees := by
  cases test with
  | equality value => exact equality_agrees hsupported
  | search operator value => exact search_agrees hsupported
  | filter operator value => exact filter_agrees hsupported

/-- The condition selects a row with a text at a JSONB path exactly if it selects a row with that
text in a column. -/
def SelectsSame (schema : Schema) (lib : Library) (timezone : String) (db : Database)
    (leafField columnField : String) (test : Test) : Prop :=
  ∀ text leafRow columnRow, fieldText schema leafField leafRow = text →
    columnRow (parts columnField) = text.map Cell.text →
    ∃ selected,
      (test.on leafField).selectsRow schema lib timezone db.sql leafRow = .ok selected ∧
      (test.on columnField).selectsRow schema lib timezone db.sql columnRow = .ok selected

variable {schema : Schema} {lib : Library} {timezone leafField columnField : String}

theorem fieldText_empty (schema : Schema) (field : String) :
    fieldText schema field (fun _ => none) = none := by
  rw [fieldText]
  split <;> rfl

/-- **When a JSONB path is tested as a text column is.** -/
theorem selectsSame_iff {column : String} {jsonPath : List String}
    (htarget : jsonbTarget schema leafField = some (column, jsonPath))
    (hcolumn : IsTextColumn schema columnField) {test : Test} (hsupported : test.IsSupported) :
    SelectsSame schema lib timezone db leafField columnField test ↔ test.Agrees := by
  rw [← @Test.saysSame_iff db test hsupported]
  constructor
  · intro hselects text
    obtain ⟨leafRow, hleafRow⟩ : ∃ row, fieldText schema leafField row = text := by
      cases text with
      | none => exact ⟨_, fieldText_empty schema leafField⟩
      | some c => exact ⟨_, fieldText_textRow schema leafField c⟩
    obtain ⟨selected, hleaf, hcol⟩ :=
      hselects text leafRow (fun _ => text.map Cell.text) hleafRow rfl
    obtain ⟨onLeaf, honLeaf, hsaysLeaf⟩ :=
      Test.selects_leaf lib timezone db htarget hsupported leafRow
    obtain ⟨onColumn, honColumn, hsaysColumn⟩ := Test.selects_column lib timezone db
      hcolumn hsupported fun _ => text.map Cell.text
    obtain rfl := Except.ok.inj (hleaf.symm.trans honLeaf)
    obtain rfl := Except.ok.inj (hcol.symm.trans honColumn)
    rw [hleafRow] at hsaysLeaf
    exact hsaysLeaf.symm.trans hsaysColumn
  · intro hsame text leafRow columnRow hleafRow hcolumnRow
    obtain ⟨onLeaf, honLeaf, hsaysLeaf⟩ :=
      Test.selects_leaf lib timezone db htarget hsupported leafRow
    obtain ⟨onColumn, honColumn, hsaysColumn⟩ :=
      Test.selects_column lib timezone db hcolumn hsupported columnRow
    rw [hleafRow] at hsaysLeaf
    rw [hcolumnRow] at hsaysColumn
    have hbool : onLeaf = onColumn :=
      Bool.eq_iff_iff.mpr (hsaysLeaf.trans ((hsame text).trans hsaysColumn.symm))
    exact ⟨onLeaf, honLeaf, hbool ▸ honColumn⟩

end Agreement

/-! ## Labels of offers -/

theorem name_isTextColumn : IsTextColumn offerSchema "name" where
  plain := by decide +kernel
  notDate := by decide +kernel
  notEnum := by decide +kernel

theorem details_target :
    jsonbTarget offerSchema "details.label" = some ("details", ["label"]) := by
  decide +kernel

/-- A list of two colours means the same on both kinds of columns. -/
theorem selectsSame_colours :
    SelectsSame offerSchema plainLibrary "Asia/Bangkok" asciiDatabase "details.label" "name"
      (.search .isIn (.arr [.str "red", .str "blue"])) := by
  have hsingle : ∀ member ∈ membersOf (.arr [.str "red", .str "blue"]), IsSingle member := by
    simp [membersOf, IsSingle, Json.isScalar]
  have hsupported : (Test.search .isIn (.arr [.str "red", .str "blue"])).IsSupported :=
    ⟨by decide, fun h => absurd rfl h, hsingle⟩
  refine (selectsSame_iff details_target name_isTextColumn hsupported).mpr ⟨nofun, ?_⟩
  intro member hmem _
  have hcolour : member = .str "red" ∨ member = .str "blue" := by simpa [membersOf] using hmem
  rcases hcolour with rfl | rfl <;> exact ⟨by decide, by decide +kernel, by decide⟩

/-- A row without a label is not found by `$eq||null`, and one without a name is. -/
theorem null_is_a_text_at_a_path :
    ((Test.filter .eq "null").on "details.label").selectsRow offerSchema plainLibrary
        "Asia/Bangkok" asciiDatabase.sql (fun _ => none) = .ok false ∧
    ((Test.filter .eq "null").on "name").selectsRow offerSchema plainLibrary
        "Asia/Bangkok" asciiDatabase.sql (fun _ => none) = .ok true ∧
    ¬ SelectsSame offerSchema plainLibrary "Asia/Bangkok" asciiDatabase "details.label" "name"
      (.filter .eq "null") := by
  have hsupported : (Test.filter .eq "null").IsSupported := by
    show FilterOperator.eq.toJsonb ≠ none
    decide
  have hrow := fieldText_empty offerSchema "details.label"
  have hleaf : ((Test.filter .eq "null").on "details.label").selectsRow offerSchema plainLibrary
      "Asia/Bangkok" asciiDatabase.sql (fun _ => none) = .ok false := by
    obtain ⟨selected, hselected, hmeaning⟩ := Test.selects_leaf plainLibrary "Asia/Bangkok"
      asciiDatabase details_target hsupported fun _ => none
    have hfalse : selected = false := by
      rw [Bool.eq_false_iff]
      intro htrue
      have hsay := hmeaning.mp htrue
      rw [hrow] at hsay
      simp [Test.SaysOfLeaf, FilterOperator.toJsonb, JsonbOperator.Tests] at hsay
    rw [hselected, hfalse]
  have hcolumn : ((Test.filter .eq "null").on "name").selectsRow offerSchema plainLibrary
      "Asia/Bangkok" asciiDatabase.sql (fun _ => none) = .ok true := by
    obtain ⟨selected, hselected, hmeaning⟩ := Test.selects_column plainLibrary "Asia/Bangkok"
      asciiDatabase name_isTextColumn hsupported fun _ => none
    have hlit : isNullishLiteral "null" = true := by decide +kernel
    have htrue : selected = true := by
      rw [hmeaning]
      simp [Test.SaysOfColumn, FilterOperator.Says, EqualitySays, isEmptyValue, hlit]
    rw [hselected, htrue]
  refine ⟨hleaf, hcolumn, fun hsame => ?_⟩
  obtain ⟨selected, hl, hc⟩ := hsame none (fun _ => none) (fun _ => none) hrow rfl
  obtain rfl := Except.ok.inj (hl.symm.trans hleaf)
  cases Except.ok.inj (hc.symm.trans hcolumn)

end ErpApi.Query
