import ErpApi.Basic.Json
import ErpApi.Basic.ObjectTree

set_option autoImplicit false

/-! # Where values and what they select

A where value is a nested object, or a list of them: its leaves are raw values and TypeORM's
find operators, its keys columns and relations. A row is a valuation of the column paths, the
columns of the joined relations among them. `Where.selects` is the condition that TypeORM
turns the value into, in the three-valued logic of SQL: a leaf `undefined` or `null` is passed
over, a raw value means equality, the alternatives of a list are joined by `OR` and an
alternative without any condition is left out.
-/

namespace ErpApi.Query

open ErpApi.ObjectTree

/-! ## Three-valued logic -/

/-- A truth value of SQL; `none` is unknown. -/
abbrev Truth := Option Bool

def Truth.not : Truth → Truth := Option.map Bool.not

def Truth.and : Truth → Truth → Truth
  | some false, _ => some false
  | _, some false => some false
  | some true, some true => some true
  | _, _ => none

def Truth.or : Truth → Truth → Truth
  | some true, _ => some true
  | _, some true => some true
  | some false, some false => some false
  | _, _ => none

theorem Truth.not_eq_true {a : Truth} : a.not = some true ↔ a = some false := by
  rcases a with - | (- | -) <;> decide

theorem Truth.and_eq_true {a b : Truth} :
    a.and b = some true ↔ a = some true ∧ b = some true := by
  rcases a with - | (- | -) <;> rcases b with - | (- | -) <;> decide

theorem Truth.or_eq_true {a b : Truth} :
    a.or b = some true ↔ a = some true ∨ b = some true := by
  rcases a with - | (- | -) <;> rcases b with - | (- | -) <;> decide

theorem Truth.or_eq_false {a b : Truth} :
    a.or b = some false ↔ a = some false ∧ b = some false := by
  rcases a with - | (- | -) <;> rcases b with - | (- | -) <;> decide

/-! ## Operators -/

inductive Comparison where
  | moreThan
  | moreThanOrEqual
  | lessThan
  | lessThanOrEqual
  deriving DecidableEq

/-- How the database compares a stored value with a bound parameter. -/
structure Sql (V : Type) where
  equal : V → Json → Truth
  compare : Comparison → V → Json → Truth
  iLike : V → String → Truth
  /-- The operator `#>>`: the text at a path of a stored JSON value. -/
  textAt : V → List String → Option String
  textILike : String → String → Bool

/-- The comparisons of the text at a JSON path. -/
inductive JsonbTest where
  | isNull
  | isNotNull
  | equal (value : String)
  | notEqual (value : String)
  | iLike (pattern : String)
  | inList (values : List String)

/-- TypeORM's find operators, as far as the query builder uses them. -/
inductive FindOperator where
  | equal (value : Json)
  /-- The operator `Equal` applied to a nested where object. -/
  | equalObject
  /-- The operator `Not`; `Not(value)` is the negation of `equal value`. -/
  | not (operator : FindOperator)
  | compare (comparison : Comparison) (value : Json)
  | iLike (pattern : String)
  | inList (values : List Json)
  | between (low high : Json)
  | isNull
  /-- The `Raw` condition on the text at a path of a JSONB column. -/
  | jsonb (jsonPath : List String) (test : JsonbTest)
  /-- The `Raw` condition `1 = 0`. -/
  | never
  | and (operators : List FindOperator)

section Eval

variable {V : Type} (sql : Sql V)

def JsonbTest.eval : JsonbTest → Option String → Truth
  | .isNull, text => some text.isNone
  | .isNotNull, text => some text.isSome
  | .equal value, text => text.map (· == value)
  | .notEqual value, text => text.map (· != value)
  | .iLike pattern, text => text.map (sql.textILike · pattern)
  | .inList values, text => text.map values.contains

/-- The comparison `column = parameter`; it is unknown if either is `NULL`. -/
def equalTo (x : Option V) : Json → Truth
  | .null => none
  | value => x.bind (sql.equal · value)

/-- The comparison `column IN (…)`; TypeORM writes `0 = 1` for an empty list. -/
def inListOf (x : Option V) : List Json → Truth
  | [] => some false
  | value :: values => (equalTo sql x value).or (inListOf x values)

mutual

def FindOperator.eval : FindOperator → Option V → Truth
  | .equal value, x => equalTo sql x value
  -- No stored value equals a where object.
  | .equalObject, _ => none
  | .not operator, x => (operator.eval x).not
  | .compare comparison value, x => x.bind (sql.compare comparison · value)
  | .iLike pattern, x => x.bind (sql.iLike · pattern)
  | .inList values, x => inListOf sql x values
  | .between low high, x =>
      Truth.and (x.bind (sql.compare .moreThanOrEqual · low))
        (x.bind (sql.compare .lessThanOrEqual · high))
  | .isNull, x => some x.isNone
  | .jsonb jsonPath test, x => test.eval sql (x.bind (sql.textAt · jsonPath))
  | .never, _ => some false
  | .and operators, x => FindOperator.evalAll operators x

def FindOperator.evalAll : List FindOperator → Option V → Truth
  | [], _ => some true
  | operator :: operators, x => (operator.eval x).and (FindOperator.evalAll operators x)

end

variable {sql}

/-- A list is found to hold the value if one of its members equals it. -/
theorem inListOf_eq_true {x : Option V} {values : List Json} :
    inListOf sql x values = some true ↔ ∃ value ∈ values, equalTo sql x value = some true := by
  induction values with
  | nil => simp [inListOf]
  | cons value values ih => simp [inListOf, Truth.or_eq_true, ih]

/-- It is found not to hold it if each of its members is found to differ. -/
theorem inListOf_eq_false {x : Option V} {values : List Json} :
    inListOf sql x values = some false ↔
      ∀ value ∈ values, equalTo sql x value = some false := by
  induction values with
  | nil => simp [inListOf]
  | cons value values ih => simp [inListOf, Truth.or_eq_false, ih]

/-- The operator `And` is the conjunction of its parts. -/
theorem FindOperator.eval_and {operators : List FindOperator} {x : Option V} :
    (FindOperator.and operators).eval sql x = some true ↔
      ∀ operator ∈ operators, operator.eval sql x = some true := by
  rw [FindOperator.eval]
  induction operators with
  | nil => simp [FindOperator.evalAll]
  | cons operator operators ih => simp [FindOperator.evalAll, Truth.and_eq_true, ih]

end Eval

/-! ## Where values -/

/-- What stands at a column of a where object. -/
inductive Leaf where
  | undefined
  | value (v : Json)
  | operator (op : FindOperator)

/-- TypeORM passes over `undefined` and `null`. -/
def Leaf.isSkipped : Leaf → Bool
  | .undefined => true
  | .value .null => true
  | _ => false

/-- The value of each column path; `none` is `NULL`. -/
abbrev Row (V : Type) := List String → Option V

/-- The condition of one leaf, as the `WHERE` clause tests it. -/
def Leaf.holds {V : Type} (sql : Sql V) (x : Option V) : Leaf → Bool
  | .undefined => true
  | .value .null => true
  | .value v => (FindOperator.equal v).eval sql x == some true
  | .operator op => op.eval sql x == some true

abbrev WhereObject := Fields Leaf

def WhereObject.isBlank (fields : WhereObject) : Bool :=
  fields.all (fun _ leaf => leaf.isSkipped) []

def WhereObject.selects {V : Type} (sql : Sql V) (row : Row V) (fields : WhereObject) : Bool :=
  fields.all (fun path leaf => leaf.holds sql (row path)) []

inductive Where where
  | one (fields : WhereObject)
  | any (alternatives : List WhereObject)

/-- The rows that a where value selects. -/
def Where.selects {V : Type} (sql : Sql V) (row : Row V) : Where → Bool
  | .one fields => fields.selects sql row
  | .any alternatives =>
      let conditions := alternatives.filter (fun fields => !fields.isBlank)
      conditions.isEmpty || conditions.any (fun fields => fields.selects sql row)

theorem WhereObject.selects_iff {V : Type} {sql : Sql V} {row : Row V} {fields : WhereObject} :
    fields.selects sql row = true ↔
      fields.All (fun path leaf => leaf.holds sql (row path) = true) (fun _ => True) [] :=
  Fields.all_eq_true _ _

theorem WhereObject.isBlank_iff {fields : WhereObject} :
    fields.isBlank = true ↔
      fields.All (fun _ leaf => leaf.isSkipped = true) (fun _ => True) [] :=
  Fields.all_eq_true _ _

/-- A list whose alternatives all have a condition selects what one of them selects. -/
theorem Where.selects_any {V : Type} {sql : Sql V} {row : Row V}
    {alternatives : List WhereObject} (hne : alternatives ≠ [])
    (h : ∀ fields ∈ alternatives, fields.isBlank = false) :
    (Where.any alternatives).selects sql row = true ↔
      ∃ fields ∈ alternatives, fields.selects sql row = true := by
  have hkept : alternatives.filter (fun fields => !fields.isBlank) = alternatives := by
    apply List.filter_eq_self.mpr
    intro fields hfields
    rw [h fields hfields]
    rfl
  simp only [Where.selects, hkept, Bool.or_eq_true, List.isEmpty_iff, List.any_eq_true]
  exact or_iff_right hne

end ErpApi.Query
