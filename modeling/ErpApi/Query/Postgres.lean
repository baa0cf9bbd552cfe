import ErpApi.Basic.Like
import ErpApi.Common.BaseService
import ErpApi.Query.SingleCondition

set_option autoImplicit false

/-! # Text in PostgreSQL

How the database compares text: the text of a plain column, and the text that the operator
`#>>` reads at a path of a JSONB column. `=` compares the texts as they are, `ILIKE` in lower
case. What depends on the installation is a parameter: the lower case of a letter, the order of
texts, and the text that the driver binds for a value.
-/

namespace ErpApi.Query

open ErpApi.Like

/-- A stored value: a text, or a JSON value, known by the texts at its paths. -/
inductive Cell where
  | text (c : String)
  | jsonb (textAt : List String → Option String)

def Cell.asText : Cell → Option String
  | .text c => some c
  | .jsonb _ => none

def Cell.textAt : Cell → List String → Option String
  | .text _, _ => none
  | .jsonb textAt, path => textAt path

/-- The lower case is that of letters: it leaves the special characters of a pattern alone. -/
structure Database where
  lower : Char → Char
  lower_lower : ∀ c, lower (lower c) = lower c
  lower_eq_special : ∀ c s, isSpecial s = true → (lower c = s ↔ c = s)
  /-- The text bound for a value; `NULL` has none. -/
  boundText : Json → Option String
  boundText_null : boundText .null = none
  boundText_scalar : ∀ value : Json, value.isScalar = true → boundText value = some value.toText
  compareText : Comparison → String → String → Truth

namespace Database

variable (db : Database)

def fold (text : String) : List Char := text.toList.map db.lower

def ilike (text pattern : String) : Bool := like (db.fold pattern) (db.fold text)

/-- Comparing a JSON value as a whole is an error. -/
def sql : Sql Cell where
  equal
    | .text c, value => (db.boundText value).map (c == ·)
    | .jsonb _, _ => none
  compare comparison
    | .text c, value => (db.boundText value).bind (db.compareText comparison c)
    | .jsonb _, _ => none
  iLike
    | .text c, pattern => some (db.ilike c pattern)
    | .jsonb _, _ => none
  textAt := Cell.textAt
  textILike := db.ilike

end Database

/-! ## The text of a field -/

/-- A plain column, or a leaf of a JSONB column; not a JSONB column as a whole. -/
def IsTextField (schema : Schema) (field : String) : Prop :=
  jsonbTarget schema field = none → isJsonbPath schema field = false

/-- The text that a row has in a field; `none` is `NULL` or an absent path. -/
def fieldText (schema : Schema) (field : String) (row : Row Cell) : Option String :=
  match jsonbTarget schema field with
  | some (column, jsonPath) => (row [column]).bind (·.textAt jsonPath)
  | none => (row (parts field)).bind Cell.asText

/-- A row with a given text in a field. -/
def textRow (schema : Schema) (field c : String) : Row Cell :=
  match jsonbTarget schema field with
  | some (_, jsonPath) =>
      fun _ => some (.jsonb fun path => if path = jsonPath then some c else none)
  | none => fun _ => some (.text c)

theorem fieldText_textRow (schema : Schema) (field c : String) :
    fieldText schema field (textRow schema field c) = some c := by
  cases htarget : jsonbTarget schema field with
  | none => simp [fieldText, textRow, htarget, Cell.asText]
  | some target => simp [fieldText, textRow, htarget, Cell.textAt]

/-! ## The database of the locale `C` -/

theorem toLower_eq_special {c s : Char} (hs : isSpecial s = true) : c.toLower = s ↔ c = s := by
  have hletter : ¬ (65 ≤ s.toNat ∧ s.toNat ≤ 90) ∧ ¬ (97 ≤ s.toNat ∧ s.toNat ≤ 122) := by
    simp only [isSpecial, Bool.or_eq_true, decide_eq_true_eq] at hs
    rcases hs with (rfl | rfl) | rfl <;> decide
  rcases Js.toLower_cases c with ⟨h, -⟩ | ⟨h, hlow, hhigh⟩
  · rw [h]
  · constructor
    · rintro rfl
      omega
    · rintro rfl
      omega

/-- Values are bound as `String` writes them, and texts are in the order of their code units. -/
def asciiDatabase : Database where
  lower := Char.toLower
  lower_lower := toLower_toLower
  lower_eq_special _ _ := toLower_eq_special
  boundText
    | .null => none
    | value => some value.toText
  boundText_null := rfl
  boundText_scalar value h := by
    cases value with
    | null => cases h
    | _ => rfl
  compareText
    | .moreThan, a, b => some (Js.lt b a)
    | .moreThanOrEqual, a, b => some (!Js.lt a b)
    | .lessThan, a, b => some (Js.lt a b)
    | .lessThanOrEqual, a, b => some (!Js.lt b a)

/-! ## Offers with a name and with details -/

def offerEntity : EntityMetadata where
  columns := [⟨"name", .other⟩, ⟨"details", .jsonb⟩]
  relations := []
  primaryColumns := ["name"]

def offerSchema : Schema where
  root := offerEntity
  entity _ := offerEntity
  root_names := by decide
  entity_names _ := by decide

end ErpApi.Query
