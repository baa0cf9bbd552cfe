import ErpApi.Basic.Json

set_option autoImplicit false

/-! # Values that JSON cannot write

The values of the source language as data: those of JSON, and `undefined`, bigints, symbols,
functions and cycles. `toJson` is `JSON.stringify` up to the text: it leaves out what JSON has no
word for, and throws on a bigint and on a cycle. `toJson_isOk` says on which values it does not.
-/

namespace ErpApi

/-- An error that the language itself throws. -/
inductive JsError where
  | typeError
  /-- The recursion is too deep. -/
  | rangeError
  deriving DecidableEq

/-- A number is kept as the text that `String` gives for it. A value with a cycle is unrolled as far
as the code looks, and `circular` stands where it is cut. Objects have no method `toJSON`. -/
inductive JsValue where
  | undefined
  | null
  | bool (b : Bool)
  | num (text : String)
  /-- `NaN` or an infinity. -/
  | nonFinite (text : String)
  | str (text : String)
  | bigint (text : String)
  | symbol
  | function
  | arr (items : List JsValue)
  | obj (entries : List (String × JsValue))
  | circular

namespace Json

/-- The text of a string literal, in ASCII codes: `"` is 34 and the backslash is 92. -/
def quoteChar (c : Char) : String :=
  match c.toNat with
  | 34 => "\\\""
  | 92 => "\\\\"
  | 8 => "\\b"
  | 12 => "\\f"
  | 10 => "\\n"
  | 13 => "\\r"
  | 9 => "\\t"
  | code =>
      if code < 32 then
        "\\u00" ++ String.ofList [Nat.digitChar (code / 16), Nat.digitChar (code % 16)]
      else String.singleton c

def quote (text : String) : String := "\"" ++ String.join (text.toList.map quoteChar) ++ "\""

mutual

/-- The text of `JSON.stringify`. -/
def write : Json → String
  | .null => "null"
  | .bool b => if b then "true" else "false"
  | .num text => text
  | .str text => quote text
  | .arr items => "[" ++ String.intercalate "," (writeItems items) ++ "]"
  | .obj entries => "\x7b" ++ String.intercalate "," (writeEntries entries) ++ "\x7d"

def writeItems : List Json → List String
  | [] => []
  | v :: items => write v :: writeItems items

def writeEntries : List (String × Json) → List String
  | [] => []
  | (key, v) :: entries => (quote key ++ ":" ++ write v) :: writeEntries entries

end

end Json

namespace JsValue

mutual

def ofJson : Json → JsValue
  | .null => .null
  | .bool b => .bool b
  | .num text => .num text
  | .str text => .str text
  | .arr items => .arr (ofItems items)
  | .obj entries => .obj (ofEntries entries)

def ofItems : List Json → List JsValue
  | [] => []
  | v :: items => ofJson v :: ofItems items

def ofEntries : List (String × Json) → List (String × JsValue)
  | [] => []
  | (key, v) :: entries => (key, ofJson v) :: ofEntries entries

end

mutual

/-- What `JSON.stringify` writes; `none` is `undefined`. -/
def toJson : JsValue → Except JsError (Option Json)
  | .undefined => .ok none
  | .null => .ok (some .null)
  | .bool b => .ok (some (.bool b))
  | .num text => .ok (some (.num text))
  | .nonFinite _ => .ok (some .null)
  | .str text => .ok (some (.str text))
  | .bigint _ => .error .typeError
  | .symbol => .ok none
  | .function => .ok none
  | .arr items => do return some (.arr (← toItems items))
  | .obj entries => do return some (.obj (← toEntries entries))
  | .circular => .error .typeError

def toItems : List JsValue → Except JsError (List Json)
  | [] => .ok []
  | v :: items => do
      let json ← toJson v
      let rest ← toItems items
      return json.getD .null :: rest

def toEntries : List (String × JsValue) → Except JsError (List (String × Json))
  | [] => .ok []
  | (key, v) :: entries => do
      let json ← toJson v
      let rest ← toEntries entries
      return (json.toList.map fun json => (key, json)) ++ rest

end

/-- The own member of an object. -/
def member (v : JsValue) (key : String) : Option JsValue :=
  match v with
  | .obj entries => entries.lookup key
  | _ => none

def isUndefined : JsValue → Bool
  | .undefined => true
  | _ => false

mutual

/-- The value with what JSON has no word for as `null`. -/
def view : JsValue → Json
  | .bool b => .bool b
  | .num text => .num text
  | .str text => .str text
  | .bigint text => .num text
  | .arr items => .arr (viewItems items)
  | .obj entries => .obj (viewEntries entries)
  | _ => .null

def viewItems : List JsValue → List Json
  | [] => []
  | v :: items => view v :: viewItems items

def viewEntries : List (String × JsValue) → List (String × Json)
  | [] => []
  | (key, v) :: entries => (key, view v) :: viewEntries entries

end

/-! ## When there is a text -/

mutual

/-- There is neither a bigint nor a cycle in the value. -/
def isData : JsValue → Bool
  | .bigint _ => false
  | .circular => false
  | .arr items => itemsAreData items
  | .obj entries => entriesAreData entries
  | _ => true

def itemsAreData : List JsValue → Bool
  | [] => true
  | v :: items => isData v && itemsAreData items

def entriesAreData : List (String × JsValue) → Bool
  | [] => true
  | (_, v) :: entries => isData v && entriesAreData entries

end

mutual

/-- `JSON.stringify` throws on a bigint and on a cycle, and nowhere else. -/
theorem toJson_isOk : ∀ v : JsValue, (toJson v).isOk = isData v
  | .undefined => rfl
  | .null => rfl
  | .bool _ => rfl
  | .num _ => rfl
  | .nonFinite _ => rfl
  | .str _ => rfl
  | .bigint _ => rfl
  | .symbol => rfl
  | .function => rfl
  | .circular => rfl
  | .arr items => by
      rw [isData, ← toItems_isOk items, toJson]
      cases toItems items <;> rfl
  | .obj entries => by
      rw [isData, ← toEntries_isOk entries, toJson]
      cases toEntries entries <;> rfl

theorem toItems_isOk : ∀ items : List JsValue, (toItems items).isOk = itemsAreData items
  | [] => rfl
  | v :: items => by
      rw [itemsAreData, ← toJson_isOk v, ← toItems_isOk items, toItems]
      cases toJson v with
      | error e => rfl
      | ok json => cases toItems items <;> rfl

theorem toEntries_isOk : ∀ entries : List (String × JsValue),
    (toEntries entries).isOk = entriesAreData entries
  | [] => rfl
  | (key, v) :: entries => by
      rw [entriesAreData, ← toJson_isOk v, ← toEntries_isOk entries, toEntries]
      cases toJson v with
      | error e => rfl
      | ok json => cases toEntries entries <;> rfl

end

mutual

/-- A value of JSON is written as it is. -/
theorem toJson_ofJson : ∀ v : Json, toJson (ofJson v) = .ok (some v)
  | .null => rfl
  | .bool _ => rfl
  | .num _ => rfl
  | .str _ => rfl
  | .arr items => by
      rw [ofJson, toJson, toItems_ofItems items]
      rfl
  | .obj entries => by
      rw [ofJson, toJson, toEntries_ofEntries entries]
      rfl

theorem toItems_ofItems : ∀ items : List Json, toItems (ofItems items) = .ok items
  | [] => rfl
  | v :: items => by
      rw [ofItems, toItems, toJson_ofJson v, toItems_ofItems items]
      rfl

theorem toEntries_ofEntries : ∀ entries : List (String × Json),
    toEntries (ofEntries entries) = .ok entries
  | [] => rfl
  | (key, v) :: entries => by
      rw [ofEntries, toEntries, toJson_ofJson v, toEntries_ofEntries entries]
      rfl

end

mutual

theorem view_ofJson : ∀ v : Json, view (ofJson v) = v
  | .null => rfl
  | .bool _ => rfl
  | .num _ => rfl
  | .str _ => rfl
  | .arr items => by rw [ofJson, view, viewItems_ofItems items]
  | .obj entries => by rw [ofJson, view, viewEntries_ofEntries entries]

theorem viewItems_ofItems : ∀ items : List Json, viewItems (ofItems items) = items
  | [] => rfl
  | v :: items => by rw [ofItems, viewItems, view_ofJson v, viewItems_ofItems items]

theorem viewEntries_ofEntries : ∀ entries : List (String × Json),
    viewEntries (ofEntries entries) = entries
  | [] => rfl
  | (key, v) :: entries => by
      rw [ofEntries, viewEntries, view_ofJson v, viewEntries_ofEntries entries]

end

theorem lookup_ofEntries (entries : List (String × Json)) (key : String) :
    (ofEntries entries).lookup key = (entries.lookup key).map ofJson := by
  induction entries with
  | nil => rfl
  | cons entry entries ih =>
      obtain ⟨k, v⟩ := entry
      rw [ofEntries, List.lookup_cons, List.lookup_cons, ih]
      cases key == k <;> rfl

theorem isData_of_isUndefined {v : JsValue} (h : v.isUndefined = true) : v.isData = true := by
  cases v with
  | undefined => rfl
  | _ => cases h

theorem entriesAreData_iff {entries : List (String × JsValue)} :
    entriesAreData entries = true ↔ ∀ entry ∈ entries, isData entry.2 = true := by
  induction entries with
  | nil => simp [entriesAreData]
  | cons entry entries ih =>
      obtain ⟨key, v⟩ := entry
      simp [entriesAreData, ih]

end JsValue

end ErpApi
