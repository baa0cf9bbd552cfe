import ErpApi.Query.Postgres

set_option autoImplicit false

/-! # Searching for a text

The operators `ieq`, `cont`, `starts` and `ends` put the value into a pattern of `ILIKE` as it
is, in both vocabularies and on both kinds of columns. `literalReading_iff` says that they find
the value where it stands exactly if it holds none of the characters `%`, `_` and backslash.
-/

namespace ErpApi.Query

open ErpApi.Like

inductive TextOperator where
  | ieq
  | cont
  | starts
  | ends
  deriving DecidableEq

def TextOperator.search : TextOperator → SearchOperator
  | .ieq => .ieq
  | .cont => .cont
  | .starts => .starts
  | .ends => .ends

def TextOperator.filter : TextOperator → FilterOperator
  | .ieq => .ieq
  | .cont => .cont
  | .starts => .starts
  | .ends => .ends

def Vocabulary.textCondition (vocabulary : Vocabulary) (field v : String)
    (operator : TextOperator) : Condition :=
  match vocabulary with
  | .s => .search field (.obj [(operator.search.text, .str v)])
  | .filter => .filter ⟨field, operator.filter, v⟩

/-- What the operators should find. -/
def TextOperator.Finds (v c : List Char) : TextOperator → Prop
  | .ieq => c = v
  | .cont => v <:+: c
  | .starts => v <+: c
  | .ends => v <:+ c

/-! ## The patterns -/

/-- Whether the text may go on before the value. -/
def TextOperator.front : TextOperator → Bool
  | .ieq => false
  | .cont => true
  | .starts => false
  | .ends => true

def TextOperator.back : TextOperator → Bool
  | .ieq => false
  | .cont => true
  | .starts => true
  | .ends => false

def TextOperator.pattern (v : String) : TextOperator → String
  | .ieq => v
  | .cont => "%" ++ v ++ "%"
  | .starts => v ++ "%"
  | .ends => "%" ++ v

theorem TextOperator.finds_iff (operator : TextOperator) {v c : List Char} :
    operator.Finds v c ↔ Occurs operator.front operator.back v c := by
  cases operator with
  | ieq => exact occurs_closed.symm
  | cont => exact occurs_infix.symm
  | starts => exact occurs_prefix.symm
  | ends => exact occurs_suffix.symm

section Fold

variable (db : Database)

theorem fold_append (a b : String) : db.fold (a ++ b) = db.fold a ++ db.fold b := by
  simp [Database.fold]

theorem fold_percent : db.fold "%" = ['%'] := by
  have hlower : db.lower '%' = '%' := (db.lower_eq_special '%' '%' (by decide)).mpr rfl
  show [db.lower '%'] = ['%']
  rw [hlower]

theorem TextOperator.fold_pattern (operator : TextOperator) (v : String) :
    db.fold (operator.pattern v) = searchPattern operator.front operator.back (db.fold v) := by
  cases operator with
  | ieq => simp [TextOperator.pattern, TextOperator.front, TextOperator.back, searchPattern, gap]
  | cont =>
      simp [TextOperator.pattern, TextOperator.front, TextOperator.back, searchPattern, gap,
        fold_append, fold_percent]
  | starts =>
      simp [TextOperator.pattern, TextOperator.front, TextOperator.back, searchPattern, gap,
        fold_append, fold_percent]
  | ends =>
      simp [TextOperator.pattern, TextOperator.front, TextOperator.back, searchPattern, gap,
        fold_append, fold_percent]

theorem isSpecial_lower (c : Char) : isSpecial (db.lower c) = isSpecial c := by
  have h : ∀ s, isSpecial s = true → (db.lower c = s ↔ c = s) :=
    fun s hs => db.lower_eq_special c s hs
  simp only [isSpecial, h '%' rfl, h '_' rfl, h '\\' rfl]

theorem literal_fold {v : String} : Literal (db.fold v) ↔ Literal v.toList := by
  constructor
  · intro h c hc
    rw [← isSpecial_lower db]
    exact h _ (List.mem_map_of_mem hc)
  · intro h c hc
    obtain ⟨d, hd, rfl⟩ := List.mem_map.mp hc
    rw [isSpecial_lower]
    exact h d hd

/-- A text in lower case is its own lower case. -/
theorem fold_ofList {text : List Char} (h : ∀ c ∈ text, db.lower c = c) :
    db.fold (String.ofList text) = text := by
  rw [Database.fold, String.toList_ofList]
  calc text.map db.lower
      = text.map id := List.map_congr_left h
    _ = text := List.map_id text

end Fold

/-! ## What the operators select -/

section Selects

variable {schema : Schema} {lib : Library} {timezone field : String} (db : Database)

/-- The leaf of a search for a text, the same in both vocabularies. -/
theorem textCondition_leaf (vocabulary : Vocabulary) (operator : TextOperator) (v : String) :
    (vocabulary.textCondition field v operator).leaf schema lib timezone =
      .ok (.operator (match jsonbTarget schema field with
        | some (_, jsonPath) => .jsonb jsonPath (.iLike (operator.pattern v))
        | none => .iLike (operator.pattern v))) := by
  have hvalid := assertValidSearchOperator_text operator.search
  have hname : (vocabulary.textCondition field v operator).field = field := by
    cases vocabulary <;> rfl
  cases htarget : jsonbTarget schema field with
  | some target =>
      obtain ⟨column, jsonPath⟩ := target
      simp only [Condition.leaf, hname, htarget]
      cases vocabulary with
      | s =>
          have hentry : jsonbSearchOperator jsonPath (operator.search.text, .str v) =
              .ok (.jsonb jsonPath (.iLike (operator.pattern v))) := by
            refine bind_eq_ok.mpr ⟨_, hvalid, ?_⟩
            cases operator <;> rfl
          simp only [Vocabulary.textCondition, buildJsonbSearchCondition, List.length_singleton,
            List.mapM_cons, List.mapM_nil, hentry]
          rfl
      | filter => cases operator <;> rfl
  | none =>
      simp only [Condition.leaf, hname, htarget]
      cases vocabulary with
      | s =>
          have hentry : searchOperatorCondition lib timezone (isDateColumnRecursive schema field)
              (operator.search.text, .str v) = .ok (.iLike (operator.pattern v)) := by
            refine bind_eq_ok.mpr ⟨_, hvalid, bind_eq_ok.mpr ⟨.str v, ?_, ?_⟩⟩
            · cases operator <;> cases isDateColumnRecursive schema field <;> rfl
            · cases operator <;> rfl
          simp only [Vocabulary.textCondition, buildConditionValue, processOperatorCondition,
            List.length_singleton, List.mapM_cons, List.mapM_nil, hentry]
          rfl
      | filter =>
          have hoperand :
              filterOperand schema lib timezone ⟨field, operator.filter, v⟩ = .ok v := by
            rw [filterOperand]
            split
            · cases operator <;> rfl
            · rfl
          have henum : validateEnumValueForFilter schema ⟨field, operator.filter, v⟩ = .ok () := by
            cases operator <;> rfl
          refine bind_eq_ok.mpr ⟨(), henum, bind_eq_ok.mpr ⟨v, hoperand, ?_⟩⟩
          cases operator <;> rfl

/-- **What a search for a text selects**: the rows whose text matches the pattern. -/
theorem textCondition_selects (hfield : IsTextField schema field) {row : Row Cell} {c : String}
    (hrow : fieldText schema field row = some c) (vocabulary : Vocabulary)
    (operator : TextOperator) (v : String) :
    (vocabulary.textCondition field v operator).selectsRow schema lib timezone db.sql row =
      .ok (like (searchPattern operator.front operator.back (db.fold v)) (db.fold c)) := by
  have hname : (vocabulary.textCondition field v operator).field = field := by
    cases vocabulary <;> rfl
  have hbare : jsonbTarget schema (vocabulary.textCondition field v operator).field = none →
      isJsonbPath schema (vocabulary.textCondition field v operator).field = false := by
    rw [hname]
    exact hfield
  rw [selectsRow_eq hbare (textCondition_leaf vocabulary operator v), hname,
    ← TextOperator.fold_pattern]
  congr 1
  rw [fieldText] at hrow
  cases htarget : jsonbTarget schema field with
  | some target =>
      obtain ⟨column, jsonPath⟩ := target
      simp only [htarget, Option.bind_eq_some_iff] at hrow
      obtain ⟨cell, hcell, htext⟩ := hrow
      have hat : (some cell : Option Cell).bind (db.sql.textAt · jsonPath) = some c := htext
      simp only [wherePath, htarget, hcell, transformNullValue, Leaf.holds, FindOperator.eval, hat]
      show (some (db.ilike c (operator.pattern v)) == some true) = _
      simp [Database.ilike]
  | none =>
      simp only [htarget, Option.bind_eq_some_iff] at hrow
      obtain ⟨cell, hcell, htext⟩ := hrow
      obtain rfl : cell = .text c := by
        cases cell with
        | text d => rw [Option.some.inj htext]
        | jsonb _ => cases htext
      simp only [wherePath, htarget, hcell, transformNullValue, Leaf.holds, FindOperator.eval]
      show (some (db.ilike c (operator.pattern v)) == some true) = _
      simp [Database.ilike]

/-- The condition selects the rows in whose text the operator finds the value, in any case. -/
def LiteralReading (schema : Schema) (lib : Library) (timezone : String) (db : Database)
    (vocabulary : Vocabulary) (operator : TextOperator) (field v : String) : Prop :=
  ∀ row c, fieldText schema field row = some c →
    ∃ selected, (vocabulary.textCondition field v operator).selectsRow schema lib timezone db.sql
        row = .ok selected ∧
      (selected = true ↔ operator.Finds (db.fold v) (db.fold c))

/-- **When a value is taken literally**: if it holds none of `%`, `_` and backslash. -/
theorem literalReading_iff (hfield : IsTextField schema field) (vocabulary : Vocabulary)
    (operator : TextOperator) (v : String) :
    LiteralReading schema lib timezone db vocabulary operator field v ↔ Literal v.toList := by
  constructor
  · intro hreading
    by_contra hspecial
    rw [← literal_fold db] at hspecial
    obtain ⟨text, hmem, hmisread⟩ := exists_misread hspecial operator.front operator.back
    have hlower : ∀ c ∈ text, db.lower c = c := by
      intro c hc
      rcases hmem c hc with h | rfl
      · obtain ⟨d, -, rfl⟩ := List.mem_map.mp h
        exact db.lower_lower d
      · exact (db.lower_eq_special '%' '%' rfl).mpr rfl
    have hrow := fieldText_textRow schema field (String.ofList text)
    obtain ⟨selected, hselected, hiff⟩ := hreading _ _ hrow
    rw [textCondition_selects db hfield hrow] at hselected
    obtain rfl := Except.ok.inj hselected
    rw [fold_ofList db hlower, operator.finds_iff] at hiff
    exact hmisread hiff
  · intro hliteral row c hrow
    have hfold : Literal (db.fold v) := (literal_fold db).mpr hliteral
    refine ⟨_, textCondition_selects db hfield hrow vocabulary operator v, ?_⟩
    rw [operator.finds_iff]
    exact like_searchPattern hfold (db.fold c)

end Selects

/-! ## A discount of 50% -/

theorem details_isTextField : IsTextField offerSchema "details.label" := by
  intro h
  exact absurd h (by decide +kernel)

theorem name_isTextField : IsTextField offerSchema "name" := fun _ => by decide +kernel

/-- Plain words are found where they stand. -/
theorem literalReading_summer :
    LiteralReading offerSchema plainLibrary "Asia/Bangkok" asciiDatabase .s .cont "details.label"
        "summer sale" := by
  have hall : "summer sale".toList.all (fun c => !isSpecial c) = true := by decide +kernel
  have hliteral : Literal "summer sale".toList := fun c hc => by
    simpa using List.all_eq_true.mp hall c hc
  exact (literalReading_iff asciiDatabase details_isTextField .s .cont "summer sale").mpr hliteral

/-- A search for `50%` finds a row that names an amount of 500. -/
theorem percent_is_no_percent :
    (Vocabulary.filter.textCondition "name" "50%" .cont).selectsRow offerSchema plainLibrary
        "Asia/Bangkok" asciiDatabase.sql (textRow offerSchema "name" "500 off") = .ok true ∧
    ¬ TextOperator.cont.Finds (asciiDatabase.fold "50%") (asciiDatabase.fold "500 off") ∧
    ¬ LiteralReading offerSchema plainLibrary "Asia/Bangkok" asciiDatabase .filter .cont "name"
        "50%" := by
  have hrow := fieldText_textRow offerSchema "name" "500 off"
  have hselects : (Vocabulary.filter.textCondition "name" "50%" .cont).selectsRow offerSchema
      plainLibrary "Asia/Bangkok" asciiDatabase.sql (textRow offerSchema "name" "500 off") =
      .ok true := by
    rw [textCondition_selects asciiDatabase name_isTextField hrow]
    exact congrArg Except.ok (by decide +kernel)
  have hmissing : ¬ TextOperator.cont.Finds (asciiDatabase.fold "50%")
      (asciiDatabase.fold "500 off") := by
    intro hinfix
    have hpercent : (asciiDatabase.fold "50%").contains '%' = true := by decide +kernel
    have hnone : (asciiDatabase.fold "500 off").contains '%' = false := by decide +kernel
    have hmem : '%' ∈ asciiDatabase.fold "500 off" :=
      List.IsInfix.subset hinfix (List.contains_iff_mem.mp hpercent)
    rw [List.contains_iff_mem.mpr hmem] at hnone
    cases hnone
  refine ⟨hselects, hmissing, ?_⟩
  intro hreading
  obtain ⟨selected, hselected, hiff⟩ := hreading _ _ hrow
  rw [hselects] at hselected
  obtain rfl := Except.ok.inj hselected
  exact hmissing (hiff.mp rfl)

end ErpApi.Query
