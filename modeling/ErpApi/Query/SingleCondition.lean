import ErpApi.Query.WhereCorrect

set_option autoImplicit false

/-! # One condition alone

What the builder makes of a single condition of `s` or `filter`, and the rows that the where
value selects: those whose column passes the condition's leaf (`selectsRow_eq`).
-/

namespace ErpApi.Query

open ErpApi.ObjectTree

variable (schema : Schema) (lib : Library) (timezone : String)

def Condition.whereObject (c : Condition) : Except QueryError WhereObject :=
  match c with
  | .search key condition => addSearchCondition schema lib timezone .nil (key, condition)
  | .filter f => singleCondition schema lib timezone f

/-- Whether the condition alone selects the row. -/
def Condition.selectsRow {V : Type} (sql : Sql V) (row : Row V) (c : Condition) :
    Except QueryError Bool := do
  let conditions ← c.whereObject schema lib timezone
  return (transformNullValues conditions).selects sql row

variable {schema lib timezone}

/-- An object with one leaf selects the rows that pass it. -/
theorem single_selects {V : Type} {sql : Sql V} {row : Row V} {leaf : Leaf} {path : List String}
    (hpath : path ≠ []) :
    (transformNullValues (Fields.single leaf path)).selects sql row =
      (transformNullValue leaf).holds sql (row path) := by
  rw [Bool.eq_iff_iff, WhereObject.selects_iff, transformNullValues, Fields.all_map]
  constructor
  · exact fun h => Fields.leaf_of_all_single [] path hpath h
  · exact fun h => Fields.all_single [] path h fun _ _ _ => trivial

theorem whereObject_eq {c : Condition} {leaf : Leaf}
    (hbare : jsonbTarget schema c.field = none → isJsonbPath schema c.field = false)
    (h : c.leaf schema lib timezone = .ok leaf) :
    c.whereObject schema lib timezone = .ok (Fields.single leaf (wherePath schema c.field)) := by
  cases htarget : jsonbTarget schema c.field with
  | some target =>
      obtain ⟨column, jsonPath⟩ := target
      have hjsonb : isJsonbPath schema c.field = true := (jsonbTarget_eq_some htarget).1
      have hextract : extractJsonbColumnAndPath schema c.field = some (column, jsonPath) := by
        simpa [jsonbTarget, hjsonb] using htarget
      have hplace : wherePath schema c.field = [column] := by simp [wherePath, htarget]
      rw [hplace]
      simp only [Condition.leaf, htarget] at h
      cases c with
      | search key condition =>
          obtain ⟨op, hop, hleaf⟩ := bind_eq_ok.mp h
          obtain rfl := Except.ok.inj hleaf
          simp only [Condition.field] at hjsonb hextract
          simp only [Condition.whereObject, addSearchCondition, hjsonb, if_true, hextract, hop]
          rfl
      | filter f =>
          obtain ⟨op, hop, hleaf⟩ := bind_eq_ok.mp h
          obtain rfl := Except.ok.inj hleaf
          simp only [Condition.field] at hjsonb hextract
          simp only [Condition.whereObject, singleCondition, hjsonb, if_true, hextract, hop]
          rfl
  | none =>
      have hplain := hbare htarget
      rw [wherePath_of_plain hplain]
      simp only [Condition.leaf, htarget] at h
      cases c with
      | search key condition =>
          simp only [Condition.field] at hplain ⊢
          simp only [Condition.whereObject, addSearchCondition, hplain, Bool.false_eq_true,
            if_false, h]
          by_cases hdot : key.toList.contains '.' = true
          · simp only [hdot, if_true]
            exact congrArg Except.ok (Fields.setPath_nil mergeRule leaf (parts key))
          · simp only [hdot]
            rw [parts_of_not_contains hdot]
            rfl
      | filter f =>
          obtain ⟨u, hu, hrest⟩ := bind_eq_ok.mp h
          obtain ⟨value, hvalue, hleaf⟩ := bind_eq_ok.mp hrest
          simp only [Condition.field] at hplain ⊢
          simp only [Condition.whereObject, singleCondition, hplain, Bool.false_eq_true, if_false]
          refine bind_eq_ok.mpr ⟨u, hu, bind_eq_ok.mpr ⟨value, hvalue,
            bind_eq_ok.mpr ⟨leaf, hleaf, ?_⟩⟩⟩
          by_cases hdot : f.field.toList.contains '.' = true
          · simp only [hdot, if_true]
            exact congrArg Except.ok (Fields.setPath_nil mergeRule leaf (parts f.field))
          · simp only [hdot]
            rw [parts_of_not_contains hdot]
            rfl

/-- **A condition alone selects the rows that pass its leaf.** -/
theorem selectsRow_eq {V : Type} {sql : Sql V} {row : Row V} {c : Condition} {leaf : Leaf}
    (hbare : jsonbTarget schema c.field = none → isJsonbPath schema c.field = false)
    (h : c.leaf schema lib timezone = .ok leaf) :
    c.selectsRow schema lib timezone sql row =
      .ok ((transformNullValue leaf).holds sql (row (wherePath schema c.field))) := by
  have hpath : wherePath schema c.field ≠ [] := wherePath_ne_nil schema c.field
  have hobject := whereObject_eq hbare h
  rw [← single_selects hpath]
  exact bind_eq_ok.mpr ⟨_, hobject, rfl⟩

/-! ## Conditions in both vocabularies -/

inductive Vocabulary where
  | s
  | filter
  deriving DecidableEq

theorem find_text (operator : SearchOperator) :
    (SearchOperator.all.find? fun op => op.text == operator.text) = some operator := by
  cases operator <;> decide +kernel

theorem assertValidSearchOperator_text (operator : SearchOperator) :
    assertValidSearchOperator operator.text = .ok operator := by
  rw [assertValidSearchOperator, find_text]
  rfl

end ErpApi.Query
