import ErpApi.Query.TypeOrmQueryBuilder

set_option autoImplicit false

/-! # The texts of filters

A filter is written `field||operator||value`. `parseFilterStrings` splits it at every `||` and puts
the parts after the second one together again, so the value may hold any number of bars
(`parseFilterString_encode`). An operator that is none of `FILTER_OPERATORS` fails the whole parse,
wherever the filter stands in the list; a filter with a blank field or a blank operator is left out
before its operator is looked at (`parseFilterStrings_correct`).
-/

namespace ErpApi.Query

/-- The text of a filter. -/
def encodeFilter (field : String) (operator : FilterOperator) (value : String) : String :=
  field ++ "||" ++ operator.text ++ "||" ++ value

/-! ## One text -/

theorem trim_filterOperator (operator : FilterOperator) : Js.trim operator.text = operator.text := by
  cases operator <;> decide +kernel

theorem find_filterOperator (operator : FilterOperator) :
    (FilterOperator.all.find? fun op => op.text == operator.text) = some operator := by
  cases operator <;> decide +kernel

theorem bar_notMem_filterOperator (operator : FilterOperator) : '|' ∉ operator.text.toList := by
  cases operator <;> decide

/-- The text of a filter is cut behind its field and behind its operator; the rest is the value,
in one part or in several. -/
theorem splitPair_encodeFilter {field : String} (hbar : '|' ∉ field.toList)
    (operator : FilterOperator) (value : String) :
    ∃ part rest, Js.splitPair '|' '|' (encodeFilter field operator value) =
        field :: operator.text :: part :: rest ∧
      String.intercalate "||" (part :: rest) = value := by
  have hlist : (encodeFilter field operator value).toList = field.toList ++
      '|' :: '|' :: (operator.text.toList ++ '|' :: '|' :: value.toList) := by
    simp [encodeFilter]
  obtain ⟨part, rest, hparts⟩ :=
    List.exists_cons_of_ne_nil (Js.splitPairList_ne_nil '|' '|' value.toList)
  have hjoin := Js.intercalate_splitPairList '|' '|' value.toList
  rw [hparts] at hjoin
  refine ⟨String.ofList part, rest.map String.ofList, ?_, ?_⟩
  · rw [Js.splitPair, hlist, Js.splitPairList_append hbar,
      Js.splitPairList_append (bar_notMem_filterOperator operator), hparts]
    simp
  · apply String.toList_injective
    rw [String.toList_intercalate, ← hjoin, ← List.map_cons, List.map_map]
    simp [Function.comp_def]

theorem parseFilterString_encode {field : String} (hblank : Js.trim field ≠ "")
    (hbar : '|' ∉ field.toList) (operator : FilterOperator) (value : String) :
    parseFilterString (encodeFilter field operator value) =
      .ok (some ⟨Js.trim field, operator, value⟩) := by
  obtain ⟨part, rest, hsplit, hvalue⟩ := splitPair_encodeFilter hbar operator value
  have hne : operator.text ≠ "" := by
    cases operator <;> decide
  rw [parseFilterString, hsplit]
  simp only [trim_filterOperator, find_filterOperator, hvalue]
  rw [if_neg (not_or.mpr ⟨hblank, hne⟩)]
  rfl

/-- An operator that is not listed is an error of its field. -/
theorem parseFilterString_unknown {filter field operator part : String} {rest : List String}
    (hsplit : Js.splitPair '|' '|' filter = field :: operator :: part :: rest)
    (hfield : Js.trim field ≠ "") (hoperator : Js.trim operator ≠ "")
    (hunknown : ∀ op : FilterOperator, op.text ≠ Js.trim operator) :
    parseFilterString filter = .error (.invalidParameter (Js.trim field)
      ("Invalid filter operator: '" ++ Js.trim operator ++ "'. Allowed operators are: [" ++
        joinNames (FilterOperator.all.map FilterOperator.text) ++ "]")) := by
  have hfind : (FilterOperator.all.find? fun op => op.text == Js.trim operator) = none := by
    refine List.find?_eq_none.mpr fun op _ => ?_
    rw [beq_iff_eq]
    exact hunknown op
  rw [parseFilterString, hsplit]
  simp only [hfind]
  rw [if_neg (not_or.mpr ⟨hfield, hoperator⟩)]
  rfl

/-- What an error of one filter says. -/
theorem parseFilterString_error {filter : String} {error : QueryError}
    (h : parseFilterString filter = .error error) :
    ∃ field message, error = .invalidParameter field message := by
  rw [parseFilterString] at h
  split at h
  · simp only at h
    split at h
    · cases h
    · split at h
      · cases h
      · exact ⟨_, _, (Except.error.inj h).symm⟩
  · cases h

/-! ## The list -/

/-- One failure fails the whole parse. -/
theorem parseFilterStrings_error {filters : List String} {filter : String} {error : QueryError}
    (hmem : filter ∈ filters) (h : parseFilterString filter = .error error) :
    ∃ field message, parseFilterStrings filters = .error (.invalidParameter field message) := by
  have hmapM : ∃ field message,
      filters.mapM parseFilterString = .error (.invalidParameter field message) := by
    induction filters with
    | nil => cases hmem
    | cons first filters ih =>
        rw [List.mapM_cons]
        cases hfirst : parseFilterString first with
        | error e =>
            obtain ⟨field, message, rfl⟩ := parseFilterString_error hfirst
            exact ⟨field, message, rfl⟩
        | ok parsed =>
            rcases List.mem_cons.mp hmem with rfl | hmem
            · rw [hfirst] at h
              cases h
            · obtain ⟨field, message, hrest⟩ := ih hmem
              exact ⟨field, message, by rw [hrest]; rfl⟩
  obtain ⟨field, message, hmapM⟩ := hmapM
  exact ⟨field, message, by rw [parseFilterStrings, hmapM]; rfl⟩

theorem parseFilterStrings_encode {entries : List (String × FilterOperator × String)}
    (h : ∀ e ∈ entries, Js.trim e.1 ≠ "" ∧ '|' ∉ e.1.toList) :
    parseFilterStrings (entries.map fun e => encodeFilter e.1 e.2.1 e.2.2) =
      .ok (entries.map fun e => ⟨Js.trim e.1, e.2.1, e.2.2⟩) := by
  have hmapM : (entries.map fun e => encodeFilter e.1 e.2.1 e.2.2).mapM parseFilterString =
      .ok (entries.map fun e => some ⟨Js.trim e.1, e.2.1, e.2.2⟩) := by
    induction entries with
    | nil => rfl
    | cons e entries ih =>
        obtain ⟨hblank, hbar⟩ := h e List.mem_cons_self
        have hrest := ih fun e' he' => h e' (List.mem_cons_of_mem e he')
        rw [List.map_cons, List.mapM_cons, parseFilterString_encode hblank hbar, hrest]
        rfl
  have hall : (entries.map fun e => some (⟨Js.trim e.1, e.2.1, e.2.2⟩ : Filter)).filterMap id =
      entries.map fun e => ⟨Js.trim e.1, e.2.1, e.2.2⟩ := by
    rw [List.filterMap_map]
    exact congrFun List.filterMap_eq_map' entries
  rw [parseFilterStrings, hmapM]
  exact congrArg Except.ok hall

/-- **Filters are read as they are written**, and a filter with an operator that is not listed fails
the parse, unless its field or its operator is blank. -/
theorem parseFilterStrings_correct :
    (∀ entries : List (String × FilterOperator × String),
      (∀ e ∈ entries, Js.trim e.1 ≠ "" ∧ '|' ∉ e.1.toList) →
      parseFilterStrings (entries.map fun e => encodeFilter e.1 e.2.1 e.2.2) =
        .ok (entries.map fun e => ⟨Js.trim e.1, e.2.1, e.2.2⟩)) ∧
    (∀ filters : List String, ∀ filter ∈ filters, ∀ field operator part rest,
      Js.splitPair '|' '|' filter = field :: operator :: part :: rest →
      Js.trim field ≠ "" → Js.trim operator ≠ "" →
      (∀ op : FilterOperator, op.text ≠ Js.trim operator) →
      ∃ field message,
        parseFilterStrings filters = .error (.invalidParameter field message)) := by
  refine ⟨fun entries h => parseFilterStrings_encode h, ?_⟩
  intro filters filter hmem field operator part rest hsplit hfield hoperator hunknown
  exact parseFilterStrings_error hmem
    (parseFilterString_unknown hsplit hfield hoperator hunknown)

/-- A value of bars, and a mistyped operator behind a good filter. -/
theorem bars_and_typo :
    parseFilterStrings [" name ||$eq||||a||"] = .ok [⟨"name", .eq, "||a||"⟩] ∧
      ∃ field message, parseFilterStrings ["name||$eq||a", "name||$eqq||b"] =
        .error (.invalidParameter field message) := by
  refine ⟨?_, ?_⟩
  · exact parseFilterStrings_correct.1 [(" name ", .eq, "||a||")] (by decide +kernel)
  · refine parseFilterStrings_correct.2 _ "name||$eqq||b" (by decide) "name" "$eqq" "b" []
      (by decide +kernel) (by decide +kernel) (by decide +kernel) fun op => ?_
    cases op <;> decide +kernel

/-- A filter with three parts and a blank operator is left out. -/
theorem blank_operator_skipped :
    Js.splitPair '|' '|' "name||||b" = ["name", "", "b"] ∧
      (∀ op : FilterOperator, op.text ≠ "") ∧ parseFilterStrings ["name||||b"] = .ok [] := by
  refine ⟨by decide +kernel, fun op => ?_, rfl⟩
  cases op <;> decide

end ErpApi.Query
