import ErpApi.Basic.JsDate
import ErpApi.Query.SingleCondition

set_option autoImplicit false

/-! # Comparing a timestamp with a day

The builder turns a date without time into one instant: the first of the local day for `>` and
`>=`, the last for `<` and `<=`. For the strict operators that is the wrong end of the day:
`< D` keeps the rows of day `D`, and so does `> D`. `dayReading_iff` says that the four operators
mean before, after and on the day exactly for the instants of other days.
-/

namespace ErpApi.Query

/-! ## Instants -/

def Comparison.test : Comparison → Int → Int → Bool
  | .moreThan, t, bound => bound < t
  | .moreThanOrEqual, t, bound => bound ≤ t
  | .lessThan, t, bound => t < bound
  | .lessThanOrEqual, t, bound => t ≤ bound

/-- A timestamp column in milliseconds; `readInstant` reads a bound text as an instant. -/
def timestampSql (readInstant : String → Option Int) : Sql Int where
  equal t
    | .str text => (readInstant text).map (t == ·)
    | _ => none
  compare comparison t
    | .str text => (readInstant text).map (comparison.test t)
    | _ => none
  iLike _ _ := none
  textAt _ _ := none
  textILike _ _ := false

/-- The library gives the first and the last millisecond of a local day. -/
structure LocalDay (lib : Library) (timezone : String) (readInstant : String → Option Int)
    (day : String) (first last : Int) : Prop where
  start : ∃ iso, lib.tzStartOfDay day timezone = some iso ∧ readInstant iso.text = some first
  finish : ∃ iso, lib.tzEndOfDay day timezone = some iso ∧ readInstant iso.text = some last
  le : first ≤ last

/-- A field path to a column of a date type. -/
structure DateField (schema : Schema) (field : String) : Prop where
  date : isDateColumnRecursive schema field = true
  plain : isJsonbPath schema field = false

/-! ## The operators of both vocabularies -/

def Comparison.search : Comparison → SearchOperator
  | .moreThan => .greater
  | .moreThanOrEqual => .greaterEqual
  | .lessThan => .less
  | .lessThanOrEqual => .lessEqual

def Comparison.filter : Comparison → FilterOperator
  | .moreThan => .gt
  | .moreThanOrEqual => .gte
  | .lessThan => .lt
  | .lessThanOrEqual => .lte

/-- The condition that compares a field with a value. -/
def Vocabulary.comparison (vocabulary : Vocabulary) (field value : String)
    (comparison : Comparison) : Condition :=
  match vocabulary with
  | .s => .search field (.obj [(comparison.search.text, .str value)])
  | .filter => .filter ⟨field, comparison.filter, value⟩

/-- What the four comparisons with a day should select. -/
def DayReading (first last t : Int) (selects : Comparison → Except QueryError Bool) : Prop :=
  ∃ before after fromDay toDay,
    (selects .lessThan = .ok before ∧ selects .moreThan = .ok after ∧
      selects .moreThanOrEqual = .ok fromDay ∧ selects .lessThanOrEqual = .ok toDay) ∧
    (before = true ↔ t < first) ∧ (after = true ↔ last < t) ∧
    ((fromDay = true ∧ toDay = true) ↔ first ≤ t ∧ t ≤ last) ∧
    [before, after, fromDay && toDay].count true = 1 ∧
    before = !fromDay ∧ after = !toDay

section Day

variable {schema : Schema} {lib : Library} {timezone field day : String}
  {readInstant : String → Option Int} {first last : Int}

/-- The instant that a comparison with a day is made with. -/
def Comparison.bound (first last : Int) : Comparison → Int
  | .moreThan | .moreThanOrEqual => first
  | .lessThan | .lessThanOrEqual => last

def Comparison.direction : Comparison → ComparisonDirection
  | .moreThan | .moreThanOrEqual => .greater
  | .lessThan | .lessThanOrEqual => .less

theorem isSpace_of_isDigit {c : Char} (h : c.isDigit = true) : Js.isSpace c = false := by
  have hbounds : 48 ≤ c.toNat ∧ c.toNat ≤ 57 := by
    simp only [Char.isDigit, Bool.and_eq_true, decide_eq_true_eq] at h
    exact h
  rw [Bool.eq_false_iff]
  intro hspace
  simp [Js.isSpace] at hspace
  omega

theorem trim_ne_empty_of_isDateOnly (h : isDateOnly day = true) : Js.trim day ≠ "" := by
  unfold isDateOnly at h
  split at h
  · rename_i y1 y2 y3 y4 h1 m1 m2 h2 d1 d2 hlist
    have hdigit : y1.isDigit = true := by
      simp only [List.all_cons, Bool.and_eq_true] at h
      exact h.1.1.1
    exact Js.trim_ne_empty (by rw [hlist]; exact List.mem_cons_self) (isSpace_of_isDigit hdigit)
  · cases h

/-- A day becomes its first or its last instant, with `>` and `>=` or with `<` and `<=`. -/
theorem processDateText_day (hday : isDateOnly day = true)
    (hlocal : LocalDay lib timezone readInstant day first last) (comparison : Comparison) :
    ∃ text, processDateText lib timezone day comparison.direction = .ok text ∧
      readInstant text = some (comparison.bound first last) := by
  obtain ⟨start, hstart, hfirst⟩ := hlocal.start
  obtain ⟨finish, hfinish, hlast⟩ := hlocal.finish
  have hexpand : ∀ direction, processDateText lib timezone day direction =
      expandDateOnlyValue lib timezone day direction := by
    intro direction
    rw [processDateText, if_neg (trim_ne_empty_of_isDateOnly hday), if_pos hday]
  have hgreater : expandDateOnlyValue lib timezone day .greater = .ok start.text := by
    rw [expandDateOnlyValue, hstart]
    rfl
  have hless : expandDateOnlyValue lib timezone day .less = .ok finish.text := by
    rw [expandDateOnlyValue, hfinish]
    rfl
  rw [hexpand]
  cases comparison with
  | moreThan => exact ⟨start.text, hgreater, hfirst⟩
  | moreThanOrEqual => exact ⟨start.text, hgreater, hfirst⟩
  | lessThan => exact ⟨finish.text, hless, hlast⟩
  | lessThanOrEqual => exact ⟨finish.text, hless, hlast⟩

theorem comparison_leaf_filter (hfield : DateField schema field) (comparison : Comparison)
    {text : String}
    (htext : processDateText lib timezone day comparison.direction = .ok text) :
    (Vocabulary.filter.comparison field day comparison).leaf schema lib timezone =
      .ok (.operator (.compare comparison (.str text))) := by
  have htarget : jsonbTarget schema field = none := by simp [jsonbTarget, hfield.plain]
  have henum : validateEnumValueForFilter schema ⟨field, comparison.filter, day⟩ = .ok () := by
    cases comparison <;> rfl
  have hbetween : comparison.filter ≠ .between := by cases comparison <;> decide
  have hdate : ¬ (!isDateComparisonFilter comparison.filter) = true := by
    cases comparison <;> decide
  have hdirection : mapFilterOperatorToDirection comparison.filter = comparison.direction := by
    cases comparison <;> rfl
  have hoperand : filterOperand schema lib timezone ⟨field, comparison.filter, day⟩ = .ok text := by
    rw [filterOperand, if_pos hfield.date, processDateValueForFilter, if_neg hbetween,
      if_neg hdate, hdirection]
    exact htext
  have happly : applyFilterOperator comparison.filter text =
      .ok (.operator (.compare comparison (.str text))) := by
    cases comparison <;> rfl
  simp only [Vocabulary.comparison, Condition.leaf, Condition.field, htarget]
  exact bind_eq_ok.mpr ⟨(), henum, bind_eq_ok.mpr ⟨text, hoperand, happly⟩⟩

theorem comparison_leaf_s (hfield : DateField schema field) (comparison : Comparison)
    {text : String}
    (htext : processDateText lib timezone day comparison.direction = .ok text) :
    (Vocabulary.s.comparison field day comparison).leaf schema lib timezone =
      .ok (.operator (.compare comparison (.str text))) := by
  have htarget : jsonbTarget schema field = none := by simp [jsonbTarget, hfield.plain]
  have hvalid := assertValidSearchOperator_text comparison.search
  have hbetween : comparison.search ≠ .between := by cases comparison <;> decide
  have hdate : isDateComparisonSearch comparison.search = true := by cases comparison <;> rfl
  have hdirection : mapSearchOperatorToDirection comparison.search = comparison.direction := by
    cases comparison <;> rfl
  have hoperand : searchOperand lib timezone true comparison.search (.str day) =
      .ok (.str text) := by
    rw [searchOperand, if_pos rfl, if_neg hbetween, if_pos hdate, hdirection]
    exact bind_eq_ok.mpr ⟨text, htext, rfl⟩
  have happly : applySearchOperator comparison.search (.str text) =
      .ok (.compare comparison (.str text)) := by
    cases comparison <;> rfl
  have hentry : searchOperatorCondition lib timezone true (comparison.search.text, .str day) =
      .ok (.compare comparison (.str text)) :=
    bind_eq_ok.mpr ⟨_, hvalid, bind_eq_ok.mpr ⟨_, hoperand, happly⟩⟩
  simp only [Vocabulary.comparison, Condition.leaf, Condition.field, htarget, hfield.date,
    buildConditionValue, processOperatorCondition, List.length_singleton, List.mapM_cons,
    List.mapM_nil, hentry]
  rfl

/-- **What a comparison with a day selects**: the rows on that side of one of its ends. -/
theorem comparison_selects (hfield : DateField schema field) (hday : isDateOnly day = true)
    (hlocal : LocalDay lib timezone readInstant day first last) {row : Row Int} {t : Int}
    (hrow : row (parts field) = some t) (vocabulary : Vocabulary) (comparison : Comparison) :
    (vocabulary.comparison field day comparison).selectsRow schema lib timezone
      (timestampSql readInstant) row =
    .ok (comparison.test t (comparison.bound first last)) := by
  obtain ⟨text, htext, hread⟩ := processDateText_day hday hlocal comparison
  have hleaf : (vocabulary.comparison field day comparison).leaf schema lib timezone =
      .ok (.operator (.compare comparison (.str text))) := by
    cases vocabulary with
    | s => exact comparison_leaf_s hfield comparison htext
    | filter => exact comparison_leaf_filter hfield comparison htext
  have hname : (vocabulary.comparison field day comparison).field = field := by
    cases vocabulary <;> rfl
  have hplain : isJsonbPath schema (vocabulary.comparison field day comparison).field = false := by
    rw [hname]
    exact hfield.plain
  rw [selectsRow_eq (fun _ => hplain) hleaf, wherePath_of_plain hplain, hname, hrow]
  show Except.ok (((some t).bind fun x => ((readInstant text).map (comparison.test x))) ==
    some true) = _
  rw [hread]
  simp

/-- **When the comparisons with a day mean what they say.** For the instants that are not on the
day; on the day itself only if it lasted a single millisecond. -/
theorem dayReading_iff (hfield : DateField schema field) (hday : isDateOnly day = true)
    (hlocal : LocalDay lib timezone readInstant day first last) {row : Row Int} {t : Int}
    (hrow : row (parts field) = some t) (vocabulary : Vocabulary) :
    DayReading first last t (fun comparison =>
      (vocabulary.comparison field day comparison).selectsRow schema lib timezone
        (timestampSql readInstant) row) ↔
    (first ≤ t ∧ t ≤ last → first = last) := by
  have hle := hlocal.le
  have hselects := comparison_selects hfield hday hlocal hrow vocabulary
  constructor
  · rintro ⟨before, after, fromDay, toDay, ⟨hbefore, hafter, -, -⟩, hlt, hgt, -⟩ hon
    obtain rfl := Except.ok.inj ((hselects .lessThan).symm.trans hbefore)
    obtain rfl := Except.ok.inj ((hselects .moreThan).symm.trans hafter)
    have hlt' : t < last ↔ t < first := decide_eq_true_iff.symm.trans hlt
    have hgt' : first < t ↔ last < t := decide_eq_true_iff.symm.trans hgt
    omega
  · intro hoff
    refine ⟨_, _, _, _, ⟨hselects .lessThan, hselects .moreThan, hselects .moreThanOrEqual,
      hselects .lessThanOrEqual⟩, ?_⟩
    show (decide (t < last) = true ↔ t < first) ∧ (decide (first < t) = true ↔ last < t) ∧
      ((decide (first ≤ t) = true ∧ decide (t ≤ last) = true) ↔ first ≤ t ∧ t ≤ last) ∧
      [decide (t < last), decide (first < t), decide (first ≤ t) && decide (t ≤ last)].count
        true = 1 ∧
      decide (t < last) = !decide (first ≤ t) ∧ decide (first < t) = !decide (t ≤ last)
    have hcases : t < first ∨ last < t ∨ (first = t ∧ t = last) := by omega
    rcases hcases with hlt | hgt | ⟨rfl, rfl⟩
    · have h1 : t < last := by omega
      have h2 : ¬ first < t := by omega
      have h3 : ¬ first ≤ t := by omega
      have h4 : t ≤ last := by omega
      have h5 : ¬ last < t := by omega
      simp [h1, h2, h3, h4, h5, hlt]
    · have h1 : ¬ t < last := by omega
      have h2 : first < t := by omega
      have h3 : first ≤ t := by omega
      have h4 : ¬ t ≤ last := by omega
      have h5 : ¬ t < first := by omega
      simp [h1, h2, h3, h4, h5, hgt]
    · simp

end Day

/-! ## The sixth of August in Bangkok -/

def orderEntity : EntityMetadata where
  columns := [⟨"created_at", .timestamptz⟩]
  relations := []
  primaryColumns := ["created_at"]

def orderSchema : Schema where
  root := orderEntity
  entity _ := orderEntity
  root_names := by decide
  entity_names _ := by decide

def isoText (text : String) (h : text ≠ "" ∧ isNullishLiteral text = false) : Option IsoText :=
  some ⟨text, h.1, h.2⟩

/-- A library that knows one day of one time zone. -/
def augustLibrary : Library :=
  { plainLibrary with
    tzStartOfDay := fun _ _ => isoText "2026-08-05T17:00:00.000Z" (by decide +kernel)
    tzEndOfDay := fun _ _ => isoText "2026-08-06T16:59:59.999Z" (by decide +kernel) }

theorem created_at_dateField : DateField orderSchema "created_at" where
  date := by decide +kernel
  plain := by decide +kernel

theorem august_localDay :
    LocalDay augustLibrary "Asia/Bangkok" (Js.dateParse id) "2026-08-06" 1785949200000
      1786035599999 where
  start := ⟨_, rfl, by decide +kernel⟩
  finish := ⟨_, rfl, by decide +kernel⟩
  le := by decide

/-- An order of the evening before is read rightly. -/
theorem dayReading_evening_before :
    DayReading 1785949200000 1786035599999 1785945600000 fun comparison =>
      (Vocabulary.filter.comparison "created_at" "2026-08-06" comparison).selectsRow orderSchema
        augustLibrary "Asia/Bangkok" (timestampSql (Js.dateParse id)) fun _ => some 1785945600000 :=
  (dayReading_iff created_at_dateField (by decide +kernel) august_localDay rfl .filter).mpr
    (by decide)

/-- An order of noon on that day. -/
def noonOrder : Row Int := fun _ => some 1785992400000

theorem noon_selects (comparison : Comparison) :
    (Vocabulary.filter.comparison "created_at" "2026-08-06" comparison).selectsRow orderSchema
      augustLibrary "Asia/Bangkok" (timestampSql (Js.dateParse id)) noonOrder =
    .ok (comparison.test 1785992400000 (comparison.bound 1785949200000 1786035599999)) :=
  comparison_selects created_at_dateField (by decide +kernel) august_localDay rfl .filter comparison

/-- It is found before the day and after it. -/
theorem noon_before_and_after :
    isDateOnly "2026-08-06" = true ∧
    (Vocabulary.filter.comparison "created_at" "2026-08-06" .lessThan).selectsRow orderSchema
      augustLibrary "Asia/Bangkok" (timestampSql (Js.dateParse id)) noonOrder = .ok true ∧
    (Vocabulary.filter.comparison "created_at" "2026-08-06" .moreThan).selectsRow orderSchema
      augustLibrary "Asia/Bangkok" (timestampSql (Js.dateParse id)) noonOrder = .ok true ∧
    ¬ DayReading 1785949200000 1786035599999 1785992400000 fun comparison =>
      (Vocabulary.filter.comparison "created_at" "2026-08-06" comparison).selectsRow orderSchema
        augustLibrary "Asia/Bangkok" (timestampSql (Js.dateParse id)) noonOrder := by
  refine ⟨by decide +kernel, noon_selects .lessThan, noon_selects .moreThan, ?_⟩
  rintro ⟨before, after, fromDay, toDay, ⟨hbefore, -⟩, hlt, -⟩
  obtain rfl := Except.ok.inj ((noon_selects .lessThan).symm.trans hbefore)
  exact absurd (hlt.mp rfl) (by decide)

end ErpApi.Query
