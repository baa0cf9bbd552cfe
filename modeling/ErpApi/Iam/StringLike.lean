import ErpApi.Basic.Wildcard
import ErpApi.Iam.PermissionGuard

set_option autoImplicit false

/-! # Text conditions with wildcards

A `StringLike` condition is meant as a glob: `*` stands for any text, the placeholder of the
user's id for that id, everything else for itself. The code fills in the first placeholder,
writes `.*` for each `*` and hands the result to the constructor `RegExp`. The two agree on the
*plain* values, whose characters stand for themselves in a regular expression, except where a
`*` would have to cover a line terminator (`stringLike_iff`).

Of the regular expressions only those of plain characters and `.*` are modelled; what the
runtime does with any other source is left open.
-/

namespace ErpApi.RegExp

open Wildcard

def lineTerminators : List Char := ['\n', '\r', '\u2028', '\u2029']

/-- What the dot stands for. -/
def dot (c : Char) : Bool := !lineTerminators.contains c

/-- The characters that never stand for themselves. Of the others only an opening brace may
have a meaning, if a quantifier starts with it. -/
def special : List Char := ['.', '*', '+', '?', '^', '$', '(', ')', '|', '[', '\\']

/-- After the comma of a quantifier: digits and the closing brace. -/
def quantifierEnd : List Char → Bool
  | [] => false
  | c :: text => c = '}' || (c.isDigit && quantifierEnd text)

/-- After the opening brace: digits, and the closing brace or a comma; `seen` says that a digit
was read. -/
def quantifierRest : Bool → List Char → Bool
  | _, [] => false
  | seen, c :: text =>
      if c.isDigit then quantifierRest true text
      else seen && (c = '}' || (c = ',' && quantifierEnd text))

/-- The parts of an expression of plain characters and `.*`, up to the final `$`. Any other
source has no parts. -/
def readWildcards : List Char → Option (List (Slot Char))
  | ['$'] => some []
  | '.' :: '*' :: text => (readWildcards text).map (.star :: ·)
  | c :: text =>
      if c ∈ special ∨ (c = '{' ∧ quantifierRest false text = true) then none
      else (readWildcards text).map (.lit c :: ·)
  | [] => none

/-- The call `new RegExp(source).test(text)` for such an expression. -/
def wildcardTest (source text : List Char) : Option Bool :=
  match source with
  | '^' :: body => (readWildcards body).map fun ps => accepts dot ps text
  | _ => none

end ErpApi.RegExp

namespace ErpApi.Iam

open Wildcard

/-- The runtime matches the expressions of plain characters and `.*`. -/
def ReadsWildcards (rt : JsRuntime) : Prop :=
  ∀ source text b, RegExp.wildcardTest source.toList text.toList = some b →
    rt.regExpTest source text = .ok b

/-! ## What a value means -/

def userIdPlaceholder : List Char := "$\x7buser.id\x7d".toList

def globSlot (c : Char) : Slot Char := if c = '*' then .star else .lit c

/-- The glob of a value after its first `skip` characters; the characters of the user's id
stand for themselves. -/
def globFrom (userId : List Char) : Nat → List Char → List (Slot Char)
  | _, [] => []
  | skip + 1, _ :: text => globFrom userId skip text
  | 0, c :: text =>
      if userIdPlaceholder <+: c :: text then
        userId.map .lit ++ globFrom userId (userIdPlaceholder.length - 1) text
      else globSlot c :: globFrom userId 0 text

def glob (value userId : String) : List (Slot Char) := globFrom userId.toList 0 value.toList

/-! ## Plain values -/

def noQuantifier : List Char → Bool
  | [] => true
  | c :: text => !(c = '{' && RegExp.quantifierRest false text) && noQuantifier text

/-- A text whose characters stand for themselves, but for `*`. -/
def plainText (text : List Char) : Bool :=
  text.all (fun c => c = '*' || !RegExp.special.contains c) && noQuantifier text

/-- The value is plain with the user's id in place of its first placeholder, and the id, if it
is used, has no `*`. -/
def plain (value userId : String) : Bool :=
  match Js.splitAtFirst userIdPlaceholder value.toList with
  | none => plainText value.toList
  | some (before, rest) =>
      !userId.toList.contains '*' && plainText (before ++ userId.toList ++ rest)

theorem plainText_cons {c : Char} {text : List Char} (h : plainText (c :: text) = true) :
    (c = '*' ∨ c ∉ RegExp.special) ∧
      ¬ (c = '{' ∧ RegExp.quantifierRest false text = true) ∧ plainText text = true := by
  obtain ⟨hchars, hquant⟩ := Bool.and_eq_true_iff.mp h
  obtain ⟨hbrace, hquant⟩ := Bool.and_eq_true_iff.mp hquant
  rw [List.all_cons, Bool.and_eq_true] at hchars
  refine ⟨by simpa using hchars.1, ?_, Bool.and_eq_true_iff.mpr ⟨hchars.2, hquant⟩⟩
  rintro ⟨rfl, hq⟩
  simp [hq] at hbrace

/-! ## The source of the expression -/

/-- The text with `.*` for each `*`. -/
def expand (text : List Char) : List Char :=
  text.flatMap fun c => if c = '*' then ['.', '*'] else [c]

theorem quantifierEnd_expand (text : List Char) :
    RegExp.quantifierEnd (expand text ++ ['$']) = RegExp.quantifierEnd text := by
  induction text with
  | nil => rfl
  | cons c text ih =>
      by_cases hc : c = '*'
      · subst hc
        rfl
      · have hcons : expand (c :: text) = c :: expand text := by simp [expand, hc]
        rw [hcons, List.cons_append, RegExp.quantifierEnd, ih, RegExp.quantifierEnd]

theorem quantifierRest_expand (seen : Bool) (text : List Char) :
    RegExp.quantifierRest seen (expand text ++ ['$']) = RegExp.quantifierRest seen text := by
  induction text generalizing seen with
  | nil => simp [expand, RegExp.quantifierRest]
  | cons c text ih =>
      by_cases hc : c = '*'
      · subst hc
        rfl
      · have hcons : expand (c :: text) = c :: expand text := by simp [expand, hc]
        rw [hcons, List.cons_append, RegExp.quantifierRest, ih, quantifierEnd_expand,
          RegExp.quantifierRest]

theorem readWildcards_lit {c : Char} (hc : c ∉ RegExp.special) {text : List Char}
    (hbrace : ¬ (c = '{' ∧ RegExp.quantifierRest false text = true)) :
    RegExp.readWildcards (c :: text) = (RegExp.readWildcards text).map (.lit c :: ·) := by
  have hne : ∀ d ∈ RegExp.special, c ≠ d := by
    rintro d hd rfl
    exact hc hd
  rw [RegExp.readWildcards, if_neg (not_or.mpr ⟨hc, hbrace⟩)]
  · rintro rfl
    exact absurd rfl (hne '$' (by decide))
  · rintro t rfl
    exact absurd rfl (hne '.' (by decide))

/-- The source made of a plain text is read as the text's glob. -/
theorem readWildcards_expand {text : List Char} (h : plainText text = true) :
    RegExp.readWildcards (expand text ++ ['$']) = some (text.map globSlot) := by
  induction text with
  | nil => rfl
  | cons c text ih =>
      obtain ⟨hchar, hbrace, htext⟩ := plainText_cons h
      have hrest := ih htext
      by_cases hc : c = '*'
      · subst hc
        have hcons : expand ('*' :: text) ++ ['$'] = '.' :: '*' :: (expand text ++ ['$']) := rfl
        rw [hcons, RegExp.readWildcards, hrest]
        rfl
      · have hcons : expand (c :: text) = c :: expand text := by simp [expand, hc]
        have hplain : c ∉ RegExp.special := hchar.resolve_left hc
        have hbrace' : ¬ (c = '{' ∧ RegExp.quantifierRest false (expand text ++ ['$']) = true) := by
          rw [quantifierRest_expand]
          exact hbrace
        rw [hcons, List.cons_append, readWildcards_lit hplain hbrace', hrest]
        simp [globSlot, hc]

/-! ## The placeholder -/

/-- A replacement without dollar sign is inserted as it is. -/
theorem getSubstitution_of_not_mem {matched before rest : List Char} :
    ∀ {replacement : List Char}, '$' ∉ replacement →
      Js.getSubstitution matched before rest replacement = replacement
  | [], _ => rfl
  | [_], _ => rfl
  | c :: d :: replacement, h => by
      obtain ⟨hc, hd⟩ : '$' ≠ c ∧ '$' ∉ d :: replacement := by simpa using h
      have hc' : c ≠ '$' := hc.symm
      simp [Js.getSubstitution, hc', getSubstitution_of_not_mem hd]

theorem globFrom_drop (userId : List Char) (skip : Nat) (text : List Char) :
    globFrom userId skip text = globFrom userId 0 (text.drop skip) := by
  induction text generalizing skip with
  | nil =>
      rw [List.drop_nil]
      cases skip <;> rfl
  | cons c text ih =>
      cases skip with
      | zero => rfl
      | succ skip => exact ih skip

/-- The glob of a value, cut at its first placeholder. -/
theorem globFrom_eq (userId text : List Char) :
    globFrom userId 0 text =
      match Js.splitAtFirst userIdPlaceholder text with
      | none => text.map globSlot
      | some (before, rest) =>
          before.map globSlot ++ (userId.map .lit ++ globFrom userId 0 rest) := by
  induction text with
  | nil => rfl
  | cons c text ih =>
      by_cases hp : userIdPlaceholder <+: c :: text
      · rw [Js.splitAtFirst, if_pos hp, globFrom, if_pos hp, globFrom_drop]
        rfl
      · rw [Js.splitAtFirst, if_neg hp, globFrom, if_neg hp, ih]
        cases Js.splitAtFirst userIdPlaceholder text with
        | none => rfl
        | some parts => rfl

/-- A text without dollar sign has no placeholder. -/
theorem globFrom_of_not_mem {userId text : List Char} (h : '$' ∉ text) :
    globFrom userId 0 text = text.map globSlot := by
  induction text with
  | nil => rfl
  | cons c text ih =>
      obtain ⟨hc, htext⟩ : '$' ≠ c ∧ '$' ∉ text := by simpa using h
      have hp : ¬ userIdPlaceholder <+: c :: text := by
        rintro ⟨rest, hrest⟩
        exact hc (List.cons.inj hrest).1
      rw [globFrom, if_neg hp, ih htext]
      rfl

theorem dollar_not_mem {text : List Char} (h : plainText text = true) : '$' ∉ text := by
  induction text with
  | nil => exact List.not_mem_nil
  | cons c text ih =>
      obtain ⟨hchar, -, htext⟩ := plainText_cons h
      intro hmem
      rcases List.mem_cons.mp hmem with rfl | hmem
      · rcases hchar with heq | hnot
        · exact absurd heq (by decide)
        · exact hnot (by decide)
      · exact ih htext hmem

/-- For a plain value the code fills in a text whose glob is the meaning of the value. -/
theorem expected_of_plain {condition : StatementCondition} {userId : String}
    (h : plain condition.condition_value userId = true) :
    plainText (expectedValue condition userId).toList = true ∧
      (expectedValue condition userId).toList.map globSlot =
        glob condition.condition_value userId := by
  rw [plain] at h
  rw [glob, globFrom_eq]
  cases hsplit : Js.splitAtFirst userIdPlaceholder condition.condition_value.toList with
  | none =>
      rw [hsplit] at h
      have hvalue : expectedValue condition userId = condition.condition_value := by
        show (match Js.splitAtFirst userIdPlaceholder condition.condition_value.toList with
          | none => condition.condition_value
          | some (before, rest) => _) = _
        rw [hsplit]
      rw [hvalue]
      exact ⟨h, rfl⟩
  | some parts =>
      obtain ⟨before, rest⟩ := parts
      rw [hsplit] at h
      obtain ⟨hstar, hplain⟩ := Bool.and_eq_true_iff.mp h
      have hdollar := dollar_not_mem hplain
      have hid : '$' ∉ userId.toList := by
        intro hmem
        exact hdollar (by simp [hmem])
      have hrest : '$' ∉ rest := by
        intro hmem
        exact hdollar (by simp [hmem])
      have hvalue : (expectedValue condition userId).toList = before ++ userId.toList ++ rest := by
        show (match Js.splitAtFirst userIdPlaceholder condition.condition_value.toList with
          | none => condition.condition_value
          | some (before, rest) => String.ofList (before ++
              Js.getSubstitution userIdPlaceholder before rest userId.toList ++ rest)).toList = _
        rw [hsplit]
        show (String.ofList _).toList = _
        rw [String.toList_ofList, getSubstitution_of_not_mem hid]
      have hglob : userId.toList.map globSlot = userId.toList.map .lit := by
        refine List.map_congr_left fun c hc => ?_
        have hne : c ≠ '*' := by
          rintro rfl
          simp [hc] at hstar
        simp [globSlot, hne]
      rw [hvalue]
      refine ⟨hplain, ?_⟩
      show _ = before.map globSlot ++ (userId.toList.map .lit ++ globFrom userId.toList 0 rest)
      rw [globFrom_of_not_mem hrest, ← hglob, List.map_append, List.map_append, List.append_assoc]

/-! ## The condition -/

theorem toList_likePattern (condition : StatementCondition) (userId : String) :
    (likePattern condition userId).toList =
      '^' :: (expand (expectedValue condition userId).toList ++ ['$']) := by
  simp only [likePattern, Js.replaceAllChar, String.toList_append, String.toList_ofList]
  rfl

/-- On a plain value the code matches the glob without line terminators under a `*`. -/
theorem evaluateCondition_like {rt : JsRuntime} (hrt : ReadsWildcards rt)
    {condition : StatementCondition} {userId : String}
    (hplain : plain condition.condition_value userId = true) {context : EvaluationContext}
    {actual : String} (hcontext : context condition.condition_key = some actual) :
    evaluateCondition rt { condition with operator := .stringLike } userId context =
      .ok (accepts RegExp.dot (glob condition.condition_value userId) actual.toList) := by
  obtain ⟨htext, hglob⟩ := expected_of_plain hplain
  have hread : RegExp.wildcardTest (likePattern condition userId).toList actual.toList =
      some (accepts RegExp.dot (glob condition.condition_value userId) actual.toList) := by
    rw [toList_likePattern, RegExp.wildcardTest, readWildcards_expand htext, hglob]
    rfl
  have hcode : evaluateCondition rt { condition with operator := .stringLike } userId context =
      rt.regExpTest (likePattern condition userId) actual := by
    simp only [evaluateCondition, hcontext]
    rfl
  rw [hcode]
  exact hrt _ _ _ hread

/-- **When a text condition is a glob.** On a plain value the condition does not throw, and it
holds exactly for the texts that match the glob, if and only if the actual text, should it match,
also matches with no line terminator under a `*`. -/
theorem stringLike_iff {rt : JsRuntime} (hrt : ReadsWildcards rt)
    {condition : StatementCondition} {userId : String}
    (hplain : plain condition.condition_value userId = true) {context : EvaluationContext}
    {actual : String} (hcontext : context condition.condition_key = some actual) :
    evaluateCondition rt { condition with operator := .stringLike } userId context =
        .ok (accepts anything (glob condition.condition_value userId) actual.toList) ↔
      (accepts anything (glob condition.condition_value userId) actual.toList = true →
        accepts RegExp.dot (glob condition.condition_value userId) actual.toList = true) := by
  rw [evaluateCondition_like hrt hplain hcontext, Except.ok.injEq]
  constructor
  · intro heq hmatch
    rw [heq]
    exact hmatch
  · intro himp
    rw [Bool.eq_iff_iff]
    exact ⟨accepts_mono fun _ _ => rfl, himp⟩

/-- On an actual text of one line a plain value is a glob. -/
theorem stringLike_of_line {rt : JsRuntime} (hrt : ReadsWildcards rt)
    {condition : StatementCondition} {userId : String}
    (hplain : plain condition.condition_value userId = true) {context : EvaluationContext}
    {actual : String} (hcontext : context condition.condition_key = some actual)
    (hline : ∀ c ∈ actual.toList, c ∉ RegExp.lineTerminators) :
    evaluateCondition rt { condition with operator := .stringLike } userId context =
      .ok (accepts anything (glob condition.condition_value userId) actual.toList) := by
  refine (stringLike_iff hrt hplain hcontext).mpr (accepts_of_all fun c hc => ?_)
  simpa [RegExp.dot] using hline c hc

/-- A runtime that knows the expressions of plain characters and `.*` only. -/
def wildcardRuntime : JsRuntime :=
  { plainRuntime with
    regExpTest := fun source text =>
      match RegExp.wildcardTest source.toList text.toList with
      | some b => .ok b
      | none => .error .syntaxError }

theorem readsWildcards_wildcardRuntime : ReadsWildcards wildcardRuntime := by
  intro source text b h
  show (match RegExp.wildcardTest source.toList text.toList with
    | some b => .ok b
    | none => .error .syntaxError : Except RegExpError Bool) = _
  rw [h]

/-- The condition that the owner is a record of the user: `user/${user.id}/*`. -/
def ownRecords : StatementCondition where
  id := "c"
  statement_id := "s"
  operator := .stringLike
  condition_key := "customer.path"
  condition_value := "user/$\x7buser.id\x7d/*"

def pathContext (path : String) : EvaluationContext :=
  fun key => if key = "customer.path" then some path else none

theorem stringLike_ownRecords :
    evaluateCondition wildcardRuntime ownRecords "u-7" (pathContext "user/u-7/orders") =
      .ok true := by
  have hplain : plain ownRecords.condition_value "u-7" = true := by decide +kernel
  have hcontext : pathContext "user/u-7/orders" ownRecords.condition_key =
      some "user/u-7/orders" := rfl
  have h := (stringLike_iff readsWildcards_wildcardRuntime hplain hcontext).mpr
    (by decide +kernel)
  exact h

/-- A line break in the actual text hides the rest of it from the `*`. -/
theorem star_stops_at_line_break :
    accepts anything (glob ownRecords.condition_value "u-7") "user/u-7/a\nb".toList = true ∧
    evaluateCondition wildcardRuntime ownRecords "u-7" (pathContext "user/u-7/a\nb") =
      .ok false := by
  decide +kernel

end ErpApi.Iam
