import Mathlib.Data.List.Nodup
import ErpApi.Basic.Json
import ErpApi.Basic.Substitution
import ErpApi.Basic.TextPattern

set_option autoImplicit false

/-! # The parameters of a simple template

`substituteParameters` puts the parameters of a template into its HTML, one definition after the
other: the placeholders of the key in the text so far are replaced by the value, as a replacement
text. So a value may be read as a `$`-pattern, and a later definition may find a placeholder that a
value brought in, or that a value completes.

`substitutesAll_iff` says for which definitions and parameters that does not happen, whatever the
HTML: then every order of the definitions gives the HTML with its placeholders replaced.
-/

namespace ErpApi.Report.Parameters

open TextPattern Substitution

structure PrintTemplateParameter where
  key : String
  default_value : Option String
  deriving DecidableEq

/-- A value of the parameters. A number is kept as the text that `String` gives for it. -/
inductive RenderParam where
  | null
  | string (text : String)
  | number (text : String)
  | boolean (b : Bool)
  | array (items : List (List (String × Json)))

abbrev PrintTemplateRenderParams := List (String × RenderParam)

/-- The methods that every object inherits. -/
def objectMethods : List String :=
  ["hasOwnProperty", "isPrototypeOf", "propertyIsEnumerable", "toLocaleString", "toString",
    "valueOf", "__defineGetter__", "__defineSetter__", "__lookupGetter__", "__lookupSetter__"]

/-- The text of a property that every object inherits. -/
def inherited (name : String) : Option String :=
  if name = "constructor" then some "function Object() \x7b [native code] \x7d"
  else if name = "__proto__" then some "[object Object]"
  else if name ∈ objectMethods then
    some ("function " ++ name ++ "() \x7b [native code] \x7d")
  else none

/-- `String(raw)`, unless the value counts as not provided. -/
def RenderParam.text : RenderParam → Option String
  | .null => none
  | .string text => some text
  | .number text => some text
  | .boolean b => some (if b then "true" else "false")
  | .array _ => none

section Service

variable (params : PrintTemplateRenderParams)

/-- The text that replaces a placeholder. The expression `params[def.key]` finds inherited
properties too. -/
def replacement (d : PrintTemplateParameter) : String :=
  match params.lookup d.key with
  | some raw => raw.text.getD (d.default_value.getD "")
  | none => (inherited d.key).getD (d.default_value.getD "")

/-- The source text of the expression for the placeholders of a key. -/
def placeholderSource (key : String) : List Char :=
  "\x7b\x7b\\s*".toList ++ escape key.toList ++ "\\s*\x7d\x7d".toList

def substituteParameters (html : String) (parameterDefs : Option (List PrintTemplateParameter)) :
    Option String :=
  (parameterDefs.getD []).foldlM (fun acc d =>
    (compile (placeholderSource d.key)).map fun expression =>
      String.ofList (replace expression (replacement params d).toList acc.toList)) html

/-! ## What the substitution is for -/

/-- The text `{{key}}`, with spaces around the key or without. -/
def IsPlaceholder (key : String) (w : List Char) : Prop :=
  ∃ s t, (∀ c ∈ s, Js.isSpace c = true) ∧ (∀ c ∈ t, Js.isSpace c = true) ∧
    w = '{' :: '{' :: (s ++ key.toList ++ t) ++ ['}', '}']

/-- The value of a parameter: the one provided, or its default. -/
def parameterValue (d : PrintTemplateParameter) : String :=
  ((params.lookup d.key).bind RenderParam.text).getD (d.default_value.getD "")

/-- The placeholders of the definitions, and what they stand for. -/
def placeholders : Rules Char PrintTemplateParameter where
  word d w := IsPlaceholder d.key w
  value d := (parameterValue params d).toList
  word_ne_nil := by
    rintro d w ⟨s, t, -, -, rfl⟩
    exact List.cons_ne_nil _ _

/-- Whatever the HTML, every order of the definitions gives the HTML with each placeholder replaced
by the value of its key. -/
def SubstitutesAll (defs : List PrintTemplateParameter) : Prop :=
  ∀ html : String, ∃ out : String,
    Substituted (placeholders params) {d | d ∈ defs} html.toList out.toList ∧
      ∀ order : List PrintTemplateParameter, order.Perm defs →
        substituteParameters params html (some order) = some out

/-- What the definitions and the parameters must be like. -/
structure Harmless (defs : List PrintTemplateParameter) : Prop where
  /-- An inherited property is not taken for a parameter. -/
  own : ∀ d ∈ defs, params.lookup d.key = none → ∀ text, inherited d.key = some text →
    text = d.default_value.getD ""
  /-- No value holds a `$`-pattern. -/
  literal : ∀ d ∈ defs, ¬ Js.HasPattern (parameterValue params d).toList
  /-- In no text two placeholders share a place. -/
  separate : Separate (placeholders params) {d | d ∈ defs}
  /-- In no text a value shares a place with the placeholder of another key, unless the value of
  that key is the same text. -/
  untouched : Untouched (placeholders params) {d | d ∈ defs}

end Service

/-! ## The expression of a key -/

def placeholderAtoms (key : String) : List Atom :=
  .char '{' :: .char '{' :: .spaces :: (key.toList.map .char ++ [.spaces, .char '}', .char '}'])

/-- The source text is read as it is meant, whatever the key. -/
theorem compile_placeholderSource (key : String) :
    compile (placeholderSource key) = some (placeholderAtoms key) := by
  have hend : compile "\\s*\x7d\x7d".toList = some [.spaces, .char '}', .char '}'] := by
    decide
  have hkey := compile_escape key.toList "\\s*\x7d\x7d".toList
  rw [hend] at hkey
  have hshape : placeholderSource key =
      '{' :: '{' :: '\\' :: 's' :: '*' :: (escape key.toList ++ "\\s*\x7d\x7d".toList) := by
    rw [placeholderSource, List.append_assoc]
    rfl
  rw [hshape, compile, if_pos (.inl rfl), compile, if_pos (.inr rfl), compile, hkey]
  rfl

theorem reads_chars (w : List Char) (atoms : List Atom) {text : List Char} :
    Reads (w.map .char ++ atoms) text ↔ ∃ rest, text = w ++ rest ∧ Reads atoms rest := by
  induction w generalizing text with
  | nil =>
      constructor
      · intro h
        exact ⟨text, rfl, h⟩
      · rintro ⟨rest, rfl, h⟩
        exact h
  | cons c w ih =>
      constructor
      · rintro ⟨text', rfl, h⟩
        obtain ⟨rest, rfl, hrest⟩ := ih.mp h
        exact ⟨rest, rfl, hrest⟩
      · rintro ⟨rest, rfl, h⟩
        exact ⟨w ++ rest, rfl, ih.mpr ⟨rest, rfl, h⟩⟩

theorem reads_placeholderAtoms {key : String} {w : List Char} :
    Reads (placeholderAtoms key) w ↔ IsPlaceholder key w := by
  constructor
  · rintro ⟨w₁, rfl, w₂, rfl, s, w₃, hs, rfl, h⟩
    obtain ⟨rest, rfl, t, w₄, ht, rfl, w₅, rfl, w₆, rfl, rfl⟩ := (reads_chars _ _).mp h
    exact ⟨s, t, hs, ht, by simp⟩
  · rintro ⟨s, t, hs, ht, rfl⟩
    refine ⟨_, rfl, _, rfl, s, key.toList ++ (t ++ ['}', '}']), hs, by simp, ?_⟩
    exact (reads_chars _ _).mpr
      ⟨_, rfl, t, _, ht, rfl, _, rfl, _, rfl, rfl⟩

/-- A space weighs nothing. -/
def weight (c : Char) : Nat := if Js.isSpace c then 0 else 1

theorem total_spaces {s : List Char} (hs : ∀ c ∈ s, Js.isSpace c = true) :
    total weight s = 0 := by
  induction s with
  | nil => rfl
  | cons c s ih =>
      have hc : weight c = 0 := by rw [weight, if_pos (hs c List.mem_cons_self)]
      rw [total, hc, ih fun d hd => hs d (List.mem_cons_of_mem c hd)]

/-- All placeholders of a key have the same characters beside spaces, and end with a brace. -/
theorem placeholders_sameWeight (params : PrintTemplateRenderParams)
    (d : PrintTemplateParameter) : SameWeight (placeholders params) d weight where
  total_eq := by
    have htotal : ∀ w, IsPlaceholder d.key w → total weight w = 4 + total weight d.key.toList := by
      rintro w ⟨s, t, hs, ht, rfl⟩
      have hopen : '{' :: '{' :: (s ++ d.key.toList ++ t) ++ ['}', '}'] =
          ['{', '{'] ++ (s ++ d.key.toList ++ t) ++ ['}', '}'] := rfl
      have hbraces : total weight ['{', '{'] = 2 ∧ total weight ['}', '}'] = 2 := by decide
      rw [hopen, total_append, total_append, total_append, total_append, total_spaces hs,
        total_spaces ht, hbraces.1, hbraces.2]
      omega
    intro w w' hw hw'
    rw [htotal w hw, htotal w' hw']
  last := by
    rintro w ⟨s, t, -, -, rfl⟩
    exact ⟨'{' :: '{' :: (s ++ d.key.toList ++ t) ++ ['}'], '}', by simp, by decide⟩

/-! ## One definition -/

section Definition

variable {params : PrintTemplateRenderParams}

/-- The text after the step of one definition. -/
def substituteOne (params : PrintTemplateRenderParams) (d : PrintTemplateParameter) :
    List Char → List Char :=
  replace (placeholderAtoms d.key) (replacement params d).toList

theorem substituteParameters_eq (html : String) (defs : List PrintTemplateParameter) :
    substituteParameters params html (some defs) =
      some (String.ofList (defs.foldl (fun acc d => substituteOne params d acc) html.toList)) := by
  have hfold : ∀ (defs : List PrintTemplateParameter) (acc : String),
      defs.foldlM (fun acc d =>
        (compile (placeholderSource d.key)).map fun expression =>
          String.ofList (replace expression (replacement params d).toList acc.toList)) acc =
        some (String.ofList
          (defs.foldl (fun acc d => substituteOne params d acc) acc.toList)) := by
    intro defs
    induction defs with
    | nil =>
        intro acc
        simp
    | cons d defs ih =>
        intro acc
        rw [List.foldlM_cons, compile_placeholderSource, List.foldl_cons]
        simp only [Option.map_some, Option.bind_eq_bind, Option.bind_some]
        rw [ih, String.toList_ofList]
        rfl
  exact hfold defs html

/-- The step of a definition on a text without its placeholders. -/
theorem substituteOne_eq_self {d : PrintTemplateParameter} {text : List Char}
    (h : ∀ p w q, IsPlaceholder d.key w → text ≠ p ++ w ++ q) :
    substituteOne params d text = text :=
  replace_eq_self fun p w q hw => h p w q (reads_placeholderAtoms.mp hw)

/-- A placeholder at the head is replaced, as a replacement text. -/
theorem replaceOne_hit (params : PrintTemplateRenderParams) {d : PrintTemplateParameter}
    {w : List Char} (hw : IsPlaceholder d.key w) (before rest : List Char) :
    replaceFrom (placeholderAtoms d.key) (replacement params d).toList before 0 (w ++ rest) =
      Js.getSubstitution w before rest (replacement params d).toList ++
        replaceFrom (placeholderAtoms d.key) (replacement params d).toList (before ++ w) 0
          rest := by
  refine replaceFrom_hit before (reads_placeholderAtoms.mpr hw)
    ((placeholders params).word_ne_nil hw) ?_
  intro w' rest' hw' heq
  exact (placeholders_sameWeight params d).unique hw (reads_placeholderAtoms.mp hw') heq

/-- With a literal value the step of a definition replaces its placeholders. -/
theorem substituteOne_replaces {d : PrintTemplateParameter}
    (hvalue : replacement params d = parameterValue params d)
    (hplain : ¬ Js.HasPattern (parameterValue params d).toList) :
    Replaces (placeholders params) d (substituteOne params d) where
  nil := rfl
  miss := by
    intro c text hnone
    have hmiss : substituteOne params d (c :: text) =
        c :: replaceFrom (placeholderAtoms d.key) (replacement params d).toList [c] 0 text := by
      refine replaceFrom_miss [] ?_
      intro w rest hw
      exact hnone d rfl w rest (reads_placeholderAtoms.mp hw)
    rw [hmiss]
    exact congrArg (c :: ·) (replaceFrom_before (by rw [hvalue]; exact hplain) text 0 _ _)
  hit := by
    intro w rest hw
    have hhit := replaceOne_hit params hw [] rest
    rw [hvalue, Js.getSubstitution_eq_self hplain] at hhit
    rw [substituteOne, replace, hvalue, hhit]
    exact congrArg (_ ++ ·) (replaceFrom_before hplain rest 0 _ _)

/-- The step of a definition on a text with one placeholder. -/
theorem substituteOne_alone {defs : List PrintTemplateParameter}
    (hsep : Separate (placeholders params) {d | d ∈ defs}) {d : PrintTemplateParameter}
    (hd : d ∈ defs) {x u y : List Char} (hu : IsPlaceholder d.key u)
    (hx : Free (placeholders params) {d | d ∈ defs} x)
    (hy : Free (placeholders params) {d | d ∈ defs} y) :
    substituteOne params d (x ++ u ++ y) =
      x ++ Js.getSubstitution u x y (replacement params d).toList ++ y := by
  have hfront : ∀ a b, x = a ++ b → b ≠ [] → ∀ w q, Reads (placeholderAtoms d.key) w →
      b ++ (u ++ y) ≠ w ++ q := by
    intro a b hab hb w q hw heq
    have htext : x ++ u ++ y = a ++ w ++ q := by
      rw [hab, List.append_assoc, List.append_assoc, heq, List.append_assoc]
    have hxa := (hsep.alone hd hu hx hy hd (reads_placeholderAtoms.mp hw) htext).1
    rw [hxa] at hab
    exact hb (by simpa using hab)
  have hback : ∀ a b, y = a ++ b → b ≠ [] → ∀ w q, Reads (placeholderAtoms d.key) w →
      b ++ [] ≠ w ++ q := by
    intro a b hab _ w q hw heq
    rw [List.append_nil] at heq
    exact hy d hd a w q (reads_placeholderAtoms.mp hw) (by rw [hab, heq, List.append_assoc])
  have hrest : replaceFrom (placeholderAtoms d.key) (replacement params d).toList (x ++ u) 0 y =
      y := by
    have hcopy : replaceFrom (placeholderAtoms d.key) (replacement params d).toList (x ++ u) 0
        (y ++ []) = y ++ replaceFrom (placeholderAtoms d.key) (replacement params d).toList
          (x ++ u ++ y) 0 [] := replaceFrom_copy [] (x ++ u) y hback
    rw [List.append_nil, replaceFrom, List.append_nil] at hcopy
    exact hcopy
  rw [substituteOne, replace, List.append_assoc, replaceFrom_copy (u ++ y) [] x hfront,
    List.nil_append, replaceOne_hit params hu, hrest, List.append_assoc]

end Definition

/-! ## All definitions -/

section All

variable {params : PrintTemplateRenderParams}

theorem not_mem_inherited {name text : String} (h : inherited name = some text) :
    '$' ∉ text.toList := by
  rw [inherited] at h
  split at h
  · obtain rfl := Option.some.inj h
    decide
  · split at h
    · obtain rfl := Option.some.inj h
      decide
    · split at h
      · rename_i hmem
        obtain rfl := Option.some.inj h
        have hall : ∀ name ∈ objectMethods,
            '$' ∉ ("function " ++ name ++ "() \x7b [native code] \x7d").toList := by decide
        exact hall name hmem
      · cases h

theorem not_hasPattern_of_not_mem {text : List Char} (h : '$' ∉ text) : ¬ Js.HasPattern text := by
  rintro ⟨c, -, hpart⟩
  exact h (hpart.subset List.mem_cons_self)

/-- The text of a step is the value, or the text of an inherited property. -/
theorem replacement_cases (params : PrintTemplateRenderParams) (d : PrintTemplateParameter) :
    replacement params d = parameterValue params d ∨
      params.lookup d.key = none ∧ inherited d.key = some (replacement params d) := by
  cases hlookup : params.lookup d.key with
  | some raw =>
      refine .inl ?_
      rw [replacement, parameterValue, hlookup]
      rfl
  | none =>
      cases hinherited : inherited d.key with
      | none =>
          refine .inl ?_
          rw [replacement, parameterValue, hlookup, hinherited]
          rfl
      | some text =>
          refine .inr ⟨rfl, ?_⟩
          rw [replacement, hlookup, hinherited]
          rfl

/-- A text of spaces has no placeholder. -/
theorem free_spaces (defs : List PrintTemplateParameter) (n : Nat) :
    Free (placeholders params) {d | d ∈ defs} (List.replicate n ' ') := by
  rintro d _ p w q ⟨s, t, -, -, rfl⟩ heq
  have hmem : '{' ∈ List.replicate n ' ' := by
    rw [heq]
    simp
  exact absurd (List.eq_of_mem_replicate hmem) (by decide)

/-- A placeholder among spaces: what its replacement text comes to is the value. -/
theorem SubstitutesAll.getSubstitution_eq {defs : List PrintTemplateParameter}
    (hnodup : defs.Nodup) (h : SubstitutesAll params defs) {d : PrintTemplateParameter}
    (hd : d ∈ defs) (hsep : Separate (placeholders params) {d | d ∈ defs}) {u : List Char}
    (hu : IsPlaceholder d.key u) (n : Nat) :
    Js.getSubstitution u (List.replicate n ' ') (List.replicate n ' ')
      (replacement params d).toList = (parameterValue params d).toList := by
  have hfree : Free (placeholders params) {d | d ∈ defs} (List.replicate n ' ') :=
    free_spaces defs n
  obtain ⟨out, hout, hruns⟩ :=
    h (String.ofList (List.replicate n ' ' ++ u ++ List.replicate n ' '))
  rw [String.toList_ofList] at hout
  have hvalue := hout.of_alone hsep hd hu hfree hfree
  -- The definition comes last; the others find nothing.
  obtain ⟨l₁, l₂, hl⟩ := List.append_of_mem hd
  have hperm : (l₁ ++ l₂ ++ [d]).Perm defs := by
    have hmiddle : (d :: (l₁ ++ l₂)).Perm (l₁ ++ d :: l₂) := List.perm_middle.symm
    rw [hl]
    exact List.perm_append_comm.trans hmiddle
  have hothers : ∀ e ∈ l₁ ++ l₂, e ∈ defs ∧ e ≠ d := by
    intro e he
    refine ⟨hperm.mem_iff.mp (List.mem_append_left _ he), ?_⟩
    rintro rfl
    exact (List.nodup_append.mp (hperm.nodup_iff.mpr hnodup)).2.2 e he e (by simp) rfl
  have hidle : (l₁ ++ l₂).foldl (fun acc e => substituteOne params e acc)
      (List.replicate n ' ' ++ u ++ List.replicate n ' ') =
      List.replicate n ' ' ++ u ++ List.replicate n ' ' := by
    refine foldl_eq_self _ fun e he => ?_
    obtain ⟨hedefs, hne⟩ := hothers e he
    refine substituteOne_eq_self fun p w q hw heq => ?_
    exact hne (hsep.alone hd hu hfree hfree hedefs hw heq).2.2.symm
  have hrun := hruns _ hperm
  rw [substituteParameters_eq, String.toList_ofList, List.foldl_append, hidle, List.foldl_cons,
    List.foldl_nil, substituteOne_alone hsep hd hu hfree hfree, Option.some.injEq] at hrun
  have hlist := congrArg String.toList hrun
  rw [String.toList_ofList, hvalue] at hlist
  exact List.append_cancel_left (List.append_cancel_right hlist)

theorem exists_placeholder (key : String) (n : Nat) :
    ∃ u, IsPlaceholder key u ∧ n ≤ u.length := by
  refine ⟨_, ⟨List.replicate n ' ', [], ?_, by simp, rfl⟩, ?_⟩
  · intro c hc
    rw [List.eq_of_mem_replicate hc]
    decide
  · simp only [List.length_append, List.length_cons, List.length_replicate]
    omega

/-- Definitions whose steps are replacements, in terms of the steps. -/
theorem substitutesAll_iff_orders {defs : List PrintTemplateParameter} :
    SubstitutesAll params defs ↔
      ∀ text, ∃ out, Substituted (placeholders params) {d | d ∈ defs} text out ∧
        ∀ order : List PrintTemplateParameter, order.Perm defs →
          order.foldl (fun acc d => substituteOne params d acc) text = out := by
  constructor
  · intro h text
    obtain ⟨out, hout, hruns⟩ := h (String.ofList text)
    rw [String.toList_ofList] at hout
    refine ⟨out.toList, hout, fun order hperm => ?_⟩
    have hrun := hruns order hperm
    rw [substituteParameters_eq, String.toList_ofList, Option.some.injEq] at hrun
    rw [← hrun, String.toList_ofList]
  · intro h html
    obtain ⟨out, hout, hruns⟩ := h html.toList
    refine ⟨String.ofList out, by rwa [String.toList_ofList], fun order hperm => ?_⟩
    rw [substituteParameters_eq, hruns order hperm]

/-- An inherited property does not stand in for a parameter. -/
theorem SubstitutesAll.replacement_eq {defs : List PrintTemplateParameter}
    (hnodup : defs.Nodup) (h : SubstitutesAll params defs)
    (hsep : Separate (placeholders params) {d | d ∈ defs}) {d : PrintTemplateParameter}
    (hd : d ∈ defs) : replacement params d = parameterValue params d := by
  rcases replacement_cases params d with hvalue | ⟨-, htext⟩
  · exact hvalue
  · obtain ⟨u, hu, -⟩ := exists_placeholder d.key 0
    have hresult := h.getSubstitution_eq hnodup hd hsep hu 0
    rw [Js.getSubstitution_eq_self
      (not_hasPattern_of_not_mem (not_mem_inherited htext))] at hresult
    exact String.toList_injective hresult

/-- Around a long placeholder a `$`-pattern would change the length of the value. -/
theorem SubstitutesAll.literal {defs : List PrintTemplateParameter}
    (hnodup : defs.Nodup) (h : SubstitutesAll params defs)
    (hsep : Separate (placeholders params) {d | d ∈ defs}) {d : PrintTemplateParameter}
    (hd : d ∈ defs) : ¬ Js.HasPattern (parameterValue params d).toList := by
  intro hpattern
  obtain ⟨u, hu, hlong⟩ := exists_placeholder d.key ((parameterValue params d).length + 1)
  have hspaces : (parameterValue params d).length + 1 ≤
      (List.replicate ((parameterValue params d).length + 1) ' ').length := by simp
  have hresult := h.getSubstitution_eq hnodup hd hsep hu ((parameterValue params d).length + 1)
  rw [h.replacement_eq hnodup hsep hd] at hresult
  have hlength := Js.length_getSubstitution hlong hspaces hspaces hpattern
  rw [hresult, String.length_toList] at hlength
  omega

theorem Harmless.replacement_eq {defs : List PrintTemplateParameter} (h : Harmless params defs)
    {d : PrintTemplateParameter} (hd : d ∈ defs) :
    replacement params d = parameterValue params d := by
  rcases replacement_cases params d with hvalue | ⟨hlookup, htext⟩
  · exact hvalue
  · rw [h.own d hd hlookup _ htext, parameterValue, hlookup]
    rfl

/-- **Whatever the HTML.** The definitions substitute every HTML, in every order, if and only if no
value holds a `$`-pattern, no placeholder shares a place with another one or with the value of
another key, and no definition without a parameter is named like an inherited property. -/
theorem substitutesAll_iff {defs : List PrintTemplateParameter}
    (hkeys : (defs.map PrintTemplateParameter.key).Nodup) :
    SubstitutesAll params defs ↔ Harmless params defs := by
  have hnodup : defs.Nodup := List.Nodup.of_map _ hkeys
  have hsame : ∀ d ∈ defs, SameWeight (placeholders params) d weight :=
    fun d _ => placeholders_sameWeight params d
  have hword : ∀ d ∈ defs, ∃ w, (placeholders params).word d w := by
    intro d _
    obtain ⟨u, hu, -⟩ := exists_placeholder d.key 0
    exact ⟨u, hu⟩
  constructor
  · intro h
    have hsep : Separate (placeholders params) {d | d ∈ defs} := by
      refine separate_of_substituted fun text => ?_
      obtain ⟨out, hout, -⟩ := substitutesAll_iff_orders.mp h text
      exact ⟨out, hout⟩
    have hsteps : ∀ d ∈ defs, Replaces (placeholders params) d (substituteOne params d) :=
      fun d hd => substituteOne_replaces (h.replacement_eq hnodup hsep hd)
        (h.literal hnodup hsep hd)
    have horders := (orders_iff hnodup hsteps hsame hword).mp (substitutesAll_iff_orders.mp h)
    refine ⟨?_, fun d hd => h.literal hnodup hsep hd, hsep, horders.2⟩
    intro d hd hlookup text htext
    have hvalue := h.replacement_eq hnodup hsep hd
    rw [replacement, parameterValue, hlookup, htext] at hvalue
    exact hvalue
  · intro h
    have hsteps : ∀ d ∈ defs, Replaces (placeholders params) d (substituteOne params d) :=
      fun d hd => substituteOne_replaces (h.replacement_eq hd) (h.literal d hd)
    exact substitutesAll_iff_orders.mpr
      ((orders_iff hnodup hsteps hsame hword).mpr ⟨h.separate, h.untouched⟩)

end All

/-! ## Names as keys -/

section Names

theorem IsPlaceholder.mem {key : String} {w : List Char} (hw : IsPlaceholder key w) {c : Char}
    (hc : c ∈ w) : c = '{' ∨ c = '}' ∨ Js.isSpace c = true ∨ c ∈ key.toList := by
  obtain ⟨s, t, hs, ht, rfl⟩ := hw
  have hcases : c = '{' ∨ c ∈ s ∨ c ∈ key.toList ∨ c ∈ t ∨ c = '}' := by simpa using hc
  rcases hcases with h | h | h | h | h
  · exact .inl h
  · exact .inr (.inr (.inl (hs c h)))
  · exact .inr (.inr (.inr h))
  · exact .inr (.inr (.inl (ht c h)))
  · exact .inr (.inl h)

/-- What stands between the braces of a placeholder whose key is a name. -/
theorem IsPlaceholder.body {key : String}
    (hname : ∀ c ∈ key.toList, c ≠ '{' ∧ c ≠ '}' ∧ Js.isSpace c = false) {w : List Char}
    (hw : IsPlaceholder key w) :
    ∃ body, w = '{' :: '{' :: body ++ ['}', '}'] ∧ '{' ∉ body ∧ '}' ∉ body ∧
      body.filter (fun c => !Js.isSpace c) = key.toList := by
  obtain ⟨s, t, hs, ht, rfl⟩ := hw
  have hspaces : ∀ {s : List Char}, (∀ c ∈ s, Js.isSpace c = true) →
      s.filter (fun c => !Js.isSpace c) = [] := by
    intro s hs
    exact List.filter_eq_nil_iff.mpr fun c hc => by simp [hs c hc]
  have hkey : key.toList.filter (fun c => !Js.isSpace c) = key.toList :=
    List.filter_eq_self.mpr fun c hc => by simp [(hname c hc).2.2]
  have hbrace : ∀ b, Js.isSpace b = false → (∀ c ∈ key.toList, c ≠ b) →
      b ∉ s ++ key.toList ++ t := by
    intro b hb hkeys hmem
    have hcases : (b ∈ s ∨ b ∈ key.toList) ∨ b ∈ t := by
      simpa only [List.mem_append] using hmem
    rcases hcases with (h | h) | h
    · rw [hs b h] at hb
      cases hb
    · exact hkeys b h rfl
    · rw [ht b h] at hb
      cases hb
  refine ⟨s ++ key.toList ++ t, rfl, ?_, ?_, ?_⟩
  · exact hbrace '{' (by decide) fun c hc => (hname c hc).1
  · exact hbrace '}' (by decide) fun c hc => (hname c hc).2.1
  · rw [List.filter_append, List.filter_append, hspaces hs, hspaces ht, hkey,
      List.append_nil, List.nil_append]

/-- No placeholder begins within another one. -/
theorem eq_nil_of_braces {body body' t q q' : List Char} (hopen : '{' ∉ body)
    (ht : t.length < body.length + 4)
    (heq : '{' :: '{' :: body ++ ['}', '}'] ++ q = t ++ ('{' :: '{' :: body' ++ ['}', '}']) ++ q') :
    t = [] := by
  have hrest : ∀ {u v : List Char}, u.length < body.length + 2 →
      body ++ ['}', '}'] ++ q = u ++ '{' :: v → False := by
    intro u v hu h
    rcases append_cases h with ⟨s, hs, -⟩ | ⟨s, hne, hs, hback⟩
    · have hlen := congrArg List.length hs
      simp only [List.length_append, List.length_cons, List.length_nil] at hlen
      omega
    · obtain ⟨c, s, rfl⟩ := List.exists_cons_of_ne_nil hne
      obtain ⟨rfl, -⟩ := List.cons.inj (show '{' :: v = c :: (s ++ q) from hback)
      have hmem : '{' ∈ body ++ ['}', '}'] := by
        rw [hs]
        simp
      rcases List.mem_append.mp hmem with hmem | hmem
      · exact hopen hmem
      · exact absurd hmem (by decide)
  cases t with
  | nil => rfl
  | cons c t =>
      exfalso
      cases t with
      | nil =>
          have htail : body ++ ['}', '}'] ++ q = [] ++ '{' :: (body' ++ ['}', '}'] ++ q') := by
            have h := (List.cons.inj (List.cons.inj heq).2).2
            simpa using h
          exact hrest (by simp) htail
      | cons d t =>
          have htail : body ++ ['}', '}'] ++ q =
              t ++ '{' :: ('{' :: body' ++ ['}', '}'] ++ q') := by
            have h := (List.cons.inj (List.cons.inj heq).2).2
            simpa using h
          refine hrest ?_ htail
          simp only [List.length_cons] at ht
          omega

variable {params : PrintTemplateRenderParams} {defs : List PrintTemplateParameter}

/-- Placeholders of different names never share a place. -/
theorem separate_of_names (hkeys : (defs.map PrintTemplateParameter.key).Nodup)
    (hnames : ∀ d ∈ defs, ∀ c ∈ d.key.toList, c ≠ '{' ∧ c ≠ '}' ∧ Js.isSpace c = false) :
    Separate (placeholders params) {d | d ∈ defs} := by
  intro d hd e he p w q p' w' q' hw hw' heq hshare
  obtain ⟨body, rfl, hopen, hclose, hfilter⟩ := hw.body (hnames d hd)
  obtain ⟨body', rfl, hopen', hclose', hfilter'⟩ := hw'.body (hnames e he)
  obtain ⟨hpp', hp'p⟩ := hshare
  have hlength : ∀ b : List Char, ('{' :: '{' :: b ++ ['}', '}']).length = b.length + 4 := by
    intro b
    simp
  rw [hlength] at hpp' hp'p
  have hsame : p = p' := by
    rw [List.append_assoc p, List.append_assoc p'] at heq
    rcases append_cases heq with ⟨t, rfl, h⟩ | ⟨t, hne, rfl, h⟩
    · rw [List.length_append] at hp'p
      have ht : t = [] := eq_nil_of_braces hopen (by omega) (by rw [h, List.append_assoc t])
      rw [ht, List.append_nil]
    · rw [List.length_append] at hpp'
      exact absurd (eq_nil_of_braces hopen' (by omega) (by rw [h, List.append_assoc t])) hne
  subst hsame
  have hbodies : body = body' := by
    have htexts : body ++ '}' :: ('}' :: q) = body' ++ '}' :: ('}' :: q') := by
      rw [List.append_assoc p, List.append_assoc p] at heq
      have h := (List.cons.inj (List.cons.inj (List.append_cancel_left heq)).2).2
      simpa using h
    have htake : ∀ {b r : List Char}, '}' ∉ b → (b ++ '}' :: r).takeWhile (· ≠ '}') = b := by
      intro b r hb
      have hall : ∀ c ∈ b, decide (c ≠ '}') = true := by
        intro c hc
        rw [decide_eq_true_eq]
        rintro rfl
        exact hb hc
      rw [List.takeWhile_append_of_pos hall, List.takeWhile_cons_of_neg (by simp),
        List.append_nil]
    rw [← htake hclose, htexts, htake hclose']
  refine ⟨rfl, by rw [hbodies], ?_⟩
  have hkey : d.key = e.key := by
    apply String.toList_injective
    rw [← hfilter, hbodies, hfilter']
  exact List.inj_on_of_nodup_map hkeys hd he hkey

/-- A value without braces shares a place with a placeholder only if it stands in it. -/
theorem inside_of_share {key : String} {v x y p w q : List Char} (hw : IsPlaceholder key w)
    (hv : ∀ c ∈ v, c ≠ '{' ∧ c ≠ '}') (heq : x ++ v ++ y = p ++ w ++ q)
    (hshare : Share x v p w) : v <:+: w := by
  obtain ⟨hxp, hpx⟩ := hshare
  obtain ⟨s, t, -, -, rfl⟩ := hw
  rw [List.append_assoc x, List.append_assoc p] at heq
  rcases append_cases heq with ⟨u, rfl, h⟩ | ⟨u, hne, rfl, h⟩
  · -- The placeholder begins in the value, or where it begins.
    rw [List.length_append] at hpx
    rcases append_cases h with ⟨u', rfl, -⟩ | ⟨u', hne', rfl, h'⟩
    · rw [List.length_append] at hpx
      omega
    · obtain ⟨c, u', rfl⟩ := List.exists_cons_of_ne_nil hne'
      obtain ⟨rfl, -⟩ := List.cons.inj h'
      exact absurd rfl (hv '{' (by simp)).1
  · rw [List.length_append] at hxp
    rcases append_cases h with ⟨u', rfl, h'⟩ | ⟨u', hne', hw', h'⟩
    · simp only [List.length_append] at hxp
      omega
    · rcases append_cases h' with ⟨u'', rfl, -⟩ | ⟨u'', hne'', rfl, -⟩
      · exact ⟨u, u'', by rw [hw', List.append_assoc]⟩
      · -- The value would hold the last brace.
        obtain ⟨u₀, c, rfl⟩ := (List.eq_nil_or_concat u').resolve_left hne'
        have hlast : [c] = ['}'] := by
          have hends : u ++ u₀ ++ [c] = '{' :: '{' :: (s ++ key.toList ++ t) ++ ['}'] ++ ['}'] := by
            rw [List.concat_eq_append, ← List.append_assoc] at hw'
            rw [← hw']
            simp
          exact (List.append_inj' hends rfl).2
        obtain rfl := List.singleton_inj.mp hlast
        exact absurd rfl (hv '}' (by simp)).2

/-- Keys that are names, with values that have no brace, no dollar sign and a character that no
other key has. -/
theorem harmless_of_names (hkeys : (defs.map PrintTemplateParameter.key).Nodup)
    (hnames : ∀ d ∈ defs, ∀ c ∈ d.key.toList, c ≠ '{' ∧ c ≠ '}' ∧ Js.isSpace c = false)
    (hown : ∀ d ∈ defs, inherited d.key = none)
    (hplain : ∀ d ∈ defs, ∀ c ∈ (parameterValue params d).toList, c ≠ '{' ∧ c ≠ '}' ∧ c ≠ '$')
    (hforeign : ∀ d ∈ defs, ∀ e ∈ defs, d ≠ e → ∃ c ∈ (parameterValue params d).toList,
      Js.isSpace c = false ∧ c ∉ e.key.toList) : Harmless params defs where
  own := by
    intro d hd _ text htext
    rw [hown d hd] at htext
    cases htext
  literal := fun d hd =>
    not_hasPattern_of_not_mem fun hmem => (hplain d hd '$' hmem).2.2 rfl
  separate := separate_of_names hkeys hnames
  untouched := by
    intro d hd e he hde x y p w q hw heq hshare
    obtain ⟨c, hc, hspace, hkey⟩ := hforeign d hd e he hde
    have hbraces : ∀ c ∈ (parameterValue params d).toList, c ≠ '{' ∧ c ≠ '}' :=
      fun c hc => ⟨(hplain d hd c hc).1, (hplain d hd c hc).2.1⟩
    have hmem : c ∈ w := (inside_of_share hw hbraces heq hshare).subset hc
    exfalso
    rcases hw.mem hmem with h | h | h | h
    · exact (hbraces c hc).1 h
    · exact (hbraces c hc).2 h
    · rw [hspace] at h
      cases h
    · exact hkey h

end Names

/-! ## An invoice -/

def invoiceParameters : List PrintTemplateParameter :=
  [⟨"customer_name", some "Cash customer"⟩, ⟨"invoice_no", none⟩]

theorem invoice_substitutesAll :
    (invoiceParameters.map PrintTemplateParameter.key).Nodup ∧
      SubstitutesAll [("invoice_no", .string "INV-2026-0099")] invoiceParameters := by
  have hkeys : (invoiceParameters.map PrintTemplateParameter.key).Nodup := by decide +kernel
  have hnames : (invoiceParameters.all fun d => d.key.toList.all fun c =>
      decide (c ≠ '{' ∧ c ≠ '}' ∧ Js.isSpace c = false)) = true := by decide +kernel
  have hplain : (invoiceParameters.all fun d =>
      (parameterValue [("invoice_no", .string "INV-2026-0099")] d).toList.all fun c =>
        decide (c ≠ '{' ∧ c ≠ '}' ∧ c ≠ '$')) = true := by decide +kernel
  have hforeign : (invoiceParameters.all fun d => invoiceParameters.all fun e =>
      decide (d ≠ e → (parameterValue [("invoice_no", .string "INV-2026-0099")] d).toList.any
        (fun c => decide (Js.isSpace c = false ∧ c ∉ e.key.toList)) = true)) = true := by
    decide +kernel
  refine ⟨hkeys, (substitutesAll_iff hkeys).mpr (harmless_of_names hkeys ?_ ?_ ?_ ?_)⟩
  · simpa only [List.all_eq_true, decide_eq_true_eq] using hnames
  · decide +kernel
  · simpa only [List.all_eq_true, decide_eq_true_eq] using hplain
  · simpa only [List.all_eq_true, List.any_eq_true, decide_eq_true_eq] using hforeign

/-- A value with a placeholder in it is searched for the key of a later definition, and a value with
a `$`-pattern is not put in as it is. -/
theorem value_is_searched :
    substituteParameters [("customer_name", .string "\x7b\x7binvoice_no\x7d\x7d"),
        ("invoice_no", .string "INV-2026-0099")]
      "<p>\x7b\x7bcustomer_name\x7d\x7d</p>" (some invoiceParameters) =
        some "<p>INV-2026-0099</p>" ∧
    substituteParameters [("customer_name", .string "\x7b\x7binvoice_no\x7d\x7d"),
        ("invoice_no", .string "INV-2026-0099")]
      "<p>\x7b\x7bcustomer_name\x7d\x7d</p>" (some invoiceParameters.reverse) =
        some "<p>\x7b\x7binvoice_no\x7d\x7d</p>" ∧
    substituteParameters [("customer_name", .string "B$$B")]
      "<p>\x7b\x7bcustomer_name\x7d\x7d</p>" (some invoiceParameters) = some "<p>B$B</p>" := by
  refine ⟨?_, ?_, ?_⟩
  · decide +kernel
  · decide +kernel
  · decide +kernel

end ErpApi.Report.Parameters
