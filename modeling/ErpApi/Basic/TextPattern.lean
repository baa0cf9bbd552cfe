import ErpApi.Basic.JsString
import ErpApi.Basic.RegExp

set_option autoImplicit false

/-! # Regular expressions of characters and spaces

The fragment of regular expressions whose parts are literal characters and `\s*`. `compile` reads
the source text of an expression, in which the characters of syntax are escaped, `exec` matches
one at the head of a text, and `replace` is `text.replace(expression, replacement)` for an
expression with the flag `g`.

`exec` takes as many spaces as it can and gives them back one by one. `Reads` says which texts an
expression matches, and `exec_sound` and `exec_complete` that `exec` finds one of them if there is
one.
-/

namespace ErpApi.TextPattern

/-- A part of an expression. -/
inductive Atom where
  | char (c : Char)
  /-- The part `\s*`. -/
  | spaces
  deriving DecidableEq

/-- The parts of a source text. A brace that begins no quantifier stands for itself. A text
outside the fragment has no parts. -/
def compile : List Char → Option (List Atom)
  | [] => some []
  | '\\' :: 's' :: '*' :: text => (compile text).map (.spaces :: ·)
  | '\\' :: c :: text =>
      if c ∈ RegExp.syntaxCharacters then (compile text).map (.char c :: ·) else none
  | '{' :: c :: text =>
      if c = '{' ∨ c = '\\' then (compile (c :: text)).map (.char '{' :: ·) else none
  | '}' :: text => (compile text).map (.char '}' :: ·)
  | c :: text =>
      if c ∈ RegExp.syntaxCharacters then none else (compile text).map (.char c :: ·)

/-- The source text of an expression for the text itself. -/
def escape (text : List Char) : List Char :=
  text.flatMap fun c => if c ∈ RegExp.syntaxCharacters then ['\\', c] else [c]

/-- `\s*` before what `next` matches: the longest run of spaces after which there is a match. -/
def execSpaces (next : List Char → Option (List Char)) : List Char → Option (List Char)
  | [] => next []
  | c :: text =>
      if Js.isSpace c then (execSpaces next text).or (next (c :: text)) else next (c :: text)

/-- What follows the match at the head of a text. -/
def exec : List Atom → List Char → Option (List Char)
  | [], text => some text
  | .char _ :: _, [] => none
  | .char c :: atoms, d :: text => if c = d then exec atoms text else none
  | .spaces :: atoms, text => execSpaces (exec atoms) text

/-- Replacement in a text after its first `skip` characters, for an expression that matches no
empty text. `before` is the text up to this place. -/
def replaceFrom (atoms : List Atom) (replacement : List Char) :
    List Char → Nat → List Char → List Char
  | _, _, [] => []
  | before, 0, c :: text =>
      match exec atoms (c :: text) with
      | none => c :: replaceFrom atoms replacement (before ++ [c]) 0 text
      | some rest =>
          let matched := (c :: text).take ((c :: text).length - rest.length)
          Js.getSubstitution matched before rest replacement ++
            replaceFrom atoms replacement (before ++ [c]) (matched.length - 1) text
  | before, skip + 1, c :: text => replaceFrom atoms replacement (before ++ [c]) skip text

def replace (atoms : List Atom) (replacement text : List Char) : List Char :=
  replaceFrom atoms replacement [] 0 text

/-- The texts that an expression matches. -/
def Reads : List Atom → List Char → Prop
  | [], w => w = []
  | .char c :: atoms, w => ∃ w', w = c :: w' ∧ Reads atoms w'
  | .spaces :: atoms, w =>
      ∃ s w', (∀ c ∈ s, Js.isSpace c = true) ∧ w = s ++ w' ∧ Reads atoms w'

/-! ## Source texts -/

theorem compile_char {c : Char} (hc : c ∉ RegExp.syntaxCharacters) (text : List Char) :
    compile (c :: text) = (compile text).map (.char c :: ·) := by
  have hne : ∀ d ∈ RegExp.syntaxCharacters, c ≠ d := by
    rintro d hd rfl
    exact hc hd
  rw [compile, if_neg hc]
  · rintro t rfl
    exact absurd rfl (hne '\\' (by decide))
  · rintro d t rfl
    exact absurd rfl (hne '\\' (by decide))
  · rintro d t rfl
    exact absurd rfl (hne '{' (by decide))
  · rintro rfl
    exact absurd rfl (hne '}' (by decide))

theorem compile_escaped {c : Char} (hc : c ∈ RegExp.syntaxCharacters) (text : List Char) :
    compile ('\\' :: c :: text) = (compile text).map (.char c :: ·) := by
  rw [compile, if_pos hc]
  rintro t rfl
  exact absurd hc (by decide)

/-- An escaped text is read as the text. -/
theorem compile_escape (text rest : List Char) :
    compile (escape text ++ rest) = (compile rest).map (text.map .char ++ ·) := by
  induction text with
  | nil =>
      show compile rest = (compile rest).map fun atoms => [] ++ atoms
      simp
  | cons c text ih =>
      have hcons : escape (c :: text) ++ rest =
          (if c ∈ RegExp.syntaxCharacters then ['\\', c] else [c]) ++ (escape text ++ rest) := by
        rw [escape, List.flatMap_cons, List.append_assoc]
        rfl
      have hmap : (compile (escape text ++ rest)).map (Atom.char c :: ·) =
          (compile rest).map ((c :: text).map .char ++ ·) := by
        rw [ih, Option.map_map]
        rfl
      rw [hcons]
      by_cases hc : c ∈ RegExp.syntaxCharacters
      · rw [if_pos hc]
        exact (compile_escaped hc _).trans hmap
      · rw [if_neg hc]
        exact (compile_char hc _).trans hmap

/-! ## Matching -/

theorem execSpaces_sound {next : List Char → Option (List Char)} {rest : List Char} :
    ∀ {text : List Char}, execSpaces next text = some rest →
      ∃ s text', (∀ c ∈ s, Js.isSpace c = true) ∧ text = s ++ text' ∧ next text' = some rest
  | [], h => ⟨[], [], by simp, rfl, h⟩
  | c :: text, h => by
      rw [execSpaces] at h
      by_cases hc : Js.isSpace c = true
      · rw [if_pos hc, Option.or_eq_some_iff] at h
        rcases h with h | ⟨-, h⟩
        · obtain ⟨s, text', hs, rfl, hnext⟩ := execSpaces_sound h
          refine ⟨c :: s, text', ?_, rfl, hnext⟩
          intro d hd
          rcases List.mem_cons.mp hd with rfl | hd
          · exact hc
          · exact hs d hd
        · exact ⟨[], c :: text, by simp, rfl, h⟩
      · rw [if_neg hc] at h
        exact ⟨[], c :: text, by simp, rfl, h⟩

theorem execSpaces_complete {next : List Char → Option (List Char)} {text : List Char}
    (h : (next text).isSome = true) :
    ∀ s : List Char, (∀ c ∈ s, Js.isSpace c = true) → (execSpaces next (s ++ text)).isSome = true
  | [], _ => by
      cases text with
      | nil => exact h
      | cons c text =>
          rw [List.nil_append, execSpaces]
          by_cases hc : Js.isSpace c = true
          · rw [if_pos hc, Option.isSome_or, h, Bool.or_true]
          · rw [if_neg hc]
            exact h
  | c :: s, hs => by
      have hc : Js.isSpace c = true := hs c List.mem_cons_self
      have hrest := execSpaces_complete h s fun d hd => hs d (List.mem_cons_of_mem c hd)
      rw [List.cons_append, execSpaces, if_pos hc, Option.isSome_or, hrest, Bool.true_or]

theorem exec_sound {rest : List Char} :
    ∀ {atoms : List Atom} {text : List Char}, exec atoms text = some rest →
      ∃ w, Reads atoms w ∧ text = w ++ rest
  | [], text, h => ⟨[], rfl, Option.some.inj h⟩
  | .char c :: atoms, [], h => by cases h
  | .char c :: atoms, d :: text, h => by
      rw [exec] at h
      by_cases hcd : c = d
      · rw [if_pos hcd] at h
        obtain ⟨w, hw, rfl⟩ := exec_sound h
        exact ⟨c :: w, ⟨w, rfl, hw⟩, by rw [hcd]; rfl⟩
      · rw [if_neg hcd] at h
        cases h
  | .spaces :: atoms, text, h => by
      rw [exec] at h
      obtain ⟨s, text', hs, rfl, hnext⟩ := execSpaces_sound h
      obtain ⟨w, hw, rfl⟩ := exec_sound hnext
      exact ⟨s ++ w, ⟨s, w, hs, rfl, hw⟩, by rw [List.append_assoc]⟩

theorem exec_complete (rest : List Char) :
    ∀ {atoms : List Atom} {w : List Char}, Reads atoms w →
      (exec atoms (w ++ rest)).isSome = true
  | [], _, _ => rfl
  | .char c :: atoms, _, ⟨w, hw, h⟩ => by
      rw [hw, List.cons_append, exec, if_pos rfl]
      exact exec_complete rest h
  | .spaces :: atoms, _, ⟨s, w, hs, hw, h⟩ => by
      rw [hw, List.append_assoc, exec]
      exact execSpaces_complete (exec_complete rest h) s hs

/-- Without a text that it matches at the head, an expression does not match. -/
theorem exec_eq_none {atoms : List Atom} {text : List Char}
    (h : ∀ w rest, Reads atoms w → text ≠ w ++ rest) : exec atoms text = none := by
  cases hexec : exec atoms text with
  | none => rfl
  | some rest =>
      obtain ⟨w, hw, htext⟩ := exec_sound hexec
      exact absurd htext (h w rest hw)

/-! ## Replacing -/

section Replace

variable {atoms : List Atom} {replacement : List Char}

theorem replaceFrom_skip :
    ∀ (before : List Char) (w rest : List Char),
      replaceFrom atoms replacement before w.length (w ++ rest) =
        replaceFrom atoms replacement (before ++ w) 0 rest
  | before, [], rest => by rw [List.append_nil]; rfl
  | before, c :: w, rest => by
      rw [List.length_cons, List.cons_append, replaceFrom, replaceFrom_skip,
        List.append_assoc]
      rfl

theorem replaceFrom_miss {c : Char} {text : List Char} (before : List Char)
    (h : ∀ w rest, Reads atoms w → c :: text ≠ w ++ rest) :
    replaceFrom atoms replacement before 0 (c :: text) =
      c :: replaceFrom atoms replacement (before ++ [c]) 0 text := by
  rw [replaceFrom, exec_eq_none h]

/-- A match is replaced, if no two matches at the same place differ. -/
theorem replaceFrom_hit (before : List Char) {w rest : List Char} (hw : Reads atoms w)
    (hne : w ≠ [])
    (honly : ∀ w' rest', Reads atoms w' → w ++ rest = w' ++ rest' → w = w') :
    replaceFrom atoms replacement before 0 (w ++ rest) =
      Js.getSubstitution w before rest replacement ++
        replaceFrom atoms replacement (before ++ w) 0 rest := by
  have hexec : exec atoms (w ++ rest) = some rest := by
    obtain ⟨rest', hrest'⟩ := Option.isSome_iff_exists.mp (exec_complete rest hw)
    obtain ⟨w', hw', heq⟩ := exec_sound hrest'
    obtain rfl := honly w' rest' hw' heq
    rw [hrest', List.append_cancel_left heq]
  obtain ⟨c, w, rfl⟩ := List.exists_cons_of_ne_nil hne
  have hlen : (c :: (w ++ rest)).length - rest.length = (c :: w).length := by
    simp only [List.length_cons, List.length_append]
    omega
  have htake : (c :: (w ++ rest)).take (c :: w).length = c :: w := by
    rw [← List.cons_append, List.take_left]
  rw [List.cons_append] at hexec ⊢
  rw [replaceFrom, hexec]
  show Js.getSubstitution ((c :: (w ++ rest)).take ((c :: (w ++ rest)).length - rest.length))
      before rest replacement ++ replaceFrom atoms replacement (before ++ [c])
        (((c :: (w ++ rest)).take ((c :: (w ++ rest)).length - rest.length)).length - 1)
        (w ++ rest) = _
  rw [hlen, htake, List.length_cons, Nat.add_sub_cancel, replaceFrom_skip, List.append_assoc]
  rfl

/-- A stretch in which no match starts is copied. -/
theorem replaceFrom_copy (rest : List Char) :
    ∀ (before y : List Char),
      (∀ a b, y = a ++ b → b ≠ [] → ∀ w q, Reads atoms w → b ++ rest ≠ w ++ q) →
        replaceFrom atoms replacement before 0 (y ++ rest) =
          y ++ replaceFrom atoms replacement (before ++ y) 0 rest
  | before, [], _ => by rw [List.append_nil]; rfl
  | before, c :: y, h => by
      have htail := replaceFrom_copy rest (before ++ [c]) y fun a b hab hb =>
        h (c :: a) b (by rw [hab]; rfl) hb
      have hmiss : replaceFrom atoms replacement before 0 (c :: (y ++ rest)) =
          c :: replaceFrom atoms replacement (before ++ [c]) 0 (y ++ rest) :=
        replaceFrom_miss before (h [] (c :: y) rfl (List.cons_ne_nil c y))
      rw [List.cons_append, hmiss, htail, List.append_assoc]
      rfl

/-- Without matches a text is left as it is. -/
theorem replace_eq_self {text : List Char}
    (h : ∀ p w q, Reads atoms w → text ≠ p ++ w ++ q) : replace atoms replacement text = text := by
  have hnone : ∀ a b, text = a ++ b → b ≠ [] → ∀ w q, Reads atoms w → b ++ [] ≠ w ++ q := by
    intro a b hab _ w q hw heq
    rw [List.append_nil] at heq
    exact h a w q hw (by rw [hab, heq, List.append_assoc])
  have hcopy : replaceFrom atoms replacement [] 0 (text ++ []) =
      text ++ replaceFrom atoms replacement text 0 [] := replaceFrom_copy [] [] text hnone
  rw [List.append_nil, replaceFrom, List.append_nil] at hcopy
  exact hcopy

/-- What is before a place matters only to `$`-patterns. -/
theorem replaceFrom_before (hplain : ¬ Js.HasPattern replacement) :
    ∀ (text : List Char) (skip : Nat) (before before' : List Char),
      replaceFrom atoms replacement before skip text =
        replaceFrom atoms replacement before' skip text
  | [], _, _, _ => by rw [replaceFrom, replaceFrom]
  | c :: text, skip + 1, before, before' => by
      rw [replaceFrom, replaceFrom]
      exact replaceFrom_before hplain text skip _ _
  | c :: text, 0, before, before' => by
      rw [replaceFrom, replaceFrom]
      cases exec atoms (c :: text) with
      | none => exact congrArg (c :: ·) (replaceFrom_before hplain text 0 _ _)
      | some rest =>
          simp only [Js.getSubstitution_eq_self hplain]
          exact congrArg (replacement ++ ·) (replaceFrom_before hplain text _ _ _)

end Replace

end ErpApi.TextPattern
