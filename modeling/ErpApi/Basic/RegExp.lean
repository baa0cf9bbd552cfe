import Mathlib.Data.List.Basic

set_option autoImplicit false

/-! # Anchored regular expressions of fixed width

The fragment of regular expressions `^...$` whose parts are literal characters and captured
runs of digits `(\d{n})`. `compile` reads the source text of such an expression and `exec`
matches it: every part has a fixed width, so a match has at most one way to succeed.
-/

namespace ErpApi.RegExp

/-- A part of an expression. -/
inductive Atom where
  | char (c : Char)
  /-- The group `(\d{n})`. -/
  | digits (n : Nat)
  deriving DecidableEq

/-- The characters with a meaning of their own outside an escape. -/
def syntaxCharacters : List Char :=
  ['.', '*', '+', '?', '^', '$', '{', '}', '(', ')', '|', '[', ']', '\\']

/-- The parts after `^`, up to the final `$`. Inside the braces of a group the digits read so
far are kept in the first argument. A text outside the fragment has no parts. -/
def compileFrom : Option (List Char) → List Char → Option (List Atom)
  | none, ['$'] => some []
  | none, '(' :: '\\' :: 'd' :: '{' :: text => compileFrom (some []) text
  | none, '\\' :: c :: text =>
      if c ∈ syntaxCharacters then (compileFrom none text).map (.char c :: ·) else none
  | none, c :: text =>
      if c ∈ syntaxCharacters then none else (compileFrom none text).map (.char c :: ·)
  | none, [] => none
  | some ds, '}' :: ')' :: text =>
      if ds = [] then none
      else (compileFrom none text).map (.digits (Nat.ofDigitChars 10 ds 0) :: ·)
  | some ds, c :: text => if c.isDigit then compileFrom (some (ds ++ [c])) text else none
  | some _, [] => none

/-- The expression with the given source text. -/
def compile : List Char → Option (List Atom)
  | '^' :: text => compileFrom none text
  | _ => none

/-- The captured texts of a match of the whole text. -/
def exec : List Atom → List Char → Option (List (List Char))
  | [], [] => some []
  | [], _ :: _ => none
  | .char _ :: _, [] => none
  | .char c :: atoms, d :: text => if c = d then exec atoms text else none
  | .digits n :: atoms, text =>
      if (text.take n).length = n ∧ (text.take n).all Char.isDigit then
        (exec atoms (text.drop n)).map (text.take n :: ·)
      else none

/-! ## Reading the source text -/

theorem compileFrom_escaped {c : Char} (hc : c ∈ syntaxCharacters) (text : List Char) :
    compileFrom none ('\\' :: c :: text) = (compileFrom none text).map (.char c :: ·) := by
  rw [compileFrom, if_pos hc]

theorem compileFrom_plain {c : Char} (hc : c ∉ syntaxCharacters) (text : List Char) :
    compileFrom none (c :: text) = (compileFrom none text).map (.char c :: ·) := by
  have hne : ∀ d ∈ syntaxCharacters, c ≠ d := by
    rintro d hd rfl
    exact hc hd
  rw [compileFrom, if_neg hc]
  · rintro rfl
    exact absurd rfl (hne '$' (by decide))
  · rintro t rfl
    exact absurd rfl (hne '(' (by decide))
  · rintro d t rfl
    exact absurd rfl (hne '\\' (by decide))

theorem compileFrom_digits (ds : List Char) (hds : ∀ c ∈ ds, c.isDigit = true)
    (seen text : List Char) (hne : seen ++ ds ≠ []) :
    compileFrom (some seen) (ds ++ '}' :: ')' :: text) =
      (compileFrom none text).map (.digits (Nat.ofDigitChars 10 (seen ++ ds) 0) :: ·) := by
  induction ds generalizing seen with
  | nil =>
      rw [List.append_nil] at hne ⊢
      rw [List.nil_append, compileFrom, if_neg hne]
  | cons c ds ih =>
      have hc : c.isDigit = true := hds c List.mem_cons_self
      rw [List.cons_append, compileFrom, if_pos hc,
        ih (fun d hd => hds d (List.mem_cons_of_mem c hd)) (seen ++ [c]) (by simp)]
      · simp
      · rintro t rfl
        exact absurd hc (by decide)

/-- The group of `n` digits, its width printed in decimal. -/
theorem compileFrom_group (n : Nat) (text : List Char) :
    compileFrom none (['(', '\\', 'd', '{'] ++ Nat.toDigits 10 n ++ ['}', ')'] ++ text) =
      (compileFrom none text).map (.digits n :: ·) := by
  have hshape : ['(', '\\', 'd', '{'] ++ Nat.toDigits 10 n ++ ['}', ')'] ++ text =
      '(' :: '\\' :: 'd' :: '{' :: (Nat.toDigits 10 n ++ '}' :: ')' :: text) := by simp
  have hds : ∀ c ∈ Nat.toDigits 10 n, c.isDigit = true := fun c hc =>
    Nat.isDigit_of_mem_toDigits (by decide) (by decide) hc
  rw [hshape, compileFrom,
    compileFrom_digits _ hds [] text (by simp), List.nil_append,
    Nat.ofDigitChars_ten_toDigits]

/-! ## Matching -/

theorem exec_chars (w text : List Char) (atoms : List Atom) :
    exec (w.map .char ++ atoms) (w ++ text) = exec atoms text := by
  induction w with
  | nil => rfl
  | cons c w ih => simpa [exec] using ih

/-- What a match of literal characters says about the text. -/
theorem exec_chars_eq_some {w text : List Char} {atoms : List Atom} {gs : List (List Char)}
    (h : exec (w.map .char ++ atoms) text = some gs) :
    ∃ rest, text = w ++ rest ∧ exec atoms rest = some gs := by
  induction w generalizing text with
  | nil => exact ⟨text, rfl, h⟩
  | cons c w ih =>
      cases text with
      | nil => simp [exec] at h
      | cons d text =>
          simp only [List.map_cons, List.cons_append, exec] at h
          by_cases hcd : c = d
          · rw [if_pos hcd] at h
            obtain ⟨rest, rfl, hrest⟩ := ih h
            exact ⟨rest, by rw [hcd]; rfl, hrest⟩
          · rw [if_neg hcd] at h
            cases h

/-- **One group between two literals.** The expression matches exactly the texts with the
two literals around `n` digits, and captures the digits. -/
theorem exec_group_iff {a b : List Char} {n : Nat} {text : List Char} {gs : List (List Char)} :
    exec (a.map .char ++ .digits n :: b.map .char) text = some gs ↔
      ∃ ds, text = a ++ ds ++ b ∧ ds.length = n ∧ (∀ c ∈ ds, c.isDigit = true) ∧ gs = [ds] := by
  constructor
  · intro h
    obtain ⟨rest, rfl, hrest⟩ := exec_chars_eq_some h
    rw [exec] at hrest
    by_cases hd : (rest.take n).length = n ∧ (rest.take n).all Char.isDigit
    · rw [if_pos hd, Option.map_eq_some_iff] at hrest
      obtain ⟨gs', hgs', rfl⟩ := hrest
      have hb : exec (b.map .char ++ []) (rest.drop n) = some gs' := by simpa using hgs'
      obtain ⟨last, hlast, hnil⟩ := exec_chars_eq_some hb
      have hend : last = [] ∧ gs' = [] := by
        cases last with
        | nil => exact ⟨rfl, (Option.some.inj hnil).symm⟩
        | cons c last => cases hnil
      refine ⟨rest.take n, ?_, hd.1, fun c hc => List.all_eq_true.mp hd.2 c hc, ?_⟩
      · rw [hend.1, List.append_nil] at hlast
        rw [List.append_assoc, ← hlast, List.take_append_drop]
      · rw [hend.2]
    · rw [if_neg hd] at hrest
      cases hrest
  · rintro ⟨ds, rfl, rfl, hds, rfl⟩
    have hall : ds.all Char.isDigit = true := List.all_eq_true.mpr hds
    rw [List.append_assoc, exec_chars, exec, List.take_left, List.drop_left,
      if_pos ⟨rfl, hall⟩]
    have hb := exec_chars b [] []
    rw [List.append_nil, List.append_nil] at hb
    rw [hb]
    rfl

end ErpApi.RegExp
