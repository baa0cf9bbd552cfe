import Mathlib.Data.List.Basic

set_option autoImplicit false

/-! # Texts with placeholders in braces

A placeholder is a text `{body}` whose body is recognized by a partial function and holds no
brace. `scan` cuts a text into its placeholders and the characters between them, as the
successive matches of a global regular expression do; `replaceAll` substitutes them.

The rules below say how a scan composes: characters that are not an opening brace are copied
(`replaceAll_append_text`), a placeholder is replaced (`replaceAll_hit`) or copied whole
(`replaceAll_miss`), and a text may be cut before any opening brace (`replaceAll_append_open`).
-/

namespace ErpApi.Placeholder

variable {τ : Type}

/-- A character outside every placeholder, or a placeholder. -/
inductive Piece (τ : Type) where
  | char (c : Char)
  | token (t : τ)
  deriving DecidableEq

/-- The placeholder at the head of a text and its length. The body reaches up to the first
closing brace. -/
def headMatch (recognize : List Char → Option τ) : List Char → Option (τ × Nat)
  | [] => none
  | c :: rest =>
      if c = '{' ∧ '}' ∈ rest then
        (recognize (rest.takeWhile (· ≠ '}'))).map
          fun t => (t, (rest.takeWhile (· ≠ '}')).length + 2)
      else none

/-- The pieces of a text after its first `skip` characters. -/
def scanFrom (recognize : List Char → Option τ) : Nat → List Char → List (Piece τ)
  | _, [] => []
  | 0, c :: text =>
      match headMatch recognize (c :: text) with
      | none => .char c :: scanFrom recognize 0 text
      | some (t, n) => .token t :: scanFrom recognize (n - 1) text
  | skip + 1, _ :: text => scanFrom recognize skip text

def scan (recognize : List Char → Option τ) (text : List Char) : List (Piece τ) :=
  scanFrom recognize 0 text

/-- The pieces put together again, each placeholder replaced. -/
def render (replacement : τ → List Char) (pieces : List (Piece τ)) : List Char :=
  pieces.flatMap fun
    | .char c => [c]
    | .token t => replacement t

def replaceAll (recognize : List Char → Option τ) (replacement : τ → List Char)
    (text : List Char) : List Char :=
  render replacement (scan recognize text)

/-- The number of placeholders of a text. -/
def occurrences (recognize : List Char → Option τ) (text : List Char) : Nat :=
  (scan recognize text).countP fun
    | .char _ => false
    | .token _ => true

/-! ## The placeholder at the head -/

section Head

variable {recognize : List Char → Option τ}

theorem headMatch_of_ne {c : Char} (hc : c ≠ '{') (text : List Char) :
    headMatch recognize (c :: text) = none := by
  simp [headMatch, hc]

theorem takeWhile_body {body : List Char} (hb : '}' ∉ body) (rest : List Char) :
    (body ++ '}' :: rest).takeWhile (· ≠ '}') = body := by
  induction body with
  | nil => simp
  | cons c body ih =>
      obtain ⟨hc, hbody⟩ : '}' ≠ c ∧ '}' ∉ body := by simpa using hb
      rw [List.cons_append, List.takeWhile_cons_of_pos (by simpa using hc.symm), ih hbody]

theorem headMatch_braced {body : List Char} (hb : '}' ∉ body) (rest : List Char) :
    headMatch recognize ('{' :: (body ++ '}' :: rest)) =
      (recognize body).map fun t => (t, body.length + 2) := by
  simp only [headMatch, takeWhile_body hb]
  simp

theorem eq_of_headMatch {text : List Char} {t : τ} {n : Nat}
    (h : headMatch recognize text = some (t, n)) :
    ∃ body rest, text = '{' :: (body ++ '}' :: rest) ∧ '}' ∉ body ∧
      recognize body = some t ∧ n = body.length + 2 := by
  cases text with
  | nil => cases h
  | cons c text =>
      rw [headMatch] at h
      by_cases hc : c = '{' ∧ '}' ∈ text
      · rw [if_pos hc] at h
        obtain ⟨rfl, hclose⟩ := hc
        obtain ⟨body, rest, rfl, hb⟩ := List.eq_append_cons_of_mem hclose
        rw [takeWhile_body hb, Option.map_eq_some_iff] at h
        obtain ⟨t', ht', heq⟩ := h
        obtain ⟨rfl, rfl⟩ := Prod.mk.inj heq
        exact ⟨body, rest, rfl, hb, ht', rfl⟩
      · rw [if_neg hc] at h
        cases h

end Head

/-! ## Scanning step by step -/

section Scan

variable {recognize : List Char → Option τ}

theorem scanFrom_eq_scan_drop (skip : Nat) (text : List Char) :
    scanFrom recognize skip text = scan recognize (text.drop skip) := by
  induction skip generalizing text with
  | zero => rfl
  | succ skip ih =>
      cases text with
      | nil => simp [scanFrom, scan]
      | cons c text => rw [scanFrom, ih, List.drop_succ_cons]

@[simp] theorem scan_nil : scan recognize [] = [] := rfl

theorem scan_char {c : Char} {text : List Char} (h : headMatch recognize (c :: text) = none) :
    scan recognize (c :: text) = .char c :: scan recognize text := by
  rw [scan, scanFrom, h]
  rfl

theorem scan_hit {body : List Char} (hb : '}' ∉ body) {t : τ} (ht : recognize body = some t)
    (rest : List Char) :
    scan recognize ('{' :: (body ++ '}' :: rest)) = .token t :: scan recognize rest := by
  have hdrop : (body ++ '}' :: rest).drop (body.length + 1) = rest := by
    rw [← List.drop_drop, List.drop_left]
    rfl
  rw [scan, scanFrom, headMatch_braced hb, ht]
  show .token t :: scanFrom recognize (body.length + 1) (body ++ '}' :: rest) = _
  rw [scanFrom_eq_scan_drop, hdrop]

/-- A text without an opening brace is passed over. -/
theorem scan_append_text {w : List Char} (hw : '{' ∉ w) (text : List Char) :
    scan recognize (w ++ text) = w.map .char ++ scan recognize text := by
  induction w with
  | nil => rfl
  | cons c w ih =>
      obtain ⟨hc, hrest⟩ : '{' ≠ c ∧ '{' ∉ w := by simpa using hw
      rw [List.cons_append, scan_char (headMatch_of_ne hc.symm _), ih hrest]
      rfl

/-- Induction along a scan: a character is passed over, or a placeholder is. -/
theorem scan_induction (recognize : List Char → Option τ) {motive : List Char → Prop}
    (nil : motive [])
    (char : ∀ c text, headMatch recognize (c :: text) = none → motive text →
      motive (c :: text))
    (token : ∀ body rest t, '}' ∉ body → recognize body = some t → motive rest →
      motive ('{' :: (body ++ '}' :: rest)))
    (text : List Char) : motive text := by
  -- The rest after a placeholder is not the tail of the text, so the induction is on length.
  induction hn : text.length using Nat.strongRecOn generalizing text with
  | _ n ih =>
      cases text with
      | nil => exact nil
      | cons c text =>
          cases hm : headMatch recognize (c :: text) with
          | none =>
              refine char c text hm (ih text.length ?_ text rfl)
              rw [← hn, List.length_cons]
              omega
          | some m =>
              obtain ⟨t, k⟩ := m
              obtain ⟨body, rest, heq, hb, ht, -⟩ := eq_of_headMatch hm
              rw [heq] at hn ⊢
              refine token body rest t hb ht (ih rest.length ?_ rest rfl)
              rw [← hn]
              simp only [List.length_cons, List.length_append]
              omega

theorem exists_of_mem_scan {text : List Char} {t : τ} (h : .token t ∈ scan recognize text) :
    ∃ body, recognize body = some t := by
  revert h
  induction text using scan_induction recognize with
  | nil => simp
  | char c text hm ih =>
      intro h
      rw [scan_char hm] at h
      exact ih (by simpa using h)
  | token body rest t' hb ht ih =>
      intro h
      rw [scan_hit hb ht, List.mem_cons] at h
      rcases h with heq | h
      · obtain rfl := Piece.token.inj heq
        exact ⟨body, ht⟩
      · exact ih h

end Scan

/-! ## Substitution -/

section Replace

variable {recognize : List Char → Option τ} {replacement : τ → List Char}

theorem render_append (ps qs : List (Piece τ)) :
    render replacement (ps ++ qs) = render replacement ps ++ render replacement qs :=
  List.flatMap_append

theorem render_chars (w : List Char) : render replacement (w.map .char) = w := by
  rw [render, List.flatMap_map]
  exact List.flatMap_singleton' w

@[simp] theorem replaceAll_nil : replaceAll recognize replacement [] = [] := rfl

theorem replaceAll_char {c : Char} {text : List Char}
    (h : headMatch recognize (c :: text) = none) :
    replaceAll recognize replacement (c :: text) =
      c :: replaceAll recognize replacement text := by
  rw [replaceAll, scan_char h]
  rfl

theorem replaceAll_hit {body : List Char} (hb : '}' ∉ body) {t : τ}
    (ht : recognize body = some t) (rest : List Char) :
    replaceAll recognize replacement ('{' :: (body ++ '}' :: rest)) =
      replacement t ++ replaceAll recognize replacement rest := by
  rw [replaceAll, scan_hit hb ht]
  rfl

/-- A text without an opening brace is copied. -/
theorem replaceAll_append_text {w : List Char} (hw : '{' ∉ w) (text : List Char) :
    replaceAll recognize replacement (w ++ text) =
      w ++ replaceAll recognize replacement text := by
  rw [replaceAll, scan_append_text hw, render_append, render_chars, replaceAll]

/-- A text in braces that is not a placeholder is copied. -/
theorem replaceAll_miss {body : List Char} (hopen : '{' ∉ body) (hclose : '}' ∉ body)
    (hr : recognize body = none) (rest : List Char) :
    replaceAll recognize replacement ('{' :: (body ++ '}' :: rest)) =
      '{' :: (body ++ '}' :: replaceAll recognize replacement rest) := by
  have hw : '{' ∉ body ++ ['}'] := by simp [hopen]
  have hcopy : replaceAll recognize replacement (body ++ ['}'] ++ rest) =
      body ++ ['}'] ++ replaceAll recognize replacement rest := replaceAll_append_text hw rest
  rw [replaceAll_char (by rw [headMatch_braced hclose, hr]; rfl)]
  simpa using hcopy

theorem occurrences_append_text {w : List Char} (hw : '{' ∉ w) (text : List Char) :
    occurrences recognize (w ++ text) = occurrences recognize text := by
  have hchars : (w.map (@Piece.char τ)).countP (fun
      | .char _ => false
      | .token _ => true) = 0 := by
    rw [List.countP_map]
    exact List.countP_eq_zero.mpr fun c _ => Bool.false_ne_true
  rw [occurrences, scan_append_text hw, List.countP_append, hchars, Nat.zero_add, occurrences]

/-- A text with a placeholder, cut around one. -/
theorem exists_of_occurrences_ne_zero {text : List Char} (h : occurrences recognize text ≠ 0) :
    ∃ w body rest t, text = w ++ '{' :: (body ++ '}' :: rest) ∧ '}' ∉ body ∧
      recognize body = some t := by
  revert h
  induction text using scan_induction recognize with
  | nil => exact fun h => absurd rfl h
  | char c text hm ih =>
      intro h
      have hne : occurrences recognize text ≠ 0 := by
        intro hzero
        apply h
        rw [← hzero, occurrences, occurrences, scan_char hm]
        exact List.countP_cons_of_neg Bool.false_ne_true
      obtain ⟨w, body, rest, t, rfl, hb, ht⟩ := ih hne
      exact ⟨c :: w, body, rest, t, rfl, hb, ht⟩
  | token body rest t hb ht ih => exact fun _ => ⟨[], body, rest, t, rfl, hb, ht⟩

/-- A text without placeholders is its own substitution. -/
theorem replaceAll_of_occurrences_eq_zero {text : List Char}
    (h : occurrences recognize text = 0) : replaceAll recognize replacement text = text := by
  revert h
  induction text using scan_induction recognize with
  | nil => simp
  | char c text hm ih =>
      intro h
      rw [replaceAll_char hm, ih]
      rw [← h, occurrences, occurrences, scan_char hm]
      simp
  | token body rest t hb ht ih =>
      intro h
      rw [occurrences, scan_hit hb ht] at h
      simp at h

end Replace

/-! ## Cutting a text before an opening brace -/

section Cut

variable {recognize : List Char → Option τ}
  (hopen : ∀ body t, recognize body = some t → '{' ∉ body)
include hopen

theorem headMatch_append_open (c : Char) (w text : List Char) :
    headMatch recognize (c :: w) = none →
      headMatch recognize (c :: (w ++ '{' :: text)) = none := by
  intro hw
  cases hm : headMatch recognize (c :: (w ++ '{' :: text)) with
  | none => rfl
  | some m =>
      exfalso
      obtain ⟨body, rest, heq, hb, ht, -⟩ := eq_of_headMatch (t := m.1) (n := m.2) hm
      obtain ⟨rfl, htail⟩ := List.cons.inj heq
      -- The body has no opening brace, so it ends before the cut.
      rcases List.append_eq_append_iff.mp htail with ⟨v, hbody, hv⟩ | ⟨v, hw', hv⟩
      · cases v with
        | nil =>
            simp at hv
        | cons d v =>
            obtain ⟨rfl, -⟩ := List.cons.inj (show '{' :: text = d :: (v ++ '}' :: rest) by
              simpa using hv)
            exact hopen body m.1 ht (by rw [hbody]; simp)
      · cases v with
        | nil =>
            simp at hv
        | cons d v =>
            obtain ⟨rfl, -⟩ := List.cons.inj (show '}' :: rest = d :: (v ++ '{' :: text) by
              simpa using hv)
            rw [hw', headMatch_braced hb, ht] at hw
            cases hw

theorem scan_append_open (w text : List Char) :
    scan recognize (w ++ '{' :: text) = scan recognize w ++ scan recognize ('{' :: text) := by
  induction w using scan_induction recognize with
  | nil => rfl
  | char c w hm ih =>
      rw [List.cons_append, scan_char (headMatch_append_open hopen c w text hm), ih,
        scan_char hm, List.cons_append]
  | token body rest t hb ht ih =>
      have hassoc : '{' :: (body ++ '}' :: rest) ++ '{' :: text =
          '{' :: (body ++ '}' :: (rest ++ '{' :: text)) := by simp
      rw [hassoc, scan_hit hb ht, ih, scan_hit hb ht, List.cons_append]

/-- A text cut at a placeholder. -/
theorem replaceAll_append_hit (replacement : τ → List Char) (w : List Char) {body : List Char}
    (hb : '}' ∉ body) {t : τ} (ht : recognize body = some t) (rest : List Char) :
    replaceAll recognize replacement (w ++ '{' :: (body ++ '}' :: rest)) =
      replaceAll recognize replacement w ++ replacement t ++
        replaceAll recognize replacement rest := by
  rw [replaceAll, scan_append_open hopen, render_append, ← replaceAll, ← replaceAll,
    replaceAll_hit hb ht, List.append_assoc]

theorem occurrences_append_hit (w : List Char) {body : List Char} (hb : '}' ∉ body) {t : τ}
    (ht : recognize body = some t) (rest : List Char) :
    occurrences recognize (w ++ '{' :: (body ++ '}' :: rest)) =
      occurrences recognize w + 1 + occurrences recognize rest := by
  rw [occurrences, scan_append_open hopen, scan_hit hb ht, List.countP_append,
    List.countP_cons_of_pos rfl, occurrences, occurrences]
  omega

/-- A substitution by texts without opening brace removes one opening brace for each
placeholder. -/
theorem count_open_replaceAll {replacement : τ → List Char}
    (hr : ∀ t, '{' ∉ replacement t) (text : List Char) :
    (replaceAll recognize replacement text).count '{' + occurrences recognize text =
      text.count '{' := by
  induction text using scan_induction recognize with
  | nil => rfl
  | char c text hm ih =>
      rw [replaceAll_char hm, List.count_cons, List.count_cons, ← ih, occurrences, occurrences,
        scan_char hm, List.countP_cons_of_neg (by simp)]
      omega
  | token body rest t hb ht ih =>
      have hbody : body.count '{' = 0 := List.count_eq_zero.mpr (hopen body t ht)
      have hrep : (replacement t).count '{' = 0 := List.count_eq_zero.mpr (hr t)
      have hocc : occurrences recognize ('{' :: (body ++ '}' :: rest)) =
          occurrences recognize rest + 1 := by
        rw [occurrences, scan_hit hb ht, List.countP_cons_of_pos rfl, occurrences]
      have hcount : ('{' :: (body ++ '}' :: rest)).count '{' = rest.count '{' + 1 := by
        rw [List.count_cons_self, List.count_append, hbody,
          List.count_cons_of_ne (by decide)]
        omega
      rw [replaceAll_hit hb ht, List.count_append, hrep, hocc, hcount, ← ih]
      omega

end Cut

end ErpApi.Placeholder
