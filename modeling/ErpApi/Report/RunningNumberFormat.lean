import Mathlib
import ErpApi.Basic.Placeholder
import ErpApi.Basic.RegExp

set_option autoImplicit false

/-! # Running-number formats

A format such as `INV-{YYYY}{MM}-{SEQ:5}` is used in two ways. `formatRunningNumber` replaces
its tokens, one kind after the other, to print a number; `parseRunningNumberFormat` builds
the regular expression that recognizes a number printed earlier in the same period.

`accepted_of_parse` and `Accepted.exec_formatRunningNumber` relate the two. Around the
sequence token the date tokens leave two texts `a` and `b`; the expression matches `a`, `n`
digits, `b`, and the number is `a`, the padded sequence, `b` — unless replacing the date
tokens has made a second sequence token out of its surroundings, as in `{SEQ:{DD}}`.

Widths are natural numbers. The source rounds a width above `2 ^ 53`, but then `padStart`
throws, and here the number is too long to be stored: no such call issues a number.
-/

namespace ErpApi.Report

open Placeholder

abbrev Text := List Char

/-! ## Dates -/

/-- A point in time, in milliseconds, with its local calendar date. -/
structure Date where
  time : Int
  year : Int
  month : Nat
  day : Nat
  deriving DecidableEq

structure DateParts where
  yyyy : Text
  yy : Text
  mm : Text
  dd : Text
  deriving DecidableEq

/-- The call `text.padStart(width, '0')`. -/
def padStart (width : Nat) (text : Text) : Text :=
  List.replicate (width - text.length) '0' ++ text

/-- The call `String(n)` for an integer. -/
def intText (n : Int) : Text :=
  if n < 0 then '-' :: Nat.toDigits 10 n.natAbs else Nat.toDigits 10 n.natAbs

def resolveDateParts (now : Date) : DateParts :=
  let yyyy := intText now.year
  { yyyy := yyyy
    yy := yyyy.drop (yyyy.length - 2)
    mm := padStart 2 (Nat.toDigits 10 now.month)
    dd := padStart 2 (Nat.toDigits 10 now.day) }

/-! ## Tokens -/

inductive Token where
  | yyyy
  | yy
  | mm
  | dd
  | seq (digits : Text)
  deriving DecidableEq

/-- What stands between the braces. -/
def Token.body : Token → Text
  | .yyyy => ['Y', 'Y', 'Y', 'Y']
  | .yy => ['Y', 'Y']
  | .mm => ['M', 'M']
  | .dd => ['D', 'D']
  | .seq digits => 'S' :: 'E' :: 'Q' :: ':' :: digits

/-- The token as it stands in the format. -/
def Token.source (t : Token) : Text := '{' :: (t.body ++ ['}'])

def Token.isSeq : Token → Bool
  | .seq _ => true
  | _ => false

/-- A sequence token: `SEQ:` and at least one digit. -/
def recognizeSeq : Text → Option Token
  | 'S' :: 'E' :: 'Q' :: ':' :: digits =>
      if digits ≠ [] ∧ digits.all Char.isDigit then some (.seq digits) else none
  | _ => none

/-- One of the four date tokens. -/
def recognizeOnly (t : Token) (body : Text) : Option Token :=
  if body = t.body then some t else none

/-- The alternatives of `TOKEN_RE`. -/
def tokenRe (body : Text) : Option Token :=
  if body = Token.yyyy.body then some .yyyy
  else if body = Token.yy.body then some .yy
  else if body = Token.mm.body then some .mm
  else if body = Token.dd.body then some .dd
  else recognizeSeq body

def escapeRegExp (value : Text) : Text :=
  value.flatMap fun c => if c ∈ RegExp.syntaxCharacters then ['\\', c] else [c]

/-! ## The two directions -/

structure ParsedRunningNumberFormat where
  regex : List RegExp.Atom
  seqDigits : Nat
  deriving DecidableEq

inductive FormatError where
  | badRequest (message : String)
  /-- The constructor `RegExp` rejects the source text. It never does. -/
  | invalidRegExp
  deriving DecidableEq

def exactlyOneSeq : String :=
  "running_number_format must contain exactly one \x7bSEQ:n\x7d placeholder."

/-- The loop over the matches of `TOKEN_RE`: the source text of the expression so far, and
the width of the sequence once its token was seen. -/
def parseLoop (parts : DateParts) :
    List (Piece Token) → Text → Option Nat → Except FormatError (Text × Option Nat)
  | [], regexStr, seqDigits => .ok (regexStr, seqDigits)
  | .char c :: pieces, regexStr, seqDigits =>
      parseLoop parts pieces (regexStr ++ escapeRegExp [c]) seqDigits
  | .token t :: pieces, regexStr, seqDigits =>
      match t with
      | .yyyy => parseLoop parts pieces (regexStr ++ escapeRegExp parts.yyyy) seqDigits
      | .yy => parseLoop parts pieces (regexStr ++ escapeRegExp parts.yy) seqDigits
      | .mm => parseLoop parts pieces (regexStr ++ escapeRegExp parts.mm) seqDigits
      | .dd => parseLoop parts pieces (regexStr ++ escapeRegExp parts.dd) seqDigits
      | .seq digits =>
          match seqDigits with
          | some _ => .error (.badRequest exactlyOneSeq)
          | none =>
              let n := Nat.ofDigitChars 10 digits 0
              parseLoop parts pieces
                (regexStr ++ (['(', '\\', 'd', '{'] ++ Nat.toDigits 10 n ++ ['}', ')']))
                (some n)

def parseRunningNumberFormat (format : Text) (now : Date) :
    Except FormatError ParsedRunningNumberFormat :=
  match parseLoop (resolveDateParts now) (scan tokenRe format) ['^'] none with
  | .error e => .error e
  | .ok (_, none) => .error (.badRequest exactlyOneSeq)
  | .ok (regexStr, some seqDigits) =>
      match RegExp.compile (regexStr ++ ['$']) with
      | some regex => .ok ⟨regex, seqDigits⟩
      | none => .error .invalidRegExp

/-- The four replacements of the date tokens. -/
def replaceDateTokens (format : Text) (now : Date) : Text :=
  let parts := resolveDateParts now
  replaceAll (recognizeOnly .dd) (fun _ => parts.dd)
    (replaceAll (recognizeOnly .mm) (fun _ => parts.mm)
      (replaceAll (recognizeOnly .yy) (fun _ => parts.yy)
        (replaceAll (recognizeOnly .yyyy) (fun _ => parts.yyyy) format)))

def formatRunningNumber (format : Text) (now : Date) (seq seqDigits : Nat) : Text :=
  replaceAll recognizeSeq (fun _ => padStart seqDigits (Nat.toDigits 10 seq))
    (replaceDateTokens format now)

/-! ## Bodies of tokens -/

/-- A text of digits. -/
def Digits (text : Text) : Prop := ∀ c ∈ text, c.isDigit = true

theorem Digits.open_not_mem {text : Text} (h : Digits text) : '{' ∉ text :=
  fun hmem => absurd (h _ hmem) (by decide)

theorem Digits.close_not_mem {text : Text} (h : Digits text) : '}' ∉ text :=
  fun hmem => absurd (h _ hmem) (by decide)

theorem digits_toDigits (n : Nat) : Digits (Nat.toDigits 10 n) := fun _ hc =>
  Nat.isDigit_of_mem_toDigits (by decide) (by decide) hc

theorem Digits.padStart {text : Text} (h : Digits text) (width : Nat) :
    Digits (padStart width text) := by
  intro c hc
  rcases List.mem_append.mp hc with hz | ht
  · rw [List.eq_of_mem_replicate hz]
    rfl
  · exact h c ht

theorem recognizeSeq_eq_some {body : Text} {t : Token} :
    recognizeSeq body = some t ↔
      ∃ ds, t = .seq ds ∧ ds ≠ [] ∧ Digits ds ∧ body = t.body := by
  unfold recognizeSeq
  split
  · rename_i digits
    by_cases h : digits ≠ [] ∧ digits.all Char.isDigit = true
    · rw [if_pos h]
      constructor
      · intro heq
        obtain rfl := Option.some.inj heq
        exact ⟨digits, rfl, h.1, List.all_eq_true.mp h.2, rfl⟩
      · rintro ⟨ds, rfl, -, -, hbody⟩
        simp only [Token.body, List.cons.injEq, true_and] at hbody
        rw [hbody]
    · rw [if_neg h]
      constructor
      · rintro ⟨⟩
      · rintro ⟨ds, rfl, hne, hds, hbody⟩
        simp only [Token.body, List.cons.injEq, true_and] at hbody
        subst hbody
        exact absurd ⟨hne, List.all_eq_true.mpr hds⟩ h
  · rename_i hno
    constructor
    · rintro ⟨⟩
    · rintro ⟨ds, rfl, -, -, hbody⟩
      exact absurd hbody (hno ds)

theorem recognizeOnly_eq_some {t t' : Token} {body : Text} :
    recognizeOnly t body = some t' ↔ t' = t ∧ body = t.body := by
  unfold recognizeOnly
  by_cases h : body = t.body
  · simp [h, eq_comm]
  · simp [h]

/-- A token that the format may hold: the digits of a sequence token are digits. -/
def Token.WellFormed (t : Token) : Prop := ∀ ds, t = .seq ds → ds ≠ [] ∧ Digits ds

theorem tokenRe_eq_some {body : Text} {t : Token} :
    tokenRe body = some t ↔ t.WellFormed ∧ body = t.body := by
  constructor
  · intro h
    have hdate : ∀ t : Token, t.isSeq = false → t.WellFormed := by
      rintro t ht ds rfl
      cases ht
    unfold tokenRe at h
    split at h
    · rename_i hb
      obtain rfl := Option.some.inj h
      exact ⟨hdate _ rfl, hb⟩
    · split at h
      · rename_i hb
        obtain rfl := Option.some.inj h
        exact ⟨hdate _ rfl, hb⟩
      · split at h
        · rename_i hb
          obtain rfl := Option.some.inj h
          exact ⟨hdate _ rfl, hb⟩
        · split at h
          · rename_i hb
            obtain rfl := Option.some.inj h
            exact ⟨hdate _ rfl, hb⟩
          · obtain ⟨ds, rfl, hne, hds, hb⟩ := recognizeSeq_eq_some.mp h
            refine ⟨?_, hb⟩
            rintro ds' heq
            obtain rfl := Token.seq.inj heq
            exact ⟨hne, hds⟩
  · rintro ⟨hwf, rfl⟩
    cases t with
    | yyyy => rfl
    | yy => rfl
    | mm => rfl
    | dd => rfl
    | seq ds =>
        have hseq : recognizeSeq (Token.seq ds).body = some (.seq ds) :=
          recognizeSeq_eq_some.mpr ⟨ds, rfl, (hwf ds rfl).1, (hwf ds rfl).2, rfl⟩
        rw [← hseq]
        simp [tokenRe, Token.body]

theorem Token.WellFormed.open_not_mem {t : Token} (h : t.WellFormed) : '{' ∉ t.body := by
  cases t with
  | seq ds => simpa [Token.body] using (h ds rfl).2.open_not_mem
  | _ => decide

theorem Token.WellFormed.close_not_mem {t : Token} (h : t.WellFormed) : '}' ∉ t.body := by
  cases t with
  | seq ds => simpa [Token.body] using (h ds rfl).2.close_not_mem
  | _ => decide

/-! ## Replacing the date tokens one kind after the other -/

/-- The text with some tokens replaced and the others left as they stand. -/
def substitute (f : Token → Option Text) (text : Text) : Text :=
  replaceAll tokenRe (fun t => (f t).getD t.source) text

/-- A text of digits, after a sign if the year is negative. -/
def DateText (text : Text) : Prop := ∀ c ∈ text, c.isDigit = true ∨ c = '-'

theorem Digits.dateText {text : Text} (h : Digits text) : DateText text :=
  fun c hc => Or.inl (h c hc)

theorem DateText.open_not_mem {text : Text} (h : DateText text) : '{' ∉ text :=
  fun hmem => (h _ hmem).elim (fun hc => absurd hc (by decide)) (fun hc => absurd hc (by decide))

theorem DateText.drop {text : Text} (h : DateText text) (n : Nat) : DateText (text.drop n) :=
  fun c hc => h c (List.mem_of_mem_drop hc)

theorem dateText_intText (n : Int) : DateText (intText n) := by
  have hdigits : DateText (Nat.toDigits 10 n.natAbs) := (digits_toDigits n.natAbs).dateText
  unfold intText
  split
  · intro c hc
    rcases List.mem_cons.mp hc with rfl | hc
    · exact Or.inr rfl
    · exact hdigits c hc
  · exact hdigits

theorem length_intText_pos (n : Int) : 0 < (intText n).length := by
  have hpos : 0 < (Nat.toDigits 10 n.natAbs).length := Nat.length_toDigits_pos
  unfold intText
  split
  · exact Nat.succ_pos _
  · exact hpos

/-- A replacement of date tokens by what they print. -/
structure DateReplacement (f : Token → Option Text) : Prop where
  text : ∀ t d, f t = some d → DateText d ∧ d ≠ []
  seq : ∀ ds, f (.seq ds) = none

theorem substitute_token (f : Token → Option Text) {t : Token} (ht : t.WellFormed)
    (rest : Text) :
    substitute f ('{' :: (t.body ++ '}' :: rest)) =
      (f t).getD t.source ++ substitute f rest :=
  replaceAll_hit ht.close_not_mem (tokenRe_eq_some.mpr ⟨ht, rfl⟩) rest

theorem substitute_char (f : Token → Option Text) {c : Char} {text : Text}
    (h : headMatch tokenRe (c :: text) = none) :
    substitute f (c :: text) = c :: substitute f text :=
  replaceAll_char h

/-- A text of letters and closing braces stands at the head after a substitution exactly if
it stood there before: what is put in starts with a digit, a sign or an opening brace. -/
theorem prefix_of_prefix_substitute {f : Token → Option Text} (hf : DateReplacement f)
    {q text : Text} (hopen : '{' ∉ q) (hdate : ∀ c ∈ q, ¬ (c.isDigit = true ∨ c = '-'))
    (h : q <+: substitute f text) : q <+: text := by
  induction q generalizing text with
  | nil => exact List.nil_prefix
  | cons x q ih =>
      obtain ⟨hx, hq⟩ : '{' ≠ x ∧ '{' ∉ q := by simpa using hopen
      have hxd : ¬ (x.isDigit = true ∨ x = '-') := hdate x List.mem_cons_self
      cases text with
      | nil => exact absurd (List.prefix_nil.mp h) (by simp)
      | cons e text =>
          cases hm : headMatch tokenRe (e :: text) with
          | none =>
              rw [substitute_char f hm, List.cons_prefix_cons] at h
              rw [List.cons_prefix_cons]
              exact ⟨h.1, ih hq (fun c hc => hdate c (List.mem_cons_of_mem x hc)) h.2⟩
          | some m =>
              exfalso
              obtain ⟨body, rest, heq, -, ht, -⟩ := eq_of_headMatch (t := m.1) (n := m.2) hm
              obtain ⟨hwf, rfl⟩ := tokenRe_eq_some.mp ht
              rw [heq, substitute_token f hwf] at h
              cases hft : f m.1 with
              | none =>
                  rw [hft, Option.getD_none, Token.source, List.cons_append,
                    List.cons_prefix_cons] at h
                  exact hx h.1.symm
              | some d =>
                  obtain ⟨hd, hne⟩ := hf.text _ _ hft
                  rw [hft, Option.getD_some] at h
                  cases d with
                  | nil => exact hne rfl
                  | cons y d =>
                      rw [List.cons_append, List.cons_prefix_cons] at h
                      rw [h.1] at hxd
                      exact hxd (hd y List.mem_cons_self)

/-- **One more kind of date token.** Replacing the tokens `t` in a text whose other date
tokens are already replaced is the same as replacing them together. -/
theorem replaceAll_substitute {f : Token → Option Text} (hf : DateReplacement f) {t : Token}
    (hseq : t.isSeq = false) (hft : f t = none) (d : Text) (text : Text) :
    replaceAll (recognizeOnly t) (fun _ => d) (substitute f text) =
      substitute (fun t' => if t' = t then some d else f t') text := by
  have hwf : t.WellFormed := by
    rintro ds rfl
    cases hseq
  have hall : (t.body ++ ['}']).all (fun c => !(c.isDigit || c == '-')) = true := by
    cases t with
    | seq ds => cases hseq
    | _ => rfl
  have hdate : ∀ c ∈ t.body ++ ['}'], ¬ (c.isDigit = true ∨ c = '-') := by
    intro c hc
    have hc' := List.all_eq_true.mp hall c hc
    simpa using hc'
  induction text using scan_induction tokenRe with
  | nil => rfl
  | char c text hm ih =>
      -- A token that the earlier replacements would complete stood in the text already.
      have hno : headMatch (recognizeOnly t) (c :: substitute f text) = none := by
        cases hm' : headMatch (recognizeOnly t) (c :: substitute f text) with
        | none => rfl
        | some m =>
            exfalso
            obtain ⟨body, rest, heq, -, ht, -⟩ := eq_of_headMatch (t := m.1) (n := m.2) hm'
            obtain ⟨-, rfl⟩ := recognizeOnly_eq_some.mp ht
            obtain ⟨rfl, htail⟩ := List.cons.inj heq
            have hpre : t.body ++ ['}'] <+: substitute f text := by
              rw [htail]
              exact ⟨rest, by simp⟩
            obtain ⟨rest', hrest'⟩ := prefix_of_prefix_substitute hf
              (by simp [hwf.open_not_mem]) hdate hpre
            have hshape : '{' :: text = '{' :: (t.body ++ '}' :: rest') := by
              rw [← hrest']
              simp
            rw [hshape, headMatch_braced hwf.close_not_mem,
              tokenRe_eq_some.mpr ⟨hwf, rfl⟩] at hm
            cases hm
      rw [substitute_char f hm, replaceAll_char hno, ih, substitute_char _ hm]
  | token body rest t' hb ht' ih =>
      obtain ⟨hwf', rfl⟩ := tokenRe_eq_some.mp ht'
      rw [substitute_token f hwf', substitute_token _ hwf']
      by_cases htt : t' = t
      · subst htt
        rw [hft, if_pos rfl, Option.getD_none, Option.getD_some, Token.source, List.cons_append,
          List.append_assoc, List.singleton_append,
          replaceAll_hit hwf'.close_not_mem (recognizeOnly_eq_some.mpr ⟨rfl, rfl⟩), ih]
      · rw [if_neg htt]
        cases hft' : f t' with
        | some d' =>
            rw [Option.getD_some,
              replaceAll_append_text ((hf.text _ _ hft').1.open_not_mem), ih]
        | none =>
            have hmiss : recognizeOnly t t'.body = none := by
              cases hr : recognizeOnly t t'.body with
              | none => rfl
              | some u =>
                  obtain ⟨-, hbody⟩ := recognizeOnly_eq_some.mp hr
                  have : tokenRe t'.body = some t := tokenRe_eq_some.mpr ⟨hwf, hbody⟩
                  rw [this] at ht'
                  exact absurd (Option.some.inj ht').symm htt
            rw [Option.getD_none, Token.source, List.cons_append, List.append_assoc,
              List.singleton_append,
              replaceAll_miss hwf'.open_not_mem hwf'.close_not_mem hmiss, ih]
            simp

/-- The values of the date tokens. -/
def dateValue (parts : DateParts) : Token → Option Text
  | .yyyy => some parts.yyyy
  | .yy => some parts.yy
  | .mm => some parts.mm
  | .dd => some parts.dd
  | .seq _ => none

theorem padStart_ne_nil {width : Nat} {text : Text} (h : text ≠ []) :
    padStart width text ≠ [] := by
  simp [padStart, h]

theorem dateReplacement_resolveDateParts (now : Date) :
    DateReplacement (dateValue (resolveDateParts now)) := by
  have hyear : DateText (intText now.year) := dateText_intText now.year
  have hlen : 0 < (intText now.year).length := length_intText_pos now.year
  have htwo : ∀ n, DateText (padStart 2 (Nat.toDigits 10 n)) :=
    fun n => ((digits_toDigits n).padStart 2).dateText
  refine ⟨?_, fun ds => rfl⟩
  intro t d h
  cases t with
  | yyyy =>
      obtain rfl := Option.some.inj h
      exact ⟨hyear, List.ne_nil_of_length_pos hlen⟩
  | yy =>
      obtain rfl := Option.some.inj h
      refine ⟨hyear.drop _, ?_⟩
      intro hnil
      have : (intText now.year).length ≤ (intText now.year).length - 2 :=
        List.drop_eq_nil_iff.mp hnil
      omega
  | mm =>
      obtain rfl := Option.some.inj h
      exact ⟨htwo _, padStart_ne_nil Nat.toDigits_ne_nil⟩
  | dd =>
      obtain rfl := Option.some.inj h
      exact ⟨htwo _, padStart_ne_nil Nat.toDigits_ne_nil⟩
  | seq ds => cases h

theorem DateReplacement.restrict {f : Token → Option Text} (hf : DateReplacement f)
    (keep : Token → Bool) : DateReplacement fun t => if keep t then f t else none := by
  refine ⟨fun t d h => ?_, fun ds => ?_⟩
  · by_cases hk : keep t = true
    · exact hf.text t d (by simpa [hk] using h)
    · simp [hk] at h
  · simp [hf.seq ds]

theorem substitute_none (text : Text) : substitute (fun _ => none) text = text := by
  induction text using scan_induction tokenRe with
  | nil => rfl
  | char c text hm ih => rw [substitute_char _ hm, ih]
  | token body rest t hb ht ih =>
      obtain ⟨hwf, rfl⟩ := tokenRe_eq_some.mp ht
      rw [substitute_token _ hwf, ih]
      simp [Token.source]

/-- The four replacements are one substitution. -/
theorem replaceDateTokens_eq (format : Text) (now : Date) :
    replaceDateTokens format now =
      substitute (dateValue (resolveDateParts now)) format := by
  set f := dateValue (resolveDateParts now) with hf
  have hrep : DateReplacement f := dateReplacement_resolveDateParts now
  have hstep : ∀ (keep : Token → Bool) (t : Token) (d text : Text), t.isSeq = false →
      f t = some d → keep t = false →
      replaceAll (recognizeOnly t) (fun _ => d)
        (substitute (fun t' => if keep t' then f t' else none) text) =
      substitute (fun t' => if keep t' || t' = t then f t' else none) text := by
    intro keep t d text hseq hft hk
    rw [replaceAll_substitute (hrep.restrict keep) hseq (by simp [hk])]
    congr 1
    funext t'
    by_cases htt : t' = t
    · simp [htt, hft]
    · simp [htt]
  have h0 : format = substitute (fun t' => if (fun _ => false) t' then f t' else none) format := by
    simpa using (substitute_none format).symm
  show replaceAll (recognizeOnly .dd) _ (replaceAll (recognizeOnly .mm) _
    (replaceAll (recognizeOnly .yy) _ (replaceAll (recognizeOnly .yyyy) _ format))) = _
  rw [h0]
  rw [hstep _ .yyyy _ _ rfl rfl rfl, hstep _ .yy _ _ rfl rfl (by decide),
    hstep _ .mm _ _ rfl rfl (by decide), hstep _ .dd _ _ rfl rfl (by decide), ← h0]
  congr 1
  funext t
  cases t with
  | seq ds => simp [hrep.seq ds]
  | _ => rfl

/-! ## The expression built from a format -/

theorem escapeRegExp_append (v w : Text) :
    escapeRegExp (v ++ w) = escapeRegExp v ++ escapeRegExp w :=
  List.flatMap_append

theorem compileFrom_escapeRegExp (w text : Text) :
    RegExp.compileFrom none (escapeRegExp w ++ text) =
      (RegExp.compileFrom none text).map (w.map .char ++ ·) := by
  induction w with
  | nil => simp [escapeRegExp]
  | cons c w ih =>
      have hcons : escapeRegExp (c :: w) ++ text =
          escapeRegExp [c] ++ (escapeRegExp w ++ text) := by
        rw [← List.append_assoc, ← escapeRegExp_append]
        rfl
      rw [hcons]
      by_cases hc : c ∈ RegExp.syntaxCharacters
      · have hone : escapeRegExp [c] = ['\\', c] := by simp [escapeRegExp, hc]
        rw [hone]
        show RegExp.compileFrom none ('\\' :: c :: (escapeRegExp w ++ text)) = _
        rw [RegExp.compileFrom_escaped hc, ih, Option.map_map]
        rfl
      · have hone : escapeRegExp [c] = [c] := by simp [escapeRegExp, hc]
        rw [hone]
        show RegExp.compileFrom none (c :: (escapeRegExp w ++ text)) = _
        rw [RegExp.compileFrom_plain hc, ih, Option.map_map]
        rfl

/-- The pieces of a format with the date tokens replaced. -/
def renderDates (parts : DateParts) (pieces : List (Piece Token)) : Text :=
  render (fun t => (dateValue parts t).getD t.source) pieces

/-- The source text of the group for `n` digits. -/
def seqGroup (n : Nat) : Text := ['(', '\\', 'd', '{'] ++ Nat.toDigits 10 n ++ ['}', ')']

/-- What one piece adds to the source text, unless it is a sequence token. -/
theorem parseLoop_cons (parts : DateParts) (p : Piece Token) (pieces : List (Piece Token))
    (regexStr : Text) (seqDigits : Option Nat) (hp : ∀ ds, p ≠ .token (.seq ds)) :
    parseLoop parts (p :: pieces) regexStr seqDigits =
      parseLoop parts pieces (regexStr ++ escapeRegExp (renderDates parts [p])) seqDigits := by
  cases p with
  | char c => rfl
  | token t =>
      cases t with
      | seq ds => exact absurd rfl (hp ds)
      | _ => simp [parseLoop, renderDates, render, dateValue]

theorem renderDates_cons (parts : DateParts) (p : Piece Token) (pieces : List (Piece Token)) :
    renderDates parts (p :: pieces) = renderDates parts [p] ++ renderDates parts pieces :=
  render_append [p] pieces

/-- Pieces without a sequence token. -/
def NoSeq (pieces : List (Piece Token)) : Prop := ∀ ds, .token (.seq ds) ∉ pieces

theorem NoSeq.cons {p : Piece Token} {pieces : List (Piece Token)}
    (hp : ¬ ∃ ds, p = .token (.seq ds)) (h : NoSeq pieces) : NoSeq (p :: pieces) := by
  intro ds hmem
  rcases List.mem_cons.mp hmem with heq | hmem
  · exact hp ⟨ds, heq.symm⟩
  · exact h ds hmem

/-- After the sequence token, the loop only adds literal text. -/
theorem parseLoop_some {parts : DateParts} {pieces : List (Piece Token)} {regexStr r : Text}
    {k : Nat} {s : Option Nat} (h : parseLoop parts pieces regexStr (some k) = .ok (r, s)) :
    s = some k ∧ r = regexStr ++ escapeRegExp (renderDates parts pieces) ∧ NoSeq pieces := by
  induction pieces generalizing regexStr with
  | nil =>
      obtain ⟨rfl, rfl⟩ := Prod.mk.inj (Except.ok.inj h)
      exact ⟨rfl, by simp [renderDates, render, escapeRegExp], fun ds => List.not_mem_nil⟩
  | cons p pieces ih =>
      by_cases hp : ∃ ds, p = .token (.seq ds)
      · obtain ⟨ds, rfl⟩ := hp
        cases h
      · rw [parseLoop_cons _ _ _ _ _ (fun ds hd => hp ⟨ds, hd⟩)] at h
        obtain ⟨rfl, rfl, hno⟩ := ih h
        rw [renderDates_cons parts p pieces, escapeRegExp_append, List.append_assoc]
        exact ⟨rfl, rfl, hno.cons hp⟩

theorem parseLoop_none {parts : DateParts} {pieces : List (Piece Token)} {regexStr r : Text}
    {n : Nat} (h : parseLoop parts pieces regexStr none = .ok (r, some n)) :
    ∃ before ds after, pieces = before ++ .token (.seq ds) :: after ∧
      (NoSeq before ∧ NoSeq after) ∧ n = Nat.ofDigitChars 10 ds 0 ∧
      r = regexStr ++ escapeRegExp (renderDates parts before) ++ seqGroup n ++
        escapeRegExp (renderDates parts after) := by
  induction pieces generalizing regexStr with
  | nil => cases h
  | cons p pieces ih =>
      by_cases hp : ∃ ds, p = .token (.seq ds)
      · obtain ⟨ds, rfl⟩ := hp
        obtain ⟨hn, rfl, hno⟩ := parseLoop_some h
        obtain rfl := Option.some.inj hn
        exact ⟨[], ds, pieces, rfl, ⟨fun _ => List.not_mem_nil, hno⟩, rfl,
          by simp [renderDates, render, escapeRegExp, seqGroup]⟩
      · rw [parseLoop_cons _ _ _ _ _ (fun ds hd => hp ⟨ds, hd⟩)] at h
        obtain ⟨before, ds, after, rfl, ⟨hbefore, hafter⟩, rfl, rfl⟩ := ih h
        refine ⟨p :: before, ds, after, rfl, ⟨hbefore.cons hp, hafter⟩, rfl, ?_⟩
        rw [renderDates_cons parts p before, escapeRegExp_append]
        simp

/-- What an accepted format looks like: the texts that the date tokens leave around the
sequence token, and the expression made of them. -/
structure Accepted (format : Text) (now : Date) (parsed : ParsedRunningNumberFormat)
    (a ds b : Text) : Prop where
  wellFormed : (Token.seq ds).WellFormed
  text : replaceDateTokens format now = a ++ '{' :: ((Token.seq ds).body ++ '}' :: b)
  seqDigits : parsed.seqDigits = Nat.ofDigitChars 10 ds 0
  regex : parsed.regex = a.map .char ++ .digits parsed.seqDigits :: b.map .char

/-- The source text of an accepted format is always a regular expression. -/
theorem compile_seqGroup (a b : Text) (n : Nat) :
    RegExp.compile (['^'] ++ escapeRegExp a ++ seqGroup n ++ escapeRegExp b ++ ['$']) =
      some (a.map .char ++ .digits n :: b.map .char) := by
  have hshape : ['^'] ++ escapeRegExp a ++ seqGroup n ++ escapeRegExp b ++ ['$'] =
      '^' :: (escapeRegExp a ++ (seqGroup n ++ (escapeRegExp b ++ ['$']))) := by simp
  have hend : RegExp.compileFrom none ['$'] = some [] := rfl
  rw [hshape, RegExp.compile, compileFrom_escapeRegExp, seqGroup, RegExp.compileFrom_group,
    compileFrom_escapeRegExp, hend]
  simp

theorem accepted_of_parse {format : Text} {now : Date} {parsed : ParsedRunningNumberFormat}
    (h : parseRunningNumberFormat format now = .ok parsed) :
    ∃ a ds b, Accepted format now parsed a ds b := by
  unfold parseRunningNumberFormat at h
  split at h
  · cases h
  · cases h
  · rename_i r n hloop
    obtain ⟨before, ds, after, hpieces, -, hn, rfl⟩ := parseLoop_none hloop
    rw [compile_seqGroup] at h
    obtain rfl := Except.ok.inj h
    have hmem : .token (.seq ds) ∈ scan tokenRe format := by
      rw [hpieces]
      simp
    obtain ⟨body, hbody⟩ := exists_of_mem_scan hmem
    refine ⟨_, ds, _, (tokenRe_eq_some.mp hbody).1, ?_, hn, rfl⟩
    calc replaceDateTokens format now
        = renderDates (resolveDateParts now) (scan tokenRe format) := replaceDateTokens_eq _ _
      _ = renderDates (resolveDateParts now) before ++
          renderDates (resolveDateParts now) (.token (.seq ds) :: after) := by
            rw [hpieces]
            exact render_append _ _
      _ = _ := by
            rw [renderDates_cons]
            simp [renderDates, render, dateValue, Token.source]

theorem parseLoop_ne_invalidRegExp {parts : DateParts} {pieces : List (Piece Token)}
    {regexStr : Text} {s : Option Nat} :
    parseLoop parts pieces regexStr s ≠ .error .invalidRegExp := by
  induction pieces generalizing regexStr s with
  | nil => simp [parseLoop]
  | cons p pieces ih =>
      by_cases hp : ∃ ds, p = .token (.seq ds)
      · obtain ⟨ds, rfl⟩ := hp
        cases s with
        | none => exact ih
        | some k => simp [parseLoop]
      · rw [parseLoop_cons _ _ _ _ _ (fun ds hd => hp ⟨ds, hd⟩)]
        exact ih

theorem parseRunningNumberFormat_ne_invalidRegExp (format : Text) (now : Date) :
    parseRunningNumberFormat format now ≠ .error .invalidRegExp := by
  intro h
  unfold parseRunningNumberFormat at h
  split at h
  · rename_i e hloop
    obtain rfl := Except.error.inj h
    exact parseLoop_ne_invalidRegExp hloop
  · cases h
  · rename_i r n hloop
    obtain ⟨before, ds, after, -, -, -, rfl⟩ := parseLoop_none hloop
    rw [compile_seqGroup] at h
    cases h

/-! ## Recognizing a printed number -/

/-- The number of sequence tokens once the date tokens are replaced. -/
def seqTokens (format : Text) (now : Date) : Nat :=
  occurrences recognizeSeq (replaceDateTokens format now)

theorem length_padStart (width : Nat) (text : Text) :
    (padStart width text).length = max width text.length := by
  simp only [padStart, List.length_append, List.length_replicate]
  omega

theorem ofDigitChars_padStart (width n : Nat) :
    Nat.ofDigitChars 10 (padStart width (Nat.toDigits 10 n)) 0 = n := by
  rw [padStart, Nat.ofDigitChars_append, Nat.ofDigitChars_replicate_zero, Nat.mul_zero,
    Nat.ofDigitChars_ten_toDigits]

/-- A positive sequence fits its width exactly if it is below `10 ^ width`. -/
theorem length_toDigits_le_iff_lt_pow {n : Nat} (hn : 0 < n) (width : Nat) :
    (Nat.toDigits 10 n).length ≤ width ↔ n < 10 ^ width := by
  rcases Nat.eq_zero_or_pos width with rfl | hw
  · have hpos : 0 < (Nat.toDigits 10 n).length := Nat.length_toDigits_pos
    simp only [Nat.pow_zero]
    omega
  · exact Nat.length_toDigits_le_iff (by decide) hw

theorem recognizeSeq_open_not_mem (body : Text) (t : Token) (h : recognizeSeq body = some t) :
    '{' ∉ body := by
  obtain ⟨ds, rfl, hne, hds, rfl⟩ := recognizeSeq_eq_some.mp h
  have hwf : (Token.seq ds).WellFormed := by
    rintro ds' heq
    obtain rfl := Token.seq.inj heq
    exact ⟨hne, hds⟩
  exact hwf.open_not_mem

section Accepted

variable {format : Text} {now : Date} {parsed : ParsedRunningNumberFormat} {a ds b : Text}

theorem Accepted.recognizeSeq_body (h : Accepted format now parsed a ds b) :
    recognizeSeq (Token.seq ds).body = some (.seq ds) :=
  recognizeSeq_eq_some.mpr
    ⟨ds, rfl, (h.wellFormed ds rfl).1, (h.wellFormed ds rfl).2, rfl⟩

/-- The printed number: the two texts around the padded sequence, with every sequence token
in them replaced as well. -/
theorem Accepted.formatRunningNumber_eq (h : Accepted format now parsed a ds b)
    (seq width : Nat) :
    formatRunningNumber format now seq width =
      replaceAll recognizeSeq (fun _ => padStart width (Nat.toDigits 10 seq)) a ++
        padStart width (Nat.toDigits 10 seq) ++
        replaceAll recognizeSeq (fun _ => padStart width (Nat.toDigits 10 seq)) b := by
  rw [formatRunningNumber, h.text]
  exact replaceAll_append_hit recognizeSeq_open_not_mem _ a h.wellFormed.close_not_mem
    h.recognizeSeq_body b

theorem Accepted.seqTokens_eq (h : Accepted format now parsed a ds b) :
    seqTokens format now = occurrences recognizeSeq a + 1 + occurrences recognizeSeq b := by
  rw [seqTokens, h.text]
  exact occurrences_append_hit recognizeSeq_open_not_mem a h.wellFormed.close_not_mem
    h.recognizeSeq_body b

/-- With one sequence token the number is the two texts around the padded sequence. -/
theorem Accepted.formatRunningNumber_of_single (h : Accepted format now parsed a ds b)
    (hone : seqTokens format now = 1) (seq width : Nat) :
    formatRunningNumber format now seq width =
      a ++ padStart width (Nat.toDigits 10 seq) ++ b := by
  have hsum := h.seqTokens_eq
  rw [h.formatRunningNumber_eq, replaceAll_of_occurrences_eq_zero (by omega),
    replaceAll_of_occurrences_eq_zero (by omega)]

/-- **When a printed number is recognized.** The expression built from the format matches
the number printed for a sequence exactly if the format has one sequence token once the dates
are in, and the sequence fits the width. The match captures the padded sequence. -/
theorem Accepted.exec_formatRunningNumber (h : Accepted format now parsed a ds b) {seq : Nat}
    (hseq : 0 < seq) :
    RegExp.exec parsed.regex (formatRunningNumber format now seq parsed.seqDigits) =
      if seqTokens format now = 1 ∧ seq < 10 ^ parsed.seqDigits then
        some [padStart parsed.seqDigits (Nat.toDigits 10 seq)]
      else none := by
  set pad := padStart parsed.seqDigits (Nat.toDigits 10 seq) with hpad
  have hdigits : Digits pad := (digits_toDigits seq).padStart _
  have hlen : pad.length = parsed.seqDigits ↔ seq < 10 ^ parsed.seqDigits := by
    rw [← length_toDigits_le_iff_lt_pow hseq, hpad, length_padStart]
    omega
  have hsum := h.seqTokens_eq
  rw [h.regex]
  by_cases hone : seqTokens format now = 1
  · rw [h.formatRunningNumber_of_single hone]
    by_cases hfit : seq < 10 ^ parsed.seqDigits
    · rw [if_pos ⟨hone, hfit⟩, RegExp.exec_group_iff]
      exact ⟨pad, rfl, hlen.mpr hfit, hdigits, rfl⟩
    · rw [if_neg (fun hc => hfit hc.2), Option.eq_none_iff_forall_ne_some]
      intro gs hgs
      obtain ⟨ds', htext, hds', -, -⟩ := RegExp.exec_group_iff.mp hgs
      have : pad = ds' := by
        simpa using htext
      exact hfit (hlen.mp (by rw [this, hds']))
  · -- A second token was replaced, so the text has fewer opening braces than the expression.
    rw [if_neg (fun hc => hone hc.1), Option.eq_none_iff_forall_ne_some]
    intro gs hgs
    obtain ⟨ds', htext, -, hds', -⟩ := RegExp.exec_group_iff.mp hgs
    have hopen : ∀ t : Token, '{' ∉ (fun _ => pad) t := fun _ => hdigits.open_not_mem
    have hca := count_open_replaceAll recognizeSeq_open_not_mem hopen a
    have hcb := count_open_replaceAll recognizeSeq_open_not_mem hopen b
    have hcount := congrArg (List.count '{') htext
    rw [h.formatRunningNumber_eq] at hcount
    simp only [List.count_append, ← hpad, List.count_eq_zero.mpr hdigits.open_not_mem,
      List.count_eq_zero.mpr (Digits.open_not_mem hds')] at hcount
    omega

end Accepted

end ErpApi.Report
