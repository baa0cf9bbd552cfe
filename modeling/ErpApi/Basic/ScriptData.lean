import Mathlib.Data.List.Infix
import Mathlib.Tactic.Common

set_option autoImplicit false

/-! # Text in a script element

The tokenizer of HTML reads the text of a `script` element in states of its own: in a `<!--` comment
a second `<script` hides the next end tag. `run_eq` says in which state a text leaves the tokenizer,
and `endsAtTag_iff` when the end tag behind a text is the one that ends the element.
-/

namespace ErpApi.ScriptData

/-! ## The tokenizer -/

/-- The characters after the name of a tag. -/
def isDelimiter (c : Char) : Bool :=
  c = '\t' || c = '\n' || c = Char.ofNat 12 || c = ' ' || c = '/' || c = '>'

/-- The name `script`, last character first. -/
def IsScript (buffer : List Char) : Prop :=
  buffer.map Char.toLower = ['t', 'p', 'i', 'r', 'c', 's']

instance (buffer : List Char) : Decidable (IsScript buffer) :=
  inferInstanceAs (Decidable (_ = _))

inductive State where
  | scriptData
  | lessThanSign
  | endTagOpen
  | endTagName (buffer : List Char)
  | escapeStart
  | escapeStartDash
  | escaped
  | escapedDash
  | escapedDashDash
  | escapedLessThanSign
  | escapedEndTagOpen
  | escapedEndTagName (buffer : List Char)
  | doubleEscapeStart (buffer : List Char)
  | doubleEscaped
  | doubleEscapedDash
  | doubleEscapedDashDash
  | doubleEscapedLessThanSign
  | doubleEscapeEnd (buffer : List Char)
  /-- The end tag of the element has been read. -/
  | ended
  deriving DecidableEq

def scriptData (c : Char) : State := if c = '<' then .lessThanSign else .scriptData

def escaped (c : Char) : State :=
  if c = '-' then .escapedDash else if c = '<' then .escapedLessThanSign else .escaped

def doubleEscaped (c : Char) : State :=
  if c = '-' then .doubleEscapedDash else if c = '<' then .doubleEscapedLessThanSign
  else .doubleEscaped

def step : State → Char → State
  | .scriptData, c => scriptData c
  | .lessThanSign, c =>
      if c = '/' then .endTagOpen else if c = '!' then .escapeStart else scriptData c
  | .endTagOpen, c => if c.isAlpha then .endTagName [c] else scriptData c
  | .endTagName buffer, c =>
      if isDelimiter c ∧ IsScript buffer then .ended
      else if c.isAlpha then .endTagName (c :: buffer) else scriptData c
  | .escapeStart, c => if c = '-' then .escapeStartDash else scriptData c
  | .escapeStartDash, c => if c = '-' then .escapedDashDash else scriptData c
  | .escaped, c => escaped c
  | .escapedDash, c => if c = '-' then .escapedDashDash else escaped c
  | .escapedDashDash, c =>
      if c = '-' then .escapedDashDash else if c = '>' then .scriptData else escaped c
  | .escapedLessThanSign, c =>
      if c = '/' then .escapedEndTagOpen
      else if c.isAlpha then .doubleEscapeStart [c] else escaped c
  | .escapedEndTagOpen, c => if c.isAlpha then .escapedEndTagName [c] else escaped c
  | .escapedEndTagName buffer, c =>
      if isDelimiter c ∧ IsScript buffer then .ended
      else if c.isAlpha then .escapedEndTagName (c :: buffer) else escaped c
  | .doubleEscapeStart buffer, c =>
      if isDelimiter c then if IsScript buffer then .doubleEscaped else .escaped
      else if c.isAlpha then .doubleEscapeStart (c :: buffer) else escaped c
  | .doubleEscaped, c => doubleEscaped c
  | .doubleEscapedDash, c => if c = '-' then .doubleEscapedDashDash else doubleEscaped c
  | .doubleEscapedDashDash, c =>
      if c = '-' then .doubleEscapedDashDash else if c = '>' then .scriptData
      else doubleEscaped c
  | .doubleEscapedLessThanSign, c => if c = '/' then .doubleEscapeEnd [] else doubleEscaped c
  | .doubleEscapeEnd buffer, c =>
      if isDelimiter c then if IsScript buffer then .escaped else .doubleEscaped
      else if c.isAlpha then .doubleEscapeEnd (c :: buffer) else doubleEscaped c
  | .ended, _ => .ended

def run (state : State) (text : List Char) : State := text.foldl step state

theorem run_append (state : State) (a b : List Char) : run state (a ++ b) = run (run state a) b :=
  List.foldl_append

/-- The end tag behind the text is the first one that the tokenizer takes for the end. -/
def EndsAtTag (text : List Char) : Prop :=
  run .scriptData (text ++ ['<', '/', 's', 'c', 'r', 'i', 'p', 't']) ≠ .ended ∧
    run .scriptData (text ++ ['<', '/', 's', 'c', 'r', 'i', 'p', 't', '>']) = .ended

/-! ## What the tokenizer remembers

Texts are taken with their last character first.
-/

/-- The name of the tag that the text ends in. -/
def openTag : List Char → Option (List Char)
  | [] => none
  | c :: past =>
      if c.isAlpha then (openTag past).map (c :: ·) else if c = '<' then some [] else none

/-- The name of the end tag that the text ends in. -/
def closeTag : List Char → Option (List Char)
  | [] => none
  | c :: past =>
      if c.isAlpha then (closeTag past).map (c :: ·)
      else if c = '/' ∧ past.head? = some '<' then some [] else none

/-- The text is in a comment that no `-->` has closed. -/
def InComment : List Char → Prop
  | [] => False
  | c :: past =>
      ['-', '-', '!', '<'] <+: c :: past ∨
        InComment past ∧ ¬ (c = '>' ∧ ['-', '-'] <+: past)

/-- In the comment a tag `<script` was opened. -/
def InScript : List Char → Prop
  | [] => False
  | c :: past =>
      (isDelimiter c = true ∧ InComment past ∧ ∃ buffer, openTag past = some buffer ∧
        IsScript buffer) ∨
        InScript past ∧ ¬ (c = '>' ∧ ['-', '-'] <+: past)

/-- Somewhere in the text an end tag of a script is complete. -/
def EndsElement : List Char → Prop
  | [] => False
  | c :: past =>
      (isDelimiter c = true ∧ ∃ buffer, closeTag past = some buffer ∧ IsScript buffer) ∨
        EndsElement past

/-! ## The state after a text -/

def dashState (none one two : State) (past : List Char) : State :=
  if ['-', '-'] <+: past then two else if ['-'] <+: past then one else none

/-- The state outside of comments. -/
def plainState (past : List Char) : State :=
  match closeTag past with
  | some [] => .endTagOpen
  | some (c :: buffer) => .endTagName (c :: buffer)
  | none =>
      if ['<'] <+: past then .lessThanSign
      else if ['!', '<'] <+: past then .escapeStart
      else if ['-', '!', '<'] <+: past then .escapeStartDash
      else .scriptData

/-- The state in a comment. -/
def commentState (past : List Char) : State :=
  match openTag past with
  | some [] => .escapedLessThanSign
  | some (c :: buffer) => .doubleEscapeStart (c :: buffer)
  | none =>
      match closeTag past with
      | some [] => .escapedEndTagOpen
      | some (c :: buffer) => .escapedEndTagName (c :: buffer)
      | none => dashState .escaped .escapedDash .escapedDashDash past

/-- The state in a comment in which a script was opened. -/
def scriptState (past : List Char) : State :=
  match closeTag past with
  | some buffer => .doubleEscapeEnd buffer
  | none =>
      if ['<'] <+: past then .doubleEscapedLessThanSign
      else dashState .doubleEscaped .doubleEscapedDash .doubleEscapedDashDash past

theorem closeTag_alpha {c : Char} (hc : c.isAlpha = true) (past : List Char) :
    closeTag (c :: past) = (closeTag past).map (c :: ·) := by
  rw [closeTag, if_pos hc]

theorem openTag_alpha {c : Char} (hc : c.isAlpha = true) (past : List Char) :
    openTag (c :: past) = (openTag past).map (c :: ·) := by
  rw [openTag, if_pos hc]

theorem closeTag_none {c : Char} (hc : c.isAlpha = false) (hslash : c ≠ '/') (past : List Char) :
    closeTag (c :: past) = none := by
  simp [closeTag, hc, hslash]

theorem openTag_none {c : Char} (hc : c.isAlpha = false) (hless : c ≠ '<') (past : List Char) :
    openTag (c :: past) = none := by
  simp [openTag, hc, hless]

theorem closeTag_some_nil {past : List Char} (h : closeTag past = some []) :
    ∃ rest, past = '/' :: '<' :: rest := by
  cases past with
  | nil => simp [closeTag] at h
  | cons c past =>
      by_cases hc : c.isAlpha = true
      · rw [closeTag_alpha hc] at h
        cases hpast : closeTag past <;> simp [hpast] at h
      · rw [closeTag, if_neg hc] at h
        cases past with
        | nil => simp at h
        | cons d past =>
            simp at h
            exact ⟨past, by rw [h.1, h.2]⟩

theorem closeTag_some_cons {past buffer : List Char} {b : Char}
    (h : closeTag past = some (b :: buffer)) : ∃ rest, past = b :: rest ∧ b.isAlpha = true := by
  cases past with
  | nil => simp [closeTag] at h
  | cons c past =>
      by_cases hc : c.isAlpha = true
      · rw [closeTag_alpha hc] at h
        cases hpast : closeTag past with
        | none => simp [hpast] at h
        | some buffer' =>
            simp [hpast] at h
            exact ⟨past, by rw [h.1], h.1 ▸ hc⟩
      · rw [closeTag, if_neg hc] at h
        split at h <;> simp at h

theorem openTag_some_nil {past : List Char} (h : openTag past = some []) :
    ∃ rest, past = '<' :: rest := by
  cases past with
  | nil => simp [openTag] at h
  | cons c past =>
      by_cases hc : c.isAlpha = true
      · rw [openTag_alpha hc] at h
        cases hpast : openTag past <;> simp [hpast] at h
      · rw [openTag, if_neg hc] at h
        split at h
        · exact ⟨past, by simp_all⟩
        · simp at h

theorem openTag_some_cons {past buffer : List Char} {b : Char}
    (h : openTag past = some (b :: buffer)) : ∃ rest, past = b :: rest ∧ b.isAlpha = true := by
  cases past with
  | nil => simp [openTag] at h
  | cons c past =>
      by_cases hc : c.isAlpha = true
      · rw [openTag_alpha hc] at h
        cases hpast : openTag past with
        | none => simp [hpast] at h
        | some buffer' =>
            simp [hpast] at h
            exact ⟨past, by rw [h.1], h.1 ▸ hc⟩
      · rw [openTag, if_neg hc] at h
        split at h <;> simp at h

/-! ## One character -/

theorem ne_of_alpha {c : Char} (hc : c.isAlpha = true) {d : Char} (hd : d.isAlpha = false) :
    c ≠ d := by
  rintro rfl
  rw [hc] at hd
  exact Bool.noConfusion hd

/-- Outside of comments only the start of one counts. -/
theorem inComment_cons {c : Char} {past : List Char} (h : ¬ InComment past) :
    InComment (c :: past) ↔ c = '-' ∧ ['-', '!', '<'] <+: past := by
  rw [InComment, List.cons_prefix_cons]
  constructor
  · rintro (⟨rfl, hstart⟩ | ⟨hpast, -⟩)
    · exact ⟨rfl, hstart⟩
    · exact absurd hpast h
  · rintro ⟨rfl, hstart⟩
    exact .inl ⟨rfl, hstart⟩

/-- The state outside of comments after a character that starts no comment and ends no tag. -/
theorem scriptData_eq {c : Char} {past : List Char} (halpha : c.isAlpha = true → closeTag past = none)
    (hslash : c = '/' → past.head? ≠ some '<') (hbang : c = '!' → ¬ ['<'] <+: past)
    (hdash : c = '-' → ¬ ['!', '<'] <+: past) : scriptData c = plainState (c :: past) := by
  have hclose : closeTag (c :: past) = none := by
    by_cases hc : c.isAlpha = true
    · rw [closeTag_alpha hc, halpha hc, Option.map_none]
    · rw [closeTag, if_neg hc, if_neg fun h => hslash h.1 h.2]
  rw [plainState, hclose, scriptData]
  by_cases hless : c = '<'
  · simp [hless]
  · have h1 : ¬ ['<'] <+: c :: past := by
      rw [List.cons_prefix_cons]
      exact fun h => hless h.1.symm
    have h2 : ¬ ['!', '<'] <+: c :: past := by
      rw [List.cons_prefix_cons]
      exact fun h => hbang h.1.symm h.2
    have h3 : ¬ ['-', '!', '<'] <+: c :: past := by
      rw [List.cons_prefix_cons]
      exact fun h => hdash h.1.symm h.2
    rw [if_neg hless]
    simp only [h1, h2, h3, if_false]

/-- One character outside of comments. -/
theorem step_plain {c : Char} {past : List Char}
    (hend : ¬ (isDelimiter c = true ∧ ∃ buffer, closeTag past = some buffer ∧ IsScript buffer)) :
    step (plainState past) c =
      if c = '-' ∧ ['-', '!', '<'] <+: past then commentState (c :: past)
      else plainState (c :: past) := by
  cases hclose : closeTag past with
  | some buffer =>
      cases buffer with
      | nil =>
          obtain ⟨rest, rfl⟩ := closeTag_some_nil hclose
          rw [if_neg (by simp), plainState, hclose]
          show (if c.isAlpha then State.endTagName [c] else scriptData c) = _
          by_cases hc : c.isAlpha = true
          · rw [if_pos hc, plainState, closeTag_alpha hc, hclose]
            rfl
          · rw [if_neg hc]
            exact scriptData_eq (fun h => absurd h hc) (by simp) (by simp) (by simp)
      | cons b buffer =>
          obtain ⟨rest, rfl, hb⟩ := closeTag_some_cons hclose
          have hdash : ¬ (c = '-' ∧ ['-', '!', '<'] <+: b :: rest) := by
            rintro ⟨-, h⟩
            rw [List.cons_prefix_cons] at h
            exact ne_of_alpha hb (by decide) h.1.symm
          have hscript : ¬ (isDelimiter c = true ∧ IsScript (b :: buffer)) := fun h =>
            hend ⟨h.1, _, hclose, h.2⟩
          rw [if_neg hdash, plainState, hclose]
          show (if isDelimiter c = true ∧ IsScript (b :: buffer) then State.ended
            else if c.isAlpha then .endTagName (c :: b :: buffer) else scriptData c) = _
          rw [if_neg hscript]
          by_cases hc : c.isAlpha = true
          · rw [if_pos hc, plainState, closeTag_alpha hc, hclose]
            rfl
          · rw [if_neg hc]
            refine scriptData_eq (fun h => absurd h hc) (fun _ => ?_) (fun _ => ?_) (fun _ => ?_)
            · simpa using ne_of_alpha hb (by decide : ('<').isAlpha = false)
            · rw [List.cons_prefix_cons]
              exact fun h => ne_of_alpha hb (by decide) h.1.symm
            · rw [List.cons_prefix_cons]
              exact fun h => ne_of_alpha hb (by decide) h.1.symm
  | none =>
      have halpha : c.isAlpha = true → closeTag past = none := fun _ => hclose
      by_cases hless : ['<'] <+: past
      · have hstate : plainState past = .lessThanSign := by simp [plainState, hclose, hless]
        have hplain : ¬ (c = '-' ∧ ['-', '!', '<'] <+: past) := by
          obtain ⟨rest, rfl⟩ := hless
          simp
        rw [hstate, if_neg hplain]
        obtain ⟨rest, rfl⟩ := hless
        show (if c = '/' then State.endTagOpen else if c = '!' then .escapeStart
          else scriptData c) = _
        by_cases hslash : c = '/'
        · subst hslash
          rfl
        by_cases hbang : c = '!'
        · subst hbang
          rfl
        rw [if_neg hslash, if_neg hbang]
        exact scriptData_eq halpha (fun h => absurd h hslash) (fun h => absurd h hbang) (by simp)
      by_cases hbang : ['!', '<'] <+: past
      · have hstate : plainState past = .escapeStart := by simp [plainState, hclose, hless, hbang]
        have hplain : ¬ (c = '-' ∧ ['-', '!', '<'] <+: past) := by
          obtain ⟨rest, rfl⟩ := hbang
          simp
        rw [hstate, if_neg hplain]
        obtain ⟨rest, rfl⟩ := hbang
        show (if c = '-' then State.escapeStartDash else scriptData c) = _
        by_cases hdash : c = '-'
        · subst hdash
          rfl
        rw [if_neg hdash]
        exact scriptData_eq halpha (by simp) (by simp) (fun h => absurd h hdash)
      by_cases hstart : ['-', '!', '<'] <+: past
      · have hstate : plainState past = .escapeStartDash := by
          simp [plainState, hclose, hless, hbang, hstart]
        rw [hstate]
        obtain ⟨rest, rfl⟩ := hstart
        show (if c = '-' then State.escapedDashDash else scriptData c) = _
        by_cases hdash : c = '-'
        · subst hdash
          rfl
        rw [if_neg hdash, if_neg fun h => hdash h.1]
        exact scriptData_eq halpha (by simp) (by simp) (by simp)
      · have hstate : plainState past = .scriptData := by
          simp [plainState, hclose, hless, hbang, hstart]
        rw [hstate, if_neg fun h => hstart h.2]
        refine scriptData_eq halpha (fun _ h => hless ?_) (fun _ => hless) (fun _ => hbang)
        obtain ⟨rest, rfl⟩ := List.head?_eq_some_iff.mp h
        exact ⟨rest, rfl⟩

theorem dashState_cons {none one two : State} {c : Char} {past : List Char}
    (hdash : c = '-' → ¬ ['-'] <+: past) :
    dashState none one two (c :: past) = if c = '-' then one else none := by
  by_cases hc : c = '-'
  · subst hc
    have htwo : ¬ ['-', '-'] <+: '-' :: past := by
      rw [List.cons_prefix_cons]
      exact fun h => hdash rfl h.2
    rw [dashState, if_neg htwo]
    simp
  · have hfirst : ∀ rest, ¬ '-' :: rest <+: c :: past := by
      intro rest
      rw [List.cons_prefix_cons]
      exact fun h => hc h.1.symm
    rw [dashState, if_neg (hfirst _), if_neg (hfirst _), if_neg hc]

/-- The state in a comment after a character that belongs to no tag and no pair of dashes. -/
theorem escaped_eq {c : Char} {past : List Char}
    (halpha : c.isAlpha = true → openTag past = none ∧ closeTag past = none)
    (hslash : c = '/' → past.head? ≠ some '<') (hdash : c = '-' → ¬ ['-'] <+: past) :
    escaped c = commentState (c :: past) := by
  by_cases hless : c = '<'
  · subst hless
    rfl
  have hopen : openTag (c :: past) = none := by
    by_cases hc : c.isAlpha = true
    · rw [openTag_alpha hc, (halpha hc).1, Option.map_none]
    · exact openTag_none (by simpa using hc) hless past
  have hclose : closeTag (c :: past) = none := by
    by_cases hc : c.isAlpha = true
    · rw [closeTag_alpha hc, (halpha hc).2, Option.map_none]
    · rw [closeTag, if_neg hc, if_neg fun h => hslash h.1 h.2]
  rw [commentState, hopen, hclose]
  show _ = dashState _ _ _ (c :: past)
  rw [dashState_cons hdash, escaped, if_neg hless]

/-- The state in a hidden script after a character that belongs to no tag and no pair of dashes. -/
theorem doubleEscaped_eq {c : Char} {past : List Char}
    (halpha : c.isAlpha = true → closeTag past = none)
    (hslash : c = '/' → past.head? ≠ some '<') (hdash : c = '-' → ¬ ['-'] <+: past) :
    doubleEscaped c = scriptState (c :: past) := by
  by_cases hless : c = '<'
  · subst hless
    rfl
  have hclose : closeTag (c :: past) = none := by
    by_cases hc : c.isAlpha = true
    · rw [closeTag_alpha hc, halpha hc, Option.map_none]
    · rw [closeTag, if_neg hc, if_neg fun h => hslash h.1 h.2]
  have hfirst : ¬ ['<'] <+: c :: past := by
    rw [List.cons_prefix_cons]
    exact fun h => hless h.1.symm
  rw [scriptState, hclose]
  show _ = if ['<'] <+: c :: past then _ else dashState _ _ _ (c :: past)
  rw [if_neg hfirst, dashState_cons hdash, doubleEscaped, if_neg hless]

theorem not_delimiter_of_alpha {c : Char} (hc : c.isAlpha = true) : isDelimiter c = false := by
  have hne : ∀ d : Char, d.isAlpha = false → c ≠ d := fun d hd => ne_of_alpha hc hd
  simp [isDelimiter, hne '\t' (by decide), hne '\n' (by decide), hne (Char.ofNat 12) (by decide),
    hne ' ' (by decide), hne '/' (by decide), hne '>' (by decide)]

theorem escaped_delimiter {c : Char} (hc : isDelimiter c = true) : escaped c = .escaped := by
  have hdash : c ≠ '-' := by
    rintro rfl
    exact absurd hc (by decide)
  have hless : c ≠ '<' := by
    rintro rfl
    exact absurd hc (by decide)
  rw [escaped, if_neg hdash, if_neg hless]

theorem not_head_of_alpha {b c : Char} {l rest : List Char} (hb : b.isAlpha = true)
    (hc : c.isAlpha = false) : ¬ c :: l <+: b :: rest := by
  rw [List.cons_prefix_cons]
  exact fun h => ne_of_alpha hb hc h.1.symm

/-- One character behind a tag that is being opened in a comment. -/
theorem step_openTag {c : Char} {past buffer : List Char} (hopen : openTag past = some buffer)
    (hscript : ¬ (isDelimiter c = true ∧ IsScript buffer)) :
    step (commentState past) c = commentState (c :: past) := by
  cases buffer with
  | nil =>
      obtain ⟨rest, rfl⟩ := openTag_some_nil hopen
      show (if c = '/' then State.escapedEndTagOpen
        else if c.isAlpha then .doubleEscapeStart [c] else escaped c) = _
      by_cases hslash : c = '/'
      · subst hslash
        rfl
      by_cases hc : c.isAlpha = true
      · rw [if_neg hslash, if_pos hc, commentState, openTag_alpha hc, hopen]
        rfl
      · rw [if_neg hslash, if_neg hc]
        exact escaped_eq (fun h => absurd h hc) (fun h => absurd h hslash) (by simp)
  | cons b buffer =>
      obtain ⟨rest, rfl, hb⟩ := openTag_some_cons hopen
      rw [commentState, hopen]
      show (if isDelimiter c then if IsScript (b :: buffer) then State.doubleEscaped else .escaped
        else if c.isAlpha then .doubleEscapeStart (c :: b :: buffer) else escaped c) = _
      have hnext : c.isAlpha ≠ true → escaped c = commentState (c :: b :: rest) := by
        intro hc
        refine escaped_eq (fun h => absurd h hc) (fun _ => ?_) fun _ => ?_
        · simpa using ne_of_alpha hb (by decide : ('<').isAlpha = false)
        · exact not_head_of_alpha hb (by decide)
      by_cases hdelim : isDelimiter c = true
      · have hc : c.isAlpha ≠ true := by
          intro hc
          rw [not_delimiter_of_alpha hc] at hdelim
          exact Bool.noConfusion hdelim
        rw [if_pos hdelim, if_neg fun h => hscript ⟨hdelim, h⟩, ← escaped_delimiter hdelim]
        exact hnext hc
      · rw [if_neg hdelim]
        by_cases hc : c.isAlpha = true
        · rw [if_pos hc, commentState, openTag_alpha hc, hopen]
          rfl
        · rw [if_neg hc]
          exact hnext hc

/-- The delimiter behind `<script` in a comment. -/
theorem step_script {c : Char} {past buffer : List Char} (hopen : openTag past = some buffer)
    (hdelim : isDelimiter c = true) (hscript : IsScript buffer) :
    step (commentState past) c = scriptState (c :: past) := by
  cases buffer with
  | nil => exact absurd hscript (by decide)
  | cons b buffer =>
      obtain ⟨rest, rfl, hb⟩ := openTag_some_cons hopen
      have hc : c.isAlpha ≠ true := by
        intro hc
        rw [not_delimiter_of_alpha hc] at hdelim
        exact Bool.noConfusion hdelim
      have hdouble : doubleEscaped c = .doubleEscaped := by
        have hdash : c ≠ '-' := by
          rintro rfl
          exact absurd hdelim (by decide)
        have hless : c ≠ '<' := by
          rintro rfl
          exact absurd hdelim (by decide)
        rw [doubleEscaped, if_neg hdash, if_neg hless]
      rw [commentState, hopen]
      show (if isDelimiter c then if IsScript (b :: buffer) then State.doubleEscaped else .escaped
        else if c.isAlpha then .doubleEscapeStart (c :: b :: buffer) else escaped c) = _
      rw [if_pos hdelim, if_pos hscript, ← hdouble]
      refine doubleEscaped_eq (fun h => absurd h hc) (fun _ => ?_) fun _ => ?_
      · simpa using ne_of_alpha hb (by decide : ('<').isAlpha = false)
      · exact not_head_of_alpha hb (by decide)

/-- One character behind an end tag of something else in a comment. -/
theorem step_closeTag {c : Char} {past buffer : List Char} (hopen : openTag past = none)
    (hclose : closeTag past = some buffer) (hend : ¬ (isDelimiter c = true ∧ IsScript buffer)) :
    step (commentState past) c = commentState (c :: past) := by
  cases buffer with
  | nil =>
      obtain ⟨rest, rfl⟩ := closeTag_some_nil hclose
      show (if c.isAlpha then State.escapedEndTagName [c] else escaped c) = _
      by_cases hc : c.isAlpha = true
      · rw [if_pos hc, commentState, openTag_alpha hc, closeTag_alpha hc, hopen, hclose]
        rfl
      · rw [if_neg hc]
        exact escaped_eq (fun h => absurd h hc) (by simp) (by simp)
  | cons b buffer =>
      obtain ⟨rest, rfl, hb⟩ := closeTag_some_cons hclose
      rw [commentState, hopen, hclose]
      show (if isDelimiter c = true ∧ IsScript (b :: buffer) then State.ended
        else if c.isAlpha then .escapedEndTagName (c :: b :: buffer) else escaped c) = _
      rw [if_neg hend]
      by_cases hc : c.isAlpha = true
      · rw [if_pos hc, commentState, openTag_alpha hc, closeTag_alpha hc, hopen, hclose]
        rfl
      · rw [if_neg hc]
        refine escaped_eq (fun h => absurd h hc) (fun _ => ?_) fun _ => ?_
        · simpa using ne_of_alpha hb (by decide : ('<').isAlpha = false)
        · exact not_head_of_alpha hb (by decide)

theorem dashes_cons (past : List Char) : ['-', '-'] <+: '-' :: past ↔ ['-'] <+: past := by
  rw [List.cons_prefix_cons]
  exact and_iff_right rfl

/-- One character behind text in a comment. -/
theorem step_dashes {c : Char} {past : List Char} (hopen : openTag past = none)
    (hclose : closeTag past = none) (hend : ¬ (c = '>' ∧ ['-', '-'] <+: past)) :
    step (commentState past) c = commentState (c :: past) := by
  have hslash : c = '/' → past.head? ≠ some '<' := by
    intro _ h
    obtain ⟨rest, rfl⟩ := List.head?_eq_some_iff.mp h
    simp [openTag] at hopen
  have hnext : (c = '-' → ¬ ['-'] <+: past) → escaped c = commentState (c :: past) :=
    escaped_eq (fun _ => ⟨hopen, hclose⟩) hslash
  have hdouble : ['-'] <+: past → State.escapedDashDash = commentState ('-' :: past) := by
    intro h
    have htwo : ['-', '-'] <+: '-' :: past := (dashes_cons past).mpr h
    rw [commentState, openTag_none (by decide) (by decide), closeTag_none (by decide) (by decide)]
    show _ = dashState _ _ _ ('-' :: past)
    rw [dashState, if_pos htwo]
  rw [commentState, hopen, hclose]
  show step (dashState _ _ _ past) c = _
  by_cases htwo : ['-', '-'] <+: past
  · have hone : ['-'] <+: past := (List.prefix_append ['-'] ['-']).trans htwo
    rw [dashState, if_pos htwo]
    show (if c = '-' then State.escapedDashDash else if c = '>' then .scriptData
      else escaped c) = _
    by_cases hdash : c = '-'
    · rw [if_pos hdash, hdash]
      exact hdouble hone
    · rw [if_neg hdash, if_neg fun h => hend ⟨h, htwo⟩]
      exact hnext fun h => absurd h hdash
  by_cases hone : ['-'] <+: past
  · rw [dashState, if_neg htwo, if_pos hone]
    show (if c = '-' then State.escapedDashDash else escaped c) = _
    by_cases hdash : c = '-'
    · rw [if_pos hdash, hdash]
      exact hdouble hone
    · rw [if_neg hdash]
      exact hnext fun h => absurd h hdash
  · rw [dashState, if_neg htwo, if_neg hone]
    exact hnext fun _ => hone

/-- The end of a comment. -/
theorem step_commentEnd {past : List Char} (h : ['-', '-'] <+: past) :
    step (commentState past) '>' = plainState ('>' :: past) := by
  obtain ⟨rest, rfl⟩ := h
  rfl

theorem step_commentEnd_script {past : List Char} (h : ['-', '-'] <+: past) :
    step (scriptState past) '>' = plainState ('>' :: past) := by
  obtain ⟨rest, rfl⟩ := h
  rfl

theorem doubleEscaped_delimiter {c : Char} (hc : isDelimiter c = true) :
    doubleEscaped c = .doubleEscaped := by
  have hdash : c ≠ '-' := by
    rintro rfl
    exact absurd hc (by decide)
  have hless : c ≠ '<' := by
    rintro rfl
    exact absurd hc (by decide)
  rw [doubleEscaped, if_neg hdash, if_neg hless]

/-- One character behind an end tag of something else in a hidden script. -/
theorem step_hiddenClose {c : Char} {past buffer : List Char} (hclose : closeTag past = some buffer)
    (hend : ¬ (isDelimiter c = true ∧ IsScript buffer)) :
    step (scriptState past) c = scriptState (c :: past) := by
  have hhead : past.head? ≠ some '<' ∧ ¬ ['-'] <+: past := by
    cases buffer with
    | nil =>
        obtain ⟨rest, rfl⟩ := closeTag_some_nil hclose
        simp
    | cons b buffer =>
        obtain ⟨rest, rfl, hb⟩ := closeTag_some_cons hclose
        exact ⟨by simpa using ne_of_alpha hb (by decide : ('<').isAlpha = false),
          not_head_of_alpha hb (by decide)⟩
  have hnext : c.isAlpha ≠ true → doubleEscaped c = scriptState (c :: past) := fun hc =>
    doubleEscaped_eq (fun h => absurd h hc) (fun _ => hhead.1) fun _ => hhead.2
  rw [scriptState, hclose]
  show (if isDelimiter c then if IsScript buffer then State.escaped else .doubleEscaped
    else if c.isAlpha then .doubleEscapeEnd (c :: buffer) else doubleEscaped c) = _
  by_cases hdelim : isDelimiter c = true
  · have hc : c.isAlpha ≠ true := by
      intro hc
      rw [not_delimiter_of_alpha hc] at hdelim
      exact Bool.noConfusion hdelim
    rw [if_pos hdelim, if_neg fun h => hend ⟨hdelim, h⟩, ← doubleEscaped_delimiter hdelim]
    exact hnext hc
  · rw [if_neg hdelim]
    by_cases hc : c.isAlpha = true
    · rw [if_pos hc, scriptState, closeTag_alpha hc, hclose]
      rfl
    · rw [if_neg hc]
      exact hnext hc

/-- One character behind text in a hidden script. -/
theorem step_hidden {c : Char} {past : List Char} (hclose : closeTag past = none)
    (hend : ¬ (c = '>' ∧ ['-', '-'] <+: past)) :
    step (scriptState past) c = scriptState (c :: past) := by
  have hdouble : ['-'] <+: past → State.doubleEscapedDashDash = scriptState ('-' :: past) := by
    intro h
    have htwo : ['-', '-'] <+: '-' :: past := (dashes_cons past).mpr h
    rw [scriptState, closeTag_none (by decide) (by decide)]
    show _ = dashState _ _ _ ('-' :: past)
    rw [dashState, if_pos htwo]
  by_cases hless : ['<'] <+: past
  · obtain ⟨rest, rfl⟩ := hless
    have hstate : scriptState (['<'] ++ rest) = .doubleEscapedLessThanSign := by
      rw [scriptState, hclose]
      rfl
    rw [hstate]
    show (if c = '/' then State.doubleEscapeEnd [] else doubleEscaped c) = _
    by_cases hslash : c = '/'
    · subst hslash
      rfl
    · rw [if_neg hslash]
      exact doubleEscaped_eq (fun _ => hclose) (fun h => absurd h hslash) (by simp)
  have hslash : c = '/' → past.head? ≠ some '<' := by
    intro _ h
    obtain ⟨rest, rfl⟩ := List.head?_eq_some_iff.mp h
    exact hless ⟨rest, rfl⟩
  have hnext : (c = '-' → ¬ ['-'] <+: past) → doubleEscaped c = scriptState (c :: past) :=
    doubleEscaped_eq (fun _ => hclose) hslash
  have hstate : scriptState past =
      dashState .doubleEscaped .doubleEscapedDash .doubleEscapedDashDash past := by
    rw [scriptState, hclose]
    exact if_neg hless
  rw [hstate]
  by_cases htwo : ['-', '-'] <+: past
  · have hone : ['-'] <+: past := (List.prefix_append ['-'] ['-']).trans htwo
    rw [dashState, if_pos htwo]
    show (if c = '-' then State.doubleEscapedDashDash else if c = '>' then .scriptData
      else doubleEscaped c) = _
    by_cases hdash : c = '-'
    · rw [if_pos hdash, hdash]
      exact hdouble hone
    · rw [if_neg hdash, if_neg fun h => hend ⟨h, htwo⟩]
      exact hnext fun h => absurd h hdash
  by_cases hone : ['-'] <+: past
  · rw [dashState, if_neg htwo, if_pos hone]
    show (if c = '-' then State.doubleEscapedDashDash else doubleEscaped c) = _
    by_cases hdash : c = '-'
    · rw [if_pos hdash, hdash]
      exact hdouble hone
    · rw [if_neg hdash]
      exact hnext fun h => absurd h hdash
  · rw [dashState, if_neg htwo, if_neg hone]
    exact hnext fun _ => hone

/-! ## Texts -/

/-- The state after a text that ends no script. -/
inductive At (past : List Char) : State → Prop
  | plain (hcomment : ¬ InComment past) (hscript : ¬ InScript past) : At past (plainState past)
  | comment (hcomment : InComment past) (hscript : ¬ InScript past) : At past (commentState past)
  | script (hcomment : InComment past) (hscript : InScript past) : At past (scriptState past)

theorem openTag_dash {past : List Char} (h : ['-', '-'] <+: past) : openTag past = none := by
  obtain ⟨rest, rfl⟩ := h
  rfl

theorem not_inComment_end {past : List Char} (h : ['-', '-'] <+: past) :
    ¬ InComment ('>' :: past) := by
  rw [InComment, List.cons_prefix_cons]
  rintro (⟨hne, -⟩ | ⟨-, hend⟩)
  · exact absurd hne (by decide)
  · exact hend ⟨rfl, h⟩

theorem not_inScript_end {past : List Char} (h : ['-', '-'] <+: past) :
    ¬ InScript ('>' :: past) := by
  rintro (⟨-, -, buffer, hopen, -⟩ | ⟨-, hend⟩)
  · rw [openTag_dash h] at hopen
    exact absurd hopen (by simp)
  · exact hend ⟨rfl, h⟩

/-- One character keeps the state what it should be. -/
theorem At.step {past : List Char} {state : State} (h : At past state) {c : Char}
    (hend : ¬ EndsElement (c :: past)) : At (c :: past) (step state c) := by
  have htag : ¬ (isDelimiter c = true ∧ ∃ buffer, closeTag past = some buffer ∧ IsScript buffer) :=
    fun h => hend (.inl h)
  cases h with
  | plain hcomment hscript =>
      have hno : ¬ InScript (c :: past) := by
        rintro (⟨-, h, -⟩ | ⟨h, -⟩)
        · exact hcomment h
        · exact hscript h
      rw [step_plain htag]
      by_cases hstart : c = '-' ∧ ['-', '!', '<'] <+: past
      · rw [if_pos hstart]
        exact .comment ((inComment_cons hcomment).mpr hstart) hno
      · rw [if_neg hstart]
        exact .plain (fun h => hstart ((inComment_cons hcomment).mp h)) hno
  | comment hcomment hscript =>
      by_cases hclose : c = '>' ∧ ['-', '-'] <+: past
      · obtain ⟨rfl, hdash⟩ := hclose
        rw [step_commentEnd hdash]
        exact .plain (not_inComment_end hdash) (not_inScript_end hdash)
      have hstill : InComment (c :: past) := .inr ⟨hcomment, hclose⟩
      by_cases hopens : isDelimiter c = true ∧ ∃ buffer, openTag past = some buffer ∧ IsScript buffer
      · obtain ⟨hdelim, buffer, hopen, hname⟩ := hopens
        rw [step_script hopen hdelim hname]
        exact .script hstill (.inl ⟨hdelim, hcomment, buffer, hopen, hname⟩)
      have hno : ¬ InScript (c :: past) := by
        rintro (⟨hdelim, -, hopen⟩ | ⟨h, -⟩)
        · exact hopens ⟨hdelim, hopen⟩
        · exact hscript h
      have hstep : ScriptData.step (commentState past) c = commentState (c :: past) := by
        cases hopen : openTag past with
        | some buffer => exact step_openTag hopen fun h => hopens ⟨h.1, buffer, hopen, h.2⟩
        | none =>
            cases htagged : closeTag past with
            | some buffer =>
                exact step_closeTag hopen htagged fun h => htag ⟨h.1, buffer, htagged, h.2⟩
            | none => exact step_dashes hopen htagged hclose
      rw [hstep]
      exact .comment hstill hno
  | script hcomment hscript =>
      by_cases hclose : c = '>' ∧ ['-', '-'] <+: past
      · obtain ⟨rfl, hdash⟩ := hclose
        rw [step_commentEnd_script hdash]
        exact .plain (not_inComment_end hdash) (not_inScript_end hdash)
      have hstep : ScriptData.step (scriptState past) c = scriptState (c :: past) := by
        cases htagged : closeTag past with
        | some buffer => exact step_hiddenClose htagged fun h => htag ⟨h.1, buffer, htagged, h.2⟩
        | none => exact step_hidden htagged hclose
      rw [hstep]
      exact .script (.inr ⟨hcomment, hclose⟩) (.inr ⟨hscript, hclose⟩)

/-- The state in which a text leaves the tokenizer. -/
theorem At.run {past : List Char} {state : State} (h : At past state) (text : List Char)
    (hend : ¬ EndsElement (text.reverse ++ past)) :
    At (text.reverse ++ past) (run state text) := by
  induction text generalizing past state with
  | nil => exact h
  | cons c text ih =>
      have hlist : (c :: text).reverse ++ past = text.reverse ++ c :: past := by simp
      rw [hlist] at hend ⊢
      refine ih (h.step fun hhere => hend ?_) hend
      -- a text that has ended the script has ended it for good
      clear ih hlist
      induction text.reverse with
      | nil => exact hhere
      | cons d later ih => exact .inr ih

/-- The text starts with an end tag of a script. -/
def StartsClose (text : List Char) : Prop :=
  (text.take 8).map Char.toLower = ['<', '/', 's', 'c', 'r', 'i', 'p', 't']

instance (text : List Char) : Decidable (StartsClose text) :=
  inferInstanceAs (Decidable (_ = _))

theorem closeTag_eq_some {past buffer : List Char} (h : closeTag past = some buffer) :
    ∃ rest, past = buffer ++ '/' :: '<' :: rest := by
  induction past generalizing buffer with
  | nil => simp [closeTag] at h
  | cons c past ih =>
      by_cases hc : c.isAlpha = true
      · rw [closeTag_alpha hc] at h
        cases hpast : closeTag past with
        | none => simp [hpast] at h
        | some buffer' =>
            obtain ⟨rest, hrest⟩ := ih hpast
            have hbuffer : c :: buffer' = buffer := by simpa [hpast] using h
            exact ⟨rest, by rw [← hbuffer, hrest, List.cons_append]⟩
      · rw [closeTag, if_neg hc] at h
        by_cases hslash : c = '/' ∧ past.head? = some '<'
        · rw [if_pos hslash] at h
          obtain ⟨rest, hrest⟩ := List.head?_eq_some_iff.mp hslash.2
          have hbuffer : [] = buffer := by simpa using h
          exact ⟨rest, by rw [← hbuffer, hslash.1, hrest, List.nil_append]⟩
        · simp [hslash] at h

/-- A script ends only where there is an end tag. -/
theorem exists_startsClose {past : List Char} (h : EndsElement past) :
    ∃ a b, past.reverse = a ++ b ∧ StartsClose b := by
  induction past with
  | nil => exact h.elim
  | cons c past ih =>
      rcases h with ⟨-, buffer, hclose, hname⟩ | h
      · obtain ⟨rest, hpast⟩ := closeTag_eq_some hclose
        have hlength : buffer.reverse.length = 6 := by
          have := congrArg List.length hname
          simpa using this
        refine ⟨rest.reverse, '<' :: '/' :: (buffer.reverse ++ [c]), by simp [hpast], ?_⟩
        have htake : (buffer.reverse ++ [c]).take 6 = buffer.reverse := by
          rw [← hlength]
          exact List.take_left
        have hreverse : buffer.reverse.map Char.toLower = ['s', 'c', 'r', 'i', 'p', 't'] := by
          rw [List.map_reverse, hname]
          rfl
        show Char.toLower '<' :: Char.toLower '/' ::
          ((buffer.reverse ++ [c]).take 6).map Char.toLower = _
        rw [htake, hreverse]
        rfl
      · obtain ⟨a, b, hab, hb⟩ := ih h
        refine ⟨a, b ++ [c], by rw [List.reverse_cons, hab, List.append_assoc], ?_⟩
        have hlength : 8 ≤ b.length := by
          have := congrArg List.length hb
          simp at this
          omega
        rw [StartsClose, List.take_append_of_le_length hlength]
        exact hb

/-- The end tag behind a text that ends in a semicolon ends the script, if the text hides no other
one and opens none. -/
theorem endsAtTag_iff {past : List Char} (hend : ¬ EndsElement (';' :: past)) :
    EndsAtTag (';' :: past).reverse ↔ ¬ InScript (';' :: past) := by
  have hstart : At [] .scriptData := .plain (fun h => h) fun h => h
  have hrun := hstart.run (';' :: past).reverse (by simpa using hend)
  rw [List.reverse_reverse, List.append_nil] at hrun
  rw [EndsAtTag, run_append, run_append]
  generalize hstate : run .scriptData (';' :: past).reverse = state at hrun
  cases hrun with
  | plain hcomment hscript =>
      have hplain : plainState (';' :: past) = .scriptData := by simp [plainState, closeTag]
      rw [hplain]
      exact iff_of_true ⟨by decide, by decide⟩ hscript
  | comment hcomment hscript =>
      have hplain : commentState (';' :: past) = .escaped := by
        simp [commentState, closeTag, openTag, dashState]
      rw [hplain]
      exact iff_of_true ⟨by decide, by decide⟩ hscript
  | script hcomment hscript =>
      have hplain : scriptState (';' :: past) = .doubleEscaped := by
        simp [scriptState, closeTag, dashState]
      rw [hplain]
      refine iff_of_false ?_ (not_not_intro hscript)
      rintro ⟨-, h⟩
      exact absurd h (by decide)

/-! ## Texts that differ in their end tags -/

theorem inComment_iff {c : Char} {past : List Char} (hdash : c ≠ '-') (hend : c ≠ '>') :
    InComment (c :: past) ↔ InComment past := by
  rw [InComment, List.cons_prefix_cons]
  constructor
  · rintro (⟨h, -⟩ | ⟨h, -⟩)
    · exact absurd h.symm hdash
    · exact h
  · exact fun h => .inr ⟨h, fun h => hend h.1⟩

theorem inScript_iff {c : Char} {past : List Char} (hend : c ≠ '>')
    (hname : isDelimiter c = true → ∀ buffer, openTag past = some buffer → ¬ IsScript buffer) :
    InScript (c :: past) ↔ InScript past := by
  constructor
  · rintro (⟨hdelim, -, buffer, hopen, hscript⟩ | ⟨h, -⟩)
    · exact absurd hscript (hname hdelim buffer hopen)
    · exact h
  · exact fun h => .inr ⟨h, fun h => hend h.1⟩

theorem inComment_letters {letters past : List Char} (h : ∀ c ∈ letters, c.isAlpha = true) :
    InComment (letters ++ past) ↔ InComment past := by
  induction letters with
  | nil => exact Iff.rfl
  | cons c letters ih =>
      have hc := h c List.mem_cons_self
      rw [List.cons_append, inComment_iff (ne_of_alpha hc (by decide)) (ne_of_alpha hc (by decide)),
        ih fun d hd => h d (List.mem_cons_of_mem c hd)]

theorem inScript_letters {letters past : List Char} (h : ∀ c ∈ letters, c.isAlpha = true) :
    InScript (letters ++ past) ↔ InScript past := by
  induction letters with
  | nil => exact Iff.rfl
  | cons c letters ih =>
      have hc := h c List.mem_cons_self
      have hname : isDelimiter c = true → ∀ buffer, openTag (letters ++ past) = some buffer →
          ¬ IsScript buffer := by
        intro hdelim
        rw [not_delimiter_of_alpha hc] at hdelim
        exact Bool.noConfusion hdelim
      rw [List.cons_append, inScript_iff (ne_of_alpha hc (by decide)) hname,
        ih fun d hd => h d (List.mem_cons_of_mem c hd)]

theorem openTag_letters {letters past : List Char} (h : ∀ c ∈ letters, c.isAlpha = true)
    (hpast : openTag past = none) : openTag (letters ++ past) = none := by
  induction letters with
  | nil => exact hpast
  | cons c letters ih =>
      rw [List.cons_append, openTag_alpha (h c List.mem_cons_self),
        ih fun d hd => h d (List.mem_cons_of_mem c hd), Option.map_none]

/-- Two texts that no later text tells apart, as far as comments and scripts go. -/
structure Alike (past other : List Char) : Prop where
  comment : InComment past ↔ InComment other
  script : InScript past ↔ InScript other
  openTag : openTag past = openTag other
  dash : ['-'] <+: past ↔ ['-'] <+: other
  dashes : ['-', '-'] <+: past ↔ ['-', '-'] <+: other
  less : ['<'] <+: past ↔ ['<'] <+: other
  bang : ['!', '<'] <+: past ↔ ['!', '<'] <+: other
  start : ['-', '!', '<'] <+: past ↔ ['-', '!', '<'] <+: other

theorem Alike.refl (past : List Char) : Alike past past :=
  ⟨Iff.rfl, Iff.rfl, rfl, Iff.rfl, Iff.rfl, Iff.rfl, Iff.rfl, Iff.rfl⟩

theorem Alike.cons {past other : List Char} (h : Alike past other) (c : Char) :
    Alike (c :: past) (c :: other) where
  comment := by rw [InComment, InComment, List.cons_prefix_cons, List.cons_prefix_cons, h.start,
    h.comment, h.dashes]
  script := by rw [InScript, InScript, h.comment, h.openTag, h.script, h.dashes]
  openTag := by rw [ScriptData.openTag, ScriptData.openTag, h.openTag]
  dash := by rw [List.cons_prefix_cons, List.cons_prefix_cons, iff_true_intro (List.nil_prefix),
    iff_true_intro (List.nil_prefix)]
  dashes := by rw [List.cons_prefix_cons, List.cons_prefix_cons, h.dash]
  less := by rw [List.cons_prefix_cons, List.cons_prefix_cons, iff_true_intro (List.nil_prefix),
    iff_true_intro (List.nil_prefix)]
  bang := by rw [List.cons_prefix_cons, List.cons_prefix_cons, h.less]
  start := by rw [List.cons_prefix_cons, List.cons_prefix_cons, h.bang]

/-- The end tag and the one with an escaped slash. -/
theorem Alike.close {past other : List Char} (h : Alike past other) {letters others : List Char}
    (hletters : ∀ c ∈ letters, c.isAlpha = true) (hothers : ∀ c ∈ others, c.isAlpha = true)
    (hne : letters ≠ []) (hne' : others ≠ []) :
    Alike (letters ++ '/' :: '<' :: past) (others ++ '/' :: '\\' :: '<' :: other) := by
  have hopen : ScriptData.openTag ('/' :: '<' :: past) = none := rfl
  have hopen' : ScriptData.openTag ('/' :: '\\' :: '<' :: other) = none := rfl
  have hhead : ∀ {l : List Char} (d : Char) (rest tail : List Char), l ≠ [] →
      (∀ c ∈ l, c.isAlpha = true) → d.isAlpha = false → ¬ d :: rest <+: l ++ tail := by
    intro l d rest tail hl halpha hd
    obtain ⟨b, l, rfl⟩ := List.exists_cons_of_ne_nil hl
    exact not_head_of_alpha (halpha b List.mem_cons_self) hd
  have hfalse : ∀ (d : Char) (rest : List Char), d.isAlpha = false →
      (d :: rest <+: letters ++ '/' :: '<' :: past ↔
        d :: rest <+: others ++ '/' :: '\\' :: '<' :: other) := fun d rest hd =>
    iff_of_false (hhead d rest _ hne hletters hd) (hhead d rest _ hne' hothers hd)
  have hslash : isDelimiter '/' = true → ∀ buffer, ScriptData.openTag ('<' :: past) = some buffer →
      ¬ IsScript buffer := by
    intro _ buffer hbuffer
    obtain rfl : [] = buffer := Option.some.inj hbuffer
    decide
  have hescape : isDelimiter '/' = true → ∀ buffer,
      ScriptData.openTag ('\\' :: '<' :: other) = some buffer → ¬ IsScript buffer := by
    intro _ buffer hbuffer
    exact absurd hbuffer (by simp [ScriptData.openTag])
  have hno : ∀ {c : Char} {l : List Char}, isDelimiter c = false → isDelimiter c = true →
      ∀ buffer, ScriptData.openTag l = some buffer → ¬ IsScript buffer := by
    intro c l hfalse htrue
    rw [hfalse] at htrue
    exact Bool.noConfusion htrue
  refine ⟨?_, ?_, ?_, hfalse _ _ (by decide), hfalse _ _ (by decide), hfalse _ _ (by decide),
    hfalse _ _ (by decide), hfalse _ _ (by decide)⟩
  · rw [inComment_letters hletters, inComment_letters hothers,
      inComment_iff (by decide) (by decide), inComment_iff (by decide) (by decide),
      inComment_iff (by decide) (by decide), inComment_iff (by decide) (by decide),
      inComment_iff (by decide) (by decide)]
    exact h.comment
  · rw [inScript_letters hletters, inScript_letters hothers, inScript_iff (by decide) hslash,
      inScript_iff (by decide) (hno (by decide)), inScript_iff (by decide) hescape,
      inScript_iff (by decide) (hno (by decide)), inScript_iff (by decide) (hno (by decide))]
    exact h.script
  · rw [openTag_letters hletters hopen, openTag_letters hothers hopen']

end ErpApi.ScriptData
