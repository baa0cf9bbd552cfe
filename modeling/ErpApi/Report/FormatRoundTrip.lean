import ErpApi.Report.RunningNumberFormat

set_option autoImplicit false

/-! # Reading back a printed number

For an accepted format the expression that `parseRunningNumberFormat` builds reads back the
sequence of a number that `formatRunningNumber` prints, unless the format holds a *dated*
sequence token: `{SEQ:` and `}` around digits and date tokens, as in `{SEQ:{DD}}`.
The parser sees the date tokens of such a text only; the formatter replaces them first and
then finds a sequence token that the parser did not see.

`seqTokens_eq_one_iff` is the combinatorial part: the replaced text holds the one sequence
token of the format, and one for each dated token. Sequences are natural numbers, printed in
decimal; the source's `number` holds them exactly below `2 ^ 53`.
-/

namespace ErpApi.Report

open Placeholder

/-! ## Dated sequence tokens -/

def seqOpen : Text := ['{', 'S', 'E', 'Q', ':']

/-- The format holds `{SEQ:`, digits and at least one date token, and `}`; on the date `now`
the tokens print digits only (a year before 0 prints a sign). -/
def DatedSeq (format : Text) (now : Date) : Prop :=
  ∃ before inner after,
    format = before ++ (seqOpen ++ (render Token.source inner ++ '}' :: after)) ∧
    (∃ t, .token t ∈ inner) ∧ Digits (renderDates (resolveDateParts now) inner)

theorem NoSeq.of_append_left {ps qs : List (Piece Token)} (h : NoSeq (ps ++ qs)) : NoSeq ps :=
  fun ds hmem => h ds (List.mem_append_left qs hmem)

theorem NoSeq.of_append_right {ps qs : List (Piece Token)} (h : NoSeq (ps ++ qs)) : NoSeq qs :=
  fun ds hmem => h ds (List.mem_append_right ps hmem)

theorem NoSeq.tail {p : Piece Token} {ps : List (Piece Token)} (h : NoSeq (p :: ps)) :
    NoSeq ps := fun ds hmem => h ds (List.mem_cons_of_mem p hmem)

/-- A date token prints a text without braces. -/
theorem exists_dateValue (now : Date) {t : Token} (ht : ∀ ds, t ≠ .seq ds) :
    ∃ d, dateValue (resolveDateParts now) t = some d ∧ DateText d ∧ d ≠ [] := by
  have hvalue : ∃ d, dateValue (resolveDateParts now) t = some d := by
    cases t with
    | seq ds => exact absurd rfl (ht ds)
    | _ => exact ⟨_, rfl⟩
  obtain ⟨d, hd⟩ := hvalue
  exact ⟨d, hd, (dateReplacement_resolveDateParts now).text t d hd⟩

theorem renderDates_token {parts : DateParts} {t : Token} {d : Text}
    (h : dateValue parts t = some d) (ps : List (Piece Token)) :
    renderDates parts (.token t :: ps) = d ++ renderDates parts ps := by
  rw [renderDates_cons]
  simp [renderDates, render, h]

/-- A character that no date prints comes from the format: the pieces may be cut there. -/
theorem split_renderDates {now : Date} {c : Char} (hc : ¬ (c.isDigit = true ∨ c = '-'))
    {ps : List (Piece Token)} (hps : NoSeq ps) {w rest : Text}
    (h : renderDates (resolveDateParts now) ps = w ++ c :: rest) :
    ∃ qs rs, ps = qs ++ .char c :: rs ∧ renderDates (resolveDateParts now) qs = w ∧
      renderDates (resolveDateParts now) rs = rest := by
  induction ps generalizing w with
  | nil => exact absurd h (by simp [renderDates, render])
  | cons p ps ih =>
      cases p with
      | char e =>
          have h' : e :: renderDates (resolveDateParts now) ps = w ++ c :: rest := h
          cases w with
          | nil =>
              obtain ⟨rfl, hrest⟩ := List.cons.inj h'
              exact ⟨[], ps, rfl, rfl, hrest⟩
          | cons x w =>
              obtain ⟨rfl, htail⟩ := List.cons.inj h'
              obtain ⟨qs, rs, rfl, rfl, rfl⟩ := ih hps.tail htail
              exact ⟨.char e :: qs, rs, rfl, rfl, rfl⟩
      | token t =>
          obtain ⟨d, hd, hdate, -⟩ := exists_dateValue now (t := t) (by
            rintro ds rfl
            exact hps ds List.mem_cons_self)
          rw [renderDates_token hd] at h
          have hno : c ∉ d := fun hmem => hc (hdate c hmem)
          -- The printed date ends before `c`.
          obtain ⟨v, rfl, hv⟩ : ∃ v, w = d ++ v ∧
              renderDates (resolveDateParts now) ps = v ++ c :: rest := by
            rcases List.append_eq_append_iff.mp h with ⟨v, hw, hv⟩ | ⟨v, hd', hv⟩
            · exact ⟨v, hw, hv⟩
            · cases v with
              | nil => exact ⟨[], by simpa using hd'.symm, by simpa using hv.symm⟩
              | cons x v =>
                  obtain ⟨rfl, -⟩ := List.cons.inj (show c :: rest = x :: (v ++ _) from hv)
                  exact absurd (by rw [hd']; simp) hno
          obtain ⟨qs, rs, rfl, rfl, rfl⟩ := ih hps.tail hv
          exact ⟨.token t :: qs, rs, rfl, renderDates_token hd qs, rfl⟩

/-- A printed text that is empty comes from no piece. -/
theorem eq_nil_of_renderDates_eq_nil {now : Date} {ps : List (Piece Token)} (hps : NoSeq ps)
    (h : renderDates (resolveDateParts now) ps = []) : ps = [] := by
  cases ps with
  | nil => rfl
  | cons p ps =>
      exfalso
      cases p with
      | char c => exact absurd h (List.cons_ne_nil c _)
      | token t =>
          obtain ⟨d, hd, -, hne⟩ := exists_dateValue now (t := t) (by
            rintro ds rfl
            exact hps ds List.mem_cons_self)
          rw [renderDates_token hd] at h
          exact hne (List.append_eq_nil_iff.mp h).1

/-- A fixed text of such characters is a run of pieces. -/
theorem split_renderDates_text {now : Date} {w : Text}
    (hw : ∀ c ∈ w, ¬ (c.isDigit = true ∨ c = '-')) {ps : List (Piece Token)} (hps : NoSeq ps)
    {rest : Text} (h : renderDates (resolveDateParts now) ps = w ++ rest) :
    ∃ rs, ps = w.map .char ++ rs ∧ renderDates (resolveDateParts now) rs = rest := by
  induction w generalizing ps with
  | nil => exact ⟨ps, rfl, h⟩
  | cons c w ih =>
      obtain ⟨qs, rs, rfl, hqs, hrs⟩ :=
        split_renderDates (w := []) (hw c List.mem_cons_self) hps h
      obtain rfl := eq_nil_of_renderDates_eq_nil hps.of_append_left hqs
      obtain ⟨rs, rfl, rfl⟩ := ih (fun e he => hw e (List.mem_cons_of_mem c he))
        hps.of_append_right.tail hrs
      exact ⟨rs, rfl, rfl⟩

/-! ## Pieces and the format they come from -/

theorem eq_of_scan_eq_cons {format : Text} {p : Piece Token} {ps : List (Piece Token)}
    (h : scan tokenRe format = p :: ps) :
    ∃ rest, format = render Token.source [p] ++ rest ∧ scan tokenRe rest = ps := by
  cases format using scan_induction tokenRe with
  | nil => cases h
  | char c text hm _ =>
      rw [scan_char hm] at h
      obtain ⟨rfl, rfl⟩ := List.cons.inj h
      exact ⟨text, rfl, rfl⟩
  | token body rest t hb ht _ =>
      rw [scan_hit hb ht] at h
      obtain ⟨rfl, rfl⟩ := List.cons.inj h
      obtain ⟨-, rfl⟩ := tokenRe_eq_some.mp ht
      exact ⟨rest, by simp [render, Token.source], rfl⟩

theorem eq_of_scan_eq_append {format : Text} {ps qs : List (Piece Token)}
    (h : scan tokenRe format = ps ++ qs) :
    ∃ rest, format = render Token.source ps ++ rest ∧ scan tokenRe rest = qs := by
  induction ps generalizing format with
  | nil => exact ⟨format, rfl, h⟩
  | cons p ps ih =>
      obtain ⟨text, rfl, htext⟩ := eq_of_scan_eq_cons h
      obtain ⟨rest, rfl, rfl⟩ := ih htext
      refine ⟨rest, ?_, rfl⟩
      rw [← List.append_assoc, ← render_append]
      rfl

/-- Pieces without tokens are the characters they print. -/
theorem eq_chars_of_no_token (parts : DateParts) {ps : List (Piece Token)}
    (h : ¬ ∃ t, .token t ∈ ps) : ps = (renderDates parts ps).map .char := by
  induction ps with
  | nil => rfl
  | cons p ps ih =>
      cases p with
      | token t => exact absurd ⟨t, List.mem_cons_self⟩ h
      | char c =>
          have hps := ih fun ⟨t, ht⟩ => h ⟨t, List.mem_cons_of_mem _ ht⟩
          show .char c :: ps = .char c :: (renderDates parts ps).map .char
          rw [← hps]

/-- A sequence token among the printed pieces that the parser did not see is a dated one. -/
theorem datedSeq_of_occurrences {format : Text} {now : Date} (ps₀ ps ps₁ : List (Piece Token))
    (hscan : scan tokenRe format = ps₀ ++ (ps ++ ps₁)) (hps : NoSeq ps)
    (hocc : occurrences recognizeSeq (renderDates (resolveDateParts now) ps) ≠ 0) :
    DatedSeq format now := by
  obtain ⟨w, body, rest, t, htext, -, ht⟩ := exists_of_occurrences_ne_zero hocc
  obtain ⟨ds, rfl, hne, hds, rfl⟩ := recognizeSeq_eq_some.mp ht
  -- The pieces of `{SEQ:`, of the digits and of `}`.
  obtain ⟨qs, rs, rfl, -, hrs⟩ := split_renderDates (by decide) hps htext
  have hletters : ∀ c ∈ ['S', 'E', 'Q', ':'], ¬ (c.isDigit = true ∨ c = '-') := by simp
  obtain ⟨rs, rfl, hinner⟩ :=
    split_renderDates_text hletters hps.of_append_right.tail (hrs.trans rfl)
  obtain ⟨inner, rs, rfl, rfl, -⟩ := split_renderDates (by decide)
    hps.of_append_right.tail.of_append_right hinner
  have hsplit : scan tokenRe format =
      (ps₀ ++ qs) ++ (seqOpen.map .char ++ (inner ++ .char '}' :: (rs ++ ps₁))) := by
    rw [hscan]
    simp [seqOpen]
  obtain ⟨text, rfl, hopened⟩ := eq_of_scan_eq_append hsplit
  obtain ⟨text, rfl, htail⟩ := eq_of_scan_eq_append hopened
  obtain ⟨text, rfl, hclose⟩ := eq_of_scan_eq_append htail
  obtain ⟨after, rfl, -⟩ := eq_of_scan_eq_cons hclose
  rw [render_chars] at hopened ⊢
  refine ⟨_, inner, after, rfl, ?_, hds⟩
  by_contra hno
  -- Without a date token the parser would have seen a sequence token here.
  set ds := renderDates (resolveDateParts now) inner with hdsdef
  have hsource : render Token.source inner = ds := by
    rw [eq_chars_of_no_token (resolveDateParts now) hno, render_chars]
  have hwf : (Token.seq ds).WellFormed := by
    rintro ds' heq
    obtain rfl := Token.seq.inj heq
    exact ⟨hne, hds⟩
  have hhit := scan_hit hwf.close_not_mem (tokenRe_eq_some.mpr ⟨hwf, rfl⟩) after
  rw [hsource] at hopened
  have hfirst : Piece.token (Token.seq ds) = .char '{' := by
    have hlist := hhit.symm.trans hopened
    exact (List.cons.inj hlist).1
  cases hfirst

theorem exists_first_token {ps : List (Piece Token)} (h : ∃ t, .token t ∈ ps) :
    ∃ w t rest, ps = List.map .char w ++ .token t :: rest := by
  induction ps with
  | nil =>
      obtain ⟨t, ht⟩ := h
      cases ht
  | cons p ps ih =>
      cases p with
      | token t => exact ⟨[], t, ps, rfl⟩
      | char c =>
          obtain ⟨t, ht⟩ := h
          have htail : .token t ∈ ps := by simpa using ht
          obtain ⟨w, t, rest, rfl⟩ := ih ⟨t, htail⟩
          exact ⟨c :: w, t, rest, rfl⟩

/-- A token that prints digits is a date token. -/
theorem ne_seq_of_digits {parts : DateParts} {t : Token} {ps : List (Piece Token)}
    (h : Digits (renderDates parts (.token t :: ps))) (ds : Text) : t ≠ .seq ds := by
  rintro rfl
  have hopen : '{' ∈ renderDates parts (.token (.seq ds) :: ps) := List.mem_cons_self
  exact h.open_not_mem hopen

theorem noSeq_of_digits {parts : DateParts} {ps : List (Piece Token)}
    (h : Digits (renderDates parts ps)) : NoSeq ps := by
  intro ds hmem
  obtain ⟨qs, rs, rfl⟩ := List.append_of_mem hmem
  have hseq : Digits (renderDates parts (.token (.seq ds) :: rs)) := by
    intro c hc
    refine h c ?_
    rw [renderDates, render_append]
    exact List.mem_append_right _ hc
  exact ne_seq_of_digits hseq ds rfl

/-- Pieces that print digits are scanned as they are written. -/
theorem scan_source_of_digits {parts : DateParts} {ps : List (Piece Token)}
    (h : Digits (renderDates parts ps)) (rest : Text) :
    scan tokenRe (render Token.source ps ++ rest) = ps ++ scan tokenRe rest := by
  induction ps with
  | nil => rfl
  | cons p ps ih =>
      have htail : Digits (renderDates parts ps) := by
        intro c hc
        refine h c ?_
        rw [renderDates_cons]
        exact List.mem_append_right _ hc
      cases p with
      | char c =>
          have hc : c ≠ '{' := by
            rintro rfl
            exact h.open_not_mem List.mem_cons_self
          show scan tokenRe (c :: (render Token.source ps ++ rest)) = _
          rw [scan_char (headMatch_of_ne hc _), ih htail]
          rfl
      | token t =>
          have hwf : t.WellFormed := fun ds heq => absurd heq (ne_seq_of_digits h ds)
          have hshape : render Token.source (.token t :: ps) ++ rest =
              '{' :: (t.body ++ '}' :: (render Token.source ps ++ rest)) := by
            simp [render, Token.source]
          rw [hshape, scan_hit hwf.close_not_mem (tokenRe_eq_some.mpr ⟨hwf, rfl⟩), ih htail]
          rfl

theorem tokenRe_open_not_mem (body : Text) (t : Token) (h : tokenRe body = some t) :
    '{' ∉ body := by
  obtain ⟨hwf, rfl⟩ := tokenRe_eq_some.mp h
  exact hwf.open_not_mem

/-- The parser passes over the braces of a dated sequence token. -/
theorem scan_dated {parts : DateParts} {inner : List (Piece Token)}
    (htoken : ∃ t, .token t ∈ inner) (hdigits : Digits (renderDates parts inner))
    (before after : Text) :
    scan tokenRe (before ++ (seqOpen ++ (render Token.source inner ++ '}' :: after))) =
      scan tokenRe before ++
        (seqOpen.map .char ++ (inner ++ .char '}' :: scan tokenRe after)) := by
  set body : Text := ['S', 'E', 'Q', ':'] with hbody
  have hopened : scan tokenRe (body ++ (render Token.source inner ++ '}' :: after)) =
      body.map .char ++ (inner ++ .char '}' :: scan tokenRe after) := by
    rw [scan_append_text (by simp [hbody]), scan_source_of_digits hdigits,
      scan_char (headMatch_of_ne (by decide) after)]
  -- Up to the first closing brace stands the opening brace of a date token.
  have hmiss : headMatch tokenRe
      ('{' :: (body ++ (render Token.source inner ++ '}' :: after))) = none := by
    obtain ⟨w, t, rest, rfl⟩ := exists_first_token htoken
    have hw : Digits w := by
      intro c hc
      refine hdigits c ?_
      rw [renderDates, render_append, render_chars]
      exact List.mem_append_left _ hc
    have hno : headMatch tokenRe ('{' :: (body ++ w)) = none := by
      have hclose : '}' ∉ body ++ w := by simp [hbody, hw.close_not_mem]
      simp [headMatch, hclose]
    have hcut := headMatch_append_open tokenRe_open_not_mem '{' (body ++ w)
      (t.body ++ ['}'] ++ render Token.source rest ++ '}' :: after) hno
    rw [← hcut, render_append, render_chars]
    simp [render, Token.source]
  show scan tokenRe (before ++ '{' :: (body ++ _)) = _
  rw [scan_append_open tokenRe_open_not_mem, scan_char hmiss, hopened]
  rfl

/-! ## How often a sequence is printed -/

theorem renderDates_append (parts : DateParts) (ps qs : List (Piece Token)) :
    renderDates parts (ps ++ qs) = renderDates parts ps ++ renderDates parts qs :=
  render_append ps qs

theorem recognizeSeq_body {ds : Text} (hne : ds ≠ []) (hds : Digits ds) :
    recognizeSeq (Token.seq ds).body = some (.seq ds) :=
  recognizeSeq_eq_some.mpr ⟨ds, rfl, hne, hds, rfl⟩

/-- The sequence tokens printed around one of them. -/
theorem occurrences_around {ds : Text} (hne : ds ≠ []) (hds : Digits ds) (a b : Text) :
    occurrences recognizeSeq (a ++ ((Token.seq ds).source ++ b)) =
      occurrences recognizeSeq a + 1 + occurrences recognizeSeq b := by
  have hshape : (Token.seq ds).source ++ b = '{' :: ((Token.seq ds).body ++ '}' :: b) := by
    simp [Token.source]
  have hclose : '}' ∉ (Token.seq ds).body := by simpa [Token.body] using hds.close_not_mem
  rw [hshape]
  exact occurrences_append_hit recognizeSeq_open_not_mem a hclose (recognizeSeq_body hne hds) b

theorem occurrences_renderDates {parts : DateParts} {ps qs : List (Piece Token)} {ds : Text}
    (hne : ds ≠ []) (hds : Digits ds) :
    occurrences recognizeSeq (renderDates parts (ps ++ .token (.seq ds) :: qs)) =
      occurrences recognizeSeq (renderDates parts ps) + 1 +
        occurrences recognizeSeq (renderDates parts qs) := by
  rw [renderDates_append]
  exact occurrences_around hne hds _ _

theorem occurrences_of_mem_scan (parts : DateParts) {text ds : Text}
    (h : .token (.seq ds) ∈ scan tokenRe text) :
    0 < occurrences recognizeSeq (renderDates parts (scan tokenRe text)) := by
  obtain ⟨body, hbody⟩ := exists_of_mem_scan h
  have hwf := (tokenRe_eq_some.mp hbody).1 ds rfl
  obtain ⟨ps, qs, hscan⟩ := List.append_of_mem h
  rw [hscan, occurrences_renderDates hwf.1 hwf.2]
  omega

/-- A dated token prints the sequence a second time. -/
theorem two_le_of_datedSeq {format ds : Text} {now : Date}
    (hseq : .token (.seq ds) ∈ scan tokenRe format) (h : DatedSeq format now) :
    2 ≤ seqTokens format now := by
  obtain ⟨before, inner, after, rfl, htoken, hdigits⟩ := h
  set parts := resolveDateParts now with hparts
  have hne : renderDates parts inner ≠ [] := by
    intro hnil
    obtain ⟨t, ht⟩ := htoken
    rw [eq_nil_of_renderDates_eq_nil (noSeq_of_digits hdigits) hnil] at ht
    cases ht
  have htext : replaceDateTokens
      (before ++ (seqOpen ++ (render Token.source inner ++ '}' :: after))) now =
      renderDates parts (scan tokenRe before) ++
        ((Token.seq (renderDates parts inner)).source ++
          renderDates parts (scan tokenRe after)) := by
    rw [replaceDateTokens_eq]
    show renderDates parts (scan tokenRe _) = _
    rw [scan_dated htoken hdigits, renderDates_append, renderDates_append, renderDates_append]
    simp [renderDates, seqOpen, Token.source, Token.body, render]
  have hmem : .token (.seq ds) ∈ scan tokenRe before ∨ .token (.seq ds) ∈ scan tokenRe after := by
    rw [scan_dated htoken hdigits] at hseq
    have hinner := noSeq_of_digits hdigits ds
    simpa [seqOpen, hinner] using hseq
  rw [seqTokens, htext, occurrences_around hne hdigits]
  rcases hmem with hbefore | hafter
  · have := occurrences_of_mem_scan parts hbefore
    omega
  · have := occurrences_of_mem_scan parts hafter
    omega

/-- The pieces of an accepted format: one sequence token and no other. -/
theorem exists_pieces_of_parse {format : Text} {now : Date} {parsed : ParsedRunningNumberFormat}
    (h : parseRunningNumberFormat format now = .ok parsed) :
    ∃ before ds after, scan tokenRe format = before ++ .token (.seq ds) :: after ∧
      NoSeq before ∧ NoSeq after := by
  unfold parseRunningNumberFormat at h
  split at h
  · cases h
  · cases h
  · rename_i r n hloop
    obtain ⟨before, ds, after, hpieces, hno, -⟩ := parseLoop_none hloop
    exact ⟨before, ds, after, hpieces, hno⟩

/-- **Which formats print their sequence once.** -/
theorem seqTokens_eq_one_iff {format : Text} {now : Date} {parsed : ParsedRunningNumberFormat}
    (h : parseRunningNumberFormat format now = .ok parsed) :
    seqTokens format now = 1 ↔ ¬ DatedSeq format now := by
  obtain ⟨before, ds, after, hscan, hbefore, hafter⟩ := exists_pieces_of_parse h
  have hmem : .token (.seq ds) ∈ scan tokenRe format := by
    rw [hscan]
    simp
  constructor
  · intro hone hdated
    have htwo := two_le_of_datedSeq hmem hdated
    omega
  · intro hno
    obtain ⟨body, hbody⟩ := exists_of_mem_scan hmem
    have hwf := (tokenRe_eq_some.mp hbody).1 ds rfl
    have hcount : seqTokens format now =
        occurrences recognizeSeq (renderDates (resolveDateParts now) before) + 1 +
          occurrences recognizeSeq (renderDates (resolveDateParts now) after) := by
      rw [seqTokens, replaceDateTokens_eq]
      show occurrences recognizeSeq (renderDates _ (scan tokenRe format)) = _
      rw [hscan, occurrences_renderDates hwf.1 hwf.2]
    have hzero : occurrences recognizeSeq (renderDates (resolveDateParts now) before) = 0 := by
      by_contra hocc
      exact hno (datedSeq_of_occurrences [] before _ hscan hbefore hocc)
    have hzero' : occurrences recognizeSeq (renderDates (resolveDateParts now) after) = 0 := by
      by_contra hocc
      refine hno (datedSeq_of_occurrences (before ++ [.token (.seq ds)]) after [] ?_
        hafter hocc)
      rw [hscan]
      simp
    rw [hcount, hzero, hzero']

/-! ## Reading back -/

/-- **When a printed number is read back.** For a sequence that fits its width, the expression
matches the printed number and captures the sequence exactly if the format has no dated
sequence token. -/
theorem exec_formatRunningNumber_iff {format : Text} {now : Date}
    {parsed : ParsedRunningNumberFormat} (h : parseRunningNumberFormat format now = .ok parsed)
    {seq : Nat} (hpos : 1 ≤ seq) (hfit : seq < 10 ^ parsed.seqDigits) :
    (∃ digits,
      RegExp.exec parsed.regex (formatRunningNumber format now seq parsed.seqDigits) =
        some [digits] ∧ Nat.ofDigitChars 10 digits 0 = seq) ↔ ¬ DatedSeq format now := by
  obtain ⟨a, ds, b, haccepted⟩ := accepted_of_parse h
  rw [haccepted.exec_formatRunningNumber hpos, ← seqTokens_eq_one_iff h]
  constructor
  · rintro ⟨digits, hexec, -⟩
    by_contra hne
    rw [if_neg fun hc => hne hc.1] at hexec
    cases hexec
  · intro hone
    rw [if_pos ⟨hone, hfit⟩]
    exact ⟨_, rfl, ofDigitChars_padStart _ _⟩

def august : Date := ⟨1785974400000, 2026, 8, 6⟩

/-- The format `INV-{YYYY}{MM}-{SEQ:5}`. -/
def invoiceFormat : Text := "INV-\x7bYYYY\x7d\x7bMM\x7d-\x7bSEQ:5\x7d".toList

def parsedInvoice : ParsedRunningNumberFormat :=
  ⟨"INV-202608-".toList.map .char ++ [.digits 5], 5⟩

/-- Invoice number 42 of August 2026 is read back. -/
theorem exec_invoice :
    parseRunningNumberFormat invoiceFormat august = .ok parsedInvoice ∧
    (1 ≤ 42 ∧ 42 < 10 ^ parsedInvoice.seqDigits) ∧
    ∃ digits,
      RegExp.exec parsedInvoice.regex
        (formatRunningNumber invoiceFormat august 42 parsedInvoice.seqDigits) = some [digits] ∧
      Nat.ofDigitChars 10 digits 0 = 42 := by
  have hparse : parseRunningNumberFormat invoiceFormat august = .ok parsedInvoice := by
    decide +kernel
  have hone : seqTokens invoiceFormat august = 1 := by decide +kernel
  have hno : ¬ DatedSeq invoiceFormat august := (seqTokens_eq_one_iff hparse).mp hone
  exact ⟨hparse, by decide, (exec_formatRunningNumber_iff hparse (by decide) (by decide)).mpr hno⟩

/-- The format `{SEQ:{DD}}-{SEQ:3}`. -/
def datedFormat : Text := "\x7bSEQ:\x7bDD\x7d\x7d-\x7bSEQ:3\x7d".toList

def parsedDated : ParsedRunningNumberFormat :=
  ⟨"\x7bSEQ:06\x7d-".toList.map .char ++ [.digits 3], 3⟩

/-- The number printed for sequence 1 is `001-001`, and the expression looks for the text
`{SEQ:06}-` and three digits. -/
theorem dated_not_read_back :
    parseRunningNumberFormat datedFormat august = .ok parsedDated ∧
    (1 ≤ 1 ∧ 1 < 10 ^ parsedDated.seqDigits) ∧
    formatRunningNumber datedFormat august 1 parsedDated.seqDigits = "001-001".toList ∧
    ¬ ∃ digits,
      RegExp.exec parsedDated.regex
        (formatRunningNumber datedFormat august 1 parsedDated.seqDigits) = some [digits] ∧
      Nat.ofDigitChars 10 digits 0 = 1 := by
  have hexec : RegExp.exec parsedDated.regex
      (formatRunningNumber datedFormat august 1 parsedDated.seqDigits) = none := by
    decide +kernel
  refine ⟨by decide +kernel, by decide, by decide +kernel, ?_⟩
  rintro ⟨digits, h, -⟩
  rw [hexec] at h
  cases h

end ErpApi.Report
