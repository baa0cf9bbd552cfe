import ErpApi.Iam.PermissionGuard
import ErpApi.Iam.PermissionSyncRun

set_option autoImplicit false

/-! # Scanning the sources for permissions

The catalog's api plane is what `scanApiPermissions` finds: it looks for `@RequirePermission(` in
the source files of every app, takes the text up to the closing parenthesis, and reads a quoted
permission at the front of it. The guard enforces any literal the decorator is given, also
`item-group:view`; the scan reads a literal only if it is one pair of words.

`discovered_iff` says which permissions the scan finds: the pairs of words that a source file
declares in a place where the scan looks. It looks at a call unless it takes the call for a part
of the arguments of an earlier one, and it reads those by parentheses and quotes (`Balanced`).
-/

namespace ErpApi.PermissionSync

/-! ## The files of an app -/

/-- A directory, entry by entry as `readdirSync` lists it. -/
inductive Directory where
  | nil
  | file (entry content : String) (rest : Directory)
  | dir (entry : String) (entries rest : Directory)

/-- The directories in it. -/
def Directory.dirs : Directory → List (String × Directory)
  | .nil => []
  | .file _ _ rest => rest.dirs
  | .dir entry entries rest => (entry, entries) :: rest.dirs

/-- The entry of that name, if it is a directory. -/
def Directory.subdirectory (name : String) : Directory → Option Directory
  | .nil => none
  | .file entry _ rest => if entry = name then none else rest.subdirectory name
  | .dir entry entries rest => if entry = name then some entries else rest.subdirectory name

def isSourceFile (entry : String) : Bool :=
  ".ts".toList.isSuffixOf entry.toList && !".spec.ts".toList.isSuffixOf entry.toList

def isSkipped (entry : String) : Bool := entry == "node_modules" || entry == "dist"

/-- The contents of the files that `walk` lists. -/
def walk (accepts : String → Bool) : Directory → List String
  | .nil => []
  | .file entry content rest =>
      if !isSkipped entry && accepts entry then content :: walk accepts rest
      else walk accepts rest
  | .dir entry entries rest =>
      if isSkipped entry then walk accepts rest else walk accepts entries ++ walk accepts rest

/-! ## The text of a call -/

def singleQuote : Char := Char.ofNat 39
def doubleQuote : Char := Char.ofNat 34
def backQuote : Char := Char.ofNat 96
def backslash : Char := Char.ofNat 92

def isQuote (c : Char) : Bool := c == singleQuote || c == doubleQuote || c == backQuote

def DECORATOR_CALL_START : List Char := "@RequirePermission(".toList

/-- The loop of `extractBalancedArgs`, on the text from `content[i]` on; `previous` is
`content[i - 1]`. The result is the text up to the parenthesis that closes the call. -/
def extractBalancedArgs (previous : Char) (quote : Option Char) (depth : Nat) :
    List Char → List Char
  | [] => []
  | char :: rest =>
      match quote with
      | some q =>
          if char = q ∧ previous ≠ backslash then char :: extractBalancedArgs char none depth rest
          else char :: extractBalancedArgs char (some q) depth rest
      | none =>
          if isQuote char then char :: extractBalancedArgs char (some char) depth rest
          else if char = '(' then char :: extractBalancedArgs char none (depth + 1) rest
          else if char = ')' then
            if depth - 1 = 0 then [] else char :: extractBalancedArgs char none (depth - 1) rest
          else char :: extractBalancedArgs char none depth rest

/-- The loop over one file: the arguments of the calls, in order. The first argument counts the
characters up to `searchFrom`. -/
def decoratorCalls : Nat → List Char → List (List Char)
  | _, [] => []
  | skip + 1, _ :: rest => decoratorCalls skip rest
  | 0, c :: rest =>
      if DECORATOR_CALL_START.isPrefixOf (c :: rest) then
        let args := extractBalancedArgs '(' none 1 (rest.drop (DECORATOR_CALL_START.length - 1))
        args :: decoratorCalls (DECORATOR_CALL_START.length + args.length) rest
      else decoratorCalls 0 rest

/-! ## The arguments of a call -/

def isLineTerminator (c : Char) : Bool := [0x0A, 0x0D, 0x2028, 0x2029].contains c.toNat

def isWordChar (c : Char) : Bool := c.isAlphanum || c == '_'

/-- A field's colon and quoted value at the front of the text. The value stays on its line. -/
def fieldValue (text : List Char) : Option String :=
  match text.dropWhile Js.isSpace with
  | [] => none
  | colon :: rest =>
      if colon ≠ ':' then none
      else
        match rest.dropWhile Js.isSpace with
        | [] => none
        | quote :: rest =>
            if quote = singleQuote ∨ quote = doubleQuote then
              let value := rest.takeWhile fun c => c != quote && !isLineTerminator c
              if (rest.drop value.length).head? = some quote then some (String.ofList value)
              else none
            else none

/-- The first place where the field stands, at the start of a word, with a quoted value. -/
def nameField (field : List Char) : Bool → List Char → Option String
  | _, [] => none
  | afterWord, c :: rest =>
      if !afterWord && field.isPrefixOf (c :: rest) then
        (fieldValue ((c :: rest).drop field.length)).or (nameField field (isWordChar c) rest)
      else nameField field (isWordChar c) rest

def parseName (remainder : List Char) : Option Name :=
  match nameField "th".toList false remainder, nameField "en".toList false remainder with
  | some th, some en => some ⟨th, en⟩
  | _, _ => none

def parseDecoratorCall (args : List Char) : Option (PermissionString × Option Name) :=
  match args.dropWhile Js.isSpace with
  | [] => none
  | quote :: rest =>
      if quote = singleQuote ∨ quote = doubleQuote then
        let literal := rest.takeWhile (· != quote)
        match rest.dropWhile (· != quote) with
        | [] => none
        | _ :: remainder =>
            if h : (execPermissionString (String.ofList literal)).isSome = true then
              some (⟨String.ofList literal, h⟩, parseName remainder)
            else none
      else none

/-- The resource and the action that the catalog stores for a permission. -/
def derivePermissionParts (permission : String) : Option (String × String) :=
  match execPermissionString permission with
  | none => none
  | some (head, action) =>
      if head ≠ "page" then some (head, action)
      else
        let replaced := if "view_".toList.isPrefixOf action.toList then
            String.ofList (action.toList.drop "view_".length) else action
        let slug := if replaced = "" then action else replaced
        some ("page_" ++ slug, action)

/-! ## The scan -/

/-- The entry that the scan records for a call. -/
def scannedCall (service : String) (args : List Char) : Option ScannedPermission := do
  let (permission, name) ← parseDecoratorCall args
  let parts ← derivePermissionParts permission.text
  return { service, permission, resource := parts.1, action := parts.2, name, plane := .api }

/-- What the scan records for an app, in order. -/
def scanApp (service : String) (app : Directory) : List ScannedPermission :=
  match app.subdirectory "src" with
  | none => []
  | some srcDir =>
      (walk isSourceFile srcDir).flatMap fun content =>
        (decoratorCalls 0 content.toList).filterMap (scannedCall service)

/-- Everything that the scan records, in order. -/
def recorded (apps : Directory) : List ScannedPermission :=
  apps.dirs.flatMap fun app => scanApp app.1 app.2

/-- The map `found`: its entries under their keys. -/
abbrev Found := Table ScannedPermission fun p => keyText p.pair

def Found.set (found : Found) (p : ScannedPermission) : Found := found.put p

def scanApiPermissions (apps : Directory) : List ScannedPermission :=
  ((recorded apps).foldl Found.set ⟨[], List.nodup_nil⟩).rows

/-! ## Arguments as the scan reads them -/

/-- The text between an opening quote and the quote that the scan takes for the closing one; a
quote in it follows a backslash, and the closing one does not. -/
def Inside (quote : Char) : Char → List Char → Prop
  | previous, [] => previous ≠ backslash
  | previous, c :: text => (c = quote → previous = backslash) ∧ Inside quote c text

/-- A character that opens or closes nothing. -/
def isOther (c : Char) : Bool := !isQuote c && c != '(' && c != ')'

/-- Text whose string literals are closed and whose parentheses close `depth` more than they
open. -/
inductive Balanced : Nat → List Char → Prop
  | nil : Balanced 0 []
  | other {depth : Nat} {text : List Char} (c : Char) : isOther c = true → Balanced depth text →
      Balanced depth (c :: text)
  | literal {depth : Nat} {text : List Char} (quote : Char) (body : List Char) :
      isQuote quote = true → Inside quote quote body → Balanced depth text →
      Balanced depth (quote :: (body ++ quote :: text))
  | opening {depth : Nat} {text : List Char} : Balanced (depth + 1) text →
      Balanced depth ('(' :: text)
  | closing {depth : Nat} {text : List Char} : Balanced depth text →
      Balanced (depth + 1) (')' :: text)

/-- A call and the text since the last one. -/
structure DecoratorCall where
  before : List Char
  noCall : ¬ DECORATOR_CALL_START <:+: before
  args : List Char
  balanced : Balanced 0 args

def DecoratorCall.text (call : DecoratorCall) : List Char :=
  call.before ++ (DECORATOR_CALL_START ++ (call.args ++ [')']))

/-! ## What the scan reads -/

/-- Outside a literal the last character does not matter. -/
theorem extract_previous (previous previous' : Char) (depth : Nat) (l : List Char) :
    extractBalancedArgs previous none depth l = extractBalancedArgs previous' none depth l := by
  cases l with
  | nil => rfl
  | cons c l => rfl

theorem extract_open (previous : Char) (depth : Nat) (l : List Char) :
    extractBalancedArgs previous none depth ('(' :: l) =
      '(' :: extractBalancedArgs previous none (depth + 1) l := by
  rw [extract_previous previous '(' (depth + 1)]
  rfl

theorem extract_close (previous : Char) (depth : Nat) (l : List Char) :
    extractBalancedArgs previous none (depth + 2) (')' :: l) =
      ')' :: extractBalancedArgs previous none (depth + 1) l := by
  rw [extract_previous previous ')' (depth + 1)]
  rfl

theorem extract_end (previous : Char) (l : List Char) :
    extractBalancedArgs previous none 1 (')' :: l) = [] := rfl

/-- Any other character is passed over. -/
theorem extract_other {c : Char} (h : isOther c = true) (previous : Char) (depth : Nat)
    (l : List Char) :
    extractBalancedArgs previous none depth (c :: l) =
      c :: extractBalancedArgs previous none depth l := by
  simp only [isOther, Bool.and_eq_true, Bool.not_eq_true', bne_iff_ne] at h
  obtain ⟨⟨hquote, hopen⟩, hclose⟩ := h
  rw [extractBalancedArgs]
  simp only [hquote, hopen, hclose, if_false, Bool.false_eq_true, extract_previous c previous]

theorem extract_inside {quote : Char} (depth : Nat) (rest : List Char) :
    ∀ (body : List Char) (previous : Char), Inside quote previous body →
      extractBalancedArgs previous (some quote) depth (body ++ quote :: rest) =
        body ++ quote :: extractBalancedArgs quote none depth rest := by
  intro body
  induction body with
  | nil =>
      intro previous hinside
      exact if_pos ⟨rfl, hinside⟩
  | cons c body ih =>
      rintro previous ⟨hc, hinside⟩
      have hstay : ¬ (c = quote ∧ previous ≠ backslash) := fun h => h.2 (hc h.1)
      calc extractBalancedArgs previous (some quote) depth (c :: (body ++ quote :: rest))
          = c :: extractBalancedArgs c (some quote) depth (body ++ quote :: rest) := if_neg hstay
        _ = c :: (body ++ quote :: extractBalancedArgs quote none depth rest) := by
            rw [ih c hinside]

/-- A whole literal is passed over. -/
theorem extract_literal {quote : Char} {body : List Char} (hquote : isQuote quote = true)
    (hinside : Inside quote quote body) (previous : Char) (depth : Nat) (rest : List Char) :
    extractBalancedArgs previous none depth (quote :: (body ++ quote :: rest)) =
      quote :: (body ++ quote :: extractBalancedArgs previous none depth rest) := by
  calc extractBalancedArgs previous none depth (quote :: (body ++ quote :: rest))
      = quote :: extractBalancedArgs quote (some quote) depth (body ++ quote :: rest) :=
        if_pos hquote
    _ = quote :: (body ++ quote :: extractBalancedArgs previous none depth rest) := by
        rw [extract_inside depth rest body quote hinside, extract_previous quote previous]

/-- The loop ends at the parenthesis after balanced text. -/
theorem extract_balanced {depth : Nat} {args : List Char} (h : Balanced depth args)
    (previous : Char) (rest : List Char) :
    extractBalancedArgs previous none (depth + 1) (args ++ ')' :: rest) = args := by
  induction h with
  | nil => exact extract_end previous rest
  | other c hother _ ih => rw [List.cons_append, extract_other hother, ih]
  | literal quote body hquote hinside _ ih =>
      rw [List.cons_append, List.append_assoc, List.cons_append,
        extract_literal hquote hinside, ih]
  | opening _ ih => rw [List.cons_append, extract_open, ih]
  | closing _ ih => rw [List.cons_append, extract_close, ih]

/-- A literal is closed, or the loop runs to the end of the file in it. -/
theorem inside_or_open (quote : Char) :
    ∀ (l : List Char) (previous : Char),
      (∃ body rest, l = body ++ quote :: rest ∧ Inside quote previous body) ∨
        ∀ depth, extractBalancedArgs previous (some quote) depth l = l := by
  intro l
  induction l with
  | nil => exact fun previous => .inr fun depth => rfl
  | cons c l ih =>
      intro previous
      by_cases hclose : c = quote ∧ previous ≠ backslash
      · exact .inl ⟨[], l, by rw [hclose.1, List.nil_append], hclose.2⟩
      · have hc : c = quote → previous = backslash := by
          intro hc
          by_contra hprevious
          exact hclose ⟨hc, hprevious⟩
        rcases ih c with ⟨body, rest, hl, hinside⟩ | hopen
        · exact .inl ⟨c :: body, rest, by rw [hl, List.cons_append], hc, hinside⟩
        · refine .inr fun depth => ?_
          calc extractBalancedArgs previous (some quote) depth (c :: l)
              = c :: extractBalancedArgs c (some quote) depth l := if_neg hclose
            _ = c :: l := by rw [hopen depth]

/-- The arguments are balanced, or the loop runs to the end of the file. -/
theorem balanced_or_open (n : Nat) :
    ∀ (l : List Char) (depth : Nat) (previous : Char), l.length ≤ n →
      (∃ args rest, l = args ++ ')' :: rest ∧ Balanced depth args) ∨
        extractBalancedArgs previous none (depth + 1) l = l := by
  induction n with
  | zero =>
      intro l depth previous hlength
      obtain rfl := List.length_eq_zero_iff.mp (Nat.le_zero.mp hlength)
      exact .inr rfl
  | succ n ih =>
      intro l depth previous hlength
      cases l with
      | nil => exact .inr rfl
      | cons c l =>
          rw [List.length_cons] at hlength
          have hrest := fun depth => ih l depth previous (by omega)
          by_cases hquote : isQuote c = true
          · rcases inside_or_open c l c with ⟨body, rest, hl, hinside⟩ | hopen
            · have hshort : rest.length ≤ n := by
                rw [hl, List.length_append, List.length_cons] at hlength
                omega
              rcases ih rest depth previous hshort with ⟨args, rest', hrest', hargs⟩ | hopen
              · refine .inl ⟨c :: (body ++ c :: args), rest', ?_,
                  .literal c body hquote hinside hargs⟩
                rw [hl, hrest']
                simp
              · refine .inr ?_
                rw [hl, extract_literal hquote hinside, hopen]
            · refine .inr ?_
              calc extractBalancedArgs previous none (depth + 1) (c :: l)
                  = c :: extractBalancedArgs c (some c) (depth + 1) l := if_pos hquote
                _ = c :: l := by rw [hopen]
          · by_cases hopening : c = '('
            · subst hopening
              rcases hrest (depth + 1) with ⟨args, rest, hl, hargs⟩ | hopen
              · exact .inl ⟨'(' :: args, rest, by rw [hl, List.cons_append], .opening hargs⟩
              · exact .inr (by rw [extract_open, hopen])
            · by_cases hclosing : c = ')'
              · subst hclosing
                cases depth with
                | zero => exact .inl ⟨[], l, rfl, .nil⟩
                | succ depth =>
                    rcases hrest depth with ⟨args, rest, hl, hargs⟩ | hopen
                    · exact .inl ⟨')' :: args, rest, by rw [hl, List.cons_append], .closing hargs⟩
                    · exact .inr (by rw [extract_close, hopen])
              · have hother : isOther c = true := by simp [isOther, hquote, hopening, hclosing]
                rcases hrest depth with ⟨args, rest, hl, hargs⟩ | hopen
                · exact .inl ⟨c :: args, rest, by rw [hl, List.cons_append],
                    .other c hother hargs⟩
                · exact .inr (by rw [extract_other hother, hopen])

/-- What is taken for the arguments stands at the front of the text. -/
theorem extract_front (l : List Char) :
    ∃ rest, l = extractBalancedArgs '(' none 1 l ++ rest := by
  rcases balanced_or_open l.length l 0 '(' (Nat.le_refl _) with ⟨args, rest, hl, hargs⟩ | hopen
  · rw [hl, extract_balanced hargs]
    exact ⟨_, rfl⟩
  · rw [Nat.zero_add] at hopen
    rw [hopen]
    exact ⟨[], (List.append_nil l).symm⟩

theorem decoratorCalls_skip (n : Nat) (l : List Char) :
    decoratorCalls n l = decoratorCalls 0 (l.drop n) := by
  induction l generalizing n with
  | nil =>
      rw [List.drop_nil]
      cases n with
      | zero => rfl
      | succ n => rfl
  | cons c l ih =>
      cases n with
      | zero => rfl
      | succ n => exact ih n

theorem start_eq : DECORATOR_CALL_START = '@' :: "RequirePermission(".toList := by decide

/-- The search finds the call where it is, and goes on after its closing parenthesis. -/
theorem decoratorCalls_call (l : List Char) :
    decoratorCalls 0 (DECORATOR_CALL_START ++ l) = extractBalancedArgs '(' none 1 l ::
      decoratorCalls 0 (l.drop ((extractBalancedArgs '(' none 1 l).length + 1)) := by
  have hstarts : DECORATOR_CALL_START.isPrefixOf ('@' :: ("RequirePermission(".toList ++ l)) =
      true := by
    rw [List.isPrefixOf_iff_prefix, ← List.cons_append, ← start_eq]
    exact List.prefix_append _ _
  have hdrop : ∀ n, ("RequirePermission(".toList ++ l).drop (DECORATOR_CALL_START.length - 1 + n) =
      l.drop n := by
    intro n
    rw [start_eq, List.length_cons, Nat.add_sub_cancel, ← List.drop_drop, List.drop_left]
  have hargs := hdrop 0
  have hrest := hdrop ((extractBalancedArgs '(' none 1 l).length + 1)
  have hskip : DECORATOR_CALL_START.length - 1 +
        ((extractBalancedArgs '(' none 1 l).length + 1) =
      DECORATOR_CALL_START.length + (extractBalancedArgs '(' none 1 l).length := by
    rw [start_eq, List.length_cons]
    omega
  rw [Nat.add_zero, List.drop_zero] at hargs
  rw [hskip] at hrest
  conv_lhs => rw [start_eq, List.cons_append, decoratorCalls, if_pos hstarts]
  show extractBalancedArgs '(' none 1 _ :: _ = _
  rw [hargs, decoratorCalls_skip (DECORATOR_CALL_START.length + _), hrest]

/-- The start of a call has no second `@`, so none begins in the text before a call. -/
theorem decoratorCalls_before {before rest : List Char} (h : ¬ DECORATOR_CALL_START <:+: before)
    (hrest : DECORATOR_CALL_START <+: rest) :
    decoratorCalls 0 (before ++ rest) = decoratorCalls 0 rest := by
  induction before with
  | nil => rfl
  | cons c before ih =>
      have hno : ¬ DECORATOR_CALL_START <+: c :: (before ++ rest) := by
        rintro ⟨after, hafter⟩
        rw [← List.cons_append] at hafter
        obtain ⟨between, hbefore, -⟩ | ⟨between, hstart, hbetween⟩ :=
          List.append_eq_append_iff.mp hafter
        · exact h ⟨[], between, hbefore.symm⟩
        · cases between with
          | nil =>
              rw [List.append_nil] at hstart
              exact h ⟨[], [], by rw [hstart, List.append_nil, List.nil_append]⟩
          | cons d between =>
              obtain ⟨l, hl⟩ := hrest
              rw [hbetween, start_eq, List.cons_append, List.cons_append] at hl
              obtain rfl : '@' = d := (List.cons.inj hl).1
              rw [start_eq, List.cons_append] at hstart
              have hmem : '@' ∈ before ++ '@' :: between :=
                List.mem_append_right _ List.mem_cons_self
              rw [← (List.cons.inj hstart).2] at hmem
              revert hmem
              decide
      have hstep : DECORATOR_CALL_START.isPrefixOf (c :: (before ++ rest)) = false := by
        rw [← Bool.not_eq_true, List.isPrefixOf_iff_prefix]
        exact hno
      rw [List.cons_append, decoratorCalls, hstep]
      exact ih fun hinside => h (hinside.trans (List.suffix_cons c before).isInfix)

theorem DecoratorCall.decoratorCalls_text (call : DecoratorCall) (rest : List Char) :
    decoratorCalls 0 (call.text ++ rest) = call.args :: decoratorCalls 0 rest := by
  have hargs : extractBalancedArgs '(' none 1 (call.args ++ ')' :: rest) = call.args :=
    extract_balanced call.balanced '(' rest
  calc decoratorCalls 0 (call.text ++ rest)
      = decoratorCalls 0 (call.before ++ (DECORATOR_CALL_START ++ (call.args ++ ')' :: rest))) := by
        simp [DecoratorCall.text]
    _ = decoratorCalls 0 (DECORATOR_CALL_START ++ (call.args ++ ')' :: rest)) :=
        decoratorCalls_before call.noCall (List.prefix_append _ _)
    _ = call.args :: decoratorCalls 0 rest := by
        rw [decoratorCalls_call, hargs, ← List.drop_drop, List.drop_left, List.drop_one,
          List.tail_cons]

/-- The scan of a text begins with the arguments of its calls, in order. -/
theorem decoratorCalls_calls (calls : List DecoratorCall) (rest : List Char) :
    decoratorCalls 0 (calls.flatMap DecoratorCall.text ++ rest) =
      calls.map DecoratorCall.args ++ decoratorCalls 0 rest := by
  induction calls with
  | nil => rfl
  | cons call calls ih =>
      rw [List.flatMap_cons, List.append_assoc, call.decoratorCalls_text, ih]
      rfl

/-- The first call in a text. -/
theorem first_call (l : List Char) :
    (∃ before rest, l = before ++ (DECORATOR_CALL_START ++ rest) ∧
      ¬ DECORATOR_CALL_START <:+: before) ∨ decoratorCalls 0 l = [] := by
  induction l with
  | nil => exact .inr rfl
  | cons c l ih =>
      by_cases hstarts : DECORATOR_CALL_START <+: c :: l
      · obtain ⟨rest, hrest⟩ := hstarts
        exact .inl ⟨[], rest, hrest.symm, by decide⟩
      · have hno : DECORATOR_CALL_START.isPrefixOf (c :: l) = false := by
          rw [← Bool.not_eq_true, List.isPrefixOf_iff_prefix]
          exact hstarts
        rcases ih with ⟨before, rest, hl, hbefore⟩ | hnone
        · refine .inl ⟨c :: before, rest, by rw [hl, List.cons_append], ?_⟩
          intro hinside
          rcases List.infix_cons_iff.mp hinside with hfront | hlater
          · apply hstarts
            rw [hl, ← List.cons_append]
            exact hfront.trans (List.prefix_append _ _)
          · exact hbefore hlater
        · refine .inr ?_
          rw [decoratorCalls, hno]
          exact hnone

/-- What the scan reads are the arguments of a call, and those of the calls before it are
balanced. -/
theorem calls_of_mem (n : Nat) :
    ∀ (l args : List Char), l.length ≤ n → args ∈ decoratorCalls 0 l →
      ∃ (calls : List DecoratorCall) (before rest : List Char),
        ¬ DECORATOR_CALL_START <:+: before ∧ args = extractBalancedArgs '(' none 1 rest ∧
        l = calls.flatMap DecoratorCall.text ++ (before ++ (DECORATOR_CALL_START ++ rest)) := by
  induction n with
  | zero =>
      intro l args hlength hargs
      obtain rfl := List.length_eq_zero_iff.mp (Nat.le_zero.mp hlength)
      cases hargs
  | succ n ih =>
      intro l args hlength hargs
      rcases first_call l with ⟨before, rest, hl, hbefore⟩ | hnone
      · rw [hl, decoratorCalls_before hbefore (List.prefix_append _ _),
          decoratorCalls_call] at hargs
        rcases List.mem_cons.mp hargs with hargs | hargs
        · exact ⟨[], before, rest, hbefore, hargs, hl⟩
        · rcases balanced_or_open rest.length rest 0 '(' (Nat.le_refl _) with
            ⟨first, later, hrest, hbalanced⟩ | hopen
          · -- The search goes on after the first call.
            have hfirst : extractBalancedArgs '(' none 1 rest = first := by
              rw [hrest]
              exact extract_balanced hbalanced '(' later
            have hshort : later.length ≤ n := by
              rw [hl, hrest] at hlength
              simp only [List.length_append, List.length_cons] at hlength
              omega
            rw [hfirst, hrest, ← List.drop_drop, List.drop_left, List.drop_one,
              List.tail_cons] at hargs
            obtain ⟨calls, before', rest', hbefore', hargs', hlater⟩ := ih later args hshort hargs
            refine ⟨⟨before, hbefore, first, hbalanced⟩ :: calls, before', rest', hbefore',
              hargs', ?_⟩
            rw [hl, hrest, hlater]
            simp [DecoratorCall.text]
          · rw [Nat.zero_add] at hopen
            rw [hopen, List.drop_eq_nil_of_le (by omega)] at hargs
            cases hargs
      · rw [hnone] at hargs
        cases hargs

/-! ## A permission at the front of the arguments -/

theorem PermissionString.parts_isWord (permission : PermissionString) :
    isWord permission.parts.1 = true ∧ isWord permission.parts.2 = true := by
  have hparts : execPermissionString permission.text = some permission.parts := by
    rw [PermissionString.parts, Option.some_get]
  rw [execPermissionString, permission.split_text] at hparts
  simp only at hparts
  split at hparts
  · rename_i hwords
    exact Bool.and_eq_true_iff.mp hwords
  · cases hparts

/-- A permission has no quote and no backslash. -/
theorem PermissionString.text_plain (permission : PermissionString) :
    ∀ c ∈ permission.text.toList, isQuote c = false ∧ c ≠ backslash := by
  have hword : ∀ {text : String}, isWord text = true → ∀ c ∈ text.toList,
      isQuote c = false ∧ c ≠ backslash := by
    intro text htext c hc
    simp only [isWord, Bool.and_eq_true, List.all_eq_true] at htext
    have hclass : (c.isAlphanum || c == '_') = true := by simpa using htext.2 c hc
    have hother : ∀ d, (d.isAlphanum || d == '_') = false → c ≠ d := by
      rintro d hd rfl
      rw [hd] at hclass
      cases hclass
    have hquote : isQuote c = false := by
      simp [isQuote, hother singleQuote (by decide), hother doubleQuote (by decide),
        hother backQuote (by decide)]
    exact ⟨hquote, hother backslash (by decide)⟩
  intro c hc
  rw [permission.toList_text, List.mem_append, List.mem_cons] at hc
  obtain ⟨hresource, haction⟩ := permission.parts_isWord
  rcases hc with hc | rfl | hc
  · exact hword hresource c hc
  · decide
  · exact hword haction c hc

/-- The text has the decorator with the literal in quotes right after the parenthesis, in a place
where the scan looks: the arguments of the calls before it are balanced. -/
def Declares (content literal : String) : Prop :=
  ∃ (calls : List DecoratorCall) (before spaces : List Char) (quote : Char) (after : List Char),
    ¬ DECORATOR_CALL_START <:+: before ∧ (∀ c ∈ spaces, Js.isSpace c = true) ∧
    (quote = singleQuote ∨ quote = doubleQuote) ∧
    content.toList = calls.flatMap DecoratorCall.text ++ (before ++ (DECORATOR_CALL_START ++
      (spaces ++ quote :: (literal.toList ++ quote :: after))))

theorem extract_spaces {spaces : List Char} (h : ∀ c ∈ spaces, Js.isSpace c = true)
    (previous : Char) (depth : Nat) (rest : List Char) :
    extractBalancedArgs previous none depth (spaces ++ rest) =
      spaces ++ extractBalancedArgs previous none depth rest := by
  induction spaces with
  | nil => rfl
  | cons c spaces ih =>
      have hspace := h c List.mem_cons_self
      have hother : isOther c = true := by
        by_contra hc
        simp only [isOther, isQuote, Bool.and_eq_true, Bool.not_eq_true', bne_iff_ne,
          Bool.or_eq_false_iff, beq_eq_false_iff_ne, not_and_or, not_not] at hc
        rcases hc with (((rfl | rfl) | rfl) | rfl) | rfl <;> revert hspace <;> decide
      rw [List.cons_append, extract_other hother, ih fun c hc => h c (List.mem_cons_of_mem _ hc),
        List.cons_append]

theorem isQuote_of_or {quote : Char} (h : quote = singleQuote ∨ quote = doubleQuote) :
    isQuote quote = true := by
  rcases h with rfl | rfl
  · decide
  · decide

theorem inside_of_plain {quote : Char} : ∀ (body : List Char) (previous : Char),
    previous ≠ backslash → (∀ c ∈ body, c ≠ quote ∧ c ≠ backslash) → Inside quote previous body
  | [], _, hprevious, _ => hprevious
  | c :: body, _, _, hbody => by
      obtain ⟨hquote, hbackslash⟩ := hbody c List.mem_cons_self
      exact ⟨fun hc => absurd hc hquote,
        inside_of_plain body c hbackslash fun d hd => hbody d (List.mem_cons_of_mem _ hd)⟩

/-- The scan reads the permission, whatever follows it. -/
theorem extract_permission (permission : PermissionString) {spaces : List Char} {quote : Char}
    (hspaces : ∀ c ∈ spaces, Js.isSpace c = true)
    (hquote : quote = singleQuote ∨ quote = doubleQuote) (after : List Char) :
    ∃ remainder, extractBalancedArgs '(' none 1
        (spaces ++ quote :: (permission.text.toList ++ quote :: after)) =
      spaces ++ quote :: (permission.text.toList ++ quote :: remainder) := by
  have hisQuote := isQuote_of_or hquote
  have hopen : quote ≠ backslash := by
    rintro rfl
    revert hisQuote
    decide
  have hplain : ∀ c ∈ permission.text.toList, c ≠ quote ∧ c ≠ backslash := by
    intro c hc
    obtain ⟨hno, hbackslash⟩ := permission.text_plain c hc
    refine ⟨?_, hbackslash⟩
    rintro rfl
    rw [hisQuote] at hno
    cases hno
  have hinside := inside_of_plain permission.text.toList quote hopen hplain
  exact ⟨_, by rw [extract_spaces hspaces, extract_literal hisQuote hinside]⟩

theorem parse_permission (permission : PermissionString) {spaces : List Char} {quote : Char}
    (hspaces : ∀ c ∈ spaces, Js.isSpace c = true)
    (hquote : quote = singleQuote ∨ quote = doubleQuote) (remainder : List Char) :
    parseDecoratorCall (spaces ++ quote :: (permission.text.toList ++ quote :: remainder)) =
      some (permission, parseName remainder) := by
  have hfront : ∀ l, (spaces ++ quote :: l).dropWhile Js.isSpace = quote :: l := by
    intro l
    have hquote' : Js.isSpace quote = false := by
      rcases hquote with rfl | rfl
      · decide
      · decide
    rw [List.dropWhile_append_of_pos hspaces, List.dropWhile_cons_of_neg (by simp [hquote'])]
  have hplain : ∀ c ∈ permission.text.toList, (c != quote) = true := by
    intro c hc
    have hno := (permission.text_plain c hc).1
    rw [bne_iff_ne]
    rintro rfl
    rw [isQuote_of_or hquote] at hno
    cases hno
  have hliteral : (permission.text.toList ++ quote :: remainder).takeWhile (· != quote) =
      permission.text.toList := by
    rw [List.takeWhile_append_of_pos hplain, List.takeWhile_cons_of_neg (by simp),
      List.append_nil]
  have hafter : (permission.text.toList ++ quote :: remainder).dropWhile (· != quote) =
      quote :: remainder := by
    rw [List.dropWhile_append_of_pos hplain, List.dropWhile_cons_of_neg (by simp)]
  unfold parseDecoratorCall
  rw [hfront]
  simp only [hquote, if_true, hliteral, hafter, String.ofList_toList]
  exact dif_pos permission.wellFormed

/-- What is parsed stands there. -/
theorem text_of_parse {args : List Char} {permission : PermissionString} {name : Option Name}
    (h : parseDecoratorCall args = some (permission, name)) :
    ∃ (spaces : List Char) (quote : Char) (remainder : List Char),
      (∀ c ∈ spaces, Js.isSpace c = true) ∧ (quote = singleQuote ∨ quote = doubleQuote) ∧
      args = spaces ++ quote :: (permission.text.toList ++ quote :: remainder) := by
  have hspaces : ∀ c ∈ args.takeWhile Js.isSpace, Js.isSpace c = true :=
    List.all_eq_true.mp List.all_takeWhile
  have hargs : args.takeWhile Js.isSpace ++ args.dropWhile Js.isSpace = args :=
    List.takeWhile_append_dropWhile
  unfold parseDecoratorCall at h
  split at h
  · cases h
  · rename_i quote rest hrest
    split at h
    · rename_i hquote
      simp only at h
      split at h
      · cases h
      · rename_i closing remainder hclosing
        split at h
        · obtain rfl := (Prod.mk.inj (Option.some.inj h)).1
          have hnot := List.head?_dropWhile_not (· != quote) rest
          rw [hclosing] at hnot
          obtain rfl : closing = quote := by simpa using hnot
          have hliteral : rest.takeWhile (· != closing) ++ closing :: remainder = rest := by
            rw [← hclosing]
            exact List.takeWhile_append_dropWhile
          refine ⟨args.takeWhile Js.isSpace, closing, remainder, hspaces, hquote, ?_⟩
          rw [String.toList_ofList, hliteral, ← hrest, hargs]
        · cases h
    · cases h

theorem PermissionString.derive_isSome (permission : PermissionString) :
    ∃ parts, derivePermissionParts permission.text = some parts := by
  have hparts : execPermissionString permission.text = some permission.parts := by
    rw [PermissionString.parts, Option.some_get]
  unfold derivePermissionParts
  rw [hparts]
  by_cases hpage : permission.parts.1 ≠ "page"
  · exact ⟨_, if_pos hpage⟩
  · exact ⟨_, if_neg hpage⟩

/-- The scan of the file has an entry for the permission. -/
theorem scanned_of_declares {content : String} {permission : PermissionString}
    (h : Declares content permission.text) (service : String) :
    ∃ p ∈ (decoratorCalls 0 content.toList).filterMap (scannedCall service),
      p.service = service ∧ p.permission = permission := by
  obtain ⟨calls, before, spaces, quote, after, hbefore, hspaces, hquote, hcontent⟩ := h
  obtain ⟨remainder, hargs⟩ := extract_permission permission hspaces hquote after
  obtain ⟨parts, hparts⟩ := permission.derive_isSome
  have hcall : scannedCall service (spaces ++ quote :: (permission.text.toList ++ quote ::
      remainder)) = some ⟨service, permission, parts.1, parts.2, parseName remainder, .api⟩ := by
    simp [scannedCall, parse_permission permission hspaces hquote, hparts]
  refine ⟨_, List.mem_filterMap.mpr ⟨_, ?_, hcall⟩, rfl, rfl⟩
  rw [hcontent, decoratorCalls_calls,
    decoratorCalls_before hbefore (List.prefix_append _ _), decoratorCalls_call, hargs]
  exact List.mem_append_right _ List.mem_cons_self

/-- An entry comes from a declaration in the file. -/
theorem declares_of_scanned {content service : String} {p : ScannedPermission}
    (h : p ∈ (decoratorCalls 0 content.toList).filterMap (scannedCall service)) :
    p.service = service ∧ Declares content p.permission.text := by
  obtain ⟨args, hargs, hcall⟩ := List.mem_filterMap.mp h
  obtain ⟨⟨permission, name⟩, hparse, hderive⟩ := Option.bind_eq_some_iff.mp hcall
  obtain ⟨parts, -, hp⟩ := Option.bind_eq_some_iff.mp hderive
  obtain rfl := Option.some.inj hp
  obtain ⟨spaces, quote, remainder, hspaces, hquote, rfl⟩ := text_of_parse hparse
  obtain ⟨calls, before, rest, hbefore, hextract, hcontent⟩ :=
    calls_of_mem _ content.toList _ (Nat.le_refl _) hargs
  obtain ⟨later, hrest⟩ := extract_front rest
  rw [← hextract] at hrest
  refine ⟨rfl, calls, before, spaces, quote, remainder ++ later, hbefore, hspaces, hquote, ?_⟩
  rw [hcontent, hrest]
  simp

/-! ## The entries of the map -/

theorem Found.lookup_set (found : Found) (p : ScannedPermission) (key : String) :
    (found.set p).lookup key = if keyText p.pair = key then some p else found.lookup key :=
  found.lookup_put p key

/-- A key has the last entry set for it, or the one it had before. -/
theorem Found.lookup_sets (found : Found) (l : List ScannedPermission) (key : String) :
    (∃ q ∈ l, keyText q.pair = key ∧ (l.foldl Found.set found).lookup key = some q) ∨
      (∀ q ∈ l, keyText q.pair ≠ key) ∧
        (l.foldl Found.set found).lookup key = found.lookup key := by
  induction l using List.reverseRecOn with
  | nil => exact .inr ⟨fun q hq => absurd hq List.not_mem_nil, rfl⟩
  | append_singleton l last ih =>
      rw [List.foldl_append, List.foldl_cons, List.foldl_nil, Found.lookup_set]
      by_cases hkey : keyText last.pair = key
      · exact .inl ⟨last, List.mem_append_right _ (List.mem_singleton_self _), hkey,
          if_pos hkey⟩
      · rw [if_neg hkey]
        rcases ih with ⟨q, hq, hqkey, hlookup⟩ | ⟨hno, hlookup⟩
        · exact .inl ⟨q, List.mem_append_left _ hq, hqkey, hlookup⟩
        · refine .inr ⟨fun q hq => ?_, hlookup⟩
          rcases List.mem_append.mp hq with hq | hq
          · exact hno q hq
          · rw [List.mem_singleton.mp hq]
            exact hkey

theorem recorded_of_mem {apps : Directory} {p : ScannedPermission}
    (h : p ∈ scanApiPermissions apps) : p ∈ recorded apps := by
  have hlookup : ((recorded apps).foldl Found.set ⟨[], List.nodup_nil⟩).lookup (keyText p.pair) =
      some p := Table.lookup_key h
  rcases Found.lookup_sets ⟨[], List.nodup_nil⟩ (recorded apps) (keyText p.pair) with
    ⟨q, hq, -, hlookup'⟩ | ⟨-, hlookup'⟩
  · rw [hlookup] at hlookup'
    rwa [Option.some.inj hlookup']
  · rw [hlookup] at hlookup'
    cases hlookup'

theorem PermissionString.ext_text {p q : PermissionString} (h : p.text = q.text) : p = q := by
  cases p with
  | mk text wellFormed =>
      cases q with
      | mk text' wellFormed' =>
          obtain rfl : text = text' := h
          rfl

/-- What is recorded is in the result, or a later record of the same permission. -/
theorem mem_of_recorded {apps : Directory} {p : ScannedPermission} (h : p ∈ recorded apps) :
    ∃ q ∈ scanApiPermissions apps, q.service = p.service ∧ q.permission = p.permission := by
  rcases Found.lookup_sets ⟨[], List.nodup_nil⟩ (recorded apps) (keyText p.pair) with
    ⟨q, -, hkey, hlookup⟩ | ⟨hno, -⟩
  · obtain ⟨hservice, htext⟩ := Prod.mk.inj (keyText_injective q.permission p.permission hkey)
    exact ⟨q, (Table.lookup_eq_some.mp hlookup).1, hservice, PermissionString.ext_text htext⟩
  · exact absurd rfl (hno p h)

/-! ## The files that are read -/

/-- The file stands at the path in the directory. -/
inductive Directory.Holds : Directory → List String → String → Prop
  | file (entry content : String) (rest : Directory) :
      Holds (.file entry content rest) [entry] content
  | dir (entry : String) (rest : Directory) {entries : Directory} {path : List String}
      {content : String} : Holds entries path content →
      Holds (.dir entry entries rest) (entry :: path) content
  | afterFile (entry other : String) {rest : Directory} {path : List String} {content : String} :
      Holds rest path content → Holds (.file entry other rest) path content
  | afterDir (entry : String) (entries : Directory) {rest : Directory} {path : List String}
      {content : String} : Holds rest path content → Holds (.dir entry entries rest) path content

theorem Directory.Holds.path_ne_nil {d : Directory} {path : List String} {content : String}
    (h : d.Holds path content) : path ≠ [] := by
  induction h with
  | file entry content rest => exact List.cons_ne_nil _ _
  | dir entry rest h ih => exact List.cons_ne_nil _ _
  | afterFile entry other h ih => exact ih
  | afterDir entry entries h ih => exact ih

/-- The files that are read are those outside `node_modules` and `dist`. -/
theorem mem_walk {d : Directory} {content : String} {accepts : String → Bool} :
    content ∈ walk accepts d ↔ ∃ path, d.Holds path content ∧ path.getLast?.any accepts = true ∧
      ∀ entry ∈ path, isSkipped entry = false := by
  constructor
  · intro h
    induction d with
    | nil => cases h
    | file entry other rest ih =>
        rw [walk] at h
        split at h
        · rename_i hentry
          obtain ⟨hskip, haccepts⟩ : isSkipped entry = false ∧ accepts entry = true := by
            simpa using hentry
          rcases List.mem_cons.mp h with rfl | h
          · refine ⟨[entry], .file entry content rest, haccepts, ?_⟩
            intro e he
            rw [List.mem_singleton.mp he]
            exact hskip
          · obtain ⟨path, hfile, hpath⟩ := ih h
            exact ⟨path, .afterFile entry other hfile, hpath⟩
        · obtain ⟨path, hfile, hpath⟩ := ih h
          exact ⟨path, .afterFile entry other hfile, hpath⟩
    | dir entry entries rest ihEntries ih =>
        rw [walk] at h
        split at h
        · obtain ⟨path, hfile, hpath⟩ := ih h
          exact ⟨path, .afterDir entry entries hfile, hpath⟩
        · rename_i hskip
          rcases List.mem_append.mp h with h | h
          · obtain ⟨path, hfile, hname, hpath⟩ := ihEntries h
            refine ⟨entry :: path, .dir entry rest hfile, ?_, ?_⟩
            · rw [List.getLast?_cons_of_ne_nil hfile.path_ne_nil]
              exact hname
            · intro e he
              rcases List.mem_cons.mp he with rfl | he
              · simpa using hskip
              · exact hpath e he
          · obtain ⟨path, hfile, hpath⟩ := ih h
            exact ⟨path, .afterDir entry entries hfile, hpath⟩
  · rintro ⟨path, hfile, hname, hskip⟩
    induction hfile with
    | file entry content rest =>
        have hentry : isSkipped entry = false := hskip entry List.mem_cons_self
        have haccepts : accepts entry = true := hname
        simp [walk, hentry, haccepts]
    | dir entry rest hfile ih =>
        have hentry : isSkipped entry = false := hskip entry List.mem_cons_self
        rw [List.getLast?_cons_of_ne_nil hfile.path_ne_nil] at hname
        have hmem := ih hname fun e he => hskip e (List.mem_cons_of_mem _ he)
        simp [walk, hentry, hmem]
    | afterFile entry other hfile ih =>
        have hmem := ih hname hskip
        rw [walk]
        split
        · exact List.mem_cons_of_mem _ hmem
        · exact hmem
    | afterDir entry entries hfile ih =>
        have hmem := ih hname hskip
        rw [walk]
        split
        · exact hmem
        · exact List.mem_append_right _ hmem

/-! ## What is discovered -/

/-- The scan has an entry for the service with exactly this permission. -/
def Discovered (apps : Directory) (service literal : String) : Prop :=
  ∃ p ∈ scanApiPermissions apps, p.service = service ∧ p.permission.text = literal

/-- A source file under the `src` folder of the service declares the literal; `skips` says which
directories do not count. -/
def DeclaredIn (skips : String → Bool) (apps : Directory) (service literal : String) : Prop :=
  ∃ (app srcDir : Directory) (path : List String) (content : String),
    (service, app) ∈ apps.dirs ∧ app.subdirectory "src" = some srcDir ∧
    srcDir.Holds path content ∧ path.getLast?.any isSourceFile = true ∧
    (∀ entry ∈ path, skips entry = false) ∧ Declares content literal

/-- **The permissions that the scan finds.** -/
theorem discovered_iff (apps : Directory) (service literal : String) :
    Discovered apps service literal ↔
      (execPermissionString literal).isSome = true ∧ DeclaredIn isSkipped apps service literal := by
  constructor
  · rintro ⟨p, hp, hservice, rfl⟩
    refine ⟨p.permission.wellFormed, ?_⟩
    obtain ⟨⟨service', app⟩, happ, hscanned⟩ := List.mem_flatMap.mp (recorded_of_mem hp)
    rw [scanApp] at hscanned
    cases hsrc : app.subdirectory "src" with
    | none =>
        rw [hsrc] at hscanned
        cases hscanned
    | some srcDir =>
        rw [hsrc] at hscanned
        obtain ⟨content, hcontent, hentry⟩ := List.mem_flatMap.mp hscanned
        obtain ⟨path, hfile, hname, hskip⟩ := mem_walk.mp hcontent
        obtain ⟨hservice', hdeclares⟩ := declares_of_scanned hentry
        obtain rfl : service' = service := hservice'.symm.trans hservice
        exact ⟨app, srcDir, path, content, happ, hsrc, hfile, hname, hskip, hdeclares⟩
  · rintro ⟨hwell, app, srcDir, path, content, happ, hsrc, hfile, hname, hskip, hdeclares⟩
    obtain ⟨p, hp, hservice, hpermission⟩ :=
      @scanned_of_declares content ⟨literal, hwell⟩ hdeclares service
    have hscanned : p ∈ scanApp service app := by
      rw [scanApp, hsrc]
      exact List.mem_flatMap.mpr ⟨content, mem_walk.mpr ⟨path, hfile, hname, hskip⟩, hp⟩
    have hrecorded : p ∈ recorded apps := List.mem_flatMap.mpr ⟨(service, app), happ, hscanned⟩
    obtain ⟨q, hq, hqservice, hqpermission⟩ := mem_of_recorded hrecorded
    exact ⟨q, hq, hqservice.trans hservice, by rw [hqpermission, hpermission]⟩

/-- A sync of the api plane that succeeds leaves a live row for what is discovered. -/
theorem discovered_live {apps : Directory} {service literal : String}
    (h : Discovered apps service literal) {now : Nat} {catalog catalog' : Catalog}
    {reason : String} {d : PlaneDiff}
    (hsync : Script.syncPlane now catalog .api (scanApiPermissions apps) reason =
      .ok (catalog', d)) :
    ∃ r, catalog'.lookup (service, literal) = some r ∧ r.live := by
  obtain ⟨p, hp, rfl, rfl⟩ := h
  obtain ⟨r, hlookup, hlive, -⟩ := pass_live hsync (List.mem_map_of_mem hp)
  exact ⟨r, hlookup, hlive⟩

/-! ## A permission with a hyphen -/

/-- The guard asks for the literal: a request passes if its session has it, and not otherwise. -/
def Enforced (literal : String) : Prop :=
  ∀ (iam : Iam.EvaluateConditionsPayload → Except Iam.RegExpError Bool) (userId : String)
    (permissions : List String) (context : Iam.EvaluationContext), userId ≠ "" →
    (Iam.canActivate iam ⟨true, false, false, some literal, some ⟨some userId, permissions⟩, none,
      context⟩ = .ok true ↔ literal ∈ permissions)

/-- The controller of item groups, up to the second decorator's literal. -/
def itemGroupsController : String :=
  "@Post()\n  @RequirePermission('item-group:create')\n  create() \x7b\x7d\n\n" ++
    "  @Get()\n  @RequirePermission('item-group:view')\n  findPaginated() \x7b\x7d\n"

def inventoryApps : Directory :=
  .dir "inventory-bc" (.dir "src" (.file "item-groups.controller.ts" itemGroupsController .nil)
    .nil) .nil

/-- The first decorator, which the scan reads and skips. -/
def itemGroupCreate : DecoratorCall where
  before := "@Post()\n  ".toList
  noCall := by decide +kernel
  args := singleQuote :: ("item-group:create".toList ++ [singleQuote])
  balanced := .literal singleQuote _ (by decide)
    (inside_of_plain _ _ (by decide) (List.forall_iff_forall_mem.mp (by decide +kernel))) .nil

theorem declares_itemGroupView : Declares itemGroupsController "item-group:view" := by
  refine ⟨[itemGroupCreate], "\n  create() \x7b\x7d\n\n  @Get()\n  ".toList, [], singleQuote,
    ")\n  findPaginated() \x7b\x7d\n".toList, by decide +kernel,
    fun _ hc => absurd hc List.not_mem_nil, .inl rfl, by decide +kernel⟩

/-- The guard demands `item-group:view`, and the scan leaves it out. -/
theorem itemGroupView_not_discovered :
    DeclaredIn isSkipped inventoryApps "inventory-bc" "item-group:view" ∧
      Enforced "item-group:view" ∧ ¬ Discovered inventoryApps "inventory-bc" "item-group:view" := by
  refine ⟨?_, ?_, ?_⟩
  · refine ⟨_, _, ["item-groups.controller.ts"], itemGroupsController,
      List.mem_singleton_self _, rfl, .file _ _ _, by decide +kernel, ?_, declares_itemGroupView⟩
    intro entry hentry
    rw [List.mem_singleton.mp hentry]
    decide +kernel
  · intro iam userId permissions context huser
    by_cases hmem : "item-group:view" ∈ permissions
    · simp [Iam.canActivate, huser, hmem]
    · simp [Iam.canActivate, huser, hmem]
  · rintro ⟨p, -, -, htext⟩
    have hwell := p.permission.wellFormed
    rw [htext] at hwell
    revert hwell
    decide +kernel

end ErpApi.PermissionSync
