import ErpApi.Iam.PermissionScan

set_option autoImplicit false

/-! # String literals in the arguments of a decorator

`extractBalancedArgs` takes a quote for the end of a literal unless a backslash stands right before
it. In the language an escape sequence takes the character behind its backslash with it, so a
literal may end with an escaped backslash: there the scan runs on, up to another quote or to the end
of the file.

`scan_calls_iff` says when a scan finds the calls of a source text, with their arguments: when the
arguments are balanced as the scan reads them (`Balanced`). Arguments in which no literal ends with a
backslash are (`SourceArgs.balanced`).
-/

namespace ErpApi.PermissionSync

/-! ## Arguments as the language reads them -/

/-- What stands between the quotes of a string literal. -/
inductive LiteralBody (quote : Char) : List Char → Prop
  | nil : LiteralBody quote []
  | plain {body : List Char} (c : Char) : c ≠ quote → c ≠ backslash → LiteralBody quote body →
      LiteralBody quote (c :: body)
  | escape {body : List Char} (c : Char) : LiteralBody quote body →
      LiteralBody quote (backslash :: c :: body)

/-- Text of closed string literals, whose bodies are as given, and of parentheses that close `depth`
more than they open. -/
inductive SourceArgs (allowed : List Char → Prop) : Nat → List Char → Prop
  | nil : SourceArgs allowed 0 []
  | other {depth : Nat} {text : List Char} (c : Char) : isOther c = true →
      SourceArgs allowed depth text → SourceArgs allowed depth (c :: text)
  | literal {depth : Nat} {text : List Char} (quote : Char) (body : List Char) :
      isQuote quote = true → LiteralBody quote body → allowed body →
      SourceArgs allowed depth text →
      SourceArgs allowed depth (quote :: (body ++ quote :: text))
  | opening {depth : Nat} {text : List Char} : SourceArgs allowed (depth + 1) text →
      SourceArgs allowed depth ('(' :: text)
  | closing {depth : Nat} {text : List Char} : SourceArgs allowed depth text →
      SourceArgs allowed (depth + 1) (')' :: text)

/-- A call of the source text and the text since the last one. -/
structure SourceCall where
  before : List Char
  noCall : ¬ DECORATOR_CALL_START <:+: before
  args : List Char
  source : SourceArgs (fun _ => True) 0 args

def SourceCall.text (call : SourceCall) : List Char :=
  call.before ++ (DECORATOR_CALL_START ++ (call.args ++ [')']))

/-! ## Literals that do not end with a backslash -/

theorem backslash_ne_quote {quote : Char} (h : isQuote quote = true) : backslash ≠ quote := by
  rintro rfl
  revert h
  decide

/-- In a literal every quote follows a backslash. -/
theorem LiteralBody.inside {quote : Char} (hquote : isQuote quote = true) {body : List Char}
    (h : LiteralBody quote body) :
    ∀ previous : Char, (body = [] → previous ≠ backslash) →
      body.getLast? ≠ some backslash → Inside quote previous body := by
  induction h with
  | nil =>
      intro previous hprevious _
      exact hprevious rfl
  | @plain body c hc hbackslash _ ih =>
      intro previous _ hlast
      refine ⟨fun heq => absurd heq hc, ih c (fun _ => hbackslash) ?_⟩
      intro hend
      apply hlast
      rw [List.getLast?_cons, hend]
      rfl
  | @escape body c _ ih =>
      intro previous _ hlast
      refine ⟨fun heq => absurd heq (backslash_ne_quote hquote), fun _ => rfl, ih c ?_ ?_⟩
      · rintro rfl rfl
        exact hlast rfl
      · intro hend
        apply hlast
        rw [List.getLast?_cons, List.getLast?_cons, hend]
        rfl

/-- Arguments in which no literal ends with a backslash are read as they are. -/
theorem SourceArgs.balanced {depth : Nat} {args : List Char}
    (h : SourceArgs (fun body => body.getLast? ≠ some backslash) depth args) :
    Balanced depth args := by
  induction h with
  | nil => exact .nil
  | other c hother _ ih => exact .other c hother ih
  | literal quote body hquote hbody hlast _ ih =>
      have hfirst : body = [] → quote ≠ backslash := fun _ => (backslash_ne_quote hquote).symm
      exact .literal quote body hquote (hbody.inside hquote quote hfirst hlast) ih
  | opening _ ih => exact .opening ih
  | closing _ ih => exact .closing ih

/-! ## The calls of a source text -/

/-- The scan takes the arguments up to their parenthesis exactly if they are balanced. -/
theorem extract_iff {args rest : List Char} :
    extractBalancedArgs '(' none 1 (args ++ ')' :: rest) = args ↔ Balanced 0 args := by
  constructor
  · intro h
    rcases balanced_or_open _ (args ++ ')' :: rest) 0 '(' (Nat.le_refl _) with
      ⟨args', rest', htext, hbalanced⟩ | hopen
    · have hargs' : extractBalancedArgs '(' none 1 (args' ++ ')' :: rest') = args' :=
        extract_balanced hbalanced '(' rest'
      rw [← htext, h] at hargs'
      rw [hargs']
      exact hbalanced
    · -- The scan would have run to the end of the file.
      rw [Nat.zero_add, h] at hopen
      have hlength := congrArg List.length hopen
      rw [List.length_append, List.length_cons] at hlength
      omega
  · intro h
    exact extract_balanced h '(' rest

theorem decoratorCalls_nil {tail : List Char} (h : ¬ DECORATOR_CALL_START <:+: tail) :
    decoratorCalls 0 tail = [] := by
  rcases first_call tail with ⟨before, rest, rfl, -⟩ | hnone
  · exact absurd ⟨before, rest, by rw [List.append_assoc]⟩ h
  · exact hnone

/-- A scan begins with the arguments that it takes for those of the first call. -/
theorem SourceCall.decoratorCalls_text (call : SourceCall) (rest : List Char) :
    decoratorCalls 0 (call.text ++ rest) =
      extractBalancedArgs '(' none 1 (call.args ++ ')' :: rest) ::
        decoratorCalls 0 ((call.args ++ ')' :: rest).drop
          ((extractBalancedArgs '(' none 1 (call.args ++ ')' :: rest)).length + 1)) := by
  calc decoratorCalls 0 (call.text ++ rest)
      = decoratorCalls 0 (call.before ++ (DECORATOR_CALL_START ++ (call.args ++ ')' :: rest))) := by
        simp [SourceCall.text]
    _ = decoratorCalls 0 (DECORATOR_CALL_START ++ (call.args ++ ')' :: rest)) :=
        decoratorCalls_before call.noCall (List.prefix_append _ _)
    _ = _ := decoratorCalls_call _

/-- Behind balanced arguments the scan goes on with the rest of the text. -/
theorem SourceCall.decoratorCalls_balanced (call : SourceCall) (h : Balanced 0 call.args)
    (rest : List Char) :
    decoratorCalls 0 (call.text ++ rest) = call.args :: decoratorCalls 0 rest := by
  rw [call.decoratorCalls_text, extract_iff.mpr h, ← List.drop_drop, List.drop_left,
    List.drop_one, List.tail_cons]

/-- The scan of a source text returns the arguments of every call, and takes them for what they
are. -/
def ScansCalls (calls : List SourceCall) (tail : List Char) : Prop :=
  decoratorCalls 0 (calls.flatMap SourceCall.text ++ tail) = calls.map SourceCall.args ∧
    ∀ front call back, calls = front ++ call :: back →
      extractBalancedArgs '(' none 1
        (call.args ++ ')' :: (back.flatMap SourceCall.text ++ tail)) = call.args

/-- **The calls of a source text.** The scan finds all of them, each with its arguments, if and only
if the arguments of every call are balanced as the scan reads them. -/
theorem scan_calls_iff (calls : List SourceCall) {tail : List Char}
    (htail : ¬ DECORATOR_CALL_START <:+: tail) :
    ScansCalls calls tail ↔ ∀ call ∈ calls, Balanced 0 call.args := by
  constructor
  · rintro ⟨-, hextract⟩ call hcall
    obtain ⟨front, back, hcalls⟩ := List.append_of_mem hcall
    exact extract_iff.mp (hextract front call back hcalls)
  · intro h
    refine ⟨?_, ?_⟩
    · induction calls with
      | nil => exact decoratorCalls_nil htail
      | cons call calls ih =>
          have hrest := ih fun c hc => h c (List.mem_cons_of_mem call hc)
          rw [List.flatMap_cons, List.append_assoc,
            call.decoratorCalls_balanced (h call List.mem_cons_self), hrest]
          rfl
    · rintro front call back rfl
      exact extract_iff.mpr (h call (by simp))

/-! ## A path as a name -/

theorem LiteralBody.append {quote : Char} {body : List Char} (h : LiteralBody quote body) :
    ∀ w : List Char, (∀ c ∈ w, c ≠ quote ∧ c ≠ backslash) → LiteralBody quote (w ++ body)
  | [], _ => h
  | c :: w, hw =>
      .plain c (hw c List.mem_cons_self).1 (hw c List.mem_cons_self).2
        (h.append w fun d hd => hw d (List.mem_cons_of_mem c hd))

theorem LiteralBody.append_of_all {quote : Char} {body : List Char} (h : LiteralBody quote body)
    {w : List Char} (hw : (w.all fun c => decide (c ≠ quote ∧ c ≠ backslash)) = true) :
    LiteralBody quote (w ++ body) := by
  apply h.append
  simpa only [List.all_eq_true, decide_eq_true_eq] using hw

/-- The literal `'item:view'` and what is behind it. -/
def itemView (rest : List Char) : List Char :=
  singleQuote :: ("item:view".toList ++ singleQuote :: rest)

theorem SourceArgs.itemView {allowed : List Char → Prop} {rest : List Char}
    (hallowed : allowed "item:view".toList) (h : SourceArgs allowed 0 rest) :
    SourceArgs allowed 0 (itemView rest) := by
  have hbody : LiteralBody singleQuote ("item:view".toList ++ []) :=
    LiteralBody.nil.append_of_all (by decide +kernel)
  rw [List.append_nil] at hbody
  exact .literal singleQuote _ (by decide) hbody hallowed h

/-- The second literal is `'C:\\'`, with an escaped backslash at its end. -/
def pathArgs : List Char :=
  itemView (',' :: singleQuote :: (("C:".toList ++ [backslash, backslash]) ++ [singleQuote]))

theorem pathArgs_source : SourceArgs (fun _ => True) 0 pathArgs := by
  have hbody : LiteralBody singleQuote ("C:".toList ++ [backslash, backslash]) :=
    (LiteralBody.escape backslash .nil).append_of_all (by decide +kernel)
  exact .itemView trivial (.other ',' (by decide)
    (.literal singleQuote _ (by decide) hbody trivial .nil))

def viewCall : SourceCall where
  before := []
  noCall := by decide
  args := itemView []
  source := .itemView trivial .nil

theorem viewCall_scanned : ¬ DECORATOR_CALL_START <:+: [] ∧ ScansCalls [viewCall, viewCall] [] := by
  have htail : ¬ DECORATOR_CALL_START <:+: [] := by decide
  refine ⟨htail, (scan_calls_iff [viewCall, viewCall] htail).mpr ?_⟩
  have hview : Balanced 0 viewCall.args := SourceArgs.balanced (.itemView (by decide) .nil)
  intro call hcall
  simp only [List.mem_cons, List.not_mem_nil, or_false, or_self] at hcall
  rw [hcall]
  exact hview

def pathCall : SourceCall where
  before := []
  noCall := by decide
  args := pathArgs
  source := pathArgs_source

/-- The call with the escaped backslash hides the next one. -/
theorem pathCall_hides :
    extractBalancedArgs '(' none 1 (pathCall.args ++ ')' :: (viewCall.text ++ [])) ≠
        pathCall.args ∧
      viewCall.args ∉
        decoratorCalls 0 ([pathCall, viewCall].flatMap SourceCall.text ++ []) := by
  refine ⟨?_, ?_⟩
  · decide +kernel
  · decide +kernel

end ErpApi.PermissionSync
