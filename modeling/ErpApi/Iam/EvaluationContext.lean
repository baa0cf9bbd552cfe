import ErpApi.Basic.Json
import ErpApi.Iam.PermissionGuard
import Mathlib.Data.List.Induction

set_option autoImplicit false

/-! # The evaluation context of a request

`PermissionGuard.buildEvaluationContext` collects what the conditions of a policy can refer to:
the clock and the address of the connection under two keys of the server, then the scalar members
of the parameters, the query and the body of the request under their own names. All go into one
map, and a later entry replaces an earlier one, so that a client may send an entry under a key of
the server. `server_values_agree_iff` says when two requests of one connection get the same
values under these keys.
-/

namespace ErpApi.Iam

/-- The local time of the server. -/
structure Clock where
  hours : Nat
  minutes : Nat

/-- The text `H:MM`. -/
def Clock.text (now : Clock) : String :=
  toString now.hours ++ ":" ++
    (if now.minutes < 10 then "0" ++ toString now.minutes else toString now.minutes)

/-- What the context is built from. -/
structure ContextRequest where
  ip : Option String
  params : Option Json
  query : Option Json
  body : Option Json

/-- What `String(value)` gives for a string, a number or a boolean. -/
def scalarText : Json → Option String
  | .str text => some text
  | .num text => some text
  | .bool b => some (Json.toText (.bool b))
  | _ => none

/-- The assignment `context[key] = text`. A text assigned to `__proto__` is dropped. -/
def setEntry (context : EvaluationContext) (key text : String) : EvaluationContext :=
  if key = "__proto__" then context else Function.update context key (some text)

def flattenEntry (context : EvaluationContext) (entry : String × Json) : EvaluationContext :=
  match scalarText entry.2 with
  | some text => setEntry context entry.1 text
  | none => context

/-- The members that `Object.entries` lists; a missing source has none. -/
def sourceEntries (source : Option Json) : List (String × Json) :=
  (source.bind Json.entries).getD []

def flatten (context : EvaluationContext) (source : Option Json) : EvaluationContext :=
  (sourceEntries source).foldl flattenEntry context

def serverKeys : List String := ["context.current_time", "context.ip"]

/-- What the server enters under its two keys. -/
def serverValue (now : Clock) (ip : Option String) (key : String) : String :=
  if key = "context.current_time" then now.text else ip.getD ""

def serverContext (now : Clock) (ip : Option String) : EvaluationContext := fun key =>
  if key ∈ serverKeys then some (serverValue now ip key) else none

def buildEvaluationContext (now : Clock) (request : ContextRequest) : EvaluationContext :=
  let context := serverContext now request.ip
  let context := flatten context request.params
  let context := flatten context request.query
  flatten context request.body

/-! ## What a client sends under a key -/

/-- The members of the request in the order in which they are entered. -/
def ContextRequest.entries (request : ContextRequest) : List (String × Json) :=
  sourceEntries request.params ++ sourceEntries request.query ++ sourceEntries request.body

/-- The scalars that the request sends under the key, first to last. -/
def ContextRequest.sent (request : ContextRequest) (key : String) : List String :=
  (request.entries.filter fun entry => entry.1 = key).filterMap fun entry => scalarText entry.2

theorem buildEvaluationContext_eq (now : Clock) (request : ContextRequest) :
    buildEvaluationContext now request =
      request.entries.foldl flattenEntry (serverContext now request.ip) := by
  simp only [buildEvaluationContext, flatten, ContextRequest.entries, List.foldl_append]

/-- One entry sets its own key and leaves every other. -/
theorem flattenEntry_apply (context : EvaluationContext) (entry : String × Json) {key : String}
    (hkey : key ≠ "__proto__") : flattenEntry context entry key =
      if entry.1 = key then (scalarText entry.2).orElse fun _ => context key
      else context key := by
  unfold flattenEntry
  by_cases h : entry.1 = key
  · subst h
    cases scalarText entry.2 with
    | none => simp
    | some text => simp [setEntry, hkey]
  · rw [if_neg h]
    cases scalarText entry.2 with
    | none => rfl
    | some text =>
        dsimp only [setEntry]
        split
        · rfl
        · exact Function.update_of_ne (Ne.symm h) _ _

/-- Under each key stands the last scalar that was entered there, else what stood there before. -/
theorem foldl_flattenEntry_apply {key : String} (hkey : key ≠ "__proto__")
    (entries : List (String × Json)) (context : EvaluationContext) :
    entries.foldl flattenEntry context key =
      (((entries.filter fun entry => entry.1 = key).filterMap
        fun entry => scalarText entry.2).getLast?).orElse fun _ => context key := by
  induction entries using List.reverseRecOn with
  | nil => rfl
  | append_singleton entries entry ih =>
      rw [List.foldl_append, List.foldl_cons, List.foldl_nil, flattenEntry_apply _ _ hkey, ih]
      by_cases h : entry.1 = key
      · cases hscalar : scalarText entry.2 with
        | none => simp [h, hscalar]
        | some text => simp [h, hscalar]
      · simp [h]

theorem buildEvaluationContext_apply (now : Clock) (request : ContextRequest) {key : String}
    (hkey : key ∈ serverKeys) : buildEvaluationContext now request key =
      some ((request.sent key).getLastD (serverValue now request.ip key)) := by
  have hproto : key ≠ "__proto__" := by
    rintro rfl
    exact absurd hkey (by decide)
  rw [buildEvaluationContext_eq, foldl_flattenEntry_apply hproto, serverContext, if_pos hkey,
    List.getLastD_eq_getLast?]
  change ((request.sent key).getLast?).orElse _ = _
  cases (request.sent key).getLast? <;> rfl

/-- **When two requests get the same values under the server's keys.** For two requests that
differ in parameters, query and body only: exactly if, under each of the two keys, they send the
same last scalar, where a request that sends none counts as sending the server's value. -/
theorem server_values_agree_iff (now : Clock) (request : ContextRequest)
    (params query body : Option Json) :
    (∀ key ∈ serverKeys,
      buildEvaluationContext now { request with params, query, body } key =
        buildEvaluationContext now request key) ↔
    ∀ key ∈ serverKeys,
      (ContextRequest.sent { request with params, query, body } key).getLastD
          (serverValue now request.ip key) =
        (request.sent key).getLastD (serverValue now request.ip key) := by
  refine forall_congr' fun key => forall_congr' fun hkey => ?_
  rw [buildEvaluationContext_apply now request hkey, buildEvaluationContext_apply now _ hkey,
    Option.some_inj]

/-- A request from outside the office that sends nothing. -/
def outsideRequest : ContextRequest := ⟨some "203.0.113.9", none, none, none⟩

/-- The same with the office's address in its body, under the key of the server. -/
def forgedRequest : ContextRequest :=
  { outsideRequest with body := some (.obj [("context.ip", .str "10.0.0.5")]) }

/-- The condition that the address is the office's. -/
def officeOnly : StatementCondition where
  id := "c"
  statement_id := "s"
  operator := .ipAddress
  condition_key := "context.ip"
  condition_value := "10.0.0.5"

/-- What the client sends makes the condition hold. -/
theorem client_sets_address :
    evaluateCondition plainRuntime officeOnly "u"
      (buildEvaluationContext ⟨9, 0⟩ outsideRequest) = .ok false ∧
    evaluateCondition plainRuntime officeOnly "u"
      (buildEvaluationContext ⟨9, 0⟩ forgedRequest) = .ok true ∧
    ¬ ∀ key ∈ serverKeys, buildEvaluationContext ⟨9, 0⟩ forgedRequest key =
      buildEvaluationContext ⟨9, 0⟩ outsideRequest key := by
  refine ⟨by decide, by decide, fun h => ?_⟩
  exact absurd (h "context.ip" (by decide)) (by decide)

end ErpApi.Iam
