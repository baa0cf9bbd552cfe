import ErpApi.Basic.JsValue
import ErpApi.Basic.KeyOrder
import ErpApi.Common.RpcErrors

set_option autoImplicit false

/-! # Calls of another service

`MicroserviceClientService.sendWithContext` looks for a cached answer, sends the message, and folds
what can go wrong into the default value or `null`. The log lines and the trace context are left
out.

The method is documented never to throw. It throws where the payload has no cache key, and it
rethrows what another service answered: an error in one of the two formats of `RpcErrors`, or an
`HttpException`. `sendWithContext_resolves_iff` says exactly when it keeps its contract.
-/

namespace ErpApi.Rpc

/-! ## The cache -/

structure MicroserviceCacheOptions where
  enabled : Bool
  ttl : Option Nat
  keyPrefix : Option String

/-- What the client uses but does not define. -/
structure ClientEnv where
  /-- The hexadecimal digest of a text. -/
  sha256 : String → String
  /-- The call `JSON.parse(text)`, with `none` where it throws. -/
  parse : String → Option Json
  /-- The conversion `Number(text)`, with `none` for `NaN`. -/
  number : String → Option ℚ

/-- The keys of Redis that have not expired, with the seconds that a key was set for. -/
structure Cache where
  entries : String → Option (String × Nat)
  getFails : Bool
  setexFails : Bool

/-- The members of the copy, which gets them in the order of `keys.sort()`. -/
def sortKeys (entries : List (String × JsValue)) : List (String × JsValue) :=
  Js.sortedMembers entries

mutual

def normalizePayload : JsValue → Except JsError JsValue
  | .undefined => .ok .null
  | .arr items => do return .arr (← normalizeItems items)
  | .obj entries => do return .obj (sortKeys (← normalizeEntries entries))
  | .circular => .error .rangeError
  | v => .ok v

def normalizeItems : List JsValue → Except JsError (List JsValue)
  | [] => .ok []
  | v :: items => do
      let normalized ← normalizePayload v
      let rest ← normalizeItems items
      return normalized :: rest

def normalizeEntries : List (String × JsValue) → Except JsError (List (String × JsValue))
  | [] => .ok []
  | (key, v) :: entries =>
      if v.isUndefined then normalizeEntries entries
      else do
        let normalized ← normalizePayload v
        let rest ← normalizeEntries entries
        return (key, normalized) :: rest

end

/-- A hash cannot be updated with `undefined`. -/
def generateCacheKey (env : ClientEnv) (cmd : String) (payload : JsValue)
    (keyPrefix : Option String) : Except JsError String := do
  let normalizedPayload ← normalizePayload payload
  match ← normalizedPayload.toJson with
  | none => throw .typeError
  | some json =>
      return "microservice:" ++ keyPrefix.getD (Js.replaceAllChar cmd '.' ":") ++ ":" ++
        String.ofList ((env.sha256 json.write).toList.take 24)

/-- The cached answer. What goes wrong here is logged and taken for a miss. -/
def Cache.read (cache : Cache) (env : ClientEnv) (key : String) : Option JsValue :=
  if cache.getFails then none
  else
    match cache.entries key with
    | none => none
    | some (text, _) => (env.parse text).map JsValue.ofJson

/-- An answer is cached unless it is nothing or has no text. -/
def Cache.write (cache : Cache) (key : String) (ttl : Option Nat) (result : JsValue) : Cache :=
  match result with
  | .null => cache
  | .undefined => cache
  | result =>
      if cache.setexFails then cache
      else
        match result.toJson with
        | .error _ => cache
        | .ok json =>
            { cache with
              entries := Function.update cache.entries key
                (some ((json.map Json.write).getD "", ttl.getD 300)) }

/-! ## Failures -/

/-- What the observable of the call ends with instead of a value, or what `send` throws. -/
inductive Failure where
  /-- A `TimeoutError`. -/
  | timeout
  | httpException (exception : HttpException)
  /-- Any other `Error`, with the members that it has besides its message. -/
  | error (message : String) (members : List (String × JsValue))
  /-- A value that is no `Error`, such as the objects that the transport delivers. -/
  | value (v : JsValue)

/-- How the remote call ends. -/
inductive Ending where
  | value (v : JsValue)
  /-- The observable completes without a value. -/
  | empty
  | failure (e : Failure)

/-- What the method rejects with. -/
inductive Rejection where
  /-- The exception of `handleRpcErrorPayload` or `handleRpcError`. -/
  | thrown (exception : Thrown)
  | rethrown (exception : HttpException)
  /-- An error of the language. -/
  | js (e : JsError)

namespace Failure

/-- The members that the tests of the client look at. -/
def asObject : Failure → JsValue
  | .timeout => .undefined
  | .httpException e =>
      .obj [("response", JsValue.ofJson e.response), ("status", .num (toString e.status)),
        ("message", .str e.message)]
  | .error message members => .obj (("message", .str message) :: members)
  | .value v => v

/-- The message for the log. It throws where `JSON.stringify` throws. -/
def errorMessage : Failure → Except JsError Unit
  | .value (.arr items) => do
      let _ ← (JsValue.arr items).toJson
  | .value (.obj entries) => do
      let _ ← (JsValue.obj entries).toJson
  | .value .circular => throw .typeError
  | _ => return

end Failure

/-- The test of the client: the value is a payload. -/
def Failure.isRpcErrorPayload (e : Failure) : Bool :=
  match e.asObject.member "status", e.asObject.member "errors" with
  | some status, some (.arr _) => (status.member "code").isSome
  | _, _ => false

/-- The value, unless it is `null` or `undefined`. -/
def nonNullish : Option JsValue → Option JsValue
  | some .null => none
  | some .undefined => none
  | value => value

/-- The test for the older format of an error. -/
def Failure.isRpcErrorResponse (number : String → Option ℚ) (e : Failure) : Bool :=
  let status_code := e.asObject.member "status_code"
  let statusCode := e.asObject.member "statusCode"
  (status_code.isSome || statusCode.isSome) && (e.asObject.member "message").isSome &&
    match (nonNullish status_code).or statusCode with
    | some (.num text) => (number text).any fun q => 400 ≤ q
    | some (.nonFinite text) => text == "Infinity"
    | _ => false

/-- The default value that a call returns: `null` where none is given. -/
def fallback : JsValue → JsValue
  | .undefined => .null
  | v => v

/-- The `catch` block. -/
def catchFailure (number : String → Option ℚ) (defaultValue : JsValue) (e : Failure) :
    Except Rejection JsValue :=
  match e with
  | .timeout => .ok (fallback defaultValue)
  | e =>
      if e.isRpcErrorPayload then
        .error (.thrown (handleRpcErrorPayload number e.asObject.view))
      else if e.isRpcErrorResponse number then
        .error (.thrown (handleRpcError number e.asObject.view))
      else
        match e.errorMessage with
        | .error thrown => .error (.js thrown)
        | .ok () =>
            match e with
            | .httpException exception => .error (.rethrown exception)
            | _ => .ok (fallback defaultValue)

/-- The part of the method after the cache; `remember` caches an answer. -/
def callRemote (number : String → Option ℚ) (cache : Cache) (remember : JsValue → Cache)
    (defaultValue : JsValue) (ending : Ending) : Cache × Except Rejection JsValue :=
  match ending with
  | .value v => (remember v, .ok v)
  | .empty => (remember (fallback defaultValue), .ok (fallback defaultValue))
  | .failure e => (cache, catchFailure number defaultValue e)

/-- The cache after the call, and what the call resolves to or rejects with. -/
def sendWithContext (env : ClientEnv) (cache : Cache) (cmd : String) (payload defaultValue : JsValue)
    (cacheOptions : Option MicroserviceCacheOptions) (ending : Ending) :
    Cache × Except Rejection JsValue :=
  match cacheOptions with
  | none => callRemote env.number cache (fun _ => cache) defaultValue ending
  | some options =>
      if options.enabled then
        match generateCacheKey env cmd payload options.keyPrefix with
        | .error e => (cache, .error (.js e))
        | .ok key =>
            match cache.read env key with
            | some result => (cache, .ok result)
            | none => callRemote env.number cache (cache.write key options.ttl) defaultValue ending
      else callRemote env.number cache (fun _ => cache) defaultValue ending

/-! ## Which payloads have a key -/

theorem entriesAreData_sortKeys (entries : List (String × JsValue)) :
    JsValue.entriesAreData (sortKeys entries) = JsValue.entriesAreData entries := by
  apply Bool.eq_iff_iff.mpr
  rw [JsValue.entriesAreData_iff, JsValue.entriesAreData_iff]
  have hmem : ∀ entry, entry ∈ sortKeys entries ↔ entry ∈ entries :=
    fun entry => (Js.sortedMembers_perm entries).mem_iff
  simp only [hmem]

/-- The result satisfies the test. -/
def okAnd {α : Type} (p : α → Bool) : Except JsError α → Bool
  | .ok a => p a
  | .error _ => false

mutual

/-- A normalized payload is one that `JSON.stringify` can write exactly when the payload is. -/
theorem isData_normalizePayload : ∀ v : JsValue,
    okAnd JsValue.isData (normalizePayload v) = v.isData
  | .undefined => rfl
  | .null => rfl
  | .bool _ => rfl
  | .num _ => rfl
  | .nonFinite _ => rfl
  | .str _ => rfl
  | .bigint _ => rfl
  | .symbol => rfl
  | .function => rfl
  | .circular => rfl
  | .arr items => by
      rw [JsValue.isData, ← isData_normalizeItems items, normalizePayload]
      cases normalizeItems items <;> rfl
  | .obj entries => by
      rw [JsValue.isData, ← isData_normalizeEntries entries, normalizePayload]
      cases normalizeEntries entries with
      | error e => rfl
      | ok normalized => exact entriesAreData_sortKeys normalized

theorem isData_normalizeItems : ∀ items : List JsValue,
    okAnd JsValue.itemsAreData (normalizeItems items) = JsValue.itemsAreData items
  | [] => rfl
  | v :: items => by
      rw [JsValue.itemsAreData, ← isData_normalizePayload v, ← isData_normalizeItems items,
        normalizeItems]
      cases normalizePayload v with
      | error e => rfl
      | ok normalized =>
          cases normalizeItems items with
          | error e => simp [okAnd, bind, Except.bind]
          | ok rest => rfl

theorem isData_normalizeEntries : ∀ entries : List (String × JsValue),
    okAnd JsValue.entriesAreData (normalizeEntries entries) = JsValue.entriesAreData entries
  | [] => rfl
  | (key, v) :: entries => by
      rw [JsValue.entriesAreData, ← isData_normalizeEntries entries, normalizeEntries]
      split
      · rename_i hundefined
        rw [JsValue.isData_of_isUndefined hundefined, Bool.true_and]
      · rw [← isData_normalizePayload v]
        cases normalizePayload v with
        | error e => rfl
        | ok normalized =>
            cases normalizeEntries entries with
            | error e => simp [okAnd, bind, Except.bind]
            | ok rest => rfl

end

/-- The payload has a text, and it is not `undefined`. -/
def hasCacheKey : JsValue → Bool
  | .symbol => false
  | .function => false
  | v => v.isData

theorem generateCacheKey_isOk (env : ClientEnv) (cmd : String) (payload : JsValue)
    (keyPrefix : Option String) :
    (generateCacheKey env cmd payload keyPrefix).isOk = hasCacheKey payload := by
  unfold generateCacheKey
  cases payload with
  | arr items =>
      show _ = JsValue.itemsAreData items
      rw [← isData_normalizeItems items, normalizePayload]
      cases normalizeItems items with
      | error e => rfl
      | ok normalized =>
          rw [okAnd, ← JsValue.toItems_isOk normalized]
          simp only [bind, Except.bind, pure, Except.pure, JsValue.toJson]
          cases JsValue.toItems normalized <;> rfl
  | obj entries =>
      show _ = JsValue.entriesAreData entries
      rw [← isData_normalizeEntries entries, normalizePayload]
      cases normalizeEntries entries with
      | error e => rfl
      | ok normalized =>
          rw [okAnd, ← entriesAreData_sortKeys, ← JsValue.toEntries_isOk (sortKeys normalized)]
          simp only [bind, Except.bind, pure, Except.pure, JsValue.toJson]
          cases JsValue.toEntries (sortKeys normalized) <;> rfl
  | _ => rfl

/-! ## Which failures are folded -/

/-- The failures that the client folds into the default value. -/
def Failure.isFolded (number : String → Option ℚ) (e : Failure) : Bool :=
  match e with
  | .timeout => true
  | .httpException _ => false
  | .error _ _ => !e.isRpcErrorPayload && !e.isRpcErrorResponse number
  | .value (.arr _) | .value (.obj _) | .value .circular =>
      !e.isRpcErrorPayload && !e.isRpcErrorResponse number && e.asObject.isData
  | .value _ => true

theorem isOk_ite (p r : Bool) (a b : Rejection) (result : Except Rejection JsValue) :
    (if p then .error a else if r then .error b else result).isOk =
      (!p && !r && result.isOk) := by
  cases p <;> cases r <;> rfl

theorem catchFailure_isOk (number : String → Option ℚ) (defaultValue : JsValue) (e : Failure) :
    (catchFailure number defaultValue e).isOk = e.isFolded number := by
  cases e with
  | timeout => rfl
  | httpException exception =>
      unfold catchFailure
      dsimp only
      rw [isOk_ite]
      exact Bool.and_false _
  | error message members =>
      refine (isOk_ite _ _ _ _ _).trans ?_
      exact Bool.and_true _
  | value v =>
      refine (isOk_ite _ _ _ _ _).trans ?_
      cases v with
      | arr items =>
          rw [Failure.isFolded, Failure.asObject, ← JsValue.toJson_isOk, Failure.errorMessage]
          cases (JsValue.arr items).toJson <;> rfl
      | obj entries =>
          rw [Failure.isFolded, Failure.asObject, ← JsValue.toJson_isOk, Failure.errorMessage]
          cases (JsValue.obj entries).toJson <;> rfl
      | circular => exact Bool.and_false _
      | _ => rfl

theorem catchFailure_eq_ok {number : String → Option ℚ} {defaultValue result : JsValue}
    {e : Failure} (h : catchFailure number defaultValue e = .ok result) :
    result = fallback defaultValue := by
  unfold catchFailure at h
  repeat' split at h
  all_goals cases h
  all_goals rfl

/-! ## What the transport delivers -/

theorem member_ofJson (v : Json) (key : String) :
    (JsValue.ofJson v).member key = (member v key).map JsValue.ofJson := by
  cases v with
  | obj entries => exact JsValue.lookup_ofEntries entries key
  | _ => rfl

theorem isRpcErrorPayload_ofJson (v : Json) :
    (Failure.value (JsValue.ofJson v)).isRpcErrorPayload = isRpcErrorPayload v := by
  unfold Failure.isRpcErrorPayload Failure.asObject isRpcErrorPayload
  dsimp only
  rw [member_ofJson, member_ofJson]
  cases member v "status" with
  | none => rfl
  | some status =>
      cases member v "errors" with
      | none => cases status <;> rfl
      | some errors =>
          cases errors with
          | arr items =>
              show ((JsValue.ofJson status).member "code").isSome = _
              rw [member_ofJson, Option.isSome_map]
              cases status <;> rfl
          | _ => cases status <;> rfl

theorem isRpcErrorResponse_ofJson (number : String → Option ℚ) (v : Json) :
    (Failure.value (JsValue.ofJson v)).isRpcErrorResponse number =
      isRpcErrorResponse number v := by
  unfold Failure.isRpcErrorResponse Failure.asObject isRpcErrorResponse
  dsimp only
  simp only [member_ofJson, Option.isSome_map]
  congr 1
  cases member v "status_code" with
  | none =>
      cases member v "statusCode" with
      | none => rfl
      | some code => cases code <;> rfl
  | some status_code =>
      cases status_code with
      | null =>
          cases member v "statusCode" with
          | none => rfl
          | some code => cases code <;> rfl
      | _ => rfl

theorem errorMessage_ofJson (v : Json) : (Failure.value (JsValue.ofJson v)).errorMessage = .ok () := by
  cases v with
  | arr items =>
      show (do let _ ← (JsValue.ofJson (.arr items)).toJson) = _
      rw [JsValue.toJson_ofJson]
      rfl
  | obj entries =>
      show (do let _ ← (JsValue.ofJson (.obj entries)).toJson) = _
      rw [JsValue.toJson_ofJson]
      rfl
  | _ => rfl

/-- On what the transport delivers, the `catch` block is the one of `RpcErrors`. -/
theorem catchFailure_ofJson (number : String → Option ℚ) (defaultValue : JsValue) (v : Json) :
    catchFailure number defaultValue (.value (JsValue.ofJson v)) =
      match catchDelivered number v with
      | .thrown exception => .error (.thrown exception)
      | .fallback => .ok (fallback defaultValue) := by
  unfold catchFailure catchDelivered
  dsimp only
  rw [isRpcErrorPayload_ofJson, isRpcErrorResponse_ofJson, errorMessage_ofJson,
    show (Failure.value (JsValue.ofJson v)).asObject.view = v from JsValue.view_ofJson v]
  split
  · rfl
  split
  · rfl
  · rfl

/-! ## The contract -/

/-- The answer that is found in the cache. -/
def cachedResult (env : ClientEnv) (cache : Cache) (cmd : String) (payload : JsValue) :
    Option MicroserviceCacheOptions → Option JsValue
  | none => none
  | some options =>
      if options.enabled then
        match generateCacheKey env cmd payload options.keyPrefix with
        | .error _ => none
        | .ok key => cache.read env key
      else none

section Contract

variable (env : ClientEnv) (cache : Cache) (cmd : String) (payload defaultValue : JsValue)
  (cacheOptions : Option MicroserviceCacheOptions) (ending : Ending)

/-- The call resolves to the cached or the remote result, the default value or `null`. -/
def KeepsContract : Prop :=
  ∃ result,
    (sendWithContext env cache cmd payload defaultValue cacheOptions ending).2 = .ok result ∧
      (cachedResult env cache cmd payload cacheOptions = some result ∨ ending = .value result ∨
        result = defaultValue ∨ result = .null)

/-- What a call needs to resolve: a key, if it is to be cached, and unless the answer is cached an
ending that is no error of another service. -/
def Answerable : Prop :=
  (∀ options, cacheOptions = some options → options.enabled = true → hasCacheKey payload = true) ∧
    (cachedResult env cache cmd payload cacheOptions = none →
      ∀ e, ending = .failure e → e.isFolded env.number = true)

variable {env cache cmd payload defaultValue cacheOptions ending}

theorem fallback_cases (v : JsValue) : fallback v = v ∨ fallback v = .null := by
  cases v with
  | undefined => exact .inr rfl
  | _ => exact .inl rfl

/-- The part after the cache. -/
theorem callRemote_resolves_iff {remember : JsValue → Cache} :
    (∃ result, (callRemote env.number cache remember defaultValue ending).2 = .ok result ∧
        (ending = .value result ∨ result = defaultValue ∨ result = .null)) ↔
      ∀ e, ending = .failure e → e.isFolded env.number = true := by
  cases ending with
  | value v => exact iff_of_true ⟨v, rfl, .inl rfl⟩ fun e h => by cases h
  | empty =>
      exact iff_of_true ⟨_, rfl, .inr (fallback_cases defaultValue)⟩ fun e h => by cases h
  | failure e =>
      constructor
      · rintro ⟨result, hresult, -⟩ e' he
        obtain rfl := Ending.failure.inj he
        rw [← catchFailure_isOk env.number defaultValue e,
          show catchFailure env.number defaultValue e = .ok result from hresult]
        rfl
      · intro hfolded
        have hok := (catchFailure_isOk env.number defaultValue e).trans (hfolded e rfl)
        cases hcatch : catchFailure env.number defaultValue e with
        | error rejection =>
            rw [hcatch] at hok
            cases hok
        | ok result =>
            refine ⟨result, hcatch, .inr ?_⟩
            rw [catchFailure_eq_ok hcatch]
            exact fallback_cases defaultValue

end Contract

/-- **The contract.** A call resolves to the cached or the remote result, the default value or
`null`, exactly when its payload has a cache key, in case the call is to be cached, and the answer
is cached or the remote call does not end with a failure that the client passes on: an error in one
of the two formats, an `HttpException`, or an object without a text. -/
theorem sendWithContext_resolves_iff (env : ClientEnv) (cache : Cache) (cmd : String)
    (payload defaultValue : JsValue) (cacheOptions : Option MicroserviceCacheOptions)
    (ending : Ending) :
    KeepsContract env cache cmd payload defaultValue cacheOptions ending ↔
      Answerable env cache cmd payload cacheOptions ending := by
  cases cacheOptions with
  | none =>
      have hremote := @callRemote_resolves_iff env cache defaultValue ending fun _ => cache
      simpa [KeepsContract, Answerable, sendWithContext, cachedResult] using hremote
  | some options =>
      cases henabled : options.enabled with
      | false =>
          have hremote := @callRemote_resolves_iff env cache defaultValue ending fun _ => cache
          simpa [KeepsContract, Answerable, sendWithContext, cachedResult, henabled] using hremote
      | true =>
          have hkey := generateCacheKey_isOk env cmd payload options.keyPrefix
          cases hgenerate : generateCacheKey env cmd payload options.keyPrefix with
          | error e =>
              rw [hgenerate] at hkey
              refine iff_of_false ?_ ?_
              · rintro ⟨result, hresult, -⟩
                simp [sendWithContext, henabled, hgenerate] at hresult
              · rintro ⟨hhas, -⟩
                rw [hhas options rfl henabled] at hkey
                cases hkey
          | ok key =>
              rw [hgenerate] at hkey
              cases hread : cache.read env key with
              | some cached =>
                  refine iff_of_true ⟨cached, ?_, .inl ?_⟩ ⟨?_, ?_⟩
                  · simp [sendWithContext, henabled, hgenerate, hread]
                  · simp [cachedResult, henabled, hgenerate, hread]
                  · intro options' hoptions _
                    exact hkey.symm
                  · intro hnone
                    simp [cachedResult, henabled, hgenerate, hread] at hnone
              | none =>
                  have hremote := @callRemote_resolves_iff env cache defaultValue ending
                    (cache.write key options.ttl)
                  have hhas : hasCacheKey payload = true := hkey.symm
                  simpa [KeepsContract, Answerable, sendWithContext, cachedResult, henabled,
                    hgenerate, hread, hhas] using hremote

/-- The answer of a remote service that does not find what it is asked for. -/
def supplierNotFound : Failure :=
  .value (JsValue.ofJson
    (formatException "2026-01-01T00:00:00.000Z" (plainHttp 404 "Supplier not found.")))

/-- **A missing resource is thrown.** -/
theorem missing_resource_rejects :
    ¬ KeepsContract ⟨id, fun _ => none, numeralValue⟩ ⟨fun _ => none, false, false⟩
      "get_supplier_by_id" (.obj [("id", .str "1")]) .null none (.failure supplierNotFound) := by
  have hpayload : supplierNotFound.isRpcErrorPayload = true := by decide +kernel
  rintro ⟨result, hresult, -⟩
  unfold sendWithContext callRemote catchFailure at hresult
  simp only [supplierNotFound] at hpayload hresult
  rw [if_pos hpayload] at hresult
  cases hresult

end ErpApi.Rpc
