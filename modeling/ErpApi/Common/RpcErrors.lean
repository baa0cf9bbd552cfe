import ErpApi.Basic.Json
import Mathlib.Data.Rat.Cast.Order

set_option autoImplicit false

/-! # Errors across a remote call

An exception of a message handler crosses to the calling service in two translations.
`RpcExceptionsFilter.formatException` turns it into a JSON object with a status, a list of errors
and a time stamp; the transport delivers the object; and the `catch` block of
`MicroserviceClientService.sendWithContext` turns it back into an HTTP exception.

The client passes on the statuses 400 to 499 and answers 500 for every other. The two
exceptions of the repository that the filter gives codes of their own, 400001 and 400002, are
the case that the two translations do not agree on.
-/

namespace ErpApi.Rpc

open Json (toText)

/-! ## Exceptions -/

/-- An entry of `InvalidParameterException.validationErrors`. -/
structure ErrorObject where
  message : Option String
  field : Option String

/-- An entry of `ValidationException.validationErrors`. -/
structure ValidationError where
  field : String
  messages : List String

/-- An `HttpException` of the framework: its status, its message and its response, which is a
string or an object. -/
structure HttpException where
  status : Nat
  message : String
  response : Json

/-- What a handler can throw. -/
inductive Exception where
  | invalidParameter (validationErrors : List ErrorObject)
  | validation (validationErrors : List ValidationError)
  /-- An `RpcException`: the message of the error object and the value of `getError()`. -/
  | rpc (message : String) (error : Json)
  | http (exception : HttpException)
  /-- A `QueryFailedError` of TypeORM. -/
  | queryFailed (message : String)
  /-- Any other `Error`. -/
  | error (message : String)
  /-- A value that is no `Error`. -/
  | other

/-! ## The filter -/

def INTERNAL_SERVER_ERROR : Json := .num "500"

/-- The member of an object, or `none` for `undefined`. -/
def member (value : Json) (key : String) : Option Json :=
  match value with
  | .obj entries => entries.lookup key
  | _ => none

/-- The operator `??`. -/
def nullish (value : Option Json) (default : Json) : Json :=
  match value with
  | none => default
  | some .null => default
  | some v => v

def isObject : Json → Bool
  | .obj _ => true
  | .arr _ => true
  | .null => true
  | _ => false

/-- The payload of the filter. -/
def payload (code message : Json) (errors : List Json) (timestamp : String) : Json :=
  .obj [("status", .obj [("code", code), ("message", message)]), ("errors", .arr errors),
    ("meta", .obj [("timestamp", .str timestamp)])]

def errorEntry (code title detail : Json) : Json :=
  .obj [("code", code), ("title", title), ("detail", detail)]

/-- The test of the filter: the value is a payload already. -/
def isPayload (value : Json) : Bool :=
  match member value "status", member value "errors", member value "meta" with
  | some (.obj status), some (.arr _), some metadata =>
      (status.lookup "code").isSome && (status.lookup "message").isSome && isObject metadata
  | _, _, _ => false

def formatRpcObject (timestamp : String) (error : Json) : Json :=
  let statusCode := nullish (member error "status_code")
    (nullish (member error "statusCode") INTERNAL_SERVER_ERROR)
  let message := nullish (member error "message") (.str "RPC Error")
  let detail := nullish (member error "error") message
  payload statusCode message [errorEntry statusCode message detail] timestamp

def formatUnexpected (timestamp message : String) : Json :=
  payload INTERNAL_SERVER_ERROR (.str "Internal Server Error")
    [errorEntry INTERNAL_SERVER_ERROR (.str "An unexpected error occurred") (.str message)]
    timestamp

/-- The branch for an `RpcException`. One whose error is neither an object nor a string is left to
the last branch, for an unexpected `Error`. -/
def formatRpcException (timestamp message : String) (error : Json) : Json :=
  if isPayload error then error
  else
    match error with
    | .obj entries => formatRpcObject timestamp (.obj entries)
    | .arr items => formatRpcObject timestamp (.arr items)
    | .str text =>
        payload INTERNAL_SERVER_ERROR (.str text)
          [errorEntry INTERNAL_SERVER_ERROR (.str "RPC Error") (.str text)] timestamp
    | _ => formatUnexpected timestamp message

def formatHttp (timestamp : String) (exception : HttpException) : Json :=
  let status := Json.num (toString exception.status)
  let detail :=
    match exception.response with
    | .str text => .str text
    | response => nullish (member response "message") (.str "An error occurred")
  payload status (.str exception.message) [errorEntry status (.str exception.message) detail]
    timestamp

def formatException (timestamp : String) : Exception → Json
  | .invalidParameter validationErrors =>
      payload (.num "400002") (.str "Invalid Parameters")
        (validationErrors.map fun error => .obj
          [("code", .num "400002"), ("title", .str "Invalid Parameter Format"),
            ("detail", .str (error.message.getD "Invalid parameter value")),
            ("source", .obj [("parameter", .str (error.field.getD "unknown"))])])
        timestamp
  | .validation validationErrors =>
      payload (.num "400001") (.str "Validation Failed")
        (validationErrors.flatMap fun error => error.messages.map fun message => .obj
          [("code", .num "400001"), ("title", .str "Invalid Input"), ("detail", .str message),
            ("source", .obj [("pointer", .str ("/data/attributes/" ++ error.field))])])
        timestamp
  | .rpc message error => formatRpcException timestamp message error
  | .http exception => formatHttp timestamp exception
  | .queryFailed message => formatUnexpected timestamp message
  | .error message => formatUnexpected timestamp message
  | .other => formatUnexpected timestamp "Unknown error"

/-! ## The client -/

/-- The exception that the client throws: its status and its body. -/
structure Thrown where
  status : Json
  body : Json

/-- How the `catch` block of `sendWithContext` ends. -/
inductive Outcome where
  | thrown (exception : Thrown)
  /-- The call resolves to the default value, or to `null`. -/
  | fallback

section Client

-- The conversion `Number(text)`, with `none` for `NaN`.
variable (number : String → Option ℚ)

/-- The number that a comparison reads a value as. -/
def toNumber : Json → Option ℚ
  | .null => some 0
  | .bool b => some (if b then 1 else 0)
  | .obj _ => none
  | v => number v.toText

/-- The test `code >= 400 && code < 500`. -/
def isClientError (code : Json) : Bool :=
  match toNumber number code with
  | some q => 400 ≤ q && q < 500
  | none => false

/-- The test of the client: the value is a payload. -/
def isRpcErrorPayload (value : Json) : Bool :=
  match member value "status", member value "errors" with
  | some (.obj status), some (.arr _) => (status.lookup "code").isSome
  | _, _ => false

/-- The `switch` on the status code: five codes have an exception class of their own. -/
def exceptionFor (classes : List String) (code body : Json) : Thrown :=
  match code with
  | .num text =>
      if classes.contains text then ⟨.num text, body⟩
      else if isClientError number code then ⟨code, body⟩
      else ⟨INTERNAL_SERVER_ERROR, body⟩
  | _ => if isClientError number code then ⟨code, body⟩ else ⟨INTERNAL_SERVER_ERROR, body⟩

/-- The body of the exception for a payload: the detail of the first error, with its code if it
has one. -/
def exceptionBody (error message : Json) : Json :=
  let firstError :=
    match member error "errors" with
    | some (.arr (first :: _)) => first
    | _ => .null
  let detailMessage := nullish (member firstError "detail") message
  match member firstError "code" with
  | some (.num text) => .obj [("code", .num text), ("message", detailMessage)]
  | some (.str text) => .obj [("code", .str text), ("message", detailMessage)]
  | _ => detailMessage

def handleRpcErrorPayload (error : Json) : Thrown :=
  let status := (member error "status").getD .null
  let statusCode := (member status "code").getD .null
  let message := (member status "message").getD .null
  exceptionFor number ["400", "401", "403", "404", "409"] statusCode (exceptionBody error message)

/-- The test for the older format of an error: a status code of at least 400. -/
def isRpcErrorResponse (value : Json) : Bool :=
  let statusCode := nullish (member value "status_code") ((member value "statusCode").getD .null)
  ((member value "status_code").isSome || (member value "statusCode").isSome) &&
    (member value "message").isSome &&
    match statusCode with
    | .num text => (number text).any fun q => 400 ≤ q
    | _ => false

def handleRpcError (error : Json) : Thrown :=
  let statusCode := nullish (member error "status_code") INTERNAL_SERVER_ERROR
  let message := nullish (member error "message") (.str "Internal server error")
  exceptionFor number ["400", "401", "403", "404"] statusCode message

/-- The `catch` block of `sendWithContext` on an object that the transport delivered. -/
def catchDelivered (error : Json) : Outcome :=
  if isRpcErrorPayload error then .thrown (handleRpcErrorPayload number error)
  else if isRpcErrorResponse number error then .thrown (handleRpcError number error)
  else .fallback

end Client

/-! ## The status that arrives -/

/-- The exceptions of the repository that the filter gives a code of their own. -/
def Exception.hasOwnCode : Exception → Bool
  | .invalidParameter _ => true
  | .validation _ => true
  | _ => false

/-- The status that `AllExceptionsFilter` answers with when the exception is thrown over HTTP. -/
def Exception.httpStatus : Exception → Nat
  | .invalidParameter _ => 400
  | .validation _ => 400
  | .http exception => exception.status
  | .queryFailed _ => 422
  | _ => 500

/-- The status that the exception carries: the one of an HTTP exception, or the code that an
`RpcException` was given. -/
def Exception.carriedStatus : Exception → Json
  | .http exception => .num (toString exception.status)
  | .rpc _ given =>
      if isPayload given then
        ((member given "status").bind fun status => member status "code").getD
          INTERNAL_SERVER_ERROR
      else nullish (member given "status_code")
        (nullish (member given "statusCode") INTERNAL_SERVER_ERROR)
  | _ => INTERNAL_SERVER_ERROR

section Status

variable {number : String → Option ℚ}

theorem isClientError_natCast (hnumber : ∀ n : ℕ, number (toString n) = some (n : ℚ)) (n : ℕ) :
    isClientError number (.num (toString n)) = true ↔ 400 ≤ n ∧ n < 500 := by
  simp only [isClientError, toNumber, toText, hnumber, Bool.and_eq_true, decide_eq_true_eq]
  constructor
  · rintro ⟨h1, h2⟩
    exact ⟨by exact_mod_cast h1, by exact_mod_cast h2⟩
  · rintro ⟨h1, h2⟩
    exact ⟨by exact_mod_cast h1, by exact_mod_cast h2⟩

/-- The client keeps the codes of its range; a code with an exception class of its own is one of
them. -/
theorem exceptionFor_status (hnumber : ∀ n : ℕ, number (toString n) = some (n : ℚ))
    {classes : List ℕ} (hclasses : ∀ n ∈ classes, 400 ≤ n ∧ n < 500) (code body : Json) :
    exceptionFor number (classes.map toString) code body =
      ⟨if isClientError number code then code else INTERNAL_SERVER_ERROR, body⟩ := by
  have hrest : (if isClientError number code = true then (⟨code, body⟩ : Thrown)
      else ⟨INTERNAL_SERVER_ERROR, body⟩) =
      ⟨if isClientError number code = true then code else INTERNAL_SERVER_ERROR, body⟩ := by
    split <;> rfl
  unfold exceptionFor
  split
  · rename_i text
    by_cases hclass : (classes.map toString).contains text = true
    · obtain ⟨n, hn, rfl⟩ := List.mem_map.mp (List.contains_iff_mem.mp hclass)
      rw [if_pos hclass, if_pos ((isClientError_natCast hnumber n).mpr (hclasses n hn))]
    · rw [if_neg hclass]
      exact hrest
  · exact hrest

/-- A payload arrives as an exception with its code, if the client keeps it. -/
theorem catchDelivered_payload (hnumber : ∀ n : ℕ, number (toString n) = some (n : ℚ))
    {status : List (String × Json)} {errors : List Json} {error code : Json}
    (hstatus : member error "status" = some (.obj status))
    (herrors : member error "errors" = some (.arr errors))
    (hcode : status.lookup "code" = some code) :
    ∃ body, catchDelivered number error =
      .thrown ⟨if isClientError number code then code else INTERNAL_SERVER_ERROR, body⟩ := by
  have hpayload : isRpcErrorPayload error = true := by
    simp [isRpcErrorPayload, hstatus, herrors, hcode]
  have hclasses : ∀ n ∈ [400, 401, 403, 404, 409], 400 ≤ n ∧ n < 500 := by decide
  have hmember : member (.obj status) "code" = some code := hcode
  refine ⟨exceptionBody error ((member (.obj status) "message").getD .null), ?_⟩
  rw [catchDelivered, if_pos hpayload, handleRpcErrorPayload, hstatus]
  simp only [Option.getD_some, hmember]
  exact congrArg Outcome.thrown (exceptionFor_status hnumber hclasses code _)

/-- A payload that the filter builds. -/
theorem catchDelivered_built (hnumber : ∀ n : ℕ, number (toString n) = some (n : ℚ))
    (code message : Json) (errors : List Json) (timestamp : String) :
    ∃ body, catchDelivered number (payload code message errors timestamp) =
      .thrown ⟨if isClientError number code then code else INTERNAL_SERVER_ERROR, body⟩ :=
  catchDelivered_payload hnumber rfl rfl rfl

theorem exists_of_isPayload {value : Json} (h : isPayload value = true) :
    ∃ status errors code, member value "status" = some (.obj status) ∧
      member value "errors" = some (.arr errors) ∧ status.lookup "code" = some code := by
  unfold isPayload at h
  split at h
  · rename_i status errors _ hstatus herrors _
    simp only [Bool.and_eq_true] at h
    obtain ⟨code, hcode⟩ := Option.isSome_iff_exists.mp h.1.1
    exact ⟨status, errors, code, hstatus, herrors, hcode⟩
  · cases h

/-- What the filter makes of an `RpcException` that is no payload: a payload with the code it
carries. -/
theorem formatRpcException_eq {timestamp message : String} {given : Json}
    (h : isPayload given = false) : ∃ text errors,
      formatRpcException timestamp message given =
        payload (nullish (member given "status_code")
          (nullish (member given "statusCode") INTERNAL_SERVER_ERROR)) text errors timestamp := by
  have hneg : ¬ isPayload given = true := by simp [h]
  unfold formatRpcException
  rw [if_neg hneg]
  cases given with
  | obj entries => exact ⟨_, _, rfl⟩
  | arr items => exact ⟨_, _, rfl⟩
  | str text => exact ⟨_, _, rfl⟩
  | null => exact ⟨_, _, rfl⟩
  | bool b => exact ⟨_, _, rfl⟩
  | num text => exact ⟨_, _, rfl⟩

/-- **The status that arrives.** For every exception without a code of its own, the calling
service rethrows an HTTP exception, whose status is the one that the exception carries if that is
from 400 to 499, and 500 otherwise. -/
theorem rethrown_status (hnumber : ∀ n : ℕ, number (toString n) = some (n : ℚ))
    (timestamp : String) (e : Exception) (hown : e.hasOwnCode = false) :
    ∃ body, catchDelivered number (formatException timestamp e) = .thrown
      ⟨if isClientError number e.carriedStatus then e.carriedStatus else INTERNAL_SERVER_ERROR,
        body⟩ := by
  cases e with
  | invalidParameter validationErrors => cases hown
  | validation validationErrors => cases hown
  | rpc message given =>
      cases h : isPayload given with
      | true =>
          obtain ⟨status, errors, code, hstatus, herrors, hcode⟩ := exists_of_isPayload h
          have hcarried : (Exception.rpc message given).carriedStatus = code := by
            rw [Exception.carriedStatus, if_pos h, hstatus]
            exact congrArg (Option.getD · INTERNAL_SERVER_ERROR) hcode
          have hformat : formatRpcException timestamp message given = given := if_pos h
          rw [formatException, hformat, hcarried]
          exact catchDelivered_payload hnumber hstatus herrors hcode
      | false =>
          obtain ⟨text, errors, hformat⟩ := formatRpcException_eq h
          have hneg : ¬ isPayload given = true := by simp [h]
          rw [formatException, hformat, Exception.carriedStatus, if_neg hneg]
          exact catchDelivered_built hnumber _ _ _ _
  | http exception => exact catchDelivered_built hnumber _ _ _ _
  | queryFailed message => exact catchDelivered_built hnumber _ _ _ _
  | error message => exact catchDelivered_built hnumber _ _ _ _
  | other => exact catchDelivered_built hnumber _ _ _ _

end Status

/-- The conversion `Number(text)` on numerals. -/
def numeralValue (text : String) : Option ℚ := some (Nat.ofDigitChars 10 text.toList 0 : ℕ)

theorem numeralValue_toString (n : ℕ) : numeralValue (toString n) = some (n : ℚ) := by
  have htext : (toString n).toList = Nat.toDigits 10 n := by
    rw [Nat.toString_eq_repr, Nat.repr_eq_ofList_toDigits, String.toList_ofList]
  rw [numeralValue, htext, Nat.ofDigitChars_ten_toDigits]

/-- An HTTP exception with a message and nothing else. -/
def plainHttp (status : Nat) (message : String) : Exception :=
  .http ⟨status, message, .str message⟩

/-- A missing bucket arrives as a missing resource. -/
theorem rethrown_status_not_found :
    (∀ n : ℕ, numeralValue (toString n) = some (n : ℚ)) ∧
    (plainHttp 404 "Bucket does not exist.").hasOwnCode = false ∧
    ∃ body, catchDelivered numeralValue
      (formatException "2026-01-01T00:00:00.000Z" (plainHttp 404 "Bucket does not exist.")) =
        .thrown ⟨.num "404", body⟩ := by
  refine ⟨numeralValue_toString, rfl, ?_⟩
  obtain ⟨body, h⟩ := rethrown_status numeralValue_toString "2026-01-01T00:00:00.000Z"
    (plainHttp 404 "Bucket does not exist.") rfl
  have hclient : isClientError numeralValue (.num (toString 404)) = true :=
    (isClientError_natCast numeralValue_toString 404).mpr (by decide)
  exact ⟨body, h.trans (congrArg (fun status => Outcome.thrown ⟨status, body⟩) (if_pos hclient))⟩

/-- A storage service that is unavailable, status 503, arrives as an internal error. -/
theorem unavailable_becomes_internal :
    (plainHttp 503 "Cannot connect to the storage service.").httpStatus = 503 ∧
    ∃ body, catchDelivered numeralValue (formatException "2026-01-01T00:00:00.000Z"
      (plainHttp 503 "Cannot connect to the storage service.")) =
        .thrown ⟨.num "500", body⟩ := by
  refine ⟨rfl, ?_⟩
  obtain ⟨body, h⟩ := catchDelivered_built numeralValue_toString (.num (toString 503))
    (.str "Cannot connect to the storage service.")
    [errorEntry (.num (toString 503)) (.str "Cannot connect to the storage service.")
      (.str "Cannot connect to the storage service.")] "2026-01-01T00:00:00.000Z"
  have hserver : ¬ isClientError numeralValue (.num (toString 503)) = true := by
    rw [isClientError_natCast numeralValue_toString]
    decide
  exact ⟨body, h.trans (congrArg (fun status => Outcome.thrown ⟨status, body⟩) (if_neg hserver))⟩

end ErpApi.Rpc
