import ErpApi.AccessKeys.AccessKeysService
import ErpApi.Basic.Utf8
import ErpApi.Iam.PermissionGuard

set_option autoImplicit false

/-! # The access key guard

`AccessKeyGuard.canActivate` authenticates the requests of routes marked `@UseAccessKey()`. The
client signs a text made of the method, the path, the time stamp and a hash of the body; the
guard builds the same text from the request and has iam compare the signatures. A valid answer
becomes the user of the request, which `PermissionGuard` then reads.

The text does not determine the request: the query string is not part of it, and the body enters
it decoded as UTF-8. `stringToSign_binds_iff` says which pairs of requests share it.
-/

namespace ErpApi.AccessKeys

open Iam (UserSession)

/-- A request as the HTTP parser delivers it: method names are in upper case, and there is no
line feed in the request line or in a header. -/
structure HttpRequest where
  method : String
  url : String
  headers : String → Option String
  ip : Option String
  rawBody : Option (List UInt8)
  method_upper : method.toList.map Char.toUpper = method.toList
  method_line : '\n' ∉ method.toList
  url_line : '\n' ∉ url.toList
  headers_line : ∀ name value, headers name = some value → '\n' ∉ value.toList

namespace HttpRequest

variable (request : HttpRequest)

/-- The expression `request.url.split('?')[0]`. -/
def path : String := (Js.split '?' request.url).headD ""

/-- The rest of the request target. -/
def query : String := String.ofList (request.url.toList.dropWhile (· != '?'))

/-- The bytes of the body; a request without one has none. -/
def bodyBytes : List UInt8 := request.rawBody.getD []

def bodyString : String :=
  match request.rawBody with
  | none => ""
  | some rawBody => if rawBody.length > 0 then Utf8.decode rawBody else ""

end HttpRequest

/-- The string to sign; `sha256` is the hexadecimal digest of a text. -/
def buildStringToSign (sha256 : String → String) (request : HttpRequest) (timestamp : String) :
    String :=
  let method := String.ofList (request.method.toList.map Char.toUpper)
  method ++ "\n" ++ request.path ++ "\n" ++ timestamp ++ "\n" ++ sha256 request.bodyString

/-! ## The guard -/

def TIMESTAMP_FRESHNESS_MS : Int := 5 * 60 * 1000
def FAILED_ATTEMPT_LIMIT : Nat := 5
def FAILED_ATTEMPT_WINDOW_SECONDS : Nat := 60
def BLOCK_DURATION_SECONDS : Nat := 15 * 60

/-- The pattern `/^AKIA[A-Z0-9]{16}$/`. -/
def accessKeyIdPattern (id : String) : Bool :=
  "AKIA".toList <+: id.toList && id.length == 20 &&
    (id.toList.drop 4).all fun c => c.isUpper || c.isDigit

/-- The Redis keys of the guard, each with the time at which it expires. -/
structure GuardRedis where
  /-- The counters `access_key_failed:<id>`. -/
  failed : String → Option (Nat × Nat)
  /-- The marks `access_key_blocked:<id>`. -/
  blocked : String → Option Nat

/-- What the guard uses but does not define. -/
structure GuardEnv where
  sha256 : String → String
  /-- The call `Date.parse(text)`, with `none` for `NaN`. -/
  dateParse : String → Option Int
  /-- What `sendWithContext` resolves to or throws; `none` is its default, `null`. -/
  iam : VerifyPayload → Except ServiceError (Option VerifyResponse)

inductive AuthError where
  | unauthorized (message : String)
  | upstream (error : ServiceError)

/-- The value `request.user`. -/
structure RequestUser where
  user_session : UserSession
  conditional_permissions : List String

def isTimestampFresh (env : GuardEnv) (now : Nat) (timestamp : String) : Bool :=
  match env.dateParse timestamp with
  | none => false
  | some parsed => ((now : Int) - parsed).natAbs ≤ TIMESTAMP_FRESHNESS_MS

def getClientIp (request : HttpRequest) : Option String :=
  match request.headers "x-forwarded-for" with
  | some forwarded => some (Js.trim ((Js.split ',' forwarded).headD ""))
  | none => request.ip

def incrementFailedAttempts (redis : GuardRedis) (now : Nat) (accessKeyId : String) :
    GuardRedis :=
  let attempts :=
    match redis.failed accessKeyId with
    | some (count, expires) => if now < expires then count + 1 else 1
    | none => 1
  let failed := Function.update redis.failed accessKeyId
    (some (attempts, now + 1000 * FAILED_ATTEMPT_WINDOW_SECONDS))
  let blocked :=
    if attempts ≥ FAILED_ATTEMPT_LIMIT then
      Function.update redis.blocked accessKeyId (some (now + 1000 * BLOCK_DURATION_SECONDS))
    else redis.blocked
  ⟨failed, blocked⟩

/-- The user of a request with a valid signature. -/
def requestUser (context : AccessKeyContext) : RequestUser where
  user_session := ⟨some context.owner_id, context.permissions⟩
  conditional_permissions := context.conditional_permissions

/-- The guard on an access key route: the state of Redis after it, and the user it sets. -/
def canActivate (env : GuardEnv) (redis : GuardRedis) (now : Nat) (request : HttpRequest) :
    GuardRedis × Except AuthError RequestUser :=
  match request.headers "x-access-key-id", request.headers "x-timestamp",
    request.headers "x-signature" with
  | some accessKeyId, some timestamp, some signature =>
      if !accessKeyIdPattern accessKeyId then
        (redis, .error (.unauthorized "Invalid Access Key ID format"))
      else if !isTimestampFresh env now timestamp then
        (redis, .error (.unauthorized "Request timestamp is too old or in the future"))
      else if (redis.blocked accessKeyId).any fun expires => now < expires then
        (redis, .error (.unauthorized
          "Access Key is temporarily blocked due to repeated failed attempts"))
      else
        match env.iam
          { access_key_id := accessKeyId
            string_to_sign := buildStringToSign env.sha256 request timestamp
            provided_signature := signature
            source_ip := getClientIp request } with
        | .error e => (redis, .error (.upstream e))
        | .ok none => (incrementFailedAttempts redis now accessKeyId,
            .error (.unauthorized "Unauthorized"))
        | .ok (some result) =>
            match result.valid, result.context with
            | true, some context =>
                (⟨Function.update redis.failed accessKeyId none, redis.blocked⟩,
                  .ok (requestUser context))
            | _, _ => (incrementFailedAttempts redis now accessKeyId,
                .error (.unauthorized (result.reason.getD "Unauthorized")))
  | _, _, _ => (redis, .error (.unauthorized
      "Missing required headers: X-Access-Key-Id, X-Timestamp, X-Signature"))

/-! ## What the string to sign determines -/

theorem HttpRequest.path_append_query (request : HttpRequest) :
    request.path ++ request.query = request.url := by
  apply String.toList_injective
  rw [HttpRequest.path, HttpRequest.query, Js.split_headD, String.toList_append,
    String.toList_ofList, String.toList_ofList, List.takeWhile_append_dropWhile]

theorem HttpRequest.path_line (request : HttpRequest) : '\n' ∉ request.path.toList := by
  intro h
  apply request.url_line
  rw [← request.path_append_query, String.toList_append]
  exact List.mem_append_left _ h

theorem HttpRequest.bodyString_eq (request : HttpRequest) :
    request.bodyString = Utf8.decode request.bodyBytes := by
  unfold HttpRequest.bodyString HttpRequest.bodyBytes
  cases request.rawBody with
  | none => rfl
  | some rawBody =>
      cases rawBody with
      | nil => rfl
      | cons b bytes => simp

/-- A field without a line feed ends where the first line feed is. -/
theorem append_line_inj {a b rest rest' : String} (ha : '\n' ∉ a.toList) (hb : '\n' ∉ b.toList)
    (h : a ++ "\n" ++ rest = b ++ "\n" ++ rest') : a = b ∧ rest = rest' := by
  have hlist : a.toList ++ '\n' :: rest.toList = b.toList ++ '\n' :: rest'.toList := by
    have htext := congrArg String.toList h
    simpa [String.toList_append] using htext
  have hfield : ∀ (l tail : List Char), '\n' ∉ l →
      (l ++ '\n' :: tail).takeWhile (· != '\n') = l := by
    intro l tail hl
    have hpos : ∀ c ∈ l, (c != '\n') = true := by
      intro c hc
      simpa using ne_of_mem_of_not_mem hc hl
    rw [List.takeWhile_append_of_pos hpos]
    simp
  have hab : a.toList = b.toList := by
    calc a.toList = (a.toList ++ '\n' :: rest.toList).takeWhile (· != '\n') :=
          (hfield _ _ ha).symm
      _ = (b.toList ++ '\n' :: rest'.toList).takeWhile (· != '\n') := by rw [hlist]
      _ = b.toList := hfield _ _ hb
  refine ⟨String.toList_injective hab, String.toList_injective ?_⟩
  rw [hab, List.append_cancel_left_eq] at hlist
  exact List.tail_eq_of_cons_eq hlist

section Binding

variable {sha256 : String → String} (r₁ r₂ : HttpRequest) (t₁ t₂ : String)

/-- The fields that the text holds. -/
def SignedAlike : Prop :=
  r₁.method = r₂.method ∧ r₁.path = r₂.path ∧ t₁ = t₂ ∧
    Utf8.decode r₁.bodyBytes = Utf8.decode r₂.bodyBytes

/-- The same method, full target, time stamp and body bytes. -/
def SameRequest : Prop :=
  r₁.method = r₂.method ∧ r₁.url = r₂.url ∧ t₁ = t₂ ∧ r₁.bodyBytes = r₂.bodyBytes

/-- The concatenation is unambiguous: it determines each of the fields. -/
theorem buildStringToSign_eq_iff (hsha : Function.Injective sha256)
    (h₁ : r₁.headers "x-timestamp" = some t₁) (h₂ : r₂.headers "x-timestamp" = some t₂) :
    buildStringToSign sha256 r₁ t₁ = buildStringToSign sha256 r₂ t₂ ↔
      SignedAlike r₁ r₂ t₁ t₂ := by
  have hunfold : ∀ (r : HttpRequest) (t : String), buildStringToSign sha256 r t =
      r.method ++ "\n" ++ (r.path ++ "\n" ++ (t ++ "\n" ++ sha256 r.bodyString)) := by
    intro r t
    simp only [buildStringToSign, r.method_upper, String.ofList_toList, String.append_assoc]
  rw [hunfold, hunfold]
  constructor
  · intro h
    obtain ⟨hmethod, h⟩ := append_line_inj r₁.method_line r₂.method_line h
    obtain ⟨hpath, h⟩ := append_line_inj r₁.path_line r₂.path_line h
    obtain ⟨htime, h⟩ :=
      append_line_inj (r₁.headers_line _ _ h₁) (r₂.headers_line _ _ h₂) h
    have hbody : r₁.bodyString = r₂.bodyString := hsha h
    rw [r₁.bodyString_eq, r₂.bodyString_eq] at hbody
    exact ⟨hmethod, hpath, htime, hbody⟩
  · rintro ⟨hmethod, hpath, htime, hbody⟩
    rw [hmethod, hpath, htime, r₁.bodyString_eq, r₂.bodyString_eq, hbody]

/-- **Which pairs of requests the string to sign binds.** An equal string means an equal method,
target, time stamp and body exactly for those pairs which, if they agree on the fields that the
string holds, also agree on the query string and on the bytes of the body. -/
theorem stringToSign_binds_iff (hsha : Function.Injective sha256)
    (h₁ : r₁.headers "x-timestamp" = some t₁) (h₂ : r₂.headers "x-timestamp" = some t₂) :
    (buildStringToSign sha256 r₁ t₁ = buildStringToSign sha256 r₂ t₂ →
      SameRequest r₁ r₂ t₁ t₂) ↔
    (r₁.method = r₂.method → r₁.path = r₂.path → t₁ = t₂ →
      Utf8.decode r₁.bodyBytes = Utf8.decode r₂.bodyBytes →
      r₁.query = r₂.query ∧ r₁.bodyBytes = r₂.bodyBytes) := by
  rw [buildStringToSign_eq_iff r₁ r₂ t₁ t₂ hsha h₁ h₂]
  constructor
  · intro h hmethod hpath htime hbody
    obtain ⟨-, hurl, -, hbytes⟩ := h ⟨hmethod, hpath, htime, hbody⟩
    refine ⟨?_, hbytes⟩
    rw [HttpRequest.query, HttpRequest.query, hurl]
  · rintro h ⟨hmethod, hpath, htime, hbody⟩
    obtain ⟨hquery, hbytes⟩ := h hmethod hpath htime hbody
    refine ⟨hmethod, ?_, htime, hbytes⟩
    calc r₁.url = r₁.path ++ r₁.query := r₁.path_append_query.symm
      _ = r₂.path ++ r₂.query := by rw [hpath, hquery]
      _ = r₂.url := r₂.path_append_query

/-- Two requests whose bodies are UTF-8 texts are told apart by all but the query string. -/
theorem same_of_text_bodies {b₁ b₂ : String} (hsha : Function.Injective sha256)
    (h₁ : r₁.headers "x-timestamp" = some t₁) (h₂ : r₂.headers "x-timestamp" = some t₂)
    (hb₁ : r₁.bodyBytes = Utf8.encode b₁) (hb₂ : r₂.bodyBytes = Utf8.encode b₂)
    (h : buildStringToSign sha256 r₁ t₁ = buildStringToSign sha256 r₂ t₂) :
    r₁.method = r₂.method ∧ r₁.path = r₂.path ∧ t₁ = t₂ ∧ r₁.bodyBytes = r₂.bodyBytes := by
  obtain ⟨hmethod, hpath, htime, hbody⟩ :=
    (buildStringToSign_eq_iff r₁ r₂ t₁ t₂ hsha h₁ h₂).mp h
  refine ⟨hmethod, hpath, htime, ?_⟩
  rw [hb₁, hb₂] at hbody ⊢
  exact Utf8.encode_eq_of_decode_eq hbody

end Binding

def noon : String := "2026-01-01T12:00:00Z"

/-- A request for orders without a body. -/
def getOrders (url : String) (hurl : '\n' ∉ url.toList) : HttpRequest where
  method := "GET"
  url := url
  headers name := if name = "x-timestamp" then some noon else none
  ip := none
  rawBody := none
  method_upper := by decide
  method_line := by decide
  url_line := hurl
  headers_line := by
    intro name value h
    split at h
    · obtain rfl := Option.some.inj h
      decide
    · cases h

/-- A digest that is SHA-256 on the empty text. -/
def emptyTextDigest (text : String) : String :=
  "e3b0c44298fc1c149afbf4c8996fb92427ae41e4649b934ca495991b7852b855" ++ text

theorem emptyTextDigest_injective : Function.Injective emptyTextDigest := by
  have h : ∀ digest : String, Function.Injective fun text => digest ++ text := by
    intro digest a b hab
    apply String.toList_injective
    simpa [String.toList_append] using congrArg String.toList hab
  exact h _

/-- Requests for different paths are told apart. -/
theorem stringToSign_binds_paths :
    Function.Injective emptyTextDigest ∧
    (buildStringToSign emptyTextDigest (getOrders "/orders" (by decide)) noon =
      buildStringToSign emptyTextDigest (getOrders "/orders/7" (by decide)) noon →
      SameRequest (getOrders "/orders" (by decide)) (getOrders "/orders/7" (by decide))
        noon noon) := by
  refine ⟨emptyTextDigest_injective, (stringToSign_binds_iff _ _ _ _ emptyTextDigest_injective
    rfl rfl).mpr ?_⟩
  intro _ hpath
  exact absurd hpath (by decide)

def openOrders : HttpRequest := getOrders "/orders?status=open" (by decide)
def paidOrders : HttpRequest := getOrders "/orders?status=paid" (by decide)

/-- A signature for the open orders is one for the paid orders: the two requests differ in the
query string only. -/
theorem stringToSign_ignores_query :
    ¬ (buildStringToSign emptyTextDigest openOrders noon =
      buildStringToSign emptyTextDigest paidOrders noon →
      SameRequest openOrders paidOrders noon noon) := by
  have hsigned : SignedAlike openOrders paidOrders noon noon := 
    ⟨Eq.refl "GET", by decide, Eq.refl noon, Eq.refl (Utf8.decode [])⟩
  have hurl : openOrders.url ≠ paidOrders.url := by decide
  have hstring := (buildStringToSign_eq_iff openOrders paidOrders noon noon
    emptyTextDigest_injective rfl rfl).mpr hsigned
  intro h
  exact hurl (h hstring).2.1

end ErpApi.AccessKeys
