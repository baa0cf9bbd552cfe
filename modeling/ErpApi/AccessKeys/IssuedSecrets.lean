import ErpApi.AccessKeys.KeyGenerator

set_option autoImplicit false

/-! # Who can sign for a key

`verifySignature` compares the given signature with the HMAC under the stored secret. However
calls interleave, whatever is updated, revoked, deleted, cached or left to expire, the stored
secret of a key is the one that was handed out when a key with this id was issued: no statement
writes the columns `access_key_id`, `secret_key_encrypted`, `owner_id` and `owner_type` of a row
again, and a cached record has them from a row (`Credentials`, `preserved_issued`).

So in every run a signature is found valid only if it is the HMAC of the text under that secret,
and it is called invalid only if it is not (`Judged`, `judged_by_issued_secret`); the user that a
valid signature stands for is the owner for whom the key was issued.
-/

namespace ErpApi.AccessKeys

open Interleaving (run)

/-! ## The columns that are written once -/

/-- Whose key it is, and its secret. -/
structure Credentials where
  access_key_id : String
  secret_key_encrypted : String
  owner_id : String
  owner_type : OwnerType

def CachedAccessKeyRecord.credentials (record : CachedAccessKeyRecord) : Credentials :=
  ⟨record.access_key_id, record.secret_key_encrypted, record.owner_id, record.owner_type⟩

def AccessKey.credentials (k : AccessKey) : Credentials := k.record.credentials

theorem AccessKey.credentials_stamp (change : Change) (columns : List Column) (k : AccessKey) :
    (k.stamp change columns).credentials = k.credentials := by
  unfold AccessKey.stamp
  split <;> rfl

theorem AccessKey.credentials_write (change : Change) (entity : AccessKey)
    (columns : List Column) (k : AccessKey) :
    (k.write change entity columns).credentials = k.credentials := by
  unfold AccessKey.write
  split <;> rfl

theorem AccessKey.credentials_remove (change : Change) (k : AccessKey) :
    (k.remove change).credentials = k.credentials := by
  unfold AccessKey.remove
  split <;> rfl

section Issued

-- The bodies and the key pairs of the requests that issue keys.
variable (handedOut : CreateAccessKeyDTO → KeyPair → Prop)

/-- They are those of a key that was handed out. -/
def Credentials.Issued (credentials : Credentials) : Prop :=
  ∃ dto pair, handedOut dto pair ∧
    credentials = ⟨pair.access_key_id, pair.secret_key_encrypted, dto.owner_id, dto.owner_type⟩

structure StoreIssued (s : Store) : Prop where
  rows : ∀ k ∈ s.keys.rows, k.credentials.Issued handedOut
  cache : ∀ a record expires, s.cache a = some (record, expires) →
    record.access_key_id = a ∧ record.credentials.Issued handedOut

variable (env : Env)

/-- The signature is the HMAC under the secret of the pair. -/
def Signed (payload : VerifyPayload) (pair : KeyPair) : Prop :=
  payload.provided_signature = env.hmac pair.secret_key payload.string_to_sign

/-- The answer of `verifySignature` goes by the secret that was handed out, and the user it names
is the owner for whom the key was issued. -/
structure Judged (payload : VerifyPayload) (answer : Answer) : Prop where
  accepted : ∀ response, answer = .verified response → response.valid = true →
    ∃ context dto pair, response.context = some context ∧ handedOut dto pair ∧
      pair.access_key_id = payload.access_key_id ∧ Signed env payload pair ∧
      context.access_key_id = pair.access_key_id ∧ context.owner_id = dto.owner_id ∧
      context.owner_type = dto.owner_type
  rejected : answer = refused "Invalid signature" →
    ∃ dto pair, handedOut dto pair ∧ pair.access_key_id = payload.access_key_id ∧
      ¬ Signed env payload pair
  /-- No secret fails to be decrypted. -/
  decrypted : ∀ message, answer ≠ .thrown (.error message)

/-- The record in hand of a call that verifies. -/
def Held (request : Request) (payload : VerifyPayload) (record : CachedAccessKeyRecord)
    (signed : KeyPair → Prop) : Prop :=
  request = .verifySignature payload ∧ record.access_key_id = payload.access_key_id ∧
    ∃ dto pair, handedOut dto pair ∧ signed pair ∧ record.credentials =
      ⟨pair.access_key_id, pair.secret_key_encrypted, dto.owner_id, dto.owner_type⟩

/-- Where a call may stand. -/
def CallIssued (call : Call) : Prop :=
  match call.phase with
  | .insert dto pair => handedOut dto pair ∧ ∀ payload, call.request ≠ .verifySignature payload
  | .get payload => call.request = .verifySignature payload
  | .select payload => call.request = .verifySignature payload
  | .setex payload record => Held handedOut call.request payload record fun _ => True
  | .policies payload record => Held handedOut call.request payload record (Signed env payload)
  | .done answer => ∀ payload, call.request = .verifySignature payload →
      Judged handedOut env payload answer
  | _ => ∀ payload, call.request ≠ .verifySignature payload

variable {handedOut env}

/-! ## Rows and records -/

theorem Credentials.Issued.held {record : CachedAccessKeyRecord} {request : Request}
    {payload : VerifyPayload} (h : record.credentials.Issued handedOut)
    (hrequest : request = .verifySignature payload)
    (haccess : record.access_key_id = payload.access_key_id) :
    Held handedOut request payload record fun _ => True := by
  obtain ⟨dto, pair, hissued, hcredentials⟩ := h
  exact ⟨hrequest, haccess, dto, pair, hissued, trivial, hcredentials⟩

theorem Held.issued {record : CachedAccessKeyRecord} {request : Request} {payload : VerifyPayload}
    {signed : KeyPair → Prop} (h : Held handedOut request payload record signed) :
    record.credentials.Issued handedOut := by
  obtain ⟨-, -, dto, pair, hissued, -, hcredentials⟩ := h
  exact ⟨dto, pair, hissued, hcredentials⟩

/-- A store whose rows come from rows with the same credentials. -/
theorem StoreIssued.of_rows {s s' : Store} (h : StoreIssued handedOut s)
    (hrows : ∀ k' ∈ s'.keys.rows, ∃ k ∈ s.keys.rows, k'.credentials = k.credentials)
    (hcache : s'.cache = s.cache) : StoreIssued handedOut s' := by
  constructor
  · intro k' hk'
    obtain ⟨k, hk, hsame⟩ := hrows k' hk'
    rw [hsame]
    exact h.rows k hk
  · rw [hcache]
    exact h.cache

theorem storeIssued_insert {s : Store} {dto : CreateAccessKeyDTO} {pair : KeyPair}
    (h : StoreIssued handedOut s) (hissued : handedOut dto pair) :
    StoreIssued handedOut (insert env s dto pair).1 := by
  unfold insert
  dsimp only
  split
  · exact ⟨h.rows, h.cache⟩
  · split
    · exact ⟨h.rows, h.cache⟩
    · rename_i keys hcommit
      have hrows := AccessKeyTable.rows_of_commit hcommit
      refine ⟨fun k hk => ?_, h.cache⟩
      have hmem : k ∈ s.keys.rows ++ [newKey (env.generate s.generated) dto pair] := by
        rw [← hrows]
        exact hk
      rcases List.mem_append.mp hmem with hold | hnew
      · exact h.rows k hold
      · obtain rfl := List.mem_singleton.mp hnew
        exact ⟨dto, pair, hissued, rfl⟩

theorem storeIssued_write {s s' : Store} {change : Change} {entity : AccessKey}
    {columns : List Column} {sync : Option PolicySync} (h : StoreIssued handedOut s)
    (hwrite : write env s change entity columns sync = .ok s') : StoreIssued handedOut s' := by
  obtain ⟨hrows, hcache, -⟩ := write_eq_ok hwrite
  refine h.of_rows ?_ hcache
  intro k' hk'
  rw [hrows] at hk'
  obtain ⟨k, hk, rfl⟩ := List.mem_map.mp hk'
  exact ⟨k, hk, AccessKey.credentials_write change entity columns k⟩

theorem storeIssued_remove {s s' : Store} {change : Change} {id : String} {softDelete : Bool}
    (h : StoreIssued handedOut s) (hremove : remove s change id softDelete = .ok s') :
    StoreIssued handedOut s' := by
  obtain ⟨hrows, hcache, -⟩ := remove_eq_ok hremove
  refine h.of_rows ?_ hcache
  intro k' hk'
  rcases hrows with hsoft | hhard
  · rw [hsoft] at hk'
    obtain ⟨k, hk, rfl⟩ := List.mem_map.mp hk'
    exact ⟨k, hk, k.credentials_remove change⟩
  · rw [hhard] at hk'
    exact ⟨k', (List.mem_filter.mp hk').1, rfl⟩

theorem storeIssued_stamp {s : Store} (h : StoreIssued handedOut s) (change : Change)
    (columns : List Column) :
    StoreIssued handedOut { s with keys := s.keys.stamp change columns } := by
  refine h.of_rows ?_ rfl
  intro k' hk'
  obtain ⟨k, hk, rfl⟩ := List.mem_map.mp hk'
  exact ⟨k, hk, k.credentials_stamp change columns⟩

theorem storeIssued_del {s : Store} (h : StoreIssued handedOut s) (access_key_id : String)
    (returned : List Change) :
    StoreIssued handedOut { s.del access_key_id with returned := returned } := by
  refine ⟨h.rows, fun a record expires hcached => ?_⟩
  have hold : (if a = access_key_id then none else s.cache a) = some (record, expires) := hcached
  split at hold
  · cases hold
  · exact h.cache a record expires hold

theorem storeIssued_setex {s : Store} (h : StoreIssued handedOut s)
    {record : CachedAccessKeyRecord} (hrecord : record.credentials.Issued handedOut)
    (ttlSeconds : Nat) : StoreIssued handedOut (s.setex record.access_key_id ttlSeconds record) := by
  refine ⟨h.rows, fun a record' expires hcached => ?_⟩
  have hold : (if a = record.access_key_id then some (record, s.clock + 1000 * ttlSeconds)
      else s.cache a) = some (record', expires) := hcached
  split at hold
  · rename_i heq
    obtain ⟨rfl, -⟩ := Prod.mk.inj (Option.some.inj hold)
    exact ⟨heq.symm, hrecord⟩
  · exact h.cache a record' expires hold

/-! ## The decision -/

theorem ipRefused_cases (env : Env) (source_ip : Option String) (metadata : Option Metadata) :
    (∃ refuses, ipRefused env source_ip metadata = .ok refuses) ∨
      ipRefused env source_ip metadata = .error .typeError := by
  unfold ipRefused
  split
  · exact .inl ⟨_, rfl⟩
  · unfold whitelistRefuses
    split
    · split <;> exact .inl ⟨_, rfl⟩
    · split <;> exact .inl ⟨_, rfl⟩
    · split
      · exact .inl ⟨_, rfl⟩
      · exact .inr rfl
      · exact .inl ⟨_, rfl⟩
    · exact .inl ⟨_, rfl⟩

/-- The decision on a record whose secret is known: the checks before the signature refuse, or the
metadata is malformed, or the signature decides. -/
theorem checkRecord_cases (now : Nat) (payload : VerifyPayload) {record : CachedAccessKeyRecord}
    {secret : String} (hsecret : env.decryptSecret record.secret_key_encrypted = .ok secret) :
    (∃ reason, checkRecord env now payload record = .ok (some reason) ∧
        reason ≠ "Invalid signature") ∨
      checkRecord env now payload record = .error .typeError ∨
      checkRecord env now payload record =
        if payload.provided_signature = env.hmac secret payload.string_to_sign then .ok none
        else .ok (some "Invalid signature") := by
  unfold checkRecord
  split
  · have hreason : "Access Key is " ++ record.status.text ≠ "Invalid signature" := by
      cases record.status <;> decide
    exact .inl ⟨_, rfl, hreason⟩
  split
  · exact .inl ⟨"Access Key has expired", rfl, by decide⟩
  rcases ipRefused_cases env payload.source_ip record.metadata with ⟨refuses, hrefuses⟩ | herror
  · cases refuses with
    | true =>
        refine .inl ⟨"Request from unauthorized IP address", ?_, by decide⟩
        rw [hrefuses]
        rfl
    | false =>
        refine .inr (.inr ?_)
        rw [hrefuses, hsecret]
        by_cases hsigned : payload.provided_signature = env.hmac secret payload.string_to_sign
        · simp [verifyHmac, hsigned, bind, Except.bind, pure, Except.pure]
        · simp [verifyHmac, hsigned, bind, Except.bind, pure, Except.pure]
  · refine .inr (.inl ?_)
    rw [herror]
    rfl

/-- A refusal for another reason than the signature. -/
theorem judged_refused {payload : VerifyPayload} {reason : String}
    (hreason : reason ≠ "Invalid signature") :
    Judged handedOut env payload (refused reason) := by
  refine ⟨fun response hanswer hvalid => ?_, fun hanswer => ?_, fun message hanswer => ?_⟩
  · obtain rfl := Answer.verified.inj hanswer
    cases hvalid
  · have hsame := Answer.verified.inj hanswer
    exact absurd (Option.some.inj (VerifyResponse.mk.inj hsame).2.2) hreason
  · cases hanswer

/-- The call after the checks on its record. -/
theorem callIssued_decideOn (s : Store) (call : Call) {payload : VerifyPayload}
    {record : CachedAccessKeyRecord}
    (hdecrypt : ∀ dto pair, handedOut dto pair →
      env.decryptSecret pair.secret_key_encrypted = .ok pair.secret_key)
    (hheld : Held handedOut call.request payload record fun _ => True) :
    CallIssued handedOut env
      { call with record := some record, phase := decideOn env s payload record } := by
  obtain ⟨hrequest, haccess, dto, pair, hissued, -, hcredentials⟩ := hheld
  have hid : record.access_key_id = pair.access_key_id :=
    congrArg Credentials.access_key_id hcredentials
  have hsecret : env.decryptSecret record.secret_key_encrypted = .ok pair.secret_key := by
    have hencrypted : record.secret_key_encrypted = pair.secret_key_encrypted :=
      congrArg Credentials.secret_key_encrypted hcredentials
    rw [hencrypted]
    exact hdecrypt dto pair hissued
  have hpayload : ∀ other, call.request = .verifySignature other → other = payload := by
    intro other hother
    rw [hrequest] at hother
    exact (Request.verifySignature.inj hother).symm
  rcases checkRecord_cases s.clock payload hsecret with
    ⟨reason, hcheck, hreason⟩ | hcheck | hcheck
  · have hphase : decideOn env s payload record = .done (refused reason) := by
      rw [decideOn, hcheck]
    rw [hphase]
    exact fun other _ => judged_refused hreason
  · have hphase : decideOn env s payload record = .done (.thrown .typeError) := by
      rw [decideOn, hcheck]
    rw [hphase]
    intro other hother
    refine ⟨fun response hanswer _ => ?_, fun hanswer => ?_, fun message hanswer => ?_⟩
    · cases hanswer
    · cases hanswer
    · cases hanswer
  · by_cases hsigned : payload.provided_signature = env.hmac pair.secret_key payload.string_to_sign
    · rw [if_pos hsigned] at hcheck
      have hphase : decideOn env s payload record = .policies payload record := by
        rw [decideOn, hcheck]
      rw [hphase]
      exact ⟨hrequest, haccess, dto, pair, hissued, hsigned, hcredentials⟩
    · rw [if_neg hsigned] at hcheck
      have hphase : decideOn env s payload record = .done (refused "Invalid signature") := by
        rw [decideOn, hcheck]
      rw [hphase]
      intro other hother
      obtain rfl := hpayload other hother
      refine ⟨fun response hanswer hvalid => ?_, fun _ => ?_, fun message hanswer => ?_⟩
      · obtain rfl := Answer.verified.inj hanswer
        cases hvalid
      · exact ⟨dto, pair, hissued, hid.symm.trans haccess, hsigned⟩
      · cases hanswer

/-- The answer of a valid signature. -/
theorem judged_verified {s : Store} {request : Request} {payload : VerifyPayload}
    {record : CachedAccessKeyRecord}
    (hheld : Held handedOut request payload record (Signed env payload)) :
    Judged handedOut env payload (verified env s record) := by
  obtain ⟨-, haccess, dto, pair, hissued, hsigned, hcredentials⟩ := hheld
  have hid : record.access_key_id = pair.access_key_id :=
    congrArg Credentials.access_key_id hcredentials
  unfold verified
  split
  · refine ⟨fun response hanswer _ => ?_, fun hanswer => ?_, fun message hanswer => ?_⟩
    · cases hanswer
    · cases hanswer
    · cases hanswer
  · refine ⟨fun response hanswer _ => ?_, fun hanswer => ?_, fun message hanswer => ?_⟩
    · obtain rfl := Answer.verified.inj hanswer
      exact ⟨_, dto, pair, rfl, hissued, hid.symm.trans haccess, hsigned, hid,
        congrArg Credentials.owner_id hcredentials, congrArg Credentials.owner_type hcredentials⟩
    · have hsame := Answer.verified.inj hanswer
      have hvalid : true = false := congrArg VerifyResponse.valid hsame
      cases hvalid
    · cases hanswer

/-! ## Every run -/

/-- A call that does not verify may go to any phase but those of a verification. -/
theorem callIssued_done {call : Call} (hother : ∀ payload, call.request ≠ .verifySignature payload)
    (answer : Answer) : CallIssued handedOut env { call with phase := .done answer } :=
  fun payload hrequest => absurd hrequest (hother payload)

/-- **One command.** -/
theorem command_issued {s : Store} {call : Call}
    (hdecrypt : ∀ dto pair, handedOut dto pair →
      env.decryptSecret pair.secret_key_encrypted = .ok pair.secret_key)
    (hs : StoreIssued handedOut s) (hc : CallIssued handedOut env call) :
    StoreIssued handedOut (command env s call).1 ∧
      CallIssued handedOut env (command env s call).2 := by
  obtain ⟨request, atStart, record, phase⟩ := call
  cases phase with
  | insert dto pair =>
      obtain ⟨hissued, hother⟩ := hc
      exact ⟨storeIssued_insert hs hissued, callIssued_done hother _⟩
  | findById id operation =>
      simp only [command]
      split
      · exact ⟨hs, callIssued_done hc _⟩
      · refine ⟨⟨hs.rows, hs.cache⟩, ?_⟩
        cases operation <;> exact hc
  | preload change id data =>
      simp only [command]
      split
      · exact ⟨hs, callIssued_done hc _⟩
      · split
        · exact ⟨hs, callIssued_done hc _⟩
        · exact ⟨hs, hc⟩
  | load change entity policyIds =>
      simp only [command]
      split
      · exact ⟨hs, callIssued_done hc _⟩
      · exact ⟨storeIssued_stamp hs _ _, hc⟩
  | write change entity columns sync =>
      simp only [command]
      split
      · exact ⟨hs, callIssued_done hc _⟩
      · rename_i s' hwrite
        exact ⟨storeIssued_write hs hwrite, hc⟩
  | remove change id access_key_id softDelete =>
      simp only [command]
      split
      · exact ⟨hs, callIssued_done hc _⟩
      · rename_i s' hremove
        exact ⟨storeIssued_remove hs hremove, hc⟩
  | del change access_key_id answer =>
      exact ⟨storeIssued_del hs access_key_id _, callIssued_done hc _⟩
  | get payload =>
      simp only [command]
      split
      · rename_i record' hcached
        obtain ⟨expires, hcached⟩ := getCached_eq_some hcached
        obtain ⟨haccess, hissued⟩ := hs.cache _ record' expires hcached
        exact ⟨hs, callIssued_decideOn s ⟨request, atStart, record, .get payload⟩
          hdecrypt (hissued.held hc haccess)⟩
      · exact ⟨hs, hc⟩
  | select payload =>
      simp only [command]
      split
      · exact ⟨hs, fun other _ => judged_refused (by decide)⟩
      · rename_i key hfind
        obtain ⟨hmem, haccess, -⟩ := mem_of_findByAccessKeyId hfind
        exact ⟨hs, Credentials.Issued.held (hs.rows key hmem) hc haccess⟩
  | setex payload record' =>
      obtain ⟨-, haccess, -⟩ := id hc
      have hstored := storeIssued_setex hs (Held.issued hc) KEY_CACHE_TTL_SECONDS
      rw [haccess] at hstored
      exact ⟨hstored, callIssued_decideOn _ ⟨request, atStart, record, .setex payload record'⟩
        hdecrypt hc⟩
  | policies payload record' =>
      obtain ⟨hrequest, -⟩ := id hc
      refine ⟨hs, fun other hother => ?_⟩
      rw [show request = .verifySignature payload from hrequest] at hother
      obtain rfl := Request.verifySignature.inj hother
      exact judged_verified hc
  | done answer => exact ⟨hs, hc⟩

theorem preserved_issued
    (hdecrypt : ∀ dto pair, handedOut dto pair →
      env.decryptSecret pair.secret_key_encrypted = .ok pair.secret_key) :
    Interleaving.Preserved (service env)
      (fun _ e => ∀ dto pair, e = .start (.issue dto pair) → handedOut dto pair)
      (StoreIssued handedOut) (fun _ => CallIssued handedOut env) where
  start c request hok _ := by
    cases request with
    | issue dto pair => exact ⟨hok dto pair rfl, fun payload hrequest => by cases hrequest⟩
    | operate id operation =>
        intro payload hrequest
        cases hrequest
    | verifySignature payload => rfl
  command c i call _ _ hs hc := command_issued hdecrypt hs hc
  others c i j call other _ _ _ _ _ _ hother := hother
  surroundings c ms _ hs := ⟨⟨hs.rows, hs.cache⟩, fun call _ hc => hc⟩

end Issued

/-- The run has a request that issues the key with this secret. -/
def HandedOut (events : List Event) (dto : CreateAccessKeyDTO) (pair : KeyPair) : Prop :=
  .start (.issue dto pair) ∈ events

/-- The service whose secrets are encrypted under `masterKey`. -/
def withSecrets (env : Env) (gcm : Aes256Gcm) (masterKey : String) : Env :=
  { env with decryptSecret := fun payload => decryptSecret gcm payload masterKey }

/-- **Signatures are judged by the secret that was handed out.** In every run, however the calls
interleave, in which keys are issued with generated pairs, every answered `verifySignature` that
says valid has seen the HMAC under a secret issued with the id, and it names the owner for whom
that key was issued; one that says invalid has not; and no secret fails to be decrypted. -/
theorem judged_by_issued_secret (env : Env) (gcm : Aes256Gcm) (masterKey : String)
    (events : List Event)
    (hissue : ∀ dto pair, HandedOut events dto pair →
      ∃ random, issuedPair gcm masterKey random = .ok pair) :
    ∀ call ∈ (run (service (withSecrets env gcm masterKey)) init events).calls,
      ∀ payload answer, call.request = .verifySignature payload → call.phase = .done answer →
        Judged (HandedOut events) (withSecrets env gcm masterKey) payload answer := by
  have hdecrypt : ∀ dto pair, HandedOut events dto pair →
      (withSecrets env gcm masterKey).decryptSecret pair.secret_key_encrypted =
        .ok pair.secret_key := by
    intro dto pair hpair
    obtain ⟨random, hrandom⟩ := hissue dto pair hpair
    exact decryptSecret_issuedPair gcm hrandom
  have hinit : Interleaving.Keeps (StoreIssued (HandedOut events))
      (fun _ => CallIssued (HandedOut events) (withSecrets env gcm masterKey)) init := by
    refine ⟨⟨?_, ?_⟩, ?_⟩
    · intro k hk
      cases hk
    · intro a record expires hcached
      cases hcached
    · intro call hcall
      cases hcall
  have hok : Interleaving.AllSteps (service (withSecrets env gcm masterKey))
      (fun _ e => ∀ dto pair, e = .start (.issue dto pair) → HandedOut events dto pair) init
      events := by
    refine Interleaving.allSteps_of_forall _ init fun e he _ dto pair heq => ?_
    rw [heq] at he
    exact he
  obtain ⟨-, hcalls⟩ := Interleaving.run_keeps (preserved_issued hdecrypt) hok hinit
  intro call hcall payload answer hrequest hphase
  have hc : CallIssued (HandedOut events) (withSecrets env gcm masterKey) call :=
    hcalls call hcall
  unfold CallIssued at hc
  rw [hphase] at hc
  exact hc payload hrequest

/-! ## A run -/

/-- HMAC-SHA256 of the text `GET` under the secret of `countingPair`. -/
def countingEnv : Env :=
  { sampleEnv with hmac := fun secret text =>
      if secret = countingPair.secret_key ∧ text = "GET" then
        "1d1c797a3db6f4465e96bc45e233c24c5d06a5e944437f3fd5ea12b8ba4e4c49"
      else "" }

def countingDto : CreateAccessKeyDTO :=
  ⟨"Warehouse-Integration", none, "o", .service_account, none, none⟩

/-- The key is issued, and then a request with the signature is verified. -/
def issueAndSign : List Event :=
  [.start (.issue countingDto countingPair), .advance 0,
    .start (.verifySignature ⟨countingPair.access_key_id, "GET",
      "1d1c797a3db6f4465e96bc45e233c24c5d06a5e944437f3fd5ea12b8ba4e4c49", none⟩),
    .advance 1, .advance 1, .advance 1, .advance 1]

/-- The answer says that the signature is valid. -/
def Call.accepted (call : Call) : Bool :=
  match call.phase with
  | .done (.verified response) => response.valid
  | _ => false

theorem judged_by_issued_secret_counting :
    let service := service (withSecrets countingEnv countingGcm zeroMasterKey)
    (run service init issueAndSign).calls.any Call.accepted = true ∧
    ∀ call ∈ (run service init issueAndSign).calls, ∀ payload answer,
      call.request = .verifySignature payload → call.phase = .done answer →
        Judged (HandedOut issueAndSign) (withSecrets countingEnv countingGcm zeroMasterKey) payload
          answer := by
  refine ⟨by decide +kernel, judged_by_issued_secret countingEnv countingGcm zeroMasterKey
    issueAndSign ?_⟩
  intro dto pair hpair
  have hgenerated : issuedPair countingGcm zeroMasterKey countingBytes = .ok countingPair := by
    decide +kernel
  have hsame : pair = countingPair := by
    simp only [HandedOut, issueAndSign, List.mem_cons, Interleaving.Event.start.injEq,
      Request.issue.injEq] at hpair
    grind
  exact ⟨countingBytes, hsame ▸ hgenerated⟩

end ErpApi.AccessKeys
