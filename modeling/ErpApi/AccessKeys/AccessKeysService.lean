import ErpApi.Basic.Interleaving
import ErpApi.Basic.Json
import ErpApi.Basic.ShortCircuit
import ErpApi.Common.BaseService
import ErpApi.Iam.PermissionResolver

set_option autoImplicit false

/-! # Access keys

`AccessKeysService` issues, changes and revokes access keys and verifies signatures. A method is
a sequence of database statements and Redis commands; each is atomic, and those of different
calls interleave.

The methods that change a key end with a `DEL` of its cached record. All but `delete` write with
TypeORM's `save`, which loads the stored row again and writes every column in which the entity at
hand differs from it, whether or not the call means to change that column.

`verifySignature` decides on a record from the cache or, if there is none, from the database; in
the second case it fills the cache before it goes on.

The rows carry the history of their columns (`AccessKey.changes`), the store notes what was
issued and which changes have returned, and a call carries the state in which it started. None
of it is part of the program; no command depends on it.

Left out are the columns that nothing here reads: the time stamps and `last_used_at`, which a
detached statement sets after a valid answer, and who made a change. `deleted_at` is set together
with `is_deleted`.
-/

namespace ErpApi.AccessKeys

open Iam (Db find)

/-! ## Rows -/

inductive AccessKeyStatus where
  | active
  | inactive
  | revoked
  deriving DecidableEq

def AccessKeyStatus.text : AccessKeyStatus → String
  | .active => "active"
  | .inactive => "inactive"
  | .revoked => "revoked"

inductive OwnerType where
  | user
  | service_account
  deriving DecidableEq

abbrev Metadata := List (String × Json)

/-- The columns that a method may change. -/
structure Columns where
  name : String
  description : Option String
  status : AccessKeyStatus
  /-- In milliseconds. -/
  expires_at : Option Nat
  metadata : Option Metadata
  is_deleted : Bool
  deriving DecidableEq

inductive Column where
  | name
  | description
  | status
  | expires_at
  | metadata
  | is_deleted
  deriving DecidableEq

def Column.all : List Column :=
  [.name, .description, .status, .expires_at, .metadata, .is_deleted]

namespace Columns

def differs (entity stored : Columns) : Column → Bool
  | .name => entity.name ≠ stored.name
  | .description => entity.description ≠ stored.description
  | .status => entity.status ≠ stored.status
  | .expires_at => entity.expires_at ≠ stored.expires_at
  | .metadata => entity.metadata ≠ stored.metadata
  | .is_deleted => entity.is_deleted ≠ stored.is_deleted

/-- The columns that `save` writes. -/
def diff (entity stored : Columns) : List Column := Column.all.filter (entity.differs stored)

/-- The row after an `UPDATE` of some columns. -/
def assign (columns : List Column) (entity stored : Columns) : Columns where
  name := if .name ∈ columns then entity.name else stored.name
  description := if .description ∈ columns then entity.description else stored.description
  status := if .status ∈ columns then entity.status else stored.status
  expires_at := if .expires_at ∈ columns then entity.expires_at else stored.expires_at
  metadata := if .metadata ∈ columns then entity.metadata else stored.metadata
  is_deleted := if .is_deleted ∈ columns then entity.is_deleted else stored.is_deleted

end Columns

namespace Columns

theorem mem_diff {entity stored : Columns} {c : Column} :
    c ∈ entity.diff stored ↔ entity.differs stored c = true := by
  cases c <;> simp [diff, Column.all, List.mem_filter]

/-- Saving an entity gives the row the status of the entity. -/
theorem assign_diff_status (entity stored : Columns) :
    (assign (entity.diff stored) entity stored).status = entity.status := by
  show (if .status ∈ entity.diff stored then entity.status else stored.status) = _
  split
  · rfl
  · rename_i hmem
    rw [mem_diff] at hmem
    by_contra hne
    exact hmem (decide_eq_true (Ne.symm hne))

end Columns

/-- A change that a call makes to the key `id`: the columns it means to set. -/
structure Change where
  number : Nat
  id : String
  columns : List Column
  /-- The call is a `delete`. -/
  deletes : Bool
  deriving DecidableEq

structure AccessKey extends Columns where
  id : String
  access_key_id : String
  secret_key_encrypted : String
  owner_id : String
  owner_type : OwnerType
  /-- The numbers of the changes that the present value of a column comes after. -/
  changes : Column → List Nat

/-- The table `access_keys` with its constraints: the primary key, and the partial unique index
of `access_key_id` over the rows that are not deleted. -/
structure AccessKeyTable where
  rows : List AccessKey
  pk : (rows.map AccessKey.id).Nodup
  uq_access_keys_access_key_id :
    ((rows.filter fun k => !k.is_deleted).map AccessKey.access_key_id).Nodup

/-- A statement that would leave these rows; it fails when they break a constraint. -/
def AccessKeyTable.commit (rows : List AccessKey) : Except ServiceError AccessKeyTable :=
  if hpk : (rows.map AccessKey.id).Nodup then
    if huq : ((rows.filter fun k => !k.is_deleted).map AccessKey.access_key_id).Nodup then
      .ok ⟨rows, hpk, huq⟩
    else .error (.uniqueViolation "access_key_id")
  else .error (.uniqueViolation "id")

/-- What Redis holds of a key, the interface `ICachedAccessKeyRecord`. -/
structure CachedAccessKeyRecord where
  id : String
  access_key_id : String
  secret_key_encrypted : String
  name : String
  owner_id : String
  owner_type : OwnerType
  status : AccessKeyStatus
  expires_at : Option Nat
  metadata : Option Metadata
  /-- The history of the row it was read from. -/
  changes : Column → List Nat

def AccessKey.record (k : AccessKey) : CachedAccessKeyRecord where
  id := k.id
  access_key_id := k.access_key_id
  secret_key_encrypted := k.secret_key_encrypted
  name := k.name
  owner_id := k.owner_id
  owner_type := k.owner_type
  status := k.status
  expires_at := k.expires_at
  metadata := k.metadata
  changes := k.changes

/-! ## The shared state -/

structure Store where
  /-- In milliseconds. -/
  clock : Nat
  keys : AccessKeyTable
  /-- The table `access_keys_policies`: pairs of a key's id and a policy's id. -/
  accessKeysPolicies : List (String × String)
  /-- The Redis keys `iam:access_key:<access_key_id>`, each with the time at which it expires. -/
  cache : String → Option (CachedAccessKeyRecord × Nat)
  /-- How many ids the database has generated. -/
  generated : Nat
  /-- The access key id under which an id was issued. -/
  issued : String → Option String
  /-- How many changes have been numbered. -/
  numbered : Nat
  /-- The changes whose calls have returned. -/
  returned : List Change

def Store.init : Store where
  clock := 0
  keys := ⟨[], List.nodup_nil, List.nodup_nil⟩
  accessKeysPolicies := []
  cache := fun _ => none
  generated := 0
  issued := fun _ => none
  numbered := 0
  returned := []

/-- What the service uses but does not define. -/
structure Env where
  /-- The ids that the database generates; it gives none twice. -/
  generate : Nat → String
  generate_injective : Function.Injective generate
  /-- They are printed in lower case. -/
  uuid_generate : ∀ n, uuid (generate n) = generate n
  decryptSecret : String → Except ServiceError String
  /-- The hexadecimal HMAC-SHA256 of a text under a secret. -/
  hmac : String → String → String
  /-- The conversion `Number(text)`. -/
  number : String → Float
  /-- The tables of the policies. -/
  db : Db
  today : String

namespace Store

variable (s : Store)

/-- The `findOne` by id that the base class uses. -/
def findById (id : String) : Option AccessKey :=
  s.keys.rows.find? fun k => k.id = uuid id && !k.is_deleted

/-- The `GET` of a cached record; an expired one is gone. -/
def getCached (access_key_id : String) : Option CachedAccessKeyRecord :=
  match s.cache access_key_id with
  | none => none
  | some (record, expires) => if s.clock < expires then some record else none

/-- The query of `getCachedRecord`. -/
def findByAccessKeyId (access_key_id : String) : Option AccessKey :=
  s.keys.rows.find? fun k => k.access_key_id = access_key_id && !k.is_deleted

def setex (access_key_id : String) (ttlSeconds : Nat) (record : CachedAccessKeyRecord) : Store :=
  { s with cache := fun a =>
      if a = access_key_id then some (record, s.clock + 1000 * ttlSeconds) else s.cache a }

def del (access_key_id : String) : Store :=
  { s with cache := fun a => if a = access_key_id then none else s.cache a }

def policyIdsOf (id : String) : List String :=
  (s.accessKeysPolicies.filter fun pair => pair.1 = id).map Prod.snd

end Store

/-! ## Requests -/

structure CreateAccessKeyDTO where
  name : String
  description : Option String
  owner_id : String
  owner_type : OwnerType
  expires_at : Option Nat
  metadata : Option Metadata

/-- What `generateAccessKeyPair` and `encryptSecret` give. -/
structure KeyPair where
  access_key_id : String
  secret_key : String
  secret_key_encrypted : String

structure UpdateAccessKeyDTO where
  name : Field String
  description : Field String
  status : Field AccessKeyStatus
  expires_at : Field Nat
  metadata : Field Metadata

structure VerifyPayload where
  access_key_id : String
  string_to_sign : String
  provided_signature : String
  source_ip : Option String

/-- What is done to an existing key. -/
inductive Operation where
  | update (data : UpdateAccessKeyDTO)
  | delete (softDelete : Bool)
  | revoke
  | attachPolicies (policyIds : List String)

inductive Request where
  | issue (dto : CreateAccessKeyDTO) (pair : KeyPair)
  | operate (id : String) (operation : Operation)
  | verifySignature (payload : VerifyPayload)

namespace UpdateAccessKeyDTO

/-- The columns that the body of an update names. -/
def columns (data : UpdateAccessKeyDTO) : List Column :=
  (if data.name.isDefined then [.name] else []) ++
    (if data.description.isDefined then [.description] else []) ++
    (if data.status.isDefined then [.status] else []) ++
    (if data.expires_at.isDefined then [.expires_at] else []) ++
    (if data.metadata.isDefined then [.metadata] else [])

/-- The entity that `preload` makes of the stored columns. The database refuses it when a column
that is not nullable is `null` or the name is too long. -/
def merge (data : UpdateAccessKeyDTO) (stored : Columns) : Except ServiceError Columns := do
  let name ← data.name.notNull "name" stored.name
  let status ← data.status.notNull "status" stored.status
  if name.length > 100 then throw .stringTooLong
  else return { stored with
    name := name
    description := data.description.nullable stored.description
    status := status
    expires_at := data.expires_at.nullable stored.expires_at
    metadata := data.metadata.nullable stored.metadata }

end UpdateAccessKeyDTO

def Operation.columns : Operation → List Column
  | .update data => data.columns
  | .delete _ => [.is_deleted]
  | .revoke => [.status]
  | .attachPolicies _ => []

def Operation.deletes : Operation → Bool
  | .delete _ => true
  | _ => false

/-! ## Answers -/

structure CreateAccessKeyResponse where
  id : String
  access_key_id : String
  secret_key : String
  name : String
  status : AccessKeyStatus
  expires_at : Option Nat

structure AccessKeyContext where
  id : String
  access_key_id : String
  name : String
  owner_id : String
  owner_type : OwnerType
  permissions : List String
  conditional_permissions : List String

structure VerifyResponse where
  valid : Bool
  context : Option AccessKeyContext
  reason : Option String

inductive Answer where
  | issued (response : CreateAccessKeyResponse)
  | updated (key : AccessKey)
  | void
  | verified (response : VerifyResponse)
  | thrown (error : ServiceError)

def notFound (id : String) : Answer :=
  .thrown (.notFound ("access_keys with ID '" ++ id ++ "' not found."))

def refused (reason : String) : Answer := .verified ⟨false, none, some reason⟩

/-! ## The decision on a record -/

/-- The test `value > 0`. -/
def isPositive (env : Env) : Json → Bool
  | .bool b => b
  | v => env.number v.toText > 0

/-- Whether `metadata.ip_whitelist` refuses the address. The body of a request may set it to any
value; on a string `includes` looks for a part of it, an object has no such method. -/
def whitelistRefuses (env : Env) (source_ip : Option String) : Json → Except ServiceError Bool
  | .arr items =>
      if items.length > 0 then
        return match source_ip with
          | none => true
          | some ip => !items.contains (.str ip)
      else return false
  | .str text =>
      if text.length > 0 then
        return match source_ip with
          | none => true
          | some ip => (Js.splitAtFirst ip.toList text.toList).isNone
      else return false
  | .obj entries =>
      match (entries.lookup "length").map (isPositive env), source_ip with
      | some true, none => return true
      | some true, some _ => throw .typeError
      | _, _ => return false
  | _ => return false

def ipRefused (env : Env) (source_ip : Option String) (metadata : Option Metadata) :
    Except ServiceError Bool :=
  match metadata.bind (·.lookup "ip_whitelist") with
  | none => return false
  | some whitelist => whitelistRefuses env source_ip whitelist

def verifyHmac (env : Env) (stringToSign secretKey provided : String) : Bool :=
  provided = env.hmac secretKey stringToSign

/-- The checks of `verifySignature` on the record: the reason to refuse, if any. -/
def checkRecord (env : Env) (now : Nat) (payload : VerifyPayload)
    (record : CachedAccessKeyRecord) : Except ServiceError (Option String) :=
  if record.status ≠ .active then return some ("Access Key is " ++ record.status.text)
  else if record.expires_at.any fun expires => expires < now then
    return some "Access Key has expired"
  else do
    let refuses ← ipRefused env payload.source_ip record.metadata
    if refuses then return some "Request from unauthorized IP address"
    else
      let secretKey ← env.decryptSecret record.secret_key_encrypted
      if !verifyHmac env payload.string_to_sign secretKey payload.provided_signature then
        return some "Invalid signature"
      else return none

def resolveForPolicyIds (env : Env) (policyIds : List String) : List String × List String :=
  if policyIds.length = 0 then ([], [])
  else
    let activePolicies := Iam.activePolicies env.db env.today policyIds
    if activePolicies.length = 0 then ([], [])
    else Iam.computeAllowDenyConditional
      (Iam.resolveStatements env.db (activePolicies.map (·.id)) none)

/-! ## The methods, command by command -/

/-- The rows of `access_keys_policies` that `save` adds and removes. -/
structure PolicySync where
  add : List String
  remove : List String

/-- Where a call stands: the command it performs next, and what it has read. -/
inductive Phase where
  | insert (dto : CreateAccessKeyDTO) (pair : KeyPair)
  | findById (id : String) (operation : Operation)
  /-- The first query of the base class's `update`. -/
  | preload (change : Change) (id : String) (data : UpdateAccessKeyDTO)
  /-- The query with which `save` loads the stored row. -/
  | load (change : Change) (entity : AccessKey) (policyIds : Option (List String))
  /-- The transaction that `save` then writes. -/
  | write (change : Change) (entity : AccessKey) (columns : List Column)
      (sync : Option PolicySync)
  /-- The statement of `delete`. -/
  | remove (change : Change) (id access_key_id : String) (softDelete : Bool)
  | del (change : Change) (access_key_id : String) (answer : Answer)
  | get (payload : VerifyPayload)
  | select (payload : VerifyPayload)
  | setex (payload : VerifyPayload) (record : CachedAccessKeyRecord)
  /-- The query of `findPolicyIds`. -/
  | policies (payload : VerifyPayload) (record : CachedAccessKeyRecord)
  | done (answer : Answer)

structure Call where
  request : Request
  atStart : Store
  /-- The record that `verifySignature` decides on. -/
  record : Option CachedAccessKeyRecord
  phase : Phase

def start (s : Store) (request : Request) : Call where
  request := request
  atStart := s
  record := none
  phase :=
    match request with
    | .issue dto pair => .insert dto pair
    | .operate id operation => .findById id operation
    | .verifySignature payload => .get payload

/-- The row that `issue` inserts. -/
def newKey (id : String) (dto : CreateAccessKeyDTO) (pair : KeyPair) : AccessKey where
  id := id
  access_key_id := pair.access_key_id
  secret_key_encrypted := pair.secret_key_encrypted
  owner_id := dto.owner_id
  owner_type := dto.owner_type
  name := dto.name
  description := dto.description
  status := .active
  expires_at := dto.expires_at
  metadata := dto.metadata
  is_deleted := false
  changes := fun _ => []

def insert (env : Env) (s : Store) (dto : CreateAccessKeyDTO) (pair : KeyPair) :
    Store × Answer :=
  let key := newKey (env.generate s.generated) dto pair
  let s := { s with generated := s.generated + 1 }
  if dto.name.length > 100 then (s, .thrown (ServiceError.ofDb .stringTooLong))
  else
    match AccessKeyTable.commit (s.keys.rows ++ [key]) with
    | .error e => (s, .thrown e.ofDb)
    | .ok keys => ({ s with
        keys := keys
        issued := Function.update s.issued key.id (some key.access_key_id) }, .issued
        ⟨key.id, key.access_key_id, pair.secret_key, key.name, key.status, key.expires_at⟩)

/-- What a call does after `findById`, by the operation. -/
def afterFind (id : String) (change : Change) (key : AccessKey) : Operation → Phase
  | .update data => .preload change id data
  | .delete softDelete => .remove change id key.access_key_id softDelete
  | .revoke => .load change { key with status := .revoked } none
  | .attachPolicies policyIds => .load change key (some policyIds)

/-- The history of a row when `save` finds that some columns of the change are already as the
change wants them. -/
def AccessKey.stamp (change : Change) (columns : List Column) (k : AccessKey) : AccessKey :=
  if k.id = change.id then
    { k with changes := fun c =>
        if c ∈ change.columns ∧ c ∉ columns then k.changes c ++ [change.number]
        else k.changes c }
  else k

/-- The row after the `UPDATE`. A column that the change does not name goes back to what the
entity was read with, and so does its history. -/
def AccessKey.write (k : AccessKey) (change : Change) (entity : AccessKey)
    (columns : List Column) : AccessKey :=
  if k.id = entity.id then
    { k with
      toColumns := Columns.assign columns entity.toColumns k.toColumns
      changes := fun c =>
        if c ∈ columns then
          if c ∈ change.columns then k.changes c ++ [change.number] else entity.changes c
        else k.changes c }
  else k

def AccessKey.remove (change : Change) (k : AccessKey) : AccessKey :=
  if k.id = change.id then
    { k with
      is_deleted := true
      changes := fun c =>
        if c ∈ change.columns then k.changes c ++ [change.number] else k.changes c }
  else k

theorem AccessKey.stamp_id (change : Change) (columns : List Column) (k : AccessKey) :
    (k.stamp change columns).id = k.id := by
  unfold AccessKey.stamp
  split <;> rfl

theorem AccessKey.stamp_toColumns (change : Change) (columns : List Column) (k : AccessKey) :
    (k.stamp change columns).toColumns = k.toColumns := by
  unfold AccessKey.stamp
  split <;> rfl

theorem AccessKey.stamp_access_key_id (change : Change) (columns : List Column) (k : AccessKey) :
    (k.stamp change columns).access_key_id = k.access_key_id := by
  unfold AccessKey.stamp
  split <;> rfl

/-- The history is no part of the constraints. -/
def AccessKeyTable.stamp (t : AccessKeyTable) (change : Change) (columns : List Column) :
    AccessKeyTable where
  rows := t.rows.map (AccessKey.stamp change columns)
  pk := by
    rw [List.map_map, show AccessKey.id ∘ AccessKey.stamp change columns = AccessKey.id from
      funext fun k => k.stamp_id change columns]
    exact t.pk
  uq_access_keys_access_key_id := by
    have hlive : (fun k : AccessKey => !k.is_deleted) ∘ AccessKey.stamp change columns =
        fun k => !k.is_deleted := by
      funext k
      show (!(k.stamp change columns).toColumns.is_deleted) = !k.is_deleted
      rw [k.stamp_toColumns]
    rw [List.filter_map, hlive, List.map_map,
      show AccessKey.access_key_id ∘ AccessKey.stamp change columns = AccessKey.access_key_id from
        funext fun k => k.stamp_access_key_id change columns]
    exact t.uq_access_keys_access_key_id

/-- The rows of `access_keys_policies` after `save`; they refer to existing policies and are
distinct. -/
def syncPolicies (env : Env) (s : Store) (id : String) :
    Option PolicySync → Except ServiceError (List (String × String))
  | none => .ok s.accessKeysPolicies
  | some sync =>
      let kept := s.accessKeysPolicies.filter fun pair =>
        !(pair.1 = id && sync.remove.contains pair.2)
      let pairs := kept ++ sync.add.map fun policyId => (id, policyId)
      if !sync.add.all fun policyId => env.db.policies.rows.any fun p => p.id = policyId then
        .error (.foreignKeyViolation "fk_access_keys_policies_policy_id")
      else if ¬ pairs.Nodup then .error (.uniqueViolation "access_key_id and policy_id")
      else .ok pairs

def write (env : Env) (s : Store) (change : Change) (entity : AccessKey) (columns : List Column)
    (sync : Option PolicySync) : Except ServiceError Store := do
  let keys ← AccessKeyTable.commit (s.keys.rows.map fun k => k.write change entity columns)
  let pairs ← syncPolicies env s entity.id sync
  return { s with keys := keys, accessKeysPolicies := pairs }

/-- The statement of `delete`; it is an error when it affects no row. -/
def remove (s : Store) (change : Change) (id : String) (softDelete : Bool) :
    Except ServiceError Store :=
  if s.keys.rows.all fun k => k.id ≠ change.id then
    .error (.notFound ("access_keys with ID '" ++ id ++ "' not found."))
  else if softDelete then do
    let keys ← AccessKeyTable.commit (s.keys.rows.map (AccessKey.remove change))
    return { s with keys := keys }
  else do
    let keys ← AccessKeyTable.commit (s.keys.rows.filter fun k => k.id ≠ change.id)
    return { s with
      keys := keys
      accessKeysPolicies := s.accessKeysPolicies.filter fun pair => pair.1 ≠ change.id }

/-- The checks on the record, which need no command. -/
def decideOn (env : Env) (s : Store) (payload : VerifyPayload)
    (record : CachedAccessKeyRecord) : Phase :=
  match checkRecord env s.clock payload record with
  | .error e => .done (.thrown e)
  | .ok (some reason) => .done (refused reason)
  | .ok none => .policies payload record

/-- The answer of a signature that is valid. -/
def verified (env : Env) (s : Store) (record : CachedAccessKeyRecord) : Answer :=
  match s.findById record.id with
  | none => notFound record.id
  | some key =>
      let policyIds := (find (·.toBaseEntity) env.db.policies.rows fun p =>
        (s.policyIdsOf key.id).contains p.id).map (·.id)
      let (permissions, conditional_permissions) := resolveForPolicyIds env policyIds
      .verified ⟨true, some
        { id := record.id
          access_key_id := record.access_key_id
          name := record.name
          owner_id := record.owner_id
          owner_type := record.owner_type
          permissions := permissions
          conditional_permissions := conditional_permissions }, none⟩

def KEY_CACHE_TTL_SECONDS : Nat := 300

/-- The next command of a call. -/
def command (env : Env) (s : Store) (call : Call) : Store × Call :=
  match call.phase with
  | .insert dto pair =>
      let (s', answer) := insert env s dto pair
      (s', { call with phase := .done answer })
  | .findById id operation =>
      match s.findById id with
      | none => (s, { call with phase := .done (notFound id) })
      | some key =>
          let change := ⟨s.numbered, key.id, operation.columns, operation.deletes⟩
          ({ s with numbered := s.numbered + 1 },
            { call with phase := afterFind id change key operation })
  | .preload change id data =>
      -- The loaded row is compared with the given id as text.
      match s.keys.rows.find? fun k => k.id = id && !k.is_deleted with
      | none => (s, { call with phase := .done (notFound id) })
      | some key =>
          match data.merge key.toColumns with
          | .error e => (s, { call with phase := .done (.thrown e.ofDb) })
          | .ok columns =>
              (s, { call with phase := .load change { key with toColumns := columns } none })
  | .load change entity policyIds =>
      match s.keys.rows.find? fun k => k.id = entity.id with
      | none =>
          -- An insert, which lacks the secret: it is never selected.
          let error : ServiceError := .notNullViolation "secret_key_encrypted"
          (s, { call with phase := .done (.thrown error.ofDb) })
      | some stored =>
          let columns := entity.toColumns.diff stored.toColumns
          let current := s.policyIdsOf entity.id
          let sync := policyIds.map fun ids =>
            { add := ids.filter fun p => !current.contains p
              remove := current.filter fun p => !ids.contains p }
          ({ s with keys := s.keys.stamp change columns },
            { call with phase := .write change entity columns sync })
  | .write change entity columns sync =>
      match write env s change entity columns sync with
      | .error e => (s, { call with phase := .done (.thrown e.ofDb) })
      | .ok s' =>
          let answer :=
            match call.request with
            | .operate _ (.update _) => .updated entity
            | _ => .void
          (s', { call with phase := .del change entity.access_key_id answer })
  | .remove change id access_key_id softDelete =>
      match remove s change id softDelete with
      | .error e => (s, { call with phase := .done (.thrown e.ofDb) })
      | .ok s' => (s', { call with phase := .del change access_key_id .void })
  | .del change access_key_id answer =>
      ({ s.del access_key_id with returned := s.returned ++ [change] },
        { call with phase := .done answer })
  | .get payload =>
      match s.getCached payload.access_key_id with
      | some record =>
          (s, { call with record := some record, phase := decideOn env s payload record })
      | none => (s, { call with phase := .select payload })
  | .select payload =>
      match s.findByAccessKeyId payload.access_key_id with
      | none => (s, { call with phase := .done (refused "Access Key not found") })
      | some key => (s, { call with phase := .setex payload key.record })
  | .setex payload record =>
      (s.setex payload.access_key_id KEY_CACHE_TTL_SECONDS record,
        { call with record := some record, phase := decideOn env s payload record })
  | .policies _ record => (s, { call with phase := .done (verified env s record) })
  | .done _ => (s, call)

/-- The service under concurrent calls; the surroundings let the clock advance. -/
def service (env : Env) : Interleaving.System Store Call Request Nat where
  start := start
  command := command env
  surroundings s ms := { s with clock := s.clock + ms }

abbrev Config := Interleaving.Config Store Call
abbrev Event := Interleaving.Event Request Nat

/-- No keys and no calls. -/
def init : Config := ⟨Store.init, []⟩

/-! ## What the statements find -/

theorem AccessKeyTable.eq_of_id_eq (t : AccessKeyTable) {k k' : AccessKey} (hk : k ∈ t.rows)
    (hk' : k' ∈ t.rows) (h : k.id = k'.id) : k = k' :=
  List.inj_on_of_nodup_map t.pk hk hk' h

theorem AccessKeyTable.rows_of_commit {rows : List AccessKey} {t : AccessKeyTable}
    (h : AccessKeyTable.commit rows = .ok t) : t.rows = rows := by
  unfold AccessKeyTable.commit at h
  split at h
  · split at h
    · rw [← Except.ok.inj h]
    · cases h
  · cases h

theorem mem_of_findById {s : Store} {id : String} {k : AccessKey} (h : s.findById id = some k) :
    k ∈ s.keys.rows ∧ k.id = uuid id ∧ k.is_deleted = false := by
  have hkey := List.find?_some h
  simp only [Bool.and_eq_true, decide_eq_true_eq, Bool.not_eq_true'] at hkey
  exact ⟨List.mem_of_find?_eq_some h, hkey⟩

theorem mem_of_findByAccessKeyId {s : Store} {access_key_id : String} {k : AccessKey}
    (h : s.findByAccessKeyId access_key_id = some k) :
    k ∈ s.keys.rows ∧ k.access_key_id = access_key_id ∧ k.is_deleted = false := by
  have hkey := List.find?_some h
  simp only [Bool.and_eq_true, decide_eq_true_eq, Bool.not_eq_true'] at hkey
  exact ⟨List.mem_of_find?_eq_some h, hkey⟩

theorem getCached_eq_some {s : Store} {access_key_id : String} {record : CachedAccessKeyRecord}
    (h : s.getCached access_key_id = some record) :
    ∃ expires, s.cache access_key_id = some (record, expires) := by
  unfold Store.getCached at h
  split at h
  · cases h
  · rename_i record' expires hcache
    split at h
    · obtain rfl := Option.some.inj h
      exact ⟨expires, hcache⟩
    · cases h

/-! ## What the statements write -/

theorem AccessKey.write_of_ne {change : Change} {entity k : AccessKey} (h : k.id ≠ entity.id)
    (columns : List Column) : k.write change entity columns = k := by
  rw [AccessKey.write, if_neg h]

theorem AccessKey.write_id (change : Change) (entity : AccessKey) (columns : List Column)
    (k : AccessKey) : (k.write change entity columns).id = k.id := by
  unfold AccessKey.write
  split <;> rfl

theorem AccessKey.write_access_key_id (change : Change) (entity : AccessKey)
    (columns : List Column) (k : AccessKey) :
    (k.write change entity columns).access_key_id = k.access_key_id := by
  unfold AccessKey.write
  split <;> rfl

theorem AccessKey.write_toColumns {change : Change} {entity k : AccessKey}
    (h : k.id = entity.id) (columns : List Column) :
    (k.write change entity columns).toColumns =
      Columns.assign columns entity.toColumns k.toColumns := by
  rw [AccessKey.write, if_pos h]

/-- The parts of a `save` that succeeds. -/
theorem write_eq_ok {env : Env} {s s' : Store} {change : Change} {entity : AccessKey}
    {columns : List Column} {sync : Option PolicySync}
    (h : write env s change entity columns sync = .ok s') :
    s'.keys.rows = (s.keys.rows.map fun k => k.write change entity columns) ∧
      s'.cache = s.cache ∧ s'.generated = s.generated ∧ s'.returned = s.returned ∧
      s'.issued = s.issued := by
  obtain ⟨keys, hcommit, hrest⟩ := bind_eq_ok.mp h
  obtain ⟨pairs, -, hrest⟩ := bind_eq_ok.mp hrest
  obtain rfl := Except.ok.inj hrest
  exact ⟨AccessKeyTable.rows_of_commit hcommit, rfl, rfl, rfl, rfl⟩

theorem AccessKey.remove_of_ne {change : Change} {k : AccessKey} (h : k.id ≠ change.id) :
    k.remove change = k := by
  rw [AccessKey.remove, if_neg h]

theorem AccessKey.remove_id (change : Change) (k : AccessKey) : (k.remove change).id = k.id := by
  unfold AccessKey.remove
  split <;> rfl

theorem AccessKey.remove_status (change : Change) (k : AccessKey) :
    (k.remove change).status = k.status := by
  unfold AccessKey.remove
  split <;> rfl

/-- A `delete` that succeeds: the rows are soft-deleted or gone. -/
theorem remove_eq_ok {s s' : Store} {change : Change} {id : String} {softDelete : Bool}
    (h : remove s change id softDelete = .ok s') :
    (s'.keys.rows = s.keys.rows.map (AccessKey.remove change) ∨
        s'.keys.rows = s.keys.rows.filter fun k => k.id ≠ change.id) ∧
      s'.cache = s.cache ∧ s'.generated = s.generated ∧ s'.returned = s.returned ∧
      s'.issued = s.issued := by
  unfold remove at h
  split at h
  · cases h
  split at h
  · obtain ⟨keys, hcommit, hrest⟩ := bind_eq_ok.mp h
    obtain rfl := Except.ok.inj hrest
    exact ⟨.inl (AccessKeyTable.rows_of_commit hcommit), rfl, rfl, rfl, rfl⟩
  · obtain ⟨keys, hcommit, hrest⟩ := bind_eq_ok.mp h
    obtain rfl := Except.ok.inj hrest
    exact ⟨.inr (AccessKeyTable.rows_of_commit hcommit), rfl, rfl, rfl, rfl⟩

/-! ## A small environment -/

/-- The ids `a`, `aa`, ..; no policies; the payloads of the secrets are malformed. -/
def sampleEnv : Env where
  generate n := String.ofList (List.replicate (n + 1) 'a')
  generate_injective := by
    intro m n h
    have hlength := congrArg List.length (String.ofList_injective h)
    simpa using hlength
  uuid_generate n := by
    rw [uuid, String.toList_ofList, List.map_replicate]
    rfl
  decryptSecret := fun _ => .error (.error "Invalid encrypted secret key payload format")
  hmac := fun secretKey stringToSign => secretKey ++ stringToSign
  number := fun _ => 0
  db :=
    { users := ⟨[], List.nodup_nil⟩
      roles := ⟨[], List.nodup_nil⟩
      policies := ⟨[], List.nodup_nil⟩
      usersRoles := []
      rolesPolicies := []
      policyStatements := ⟨[], List.nodup_nil⟩
      statementTargets := ⟨[], List.nodup_nil⟩
      statementActions := ⟨[], List.nodup_nil⟩
      statementConditions := ⟨[], List.nodup_nil⟩
      permissions := ⟨[], List.nodup_nil⟩ }
  today := "2026-01-01"

def sampleIssue : Request :=
  .issue ⟨"Warehouse-Integration", none, "o", .service_account, none, none⟩ ⟨"AKIA", "s", "s"⟩

def sampleUpdate (status : Field AccessKeyStatus) : Request :=
  .operate "a" (.update ⟨.undefined, .undefined, status, .undefined, .undefined⟩)

def sampleVerify : Request := .verifySignature ⟨"AKIA", "GET", "", none⟩

end ErpApi.AccessKeys
