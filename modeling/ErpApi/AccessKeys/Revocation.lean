import ErpApi.AccessKeys.AccessKeysService

set_option autoImplicit false

/-! # Revoked keys

A revoked key is meant to stay revoked. In a run in which each call ends before the next one
starts, every write leaves the cached records as the rows are, so `verifySignature` answers by
the row (`Sound`, `command_sound`), and no method but `update` sets another status. An `update`
of a revoked key with the status `active` or `inactive` does: the key comes back to life
(`revoked_key_reactivated`). In a run without such an update the key stays revoked and no
signature of it is valid (`revoked_stays_revoked`).
-/

namespace ErpApi.AccessKeys

open Interleaving (run step alone)

/-! ## Sequential runs -/

inductive Op where
  | call (request : Request)
  | wait (ms : Nat)

/-- One call from its start to its end, or a pause. No call has more than five commands
(`served_done`). -/
def serve (env : Env) (c : Config) : Op → Config
  | .call request =>
      run (service env) c (.start request :: List.replicate 5 (.advance c.calls.length))
  | .wait ms => step (service env) c (.surroundings ms)

def serveAll (env : Env) (c : Config) (ops : List Op) : Config := ops.foldl (serve env) c

/-- Every operation of the run satisfies `ok` in the state before it. -/
def AllServed (env : Env) (ok : Store → Op → Prop) : Config → List Op → Prop
  | _, [] => True
  | c, op :: ops => ok c.shared op ∧ AllServed env ok (serve env c op) ops

/-- The number of commands that a call performs at most. -/
def Phase.commandsLeft : Phase → Nat
  | .insert _ _ => 1
  | .findById _ _ => 5
  | .preload _ _ _ => 4
  | .load _ _ _ => 3
  | .write _ _ _ _ => 2
  | .remove _ _ _ _ => 2
  | .del _ _ _ => 1
  | .get _ => 4
  | .select _ => 3
  | .setex _ _ => 2
  | .policies _ _ => 1
  | .done _ => 0

theorem Phase.done_of_commandsLeft {phase : Phase} (h : phase.commandsLeft = 0) :
    ∃ answer, phase = .done answer := by
  cases phase with
  | done answer => exact ⟨answer, rfl⟩
  | _ => cases h

theorem commandsLeft_decideOn (env : Env) (s : Store) (payload : VerifyPayload)
    (record : CachedAccessKeyRecord) : (decideOn env s payload record).commandsLeft ≤ 1 := by
  unfold decideOn
  split <;> simp [Phase.commandsLeft]

theorem commandsLeft_command (env : Env) (s : Store) (call : Call) :
    (command env s call).2.phase.commandsLeft ≤ call.phase.commandsLeft - 1 := by
  obtain ⟨request, atStart, record, phase⟩ := call
  cases phase with
  | insert dto pair => exact Nat.le_refl 0
  | findById id operation =>
      simp only [command]
      split
      · exact Nat.zero_le _
      · cases operation <;> simp [afterFind, Phase.commandsLeft]
  | preload change id data =>
      simp only [command]
      split
      · exact Nat.zero_le _
      · split
        · exact Nat.zero_le _
        · exact Nat.le_refl 3
  | load change entity policyIds =>
      simp only [command]
      split
      · exact Nat.zero_le _
      · exact Nat.le_refl 2
  | write change entity columns sync =>
      simp only [command]
      split
      · exact Nat.zero_le _
      · exact Nat.le_refl 1
  | remove change id access_key_id softDelete =>
      simp only [command]
      split
      · exact Nat.zero_le _
      · exact Nat.le_refl 1
  | del change access_key_id answer => exact Nat.le_refl 0
  | get payload =>
      simp only [command]
      split
      · exact Nat.le_trans (commandsLeft_decideOn env s payload _) (show 1 ≤ 3 by decide)
      · exact Nat.le_refl 3
  | select payload =>
      simp only [command]
      split
      · exact Nat.zero_le _
      · exact Nat.le_refl 2
  | setex payload record => exact commandsLeft_decideOn env s payload record
  | policies payload record => exact Nat.le_refl 0
  | done answer => exact Nat.le_refl 0

theorem commandsLeft_alone (env : Env) (n : Nat) (s : Store) (call : Call) :
    ((alone (service env))^[n] (s, call)).2.phase.commandsLeft ≤ call.phase.commandsLeft - n := by
  induction n generalizing s call with
  | zero => simp
  | succ n ih =>
      rw [Function.iterate_succ_apply]
      have hstep := commandsLeft_command env s call
      have hrest := ih (command env s call).1 (command env s call).2
      have : ((alone (service env))^[n] (alone (service env) (s, call))).2.phase.commandsLeft ≤
          (command env s call).2.phase.commandsLeft - n := hrest
      omega

/-! ## Rows and their cached records -/

/-- A row without its history. -/
def AccessKey.plain (k : AccessKey) : String × String × Columns :=
  (k.id, k.access_key_id, k.toColumns)

theorem exists_of_plain {rows rows' : List AccessKey}
    (h : rows.map AccessKey.plain = rows'.map AccessKey.plain) {k : AccessKey} (hk : k ∈ rows) :
    ∃ k' ∈ rows', k'.plain = k.plain := by
  have hmem : k.plain ∈ rows'.map AccessKey.plain := by
    rw [← h]
    exact List.mem_map_of_mem hk
  exact List.mem_map.mp hmem

theorem plain_eq {k k' : AccessKey} (h : k'.plain = k.plain) :
    k'.id = k.id ∧ k'.access_key_id = k.access_key_id ∧ k'.toColumns = k.toColumns := by
  obtain ⟨hid, hrest⟩ := Prod.mk.inj h
  obtain ⟨haccess, hcolumns⟩ := Prod.mk.inj hrest
  exact ⟨hid, haccess, hcolumns⟩

/-- The record is that of a live row: it has the id and the status of the row. -/
def Backed (rows : List AccessKey) (access_key_id : String) (record : CachedAccessKeyRecord) :
    Prop :=
  ∃ k ∈ rows, k.is_deleted = false ∧ k.access_key_id = access_key_id ∧ k.id = record.id ∧
    k.status = record.status

theorem Backed.of_plain {rows rows' : List AccessKey} {access_key_id : String}
    {record : CachedAccessKeyRecord}
    (h : rows.map AccessKey.plain = rows'.map AccessKey.plain)
    (hbacked : Backed rows access_key_id record) : Backed rows' access_key_id record := by
  obtain ⟨k, hk, hlive, haccess, hid, hstatus⟩ := hbacked
  obtain ⟨k', hk', hplain⟩ := exists_of_plain h hk
  obtain ⟨hid', haccess', hcolumns⟩ := plain_eq hplain
  refine ⟨k', hk', ?_, haccess'.trans haccess, hid'.trans hid, ?_⟩
  · rw [hcolumns]
    exact hlive
  · rw [hcolumns]
    exact hstatus

/-- Every cached record but that of one key is the record of a live row. -/
def CoherentExcept (access_key_id : Option String) (s : Store) : Prop :=
  ∀ a record expires, some a ≠ access_key_id → s.cache a = some (record, expires) →
    Backed s.keys.rows a record

abbrev Coherent (s : Store) : Prop := CoherentExcept none s

/-- A write that leaves the rows of the other keys alone. -/
theorem Coherent.except {s s' : Store} {access_key_id : String} (h : Coherent s)
    (hcache : s'.cache = s.cache)
    (hrows : ∀ k ∈ s.keys.rows, k.access_key_id ≠ access_key_id →
      ∃ k' ∈ s'.keys.rows, k'.plain = k.plain) : CoherentExcept (some access_key_id) s' := by
  intro a record expires ha hcached
  rw [hcache] at hcached
  obtain ⟨k, hk, hlive, haccess, hid, hstatus⟩ := h a record expires (by simp) hcached
  obtain ⟨k', hk', hplain⟩ := hrows k hk (by rw [haccess]; exact fun heq => ha (by rw [heq]))
  obtain ⟨hid', haccess', hcolumns⟩ := plain_eq hplain
  refine ⟨k', hk', ?_, haccess'.trans haccess, hid'.trans hid, ?_⟩
  · rw [hcolumns]
    exact hlive
  · rw [hcolumns]
    exact hstatus

theorem CoherentExcept.del {s : Store} {access_key_id : String}
    (h : CoherentExcept (some access_key_id) s) (returned : List Change) :
    Coherent { s.del access_key_id with returned := returned } := by
  intro a record expires _ hcached
  have hcached' : (if a = access_key_id then none else s.cache a) = some (record, expires) :=
    hcached
  split at hcached'
  · cases hcached'
  · rename_i hne
    exact h a record expires (fun heq => hne (Option.some.inj heq)) hcached'

theorem Coherent.setex {s : Store} {access_key_id : String} {record : CachedAccessKeyRecord}
    (h : Coherent s) (hbacked : Backed s.keys.rows access_key_id record) (ttlSeconds : Nat) :
    Coherent (s.setex access_key_id ttlSeconds record) := by
  intro a record' expires _ hcached
  have hcached' : (if a = access_key_id then some (record, s.clock + 1000 * ttlSeconds)
      else s.cache a) = some (record', expires) := hcached
  split at hcached'
  · rename_i heq
    obtain ⟨rfl, -⟩ := Prod.mk.inj (Option.some.inj hcached')
    rw [heq]
    exact hbacked
  · exact h a record' expires (by simp) hcached'

/-! ## A call alone -/

section Sound

variable (env : Env)

/-- The database has generated the id. -/
def Generated (s : Store) (id : String) : Prop := ∃ n < s.generated, env.generate n = id

def RowsGenerated (s : Store) : Prop := ∀ k ∈ s.keys.rows, Generated env s k.id

/-- The key is revoked as long as there is a row of it. -/
def Revoked (s : Store) (id : String) : Prop :=
  Generated env s id ∧ ∀ k ∈ s.keys.rows, k.id = id → k.status = .revoked

/-- What holds between two calls of a sequential run. -/
structure Idle (s : Store) : Prop where
  coherent : Coherent s
  generated : RowsGenerated env s

/-- The body names the status `active` or `inactive`, and the database accepts it: the name, if
there is one, is a text of at most a hundred characters. -/
def UpdateAccessKeyDTO.reactivates (data : UpdateAccessKeyDTO) : Bool :=
  (match data.status with
    | .value status => status ≠ .revoked
    | _ => false) &&
  (match data.name with
    | .undefined => true
    | .null => false
    | .value name => name.length ≤ 100)

/-- The request is such an update of the key, which is not deleted. -/
def Request.reactivates (s : Store) (id : String) : Request → Bool
  | .operate id' (.update data) =>
      id' = id && data.reactivates && s.keys.rows.any fun k => k.id = id && !k.is_deleted
  | _ => false

/-- The calls so far have left the ids and the revoked keys as they should. -/
structure Settled (s₀ : Store) (request : Request) (s : Store) : Prop where
  generated : RowsGenerated env s
  revoked : ∀ id, Revoked env s₀ id → request.reactivates s₀ id = false → Revoked env s id

/-- The rows, up to their history, the cache and the generated ids are those of the start. -/
structure Same (s₀ s : Store) : Prop where
  rows : s.keys.rows.map AccessKey.plain = s₀.keys.rows.map AccessKey.plain
  cache : s.cache = s₀.cache
  generated : s.generated = s₀.generated

/-- The entity that a call is about to save: a live row, with a status that respects the
revocation. -/
def EntityOf (s₀ : Store) (request : Request) (entity : AccessKey) : Prop :=
  (∃ k ∈ s₀.keys.rows, k.id = entity.id ∧ k.access_key_id = entity.access_key_id ∧
    k.is_deleted = false ∧ entity.is_deleted = false) ∧
  ∀ id, Revoked env s₀ id → request.reactivates s₀ id = false → entity.id = id →
    entity.status = .revoked

/-- A valid answer is about a live, active key of the start. -/
def ValidAnswer (s₀ : Store) (request : Request) (response : VerifyResponse) : Prop :=
  ∃ payload context, request = .verifySignature payload ∧ response.context = some context ∧
    ∃ k ∈ s₀.keys.rows, k.is_deleted = false ∧
      k.access_key_id = payload.access_key_id ∧ k.id = context.id ∧ k.status = .active

/-- The invariant of a call that is not interrupted, by where it stands. -/
def Sound (s : Store) (call : Call) : Prop :=
  match call.phase with
  | .insert _ _ => Same call.atStart s
  | .findById id operation => Same call.atStart s ∧ call.request = .operate id operation
  | .preload _ id data => Same call.atStart s ∧ call.request = .operate id (.update data)
  | .load _ entity _ => Same call.atStart s ∧ EntityOf env call.atStart call.request entity
  | .write _ entity columns _ =>
      Same call.atStart s ∧ EntityOf env call.atStart call.request entity ∧
        ∃ k ∈ s.keys.rows, k.id = entity.id ∧ columns = entity.toColumns.diff k.toColumns
  | .remove change _ access_key_id _ =>
      Same call.atStart s ∧
        ∃ k ∈ s.keys.rows, k.id = change.id ∧ k.access_key_id = access_key_id
  | .del _ access_key_id answer =>
      CoherentExcept (some access_key_id) s ∧ Settled env call.atStart call.request s ∧
        ∀ response, answer ≠ .verified response
  | .get payload => Same call.atStart s ∧ call.request = .verifySignature payload
  | .select payload => Same call.atStart s ∧ call.request = .verifySignature payload
  | .setex payload record =>
      Same call.atStart s ∧ call.request = .verifySignature payload ∧
        Backed s.keys.rows payload.access_key_id record
  | .policies payload record =>
      Coherent s ∧ Settled env call.atStart call.request s ∧ call.request = .verifySignature payload ∧
        Backed call.atStart.keys.rows payload.access_key_id record ∧ record.status = .active
  | .done answer =>
      Coherent s ∧ Settled env call.atStart call.request s ∧
        ∀ response, answer = .verified response → response.valid = true →
          ValidAnswer call.atStart call.request response

variable {env}

theorem Same.coherent {s₀ s : Store} (hidle : Idle env s₀) (h : Same s₀ s) : Coherent s := by
  intro a record expires ha hcached
  rw [h.cache] at hcached
  exact (hidle.coherent a record expires ha hcached).of_plain h.rows.symm

theorem Same.settled {s₀ s : Store} (hidle : Idle env s₀) (h : Same s₀ s) (request : Request) :
    Settled env s₀ request s := by
  have hgenerated : ∀ id, Generated env s₀ id → Generated env s id := by
    rintro id ⟨n, hn, rfl⟩
    exact ⟨n, by rw [h.generated]; exact hn, rfl⟩
  constructor
  · intro k hk
    obtain ⟨k₀, hk₀, hplain⟩ := exists_of_plain h.rows hk
    rw [← (plain_eq hplain).1]
    exact hgenerated _ (hidle.generated k₀ hk₀)
  · rintro id ⟨hid, hrevoked⟩ -
    refine ⟨hgenerated id hid, ?_⟩
    rintro k hk rfl
    obtain ⟨k₀, hk₀, hplain⟩ := exists_of_plain h.rows hk
    obtain ⟨hid₀, -, hcolumns⟩ := plain_eq hplain
    rw [← hcolumns]
    exact hrevoked k₀ hk₀ hid₀

theorem Same.refl (s : Store) : Same s s := ⟨rfl, rfl, rfl⟩

/-- A call ends in a state that it has not changed. -/
theorem sound_done_of_same {s : Store} {call : Call} {answer : Answer}
    (hidle : Idle env call.atStart) (h : Same call.atStart s)
    (hanswer : ∀ response, answer = .verified response → response.valid = false) :
    Sound env s { call with phase := .done answer } := by
  refine ⟨h.coherent hidle, h.settled hidle call.request, ?_⟩
  intro response heq hvalid
  rw [hanswer response heq] at hvalid
  cases hvalid

theorem Settled.generate {s₀ s : Store} {request : Request} (h : Settled env s₀ request s) :
    Settled env s₀ request { s with generated := s.generated + 1 } := by
  have hgenerated : ∀ id, Generated env s id →
      Generated env { s with generated := s.generated + 1 } id := by
    rintro id ⟨n, hn, rfl⟩
    exact ⟨n, Nat.lt_succ_of_lt hn, rfl⟩
  constructor
  · intro k hk
    exact hgenerated _ (h.generated k hk)
  · intro id hid hreactivates
    obtain ⟨hid', hrevoked⟩ := h.revoked id hid hreactivates
    exact ⟨hgenerated id hid', hrevoked⟩

/-- A new key has a new id. -/
theorem sound_insert {s : Store} {call : Call} (hidle : Idle env call.atStart)
    (h : Same call.atStart s) (dto : CreateAccessKeyDTO) (pair : KeyPair) :
    Sound env (insert env s dto pair).1
      { call with phase := .done (insert env s dto pair).2 } := by
  have hsettled := (h.settled hidle call.request).generate
  have hcoherent := h.coherent hidle
  unfold insert
  dsimp only
  split
  · exact ⟨hcoherent, hsettled, by simp⟩
  · split
    · exact ⟨hcoherent, hsettled, by simp⟩
    · rename_i keys hcommit
      have hrows := AccessKeyTable.rows_of_commit hcommit
      have hmem : ∀ k ∈ keys.rows, k ∈ s.keys.rows ∨
          k = newKey (env.generate s.generated) dto pair := by
        intro k hk
        rw [hrows] at hk
        simpa using hk
      refine ⟨?_, ⟨?_, ?_⟩, by simp⟩
      · intro a record expires ha hcached
        obtain ⟨k, hk, hrest⟩ := hcoherent a record expires ha hcached
        refine ⟨k, ?_, hrest⟩
        show k ∈ keys.rows
        rw [hrows]
        exact List.mem_append_left _ hk
      · intro k hk
        rcases hmem k hk with hold | rfl
        · exact hsettled.generated k hold
        · exact ⟨s.generated, Nat.lt_succ_self _, rfl⟩
      · intro id hid hreactivates
        obtain ⟨hgenerated, hrevoked⟩ := (h.settled hidle call.request).revoked id hid hreactivates
        refine ⟨(hsettled.revoked id hid hreactivates).1, ?_⟩
        intro k hk hkid
        rcases hmem k hk with hold | rfl
        · exact hrevoked k hold hkid
        · obtain ⟨n, hn, hgen⟩ := hgenerated
          have heq : s.generated = n := env.generate_injective (hkid.trans hgen.symm)
          omega

theorem sound_findById {s : Store} {call : Call} {id : String} {operation : Operation}
    {key : AccessKey} {change : Change} (h : Same call.atStart s)
    (hrequest : call.request = .operate id operation) (hfind : s.findById id = some key)
    (hchange : change.id = key.id) (numbered : Nat) :
    Sound env { s with numbered := numbered }
      { call with phase := afterFind id change key operation } := by
  obtain ⟨hmem, -, hlive⟩ := mem_of_findById hfind
  have hsame : Same call.atStart { s with numbered := numbered } :=
    ⟨h.rows, h.cache, h.generated⟩
  obtain ⟨k₀, hk₀, hplain⟩ := exists_of_plain h.rows hmem
  obtain ⟨hid₀, haccess₀, hcolumns₀⟩ := plain_eq hplain
  have hlive₀ : k₀.is_deleted = false := by
    rw [hcolumns₀]
    exact hlive
  cases operation with
  | update data => exact ⟨hsame, hrequest⟩
  | delete softDelete => exact ⟨hsame, key, hmem, hchange.symm, rfl⟩
  | revoke => exact ⟨hsame, ⟨k₀, hk₀, hid₀, haccess₀, hlive₀, hlive⟩, fun _ _ _ _ => rfl⟩
  | attachPolicies policyIds =>
      refine ⟨hsame, ⟨k₀, hk₀, hid₀, haccess₀, hlive₀, hlive⟩, ?_⟩
      intro id' hid' _ heq
      rw [← hcolumns₀]
      exact hid'.2 k₀ hk₀ (hid₀.trans heq)

/-- What `merge` makes of the status; if it is another one than `revoked`, the body asked for
it. -/
theorem merge_status {data : UpdateAccessKeyDTO} {stored columns : Columns}
    (h : data.merge stored = .ok columns) (hstored : stored.status = .revoked)
    (hdata : data.reactivates = false) : columns.status = .revoked := by
  obtain ⟨name, hname, hrest⟩ := bind_eq_ok.mp h
  obtain ⟨status, hstatus, hrest⟩ := bind_eq_ok.mp hrest
  split at hrest
  · cases hrest
  rename_i hlength
  obtain rfl := Except.ok.inj hrest
  show status = .revoked
  by_contra hne
  cases hfield : data.status with
  | undefined =>
      rw [hfield] at hstatus
      exact hne (Except.ok.inj hstatus ▸ hstored)
  | null =>
      rw [hfield] at hstatus
      cases hstatus
  | value status' =>
      rw [hfield] at hstatus
      obtain rfl := Except.ok.inj hstatus
      -- The name is acceptable as well, so the body reactivates.
      have htrue : data.reactivates = true := by
        unfold UpdateAccessKeyDTO.reactivates
        cases hn : data.name with
        | undefined => simp [hfield, hne]
        | null =>
            rw [hn] at hname
            cases hname
        | value name' =>
            rw [hn] at hname
            obtain rfl := Except.ok.inj hname
            simp [hfield, hne]
            omega
      rw [htrue] at hdata
      cases hdata

theorem merge_is_deleted {data : UpdateAccessKeyDTO} {stored columns : Columns}
    (h : data.merge stored = .ok columns) : columns.is_deleted = stored.is_deleted := by
  obtain ⟨name, -, hrest⟩ := bind_eq_ok.mp h
  obtain ⟨status, -, hrest⟩ := bind_eq_ok.mp hrest
  split at hrest
  · cases hrest
  obtain rfl := Except.ok.inj hrest
  rfl

theorem sound_preload {s : Store} {call : Call} {id : String} {data : UpdateAccessKeyDTO}
    {key : AccessKey} {columns : Columns} {change : Change} (h : Same call.atStart s)
    (hrequest : call.request = .operate id (.update data))
    (hfind : (s.keys.rows.find? fun k => k.id = id && !k.is_deleted) = some key)
    (hmerge : data.merge key.toColumns = .ok columns) :
    Sound env s { call with phase := .load change { key with toColumns := columns } none } := by
  have hkey := List.find?_some hfind
  simp only [Bool.and_eq_true, decide_eq_true_eq, Bool.not_eq_true'] at hkey
  obtain ⟨hid, hlive⟩ := hkey
  obtain ⟨k₀, hk₀, hplain⟩ := exists_of_plain h.rows (List.mem_of_find?_eq_some hfind)
  obtain ⟨hid₀, haccess₀, hcolumns₀⟩ := plain_eq hplain
  have hlive₀ : k₀.is_deleted = false := by
    rw [hcolumns₀]
    exact hlive
  refine ⟨h, ⟨k₀, hk₀, hid₀, haccess₀, hlive₀, (merge_is_deleted hmerge).trans hlive⟩, ?_⟩
  intro id' hrevoked hreactivates heq
  have hstored : key.status = .revoked := by
    rw [← hcolumns₀]
    exact hrevoked.2 k₀ hk₀ (hid₀.trans heq)
  refine merge_status hmerge hstored ?_
  by_contra hdata
  -- The request would be an update that reactivates the key.
  have htrue : call.request.reactivates call.atStart id' = true := by
    have hid' : id = id' := hid.symm.trans heq
    have hany : (call.atStart.keys.rows.any fun k => k.id = id' && !k.is_deleted) = true := by
      refine List.any_eq_true.mpr ⟨k₀, hk₀, ?_⟩
      simp [hid₀.trans heq, hlive₀]
    rw [hrequest]
    simp only [Request.reactivates, hid', hany]
    simpa using hdata
  rw [htrue] at hreactivates
  cases hreactivates

theorem map_plain_stamp (t : AccessKeyTable) (change : Change) (columns : List Column) :
    (t.stamp change columns).rows.map AccessKey.plain = t.rows.map AccessKey.plain := by
  show (t.rows.map (AccessKey.stamp change columns)).map AccessKey.plain = _
  rw [List.map_map]
  apply List.map_congr_left
  intro k _
  show (k.stamp change columns).plain = k.plain
  rw [AccessKey.plain, k.stamp_id, k.stamp_access_key_id, k.stamp_toColumns]
  rfl

theorem sound_load {s : Store} {call : Call} {entity stored : AccessKey} {change : Change}
    (h : Same call.atStart s) (hentity : EntityOf env call.atStart call.request entity)
    (hfind : (s.keys.rows.find? fun k => k.id = entity.id) = some stored)
    (sync : Option PolicySync) :
    Sound env { s with keys := s.keys.stamp change (entity.toColumns.diff stored.toColumns) }
      { call with
        phase := .write change entity (entity.toColumns.diff stored.toColumns) sync } := by
  have hid : stored.id = entity.id := by simpa using List.find?_some hfind
  refine ⟨⟨?_, h.cache, h.generated⟩, hentity, ?_⟩
  · exact (map_plain_stamp s.keys change _).trans h.rows
  · refine ⟨stored.stamp change _, List.mem_map_of_mem (List.mem_of_find?_eq_some hfind), ?_, ?_⟩
    · rw [stored.stamp_id]
      exact hid
    · rw [stored.stamp_toColumns]

theorem sound_write {s s' : Store} {call : Call} {change : Change} {entity : AccessKey}
    {columns : List Column} {sync : Option PolicySync} {answer : Answer}
    (hidle : Idle env call.atStart) (h : Same call.atStart s)
    (hentity : EntityOf env call.atStart call.request entity)
    (hcolumns : ∃ k ∈ s.keys.rows, k.id = entity.id ∧
      columns = entity.toColumns.diff k.toColumns)
    (hanswer : ∀ response, answer ≠ .verified response)
    (hwrite : write env s change entity columns sync = .ok s') :
    Sound env s' { call with phase := .del change entity.access_key_id answer } := by
  obtain ⟨hrows, hcache, hgenerated, -⟩ := write_eq_ok hwrite
  have hsettled := h.settled hidle call.request
  obtain ⟨⟨k₀, hk₀, hid₀, haccess₀, -, -⟩, hstatus⟩ := hentity
  obtain ⟨stored, hstored, hstoredId, hdiff⟩ := hcolumns
  obtain ⟨k₁, hk₁, hplain₁⟩ := exists_of_plain h.rows hstored
  obtain ⟨hid₁, haccess₁, -⟩ := plain_eq hplain₁
  -- The row that is written is the row of the entity.
  have haccess : stored.access_key_id = entity.access_key_id := by
    have heq : k₁ = k₀ := call.atStart.keys.eq_of_id_eq hk₁ hk₀
      (hid₁.trans (hstoredId.trans hid₀.symm))
    rw [← haccess₁, heq, haccess₀]
  refine ⟨(h.coherent hidle).except hcache ?_, ⟨?_, ?_⟩, hanswer⟩
  · intro k hk hne
    refine ⟨k.write change entity columns, ?_, ?_⟩
    · rw [hrows]
      exact List.mem_map_of_mem hk
    · rw [AccessKey.write_of_ne]
      intro heq
      have hkstored : k = stored := s.keys.eq_of_id_eq hk hstored (heq.trans hstoredId.symm)
      exact hne (by rw [hkstored, haccess])
  · intro k' hk'
    rw [hrows] at hk'
    obtain ⟨k, hk, rfl⟩ := List.mem_map.mp hk'
    rw [AccessKey.write_id]
    obtain ⟨n, hn, hid⟩ := hsettled.generated k hk
    exact ⟨n, by rw [hgenerated]; exact hn, hid⟩
  · intro id hrevoked hreactivates
    obtain ⟨⟨n, hn, hid⟩, hall⟩ := hsettled.revoked id hrevoked hreactivates
    refine ⟨⟨n, by rw [hgenerated]; exact hn, hid⟩, ?_⟩
    intro k' hk' hkid
    rw [hrows] at hk'
    obtain ⟨k, hk, rfl⟩ := List.mem_map.mp hk'
    rw [AccessKey.write_id] at hkid
    by_cases hkentity : k.id = entity.id
    · obtain rfl := s.keys.eq_of_id_eq hk hstored (hkentity.trans hstoredId.symm)
      rw [AccessKey.write_toColumns hkentity, hdiff, Columns.assign_diff_status]
      exact hstatus id hrevoked hreactivates (hkentity.symm.trans hkid)
    · rw [AccessKey.write_of_ne hkentity]
      exact hall k hk hkid

/-- A row after a `delete` is a row before it. -/
theorem exists_of_mem_remove {s s' : Store} {change : Change}
    (hrows : s'.keys.rows = s.keys.rows.map (AccessKey.remove change) ∨
      s'.keys.rows = s.keys.rows.filter fun k => k.id ≠ change.id) {k' : AccessKey}
    (hk' : k' ∈ s'.keys.rows) : ∃ k ∈ s.keys.rows, k'.id = k.id ∧ k'.status = k.status := by
  rcases hrows with hrows | hrows
  · rw [hrows] at hk'
    obtain ⟨k, hk, rfl⟩ := List.mem_map.mp hk'
    exact ⟨k, hk, k.remove_id change, k.remove_status change⟩
  · rw [hrows] at hk'
    exact ⟨k', (List.mem_filter.mp hk').1, rfl, rfl⟩

theorem sound_remove {s s' : Store} {call : Call} {change : Change} {id access_key_id : String}
    {softDelete : Bool} (hidle : Idle env call.atStart) (h : Same call.atStart s)
    (hkey : ∃ k ∈ s.keys.rows, k.id = change.id ∧ k.access_key_id = access_key_id)
    (hremove : remove s change id softDelete = .ok s') :
    Sound env s' { call with phase := .del change access_key_id .void } := by
  obtain ⟨hrows, hcache, hgenerated, -⟩ := remove_eq_ok hremove
  have hsettled := h.settled hidle call.request
  obtain ⟨key, hkey, hkeyId, hkeyAccess⟩ := hkey
  refine ⟨(h.coherent hidle).except hcache ?_, ⟨?_, ?_⟩, by simp⟩
  · intro k hk hne
    have hid : k.id ≠ change.id := by
      intro heq
      have hkkey : k = key := s.keys.eq_of_id_eq hk hkey (heq.trans hkeyId.symm)
      exact hne (by rw [hkkey, hkeyAccess])
    refine ⟨k, ?_, rfl⟩
    rcases hrows with hrows | hrows
    · rw [hrows, ← AccessKey.remove_of_ne hid]
      exact List.mem_map_of_mem hk
    · rw [hrows]
      exact List.mem_filter.mpr ⟨hk, by simpa using hid⟩
  · intro k' hk'
    obtain ⟨k, hk, hid, -⟩ := exists_of_mem_remove hrows hk'
    obtain ⟨n, hn, hgen⟩ := hsettled.generated k hk
    exact ⟨n, by rw [hgenerated]; exact hn, by rw [hid]; exact hgen⟩
  · intro id' hrevoked hreactivates
    obtain ⟨⟨n, hn, hgen⟩, hall⟩ := hsettled.revoked id' hrevoked hreactivates
    refine ⟨⟨n, by rw [hgenerated]; exact hn, hgen⟩, ?_⟩
    intro k' hk' hkid
    obtain ⟨k, hk, hid, hstatus⟩ := exists_of_mem_remove hrows hk'
    rw [hstatus]
    exact hall k hk (hid.symm.trans hkid)

/-- The answer `valid` needs the status `active`. -/
theorem status_of_checkRecord {now : Nat} {payload : VerifyPayload}
    {record : CachedAccessKeyRecord} (h : checkRecord env now payload record = .ok none) :
    record.status = .active := by
  unfold checkRecord at h
  split at h
  · cases h
  · rename_i hstatus
    exact of_not_not hstatus

/-- The decision on a record that is that of a row. -/
theorem sound_decideOn {s s' : Store} {call : Call} {payload : VerifyPayload}
    {record : CachedAccessKeyRecord} (hcoherent : Coherent s)
    (hsettled : Settled env call.atStart call.request s)
    (hrequest : call.request = .verifySignature payload)
    (hbacked : Backed call.atStart.keys.rows payload.access_key_id record) :
    Sound env s
      { call with record := some record, phase := decideOn env s' payload record } := by
  unfold decideOn
  split
  · exact ⟨hcoherent, hsettled, by simp⟩
  · exact ⟨hcoherent, hsettled, by simp [refused]⟩
  · rename_i hcheck
    exact ⟨hcoherent, hsettled, hrequest, hbacked, status_of_checkRecord hcheck⟩

theorem sound_verified {s : Store} {call : Call} {payload : VerifyPayload}
    {record : CachedAccessKeyRecord} (hcoherent : Coherent s)
    (hsettled : Settled env call.atStart call.request s)
    (hrequest : call.request = .verifySignature payload)
    (hbacked : Backed call.atStart.keys.rows payload.access_key_id record)
    (hstatus : record.status = .active) :
    Sound env s { call with phase := .done (verified env s record) } := by
  refine ⟨hcoherent, hsettled, ?_⟩
  intro response hanswer _
  unfold verified at hanswer
  split at hanswer
  · cases hanswer
  · obtain rfl := Answer.verified.inj hanswer
    obtain ⟨k, hk, hlive, haccess, hid, hkstatus⟩ := hbacked
    exact ⟨payload, _, hrequest, rfl, k, hk, hlive, haccess, hid, hkstatus.trans hstatus⟩

/-- **One command of a call that nothing interrupts.** -/
theorem command_sound {s : Store} {call : Call} (hidle : Idle env call.atStart)
    (h : Sound env s call) : Sound env (command env s call).1 (command env s call).2 := by
  obtain ⟨request, atStart, record, phase⟩ := call
  cases phase with
  | insert dto pair => exact sound_insert hidle h dto pair
  | findById id operation =>
      obtain ⟨hsame, hrequest⟩ := h
      simp only [command]
      split
      · exact sound_done_of_same hidle hsame (by simp [notFound])
      · rename_i key hfind
        exact sound_findById hsame hrequest hfind rfl _
  | preload change id data =>
      obtain ⟨hsame, hrequest⟩ := h
      simp only [command]
      split
      · exact sound_done_of_same hidle hsame (by simp [notFound])
      · rename_i key hfind
        split
        · exact sound_done_of_same hidle hsame (by simp)
        · rename_i columns hmerge
          exact sound_preload hsame hrequest hfind hmerge
  | load change entity policyIds =>
      obtain ⟨hsame, hentity⟩ := h
      simp only [command]
      split
      · exact sound_done_of_same hidle hsame (by simp)
      · rename_i stored hfind
        exact sound_load hsame hentity hfind _
  | write change entity columns sync =>
      obtain ⟨hsame, hentity, hcolumns⟩ := h
      simp only [command]
      split
      · exact sound_done_of_same hidle hsame (by simp)
      · rename_i s' hwrite
        refine sound_write hidle hsame hentity hcolumns ?_ hwrite
        intro response
        split <;> simp
  | remove change id access_key_id softDelete =>
      obtain ⟨hsame, hkey⟩ := h
      simp only [command]
      split
      · exact sound_done_of_same hidle hsame (by simp)
      · rename_i s' hremove
        exact sound_remove hidle hsame hkey hremove
  | del change access_key_id answer =>
      obtain ⟨hcoherent, hsettled, hanswer⟩ := h
      refine ⟨hcoherent.del _, ⟨hsettled.generated, hsettled.revoked⟩, ?_⟩
      intro response heq
      exact absurd heq (hanswer response)
  | get payload =>
      obtain ⟨hsame, hrequest⟩ := h
      have hcoherent := hsame.coherent hidle
      simp only [command]
      split
      · rename_i record' hcached
        obtain ⟨expires, hcached⟩ := getCached_eq_some hcached
        have hbacked := hcoherent _ record' expires (by simp) hcached
        exact sound_decideOn hcoherent (hsame.settled hidle request) hrequest
          (hbacked.of_plain hsame.rows)
      · exact ⟨hsame, hrequest⟩
  | select payload =>
      obtain ⟨hsame, hrequest⟩ := h
      simp only [command]
      split
      · exact sound_done_of_same hidle hsame (by simp [refused])
      · rename_i key hfind
        obtain ⟨hmem, haccess, hlive⟩ := mem_of_findByAccessKeyId hfind
        exact ⟨hsame, hrequest, key, hmem, hlive, haccess, rfl, rfl⟩
  | setex payload record' =>
      obtain ⟨hsame, hrequest, hbacked⟩ := h
      have hsettled := hsame.settled hidle request
      refine sound_decideOn ((hsame.coherent hidle).setex hbacked _) ?_ hrequest
        (hbacked.of_plain hsame.rows)
      exact ⟨hsettled.generated, hsettled.revoked⟩
  | policies payload record' =>
      obtain ⟨hcoherent, hsettled, hrequest, hbacked, hstatus⟩ := h
      exact sound_verified hcoherent hsettled hrequest hbacked hstatus
  | done answer => exact h

theorem Sound.of_done {s : Store} {call : Call} {answer : Answer} (h : Sound env s call)
    (hphase : call.phase = .done answer) :
    Coherent s ∧ Settled env call.atStart call.request s ∧
      ∀ response, answer = .verified response → response.valid = true →
        ValidAnswer call.atStart call.request response := by
  rw [Sound, hphase] at h
  exact h

theorem sound_start {s : Store} (request : Request) : Sound env s (start s request) := by
  cases request with
  | issue dto pair => exact Same.refl s
  | operate id operation => exact ⟨Same.refl s, rfl⟩
  | verifySignature payload => exact ⟨Same.refl s, rfl⟩

end Sound

/-! ## Runs -/

section Runs

variable {env : Env}

theorem command_keeps (env : Env) (s : Store) (call : Call) :
    (command env s call).2.request = call.request ∧
      (command env s call).2.atStart = call.atStart := by
  obtain ⟨request, atStart, record, phase⟩ := call
  cases phase with
  | findById id operation =>
      simp only [command]
      split <;> exact ⟨rfl, rfl⟩
  | preload change id data =>
      simp only [command]
      split
      · exact ⟨rfl, rfl⟩
      · split <;> exact ⟨rfl, rfl⟩
  | load change entity policyIds =>
      simp only [command]
      split <;> exact ⟨rfl, rfl⟩
  | write change entity columns sync =>
      simp only [command]
      split <;> exact ⟨rfl, rfl⟩
  | remove change id access_key_id softDelete =>
      simp only [command]
      split <;> exact ⟨rfl, rfl⟩
  | get payload =>
      simp only [command]
      split <;> exact ⟨rfl, rfl⟩
  | select payload =>
      simp only [command]
      split <;> exact ⟨rfl, rfl⟩
  | _ => exact ⟨rfl, rfl⟩

/-- A call that has returned, by what it found at its start. -/
structure Returned (s₀ : Store) (request : Request) (call : Call) : Prop where
  request_eq : call.request = request
  atStart_eq : call.atStart = s₀
  done : ∃ answer, call.phase = .done answer
  valid : ∀ response, call.phase = .done (.verified response) → response.valid = true →
    ValidAnswer s₀ request response

/-- A call on its way, by what it found at its start. -/
def Served (env : Env) (s₀ : Store) (request : Request) (s : Store) (call : Call) : Prop :=
  call.request = request ∧ call.atStart = s₀ ∧ Sound env s call

theorem command_served {s₀ : Store} (hidle : Idle env s₀) (request : Request) (s : Store)
    (call : Call) (h : Served env s₀ request s call) :
    Served env s₀ request ((service env).command s call).1 ((service env).command s call).2 := by
  obtain ⟨hrequest, hstart, hsound⟩ := h
  obtain ⟨hrequest', hstart'⟩ := command_keeps env s call
  exact ⟨hrequest'.trans hrequest, hstart'.trans hstart, command_sound (hstart ▸ hidle) hsound⟩

/-- **One call of a sequential run.** -/
theorem serve_call {c : Config} (hidle : Idle env c.shared) (request : Request) :
    ∃ call, (serve env c (.call request)).calls = c.calls ++ [call] ∧
      Returned c.shared request call ∧ Idle env (serve env c (.call request)).shared ∧
      Settled env c.shared request (serve env c (.call request)).shared := by
  have hserve : serve env c (.call request) = _ :=
    Interleaving.run_start_alone (service env) c request 5
  have hstart : Served env c.shared request c.shared (start c.shared request) :=
    ⟨rfl, rfl, sound_start request⟩
  obtain ⟨hrequest, hatStart, hsound⟩ :=
    Interleaving.alone_invariant (command_served hidle request) hstart 5
  obtain ⟨answer, hdone⟩ : ∃ answer, ((alone (service env))^[5]
      (c.shared, start c.shared request)).2.phase = .done answer := by
    have hleft := commandsLeft_alone env 5 c.shared (start c.shared request)
    have hfive : (start c.shared request).phase.commandsLeft ≤ 5 := by
      cases request <;> simp [start, Phase.commandsLeft]
    apply Phase.done_of_commandsLeft
    omega
  rw [hserve]
  refine ⟨_, rfl, ?_, ?_⟩
  · refine ⟨hrequest, hatStart, ⟨answer, hdone⟩, ?_⟩
    intro response hphase hvalid
    obtain ⟨-, -, hanswer⟩ := hsound.of_done hphase
    have hvalidAnswer := hanswer response rfl hvalid
    rw [hrequest, hatStart] at hvalidAnswer
    exact hvalidAnswer
  · obtain ⟨hcoherent, hsettled, -⟩ := hsound.of_done hdone
    rw [hatStart, hrequest] at hsettled
    exact ⟨⟨hcoherent, hsettled.generated⟩, hsettled⟩

/-- What a request may not do to the key. -/
def NoReactivation (id : String) (s : Store) : Op → Prop
  | .call request => request.reactivates s id = false
  | .wait _ => True

theorem serve_wait {c : Config} (ms : Nat) (hidle : Idle env c.shared) :
    Idle env (serve env c (.wait ms)).shared :=
  ⟨hidle.coherent, hidle.generated⟩

theorem idle_init : Idle env init.shared := by
  constructor
  · intro a record expires _ hcached
    cases hcached
  · intro k hk
    cases hk

theorem serveAll_idle {c : Config} (hidle : Idle env c.shared) (ops : List Op) :
    Idle env (serveAll env c ops).shared := by
  induction ops generalizing c with
  | nil => exact hidle
  | cons op ops ih =>
      apply ih
      cases op with
      | call request =>
          obtain ⟨-, -, -, hidle', -⟩ := serve_call hidle request
          exact hidle'
      | wait ms => exact serve_wait ms hidle

/-- The calls of a run that starts with the key revoked. -/
theorem serveAll_revoked {c : Config} {id : String} {ops : List Op} (hidle : Idle env c.shared)
    (hrevoked : Revoked env c.shared id) (hok : AllServed env (NoReactivation id) c ops) :
    Revoked env (serveAll env c ops).shared id ∧
      ∃ calls, (serveAll env c ops).calls = c.calls ++ calls ∧ ∀ call ∈ calls,
        ∃ request, Returned call.atStart request call ∧ Revoked env call.atStart id := by
  induction ops generalizing c with
  | nil => exact ⟨hrevoked, [], by simp [serveAll], by simp⟩
  | cons op ops ih =>
      obtain ⟨hop, hrest⟩ := hok
      cases op with
      | call request =>
          obtain ⟨call, hcalls, hreturned, hidle', hsettled⟩ := serve_call hidle request
          obtain ⟨hend, calls, hcalls', hall⟩ :=
            ih hidle' (hsettled.revoked id hrevoked hop) hrest
          refine ⟨hend, call :: calls, ?_, ?_⟩
          · show (serveAll env (serve env c (.call request)) ops).calls = _
            rw [hcalls', hcalls, List.append_assoc]
            rfl
          · intro call' hcall'
            rcases List.mem_cons.mp hcall' with rfl | hcall'
            · refine ⟨request, ?_, ?_⟩
              · rw [hreturned.atStart_eq]
                exact hreturned
              · rw [hreturned.atStart_eq]
                exact hrevoked
            · exact hall call' hcall'
      | wait ms => exact ih (serve_wait ms hidle) hrevoked hrest

/-- The answer to a later `verifySignature` is not valid for the key: if it is valid, another key
that is not deleted has the access key id. (The access key id of a deleted key may be given to a
new key.) -/
def NotValidFor (id : String) (call : Call) : Prop :=
  ∀ payload response, call.request = .verifySignature payload →
    call.phase = .done (.verified response) → response.valid = true →
    ∃ other ∈ call.atStart.keys.rows, other.id ≠ id ∧ other.is_deleted = false ∧
      other.access_key_id = payload.access_key_id ∧
      response.context.map (·.id) = some other.id

theorem Returned.notValidFor {s₀ : Store} {request : Request} {call : Call} {id : String}
    (h : Returned s₀ request call) (hrevoked : Revoked env s₀ id) : NotValidFor id call := by
  intro payload response hrequest hphase hvalid
  obtain ⟨payload', context, hrequest', hcontext, k, hk, hlive, haccess, hid, hstatus⟩ :=
    h.valid response hphase hvalid
  rw [← h.request_eq, hrequest] at hrequest'
  obtain rfl := Request.verifySignature.inj hrequest'
  refine ⟨k, ?_, ?_, hlive, haccess, ?_⟩
  · rw [h.atStart_eq]
    exact hk
  · intro heq
    rw [hrevoked.2 k hk heq] at hstatus
    cases hstatus
  · rw [hcontext, hid]
    rfl

theorem serveAll_append (env : Env) (c : Config) (before after : List Op) :
    serveAll env c (before ++ after) = serveAll env (serveAll env c before) after :=
  List.foldl_append

/-- **A revoked key stays revoked.** In a sequential run from the empty table, once a key is
revoked and no later update reactivates it, it is revoked in every later state, and every later
call returns and no later `verifySignature` answers `valid` for it. -/
theorem revoked_stays_revoked (env : Env) (before after : List Op) (k : AccessKey)
    (hk : k ∈ (serveAll env init before).shared.keys.rows) (hstatus : k.status = .revoked)
    (hok : AllServed env (NoReactivation k.id) (serveAll env init before) after) :
    (∀ k' ∈ (serveAll env init (before ++ after)).shared.keys.rows, k'.id = k.id →
      k'.status = .revoked) ∧
    ∀ call ∈ (serveAll env init (before ++ after)).calls.drop
        (serveAll env init before).calls.length,
      (∃ answer, call.phase = .done answer) ∧ NotValidFor k.id call := by
  have hidle : Idle env (serveAll env init before).shared := serveAll_idle idle_init before
  have hrevoked : Revoked env (serveAll env init before).shared k.id := by
    refine ⟨hidle.generated k hk, ?_⟩
    intro k' hk' hid
    rw [(serveAll env init before).shared.keys.eq_of_id_eq hk' hk hid]
    exact hstatus
  obtain ⟨hend, calls, hcalls, hall⟩ := serveAll_revoked hidle hrevoked hok
  rw [serveAll_append]
  refine ⟨hend.2, ?_⟩
  intro call hcall
  rw [hcalls, List.drop_left] at hcall
  obtain ⟨request, hreturned, hrevoked'⟩ := hall call hcall
  exact ⟨hreturned.done, hreturned.notValidFor hrevoked'⟩

end Runs

/-- A key is issued and revoked. -/
def issueAndRevoke : List Op := [.call sampleIssue, .call (.operate "a" .revoke)]

/-- The rows, by their ids and statuses. -/
def statuses (c : Config) : List (String × AccessKeyStatus) :=
  c.shared.keys.rows.map fun k => (k.id, k.status)

theorem exists_of_mem_statuses {c : Config} {id : String} {status : AccessKeyStatus}
    (h : (id, status) ∈ statuses c) : ∃ k ∈ c.shared.keys.rows, k.id = id ∧ k.status = status := by
  obtain ⟨k, hk, heq⟩ := List.mem_map.mp h
  obtain ⟨hid, hstatus⟩ := Prod.mk.inj heq
  exact ⟨k, hk, hid, hstatus⟩

theorem revoked_stays_revoked_sample :
    ∃ k ∈ (serveAll sampleEnv init issueAndRevoke).shared.keys.rows, k.status = .revoked ∧
      ∀ call ∈ (serveAll sampleEnv init (issueAndRevoke ++
          [.call (sampleUpdate .undefined), .call sampleVerify])).calls.drop
        (serveAll sampleEnv init issueAndRevoke).calls.length,
      (∃ answer, call.phase = .done answer) ∧ NotValidFor k.id call := by
  obtain ⟨k, hk, hid, hstatus⟩ : ∃ k ∈ (serveAll sampleEnv init issueAndRevoke).shared.keys.rows,
      k.id = "a" ∧ k.status = .revoked := exists_of_mem_statuses (by decide +kernel)
  refine ⟨k, hk, hstatus, ?_⟩
  have hok : AllServed sampleEnv (NoReactivation k.id) (serveAll sampleEnv init issueAndRevoke)
      [.call (sampleUpdate .undefined), .call sampleVerify] := by
    rw [hid]
    exact ⟨by show Request.reactivates _ _ _ = _; decide +kernel,
      by show Request.reactivates _ _ _ = _; decide +kernel, trivial⟩
  exact (revoked_stays_revoked sampleEnv issueAndRevoke _ k hk hstatus hok).2

/-- An update of a revoked key makes it active again. -/
theorem revoked_key_reactivated :
    ¬ ∀ (before after : List Op) (k : AccessKey),
      k ∈ (serveAll sampleEnv init before).shared.keys.rows → k.status = .revoked →
      ∀ k' ∈ (serveAll sampleEnv init (before ++ after)).shared.keys.rows, k'.id = k.id →
        k'.status = .revoked := by
  intro h
  obtain ⟨k, hk, hid, hstatus⟩ : ∃ k ∈ (serveAll sampleEnv init issueAndRevoke).shared.keys.rows,
      k.id = "a" ∧ k.status = .revoked := exists_of_mem_statuses (by decide +kernel)
  obtain ⟨k', hk', hid', hstatus'⟩ : ∃ k' ∈ (serveAll sampleEnv init (issueAndRevoke ++
      [.call (sampleUpdate (.value .active))])).shared.keys.rows,
      k'.id = "a" ∧ k'.status = .active := exists_of_mem_statuses (by decide +kernel)
  have hrevoked := h issueAndRevoke _ k hk hstatus k' hk' (hid'.trans hid.symm)
  rw [hstatus'] at hrevoked
  cases hrevoked

end ErpApi.AccessKeys
