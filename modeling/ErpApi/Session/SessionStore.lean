import ErpApi.Basic.Interleaving

set_option autoImplicit false

/-! # The session store

`SessionStoreService` keeps live sessions in Redis: `session:<jti>` holds a session with a
time to live, `user_sessions:<userId>` the ids of a user's sessions. Its methods are sequences
of Redis commands. A command is atomic; commands of different calls interleave.

Every method that lists sessions reads the index, then `GET` and `TTL` of each id in turn,
prunes the ids it found stale, and sends one pipeline of writes computed from the sessions it
found live. The pipeline is not a transaction: its commands interleave with those of other
calls as well.

`refreshPermissionsForUser` and `setMustChangePasswordForUser` write back what they read, so
a session deleted in between comes back to life (`revoked_session_revived`). It stays deleted
in every run in which, at each deletion, no such call has the session in hand
(`not_live_after_deletion`).
-/

namespace ErpApi.Session

structure SessionData where
  user_id : String
  username : String
  fullname : Option String
  email : Option String
  roles : List String
  permissions : List String
  conditional_permissions : List String
  expired_at : Option String
  must_change_password : Bool
  deriving DecidableEq

/-! ## Redis -/

/-- The keys of the store. A session key carries the time at which it expires. -/
structure Redis where
  /-- The server's clock, in milliseconds. -/
  clock : Nat
  session : String → Option (SessionData × Nat)
  index : String → List String

/-- The value of `session:<jti>`; an expired key has none. -/
def Redis.get (r : Redis) (jti : String) : Option SessionData :=
  match r.session jti with
  | none => none
  | some (data, expires) => if r.clock < expires then some data else none

/-- The command `TTL session:<jti>`: seconds, rounded to the nearest; -2 for no key. -/
def Redis.ttl (r : Redis) (jti : String) : Int :=
  match r.session jti with
  | none => -2
  | some (_, expires) =>
      if r.clock < expires then ((expires - r.clock + 500) / 1000 : Nat) else -2

inductive Command where
  | setex (jti : String) (ttlSeconds : Int) (data : SessionData)
  | del (jti : String)
  | delIndex (userId : String)
  | srem (userId : String) (jtis : List String)
  | sadd (userId : String) (jti : String)
  deriving DecidableEq

def Redis.exec (r : Redis) : Command → Redis
  | .setex jti ttlSeconds data =>
      -- A time to live that is not positive is an error and writes nothing.
      if ttlSeconds ≤ 0 then r
      else
        { r with session := fun k =>
            if k = jti then some (data, r.clock + 1000 * ttlSeconds.toNat) else r.session k }
  | .del jti => { r with session := fun k => if k = jti then none else r.session k }
  | .delIndex userId => { r with index := fun k => if k = userId then [] else r.index k }
  | .srem userId jtis =>
      { r with index := fun k =>
          if k = userId then (r.index k).filter (fun j => !jtis.contains j) else r.index k }
  | .sadd userId jti =>
      { r with index := fun k =>
          if k = userId ∧ ¬ jti ∈ r.index k then r.index k ++ [jti] else r.index k }

/-! ## The methods -/

structure Perms where
  roles : List String
  permissions : List String
  conditional_permissions : List String
  deriving DecidableEq

inductive Method where
  | create (jti : String) (data : SessionData) (ttlSeconds : Int)
  | revoke (jti : String)
  | listActiveSessions (userId : String)
  | invalidateAllForUser (userId : String)
  | refreshPermissionsForUser (userId : String) (perms : Perms)
  | setMustChangePasswordForUser (userId : String) (mustChangePassword : Bool)
  deriving DecidableEq

/-- What `listActiveSessions` has read about one id. -/
structure Entry where
  jti : String
  session : Option SessionData
  ttlSeconds : Int
  deriving DecidableEq

/-- A session that the listing returns. -/
structure ActiveSession where
  jti : String
  session : SessionData
  ttl_seconds : Int
  deriving DecidableEq

def Entry.active (e : Entry) : Option ActiveSession :=
  match e.session with
  | some session => if e.ttlSeconds > 0 then some ⟨e.jti, session, e.ttlSeconds⟩ else none
  | none => none

def activeOf (entries : List Entry) : List ActiveSession := entries.filterMap Entry.active

def staleOf (entries : List Entry) : List Entry :=
  entries.filter fun e => e.session.isNone || e.ttlSeconds ≤ 0

/-- The pipeline that a listing method sends for the sessions it found live. -/
def Method.pipeline (active : List ActiveSession) : Method → List Command
  | .invalidateAllForUser userId =>
      if active.length = 0 then []
      else active.map (fun a => .del a.jti) ++ [.delIndex userId]
  | .refreshPermissionsForUser _ perms =>
      active.map fun a => .setex a.jti a.ttl_seconds
        { a.session with
          roles := perms.roles
          permissions := perms.permissions
          conditional_permissions := perms.conditional_permissions }
  | .setMustChangePasswordForUser _ mustChangePassword =>
      active.map fun a => .setex a.jti a.ttl_seconds
        { a.session with must_change_password := mustChangePassword }
  | _ => []

/-- Where a call stands: the Redis command it performs next, and what it has read. -/
inductive Phase where
  | smembers (userId : String)
  | get (userId : String) (entries : List Entry) (jti : String) (todo : List String)
  | ttl (userId : String) (entries : List Entry) (jti : String)
      (session : Option SessionData) (todo : List String)
  | srem (userId : String) (entries : List Entry)
  /-- The `GET` of `revoke`. -/
  | getRevoked (jti : String)
  | pipeline (commands : List Command)
  deriving DecidableEq

structure Call where
  method : Method
  phase : Phase
  deriving DecidableEq

def start (method : Method) : Call where
  method := method
  phase :=
    match method with
    | .create jti data ttlSeconds =>
        .pipeline [.setex jti ttlSeconds data, .sadd data.user_id jti]
    | .revoke jti => .getRevoked jti
    | .listActiveSessions userId => .smembers userId
    | .invalidateAllForUser userId => .smembers userId
    | .refreshPermissionsForUser userId _ => .smembers userId
    | .setMustChangePasswordForUser userId _ => .smembers userId

/-- After the last `TTL`: prune what is stale, then send the pipeline. -/
def afterReading (method : Method) (userId : String) (entries : List Entry) : Phase :=
  if (staleOf entries).length > 0 then .srem userId entries
  else .pipeline (method.pipeline (activeOf entries))

/-- The next command of a call. -/
def command (r : Redis) (call : Call) : Redis × Call :=
  match call.phase with
  | .smembers userId =>
      match r.index userId with
      | [] => (r, { call with phase := .pipeline [] })
      | jti :: todo => (r, { call with phase := .get userId [] jti todo })
  | .get userId entries jti todo =>
      (r, { call with phase := .ttl userId entries jti (r.get jti) todo })
  | .ttl userId entries jti session todo =>
      let entries' := entries ++ [⟨jti, session, r.ttl jti⟩]
      match todo with
      | [] => (r, { call with phase := afterReading call.method userId entries' })
      | next :: todo => (r, { call with phase := .get userId entries' next todo })
  | .srem userId entries =>
      (r.exec (.srem userId ((staleOf entries).map (·.jti))),
        { call with phase := .pipeline (call.method.pipeline (activeOf entries)) })
  | .getRevoked jti =>
      let srem :=
        match r.get jti with
        | some session => [.srem session.user_id [jti]]
        | none => []
      (r, { call with phase := .pipeline (.del jti :: srem) })
  | .pipeline [] => (r, call)
  | .pipeline (c :: commands) => (r.exec c, { call with phase := .pipeline commands })

/-- The store under concurrent calls; the surroundings let the clock advance. -/
def store : Interleaving.System Redis Call Method Nat where
  start _ := start
  command := command
  surroundings r ms := { r with clock := r.clock + ms }

abbrev Config := Interleaving.Config Redis Call
abbrev Event := Interleaving.Event Method Nat

/-- No keys and no calls. -/
def init : Config := ⟨⟨0, fun _ => none, fun _ => []⟩, []⟩

/-! ## Deleting a session -/

/-- The id whose `session:<jti>` the event deletes: the next command of the advancing call,
a `revoke` or an `invalidateAllForUser` that listed the session, is its `DEL`. -/
def deleted (c : Config) : Event → Option String
  | .advance i =>
      match c.calls[i]? with
      | some ⟨_, .pipeline (.del jti :: _)⟩ => some jti
      | _ => none
  | _ => none

theorem eq_of_deleted {c : Config} {e : Event} {jti : String} (h : deleted c e = some jti) :
    ∃ i method commands, e = .advance i ∧
      c.calls[i]? = some ⟨method, .pipeline (.del jti :: commands)⟩ := by
  unfold deleted at h
  split at h
  · rename_i i
    split at h
    · rename_i method k commands hi
      obtain rfl := Option.some.inj h
      exact ⟨i, method, commands, rfl, hi⟩
    · cases h
  · cases h

/-- The entries a listing has read so far. -/
def Phase.entries : Phase → List Entry
  | .get _ entries _ _ => entries
  | .ttl _ entries _ _ _ => entries
  | .srem _ entries => entries
  | _ => []

def Phase.commands : Phase → List Command
  | .pipeline commands => commands
  | _ => []

def Command.writes (jti : String) : Command → Bool
  | .setex k _ _ => k == jti
  | _ => false

/-- The call can still write `session:<jti>` from what it has read: a write of it is left in
its pipeline, or would be computed from the entries it has. -/
def Call.writes (jti : String) (call : Call) : Bool :=
  call.phase.commands.any (Command.writes jti) ||
    (call.method.pipeline (activeOf call.phase.entries)).any (Command.writes jti)

def Method.creates (jti : String) : Method → Bool
  | .create k _ _ => k == jti
  | _ => false

/-- A call other than a `create` has read the session live and has not written it back yet.
Only `refreshPermissionsForUser` and `setMustChangePasswordForUser` ever do. -/
def Call.holds (jti : String) (call : Call) : Bool :=
  !call.method.creates jti && call.writes jti

/-- When a session is deleted, no call in flight has it in hand. -/
def Guarded (c : Config) (e : Event) : Prop :=
  ∀ jti ∈ deleted c e, ∀ call ∈ c.calls, call.holds jti = false

instance (c : Config) (e : Event) : Decidable (Guarded c e) :=
  inferInstanceAs (Decidable (∀ jti ∈ deleted c e, ∀ call ∈ c.calls, call.holds jti = false))

/-! ## A deleted session stays deleted -/

theorem Redis.get_congr {r r' : Redis} {jti : String} (hc : r.clock = r'.clock)
    (hs : r.session jti = r'.session jti) : r.get jti = r'.get jti := by
  unfold Redis.get
  rw [hc, hs]

theorem Redis.get_exec_eq_none {r : Redis} {jti : String} (h : r.get jti = none)
    {c : Command} (hc : c.writes jti = false) : (r.exec c).get jti = none := by
  cases c with
  | setex k ttlSeconds data =>
      have hne : jti ≠ k := by
        rintro rfl
        simp [Command.writes] at hc
      by_cases ht : ttlSeconds ≤ 0
      · simpa [Redis.exec, ht] using h
      · rw [← h]
        exact Redis.get_congr (by simp [Redis.exec, ht]) (by simp [Redis.exec, ht, hne])
  | del k =>
      by_cases hk : jti = k
      · simp [Redis.exec, Redis.get, hk]
      · rw [← h]
        exact Redis.get_congr rfl (by simp [Redis.exec, hk])
  | delIndex userId => exact h
  | srem userId jtis => exact h
  | sadd userId k => exact h

theorem Redis.get_clock_eq_none {r : Redis} {jti : String} (h : r.get jti = none) (ms : Nat) :
    ({ r with clock := r.clock + ms } : Redis).get jti = none := by
  unfold Redis.get at h ⊢
  cases hs : r.session jti with
  | none => rfl
  | some entry =>
      have hold : ¬ r.clock < entry.2 := by
        intro hlt
        simp [hs, hlt] at h
      have hnew : ¬ r.clock + ms < entry.2 := by omega
      simp [hnew]

theorem Redis.ttl_of_get_eq_none {r : Redis} {jti : String} (h : r.get jti = none) :
    r.ttl jti = -2 := by
  unfold Redis.get at h
  unfold Redis.ttl
  cases hs : r.session jti with
  | none => rfl
  | some entry =>
      have hold : ¬ r.clock < entry.2 := by
        intro hlt
        simp [hs, hlt] at h
      simp [hold]

/-- An entry read while the session is gone is not live, whatever the `GET` before it read. -/
theorem activeOf_append_gone (entries : List Entry) (jti : String)
    (session : Option SessionData) :
    activeOf (entries ++ [⟨jti, session, -2⟩]) = activeOf entries := by
  cases session <;> simp [activeOf, Entry.active]

/-- The two methods that write sessions back. -/
def Method.rewrites : Method → Bool
  | .refreshPermissionsForUser _ _ => true
  | .setMustChangePasswordForUser _ _ => true
  | _ => false

/-- A pipeline writes the sessions that were found live, and only in a rewriting method. -/
theorem any_writes_pipeline (method : Method) (active : List ActiveSession) (jti : String) :
    (method.pipeline active).any (Command.writes jti) =
      (method.rewrites && active.any (·.jti == jti)) := by
  cases method with
  | invalidateAllForUser userId =>
      by_cases h : active.length = 0
      · simp [Method.pipeline, Method.rewrites, h]
      · simp [Method.pipeline, Method.rewrites, h, Command.writes]
  | refreshPermissionsForUser userId perms =>
      simp only [Method.pipeline, Method.rewrites, List.any_map, Bool.true_and]
      rfl
  | setMustChangePasswordForUser userId flag =>
      simp only [Method.pipeline, Method.rewrites, List.any_map, Bool.true_and]
      rfl
  | _ => rfl

/-- What a method that writes sessions back changes in one of them. -/
def Method.update : Method → SessionData → SessionData
  | .refreshPermissionsForUser _ perms, session =>
      { session with
        roles := perms.roles
        permissions := perms.permissions
        conditional_permissions := perms.conditional_permissions }
  | .setMustChangePasswordForUser _ mustChangePassword, session =>
      { session with must_change_password := mustChangePassword }
  | _, session => session

theorem Method.pipeline_eq_map {method : Method} (h : method.rewrites = true)
    (active : List ActiveSession) : method.pipeline active =
      active.map fun a => .setex a.jti a.ttl_seconds (method.update a.session) := by
  cases method with
  | refreshPermissionsForUser userId perms => rfl
  | setMustChangePasswordForUser userId mustChangePassword => rfl
  | _ => cases h

theorem Method.update_idem (method : Method) (session : SessionData) :
    method.update (method.update session) = method.update session := by
  cases method <;> rfl

/-- One more entry: it is live only if its session was there when its `TTL` was read. -/
theorem any_activeOf_append {jti : String} {r : Redis} (hgone : r.get jti = none)
    {entries : List Entry} (h : (activeOf entries).any (·.jti == jti) = false) (k : String)
    (session : Option SessionData) :
    (activeOf (entries ++ [⟨k, session, r.ttl k⟩])).any (·.jti == jti) = false := by
  by_cases hk : k = jti
  · subst hk
    rw [Redis.ttl_of_get_eq_none hgone, activeOf_append_gone, h]
  · rw [activeOf, List.filterMap_append, List.any_append, ← activeOf, h, Bool.false_or]
    cases session with
    | none => rfl
    | some data =>
        by_cases ht : r.ttl k > 0
        · simp [Entry.active, ht, hk]
        · simp [Entry.active, ht]

/-- A call that cannot write the session and finds it gone cannot write it after its next
command either. -/
theorem writes_command {jti : String} {r : Redis} (hgone : r.get jti = none) {call : Call}
    (h : call.writes jti = false) : (command r call).2.writes jti = false := by
  obtain ⟨method, phase⟩ := call
  simp only [Call.writes, Bool.or_eq_false_iff, any_writes_pipeline] at h ⊢
  obtain ⟨hcommands, hentries⟩ := h
  cases phase with
  | smembers userId =>
      cases hr : r.index userId with
      | nil => simp [command, hr, Phase.commands, Phase.entries, activeOf]
      | cons k todo => simp [command, hr, Phase.commands, Phase.entries, activeOf]
  | get userId entries k todo => exact ⟨rfl, hentries⟩
  | ttl userId entries k session todo =>
      -- The only step at which an entry enters the list.
      have hnew : (method.rewrites &&
          (activeOf (entries ++ [⟨k, session, r.ttl k⟩])).any (·.jti == jti)) = false := by
        rw [Bool.and_eq_false_iff] at hentries ⊢
        exact hentries.imp_right fun hold => any_activeOf_append hgone hold k session
      cases todo with
      | cons next todo => exact ⟨rfl, hnew⟩
      | nil =>
          simp only [command, afterReading]
          split
          · exact ⟨rfl, hnew⟩
          · refine ⟨?_, by simp [Phase.entries, activeOf]⟩
            rw [Phase.commands, any_writes_pipeline]
            exact hnew
  | srem userId entries =>
      refine ⟨?_, by simp [command, Phase.entries, activeOf]⟩
      show (method.pipeline (activeOf entries)).any (Command.writes jti) = false
      rw [any_writes_pipeline]
      exact hentries
  | getRevoked k =>
      refine ⟨?_, by simp [command, Phase.entries, activeOf]⟩
      cases hk : r.get k <;> simp [command, hk, Phase.commands, Command.writes]
  | pipeline commands =>
      cases commands with
      | nil => exact ⟨rfl, hentries⟩
      | cons c commands =>
          simp only [Phase.commands, List.any_cons, Bool.or_eq_false_iff] at hcommands
          exact ⟨hcommands.2, hentries⟩

/-- The command of a call that cannot write the session leaves it gone. -/
theorem get_command_eq_none {jti : String} {r : Redis} (hgone : r.get jti = none) {call : Call}
    (h : call.writes jti = false) : (command r call).1.get jti = none := by
  obtain ⟨method, phase⟩ := call
  cases phase with
  | smembers userId =>
      cases hr : r.index userId <;> simpa [command, hr] using hgone
  | get userId entries k todo => exact hgone
  | ttl userId entries k session todo => cases todo <;> exact hgone
  | srem userId entries => exact Redis.get_exec_eq_none (c := .srem userId _) hgone rfl
  | getRevoked k => exact hgone
  | pipeline commands =>
      cases commands with
      | nil => exact hgone
      | cons c commands =>
          simp only [Call.writes, Phase.commands, List.any_cons, Bool.or_eq_false_iff] at h
          exact Redis.get_exec_eq_none hgone h.1.1

theorem writes_start {jti : String} {method : Method} (h : method.creates jti = false) :
    (start method).writes jti = false := by
  cases method with
  | create k data ttlSeconds =>
      simpa [start, Call.writes, Phase.commands, Phase.entries, Command.writes, Method.creates,
        any_writes_pipeline, Method.rewrites] using h
  | _ => simp [start, Call.writes, Phase.commands, Phase.entries, any_writes_pipeline, activeOf]

/-- No event of the run starts a `create` of the session. -/
def NoCreate (jti : String) (_ : Config) (e : Event) : Prop :=
  ∀ method, e = .start method → method.creates jti = false

/-- Gone, and nobody can write it: both last as long as no `create` of it starts. -/
theorem preserved_gone (jti : String) :
    Interleaving.Preserved store (NoCreate jti) (fun r => r.get jti = none)
      (fun _ call => call.writes jti = false) where
  start _ method hok _ := writes_start (hok method rfl)
  command _ _ _ _ _ hgone hcall :=
    ⟨get_command_eq_none hgone hcall, writes_command hgone hcall⟩
  others _ _ _ _ _ _ _ _ _ _ _ hother := hother
  surroundings _ ms _ hgone := ⟨Redis.get_clock_eq_none hgone ms, fun _ _ h => h⟩

/-- After a deletion that no call in flight stands against, the session is gone and nobody
can write it. -/
theorem keeps_after_deletion {c : Config} {e : Event} {jti : String} (hdel : deleted c e = some jti)
    (hguard : Guarded c e)
    (hcreate : ∀ call ∈ c.calls, call.method.creates jti = true → call.writes jti = false) :
    Interleaving.Keeps (fun r => r.get jti = none) (fun _ call => call.writes jti = false)
      (Interleaving.step store c e) := by
  have hfree : ∀ call ∈ c.calls, call.writes jti = false := by
    intro call hmem
    cases hc : call.method.creates jti with
    | true => exact hcreate call hmem hc
    | false => simpa [Call.holds, hc] using hguard jti hdel call hmem
  obtain ⟨i, method, commands, rfl, hi⟩ := eq_of_deleted hdel
  simp only [Interleaving.step, hi, store, command]
  refine ⟨by simp [Redis.exec, Redis.get], fun other hmem => ?_⟩
  rcases List.mem_or_eq_of_mem_set hmem with hold | rfl
  · exact hfree other hold
  · have h := hfree _ (List.mem_of_getElem? hi)
    simp only [Call.writes, Phase.commands, List.any_cons, Bool.or_eq_false_iff] at h ⊢
    exact ⟨h.1.2, h.2⟩

/-- **A deleted session stays deleted.** In every run in which, at each deletion of a session,
no call in flight has read it live without having written it back yet: once
`session:<jti>` is deleted, and no `create` of that id is pending or started afterwards, no
later state has a live `session:<jti>`. -/
theorem not_live_after_deletion (before after : List Event) (e : Event) (jti : String)
    (hguard : Interleaving.AllSteps store Guarded init (before ++ e :: after))
    (hdel : deleted (Interleaving.run store init before) e = some jti)
    (hpending : ∀ call ∈ (Interleaving.run store init before).calls,
      call.method.creates jti = true → call.writes jti = false)
    (hcreate : ∀ method, .start method ∈ after → method.creates jti = false) :
    (Interleaving.run store init (before ++ e :: after)).shared.get jti = none := by
  have hok : ∀ (c : Config) (es : List Event),
      (∀ method, .start method ∈ es → method.creates jti = false) →
      Interleaving.AllSteps store (NoCreate jti) c es := by
    intro c es
    induction es generalizing c with
    | nil => exact fun _ => trivial
    | cons e es ih =>
        intro h
        refine ⟨?_, ih _ fun method hmem => h method (List.mem_cons_of_mem e hmem)⟩
        rintro method rfl
        exact h method List.mem_cons_self
  obtain ⟨-, hnow, -⟩ := (Interleaving.allSteps_append store).mp hguard
  rw [Interleaving.run_append, Interleaving.run_cons]
  exact (Interleaving.run_keeps (preserved_gone jti) (hok _ after hcreate)
    (keeps_after_deletion hdel hnow hpending)).1

/-! ## Two runs with one session -/

/-- The session of user `u`. -/
def aliceSession : SessionData where
  user_id := "u"
  username := "alice"
  fullname := none
  email := none
  roles := []
  permissions := []
  conditional_permissions := []
  expired_at := none
  must_change_password := false

/-- Login, then a permission refresh that runs to its end, then a revocation up to its
`DEL`. -/
def refreshThenRevoke : List Event :=
  [.start (.create "j" aliceSession 3600), .advance 0, .advance 0,
    .start (.refreshPermissionsForUser "u" ⟨[], ["order:view"], []⟩),
    .advance 1, .advance 1, .advance 1, .advance 1,
    .start (.revoke "j"), .advance 2]

/-- One call after the other: the revoked session is gone. -/
theorem not_live_after_refreshThenRevoke :
    Interleaving.AllSteps store Guarded init
      (refreshThenRevoke ++ .advance 2 :: [.advance 2, .advance 1]) ∧
    (Interleaving.run store init
      (refreshThenRevoke ++ .advance 2 :: [.advance 2, .advance 1])).shared.get "j" = none := by
  have hguard : Interleaving.AllSteps store Guarded init
      (refreshThenRevoke ++ .advance 2 :: [.advance 2, .advance 1]) := by decide
  refine ⟨hguard, not_live_after_deletion refreshThenRevoke [.advance 2, .advance 1]
    (.advance 2) "j" hguard (by decide) (by decide) ?_⟩
  intro method hmem
  simp at hmem

/-- The refresh has read the session when the revocation deletes it, and writes it back. -/
def revokeInsideRefresh : List Event :=
  [.start (.create "j" aliceSession 3600), .advance 0, .advance 0,
    .start (.refreshPermissionsForUser "u" ⟨[], ["order:view"], []⟩),
    .advance 1, .advance 1, .advance 1,
    .start (.revoke "j"), .advance 2]

/-- **A revoked session comes back to life.** -/
theorem revoked_session_revived :
    deleted (Interleaving.run store init revokeInsideRefresh) (.advance 2) = some "j" ∧
    (Interleaving.run store init (revokeInsideRefresh ++ [.advance 2])).shared.get "j" = none ∧
    ((Interleaving.run store init
      (revokeInsideRefresh ++ .advance 2 :: [.advance 2, .advance 1])).shared.get "j").isSome =
        true := by
  decide

end ErpApi.Session
