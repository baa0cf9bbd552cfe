import Mathlib.Data.List.Nodup
import ErpApi.Session.SessionStore

set_option autoImplicit false

/-! # Refreshing the sessions of several users

`SessionSyncService.syncUsers` refreshes the sessions of several users at once: one call of
`refreshPermissionsForUser` for each, whose commands interleave. The calls do not get into each
other's way, because a session is in the index of its own user and of no other (`WellIndexed`).
When all of them have ended, every live session of these users has the new permissions, and the
sessions of other users are as before (`refreshAll_hasPerms`).

A session is live as the store sees it: its key is there, and its time to live in seconds is
positive.
-/

namespace ErpApi.Session

open Interleaving (run step AllSteps)

/-! ## Live sessions -/

def Redis.live (r : Redis) (jti : String) : Option SessionData :=
  match r.get jti with
  | none => none
  | some data => if r.ttl jti > 0 then some data else none

theorem Redis.session_of_live {r : Redis} {jti : String} {data : SessionData}
    (h : r.live jti = some data) : ∃ expires, r.session jti = some (data, expires) := by
  unfold Redis.live Redis.get at h
  cases hs : r.session jti with
  | none =>
      rw [hs] at h
      cases h
  | some entry =>
      obtain ⟨data', expires⟩ := entry
      rw [hs] at h
      by_cases hlt : r.clock < expires
      · simp only [hlt, if_true] at h
        split at h
        · obtain rfl := Option.some.inj h
          exact ⟨expires, rfl⟩
        · cases h
      · simp [hlt] at h

theorem Redis.live_congr {r r' : Redis} {jti : String} (hc : r'.clock = r.clock)
    (hs : r'.session jti = r.session jti) : r'.live jti = r.live jti := by
  unfold Redis.live Redis.get Redis.ttl
  rw [hc, hs]

/-- A session that is live later was live before. -/
theorem Redis.live_of_later {r : Redis} {jti : String} {data : SessionData} {ms : Nat}
    (h : ({ r with clock := r.clock + ms } : Redis).live jti = some data) :
    r.live jti = some data := by
  unfold Redis.live Redis.get Redis.ttl at h ⊢
  cases hs : r.session jti with
  | none => simp [hs] at h
  | some entry =>
      obtain ⟨data', expires⟩ := entry
      simp only [hs] at h ⊢
      by_cases hlt : r.clock + ms < expires
      · have hlt' : r.clock < expires := by omega
        simp only [hlt, hlt', if_true] at h ⊢
        by_cases hpos : (((expires - (r.clock + ms) + 500) / 1000 : Nat) : Int) > 0
        · have hpos' : (((expires - r.clock + 500) / 1000 : Nat) : Int) > 0 := by omega
          rw [if_pos hpos] at h
          rw [if_pos hpos']
          exact h
        · rw [if_neg hpos] at h
          cases h
      · simp [hlt] at h

/-- What a listing reads of a session is live if the session is when the `TTL` is read. -/
theorem Entry.active_isNone {r : Redis} {jti : String} {session : Option SessionData}
    (hnone : session = none → r.live jti = none)
    (h : (Entry.mk jti session (r.ttl jti)).active = none) : r.live jti = none := by
  cases session with
  | none => exact hnone rfl
  | some data =>
      have hle : ¬ r.ttl jti > 0 := by
        intro hpos
        simp [Entry.active, hpos] at h
      unfold Redis.live
      cases r.get jti with
      | none => rfl
      | some data' => exact if_neg hle

/-- A session is in the index of its user, and an id is in one index only. -/
structure WellIndexed (r : Redis) : Prop where
  indexed : ∀ jti data, r.live jti = some data → jti ∈ r.index data.user_id
  owner : ∀ userId jti data expires, jti ∈ r.index userId →
    r.session jti = some (data, expires) → data.user_id = userId
  nodup : ∀ userId, (r.index userId).Nodup
  disjoint : ∀ userId userId' jti, jti ∈ r.index userId → jti ∈ r.index userId' →
    userId = userId'

/-- The session has the permissions. -/
def HasPerms (perms : Perms) (data : SessionData) : Prop :=
  data.permissions = perms.permissions ∧
    data.conditional_permissions = perms.conditional_permissions

/-! ## One call -/

section Refresh

variable (p : String → Perms)

/-- What a listing has read of the sessions of a user; an entry that is not active is of a session
that is no longer live. -/
def EntriesOk (userId : String) (r : Redis) (entries : List Entry) : Prop :=
  ∀ e ∈ entries, e.jti ∈ r.index userId ∧ (∀ data, e.session = some data → data.user_id = userId) ∧
    (e.active = none → r.live e.jti = none)

/-- The live sessions of the user are still to be read or were read as active. -/
def Listed (userId : String) (r : Redis) (entries : List Entry) (todo : List String) : Prop :=
  ∀ jti data, r.live jti = some data → data.user_id = userId →
    jti ∈ todo ∨ ∃ a ∈ activeOf entries, a.jti = jti

/-- Where a call of `refreshPermissionsForUser` stands. -/
def PhaseOk (userId : String) (r : Redis) : Phase → Prop
  | .smembers userId' => userId' = userId
  | .get userId' entries jti todo =>
      userId' = userId ∧ EntriesOk userId r entries ∧ Listed userId r entries (jti :: todo) ∧
        (∀ j ∈ jti :: todo, j ∈ r.index userId) ∧
        (entries.map Entry.jti ++ jti :: todo).Nodup
  | .ttl userId' entries jti session todo =>
      userId' = userId ∧ EntriesOk userId r entries ∧ Listed userId r entries (jti :: todo) ∧
        (∀ j ∈ jti :: todo, j ∈ r.index userId) ∧
        (entries.map Entry.jti ++ jti :: todo).Nodup ∧
        (session = none → r.live jti = none) ∧
        ∀ data, session = some data → data.user_id = userId
  | .srem userId' entries =>
      userId' = userId ∧ EntriesOk userId r entries ∧ Listed userId r entries [] ∧
        (entries.map Entry.jti).Nodup
  | .getRevoked _ => False
  | .pipeline commands =>
      (∀ c ∈ commands, ∃ jti ttlSeconds data, c = .setex jti ttlSeconds data ∧ ttlSeconds > 0 ∧
        jti ∈ r.index userId ∧ data.user_id = userId ∧ HasPerms (p userId) data) ∧
      ∀ jti data, r.live jti = some data → data.user_id = userId →
        (∃ ttlSeconds data', .setex jti ttlSeconds data' ∈ commands) ∨ HasPerms (p userId) data

/-- What the calls for one user do to the keys: nothing outside that user's sessions. -/
structure Frame (userId : String) (r r' : Redis) : Prop where
  clock : r'.clock = r.clock
  index : ∀ userId', userId' ≠ userId → r'.index userId' = r.index userId'
  session : ∀ jti, r'.session jti = r.session jti ∨ jti ∈ r.index userId ∧ jti ∈ r'.index userId

variable {p}

theorem Frame.refl (userId : String) (r : Redis) : Frame userId r r :=
  ⟨rfl, fun _ _ => rfl, fun _ => .inl rfl⟩

/-- The live sessions of the other users were live before. -/
theorem Frame.live_of_ne {userId : String} {r r' : Redis} {jti : String} {data : SessionData}
    (h : Frame userId r r') (hr' : WellIndexed r') (hlive : r'.live jti = some data)
    (hne : data.user_id ≠ userId) : r.live jti = some data := by
  rcases h.session jti with hsame | ⟨-, hmem⟩
  · rw [← Redis.live_congr h.clock hsame]
    exact hlive
  · obtain ⟨expires, hsession⟩ := Redis.session_of_live hlive
    exact absurd (hr'.owner _ jti data expires hmem hsession) hne

/-- A session in the index of another user does not come to life. -/
theorem Frame.not_live {userId userId' : String} {r r' : Redis} {jti : String}
    (h : Frame userId r r') (hr : WellIndexed r) (hne : userId' ≠ userId)
    (hmem : jti ∈ r.index userId') (hlive : r.live jti = none) : r'.live jti = none := by
  rcases h.session jti with hsame | ⟨hmem', -⟩
  · rw [Redis.live_congr h.clock hsame]
    exact hlive
  · exact absurd (hr.disjoint _ _ jti hmem hmem') hne

theorem Frame.entriesOk {userId userId' : String} {r r' : Redis} {entries : List Entry}
    (h : Frame userId r r') (hr : WellIndexed r) (hne : userId' ≠ userId)
    (hentries : EntriesOk userId' r entries) : EntriesOk userId' r' entries := by
  intro e he
  obtain ⟨hmem, howner, hactive⟩ := hentries e he
  refine ⟨?_, howner, ?_⟩
  · rw [h.index userId' hne]
    exact hmem
  · intro hnone
    exact h.not_live hr hne hmem (hactive hnone)

theorem Frame.listed {userId userId' : String} {r r' : Redis} {entries : List Entry}
    {todo : List String} (h : Frame userId r r') (hr' : WellIndexed r') (hne : userId' ≠ userId)
    (hlisted : Listed userId' r entries todo) : Listed userId' r' entries todo := by
  intro jti data hlive huser
  exact hlisted jti data (h.live_of_ne hr' hlive (huser ▸ hne)) huser

/-- A call of another user goes on as if nothing had happened. -/
theorem Frame.phaseOk {userId userId' : String} {r r' : Redis} {phase : Phase}
    (h : Frame userId r r') (hr : WellIndexed r) (hr' : WellIndexed r') (hne : userId' ≠ userId)
    (hphase : PhaseOk p userId' r phase) : PhaseOk p userId' r' phase := by
  cases phase with
  | smembers user => exact hphase
  | get user entries jti todo =>
      obtain ⟨huser, hentries, hlisted, hindex, hnodup⟩ := hphase
      refine ⟨huser, h.entriesOk hr hne hentries, h.listed hr' hne hlisted, ?_, hnodup⟩
      rw [h.index userId' hne]
      exact hindex
  | ttl user entries jti session todo =>
      obtain ⟨huser, hentries, hlisted, hindex, hnodup, hnone, howner⟩ := hphase
      refine ⟨huser, h.entriesOk hr hne hentries, h.listed hr' hne hlisted, ?_, hnodup, ?_, howner⟩
      · rw [h.index userId' hne]
        exact hindex
      · intro hsession
        exact h.not_live hr hne (hindex jti List.mem_cons_self) (hnone hsession)
  | srem user entries =>
      obtain ⟨huser, hentries, hlisted, hnodup⟩ := hphase
      exact ⟨huser, h.entriesOk hr hne hentries, h.listed hr' hne hlisted, hnodup⟩
  | getRevoked jti => exact hphase
  | pipeline commands =>
      obtain ⟨hcommands, hlive⟩ := hphase
      refine ⟨?_, ?_⟩
      · rw [h.index userId' hne]
        exact hcommands
      · intro jti data hlive' huser
        exact hlive jti data (h.live_of_ne hr' hlive' (huser ▸ hne)) huser

/-- Time passes. -/
theorem PhaseOk.later {userId : String} {r : Redis} {phase : Phase} (ms : Nat)
    (h : PhaseOk p userId r phase) :
    PhaseOk p userId { r with clock := r.clock + ms } phase := by
  have hnone : ∀ jti, r.live jti = none →
      ({ r with clock := r.clock + ms } : Redis).live jti = none := by
    intro jti hjti
    cases hlive : ({ r with clock := r.clock + ms } : Redis).live jti with
    | none => rfl
    | some data =>
        rw [Redis.live_of_later hlive] at hjti
        cases hjti
  have hentries : ∀ entries, EntriesOk userId r entries →
      EntriesOk userId { r with clock := r.clock + ms } entries := by
    intro entries hok e he
    obtain ⟨hmem, howner, hactive⟩ := hok e he
    exact ⟨hmem, howner, fun hno => hnone _ (hactive hno)⟩
  have hlisted : ∀ entries todo, Listed userId r entries todo →
      Listed userId { r with clock := r.clock + ms } entries todo := by
    intro entries todo hok jti data hlive
    exact hok jti data (Redis.live_of_later hlive)
  cases phase with
  | smembers user => exact h
  | get user entries jti todo =>
      obtain ⟨huser, hok, hall, hrest⟩ := h
      exact ⟨huser, hentries entries hok, hlisted entries _ hall, hrest⟩
  | ttl user entries jti session todo =>
      obtain ⟨huser, hok, hall, hindex, hnodup, hgone, howner⟩ := h
      exact ⟨huser, hentries entries hok, hlisted entries _ hall, hindex, hnodup,
        fun hno => hnone jti (hgone hno), howner⟩
  | srem user entries =>
      obtain ⟨huser, hok, hall, hnodup⟩ := h
      exact ⟨huser, hentries entries hok, hlisted entries _ hall, hnodup⟩
  | getRevoked jti => exact h
  | pipeline commands =>
      obtain ⟨hcommands, hlive⟩ := h
      exact ⟨hcommands, fun jti data hlater => hlive jti data (Redis.live_of_later hlater)⟩

theorem WellIndexed.later {r : Redis} (h : WellIndexed r) (ms : Nat) :
    WellIndexed { r with clock := r.clock + ms } :=
  ⟨fun jti data hlive => h.indexed jti data (Redis.live_of_later hlive), h.owner, h.nodup,
    h.disjoint⟩

/-! ## The commands of a call -/

/-- The new state of the keys and of the call. -/
structure StepOk (p : String → Perms) (userId : String) (r r' : Redis) (phase' : Phase) :
    Prop where
  indexed : WellIndexed r'
  phase : PhaseOk p userId r' phase'
  frame : Frame userId r r'

/-- A command that writes nothing. -/
theorem StepOk.of_read {userId : String} {r : Redis} {phase' : Phase} (hr : WellIndexed r)
    (h : PhaseOk p userId r phase') : StepOk p userId r r phase' :=
  ⟨hr, h, .refl userId r⟩

theorem Redis.session_of_get {r : Redis} {jti : String} {data : SessionData}
    (h : r.get jti = some data) : ∃ expires, r.session jti = some (data, expires) := by
  unfold Redis.get at h
  split at h
  · cases h
  · rename_i data' expires hs
    split at h
    · obtain rfl := Option.some.inj h
      exact ⟨expires, hs⟩
    · cases h

theorem Redis.live_of_get_none {r : Redis} {jti : String} (h : r.get jti = none) :
    r.live jti = none := by
  rw [Redis.live, h]

theorem Entry.active_jti {e : Entry} {a : ActiveSession} (h : e.active = some a) :
    a.jti = e.jti ∧ e.session = some a.session ∧ a.ttl_seconds > 0 := by
  unfold Entry.active at h
  split at h
  · rename_i session hs
    split at h
    · rename_i hpos
      obtain rfl := Option.some.inj h
      exact ⟨rfl, hs, hpos⟩
    · cases h
  · cases h

theorem mem_activeOf {entries : List Entry} {a : ActiveSession} (h : a ∈ activeOf entries) :
    ∃ e ∈ entries, e.active = some a :=
  List.mem_filterMap.mp h

theorem smembers_ok (p : String → Perms) (userId : String) {r : Redis} (hr : WellIndexed r) :
    PhaseOk p userId r (match r.index userId with
      | [] => .pipeline []
      | jti :: todo => .get userId [] jti todo) := by
  have hindexed : ∀ jti data, r.live jti = some data → data.user_id = userId →
      jti ∈ r.index userId := by
    rintro jti data hlive rfl
    exact hr.indexed jti data hlive
  cases hindex : r.index userId with
  | nil =>
      refine ⟨by simp, ?_⟩
      intro jti data hlive huser
      have hmem := hindexed jti data hlive huser
      rw [hindex] at hmem
      cases hmem
  | cons jti todo =>
      refine ⟨rfl, by simp [EntriesOk], ?_, ?_, ?_⟩
      · intro j data hlive huser
        rw [← hindex]
        exact .inl (hindexed j data hlive huser)
      · intro j hj
        rw [hindex]
        exact hj
      · have hnodup := hr.nodup userId
        rw [hindex] at hnodup
        exact hnodup

/-- One more entry. -/
theorem entries_append {userId : String} {r : Redis} {entries : List Entry} {jti : String}
    {session : Option SessionData} {todo : List String} (hentries : EntriesOk userId r entries)
    (hlisted : Listed userId r entries (jti :: todo)) (hmem : jti ∈ r.index userId)
    (hnone : session = none → r.live jti = none)
    (howner : ∀ data, session = some data → data.user_id = userId) :
    EntriesOk userId r (entries ++ [⟨jti, session, r.ttl jti⟩]) ∧
      Listed userId r (entries ++ [⟨jti, session, r.ttl jti⟩]) todo := by
  refine ⟨?_, ?_⟩
  · intro e he
    rcases List.mem_append.mp he with hold | hnew
    · exact hentries e hold
    · rw [List.mem_singleton.mp hnew]
      exact ⟨hmem, howner, fun hno => Entry.active_isNone hnone hno⟩
  · intro j data hlive huser
    rcases hlisted j data hlive huser with hj | ⟨a, ha, hja⟩
    · rcases List.mem_cons.mp hj with rfl | hj
      · -- The session is live when its `TTL` is read, so the entry is active.
        cases hactive : (Entry.mk j session (r.ttl j)).active with
        | none =>
            rw [Entry.active_isNone hnone hactive] at hlive
            cases hlive
        | some a =>
            refine .inr ⟨a, ?_, (Entry.active_jti hactive).1⟩
            rw [activeOf, List.filterMap_append]
            refine List.mem_append_right _ (List.mem_filterMap.mpr ⟨_, ?_, hactive⟩)
            exact List.mem_singleton_self _
      · exact .inl hj
    · refine .inr ⟨a, ?_, hja⟩
      rw [activeOf, List.filterMap_append]
      exact List.mem_append_left _ ha

/-- The pipeline writes every session that was read as active, with the new permissions. -/
theorem pipeline_ok {userId : String} {r : Redis} {entries : List Entry}
    (hentries : EntriesOk userId r entries) (hlisted : Listed userId r entries []) :
    PhaseOk p userId r (.pipeline
      ((Method.refreshPermissionsForUser userId (p userId)).pipeline (activeOf entries))) := by
  refine ⟨?_, ?_⟩
  · intro c hc
    obtain ⟨a, ha, rfl⟩ := List.mem_map.mp hc
    obtain ⟨e, he, hactive⟩ := mem_activeOf ha
    obtain ⟨hjti, hsession, hpos⟩ := Entry.active_jti hactive
    obtain ⟨hmem, howner, -⟩ := hentries e he
    exact ⟨_, _, _, rfl, hpos, hjti ▸ hmem, howner a.session hsession, rfl, rfl⟩
  · intro jti data hlive huser
    rcases hlisted jti data hlive huser with hno | ⟨a, ha, rfl⟩
    · cases hno
    · exact .inl ⟨_, _, List.mem_map_of_mem ha⟩

theorem not_active_of_stale {entries : List Entry} {e : Entry} (h : e ∈ staleOf entries) :
    e ∈ entries ∧ e.active = none := by
  obtain ⟨he, hstale⟩ := List.mem_filter.mp h
  refine ⟨he, ?_⟩
  unfold Entry.active
  split
  · rename_i session hs
    rw [hs] at hstale
    have hle : e.ttlSeconds ≤ 0 := by simpa using hstale
    rw [if_neg (by omega)]
  · rfl

theorem Redis.mem_of_mem_srem {r : Redis} {userId user jti : String} {jtis : List String}
    (h : jti ∈ (r.exec (.srem userId jtis)).index user) : jti ∈ r.index user := by
  have hmem : jti ∈ (if user = userId then (r.index user).filter (fun j => !jtis.contains j)
      else r.index user) := h
  split at hmem
  · exact (List.mem_filter.mp hmem).1
  · exact hmem

/-- Pruning the stale ids. -/
theorem srem_ok {userId : String} {r : Redis} {entries : List Entry} (hr : WellIndexed r)
    (hentries : EntriesOk userId r entries) (hlisted : Listed userId r entries [])
    (hnodup : (entries.map Entry.jti).Nodup) :
    StepOk p userId r (r.exec (.srem userId ((staleOf entries).map (·.jti))))
      (.pipeline
        ((Method.refreshPermissionsForUser userId (p userId)).pipeline (activeOf entries))) := by
  -- An id that is pruned is not live, and it is not that of an active entry.
  have hpruned : ∀ jti, ((staleOf entries).map (·.jti)).contains jti = true →
      ∃ e ∈ entries, e.jti = jti ∧ e.active = none := by
    intro jti hmem
    obtain ⟨e, he, hjti⟩ := List.mem_map.mp (List.contains_iff_mem.mp hmem)
    obtain ⟨hmem', hactive⟩ := not_active_of_stale he
    exact ⟨e, hmem', hjti, hactive⟩
  have hkeep : ∀ jti ∈ r.index userId,
      (∀ e ∈ entries, e.jti = jti → e.active ≠ none) →
      jti ∈ (r.exec (.srem userId ((staleOf entries).map (·.jti)))).index userId := by
    intro jti hmem hactive
    show jti ∈ (if userId = userId then (r.index userId).filter
      (fun j => !((staleOf entries).map (·.jti)).contains j) else r.index userId)
    rw [if_pos rfl]
    refine List.mem_filter.mpr ⟨hmem, ?_⟩
    by_contra hstale
    obtain ⟨e, he, hjti, hnone⟩ := hpruned jti (by simpa using hstale)
    exact hactive e he hjti hnone
  have hentries' : EntriesOk userId (r.exec (.srem userId ((staleOf entries).map (·.jti))))
      (entries.filter fun e => e.active.isSome) := by
    intro e he
    obtain ⟨hmem, hsome⟩ := List.mem_filter.mp he
    obtain ⟨hindex, howner, -⟩ := hentries e hmem
    refine ⟨hkeep e.jti hindex ?_, howner, ?_⟩
    · intro e' he' hjti
      rw [List.inj_on_of_nodup_map hnodup he' hmem hjti]
      exact Option.isSome_iff_ne_none.mp hsome
    · intro hnone
      rw [hnone] at hsome
      cases hsome
  have hactiveOf : activeOf (entries.filter fun e => e.active.isSome) = activeOf entries := by
    rw [activeOf, activeOf, List.filterMap_filter]
    apply List.filterMap_congr
    intro e _
    cases e.active with
    | none => rfl
    | some a => rfl
  refine ⟨⟨?_, ?_, ?_, ?_⟩, ?_, ⟨rfl, ?_, fun _ => .inl rfl⟩⟩
  · intro jti data hlive
    have hlive' : r.live jti = some data := hlive
    have hindex := hr.indexed jti data hlive'
    by_cases huser : data.user_id = userId
    · rw [huser] at hindex ⊢
      refine hkeep jti hindex ?_
      intro e he hjti hnone
      obtain ⟨-, -, hactive⟩ := hentries e he
      rw [← hjti, hactive hnone] at hlive'
      cases hlive'
    · show jti ∈ (if data.user_id = userId then _ else r.index data.user_id)
      rw [if_neg huser]
      exact hindex
  · intro user jti data expires hmem hsession
    exact hr.owner user jti data expires (Redis.mem_of_mem_srem hmem) hsession
  · intro user
    show (if user = userId then (r.index user).filter
      (fun j => !((staleOf entries).map (·.jti)).contains j) else r.index user).Nodup
    split
    · exact (hr.nodup user).filter _
    · exact hr.nodup user
  · intro user user' jti hmem hmem'
    exact hr.disjoint user user' jti (Redis.mem_of_mem_srem hmem) (Redis.mem_of_mem_srem hmem')
  · rw [← hactiveOf]
    refine pipeline_ok hentries' ?_
    rw [Listed, hactiveOf]
    exact hlisted
  · intro user hne
    show (if user = userId then _ else r.index user) = r.index user
    rw [if_neg hne]

/-- The keys after the session was written. -/
def Redis.withSession (r : Redis) (jti : String) (entry : SessionData × Nat) : Redis :=
  { r with session := fun k => if k = jti then some entry else r.session k }

theorem Redis.exec_setex (r : Redis) (jti : String) {ttlSeconds : Int} (data : SessionData)
    (hpos : ttlSeconds > 0) : r.exec (.setex jti ttlSeconds data) =
      r.withSession jti (data, r.clock + 1000 * ttlSeconds.toNat) := by
  rw [Redis.exec, if_neg (by omega), Redis.withSession]

theorem Redis.withSession_session {r : Redis} {jti j : String} {entry entry' : SessionData × Nat}
    (h : (r.withSession jti entry).session j = some entry') :
    (j = jti ∧ entry' = entry) ∨ j ≠ jti ∧ r.session j = some entry' := by
  rw [Redis.withSession] at h
  dsimp only at h
  split at h
  · rename_i hj
    exact .inl ⟨hj, (Option.some.inj h).symm⟩
  · rename_i hj
    exact .inr ⟨hj, h⟩

theorem Redis.withSession_live {r : Redis} {jti j : String} (entry : SessionData × Nat)
    (hj : j ≠ jti) : (r.withSession jti entry).live j = r.live j :=
  Redis.live_congr rfl (if_neg hj)

/-- Writing one session. -/
theorem setex_ok {userId jti : String} {r : Redis} {ttlSeconds : Int} {data : SessionData}
    {commands : List Command} (hr : WellIndexed r)
    (h : PhaseOk p userId r (.pipeline (.setex jti ttlSeconds data :: commands))) :
    StepOk p userId r (r.exec (.setex jti ttlSeconds data)) (.pipeline commands) := by
  obtain ⟨hcommands, hlive⟩ := h
  obtain ⟨jti', ttl', data', hc, hpos, hmem, huser, hperms⟩ :=
    hcommands _ List.mem_cons_self
  obtain ⟨rfl, rfl, rfl⟩ := Command.setex.inj hc
  clear hc
  rw [Redis.exec_setex r jti data hpos]
  refine ⟨⟨?_, ?_, hr.nodup, hr.disjoint⟩, ⟨?_, ?_⟩, ⟨rfl, fun _ _ => rfl, ?_⟩⟩
  · intro j data' hlive'
    obtain ⟨expires, hs⟩ := Redis.session_of_live hlive'
    rcases Redis.withSession_session hs with ⟨rfl, heq⟩ | ⟨hj, -⟩
    · obtain ⟨rfl, -⟩ := Prod.mk.inj heq
      rw [huser]
      exact hmem
    · rw [Redis.withSession_live _ hj] at hlive'
      exact hr.indexed j data' hlive'
  · intro user j data' expires hj hs
    rcases Redis.withSession_session hs with ⟨rfl, heq⟩ | ⟨-, hold⟩
    · obtain ⟨rfl, -⟩ := Prod.mk.inj heq
      rw [huser]
      exact hr.disjoint userId user j hmem hj
    · exact hr.owner user j data' expires hj hold
  · intro c hc
    exact hcommands c (List.mem_cons_of_mem _ hc)
  · intro j data' hlive' huser'
    obtain ⟨expires, hs⟩ := Redis.session_of_live hlive'
    rcases Redis.withSession_session hs with ⟨rfl, heq⟩ | ⟨hj, -⟩
    · obtain ⟨rfl, -⟩ := Prod.mk.inj heq
      exact .inr hperms
    · rw [Redis.withSession_live _ hj] at hlive'
      rcases hlive j data' hlive' huser' with ⟨ttl, data'', hsetex⟩ | hdone
      · rcases List.mem_cons.mp hsetex with heq | hsetex
        · exact absurd (Command.setex.inj heq).1 hj
        · exact .inl ⟨ttl, data'', hsetex⟩
      · exact .inr hdone
  · intro j
    by_cases hj : j = jti
    · exact .inr ⟨hj ▸ hmem, hj ▸ hmem⟩
    · exact .inl (if_neg hj)

/-- **One command of a call of `refreshPermissionsForUser`.** -/
theorem command_ok {userId : String} {r : Redis} {phase : Phase} (hr : WellIndexed r)
    (h : PhaseOk p userId r phase) :
    StepOk p userId r
      (command r ⟨.refreshPermissionsForUser userId (p userId), phase⟩).1
      (command r ⟨.refreshPermissionsForUser userId (p userId), phase⟩).2.phase ∧
    (command r ⟨.refreshPermissionsForUser userId (p userId), phase⟩).2.method =
      .refreshPermissionsForUser userId (p userId) := by
  cases phase with
  | smembers user =>
      obtain rfl : user = userId := h
      have hok := smembers_ok p user hr
      simp only [command]
      cases hindex : r.index user with
      | nil =>
          rw [hindex] at hok
          exact ⟨.of_read hr hok, rfl⟩
      | cons jti todo =>
          rw [hindex] at hok
          exact ⟨.of_read hr hok, rfl⟩
  | get user entries jti todo =>
      obtain ⟨huser, hentries, hlisted, hindex, hnodup⟩ := h
      have howner : ∀ data, r.get jti = some data → data.user_id = userId := by
        intro data hget
        obtain ⟨expires, hs⟩ := Redis.session_of_get hget
        exact hr.owner userId jti data expires (hindex jti List.mem_cons_self) hs
      have hphase : PhaseOk p userId r (.ttl user entries jti (r.get jti) todo) :=
        ⟨huser, hentries, hlisted, hindex, hnodup, Redis.live_of_get_none, howner⟩
      exact ⟨.of_read hr hphase, rfl⟩
  | ttl user entries jti session todo =>
      obtain ⟨rfl, hentries, hlisted, hindex, hnodup, hnone, howner⟩ := h
      obtain ⟨hentries', hlisted'⟩ :=
        entries_append hentries hlisted (hindex jti List.mem_cons_self) hnone howner
      have hnodup' :
          ((entries ++ [Entry.mk jti session (r.ttl jti)]).map Entry.jti ++ todo).Nodup := by
        rw [List.map_append, List.append_assoc]
        exact hnodup
      cases todo with
      | cons next todo =>
          have hphase : PhaseOk p user r
              (.get user (entries ++ [⟨jti, session, r.ttl jti⟩]) next todo) :=
            ⟨rfl, hentries', hlisted', fun j hj => hindex j (List.mem_cons_of_mem _ hj), hnodup'⟩
          exact ⟨.of_read hr hphase, rfl⟩
      | nil =>
          rw [List.append_nil] at hnodup'
          refine ⟨.of_read hr ?_, rfl⟩
          show PhaseOk p user r (afterReading _ user _)
          unfold afterReading
          split
          · exact ⟨rfl, hentries', hlisted', hnodup'⟩
          · exact pipeline_ok hentries' hlisted'
  | srem user entries =>
      obtain ⟨rfl, hentries, hlisted, hnodup⟩ := h
      exact ⟨srem_ok hr hentries hlisted hnodup, rfl⟩
  | getRevoked jti => exact absurd h not_false
  | pipeline commands =>
      cases commands with
      | nil => exact ⟨.of_read hr h, rfl⟩
      | cons c commands =>
          obtain ⟨jti, ttlSeconds, data, rfl, -⟩ := h.1 c List.mem_cons_self
          exact ⟨setex_ok hr h, rfl⟩

/-- A command of a call adds nothing to an index. -/
theorem command_index {userId : String} {r : Redis} {call : Call}
    (h : PhaseOk p userId r call.phase) {user jti : String} (hmem : jti ∈ (command r call).1.index user) : jti ∈ r.index user := by
  obtain ⟨method, phase⟩ := call
  cases phase with
  | smembers user' =>
      simp only [command] at hmem
      cases hindex : r.index user' with
      | nil => simpa [hindex] using hmem
      | cons j todo => simpa [hindex] using hmem
  | get user' entries j todo => exact hmem
  | ttl user' entries j session todo => cases todo <;> exact hmem
  | srem user' entries => exact Redis.mem_of_mem_srem hmem
  | getRevoked j => exact absurd h not_false
  | pipeline commands =>
      cases commands with
      | nil => exact hmem
      | cons c commands =>
          obtain ⟨j, ttlSeconds, data, rfl, hpos, -⟩ := h.1 c List.mem_cons_self
          have hmem' : jti ∈ (r.exec (.setex j ttlSeconds data)).index user := hmem
          rw [Redis.exec_setex r j data hpos] at hmem'
          exact hmem'

end Refresh

/-! ## Several calls at once -/

section RefreshAll

variable (p : String → Perms) (users : List String)

/-- The calls that `syncUsers` starts, one for each user. -/
def refreshCalls : List Call :=
  users.map fun userId => start (.refreshPermissionsForUser userId (p userId))

/-- The calls are those that `syncUsers` started, and no other call starts. -/
def Refreshing (c : Config) (e : Event) : Prop :=
  (∀ method, e ≠ .start method) ∧
    c.calls.map Call.method = users.map fun userId => .refreshPermissionsForUser userId (p userId)

/-- The keys while the sessions of the users are refreshed: the sessions of the others have their
permissions already. -/
def RedisOk (r : Redis) : Prop :=
  WellIndexed r ∧
    ∀ jti data, r.live jti = some data → data.user_id ∉ users → HasPerms (p data.user_id) data

def CallOk (r : Redis) (call : Call) : Prop :=
  ∃ userId ∈ users, call.method = .refreshPermissionsForUser userId (p userId) ∧
    PhaseOk p userId r call.phase

variable {p users}

theorem Frame.redisOk {userId : String} {r r' : Redis} (h : Frame userId r r')
    (hmem : userId ∈ users) (hr' : WellIndexed r') (hok : RedisOk p users r) :
    RedisOk p users r' := by
  refine ⟨hr', ?_⟩
  intro jti data hlive hout
  have hne : data.user_id ≠ userId := fun heq => hout (heq ▸ hmem)
  exact hok.2 jti data (h.live_of_ne hr' hlive hne) hout

/-- The calls that stand at different places are for different users. -/
theorem method_ne (hnodup : users.Nodup) {calls : List Call}
    (hcalls : calls.map Call.method =
      users.map fun userId => .refreshPermissionsForUser userId (p userId))
    {i j : Nat} {call other : Call} (hij : i ≠ j) (hi : calls[i]? = some call)
    (hj : calls[j]? = some other) {userId userId' : String}
    (hcall : call.method = .refreshPermissionsForUser userId (p userId))
    (hother : other.method = .refreshPermissionsForUser userId' (p userId')) :
    userId' ≠ userId := by
  have huser : ∀ {k : Nat} {c : Call} {u : String}, calls[k]? = some c →
      c.method = .refreshPermissionsForUser u (p u) → users[k]? = some u := by
    intro k c u hk hc
    have hget : (calls.map Call.method)[k]? = some c.method := by
      rw [List.getElem?_map, hk]
      rfl
    rw [hcalls, List.getElem?_map, hc] at hget
    cases hu : users[k]? with
    | none =>
        rw [hu] at hget
        cases hget
    | some v =>
        rw [hu] at hget
        exact congrArg some (Method.refreshPermissionsForUser.inj (Option.some.inj hget)).1
  rintro rfl
  have hiu := huser hi hcall
  have hju := huser hj hother
  obtain ⟨hlt, -⟩ := List.getElem?_eq_some_iff.mp hiu
  exact hij ((List.getElem?_inj hlt hnodup).mp (hiu.trans hju.symm))

theorem refreshing_preserved (hnodup : users.Nodup) :
    Interleaving.Preserved store (Refreshing p users) (RedisOk p users) (CallOk p users) where
  start := by
    intro c method hok
    exact absurd rfl (hok.1 method)
  command := by
    rintro c i ⟨method, phase⟩ - - hI ⟨userId, hmem, hmethod, hphase⟩
    obtain rfl : method = _ := hmethod
    obtain ⟨hstep, hsame⟩ := command_ok hI.1 hphase
    exact ⟨hstep.frame.redisOk hmem hstep.indexed hI, userId, hmem, hsame, hstep.phase⟩
  others := by
    rintro c i j ⟨method, phase⟩ other hok hij hi hj hI ⟨userId, -, hmethod, hphase⟩
      ⟨userId', hmem', hmethod', hphase'⟩
    have hne := method_ne hnodup hok.2 hij hi hj hmethod hmethod'
    obtain rfl : method = _ := hmethod
    obtain ⟨hstep, -⟩ := command_ok hI.1 hphase
    exact ⟨userId', hmem', hmethod', hstep.frame.phaseOk hI.1 hstep.indexed hne hphase'⟩
  surroundings := by
    intro c ms _ hI
    refine ⟨⟨hI.1.later ms, ?_⟩, ?_⟩
    · intro jti data hlive
      exact hI.2 jti data (Redis.live_of_later hlive)
    · rintro call - ⟨userId, hmem, hmethod, hphase⟩
      exact ⟨userId, hmem, hmethod, hphase.later ms⟩

/-- No event of the schedule starts a call. -/
def NoStart (events : List Event) : Prop := ∀ e ∈ events, ∀ method, e ≠ .start method

theorem command_method (r : Redis) (call : Call) : (command r call).2.method = call.method := by
  obtain ⟨method, phase⟩ := call
  cases phase with
  | smembers userId =>
      simp only [command]
      cases r.index userId <;> rfl
  | get userId entries jti todo => rfl
  | ttl userId entries jti session todo => cases todo <;> rfl
  | srem userId entries => rfl
  | getRevoked jti => rfl
  | pipeline commands => cases commands <;> rfl

theorem step_methods {c : Config} {e : Event} (h : ∀ method, e ≠ .start method) :
    (step store c e).calls.map Call.method = c.calls.map Call.method := by
  cases e with
  | start method => exact absurd rfl (h method)
  | advance i =>
      rw [step]
      cases hi : c.calls[i]? with
      | none => rfl
      | some call =>
          obtain ⟨hlt, rfl⟩ := List.getElem?_eq_some_iff.mp hi
          show (c.calls.set i (command c.shared c.calls[i]).2).map Call.method = _
          rw [List.map_set, command_method, ← List.map_set, List.set_getElem_self]
  | surroundings ms => rfl

theorem run_methods {c : Config} {events : List Event} (h : NoStart events) :
    (run store c events).calls.map Call.method = c.calls.map Call.method := by
  induction events generalizing c with
  | nil => rfl
  | cons e events ih =>
      rw [Interleaving.run_cons, ih fun e' he' => h e' (List.mem_cons_of_mem _ he')]
      exact step_methods (h e List.mem_cons_self)

theorem refreshCalls_methods : (refreshCalls p users).map Call.method =
    users.map fun userId => .refreshPermissionsForUser userId (p userId) := by
  rw [refreshCalls, List.map_map]
  rfl

theorem allSteps_refreshing {c : Config} {events : List Event} (h : NoStart events)
    (hcalls : c.calls.map Call.method =
      users.map fun userId => .refreshPermissionsForUser userId (p userId)) :
    AllSteps store (Refreshing p users) c events := by
  induction events generalizing c with
  | nil => trivial
  | cons e events ih =>
      have he := h e List.mem_cons_self
      refine ⟨⟨he, hcalls⟩, ih (fun e' he' => h e' (List.mem_cons_of_mem _ he')) ?_⟩
      rw [step_methods he, hcalls]

/-- The calls have ended. -/
def Ended (c : Config) : Prop := ∀ call ∈ c.calls, call.phase = .pipeline []

instance (c : Config) : Decidable (Ended c) :=
  inferInstanceAs (Decidable (∀ call ∈ c.calls, call.phase = .pipeline []))

theorem refreshCalls_ok {r : Redis} (hr : RedisOk p users r) :
    Interleaving.Keeps (RedisOk p users) (CallOk p users) ⟨r, refreshCalls p users⟩ := by
  refine ⟨hr, ?_⟩
  intro call hcall
  obtain ⟨userId, hmem, rfl⟩ := List.mem_map.mp hcall
  exact ⟨userId, hmem, rfl, rfl⟩

/-- **All calls have ended, so every live session has the permissions of its user.** -/
theorem refreshAll_hasPerms (hnodup : users.Nodup) {r : Redis} (hr : RedisOk p users r)
    {events : List Event} (hno : NoStart events)
    (hended : Ended (run store ⟨r, refreshCalls p users⟩ events)) :
    RedisOk p [] (run store ⟨r, refreshCalls p users⟩ events).shared := by
  obtain ⟨⟨hindexed, hothers⟩, hcalls⟩ := Interleaving.run_keeps (refreshing_preserved hnodup)
    (allSteps_refreshing hno refreshCalls_methods) (refreshCalls_ok hr)
  have hmethods : (run store ⟨r, refreshCalls p users⟩ events).calls.map Call.method = _ :=
    (run_methods hno).trans refreshCalls_methods
  refine ⟨hindexed, ?_⟩
  intro jti data hlive _
  by_cases hmem : data.user_id ∈ users
  · -- The call for this user is there, and its pipeline is empty.
    have hmethod : Method.refreshPermissionsForUser data.user_id (p data.user_id) ∈
        (run store ⟨r, refreshCalls p users⟩ events).calls.map Call.method := by
      rw [hmethods]
      exact List.mem_map_of_mem hmem
    obtain ⟨call, hcall, heq⟩ := List.mem_map.mp hmethod
    obtain ⟨userId, -, huser, hphase⟩ := hcalls call hcall
    obtain ⟨rfl, -⟩ := Method.refreshPermissionsForUser.inj (heq.symm.trans huser)
    rw [hended call hcall] at hphase
    rcases hphase.2 jti data hlive rfl with ⟨ttlSeconds, data', hno⟩ | hperms
    · cases hno
    · exact hperms
  · exact hothers jti data hlive hmem

/-- A refresh adds nothing to an index. -/
theorem refreshAll_index (hnodup : users.Nodup) {r : Redis} (hr : RedisOk p users r)
    {events : List Event} (hno : NoStart events) {userId jti : String}
    (hmem : jti ∈ (run store ⟨r, refreshCalls p users⟩ events).shared.index userId) :
    jti ∈ r.index userId := by
  have hkeep := refreshing_preserved (p := p) hnodup
  have hpreserved : Interleaving.Preserved store (Refreshing p users)
      (fun r' => RedisOk p users r' ∧ ∀ user j, j ∈ r'.index user → j ∈ r.index user)
      (CallOk p users) := by
    refine ⟨fun c method hok hI => hkeep.start c method hok hI.1, ?_,
      fun c i j call other hok hij hi hj hI => hkeep.others c i j call other hok hij hi hj hI.1, ?_⟩
    · intro c i call hok hi hI hcall
      obtain ⟨hI', hcall'⟩ := hkeep.command c i call hok hi hI.1 hcall
      refine ⟨⟨hI', fun user j hj => hI.2 user j ?_⟩, hcall'⟩
      obtain ⟨user', -, -, hphase⟩ := hcall
      exact command_index hphase hj
    · intro c ms hok hI
      obtain ⟨hI', hcalls⟩ := hkeep.surroundings c ms hok hI.1
      exact ⟨⟨hI', hI.2⟩, hcalls⟩
  have hstart := refreshCalls_ok hr
  exact (Interleaving.run_keeps hpreserved (allSteps_refreshing hno refreshCalls_methods)
    ⟨⟨hstart.1, fun _ _ hj => hj⟩, hstart.2⟩).1.2 userId jti hmem

end RefreshAll

/-! ## A new session -/

/-- The store after `create`. -/
def Redis.create (r : Redis) (jti : String) (data : SessionData) (ttlSeconds : Int) : Redis :=
  (r.exec (.setex jti ttlSeconds data)).exec (.sadd data.user_id jti)

/-- The id of a new session is drawn at random and used by no session before it. -/
structure Fresh (r : Redis) (jti : String) : Prop where
  session : r.session jti = none
  index : ∀ userId, jti ∉ r.index userId

theorem Redis.create_index (r : Redis) (jti : String) (data : SessionData) (ttlSeconds : Int)
    (userId : String) : (r.create jti data ttlSeconds).index userId =
      if userId = data.user_id ∧ ¬ jti ∈ r.index userId then r.index userId ++ [jti]
      else r.index userId := by
  have hindex : (r.exec (.setex jti ttlSeconds data)).index = r.index := by
    rw [Redis.exec]
    split <;> rfl
  rw [← hindex]
  rfl

theorem Redis.mem_create_index {r : Redis} {jti j userId : String} {data : SessionData}
    {ttlSeconds : Int} : j ∈ (r.create jti data ttlSeconds).index userId ↔
      j ∈ r.index userId ∨ userId = data.user_id ∧ j = jti := by
  rw [Redis.create_index]
  by_cases huser : userId = data.user_id
  · by_cases hmem : jti ∈ r.index userId
    · rw [if_neg fun h => h.2 hmem]
      refine ⟨Or.inl, ?_⟩
      rintro (hj | ⟨-, rfl⟩)
      · exact hj
      · exact hmem
    · simp [huser, huser ▸ hmem]
  · simp [huser]

theorem Redis.create_session (r : Redis) {jti j : String} (data : SessionData) (ttlSeconds : Int)
    (hj : j ≠ jti) : (r.create jti data ttlSeconds).session j = r.session j := by
  show (r.exec (.setex jti ttlSeconds data)).session j = r.session j
  rw [Redis.exec]
  split
  · rfl
  · exact if_neg hj

theorem Redis.create_session_self {r : Redis} {jti : String} {data data' : SessionData}
    {ttlSeconds : Int} {expires : Nat} (hfresh : Fresh r jti)
    (h : (r.create jti data ttlSeconds).session jti = some (data', expires)) : data' = data := by
  have hset : (r.exec (.setex jti ttlSeconds data)).session jti = some (data', expires) := h
  rw [Redis.exec] at hset
  split at hset
  · rw [hfresh.session] at hset
    cases hset
  · dsimp only at hset
    rw [if_pos rfl] at hset
    exact (Prod.mk.inj (Option.some.inj hset)).1.symm

theorem Redis.create_live {r : Redis} {jti j : String} {data data' : SessionData}
    {ttlSeconds : Int} (hfresh : Fresh r jti)
    (h : (r.create jti data ttlSeconds).live j = some data') :
    j = jti ∧ data' = data ∨ r.live j = some data' := by
  by_cases hj : j = jti
  · obtain rfl := hj
    obtain ⟨expires, hs⟩ := Redis.session_of_live h
    exact Or.inl ⟨rfl, Redis.create_session_self hfresh hs⟩
  · have hclock : (r.create jti data ttlSeconds).clock = r.clock := by
      show (r.exec (.setex jti ttlSeconds data)).clock = r.clock
      rw [Redis.exec]
      split <;> rfl
    rw [Redis.live_congr hclock (r.create_session data ttlSeconds hj)] at h
    exact Or.inr h

/-- A session that is created with the permissions of its user. -/
theorem Redis.create_redisOk {p : String → Perms} {users : List String} {r : Redis} {jti : String}
    {data : SessionData} (ttlSeconds : Int) (hr : RedisOk p users r) (hfresh : Fresh r jti)
    (hperms : HasPerms (p data.user_id) data) :
    RedisOk p users (r.create jti data ttlSeconds) := by
  obtain ⟨hindexed, hothers⟩ := hr
  refine ⟨⟨?_, ?_, ?_, ?_⟩, ?_⟩
  · intro j data' hlive
    rcases Redis.create_live hfresh hlive with ⟨rfl, rfl⟩ | hold
    · exact Redis.mem_create_index.mpr (Or.inr ⟨rfl, rfl⟩)
    · exact Redis.mem_create_index.mpr (Or.inl (hindexed.indexed j data' hold))
  · intro user j data' expires hmem hs
    rcases Redis.mem_create_index.mp hmem with hold | ⟨rfl, rfl⟩
    · have hj : j ≠ jti := fun heq => hfresh.index user (heq ▸ hold)
      rw [r.create_session data ttlSeconds hj] at hs
      exact hindexed.owner user j data' expires hold hs
    · rw [Redis.create_session_self hfresh hs]
  · intro user
    rw [Redis.create_index]
    split
    · rename_i hnew
      rw [← List.concat_eq_append]
      exact List.Nodup.concat hnew.2 (hindexed.nodup user)
    · exact hindexed.nodup user
  · intro user user' j hmem hmem'
    rcases Redis.mem_create_index.mp hmem with hold | ⟨rfl, rfl⟩
    · rcases Redis.mem_create_index.mp hmem' with hold' | ⟨-, rfl⟩
      · exact hindexed.disjoint user user' j hold hold'
      · exact absurd hold (hfresh.index user)
    · rcases Redis.mem_create_index.mp hmem' with hold' | ⟨rfl, -⟩
      · exact absurd hold' (hfresh.index user')
      · rfl
  · intro j data' hlive hout
    rcases Redis.create_live hfresh hlive with ⟨-, rfl⟩ | hold
    · exact hperms
    · exact hothers j data' hold hout

end ErpApi.Session
