import ErpApi.Iam.ConcurrentSync

set_option autoImplicit false

/-! # The sessions after two changes at the same time

The two syncs may resolve in one order and write in the other, and then the older resolution wins
(`older_resolution_wins`). When both have completed, every live session of a user whom the changes
affect has the permissions that resolution answers, provided that every write into a session is of
permissions that the database still gives, or is followed by a write of the other sync into the
same session (`two_changes_synced`).
-/

namespace ErpApi.Iam

open Session (Redis SessionData HasPerms Kept)

/-! ## The sessions while the two syncs run -/

section Invariant

variable (owner : String → String) (today : String) (changes : Bool → Change) (before : Db)

/-- The sync has listed the sessions of the user. -/
def Consoles.Listed (s : Consoles) (b : Bool) (userId : String) : Prop :=
  ∃ phase, s.stage changes b userId = .listed phase

/-- The sync is going to write the session. -/
def Consoles.Treats (s : Consoles) (b : Bool) (jti : String) : Prop :=
  ∃ phase, s.stage changes b (owner jti) = .listed phase ∧ phase.treats jti

def Consoles.Prunes (s : Consoles) (b : Bool) (jti : String) : Prop :=
  ∃ phase, s.stage changes b (owner jti) = .listed phase ∧ phase.prunes jti

/-- A live session may be out of its index, but only after both syncs have listed the sessions of
the user: one has found it gone and the other, which had read it before, has written it again. A
live session of a refreshed user that is out of date is still going to be written. -/
structure SyncInv (s : Consoles) : Prop where
  kept : Kept owner s.redis
  indexed : ∀ jti data, s.redis.live jti = some data →
    jti ∈ s.redis.index (owner jti) ∨ ∀ b, s.Listed changes b (owner jti)
  treats : ∀ b jti, s.Treats owner changes b jti →
    jti ∈ s.redis.index (owner jti) ∨ s.Listed changes (!b) (owner jti)
  prunes : ∀ b jti, s.Prunes owner changes b jti →
    s.redis.live jti = none ∨ s.Listed changes (!b) (owner jti)
  synced : ∀ jti data, (∃ b, s.stage changes b (owner jti) ≠ .none) →
    s.redis.live jti = some data → HasPerms (permissionsOf s.db today (owner jti)) data ∨
      ∃ b, s.stage changes b (owner jti) = .pending ∨ s.Treats owner changes b jti
  changed : ∀ userId, ¬ Unchanged today before s.db userId →
    ∃ b, s.stage changes b userId ≠ .none

variable {owner today changes before} {s s' : Consoles}

/-- Time passes, or a step changes none of this. -/
theorem SyncInv.of_live (h : SyncInv owner today changes before s) (hdb : s'.db = s.db)
    (hsession : s'.redis.session = s.redis.session) (hindex : s'.redis.index = s.redis.index)
    (hlive : ∀ jti data, s'.redis.live jti = some data → s.redis.live jti = some data)
    (hstage : ∀ b userId, s'.stage changes b userId = s.stage changes b userId) :
    SyncInv owner today changes before s' := by
  have hlisted : ∀ b userId, s'.Listed changes b userId ↔ s.Listed changes b userId := by
    intro b userId
    simp only [Consoles.Listed, hstage]
  have htreats : ∀ b jti, s'.Treats owner changes b jti ↔ s.Treats owner changes b jti := by
    intro b jti
    simp only [Consoles.Treats, hstage]
  refine ⟨⟨?_, ?_, ?_⟩, ?_, ?_, ?_, ?_, ?_⟩
  · intro jti data expires hs
    exact h.kept.owned jti data expires (hsession ▸ hs)
  · rw [hindex]
    exact h.kept.index
  · rw [hindex]
    exact h.kept.nodup
  · intro jti data hl
    simp only [hindex, hlisted]
    exact h.indexed jti data (hlive jti data hl)
  · intro b jti ht
    rw [hindex, hlisted]
    exact h.treats b jti ((htreats b jti).mp ht)
  · rintro b jti ⟨phase, hphase, hprunes⟩
    rw [hlisted]
    rw [hstage] at hphase
    refine (h.prunes b jti ⟨phase, hphase, hprunes⟩).imp_left fun hnone => ?_
    refine Option.eq_none_iff_forall_ne_some.mpr fun data hl => ?_
    rw [hlive jti data hl] at hnone
    cases hnone
  · intro jti data
    simp only [hdb, hstage, htreats]
    exact fun hb hl => h.synced jti data hb (hlive jti data hl)
  · intro userId
    simp only [hdb, hstage]
    exact h.changed userId

/-- A commit: the users whose permissions it changes are refreshed after it. -/
theorem SyncInv.commit (h : SyncInv owner today changes before s) {b : Bool}
    (hcommit : Commits changes s s' b) (hcanonical : (changes b).Canonical)
    (howner : ∀ jti, uuid (owner jti) = owner jti) : SyncInv owner today changes before s' := by
  have hlisted : ∀ c userId, s'.Listed changes c userId ↔ s.Listed changes c userId :=
    fun c userId => exists_congr fun phase => hcommit.listed c userId phase
  have htreats : ∀ c jti, s'.Treats owner changes c jti ↔ s.Treats owner changes c jti :=
    fun c jti => exists_congr fun phase => and_congr_left fun _ => hcommit.listed c _ phase
  refine ⟨?_, ?_, ?_, ?_, ?_, ?_⟩
  · rw [hcommit.redis]
    exact h.kept
  · simp only [hcommit.redis, hlisted]
    exact h.indexed
  · simp only [hcommit.redis, hlisted, htreats]
    exact h.treats
  · rintro c jti ⟨phase, hphase, hprunes⟩
    rw [hcommit.redis, hlisted]
    exact h.prunes c jti ⟨phase, (hcommit.listed c _ phase).mp hphase, hprunes⟩
  · intro jti data haffected hlive
    by_cases hmem : owner jti ∈ (changes b).mutation.refreshes s'.db
    · exact Or.inr ⟨b, Or.inl (hcommit.pending _ hmem)⟩
    · rw [hcommit.redis] at hlive
      simp only [hcommit.others _ hmem, htreats] at haffected ⊢
      refine (h.synced jti data haffected hlive).imp_left fun hperms => ?_
      refine Unchanged.hasPerms ?_ hperms
      rw [howner jti]
      exact hcommit.writes.unchanged hcanonical hmem
  · intro userId hchanged
    by_cases hmem : userId ∈ (changes b).mutation.refreshes s'.db
    · refine ⟨b, ?_⟩
      rw [hcommit.pending _ hmem]
      exact Stage.noConfusion
    · simp only [hcommit.others _ hmem]
      refine h.changed userId fun hsame => hchanged ?_
      exact (hcommit.writes.unchanged hcanonical hmem).trans hsame

section Command

variable {b : Bool} {userId : String} {phase phase' : Session.Phase}

theorem Commands.listed_mono (c : Commands owner today changes s s' b userId phase phase')
    {b' : Bool} {user : String} (h : s.Listed changes b' user) : s'.Listed changes b' user := by
  by_cases heq : b' = b ∧ user = userId
  · obtain ⟨rfl, rfl⟩ := heq
    exact ⟨phase', c.after⟩
  · obtain ⟨phase'', hphase⟩ := h
    exact ⟨phase'', (c.others b' user (not_and_or.mp heq)).trans hphase⟩

/-- The phase is that of a sync that has listed the sessions. -/
theorem Commands.before_listed (c : Commands owner today changes s s' b userId phase phase')
    {jti : String} (h : phase.treats jti ∨ phase.prunes jti) :
    s.stage changes b userId = .listed phase := by
  have hlisted : phase.unlisted = false := by
    rw [← Bool.not_eq_true]
    intro hunlisted
    exact h.elim (Session.Phase.of_unlisted hunlisted).1 (Session.Phase.of_unlisted hunlisted).2
  rw [c.before, hlisted]
  rfl

theorem Commands.index_or (c : Commands owner today changes s s' b userId phase phase')
    {jti : String} (h : jti ∈ s.redis.index (owner jti)) :
    jti ∈ s'.redis.index (owner jti) ∨ owner jti = userId ∧ phase.prunes jti :=
  c.move.pruned (owner jti) jti h

theorem Commands.live_or (c : Commands owner today changes s s' b userId phase phase')
    (jti : String) : s'.redis.live jti = s.redis.live jti ∨
      owner jti = userId ∧ phase.treats jti ∧ ∃ data, phase.written = some (jti, data) := by
  by_cases hwritten : ∃ data, phase.written = some (jti, data)
  · obtain ⟨data, hdata⟩ := hwritten
    have htreats := Session.Phase.treats_of_written hdata
    exact Or.inr ⟨c.shape.owner_of_treats htreats, htreats, data, hdata⟩
  · exact Or.inl (Redis.live_congr c.move.clock (c.move.session jti (not_exists.mp hwritten)))

/-- A session that the sync treats stays in its index, or both syncs have listed it. -/
theorem SyncInv.treats_command (h : SyncInv owner today changes before s)
    (c : Commands owner today changes s s' b userId phase phase') {jti : String}
    (howner : owner jti = userId) (htreats : phase.treats jti) :
    jti ∈ s'.redis.index (owner jti) ∨ s.Listed changes (!b) (owner jti) := by
  have hstage := c.before_listed (Or.inl htreats)
  refine (h.treats b jti ⟨phase, howner ▸ hstage, htreats⟩).imp_left fun hmem => ?_
  exact (c.index_or hmem).resolve_right fun hprunes => c.shape.exclusive htreats hprunes.2

theorem SyncInv.indexed_command (h : SyncInv owner today changes before s)
    (c : Commands owner today changes s s' b userId phase phase') (jti : String)
    (data : SessionData) (hlive : s'.redis.live jti = some data) :
    jti ∈ s'.redis.index (owner jti) ∨ ∀ b', s'.Listed changes b' (owner jti) := by
  have hboth : owner jti = userId → s.Listed changes (!b) (owner jti) →
      ∀ b', s'.Listed changes b' (owner jti) := by
    intro howner hother b'
    by_cases hb : b' = b
    · subst hb
      exact ⟨phase', howner ▸ c.after⟩
    · obtain rfl : b' = !b := Bool.eq_not_of_ne hb
      exact c.listed_mono hother
  rcases c.live_or jti with hsame | ⟨howner, htreats, -⟩
  · rw [hsame] at hlive
    rcases h.indexed jti data hlive with hmem | hlisted
    · refine (c.index_or hmem).imp_right ?_
      rintro ⟨howner, hprunes⟩
      have hstage := c.before_listed (Or.inr hprunes)
      rcases h.prunes b jti ⟨phase, howner ▸ hstage, hprunes⟩ with hnone | hother
      · rw [hlive] at hnone
        cases hnone
      · exact hboth howner hother
    · exact Or.inr fun b' => c.listed_mono (hlisted b')
  · exact (h.treats_command c howner htreats).imp_right (hboth howner)

theorem SyncInv.synced_command (h : SyncInv owner today changes before s)
    (c : Commands owner today changes s s' b userId phase phase') (jti : String)
    (data : SessionData) (haffected : ∃ b, s'.stage changes b (owner jti) ≠ .none)
    (hlive : s'.redis.live jti = some data) :
    HasPerms (permissionsOf s'.db today (owner jti)) data ∨
      ∃ b, s'.stage changes b (owner jti) = .pending ∨ s'.Treats owner changes b jti := by
  rw [c.db]
  have hother : ∀ b', b' ≠ b ∨ owner jti ≠ userId →
      s.stage changes b' (owner jti) = .pending ∨ s.Treats owner changes b' jti →
      ∃ b, s'.stage changes b (owner jti) = .pending ∨ s'.Treats owner changes b jti := by
    intro b' hne hb'
    have hsame := c.others b' (owner jti) hne
    refine ⟨b', hb'.imp hsame.trans ?_⟩
    rintro ⟨phase'', hphase, htreats⟩
    exact ⟨phase'', hsame.trans hphase, htreats⟩
  by_cases howner : owner jti = userId
  · by_cases hwritten : ∃ data', phase.written = some (jti, data')
    · -- The command writes this session.
      obtain ⟨data', hdata⟩ := hwritten
      obtain ⟨expires, hsession⟩ := c.move.written jti data' hdata
      obtain ⟨expires', hsession'⟩ := Redis.session_of_live hlive
      rw [hsession] at hsession'
      obtain ⟨rfl, -⟩ := Prod.mk.inj (Option.some.inj hsession')
      rw [howner]
      refine (c.current jti data' hdata).imp_right fun hcurrent => ?_
      rw [← howner] at hcurrent
      obtain ⟨b', hb'⟩ := hother (!b) (Or.inl (by simp)) hcurrent
      exact ⟨b', howner ▸ hb'⟩
    · rcases c.live_or jti with hsame | ⟨-, -, hyes⟩
      · rw [hsame] at hlive
        have hstage : s.stage changes b (owner jti) ≠ .none := by
          rw [howner, c.before]
          split <;> exact Stage.noConfusion
        refine (h.synced jti data ⟨b, hstage⟩ hlive).elim Or.inl ?_
        rintro ⟨b', hb'⟩
        by_cases hb : b' = b
        · subst hb
          refine Or.inr ⟨b', Or.inr ⟨phase', howner ▸ c.after, ?_⟩⟩
          rcases hb' with hpending | ⟨phase'', hphase, htreats⟩
          · -- The command lists the sessions, and this one is in the index.
            rw [howner] at hpending
            have hunlisted : phase.unlisted = true := by
              by_contra hno
              rw [c.before, if_neg hno] at hpending
              cases hpending
            rcases h.indexed jti data hlive with hmem | hlisted
            · exact c.move.listed userId (c.shape.of_unlisted hunlisted) jti (howner ▸ hmem)
            · obtain ⟨phase'', hphase⟩ := hlisted b'
              rw [howner, hpending] at hphase
              cases hphase
          · have hphase' : phase'' = phase := by
              rw [howner, c.before] at hphase
              split at hphase
              · cases hphase
              · exact (Stage.listed.inj hphase).symm
            subst hphase'
            rcases c.move.treated jti htreats with hstill | hnone | hyes
            · exact hstill
            · rw [hlive] at hnone
              cases hnone
            · exact absurd hyes hwritten
        · exact Or.inr (hother b' (Or.inl hb) hb')
      · exact absurd hyes hwritten
  · rcases c.live_or jti with hsame | ⟨hyes, -⟩
    · rw [hsame] at hlive
      simp only [c.others _ _ (Or.inr howner)] at haffected
      refine (h.synced jti data haffected hlive).imp_right ?_
      rintro ⟨b', hb'⟩
      exact hother b' (Or.inr howner) hb'
    · exact absurd hyes howner

/-- **A command of a sync.** -/
theorem SyncInv.command (h : SyncInv owner today changes before s)
    (c : Commands owner today changes s s' b userId phase phase') :
    SyncInv owner today changes before s' := by
  refine ⟨c.move.kept h.kept c.owned, h.indexed_command c, ?_, ?_, h.synced_command c, ?_⟩
  · rintro b' jti ⟨phase'', hphase, htreats⟩
    by_cases heq : b' = b ∧ owner jti = userId
    · obtain ⟨rfl, howner⟩ := heq
      rw [howner, c.after] at hphase
      obtain rfl := Stage.listed.inj hphase
      rcases c.move.treats jti htreats with hold | ⟨hunlisted, hmem⟩
      · exact (h.treats_command c howner hold).imp_right c.listed_mono
      · refine Or.inl ((c.index_or (howner ▸ hmem)).resolve_right ?_)
        rintro ⟨-, hprunes⟩
        exact (Session.Phase.of_unlisted hunlisted).2 hprunes
    · rw [c.others b' _ (not_and_or.mp heq)] at hphase
      rcases h.treats b' jti ⟨phase'', hphase, htreats⟩ with hmem | hlisted
      · refine (c.index_or hmem).imp_right ?_
        rintro ⟨howner, -⟩
        have hb : b' ≠ b := fun hb => heq ⟨hb, howner⟩
        rw [Bool.eq_not_of_ne hb, Bool.not_not]
        exact ⟨phase', howner ▸ c.after⟩
      · exact Or.inr (c.listed_mono hlisted)
  · rintro b' jti ⟨phase'', hphase, hprunes⟩
    by_cases heq : b' = b ∧ owner jti = userId
    · obtain ⟨rfl, howner⟩ := heq
      rw [howner, c.after] at hphase
      obtain rfl := Stage.listed.inj hphase
      have hsame : s'.redis.live jti = s.redis.live jti := by
        refine (c.live_or jti).resolve_right ?_
        rintro ⟨-, -, data, hdata⟩
        refine c.move.quiet ?_ jti hprunes
        rw [hdata]
        exact Option.some_ne_none _
      rw [hsame]
      rcases c.move.prunes jti hprunes with hold | hnone
      · have hstage := c.before_listed (Or.inr hold)
        exact (h.prunes b' jti ⟨phase, howner ▸ hstage, hold⟩).imp_right c.listed_mono
      · exact Or.inl hnone
    · rw [c.others b' _ (not_and_or.mp heq)] at hphase
      rcases h.prunes b' jti ⟨phase'', hphase, hprunes⟩ with hnone | hlisted
      · rcases c.live_or jti with hsame | ⟨howner, -⟩
        · exact Or.inl (hsame.trans hnone)
        · have hb : b' ≠ b := fun hb => heq ⟨hb, howner⟩
          rw [Bool.eq_not_of_ne hb, Bool.not_not]
          exact Or.inr ⟨phase', howner ▸ c.after⟩
      · exact Or.inr (c.listed_mono hlisted)
  · intro user hchanged
    rw [c.db] at hchanged
    obtain ⟨b', hb'⟩ := h.changed user hchanged
    refine ⟨b', ?_⟩
    by_cases heq : b' = b ∧ user = userId
    · rw [heq.1, heq.2, c.after]
      exact Stage.noConfusion
    · rw [c.others b' user (not_and_or.mp heq)]
      exact hb'

end Command

end Invariant

/-! ## After both syncs -/

/-- Every id of a session belongs to one user. -/
theorem exists_owner {r : Redis} (hr : Session.WellIndexed r) (hids : CanonicalIds r) :
    ∃ owner : String → String, Kept owner r ∧ ∀ jti, uuid (owner jti) = owner jti := by
  have howner : ∀ jti, ∃ user, uuid user = user ∧
      (∀ data expires, r.session jti = some (data, expires) → data.user_id = user) ∧
      ∀ userId, jti ∈ r.index userId → user = userId := by
    intro jti
    cases hsession : r.session jti with
    | some entry =>
        obtain ⟨data, expires⟩ := entry
        refine ⟨data.user_id, hids.sessions jti data expires hsession, ?_, ?_⟩
        · intro data' expires' heq
          rw [(Prod.mk.inj (Option.some.inj heq)).1]
        · intro userId hmem
          exact hr.owner userId jti data expires hmem hsession
    | none =>
        by_cases hmem : ∃ userId, jti ∈ r.index userId
        · obtain ⟨userId, hmem⟩ := hmem
          refine ⟨userId, hids.index userId jti hmem, ?_, ?_⟩
          · intro data expires heq
            cases heq
          · intro userId' hmem'
            exact hr.disjoint userId userId' jti hmem hmem'
        · refine ⟨"", by decide, ?_, ?_⟩
          · intro data expires heq
            cases heq
          · intro userId' hmem'
            exact absurd ⟨userId', hmem'⟩ hmem
  choose owner hcanonical hsessions hindex using howner
  exact ⟨owner, ⟨fun jti data expires h => hsessions jti data expires h,
    fun userId jti h => hindex jti userId h, hr.nodup⟩, hcanonical⟩

section Main

variable {owner : String → String} {today : String} {changes : Bool → Change} {s : Consoles}

theorem start_syncInv (hstart : ∀ b, s.admin b = .reading) (hkept : Kept owner s.redis)
    (hr : Session.WellIndexed s.redis) : SyncInv owner today changes s.db s := by
  have hnone : ∀ b userId, s.stage changes b userId = .none := by
    intro b userId
    rw [Consoles.stage, hstart b]
    rfl
  refine ⟨hkept, ?_, ?_, ?_, ?_, ?_⟩
  · intro jti data hlive
    obtain ⟨expires, hsession⟩ := Redis.session_of_live hlive
    rw [← hkept.owned jti data expires hsession]
    exact Or.inl (hr.indexed jti data hlive)
  · rintro b jti ⟨phase, hphase, -⟩
    rw [hnone] at hphase
    cases hphase
  · rintro b jti ⟨phase, hphase, -⟩
    rw [hnone] at hphase
    cases hphase
  · rintro jti data ⟨b, hb⟩
    exact absurd (hnone b _) hb
  · intro userId hchanged
    exact absurd rfl hchanged

theorem run_syncInv {before : Db} {events : List ConsoleEvent}
    (hcanonical : ∀ b, (changes b).Canonical) (howner : ∀ jti, uuid (owner jti) = owner jti)
    (hadmin : ∀ b, (s.admin b).Ok owner today (changes b))
    (h : SyncInv owner today changes before s)
    (hevents : s.AllSteps today changes (WritesCurrent today changes) events) :
    (∀ b, ((s.run today changes events).admin b).Ok owner today (changes b)) ∧
      SyncInv owner today changes before (s.run today changes events) := by
  induction events generalizing s with
  | nil => exact ⟨hadmin, h⟩
  | cons e events ih =>
      obtain ⟨hok, hrest⟩ := hevents
      obtain ⟨hadmin', hview⟩ := step_view h.kept hadmin hcanonical hok
      refine ih hadmin' ?_ hrest
      cases hview with
      | same db redis stage =>
          exact h.of_live db (by rw [redis]) (by rw [redis]) (fun _ _ hl => redis ▸ hl) stage
      | commit b hcommit => exact h.commit hcommit (hcanonical b) howner
      | command b userId phase phase' hcommand => exact h.command hcommand
      | tick ms db redis stage =>
          exact h.of_live db (by rw [redis]) (by rw [redis])
            (fun _ _ hl => Redis.live_of_later (redis ▸ hl)) stage

/-- The sync of a user has ended, or there is none. -/
theorem Admin.Completed.stage {admin : Admin} (h : admin.Completed) (db : Db) (change : Change)
    (userId : String) : admin.stage db change userId = .none ∨
      admin.stage db change userId = .listed (.pipeline []) := by
  cases admin with
  | syncing users =>
      show stageOf users userId = .none ∨ stageOf users userId = .listed (.pipeline [])
      unfold stageOf
      cases hfind : users.find? (fun x => x.userId = userId) with
      | none => exact Or.inl rfl
      | some x =>
          have hended := h x (List.mem_of_find?_eq_some hfind)
          obtain ⟨id, phase⟩ := x
          cases phase with
          | resolving seen todo => exact absurd hended not_false
          | refreshing seen call =>
              refine Or.inr ?_
              obtain ⟨method, phase⟩ := call
              obtain rfl : phase = .pipeline [] := hended
              rfl
  | failed => exact Or.inl rfl
  | _ => exact absurd h not_false

theorem Consoles.Affects.stage {before : Db} {userId : String}
    (hadmin : ∀ b, (s.admin b).Ok owner today (changes b))
    (h : SyncInv owner today changes before s)
    (haffected : s.Affects today before userId) : ∃ b, s.stage changes b userId ≠ .none := by
  rcases haffected with ⟨b, users, hb, x, hx, rfl⟩ | hchanged
  · refine ⟨b, ?_⟩
    have hnodup := hadmin b
    rw [hb] at hnodup
    rw [Consoles.stage, hb]
    show stageOf users x.userId ≠ .none
    rw [stageOf_of_mem hnodup.1 hx]
    unfold UserSync.stage
    split
    · exact Stage.noConfusion
    · split <;> exact Stage.noConfusion
  · exact h.changed userId hchanged

/-- **After two changes that run at the same time** and both syncs, every live session of a user
whom one of the changes affects has the permissions that resolution answers, when every write into
a session is of permissions that the database still gives, or the other sync is going to write into
the session after it. -/
theorem two_changes_synced (hstart : ∀ b, s.admin b = .reading)
    (hr : Session.WellIndexed s.redis) (hids : CanonicalIds s.redis)
    (hcanonical : ∀ b, (changes b).Canonical) (events : List ConsoleEvent)
    (hevents : s.AllSteps today changes (WritesCurrent today changes) events)
    (hdone : ∀ b, ((s.run today changes events).admin b).Completed) :
    ∀ userId, (s.run today changes events).Affects today s.db userId →
      ∀ jti data, (s.run today changes events).redis.live jti = some data →
        data.user_id = userId →
          HasPerms (permissionsOf (s.run today changes events).db today userId) data := by
  obtain ⟨owner, hkept, howner⟩ := exists_owner hr hids
  have hadmin : ∀ b, (s.admin b).Ok owner today (changes b) := by
    intro b
    rw [hstart b]
    trivial
  obtain ⟨hadmin', hinv⟩ :=
    run_syncInv hcanonical howner hadmin (start_syncInv hstart hkept hr) hevents
  intro userId haffected jti data hlive huser
  obtain ⟨expires, hsession⟩ := Redis.session_of_live hlive
  have hjti : owner jti = userId := (hinv.kept.owned jti data expires hsession).symm.trans huser
  have hstage := fun b => (hdone b).stage (s.run today changes events).db (changes b) userId
  rw [← hjti] at haffected hstage ⊢
  refine (hinv.synced jti data (haffected.stage hadmin' hinv) hlive).resolve_right ?_
  rintro ⟨b, hpending | ⟨phase, hphase, htreats⟩⟩
  · rcases hstage b with hnone | hended
    · exact Stage.noConfusion (hnone.symm.trans hpending)
    · exact Stage.noConfusion (hended.symm.trans hpending)
  · rcases hstage b with hnone | hended
    · exact Stage.noConfusion (hnone.symm.trans hphase)
    · obtain rfl := Stage.listed.inj (hended.symm.trans hphase)
      obtain ⟨ttlSeconds, data', hmem⟩ := htreats
      cases hmem

end Main

/-! ## Two runs with one session -/

/-- The user has a session. -/
def signedIn : Consoles where
  db := oneUser.db
  redis := oneUser.redis.create "j"
    (loginSession oneUser.db "2026-01-01" Session.aliceSession) 3600
  admin := fun _ => .reading

/-- The policy is attached to the role of the user once more, and the user loses the role. -/
def attachAndRevoke : Bool → Change
  | false => .attachPolicies "r" ["p"]
  | true => .assignRoles "u" []

def advances (b : Bool) (n : Nat) : List ConsoleEvent := List.replicate n (.advance b 0)

/-- The first sync resolves, the role is taken away, the first sync writes, then the second one. -/
def writesInOrder : List ConsoleEvent :=
  advances false 12 ++ advances true 2 ++ advances false 4 ++ advances true 14

theorem signedIn_wellIndexed : Session.WellIndexed signedIn.redis := by
  obtain ⟨hfresh, -⟩ := login_completes "2026-01-01"
  exact (Redis.create_redisOk 3600 (oneUser_synced "2026-01-01").sessions hfresh ⟨rfl, rfl⟩).1

theorem signedIn_canonicalIds : CanonicalIds signedIn.redis := by
  constructor
  · intro userId jti hmem
    rcases Redis.mem_create_index.mp hmem with hold | ⟨rfl, -⟩
    · cases hold
    · decide
  · intro jti data expires hsession
    by_cases hj : jti = "j"
    · subst hj
      rw [Redis.create_session_self (login_completes "2026-01-01").1 hsession]
      decide
    · rw [signedIn, Redis.create_session _ _ _ hj] at hsession
      cases hsession

theorem two_changes_synced_writesInOrder :
    signedIn.AllSteps "2026-01-01" attachAndRevoke (WritesCurrent "2026-01-01" attachAndRevoke)
      writesInOrder ∧
    (∀ b, ((signedIn.run "2026-01-01" attachAndRevoke writesInOrder).admin b).Completed) ∧
    ∀ userId, (signedIn.run "2026-01-01" attachAndRevoke writesInOrder).Affects "2026-01-01"
        signedIn.db userId →
      ∀ jti data, (signedIn.run "2026-01-01" attachAndRevoke writesInOrder).redis.live jti =
          some data → data.user_id = userId →
        HasPerms (permissionsOf (signedIn.run "2026-01-01" attachAndRevoke writesInOrder).db
          "2026-01-01" userId) data := by
  have hevents : signedIn.AllSteps "2026-01-01" attachAndRevoke
      (WritesCurrent "2026-01-01" attachAndRevoke) writesInOrder := by decide +kernel
  have hdone : ∀ b,
      ((signedIn.run "2026-01-01" attachAndRevoke writesInOrder).admin b).Completed := by
    decide +kernel
  exact ⟨hevents, hdone, two_changes_synced (fun _ => rfl) signedIn_wellIndexed
    signedIn_canonicalIds (by decide) writesInOrder hevents hdone⟩

/-- The first sync resolves before the role is taken away, and writes after the second sync has
written. -/
def writesInOtherOrder : List ConsoleEvent :=
  advances false 12 ++ advances true 16 ++ advances false 4

/-- **The older resolution wins**: the session keeps the permissions of the role that the user has
no more. -/
theorem older_resolution_wins :
    (∀ b, signedIn.admin b = .reading) ∧ Session.WellIndexed signedIn.redis ∧
    CanonicalIds signedIn.redis ∧ (∀ b, (attachAndRevoke b).Canonical) ∧
    (∀ b, ((signedIn.run "2026-01-01" attachAndRevoke writesInOtherOrder).admin b).Completed) ∧
    ¬ ∀ userId, (signedIn.run "2026-01-01" attachAndRevoke writesInOtherOrder).Affects
        "2026-01-01" signedIn.db userId →
      ∀ jti data, (signedIn.run "2026-01-01" attachAndRevoke writesInOtherOrder).redis.live jti =
          some data → data.user_id = userId →
        HasPerms (permissionsOf (signedIn.run "2026-01-01" attachAndRevoke writesInOtherOrder).db
          "2026-01-01" userId) data := by
  refine ⟨fun _ => rfl, signedIn_wellIndexed, signedIn_canonicalIds, by decide, by decide +kernel,
    fun h => ?_⟩
  have haffected : (signedIn.run "2026-01-01" attachAndRevoke writesInOtherOrder).Affects
      "2026-01-01" signedIn.db "u" := Or.inr (by decide +kernel)
  have hlive : (signedIn.run "2026-01-01" attachAndRevoke writesInOtherOrder).redis.live "j" =
      some (loginSession oneUser.db "2026-01-01" Session.aliceSession) := by decide +kernel
  have hperms := (h "u" haffected "j" _ hlive (by decide +kernel)).2
  revert hperms
  decide +kernel

end ErpApi.Iam
