import ErpApi.Session.SessionIndex

set_option autoImplicit false

/-! # Calls that rewrite the sessions of a user

Calls of `refreshPermissionsForUser` and `setMustChangePasswordForUser` may run at the same time.
Each command of such a call is described by what it does to one session: whether the call still has
to read or write the session (`Phase.treats`), whether it has found the session gone and is about to
take its id out of the index (`Phase.prunes`), and which session it writes (`Phase.written`).
`command_rewrite` says what becomes of the sessions, and `rewrite_move` of the indexes too when
every id belongs to one user.
-/

namespace ErpApi.Session

/-- The call has listed the sessions, and the session is still to be read, or has been read as live
and is not written yet. -/
def Phase.treats (jti : String) : Phase → Prop
  | .get _ entries k todo => jti ∈ k :: todo ∨ ∃ a ∈ activeOf entries, a.jti = jti
  | .ttl _ entries k session todo =>
      k = jti ∧ session.isSome = true ∨ jti ∈ todo ∨ ∃ a ∈ activeOf entries, a.jti = jti
  | .srem _ entries => ∃ a ∈ activeOf entries, a.jti = jti
  | .pipeline commands => ∃ ttlSeconds data, .setex jti ttlSeconds data ∈ commands
  | _ => False

theorem writes_iff {jti : String} {commands : List Command} :
    commands.any (Command.writes jti) = true ↔
      ∃ ttlSeconds data, .setex jti ttlSeconds data ∈ commands := by
  rw [List.any_eq_true]
  constructor
  · rintro ⟨c, hc, hwrites⟩
    cases c with
    | setex k ttlSeconds data =>
        obtain rfl : k = jti := by simpa [Command.writes] using hwrites
        exact ⟨ttlSeconds, data, hc⟩
    | _ => cases hwrites
  · rintro ⟨ttlSeconds, data, hc⟩
    exact ⟨_, hc, by simp [Command.writes]⟩

instance (jti : String) : (phase : Phase) → Decidable (phase.treats jti)
  | .get _ entries k todo =>
      inferInstanceAs (Decidable (jti ∈ k :: todo ∨ ∃ a ∈ activeOf entries, a.jti = jti))
  | .ttl _ entries k session todo =>
      inferInstanceAs (Decidable (k = jti ∧ session.isSome = true ∨ jti ∈ todo ∨
        ∃ a ∈ activeOf entries, a.jti = jti))
  | .srem _ entries => inferInstanceAs (Decidable (∃ a ∈ activeOf entries, a.jti = jti))
  | .pipeline commands => decidable_of_iff (commands.any (Command.writes jti) = true) writes_iff
  | .smembers _ => .isFalse not_false
  | .getRevoked _ => .isFalse not_false

/-- The call has found the session gone and is going to take its id out of the index. -/
def Phase.prunes (jti : String) : Phase → Prop
  | .get _ entries _ _ => ∃ e ∈ entries, e.jti = jti ∧ e.active = none
  | .ttl _ entries k session _ =>
      k = jti ∧ session = none ∨ ∃ e ∈ entries, e.jti = jti ∧ e.active = none
  | .srem _ entries => ∃ e ∈ entries, e.jti = jti ∧ e.active = none
  | _ => False

/-- The session that the next command writes. -/
def Phase.written : Phase → Option (String × SessionData)
  | .pipeline (.setex jti _ data :: _) => some (jti, data)
  | _ => none

/-- The call has not listed the sessions yet. -/
def Phase.unlisted : Phase → Bool
  | .smembers _ => true
  | _ => false

/-- The call writes sessions, each with a time to live. -/
def Phase.Positive : Phase → Prop
  | .getRevoked _ => False
  | .pipeline commands => ∀ c ∈ commands, ∃ jti ttlSeconds data,
      c = .setex jti ttlSeconds data ∧ ttlSeconds > 0
  | _ => True

/-- What a command does to the sessions. -/
structure Rewrite (r r' : Redis) (phase phase' : Phase) : Prop where
  clock : r'.clock = r.clock
  session : ∀ jti, (∀ data, phase.written ≠ some (jti, data)) → r'.session jti = r.session jti
  written : ∀ jti data, phase.written = some (jti, data) →
    ∃ expires, r'.session jti = some (data, expires)
  listed : ∀ user, phase = .smembers user → ∀ jti ∈ r.index user, phase'.treats jti
  treated : ∀ jti, phase.treats jti → phase'.treats jti ∨ r.live jti = none ∨
    ∃ data, phase.written = some (jti, data)

section Shape

variable (owner : String → String)

/-- Every id belongs to one user: the ids in an index, and the sessions. -/
structure Kept (r : Redis) : Prop where
  owned : RedisOwned owner r
  index : ∀ userId jti, jti ∈ r.index userId → owner jti = userId
  nodup : ∀ userId, (r.index userId).Nodup

/-- The phases of a call for the user. -/
def Shape (userId : String) : Phase → Prop
  | .smembers user => user = userId
  | .get user entries k todo =>
      user = userId ∧ (∀ jti ∈ k :: todo, owner jti = userId) ∧
        (∀ e ∈ entries, owner e.jti = userId) ∧ (entries.map Entry.jti ++ k :: todo).Nodup
  | .ttl user entries k _ todo =>
      user = userId ∧ (∀ jti ∈ k :: todo, owner jti = userId) ∧
        (∀ e ∈ entries, owner e.jti = userId) ∧ (entries.map Entry.jti ++ k :: todo).Nodup
  | .srem user entries =>
      user = userId ∧ (∀ e ∈ entries, owner e.jti = userId) ∧ (entries.map Entry.jti).Nodup
  | .getRevoked _ => False
  | .pipeline commands => ∀ c ∈ commands, ∃ jti ttlSeconds data,
      c = .setex jti ttlSeconds data ∧ ttlSeconds > 0 ∧ owner jti = userId

/-- What a command of a call for the user does. -/
structure Move (userId : String) (r r' : Redis) (phase phase' : Phase) : Prop
    extends Rewrite r r' phase phase' where
  index : ∀ user jti, jti ∈ r'.index user → jti ∈ r.index user
  nodup : ∀ user, (r.index user).Nodup → (r'.index user).Nodup
  pruned : ∀ user jti, jti ∈ r.index user → jti ∈ r'.index user ∨ user = userId ∧ phase.prunes jti
  treats : ∀ jti, phase'.treats jti →
    phase.treats jti ∨ phase.unlisted = true ∧ jti ∈ r.index userId
  prunes : ∀ jti, phase'.prunes jti → phase.prunes jti ∨ r.live jti = none
  unlisted : phase'.unlisted = false
  quiet : phase.written ≠ none → ∀ jti, ¬ phase'.prunes jti

variable {owner} {userId jti : String}

/-- A session is not treated and pruned at the same time. -/
theorem Shape.exclusive {phase : Phase} (h : Shape owner userId phase)
    (htreats : phase.treats jti) : ¬ phase.prunes jti := by
  have hactive : ∀ {entries : List Entry}, (entries.map Entry.jti).Nodup →
      (∃ a ∈ activeOf entries, a.jti = jti) →
      ¬ ∃ e ∈ entries, e.jti = jti ∧ e.active = none := by
    rintro entries hnodup ⟨a, ha, hjti⟩ ⟨e, he, hje, hnone⟩
    obtain ⟨e', he', hsome⟩ := mem_activeOf ha
    have hj' := (Entry.active_jti hsome).1
    rw [List.inj_on_of_nodup_map hnodup he he' (hje.trans (hjti.symm.trans hj')), hsome] at hnone
    cases hnone
  cases phase with
  | get user entries k todo =>
      obtain ⟨-, -, -, hnodup⟩ := h
      obtain ⟨hentries, -, hdisjoint⟩ := List.nodup_append.mp hnodup
      rcases htreats with hmem | hmem
      · rintro ⟨e, he, hje, -⟩
        exact hdisjoint _ (List.mem_map_of_mem he) _ hmem hje
      · exact hactive hentries hmem
  | ttl user entries k session todo =>
      obtain ⟨-, -, -, hnodup⟩ := h
      obtain ⟨hentries, hrest, hdisjoint⟩ := List.nodup_append.mp hnodup
      obtain ⟨hk, -⟩ := List.nodup_cons.mp hrest
      have hout : ∀ {j}, j ∈ k :: todo → ¬ ∃ e ∈ entries, e.jti = j ∧ e.active = none := by
        rintro j hj ⟨e, he, hje, -⟩
        exact hdisjoint _ (List.mem_map_of_mem he) _ hj hje
      rcases htreats with ⟨rfl, hsome⟩ | hmem | hmem
      · rintro (⟨-, hnone⟩ | hprunes)
        · rw [hnone] at hsome
          cases hsome
        · exact hout List.mem_cons_self hprunes
      · rintro (⟨rfl, -⟩ | hprunes)
        · exact hk hmem
        · exact hout (List.mem_cons_of_mem _ hmem) hprunes
      · rintro (⟨rfl, -⟩ | hprunes)
        · obtain ⟨a, ha, hja⟩ := hmem
          obtain ⟨e, he, hsome⟩ := mem_activeOf ha
          exact hdisjoint _ (List.mem_map_of_mem he) k List.mem_cons_self
            ((Entry.active_jti hsome).1.symm.trans hja)
        · exact hactive hentries hmem hprunes
  | srem user entries => exact hactive h.2.2 htreats
  | smembers user => exact fun hno => hno
  | getRevoked k => exact fun hno => hno
  | pipeline commands => exact fun hno => hno

theorem Shape.owner_of_treats {phase : Phase} (h : Shape owner userId phase)
    (htreats : phase.treats jti) : owner jti = userId := by
  have hactive : ∀ {entries : List Entry}, (∀ e ∈ entries, owner e.jti = userId) →
      (∃ a ∈ activeOf entries, a.jti = jti) → owner jti = userId := by
    rintro entries hentries ⟨a, ha, rfl⟩
    obtain ⟨e, he, hsome⟩ := mem_activeOf ha
    rw [(Entry.active_jti hsome).1]
    exact hentries e he
  cases phase with
  | get user entries k todo =>
      rcases htreats with hmem | hmem
      · exact h.2.1 jti hmem
      · exact hactive h.2.2.1 hmem
  | ttl user entries k session todo =>
      rcases htreats with ⟨rfl, -⟩ | hmem | hmem
      · exact h.2.1 k List.mem_cons_self
      · exact h.2.1 jti (List.mem_cons_of_mem _ hmem)
      · exact hactive h.2.2.1 hmem
  | srem user entries => exact hactive h.2.1 htreats
  | smembers user => exact absurd htreats not_false
  | getRevoked k => exact absurd htreats not_false
  | pipeline commands =>
      obtain ⟨ttlSeconds, data, hmem⟩ := htreats
      obtain ⟨jti', ttl', data', heq, -, howner⟩ := h _ hmem
      obtain ⟨rfl, -⟩ := Command.setex.inj heq
      exact howner

/-- A call that has not listed the sessions treats none and prunes none. -/
theorem Phase.of_unlisted {phase : Phase} (h : phase.unlisted = true) :
    ¬ phase.treats jti ∧ ¬ phase.prunes jti := by
  cases phase with
  | smembers user => exact ⟨not_false, not_false⟩
  | _ => cases h

theorem Shape.of_unlisted {phase : Phase} (h : Shape owner userId phase)
    (hunlisted : phase.unlisted = true) : phase = .smembers userId := by
  cases phase with
  | smembers user => rw [show user = userId from h]
  | _ => cases hunlisted

theorem Phase.treats_of_written {phase : Phase} {data : SessionData}
    (h : phase.written = some (jti, data)) : phase.treats jti := by
  unfold Phase.written at h
  split at h
  · rename_i k ttlSeconds data' commands
    obtain ⟨rfl, rfl⟩ := Prod.mk.inj (Option.some.inj h)
    exact ⟨ttlSeconds, data', List.mem_cons_self⟩
  · cases h

section Pipeline

variable {method : Method} (hm : method.rewrites = true) {entries : List Entry}

include hm

theorem treats_pipeline :
    (Phase.pipeline (method.pipeline (activeOf entries))).treats jti ↔
      ∃ a ∈ activeOf entries, a.jti = jti := by
  rw [Method.pipeline_eq_map hm]
  constructor
  · rintro ⟨ttlSeconds, data, hmem⟩
    obtain ⟨a, ha, heq⟩ := List.mem_map.mp hmem
    exact ⟨a, ha, (Command.setex.inj heq).1⟩
  · rintro ⟨a, ha, rfl⟩
    exact ⟨_, _, List.mem_map_of_mem ha⟩

theorem mem_pipeline {c : Command} (hc : c ∈ method.pipeline (activeOf entries)) :
    ∃ e ∈ entries, ∃ ttlSeconds data, c = .setex e.jti ttlSeconds data ∧ ttlSeconds > 0 := by
  rw [Method.pipeline_eq_map hm] at hc
  obtain ⟨a, ha, rfl⟩ := List.mem_map.mp hc
  obtain ⟨e, he, hactive⟩ := mem_activeOf ha
  obtain ⟨hjti, -, hpos⟩ := Entry.active_jti hactive
  exact ⟨e, he, _, _, by rw [hjti], hpos⟩

theorem positive_pipeline : (Phase.pipeline (method.pipeline (activeOf entries))).Positive := by
  intro c hc
  obtain ⟨e, -, ttlSeconds, data, heq, hpos⟩ := mem_pipeline hm hc
  exact ⟨e.jti, ttlSeconds, data, heq, hpos⟩

theorem shape_pipeline (h : ∀ e ∈ entries, owner e.jti = userId) :
    Shape owner userId (.pipeline (method.pipeline (activeOf entries))) := by
  intro c hc
  obtain ⟨e, he, ttlSeconds, data, heq, hpos⟩ := mem_pipeline hm hc
  exact ⟨e.jti, ttlSeconds, data, heq, hpos, h e he⟩

end Pipeline

theorem Shape.positive {phase : Phase} (h : Shape owner userId phase) : phase.Positive := by
  cases phase with
  | getRevoked k => exact h
  | pipeline commands =>
      intro c hc
      obtain ⟨k, ttlSeconds, data, heq, hpos, -⟩ := h c hc
      exact ⟨k, ttlSeconds, data, heq, hpos⟩
  | _ => trivial

/-! ### What is written -/

/-- The sessions that a call writes are changed as its method says. -/
def Phase.Writes (P : SessionData → Prop) : Phase → Prop
  | .pipeline commands => ∀ jti ttlSeconds data, .setex jti ttlSeconds data ∈ commands → P data
  | _ => True

theorem writes_pipeline {method : Method} (hm : method.rewrites = true)
    {P : SessionData → Prop} (hP : ∀ session, P (method.update session)) (entries : List Entry) :
    (Phase.pipeline (method.pipeline (activeOf entries))).Writes P := by
  intro jti ttlSeconds data hmem
  rw [Method.pipeline_eq_map hm] at hmem
  obtain ⟨a, -, heq⟩ := List.mem_map.mp hmem
  obtain ⟨-, -, rfl⟩ := Command.setex.inj heq
  exact hP a.session

theorem command_writes {r : Redis} {method : Method} (hm : method.rewrites = true)
    {P : SessionData → Prop} (hP : ∀ session, P (method.update session)) {phase : Phase}
    (h : phase.Writes P) : (command r ⟨method, phase⟩).2.phase.Writes P := by
  cases phase with
  | smembers user =>
      simp only [command]
      cases r.index user with
      | nil => simp [Phase.Writes]
      | cons k todo => trivial
  | get user entries k todo => trivial
  | ttl user entries k session todo =>
      cases todo with
      | cons next todo => trivial
      | nil =>
          simp only [command, afterReading]
          split
          · trivial
          · exact writes_pipeline hm hP _
  | srem user entries => exact writes_pipeline hm hP entries
  | getRevoked k =>
      simp only [command]
      intro jti ttlSeconds data hmem
      cases hget : r.get k with
      | none => simp [hget] at hmem
      | some session => simp [hget] at hmem
  | pipeline commands =>
      cases commands with
      | nil => exact h
      | cons c commands =>
          intro jti ttlSeconds data hmem
          exact h jti ttlSeconds data (List.mem_cons_of_mem _ hmem)

theorem Phase.Writes.written {P : SessionData → Prop} {phase : Phase} (h : phase.Writes P)
    {data : SessionData} (hwritten : phase.written = some (jti, data)) : P data := by
  unfold Phase.written at hwritten
  split at hwritten
  · rename_i k ttlSeconds data' commands
    obtain ⟨rfl, rfl⟩ := Prod.mk.inj (Option.some.inj hwritten)
    exact h k ttlSeconds data' List.mem_cons_self
  · cases hwritten

/-! ### The sessions -/

/-- A command that only reads. -/
theorem Rewrite.of_read {r : Redis} {phase phase' : Phase} (hwritten : phase.written = none)
    (hlisted : ∀ user, phase = .smembers user → ∀ jti ∈ r.index user, phase'.treats jti)
    (htreated : ∀ jti, phase.treats jti → phase'.treats jti ∨ r.live jti = none) :
    Rewrite r r phase phase' where
  clock := rfl
  session := fun _ _ => rfl
  written := fun jti data h => absurd (hwritten.symm.trans h) (by simp)
  listed := hlisted
  treated := fun jti h => (htreated jti h).imp_right Or.inl

theorem Redis.live_of_ttl {r : Redis} (h : ¬ r.ttl jti > 0) : r.live jti = none := by
  unfold Redis.live
  cases r.get jti with
  | none => rfl
  | some data => exact if_neg h

/-- One more entry: what is active and what is not. -/
theorem exists_activeOf_append {entries : List Entry} {e : Entry} :
    (∃ a ∈ activeOf (entries ++ [e]), a.jti = jti) ↔
      (∃ a ∈ activeOf entries, a.jti = jti) ∨ e.jti = jti ∧ e.active ≠ none := by
  rw [activeOf, List.filterMap_append, ← activeOf]
  constructor
  · rintro ⟨a, ha, hjti⟩
    rcases List.mem_append.mp ha with hold | hnew
    · exact Or.inl ⟨a, hold, hjti⟩
    · obtain ⟨e', he', hsome⟩ := List.mem_filterMap.mp hnew
      obtain rfl := List.mem_singleton.mp he'
      refine Or.inr ⟨(Entry.active_jti hsome).1.symm.trans hjti, ?_⟩
      rw [hsome]
      exact Option.some_ne_none a
  · rintro (⟨a, ha, hjti⟩ | ⟨hjti, hne⟩)
    · exact ⟨a, List.mem_append_left _ ha, hjti⟩
    · obtain ⟨a, hsome⟩ := Option.ne_none_iff_exists'.mp hne
      refine ⟨a, List.mem_append_right _ (List.mem_filterMap.mpr ⟨e, ?_, hsome⟩),
        (Entry.active_jti hsome).1.trans hjti⟩
      exact List.mem_singleton_self e

theorem exists_stale_append {entries : List Entry} {e : Entry} :
    (∃ e' ∈ entries ++ [e], e'.jti = jti ∧ e'.active = none) ↔
      (∃ e' ∈ entries, e'.jti = jti ∧ e'.active = none) ∨ e.jti = jti ∧ e.active = none := by
  simp [or_and_right, exists_or]

/-- The phase after the last `TTL` treats the active sessions. -/
theorem treats_afterReading {method : Method} (hm : method.rewrites = true) {user : String}
    {entries : List Entry} :
    (afterReading method user entries).treats jti ↔ ∃ a ∈ activeOf entries, a.jti = jti := by
  unfold afterReading
  split
  · exact Iff.rfl
  · exact treats_pipeline hm

theorem positive_afterReading {method : Method} (hm : method.rewrites = true) {user : String}
    {entries : List Entry} : (afterReading method user entries).Positive := by
  unfold afterReading
  split
  · trivial
  · exact positive_pipeline hm

/-- The `TTL` completes the entry of a session that has been read as live, unless the session is
gone. -/
theorem treated_ttl {r : Redis} {user : String} {entries : List Entry} {k : String}
    {session : Option SessionData} {todo : List String}
    (h : (Phase.ttl user entries k session todo).treats jti) :
    (jti ∈ todo ∨ ∃ a ∈ activeOf (entries ++ [⟨k, session, r.ttl k⟩]), a.jti = jti) ∨
      r.live jti = none := by
  rcases h with ⟨rfl, hsome⟩ | hmem | hmem
  · by_cases hpos : r.ttl k > 0
    · refine Or.inl (Or.inr (exists_activeOf_append.mpr (Or.inr ⟨rfl, ?_⟩)))
      obtain ⟨data, rfl⟩ := Option.isSome_iff_exists.mp hsome
      simp [Entry.active, hpos]
    · exact Or.inr (Redis.live_of_ttl hpos)
  · exact Or.inl (Or.inl hmem)
  · exact Or.inl (Or.inr (exists_activeOf_append.mpr (Or.inl hmem)))

/-- Writing a session. -/
theorem rewrite_setex {r : Redis} {k : String} {ttlSeconds : Int} {data : SessionData}
    {commands : List Command} (hpos : ttlSeconds > 0) :
    Rewrite r (r.exec (.setex k ttlSeconds data))
      (.pipeline (.setex k ttlSeconds data :: commands)) (.pipeline commands) := by
  rw [Redis.exec_setex r k data hpos]
  refine ⟨rfl, ?_, ?_, fun _ h => (by cases h), ?_⟩
  · intro jti hne
    refine if_neg ?_
    rintro rfl
    exact hne data rfl
  · intro jti data' heq
    obtain ⟨rfl, rfl⟩ := Prod.mk.inj (Option.some.inj heq)
    exact ⟨_, if_pos rfl⟩
  · rintro jti ⟨ttl', data', hmem⟩
    rcases List.mem_cons.mp hmem with heq | hmem
    · obtain ⟨rfl, -⟩ := Command.setex.inj heq
      exact Or.inr (Or.inr ⟨data, rfl⟩)
    · exact Or.inl ⟨ttl', data', hmem⟩

/-- **What a command of a call does to the sessions.** -/
theorem command_rewrite {r : Redis} {method : Method} (hm : method.rewrites = true)
    {phase : Phase} (h : phase.Positive) :
    Rewrite r (command r ⟨method, phase⟩).1 phase (command r ⟨method, phase⟩).2.phase ∧
      (command r ⟨method, phase⟩).2.phase.Positive := by
  cases phase with
  | smembers user =>
      cases hindex : r.index user with
      | nil =>
          simp only [command, hindex]
          refine ⟨Rewrite.of_read rfl ?_ (fun _ h => absurd h not_false), ?_⟩
          · intro user' heq jti hmem
            obtain rfl := Phase.smembers.inj heq
            rw [hindex] at hmem
            cases hmem
          · intro c hc
            cases hc
      | cons k todo =>
          simp only [command, hindex]
          refine ⟨Rewrite.of_read rfl ?_ (fun _ h => absurd h not_false), trivial⟩
          intro user' heq jti hmem
          obtain rfl := Phase.smembers.inj heq
          rw [hindex] at hmem
          exact Or.inl hmem
  | get user entries k todo =>
      refine ⟨Rewrite.of_read rfl (fun _ h => by cases h) ?_, trivial⟩
      rintro jti (hmem | hmem)
      · rcases List.mem_cons.mp hmem with rfl | hmem
        · cases hget : r.get jti with
          | none => exact Or.inr (Redis.live_of_get_none hget)
          | some data => exact Or.inl (Or.inl ⟨rfl, by rw [hget]; rfl⟩)
        · exact Or.inl (Or.inr (Or.inl hmem))
      · exact Or.inl (Or.inr (Or.inr hmem))
  | ttl user entries k session todo =>
      cases todo with
      | cons next todo =>
          exact ⟨Rewrite.of_read rfl (fun _ h => by cases h) fun jti h => treated_ttl h, trivial⟩
      | nil =>
          refine ⟨Rewrite.of_read rfl (fun _ h => by cases h) fun jti h => ?_,
            positive_afterReading hm⟩
          rw [show (command r ⟨method, .ttl user entries k session []⟩).2.phase =
            afterReading method user (entries ++ [⟨k, session, r.ttl k⟩]) from rfl,
            treats_afterReading hm]
          exact (treated_ttl h).imp_left fun hmem => hmem.resolve_left List.not_mem_nil
  | srem user entries =>
      refine ⟨⟨rfl, fun _ _ => rfl, fun _ _ h => absurd h (by simp [Phase.written]),
        fun _ h => (by cases h), ?_⟩, positive_pipeline hm⟩
      exact fun jti htreats => Or.inl ((treats_pipeline hm).mpr htreats)
  | getRevoked k => exact absurd h not_false
  | pipeline commands =>
      cases commands with
      | nil =>
          exact ⟨Rewrite.of_read rfl (fun _ h => by cases h) (fun _ h => Or.inl h), h⟩
      | cons c commands =>
          obtain ⟨k, ttlSeconds, data, rfl, hpos⟩ := h c List.mem_cons_self
          exact ⟨rewrite_setex hpos, fun c' hc' => h c' (List.mem_cons_of_mem _ hc')⟩

/-! ### The indexes -/

/-- A command that leaves the indexes as they are. -/
theorem Move.of_index {r r' : Redis} {phase phase' : Phase} (h : Rewrite r r' phase phase')
    (hindex : r'.index = r.index) (hlisted : phase'.unlisted = false)
    (htreats : ∀ jti, phase'.treats jti →
      phase.treats jti ∨ phase.unlisted = true ∧ jti ∈ r.index userId)
    (hprunes : ∀ jti, phase'.prunes jti → phase.prunes jti ∨ r.live jti = none)
    (hquiet : phase.written ≠ none → ∀ jti, ¬ phase'.prunes jti) :
    Move userId r r' phase phase' where
  toRewrite := h
  index := by
    rw [hindex]
    exact fun _ _ hmem => hmem
  nodup := by
    rw [hindex]
    exact fun _ hnodup => hnodup
  pruned := by
    rw [hindex]
    exact fun _ _ hmem => Or.inl hmem
  treats := htreats
  prunes := hprunes
  unlisted := hlisted
  quiet := hquiet

theorem treats_of_append {r : Redis} {user : String} {entries : List Entry} {k : String}
    {session : Option SessionData} {todo : List String}
    (h : jti ∈ todo ∨ ∃ a ∈ activeOf (entries ++ [⟨k, session, r.ttl k⟩]), a.jti = jti) :
    (Phase.ttl user entries k session todo).treats jti := by
  rcases h with hmem | hmem
  · exact Or.inr (Or.inl hmem)
  · rcases exists_activeOf_append.mp hmem with hold | ⟨hjti, hne⟩
    · exact Or.inr (Or.inr hold)
    · refine Or.inl ⟨hjti, ?_⟩
      cases session with
      | none => exact absurd rfl hne
      | some data => rfl

theorem prunes_of_append {r : Redis} {user : String} {entries : List Entry} {k : String}
    {session : Option SessionData} {todo : List String}
    (h : ∃ e ∈ entries ++ [⟨k, session, r.ttl k⟩], e.jti = jti ∧ e.active = none) :
    (Phase.ttl user entries k session todo).prunes jti ∨ r.live jti = none := by
  rcases exists_stale_append.mp h with hold | ⟨hjti, hnone⟩
  · exact Or.inl (Or.inr hold)
  · cases session with
    | none => exact Or.inl (Or.inl ⟨hjti, rfl⟩)
    | some data =>
        obtain rfl : k = jti := hjti
        refine Or.inr (Redis.live_of_ttl fun hpos => ?_)
        simp [Entry.active, hpos] at hnone

/-- Pruning. -/
theorem move_srem {r : Redis} {entries : List Entry} {phase' : Phase}
    (h : Rewrite r (r.exec (.srem userId ((staleOf entries).map (·.jti)))) (.srem userId entries)
      phase') (hlisted : phase'.unlisted = false)
    (htreats : ∀ jti, phase'.treats jti → ∃ a ∈ activeOf entries, a.jti = jti)
    (hprunes : ∀ jti, ¬ phase'.prunes jti) :
    Move userId r (r.exec (.srem userId ((staleOf entries).map (·.jti)))) (.srem userId entries)
      phase' where
  toRewrite := h
  index := fun _ _ h => Redis.mem_of_mem_srem h
  nodup := by
    intro user hnodup
    show (if user = userId then (r.index user).filter
      (fun j => !((staleOf entries).map (·.jti)).contains j) else r.index user).Nodup
    split
    · exact hnodup.filter _
    · exact hnodup
  pruned := by
    intro user jti hmem
    by_cases hstale : user = userId ∧ jti ∈ (staleOf entries).map (·.jti)
    · obtain ⟨huser, hjti⟩ := hstale
      obtain ⟨e, he, hje⟩ := List.mem_map.mp hjti
      obtain ⟨he', hnone⟩ := not_active_of_stale he
      exact Or.inr ⟨huser, e, he', hje, hnone⟩
    · refine Or.inl ?_
      show jti ∈ (if user = userId then (r.index user).filter
        (fun j => !((staleOf entries).map (·.jti)).contains j) else r.index user)
      split
      · rename_i huser
        refine List.mem_filter.mpr ⟨hmem, ?_⟩
        by_contra hcontains
        exact hstale ⟨huser, by simpa using hcontains⟩
      · exact hmem
  treats := fun jti h => Or.inl (htreats jti h)
  prunes := fun jti h => absurd h (hprunes jti)
  unlisted := hlisted
  quiet := fun _ => hprunes

/-- **One command of a call that rewrites the sessions of its user**, beside other such calls. -/
theorem rewrite_move {r : Redis} {method : Method} (hm : method.rewrites = true) {phase : Phase}
    (hr : Kept owner r) (h : Shape owner userId phase) :
    Move userId r (command r ⟨method, phase⟩).1 phase (command r ⟨method, phase⟩).2.phase ∧
    Shape owner userId (command r ⟨method, phase⟩).2.phase := by
  obtain ⟨hrewrite, -⟩ := command_rewrite (r := r) hm h.positive
  cases phase with
  | smembers user =>
      obtain rfl : user = userId := h
      cases hindex : r.index user with
      | nil =>
          simp only [command, hindex] at hrewrite ⊢
          refine ⟨Move.of_index hrewrite rfl rfl ?_ (fun _ h => absurd h not_false)
            (fun _ _ h => h), ?_⟩
          · rintro jti ⟨ttlSeconds, data, hmem⟩
            cases hmem
          · intro c hc
            cases hc
      | cons k todo =>
          simp only [command, hindex] at hrewrite ⊢
          refine ⟨Move.of_index hrewrite rfl rfl ?_ ?_ (fun h => absurd rfl h), rfl, ?_, by simp,
            ?_⟩
          · rintro jti (hmem | ⟨a, ha, -⟩)
            · exact Or.inr ⟨rfl, hindex ▸ hmem⟩
            · cases ha
          · rintro jti ⟨e, he, -⟩
            cases he
          · intro jti hmem
            exact hr.index user jti (hindex ▸ hmem)
          · have hnodup := hr.nodup user
            rw [hindex] at hnodup
            exact hnodup
  | get user entries k todo =>
      refine ⟨Move.of_index hrewrite rfl rfl ?_ ?_ (fun h => absurd rfl h), h⟩
      · rintro jti (⟨rfl, -⟩ | hmem | hmem)
        · exact Or.inl (Or.inl List.mem_cons_self)
        · exact Or.inl (Or.inl (List.mem_cons_of_mem _ hmem))
        · exact Or.inl (Or.inr hmem)
      · rintro jti (⟨rfl, hnone⟩ | hmem)
        · exact Or.inr (Redis.live_of_get_none hnone)
        · exact Or.inl hmem
  | ttl user entries k session todo =>
      obtain ⟨huser, howner, hentries, hnodup⟩ := h
      have hentries' : ∀ e ∈ entries ++ [Entry.mk k session (r.ttl k)],
          owner e.jti = userId := by
        intro e he
        rcases List.mem_append.mp he with hold | hnew
        · exact hentries e hold
        · obtain rfl := List.mem_singleton.mp hnew
          exact howner k List.mem_cons_self
      have hnodup' :
          ((entries ++ [Entry.mk k session (r.ttl k)]).map Entry.jti ++ todo).Nodup := by
        rw [List.map_append, List.append_assoc]
        exact hnodup
      cases todo with
      | cons next todo =>
          exact ⟨Move.of_index hrewrite rfl rfl (fun jti h => Or.inl (treats_of_append h))
            (fun jti h => prunes_of_append h) (fun h => absurd rfl h), huser,
            fun jti hmem => howner jti (List.mem_cons_of_mem _ hmem), hentries', hnodup'⟩
      | nil =>
          rw [List.append_nil] at hnodup'
          have hphase : (command r ⟨method, .ttl user entries k session []⟩).2.phase =
            afterReading method user (entries ++ [⟨k, session, r.ttl k⟩]) := rfl
          rw [hphase] at hrewrite ⊢
          refine ⟨Move.of_index hrewrite rfl ?_ ?_ ?_ (fun h => absurd rfl h), ?_⟩
          · unfold afterReading
            split <;> rfl
          · intro jti htreats
            exact Or.inl (treats_of_append (Or.inr ((treats_afterReading hm).mp htreats)))
          · intro jti hprunes
            unfold afterReading at hprunes
            split at hprunes
            · exact prunes_of_append hprunes
            · exact absurd hprunes not_false
          · unfold afterReading
            split
            · exact ⟨huser, hentries', hnodup'⟩
            · exact shape_pipeline hm hentries'
  | srem user entries =>
      obtain ⟨rfl, hentries, -⟩ := h
      exact ⟨move_srem hrewrite rfl (fun _ h => (treats_pipeline hm).mp h) (fun _ h => h),
        shape_pipeline hm hentries⟩
  | getRevoked k => exact absurd h not_false
  | pipeline commands =>
      cases commands with
      | nil =>
          exact ⟨Move.of_index hrewrite rfl rfl (fun _ h => Or.inl h) (fun _ h => Or.inl h)
            (fun _ _ h => h), h⟩
      | cons c commands =>
          obtain ⟨k, ttlSeconds, data, rfl, hpos, -⟩ := h c List.mem_cons_self
          refine ⟨Move.of_index hrewrite ?_ rfl ?_ (fun _ h => absurd h not_false)
            (fun _ _ h => h), fun c' hc' => h c' (List.mem_cons_of_mem _ hc')⟩
          · show (r.exec (.setex k ttlSeconds data)).index = r.index
            rw [Redis.exec_setex r k data hpos]
            rfl
          · rintro jti ⟨ttl', data', hmem⟩
            exact Or.inl ⟨ttl', data', List.mem_cons_of_mem _ hmem⟩

theorem Move.kept {r r' : Redis} {phase phase' : Phase} (h : Move userId r r' phase phase')
    (hr : Kept owner r) (howned : RedisOwned owner r') : Kept owner r' :=
  ⟨howned, fun user jti hmem => hr.index user jti (h.index user jti hmem),
    fun user => h.nodup user (hr.nodup user)⟩

end Shape

end ErpApi.Session
