import ErpApi.Session.RefreshAll

set_option autoImplicit false

/-! # The index of a user's sessions

`invalidateAllForUser` and the two methods that rewrite sessions find the sessions of a user
through the set `user_sessions:<userId>`. The set is kept beside the session keys by commands of
its own: `create` adds an id after it has written the session, `revoke` and the listings take out
ids that they found gone, and `invalidateAllForUser` deletes the set as a whole. What they take
out they have read before, so a session written in between stays live without being in the set:
one created during a force-logout is never found again (`created_session_unindexed`).

An id that leaves a set is *unused* if its session is gone and no call has it in hand. In every
run in which only unused ids leave the sets, every live session is in the set of its user, or
the `create` that wrote it has still to add it (`sessions_indexed`).
-/

namespace ErpApi.Session

open Interleaving (run step AllSteps)

/-- The ids that a command takes out of an index. -/
def Command.removed (r : Redis) : Command → List String
  | .srem userId jtis => (r.index userId).filter fun jti => jtis.contains jti
  | .delIndex userId => r.index userId
  | _ => []

/-- The ids that the next command of a call takes out of an index. -/
def Call.removed (r : Redis) (call : Call) : List String :=
  match call.phase with
  | .srem userId entries => Command.removed r (.srem userId ((staleOf entries).map (·.jti)))
  | .pipeline (c :: _) => c.removed r
  | _ => []

/-- The session is gone, and no call has read it live without having written it back yet. -/
def Unused (c : Config) (jti : String) : Prop :=
  c.shared.get jti = none ∧ ∀ call ∈ c.calls, call.holds jti = false

instance (c : Config) (jti : String) : Decidable (Unused c jti) :=
  inferInstanceAs (Decidable (_ ∧ ∀ call ∈ c.calls, call.holds jti = false))

/-- Only unused ids leave an index. -/
def RemovesUnused (c : Config) : Event → Prop
  | .advance i => ∀ call ∈ c.calls[i]?, ∀ jti ∈ call.removed c.shared, Unused c jti
  | _ => True

instance (c : Config) : (e : Event) → Decidable (RemovesUnused c e)
  | .start _ => .isTrue trivial
  | .advance i => inferInstanceAs (Decidable
      (∀ call ∈ c.calls[i]?, ∀ jti ∈ call.removed c.shared, Unused c jti))
  | .surroundings _ => .isTrue trivial

/-- The call is a `create` that has written its session and has not added its id yet. -/
def Call.adds (call : Call) : Option (String × String) :=
  match call.phase with
  | .pipeline (.sadd userId jti :: _) => some (userId, jti)
  | _ => none

/-- No `create` stands between its two commands. -/
def Settled (c : Config) : Prop := ∀ call ∈ c.calls, call.adds = none

instance (c : Config) : Decidable (Settled c) :=
  inferInstanceAs (Decidable (∀ call ∈ c.calls, call.adds = none))

/-! ## The owner of a session

An id is drawn at random when a session is created, so it is the id of one user's sessions
only. -/

section Owner

variable (owner : String → String)

/-- Every session is created for the owner of its id. -/
def OwnerStart (_ : Config) (e : Event) : Prop :=
  ∀ jti data ttlSeconds, e = .start (.create jti data ttlSeconds) → data.user_id = owner jti

def RedisOwned (r : Redis) : Prop :=
  ∀ jti data expires, r.session jti = some (data, expires) → data.user_id = owner jti

def Command.Owned : Command → Prop
  | .setex jti _ data => data.user_id = owner jti
  | .sadd userId jti => userId = owner jti
  | _ => True

/-- What a call has read and what it will write. -/
def PhaseOwned : Phase → Prop
  | .smembers _ => True
  | .get _ entries _ _ => ∀ e ∈ entries, ∀ data ∈ e.session, data.user_id = owner e.jti
  | .ttl _ entries jti session _ =>
      (∀ e ∈ entries, ∀ data ∈ e.session, data.user_id = owner e.jti) ∧
        ∀ data ∈ session, data.user_id = owner jti
  | .srem _ entries => ∀ e ∈ entries, ∀ data ∈ e.session, data.user_id = owner e.jti
  | .getRevoked _ => True
  | .pipeline commands => ∀ c ∈ commands, c.Owned owner

/-- The commands that a `create` has still to perform. -/
def CreateStands (call : Call) : Prop :=
  ∀ jti data ttlSeconds, call.method = .create jti data ttlSeconds →
    call.phase = .pipeline [.setex jti ttlSeconds data, .sadd data.user_id jti] ∨
    call.phase = .pipeline [.sadd data.user_id jti] ∨ call.phase = .pipeline []

def CallOwned (_ : Redis) (call : Call) : Prop :=
  PhaseOwned owner call.phase ∧ CreateStands call

variable {owner}

theorem Method.update_user_id (method : Method) (session : SessionData) :
    (method.update session).user_id = session.user_id := by
  cases method <;> rfl

theorem owned_pipeline {method : Method} {entries : List Entry}
    (h : ∀ e ∈ entries, ∀ data ∈ e.session, data.user_id = owner e.jti) :
    PhaseOwned owner (.pipeline (method.pipeline (activeOf entries))) := by
  intro c hc
  by_cases hm : method.rewrites = true
  · rw [Method.pipeline_eq_map hm] at hc
    obtain ⟨a, ha, rfl⟩ := List.mem_map.mp hc
    obtain ⟨e, he, hactive⟩ := mem_activeOf ha
    obtain ⟨hjti, hsession, -⟩ := Entry.active_jti hactive
    show (method.update a.session).user_id = owner a.jti
    rw [method.update_user_id, hjti]
    exact h e he a.session hsession
  · cases method with
    | invalidateAllForUser userId =>
        simp only [Method.pipeline] at hc
        split at hc
        · cases hc
        · rcases List.mem_append.mp hc with hdel | hindex
          · obtain ⟨a, -, rfl⟩ := List.mem_map.mp hdel
            trivial
          · obtain rfl := List.mem_singleton.mp hindex
            trivial
    | refreshPermissionsForUser userId perms => exact absurd rfl hm
    | setMustChangePasswordForUser userId mustChangePassword => exact absurd rfl hm
    | _ => cases hc

theorem owned_exec {r : Redis} {c : Command} (hr : RedisOwned owner r) (hc : c.Owned owner) :
    RedisOwned owner (r.exec c) := by
  intro jti data expires hs
  cases c with
  | setex j ttlSeconds d =>
      by_cases ht : ttlSeconds ≤ 0
      · rw [Redis.exec, if_pos ht] at hs
        exact hr jti data expires hs
      · rw [Redis.exec_setex r j d (by omega)] at hs
        rcases Redis.withSession_session hs with ⟨rfl, heq⟩ | ⟨-, hold⟩
        · obtain ⟨rfl, -⟩ := Prod.mk.inj heq
          exact hc
        · exact hr jti data expires hold
  | del j =>
      have hs' : (if jti = j then none else r.session jti) = some (data, expires) := hs
      split at hs'
      · cases hs'
      · exact hr jti data expires hs'
  | delIndex userId => exact hr jti data expires hs
  | srem userId jtis => exact hr jti data expires hs
  | sadd userId j => exact hr jti data expires hs

theorem owned_append {entries : List Entry} {e : Entry}
    (h : ∀ e ∈ entries, ∀ data ∈ e.session, data.user_id = owner e.jti)
    (he : ∀ data ∈ e.session, data.user_id = owner e.jti) :
    ∀ e' ∈ entries ++ [e], ∀ data ∈ e'.session, data.user_id = owner e'.jti := by
  intro e' he'
  rcases List.mem_append.mp he' with hold | hnew
  · exact h e' hold
  · obtain rfl := List.mem_singleton.mp hnew
    exact he

/-- A session keeps its owner when it is read, changed and written back. -/
theorem owned_command {r : Redis} {call : Call} (hr : RedisOwned owner r)
    (h : PhaseOwned owner call.phase) :
    RedisOwned owner (command r call).1 ∧ PhaseOwned owner (command r call).2.phase := by
  obtain ⟨method, phase⟩ := call
  cases phase with
  | smembers userId =>
      cases hindex : r.index userId with
      | nil => simpa [command, hindex, PhaseOwned] using hr
      | cons jti todo => simpa [command, hindex, PhaseOwned] using hr
  | get userId entries jti todo =>
      refine ⟨hr, h, ?_⟩
      intro data hdata
      obtain ⟨expires, hs⟩ := Redis.session_of_get hdata
      exact hr jti data expires hs
  | ttl userId entries jti session todo =>
      have hentries := owned_append (e := ⟨jti, session, r.ttl jti⟩) h.1 h.2
      cases todo with
      | cons next todo => exact ⟨hr, hentries⟩
      | nil =>
          refine ⟨hr, ?_⟩
          show PhaseOwned owner (afterReading _ userId _)
          unfold afterReading
          split
          · exact hentries
          · exact owned_pipeline hentries
  | srem userId entries => exact ⟨owned_exec (c := .srem userId _) hr trivial, owned_pipeline h⟩
  | getRevoked jti =>
      refine ⟨hr, ?_⟩
      intro c hc
      rcases List.mem_cons.mp hc with rfl | hsrem
      · trivial
      · cases hget : r.get jti with
        | none => simp [hget] at hsrem
        | some session =>
            obtain rfl : c = .srem session.user_id [jti] := by simpa [hget] using hsrem
            trivial
  | pipeline commands =>
      cases commands with
      | nil => exact ⟨hr, h⟩
      | cons c commands =>
          exact ⟨owned_exec hr (h c List.mem_cons_self),
            fun c' hc' => h c' (List.mem_cons_of_mem _ hc')⟩

theorem CreateStands.command {call : Call} (h : CreateStands call) (r : Redis) :
    CreateStands (command r call).2 := by
  intro jti data ttlSeconds hmethod
  rw [command_method] at hmethod
  obtain ⟨method, phase⟩ := call
  rcases h jti data ttlSeconds hmethod with hphase | hphase | hphase
  · obtain rfl : phase = _ := hphase
    exact Or.inr (Or.inl rfl)
  · obtain rfl : phase = _ := hphase
    exact Or.inr (Or.inr rfl)
  · obtain rfl : phase = _ := hphase
    exact Or.inr (Or.inr rfl)

theorem owned_start {method : Method}
    (h : ∀ jti data ttlSeconds, method = .create jti data ttlSeconds → data.user_id = owner jti)
    (r : Redis) : CallOwned owner r (start method) := by
  cases method with
  | create jti data ttlSeconds =>
      have hdata := h jti data ttlSeconds rfl
      refine ⟨?_, ?_⟩
      · intro c hc
        rcases List.mem_pair.mp hc with rfl | rfl
        · exact hdata
        · exact hdata
      · intro jti' data' ttl' heq
        obtain ⟨rfl, rfl, rfl⟩ := Method.create.inj heq
        exact Or.inl rfl
  | _ => exact ⟨trivial, fun jti data ttlSeconds heq => absurd heq (by simp [start])⟩

theorem owned_preserved :
    Interleaving.Preserved store (OwnerStart owner) (RedisOwned owner) (CallOwned owner) where
  start c _ hok _ :=
    owned_start (fun jti data ttlSeconds heq => hok jti data ttlSeconds (heq ▸ rfl)) c.shared
  command c _ _ _ _ hI hJ :=
    ⟨(owned_command hI hJ.1).1, (owned_command hI hJ.1).2, hJ.2.command c.shared⟩
  others _ _ _ _ _ _ _ _ _ _ _ hother := hother
  surroundings _ _ _ hI := ⟨hI, fun _ _ h => h⟩

/-! ## Live sessions are in the index -/

/-- The id is in the index, or a `create` has still to add it. -/
def Noted (owner : String → String) (c : Config) (jti : String) : Prop :=
  jti ∈ c.shared.index (owner jti) ∨ ∃ call ∈ c.calls, call.adds = some (owner jti, jti)

/-- What a step takes out of an index is all that leaves it. -/
theorem mem_index_exec {r : Redis} {c : Command} {userId jti : String}
    (hmem : jti ∈ r.index userId) (hremoved : jti ∉ c.removed r) :
    jti ∈ (r.exec c).index userId := by
  cases c with
  | setex j ttlSeconds d =>
      rw [Redis.exec]
      split <;> exact hmem
  | del j => exact hmem
  | delIndex user =>
      show jti ∈ (if userId = user then [] else r.index userId)
      split
      · rename_i huser
        exact absurd (huser ▸ hmem) hremoved
      · exact hmem
  | srem user jtis =>
      show jti ∈ (if userId = user then (r.index userId).filter (fun j => !jtis.contains j)
        else r.index userId)
      split
      · rename_i huser
        subst huser
        refine List.mem_filter.mpr ⟨hmem, ?_⟩
        by_contra hstale
        exact hremoved (List.mem_filter.mpr ⟨hmem, by simpa using hstale⟩)
      · exact hmem
  | sadd user j =>
      show jti ∈ (if userId = user ∧ ¬ j ∈ r.index userId then r.index userId ++ [j]
        else r.index userId)
      split
      · exact List.mem_append_left _ hmem
      · exact hmem

theorem mem_index_command {r : Redis} {call : Call} {userId jti : String}
    (hmem : jti ∈ r.index userId) (hremoved : jti ∉ call.removed r) :
    jti ∈ (command r call).1.index userId := by
  obtain ⟨method, phase⟩ := call
  cases phase with
  | smembers user =>
      cases hindex : r.index user with
      | nil => simpa [command, hindex] using hmem
      | cons j todo => simpa [command, hindex] using hmem
  | get user entries j todo => exact hmem
  | ttl user entries j session todo => cases todo <;> exact hmem
  | srem user entries =>
      exact mem_index_exec (c := .srem user ((staleOf entries).map Entry.jti)) hmem hremoved
  | getRevoked j => exact hmem
  | pipeline commands =>
      cases commands with
      | nil => exact hmem
      | cons c commands => exact mem_index_exec hmem hremoved

theorem holds_start (jti : String) (method : Method) : (start method).holds jti = false := by
  rw [Call.holds]
  cases hc : method.creates jti with
  | true => simp [start, hc]
  | false => rw [writes_start hc, Bool.and_false]

/-- A `create` that writes its session adds its id with its next command. -/
theorem adds_command {r : Redis} {call : Call} {jti : String} (howned : CallOwned owner r call)
    (hcreates : call.method.creates jti = true) (hwrites : call.writes jti = true) :
    (command r call).2.adds = some (owner jti, jti) := by
  obtain ⟨method, phase⟩ := call
  cases method with
  | create j data ttlSeconds =>
      obtain rfl : j = jti := by simpa [Method.creates] using hcreates
      have hno : ∀ commands, (∀ c ∈ commands, c.writes j = false) →
          (Call.mk (.create j data ttlSeconds) (.pipeline commands)).writes j = false := by
        intro commands hc
        simpa [Call.writes, Phase.commands, Phase.entries, any_writes_pipeline,
          Method.rewrites] using hc
      rcases howned.2 j data ttlSeconds rfl with hphase | hphase | hphase
      · obtain rfl : phase = _ := hphase
        have hdata : data.user_id = owner j := howned.1 _ List.mem_cons_self
        show some (data.user_id, j) = _
        rw [hdata]
      · obtain rfl : phase = _ := hphase
        rw [hno _ (by simp [Command.writes])] at hwrites
        cases hwrites
      · obtain rfl : phase = _ := hphase
        rw [hno _ (by simp)] at hwrites
        cases hwrites
  | _ => cases hcreates

/-- An unused id stays unused, or a `create` has written its session and is about to add it. -/
theorem unused_advance {c : Config} {i : Nat} {call : Call} {jti : String}
    (hi : c.calls[i]? = some call) (howned : CallOwned owner c.shared call)
    (h : Unused c jti) : Unused (step store c (.advance i)) jti ∨
      Noted owner (step store c (.advance i)) jti := by
  obtain ⟨hgone, hfree⟩ := h
  have hmem : (command c.shared call).2 ∈ c.calls.set i (command c.shared call).2 :=
    List.mem_set (List.getElem?_eq_some_iff.mp hi).1 _
  simp only [step, hi, store]
  cases hwrites : call.writes jti with
  | true =>
      have hcreates : call.method.creates jti = true := by
        have hfalse := hfree call (List.mem_of_getElem? hi)
        simpa [Call.holds, hwrites] using hfalse
      exact Or.inr (Or.inr ⟨_, hmem, adds_command howned hcreates hwrites⟩)
  | false =>
      refine Or.inl ⟨get_command_eq_none hgone hwrites, fun other hother => ?_⟩
      rcases List.mem_or_eq_of_mem_set hother with hold | rfl
      · exact hfree other hold
      · rw [Call.holds, writes_command hgone hwrites, Bool.and_false]

/-- An id that is noted stays so, unless the step takes it out of the index. -/
theorem noted_advance {c : Config} {i : Nat} {call : Call} {jti : String}
    (hi : c.calls[i]? = some call) (hremoved : jti ∉ call.removed c.shared)
    (h : Noted owner c jti) : Noted owner (step store c (.advance i)) jti := by
  simp only [step, hi, store]
  rcases h with hmem | ⟨other, hother, hadds⟩
  · exact Or.inl (mem_index_command hmem hremoved)
  · obtain ⟨j, hj⟩ := List.mem_iff_getElem?.mp hother
    by_cases hij : i = j
    · -- This is the `SADD` itself.
      subst hij
      obtain rfl := Option.some.inj (hi.symm.trans hj)
      obtain ⟨method, phase⟩ := call
      cases phase with
      | pipeline commands =>
          cases commands with
          | nil => cases hadds
          | cons c' commands =>
              cases c' with
              | sadd user k =>
                  obtain ⟨rfl, rfl⟩ := Prod.mk.inj (Option.some.inj hadds)
                  refine Or.inl ?_
                  show k ∈ (if owner k = owner k ∧ ¬ k ∈ c.shared.index (owner k)
                    then c.shared.index (owner k) ++ [k] else c.shared.index (owner k))
                  by_cases hk : k ∈ c.shared.index (owner k)
                  · rw [if_neg fun hnew => hnew.2 hk]
                    exact hk
                  · rw [if_pos ⟨rfl, hk⟩]
                    exact List.mem_append_right _ (List.mem_singleton_self k)
              | _ => cases hadds
      | _ => cases hadds
    · refine Or.inr ⟨other, List.mem_iff_getElem?.mpr ⟨j, ?_⟩, hadds⟩
      rw [List.getElem?_set_ne hij]
      exact hj

/-- Every id is unused or noted, and the sessions belong to the owners of their ids. -/
def IndexInv (owner : String → String) (c : Config) : Prop :=
  Interleaving.Keeps (RedisOwned owner) (CallOwned owner) c ∧
    ∀ jti, Unused c jti ∨ Noted owner c jti

theorem step_indexInv (c : Config) (e : Event) (hok : OwnerStart owner c e ∧ RemovesUnused c e)
    (h : IndexInv owner c) : IndexInv owner (step store c e) := by
  obtain ⟨howned, hinv⟩ := h
  refine ⟨Interleaving.step_keeps owned_preserved c e hok.1 howned, fun jti => ?_⟩
  cases e with
  | start method =>
      rcases hinv jti with ⟨hgone, hfree⟩ | hmem | ⟨call, hcall, hadds⟩
      · refine Or.inl ⟨hgone, fun call hcall => ?_⟩
        rcases List.mem_append.mp hcall with hold | hnew
        · exact hfree call hold
        · obtain rfl := List.mem_singleton.mp hnew
          exact holds_start jti method
      · exact Or.inr (Or.inl hmem)
      · exact Or.inr (Or.inr ⟨call, List.mem_append_left _ hcall, hadds⟩)
  | advance i =>
      cases hi : c.calls[i]? with
      | none =>
          simp only [step, hi]
          exact hinv jti
      | some call =>
          have hcall := howned.2 call (List.mem_of_getElem? hi)
          rcases hinv jti with hunused | hnoted
          · exact unused_advance hi hcall hunused
          · by_cases hremoved : jti ∈ call.removed c.shared
            · exact unused_advance hi hcall (hok.2 call hi jti hremoved)
            · exact Or.inr (noted_advance hi hremoved hnoted)
  | surroundings ms =>
      refine (hinv jti).imp_left fun hunused => ?_
      exact ⟨Redis.get_clock_eq_none hunused.1 ms, hunused.2⟩

theorem init_indexInv (owner : String → String) : IndexInv owner init := by
  refine ⟨⟨?_, ?_⟩, ?_⟩
  · intro jti data expires hs
    cases hs
  · intro call hcall
    cases hcall
  · intro jti
    refine Or.inl ⟨rfl, fun call hcall => ?_⟩
    cases hcall

end Owner

/-- **Every live session is in the index of its user.** In every run from the empty store in
which only unused ids leave an index, and each id is created for one user: in every state in
which no `create` stands between its `SETEX` and its `SADD`. -/
theorem sessions_indexed (events : List Event) (owner : String → String)
    (howner : ∀ jti data ttlSeconds, .start (.create jti data ttlSeconds) ∈ events →
      data.user_id = owner jti)
    (hremoves : AllSteps store RemovesUnused init events)
    (hsettled : Settled (run store init events)) (jti : String) (data : SessionData)
    (hlive : (run store init events).shared.get jti = some data) :
    jti ∈ (run store init events).shared.index data.user_id := by
  have hok : ∀ (c : Config) (es : List Event),
      (∀ jti data ttlSeconds, .start (.create jti data ttlSeconds) ∈ es →
        data.user_id = owner jti) → AllSteps store RemovesUnused c es →
      AllSteps store (fun c e => OwnerStart owner c e ∧ RemovesUnused c e) c es := by
    intro c es
    induction es generalizing c with
    | nil => exact fun _ _ => trivial
    | cons e es ih =>
        intro hstart hrem
        refine ⟨⟨?_, hrem.1⟩, ih _ (fun j d t hmem =>
          hstart j d t (List.mem_cons_of_mem _ hmem)) hrem.2⟩
        rintro j d t rfl
        exact hstart j d t List.mem_cons_self
  obtain ⟨howned, hinv⟩ := Interleaving.run_invariant store step_indexInv
    (hok init events howner hremoves) (init_indexInv owner)
  obtain ⟨expires, hs⟩ := Redis.session_of_get hlive
  have huser : data.user_id = owner jti := howned.1 jti data expires hs
  rw [huser]
  rcases hinv jti with ⟨hgone, -⟩ | hmem | ⟨call, hcall, hadds⟩
  · rw [hgone] at hlive
    cases hlive
  · exact hmem
  · rw [hsettled call hcall] at hadds
    cases hadds

/-! ## Two runs -/

/-- A login, a permission refresh and a force-logout, one after the other, then a second
login. -/
def logoutThenLogin : List Event :=
  [.start (.create "j" aliceSession 3600), .advance 0, .advance 0,
    .start (.refreshPermissionsForUser "u" ⟨[], ["order:view"], []⟩),
    .advance 1, .advance 1, .advance 1, .advance 1,
    .start (.invalidateAllForUser "u"), .advance 2, .advance 2, .advance 2, .advance 2, .advance 2,
    .start (.create "k" aliceSession 3600), .advance 3, .advance 3]

theorem sessions_indexed_logoutThenLogin :
    "k" ∈ (run store init logoutThenLogin).shared.index "u" := by
  refine sessions_indexed logoutThenLogin (fun _ => "u") ?_ (by decide) (by decide) "k"
    aliceSession (by decide)
  intro jti data ttlSeconds hmem
  simp only [logoutThenLogin, List.mem_cons, Interleaving.Event.start.injEq, Method.create.injEq,
    reduceCtorEq, false_or, List.not_mem_nil, or_false] at hmem
  rcases hmem with ⟨-, rfl, -⟩ | ⟨-, rfl, -⟩ <;> rfl

/-- The user logs in again while the force-logout is under way: the force-logout has listed the
sessions when the new one is created, and then deletes the index as a whole. -/
def loginInsideLogout : List Event :=
  [.start (.create "j" aliceSession 3600), .advance 0, .advance 0,
    .start (.invalidateAllForUser "u"), .advance 1, .advance 1, .advance 1,
    .start (.create "k" aliceSession 3600), .advance 2, .advance 2,
    .advance 1, .advance 1]

/-- **A session is live and in no index.** All calls have ended; a later force-logout of the
user does not find it. -/
theorem created_session_unindexed :
    Ended (run store init loginInsideLogout) ∧
    (run store init loginInsideLogout).shared.get "k" = some aliceSession ∧
    "k" ∉ (run store init loginInsideLogout).shared.index aliceSession.user_id ∧
    (run store init (loginInsideLogout ++
      [.start (.invalidateAllForUser "u"), .advance 3, .advance 3])).shared.get "k" =
        some aliceSession := by
  decide

end ErpApi.Session
