import ErpApi.Session.RefreshAll

set_option autoImplicit false

/-! # Two updates of the same sessions

`refreshPermissionsForUser` and `setMustChangePasswordForUser` read a whole session, change
one part of it and write the whole back. Between the `GET` of a session and its `SETEX` such a
call has the session *in hand*. When the other call reads the session in that time, both change
the same old session, and the one that writes last overwrites the other's change
(`update_overwritten`). Both updates are kept in every run in which no call reads the session
while the other has it in hand (`both_updates_kept`).
-/

namespace ErpApi.Session

open Interleaving (run step AllSteps)

/-! ## A session in hand -/

/-- The call has performed the `GET` of the session, but not the `TTL` after it. -/
def Phase.got (jti : String) : Phase → Bool
  | .ttl _ _ j session _ => j == jti && session.isSome
  | _ => false

/-- The call has read the session and has not written it back yet. -/
def Call.inHand (jti : String) (call : Call) : Bool := call.phase.got jti || call.writes jti

/-- The session whose `GET` is the next command of the call. -/
def Call.reads (call : Call) : Option String :=
  match call.phase with
  | .get _ _ jti _ => some jti
  | _ => none

/-- No call reads the session while another one has it in hand. -/
def Apart (jti : String) (c : Config) : Event → Prop
  | .advance i => ∀ call ∈ c.calls[i]?, call.reads = some jti →
      ∀ j < c.calls.length, j ≠ i → ∀ other ∈ c.calls[j]?, other.inHand jti = false
  | _ => True

instance (jti : String) (c : Config) : (e : Event) → Decidable (Apart jti c e)
  | .start _ => .isTrue trivial
  | .advance i => inferInstanceAs (Decidable (∀ call ∈ c.calls[i]?, call.reads = some jti →
      ∀ j < c.calls.length, j ≠ i → ∀ other ∈ c.calls[j]?, other.inHand jti = false))
  | .surroundings _ => .isTrue trivial

/-- The session is live before the step. -/
def Live (jti : String) (c : Config) (_ : Event) : Prop := (c.shared.live jti).isSome = true

instance (jti : String) (c : Config) (e : Event) : Decidable (Live jti c e) :=
  inferInstanceAs (Decidable ((c.shared.live jti).isSome = true))

theorem Redis.read_of_live {r : Redis} {jti : String} {data : SessionData} {expires : Nat}
    (hs : r.session jti = some (data, expires)) (h : (r.live jti).isSome = true) :
    r.get jti = some data ∧ r.ttl jti > 0 := by
  unfold Redis.live at h
  have hget : ∀ d, r.get jti = some d → d = data := by
    intro d hd
    obtain ⟨expires', hs'⟩ := Redis.session_of_get hd
    rw [hs] at hs'
    exact (Prod.mk.inj (Option.some.inj hs')).1.symm
  cases hd : r.get jti with
  | none => simp [hd] at h
  | some d =>
      rw [hget d hd]
      refine ⟨rfl, ?_⟩
      by_contra hle
      simp [hd, hle] at h

theorem Redis.live_eq {r : Redis} {jti : String} {data : SessionData} {expires : Nat}
    (hs : r.session jti = some (data, expires)) (h : (r.live jti).isSome = true) :
    r.live jti = some data := by
  obtain ⟨hget, hpos⟩ := Redis.read_of_live hs h
  rw [Redis.live, hget]
  exact if_pos hpos

/-! ## Where a call stands with one session -/

/-- Every entry of the session is the session as it is now. -/
def Copied (jti : String) (data : SessionData) (entries : List Entry) : Prop :=
  ∀ e ∈ entries, e.jti = jti → e.session = some data ∧ e.ttlSeconds > 0

/-- The session is still to be read, or it is in hand as it is now, or it has been written. -/
def Standing (method : Method) (userId jti : String) (data : SessionData) : Phase → Prop
  | .smembers userId' => userId' = userId
  | .get _ entries j todo =>
      Copied jti data entries ∧ (jti ∈ j :: todo ∨ ∃ e ∈ entries, e.jti = jti)
  | .ttl _ entries j session todo =>
      Copied jti data entries ∧ (j = jti → session = some data) ∧
        (jti ∈ j :: todo ∨ ∃ e ∈ entries, e.jti = jti)
  | .srem _ entries => Copied jti data entries ∧ ∃ e ∈ entries, e.jti = jti
  | .getRevoked _ => False
  | .pipeline commands =>
      (∀ c ∈ commands, ∃ j ttlSeconds d, c = .setex j ttlSeconds d ∧ ttlSeconds > 0 ∧
        (j = jti → d = method.update data)) ∧
      ((∃ ttlSeconds d, .setex jti ttlSeconds d ∈ commands) ∨ method.update data = data)

section OneSession

variable {method : Method} {userId jti : String} {data : SessionData}

theorem Copied.active {entries : List Entry} (h : Copied jti data entries) {e : Entry}
    (he : e ∈ entries) (hjti : e.jti = jti) :
    e.active = some ⟨jti, data, e.ttlSeconds⟩ := by
  obtain ⟨hs, hpos⟩ := h e he hjti
  simp only [Entry.active, hs, if_pos hpos, hjti]

theorem Copied.append {entries : List Entry} (h : Copied jti data entries) {e : Entry}
    (hnew : e.jti = jti → e.session = some data ∧ e.ttlSeconds > 0) :
    Copied jti data (entries ++ [e]) := by
  intro e' he' hjti
  rcases List.mem_append.mp he' with hold | he'
  · exact h e' hold hjti
  · obtain rfl := List.mem_singleton.mp he'
    exact hnew hjti

/-- The pipeline writes the session with the change of the method. -/
theorem Copied.standing_pipeline (hmethod : method.rewrites = true) {entries : List Entry}
    (h : Copied jti data entries) (hsome : ∃ e ∈ entries, e.jti = jti) :
    Standing method userId jti data (.pipeline (method.pipeline (activeOf entries))) := by
  rw [Method.pipeline_eq_map hmethod]
  refine ⟨?_, Or.inl ?_⟩
  · intro c hc
    obtain ⟨a, ha, rfl⟩ := List.mem_map.mp hc
    obtain ⟨e, he, hactive⟩ := mem_activeOf ha
    obtain ⟨hj, -, hpos⟩ := Entry.active_jti hactive
    refine ⟨a.jti, a.ttl_seconds, _, rfl, hpos, fun hjti => ?_⟩
    have heq := h.active he (hj.symm.trans hjti)
    rw [hactive] at heq
    rw [Option.some.inj heq]
  · obtain ⟨e, he, hjti⟩ := hsome
    have ha : (⟨jti, data, e.ttlSeconds⟩ : ActiveSession) ∈ activeOf entries :=
      List.mem_filterMap.mpr ⟨e, he, h.active he hjti⟩
    exact ⟨_, _, List.mem_map_of_mem ha⟩

theorem Copied.standing_afterReading (hmethod : method.rewrites = true) {entries : List Entry}
    (h : Copied jti data entries) (hsome : ∃ e ∈ entries, e.jti = jti) (user : String) :
    Standing method userId jti data (afterReading method user entries) := by
  unfold afterReading
  split
  · exact ⟨h, hsome⟩
  · exact h.standing_pipeline hmethod hsome

/-- A session that is not pruned stays in the index. -/
theorem Copied.mem_srem {entries : List Entry} (h : Copied jti data entries) {r : Redis}
    {user : String} (hmem : jti ∈ r.index userId) :
    jti ∈ (r.exec (.srem user ((staleOf entries).map (·.jti)))).index userId := by
  show jti ∈ (if userId = user then (r.index userId).filter
    (fun j => !((staleOf entries).map (·.jti)).contains j) else r.index userId)
  split
  · refine List.mem_filter.mpr ⟨hmem, ?_⟩
    by_contra hstale
    obtain ⟨e, he, hjti⟩ : ∃ e ∈ staleOf entries, e.jti = jti := by simpa using hstale
    obtain ⟨hmem', hnone⟩ := not_active_of_stale he
    rw [h.active hmem' hjti] at hnone
    cases hnone
  · exact hmem

/-- **One command of a call** leaves the session or writes the change of its method. -/
theorem standing_command {call : Call} (hmethod : call.method.rewrites = true) {r : Redis}
    {expires : Nat} (hmem : jti ∈ r.index userId) (hs : r.session jti = some (data, expires))
    (hlive : (r.live jti).isSome = true) (h : Standing call.method userId jti data call.phase) :
    jti ∈ (command r call).1.index userId ∧ ∃ data' expires',
      (command r call).1.session jti = some (data', expires') ∧
      (data' = data ∨ data' = call.method.update data ∧ call.inHand jti = true) ∧
      Standing call.method userId jti data' (command r call).2.phase := by
  obtain ⟨method, phase⟩ := call
  obtain ⟨hget, hpos⟩ := Redis.read_of_live hs hlive
  cases phase with
  | smembers user =>
      obtain rfl : user = userId := h
      cases hindex : r.index user with
      | nil =>
          rw [hindex] at hmem
          cases hmem
      | cons j todo =>
          simp only [command, hindex]
          rw [hindex] at hmem
          refine ⟨hmem, data, expires, hs, Or.inl rfl, ?_, Or.inl hmem⟩
          intro e he
          cases he
  | get user entries j todo =>
      obtain ⟨hcopied, hsome⟩ := h
      refine ⟨hmem, data, expires, hs, Or.inl rfl, hcopied, ?_, hsome⟩
      rintro rfl
      exact hget
  | ttl user entries j session todo =>
      obtain ⟨hcopied, hsession, hsome⟩ := h
      have hcopied' : Copied jti data (entries ++ [⟨j, session, r.ttl j⟩]) := by
        refine hcopied.append ?_
        rintro rfl
        exact ⟨hsession rfl, hpos⟩
      have hsome' : jti ∈ todo ∨ ∃ e ∈ entries ++ [⟨j, session, r.ttl j⟩], e.jti = jti := by
        rcases hsome with hj | ⟨e, he, hjti⟩
        · rcases List.mem_cons.mp hj with rfl | hj
          · exact Or.inr ⟨_, List.mem_append_right _ (List.mem_singleton_self _), rfl⟩
          · exact Or.inl hj
        · exact Or.inr ⟨e, List.mem_append_left _ he, hjti⟩
      cases todo with
      | cons next todo => exact ⟨hmem, data, expires, hs, Or.inl rfl, hcopied', hsome'⟩
      | nil =>
          have hsome'' := hsome'.resolve_left List.not_mem_nil
          exact ⟨hmem, data, expires, hs, Or.inl rfl,
            hcopied'.standing_afterReading hmethod hsome'' user⟩
  | srem user entries =>
      obtain ⟨hcopied, hsome⟩ := h
      exact ⟨hcopied.mem_srem hmem, data, expires, hs, Or.inl rfl,
        hcopied.standing_pipeline hmethod hsome⟩
  | getRevoked j => exact absurd h not_false
  | pipeline commands =>
      cases commands with
      | nil => exact ⟨hmem, data, expires, hs, Or.inl rfl, h⟩
      | cons c commands =>
          obtain ⟨hcommands, hwritten⟩ := h
          obtain ⟨j, ttlSeconds, d, rfl, hpos', hd⟩ := hcommands c List.mem_cons_self
          have hrest := fun c hc => hcommands c (List.mem_cons_of_mem _ hc)
          simp only [command, Redis.exec_setex r j d hpos']
          by_cases hj : j = jti
          · -- The write of this session.
            subst hj
            obtain rfl : d = method.update data := hd rfl
            refine ⟨hmem, _, _, if_pos rfl, Or.inr ⟨rfl, ?_⟩, ?_, Or.inr ?_⟩
            · simp [Call.inHand, Call.writes, Phase.commands, Command.writes]
            · rw [method.update_idem]
              exact hrest
            · exact method.update_idem data
          · refine ⟨hmem, data, expires, (if_neg (Ne.symm hj)).trans hs, Or.inl rfl, hrest, ?_⟩
            refine hwritten.imp_left ?_
            rintro ⟨ttl', d', hmem'⟩
            rcases List.mem_cons.mp hmem' with heq | hmem'
            · exact absurd (Command.setex.inj heq).1.symm hj
            · exact ⟨ttl', d', hmem'⟩

theorem Phase.got_ttl {user : String} {entries : List Entry} {session : Option SessionData}
    {todo : List String} (h : (Phase.ttl user entries jti session todo).got jti = false) :
    session = none := by
  cases session with
  | none => rfl
  | some d => simp [Phase.got] at h

/-- A call that does not have the session in hand has no entry of it. -/
theorem Copied.not_mem {entries : List Entry} (h : Copied jti data entries)
    (hmethod : method.rewrites = true)
    (hfree : (method.pipeline (activeOf entries)).any (Command.writes jti) = false)
    {e : Entry} (he : e ∈ entries) : e.jti ≠ jti := by
  intro hjti
  rw [any_writes_pipeline, hmethod, Bool.true_and] at hfree
  have hmem : (⟨jti, data, e.ttlSeconds⟩ : ActiveSession) ∈ activeOf entries :=
    List.mem_filterMap.mpr ⟨e, he, h.active he hjti⟩
  have hne := List.any_eq_false.mp hfree _ hmem
  simp at hne

/-- Another call writes the session: one that does not have it in hand stands as before. -/
theorem standing_other {call : Call} (hmethod : call.method.rewrites = true)
    (h : Standing call.method userId jti data call.phase) (hfree : call.inHand jti = false)
    {data' : SessionData}
    (hkeep : call.method.update data = data → call.method.update data' = data') :
    Standing call.method userId jti data' call.phase := by
  obtain ⟨hgot, hwrites⟩ := Bool.or_eq_false_iff.mp hfree
  obtain ⟨hcommands, hentries⟩ := Bool.or_eq_false_iff.mp hwrites
  obtain ⟨method, phase⟩ := call
  have hcopied : Copied jti data phase.entries → Copied jti data' phase.entries :=
    fun hc e he hjti => absurd hjti (hc.not_mem hmethod hentries he)
  cases phase with
  | smembers user => exact h
  | get user entries j todo => exact ⟨hcopied h.1, h.2⟩
  | ttl user entries j session todo =>
      refine ⟨hcopied h.1, ?_, h.2.2⟩
      rintro rfl
      have hnone := Phase.got_ttl hgot
      rw [h.2.1 rfl] at hnone
      cases hnone
  | srem user entries =>
      obtain ⟨hc, e, he, hjti⟩ := h
      exact absurd hjti (hc.not_mem hmethod hentries he)
  | getRevoked j => exact h
  | pipeline commands =>
      obtain ⟨hsetex, hwritten⟩ := h
      have hne : ∀ ttlSeconds d, .setex jti ttlSeconds d ∉ commands := by
        intro ttlSeconds d hmem
        have hno := List.any_eq_false.mp hcommands _ hmem
        simp [Command.writes] at hno
      refine ⟨?_, Or.inr (hkeep (hwritten.resolve_left ?_))⟩
      · intro c hc
        obtain ⟨j, ttlSeconds, d, rfl, hpos, -⟩ := hsetex c hc
        refine ⟨j, ttlSeconds, d, rfl, hpos, ?_⟩
        rintro rfl
        exact absurd hc (hne ttlSeconds d)
      · rintro ⟨ttlSeconds, d, hmem⟩
        exact hne ttlSeconds d hmem

/-- Only the `GET` of the session takes it in hand. -/
theorem inHand_command {call : Call} {r : Redis} (hfree : call.inHand jti = false)
    (hreads : call.reads ≠ some jti) : (command r call).2.inHand jti = false := by
  simp only [Call.inHand, Call.writes, Bool.or_eq_false_iff, any_writes_pipeline] at hfree ⊢
  obtain ⟨method, phase⟩ := call
  obtain ⟨hgot, hcommands, hentries⟩ := hfree
  cases phase with
  | smembers user =>
      cases hindex : r.index user with
      | nil => simp [command, hindex, Phase.got, Phase.commands, Phase.entries, activeOf]
      | cons j todo => simp [command, hindex, Phase.got, Phase.commands, Phase.entries, activeOf]
  | get user entries j todo =>
      have hj : j ≠ jti := fun heq => hreads (congrArg some heq)
      exact ⟨by simp [command, Phase.got, hj], rfl, hentries⟩
  | ttl user entries j session todo =>
      have hnew : (method.rewrites &&
          (activeOf (entries ++ [⟨j, session, r.ttl j⟩])).any (·.jti == jti)) = false := by
        rw [Bool.and_eq_false_iff] at hentries ⊢
        refine hentries.imp_right fun hold => ?_
        rw [activeOf, List.filterMap_append, List.any_append, ← activeOf]
        refine Bool.or_eq_false_iff.mpr ⟨hold, List.any_eq_false.mpr ?_⟩
        intro a ha hjti
        obtain ⟨e, he, hactive⟩ := mem_activeOf ha
        obtain rfl := List.mem_singleton.mp he
        obtain ⟨hj, hsession, -⟩ := Entry.active_jti hactive
        obtain rfl : j = jti := hj.symm.trans (by simpa using hjti)
        rw [Phase.got_ttl hgot] at hsession
        cases hsession
      cases todo with
      | cons next todo => exact ⟨rfl, rfl, hnew⟩
      | nil =>
          simp only [command, afterReading]
          split
          · exact ⟨rfl, rfl, hnew⟩
          · refine ⟨rfl, ?_, by simp [Phase.entries, activeOf]⟩
            rw [Phase.commands, any_writes_pipeline]
            exact hnew
  | srem user entries =>
      refine ⟨rfl, ?_, by simp [command, Phase.entries, activeOf]⟩
      show (method.pipeline (activeOf entries)).any (Command.writes jti) = false
      rw [any_writes_pipeline]
      exact hentries
  | getRevoked j =>
      refine ⟨rfl, ?_, by simp [command, Phase.entries, activeOf]⟩
      cases hj : r.get j <;> simp [command, hj, Phase.commands, Command.writes]
  | pipeline commands =>
      cases commands with
      | nil => exact ⟨hgot, hcommands, hentries⟩
      | cons c commands =>
          rw [Phase.commands, List.any_cons, Bool.or_eq_false_iff] at hcommands
          exact ⟨rfl, hcommands.2, hentries⟩

end OneSession

/-! ## The two calls -/

section TwoCalls

variable (userId jti : String) (perms : Perms) (mustChangePassword : Bool) (data : SessionData)

/-- One of the two calls. -/
def OneOf (method : Method) : Prop :=
  method = .refreshPermissionsForUser userId perms ∨
    method = .setMustChangePasswordForUser userId mustChangePassword

/-- The session after both updates. -/
def updated (session : SessionData) : SessionData :=
  { session with
    roles := perms.roles
    permissions := perms.permissions
    conditional_permissions := perms.conditional_permissions
    must_change_password := mustChangePassword }

/-- The session differs from the one at the start in the two parts that the calls write. -/
def SessionOk (r : Redis) : Prop :=
  jti ∈ r.index userId ∧ ∃ d expires, r.session jti = some (d, expires) ∧
    updated perms mustChangePassword d = updated perms mustChangePassword data

def Stands (r : Redis) (call : Call) : Prop :=
  OneOf userId perms mustChangePassword call.method ∧
    ∀ d expires, r.session jti = some (d, expires) →
      Standing call.method userId jti d call.phase

variable {userId jti perms mustChangePassword data}

theorem OneOf.rewrites {method : Method} (h : OneOf userId perms mustChangePassword method) :
    method.rewrites = true := by
  rcases h with rfl | rfl <;> rfl

theorem OneOf.updated_update {method : Method}
    (h : OneOf userId perms mustChangePassword method) (session : SessionData) :
    updated perms mustChangePassword (method.update session) =
      updated perms mustChangePassword session := by
  rcases h with rfl | rfl <;> rfl

/-- The two updates change different parts of the session. -/
theorem OneOf.update_comm {method method' : Method}
    (h : OneOf userId perms mustChangePassword method)
    (h' : OneOf userId perms mustChangePassword method') (session : SessionData) :
    method.update (method'.update session) = method'.update (method.update session) := by
  rcases h with rfl | rfl <;> rcases h' with rfl | rfl <;> rfl

/-- Two calls of which at most one has the session in hand. -/
def OneInHand (jti : String) (p q : Call) : Prop :=
  p.inHand jti = false ∨ q.inHand jti = false

/-- The steps of the run: no call starts, the session is live, and no call reads it while
another one has it in hand. -/
def StepOf (jti : String) (c : Config) (e : Event) : Prop :=
  (∀ method, e ≠ .start method) ∧ Live jti c e ∧ Apart jti c e

theorem twoCalls_preserved : Interleaving.PreservedPairs store (StepOf jti)
    (SessionOk userId jti perms mustChangePassword data)
    (Stands userId jti perms mustChangePassword) (OneInHand jti) where
  symm := fun _ _ h => h.symm
  start := fun _ method hok => absurd rfl (hok.1 method)
  start_pair := fun _ method _ hok => absurd rfl (hok.1 method)
  command := by
    rintro c i call ⟨-, hlive, -⟩ - ⟨hmem, d, expires, hs, heq⟩ ⟨hone, hstand⟩
    obtain ⟨hmem', d', expires', hs', hd', hstand'⟩ :=
      standing_command hone.rewrites hmem hs hlive (hstand d expires hs)
    refine ⟨⟨hmem', d', expires', hs', ?_⟩, ?_⟩
    · rcases hd' with rfl | ⟨rfl, -⟩
      · exact heq
      · rw [hone.updated_update, heq]
    · show OneOf _ _ _ (command c.shared call).2.method ∧ _
      rw [command_method]
      refine ⟨hone, ?_⟩
      intro d'' expires'' hs''
      obtain ⟨rfl, -⟩ := Prod.mk.inj (Option.some.inj (hs'.symm.trans hs''))
      exact command_method c.shared call ▸ hstand'
  others := by
    rintro c i j call other ⟨-, hlive, hapart⟩ hij hi hj ⟨hmem, d, expires, hs, -⟩
      ⟨hone, hstand⟩ ⟨hone', hstandOther⟩ hpair
    obtain ⟨-, d', expires', hs', hd', -⟩ :=
      standing_command hone.rewrites hmem hs hlive (hstand d expires hs)
    refine ⟨⟨hone', ?_⟩, ?_⟩
    · intro d'' expires'' hs''
      obtain ⟨rfl, -⟩ := Prod.mk.inj (Option.some.inj (hs'.symm.trans hs''))
      have hold := hstandOther d expires hs
      rcases hd' with rfl | ⟨rfl, hhand⟩
      · exact hold
      · -- The call that writes has the session in hand, so the other one has not.
        have hfree : other.inHand jti = false := by
          refine hpair.resolve_left ?_
          rw [hhand]
          exact Bool.noConfusion
        refine standing_other hone'.rewrites hold hfree ?_
        intro hupd
        rw [hone'.update_comm hone, hupd]
    · by_cases hreads : call.reads = some jti
      · obtain ⟨hlt, -⟩ := List.getElem?_eq_some_iff.mp hj
        exact Or.inr (hapart call hi hreads j hlt (Ne.symm hij) other hj)
      · exact hpair.imp_left fun hfree => inHand_command hfree hreads
  surroundings := fun _ _ _ hI => ⟨hI, fun _ _ h => h⟩

/-- The two calls as they start. -/
def twoCalls (userId : String) (perms : Perms) (mustChangePassword : Bool) : List Call :=
  [start (.refreshPermissionsForUser userId perms),
    start (.setMustChangePasswordForUser userId mustChangePassword)]

/-- The session is live in every state of the run. -/
def LiveThroughout (jti : String) (c : Config) (events : List Event) : Prop :=
  AllSteps store (Live jti) c events ∧ ((run store c events).shared.live jti).isSome = true

instance (jti : String) (c : Config) (events : List Event) :
    Decidable (LiveThroughout jti c events) :=
  inferInstanceAs (Decidable (_ ∧ _))

theorem allSteps_stepOf {c : Config} {events : List Event} (hno : NoStart events)
    (hlive : AllSteps store (Live jti) c events) (hapart : AllSteps store (Apart jti) c events) :
    AllSteps store (StepOf jti) c events := by
  induction events generalizing c with
  | nil => trivial
  | cons e events ih =>
      exact ⟨⟨hno e List.mem_cons_self, hlive.1, hapart.1⟩,
        ih (fun e' he' => hno e' (List.mem_cons_of_mem _ he')) hlive.2 hapart.2⟩

/-- A call that has ended has made its change. -/
theorem Stands.update_eq {r : Redis} {call : Call} {d : SessionData} {expires : Nat}
    (h : Stands userId jti perms mustChangePassword r call) (hs : r.session jti = some (d, expires))
    (hended : call.phase = .pipeline []) : call.method.update d = d := by
  have hstand := h.2 d expires hs
  rw [hended] at hstand
  refine hstand.2.resolve_left ?_
  rintro ⟨ttlSeconds, d', hmem⟩
  cases hmem

/-- **Neither update is lost** when no call reads the session while the other has it in hand:
both calls have ended, and a session that was live throughout has the permissions of the one,
the flag of the other, and its other fields as before. -/
theorem both_updates_kept (r : Redis) (userId : String) (perms : Perms)
    (mustChangePassword : Bool) (events : List Event) (hno : NoStart events)
    (hended : Ended (run store ⟨r, twoCalls userId perms mustChangePassword⟩ events))
    (jti : String) (data : SessionData) (hmem : jti ∈ r.index userId)
    (hdata : r.live jti = some data)
    (hlive : LiveThroughout jti ⟨r, twoCalls userId perms mustChangePassword⟩ events)
    (hapart : AllSteps store (Apart jti) ⟨r, twoCalls userId perms mustChangePassword⟩ events) :
    (run store ⟨r, twoCalls userId perms mustChangePassword⟩ events).shared.live jti =
      some (updated perms mustChangePassword data) := by
  have hkeep : Interleaving.Keeps (SessionOk userId jti perms mustChangePassword data)
      (Stands userId jti perms mustChangePassword)
      (run store ⟨r, twoCalls userId perms mustChangePassword⟩ events) := by
    refine (Interleaving.run_keepsPairs twoCalls_preserved
      (allSteps_stepOf hno hlive.1 hapart) ⟨⟨?_, ?_⟩, ?_⟩).1
    · obtain ⟨expires, hs⟩ := Redis.session_of_live hdata
      exact ⟨hmem, data, expires, hs, rfl⟩
    · intro call hcall
      rcases List.mem_pair.mp hcall with rfl | rfl
      · exact ⟨Or.inl rfl, fun _ _ _ => rfl⟩
      · exact ⟨Or.inr rfl, fun _ _ _ => rfl⟩
    · intro i j p q _ hi _
      rcases List.mem_pair.mp (List.mem_of_getElem? hi) with rfl | rfl
      · exact Or.inl rfl
      · exact Or.inl rfl
  obtain ⟨⟨-, d, expires, hs, heq⟩, hcalls⟩ := hkeep
  have hmethods : (run store ⟨r, twoCalls userId perms mustChangePassword⟩ events).calls.map
      Call.method = [.refreshPermissionsForUser userId perms,
        .setMustChangePasswordForUser userId mustChangePassword] := run_methods hno
  have hdone : ∀ method ∈ [Method.refreshPermissionsForUser userId perms,
      .setMustChangePasswordForUser userId mustChangePassword], method.update d = d := by
    intro method hmethod
    rw [← hmethods] at hmethod
    obtain ⟨call, hcall, rfl⟩ := List.mem_map.mp hmethod
    exact (hcalls call hcall).update_eq hs (hended call hcall)
  rw [Redis.live_eq hs hlive.2, ← heq]
  have hperms := hdone _ List.mem_cons_self
  have hflag := hdone _ (List.mem_cons_of_mem _ List.mem_cons_self)
  calc some d
      = some ((Method.setMustChangePasswordForUser userId mustChangePassword).update
          ((Method.refreshPermissionsForUser userId perms).update d)) := by rw [hperms, hflag]
    _ = some (updated perms mustChangePassword d) := rfl

/-! ## Two runs with one session -/

/-- The store after the login of user `u`. -/
def aliceStore : Redis :=
  Redis.create ⟨0, fun _ => none, fun _ => []⟩ "j" aliceSession 3600

/-- One call after the other. -/
def refreshThenSet : List Event :=
  [.advance 0, .advance 0, .advance 0, .advance 0, .surroundings 1000,
    .advance 1, .advance 1, .advance 1, .advance 1]

/-- One call after the other: the session has both updates. -/
theorem both_updates_kept_refreshThenSet :
    (run store ⟨aliceStore, twoCalls "u" ⟨["clerk"], ["order:view"], []⟩ true⟩
      refreshThenSet).shared.live "j" =
        some (updated ⟨["clerk"], ["order:view"], []⟩ true aliceSession) := by
  refine both_updates_kept aliceStore "u" ⟨["clerk"], ["order:view"], []⟩ true refreshThenSet
    ?_ (by decide) "j" aliceSession (by decide) (by decide) (by decide) (by decide)
  intro e he method heq
  subst heq
  simp [refreshThenSet] at he

/-- Both calls read the session before either has written it. -/
def readRead : List Event :=
  [.advance 0, .advance 1, .advance 0, .advance 1, .advance 0, .advance 1, .advance 0,
    .advance 1]

/-- **An update is overwritten.** Both calls have ended and the session was live throughout,
but it has the permissions of before: the call that wrote last had read them. -/
theorem update_overwritten :
    NoStart readRead ∧
    Ended (run store ⟨aliceStore, twoCalls "u" ⟨["clerk"], ["order:view"], []⟩ true⟩ readRead) ∧
    "j" ∈ aliceStore.index "u" ∧ aliceStore.live "j" = some aliceSession ∧
    LiveThroughout "j" ⟨aliceStore, twoCalls "u" ⟨["clerk"], ["order:view"], []⟩ true⟩ readRead ∧
    (run store ⟨aliceStore, twoCalls "u" ⟨["clerk"], ["order:view"], []⟩ true⟩
      readRead).shared.live "j" = some { aliceSession with must_change_password := true } ∧
    { aliceSession with must_change_password := true } ≠
      updated ⟨["clerk"], ["order:view"], []⟩ true aliceSession := by
  refine ⟨?_, by decide⟩
  intro e he method heq
  subst heq
  simp [readRead] at he

end TwoCalls

end ErpApi.Session
