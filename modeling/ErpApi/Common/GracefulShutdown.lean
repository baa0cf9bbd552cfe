import ErpApi.Basic.SequentialRun

set_option autoImplicit false

/-! # The graceful shutdown of a service

On SIGTERM or SIGINT `GracefulShutdownService` notes that the service is shutting down and arms a
timer that forces the process to exit; Nest then runs its hooks, closes the HTTP server and flushes
the traces. `server.close()` resolves when every connection has gone. It closes the idle ones
itself; a connection that is serving a request is destroyed by the service when its response has
been sent.

Whatever arrives in whatever order, no idle connection is left once the server is closing
(`busy_of_closing`), so the shutdown ends by itself as soon as every connection has sent one more
response (`terminates`). A process is forced to exit only when the timeout has run out since the
first signal (`forced_late`).
-/

namespace ErpApi.Shutdown

inductive Signal where
  | SIGTERM
  | SIGINT
  deriving DecidableEq

inductive Stage where
  | running
  /-- Nest calls the destroy hooks; the server still accepts connections. -/
  | hooks
  /-- The server is closing. -/
  | closing
  /-- The server has closed; `onApplicationShutdown` flushes the traces. -/
  | flushing
  /-- Nest has sent the process its signal again, and no listener was left for it. -/
  | terminated
  /-- A listener was left for the signal sent again. -/
  | stuck
  /-- The timer has called `process.exit(1)`. -/
  | forced
  deriving DecidableEq

structure Process where
  now : Nat
  /-- Whether the listener that `process.once` registered is still there. -/
  once : Signal → Bool
  /-- The signal that Nest received first. -/
  received : Option Signal
  shuttingDown : Bool
  forceExitTimer : Option Nat
  stage : Stage
  /-- The connections in the order in which they came, each with the number of its requests that
  have no response yet; `none` for one that has gone. -/
  sockets : List (Option Nat)

inductive Event where
  | signal (s : Signal)
  | connect
  | request (i : Nat)
  /-- The response to the oldest request of a connection has been sent. -/
  | finish (i : Nat)
  | disconnect (i : Nat)
  /-- The hooks have run; Nest closes the server. -/
  | close
  /-- The promise of `server.close()` resolves. -/
  | closed
  | flushed
  | elapse (ms : Nat)
  | timer

/-- The state of a service whose signal handlers are registered. -/
def started : Process where
  now := 0
  once := fun _ => true
  received := none
  shuttingDown := false
  forceExitTimer := none
  stage := .running
  sockets := []

def beginShutdown (shutdownTimeoutMs : Nat) (p : Process) : Process :=
  if p.shuttingDown then p
  else { p with shuttingDown := true, forceExitTimer := some (p.now + shutdownTimeoutMs) }

/-- Nest's own listener: only the first signal starts the shutdown. -/
def cleanup (s : Signal) (p : Process) : Process :=
  match p.received with
  | some _ => p
  | none => { p with received := some s, stage := .hooks }

/-- The listeners of a signal, in the order in which they were registered. -/
def onSignal (shutdownTimeoutMs : Nat) (p : Process) (s : Signal) : Process :=
  let p :=
    if p.once s then
      beginShutdown shutdownTimeoutMs { p with once := Function.update p.once s false }
    else p
  cleanup s p

/-- The `finish` listener: the socket is destroyed, or goes on with the requests behind. -/
def onFinish (p : Process) (i n : Nat) : Process :=
  { p with sockets := p.sockets.set i (if p.shuttingDown then none else some n) }

/-- What `server.close()` does with a connection. -/
def closeIdle : Option Nat → Option Nat
  | some 0 => none
  | socket => socket

def Process.Alive (p : Process) : Prop :=
  p.stage ≠ .terminated ∧ p.stage ≠ .forced

instance (p : Process) : Decidable p.Alive := inferInstanceAs (Decidable (_ ∧ _))

def step (shutdownTimeoutMs : Nat) (p : Process) (e : Event) : Process :=
  if p.Alive then
    match e with
    | .signal s => onSignal shutdownTimeoutMs p s
    | .connect =>
        if p.stage = .running ∨ p.stage = .hooks then { p with sockets := p.sockets ++ [some 0] }
        else p
    | .request i =>
        match p.sockets[i]? with
        | some (some n) => { p with sockets := p.sockets.set i (some (n + 1)) }
        | _ => p
    | .finish i =>
        match p.sockets[i]? with
        | some (some (n + 1)) => onFinish p i n
        | _ => p
    | .disconnect i => { p with sockets := p.sockets.set i none }
    | .close =>
        if p.stage = .hooks then { p with stage := .closing, sockets := p.sockets.map closeIdle }
        else p
    | .closed =>
        if p.stage = .closing ∧ ∀ socket ∈ p.sockets, socket = none then
          { p with stage := .flushing }
        else p
    | .flushed =>
        if p.stage = .flushing then
          { p with
            forceExitTimer := none
            stage := if p.received.all fun s => !p.once s then .terminated else .stuck }
        else p
    | .elapse ms => { p with now := p.now + ms }
    | .timer =>
        if p.forceExitTimer.any fun deadline => decide (deadline ≤ p.now) then
          { p with stage := .forced }
        else p
  else p

def run (shutdownTimeoutMs : Nat) (events : List Event) : Process :=
  Sequential.run (step shutdownTimeoutMs) started events

/-! ## The invariant -/

/-- What every reachable state keeps. -/
structure Inv (p : Process) : Prop where
  /-- The shutdown has begun exactly when Nest has its signal. -/
  begun : p.shuttingDown = p.received.isSome
  signalled : p.stage ≠ .running → p.received.isSome = true
  armed : p.forceExitTimer.isSome = true → p.received.isSome = true
  /-- No listener is left for the signal that Nest sends again. -/
  taken : ∀ s ∈ p.received, p.once s = false
  unsignalled : p.received = none → ∀ s, p.once s = true
  busy : p.stage = .closing → ∀ n ∈ p.sockets, n ≠ some 0
  gone : p.stage = .flushing → ∀ socket ∈ p.sockets, socket = none
  notStuck : p.stage ≠ .stuck

theorem inv_started : Inv started where
  begun := rfl
  signalled := fun h => absurd rfl h
  armed := fun h => by cases h
  taken := fun s h => by cases h
  unsignalled := fun _ _ => rfl
  busy := fun h => by cases h
  gone := fun h => by cases h
  notStuck := by decide

/-- A step that changes connections only, and leaves none idle while the server is closing. -/
theorem Inv.setSockets {p : Process} (h : Inv p) {sockets : List (Option Nat)}
    (hbusy : p.stage = .closing → ∀ n ∈ sockets, n ≠ some 0)
    (hgone : p.stage = .flushing → ∀ socket ∈ sockets, socket = none) :
    Inv { p with sockets := sockets } where
  begun := h.begun
  signalled := h.signalled
  armed := h.armed
  taken := h.taken
  unsignalled := h.unsignalled
  busy := hbusy
  gone := hgone
  notStuck := h.notStuck

/-- The shutdown goes on to another stage. -/
theorem Inv.advance {p p' : Process} (h : Inv p) (hreceived : p.received.isSome = true)
    (hsame : p'.received = p.received ∧ p'.once = p.once ∧ p'.shuttingDown = p.shuttingDown)
    (hbusy : p'.stage = .closing → ∀ n ∈ p'.sockets, n ≠ some 0)
    (hgone : p'.stage = .flushing → ∀ socket ∈ p'.sockets, socket = none)
    (hstuck : p'.stage ≠ .stuck) : Inv p' := by
  obtain ⟨hr, ho, hs⟩ := hsame
  constructor
  · rw [hr, hs]
    exact h.begun
  · rw [hr]
    exact fun _ => hreceived
  · rw [hr]
    exact fun _ => hreceived
  · rw [hr, ho]
    exact h.taken
  · rw [hr, ho]
    exact h.unsignalled
  · exact hbusy
  · exact hgone
  · exact hstuck

/-- One connection changes; while the server is closing it does not become idle. -/
theorem Inv.setSocket {p : Process} (h : Inv p) {i : Nat} {socket : Option Nat}
    (hbusy : p.stage = .closing → socket ≠ some 0)
    (hgone : p.stage = .flushing → socket = none) :
    Inv { p with sockets := p.sockets.set i socket } := by
  refine h.setSockets (fun hstage n hn => ?_) (fun hstage n hn => ?_)
  · rcases List.mem_or_eq_of_mem_set hn with hmem | rfl
    · exact h.busy hstage n hmem
    · exact hbusy hstage
  · rcases List.mem_or_eq_of_mem_set hn with hmem | rfl
    · exact h.gone hstage n hmem
    · exact hgone hstage

theorem inv_onSignal {timeout : Nat} {p : Process} (h : Inv p) (s : Signal) :
    Inv (onSignal timeout p s) := by
  cases hreceived : p.received with
  | none =>
      -- The first signal: its listener is still there, and nothing has begun.
      have hbegun : p.shuttingDown = false := by rw [h.begun, hreceived]; rfl
      have honce : p.once s = true := h.unsignalled hreceived s
      have heq : onSignal timeout p s = { p with
          once := Function.update p.once s false, received := some s, shuttingDown := true
          forceExitTimer := some (p.now + timeout), stage := .hooks } := by
        simp [onSignal, honce, beginShutdown, hbegun, cleanup, hreceived]
      rw [heq]
      constructor
      · rfl
      · exact fun _ => rfl
      · exact fun _ => rfl
      · rintro s' ⟨⟩
        exact Function.update_self ..
      · intro hnone
        cases hnone
      · intro hstage
        cases hstage
      · intro hstage
        cases hstage
      · simp
  | some first =>
      have hbegun : p.shuttingDown = true := by rw [h.begun, hreceived]; rfl
      have heq : onSignal timeout p s = if p.once s then
          { p with once := Function.update p.once s false } else p := by
        unfold onSignal
        split
        · simp [beginShutdown, hbegun, cleanup, hreceived]
        · simp [cleanup, hreceived]
      rw [heq]
      split
      · refine ⟨h.begun, h.signalled, h.armed, fun s' hs' => ?_, fun hnone => ?_, h.busy, h.gone,
          h.notStuck⟩
        · by_cases hs : s' = s
          · rw [hs]
            exact Function.update_self ..
          · exact (Function.update_of_ne hs _ _).trans (h.taken s' hs')
        · rw [show p.received = none from hnone] at hreceived
          cases hreceived
      · exact h

theorem inv_step {timeout : Nat} {p : Process} (h : Inv p) (e : Event) :
    Inv (step timeout p e) := by
  unfold step
  split
  · rename_i halive
    cases e with
    | signal s => exact inv_onSignal h s
    | connect =>
        simp only
        split
        · rename_i hstage
          refine h.setSockets (fun hclosing => ?_) (fun hflushing => ?_)
          · rw [hclosing] at hstage
            simp at hstage
          · rw [hflushing] at hstage
            simp at hstage
        · exact h
    | request i =>
        simp only
        split
        · rename_i n hn
          refine h.setSocket (by simp) (fun hflushing => ?_)
          have hopen := h.gone hflushing _ (List.mem_of_getElem? hn)
          cases hopen
        · exact h
    | finish i =>
        simp only
        split
        · rename_i n hn
          -- Once the server is closing the service is shutting down.
          have hgone : p.stage ≠ .running → (if p.shuttingDown then none else some n) = none := by
            intro hstage
            rw [h.begun, h.signalled hstage, if_pos rfl]
          refine h.setSocket (fun hstage => ?_) (fun hstage => ?_)
          · rw [hgone (by rw [hstage]; decide)]
            simp
          · exact hgone (by rw [hstage]; decide)
        · exact h
    | disconnect i => exact h.setSocket (by simp) (by simp)
    | close =>
        simp only
        split
        · rename_i hstage
          refine h.advance (h.signalled (by rw [hstage]; decide)) ⟨rfl, rfl, rfl⟩
            (fun _ n hn => ?_) (fun hflushing => ?_) (by simp)
          · obtain ⟨socket, -, rfl⟩ := List.mem_map.mp hn
            unfold closeIdle
            split
            · simp
            · rename_i hidle
              exact hidle
          · cases hflushing
        · exact h
    | closed =>
        simp only
        split
        · rename_i hclosed
          refine h.advance (h.signalled (by rw [hclosed.1]; decide)) ⟨rfl, rfl, rfl⟩
            (fun hclosing => ?_) (fun _ => hclosed.2) (by simp)
          cases hclosing
        · exact h
    | flushed =>
        simp only
        split
        · rename_i hstage
          have hnone : (p.received.all fun s => !p.once s) = true := by
            cases hsignal : p.received with
            | none => rfl
            | some s => simp [h.taken s hsignal]
          simp only [hnone, if_true]
          refine h.advance (h.signalled (by rw [hstage]; decide)) ⟨rfl, rfl, rfl⟩
            (fun hclosing => ?_) (fun hflushing => ?_) (by simp)
          · cases hclosing
          · cases hflushing
        · exact h
    | elapse ms =>
        exact ⟨h.begun, h.signalled, h.armed, h.taken, h.unsignalled, h.busy, h.gone, h.notStuck⟩
    | timer =>
        simp only
        split
        · rename_i hdue
          have harmed : p.forceExitTimer.isSome = true := by
            cases htimer : p.forceExitTimer with
            | none => rw [htimer] at hdue; cases hdue
            | some deadline => rfl
          refine h.advance (h.armed harmed) ⟨rfl, rfl, rfl⟩ (fun hclosing => ?_)
            (fun hflushing => ?_) (by simp)
          · cases hclosing
          · cases hflushing
        · exact h
  · exact h

theorem inv_run (timeout : Nat) (events : List Event) : Inv (run timeout events) :=
  Sequential.run_keeps (P := Inv) (fun _ e h => inv_step h e) inv_started events

/-- In every run, while the server is closing every connection that is left serves a request. -/
theorem busy_of_closing (timeout : Nat) (events : List Event)
    (hstage : (run timeout events).stage = .closing) :
    ∀ socket ∈ (run timeout events).sockets, socket = none ∨ ∃ n, socket = some (n + 1) := by
  intro socket hmem
  have hbusy := (inv_run timeout events).busy hstage socket hmem
  cases socket with
  | none => exact .inl rfl
  | some n =>
      cases n with
      | zero => exact absurd rfl hbusy
      | succ n => exact .inr ⟨n, rfl⟩

/-! ## The end of the shutdown -/

theorem alive_of_closing {p : Process} (h : p.stage = .closing) : p.Alive := by
  unfold Process.Alive
  rw [h]
  exact ⟨by decide, by decide⟩

/-- While the server is closing, a response takes its connection along. -/
theorem step_finish {timeout : Nat} {p : Process} (h : Inv p) (hstage : p.stage = .closing)
    (i : Nat) : step timeout p (.finish i) = { p with sockets := p.sockets.set i none } := by
  have hbegun : p.shuttingDown = true := by
    rw [h.begun]
    exact h.signalled (by rw [hstage]; decide)
  unfold step
  rw [if_pos (alive_of_closing hstage)]
  cases hsocket : p.sockets[i]? with
  | none =>
      have hpast : p.sockets.set i none = p.sockets :=
        List.set_eq_of_length_le (List.getElem?_eq_none_iff.mp hsocket)
      simp [hsocket, hpast]
  | some socket =>
      cases socket with
      | none =>
          obtain ⟨hlt, hi⟩ := List.getElem?_eq_some_iff.mp hsocket
          have hsame : p.sockets.set i none = p.sockets := by
            conv_lhs => rw [← hi]
            exact List.set_getElem_self hlt
          simp [hsocket, hsame]
      | some n =>
          cases n with
          | zero => exact absurd rfl (h.busy hstage _ (List.mem_of_getElem? hsocket))
          | succ n => simp [hsocket, onFinish, hbegun]

/-- A response on each of the listed connections takes these along and leaves the others. -/
theorem run_finish (timeout : Nat) (is : List Nat) {p : Process} (h : Inv p)
    (hstage : p.stage = .closing) :
    ∃ sockets, Sequential.run (step timeout) p (is.map .finish) = { p with sockets := sockets } ∧
      ∀ j, sockets[j]? =
        if j ∈ is then (p.sockets[j]?).map fun _ => none else p.sockets[j]? := by
  induction is generalizing p with
  | nil => exact ⟨p.sockets, rfl, fun j => by simp⟩
  | cons i is ih =>
      have hnext : Inv { p with sockets := p.sockets.set i none } := by
        have hstep : Inv (step timeout p (.finish i)) := inv_step h _
        rwa [step_finish h hstage] at hstep
      obtain ⟨sockets, hrun, hgone⟩ := ih hnext hstage
      refine ⟨sockets, ?_, fun j => ?_⟩
      · rw [List.map_cons, Sequential.run_cons, step_finish h hstage]
        exact hrun
      · have hset : (p.sockets.set i none)[j]? =
            if i = j then (p.sockets[j]?).map fun _ => none else p.sockets[j]? :=
          List.getElem?_set'
        rw [hgone j, hset]
        by_cases hij : i = j
        · subst hij
          cases p.sockets[i]? <;> simp
        · by_cases hj : j ∈ is
          · simp [hij, hj]
          · simp [hij, hj, Ne.symm hij]

/-- One response on every connection. -/
def responses (p : Process) : List Event := (List.range p.sockets.length).map .finish

/-- From every reachable state in which the server is closing: when every connection has sent one
more response, the server has closed, and after the flush the process ends by its signal with the
timer cleared. -/
theorem terminates (timeout : Nat) (events : List Event)
    (hstage : (run timeout events).stage = .closing) :
    (run timeout (events ++ responses (run timeout events) ++ [.closed, .flushed])).stage =
        .terminated ∧
      (run timeout (events ++ responses (run timeout events) ++ [.closed, .flushed])).forceExitTimer
        = none := by
  have hinv := inv_run timeout events
  obtain ⟨sockets, hrun, hgone⟩ := run_finish timeout
    (List.range (run timeout events).sockets.length) hinv hstage
  have hall : ∀ socket ∈ sockets, socket = none := by
    intro socket hsocket
    obtain ⟨j, hj⟩ := List.getElem?_of_mem hsocket
    rw [hgone j] at hj
    split at hj
    · obtain ⟨_, -, hnone⟩ := Option.map_eq_some_iff.mp hj
      exact hnone.symm
    · rename_i hpast
      have hlen : (run timeout events).sockets[j]? = none :=
        List.getElem?_eq_none (by simpa using hpast)
      rw [hlen] at hj
      cases hj
  have hdrained : run timeout (events ++ responses (run timeout events)) =
      { run timeout events with sockets := sockets } := by
    rw [run, Sequential.run_append]
    exact hrun
  have hclosed : step timeout { run timeout events with sockets := sockets } .closed =
      { run timeout events with stage := .flushing, sockets := sockets } := by
    have halive : Process.Alive { run timeout events with sockets := sockets } :=
      alive_of_closing hstage
    unfold step
    rw [if_pos halive]
    exact if_pos ⟨hstage, hall⟩
  have htaken : ((run timeout events).received.all fun s => !(run timeout events).once s) =
      true := by
    cases hsignal : (run timeout events).received with
    | none => rfl
    | some s => simp [hinv.taken s hsignal]
  rw [run, Sequential.run_append]
  change (step timeout (step timeout (run timeout (events ++ responses _)) .closed)
      .flushed).stage = _ ∧ (step timeout (step timeout (run timeout (events ++ responses _))
      .closed) .flushed).forceExitTimer = _
  rw [hdrained, hclosed]
  simp [step, Process.Alive, htaken]

/-! ## The forced exit -/

/-- The time that passes during the events. -/
def elapsed : List Event → Nat
  | [] => 0
  | .elapse ms :: events => ms + elapsed events
  | _ :: events => elapsed events

/-- The timer of the service, once armed, is due at the deadline or has been cleared. -/
structure Timed (deadline : Nat) (p : Process) : Prop where
  begun : p.shuttingDown = true
  timer : ∀ d ∈ p.forceExitTimer, d = deadline
  forced : p.stage = .forced → deadline ≤ p.now

theorem onSignal_begun (timeout : Nat) {p : Process} (hbegun : p.shuttingDown = true) (s : Signal) :
    (onSignal timeout p s).shuttingDown = true ∧
      (onSignal timeout p s).forceExitTimer = p.forceExitTimer ∧
      (onSignal timeout p s).now = p.now ∧
      ((onSignal timeout p s).stage = p.stage ∨ (onSignal timeout p s).stage = .hooks) := by
  unfold onSignal cleanup
  cases hreceived : p.received with
  | none =>
      split
      · simp [beginShutdown, hbegun]
      · simp [hbegun, hreceived]
  | some first =>
      split
      · simp [beginShutdown, hbegun]
      · simp [hbegun, hreceived]

theorem timed_step {deadline timeout : Nat} {p : Process} (h : Timed deadline p) (e : Event) :
    Timed deadline (step timeout p e) := by
  unfold step
  split
  · rename_i halive
    cases e with
    | signal s =>
        obtain ⟨hbegun, htimer, hnow, hstage⟩ := onSignal_begun timeout h.begun s
        refine ⟨hbegun, ?_, fun hforced => ?_⟩
        · rw [htimer]
          exact h.timer
        · rcases hstage with hsame | hhooks
          · exact absurd (hsame.symm.trans hforced) halive.2
          · exact absurd (hhooks.symm.trans hforced) (by decide)
    | connect =>
        simp only
        split
        · exact ⟨h.begun, h.timer, h.forced⟩
        · exact h
    | request i =>
        simp only
        split
        · exact ⟨h.begun, h.timer, h.forced⟩
        · exact h
    | finish i =>
        simp only
        split
        · exact ⟨h.begun, h.timer, h.forced⟩
        · exact h
    | disconnect i => exact ⟨h.begun, h.timer, h.forced⟩
    | close =>
        simp only
        split
        · exact ⟨h.begun, h.timer, fun hforced => by cases hforced⟩
        · exact h
    | closed =>
        simp only
        split
        · exact ⟨h.begun, h.timer, fun hforced => by cases hforced⟩
        · exact h
    | flushed =>
        simp only
        split
        · refine ⟨h.begun, ?_, fun hforced => ?_⟩
          · rintro d ⟨⟩
          · simp only at hforced
            split at hforced <;> cases hforced
        · exact h
    | elapse ms =>
        exact ⟨h.begun, h.timer, fun hforced =>
          Nat.le_trans (h.forced hforced) (Nat.le_add_right ..)⟩
    | timer =>
        simp only
        split
        · rename_i hdue
          refine ⟨h.begun, h.timer, fun _ => ?_⟩
          cases htimer : p.forceExitTimer with
          | none =>
              rw [htimer] at hdue
              cases hdue
          | some d =>
              rw [htimer] at hdue
              obtain rfl := h.timer d htimer
              exact of_decide_eq_true hdue
        · exact h
  · exact h

theorem onSignal_now (timeout : Nat) (p : Process) (s : Signal) :
    (onSignal timeout p s).now = p.now := by
  have hcleanup : ∀ q : Process, (cleanup s q).now = q.now := by
    intro q
    unfold cleanup
    split <;> rfl
  have hbegin : ∀ q : Process, (beginShutdown timeout q).now = q.now := by
    intro q
    unfold beginShutdown
    split <;> rfl
  unfold onSignal
  rw [hcleanup]
  split
  · exact hbegin _
  · rfl

/-- A step takes no more time than its event says. -/
theorem now_step_le (timeout : Nat) (p : Process) (e : Event) (events : List Event) :
    (step timeout p e).now + elapsed events ≤ p.now + elapsed (e :: events) := by
  have hsame : (step timeout p e).now = p.now ∨ ∃ ms, e = .elapse ms ∧
      (step timeout p e).now = p.now + ms := by
    unfold step
    split
    · cases e with
      | signal s => exact .inl (onSignal_now ..)
      | elapse ms => exact .inr ⟨ms, rfl, rfl⟩
      | connect => left; simp only; split <;> rfl
      | request i => left; simp only; split <;> rfl
      | finish i => left; simp only; split <;> rfl
      | disconnect i => exact .inl rfl
      | close => left; simp only; split <;> rfl
      | closed => left; simp only; split <;> rfl
      | flushed => left; simp only; split <;> rfl
      | timer => left; simp only; split <;> rfl
    · exact .inl rfl
  rcases hsame with hsame | ⟨ms, rfl, hms⟩
  · have hle : elapsed events ≤ elapsed (e :: events) := by
      cases e <;> simp [elapsed]
    omega
  · simp only [elapsed]
    omega

theorem now_run_le (timeout : Nat) (events : List Event) (p : Process) :
    (Sequential.run (step timeout) p events).now ≤ p.now + elapsed events := by
  induction events generalizing p with
  | nil => exact Nat.le_refl _
  | cons e events ih =>
      calc (Sequential.run (step timeout) p (e :: events)).now
          ≤ (step timeout p e).now + elapsed events := ih (step timeout p e)
        _ ≤ p.now + elapsed (e :: events) := now_step_le timeout p e events

/-- In every run, the process is forced to exit only when the timeout has passed since the first
signal, whatever other signals came. -/
theorem forced_late (timeout : Nat) (before after : List Event) (s : Signal)
    (hfirst : (run timeout before).received = none) (halive : (run timeout before).Alive)
    (hforced : (run timeout (before ++ .signal s :: after)).stage = .forced) :
    timeout ≤ elapsed after := by
  have hinv := inv_run timeout before
  have hbegun : (run timeout before).shuttingDown = false := by rw [hinv.begun, hfirst]; rfl
  have honce : (run timeout before).once s = true := hinv.unsignalled hfirst s
  have hsignal : step timeout (run timeout before) (.signal s) =
      { run timeout before with
        once := Function.update (run timeout before).once s false
        received := some s
        shuttingDown := true
        forceExitTimer := some ((run timeout before).now + timeout)
        stage := .hooks } := by
    simp [step, halive, onSignal, honce, beginShutdown, hbegun, cleanup, hfirst]
  have htimed : Timed ((run timeout before).now + timeout)
      (step timeout (run timeout before) (.signal s)) := by
    rw [hsignal]
    refine ⟨rfl, ?_, fun hstage => by cases hstage⟩
    rintro d ⟨⟩
    rfl
  have hend : run timeout (before ++ .signal s :: after) =
      Sequential.run (step timeout) (step timeout (run timeout before) (.signal s)) after := by
    rw [run, Sequential.run_append]
    rfl
  rw [hend] at hforced
  have hrun : Timed ((run timeout before).now + timeout)
      (Sequential.run (step timeout) (step timeout (run timeout before) (.signal s)) after) :=
    Sequential.run_keeps (P := Timed _) (fun _ e h => timed_step h e) htimed after
  have hlate := hrun.forced hforced
  have hnow := now_run_le timeout after (step timeout (run timeout before) (.signal s))
  have hstart : (step timeout (run timeout before) (.signal s)).now = (run timeout before).now := by
    rw [hsignal]
  omega

/-! A request is under way when the signal comes; its response is the last one. -/

def drained : List Event :=
  [.connect, .connect, .request 0, .signal .SIGTERM, .close]

theorem terminates_drained :
    (run 30000 (drained ++ responses (run 30000 drained) ++ [.closed, .flushed])).stage =
        .terminated ∧
      (run 30000 (drained ++ responses (run 30000 drained) ++ [.closed, .flushed])).forceExitTimer
        = none :=
  terminates 30000 drained (by decide)

theorem forced_late_hung :
    30000 ≤ elapsed [.close, .elapse 29000, .signal .SIGTERM, .elapse 1000, .timer] :=
  forced_late 30000 [.connect, .request 0] [.close, .elapse 29000, .signal .SIGTERM, .elapse 1000,
    .timer] .SIGTERM (by decide) (by decide) (by decide)

end ErpApi.Shutdown
