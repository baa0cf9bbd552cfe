import Mathlib.Data.List.Basic
import Mathlib.Logic.Function.Iterate

set_option autoImplicit false

/-! # Interleaved calls over a shared state

Calls run concurrently on a shared state. Each command of a call is atomic; between two
commands of one call any commands of other calls may run. A configuration is the shared state
with the local states of the calls, an event starts a call, lets one call perform its next
command, or is a step of the surroundings (a clock, say). A run is a list of events, so every
interleaving is one.

An invariant that speaks about the shared state and about each call on its own is proved
with `run_keeps`: one command has to keep it for the call that performs it and for the
others. Where the calls must not get into each other's way, `run_keepsPairs` adds a relation
between every two of them.
-/

namespace ErpApi.Interleaving

variable {σ π ρ ι : Type}

/-- The local state of a call that starts, what a call does in one command, and what the
surroundings do. A call may note the shared state in which it starts. -/
structure System (σ π ρ ι : Type) where
  start : σ → ρ → π
  command : σ → π → σ × π
  surroundings : σ → ι → σ

structure Config (σ π : Type) where
  shared : σ
  calls : List π

inductive Event (ρ ι : Type) where
  | start (request : ρ)
  /-- The call started as number `i` performs its next command. -/
  | advance (i : Nat)
  | surroundings (x : ι)

def step (sys : System σ π ρ ι) (c : Config σ π) : Event ρ ι → Config σ π
  | .start request => ⟨c.shared, c.calls ++ [sys.start c.shared request]⟩
  | .advance i =>
      match c.calls[i]? with
      | none => c
      | some call =>
          ⟨(sys.command c.shared call).1, c.calls.set i (sys.command c.shared call).2⟩
  | .surroundings x => ⟨sys.surroundings c.shared x, c.calls⟩

def run (sys : System σ π ρ ι) (c : Config σ π) (events : List (Event ρ ι)) : Config σ π :=
  events.foldl (step sys) c

/-- Every step of the run satisfies `ok` in the configuration before it. -/
def AllSteps (sys : System σ π ρ ι) (ok : Config σ π → Event ρ ι → Prop) :
    Config σ π → List (Event ρ ι) → Prop
  | _, [] => True
  | c, e :: events => ok c e ∧ AllSteps sys ok (step sys c e) events

instance decidableAllSteps (sys : System σ π ρ ι) (ok : Config σ π → Event ρ ι → Prop)
    [∀ c e, Decidable (ok c e)] :
    (c : Config σ π) → (events : List (Event ρ ι)) → Decidable (AllSteps sys ok c events)
  | _, [] => .isTrue trivial
  | c, e :: events =>
      have := decidableAllSteps sys ok (step sys c e) events
      inferInstanceAs (Decidable (_ ∧ _))

section Run

variable (sys : System σ π ρ ι)

@[simp] theorem run_nil (c : Config σ π) : run sys c [] = c := rfl

@[simp] theorem run_cons (c : Config σ π) (e : Event ρ ι) (events : List (Event ρ ι)) :
    run sys c (e :: events) = run sys (step sys c e) events := rfl

theorem run_append (c : Config σ π) (es fs : List (Event ρ ι)) :
    run sys c (es ++ fs) = run sys (run sys c es) fs :=
  List.foldl_append

theorem allSteps_append {ok : Config σ π → Event ρ ι → Prop} {c : Config σ π}
    {es fs : List (Event ρ ι)} :
    AllSteps sys ok c (es ++ fs) ↔
      AllSteps sys ok c es ∧ AllSteps sys ok (run sys c es) fs := by
  induction es generalizing c with
  | nil => simp [AllSteps]
  | cons e es ih => simp only [List.cons_append, AllSteps, ih, run_cons, and_assoc]

theorem allSteps_mono {ok ok' : Config σ π → Event ρ ι → Prop} (himp : ∀ c e, ok c e → ok' c e)
    {c : Config σ π} {events : List (Event ρ ι)} (h : AllSteps sys ok c events) :
    AllSteps sys ok' c events := by
  induction events generalizing c with
  | nil => trivial
  | cons e events ih => exact ⟨himp c e h.1, ih h.2⟩

theorem allSteps_and {ok ok' : Config σ π → Event ρ ι → Prop} {c : Config σ π}
    {events : List (Event ρ ι)} (h : AllSteps sys ok c events) (h' : AllSteps sys ok' c events) :
    AllSteps sys (fun c e => ok c e ∧ ok' c e) c events := by
  induction events generalizing c with
  | nil => trivial
  | cons e events ih => exact ⟨⟨h.1, h'.1⟩, ih h.2 h'.2⟩

/-- A condition on the events alone. -/
theorem allSteps_of_forall {ok : Config σ π → Event ρ ι → Prop} (c : Config σ π)
    {events : List (Event ρ ι)} (h : ∀ e ∈ events, ∀ c, ok c e) : AllSteps sys ok c events := by
  induction events generalizing c with
  | nil => trivial
  | cons e events ih =>
      obtain ⟨hfirst, hrest⟩ := List.forall_mem_cons.mp h
      exact ⟨hfirst c, ih _ hrest⟩

/-- A property that every allowed step keeps holds after a run of allowed steps. -/
theorem run_invariant {ok : Config σ π → Event ρ ι → Prop} {Inv : Config σ π → Prop}
    (hstep : ∀ c e, ok c e → Inv c → Inv (step sys c e)) {c : Config σ π}
    {events : List (Event ρ ι)} (hok : AllSteps sys ok c events) (h : Inv c) :
    Inv (run sys c events) := by
  induction events generalizing c with
  | nil => exact h
  | cons e events ih => exact ih hok.2 (hstep c e hok.1 h)

/-- Where the allowed steps keep an invariant, every step of a run of them has what follows from
it. -/
theorem allSteps_of_invariant {ok ok' : Config σ π → Event ρ ι → Prop} {Inv : Config σ π → Prop}
    (hstep : ∀ c e, ok c e → Inv c → Inv (step sys c e))
    (hthen : ∀ c e, ok c e → Inv c → ok' c e) {c : Config σ π} {events : List (Event ρ ι)}
    (hok : AllSteps sys ok c events) (h : Inv c) : AllSteps sys ok' c events := by
  induction events generalizing c with
  | nil => trivial
  | cons e events ih => exact ⟨hthen c e hok.1 h, ih hok.2 (hstep c e hok.1 h)⟩

end Run

/-! ## A call on its own -/

/-- The commands of one call without interruption. -/
def alone (sys : System σ π ρ ι) (p : σ × π) : σ × π := sys.command p.1 p.2

theorem run_last_alone (sys : System σ π ρ ι) (calls : List π) (n : Nat) (s : σ) (call : π) :
    run sys ⟨s, calls ++ [call]⟩ (List.replicate n (.advance calls.length)) =
      ⟨((alone sys)^[n] (s, call)).1, calls ++ [((alone sys)^[n] (s, call)).2]⟩ := by
  induction n generalizing s call with
  | zero => rfl
  | succ n ih =>
      have hstep : step sys ⟨s, calls ++ [call]⟩ (.advance calls.length) =
          ⟨(sys.command s call).1, calls ++ [(sys.command s call).2]⟩ := by
        simp [step]
      rw [List.replicate_succ, run_cons, hstep, ih, Function.iterate_succ_apply]
      rfl

/-- A call that starts and performs `n` commands before any other call does. -/
theorem run_start_alone (sys : System σ π ρ ι) (c : Config σ π) (request : ρ) (n : Nat) :
    run sys c (.start request :: List.replicate n (.advance c.calls.length)) =
      ⟨((alone sys)^[n] (c.shared, sys.start c.shared request)).1,
        c.calls ++ [((alone sys)^[n] (c.shared, sys.start c.shared request)).2]⟩ := by
  rw [run_cons]
  exact run_last_alone sys c.calls n c.shared (sys.start c.shared request)

/-- A property that one command keeps holds after any number of commands. -/
theorem alone_invariant {sys : System σ π ρ ι} {Inv : σ → π → Prop}
    (hstep : ∀ s call, Inv s call → Inv (sys.command s call).1 (sys.command s call).2)
    {s : σ} {call : π} (h : Inv s call) (n : Nat) :
    Inv ((alone sys)^[n] (s, call)).1 ((alone sys)^[n] (s, call)).2 := by
  induction n generalizing s call with
  | zero => exact h
  | succ n ih =>
      rw [Function.iterate_succ_apply]
      exact ih (hstep s call h)

/-- A property of the shared state together with a property of each call. -/
def Keeps (I : σ → Prop) (J : σ → π → Prop) (c : Config σ π) : Prop :=
  I c.shared ∧ ∀ call ∈ c.calls, J c.shared call

/-- What each kind of step has to preserve for `Keeps` to be an invariant. -/
structure Preserved (sys : System σ π ρ ι) (ok : Config σ π → Event ρ ι → Prop)
    (I : σ → Prop) (J : σ → π → Prop) : Prop where
  start : ∀ c request, ok c (.start request) → I c.shared →
    J c.shared (sys.start c.shared request)
  command : ∀ c i call, ok c (.advance i) → c.calls[i]? = some call →
    I c.shared → J c.shared call →
    I (sys.command c.shared call).1 ∧
      J (sys.command c.shared call).1 (sys.command c.shared call).2
  /-- A command of one call does not disturb another call. -/
  others : ∀ c i j call other, ok c (.advance i) → i ≠ j → c.calls[i]? = some call →
    c.calls[j]? = some other → I c.shared → J c.shared call → J c.shared other →
    J (sys.command c.shared call).1 other
  surroundings : ∀ c x, ok c (.surroundings x) → I c.shared →
    I (sys.surroundings c.shared x) ∧
      ∀ call ∈ c.calls, J c.shared call → J (sys.surroundings c.shared x) call

/-- Every two calls are in the relation. -/
def Pairs (R : π → π → Prop) (calls : List π) : Prop :=
  ∀ (i j : Nat) (p q : π), i ≠ j → calls[i]? = some p → calls[j]? = some q → R p q

theorem pairs_nil (R : π → π → Prop) : Pairs R [] := by
  intro i j p q _ hp
  cases hp

theorem Pairs.append {R : π → π → Prop} (hsymm : ∀ p q, R p q → R q p) {calls : List π} {new : π}
    (h : Pairs R calls) (hnew : ∀ p ∈ calls, R p new) : Pairs R (calls ++ [new]) := by
  intro i j p q hij hp hq
  have hold : ∀ {k r}, (calls ++ [new])[k]? = some r → k < calls.length ∧ calls[k]? = some r ∨
      k = calls.length ∧ r = new := by
    intro k r hr
    rcases Nat.lt_or_ge k calls.length with hlt | hge
    · rw [List.getElem?_append_left hlt] at hr
      exact Or.inl ⟨hlt, hr⟩
    · rw [List.getElem?_append_right hge] at hr
      obtain ⟨hk, hr⟩ := List.getElem?_eq_some_iff.mp hr
      have hzero : k - calls.length = 0 := by simpa using hk
      exact Or.inr ⟨by omega, by simpa [hzero] using hr.symm⟩
  rcases hold hp with ⟨-, hp'⟩ | ⟨hi, rfl⟩
  · rcases hold hq with ⟨-, hq'⟩ | ⟨-, rfl⟩
    · exact h i j p q hij hp' hq'
    · exact hnew p (List.mem_of_getElem? hp')
  · rcases hold hq with ⟨-, hq'⟩ | ⟨hj, -⟩
    · exact hsymm _ _ (hnew q (List.mem_of_getElem? hq'))
    · omega

/-- What is at a place of the calls after one of them has changed. -/
theorem getElem?_set_cases {calls : List π} {i k : Nat} {call' r : π}
    (h : (calls.set i call')[k]? = some r) : i = k ∧ r = call' ∨ i ≠ k ∧ calls[k]? = some r := by
  rw [List.getElem?_set] at h
  by_cases hik : i = k
  · rw [if_pos hik] at h
    split at h
    · exact Or.inl ⟨hik, (Option.some.inj h).symm⟩
    · cases h
  · rw [if_neg hik] at h
    exact Or.inr ⟨hik, h⟩

theorem Pairs.set {R : π → π → Prop} (hsymm : ∀ p q, R p q → R q p) {calls : List π} {i : Nat}
    {call' : π} (h : Pairs R calls)
    (hnew : ∀ j other, i ≠ j → calls[j]? = some other → R call' other) :
    Pairs R (calls.set i call') := by
  intro j k p q hjk hp hq
  rcases getElem?_set_cases hp with ⟨hj, rfl⟩ | ⟨hj, hp'⟩
  · rcases getElem?_set_cases hq with ⟨hk, -⟩ | ⟨hk, hq'⟩
    · omega
    · exact hnew k q hk hq'
  · rcases getElem?_set_cases hq with ⟨-, rfl⟩ | ⟨-, hq'⟩
    · exact hsymm _ _ (hnew j p hj hp')
    · exact h j k p q hjk hp' hq'

/-- What each kind of step has to preserve for `Keeps` to be an invariant together with a
relation between every two calls. -/
structure PreservedPairs (sys : System σ π ρ ι) (ok : Config σ π → Event ρ ι → Prop)
    (I : σ → Prop) (J : σ → π → Prop) (R : π → π → Prop) : Prop where
  symm : ∀ p q, R p q → R q p
  start : ∀ c request, ok c (.start request) → I c.shared →
    J c.shared (sys.start c.shared request)
  start_pair : ∀ c request call, ok c (.start request) → call ∈ c.calls →
    R call (sys.start c.shared request)
  command : ∀ c i call, ok c (.advance i) → c.calls[i]? = some call →
    I c.shared → J c.shared call →
    I (sys.command c.shared call).1 ∧
      J (sys.command c.shared call).1 (sys.command c.shared call).2
  /-- A command of one call does not disturb another call. -/
  others : ∀ c i j call other, ok c (.advance i) → i ≠ j → c.calls[i]? = some call →
    c.calls[j]? = some other → I c.shared → J c.shared call → J c.shared other → R call other →
    J (sys.command c.shared call).1 other ∧ R (sys.command c.shared call).2 other
  surroundings : ∀ c x, ok c (.surroundings x) → I c.shared →
    I (sys.surroundings c.shared x) ∧
      ∀ call ∈ c.calls, J c.shared call → J (sys.surroundings c.shared x) call

theorem step_keepsPairs {sys : System σ π ρ ι} {ok : Config σ π → Event ρ ι → Prop}
    {I : σ → Prop} {J : σ → π → Prop} {R : π → π → Prop} (hp : PreservedPairs sys ok I J R)
    (c : Config σ π) (e : Event ρ ι) (hok : ok c e) (h : Keeps I J c ∧ Pairs R c.calls) :
    Keeps I J (step sys c e) ∧ Pairs R (step sys c e).calls := by
  obtain ⟨⟨hI, hJ⟩, hR⟩ := h
  cases e with
  | start request =>
      refine ⟨⟨hI, fun p hmem => ?_⟩, hR.append hp.symm (hp.start_pair c request · hok)⟩
      rcases List.mem_append.mp hmem with hold | hnew
      · exact hJ p hold
      · rw [List.mem_singleton.mp hnew]
        exact hp.start c request hok hI
  | advance i =>
      cases hi : c.calls[i]? with
      | none =>
          simp only [step, hi]
          exact ⟨⟨hI, hJ⟩, hR⟩
      | some call =>
          have hcall : J c.shared call := hJ call (List.mem_of_getElem? hi)
          obtain ⟨hI', hself⟩ := hp.command c i call hok hi hI hcall
          have hothers : ∀ j other, i ≠ j → c.calls[j]? = some other →
              J (sys.command c.shared call).1 other ∧ R (sys.command c.shared call).2 other :=
            fun j other hij hj => hp.others c i j call other hok hij hi hj hI hcall
              (hJ other (List.mem_of_getElem? hj)) (hR i j call other hij hi hj)
          simp only [step, hi]
          refine ⟨⟨hI', fun p hmem => ?_⟩,
            hR.set hp.symm fun j other hij hj => (hothers j other hij hj).2⟩
          obtain ⟨j, hj⟩ := List.mem_iff_getElem?.mp hmem
          rcases getElem?_set_cases hj with ⟨-, rfl⟩ | ⟨hij, hj⟩
          · exact hself
          · exact (hothers j p hij hj).1
  | surroundings x =>
      obtain ⟨hI', hrest⟩ := hp.surroundings c x hok hI
      exact ⟨⟨hI', fun p hp' => hrest p hp' (hJ p hp')⟩, hR⟩

/-- **The invariant rule for interleaved calls that are related in pairs.** -/
theorem run_keepsPairs {sys : System σ π ρ ι} {ok : Config σ π → Event ρ ι → Prop}
    {I : σ → Prop} {J : σ → π → Prop} {R : π → π → Prop} (hp : PreservedPairs sys ok I J R)
    {c : Config σ π} {events : List (Event ρ ι)} (hok : AllSteps sys ok c events)
    (h : Keeps I J c ∧ Pairs R c.calls) :
    Keeps I J (run sys c events) ∧ Pairs R (run sys c events).calls :=
  run_invariant sys (step_keepsPairs hp) hok h

/-- Calls that need no relation. -/
theorem Preserved.pairs {sys : System σ π ρ ι} {ok : Config σ π → Event ρ ι → Prop}
    {I : σ → Prop} {J : σ → π → Prop} (hp : Preserved sys ok I J) :
    PreservedPairs sys ok I J fun _ _ => True where
  symm := fun _ _ _ => trivial
  start := hp.start
  start_pair := fun _ _ _ _ _ => trivial
  command := hp.command
  others := fun c i j call other hok hij hi hj hI hcall hother _ =>
    ⟨hp.others c i j call other hok hij hi hj hI hcall hother, trivial⟩
  surroundings := hp.surroundings

theorem step_keeps {sys : System σ π ρ ι} {ok : Config σ π → Event ρ ι → Prop} {I : σ → Prop}
    {J : σ → π → Prop} (hp : Preserved sys ok I J) (c : Config σ π) (e : Event ρ ι)
    (hok : ok c e) (h : Keeps I J c) : Keeps I J (step sys c e) :=
  (step_keepsPairs hp.pairs c e hok ⟨h, fun _ _ _ _ _ _ _ => trivial⟩).1

/-- **The invariant rule for interleaved calls.** -/
theorem run_keeps {sys : System σ π ρ ι} {ok : Config σ π → Event ρ ι → Prop} {I : σ → Prop}
    {J : σ → π → Prop} (hp : Preserved sys ok I J) {c : Config σ π}
    {events : List (Event ρ ι)} (hok : AllSteps sys ok c events) (h : Keeps I J c) :
    Keeps I J (run sys c events) :=
  run_invariant sys (step_keeps hp) hok h

/-! ## At most one call -/

/-- A call that changes its local state stays the only one with a property if it had the
property before or if nobody had it. -/
theorem countP_set_le_one {P : π → Bool} {calls : List π} {i : Nat} {call call' : π}
    (hi : calls[i]? = some call) (hle : calls.countP P ≤ 1)
    (h : P call' = true → P call = true ∨ calls.countP P = 0) :
    (calls.set i call').countP P ≤ 1 := by
  obtain ⟨hlt, hget⟩ := List.getElem?_eq_some_iff.mp hi
  rw [List.countP_set hlt, hget]
  by_cases hnew : P call' = true
  · rcases h hnew with hold | hzero
    · simp only [hnew, hold, if_true]
      omega
    · simp only [hnew, hzero, if_true]
      omega
  · simp only [hnew, if_false, Bool.false_eq_true]
    omega

end ErpApi.Interleaving
