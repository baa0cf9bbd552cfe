import Mathlib.Data.List.Basic

set_option autoImplicit false

/-! # Sequential runs

A system that takes one input after another: `step s i` is the state after the input `i` in the
state `s`. A run is a list of inputs. `AllStates` speaks about every state of a run, the first and
the last included, and `AllSteps` about every input in the state in which it is taken.

`allStates_of_allSteps` is the invariant rule. Where one step keeps the invariant exactly when the
input satisfies a condition, `allStates_iff_allSteps` carries the equivalence over to runs.
-/

namespace ErpApi.Sequential

variable {σ ι : Type} (step : σ → ι → σ)

def run (s : σ) (inputs : List ι) : σ := inputs.foldl step s

def AllStates (P : σ → Prop) : σ → List ι → Prop
  | s, [] => P s
  | s, i :: inputs => P s ∧ AllStates P (step s i) inputs

def AllSteps (ok : σ → ι → Prop) : σ → List ι → Prop
  | _, [] => True
  | s, i :: inputs => ok s i ∧ AllSteps ok (step s i) inputs

instance decidableAllStates (P : σ → Prop) [DecidablePred P] :
    (s : σ) → (inputs : List ι) → Decidable (AllStates step P s inputs)
  | s, [] => inferInstanceAs (Decidable (P s))
  | s, i :: inputs =>
      have := decidableAllStates P (step s i) inputs
      inferInstanceAs (Decidable (_ ∧ _))

instance decidableAllSteps (ok : σ → ι → Prop) [∀ s i, Decidable (ok s i)] :
    (s : σ) → (inputs : List ι) → Decidable (AllSteps step ok s inputs)
  | _, [] => .isTrue trivial
  | s, i :: inputs =>
      have := decidableAllSteps ok (step s i) inputs
      inferInstanceAs (Decidable (_ ∧ _))

variable {step} {P Q : σ → Prop} {ok ok' : σ → ι → Prop}

@[simp] theorem run_nil (s : σ) : run step s [] = s := rfl

@[simp] theorem run_cons (s : σ) (i : ι) (inputs : List ι) :
    run step s (i :: inputs) = run step (step s i) inputs := rfl

theorem run_append (s : σ) (inputs inputs' : List ι) :
    run step s (inputs ++ inputs') = run step (run step s inputs) inputs' :=
  List.foldl_append

theorem AllStates.head {s : σ} {inputs : List ι} (h : AllStates step P s inputs) : P s := by
  cases inputs with
  | nil => exact h
  | cons i inputs => exact h.1

theorem AllStates.last {s : σ} {inputs : List ι} (h : AllStates step P s inputs) :
    P (run step s inputs) := by
  induction inputs generalizing s with
  | nil => exact h
  | cons i inputs ih => exact ih h.2

theorem AllStates.mono (himp : ∀ s, P s → Q s) {s : σ} {inputs : List ι}
    (h : AllStates step P s inputs) : AllStates step Q s inputs := by
  induction inputs generalizing s with
  | nil => exact himp s h
  | cons i inputs ih => exact ⟨himp s h.1, ih h.2⟩

/-- A condition on the inputs alone. -/
theorem allSteps_of_forall (s : σ) {inputs : List ι} (h : ∀ i ∈ inputs, ∀ s, ok s i) :
    AllSteps step ok s inputs := by
  induction inputs generalizing s with
  | nil => trivial
  | cons i inputs ih =>
      obtain ⟨hfirst, hrest⟩ := List.forall_mem_cons.mp h
      exact ⟨hfirst s, ih _ hrest⟩

/-- What every allowed step keeps holds in every state of a run of allowed steps. -/
theorem allStates_of_allSteps (hstep : ∀ s i, ok s i → P s → P (step s i)) {s : σ}
    {inputs : List ι} (hok : AllSteps step ok s inputs) (h : P s) :
    AllStates step P s inputs := by
  induction inputs generalizing s with
  | nil => exact h
  | cons i inputs ih => exact ⟨h, ih hok.2 (hstep s i hok.1 h)⟩

/-- What every step keeps holds at the end of every run. -/
theorem run_keeps (hstep : ∀ s i, P s → P (step s i)) {s : σ} (h : P s) (inputs : List ι) :
    P (run step s inputs) := by
  induction inputs generalizing s with
  | nil => exact h
  | cons i inputs ih => exact ih (hstep s i h)

/-- What every allowed step keeps holds at the end of a run of allowed steps. -/
theorem run_of_allSteps (hstep : ∀ s i, ok s i → P s → P (step s i)) {s : σ}
    {inputs : List ι} (hok : AllSteps step ok s inputs) (h : P s) : P (run step s inputs) :=
  (allStates_of_allSteps hstep hok h).last

/-- Where the invariant `I` holds throughout, `P` holds in every state exactly when every step
satisfies the condition. -/
theorem allStates_iff_allSteps {I : σ → Prop} (hinv : ∀ s i, I s → I (step s i))
    (hstep : ∀ s i, I s → P s → (P (step s i) ↔ ok s i)) {s : σ} {inputs : List ι} (hI : I s)
    (h : P s) : AllStates step P s inputs ↔ AllSteps step ok s inputs := by
  induction inputs generalizing s with
  | nil => exact iff_of_true h trivial
  | cons i inputs ih =>
      have hI' := hinv s i hI
      constructor
      · rintro ⟨-, hrest⟩
        have hnext := hrest.head
        exact ⟨(hstep s i hI h).mp hnext, (ih hI' hnext).mp hrest⟩
      · rintro ⟨hok, hrest⟩
        have hnext := (hstep s i hI h).mpr hok
        exact ⟨h, (ih hI' hnext).mpr hrest⟩

end ErpApi.Sequential
