set_option autoImplicit false

/-! # Programs with exceptions over a state

A program of a class with fields that can throw: what it returns or throws, and the fields
afterwards, which stay changed when it throws. `Refines` says of such a program that it computes the
same as one without fields, whatever they are, and that it keeps an invariant of them. The rules
follow the ways in which programs are put together.
-/

namespace ErpApi

abbrev Effect (σ ε α : Type) := ExceptT ε (StateM σ) α

namespace Effect

variable {σ ε α β : Type}

def result (m : Effect σ ε α) (s : σ) : Except ε α := (m.run.run s).1

/-- The fields after the program. -/
def after (m : Effect σ ε α) (s : σ) : σ := (m.run.run s).2

/-- A program that does not touch the fields. -/
def lift (x : Except ε α) : Effect σ ε α := ExceptT.mk (pure x)

/-- A program whose exceptions are caught, and thrown again as others. -/
def mapError {ε' : Type} (f : ε → ε') (m : Effect σ ε α) : Effect σ ε' α :=
  ExceptT.mk fun s => ((m.run.run s).1.mapError f, (m.run.run s).2)

/-- The program computes `x`, and keeps the invariant. -/
structure Refines (Inv : σ → Prop) (m : Effect σ ε α) (x : Except ε α) : Prop where
  result_eq : ∀ s, m.result s = x
  keeps : ∀ s, Inv s → Inv (m.after s)

variable {Inv : σ → Prop}

theorem result_bind (m : Effect σ ε α) (f : α → Effect σ ε β) (s : σ) :
    (m >>= f).result s =
      match m.result s with
      | .ok a => (f a).result (m.after s)
      | .error e => .error e := by
  show ((ExceptT.bindCont f (m.run.run s).1).run (m.run.run s).2).1 = _
  rw [result, after]
  cases (m.run.run s).1 with
  | ok a => rfl
  | error e => rfl

theorem after_bind (m : Effect σ ε α) (f : α → Effect σ ε β) (s : σ) :
    (m >>= f).after s =
      match m.result s with
      | .ok a => (f a).after (m.after s)
      | .error _ => m.after s := by
  show ((ExceptT.bindCont f (m.run.run s).1).run (m.run.run s).2).2 = _
  rw [result, after]
  cases (m.run.run s).1 with
  | ok a => rfl
  | error e => rfl

theorem Refines.pure (a : α) : Refines Inv (Pure.pure a : Effect σ ε α) (.ok a) where
  result_eq _ := rfl
  keeps _ h := h

theorem Refines.lift (x : Except ε α) : Refines Inv (Effect.lift x) x where
  result_eq _ := rfl
  keeps _ h := h

theorem Refines.bind {m : Effect σ ε α} {x : Except ε α} {f : α → Effect σ ε β}
    {g : α → Except ε β} (hm : Refines Inv m x) (hf : ∀ a, Refines Inv (f a) (g a)) :
    Refines Inv (m >>= f) (x >>= g) where
  result_eq s := by
    rw [result_bind, hm.result_eq]
    cases x with
    | ok a => exact (hf a).result_eq _
    | error e => rfl
  keeps s h := by
    rw [after_bind, hm.result_eq]
    cases x with
    | ok a => exact (hf a).keeps _ (hm.keeps s h)
    | error e => exact hm.keeps s h

theorem Refines.mapError {ε' : Type} {m : Effect σ ε α} {x : Except ε α} (f : ε → ε')
    (hm : Refines Inv m x) : Refines Inv (m.mapError f) (x.mapError f) where
  result_eq s := congrArg (Except.mapError f) (hm.result_eq s)
  keeps := hm.keeps

theorem Refines.mapM {f : α → Effect σ ε β} {g : α → Except ε β}
    (hf : ∀ a, Refines Inv (f a) (g a)) : ∀ l : List α, Refines Inv (l.mapM f) (l.mapM g)
  | [] => by
      rw [List.mapM_nil, List.mapM_nil]
      exact .pure []
  | a :: l => by
      rw [List.mapM_cons, List.mapM_cons]
      exact (hf a).bind fun b => (Refines.mapM hf l).bind fun bs => .pure (b :: bs)

theorem Refines.foldlM {f : β → α → Effect σ ε β} {g : β → α → Except ε β}
    (hf : ∀ b a, Refines Inv (f b a) (g b a)) :
    ∀ (l : List α) (b : β), Refines Inv (l.foldlM f b) (l.foldlM g b)
  | [], b => by
      rw [List.foldlM_nil, List.foldlM_nil]
      exact .pure b
  | a :: l, b => by
      rw [List.foldlM_cons, List.foldlM_cons]
      exact (hf b a).bind fun b' => Refines.foldlM hf l b'

end Effect

end ErpApi
