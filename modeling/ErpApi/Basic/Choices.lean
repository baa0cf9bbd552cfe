import Mathlib.Data.List.FinRange
import Mathlib.Data.Fin.Tuple.Basic
import Mathlib.Algebra.BigOperators.Group.List.Basic

set_option autoImplicit false

/-! # Choices of one position in each dimension

A list of dimensions, each with a number of positions. A choice takes one position in each of them;
`Choice.all` lists the choices in lexicographic order, the last dimension running fastest.

A loop that extends each partial result by each position of the next dimension builds what the
choices pick, in that order (`foldl_extend`).
-/

namespace ErpApi

/-- One position in each dimension. -/
abbrev Choice {α : Type} (size : α → Nat) (dimensions : List α) : Type :=
  (i : Fin dimensions.length) → Fin (size (dimensions.get i))

namespace Choice

variable {α β : Type} {size : α → Nat} {dimensions : List α} {dimension : α}

/-- The lexicographic order: the first dimension where they differ decides. -/
def Precedes (c d : Choice size dimensions) : Prop :=
  ∃ i, (∀ j < i, c j = d j) ∧ c i < d i

/-- A position in the first dimension, and a choice in the others. -/
def cons (p : Fin (size dimension)) (c : Choice size dimensions) :
    Choice size (dimension :: dimensions) :=
  Fin.cons (α := fun i => Fin (size ((dimension :: dimensions).get i))) p c

@[simp] theorem cons_zero (p : Fin (size dimension)) (c : Choice size dimensions) :
    cons p c (0 : Fin (dimensions.length + 1)) = p := rfl

@[simp] theorem cons_succ (p : Fin (size dimension)) (c : Choice size dimensions)
    (i : Fin dimensions.length) : cons p c i.succ = c i := rfl

theorem eq_cons (c : Choice size (dimension :: dimensions)) :
    ∃ p, ∃ c' : Choice size dimensions, c = cons p c' := by
  refine ⟨c (0 : Fin (dimensions.length + 1)), fun i => c i.succ, ?_⟩
  funext i
  refine Fin.cases ?_ (fun j => ?_) i
  · rfl
  · rfl

theorem precedes_cons {p q : Fin (size dimension)} {c d : Choice size dimensions} :
    Precedes (cons p c) (cons q d) ↔ p < q ∨ p = q ∧ Precedes c d := by
  constructor
  · rintro ⟨i, hbefore, hlt⟩
    induction i using Fin.cases with
    | zero => exact .inl hlt
    | succ i =>
        refine .inr ⟨hbefore 0 (Fin.succ_pos i), i, fun j hj => ?_, hlt⟩
        exact hbefore j.succ (Fin.succ_lt_succ_iff.mpr hj)
  · rintro (hlt | ⟨rfl, i, hbefore, hlt⟩)
    · exact ⟨(0 : Fin (dimensions.length + 1)), fun j hj => absurd hj (Fin.not_lt_zero j), hlt⟩
    · refine ⟨i.succ, fun j hj => ?_, hlt⟩
      induction j using Fin.cases with
      | zero => rfl
      | succ j => exact hbefore j (Fin.succ_lt_succ_iff.mp hj)

theorem not_precedes_self (c : Choice size dimensions) : ¬ Precedes c c := by
  rintro ⟨i, -, hlt⟩
  exact lt_irrefl _ hlt

/-! ## All choices -/

/-- The choices in lexicographic order. -/
def all (size : α → Nat) : (dimensions : List α) → List (Choice size dimensions)
  | [] => [fun i => i.elim0]
  | dimension :: dimensions =>
      (List.finRange (size dimension)).flatMap fun p => (all size dimensions).map (cons p)

theorem mem_all (c : Choice size dimensions) : c ∈ all size dimensions := by
  induction dimensions with
  | nil =>
      rw [all, List.mem_singleton]
      funext i
      exact i.elim0
  | cons dimension dimensions ih =>
      obtain ⟨p, c', rfl⟩ := eq_cons c
      rw [all, List.mem_flatMap]
      exact ⟨p, List.mem_finRange p, List.mem_map_of_mem (ih c')⟩

theorem pairwise_all : (all size dimensions).Pairwise Precedes := by
  induction dimensions with
  | nil => exact List.pairwise_singleton _ _
  | cons dimension dimensions ih =>
      rw [all, List.flatMap, List.pairwise_flatten, List.forall_mem_map, List.pairwise_map]
      constructor
      · intro p _
        rw [List.pairwise_map]
        exact ih.imp fun h => precedes_cons.mpr (.inr ⟨rfl, h⟩)
      · refine (List.pairwise_lt_finRange _).imp fun {p q} hlt x hx y hy => ?_
        obtain ⟨c, -, rfl⟩ := List.mem_map.mp hx
        obtain ⟨d, -, rfl⟩ := List.mem_map.mp hy
        exact precedes_cons.mpr (.inl hlt)

theorem nodup_all : (all size dimensions).Nodup := by
  refine List.Pairwise.imp ?_ pairwise_all
  rintro c d h rfl
  exact not_precedes_self c h

theorem length_all : (all size dimensions).length = (dimensions.map size).prod := by
  induction dimensions with
  | nil => rfl
  | cons dimension dimensions ih => simp [all, ih]

/-! ## What a choice picks -/

/-- What a choice picks in each dimension. -/
def pick (f : (x : α) → Fin (size x) → β) (c : Choice size dimensions) : List β :=
  List.ofFn fun i => f (dimensions.get i) (c i)

theorem pick_cons (f : (x : α) → Fin (size x) → β) (p : Fin (size dimension))
    (c : Choice size dimensions) : (cons p c).pick f = f dimension p :: c.pick f := by
  rw [pick, List.ofFn_succ]
  rfl

@[simp] theorem length_pick (f : (x : α) → Fin (size x) → β) (c : Choice size dimensions) :
    (c.pick f).length = dimensions.length := List.length_ofFn

theorem map_pick {γ : Type} (f : (x : α) → Fin (size x) → β) (g : β → γ)
    (c : Choice size dimensions) : (c.pick f).map g = c.pick fun x p => g (f x p) :=
  List.map_ofFn

/-- Each partial result is extended by each position of the next dimension. -/
theorem foldl_extend (f : (x : α) → Fin (size x) → β) (dimensions : List α)
    (accumulated : List (List β)) :
    dimensions.foldl (fun accumulated x => accumulated.flatMap fun partialResult =>
        (List.finRange (size x)).map fun p => partialResult ++ [f x p]) accumulated =
      accumulated.flatMap fun partialResult =>
        (all size dimensions).map fun c => partialResult ++ c.pick f := by
  induction dimensions generalizing accumulated with
  | nil => simp [all, pick]
  | cons x dimensions ih =>
      rw [List.foldl_cons, ih, List.flatMap_assoc]
      congr 1
      funext partialResult
      rw [all, List.flatMap_map, List.map_flatMap]
      congr 1
      funext p
      rw [List.map_map]
      refine List.map_congr_left fun c _ => ?_
      rw [Function.comp_apply, pick_cons, List.append_assoc]
      rfl

end Choice

end ErpApi
