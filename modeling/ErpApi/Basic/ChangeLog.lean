import Mathlib.Data.List.Basic

set_option autoImplicit false

/-! # Change logs

A set that elements are added to and removed from, and the log of these changes. Replaying a log
from the empty set gives the set that it describes.
-/

namespace ErpApi

inductive SetChange (α : Type) where
  | add (a : α)
  | remove (a : α)
  deriving DecidableEq

namespace SetChange

variable {α : Type} [DecidableEq α]

def apply (l : List α) : SetChange α → List α
  | .add a => l.insert a
  | .remove a => l.filter fun b => b ≠ a

def replay (log : List (SetChange α)) : List α := log.foldl apply []

theorem mem_foldl_add {l adds : List α} {a : α} :
    a ∈ (adds.map SetChange.add).foldl apply l ↔ a ∈ l ∨ a ∈ adds := by
  induction adds generalizing l with
  | nil => simp
  | cons b adds ih =>
      rw [List.map_cons, List.foldl_cons, ih, apply, List.mem_insert_iff, List.mem_cons]
      exact or_assoc.trans or_left_comm

theorem mem_foldl_remove {l removes : List α} {a : α} :
    a ∈ (removes.map SetChange.remove).foldl apply l ↔ a ∈ l ∧ a ∉ removes := by
  induction removes generalizing l with
  | nil => simp
  | cons b removes ih =>
      rw [List.map_cons, List.foldl_cons, ih, apply, List.mem_filter, List.mem_cons, not_or,
        decide_eq_true_iff, and_assoc]

/-- The log goes on with additions, then removals. -/
theorem mem_replay_append {log : List (SetChange α)} {adds removes : List α} {a : α} :
    a ∈ replay (log ++ (adds.map SetChange.add ++ removes.map SetChange.remove)) ↔
      (a ∈ replay log ∨ a ∈ adds) ∧ a ∉ removes := by
  rw [replay, List.foldl_append, List.foldl_append, mem_foldl_remove, mem_foldl_add, replay]

end SetChange

end ErpApi
