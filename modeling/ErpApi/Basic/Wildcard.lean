import Mathlib.Data.List.Infix

set_option autoImplicit false

/-! # Wildcard patterns

A pattern is a list of slots: an element that stands for itself, a place for one element, or a
place for any number of elements. Places may be restricted to the elements that satisfy `ok`,
as the dot of a regular expression does not stand for a line terminator.

`accepts` runs a pattern; the rules below it say which texts each slot takes, and what the
patterns of equality, prefix, suffix and infix tests accept.
-/

namespace ErpApi.Wildcard

inductive Slot (α : Type) where
  | lit (a : α)
  | one
  | star
  deriving DecidableEq

variable {α : Type}

/-- What may be left of a text after a run of elements that satisfy `ok`. -/
def rests (ok : α → Bool) : List α → List (List α)
  | [] => [[]]
  | b :: text => (b :: text) :: if ok b then rests ok text else []

def accepts [DecidableEq α] (ok : α → Bool) : List (Slot α) → List α → Bool
  | [], text => text.isEmpty
  | .lit a :: ps, text =>
      match text with
      | [] => false
      | b :: rest => a = b && accepts ok ps rest
  | .one :: ps, text =>
      match text with
      | [] => false
      | b :: rest => ok b && accepts ok ps rest
  | .star :: ps, text => (rests ok text).any (accepts ok ps)

/-- Every place takes every element. -/
def anything : α → Bool := fun _ => true

/-! ## Rules for the slots -/

theorem mem_rests {ok : α → Bool} {text rest : List α} :
    rest ∈ rests ok text ↔ ∃ w, text = w ++ rest ∧ ∀ b ∈ w, ok b = true := by
  induction text with
  | nil =>
      constructor
      · intro h
        obtain rfl := List.mem_singleton.mp h
        exact ⟨[], rfl, fun b hb => absurd hb List.not_mem_nil⟩
      · rintro ⟨w, h, -⟩
        obtain ⟨rfl, rfl⟩ := List.append_eq_nil_iff.mp h.symm
        exact List.mem_singleton_self _
  | cons b text ih =>
      constructor
      · intro h
        rcases List.mem_cons.mp h with rfl | h
        · exact ⟨[], rfl, fun c hc => absurd hc List.not_mem_nil⟩
        · by_cases hb : ok b = true
          · rw [if_pos hb] at h
            obtain ⟨w, rfl, hw⟩ := ih.mp h
            refine ⟨b :: w, rfl, fun c hc => ?_⟩
            rcases List.mem_cons.mp hc with rfl | hc
            · exact hb
            · exact hw c hc
          · rw [if_neg hb] at h
            exact absurd h List.not_mem_nil
      · rintro ⟨w, h, hw⟩
        cases w with
        | nil =>
            obtain rfl : b :: text = rest := h
            exact List.mem_cons_self
        | cons c w =>
            obtain ⟨rfl, rfl⟩ := List.cons.inj h
            have hb : ok b = true := hw b List.mem_cons_self
            have hrest : rest ∈ rests ok (w ++ rest) :=
              ih.mpr ⟨w, rfl, fun c hc => hw c (List.mem_cons_of_mem b hc)⟩
            rw [rests, if_pos hb]
            exact List.mem_cons_of_mem _ hrest

section Rules

variable [DecidableEq α] {ok : α → Bool}

theorem accepts_nil {text : List α} : accepts ok [] text = true ↔ text = [] :=
  List.isEmpty_iff

theorem accepts_lit {a : α} {ps : List (Slot α)} {text : List α} :
    accepts ok (.lit a :: ps) text = true ↔
      ∃ rest, text = a :: rest ∧ accepts ok ps rest = true := by
  cases text with
  | nil => exact iff_of_false Bool.false_ne_true (fun ⟨rest, h, _⟩ => List.cons_ne_nil _ _ h.symm)
  | cons b text =>
      show (decide (a = b) && accepts ok ps text) = true ↔ _
      rw [Bool.and_eq_true, decide_eq_true_iff]
      constructor
      · rintro ⟨rfl, h⟩
        exact ⟨text, rfl, h⟩
      · rintro ⟨rest, heq, h⟩
        obtain ⟨rfl, rfl⟩ := List.cons.inj heq
        exact ⟨rfl, h⟩

theorem accepts_one {ps : List (Slot α)} {text : List α} :
    accepts ok (.one :: ps) text = true ↔
      ∃ b rest, text = b :: rest ∧ ok b = true ∧ accepts ok ps rest = true := by
  cases text with
  | nil =>
      exact iff_of_false Bool.false_ne_true (fun ⟨b, rest, h, _⟩ => List.cons_ne_nil _ _ h.symm)
  | cons b text =>
      show (ok b && accepts ok ps text) = true ↔ _
      rw [Bool.and_eq_true]
      constructor
      · exact fun h => ⟨b, text, rfl, h⟩
      · rintro ⟨c, rest, heq, h⟩
        obtain ⟨rfl, rfl⟩ := List.cons.inj heq
        exact h

theorem accepts_star {ps : List (Slot α)} {text : List α} :
    accepts ok (.star :: ps) text = true ↔
      ∃ w rest, text = w ++ rest ∧ (∀ b ∈ w, ok b = true) ∧ accepts ok ps rest = true := by
  rw [accepts, List.any_eq_true]
  constructor
  · rintro ⟨rest, hmem, hrest⟩
    obtain ⟨w, htext, hw⟩ := mem_rests.mp hmem
    exact ⟨w, rest, htext, hw, hrest⟩
  · rintro ⟨w, rest, htext, hw, hrest⟩
    exact ⟨rest, mem_rests.mpr ⟨w, htext, hw⟩, hrest⟩

/-- A pattern in two halves takes a text in two halves. -/
theorem accepts_append {ps qs : List (Slot α)} {text : List α} :
    accepts ok (ps ++ qs) text = true ↔
      ∃ u v, text = u ++ v ∧ accepts ok ps u = true ∧ accepts ok qs v = true := by
  induction ps generalizing text with
  | nil =>
      constructor
      · exact fun h => ⟨[], text, rfl, rfl, h⟩
      · rintro ⟨u, v, rfl, hu, hv⟩
        rw [accepts_nil.mp hu]
        exact hv
  | cons p ps ih =>
      rw [List.cons_append]
      cases p with
      | lit a =>
          rw [accepts_lit]
          constructor
          · rintro ⟨rest, rfl, h⟩
            obtain ⟨u, v, rfl, hu, hv⟩ := ih.mp h
            exact ⟨a :: u, v, rfl, accepts_lit.mpr ⟨u, rfl, hu⟩, hv⟩
          · rintro ⟨u, v, rfl, hu, hv⟩
            obtain ⟨u', rfl, hu'⟩ := accepts_lit.mp hu
            exact ⟨u' ++ v, rfl, ih.mpr ⟨u', v, rfl, hu', hv⟩⟩
      | one =>
          rw [accepts_one]
          constructor
          · rintro ⟨b, rest, rfl, hb, h⟩
            obtain ⟨u, v, rfl, hu, hv⟩ := ih.mp h
            exact ⟨b :: u, v, rfl, accepts_one.mpr ⟨b, u, rfl, hb, hu⟩, hv⟩
          · rintro ⟨u, v, rfl, hu, hv⟩
            obtain ⟨b, u', rfl, hb, hu'⟩ := accepts_one.mp hu
            exact ⟨b, u' ++ v, rfl, hb, ih.mpr ⟨u', v, rfl, hu', hv⟩⟩
      | star =>
          rw [accepts_star]
          constructor
          · rintro ⟨w, rest, rfl, hw, h⟩
            obtain ⟨u, v, rfl, hu, hv⟩ := ih.mp h
            exact ⟨w ++ u, v, (List.append_assoc ..).symm,
              accepts_star.mpr ⟨w, u, rfl, hw, hu⟩, hv⟩
          · rintro ⟨u, v, rfl, hu, hv⟩
            obtain ⟨w, u', rfl, hw, hu'⟩ := accepts_star.mp hu
            exact ⟨w, u' ++ v, List.append_assoc .., hw, ih.mpr ⟨u', v, rfl, hu', hv⟩⟩

/-- Slots that stand for themselves take the text they spell. -/
theorem accepts_lits {v text : List α} {ps : List (Slot α)} :
    accepts ok (v.map .lit ++ ps) text = true ↔
      ∃ rest, text = v ++ rest ∧ accepts ok ps rest = true := by
  induction v generalizing text with
  | nil =>
      constructor
      · intro h
        exact ⟨text, rfl, h⟩
      · rintro ⟨rest, rfl, h⟩
        exact h
  | cons a v ih =>
      rw [List.map_cons, List.cons_append, accepts_lit]
      constructor
      · rintro ⟨tail, rfl, h⟩
        obtain ⟨rest, rfl, hrest⟩ := ih.mp h
        exact ⟨rest, rfl, hrest⟩
      · rintro ⟨rest, rfl, hrest⟩
        exact ⟨v ++ rest, rfl, ih.mpr ⟨rest, rfl, hrest⟩⟩

/-- Places that take more elements accept more texts. -/
theorem accepts_mono {ok' : α → Bool} (h : ∀ a, ok a = true → ok' a = true)
    {ps : List (Slot α)} {text : List α} (hacc : accepts ok ps text = true) :
    accepts ok' ps text = true := by
  induction ps generalizing text with
  | nil => exact hacc
  | cons p ps ih =>
      cases p with
      | lit a =>
          obtain ⟨rest, rfl, hrest⟩ := accepts_lit.mp hacc
          exact accepts_lit.mpr ⟨rest, rfl, ih hrest⟩
      | one =>
          obtain ⟨b, rest, rfl, hb, hrest⟩ := accepts_one.mp hacc
          exact accepts_one.mpr ⟨b, rest, rfl, h b hb, ih hrest⟩
      | star =>
          obtain ⟨w, rest, rfl, hw, hrest⟩ := accepts_star.mp hacc
          exact accepts_star.mpr ⟨w, rest, rfl, fun b hb => h b (hw b hb), ih hrest⟩

/-- On a text whose elements all satisfy `ok` the restriction makes no difference. -/
theorem accepts_of_all {ps : List (Slot α)} {text : List α} (htext : ∀ b ∈ text, ok b = true)
    (hacc : accepts anything ps text = true) : accepts ok ps text = true := by
  induction ps generalizing text with
  | nil => exact hacc
  | cons p ps ih =>
      cases p with
      | lit a =>
          obtain ⟨rest, rfl, hrest⟩ := accepts_lit.mp hacc
          exact accepts_lit.mpr
            ⟨rest, rfl, ih (fun b hb => htext b (List.mem_cons_of_mem a hb)) hrest⟩
      | one =>
          obtain ⟨b, rest, rfl, -, hrest⟩ := accepts_one.mp hacc
          exact accepts_one.mpr ⟨b, rest, rfl, htext b List.mem_cons_self,
            ih (fun c hc => htext c (List.mem_cons_of_mem b hc)) hrest⟩
      | star =>
          obtain ⟨w, rest, rfl, -, hrest⟩ := accepts_star.mp hacc
          exact accepts_star.mpr ⟨w, rest, rfl, fun b hb => htext b (List.mem_append_left rest hb),
            ih (fun c hc => htext c (List.mem_append_right w hc)) hrest⟩

end Rules

end ErpApi.Wildcard
