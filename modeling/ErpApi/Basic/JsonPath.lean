import ErpApi.Basic.JsonOrder
import ErpApi.Basic.JsLiteral

set_option autoImplicit false

/-! # Places in a value

A path names one place in a value, from the outside in: under a key of an object, or at an index
of an array. A value is known by what stands at each of its paths, whatever the order of its keys.
-/

namespace ErpApi.Json

inductive Step where
  | key (name : String)
  | item (i : Nat)
  deriving DecidableEq

/-- The part of a value that one step leads to. -/
def child : Json → Step → Option Json
  | .obj fields, .key name => fields.lookup name
  | .arr items, .item i => items[i]?
  | _, _ => none

/-- The part of a value at the end of a path. -/
def part (v : Json) : List Step → Option Json
  | [] => some v
  | s :: path => (v.child s).bind fun w => w.part path

@[simp] theorem part_nil (v : Json) : v.part [] = some v := rfl

@[simp] theorem part_cons (v : Json) (s : Step) (path : List Step) :
    v.part (s :: path) = (v.child s).bind fun w => w.part path := rfl

theorem child_of_isAtom {v : Json} (h : v.IsAtom) (s : Step) : v.child s = none := by
  cases v with
  | arr items => exact h.elim
  | obj fields => exact h.elim
  | null | bool | num | str => rfl

theorem part_of_isAtom {v : Json} (h : v.IsAtom) {path : List Step} {w : Json} :
    v.part path = some w ↔ path = [] ∧ w = v := by
  cases path with
  | nil => simp [eq_comm]
  | cons s path => simp [child_of_isAtom h]

theorem WellFormed.child {v w : Json} (h : v.WellFormed) {s : Step} (hw : v.child s = some w) :
    w.WellFormed := by
  cases h with
  | atom h =>
      rw [child_of_isAtom h] at hw
      cases hw
  | arr hitems =>
      cases s with
      | key name => cases hw
      | item i => exact hitems w (List.mem_of_getElem? hw)
  | obj hkeys hvalues =>
      cases s with
      | key name => exact hvalues _ (mem_of_lookup hw)
      | item i => cases hw

/-! ## Assigning member after member -/

/-- A member is assigned once, so that what is held already is looked at for the other keys only. -/
theorem lookup_foldl_assign {members : List (String × Json)}
    (hkeys : (members.map Prod.fst).Nodup) (fields : List (String × Json)) (key : String) :
    (members.foldl (fun fields member =>
        if member.1 = "__proto__" then fields else assign fields member.1 member.2) fields).lookup
          key =
      if key = "__proto__" then fields.lookup key
      else (members.lookup key).or (fields.lookup key) := by
  induction members generalizing fields with
  | nil => simp
  | cons member members ih =>
      obtain ⟨name, value⟩ := member
      rw [List.map_cons, List.nodup_cons] at hkeys
      rw [List.foldl_cons, ih hkeys.2]
      by_cases hproto : key = "__proto__"
      · rw [if_pos hproto, if_pos hproto]
        by_cases hname : name = "__proto__"
        · rw [if_pos hname]
        · have hne : key ≠ name := fun h => hname (h ▸ hproto)
          rw [if_neg hname, lookup_assign, if_neg hne]
      · rw [if_neg hproto, if_neg hproto]
        by_cases hkey : key = name
        · subst hkey
          have hrest : members.lookup key = none := by
            refine List.lookup_eq_none_iff.mpr ?_
            intro entry hentry
            have hne : entry.1 ≠ key := by
              intro h
              exact hkeys.1 (List.mem_map.mpr ⟨entry, hentry, h⟩)
            simpa using Ne.symm hne
          rw [if_neg hproto, lookup_assign, if_pos rfl, hrest]
          simp
        · have hskip : ((name, value) :: members).lookup key = members.lookup key := by
            simp [List.lookup_cons, beq_false_of_ne hkey]
          rw [hskip]
          by_cases hname : name = "__proto__"
          · rw [if_pos hname]
          · rw [if_neg hname, lookup_assign, if_neg hkey]

/-- A literal with different keys holds each member, save the one of the prototype. -/
theorem lookup_objectOf {members : List (String × Json)} (hkeys : (members.map Prod.fst).Nodup)
    (key : String) :
    (JsLiteral.objectOf members).lookup key =
      if key = "__proto__" then none else members.lookup key := by
  rw [JsLiteral.objectOf, lookup_foldl_assign hkeys []]
  simp

/-- The members of an object with a value computed for each. -/
theorem lookup_objectOf_map {fields : List (String × Json)} (hkeys : (fields.map Prod.fst).Nodup)
    (f : String → Json → Json) (key : String) :
    (JsLiteral.objectOf (fields.map fun entry => (entry.1, f entry.1 entry.2))).lookup key =
      if key = "__proto__" then none else (fields.lookup key).map (f key) := by
  have hnames : (fields.map fun entry => (entry.1, f entry.1 entry.2)).map Prod.fst =
      fields.map Prod.fst := by
    rw [List.map_map]
    rfl
  have hlookup : (fields.map fun entry => (entry.1, f entry.1 entry.2)).lookup key =
      (fields.lookup key).map (f key) := by
    clear hkeys hnames
    induction fields with
    | nil => rfl
    | cons entry fields ih =>
        obtain ⟨name, value⟩ := entry
        by_cases hkey : key = name
        · simp [hkey]
        · simp [List.lookup_cons, beq_false_of_ne hkey, ih]
  rw [lookup_objectOf (hnames ▸ hkeys), hlookup]

end ErpApi.Json
