import ErpApi.Basic.ObjectTree

set_option autoImplicit false

/-! # The places of a nested object

What stands at each path of an object: nothing, a leaf or an object again. When it is known
beforehand which paths are to hold objects, and every assignment keeps to that, no assignment
destroys another one: the object has in the end the places of all of them, in whatever order they
were made (`Fields.kind_eq_of_shaped`).
-/

namespace ErpApi.ObjectTree

variable {α : Type}

inductive Kind where
  | leaf
  | obj
  deriving DecidableEq

/-- What stands at a path. -/
def Fields.kind : Fields α → List String → Option Kind
  | _, [] => some .obj
  | fields, key :: path =>
      match fields.get key with
      | none => none
      | some (.leaf _) => if path = [] then some .leaf else none
      | some (.obj inner) => inner.kind path

def Fields.Has (fields : Fields α) (path : List String) : Prop := (fields.kind path).isSome = true

section Kind

variable {fields inner : Fields α} {k key : String} {path : List String} {a : α}

theorem Fields.kind_of_none (h : fields.get key = none) : fields.kind (key :: path) = none := by
  rw [Fields.kind, h]

theorem Fields.kind_of_leaf (h : fields.get key = some (.leaf a)) :
    fields.kind (key :: path) = if path = [] then some .leaf else none := by
  rw [Fields.kind, h]

theorem Fields.kind_of_obj (h : fields.get key = some (.obj inner)) :
    fields.kind (key :: path) = inner.kind path := by
  rw [Fields.kind, h]

theorem Fields.kind_set_of_ne (h : k ≠ key) (v : Node α) :
    (fields.set k v).kind (key :: path) = fields.kind (key :: path) := by
  rw [Fields.kind, Fields.kind, Fields.get_set_of_ne h]

theorem Fields.kind_nil (h : path ≠ []) : (Fields.nil : Fields α).kind path = none := by
  cases path with
  | nil => exact absurd rfl h
  | cons key path => exact Fields.kind_of_none rfl

/-- What is above a place is an object. -/
theorem Fields.kind_of_has : ∀ {pre : List String} {fields : Fields α},
    fields.Has (pre ++ [key]) → fields.kind pre = some .obj
  | [], _, _ => rfl
  | k :: pre, fields, h => by
      rw [List.cons_append] at h
      cases hget : fields.get k with
      | none =>
          rw [Fields.Has, Fields.kind_of_none hget] at h
          cases h
      | some v =>
          cases v with
          | leaf a =>
              rw [Fields.Has, Fields.kind_of_leaf hget, if_neg (by simp)] at h
              cases h
          | obj inner =>
              rw [Fields.kind_of_obj hget]
              rw [Fields.Has, Fields.kind_of_obj hget] at h
              exact Fields.kind_of_has h

end Kind

/-! ## Places that are agreed on -/

/-- The places of the object are objects where the agreement says so, and leaves elsewhere. -/
def Fields.Shaped (isObj : List String → Prop) (fields : Fields α) : Prop :=
  ∀ path ≠ [], ∀ kind, fields.kind path = some kind → (kind = .obj ↔ isObj path)

section Shaped

variable {isObj : List String → Prop} {fields fields' inner : Fields α} {k : String} {a : α}

theorem Fields.shaped_nil : (Fields.nil : Fields α).Shaped isObj := by
  intro path hpath kind h
  rw [Fields.kind_nil hpath] at h
  cases h

theorem Fields.Shaped.congr {isObj' : List String → Prop} (h : fields.Shaped isObj)
    (hsame : ∀ path, isObj path ↔ isObj' path) : fields.Shaped isObj' :=
  fun path hpath kind hkind => (h path hpath kind hkind).trans (hsame path)

/-- Two objects that keep to one agreement and have the same places are the same. -/
theorem Fields.kind_eq_of_shaped (h : fields.Shaped isObj) (h' : fields'.Shaped isObj)
    (hplaces : ∀ path ≠ [], fields.Has path ↔ fields'.Has path) (path : List String) :
    fields.kind path = fields'.kind path := by
  by_cases hpath : path = []
  · subst hpath
    rfl
  · have hsame := hplaces path hpath
    unfold Fields.Has at hsame
    cases hk : fields.kind path with
    | none =>
        rw [hk] at hsame
        cases hk' : fields'.kind path with
        | none => rfl
        | some kind' => simp [hk'] at hsame
    | some kind =>
        rw [hk] at hsame
        cases hk' : fields'.kind path with
        | none => simp [hk'] at hsame
        | some kind' =>
            have hobj := (h path hpath kind hk).trans (h' path hpath kind' hk').symm
            cases kind with
            | leaf =>
                cases kind' with
                | leaf => rfl
                | obj => exact absurd (hobj.mpr rfl) (by decide)
            | obj => rw [hobj.mp rfl]

theorem Fields.Shaped.of_get (h : fields.Shaped isObj) (hget : fields.get k = some (.obj inner)) :
    inner.Shaped fun path => isObj (k :: path) := by
  intro path _ kind hkind
  exact h (k :: path) (List.cons_ne_nil k path) kind (by rw [Fields.kind_of_obj hget, hkind])

theorem Fields.Shaped.not_obj (h : fields.Shaped isObj) (hk : ¬ isObj [k]) :
    fields.get k ≠ some (.obj inner) := by
  intro hget
  exact hk ((h [k] (List.cons_ne_nil k []) .obj (Fields.kind_of_obj hget)).mp rfl)

theorem Fields.Shaped.not_leaf (h : fields.Shaped isObj) (hk : isObj [k]) :
    fields.get k ≠ some (.leaf a) := by
  intro hget
  have hkind : fields.kind [k] = some .leaf := Fields.kind_of_leaf hget
  exact absurd ((h [k] (List.cons_ne_nil k []) .leaf hkind).mpr hk) (by decide)

theorem Fields.Shaped.set_leaf (h : fields.Shaped isObj) (hk : ¬ isObj [k]) :
    (fields.set k (.leaf a)).Shaped isObj := by
  intro path hpath kind hkind
  cases path with
  | nil => exact absurd rfl hpath
  | cons key path =>
      by_cases heq : k = key
      · subst heq
        rw [Fields.kind_of_leaf (Fields.get_set_self k (.leaf a) fields)] at hkind
        split at hkind
        · rename_i hnil
          subst hnil
          obtain rfl := Option.some.inj hkind
          exact iff_of_false (by decide) hk
        · cases hkind
      · rw [Fields.kind_set_of_ne heq] at hkind
        exact h _ hpath kind hkind

theorem Fields.Shaped.has_set_leaf (h : fields.Shaped isObj) (hk : ¬ isObj [k])
    {path : List String} (hpath : path ≠ []) :
    (fields.set k (.leaf a)).Has path ↔ fields.Has path ∨ path = [k] := by
  cases path with
  | nil => exact absurd rfl hpath
  | cons key path =>
      by_cases heq : k = key
      · subst heq
        have hleaf : (fields.set k (.leaf a)).Has (k :: path) ↔ path = [] := by
          rw [Fields.Has, Fields.kind_of_leaf (Fields.get_set_self k (.leaf a) fields)]
          split <;> simp_all
        have hold : fields.Has (k :: path) → path = [] := by
          intro hhas
          rw [Fields.Has] at hhas
          cases hget : fields.get k with
          | none =>
              rw [Fields.kind_of_none hget] at hhas
              cases hhas
          | some v =>
              cases v with
              | leaf b =>
                  rw [Fields.kind_of_leaf hget] at hhas
                  by_contra hne
                  rw [if_neg hne] at hhas
                  cases hhas
              | obj inner => exact absurd hget (h.not_obj hk)
        rw [hleaf, List.cons.injEq]
        exact ⟨fun hnil => .inr ⟨rfl, hnil⟩, fun hor => hor.elim hold And.right⟩
      · have hno : key :: path ≠ [k] := fun hcons => heq (List.cons.inj hcons).1.symm
        rw [Fields.Has, Fields.kind_set_of_ne heq, Fields.Has]
        exact ⟨.inl, fun hor => hor.resolve_right hno⟩

theorem Fields.Shaped.set_obj (h : fields.Shaped isObj) (hk : isObj [k])
    (hinner : inner.Shaped fun path => isObj (k :: path)) :
    (fields.set k (.obj inner)).Shaped isObj := by
  intro path hpath kind hkind
  cases path with
  | nil => exact absurd rfl hpath
  | cons key path =>
      by_cases heq : k = key
      · subst heq
        rw [Fields.kind_of_obj (Fields.get_set_self k (.obj inner) fields)] at hkind
        cases path with
        | nil =>
            obtain rfl := Option.some.inj hkind
            exact iff_of_true rfl hk
        | cons key' path => exact hinner (key' :: path) (List.cons_ne_nil key' path) kind hkind
      · rw [Fields.kind_set_of_ne heq] at hkind
        exact h _ hpath kind hkind

theorem Fields.has_set_obj_self {path : List String} :
    (fields.set k (.obj inner)).Has (k :: path) ↔ inner.Has path := by
  rw [Fields.Has, Fields.kind_of_obj (Fields.get_set_self k (.obj inner) fields), Fields.Has]

theorem Fields.has_set_of_ne {key : String} (h : k ≠ key) {v : Node α} {path : List String} :
    (fields.set k v).Has (key :: path) ↔ fields.Has (key :: path) := by
  rw [Fields.Has, Fields.kind_set_of_ne h, Fields.Has]

end Shaped

end ErpApi.ObjectTree
