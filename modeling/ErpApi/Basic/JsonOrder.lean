import ErpApi.Basic.Json

set_option autoImplicit false

/-! # Values up to the order of keys

Two objects with the same members are the same value, whatever the order in which they list their
keys. `Same` is this relation, at every depth: arrays are compared item by item, objects by what
they hold under each key.
-/

namespace ErpApi.Json

/-- A value without parts. -/
def IsAtom : Json → Prop
  | .arr _ => False
  | .obj _ => False
  | _ => True

theorem parts_induction {P : Json → Prop} (atom : ∀ v : Json, v.IsAtom → P v)
    (arr : ∀ items, (∀ v ∈ items, P v) → P (.arr items))
    (obj : ∀ fields, (∀ entry ∈ fields, P entry.2) → P (.obj fields)) (v : Json) : P v := by
  induction hsize : sizeOf v using Nat.strongRecOn generalizing v with
  | ind size ih =>
      cases v with
      | null | bool | num | str => exact atom _ trivial
      | arr items =>
          refine arr items ?_
          intro item hitem
          have hlt := List.sizeOf_lt_of_mem hitem
          rw [Json.arr.sizeOf_spec] at hsize
          exact ih (sizeOf item) (by omega) item rfl
      | obj fields =>
          refine obj fields ?_
          intro entry hentry
          have hlt := List.sizeOf_lt_of_mem hentry
          have hpair : sizeOf entry = 1 + sizeOf entry.1 + sizeOf entry.2 := rfl
          rw [Json.obj.sizeOf_spec] at hsize
          exact ih (sizeOf entry.2) (by omega) entry.2 rfl

/-- No object has two members of one key. -/
inductive WellFormed : Json → Prop
  | atom {v : Json} (h : v.IsAtom) : WellFormed v
  | arr {items : List Json} (hitems : ∀ v ∈ items, WellFormed v) : WellFormed (.arr items)
  | obj {fields : List (String × Json)} (hkeys : (fields.map Prod.fst).Nodup)
      (hvalues : ∀ entry ∈ fields, WellFormed entry.2) : WellFormed (.obj fields)

inductive Same : Json → Json → Prop
  | atom {v : Json} (h : v.IsAtom) : Same v v
  | arr {items others : List Json} (hlength : items.length = others.length)
      (hitem : ∀ (i : Nat) (v w : Json), items[i]? = some v → others[i]? = some w → Same v w) :
      Same (.arr items) (.arr others)
  | obj {fields others : List (String × Json)}
      (hkeys : ∀ key, (fields.lookup key).isSome = (others.lookup key).isSome)
      (hvalue : ∀ (key : String) (v w : Json), fields.lookup key = some v →
        others.lookup key = some w → Same v w) :
      Same (.obj fields) (.obj others)

/-! ## Members -/

theorem mem_of_lookup {α : Type} {fields : List (String × α)} {key : String} {value : α}
    (h : fields.lookup key = some value) : (key, value) ∈ fields := by
  obtain ⟨before, after, rfl, _⟩ := List.lookup_eq_some_iff.mp h
  simp

theorem lookup_of_mem {α : Type} {fields : List (String × α)}
    (hkeys : (fields.map Prod.fst).Nodup) {key : String} {value : α}
    (h : (key, value) ∈ fields) : fields.lookup key = some value := by
  obtain ⟨before, after, rfl⟩ := List.append_of_mem h
  refine List.lookup_eq_some_iff.mpr ⟨before, after, rfl, ?_⟩
  intro entry hentry
  rw [List.map_append, List.map_cons] at hkeys
  have hne := (List.nodup_append.mp hkeys).2.2 entry.1 (List.mem_map_of_mem hentry) key
    List.mem_cons_self
  simpa using Ne.symm hne

theorem lookup_assign (fields : List (String × Json)) (key other : String) (value : Json) :
    (assign fields key value).lookup other =
      if other = key then some value else fields.lookup other := by
  induction fields with
  | nil =>
      by_cases h : other = key
      · simp [assign, h]
      · simp [assign, h, List.lookup_cons, beq_false_of_ne h]
  | cons entry rest ih =>
      obtain ⟨k, v⟩ := entry
      by_cases hk : k = key
      · subst hk
        by_cases h : other = k
        · simp [assign, h]
        · simp [assign, h, List.lookup_cons, beq_false_of_ne h]
      · rw [assign, if_neg hk]
        by_cases hother : other = k
        · subst hother
          simp [List.lookup_cons, hk]
        · simp only [List.lookup_cons, beq_false_of_ne hother]
          exact ih

/-! ## The order of the keys -/

namespace Same

theorem refl (v : Json) : Same v v := by
  induction v using parts_induction with
  | atom v h => exact .atom h
  | arr items ih =>
      refine .arr rfl ?_
      intro i v w hv hw
      obtain rfl : v = w := Option.some.inj (hv.symm.trans hw)
      exact ih v (List.mem_of_getElem? hv)
  | obj fields ih =>
      refine .obj (fun _ => rfl) ?_
      intro key v w hv hw
      obtain rfl : v = w := Option.some.inj (hv.symm.trans hw)
      exact ih _ (mem_of_lookup hv)

theorem symm {v w : Json} (h : Same v w) : Same w v := by
  induction h with
  | atom h => exact .atom h
  | arr hlength _ ih => exact .arr hlength.symm fun i v w hv hw => ih i w v hw hv
  | obj hkeys _ ih =>
      exact .obj (fun key => (hkeys key).symm) fun key v w hv hw => ih key w v hw hv

theorem exists_item {items others : List Json} (hlength : items.length = others.length) {i : Nat}
    {v : Json} (hv : items[i]? = some v) : ∃ w, others[i]? = some w := by
  obtain ⟨hi, _⟩ := List.getElem?_eq_some_iff.mp hv
  exact ⟨others[i], List.getElem?_eq_getElem (hlength ▸ hi)⟩

theorem exists_member {fields others : List (String × Json)}
    (hkeys : ∀ key, (fields.lookup key).isSome = (others.lookup key).isSome) {key : String}
    {v : Json} (hv : fields.lookup key = some v) : ∃ w, others.lookup key = some w := by
  apply Option.isSome_iff_exists.mp
  rw [← hkeys, hv]
  rfl

theorem str_inj {a b : String} (h : Same (.str a) (.str b)) : a = b := by
  cases h with
  | atom _ => rfl

theorem trans {u v w : Json} (h : Same u v) (h' : Same v w) : Same u w := by
  induction h generalizing w with
  | atom _ => exact h'
  | arr hlength _ ih =>
      cases h' with
      | atom h => exact absurd h id
      | arr hlength' hitem' =>
          refine .arr (hlength.trans hlength') ?_
          intro i a c ha hc
          obtain ⟨b, hb⟩ := exists_item hlength ha
          exact ih i a b ha hb (hitem' i b c hb hc)
  | obj hkeys _ ih =>
      cases h' with
      | atom h => exact absurd h id
      | obj hkeys' hvalue' =>
          refine .obj (fun key => (hkeys key).trans (hkeys' key)) ?_
          intro key a c ha hc
          obtain ⟨b, hb⟩ := exists_member hkeys ha
          exact ih key a b ha hb (hvalue' key b c hb hc)

end Same

end ErpApi.Json
