import Mathlib.Data.List.Basic

set_option autoImplicit false

/-! # Nested objects

Objects whose values are leaves or objects again, with the keys in insertion order: the plain
objects of the source language. `merge` writes one object over another key by key. Where both
hold an object it goes down into it, and where they collide otherwise a rule says what to write.

A property of all leaves survives a merge if it survives at the places where two leaves
collide (`Fields.all_merge`). Which collisions can happen is read off the places of the leaves
and objects (`Fields.compat_of_all`).
-/

namespace ErpApi.ObjectTree

mutual

inductive Node (α : Type) where
  | leaf (a : α)
  | obj (fields : Fields α)

inductive Fields (α : Type) where
  | nil
  | cons (key : String) (value : Node α) (rest : Fields α)

end

variable {α : Type}

def Fields.get : Fields α → String → Option (Node α)
  | .nil, _ => none
  | .cons k v rest, key => if k = key then some v else rest.get key

/-- An assignment: in place if the key is there, else at the end. -/
def Fields.set : Fields α → String → Node α → Fields α
  | .nil, key, value => .cons key value .nil
  | .cons k v rest, key, value =>
      if k = key then .cons k value rest else .cons k v (rest.set key value)

def Fields.keys : Fields α → List String
  | .nil => []
  | .cons k _ rest => k :: rest.keys

/-- How values that are not both objects collide. -/
structure Rule (α : Type) where
  /-- A leaf that counts as no value at all. -/
  absent : α → Bool
  /-- A leaf that is an object of the language, though not one to go down into. -/
  isObject : α → Bool
  collide : Node α → Node α → α

mutual

/-- The value written where `old` stood (if anything did) and `new` is merged in. -/
def Node.mergeInto (rule : Rule α) : Option (Node α) → Node α → Node α
  | none, new => new
  | some (.obj fields), .obj source => .obj (fields.merge rule source)
  | some (.leaf a), new => if rule.absent a then new else .leaf (rule.collide (.leaf a) new)
  | some (.obj fields), .leaf b => .leaf (rule.collide (.obj fields) (.leaf b))

/-- The loop over the keys of the source. -/
def Fields.merge (rule : Rule α) : Fields α → Fields α → Fields α
  | target, .nil => target
  | target, .cons k v rest =>
      (target.set k (v.mergeInto rule (target.get k))).merge rule rest

end

/-- The assignment along a path: objects on the way are created where there are none. A leaf
that is itself an object swallows the assignment. -/
def Fields.setPath (rule : Rule α) (value : Node α) : List String → Fields α → Fields α
  | [], fields => fields
  | [key], fields => fields.set key value
  | key :: next :: path, fields =>
      match fields.get key with
      | some (.obj inner) => fields.set key (.obj (inner.setPath rule value (next :: path)))
      | some (.leaf a) =>
          if rule.isObject a then fields
          else fields.set key (.obj (Fields.nil.setPath rule value (next :: path)))
      | none => fields.set key (.obj (Fields.nil.setPath rule value (next :: path)))

/-- The object literal with all of one object and then all of another: a key of the second
replaces that of the first. -/
def Fields.spread : Fields α → Fields α → Fields α
  | target, .nil => target
  | target, .cons k v rest => (target.set k v).spread rest

/-- The object with one leaf, at the end of the path. -/
def Fields.single (a : α) : List String → Fields α
  | [] => .nil
  | [key] => .cons key (.leaf a) .nil
  | key :: next :: path => .cons key (.obj (single a (next :: path))) .nil

mutual

def Node.map (f : α → α) : Node α → Node α
  | .leaf a => .leaf (f a)
  | .obj fields => .obj (fields.map f)

def Fields.map (f : α → α) : Fields α → Fields α
  | .nil => .nil
  | .cons k v rest => .cons k (v.map f) (rest.map f)

end

mutual

/-- Every leaf has a property, every object another, each at its path. -/
def Node.All (leafP : List String → α → Prop) (objP : List String → Prop) :
    List String → Node α → Prop
  | path, .leaf a => leafP path a
  | path, .obj fields => objP path ∧ fields.All leafP objP path

def Fields.All (leafP : List String → α → Prop) (objP : List String → Prop) :
    List String → Fields α → Prop
  | _, .nil => True
  | path, .cons k v rest => v.All leafP objP (path ++ [k]) ∧ rest.All leafP objP path

end

mutual

/-- The loop over all leaves with their paths. -/
def Node.all (p : List String → α → Bool) : List String → Node α → Bool
  | path, .leaf a => p path a
  | path, .obj fields => fields.all p path

def Fields.all (p : List String → α → Bool) : List String → Fields α → Bool
  | _, .nil => true
  | path, .cons k v rest => v.all p (path ++ [k]) && rest.all p path

end

mutual

theorem Node.all_eq_true {p : List String → α → Bool} : (path : List String) → (v : Node α) →
    (v.all p path = true ↔ v.All (fun q a => p q a = true) (fun _ => True) path)
  | _, .leaf _ => Iff.rfl
  | path, .obj fields => by
      simp only [Node.all, Node.All, true_and]
      exact Fields.all_eq_true path fields

theorem Fields.all_eq_true {p : List String → α → Bool} :
    (path : List String) → (fields : Fields α) →
    (fields.all p path = true ↔ fields.All (fun q a => p q a = true) (fun _ => True) path)
  | _, .nil => by simp [Fields.all, Fields.All]
  | path, .cons k v rest => by
      simp only [Fields.all, Fields.All, Bool.and_eq_true]
      rw [Node.all_eq_true _ v, Fields.all_eq_true path rest]

end

/-! ## Reading and writing one key -/

section GetSet

variable {leafP : List String → α → Prop} {objP : List String → Prop}

theorem Fields.get_set_of_ne {k key : String} (h : k ≠ key) (v : Node α) (fields : Fields α) :
    (fields.set k v).get key = fields.get key := by
  match fields with
  | .nil => simp [Fields.set, Fields.get, h]
  | .cons k' v' rest =>
      by_cases hk : k' = k
      · subst hk
        simp [Fields.set, Fields.get, h]
      · simp only [Fields.set, hk, if_false, Fields.get]
        rw [Fields.get_set_of_ne h v rest]

theorem Fields.get_set_self (k : String) (v : Node α) (fields : Fields α) :
    (fields.set k v).get k = some v := by
  match fields with
  | .nil => simp [Fields.set, Fields.get]
  | .cons k' v' rest =>
      by_cases hk : k' = k
      · simp [Fields.set, Fields.get, hk]
      · simp only [Fields.set, hk, if_false, Fields.get]
        exact Fields.get_set_self k v rest

theorem Fields.mem_keys_set {k key : String} {v : Node α} {fields : Fields α} :
    key ∈ (fields.set k v).keys ↔ key = k ∨ key ∈ fields.keys := by
  match fields with
  | .nil => simp [Fields.set, Fields.keys]
  | .cons k' v' rest =>
      by_cases hk : k' = k
      · subst hk
        simp [Fields.set, Fields.keys]
      · simp only [Fields.set, hk, if_false, Fields.keys, List.mem_cons]
        have hrest : key ∈ (rest.set k v).keys ↔ key = k ∨ key ∈ rest.keys := Fields.mem_keys_set
        rw [hrest]
        tauto

theorem Fields.all_of_get {path : List String} {fields : Fields α} {k : String} {v : Node α}
    (h : fields.All leafP objP path) (hget : fields.get k = some v) :
    v.All leafP objP (path ++ [k]) := by
  match fields with
  | .nil => cases hget
  | .cons k' v' rest =>
      by_cases hk : k' = k
      · subst hk
        simp only [Fields.get, if_true, Option.some.injEq] at hget
        rw [← hget]
        exact h.1
      · simp only [Fields.get, hk, if_false] at hget
        exact Fields.all_of_get h.2 hget

/-- Writing a key that is not there adds one value. -/
theorem Fields.all_set_of_get_eq_none {path : List String} {fields : Fields α} {k : String}
    (hget : fields.get k = none) (v : Node α) :
    (fields.set k v).All leafP objP path ↔
      fields.All leafP objP path ∧ v.All leafP objP (path ++ [k]) := by
  match fields with
  | .nil => simp [Fields.set, Fields.All]
  | .cons k' v' rest =>
      by_cases hk : k' = k
      · simp [Fields.get, hk] at hget
      · simp only [Fields.get, hk, if_false] at hget
        simp only [Fields.set, hk, if_false, Fields.All,
          Fields.all_set_of_get_eq_none hget v, and_assoc]

/-- Writing a key that is there replaces its value: if the new value says what the old one
said and something more, so does the object. -/
theorem Fields.all_set_of_get_eq_some {path : List String} {fields : Fields α} {k : String}
    {old new : Node α} (hget : fields.get k = some old) {P : Prop}
    (hnew : new.All leafP objP (path ++ [k]) ↔ old.All leafP objP (path ++ [k]) ∧ P) :
    (fields.set k new).All leafP objP path ↔ fields.All leafP objP path ∧ P := by
  match fields with
  | .nil => cases hget
  | .cons k' v' rest =>
      by_cases hk : k' = k
      · subst hk
        simp only [Fields.get, if_true, Option.some.injEq] at hget
        subst hget
        simp only [Fields.set, if_true, Fields.All, hnew]
        tauto
      · simp only [Fields.get, hk, if_false] at hget
        simp only [Fields.set, hk, if_false, Fields.All,
          Fields.all_set_of_get_eq_some hget hnew, and_assoc]

/-- Writing a value with the property keeps the property. -/
theorem Fields.all_set {path : List String} {fields : Fields α} (k : String) {v : Node α}
    (h : fields.All leafP objP path) (hv : v.All leafP objP (path ++ [k])) :
    (fields.set k v).All leafP objP path := by
  match fields with
  | .nil => exact ⟨hv, trivial⟩
  | .cons k' v' rest =>
      by_cases hk : k' = k
      · subst hk
        simpa [Fields.set, Fields.All] using ⟨hv, h.2⟩
      · simp only [Fields.set, hk, if_false]
        exact ⟨h.1, Fields.all_set k h.2 hv⟩

end GetSet

/-! ## Merging -/

section Merge

variable (rule : Rule α)

mutual

/-- Two values collide only leaf on leaf, and there the collision is a good one. -/
def Node.Compat (good : α → α → Prop) : Option (Node α) → Node α → Prop
  | none, _ => True
  | some (.obj fields), .obj source => fields.Compat good source
  | some (.leaf a), .leaf b => good a b
  | some (.leaf _), .obj _ => False
  | some (.obj _), .leaf _ => False

/-- The same for objects; the keys of the source are distinct. -/
def Fields.Compat (good : α → α → Prop) : Fields α → Fields α → Prop
  | _, .nil => True
  | target, .cons k v rest =>
      v.Compat good (target.get k) ∧ k ∉ rest.keys ∧ target.Compat good rest

end

theorem Fields.compat_set {good : α → α → Prop} {k : String} (v : Node α) :
    (target source : Fields α) → k ∉ source.keys →
    ((target.set k v).Compat good source ↔ target.Compat good source)
  | _, .nil, _ => Iff.rfl
  | target, .cons k' v' rest, hk => by
      obtain ⟨hne, hrest⟩ : k ≠ k' ∧ k ∉ rest.keys := by simpa [Fields.keys] using hk
      simp only [Fields.Compat]
      rw [Fields.get_set_of_ne hne, Fields.compat_set v target rest hrest]

variable {rule} {leafP : List String → α → Prop} {objP : List String → Prop}
  {good : α → α → Prop}

mutual

theorem Node.all_mergeInto
    (hgood : ∀ path a b, good a b → rule.absent a = false ∧
      (leafP path (rule.collide (.leaf a) (.leaf b)) ↔ leafP path a ∧ leafP path b)) :
    (path : List String) → (old new : Node α) → new.Compat good (some old) →
    ((new.mergeInto rule (some old)).All leafP objP path ↔
      old.All leafP objP path ∧ new.All leafP objP path)
  | path, .leaf a, .leaf b, h => by
      obtain ⟨habs, hiff⟩ := hgood path a b h
      simp only [Node.mergeInto, habs, Bool.false_eq_true, if_false]
      exact hiff
  | path, .obj fields, .obj source, h => by
      simp only [Node.mergeInto, Node.All]
      rw [Fields.all_merge hgood path fields source h]
      tauto
  | _, .leaf _, .obj _, h => h.elim
  | _, .obj _, .leaf _, h => h.elim

/-- **A merge says what both objects say**, if they collide at most in good leaves. -/
theorem Fields.all_merge
    (hgood : ∀ path a b, good a b → rule.absent a = false ∧
      (leafP path (rule.collide (.leaf a) (.leaf b)) ↔ leafP path a ∧ leafP path b)) :
    (path : List String) → (target source : Fields α) → target.Compat good source →
    ((target.merge rule source).All leafP objP path ↔
      target.All leafP objP path ∧ source.All leafP objP path)
  | path, target, .nil, _ => by simp [Fields.merge, Fields.All]
  | path, target, .cons k v rest, h => by
      obtain ⟨hv, hk, hrest⟩ := h
      have hset : (target.set k (v.mergeInto rule (target.get k))).All leafP objP path ↔
          target.All leafP objP path ∧ v.All leafP objP (path ++ [k]) := by
        cases hget : target.get k with
        | none =>
            rw [Node.mergeInto]
            exact Fields.all_set_of_get_eq_none hget v
        | some old =>
            rw [hget] at hv
            exact Fields.all_set_of_get_eq_some hget (Node.all_mergeInto hgood _ old v hv)
      rw [Fields.merge, Fields.all_merge hgood path _ rest
        ((Fields.compat_set _ target rest hk).mpr hrest), hset, Fields.All, and_assoc]

end

end Merge

/-! ## One key through a merge -/

section OneKey

variable {rule : Rule α} {K : Node α → Prop}

/-- What every merge into a value keeps is kept at its key. -/
theorem Fields.get_merge_of_target
    (hK : ∀ old new : Node α, K old → K (new.mergeInto rule (some old))) {key : String} : (target source : Fields α) → (∃ v, target.get key = some v ∧ K v) →
    ∃ v, (target.merge rule source).get key = some v ∧ K v
  | target, .nil, h => by rwa [Fields.merge]
  | target, .cons k v rest, ⟨old, hget, hold⟩ => by
      rw [Fields.merge]
      apply Fields.get_merge_of_target hK
      by_cases hk : k = key
      · subst hk
        rw [hget]
        exact ⟨_, Fields.get_set_self _ _ _, hK old v hold⟩
      · rw [Fields.get_set_of_ne hk]
        exact ⟨old, hget, hold⟩

/-- What a merged value brings along is there afterwards. -/
theorem Fields.get_merge_of_source
    (hK : ∀ old new : Node α, K old → K (new.mergeInto rule (some old)))
    (hnew : ∀ old (new : Node α), K new → K (new.mergeInto rule old)) {key : String} :
    (target source : Fields α) → (∃ v, source.get key = some v ∧ K v) →
    ∃ v, (target.merge rule source).get key = some v ∧ K v
  | target, .nil, ⟨_, hget, _⟩ => by cases hget
  | target, .cons k v rest, ⟨new, hget, hv⟩ => by
      rw [Fields.merge]
      by_cases hk : k = key
      · subst hk
        simp only [Fields.get, if_true, Option.some.injEq] at hget
        subst hget
        exact Fields.get_merge_of_target hK _ rest
          ⟨_, Fields.get_set_self _ _ _, hnew _ v hv⟩
      · simp only [Fields.get, hk, if_false] at hget
        exact Fields.get_merge_of_source hK hnew _ rest ⟨new, hget, hv⟩

theorem Fields.get_map (f : α → α) (key : String) : (fields : Fields α) →
    (fields.map f).get key = (fields.get key).map (Node.map f)
  | .nil => rfl
  | .cons k v rest => by
      by_cases hk : k = key
      · simp [Fields.map, Fields.get, hk]
      · simp only [Fields.map, Fields.get, hk, if_false]
        exact Fields.get_map f key rest

end OneKey

/-! ## Where collisions can happen -/

section Places

mutual

/-- The keys of every object are distinct. -/
def Node.Distinct : Node α → Prop
  | .leaf _ => True
  | .obj fields => fields.Distinct

def Fields.Distinct : Fields α → Prop
  | .nil => True
  | .cons k v rest => k ∉ rest.keys ∧ v.Distinct ∧ rest.Distinct

end

theorem Node.distinct_leaf (a : α) : (Node.leaf a).Distinct := trivial

theorem Fields.distinct_nil : (Fields.nil : Fields α).Distinct := trivial

theorem Fields.distinct_set {k : String} {v : Node α} (hv : v.Distinct) :
    (fields : Fields α) → fields.Distinct → (fields.set k v).Distinct
  | .nil, _ => ⟨by simp [Fields.keys], hv, trivial⟩
  | .cons k' v' rest, ⟨hk', hv', hrest⟩ => by
      by_cases hk : k' = k
      · simp only [Fields.set, hk, if_true]
        exact ⟨hk ▸ hk', hv, hrest⟩
      · simp only [Fields.set, hk, if_false]
        refine ⟨?_, hv', Fields.distinct_set hv rest hrest⟩
        rw [Fields.mem_keys_set]
        rintro (rfl | hmem)
        · exact hk rfl
        · exact hk' hmem

theorem Fields.distinct_of_get {k : String} {v : Node α} :
    (fields : Fields α) → fields.Distinct → fields.get k = some v → v.Distinct
  | .nil, _, hget => by cases hget
  | .cons k' v' rest, ⟨_, hv', hrest⟩, hget => by
      by_cases hk : k' = k
      · simp only [Fields.get, hk, if_true, Option.some.injEq] at hget
        exact hget ▸ hv'
      · simp only [Fields.get, hk, if_false] at hget
        exact Fields.distinct_of_get rest hrest hget

mutual

theorem Node.distinct_mergeInto (rule : Rule α) :
    (old : Option (Node α)) → (new : Node α) → (∀ v, old = some v → v.Distinct) →
    new.Distinct → (new.mergeInto rule old).Distinct
  | none, new, _, hnew => by
      rw [Node.mergeInto]
      exact hnew
  | some (.obj fields), .obj source, hold, hnew => by
      rw [Node.mergeInto]
      exact Fields.distinct_merge rule fields source (hold _ rfl) hnew
  | some (.leaf a), .leaf b, _, hnew => by
      rw [Node.mergeInto]
      split
      · exact hnew
      · trivial
  | some (.leaf a), .obj source, _, hnew => by
      rw [Node.mergeInto]
      split
      · exact hnew
      · trivial
  | some (.obj fields), .leaf b, _, _ => by
      rw [Node.mergeInto]
      trivial

theorem Fields.distinct_merge (rule : Rule α) :
    (target source : Fields α) → target.Distinct → source.Distinct →
    (target.merge rule source).Distinct
  | target, .nil, htarget, _ => by
      rw [Fields.merge]
      exact htarget
  | target, .cons k v rest, htarget, ⟨_, hv, hrest⟩ => by
      rw [Fields.merge]
      refine Fields.distinct_merge rule _ rest (Fields.distinct_set ?_ target htarget) hrest
      exact Node.distinct_mergeInto rule _ v
        (fun _ hget => Fields.distinct_of_get target htarget hget) hv

end

theorem Fields.distinct_setPath (rule : Rule α) {v : Node α} (hv : v.Distinct) :
    (path : List String) → (fields : Fields α) → fields.Distinct →
    (fields.setPath rule v path).Distinct
  | [], _, h => h
  | [_], fields, h => Fields.distinct_set hv fields h
  | key :: next :: path, fields, h => by
      rw [Fields.setPath]
      split
      · rename_i inner hget
        have hinner : inner.Distinct := Fields.distinct_of_get fields h hget
        have hobj : (Node.obj (inner.setPath rule v (next :: path))).Distinct :=
          Fields.distinct_setPath rule hv (next :: path) inner hinner
        exact Fields.distinct_set hobj fields h
      · have hobj : (Node.obj (Fields.nil.setPath rule v (next :: path))).Distinct :=
          Fields.distinct_setPath rule hv (next :: path) .nil trivial
        split
        · exact h
        · exact Fields.distinct_set hobj fields h
      · have hobj : (Node.obj (Fields.nil.setPath rule v (next :: path))).Distinct :=
          Fields.distinct_setPath rule hv (next :: path) .nil trivial
        exact Fields.distinct_set hobj fields h

theorem Fields.get_eq_none {key : String} : (fields : Fields α) → key ∉ fields.keys →
    fields.get key = none
  | .nil, _ => rfl
  | .cons k v rest, h => by
      obtain ⟨hk, hrest⟩ : key ≠ k ∧ key ∉ rest.keys := by simpa [Fields.keys] using h
      simp only [Fields.get, Ne.symm hk, if_false]
      exact Fields.get_eq_none rest hrest

/-- A key of the second object of a spread has its value. -/
theorem Fields.get_spread {key : String} : (target source : Fields α) → source.Distinct →
    (target.spread source).get key = (source.get key).or (target.get key)
  | target, .nil, _ => rfl
  | target, .cons k v rest, ⟨hk, _, hrest⟩ => by
      rw [Fields.spread, Fields.get_spread _ rest hrest]
      by_cases heq : k = key
      · subst heq
        simp [Fields.get, Fields.get_set_self, Fields.get_eq_none rest hk]
      · simp [Fields.get, heq, Fields.get_set_of_ne]

/-- A key that the second object does not have keeps the value of the first. -/
theorem Fields.get_spread_of_not_mem {key : String} : (target source : Fields α) →
    key ∉ source.keys → (target.spread source).get key = target.get key
  | target, .nil, _ => rfl
  | target, .cons k v rest, h => by
      obtain ⟨hk, hrest⟩ : key ≠ k ∧ key ∉ rest.keys := by simpa [Fields.keys] using h
      rw [Fields.spread, Fields.get_spread_of_not_mem _ rest hrest,
        Fields.get_set_of_ne (Ne.symm hk)]

theorem Fields.distinct_spread : (target source : Fields α) → target.Distinct →
    source.Distinct → (target.spread source).Distinct
  | _, .nil, h, _ => h
  | target, .cons _ _ rest, h, ⟨_, hv, hrest⟩ =>
      Fields.distinct_spread _ rest (Fields.distinct_set hv target h) hrest

variable {leafP leafQ : List String → α → Prop} {objP objQ : List String → Prop}
  {good : α → α → Prop}

/-- A property of an object with distinct keys is one of the values under its keys. -/
theorem Fields.all_iff_get {path : List String} : (fields : Fields α) → fields.Distinct →
    (fields.All leafP objP path ↔
      ∀ k v, fields.get k = some v → v.All leafP objP (path ++ [k]))
  | .nil, _ => by simp [Fields.All, Fields.get]
  | .cons k v rest, ⟨hk, _, hrest⟩ => by
      rw [Fields.All, Fields.all_iff_get rest hrest]
      constructor
      · rintro ⟨hv, hall⟩ key node hget
        by_cases heq : k = key
        · subst heq
          simp only [Fields.get, if_true, Option.some.injEq] at hget
          exact hget ▸ hv
        · simp only [Fields.get, heq, if_false] at hget
          exact hall key node hget
      · intro hall
        refine ⟨hall k v (by simp [Fields.get]), ?_⟩
        intro key node hget
        have hne : k ≠ key := by
          rintro rfl
          rw [Fields.get_eq_none rest hk] at hget
          cases hget
        exact hall key node (by simpa [Fields.get, hne] using hget)

mutual

/-- Only the properties of leaves below the path count. -/
theorem Node.All.imp_below {pre : List String}
    (hleaf : ∀ path a, pre <+: path → leafP path a → leafQ path a) :
    (path : List String) → pre <+: path → (v : Node α) → v.All leafP objP path →
    v.All leafQ objP path
  | path, hpre, .leaf a, h => hleaf path a hpre h
  | path, hpre, .obj fields, h => ⟨h.1, Fields.All.imp_below hleaf path hpre fields h.2⟩

theorem Fields.All.imp_below {pre : List String}
    (hleaf : ∀ path a, pre <+: path → leafP path a → leafQ path a) :
    (path : List String) → pre <+: path → (fields : Fields α) → fields.All leafP objP path →
    fields.All leafQ objP path
  | _, _, .nil, _ => trivial
  | path, hpre, .cons k v rest, h =>
      ⟨Node.All.imp_below hleaf _ (hpre.trans (List.prefix_append path [k])) v h.1,
        Fields.All.imp_below hleaf path hpre rest h.2⟩

end

mutual

theorem Node.compat_of_all
    (hleaf : ∀ path a b, leafP path a → leafQ path b → good a b)
    (hleafObj : ∀ path a, leafP path a → ¬ objQ path)
    (hobjLeaf : ∀ path b, objP path → ¬ leafQ path b) :
    (path : List String) → (old new : Node α) → old.All leafP objP path →
    new.All leafQ objQ path → new.Distinct → new.Compat good (some old)
  | path, .leaf a, .leaf b, hold, hnew, _ => hleaf path a b hold hnew
  | path, .obj fields, .obj source, hold, hnew, hd =>
      Fields.compat_of_all hleaf hleafObj hobjLeaf path fields source hold.2 hnew.2 hd
  | path, .leaf a, .obj _, hold, hnew, _ => (hleafObj path a hold hnew.1).elim
  | path, .obj _, .leaf b, hold, hnew, _ => (hobjLeaf path b hold.1 hnew).elim

/-- Objects whose leaves and objects lie apart collide leaf on leaf only. -/
theorem Fields.compat_of_all
    (hleaf : ∀ path a b, leafP path a → leafQ path b → good a b)
    (hleafObj : ∀ path a, leafP path a → ¬ objQ path)
    (hobjLeaf : ∀ path b, objP path → ¬ leafQ path b) :
    (path : List String) → (target source : Fields α) → target.All leafP objP path →
    source.All leafQ objQ path → source.Distinct → target.Compat good source
  | _, _, .nil, _, _, _ => trivial
  | path, target, .cons k v rest, htarget, hsource, ⟨hk, hv, hrest⟩ => by
      refine ⟨?_, hk, Fields.compat_of_all hleaf hleafObj hobjLeaf path target rest htarget
        hsource.2 hrest⟩
      cases hget : target.get k with
      | none =>
          rw [Node.Compat]
          trivial
      | some old =>
          exact Node.compat_of_all hleaf hleafObj hobjLeaf _ old v
            (Fields.all_of_get htarget hget) hsource.1 hv

end

mutual

theorem Node.All.imp (hleaf : ∀ path a, leafP path a → leafQ path a)
    (hobj : ∀ path, objP path → objQ path) :
    (path : List String) → (v : Node α) → v.All leafP objP path → v.All leafQ objQ path
  | path, .leaf a, h => hleaf path a h
  | path, .obj fields, h => ⟨hobj path h.1, Fields.All.imp hleaf hobj path fields h.2⟩

theorem Fields.All.imp (hleaf : ∀ path a, leafP path a → leafQ path a)
    (hobj : ∀ path, objP path → objQ path) :
    (path : List String) → (fields : Fields α) → fields.All leafP objP path →
    fields.All leafQ objQ path
  | _, .nil, _ => trivial
  | path, .cons _ v rest, h =>
      ⟨Node.All.imp hleaf hobj _ v h.1, Fields.All.imp hleaf hobj path rest h.2⟩

end

mutual

theorem Node.all_map (f : α → α) : (path : List String) → (v : Node α) →
    ((v.map f).All leafP objP path ↔ v.All (fun p a => leafP p (f a)) objP path)
  | _, .leaf _ => Iff.rfl
  | path, .obj fields => by
      simp only [Node.map, Node.All]
      rw [Fields.all_map f path fields]

/-- A property of the mapped leaves is a property of the leaves. -/
theorem Fields.all_map (f : α → α) : (path : List String) → (fields : Fields α) →
    ((fields.map f).All leafP objP path ↔ fields.All (fun p a => leafP p (f a)) objP path)
  | _, .nil => Iff.rfl
  | path, .cons k v rest => by
      simp only [Fields.map, Fields.All]
      rw [Node.all_map f _ v, Fields.all_map f path rest]

end

theorem Fields.keys_map (f : α → α) : (fields : Fields α) → (fields.map f).keys = fields.keys
  | .nil => rfl
  | .cons k _ rest => by rw [Fields.map, Fields.keys, Fields.keys_map f rest, Fields.keys]

mutual

theorem Node.distinct_map (f : α → α) : (v : Node α) → v.Distinct → (v.map f).Distinct
  | .leaf _, _ => trivial
  | .obj fields, h => Fields.distinct_map f fields h

theorem Fields.distinct_map (f : α → α) :
    (fields : Fields α) → fields.Distinct → (fields.map f).Distinct
  | .nil, _ => trivial
  | .cons _ v rest, ⟨hk, hv, hrest⟩ =>
      ⟨by rwa [Fields.keys_map], Node.distinct_map f v hv, Fields.distinct_map f rest hrest⟩

end

end Places

/-! ## Where leaves and objects may lie

Every leaf of an object lies at a place of `G` and every object below it at a place of `O`. A
merge makes no new places, an assignment along a path only those on the path. -/

section Layout

variable {G O : List String → Prop}

mutual

theorem Node.layout_mergeInto (rule : Rule α) :
    (path : List String) → (old : Option (Node α)) → (new : Node α) →
    (∀ v, old = some v → v.All (fun p _ => G p) O path) → new.All (fun p _ => G p) O path →
    (new.mergeInto rule old).All (fun p _ => G p) O path
  | _, none, new, _, hnew => by
      rw [Node.mergeInto]
      exact hnew
  | path, some (.obj fields), .obj source, hold, hnew => by
      rw [Node.mergeInto]
      have hfields := hold _ rfl
      exact ⟨hfields.1, Fields.layout_merge rule path fields source hfields.2 hnew.2⟩
  | path, some (.leaf a), new, hold, hnew => by
      have hplace : G path := hold (.leaf a) rfl
      rw [Node.mergeInto]
      split
      · exact hnew
      · exact hplace
  | path, some (.obj fields), .leaf b, _, hnew => by
      rw [Node.mergeInto]
      exact hnew

theorem Fields.layout_merge (rule : Rule α) :
    (path : List String) → (target source : Fields α) →
    target.All (fun p _ => G p) O path → source.All (fun p _ => G p) O path →
    (target.merge rule source).All (fun p _ => G p) O path
  | _, target, .nil, htarget, _ => by
      rw [Fields.merge]
      exact htarget
  | path, target, .cons k v rest, htarget, hsource => by
      rw [Fields.merge]
      refine Fields.layout_merge rule path _ rest (Fields.all_set k htarget ?_) hsource.2
      exact Node.layout_mergeInto rule _ _ v (fun _ hget => Fields.all_of_get htarget hget)
        hsource.1

end

theorem Fields.layout_setPath (rule : Rule α) {v : Node α} :
    (path pre : List String) → (fields : Fields α) → path ≠ [] →
    fields.All (fun p _ => G p) O pre → v.All (fun p _ => G p) O (pre ++ path) →
    (∀ p, p <+: pre ++ path → p ≠ pre ++ path → O p) →
    (fields.setPath rule v path).All (fun p _ => G p) O pre
  | [], _, _, hne, _, _, _ => absurd rfl hne
  | [_], _, _, _, hfields, hv, _ => Fields.all_set _ hfields hv
  | key :: next :: path, pre, fields, _, hfields, hv, habove => by
      have hassoc : pre ++ key :: next :: path = (pre ++ [key]) ++ next :: path := by simp
      have hkey : O (pre ++ [key]) := by
        apply habove
        · rw [hassoc]
          exact List.prefix_append _ _
        · simp
      rw [hassoc] at hv habove
      -- What stands at the key becomes an object with the rest of the path in it.
      have hset : ∀ inner : Fields α, inner.All (fun p _ => G p) O (pre ++ [key]) →
          (fields.set key (.obj (inner.setPath rule v (next :: path)))).All (fun p _ => G p) O pre :=
        fun inner hinner => Fields.all_set key hfields
          ⟨hkey, Fields.layout_setPath rule (next :: path) _ inner nofun hinner hv habove⟩
      rw [Fields.setPath]
      split
      · rename_i inner hget
        exact hset inner (Fields.all_of_get hfields hget).2
      · split
        · exact hfields
        · exact hset .nil trivial
      · exact hset .nil trivial

theorem Fields.layout_map (f : α → α) {path : List String} {fields : Fields α}
    (h : fields.All (fun p _ => G p) O path) : (fields.map f).All (fun p _ => G p) O path :=
  (Fields.all_map f path fields).mpr h

theorem Fields.layout_spread {path : List String} : (target source : Fields α) →
    target.All (fun p _ => G p) O path → source.All (fun p _ => G p) O path →
    (target.spread source).All (fun p _ => G p) O path
  | _, .nil, htarget, _ => htarget
  | _, .cons k _ rest, htarget, hsource =>
      Fields.layout_spread _ rest (Fields.all_set k htarget hsource.1) hsource.2

end Layout

/-! ## Objects with one leaf -/

section Single

variable {leafP : List String → α → Prop} {objP : List String → Prop}

theorem Fields.distinct_single (a : α) : (path : List String) → (single a path).Distinct
  | [] => trivial
  | [_] => ⟨by simp [Fields.keys], trivial, trivial⟩
  | _ :: next :: path =>
      ⟨by simp [Fields.keys], Fields.distinct_single a (next :: path), trivial⟩

/-- Its leaf lies at the path, its objects strictly above. -/
theorem Fields.all_single {a : α} : (pre path : List String) → leafP (pre ++ path) a →
    (∀ p, p <+: pre ++ path → p ≠ pre ++ path → objP p) →
    (single a path).All leafP objP pre
  | _, [], _, _ => trivial
  | _, [_], hleaf, _ => ⟨hleaf, trivial⟩
  | pre, key :: next :: path, hleaf, hobj => by
      have hassoc : pre ++ key :: next :: path = (pre ++ [key]) ++ next :: path := by simp
      refine ⟨⟨hobj (pre ++ [key]) ?_ ?_, Fields.all_single _ (next :: path) ?_ ?_⟩, trivial⟩
      · rw [hassoc]
        exact List.prefix_append _ _
      · simp
      · rw [← hassoc]
        exact hleaf
      · rw [← hassoc]
        exact hobj

theorem Fields.leaf_of_all_single {a : α} : (pre path : List String) → path ≠ [] →
    (single a path).All leafP objP pre → leafP (pre ++ path) a
  | _, [], hne, _ => absurd rfl hne
  | _, [_], _, h => h.1
  | pre, key :: next :: path, _, h => by
      have hrec := Fields.leaf_of_all_single (pre ++ [key]) (next :: path) (by simp) h.1.2
      simpa using hrec

theorem Fields.setPath_nil (rule : Rule α) (a : α) :
    (path : List String) → Fields.nil.setPath rule (.leaf a) path = single a path
  | [] => rfl
  | [_] => rfl
  | key :: next :: path => by
      rw [Fields.setPath, Fields.get]
      simp only [Fields.setPath_nil rule a (next :: path), Fields.set, single]

/-- Where nothing collides, an assignment along a path merges the object with that leaf. -/
theorem Fields.setPath_eq_merge (rule : Rule α) (a : α) :
    (path : List String) → (fields : Fields α) →
    fields.Compat (fun _ _ => False) (single a path) →
    fields.setPath rule (.leaf a) path = fields.merge rule (single a path)
  | [], _, _ => rfl
  | [key], fields, h => by
      obtain ⟨h, -, -⟩ := h
      cases hget : fields.get key with
      | none =>
          show fields.set key (.leaf a) =
            fields.set key (Node.mergeInto rule (fields.get key) (.leaf a))
          rw [hget, Node.mergeInto]
      | some old =>
          rw [hget] at h
          cases old with
          | leaf b => exact h.elim
          | obj inner => exact h.elim
  | key :: next :: path, fields, h => by
      obtain ⟨h, -, -⟩ := h
      cases hget : fields.get key with
      | none =>
          show Fields.setPath rule (.leaf a) (key :: next :: path) fields =
            fields.set key (Node.mergeInto rule (fields.get key)
              (.obj (single a (next :: path))))
          rw [Fields.setPath, hget, Node.mergeInto, Fields.setPath_nil]
      | some old =>
          rw [hget] at h
          cases old with
          | leaf b => exact h.elim
          | obj inner =>
              show Fields.setPath rule (.leaf a) (key :: next :: path) fields =
                fields.set key (Node.mergeInto rule (fields.get key)
                  (.obj (single a (next :: path))))
              rw [Fields.setPath, hget, Node.mergeInto]
              show fields.set key (.obj (inner.setPath rule (.leaf a) (next :: path))) = _
              rw [Fields.setPath_eq_merge rule a (next :: path) inner h]

end Single

end ErpApi.ObjectTree
