import Mathlib.Data.List.Infix
import Mathlib.Data.List.Nodup
import Mathlib.Data.List.Perm.Basic
import Mathlib.Logic.Relation

set_option autoImplicit false

/-! # Nested-set numberings

A forest is numbered by a walk: a counter gives each node its left bound on the way in and its
right bound on the way out. The intervals use every number once (`Forest.perm_bounds`), and one
contains another exactly when its node lies above the other's (`Forest.contains_iff`).

The forests here are unfolded from parent pointers (`Family.unfold`). A node then has one path
to a root, the chain of its parents, so the walk meets no node twice and needs no more depth
than there are nodes (`Family.unfold_isSome`).
-/

namespace ErpApi.NestedSet

variable {α : Type}

/-! ## Forests -/

/-- A forest: the first tree by its root and the forest of its children, then the others. -/
inductive Forest (α : Type) where
  | nil
  | cons (a : α) (children siblings : Forest α)

/-- The interval of a node, with the path from the node up to its root. -/
structure Entry (α : Type) where
  path : List α
  lft : Nat
  rgt : Nat

namespace Forest

def size : Forest α → Nat
  | .nil => 0
  | .cons _ children siblings => children.size + siblings.size + 1

def tops : Forest α → List α
  | .nil => []
  | .cons a _ siblings => a :: siblings.tops

/-- The nodes, in the order of the walk. -/
def ids : Forest α → List α
  | .nil => []
  | .cons a children siblings => a :: (children.ids ++ siblings.ids)

/-- No two siblings are equal. -/
def Distinct : Forest α → Prop
  | .nil => True
  | .cons a children siblings => a ∉ siblings.tops ∧ children.Distinct ∧ siblings.Distinct

/-- The intervals that a walk from the counter `c` gives. -/
def entries (path : List α) (c : Nat) : Forest α → List (Entry α)
  | .nil => []
  | .cons a children siblings =>
      ⟨a :: path, c, c + 2 * children.size + 1⟩ ::
        (children.entries (a :: path) (c + 1) ++
          siblings.entries path (c + 2 * children.size + 2))

theorem bounds {path : List α} {c : Nat} {f : Forest α} :
    ∀ e ∈ f.entries path c, c ≤ e.lft ∧ e.lft < e.rgt ∧ e.rgt < c + 2 * f.size := by
  induction f generalizing path c with
  | nil => simp [entries]
  | cons a children siblings ihc ihs =>
      intro e he
      rw [size]
      rcases List.mem_cons.mp he with rfl | he
      · refine ⟨le_refl _, ?_, ?_⟩
        · show c < c + 2 * children.size + 1
          omega
        · show c + 2 * children.size + 1 < _
          omega
      · rcases List.mem_append.mp he with he | he
        · obtain ⟨h1, h2, h3⟩ := ihc e he
          omega
        · obtain ⟨h1, h2, h3⟩ := ihs e he
          omega

/-- **The bounds are the numbers from the counter on**, each once. -/
theorem perm_bounds (path : List α) (c : Nat) (f : Forest α) :
    ((f.entries path c).flatMap fun e => [e.lft, e.rgt]).Perm (List.range' c (2 * f.size)) := by
  induction f generalizing path c with
  | nil => simp [entries, size]
  | cons a children siblings ihc ihs =>
      have hrange : List.range' c (2 * (children.size + siblings.size + 1)) =
          c :: (List.range' (c + 1) (2 * children.size) ++
            (c + 2 * children.size + 1) ::
              List.range' (c + 2 * children.size + 2) (2 * siblings.size)) := by
        have hsum : 2 * (children.size + siblings.size + 1) =
            (2 * children.size + (2 * siblings.size + 1)) + 1 := by omega
        rw [hsum, List.range'_succ, ← List.range'_append_1, List.range'_succ]
        have hmid : c + 1 + 2 * children.size = c + 2 * children.size + 1 := by omega
        rw [hmid]
      rw [size, hrange, entries, List.flatMap_cons, List.flatMap_append]
      refine List.Perm.cons c ?_
      refine List.Perm.trans ?_ List.perm_middle.symm
      exact List.Perm.cons _ ((ihc (a :: path) (c + 1)).append
        (ihs path (c + 2 * children.size + 2)))

theorem length_entries (path : List α) (c : Nat) (f : Forest α) :
    (f.entries path c).length = f.size := by
  induction f generalizing path c with
  | nil => rfl
  | cons a children siblings ihc ihs =>
      simp only [entries, List.length_cons, List.length_append, ihc, ihs, size]

theorem map_head_entries (path : List α) (c : Nat) (f : Forest α) :
    (f.entries path c).map (fun e => e.path.head?) = f.ids.map some := by
  induction f generalizing path c with
  | nil => rfl
  | cons a children siblings ihc ihs =>
      simp only [entries, ids, List.map_cons, List.map_append, ihc, ihs, List.head?_cons]

theorem length_ids (f : Forest α) : f.ids.length = f.size := by
  have hlength := congrArg List.length (map_head_entries [] 0 f)
  rw [List.length_map, List.length_map, length_entries] at hlength
  exact hlength.symm

/-! ## Containment -/

/-- A path ends with the path of the forest, below one of its roots. -/
theorem suffix_path {path : List α} {c : Nat} {f : Forest α} :
    ∀ e ∈ f.entries path c, ∃ t ∈ f.tops, t :: path <:+ e.path := by
  induction f generalizing path c with
  | nil => simp [entries]
  | cons a children siblings ihc ihs =>
      intro e he
      rcases List.mem_cons.mp he with rfl | he
      · exact ⟨a, List.mem_cons_self, List.suffix_refl _⟩
      · rcases List.mem_append.mp he with he | he
        · obtain ⟨t, -, ht⟩ := ihc e he
          exact ⟨a, List.mem_cons_self, (List.suffix_cons t (a :: path)).trans ht⟩
        · obtain ⟨t, ht, hsuffix⟩ := ihs e he
          exact ⟨t, List.mem_cons_of_mem _ ht, hsuffix⟩

/-- Paths below different roots are not suffixes of each other. -/
theorem not_suffix_of_ne {a t : α} {path p q : List α} (hne : a ≠ t) (hp : a :: path <:+ p)
    (hq : t :: path <:+ q) : ¬ p <:+ q := by
  intro hpq
  have hsuffix : a :: path <:+ t :: path :=
    List.suffix_of_suffix_length_le (hp.trans hpq) hq (le_refl _)
  have heq : a :: path = t :: path := hsuffix.eq_of_length rfl
  exact hne (List.cons.inj heq).1

/-- The first tree of a forest: its root, or a node below it. -/
theorem suffix_first {a : α} {path : List α} {c : Nat} {children : Forest α} {e : Entry α}
    (he : e = ⟨a :: path, c, c + 2 * children.size + 1⟩ ∨
      e ∈ children.entries (a :: path) (c + 1)) :
    a :: path <:+ e.path ∧ c ≤ e.lft ∧ e.rgt ≤ c + 2 * children.size + 1 := by
  rcases he with rfl | he
  · exact ⟨List.suffix_refl _, le_refl _, le_refl _⟩
  · obtain ⟨t, -, ht⟩ := suffix_path e he
    obtain ⟨h1, -, h3⟩ := bounds e he
    refine ⟨(List.suffix_cons t (a :: path)).trans ht, ?_, ?_⟩ <;> omega

/-- An interval of the first tree and one of the other trees are apart, and so are the paths. -/
theorem apart {a : α} {path : List α} {c : Nat} {children siblings : Forest α} {e e' : Entry α}
    (ha : a ∉ siblings.tops)
    (he : e = ⟨a :: path, c, c + 2 * children.size + 1⟩ ∨
      e ∈ children.entries (a :: path) (c + 1))
    (he' : e' ∈ siblings.entries path (c + 2 * children.size + 2)) :
    e.rgt < e'.lft ∧ ¬ e.path <:+ e'.path ∧ ¬ e'.path <:+ e.path := by
  obtain ⟨hsuffix, -, hrgt⟩ := suffix_first he
  obtain ⟨t, ht, hsuffix'⟩ := suffix_path e' he'
  obtain ⟨hlft, -, -⟩ := bounds e' he'
  have hne : a ≠ t := fun heq => ha (heq ▸ ht)
  exact ⟨by omega, not_suffix_of_ne hne hsuffix hsuffix',
    not_suffix_of_ne hne.symm hsuffix' hsuffix⟩

/-- **An interval contains another exactly when its node lies above the other's.** -/
theorem contains_iff {path : List α} {c : Nat} {f : Forest α} (hd : f.Distinct) :
    ∀ e ∈ f.entries path c, ∀ e' ∈ f.entries path c,
      (e.lft < e'.lft ∧ e'.rgt < e.rgt ↔ e.path <:+ e'.path ∧ e.path ≠ e'.path) := by
  induction f generalizing path c with
  | nil => simp [entries]
  | cons a children siblings ihc ihs =>
      obtain ⟨ha, hc, hs⟩ := hd
      intro e he e' he'
      rw [entries, List.mem_cons, List.mem_append, ← or_assoc] at he he'
      rcases he with he | he <;> rcases he' with he' | he'
      · -- Both in the first tree.
        rcases he with rfl | he <;> rcases he' with rfl | he'
        · simp
        · obtain ⟨t, -, ht⟩ := suffix_path e' he'
          obtain ⟨h1, h2, h3⟩ := bounds e' he'
          have hlen : (a :: path).length < e'.path.length := ht.length_le
          constructor
          · intro _
            refine ⟨(List.suffix_cons t (a :: path)).trans ht, ?_⟩
            intro heq
            rw [← heq] at hlen
            exact absurd hlen (lt_irrefl _)
          · intro _
            show c < e'.lft ∧ e'.rgt < c + 2 * children.size + 1
            omega
        · obtain ⟨t, -, ht⟩ := suffix_path e he
          obtain ⟨h1, h2, h3⟩ := bounds e he
          have hlen : (a :: path).length < e.path.length := ht.length_le
          constructor
          · rintro ⟨hlt, -⟩
            have : e.lft < c := hlt
            omega
          · rintro ⟨hsuffix, -⟩
            have hle := hsuffix.length_le
            exact absurd (lt_of_lt_of_le hlen hle) (lt_irrefl _)
        · exact ihc hc e he e' he'
      · obtain ⟨hlt, hno, -⟩ := apart ha he he'
        obtain ⟨-, hrgt, -⟩ := bounds e' he'
        constructor
        · rintro ⟨-, hcontains⟩
          omega
        · rintro ⟨hsuffix, -⟩
          exact absurd hsuffix hno
      · obtain ⟨hlt, -, hno⟩ := apart ha he' he
        obtain ⟨-, hrgt, -⟩ := bounds e he
        constructor
        · rintro ⟨hcontains, -⟩
          have : e'.lft < e'.rgt := by
            rcases he' with rfl | he'
            · show c < c + 2 * children.size + 1
              omega
            · exact (bounds e' he').2.1
          omega
        · rintro ⟨hsuffix, -⟩
          exact absurd hsuffix hno
      · exact ihs hs e he e' he'

/-- No path is met twice. -/
theorem nodup_paths {path : List α} {c : Nat} {f : Forest α} (hd : f.Distinct) :
    ((f.entries path c).map Entry.path).Nodup := by
  induction f generalizing path c with
  | nil => simp [entries]
  | cons a children siblings ihc ihs =>
      obtain ⟨ha, hc, hs⟩ := hd
      rw [entries, List.map_cons, List.map_append, List.nodup_cons, List.nodup_append]
      refine ⟨?_, ihc hc, ihs hs, ?_⟩
      · intro hmem
        rcases List.mem_append.mp hmem with hmem | hmem
        · obtain ⟨e, he, hpath⟩ := List.mem_map.mp hmem
          obtain ⟨t, -, ht⟩ := suffix_path e he
          have hlen := ht.length_le
          rw [hpath] at hlen
          simp only [List.length_cons] at hlen
          omega
        · obtain ⟨e, he, hpath⟩ := List.mem_map.mp hmem
          obtain ⟨-, hno, -⟩ := apart ha (.inl rfl) he
          exact hno (hpath ▸ List.suffix_refl _)
      · intro p hp q hq heq
        obtain ⟨e, he, rfl⟩ := List.mem_map.mp hp
        obtain ⟨e', he', rfl⟩ := List.mem_map.mp hq
        obtain ⟨-, hno, -⟩ := apart ha (.inr he) he'
        exact hno (heq ▸ List.suffix_refl _)

end Forest

/-! ## Chains of parents -/

section Chain

variable (parent : α → Option α)

/-- Each node of the list is followed by its parent; the last one is a root. -/
def Chain : List α → Prop
  | [] => True
  | a :: path => parent a = path.head? ∧ Chain path

variable {parent}

/-- A chain is determined by where it starts. -/
theorem Chain.eq_of_head : ∀ {p q : List α}, Chain parent p → Chain parent q →
    p.head? = q.head? → p = q
  | [], [], _, _, _ => rfl
  | [], _ :: _, _, _, h => by cases h
  | _ :: _, [], _, _, h => by cases h
  | a :: p, b :: q, hp, hq, h => by
      obtain rfl : a = b := Option.some.inj h
      rw [hp.2.eq_of_head hq.2 (hp.1.symm.trans hq.1)]

theorem Chain.of_suffix : ∀ {p q : List α}, q <:+ p → Chain parent p → Chain parent q
  | [], q, h, _ => by
      rw [List.suffix_nil.mp h]
      trivial
  | a :: p, q, h, hp => by
      rcases List.suffix_cons_iff.mp h with rfl | h
      · exact hp
      · exact hp.2.of_suffix h

/-- A chain has no node twice: it would go on in the same way from both places. -/
theorem Chain.nodup : ∀ {p : List α}, Chain parent p → p.Nodup
  | [], _ => List.nodup_nil
  | a :: p, hp => by
      refine List.nodup_cons.mpr ⟨?_, hp.2.nodup⟩
      intro hmem
      obtain ⟨before, rest, rfl⟩ := List.append_of_mem hmem
      have hsuffix : a :: rest <:+ a :: (before ++ a :: rest) :=
        (List.suffix_append before (a :: rest)).trans (List.suffix_cons _ _)
      have heq := (hp.of_suffix hsuffix).eq_of_head hp rfl
      have hlen := congrArg List.length heq
      simp at hlen
      omega

/-- One node is a proper ancestor of another. -/
def Ancestor (parent : α → Option α) : α → α → Prop :=
  Relation.TransGen fun x y => parent y = some x

/-- The proper ancestors of a node are the nodes above it on its chain. -/
theorem Chain.ancestor_iff {a b : α} : ∀ {p : List α}, Chain parent (b :: p) →
    (Ancestor parent a b ↔ a ∈ p)
  | [], hp => by
      constructor
      · intro h
        obtain ⟨y, -, hy⟩ := Relation.TransGen.tail'_iff.mp h
        rw [hp.1] at hy
        cases hy
      · intro h
        cases h
  | c :: p, hp => by
      have hparent : parent b = some c := hp.1
      have ih : Ancestor parent a c ↔ a ∈ p := hp.2.ancestor_iff
      rw [List.mem_cons, ← ih]
      constructor
      · intro h
        obtain ⟨y, hay, hy⟩ := Relation.TransGen.tail'_iff.mp h
        obtain rfl : c = y := Option.some.inj (hparent.symm.trans hy)
        rcases Relation.reflTransGen_iff_eq_or_transGen.mp hay with rfl | hay
        · exact .inl rfl
        · exact .inr hay
      · rintro (rfl | h)
        · exact Relation.TransGen.single hparent
        · exact Relation.TransGen.tail h hparent

/-- On chains, lying above is being a proper suffix. -/
theorem Chain.suffix_iff {a b : α} {p q : List α} (hp : Chain parent (a :: p))
    (hq : Chain parent (b :: q)) :
    (a :: p <:+ b :: q ∧ a :: p ≠ b :: q) ↔ Ancestor parent a b := by
  rw [hq.ancestor_iff]
  constructor
  · rintro ⟨hsuffix, hne⟩
    rcases List.suffix_cons_iff.mp hsuffix with heq | hsuffix
    · exact absurd heq hne
    · exact hsuffix.subset List.mem_cons_self
  · intro hmem
    obtain ⟨before, rest, rfl⟩ := List.append_of_mem hmem
    have hsuffix : a :: rest <:+ b :: (before ++ a :: rest) :=
      (List.suffix_append before (a :: rest)).trans (List.suffix_cons _ _)
    have heq : a :: rest = a :: p := (hq.of_suffix hsuffix).eq_of_head hp rfl
    rw [← heq]
    refine ⟨hsuffix, ?_⟩
    intro hsame
    have hlen := congrArg List.length hsame
    simp at hlen
    omega

end Chain

/-! ## Forests of parent pointers -/

/-- A finite set of nodes with their parents, and the children of each in some order. -/
structure Family (α : Type) where
  nodes : List α
  parent : α → Option α
  children : Option α → List α
  mem_children : ∀ {p a}, a ∈ children p ↔ a ∈ nodes ∧ parent a = p
  nodup_children : ∀ p, (children p).Nodup

namespace Family

/-- The trees with the given roots, each with the forest below it. -/
def plant (below : α → Option (Forest α)) : List α → Option (Forest α)
  | [] => some .nil
  | a :: as =>
      match below a, plant below as with
      | some children, some siblings => some (.cons a children siblings)
      | _, _ => none

/-- The forest below a node, or below no node; `none` if the depth does not suffice. -/
def unfold (family : Family α) : Nat → Option α → Option (Forest α)
  | 0, _ => none
  | depth + 1, p => plant (fun a => family.unfold depth (some a)) (family.children p)

theorem plant_cons {below : α → Option (Forest α)} {a : α} {as : List α} {f : Forest α}
    (h : plant below (a :: as) = some f) :
    ∃ children siblings, below a = some children ∧ plant below as = some siblings ∧
      f = .cons a children siblings := by
  rw [plant] at h
  split at h
  · rename_i children siblings hc hs
    exact ⟨children, siblings, hc, hs, (Option.some.inj h).symm⟩
  · cases h

theorem tops_plant {below : α → Option (Forest α)} {as : List α} {f : Forest α}
    (h : plant below as = some f) : f.tops = as := by
  induction as generalizing f with
  | nil => rw [← Option.some.inj h, Forest.tops]
  | cons a as ih =>
      obtain ⟨children, siblings, -, hs, rfl⟩ := plant_cons h
      rw [Forest.tops, ih hs]

variable {family : Family α}

/-- **Siblings are distinct** in an unfolded forest. -/
theorem distinct_unfold {depth : Nat} {p : Option α} {f : Forest α}
    (h : family.unfold depth p = some f) : f.Distinct := by
  induction depth generalizing p f with
  | zero => cases h
  | succ depth ih =>
      rw [unfold] at h
      have hnodup := family.nodup_children p
      generalize family.children p = as at h hnodup
      induction as generalizing f with
      | nil =>
          rw [← Option.some.inj h]
          trivial
      | cons a as ihas =>
          obtain ⟨children, siblings, hc, hs, rfl⟩ := plant_cons h
          obtain ⟨ha, hnodup⟩ := List.nodup_cons.mp hnodup
          refine ⟨?_, ih hc, ihas hs hnodup⟩
          rw [tops_plant hs]
          exact ha

/-- **The path of every node is its chain of parents**, inside the family. -/
theorem chain_unfold {depth : Nat} {path : List α} {f : Forest α} {c : Nat}
    (h : family.unfold depth path.head? = some f) (hpath : Chain family.parent path)
    (hmem : ∀ a ∈ path, a ∈ family.nodes) :
    ∀ e ∈ f.entries path c, e.path ≠ [] ∧ Chain family.parent e.path ∧
      ∀ a ∈ e.path, a ∈ family.nodes := by
  induction depth generalizing path f c with
  | zero => cases h
  | succ depth ih =>
      rw [unfold] at h
      have hchildren : ∀ a ∈ family.children path.head?, a ∈ family.nodes ∧
          family.parent a = path.head? := fun a ha => family.mem_children.mp ha
      generalize family.children path.head? = as at h hchildren
      induction as generalizing f c with
      | nil =>
          rw [← Option.some.inj h]
          intro e he
          cases he
      | cons a as ihas =>
          obtain ⟨children, siblings, hc, hs, rfl⟩ := plant_cons h
          obtain ⟨hnode, hparent⟩ := hchildren a List.mem_cons_self
          have hchain : Chain family.parent (a :: path) := ⟨hparent, hpath⟩
          have hmem' : ∀ b ∈ a :: path, b ∈ family.nodes := List.forall_mem_cons.mpr ⟨hnode, hmem⟩
          intro e he
          rcases List.mem_cons.mp he with rfl | he
          · exact ⟨List.cons_ne_nil _ _, hchain, hmem'⟩
          · rcases List.mem_append.mp he with he | he
            · have hhead : family.unfold depth (a :: path).head? = some children := hc
              exact ih hhead hchain hmem' e he
            · exact ihas hs (fun b hb => hchildren b (List.mem_cons_of_mem _ hb)) e he

/-- **The depth suffices**: a chain of parents is no longer than the family is large. -/
theorem unfold_isSome {depth : Nat} {path : List α} (hpath : Chain family.parent path)
    (hmem : ∀ a ∈ path, a ∈ family.nodes) (hdepth : family.nodes.length < path.length + depth) :
    ∃ f, family.unfold depth path.head? = some f := by
  induction depth generalizing path with
  | zero =>
      have hle := (List.subperm_of_subset hpath.nodup hmem).length_le
      omega
  | succ depth ih =>
      rw [unfold]
      have hchildren : ∀ a ∈ family.children path.head?, a ∈ family.nodes ∧
          family.parent a = path.head? := fun a ha => family.mem_children.mp ha
      generalize family.children path.head? = as at hchildren
      induction as with
      | nil => exact ⟨.nil, rfl⟩
      | cons a as ihas =>
          obtain ⟨hnode, hparent⟩ := hchildren a List.mem_cons_self
          have hchain : Chain family.parent (a :: path) := ⟨hparent, hpath⟩
          have hmem' : ∀ b ∈ a :: path, b ∈ family.nodes := List.forall_mem_cons.mpr ⟨hnode, hmem⟩
          obtain ⟨children, hc⟩ := ih hchain hmem' (by
            rw [List.length_cons]
            omega)
          obtain ⟨siblings, hs⟩ := ihas fun b hb => hchildren b (List.mem_cons_of_mem _ hb)
          have hc' : family.unfold depth (some a) = some children := hc
          exact ⟨.cons a children siblings, by rw [plant, hc', hs]⟩

/-- No node is met twice in the forest below no node. -/
theorem nodup_ids_unfold {depth : Nat} {f : Forest α} (h : family.unfold depth none = some f) :
    f.ids.Nodup := by
  have hnone : family.unfold depth ([] : List α).head? = some f := h
  have hchain := chain_unfold (c := 0) hnone trivial (by simp)
  have hheads : ((f.entries [] 0).map fun e => e.path.head?).Nodup := by
    have hpaths : ((f.entries [] 0).map Entry.path).Nodup := Forest.nodup_paths (distinct_unfold h)
    have hmap := List.Nodup.map_on (f := List.head?) ?_ hpaths
    · rwa [List.map_map] at hmap
    · intro p hp q hq heq
      obtain ⟨e, he, rfl⟩ := List.mem_map.mp hp
      obtain ⟨e', he', rfl⟩ := List.mem_map.mp hq
      exact (hchain e he).2.1.eq_of_head (hchain e' he').2.1 heq
  rw [Forest.map_head_entries] at hheads
  exact List.Nodup.of_map _ hheads

/-! ### The nodes of the forest -/

/-- The node reaches a root through parents in the family. -/
inductive Rooted (family : Family α) : α → Prop
  | root {a : α} : a ∈ family.nodes → family.parent a = none → Rooted family a
  | child {a p : α} : a ∈ family.nodes → family.parent a = some p → Rooted family p →
      Rooted family a

theorem Rooted.of_chain : ∀ {a : α} {path : List α}, Chain family.parent (a :: path) →
    (∀ b ∈ a :: path, b ∈ family.nodes) → family.Rooted a
  | _, [], hchain, hmem => .root (hmem _ List.mem_cons_self) hchain.1
  | _, _ :: _, hchain, hmem =>
      .child (hmem _ List.mem_cons_self) hchain.1
        (Rooted.of_chain hchain.2 fun b hb => hmem b (List.mem_cons_of_mem _ hb))

/-- The children of the node below which the forest lies. -/
theorem mem_unfold_of_mem {depth : Nat} {p : Option α} {f : Forest α}
    (h : family.unfold depth p = some f) {a : α} (ha : a ∈ family.children p) : a ∈ f.ids := by
  cases depth with
  | zero => cases h
  | succ depth =>
      rw [unfold] at h
      generalize family.children p = as at h ha
      induction as generalizing f with
      | nil => cases ha
      | cons b as ihas =>
          obtain ⟨children, siblings, -, hs, rfl⟩ := plant_cons h
          rw [Forest.ids]
          rcases List.mem_cons.mp ha with rfl | ha
          · exact List.mem_cons_self
          · exact List.mem_cons_of_mem _ (List.mem_append_right _ (ihas hs ha))

/-- With a node the forest has the children of the node. -/
theorem mem_unfold_of_parent {depth : Nat} {p : Option α} {f : Forest α}
    (h : family.unfold depth p = some f) {a b : α} (ha : a ∈ f.ids)
    (hb : b ∈ family.children (some a)) : b ∈ f.ids := by
  induction depth generalizing p f with
  | zero => cases h
  | succ depth ih =>
      rw [unfold] at h
      generalize family.children p = as at h
      induction as generalizing f with
      | nil =>
          rw [← Option.some.inj h] at ha
          cases ha
      | cons c as ihas =>
          obtain ⟨children, siblings, hc, hs, rfl⟩ := plant_cons h
          rw [Forest.ids] at ha ⊢
          rcases List.mem_cons.mp ha with rfl | ha
          · have hmem := mem_unfold_of_mem hc hb
            exact List.mem_cons_of_mem _ (List.mem_append_left _ hmem)
          · rcases List.mem_append.mp ha with ha | ha
            · exact List.mem_cons_of_mem _ (List.mem_append_left _ (ih hc ha))
            · exact List.mem_cons_of_mem _ (List.mem_append_right _ (ihas ha hs))

/-- **The forest below no node has the nodes that reach a root.** -/
theorem mem_unfold_iff {depth : Nat} {f : Forest α} (h : family.unfold depth none = some f)
    {a : α} : a ∈ f.ids ↔ family.Rooted a := by
  constructor
  · intro ha
    have hhead : some a ∈ (f.entries [] 0).map fun e => e.path.head? := by
      rw [Forest.map_head_entries]
      exact List.mem_map_of_mem ha
    obtain ⟨e, he, hpath⟩ := List.mem_map.mp hhead
    have hnone : family.unfold depth ([] : List α).head? = some f := h
    obtain ⟨-, hchain, hmem⟩ := chain_unfold hnone trivial (by simp) e he
    obtain ⟨rest, hrest⟩ := List.head?_eq_some_iff.mp hpath
    rw [hrest] at hchain hmem
    exact .of_chain hchain hmem
  · intro ha
    induction ha with
    | root hnode hparent => exact mem_unfold_of_mem h (family.mem_children.mpr ⟨hnode, hparent⟩)
    | child hnode hparent _ ih =>
        exact mem_unfold_of_parent h ih (family.mem_children.mpr ⟨hnode, hparent⟩)

end Family

end ErpApi.NestedSet
