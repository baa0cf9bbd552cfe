import ErpApi.Basic.NestedSet
import ErpApi.Basic.ShortCircuit
import ErpApi.Common.BaseService

set_option autoImplicit false

/-! # Rebuilding a nested set

`rebuildNestedSet` recomputes `lft` and `rgt` of all nodes of a tree by a walk from the roots.
The walk is recursive and looks at nothing but the parents, so it would not end on some lists of
nodes; on nodes with distinct ids it ends within a depth of one more than their number
(`visit_isSome`). A node that the walk does not reach makes the function throw. If it does not
throw, the parents form a forest and the bounds are its nested-set numbering
(`rebuildNestedSet_isNestedSet`).
-/

namespace ErpApi.Inventory

open ErpApi.NestedSet

structure NestedSetNode where
  id : String
  parentId : Option String
  lft : Nat
  rgt : Nat
  deriving DecidableEq

/-- The nodes that `byParent` holds for a parent, in the order of the list. -/
def byParent (nodes : List NestedSetNode) (parentId : Option String) : List NestedSetNode :=
  nodes.filter fun node => node.parentId = parentId

/-- The variables of the walk: the counter, the visited ids, and the bounds of the nodes. -/
structure Walk where
  counter : Nat
  visited : List String
  lft : String → Nat
  rgt : String → Nat

/-- The lines before the recursive call. -/
def Walk.enter (w : Walk) (id : String) : Walk :=
  { w with
    visited := w.visited ++ [id]
    lft := Function.update w.lft id w.counter
    counter := w.counter + 1 }

/-- The line after it. -/
def Walk.leave (w : Walk) (id : String) : Walk :=
  { w with
    rgt := Function.update w.rgt id w.counter
    counter := w.counter + 1 }

/-- The function `visit`, with a bound on the depth of the calls. -/
def visit (nodes : List NestedSetNode) : Nat → Option String → Walk → Option Walk
  | 0, _, _ => none
  | depth + 1, parentId, w =>
      (byParent nodes parentId).foldlM
        (fun w child =>
          (visit nodes depth (some child.id) (w.enter child.id)).map fun w => w.leave child.id)
        w

/-- The bounds that the nodes come with. -/
def Walk.start (nodes : List NestedSetNode) : Walk where
  counter := 1
  visited := []
  lft id := ((nodes.find? fun n => n.id = id).map NestedSetNode.lft).getD 0
  rgt id := ((nodes.find? fun n => n.id = id).map NestedSetNode.rgt).getD 0

def orphansOf (nodes : List NestedSetNode) (w : Walk) : List NestedSetNode :=
  nodes.filter fun n => !w.visited.contains n.id

def rebuildNestedSet (nodes : List NestedSetNode) : Except ServiceError (List NestedSetNode) :=
  match visit nodes (nodes.length + 1) none (Walk.start nodes) with
  | none => throw .rangeError
  | some w =>
      let orphans := orphansOf nodes w
      if orphans.length > 0 then throw (.error
        ("rebuildNestedSet: detected " ++ toString orphans.length ++
          " orphan/cyclic node(s) not reachable from a root: " ++
          String.intercalate ", " (orphans.map NestedSetNode.id)))
      else pure (nodes.map fun n => { n with lft := w.lft n.id, rgt := w.rgt n.id })

/-! ## What a nested set is -/

def parentOf (nodes : List NestedSetNode) (id : String) : Option String :=
  (nodes.find? fun n => n.id = id).bind NestedSetNode.parentId

/-- The parents form a forest and the bounds are a nested-set numbering of it. -/
structure IsNestedSet (nodes : List NestedSetNode) : Prop where
  parent_mem : ∀ n ∈ nodes, ∀ p, n.parentId = some p → p ∈ nodes.map NestedSetNode.id
  acyclic : ∀ n ∈ nodes, ¬ Ancestor (parentOf nodes) n.id n.id
  bounds_perm : (nodes.flatMap fun n => [n.lft, n.rgt]).Perm (List.range' 1 (2 * nodes.length))
  lft_lt_rgt : ∀ n ∈ nodes, n.lft < n.rgt
  contains_iff : ∀ a ∈ nodes, ∀ b ∈ nodes,
    (a.lft < b.lft ∧ b.rgt < a.rgt ↔ Ancestor (parentOf nodes) a.id b.id)

/-! ## The walk numbers a forest -/

/-- The walk over a forest that is known in advance. -/
def Walk.number (w : Walk) : Forest String → Walk
  | .nil => w
  | .cons id children siblings => (((w.enter id).number children).leave id).number siblings

theorem Walk.number_counter (f : Forest String) (w : Walk) :
    (w.number f).counter = w.counter + 2 * f.size := by
  induction f generalizing w with
  | nil => rfl
  | cons id children siblings ihc ihs =>
      rw [Walk.number, ihs, Walk.leave]
      show ((w.enter id).number children).counter + 1 + 2 * siblings.size = _
      rw [ihc, Forest.size]
      show w.counter + 1 + 2 * children.size + 1 + 2 * siblings.size = _
      omega

theorem Walk.number_visited (f : Forest String) (w : Walk) :
    (w.number f).visited = w.visited ++ f.ids := by
  induction f generalizing w with
  | nil => simp [Walk.number, Forest.ids]
  | cons id children siblings ihc ihs =>
      rw [Walk.number, ihs]
      show ((w.enter id).number children).visited ++ siblings.ids = _
      rw [ihc]
      simp [Walk.enter, Forest.ids]

/-- A node outside the forest keeps its bounds. -/
theorem Walk.number_of_not_mem {a : String} (f : Forest String) (w : Walk) (ha : a ∉ f.ids) :
    (w.number f).lft a = w.lft a ∧ (w.number f).rgt a = w.rgt a := by
  induction f generalizing w with
  | nil => exact ⟨rfl, rfl⟩
  | cons id children siblings ihc ihs =>
      obtain ⟨hid, hc, hs⟩ : a ≠ id ∧ a ∉ children.ids ∧ a ∉ siblings.ids := by
        simpa [Forest.ids] using ha
      obtain ⟨hlft, hrgt⟩ := ihs (((w.enter id).number children).leave id) hs
      obtain ⟨hlft', hrgt'⟩ := ihc (w.enter id) hc
      rw [Walk.number, hlft, hrgt]
      refine ⟨?_, ?_⟩
      · show ((w.enter id).number children).lft a = w.lft a
        rw [hlft']
        simp [Walk.enter, Function.update_of_ne hid]
      · show Function.update ((w.enter id).number children).rgt id _ a = w.rgt a
        rw [Function.update_of_ne hid, hrgt']
        rfl

/-- A node of the forest gets the bounds of its interval. -/
theorem Walk.number_of_mem {f : Forest String} {w : Walk} (hnodup : f.ids.Nodup)
    {path : List String} : ∀ e ∈ f.entries path w.counter, ∀ a rest, e.path = a :: rest →
      (w.number f).lft a = e.lft ∧ (w.number f).rgt a = e.rgt := by
  induction f generalizing w path with
  | nil => simp [Forest.entries]
  | cons id children siblings ihc ihs =>
      rw [Forest.ids, List.nodup_cons, List.nodup_append] at hnodup
      obtain ⟨hid, hc, hs, hdisjoint⟩ := hnodup
      obtain ⟨hidc, hids⟩ : id ∉ children.ids ∧ id ∉ siblings.ids := by simpa using hid
      -- The counter when the walk leaves the first tree.
      have hcounter : ((w.enter id).number children).counter =
          w.counter + 2 * children.size + 1 := by
        rw [Walk.number_counter]
        show w.counter + 1 + 2 * children.size = _
        omega
      have hleave : (((w.enter id).number children).leave id).counter =
          w.counter + 2 * children.size + 2 := by
        show ((w.enter id).number children).counter + 1 = _
        rw [hcounter]
      intro e he a rest hpath
      rw [Walk.number]
      rcases List.mem_cons.mp he with rfl | he
      · obtain ⟨rfl, -⟩ := List.cons.inj hpath
        obtain ⟨hlft, hrgt⟩ := Walk.number_of_not_mem siblings
          (((w.enter id).number children).leave id) hids
        obtain ⟨hlft', -⟩ := Walk.number_of_not_mem children (w.enter id) hidc
        rw [hlft, hrgt]
        refine ⟨?_, ?_⟩
        · show ((w.enter id).number children).lft id = w.counter
          rw [hlft']
          simp [Walk.enter]
        · show Function.update ((w.enter id).number children).rgt id _ id = _
          rw [Function.update_self, hcounter]
      · rcases List.mem_append.mp he with he | he
        · have hmem : a ∈ children.ids := by
            have hheads := Forest.map_head_entries (id :: path) (w.counter + 1) children
            have hin : e.path.head? ∈ children.ids.map some := by
              rw [← hheads]
              exact List.mem_map_of_mem he
            rw [hpath] at hin
            simpa using hin
          have hne : a ≠ id := fun heq => hidc (heq ▸ hmem)
          obtain ⟨hlft, hrgt⟩ := Walk.number_of_not_mem siblings
            (((w.enter id).number children).leave id) (fun hmem' => hdisjoint a hmem a hmem' rfl)
          have hentered : e ∈ children.entries (id :: path) (w.enter id).counter := he
          obtain ⟨hlft', hrgt'⟩ := ihc hc e hentered a rest hpath
          rw [hlft, hrgt]
          refine ⟨hlft', ?_⟩
          show Function.update ((w.enter id).number children).rgt id _ a = _
          rw [Function.update_of_ne hne, hrgt']
        · rw [← hleave] at he
          exact ihs hs e he a rest hpath

/-! ## The family of the nodes -/

section Rebuild

variable {nodes : List NestedSetNode}

theorem find_of_mem (hnodup : (nodes.map NestedSetNode.id).Nodup) {n : NestedSetNode}
    (hn : n ∈ nodes) : (nodes.find? fun m => m.id = n.id) = some n := by
  cases hfind : nodes.find? fun m => m.id = n.id with
  | none =>
      have hno := List.find?_eq_none.mp hfind n hn
      simp at hno
  | some m =>
      have hid : m.id = n.id := by simpa using List.find?_some hfind
      rw [List.inj_on_of_nodup_map hnodup (List.mem_of_find?_eq_some hfind) hn hid]

theorem parentOf_of_mem (hnodup : (nodes.map NestedSetNode.id).Nodup) {n : NestedSetNode}
    (hn : n ∈ nodes) : parentOf nodes n.id = n.parentId := by
  rw [parentOf, find_of_mem hnodup hn]
  rfl

/-- The ids of the nodes with their parents. -/
def familyOf (nodes : List NestedSetNode) (hnodup : (nodes.map NestedSetNode.id).Nodup) :
    Family String where
  nodes := nodes.map NestedSetNode.id
  parent := parentOf nodes
  children p := (byParent nodes p).map NestedSetNode.id
  mem_children := by
    intro p a
    constructor
    · intro ha
      obtain ⟨n, hn, rfl⟩ := List.mem_map.mp ha
      obtain ⟨hmem, hparent⟩ := List.mem_filter.mp hn
      rw [parentOf_of_mem hnodup hmem]
      exact ⟨List.mem_map_of_mem hmem, of_decide_eq_true hparent⟩
    · rintro ⟨ha, hparent⟩
      obtain ⟨n, hn, rfl⟩ := List.mem_map.mp ha
      rw [parentOf_of_mem hnodup hn] at hparent
      exact List.mem_map_of_mem (List.mem_filter.mpr ⟨hn, decide_eq_true hparent⟩)
  nodup_children p := hnodup.sublist (List.filter_sublist.map NestedSetNode.id)

/-- The walk over the children of one node, given the walks below each. -/
theorem foldlM_visit {below : String → Option (Forest String)} {depth : Nat}
    (hbelow : ∀ id w, visit nodes depth (some id) w = (below id).map fun f => w.number f) :
    ∀ (children : List NestedSetNode) (w : Walk),
      children.foldlM (fun w child =>
        (visit nodes depth (some child.id) (w.enter child.id)).map fun w => w.leave child.id) w =
      (Family.plant below (children.map NestedSetNode.id)).map fun f => w.number f
  | [], _ => rfl
  | child :: children, w => by
      rw [List.foldlM_cons, hbelow, List.map_cons, Family.plant]
      cases hc : below child.id with
      | none => rfl
      | some f =>
          show List.foldlM _ (((w.enter child.id).number f).leave child.id) children = _
          rw [foldlM_visit hbelow children]
          cases Family.plant below (children.map NestedSetNode.id) with
          | none => rfl
          | some g => rfl

/-- **The walk numbers the forest of the parent pointers.** -/
theorem visit_eq (hnodup : (nodes.map NestedSetNode.id).Nodup) (depth : Nat) (p : Option String)
    (w : Walk) : visit nodes depth p w =
      ((familyOf nodes hnodup).unfold depth p).map fun f => w.number f := by
  induction depth generalizing p w with
  | zero => rfl
  | succ depth ih => exact foldlM_visit (fun id w => ih (some id) w) (byParent nodes p) w

/-- The depth of the walk is at most the number of the nodes. -/
theorem visit_isSome (hnodup : (nodes.map NestedSetNode.id).Nodup) (w : Walk) :
    ∃ f, (familyOf nodes hnodup).unfold (nodes.length + 1) none = some f ∧
      visit nodes (nodes.length + 1) none w = some (w.number f) := by
  have hchain : Chain (familyOf nodes hnodup).parent [] := trivial
  have hdepth : (familyOf nodes hnodup).nodes.length <
      ([] : List String).length + (nodes.length + 1) := by
    show (nodes.map NestedSetNode.id).length < 0 + (nodes.length + 1)
    rw [List.length_map]
    omega
  obtain ⟨f, hf⟩ := Family.unfold_isSome hchain (by simp) hdepth
  have hnone : (familyOf nodes hnodup).unfold (nodes.length + 1) none = some f := hf
  exact ⟨f, hnone, by rw [visit_eq hnodup, hnone, Option.map_some]⟩

/-! ## The result -/

/-- The node with the bounds that a walk found. -/
def NestedSetNode.withBounds (w : Walk) (n : NestedSetNode) : NestedSetNode :=
  { n with lft := w.lft n.id, rgt := w.rgt n.id }

theorem parentOf_map_withBounds (w : Walk) (id : String) :
    parentOf (nodes.map (NestedSetNode.withBounds w)) id = parentOf nodes id := by
  rw [parentOf, List.find?_map, Option.bind_map]
  rfl

/-- A node of the list in the numbered forest: its interval, whose path is its chain. -/
theorem exists_entry {w : Walk} {f : Forest String} {hnodup : (nodes.map NestedSetNode.id).Nodup}
    (hf : (familyOf nodes hnodup).unfold (nodes.length + 1) none = some f)
    (hall : ∀ n ∈ nodes, n.id ∈ f.ids) {n : NestedSetNode} (hn : n ∈ nodes) :
    ∃ e ∈ f.entries [] w.counter, ∃ rest, e.path = n.id :: rest ∧
      Chain (parentOf nodes) (n.id :: rest) ∧ (∀ a ∈ rest, a ∈ nodes.map NestedSetNode.id) ∧
      (n.withBounds (w.number f)).lft = e.lft ∧ (n.withBounds (w.number f)).rgt = e.rgt := by
  have hhead : some n.id ∈ (f.entries [] w.counter).map fun e => e.path.head? := by
    rw [Forest.map_head_entries]
    exact List.mem_map_of_mem (hall n hn)
  obtain ⟨e, he, hpath⟩ := List.mem_map.mp hhead
  obtain ⟨rest, hpath⟩ : ∃ rest, e.path = n.id :: rest := by
    cases hp : e.path with
    | nil =>
        rw [hp] at hpath
        cases hpath
    | cons a rest =>
        rw [hp] at hpath
        exact ⟨rest, by rw [Option.some.inj hpath]⟩
  have hroot : (familyOf nodes hnodup).unfold (nodes.length + 1) ([] : List String).head? =
      some f := hf
  obtain ⟨-, hchain, hmem⟩ := Family.chain_unfold hroot trivial (by simp) e he
  rw [hpath] at hchain hmem
  have hbounds := Walk.number_of_mem (Family.nodup_ids_unfold hf) e he n.id rest hpath
  exact ⟨e, he, rest, hpath, hchain, fun a ha => hmem a (List.mem_cons_of_mem _ ha), hbounds⟩

/-- The bounds, node by node, are those of the intervals. -/
theorem flatMap_bounds {w : Walk} {f : Forest String} (hnodup : f.ids.Nodup) :
    (f.ids.flatMap fun a => [(w.number f).lft a, (w.number f).rgt a]) =
      (f.entries [] w.counter).flatMap fun e => [e.lft, e.rgt] := by
  have hheads := Forest.map_head_entries [] w.counter f
  have hentries : ((f.entries [] w.counter).flatMap fun e => [e.lft, e.rgt]) =
      ((f.entries [] w.counter).map fun e => e.path.head?).flatMap fun head =>
        head.elim [] fun a => [(w.number f).lft a, (w.number f).rgt a] := by
    rw [List.flatMap_map]
    apply List.flatMap_congr
    intro e he
    obtain ⟨a, ha⟩ : ∃ a, e.path.head? = some a := by
      have hmem : e.path.head? ∈ f.ids.map some := by
        rw [← hheads]
        exact List.mem_map_of_mem he
      obtain ⟨a, -, ha⟩ := List.mem_map.mp hmem
      exact ⟨a, ha.symm⟩
    obtain ⟨rest, hpath⟩ := List.head?_eq_some_iff.mp ha
    obtain ⟨hlft, hrgt⟩ := Walk.number_of_mem hnodup e he a rest hpath
    rw [ha, Option.elim_some, hlft, hrgt]
  rw [hentries, hheads, List.flatMap_map]
  rfl

/-- The walk meets the nodes of the list and no others. -/
theorem ids_perm {f : Forest String} {hnodup : (nodes.map NestedSetNode.id).Nodup}
    (hf : (familyOf nodes hnodup).unfold (nodes.length + 1) none = some f)
    (hall : ∀ n ∈ nodes, n.id ∈ f.ids) : (nodes.map NestedSetNode.id).Perm f.ids := by
  refine (List.perm_ext_iff_of_nodup hnodup (Family.nodup_ids_unfold hf)).mpr ?_
  intro a
  constructor
  · intro ha
    obtain ⟨n, hn, rfl⟩ := List.mem_map.mp ha
    exact hall n hn
  · intro ha
    have hhead : some a ∈ (f.entries [] 1).map fun e => e.path.head? := by
      rw [Forest.map_head_entries]
      exact List.mem_map_of_mem ha
    obtain ⟨e, he, hpath⟩ := List.mem_map.mp hhead
    have hroot : (familyOf nodes hnodup).unfold (nodes.length + 1) ([] : List String).head? =
        some f := hf
    obtain ⟨-, -, hmem⟩ := Family.chain_unfold hroot trivial (by simp) e he
    exact hmem a (List.mem_of_mem_head? hpath)

/-- A walk from the counter 1 that meets every node makes a nested set. -/
theorem isNestedSet_of_walk {w : Walk} {f : Forest String}
    (hnodup : (nodes.map NestedSetNode.id).Nodup)
    (hf : (familyOf nodes hnodup).unfold (nodes.length + 1) none = some f)
    (hall : ∀ n ∈ nodes, n.id ∈ f.ids) (hcounter : w.counter = 1) :
    IsNestedSet (nodes.map (NestedSetNode.withBounds (w.number f))) := by
  have hids := Family.nodup_ids_unfold hf
  have hentry := fun n hn => exists_entry (w := w) (n := n) hf hall hn
  constructor
  · -- The parent is the next node of the chain.
    intro n' hn' p hp
    obtain ⟨n, hn, rfl⟩ := List.mem_map.mp hn'
    obtain ⟨e, -, rest, -, hchain, hmem, -⟩ := hentry n hn
    have hparent : some p = rest.head? := by
      rw [← hchain.1, parentOf_of_mem hnodup hn]
      exact hp.symm
    have hin := hmem p (List.mem_of_mem_head? hparent.symm)
    rw [List.map_map]
    exact hin
  · intro n' hn'
    obtain ⟨n, hn, rfl⟩ := List.mem_map.mp hn'
    obtain ⟨e, -, rest, -, hchain, -⟩ := hentry n hn
    intro hcycle
    have hcycle' : Ancestor (parentOf nodes) n.id n.id := by
      rwa [funext (parentOf_map_withBounds (w.number f))] at hcycle
    exact (List.nodup_cons.mp hchain.nodup).1 (hchain.ancestor_iff.mp hcycle')
  · have hperm := ids_perm hf hall
    have hsize : f.size = nodes.length := by
      rw [← Forest.length_ids, ← hperm.length_eq, List.length_map]
    have hflat : ((nodes.map (NestedSetNode.withBounds (w.number f))).flatMap
        fun n => [n.lft, n.rgt]) = (nodes.map NestedSetNode.id).flatMap
          fun a => [(w.number f).lft a, (w.number f).rgt a] := by
      rw [List.flatMap_map, List.flatMap_map]
      rfl
    rw [hflat, List.length_map, ← hsize]
    refine (hperm.flatMap_right _).trans ?_
    rw [flatMap_bounds hids, hcounter]
    exact Forest.perm_bounds [] 1 f
  · intro n' hn'
    obtain ⟨n, hn, rfl⟩ := List.mem_map.mp hn'
    obtain ⟨e, he, rest, -, -, -, hlft, hrgt⟩ := hentry n hn
    rw [hlft, hrgt]
    exact (Forest.bounds e he).2.1
  · intro a' ha' b' hb'
    obtain ⟨a, ha, rfl⟩ := List.mem_map.mp ha'
    obtain ⟨b, hb, rfl⟩ := List.mem_map.mp hb'
    obtain ⟨e, he, p, hp, hchain, -, hlft, hrgt⟩ := hentry a ha
    obtain ⟨e', he', q, hq, hchain', -, hlft', hrgt'⟩ := hentry b hb
    rw [hlft, hrgt, hlft', hrgt', Forest.contains_iff (Family.distinct_unfold hf) e he e' he',
      hp, hq, hchain.suffix_iff hchain', funext (parentOf_map_withBounds (w.number f))]
    rfl

/-- **If the function does not throw, the result is a nested set.** -/
theorem rebuildNestedSet_isNestedSet (hnodup : (nodes.map NestedSetNode.id).Nodup)
    {rebuilt : List NestedSetNode} (h : rebuildNestedSet nodes = .ok rebuilt) :
    ∃ w : Walk, rebuilt = nodes.map (NestedSetNode.withBounds w) ∧ IsNestedSet rebuilt := by
  obtain ⟨f, hf, hvisit⟩ := visit_isSome hnodup (Walk.start nodes)
  rw [rebuildNestedSet, hvisit] at h
  simp only at h
  split at h
  · cases h
  rename_i horphans
  obtain rfl := Except.ok.inj h
  have hall : ∀ n ∈ nodes, n.id ∈ f.ids := by
    intro n hn
    by_contra hno
    have hmem : n ∈ orphansOf nodes ((Walk.start nodes).number f) := by
      refine List.mem_filter.mpr ⟨hn, ?_⟩
      rw [Walk.number_visited]
      simpa [Walk.start] using hno
    exact horphans (List.length_pos_of_mem hmem)
  refine ⟨(Walk.start nodes).number f, rfl, ?_⟩
  exact isNestedSet_of_walk hnodup hf hall rfl

end Rebuild

end ErpApi.Inventory
