import ErpApi.Inventory.TreeServices

set_option autoImplicit false

/-! # When a rebuild returns

`rebuildNestedSet` detects a cycle or a missing parent only by counting: the walk from the roots
has not met every node. The walk meets exactly the nodes that reach a root (`visited_iff`), so the
function returns if and only if all of them do, and what it returns is a nested set
(`rebuildNestedSet_returns_iff`). It writes into copies of the entities; the wrapper copies the
bounds back after it has returned, so it changes nothing if it throws.
-/

namespace ErpApi.Inventory

open ErpApi.NestedSet

/-- The node reaches a root, a node without a parent, through parents in the list. -/
inductive ReachesRoot (nodes : List NestedSetNode) : NestedSetNode → Prop
  | root {n : NestedSetNode} : n ∈ nodes → n.parentId = none → ReachesRoot nodes n
  | child {n parent : NestedSetNode} : n ∈ nodes → n.parentId = some parent.id →
      ReachesRoot nodes parent → ReachesRoot nodes n

theorem ReachesRoot.mem {nodes : List NestedSetNode} {n : NestedSetNode}
    (h : ReachesRoot nodes n) : n ∈ nodes := by
  cases h with
  | root hn _ => exact hn
  | child hn _ _ => exact hn

section Returns

variable {nodes : List NestedSetNode} (hnodup : (nodes.map NestedSetNode.id).Nodup)

include hnodup

theorem reachesRoot_iff {n : NestedSetNode} (hn : n ∈ nodes) :
    ReachesRoot nodes n ↔ (familyOf nodes hnodup).Rooted n.id := by
  constructor
  · intro h
    induction h with
    | root hn hparent =>
        exact .root (List.mem_map_of_mem hn) ((parentOf_of_mem hnodup hn).trans hparent)
    | child hn hparent hrooted ih =>
        exact .child (List.mem_map_of_mem hn) ((parentOf_of_mem hnodup hn).trans hparent)
          (ih hrooted.mem)
  · intro h
    generalize hid : n.id = id at h
    induction h generalizing n with
    | root _ hparent =>
        subst hid
        exact .root hn ((parentOf_of_mem hnodup hn).symm.trans hparent)
    | @child a p _ hparent hrooted ih =>
        subst hid
        have hp : n.parentId = some p := (parentOf_of_mem hnodup hn).symm.trans hparent
        have hnode : p ∈ nodes.map NestedSetNode.id := by
          cases hrooted with
          | root hmem _ => exact hmem
          | child hmem _ _ => exact hmem
        obtain ⟨parent, hmem, rfl⟩ := List.mem_map.mp hnode
        exact .child hn hp (ih hmem rfl)

/-- The function returns what the walk numbered, if the walk met all the nodes. -/
theorem rebuildNestedSet_ok_iff :
    (∃ rebuilt, rebuildNestedSet nodes = .ok rebuilt) ↔ ∀ n ∈ nodes, ReachesRoot nodes n := by
  obtain ⟨f, hf, hvisit⟩ := visit_isSome hnodup (Walk.start nodes)
  have hvisited : ((Walk.start nodes).number f).visited = f.ids := by
    rw [Walk.number_visited]
    rfl
  have horphans : orphansOf nodes ((Walk.start nodes).number f) = [] ↔
      ∀ n ∈ nodes, ReachesRoot nodes n := by
    rw [orphansOf, List.filter_eq_nil_iff, hvisited]
    apply forall₂_congr
    intro n hn
    rw [reachesRoot_iff hnodup hn, ← Family.mem_unfold_iff hf]
    simp
  rw [← horphans, rebuildNestedSet, hvisit]
  simp only
  split
  · rename_i hsome
    refine iff_of_false ?_ (List.ne_nil_of_length_pos hsome)
    rintro ⟨rebuilt, h⟩
    cases h
  · rename_i hnone
    exact iff_of_true ⟨_, rfl⟩ (List.length_eq_zero_iff.mp (Nat.eq_zero_of_not_pos hnone))

end Returns

/-! ## The wrapper -/

/-- The fields of an entity that the wrapper reads and writes. -/
structure TreeEntity (ε : Type) where
  id : ε → String
  lft : ε → Nat
  rgt : ε → Nat
  setBounds : ε → Nat → Nat → ε

def TreeEntity.mirror {ε : Type} (fields : TreeEntity ε) (getParentId : ε → Option String)
    (entity : ε) : NestedSetNode :=
  ⟨fields.id entity, getParentId entity, fields.lft entity, fields.rgt entity⟩

/-- The function `rebuildNestedSetFor` with the entities after the call. The mirrors are objects of
their own, so what a call that throws has written into them reaches no entity. -/
def rebuildEntities {ε : Type} (fields : TreeEntity ε) (getParentId : ε → Option String)
    (entities : List ε) : List ε × Except ServiceError Unit :=
  match rebuildNestedSet (entities.map (fields.mirror getParentId)) with
  | .error e => (entities, .error e)
  | .ok mirrors =>
      (entities.map fun entity =>
        match mirrors.reverse.find? fun mirror => mirror.id = fields.id entity with
        | none => entity
        | some mirror => fields.setBounds entity mirror.lft mirror.rgt, .ok ())

/-- The rows of the tree services. -/
def rowFields (δ : Type) : TreeEntity (TreeRow δ) where
  id := TreeRow.id
  lft := TreeRow.lft
  rgt := TreeRow.rgt
  setBounds r lft rgt := { r with lft := lft, rgt := rgt }

/-- On rows this is the wrapper that the services call. -/
theorem rebuildNestedSetFor_eq_rebuildEntities {δ : Type} (entities : List (TreeRow δ)) :
    rebuildNestedSetFor entities =
      (rebuildEntities (rowFields δ) TreeRow.parent entities).2.map fun _ =>
        (rebuildEntities (rowFields δ) TreeRow.parent entities).1 := by
  have hmirrors : entities.map ((rowFields δ).mirror TreeRow.parent) =
      entities.map TreeRow.mirror := rfl
  rw [rebuildNestedSetFor, rebuildEntities, hmirrors]
  cases rebuildNestedSet (entities.map TreeRow.mirror) with
  | error e => rfl
  | ok mirrors => rfl

/-! ## The function as a whole -/

/-- **When the rebuild returns and what it returns.** The walk ends; the function returns if and
only if every node reaches a root, and then with a nested set of the same nodes; otherwise it
throws and the wrapper changes no entity. -/
theorem rebuildNestedSet_total (nodes : List NestedSetNode)
    (hnodup : (nodes.map NestedSetNode.id).Nodup) :
    (∃ w, visit nodes (nodes.length + 1) none (Walk.start nodes) = some w) ∧
    ((∃ rebuilt, rebuildNestedSet nodes = .ok rebuilt) ↔ ∀ n ∈ nodes, ReachesRoot nodes n) ∧
    (∀ rebuilt, rebuildNestedSet nodes = .ok rebuilt →
      (rebuilt.map fun n => (n.id, n.parentId)) = (nodes.map fun n => (n.id, n.parentId)) ∧
        IsNestedSet rebuilt) ∧
    ∀ (ε : Type) (fields : TreeEntity ε) (getParentId : ε → Option String) (entities : List ε),
      entities.map (fields.mirror getParentId) = nodes → (∃ n ∈ nodes, ¬ ReachesRoot nodes n) →
        ∃ e, rebuildEntities fields getParentId entities = (entities, .error e) := by
  obtain ⟨f, -, hvisit⟩ := visit_isSome hnodup (Walk.start nodes)
  refine ⟨⟨_, hvisit⟩, rebuildNestedSet_ok_iff hnodup, ?_, ?_⟩
  · intro rebuilt h
    obtain ⟨w, rfl, hset⟩ := rebuildNestedSet_isNestedSet hnodup h
    refine ⟨?_, hset⟩
    rw [List.map_map]
    rfl
  · rintro ε fields getParentId entities rfl ⟨n, hn, hno⟩
    rw [rebuildEntities]
    cases hrebuild : rebuildNestedSet (entities.map (fields.mirror getParentId)) with
    | error e => exact ⟨e, rfl⟩
    | ok rebuilt => exact absurd ((rebuildNestedSet_ok_iff hnodup).mp ⟨rebuilt, hrebuild⟩ n hn) hno

/-- A root with two children, one of them with a child. -/
def sampleNodes : List NestedSetNode :=
  [⟨"b", some "root", 0, 0⟩, ⟨"a1", some "a", 0, 0⟩, ⟨"a", some "root", 0, 0⟩,
    ⟨"root", none, 0, 0⟩]

/-- Two rows that are each other's parents. -/
def sampleCycle : List NestedSetNode := [⟨"x", some "y", 5, 6⟩, ⟨"y", some "x", 3, 4⟩]

def nodeFields : TreeEntity NestedSetNode :=
  ⟨NestedSetNode.id, NestedSetNode.lft, NestedSetNode.rgt, fun n lft rgt =>
    { n with lft := lft, rgt := rgt }⟩

theorem rebuildNestedSet_total_samples :
    (∃ rebuilt, rebuildNestedSet sampleNodes = .ok rebuilt ∧ IsNestedSet rebuilt) ∧
      ∃ e, rebuildEntities nodeFields NestedSetNode.parentId sampleCycle =
        (sampleCycle, .error e) := by
  obtain ⟨-, hreturns, hset, -⟩ := rebuildNestedSet_total sampleNodes (by decide)
  obtain ⟨-, -, -, hthrows⟩ := rebuildNestedSet_total sampleCycle (by decide)
  refine ⟨?_, hthrows _ nodeFields NestedSetNode.parentId sampleCycle rfl ?_⟩
  · have hroot : ReachesRoot sampleNodes ⟨"root", none, 0, 0⟩ := .root (by decide) rfl
    have ha : ReachesRoot sampleNodes ⟨"a", some "root", 0, 0⟩ := .child (by decide) rfl hroot
    have hall : ∀ n ∈ sampleNodes, ReachesRoot sampleNodes n := by
      intro n hn
      simp only [sampleNodes, List.mem_cons, List.not_mem_nil, or_false] at hn
      rcases hn with rfl | rfl | rfl | rfl
      · exact .child (by decide) rfl hroot
      · exact .child (by decide) rfl ha
      · exact ha
      · exact hroot
    obtain ⟨rebuilt, h⟩ := hreturns.mpr hall
    exact ⟨rebuilt, h, (hset rebuilt h).2⟩
  · refine ⟨⟨"x", some "y", 5, 6⟩, List.mem_cons_self, ?_⟩
    -- Every node that reaches a root would need one without a parent.
    have hno : ∀ n, ¬ ReachesRoot sampleCycle n := by
      intro n h
      induction h with
      | root hn hparent =>
          simp only [sampleCycle, List.mem_cons, List.not_mem_nil, or_false] at hn
          rcases hn with rfl | rfl
          · cases hparent
          · cases hparent
      | child _ _ _ ih => exact ih
    exact hno _

end ErpApi.Inventory
