import ErpApi.Basic.SequentialRun
import ErpApi.Inventory.Operations

set_option autoImplicit false

/-! # What products refer to

Two rules of the product table, over every run of the operations of the inventory.

Only leaves of the tree of item groups may be attached to a product (`LeafGroups`). No operation
looks at the group of a product, and neither an update nor a delete of a group looks at the
products, so the rule depends on the callers (`run_leafGroups`).

The template of a product is another product that has variants (`TemplatesValid`). This is checked
when a template is set. Nothing keeps a product from becoming its own template, and a template
can be deleted or lose its `has_variants` while products refer to it (`run_templatesValid`).
-/

namespace ErpApi.Inventory

open Sequential

variable {print : Option ℚ → String} {s s' : InventoryDb} {r : Request}

/-! ## Item groups -/

/-- The item group of a live product is a live leaf. -/
def LeafGroups (s : InventoryDb) : Prop :=
  ∀ p ∈ productEntity.live s.products, IsLeaf s.itemGroups p.item_group_id

instance : DecidablePred LeafGroups := fun s =>
  inferInstanceAs (Decidable (∀ p ∈ productEntity.live s.products,
    IsLeaf s.itemGroups p.item_group_id))

/-- The operation attaches products to leaves only, and leaves the leaves with products. -/
def Request.KeepsLeafGroups (s : InventoryDb) (r : Request) : Prop :=
  match r.operation with
  | .createProduct _ data => IsLeaf s.itemGroups (uuid data.item_group_id)
  | .updateProduct _ data => data.item_group_id.All fun id => IsLeaf s.itemGroups (uuid id)
  | .itemGroups call _ => ∀ p ∈ productEntity.live s.products, call.KeepsLeaf p.item_group_id
  | _ => True

instance (s : InventoryDb) : (r : Request) → Decidable (r.KeepsLeafGroups s)
  | ⟨.createProduct _ data, _, _⟩ =>
      inferInstanceAs (Decidable (IsLeaf s.itemGroups (uuid data.item_group_id)))
  | ⟨.updateProduct _ data, _, _⟩ =>
      inferInstanceAs (Decidable (data.item_group_id.All fun id => IsLeaf s.itemGroups (uuid id)))
  | ⟨.itemGroups call _, _, _⟩ =>
      inferInstanceAs (Decidable (∀ p ∈ productEntity.live s.products,
        call.KeepsLeaf p.item_group_id))
  | ⟨.deleteProduct _ _, _, _⟩ => .isTrue trivial
  | ⟨.generateVariants _ _ _, _, _⟩ => .isTrue trivial
  | ⟨.createFactor _ _, _, _⟩ => .isTrue trivial
  | ⟨.updateFactor _ _, _, _⟩ => .isTrue trivial
  | ⟨.updateUom _ _, _, _⟩ => .isTrue trivial

theorem createProduct_leafGroups {t : productEntity.Rows} {row : Product} (hs : LeafGroups s)
    (hlive : ∀ p, p ∈ productEntity.live t ↔ p ∈ productEntity.live s.products ∨ p = row) :
    LeafGroups { s with products := t } ↔ IsLeaf s.itemGroups row.item_group_id := by
  constructor
  · intro h
    exact h row ((hlive row).mpr (.inr rfl))
  · intro hrow p hp
    rcases (hlive p).mp hp with hp | rfl
    · exact hs p hp
    · exact hrow

theorem updateProduct_leafGroups {t : productEntity.Rows} {suppliers : Suppliers} {id : String}
    {data : UpdateProductDTO} {currentUser : Option String} {row : Product} (hs : LeafGroups s)
    (h : updateProduct s.products suppliers id data currentUser = .ok (t, row)) :
    LeafGroups { s with products := t } ↔
      data.item_group_id.All fun id => IsLeaf s.itemGroups (uuid id) := by
  obtain ⟨-, -, ⟨old, hold, -, hgroup, -, -, -⟩, hlive⟩ := updateProduct_ok h
  have hrow : IsLeaf s.itemGroups row.item_group_id ↔
      data.item_group_id.All fun id => IsLeaf s.itemGroups (uuid id) := by
    rcases uuidNotNull_ok hgroup with ⟨hfield, hsame⟩ | ⟨text, hfield, hvalue⟩
    · rw [hfield, hsame]
      exact iff_of_true (hs old hold) trivial
    · rw [hfield, hvalue]
      exact Iff.rfl
  rw [← hrow]
  constructor
  · intro hafter
    exact hafter row ((hlive row).mpr (.inr rfl))
  · intro hleaf p hp
    rcases (hlive p).mp hp with ⟨hp, -⟩ | rfl
    · exact hs p hp
    · exact hleaf

/-- **One operation that returns.** -/
theorem body_leafGroups (hs : LeafGroups s) (h : s.body print r = .ok s') :
    LeafGroups s' ↔ r.KeepsLeafGroups s := by
  obtain ⟨operation, currentUser, suppliers⟩ := r
  cases operation with
  | createProduct newId data =>
      obtain ⟨⟨t, row⟩, hcreate, h⟩ := bind_eq_ok.mp h
      obtain rfl := Except.ok.inj h
      obtain ⟨-, hrow, hlive, -⟩ := createProduct_ok hcreate
      rw [createProduct_leafGroups hs hlive, (CreateProductDTO.row_ok hrow).2.1]
      rfl
  | updateProduct id data =>
      obtain ⟨⟨t, row⟩, hupdate, h⟩ := bind_eq_ok.mp h
      obtain rfl := Except.ok.inj h
      exact updateProduct_leafGroups hs hupdate
  | deleteProduct id softDelete =>
      obtain ⟨t, hdelete, h⟩ := bind_eq_ok.mp h
      obtain rfl := Except.ok.inj h
      refine iff_of_true (fun p hp => ?_) trivial
      exact hs p ((EntityType.mem_live_delete hdelete).mp hp).1
  | generateVariants templateId attributes draws =>
      obtain ⟨⟨s₁, variants⟩, hgenerate, h⟩ := bind_eq_ok.mp h
      obtain rfl := Except.ok.inj h
      obtain ⟨template, htemplate, -, -, hvariants, -, hlive, hgroups, -⟩ :=
        generateVariants_ok hgenerate
      -- A variant has the group of its template.
      refine iff_of_true (fun p hp => ?_) trivial
      show IsLeaf s₁.itemGroups p.item_group_id
      rw [hgroups]
      rcases (hlive p).mp hp with hp | hp
      · exact hs p hp
      · rw [(hvariants p hp).1.item_group_id]
        exact hs template htemplate
  | itemGroups call scan =>
      obtain ⟨hok, rfl⟩ := body_itemGroups h
      constructor
      · intro hafter p hp
        exact (isLeaf_call hok (hs p hp)).mp (hafter p hp)
      · intro hkeeps p hp
        exact (isLeaf_call hok (hs p hp)).mpr (hkeeps p hp)
  | createFactor newId data | updateFactor id data | updateUom id data =>
      obtain ⟨result, -, h⟩ := bind_eq_ok.mp h
      obtain rfl := Except.ok.inj h
      exact iff_of_true hs trivial

/-- **Products are attached to leaves**: in every state of a run the item group of every live
product is a live leaf, exactly when every operation of the run that returns attaches products to
leaves only and leaves the leaves with products as they are. -/
theorem run_leafGroups (print : Option ℚ → String) {s : InventoryDb} {requests : List Request}
    (hs : LeafGroups s) :
    AllStates (InventoryDb.step print) LeafGroups s requests ↔
      AllSteps (InventoryDb.step print)
        (fun s r => (s.body print r).isOk → r.KeepsLeafGroups s) s requests := by
  refine allStates_iff_allSteps (I := fun _ => True) (fun _ _ _ => trivial) ?_ trivial hs
  intro s r _ hs
  exact InventoryDb.step_iff (fun s' h => body_leafGroups hs h) hs

/-- A product moves to another leaf before its own is deleted. -/
theorem run_leafGroups_moved :
    AllStates (InventoryDb.step fun _ => "") LeafGroups InventoryDb.empty
      [group "g" false, group "h" false, product "p" "g" false .undefined,
        moveProduct "p" "h", deleteGroup "g"] :=
  (run_leafGroups (fun _ => "") (by decide)).mpr (by decide +kernel)

/-- **A product is attached to a group that is no leaf.** -/
theorem product_attached_to_inner_group :
    ¬ AllStates (InventoryDb.step fun _ => "") LeafGroups InventoryDb.empty
      [group "g" true, product "p" "g" false .undefined] := by
  decide +kernel

/-! ## Templates -/

/-- There is a live product with the id, and it has variants. -/
def IsTemplate (t : productEntity.Rows) (id : String) : Prop :=
  ∃ p ∈ productEntity.live t, p.id = id ∧ p.has_variants = true

/-- The template of a live product, where there is one, is another product that has variants. -/
def TemplatesValid (s : InventoryDb) : Prop :=
  ∀ p ∈ productEntity.live s.products, ∀ id ∈ p.template_product_id,
    id ≠ p.id ∧ IsTemplate s.products id

instance : DecidablePred TemplatesValid := fun s =>
  inferInstanceAs (Decidable (∀ p ∈ productEntity.live s.products, ∀ id ∈ p.template_product_id,
    id ≠ p.id ∧ ∃ p ∈ productEntity.live s.products, p.id = id ∧ p.has_variants = true))

/-- The operation does not set a product as its own template, and does not delete a template of
live products or take its variants. -/
def Request.KeepsTemplates (s : InventoryDb) (r : Request) : Prop :=
  match r.operation with
  | .updateProduct id data =>
      (data.template_product_id.All fun templateId => uuid templateId ≠ id) ∧
        (data.has_variants = .value false →
          ∀ p ∈ productEntity.live s.products, p.template_product_id ≠ some id)
  | .deleteProduct id _ =>
      ∀ p ∈ productEntity.live s.products, p.template_product_id ≠ some (uuid id)
  | _ => True

instance (s : InventoryDb) : (r : Request) → Decidable (r.KeepsTemplates s)
  | ⟨.updateProduct id data, _, _⟩ =>
      inferInstanceAs (Decidable ((data.template_product_id.All fun t => uuid t ≠ id) ∧
        (data.has_variants = .value false →
          ∀ p ∈ productEntity.live s.products, p.template_product_id ≠ some id)))
  | ⟨.deleteProduct id _, _, _⟩ =>
      inferInstanceAs (Decidable (∀ p ∈ productEntity.live s.products,
        p.template_product_id ≠ some (uuid id)))
  | ⟨.createProduct _ _, _, _⟩ => .isTrue trivial
  | ⟨.generateVariants _ _ _, _, _⟩ => .isTrue trivial
  | ⟨.itemGroups _ _, _, _⟩ => .isTrue trivial
  | ⟨.createFactor _ _, _, _⟩ => .isTrue trivial
  | ⟨.updateFactor _ _, _, _⟩ => .isTrue trivial
  | ⟨.updateUom _ _, _, _⟩ => .isTrue trivial

/-- More rows keep a template. -/
theorem IsTemplate.mono {t t' : productEntity.Rows} {id : String}
    (hsub : ∀ p ∈ productEntity.live t, p ∈ productEntity.live t') (h : IsTemplate t id) :
    IsTemplate t' id := by
  obtain ⟨p, hp, hid, hvariants⟩ := h
  exact ⟨p, hsub p hp, hid, hvariants⟩

theorem createProduct_templatesValid {t : productEntity.Rows} {suppliers : Suppliers}
    {newId : String} {data : CreateProductDTO} {currentUser : Option String} {row : Product}
    (hs : TemplatesValid s)
    (h : createProduct s.products suppliers newId data currentUser = .ok (t, row)) :
    TemplatesValid { s with products := t } := by
  obtain ⟨hcheck, hrow, hlive, hfresh⟩ := createProduct_ok h
  have hsub : ∀ p ∈ productEntity.live s.products, p ∈ productEntity.live t :=
    fun p hp => (hlive p).mpr (.inl hp)
  intro p hp id hid
  rcases (hlive p).mp hp with hp | rfl
  · exact ⟨(hs p hp id hid).1, (hs p hp id hid).2.mono hsub⟩
  · -- The template of the new row was checked, and it is a row that was there.
    rcases uuidField_ok (CreateProductDTO.row_ok hrow).2.2.2 with
      ⟨-, hnone⟩ | ⟨-, hnone⟩ | ⟨text, hfield, hne, hsome⟩
    · rw [hnone] at hid
      cases hid
    · rw [hnone] at hid
      cases hid
    · obtain rfl : uuid text = id := Option.some.inj (hsome.symm.trans hid)
      have htemplate : IsTemplate s.products (uuid text) := checkReferences_ok hcheck hfield hne
      refine ⟨?_, htemplate.mono hsub⟩
      obtain ⟨template, hmem, htid, -⟩ := htemplate
      rw [← htid]
      exact hfresh template (EntityType.mem_live.mp hmem).1

theorem updateProduct_templatesValid {t : productEntity.Rows} {suppliers : Suppliers}
    {id : String} {data : UpdateProductDTO} {currentUser : Option String} {row : Product}
    (hs : TemplatesValid s)
    (h : updateProduct s.products suppliers id data currentUser = .ok (t, row)) :
    TemplatesValid { s with products := t } ↔
      (data.template_product_id.All fun templateId => uuid templateId ≠ id) ∧
        (data.has_variants = .value false →
          ∀ p ∈ productEntity.live s.products, p.template_product_id ≠ some id) := by
  obtain ⟨hcheck, hid', ⟨old, hold, hid, -, -, hvariants, htemplate⟩, hlive⟩ := updateProduct_ok h
  have hrow : row ∈ productEntity.live t := (hlive row).mpr (.inr rfl)
  constructor
  · intro hafter
    constructor
    · cases hfield : data.template_product_id with
      | undefined => trivial
      | null => trivial
      | value text =>
          rcases uuidField_ok htemplate with ⟨hno, -⟩ | ⟨hno, -⟩ | ⟨text', hvalue, -, hsome⟩
          · rw [hno] at hfield
            cases hfield
          · rw [hno] at hfield
            cases hfield
          · obtain rfl := Field.value.inj (hvalue.symm.trans hfield)
            show uuid text' ≠ id
            rw [← hid']
            exact (hafter row hrow _ hsome).1
    · -- A product that refers to the row finds it without variants.
      intro hfalse p hp hpid
      have hpne : p.id ≠ id := Ne.symm (hs p hp id hpid).1
      obtain ⟨-, q, hq, hqid, hqvariants⟩ := hafter p ((hlive p).mpr (.inl ⟨hp, hpne⟩)) id hpid
      obtain rfl := EntityType.live_id_unique hq hrow (hqid.trans hid'.symm)
      rcases notNull_ok hvariants with ⟨hno, -⟩ | hvalue
      · rw [hno] at hfalse
        cases hfalse
      · rw [hfalse, hqvariants] at hvalue
        cases hvalue
  · rintro ⟨hown, hkeeps⟩
    have hkept : ∀ templateId, templateId ≠ id → IsTemplate s.products templateId →
        IsTemplate t templateId := by
      rintro templateId hne ⟨q, hq, rfl, hqvariants⟩
      exact ⟨q, (hlive q).mpr (.inl ⟨hq, hne⟩), rfl, hqvariants⟩
    intro p hp templateId hpt
    rcases (hlive p).mp hp with ⟨hp, hpne⟩ | rfl
    · obtain ⟨hne, hvalid⟩ := hs p hp templateId hpt
      refine ⟨hne, ?_⟩
      by_cases heq : templateId = id
      · -- The template is the updated row; it had variants, and the update leaves them.
        subst heq
        refine ⟨row, hrow, hid', ?_⟩
        rcases notNull_ok hvariants with ⟨-, hsame⟩ | hvalue
        · obtain ⟨q, hq, hqid, hqvariants⟩ := hvalid
          obtain rfl := EntityType.live_id_unique hq hold (hqid.trans hid.symm)
          exact hsame.trans hqvariants
        · cases hb : row.has_variants with
          | true => rfl
          | false =>
              rw [hb] at hvalue
              exact absurd hpt (hkeeps hvalue p hp)
      · exact hkept templateId heq hvalid
    · rcases uuidField_ok htemplate with ⟨-, hsame⟩ | ⟨-, hnone⟩ | ⟨text, hvalue, hne, hsome⟩
      · rw [hsame] at hpt
        obtain ⟨hne, hvalid⟩ := hs old hold templateId hpt
        rw [hid] at hne
        exact ⟨by rw [hid']; exact hne, hkept templateId hne hvalid⟩
      · rw [hnone] at hpt
        cases hpt
      · obtain rfl : uuid text = templateId := Option.some.inj (hsome.symm.trans hpt)
        rw [hvalue] at hown
        exact ⟨by rw [hid']; exact hown,
          hkept _ hown (checkReferences_ok hcheck hvalue hne)⟩

theorem deleteProduct_templatesValid {t : productEntity.Rows} {id : String} {softDelete : Bool}
    {currentUser : Option String} (hs : TemplatesValid s)
    (h : productEntity.delete s.products id softDelete currentUser = .ok t) :
    TemplatesValid { s with products := t } ↔
      ∀ p ∈ productEntity.live s.products, p.template_product_id ≠ some (uuid id) := by
  have hlive : ∀ p, p ∈ productEntity.live t ↔
      p ∈ productEntity.live s.products ∧ p.id ≠ uuid id :=
    fun p => EntityType.mem_live_delete h
  constructor
  · intro hafter p hp hpt
    have hpne : p.id ≠ uuid id := Ne.symm (hs p hp _ hpt).1
    obtain ⟨-, q, hq, hqid, -⟩ := hafter p ((hlive p).mpr ⟨hp, hpne⟩) _ hpt
    exact ((hlive q).mp hq).2 hqid
  · intro hkeeps p hp templateId hpt
    have hp := ((hlive p).mp hp).1
    obtain ⟨hne, q, hq, hqid, hqvariants⟩ := hs p hp templateId hpt
    refine ⟨hne, q, (hlive q).mpr ⟨hq, fun heq => ?_⟩, hqid, hqvariants⟩
    obtain rfl : templateId = uuid id := hqid.symm.trans heq
    exact hkeeps p hp hpt

theorem generateVariants_templatesValid {templateId : String}
    {attributes : List VariantAttributeSelection} {draws : VariantDraws}
    {currentUser : Option String} {variants : List Product} (hs : TemplatesValid s)
    (h : generateVariants s templateId attributes draws currentUser = .ok (s', variants)) :
    TemplatesValid s' := by
  obtain ⟨template, htemplate, -, hhas, hvariants, -, hlive, -⟩ := generateVariants_ok h
  have hsub : ∀ p ∈ productEntity.live s.products, p ∈ productEntity.live s'.products :=
    fun p hp => (hlive p).mpr (.inl hp)
  intro p hp id hid
  rcases (hlive p).mp hp with hp | hp
  · exact ⟨(hs p hp id hid).1, (hs p hp id hid).2.mono hsub⟩
  · obtain ⟨hvariant, hfresh⟩ := hvariants p hp
    obtain rfl : template.id = id := Option.some.inj (hvariant.template_product_id.symm.trans hid)
    exact ⟨hfresh template htemplate, template, hsub template htemplate, rfl, hhas⟩

/-- **One operation that returns.** -/
theorem body_templatesValid (hs : TemplatesValid s) (h : s.body print r = .ok s') :
    TemplatesValid s' ↔ r.KeepsTemplates s := by
  obtain ⟨operation, currentUser, suppliers⟩ := r
  cases operation with
  | createProduct newId data =>
      obtain ⟨⟨t, row⟩, hcreate, h⟩ := bind_eq_ok.mp h
      obtain rfl := Except.ok.inj h
      exact iff_of_true (createProduct_templatesValid hs hcreate) trivial
  | updateProduct id data =>
      obtain ⟨⟨t, row⟩, hupdate, h⟩ := bind_eq_ok.mp h
      obtain rfl := Except.ok.inj h
      exact updateProduct_templatesValid hs hupdate
  | deleteProduct id softDelete =>
      obtain ⟨t, hdelete, h⟩ := bind_eq_ok.mp h
      obtain rfl := Except.ok.inj h
      exact deleteProduct_templatesValid hs hdelete
  | generateVariants templateId attributes draws =>
      obtain ⟨⟨s₁, variants⟩, hgenerate, h⟩ := bind_eq_ok.mp h
      obtain rfl := Except.ok.inj h
      exact iff_of_true (generateVariants_templatesValid hs hgenerate) trivial
  | itemGroups call scan =>
      obtain ⟨-, rfl⟩ := body_itemGroups h
      exact iff_of_true hs trivial
  | createFactor newId data | updateFactor id data | updateUom id data =>
      obtain ⟨result, -, h⟩ := bind_eq_ok.mp h
      obtain rfl := Except.ok.inj h
      exact iff_of_true hs trivial

/-- **Products have templates**: in every state of a run the template of every live product is
another live product that has variants, exactly when no operation of the run that returns sets a
product as its own template, deletes a template of live products or takes its variants. -/
theorem run_templatesValid (print : Option ℚ → String) {s : InventoryDb} {requests : List Request}
    (hs : TemplatesValid s) :
    AllStates (InventoryDb.step print) TemplatesValid s requests ↔
      AllSteps (InventoryDb.step print)
        (fun s r => (s.body print r).isOk → r.KeepsTemplates s) s requests := by
  refine allStates_iff_allSteps (I := fun _ => True) (fun _ _ _ => trivial) ?_ trivial hs
  intro s r _ hs
  exact InventoryDb.step_iff (fun s' h => body_templatesValid hs h) hs

/-- A variant of a template is moved to another group and deleted. -/
theorem run_templatesValid_variants :
    AllStates (InventoryDb.step fun _ => "") TemplatesValid InventoryDb.empty
      [product "t" "g" true .undefined, product "v" "g" false (.value "t"), moveProduct "v" "h",
        deleteProduct "v"] :=
  (run_templatesValid (fun _ => "") (by decide)).mpr (by decide +kernel)

/-- **A template is deleted under its variant.** -/
theorem template_deleted_under_variant :
    ¬ AllStates (InventoryDb.step fun _ => "") TemplatesValid InventoryDb.empty
      [product "t" "g" true .undefined, product "v" "g" false (.value "t"),
        deleteProduct "t"] := by
  decide +kernel

end ErpApi.Inventory
