import ErpApi.Inventory.LeafRule
import ErpApi.Inventory.Products

set_option autoImplicit false

/-! # Operations on the inventory

The calls of the services of products, item groups, units of measure and conversion factors, as
steps of the whole inventory: a call that throws changes nothing (`step_of_error`), and each call
that returns has one lemma that says which live rows it leaves.
-/

namespace ErpApi.Inventory

inductive Operation where
  | createProduct (newId : String) (data : CreateProductDTO)
  | updateProduct (id : String) (data : UpdateProductDTO)
  | deleteProduct (id : String) (softDelete : Bool)
  | generateVariants (templateId : String) (attributes : List VariantAttributeSelection)
      (draws : VariantDraws)
  | itemGroups (call : Call ItemGroupColumns ItemGroupFields)
      (scan : Scan (TreeRow ItemGroupColumns))
  | createFactor (newId : String) (data : CreateUomConversionFactorDTO)
  | updateFactor (id : String) (data : UpdateUomConversionFactorDTO)
  | updateUom (id : String) (data : UpdateUomDTO)

/-- An operation, with the user that asks for it and the answers of the supplier service. -/
structure Request where
  operation : Operation
  currentUser : Option String
  suppliers : Suppliers

namespace InventoryDb

variable (print : Option ℚ → String) (s : InventoryDb)

/-- What an operation leaves, or the error that it throws. -/
def body (r : Request) : Except ServiceError InventoryDb :=
  match r.operation with
  | .createProduct newId data => do
      let (products, _) ← createProduct s.products r.suppliers newId data r.currentUser
      return { s with products }
  | .updateProduct id data => do
      let (products, _) ← updateProduct s.products r.suppliers id data r.currentUser
      return { s with products }
  | .deleteProduct id softDelete => do
      let products ← productEntity.delete s.products id softDelete r.currentUser
      return { s with products }
  | .generateVariants templateId attributes draws => do
      let (s', _) ← generateVariants s templateId attributes draws r.currentUser
      return s'
  | .itemGroups call scan =>
      let result := itemGroupsService.call s.itemGroups r.currentUser scan call
      result.2.map fun _ => { s with itemGroups := result.1 }
  | .createFactor newId data => do
      let (factors, _) ← createFactor print s newId data r.currentUser
      return { s with factors }
  | .updateFactor id data => do
      let (factors, _) ← updateFactor print s id data r.currentUser
      return { s with factors }
  | .updateUom id data => do
      let (uoms, _) ← updateUom s.uoms id data r.currentUser
      return { s with uoms }

/-- The inventory after an operation. -/
def step (r : Request) : InventoryDb := (s.body print r).toOption.getD s

end InventoryDb

section Effects

variable {print : Option ℚ → String} {s s' : InventoryDb} {r : Request}

theorem InventoryDb.step_of_ok (h : s.body print r = .ok s') : s.step print r = s' := by
  rw [InventoryDb.step, h]
  rfl

/-- An operation that throws changes nothing. -/
theorem InventoryDb.step_of_error {e : ServiceError} (h : s.body print r = .error e) :
    s.step print r = s := by
  rw [InventoryDb.step, h]
  rfl

theorem body_itemGroups {call : Call ItemGroupColumns ItemGroupFields}
    {scan : Scan (TreeRow ItemGroupColumns)} {currentUser : Option String} {suppliers : Suppliers}
    (h : s.body print ⟨.itemGroups call scan, currentUser, suppliers⟩ = .ok s') :
    (itemGroupsService.call s.itemGroups currentUser scan call).2.isOk ∧
      s' = { s with
        itemGroups := (itemGroupsService.call s.itemGroups currentUser scan call).1 } := by
  cases hcall : (itemGroupsService.call s.itemGroups currentUser scan call).2 with
  | error e =>
      simp only [InventoryDb.body, hcall] at h
      cases h
  | ok result =>
      simp only [InventoryDb.body, hcall] at h
      exact ⟨rfl, (Except.ok.inj h).symm⟩

/-- What a property needs of the operations that return, it needs of every step. -/
theorem InventoryDb.step_iff {P : InventoryDb → Prop} {Keeps : InventoryDb → Request → Prop}
    (hbody : ∀ s', s.body print r = .ok s' → (P s' ↔ Keeps s r)) (h : P s) :
    P (s.step print r) ↔ ((s.body print r).isOk → Keeps s r) := by
  cases hr : s.body print r with
  | error e =>
      rw [InventoryDb.step_of_error hr]
      exact iff_of_true h fun hok => by cases hok
  | ok s' =>
      rw [InventoryDb.step_of_ok hr, hbody s' hr]
      exact ⟨fun hkeeps _ => hkeeps, fun hkeeps => hkeeps rfl⟩

/-! ## Products -/

theorem assertValidTemplate_ok {t : productEntity.Rows} {templateId : String}
    (h : assertValidTemplate t templateId = .ok ()) :
    ∃ template ∈ productEntity.live t, template.id = uuid templateId ∧
      template.has_variants = true := by
  unfold assertValidTemplate at h
  split at h
  · cases h
  · rename_i template hfind
    obtain ⟨hlive, hid⟩ := EntityType.findLive_eq_some.mp hfind
    split at h
    · cases h
    · rename_i hvariants
      exact ⟨template, hlive, hid, by simpa using hvariants⟩

theorem checkReferences_ok {t : productEntity.Rows} {suppliers : Suppliers}
    {supplier template : Field String} (h : checkReferences t suppliers supplier template = .ok ())
    {templateId : String} (htemplate : template = .value templateId) (hne : templateId ≠ "") :
    ∃ row ∈ productEntity.live t, row.id = uuid templateId ∧ row.has_variants = true := by
  subst htemplate
  obtain ⟨⟨⟩, -, hcheck⟩ := bind_eq_ok.mp h
  unfold checkTemplate at hcheck
  have htruthy : (Field.value templateId).truthy = some templateId := if_neg hne
  rw [htruthy] at hcheck
  exact assertValidTemplate_ok hcheck

theorem uuidColumn_ok {text value : String} (h : uuidColumn text = .ok value) :
    text ≠ "" ∧ value = uuid text := by
  unfold uuidColumn at h
  split at h
  · cases h
  · rename_i hne
    exact ⟨hne, (Except.ok.inj h).symm⟩

theorem uuidField_ok {old value : Option String} {f : Field String}
    (h : uuidField old f = .ok value) :
    (f = .undefined ∧ value = old) ∨ (f = .null ∧ value = none) ∨
      ∃ text, f = .value text ∧ text ≠ "" ∧ value = some (uuid text) := by
  cases f with
  | undefined => exact .inl ⟨rfl, (Except.ok.inj h).symm⟩
  | null => exact .inr (.inl ⟨rfl, (Except.ok.inj h).symm⟩)
  | value text =>
      obtain ⟨v, hv, hvalue⟩ := bind_eq_ok.mp h
      obtain ⟨hne, rfl⟩ := uuidColumn_ok hv
      exact .inr (.inr ⟨text, rfl, hne, (Except.ok.inj hvalue).symm⟩)

theorem uuidNotNull_ok {column old value : String} {f : Field String}
    (h : uuidNotNull column old f = .ok value) :
    (f = .undefined ∧ value = old) ∨ ∃ text, f = .value text ∧ value = uuid text := by
  cases f with
  | undefined => exact .inl ⟨rfl, (Except.ok.inj h).symm⟩
  | null => cases h
  | value text => exact .inr ⟨text, rfl, (uuidColumn_ok h).2⟩

theorem notNull_ok {α : Type} {column : String} {old value : α} {f : Field α}
    (h : f.notNull column old = .ok value) :
    (f = .undefined ∧ value = old) ∨ f = .value value := by
  cases f with
  | undefined => exact .inl ⟨rfl, (Except.ok.inj h).symm⟩
  | null => cases h
  | value a => exact .inr (congrArg _ (Except.ok.inj h))

/-- What the row of a new product takes from the request. -/
theorem CreateProductDTO.row_ok {data : CreateProductDTO} {newId : String}
    {currentUser : Option String} {row : Product} (h : data.row newId currentUser = .ok row) :
    row.toBaseEntity = BaseEntity.create newId currentUser ∧
      row.item_group_id = uuid data.item_group_id ∧ row.stock_uom_id = uuid data.stock_uom_id ∧
      uuidField none data.template_product_id = .ok row.template_product_id := by
  obtain ⟨group, hgroup, h⟩ := bind_eq_ok.mp h
  obtain ⟨brand, -, h⟩ := bind_eq_ok.mp h
  obtain ⟨stock, hstock, h⟩ := bind_eq_ok.mp h
  obtain ⟨variants, -, h⟩ := bind_eq_ok.mp h
  obtain ⟨template, htemplate, h⟩ := bind_eq_ok.mp h
  obtain ⟨supplier, -, h⟩ := bind_eq_ok.mp h
  obtain rfl := Except.ok.inj h
  exact ⟨rfl, (uuidColumn_ok hgroup).2, (uuidColumn_ok hstock).2, htemplate⟩

/-- What an updated row takes from the request. -/
theorem UpdateProductDTO.merge_ok {data : UpdateProductDTO} {r merged : Product}
    (h : data.merge r = .ok merged) :
    uuidNotNull "item_group_id" r.item_group_id data.item_group_id = .ok merged.item_group_id ∧
      uuidNotNull "stock_uom_id" r.stock_uom_id data.stock_uom_id = .ok merged.stock_uom_id ∧
      data.has_variants.notNull "has_variants" r.has_variants = .ok merged.has_variants ∧
      uuidField r.template_product_id data.template_product_id =
        .ok merged.template_product_id := by
  obtain ⟨sku, -, h⟩ := bind_eq_ok.mp h
  obtain ⟨name_th, -, h⟩ := bind_eq_ok.mp h
  obtain ⟨name_en, -, h⟩ := bind_eq_ok.mp h
  obtain ⟨type, -, h⟩ := bind_eq_ok.mp h
  obtain ⟨group, hgroup, h⟩ := bind_eq_ok.mp h
  obtain ⟨brand, -, h⟩ := bind_eq_ok.mp h
  obtain ⟨stock, hstock, h⟩ := bind_eq_ok.mp h
  obtain ⟨variants, hvariants, h⟩ := bind_eq_ok.mp h
  obtain ⟨template, htemplate, h⟩ := bind_eq_ok.mp h
  obtain ⟨supplier, -, h⟩ := bind_eq_ok.mp h
  obtain rfl := Except.ok.inj h
  exact ⟨hgroup, hstock, hvariants, htemplate⟩

theorem createProduct_ok {t t' : productEntity.Rows} {suppliers : Suppliers} {newId : String}
    {data : CreateProductDTO} {currentUser : Option String} {row : Product}
    (h : createProduct t suppliers newId data currentUser = .ok (t', row)) :
    checkReferences t suppliers data.supplier_id data.template_product_id = .ok () ∧
      data.row newId currentUser = .ok row ∧
      (∀ p, p ∈ productEntity.live t' ↔ p ∈ productEntity.live t ∨ p = row) ∧
      ∀ p ∈ t.rows, p.id ≠ row.id := by
  obtain ⟨⟨⟩, hcheck, h⟩ := bind_eq_ok.mp h
  obtain ⟨row', hrow, h⟩ := bind_eq_ok.mp (executeDbOperation_eq_ok.mp h)
  obtain ⟨t₁, hinsert, h⟩ := bind_eq_ok.mp h
  obtain ⟨rfl, rfl⟩ := Prod.mk.inj (Except.ok.inj h)
  have hbase := (CreateProductDTO.row_ok hrow).1
  obtain ⟨hlive, hfresh⟩ := EntityType.mem_live_insert hinsert (congrArg BaseEntity.is_deleted hbase)
  exact ⟨hcheck, hrow, hlive, hfresh⟩

theorem updateProduct_ok {t t' : productEntity.Rows} {suppliers : Suppliers} {id : String}
    {data : UpdateProductDTO} {currentUser : Option String} {row : Product}
    (h : updateProduct t suppliers id data currentUser = .ok (t', row)) :
    checkReferences t suppliers data.supplier_id data.template_product_id = .ok () ∧
      row.id = id ∧
      (∃ old ∈ productEntity.live t, old.id = id ∧
        uuidNotNull "item_group_id" old.item_group_id data.item_group_id = .ok row.item_group_id ∧
        uuidNotNull "stock_uom_id" old.stock_uom_id data.stock_uom_id = .ok row.stock_uom_id ∧
        data.has_variants.notNull "has_variants" old.has_variants = .ok row.has_variants ∧
        uuidField old.template_product_id data.template_product_id =
          .ok row.template_product_id) ∧
      ∀ p, p ∈ productEntity.live t' ↔ (p ∈ productEntity.live t ∧ p.id ≠ id) ∨ p = row := by
  obtain ⟨⟨⟩, hcheck, h⟩ := bind_eq_ok.mp h
  obtain ⟨old, hold, hid, hid', ⟨merged, hmerged, hrow⟩, hlive⟩ :=
    EntityType.live_update (executeDbOperation_eq_ok.mp h)
  subst hrow
  have hcolumns := UpdateProductDTO.merge_ok hmerged
  exact ⟨hcheck, hid', ⟨old, hold, hid, hcolumns⟩, hlive⟩

/-- What a generated product takes from its template. -/
structure IsVariant (template p : Product) : Prop where
  item_group_id : p.item_group_id = template.item_group_id
  stock_uom_id : p.stock_uom_id = template.stock_uom_id
  has_variants : p.has_variants = false
  template_product_id : p.template_product_id = some template.id

/-- One turn of the loop adds a variant under a new id. -/
theorem createVariant_ok {template variant : Product} {draws : VariantDraws} {i : Nat}
    {combination : VariantCombination} {currentUser : Option String}
    (h : createVariant s template draws i combination currentUser = .ok (s', variant)) :
    IsVariant template variant ∧ variant.id = uuid (draws.variant i) ∧
      (∀ p, p ∈ productEntity.live s'.products ↔
        p ∈ productEntity.live s.products ∨ p = variant) ∧
      (∀ p ∈ productEntity.live s.products, p.id ≠ variant.id) ∧
      s'.itemGroups = s.itemGroups ∧ s'.uoms = s.uoms ∧ s'.factors = s.factors := by
  obtain ⟨values, -, h⟩ := bind_eq_ok.mp h
  obtain ⟨products, hinsert, h⟩ := bind_eq_ok.mp h
  obtain ⟨hlive, hfresh⟩ := EntityType.mem_live_insert hinsert rfl
  dsimp only at h
  split at h
  · cases h
  · obtain ⟨rfl, rfl⟩ := Prod.mk.inj (Except.ok.inj h)
    exact ⟨⟨rfl, rfl, rfl, rfl⟩, rfl, hlive,
      fun p hp => hfresh p (EntityType.mem_live.mp hp).1, rfl, rfl, rfl⟩

/-- The live products after the loop, and the tables that it leaves alone. -/
theorem createVariants_ok {template : Product} {draws : VariantDraws} {i : Nat}
    {combinations : List VariantCombination} {currentUser : Option String}
    {variants : List Product}
    (h : createVariants s template draws currentUser i combinations = .ok (s', variants)) :
    (∀ v ∈ variants, IsVariant template v ∧ ∀ p ∈ productEntity.live s.products, p.id ≠ v.id) ∧
      variants.map (·.id) = (List.range' i combinations.length).map (uuid ∘ draws.variant) ∧
      (∀ p, p ∈ productEntity.live s'.products ↔
        p ∈ productEntity.live s.products ∨ p ∈ variants) ∧
      s'.itemGroups = s.itemGroups ∧ s'.uoms = s.uoms ∧ s'.factors = s.factors := by
  induction combinations generalizing s i variants with
  | nil =>
      obtain ⟨rfl, rfl⟩ := Prod.mk.inj (Except.ok.inj h)
      refine ⟨?_, rfl, ?_, rfl, rfl, rfl⟩
      · intro v hv
        cases hv
      · simp
  | cons combination combinations ih =>
      obtain ⟨⟨s₁, variant⟩, hvariant, h⟩ := bind_eq_ok.mp h
      obtain ⟨⟨s₂, rest⟩, hrest, h⟩ := bind_eq_ok.mp h
      obtain ⟨rfl, rfl⟩ := Prod.mk.inj (Except.ok.inj h)
      obtain ⟨his, hid, hlive, hfresh, hgroups, huoms, hfactors⟩ := createVariant_ok hvariant
      obtain ⟨ihis, ihids, ihlive, ihgroups, ihuoms, ihfactors⟩ := ih hrest
      refine ⟨?_, ?_, ?_, ihgroups.trans hgroups, ihuoms.trans huoms, ihfactors.trans hfactors⟩
      · intro v hv
        rcases List.mem_cons.mp hv with rfl | hv
        · exact ⟨his, hfresh⟩
        · exact ⟨(ihis v hv).1, fun p hp => (ihis v hv).2 p ((hlive p).mpr (.inl hp))⟩
      · rw [List.map_cons, hid, ihids, List.length_cons, List.range'_succ]
        rfl
      · intro p
        rw [ihlive, hlive, List.mem_cons, or_assoc]

/-- What `generateVariants` leaves. -/
theorem generateVariants_ok {templateId : String} {attributes : List VariantAttributeSelection}
    {draws : VariantDraws} {currentUser : Option String} {variants : List Product}
    (h : generateVariants s templateId attributes draws currentUser = .ok (s', variants)) :
    ∃ template ∈ productEntity.live s.products, template.id = uuid templateId ∧
      template.has_variants = true ∧
      (∀ v ∈ variants, IsVariant template v ∧
        ∀ p ∈ productEntity.live s.products, p.id ≠ v.id) ∧
      variants.map (·.id) = (List.range (generateVariantCombinations attributes).length).map
        (uuid ∘ draws.variant) ∧
      (∀ p, p ∈ productEntity.live s'.products ↔
        p ∈ productEntity.live s.products ∨ p ∈ variants) ∧
      s'.itemGroups = s.itemGroups ∧ s'.uoms = s.uoms ∧ s'.factors = s.factors := by
  have h := executeDbOperation_eq_ok.mp h
  split at h
  · cases h
  · rename_i template hfind
    obtain ⟨hlive, hid⟩ := EntityType.findLive_eq_some.mp hfind
    split at h
    · cases h
    · rename_i hvariants
      dsimp only at h
      split at h
      · cases h
      · have hrest := createVariants_ok h
        rw [← List.range_eq_range'] at hrest
        exact ⟨template, hlive, hid, by simpa using hvariants, hrest⟩

/-! ## Item groups -/

/-- There is a live leaf with the id. -/
def IsLeaf {δ : Type} (t : Rows δ) (id : String) : Prop :=
  ∃ g ∈ Inventory.live t, g.id = id ∧ g.is_group = false

instance {δ : Type} (t : Rows δ) (id : String) : Decidable (IsLeaf t id) :=
  inferInstanceAs (Decidable (∃ g ∈ Inventory.live t, g.id = id ∧ g.is_group = false))

/-- The call neither makes a group of the row with this id nor deletes it. -/
def Call.KeepsLeaf {δ π : Type} (id : String) : Call δ π → Prop
  | .create _ _ => True
  | .update id' data => data.is_group = .value true → id ≠ id'
  | .delete id' _ => id ≠ uuid id'

instance {δ π : Type} (id : String) : (c : Call δ π) → Decidable (c.KeepsLeaf id)
  | .create _ _ => .isTrue trivial
  | .update id' data => inferInstanceAs (Decidable (data.is_group = .value true → id ≠ id'))
  | .delete id' _ => inferInstanceAs (Decidable (id ≠ uuid id'))

section Leaves

variable {δ π : Type} {service : TreeService δ π} {t t' : Rows δ} {currentUser : Option String}
  {scan : Scan (TreeRow δ)}

theorem isLeaf_rebuildTree (h : rebuildTree scan t = .ok t') (id : String) :
    IsLeaf t' id ↔ IsLeaf t id := by
  obtain ⟨w, hlive⟩ := live_rebuildTree h
  unfold IsLeaf
  rw [hlive]
  simp only [List.mem_map, exists_exists_and_eq_and]
  rfl

/-- A new row leaves the leaves as they are, and may be one. -/
theorem isLeaf_createBody {newId : String} {data : CreateDTO δ} {result : Rows δ × TreeRow δ}
    (h : service.createBody t newId data currentUser scan = .ok result) {id : String}
    (hleaf : IsLeaf t id) : IsLeaf result.1 id := by
  obtain ⟨⟨⟩, -, hbody⟩ := bind_eq_ok.mp h
  split at hbody
  · cases hbody
  · rename_i t₁ hinsert
    obtain ⟨t₂, hrebuild, hfind⟩ := bind_eq_ok.mp hbody
    obtain ⟨saved, -, hresult⟩ := bind_eq_ok.mp hfind
    obtain rfl := Except.ok.inj hresult
    obtain ⟨g, hg, hgroup⟩ := hleaf
    obtain ⟨hmem, hdeleted⟩ := List.mem_filter.mp hg
    refine (isLeaf_rebuildTree hrebuild id).mpr ⟨g, List.mem_filter.mpr ⟨?_, hdeleted⟩, hgroup⟩
    rw [Table.rows_of_insert hinsert]
    exact List.mem_append_left _ hmem

theorem live_save_of_ne {entity r : TreeRow δ} (hr : r ∈ Inventory.live t) (hne : entity.id ≠ r.id) :
    r ∈ Inventory.live (save t [entity]) := by
  obtain ⟨hmem, hdeleted⟩ := List.mem_filter.mp hr
  refine List.mem_filter.mpr ⟨List.mem_map.mpr ⟨r, hmem, ?_⟩, hdeleted⟩
  simp [hne]

theorem preload_is_group {data : UpdateDTO π} {r entity : TreeRow δ}
    (h : service.preload data currentUser r = .ok entity) :
    entity.is_deleted = r.is_deleted ∧
      data.is_group.notNull "is_group" r.is_group = .ok entity.is_group := by
  obtain ⟨attributes, -, h⟩ := bind_eq_ok.mp h
  obtain ⟨is_group, hgroup, h⟩ := bind_eq_ok.mp h
  obtain rfl := Except.ok.inj h
  exact ⟨rfl, hgroup⟩

theorem mem_live_save {r entity : TreeRow δ} (hr : r ∈ Inventory.live t) (hid : entity.id = r.id)
    (hdeleted : entity.is_deleted = r.is_deleted) : entity ∈ Inventory.live (save t [entity]) := by
  obtain ⟨hmem, hr⟩ := List.mem_filter.mp hr
  refine List.mem_filter.mpr ⟨List.mem_map.mpr ⟨r, hmem, ?_⟩, by rw [hdeleted]; exact hr⟩
  simp [hid]

/-- A leaf is a leaf after an update, unless it is the updated row and becomes a group. -/
theorem isLeaf_updateBody {id : String} {data : UpdateDTO π} {result : Rows δ × TreeRow δ}
    (h : service.updateBody t id data currentUser scan = .ok result) {id' : String}
    (hleaf : IsLeaf t id') :
    IsLeaf result.1 id' ↔ (data.is_group = .value true → id' ≠ id) := by
  obtain ⟨⟨⟩, -, hbody⟩ := bind_eq_ok.mp h
  split at hbody
  · cases hbody
  · rename_i r hfind
    obtain ⟨hr, rfl⟩ := findLive_some hfind
    obtain ⟨entity, hpreload, hbody⟩ := bind_eq_ok.mp hbody
    obtain ⟨t₂, hrebuild, hbody⟩ := bind_eq_ok.mp hbody
    obtain ⟨saved, -, hresult⟩ := bind_eq_ok.mp hbody
    obtain rfl := Except.ok.inj hresult
    have hid := (preload_ok hpreload).1
    obtain ⟨hdeleted, hgroup⟩ := preload_is_group hpreload
    obtain ⟨g, hg, rfl, hgleaf⟩ := hleaf
    rw [isLeaf_rebuildTree hrebuild]
    by_cases hne : g.id = r.id
    · obtain rfl : g = r :=
        t.eq_of_key_eq (List.mem_filter.mp hg).1 (List.mem_filter.mp hr).1 hne
      constructor
      · rintro ⟨g', hg', hid', hgleaf'⟩ hvalue
        rcases live_save_one hid hg' with rfl | ⟨-, hne'⟩
        · rcases notNull_ok hgroup with ⟨hundefined, -⟩ | hvalue'
          · rw [hundefined] at hvalue
            cases hvalue
          · rw [hvalue, hgleaf'] at hvalue'
            cases hvalue'
        · exact absurd hid' hne'
      · intro hkeeps
        refine ⟨entity, mem_live_save hr hid hdeleted, hid, ?_⟩
        rcases notNull_ok hgroup with ⟨-, hsame⟩ | hvalue
        · rw [hsame, hgleaf]
        · cases hb : entity.is_group with
          | false => rfl
          | true =>
              rw [hb] at hvalue
              exact absurd rfl (hkeeps hvalue)
    · refine iff_of_true ⟨g, live_save_of_ne hg ?_, rfl, hgleaf⟩ fun _ => hne
      rw [hid]
      exact Ne.symm hne

theorem isLeaf_deleteBody {id : String} {softDelete : Bool}
    (h : service.deleteBody t id softDelete currentUser scan = .ok t') (id' : String) :
    IsLeaf t' id' ↔ IsLeaf t id' ∧ id' ≠ uuid id := by
  have hsame : ∀ t₁ : Rows δ, (∀ g, g ∈ Inventory.live t₁ ↔ g ∈ Inventory.live t ∧ g.id ≠ uuid id) →
      (IsLeaf t₁ id' ↔ IsLeaf t id' ∧ id' ≠ uuid id) := by
    intro t₁ hlive
    constructor
    · rintro ⟨g, hg, rfl, hgleaf⟩
      obtain ⟨hg, hne⟩ := (hlive g).mp hg
      exact ⟨⟨g, hg, rfl, hgleaf⟩, hne⟩
    · rintro ⟨⟨g, hg, rfl, hgleaf⟩, hne⟩
      exact ⟨g, (hlive g).mpr ⟨hg, hne⟩, rfl, hgleaf⟩
  obtain ⟨-, -, hwrite⟩ := bind_eq_ok.mp h
  split at hwrite
  · cases hwrite
  split at hwrite
  · rw [isLeaf_rebuildTree hwrite]
    refine hsame _ fun g => ?_
    unfold Inventory.live
    rw [List.mem_filter, Table.rows_update, List.mem_map, List.mem_filter]
    constructor
    · rintro ⟨⟨old, hold, rfl⟩, hg⟩
      split at hg
      · cases hg
      · rename_i hne
        rw [if_neg hne]
        exact ⟨⟨hold, hg⟩, hne⟩
    · rintro ⟨⟨hmem, hg⟩, hne⟩
      exact ⟨⟨g, hmem, if_neg hne⟩, hg⟩
  · rw [isLeaf_rebuildTree hwrite]
    refine hsame _ fun g => ?_
    unfold Inventory.live
    rw [List.mem_filter, Table.filter, List.mem_filter, List.mem_filter]
    simp [and_right_comm]

/-- **One call on the tree.** A leaf is a leaf afterwards, unless the call makes a group of it or
deletes it. -/
theorem isLeaf_call {c : Call δ π} (hok : (service.call t currentUser scan c).2.isOk) {id : String}
    (hleaf : IsLeaf t id) : IsLeaf (service.call t currentUser scan c).1 id ↔ c.KeepsLeaf id := by
  cases c with
  | create newId data =>
      cases hbody : service.createBody t newId data currentUser scan with
      | error e =>
          simp only [TreeService.call, hbody] at hok
          cases hok
      | ok result =>
          simp only [TreeService.call, hbody]
          exact iff_of_true (isLeaf_createBody hbody hleaf) trivial
  | update id' data =>
      cases hbody : service.updateBody t id' data currentUser scan with
      | error e =>
          simp only [TreeService.call, hbody] at hok
          cases hok
      | ok result =>
          simp only [TreeService.call, hbody]
          exact isLeaf_updateBody hbody hleaf
  | delete id' softDelete =>
      cases hbody : service.deleteBody t id' softDelete currentUser scan with
      | error e =>
          simp only [TreeService.call, hbody] at hok
          cases hok
      | ok result =>
          simp only [TreeService.call, hbody]
          exact (isLeaf_deleteBody hbody id).trans (and_iff_right hleaf)

end Leaves

end Effects

/-! ## Runs on an empty inventory -/

def InventoryDb.empty : InventoryDb :=
  ⟨emptyRows _, ⟨[], List.nodup_nil⟩, ⟨[], List.nodup_nil⟩, ⟨[], List.nodup_nil⟩,
    ⟨[], List.nodup_nil⟩, ⟨[], List.nodup_nil⟩⟩

/-- An operation that no user is named for, while every supplier exists. -/
def Operation.request (operation : Operation) : Request := ⟨operation, none, fun _ => .ok true⟩

/-- A new item group at the root. -/
def group (id : String) (is_group : Bool) : Request :=
  (Operation.itemGroups (.create id ⟨⟨"n", "n"⟩, is_group, none⟩) inOrder).request

def deleteGroup (id : String) : Request :=
  (Operation.itemGroups (.delete id true) inOrder).request

/-- A new product with the stock unit `u`; its id is also its SKU. -/
def product (id item_group_id : String) (has_variants : Bool) (template : Field String) : Request :=
  (Operation.createProduct id
    ⟨id, "n", "n", .single, item_group_id, .undefined, "u", .value has_variants, template,
      .undefined⟩).request

/-- An update of the item group of a product alone. -/
def moveProduct (id item_group_id : String) : Request :=
  (Operation.updateProduct id
    ⟨.undefined, .undefined, .undefined, .undefined, .value item_group_id, .undefined, .undefined,
      .undefined, .undefined, .undefined⟩).request

def deleteProduct (id : String) : Request := (Operation.deleteProduct id true).request

end ErpApi.Inventory
