import ErpApi.Basic.Choices
import ErpApi.Inventory.Operations

set_option autoImplicit false

/-! # The variants of a template

`generateVariantCombinations` is a loop over the dimensions of a request that extends each
partial combination by each value of the next dimension. It yields the Cartesian product: what each
choice of one position per dimension picks, in lexicographic order (`combinations_eq`).

`generateVariants` creates a product for each combination, with one row for each of its entries, in
one transaction. It takes the attribute of an entry from the request: nothing compares it with the
attribute that the value belongs to, or with the other dimensions. The variants stand for the
choices of one value per attribute exactly when the request names each attribute once and each
value under its own attribute (`variantsOfChoices_iff`).
-/

namespace ErpApi.Inventory

/-- One position in the list of values of each selection. -/
abbrev VariantChoice (selections : List VariantAttributeSelection) : Type :=
  Choice (fun selection => selection.value_ids.length) selections

/-- The value at a position of a selection. -/
def VariantAttributeSelection.entry (selection : VariantAttributeSelection)
    (p : Fin selection.value_ids.length) : VariantCombinationEntry :=
  ⟨selection.attribute_id, selection.value_ids.get p⟩

def VariantChoice.combination {selections : List VariantAttributeSelection}
    (c : VariantChoice selections) : VariantCombination :=
  c.pick fun selection p => selection.entry p

variable {selections : List VariantAttributeSelection}

theorem combinations_eq (selections : List VariantAttributeSelection) :
    generateVariantCombinations selections =
      (Choice.all _ selections).map VariantChoice.combination := by
  have hvalues : ∀ (selection : VariantAttributeSelection) (combination : VariantCombination),
      (selection.value_ids.map fun valueId =>
        combination ++ [(⟨selection.attribute_id, valueId⟩ : VariantCombinationEntry)]) =
      (List.finRange selection.value_ids.length).map fun p =>
        combination ++ [selection.entry p] := by
    intro selection combination
    conv_lhs => rw [← List.map_get_finRange selection.value_ids]
    rw [List.map_map]
    rfl
  simp only [generateVariantCombinations, hvalues]
  rw [Choice.foldl_extend]
  simp [VariantChoice.combination]

theorem mem_combinations {combination : VariantCombination} :
    combination ∈ generateVariantCombinations selections ↔
      ∃ c : VariantChoice selections, c.combination = combination := by
  rw [combinations_eq, List.mem_map]
  constructor
  · rintro ⟨c, -, hc⟩
    exact ⟨c, hc⟩
  · rintro ⟨c, hc⟩
    exact ⟨c, Choice.mem_all c, hc⟩

theorem combination_attributes (c : VariantChoice selections) :
    c.combination.map (·.attribute_id) = selections.map (·.attribute_id) := by
  rw [VariantChoice.combination, Choice.map_pick, Choice.pick]
  exact List.ofFn_getElem_eq_map selections (·.attribute_id)

/-- The combinations are the Cartesian product of the selections, in lexicographic order. -/
theorem generateVariantCombinations_cartesian (selections : List VariantAttributeSelection) :
    (generateVariantCombinations selections).length =
        (selections.map fun selection => selection.value_ids.length).prod ∧
      (∀ combination ∈ generateVariantCombinations selections,
        combination.map (·.attribute_id) = selections.map (·.attribute_id)) ∧
      ∃ choices : List (VariantChoice selections),
        choices.Nodup ∧ (∀ c, c ∈ choices) ∧ choices.Pairwise Choice.Precedes ∧
          generateVariantCombinations selections =
            choices.map fun c => List.ofFn fun i =>
              ⟨(selections.get i).attribute_id, (selections.get i).value_ids.get (c i)⟩ := by
  refine ⟨?_, ?_, Choice.all _ selections, Choice.nodup_all, Choice.mem_all, Choice.pairwise_all,
    combinations_eq selections⟩
  · rw [combinations_eq, List.length_map, Choice.length_all]
  · intro combination hmem
    obtain ⟨c, rfl⟩ := mem_combinations.mp hmem
    exact combination_attributes c

/-! ## The rows that `generateVariants` adds -/

/-- What the loop adds for one combination: a variant, and the rows of its values. -/
structure Created (t : attributeValueEntity.Rows) (template : Product)
    (combination : VariantCombination) (created : Product × List ItemVariantAttribute) : Prop where
  values : ∃ values, List.Forall₂ (fun entry value => combinationValue t entry = .ok value)
      combination values ∧
    created.1.sku = template.sku ++ "-" ++
      String.intercalate "-" (values.map fun value => value.abbr.getD value.value)
  rows : created.2.map (fun r => (r.variant_product_id, r.attribute_id, r.attribute_value_id)) =
    combination.map fun entry =>
      (created.1.id, uuid entry.attribute_id, uuid entry.attribute_value_id)

section Run

variable {s s' : InventoryDb} {template : Product} {draws : VariantDraws}
  {currentUser : Option String}

theorem EntityType.rows_of_insert {ρ : Type} {E : EntityType ρ} {t t' : E.Rows} {row : ρ}
    (h : E.insert t row = .ok t') : t'.rows = t.rows ++ [row] ∧ E.violates t'.rows = none := by
  unfold EntityType.insert at h
  split at h
  · cases h
  · rename_i t₁ hinsert
    obtain rfl := EntityType.check_eq_ok h
    refine ⟨Table.rows_of_insert hinsert, ?_⟩
    unfold EntityType.check at h
    split at h
    · cases h
    · assumption

theorem skus_nodup {rows : List Product} (h : productEntity.violates rows = none) :
    (rows.map (·.sku)).Nodup := by
  dsimp only at h
  split at h
  · cases h
  split at h
  · cases h
  · rename_i hnodup
    exact not_not.mp hnodup

theorem createVariant_rows {i : Nat} {combination : VariantCombination} {variant : Product}
    (h : createVariant s template draws i combination currentUser = .ok (s', variant)) :
    s'.attributeValues = s.attributeValues ∧
      s'.products.rows = s.products.rows ++ [variant] ∧ (s'.products.rows.map (·.sku)).Nodup ∧
      ∃ rows, s'.variantAttributes.rows = s.variantAttributes.rows ++ rows ∧
        Created s.attributeValues template combination (variant, rows) := by
  obtain ⟨values, hvalues, h⟩ := bind_eq_ok.mp h
  obtain ⟨products, hinsert, h⟩ := bind_eq_ok.mp h
  obtain ⟨hrows, hsku⟩ := EntityType.rows_of_insert hinsert
  dsimp only at h
  split at h
  · cases h
  · rename_i variantAttributes hmany
    obtain ⟨rfl, rfl⟩ := Prod.mk.inj (Except.ok.inj h)
    refine ⟨rfl, hrows, skus_nodup hsku, _, Table.rows_of_insertMany hmany, ?_, ?_⟩
    · exact ⟨values, mapM_eq_ok.mp hvalues, rfl⟩
    · refine List.ext_getElem (by simp) fun j hj hj' => ?_
      simp [variantAttributeRow]

/-- The tables after the loop: the variants and the rows of their values are added, combination by
combination. -/
theorem createVariants_rows {i : Nat} {combinations : List VariantCombination}
    {variants : List Product}
    (h : createVariants s template draws currentUser i combinations = .ok (s', variants)) :
    ∃ created : List (Product × List ItemVariantAttribute),
      List.Forall₂ (Created s.attributeValues template) combinations created ∧
        variants = created.map (·.1) ∧
        s'.products.rows = s.products.rows ++ variants ∧
        s'.variantAttributes.rows = s.variantAttributes.rows ++ created.flatMap (·.2) ∧
        (combinations = [] ∨ (s'.products.rows.map (·.sku)).Nodup) := by
  induction combinations generalizing s i variants with
  | nil =>
      obtain ⟨rfl, rfl⟩ := Prod.mk.inj (Except.ok.inj h)
      exact ⟨[], .nil, rfl, by simp, by simp, .inl rfl⟩
  | cons combination combinations ih =>
      obtain ⟨⟨s₁, variant⟩, hvariant, h⟩ := bind_eq_ok.mp h
      obtain ⟨⟨s₂, rest⟩, hrest, h⟩ := bind_eq_ok.mp h
      obtain ⟨rfl, rfl⟩ := Prod.mk.inj (Except.ok.inj h)
      obtain ⟨hvalues, hproducts, hskus, rows, hattributes, hcreated⟩ := createVariant_rows hvariant
      obtain ⟨created, hall, rfl, ihproducts, ihattributes, ihskus⟩ := ih hrest
      rw [hvalues] at hall
      refine ⟨(variant, rows) :: created, .cons hcreated hall, rfl, ?_, ?_, .inr ?_⟩
      · rw [ihproducts, hproducts, List.append_assoc]
        rfl
      · rw [ihattributes, hattributes, List.append_assoc]
        rfl
      · rcases ihskus with rfl | hskus'
        · -- No turn is left, so the table is the one after this turn.
          obtain ⟨rfl, -⟩ := Prod.mk.inj (Except.ok.inj hrest)
          exact hskus
        · exact hskus'

/-- The tables after `generateVariants`. -/
theorem generateVariants_rows {templateId : String} {attributes : List VariantAttributeSelection}
    {variants : List Product}
    (h : generateVariants s templateId attributes draws currentUser = .ok (s', variants)) :
    generateVariantCombinations attributes ≠ [] ∧
      ∃ template, ∃ created : List (Product × List ItemVariantAttribute),
        List.Forall₂ (Created s.attributeValues template)
            (generateVariantCombinations attributes) created ∧
          variants = created.map (·.1) ∧
          s'.products.rows = s.products.rows ++ variants ∧
          s'.variantAttributes.rows = s.variantAttributes.rows ++ created.flatMap (·.2) ∧
          (s'.products.rows.map (·.sku)).Nodup := by
  have h := executeDbOperation_eq_ok.mp h
  split at h
  · cases h
  · rename_i template hfind
    split at h
    · cases h
    · dsimp only at h
      split at h
      · cases h
      · rename_i hlength
        have hne : generateVariantCombinations attributes ≠ [] := by
          intro hnil
          exact hlength (by rw [hnil]; rfl)
        obtain ⟨created, hall, hvariants, hproducts, hattributes, hskus⟩ := createVariants_rows h
        exact ⟨hne, template, created, hall, hvariants, hproducts, hattributes,
          hskus.resolve_left hne⟩

end Run

/-! ## A template with two attributes -/

def colour : String := "c0000000-0000-4000-8000-000000000001"

def size : String := "c0000000-0000-4000-8000-000000000002"

def red : String := "d0000000-0000-4000-8000-000000000001"

def medium : String := "d0000000-0000-4000-8000-000000000002"

def shirtId : String := "e0000000-0000-4000-8000-000000000000"

/-- One template, and one value of each of two attributes. -/
def shirts : InventoryDb where
  itemGroups := ⟨[], List.nodup_nil⟩
  products := ⟨[{ BaseEntity.create shirtId none with
    sku := "SHIRT", name_th := "Shirt", name_en := "Shirt", type := .single,
    item_group_id := "", brand_id := none, stock_uom_id := "", has_variants := true,
    template_product_id := none, supplier_id := none }], List.nodup_singleton _⟩
  attributeValues := ⟨[
    { BaseEntity.create red none with attribute_id := colour, value := "Red", abbr := some "R" },
    { BaseEntity.create medium none with
      attribute_id := size, value := "Medium", abbr := some "M" }], by decide⟩
  variantAttributes := ⟨[], List.nodup_nil⟩
  uoms := ⟨[], List.nodup_nil⟩
  factors := ⟨[], List.nodup_nil⟩

theorem uuid_shirts : ∀ value ∈ shirts.attributeValues.rows, uuid value.id = value.id := by
  decide +kernel

def shirtDraws : VariantDraws where
  variant := fun _ => "f0000000-0000-4000-8000-000000000000"
  variantAttribute := fun _ j => String.ofList (List.replicate (j + 1) 'a')

/-! ## Choices of one value per attribute -/

/-- The attributes of a request, one for each dimension. -/
def dimensions (attributes : List VariantAttributeSelection) : List String :=
  attributes.map fun selection => uuid selection.attribute_id

/-- The request selects the value for the attribute. -/
def Selected (attributes : List VariantAttributeSelection) (dimension value : String) : Prop :=
  ∃ selection ∈ attributes, uuid selection.attribute_id = dimension ∧
    ∃ valueId ∈ selection.value_ids, uuid valueId = value

/-- The rows of a variant that a call adds. -/
def valueRows (s s' : InventoryDb) (variantId : String) : List ItemVariantAttribute :=
  s'.variantAttributes.rows.filter fun r =>
    r.variant_product_id = variantId ∧ r ∉ s.variantAttributes.rows

/-- The variants correspond to the choices of one selected value per attribute. -/
structure VariantsOfChoices (s s' : InventoryDb) (attributes : List VariantAttributeSelection)
    (variants : List Product) : Prop where
  added : s'.products.rows = s.products.rows ++ variants
  one_value : ∀ v ∈ variants, ∀ dimension ∈ dimensions attributes,
    (valueRows s s' v.id).countP (fun r => r.attribute_id = dimension) = 1
  selected : ∀ v ∈ variants, ∀ r ∈ valueRows s s' v.id,
    Selected attributes r.attribute_id r.attribute_value_id
  owned : ∀ v ∈ variants, ∀ r ∈ valueRows s s' v.id,
    ∃ value ∈ attributeValueEntity.live s.attributeValues,
      value.id = r.attribute_value_id ∧ value.attribute_id = r.attribute_id
  one_to_one : ∀ choice : String → String,
    (∀ dimension ∈ dimensions attributes, Selected attributes dimension (choice dimension)) →
      ∃! v, v ∈ variants ∧
        ∀ r ∈ valueRows s s' v.id, r.attribute_value_id = choice r.attribute_id
  ids : (variants.map (·.id)).Nodup
  skus : (variants.map (·.sku)).Nodup

/-- The request names each attribute once, and each value under its own attribute. -/
structure ProperSelections (t : attributeValueEntity.Rows)
    (attributes : List VariantAttributeSelection) : Prop where
  once : (dimensions attributes).Nodup
  own : ∀ selection ∈ attributes, ∀ value ∈ attributeValueEntity.live t,
    value.id ∈ selection.value_ids → value.attribute_id = uuid selection.attribute_id

/-- Of the parts of a list of keyed lists, a key selects its own. -/
theorem filter_flatMap_of_key {α β κ : Type} [DecidableEq κ] {l : List α} {f : α → List β}
    {key : α → κ} {owner : β → κ} (hl : (l.map key).Nodup)
    (howner : ∀ a ∈ l, ∀ b ∈ f a, owner b = key a) {a : α} (ha : a ∈ l) :
    (l.flatMap f).filter (fun b => owner b = key a) = f a := by
  induction l with
  | nil => cases ha
  | cons x l ih =>
      obtain ⟨hx, hrest⟩ := List.nodup_cons.mp hl
      rw [List.flatMap_cons, List.filter_append]
      rcases List.mem_cons.mp ha with rfl | hmem
      · have hown : (f a).filter (fun b => owner b = key a) = f a := by
          rw [List.filter_eq_self]
          intro b hb
          simpa using howner a List.mem_cons_self b hb
        have hother : (l.flatMap f).filter (fun b => owner b = key a) = [] := by
          rw [List.filter_eq_nil_iff]
          intro b hb
          obtain ⟨y, hy, hb⟩ := List.mem_flatMap.mp hb
          have hkey : owner b = key y := howner y (List.mem_cons_of_mem _ hy) b hb
          have hne : key y ≠ key a := fun heq => hx (heq ▸ List.mem_map_of_mem hy)
          simpa [hkey] using hne
        rw [hown, hother, List.append_nil]
      · have hne : key x ≠ key a := fun heq => hx (heq ▸ List.mem_map_of_mem hmem)
        have hother : (f x).filter (fun b => owner b = key a) = [] := by
          rw [List.filter_eq_nil_iff]
          intro b hb
          simpa [howner x List.mem_cons_self b hb] using hne
        rw [hother, List.nil_append]
        exact ih hrest (fun y hy => howner y (List.mem_cons_of_mem _ hy)) hmem

section Choices

variable {s s' : InventoryDb} {templateId : String} {attributes : List VariantAttributeSelection}
  {draws : VariantDraws} {currentUser : Option String} {variants : List Product}
  {t : attributeValueEntity.Rows} {template v : Product} {rows : List ItemVariantAttribute}
  {combination : VariantCombination}

theorem Created.owner (h : Created t template combination (v, rows)) :
    ∀ r ∈ rows, r.variant_product_id = v.id := by
  intro r hr
  have hmem := List.mem_map_of_mem
    (f := fun r => (r.variant_product_id, r.attribute_id, r.attribute_value_id)) hr
  rw [h.rows] at hmem
  obtain ⟨entry, -, heq⟩ := List.mem_map.mp hmem
  exact (congrArg Prod.fst heq).symm

/-- The variants of a call, each with the combination it is made for. -/
theorem generateVariants_created
    (h : generateVariants s templateId attributes draws currentUser = .ok (s', variants)) :
    s'.products.rows = s.products.rows ++ variants ∧ variants ≠ [] ∧
      (variants.map (·.id)).Nodup ∧ (variants.map (·.sku)).Nodup ∧
      ∃ template,
        (∀ v ∈ variants, ∃ c : VariantChoice attributes,
          Created s.attributeValues template c.combination (v, valueRows s s' v.id)) ∧
        ∀ c : VariantChoice attributes, ∃ v ∈ variants,
          Created s.attributeValues template c.combination (v, valueRows s s' v.id) := by
  obtain ⟨hne, template, created, hall, rfl, hproducts, hattributes, hskus⟩ :=
    generateVariants_rows h
  have hids : ((created.map (·.1)).map (·.id)).Nodup := by
    have hpk := s'.products.pk
    rw [hproducts, List.map_append] at hpk
    exact (List.nodup_append.mp hpk).2.1
  have howner : ∀ pair ∈ created, ∀ r ∈ pair.2, r.variant_product_id = pair.1.id := by
    intro pair hpair
    obtain ⟨combination, -, hcreated⟩ := exists_of_mem_of_forall₂ hall hpair
    exact hcreated.owner
  have hfresh : ∀ r ∈ created.flatMap (·.2), r ∉ s.variantAttributes.rows := by
    have hpk := s'.variantAttributes.pk
    rw [hattributes, List.map_append] at hpk
    intro r hr hold
    exact (List.nodup_append.mp hpk).2.2 _ (List.mem_map_of_mem hold) _
      (List.mem_map_of_mem hr) rfl
  have hrows : ∀ pair ∈ created, valueRows s s' pair.1.id = pair.2 := by
    intro pair hpair
    rw [valueRows, hattributes, List.filter_append,
      List.filter_eq_nil_iff.mpr (by
        intro r hr
        simp [hr]), List.nil_append]
    calc (created.flatMap (·.2)).filter
          (fun r => r.variant_product_id = pair.1.id ∧ r ∉ s.variantAttributes.rows)
        = (created.flatMap (·.2)).filter (fun r => r.variant_product_id = pair.1.id) := by
          refine List.filter_congr fun r hr => ?_
          simp [hfresh r hr]
      _ = pair.2 := by
          rw [List.map_map] at hids
          exact filter_flatMap_of_key hids howner hpair
  refine ⟨hproducts, ?_, hids, ?_, template, ?_, ?_⟩
  · intro hnil
    rw [List.map_eq_nil_iff] at hnil
    rw [hnil, List.forall₂_nil_right_iff] at hall
    exact hne hall
  · rw [hproducts, List.map_append] at hskus
    exact (List.nodup_append.mp hskus).2.1
  · intro v hv
    obtain ⟨pair, hpair, rfl⟩ := List.mem_map.mp hv
    obtain ⟨combination, hmem, hcreated⟩ := exists_of_mem_of_forall₂ hall hpair
    obtain ⟨c, rfl⟩ := mem_combinations.mp hmem
    exact ⟨c, by rw [hrows pair hpair]; exact hcreated⟩
  · intro c
    obtain ⟨pair, hpair, hcreated⟩ :=
      exists_of_mem_left_of_forall₂ hall (mem_combinations.mpr ⟨c, rfl⟩)
    exact ⟨pair.1, List.mem_map_of_mem hpair, by rw [hrows pair hpair]; exact hcreated⟩

/-! ## What the rows of a variant say -/

theorem mem_combination {c : VariantChoice attributes} {entry : VariantCombinationEntry} :
    entry ∈ c.combination ↔ ∃ i, (attributes.get i).entry (c i) = entry :=
  List.mem_ofFn' _ _

theorem Created.entry_of_row (h : Created t template combination (v, rows))
    {r : ItemVariantAttribute} (hr : r ∈ rows) :
    ∃ entry ∈ combination, uuid entry.attribute_id = r.attribute_id ∧
      uuid entry.attribute_value_id = r.attribute_value_id := by
  have hmem := List.mem_map_of_mem
    (f := fun r => (r.variant_product_id, r.attribute_id, r.attribute_value_id)) hr
  rw [h.rows] at hmem
  obtain ⟨entry, hentry, heq⟩ := List.mem_map.mp hmem
  exact ⟨entry, hentry, congrArg (·.2.1) heq, congrArg (·.2.2) heq⟩

theorem Created.row_of_entry (h : Created t template combination (v, rows))
    {entry : VariantCombinationEntry} (hentry : entry ∈ combination) :
    ∃ r ∈ rows, r.attribute_id = uuid entry.attribute_id ∧
      r.attribute_value_id = uuid entry.attribute_value_id := by
  have hmem := List.mem_map_of_mem
    (f := fun entry => (v.id, uuid entry.attribute_id, uuid entry.attribute_value_id)) hentry
  rw [← h.rows] at hmem
  obtain ⟨r, hr, heq⟩ := List.mem_map.mp hmem
  exact ⟨r, hr, congrArg (·.2.1) heq, congrArg (·.2.2) heq⟩

/-- Each dimension has a row, in the order of the request. -/
theorem Created.dimensions {c : VariantChoice attributes}
    (h : Created t template c.combination (v, rows)) :
    rows.map (·.attribute_id) = dimensions attributes := by
  calc rows.map (·.attribute_id)
      = (rows.map fun r => (r.variant_product_id, r.attribute_id, r.attribute_value_id)).map
          (·.2.1) := by rw [List.map_map]; rfl
    _ = (c.combination.map (·.attribute_id)).map uuid := by
          rw [h.rows, List.map_map, List.map_map]
          rfl
    _ = ErpApi.Inventory.dimensions attributes := by
          rw [combination_attributes, List.map_map]
          rfl

/-- The value of an entry is there, under the id as the request writes it. -/
theorem Created.found (h : Created t template combination (v, rows))
    {entry : VariantCombinationEntry} (hentry : entry ∈ combination) :
    ∃ value ∈ attributeValueEntity.live t, value.id = entry.attribute_value_id := by
  obtain ⟨values, hall, -⟩ := h.values
  obtain ⟨value, -, hvalue⟩ := exists_of_mem_left_of_forall₂ hall hentry
  unfold combinationValue at hvalue
  split at hvalue
  · cases hvalue
  · rename_i value' hfind
    exact ⟨value', EntityType.findLive_eq_some.mp hfind⟩

/-- A combination decides the SKU. -/
theorem Created.sku_eq {v' : Product} {rows' : List ItemVariantAttribute}
    (h : Created t template combination (v, rows))
    (h' : Created t template combination (v', rows')) : v.sku = v'.sku := by
  obtain ⟨values, hall, hsku⟩ := h.values
  obtain ⟨values', hall', hsku'⟩ := h'.values
  have heq : values = values' :=
    Except.ok.inj ((mapM_eq_ok.mpr hall).symm.trans (mapM_eq_ok.mpr hall'))
  rw [hsku, hsku', heq]

/-- The choice that takes the given value of each attribute. -/
theorem exists_choice (hproper : ProperSelections s.attributeValues attributes)
    {choice : String → String}
    (hchoice : ∀ dimension ∈ dimensions attributes,
      Selected attributes dimension (choice dimension)) :
    ∃ c : VariantChoice attributes, ∀ i,
      uuid ((attributes.get i).entry (c i)).attribute_value_id =
        choice (uuid (attributes.get i).attribute_id) := by
  have hposition : ∀ i, ∃ p : Fin (attributes.get i).value_ids.length,
      uuid ((attributes.get i).entry p).attribute_value_id =
        choice (uuid (attributes.get i).attribute_id) := by
    intro i
    obtain ⟨selection, hselection, hsame, valueId, hvalueId, heq⟩ :=
      hchoice _ (List.mem_map_of_mem (List.get_mem attributes i))
    obtain rfl : selection = attributes.get i :=
      List.inj_on_of_nodup_map hproper.once hselection (List.get_mem attributes i) hsame
    obtain ⟨p, rfl⟩ := List.get_of_mem hvalueId
    exact ⟨p, heq⟩
  exact ⟨fun i => (hposition i).choose, fun i => (hposition i).choose_spec⟩

section Iff

-- The ids of a `uuid` column come back in lower case.
variable (hids : ∀ value ∈ s.attributeValues.rows, uuid value.id = value.id)
include hids

/-- The value of an entry is the one that the row of the entry refers to. -/
theorem Created.uuid_value (h : Created s.attributeValues template combination (v, rows))
    {entry : VariantCombinationEntry} (hentry : entry ∈ combination) :
    uuid entry.attribute_value_id = entry.attribute_value_id := by
  obtain ⟨value, hvalue, hid⟩ := h.found hentry
  rw [← hid]
  exact hids value (EntityType.mem_live.mp hvalue).1

/-- A row of a variant belongs to a selected value of its attribute. -/
theorem Created.owned (hproper : ProperSelections s.attributeValues attributes)
    {c : VariantChoice attributes} (h : Created s.attributeValues template c.combination (v, rows))
    {r : ItemVariantAttribute} (hr : r ∈ rows) :
    ∃ value ∈ attributeValueEntity.live s.attributeValues,
      value.id = r.attribute_value_id ∧ value.attribute_id = r.attribute_id := by
  obtain ⟨entry, hentry, hattribute, hvalueId⟩ := h.entry_of_row hr
  obtain ⟨value, hvalue, hid⟩ := h.found hentry
  obtain ⟨i, rfl⟩ := mem_combination.mp hentry
  refine ⟨value, hvalue, ?_, ?_⟩
  · rw [← hvalueId, h.uuid_value hids hentry, hid]
  · have hmem : value.id ∈ (attributes.get i).value_ids := by
      rw [hid]
      exact List.get_mem _ _
    rw [hproper.own _ (List.get_mem _ _) value hvalue hmem]
    exact hattribute

/-- The rows of a variant say which combination it is made for. -/
theorem Created.combination_eq {choice : String → String} {v' : Product}
    {rows' : List ItemVariantAttribute} {c c' : VariantChoice attributes}
    (h : Created s.attributeValues template c.combination (v, rows))
    (h' : Created s.attributeValues template c'.combination (v', rows'))
    (hrows : ∀ r ∈ rows, r.attribute_value_id = choice r.attribute_id)
    (hrows' : ∀ r ∈ rows', r.attribute_value_id = choice r.attribute_id) :
    c.combination = c'.combination := by
  have hvalue : ∀ {v rows} {c : VariantChoice attributes},
      Created s.attributeValues template c.combination (v, rows) →
      (∀ r ∈ rows, r.attribute_value_id = choice r.attribute_id) →
      ∀ i, ((attributes.get i).entry (c i)).attribute_value_id =
        choice (uuid (attributes.get i).attribute_id) := by
    intro v rows c h hrows i
    have hentry : (attributes.get i).entry (c i) ∈ c.combination := mem_combination.mpr ⟨i, rfl⟩
    obtain ⟨r, hr, hattribute, hvalueId⟩ := h.row_of_entry hentry
    rw [← h.uuid_value hids hentry, ← hvalueId, hrows r hr, hattribute]
    rfl
  refine congrArg List.ofFn (funext fun i => ?_)
  show VariantCombinationEntry.mk _ _ = VariantCombinationEntry.mk _ _
  congr 1
  exact (hvalue h hrows i).trans (hvalue h' hrows' i).symm

/-- The variants of a call that returns stand for the choices of one value per attribute if and only
if the request names each attribute once and each value under its own attribute. -/
theorem variantsOfChoices_iff
    (h : generateVariants s templateId attributes draws currentUser = .ok (s', variants)) :
    VariantsOfChoices s s' attributes variants ↔
      ProperSelections s.attributeValues attributes := by
  obtain ⟨hadded, hne, hvariantIds, hskus, template, hof, hfor⟩ := generateVariants_created h
  have hcount : ∀ v ∈ variants, ∀ dimension,
      (valueRows s s' v.id).countP (fun r => r.attribute_id = dimension) =
        (dimensions attributes).count dimension := by
    intro v hv dimension
    obtain ⟨c, hcreated⟩ := hof v hv
    rw [← hcreated.dimensions, List.count, List.countP_map]
    rfl
  constructor
  · intro hv
    obtain ⟨v, hmem⟩ := List.exists_mem_of_ne_nil variants hne
    refine ⟨?_, ?_⟩
    · rw [List.nodup_iff_count_eq_one]
      intro dimension hdimension
      rw [← hcount v hmem]
      exact hv.one_value v hmem dimension hdimension
    · intro selection hselection value hvalue hselected
      obtain ⟨c, -⟩ := hof v hmem
      obtain ⟨i, rfl⟩ := List.get_of_mem hselection
      obtain ⟨p, hp⟩ := List.get_of_mem hselected
      -- A choice that takes the value in its dimension.
      obtain ⟨v', hmem', hcreated⟩ := hfor (Function.update c i p)
      have hentry : (attributes.get i).entry p ∈
          VariantChoice.combination (Function.update c i p) :=
        mem_combination.mpr ⟨i, by rw [Function.update_self]⟩
      obtain ⟨r, hr, hattribute, hvalueId⟩ := hcreated.row_of_entry hentry
      obtain ⟨value', hvalue', hid', hattribute'⟩ := hv.owned v' hmem' r hr
      have hsame : value' = value := by
        refine EntityType.live_id_unique hvalue' hvalue (hid'.trans ?_)
        rw [hvalueId, hcreated.uuid_value hids hentry]
        exact hp
      rw [← hsame, hattribute', hattribute]
      rfl
  · intro hproper
    refine ⟨hadded, ?_, ?_, ?_, ?_, hvariantIds, hskus⟩
    · intro v hv dimension hdimension
      rw [hcount v hv]
      exact List.count_eq_one_of_mem hproper.once hdimension
    · intro v hv r hr
      obtain ⟨c, hcreated⟩ := hof v hv
      obtain ⟨entry, hentry, hattribute, hvalueId⟩ := hcreated.entry_of_row hr
      obtain ⟨i, rfl⟩ := mem_combination.mp hentry
      exact ⟨attributes.get i, List.get_mem _ _, hattribute, _, List.get_mem _ _, hvalueId⟩
    · intro v hv r hr
      obtain ⟨c, hcreated⟩ := hof v hv
      exact hcreated.owned hids hproper hr
    · intro choice hchoice
      obtain ⟨c, hc⟩ := exists_choice hproper hchoice
      obtain ⟨v, hv, hcreated⟩ := hfor c
      have hrows : ∀ r ∈ valueRows s s' v.id, r.attribute_value_id = choice r.attribute_id := by
        intro r hr
        obtain ⟨entry, hentry, hattribute, hvalueId⟩ := hcreated.entry_of_row hr
        obtain ⟨i, rfl⟩ := mem_combination.mp hentry
        rw [← hvalueId, ← hattribute]
        exact hc i
      refine ⟨v, ⟨hv, hrows⟩, ?_⟩
      rintro v' ⟨hv', hrows'⟩
      obtain ⟨c', hcreated'⟩ := hof v' hv'
      have heq := hcreated'.combination_eq hids hcreated hrows' hrows
      rw [heq] at hcreated'
      exact List.inj_on_of_nodup_map hskus hv' hv (hcreated'.sku_eq hcreated)

/-- A call that returns makes one variant for each choice if and only if the request is proper; one
that throws makes nothing. -/
theorem generateVariants_choices_iff (print : Option ℚ → String) (suppliers : Suppliers) :
    (∀ s' variants,
      generateVariants s templateId attributes draws currentUser = .ok (s', variants) →
        (VariantsOfChoices s s' attributes variants ↔
          ProperSelections s.attributeValues attributes)) ∧
      ∀ e, generateVariants s templateId attributes draws currentUser = .error e →
        s.step print ⟨.generateVariants templateId attributes draws, currentUser, suppliers⟩ =
          s := by
  constructor
  · intro s' variants h
    exact variantsOfChoices_iff hids h
  · intro e h
    refine InventoryDb.step_of_error (e := e) ?_
    show (generateVariants s templateId attributes draws currentUser >>= _) = _
    rw [h]
    rfl

end Iff

end Choices

theorem generateVariants_shirts : ∃ s' variants,
    generateVariants shirts shirtId [⟨colour, [red]⟩, ⟨size, [medium]⟩] shirtDraws none =
        .ok (s', variants) ∧
      VariantsOfChoices shirts s' [⟨colour, [red]⟩, ⟨size, [medium]⟩] variants := by
  have hok : (generateVariants shirts shirtId [⟨colour, [red]⟩, ⟨size, [medium]⟩] shirtDraws
    none).isOk = true := by decide +kernel
  obtain ⟨⟨s', variants⟩, hrun⟩ := exists_of_isOk hok
  refine ⟨s', variants, hrun, ?_⟩
  refine ((generateVariants_choices_iff uuid_shirts (fun _ => "") fun _ => .ok true).1
    s' variants hrun).mpr ⟨by decide, by decide⟩

/-- A value of one attribute is recorded under another. -/
theorem medium_is_a_colour : ∃ s' variants,
    generateVariants shirts shirtId [⟨colour, [medium]⟩] shirtDraws none = .ok (s', variants) ∧
      ¬ VariantsOfChoices shirts s' [⟨colour, [medium]⟩] variants := by
  have hok : (generateVariants shirts shirtId [⟨colour, [medium]⟩] shirtDraws none).isOk =
    true := by decide +kernel
  obtain ⟨⟨s', variants⟩, hrun⟩ := exists_of_isOk hok
  refine ⟨s', variants, hrun, ?_⟩
  rw [variantsOfChoices_iff uuid_shirts hrun]
  intro hproper
  exact absurd hproper.own (by decide)

end ErpApi.Inventory
