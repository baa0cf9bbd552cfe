import ErpApi.Basic.SequentialRun
import ErpApi.Inventory.Operations

set_option autoImplicit false

/-! # The conversion round check

A factor of a product whose stock unit is whole-number-only is an integer (`WholeFactors`). The
service checks the rule when it is given a value for `conversion_factor`, and the number column
keeps an integer as it is (`numericColumn_integer`).

Three other operations can break the rule: an update that gives a factor to another product, an
update that gives a product another stock unit, and an update that makes a unit whole-number-only.
`run_wholeFactors` says when they do not.
-/

namespace ErpApi.Inventory

open Sequential

variable {print : Option ℚ → String} {s s' : InventoryDb} {r : Request}

/-! ## The number column -/

theorem roundAway_intCast (n : ℤ) : roundAway n = n := by
  unfold roundAway
  split
  · rw [Int.floor_intCast_add]
    norm_num
  · rw [← Int.cast_neg, Int.floor_intCast_add]
    norm_num

/-- The column keeps an integer as it is. -/
theorem numericColumn_integer {x y : ℚ} (hx : isInteger x = true) (h : numericColumn x = .ok y) :
    y = x := by
  obtain ⟨n, rfl⟩ : ∃ n : ℤ, x = n := by
    refine ⟨x.num, (Rat.coe_int_num_of_den_eq_one ?_).symm⟩
    simpa [isInteger] using hx
  have hscaled : roundAway (n * 10000) = n * 10000 := by
    rw [← roundAway_intCast (n * 10000)]
    push_cast
    rfl
  unfold numericColumn at h
  dsimp only at h
  rw [hscaled] at h
  split at h
  · cases h
  · rw [← Except.ok.inj h]
    push_cast
    exact mul_div_cancel_right₀ _ (by norm_num)

/-! ## The rule -/

def IsWholeUom (t : uomEntity.Rows) (id : String) : Prop :=
  ∃ u ∈ uomEntity.live t, u.id = id ∧ u.is_whole_number = true

instance (t : uomEntity.Rows) (id : String) : Decidable (IsWholeUom t id) :=
  inferInstanceAs (Decidable (∃ u ∈ uomEntity.live t, u.id = id ∧ u.is_whole_number = true))

/-- The stock unit of the product with the id is whole-number-only. -/
def IsWholeProduct (products : productEntity.Rows) (uoms : uomEntity.Rows) (id : String) : Prop :=
  ∃ p ∈ productEntity.live products, p.id = id ∧ IsWholeUom uoms p.stock_uom_id

instance (products : productEntity.Rows) (uoms : uomEntity.Rows) (id : String) :
    Decidable (IsWholeProduct products uoms id) :=
  inferInstanceAs (Decidable (∃ p ∈ productEntity.live products,
    p.id = id ∧ IsWholeUom uoms p.stock_uom_id))

/-- A live factor of a product whose stock unit is whole-number-only is an integer. -/
def WholeFactors (s : InventoryDb) : Prop :=
  ∀ f ∈ factorEntity.live s.factors,
    IsWholeProduct s.products s.uoms f.product_id → isInteger f.conversion_factor = true

instance : DecidablePred WholeFactors := fun s =>
  inferInstanceAs (Decidable (∀ f ∈ factorEntity.live s.factors,
    IsWholeProduct s.products s.uoms f.product_id → isInteger f.conversion_factor = true))

/-- The live factors of the product are integers. -/
def IntegerFactors (t : factorEntity.Rows) (productId : String) : Prop :=
  ∀ f ∈ factorEntity.live t, f.product_id = productId → isInteger f.conversion_factor = true

instance (t : factorEntity.Rows) (productId : String) : Decidable (IntegerFactors t productId) :=
  inferInstanceAs (Decidable (∀ f ∈ factorEntity.live t,
    f.product_id = productId → isInteger f.conversion_factor = true))

/-- Where the operation makes a product one that is kept in whole numbers, or gives a factor to
such a product and leaves its value, the factors concerned are integers. -/
def Request.KeepsWholeFactors (s : InventoryDb) (r : Request) : Prop :=
  match r.operation with
  | .createProduct newId data =>
      IsWholeUom s.uoms (uuid data.stock_uom_id) → IntegerFactors s.factors (uuid newId)
  | .updateProduct id data =>
      data.stock_uom_id.All fun uomId =>
        IsWholeUom s.uoms (uuid uomId) → IntegerFactors s.factors id
  | .generateVariants templateId attributes draws =>
      IsWholeProduct s.products s.uoms (uuid templateId) →
        ∀ i ∈ List.range (generateVariantCombinations attributes).length,
          IntegerFactors s.factors (uuid (draws.variant i))
  | .updateFactor id data =>
      data.conversion_factor = .undefined → data.product_id.All fun productId =>
        IsWholeProduct s.products s.uoms (uuid productId) →
          ∀ f ∈ factorEntity.live s.factors, f.id = id → isInteger f.conversion_factor = true
  | .updateUom id data =>
      data.is_whole_number = .value true →
        ∀ p ∈ productEntity.live s.products, p.stock_uom_id = id → IntegerFactors s.factors p.id
  | _ => True

instance (s : InventoryDb) : (r : Request) → Decidable (r.KeepsWholeFactors s)
  | ⟨.createProduct newId data, _, _⟩ =>
      inferInstanceAs (Decidable (IsWholeUom s.uoms (uuid data.stock_uom_id) →
        IntegerFactors s.factors (uuid newId)))
  | ⟨.updateProduct id data, _, _⟩ =>
      inferInstanceAs (Decidable (data.stock_uom_id.All fun uomId =>
        IsWholeUom s.uoms (uuid uomId) → IntegerFactors s.factors id))
  | ⟨.generateVariants templateId attributes draws, _, _⟩ =>
      inferInstanceAs (Decidable (IsWholeProduct s.products s.uoms (uuid templateId) →
        ∀ i ∈ List.range (generateVariantCombinations attributes).length,
          IntegerFactors s.factors (uuid (draws.variant i))))
  | ⟨.updateFactor id data, _, _⟩ =>
      inferInstanceAs (Decidable (data.conversion_factor = .undefined →
        data.product_id.All fun productId =>
          IsWholeProduct s.products s.uoms (uuid productId) →
            ∀ f ∈ factorEntity.live s.factors, f.id = id → isInteger f.conversion_factor = true))
  | ⟨.updateUom id data, _, _⟩ =>
      inferInstanceAs (Decidable (data.is_whole_number = .value true →
        ∀ p ∈ productEntity.live s.products, p.stock_uom_id = id →
          IntegerFactors s.factors p.id))
  | ⟨.deleteProduct _ _, _, _⟩ => .isTrue trivial
  | ⟨.itemGroups _ _, _, _⟩ => .isTrue trivial
  | ⟨.createFactor _ _, _, _⟩ => .isTrue trivial

/-! ## Factors -/

/-- The ids in a factor are texts that the database compares as they are. -/
def FactorsNormal (s : InventoryDb) : Prop :=
  ∀ f ∈ factorEntity.live s.factors, uuid f.id = f.id ∧ uuid f.product_id = f.product_id

instance : DecidablePred FactorsNormal := fun s =>
  inferInstanceAs (Decidable (∀ f ∈ factorEntity.live s.factors,
    uuid f.id = f.id ∧ uuid f.product_id = f.product_id))

/-- What the check lets through. -/
theorem assertWholeNumberRoundCheck_ok {productId : String} {conversionFactor : Option ℚ}
    (h : assertWholeNumberRoundCheck print s productId conversionFactor = .ok ())
    (hwhole : IsWholeProduct s.products s.uoms (uuid productId)) :
    ∃ x, conversionFactor = some x ∧ isInteger x = true := by
  obtain ⟨p, hp, hid, u, hu, huid, hflag⟩ := hwhole
  have hproduct : productEntity.findLive s.products (uuid productId) = some p :=
    EntityType.findLive_eq_some.mpr ⟨hp, hid⟩
  have huom : uomEntity.findLive s.uoms p.stock_uom_id = some u :=
    EntityType.findLive_eq_some.mpr ⟨hu, huid⟩
  unfold assertWholeNumberRoundCheck at h
  simp only [hproduct, huom, hflag, Bool.true_and] at h
  split at h
  · cases h
  · rename_i hinteger
    exact (Option.any_eq_true _ _).mp (by simpa using hinteger)

theorem CreateUomConversionFactorDTO.row_ok {data : CreateUomConversionFactorDTO}
    {newId : String} {currentUser : Option String} {row : UomConversionFactor}
    (h : data.row newId currentUser = .ok row) :
    row.toBaseEntity = BaseEntity.create newId currentUser ∧
      row.product_id = uuid data.product_id ∧
      numericColumn data.conversion_factor = .ok row.conversion_factor := by
  obtain ⟨product_id, hproduct, h⟩ := bind_eq_ok.mp h
  obtain ⟨uom_id, -, h⟩ := bind_eq_ok.mp h
  obtain ⟨conversion_factor, hfactor, h⟩ := bind_eq_ok.mp h
  obtain rfl := Except.ok.inj h
  exact ⟨rfl, (uuidColumn_ok hproduct).2, hfactor⟩

theorem factorColumn_ok {old value : ℚ} {f : Field ℚ} (h : factorColumn old f = .ok value) :
    (f = .undefined ∧ value = old) ∨ ∃ x, f = .value x ∧ numericColumn x = .ok value := by
  cases f with
  | undefined => exact .inl ⟨rfl, (Except.ok.inj h).symm⟩
  | null => cases h
  | value x => exact .inr ⟨x, rfl, h⟩

theorem UpdateUomConversionFactorDTO.merge_ok {data : UpdateUomConversionFactorDTO}
    {old merged : UomConversionFactor} (h : data.merge old = .ok merged) :
    uuidNotNull "product_id" old.product_id data.product_id = .ok merged.product_id ∧
      (data.conversion_factor = .undefined ∧ merged.conversion_factor = old.conversion_factor ∨
        ∃ x, data.conversion_factor = .value x ∧
          numericColumn x = .ok merged.conversion_factor) := by
  obtain ⟨product_id, hproduct, h⟩ := bind_eq_ok.mp h
  obtain ⟨uom_id, -, h⟩ := bind_eq_ok.mp h
  obtain ⟨conversion_factor, hfactor, h⟩ := bind_eq_ok.mp h
  obtain ⟨uom_type, -, h⟩ := bind_eq_ok.mp h
  obtain rfl := Except.ok.inj h
  exact ⟨hproduct, factorColumn_ok hfactor⟩

/-- A new factor was checked. -/
theorem createFactor_wholeFactors {t : factorEntity.Rows} {newId : String}
    {data : CreateUomConversionFactorDTO} {currentUser : Option String}
    {row : UomConversionFactor}
    (h : createFactor print s newId data currentUser = .ok (t, row)) :
    (WholeFactors s → WholeFactors { s with factors := t }) ∧
      (FactorsNormal s → FactorsNormal { s with factors := t }) := by
  obtain ⟨⟨⟩, hcheck, h⟩ := bind_eq_ok.mp h
  obtain ⟨row', hrow, h⟩ := bind_eq_ok.mp (executeDbOperation_eq_ok.mp h)
  obtain ⟨t₁, hinsert, h⟩ := bind_eq_ok.mp h
  obtain ⟨rfl, rfl⟩ := Prod.mk.inj (Except.ok.inj h)
  obtain ⟨hbase, hproduct, hfactor⟩ := CreateUomConversionFactorDTO.row_ok hrow
  obtain ⟨hlive, -⟩ := EntityType.mem_live_insert hinsert (congrArg BaseEntity.is_deleted hbase)
  constructor
  · intro hs f hf hwhole
    rcases (hlive f).mp hf with hf | rfl
    · exact hs f hf hwhole
    · rw [hproduct] at hwhole
      obtain ⟨x, hx, hinteger⟩ := assertWholeNumberRoundCheck_ok hcheck hwhole
      obtain rfl := Option.some.inj hx
      rw [numericColumn_integer hinteger hfactor]
      exact hinteger
  · intro hs f hf
    rcases (hlive f).mp hf with hf | rfl
    · exact hs f hf
    · rw [hproduct, show f.id = uuid newId from congrArg BaseEntity.id hbase]
      exact ⟨uuid_uuid _, uuid_uuid _⟩

/-- The product that a factor belongs to after an update with a value is the one that the value
was checked against. -/
theorem checkFactorUpdate_ok {id : String} {data : UpdateUomConversionFactorDTO}
    {f row : UomConversionFactor} {x : ℚ} (hs : FactorsNormal s)
    (hcheck : checkFactorUpdate print s id data = .ok ())
    (hf : f ∈ factorEntity.live s.factors) (hid : f.id = id)
    (hproduct : uuidNotNull "product_id" f.product_id data.product_id = .ok row.product_id)
    (hvalue : data.conversion_factor = .value x)
    (hwhole : IsWholeProduct s.products s.uoms row.product_id) : isInteger x = true := by
  unfold checkFactorUpdate at hcheck
  rw [hvalue] at hcheck
  obtain ⟨productId, hchecked, hcheck⟩ := bind_eq_ok.mp hcheck
  have hsame : row.product_id = uuid productId := by
    rcases uuidNotNull_ok hproduct with ⟨hfield, hsame⟩ | ⟨text, hfield, hsame⟩
    · -- The factor itself was looked up, by an id that is already in its normal form.
      have hfind : factorEntity.findLive s.factors (uuid id) = some f := by
        refine EntityType.findLive_eq_some.mpr ⟨hf, ?_⟩
        rw [← hid]
        exact (hs f hf).1.symm
      rw [hfield] at hchecked
      simp only [checkedProduct, hfind] at hchecked
      rw [hsame, ← Except.ok.inj hchecked]
      exact (hs f hf).2.symm
    · rw [hfield] at hchecked
      rw [hsame, ← Except.ok.inj hchecked]
  rw [hsame] at hwhole
  obtain ⟨y, hy, hinteger⟩ := assertWholeNumberRoundCheck_ok hcheck hwhole
  rw [Option.some.inj hy]
  exact hinteger

theorem updateFactor_ok {t : factorEntity.Rows} {id : String}
    {data : UpdateUomConversionFactorDTO} {currentUser : Option String}
    {row : UomConversionFactor} (h : updateFactor print s id data currentUser = .ok (t, row)) :
    checkFactorUpdate print s id data = .ok () ∧ row.id = id ∧
      (∃ old ∈ factorEntity.live s.factors, old.id = id ∧
        uuidNotNull "product_id" old.product_id data.product_id = .ok row.product_id ∧
        (data.conversion_factor = .undefined ∧ row.conversion_factor = old.conversion_factor ∨
          ∃ x, data.conversion_factor = .value x ∧
            numericColumn x = .ok row.conversion_factor)) ∧
      ∀ f, f ∈ factorEntity.live t ↔
        (f ∈ factorEntity.live s.factors ∧ f.id ≠ id) ∨ f = row := by
  obtain ⟨⟨⟩, hcheck, h⟩ := bind_eq_ok.mp h
  obtain ⟨old, hold, hid, hid', ⟨merged, hmerged, hrow⟩, hlive⟩ :=
    EntityType.live_update (executeDbOperation_eq_ok.mp h)
  subst hrow
  have hcolumns := UpdateUomConversionFactorDTO.merge_ok hmerged
  exact ⟨hcheck, hid', ⟨old, hold, hid, hcolumns⟩, hlive⟩

/-- An update with a value was checked. One without may give the factor to another product. -/
theorem updateFactor_wholeFactors {t : factorEntity.Rows} {id : String}
    {data : UpdateUomConversionFactorDTO} {currentUser : Option String}
    {row : UomConversionFactor} (hnormal : FactorsNormal s) (hs : WholeFactors s)
    (h : updateFactor print s id data currentUser = .ok (t, row)) :
    WholeFactors { s with factors := t } ↔
      (data.conversion_factor = .undefined → data.product_id.All fun productId =>
        IsWholeProduct s.products s.uoms (uuid productId) →
          ∀ f ∈ factorEntity.live s.factors, f.id = id → isInteger f.conversion_factor = true) := by
  obtain ⟨hcheck, hid', ⟨old, hold, hid, hproduct, hfactor⟩, hlive⟩ := updateFactor_ok h
  constructor
  · intro hafter hundefined
    cases hfield : data.product_id with
    | undefined => trivial
    | null => trivial
    | value productId =>
        intro hwhole f hf hfid
        obtain rfl := EntityType.live_id_unique hf hold (hfid.trans hid.symm)
        have hrow := hafter row ((hlive row).mpr (.inr rfl))
        rcases uuidNotNull_ok hproduct with ⟨hno, -⟩ | ⟨text, htext, hsame⟩
        · rw [hno] at hfield
          cases hfield
        · obtain rfl := Field.value.inj (htext.symm.trans hfield)
          rw [hsame] at hrow
          rcases hfactor with ⟨-, hkept⟩ | ⟨x, hvalue, -⟩
          · rw [← hkept]
            exact hrow hwhole
          · rw [hundefined] at hvalue
            cases hvalue
  · intro hkeeps f hf hwhole
    rcases (hlive f).mp hf with ⟨hf, -⟩ | rfl
    · exact hs f hf hwhole
    · rcases hfactor with ⟨hundefined, hkept⟩ | ⟨x, hvalue, hcolumn⟩
      · rw [hkept]
        rcases uuidNotNull_ok hproduct with ⟨-, hsame⟩ | ⟨text, htext, hsame⟩
        · have hwhole : IsWholeProduct s.products s.uoms old.product_id := hsame ▸ hwhole
          exact hs old hold hwhole
        · have hall := hkeeps hundefined
          rw [htext] at hall
          have hwhole : IsWholeProduct s.products s.uoms (uuid text) := hsame ▸ hwhole
          exact hall hwhole old hold hid
      · have hinteger := checkFactorUpdate_ok hnormal hcheck hold hid hproduct hvalue hwhole
        rw [numericColumn_integer hinteger hcolumn]
        exact hinteger

theorem updateFactor_normal {t : factorEntity.Rows} {id : String}
    {data : UpdateUomConversionFactorDTO} {currentUser : Option String}
    {row : UomConversionFactor} (hs : FactorsNormal s)
    (h : updateFactor print s id data currentUser = .ok (t, row)) :
    FactorsNormal { s with factors := t } := by
  obtain ⟨-, hid', ⟨old, hold, hid, hproduct, -⟩, hlive⟩ := updateFactor_ok h
  intro f hf
  rcases (hlive f).mp hf with ⟨hf, -⟩ | rfl
  · exact hs f hf
  · constructor
    · rw [hid', ← hid]
      exact (hs old hold).1
    · rcases uuidNotNull_ok hproduct with ⟨-, hsame⟩ | ⟨text, -, hsame⟩
      · rw [hsame]
        exact (hs old hold).2
      · rw [hsame]
        exact uuid_uuid text

/-! ## Products -/

theorem createProduct_wholeFactors {t : productEntity.Rows} {row : Product} (hs : WholeFactors s)
    (hlive : ∀ p, p ∈ productEntity.live t ↔ p ∈ productEntity.live s.products ∨ p = row) :
    WholeFactors { s with products := t } ↔
      (IsWholeUom s.uoms row.stock_uom_id → IntegerFactors s.factors row.id) := by
  constructor
  · rintro hafter huom f hf hid
    exact hafter f hf ⟨row, (hlive row).mpr (.inr rfl), hid.symm, huom⟩
  · rintro hnew f hf ⟨p, hp, hid, huom⟩
    rcases (hlive p).mp hp with hp | rfl
    · exact hs f hf ⟨p, hp, hid, huom⟩
    · exact hnew huom f hf hid.symm

theorem updateProduct_wholeFactors {t : productEntity.Rows} {suppliers : Suppliers} {id : String}
    {data : UpdateProductDTO} {currentUser : Option String} {row : Product} (hs : WholeFactors s)
    (h : updateProduct s.products suppliers id data currentUser = .ok (t, row)) :
    WholeFactors { s with products := t } ↔
      data.stock_uom_id.All fun uomId =>
        IsWholeUom s.uoms (uuid uomId) → IntegerFactors s.factors id := by
  obtain ⟨-, hid', ⟨old, hold, hid, -, hstock, -, -⟩, hlive⟩ := updateProduct_ok h
  have hrow : (IsWholeUom s.uoms row.stock_uom_id → IntegerFactors s.factors id) ↔
      data.stock_uom_id.All fun uomId =>
        IsWholeUom s.uoms (uuid uomId) → IntegerFactors s.factors id := by
    rcases uuidNotNull_ok hstock with ⟨hfield, hsame⟩ | ⟨text, hfield, hvalue⟩
    · rw [hfield, hsame]
      refine iff_of_true (fun huom f hf hfid => ?_) trivial
      exact hs f hf ⟨old, hold, hid.trans hfid.symm, huom⟩
    · rw [hfield, hvalue]
      exact Iff.rfl
  rw [← hrow]
  constructor
  · intro hafter huom f hf hfid
    exact hafter f hf ⟨row, (hlive row).mpr (.inr rfl), hid'.trans hfid.symm, huom⟩
  · rintro hnew f hf ⟨p, hp, hpid, huom⟩
    rcases (hlive p).mp hp with ⟨hp, -⟩ | rfl
    · exact hs f hf ⟨p, hp, hpid, huom⟩
    · exact hnew huom f hf (hpid.symm.trans hid')

/-- A variant has the stock unit of its template. -/
theorem generateVariants_wholeFactors {templateId : String}
    {attributes : List VariantAttributeSelection} {draws : VariantDraws}
    {currentUser : Option String} {variants : List Product} (hs : WholeFactors s)
    (h : generateVariants s templateId attributes draws currentUser = .ok (s', variants)) :
    WholeFactors s' ↔
      (IsWholeProduct s.products s.uoms (uuid templateId) →
        ∀ i ∈ List.range (generateVariantCombinations attributes).length,
          IntegerFactors s.factors (uuid (draws.variant i))) := by
  obtain ⟨template, htemplate, hid, -, hvariants, hids, hlive, -, huoms, hfactors⟩ :=
    generateVariants_ok h
  have hafter : WholeFactors s' ↔ ∀ f ∈ factorEntity.live s.factors,
      IsWholeProduct s'.products s.uoms f.product_id → isInteger f.conversion_factor = true := by
    unfold WholeFactors
    rw [huoms, hfactors]
  rw [hafter]
  constructor
  · rintro hafter ⟨p, hp, hpid, huom⟩ i hi f hf hfid
    obtain rfl := EntityType.live_id_unique hp htemplate (hpid.trans hid.symm)
    have hmem : uuid (draws.variant i) ∈ variants.map (·.id) := by
      rw [hids]
      exact List.mem_map.mpr ⟨i, hi, rfl⟩
    obtain ⟨v, hv, hvid⟩ := List.mem_map.mp hmem
    refine hafter f hf ⟨v, (hlive v).mpr (.inr hv), hvid.trans hfid.symm, ?_⟩
    rw [(hvariants v hv).1.stock_uom_id]
    exact huom
  · rintro hkeeps f hf ⟨p, hp, hpid, huom⟩
    rcases (hlive p).mp hp with hp | hp
    · exact hs f hf ⟨p, hp, hpid, huom⟩
    · have hmem : p.id ∈ variants.map (·.id) := List.mem_map_of_mem hp
      rw [hids] at hmem
      obtain ⟨i, hi, hvid⟩ := List.mem_map.mp hmem
      rw [(hvariants p hp).1.stock_uom_id] at huom
      exact hkeeps ⟨template, htemplate, hid, huom⟩ i hi f hf (hpid.symm.trans hvid.symm)

/-! ## Units -/

theorem UpdateUomDTO.merge_ok {data : UpdateUomDTO} {old merged : Uom}
    (h : data.merge old = .ok merged) :
    data.is_whole_number.notNull "is_whole_number" old.is_whole_number =
      .ok merged.is_whole_number := by
  obtain ⟨name, -, h⟩ := bind_eq_ok.mp h
  obtain ⟨flag, hflag, h⟩ := bind_eq_ok.mp h
  obtain rfl := Except.ok.inj h
  exact hflag

theorem updateUom_ok {t t' : uomEntity.Rows} {id : String} {data : UpdateUomDTO}
    {currentUser : Option String} {row : Uom}
    (h : updateUom t id data currentUser = .ok (t', row)) :
    row.id = id ∧
      (∃ old ∈ uomEntity.live t, old.id = id ∧
        data.is_whole_number.notNull "is_whole_number" old.is_whole_number =
          .ok row.is_whole_number) ∧
      ∀ u, u ∈ uomEntity.live t' ↔ (u ∈ uomEntity.live t ∧ u.id ≠ id) ∨ u = row := by
  obtain ⟨old, hold, hid, hid', ⟨merged, hmerged, hrow⟩, hlive⟩ :=
    EntityType.live_update (executeDbOperation_eq_ok.mp h)
  subst hrow
  have hflag := UpdateUomDTO.merge_ok hmerged
  exact ⟨hid', ⟨old, hold, hid, hflag⟩, hlive⟩

/-- An update of a unit that makes it whole-number-only concerns every product stocked in it. -/
theorem updateUom_wholeFactors {t : uomEntity.Rows} {id : String} {data : UpdateUomDTO}
    {currentUser : Option String} {row : Uom} (hs : WholeFactors s)
    (h : updateUom s.uoms id data currentUser = .ok (t, row)) :
    WholeFactors { s with uoms := t } ↔
      (data.is_whole_number = .value true →
        ∀ p ∈ productEntity.live s.products, p.stock_uom_id = id →
          IntegerFactors s.factors p.id) := by
  obtain ⟨hid', ⟨old, hold, hid, hflag⟩, hlive⟩ := updateUom_ok h
  constructor
  · intro hafter hvalue p hp hstock f hf hfid
    have hwhole : row.is_whole_number = true := by
      rcases notNull_ok hflag with ⟨hno, -⟩ | hvalue'
      · rw [hno] at hvalue
        cases hvalue
      · exact Field.value.inj (hvalue'.symm.trans hvalue)
    refine hafter f hf ⟨p, hp, hfid.symm, row, (hlive row).mpr (.inr rfl), ?_, hwhole⟩
    exact hid'.trans hstock.symm
  · rintro hkeeps f hf ⟨p, hp, hpid, u, hu, huid, hwhole⟩
    rcases (hlive u).mp hu with ⟨hu, -⟩ | rfl
    · exact hs f hf ⟨p, hp, hpid, u, hu, huid, hwhole⟩
    · rcases notNull_ok hflag with ⟨-, hsame⟩ | hvalue
      · refine hs f hf ⟨p, hp, hpid, old, hold, ?_, hsame.symm.trans hwhole⟩
        exact (hid.trans hid'.symm).trans huid
      · rw [hwhole] at hvalue
        exact hkeeps hvalue p hp (huid.symm.trans hid') f hf hpid.symm

/-! ## Runs -/

/-- **One operation that returns.** -/
theorem body_wholeFactors (hnormal : FactorsNormal s) (hs : WholeFactors s)
    (h : s.body print r = .ok s') : WholeFactors s' ↔ r.KeepsWholeFactors s := by
  obtain ⟨operation, currentUser, suppliers⟩ := r
  cases operation with
  | createProduct newId data =>
      obtain ⟨⟨t, row⟩, hcreate, h⟩ := bind_eq_ok.mp h
      obtain rfl := Except.ok.inj h
      obtain ⟨-, hrow, hlive, -⟩ := createProduct_ok hcreate
      obtain ⟨hbase, -, hstock, -⟩ := CreateProductDTO.row_ok hrow
      rw [createProduct_wholeFactors hs hlive, hstock,
        show row.id = uuid newId from congrArg BaseEntity.id hbase]
      rfl
  | updateProduct id data =>
      obtain ⟨⟨t, row⟩, hupdate, h⟩ := bind_eq_ok.mp h
      obtain rfl := Except.ok.inj h
      exact updateProduct_wholeFactors hs hupdate
  | deleteProduct id softDelete =>
      obtain ⟨t, hdelete, h⟩ := bind_eq_ok.mp h
      obtain rfl := Except.ok.inj h
      refine iff_of_true ?_ trivial
      rintro f hf ⟨p, hp, hpid, huom⟩
      exact hs f hf ⟨p, ((EntityType.mem_live_delete hdelete).mp hp).1, hpid, huom⟩
  | generateVariants templateId attributes draws =>
      obtain ⟨⟨s₁, variants⟩, hgenerate, h⟩ := bind_eq_ok.mp h
      obtain rfl := Except.ok.inj h
      exact generateVariants_wholeFactors hs hgenerate
  | itemGroups call scan =>
      obtain ⟨-, rfl⟩ := body_itemGroups h
      exact iff_of_true hs trivial
  | createFactor newId data =>
      obtain ⟨⟨t, row⟩, hcreate, h⟩ := bind_eq_ok.mp h
      obtain rfl := Except.ok.inj h
      exact iff_of_true ((createFactor_wholeFactors hcreate).1 hs) trivial
  | updateFactor id data =>
      obtain ⟨⟨t, row⟩, hupdate, h⟩ := bind_eq_ok.mp h
      obtain rfl := Except.ok.inj h
      exact updateFactor_wholeFactors hnormal hs hupdate
  | updateUom id data =>
      obtain ⟨⟨t, row⟩, hupdate, h⟩ := bind_eq_ok.mp h
      obtain rfl := Except.ok.inj h
      exact updateUom_wholeFactors hs hupdate

theorem body_factorsNormal (hs : FactorsNormal s) (h : s.body print r = .ok s') :
    FactorsNormal s' := by
  obtain ⟨operation, currentUser, suppliers⟩ := r
  cases operation with
  | createFactor newId data =>
      obtain ⟨⟨t, row⟩, hcreate, h⟩ := bind_eq_ok.mp h
      obtain rfl := Except.ok.inj h
      exact (createFactor_wholeFactors hcreate).2 hs
  | updateFactor id data =>
      obtain ⟨⟨t, row⟩, hupdate, h⟩ := bind_eq_ok.mp h
      obtain rfl := Except.ok.inj h
      exact updateFactor_normal hs hupdate
  | generateVariants templateId attributes draws =>
      obtain ⟨⟨s₁, variants⟩, hgenerate, h⟩ := bind_eq_ok.mp h
      obtain rfl := Except.ok.inj h
      obtain ⟨-, -, -, -, -, -, -, -, -, hfactors⟩ := generateVariants_ok hgenerate
      unfold FactorsNormal
      rw [hfactors]
      exact hs
  | itemGroups call scan =>
      obtain ⟨-, rfl⟩ := body_itemGroups h
      exact hs
  | createProduct newId data | updateProduct id data | deleteProduct id softDelete
  | updateUom id data =>
      obtain ⟨result, -, h⟩ := bind_eq_ok.mp h
      obtain rfl := Except.ok.inj h
      exact hs

theorem step_factorsNormal (hs : FactorsNormal s) : FactorsNormal (s.step print r) := by
  cases h : s.body print r with
  | error e =>
      rw [InventoryDb.step_of_error h]
      exact hs
  | ok s' =>
      rw [InventoryDb.step_of_ok h]
      exact body_factorsNormal hs h

/-- **Factors stay whole**: in every state of a run every live factor of a product whose stock unit
is whole-number-only is an integer, exactly when no operation of the run that returns brings such a
product together with a factor that is none. -/
theorem run_wholeFactors (print : Option ℚ → String) {s : InventoryDb} {requests : List Request}
    (hnormal : FactorsNormal s) (hs : WholeFactors s) :
    AllStates (InventoryDb.step print) WholeFactors s requests ↔
      AllSteps (InventoryDb.step print)
        (fun s r => (s.body print r).isOk → r.KeepsWholeFactors s) s requests := by
  refine allStates_iff_allSteps (I := FactorsNormal) ?_ ?_ hnormal hs
  · intro s r hnormal
    exact step_factorsNormal hnormal
  · intro s r hnormal hs
    exact InventoryDb.step_iff (fun s' h => body_wholeFactors hnormal hs h) hs

/-- An inventory with the units `u` (kilograms) and `w` (pieces). -/
def twoUnits : InventoryDb :=
  { InventoryDb.empty with
    uoms := ⟨[⟨⟨"u", false, none, none, none⟩, "kg", false⟩,
      ⟨⟨"w", false, none, none, none⟩, "piece", true⟩], by decide⟩ }

def factor (id productId : String) (conversionFactor : ℚ) : Request :=
  (Operation.createFactor id ⟨productId, "b", conversionFactor, .purchase⟩).request

def setFactor (id : String) (conversionFactor : ℚ) : Request :=
  (Operation.updateFactor id
    ⟨.undefined, .undefined, .value conversionFactor, .undefined⟩).request

/-- An update of the stock unit of a product alone. -/
def restock (id stock_uom_id : String) : Request :=
  (Operation.updateProduct id
    ⟨.undefined, .undefined, .undefined, .undefined, .undefined, .undefined, .value stock_uom_id,
      .undefined, .undefined, .undefined⟩).request

/-- A factor becomes an integer before its product is stocked in pieces. -/
theorem run_wholeFactors_restock :
    AllStates (InventoryDb.step fun _ => "1.5") WholeFactors twoUnits
      [product "p" "g" false .undefined, factor "f" "p" (3 / 2), setFactor "f" 2,
        restock "p" "w", setFactor "f" (3 / 2)] :=
  (run_wholeFactors (fun _ => "1.5") (by decide) (by decide)).mpr (by decide +kernel)

/-- **A product with a fractional factor is stocked in pieces.** -/
theorem product_restocked_in_pieces :
    ¬ AllStates (InventoryDb.step fun _ => "1.5") WholeFactors twoUnits
      [product "p" "g" false .undefined, factor "f" "p" (3 / 2), restock "p" "w"] := by
  decide +kernel

end ErpApi.Inventory
