import Mathlib.Data.Rat.Floor
import ErpApi.Inventory.Repository
import ErpApi.Inventory.TreeServices

set_option autoImplicit false

/-! # Products and their units of measure

The tables of the inventory that products have to do with, and three services over them:
`ProductsService`, whose `generateVariants` makes one product for each combination of attribute
values, `UomConversionFactorsService` and the update of `UomsService`.

The tables refer to each other by ids alone: the database has no foreign key here.
-/

namespace ErpApi.Inventory

/-! ## Tables -/

inductive ProductType where
  | single
  | bundle
  deriving DecidableEq

structure Product extends BaseEntity where
  sku : String
  name_th : String
  name_en : String
  type : ProductType
  item_group_id : String
  brand_id : Option String
  stock_uom_id : String
  has_variants : Bool
  template_product_id : Option String
  supplier_id : Option String
  deriving DecidableEq

structure ItemAttributeValue extends BaseEntity where
  attribute_id : String
  value : String
  abbr : Option String
  deriving DecidableEq

structure ItemVariantAttribute extends BaseEntity where
  variant_product_id : String
  attribute_id : String
  attribute_value_id : String
  deriving DecidableEq

structure Uom extends BaseEntity where
  name : String
  is_whole_number : Bool
  deriving DecidableEq

inductive UomConversionType where
  | purchase
  | sales
  deriving DecidableEq

structure UomConversionFactor extends BaseEntity where
  product_id : String
  uom_id : String
  conversion_factor : ℚ
  uom_type : UomConversionType
  deriving DecidableEq

@[reducible] def productEntity : EntityType Product where
  table := "products"
  base := (·.toBaseEntity)
  setBase := fun r b => { r with toBaseEntity := b }
  base_setBase := fun _ _ => rfl
  violates := fun rows =>
    if rows.any fun r => r.sku.length > 100 || r.name_th.length > 255 || r.name_en.length > 255 then
      some .stringTooLong
    else if ¬ (rows.map (·.sku)).Nodup then some (.uniqueViolation "sku")
    else none

@[reducible] def attributeValueEntity : EntityType ItemAttributeValue where
  table := "item_attribute_values"
  base := (·.toBaseEntity)
  setBase := fun r b => { r with toBaseEntity := b }
  base_setBase := fun _ _ => rfl
  violates := fun _ => none

@[reducible] def variantAttributeEntity : EntityType ItemVariantAttribute where
  table := "item_variant_attributes"
  base := (·.toBaseEntity)
  setBase := fun r b => { r with toBaseEntity := b }
  base_setBase := fun _ _ => rfl
  violates := fun _ => none

@[reducible] def uomEntity : EntityType Uom where
  table := "uoms"
  base := (·.toBaseEntity)
  setBase := fun r b => { r with toBaseEntity := b }
  base_setBase := fun _ _ => rfl
  violates := fun _ => none

@[reducible] def factorEntity : EntityType UomConversionFactor where
  table := "uom_conversion_factors"
  base := (·.toBaseEntity)
  setBase := fun r b => { r with toBaseEntity := b }
  base_setBase := fun _ _ => rfl
  violates := fun _ => none

/-- The tables that the operations below read or write. -/
structure InventoryDb where
  itemGroups : Rows ItemGroupColumns
  products : productEntity.Rows
  attributeValues : attributeValueEntity.Rows
  variantAttributes : variantAttributeEntity.Rows
  uoms : uomEntity.Rows
  factors : factorEntity.Rows

/-! ## Columns -/

/-- A text for a `uuid` column. The texts of a request are UUIDs, or empty where a service lets the
empty text pass its check; the database refuses that one. -/
def uuidColumn (text : String) : Except ServiceError String :=
  if text = "" then .error (.badRequest "Invalid format for a field. Please check your input.")
  else .ok (uuid text)

/-- A nullable `uuid` column. -/
def uuidField (old : Option String) : Field String → Except ServiceError (Option String)
  | .undefined => .ok old
  | .null => .ok none
  | .value text => do return some (← uuidColumn text)

/-- A `uuid` column that is not nullable. -/
def uuidNotNull (column : String) (old : String) : Field String → Except ServiceError String
  | .undefined => .ok old
  | .null => .error (.notNullViolation column)
  | .value text => uuidColumn text

/-! ## ProductsService -/

structure CreateProductDTO where
  sku : String
  name_th : String
  name_en : String
  type : ProductType
  item_group_id : String
  brand_id : Field String
  stock_uom_id : String
  has_variants : Field Bool
  template_product_id : Field String
  supplier_id : Field String

structure UpdateProductDTO where
  sku : Field String
  name_th : Field String
  name_en : Field String
  type : Field ProductType
  item_group_id : Field String
  brand_id : Field String
  stock_uom_id : Field String
  has_variants : Field Bool
  template_product_id : Field String
  supplier_id : Field String

def CreateProductDTO.row (data : CreateProductDTO) (newId : String)
    (currentUser : Option String) : Except ServiceError Product := do
  let item_group_id ← uuidColumn data.item_group_id
  let brand_id ← uuidField none data.brand_id
  let stock_uom_id ← uuidColumn data.stock_uom_id
  let has_variants ← data.has_variants.notNull "has_variants" false
  let template_product_id ← uuidField none data.template_product_id
  let supplier_id ← uuidField none data.supplier_id
  return { BaseEntity.create newId currentUser with
    sku := data.sku, name_th := data.name_th, name_en := data.name_en, type := data.type,
    item_group_id, brand_id, stock_uom_id, has_variants, template_product_id, supplier_id }

def UpdateProductDTO.merge (data : UpdateProductDTO) (r : Product) :
    Except ServiceError Product := do
  let sku ← data.sku.notNull "sku" r.sku
  let name_th ← data.name_th.notNull "name_th" r.name_th
  let name_en ← data.name_en.notNull "name_en" r.name_en
  let type ← data.type.notNull "type" r.type
  let item_group_id ← uuidNotNull "item_group_id" r.item_group_id data.item_group_id
  let brand_id ← uuidField r.brand_id data.brand_id
  let stock_uom_id ← uuidNotNull "stock_uom_id" r.stock_uom_id data.stock_uom_id
  let has_variants ← data.has_variants.notNull "has_variants" r.has_variants
  let template_product_id ← uuidField r.template_product_id data.template_product_id
  let supplier_id ← uuidField r.supplier_id data.supplier_id
  return { r with
    sku, name_th, name_en, type, item_group_id, brand_id, stock_uom_id, has_variants,
    template_product_id, supplier_id }

/-- What `getSupplierById` of the supplier service answers: whether there is one, or an error. -/
abbrev Suppliers := String → Except ServiceError Bool

def assertValidSupplier (suppliers : Suppliers) (supplierId : String) :
    Except ServiceError Unit := do
  if !(← suppliers supplierId) then
    throw (.badRequest ("Supplier '" ++ supplierId ++ "' not found."))

def assertValidTemplate (t : productEntity.Rows) (templateId : String) :
    Except ServiceError Unit :=
  match productEntity.findLive t (uuid templateId) with
  | none => .error (.badRequest ("Template product '" ++ templateId ++ "' not found."))
  | some template =>
      if !template.has_variants then
        .error (.badRequest ("Product '" ++ templateId ++
          "' is not a variant template (has_variants=false)."))
      else .ok ()

def checkSupplier (suppliers : Suppliers) (supplier : Field String) : Except ServiceError Unit :=
  match supplier.truthy with
  | some supplierId => assertValidSupplier suppliers supplierId
  | none => .ok ()

def checkTemplate (t : productEntity.Rows) (template : Field String) : Except ServiceError Unit :=
  match template.truthy with
  | some templateId => assertValidTemplate t templateId
  | none => .ok ()

/-- The checks of `create` and `update`. -/
def checkReferences (t : productEntity.Rows) (suppliers : Suppliers)
    (supplier template : Field String) : Except ServiceError Unit := do
  checkSupplier suppliers supplier
  checkTemplate t template

def createProduct (t : productEntity.Rows) (suppliers : Suppliers) (newId : String)
    (data : CreateProductDTO) (currentUser : Option String) :
    Except ServiceError (productEntity.Rows × Product) := do
  checkReferences t suppliers data.supplier_id data.template_product_id
  executeDbOperation do
    let row ← data.row newId currentUser
    let t' ← productEntity.insert t row
    return (t', row)

def updateProduct (t : productEntity.Rows) (suppliers : Suppliers) (id : String)
    (data : UpdateProductDTO) (currentUser : Option String) :
    Except ServiceError (productEntity.Rows × Product) := do
  checkReferences t suppliers data.supplier_id data.template_product_id
  executeDbOperation (productEntity.update t id data.merge currentUser)

/-! ## Variants -/

structure VariantAttributeSelection where
  attribute_id : String
  value_ids : List String
  deriving DecidableEq

structure VariantCombinationEntry where
  attribute_id : String
  attribute_value_id : String
  deriving DecidableEq

abbrev VariantCombination := List VariantCombinationEntry

def generateVariantCombinations (selections : List VariantAttributeSelection) :
    List VariantCombination :=
  selections.foldl (fun accumulated selection =>
    accumulated.flatMap fun combination => selection.value_ids.map fun valueId =>
      combination ++ [⟨selection.attribute_id, valueId⟩]) [[]]

/-- The ids that the database draws for the variants and the rows of their attributes. -/
structure VariantDraws where
  variant : Nat → String
  variantAttribute : Nat → Nat → String

/-- In the map `valueById` a value is found by its id as text. -/
def combinationValue (t : attributeValueEntity.Rows) (entry : VariantCombinationEntry) :
    Except ServiceError ItemAttributeValue :=
  match attributeValueEntity.findLive t entry.attribute_value_id with
  | none => .error (.badRequest ("Attribute value '" ++ entry.attribute_value_id ++ "' not found."))
  | some value => .ok value

def variantRow (template : Product) (values : List ItemAttributeValue) (newId : String)
    (currentUser : Option String) : Product :=
  let skuSuffix := String.intercalate "-" (values.map fun value => value.abbr.getD value.value)
  let nameSuffix := String.intercalate " " (values.map fun value => value.value)
  { BaseEntity.create newId currentUser with
    sku := template.sku ++ "-" ++ skuSuffix
    name_th := template.name_th ++ " " ++ nameSuffix
    name_en := template.name_en ++ " " ++ nameSuffix
    type := template.type
    item_group_id := template.item_group_id
    brand_id := template.brand_id
    stock_uom_id := template.stock_uom_id
    has_variants := false
    template_product_id := some template.id
    supplier_id := template.supplier_id }

def variantAttributeRow (variantId : String) (newId : String) (currentUser : Option String)
    (entry : VariantCombinationEntry) : ItemVariantAttribute :=
  { BaseEntity.create newId currentUser with
    variant_product_id := variantId
    attribute_id := uuid entry.attribute_id
    attribute_value_id := uuid entry.attribute_value_id }

/-- One turn of the loop of `generateVariants`. -/
def createVariant (s : InventoryDb) (template : Product) (draws : VariantDraws) (i : Nat)
    (combination : VariantCombination) (currentUser : Option String) :
    Except ServiceError (InventoryDb × Product) := do
  let values ← combination.mapM (combinationValue s.attributeValues)
  let variant := variantRow template values (draws.variant i) currentUser
  let products ← productEntity.insert s.products variant
  let attributes := combination.mapIdx fun j entry =>
    variantAttributeRow variant.id (draws.variantAttribute i j) currentUser entry
  match s.variantAttributes.insertMany attributes with
  | none => throw (.uniqueViolation "id")
  | some variantAttributes => return ({ s with products, variantAttributes }, variant)

def createVariants (s : InventoryDb) (template : Product) (draws : VariantDraws)
    (currentUser : Option String) :
    Nat → List VariantCombination → Except ServiceError (InventoryDb × List Product)
  | _, [] => .ok (s, [])
  | i, combination :: combinations => do
      let (s', variant) ← createVariant s template draws i combination currentUser
      let (s', variants) ← createVariants s' template draws currentUser (i + 1) combinations
      return (s', variant :: variants)

def generateVariants (s : InventoryDb) (templateId : String)
    (attributes : List VariantAttributeSelection) (draws : VariantDraws)
    (currentUser : Option String) : Except ServiceError (InventoryDb × List Product) :=
  executeDbOperation (
    match productEntity.findLive s.products (uuid templateId) with
    | none => .error (.notFound ("Product with ID '" ++ templateId ++ "' not found."))
    | some template =>
        if !template.has_variants then
          .error (.badRequest ("Product '" ++ templateId ++
            "' is not a variant template (has_variants=false)."))
        else
          let combinations := generateVariantCombinations attributes
          if combinations.length = 0 then
            .error (.badRequest
              "Every attribute dimension must have at least one selected value.")
          else createVariants s template draws currentUser 0 combinations)

/-! ## Units of measure and conversion factors -/

structure UpdateUomDTO where
  name : Field String
  is_whole_number : Field Bool

def UpdateUomDTO.merge (data : UpdateUomDTO) (r : Uom) : Except ServiceError Uom := do
  let name ← data.name.notNull "name" r.name
  let is_whole_number ← data.is_whole_number.notNull "is_whole_number" r.is_whole_number
  return { r with name, is_whole_number }

def updateUom (t : uomEntity.Rows) (id : String) (data : UpdateUomDTO)
    (currentUser : Option String) : Except ServiceError (uomEntity.Rows × Uom) :=
  executeDbOperation (uomEntity.update t id data.merge currentUser)

/-- The nearest integer; halves go away from zero. -/
def roundAway (x : ℚ) : ℤ := if 0 ≤ x then ⌊x + 1 / 2⌋ else -⌊-x + 1 / 2⌋

/-- A value for a column of type `numeric(10, 4)`. -/
def numericColumn (x : ℚ) : Except ServiceError ℚ :=
  let scaled := roundAway (x * 10000)
  if scaled.natAbs ≥ 10 ^ 10 then
    .error (.error "Database error (22003) on table uom_conversion_factors: numeric field overflow")
  else .ok (scaled / 10000)

/-- The column `conversion_factor` in an update. -/
def factorColumn (old : ℚ) : Field ℚ → Except ServiceError ℚ
  | .undefined => .ok old
  | .null => .error (.notNullViolation "conversion_factor")
  | .value x => numericColumn x

def isInteger (x : ℚ) : Bool := x.den = 1

structure CreateUomConversionFactorDTO where
  product_id : String
  uom_id : String
  conversion_factor : ℚ
  uom_type : UomConversionType

structure UpdateUomConversionFactorDTO where
  product_id : Field String
  uom_id : Field String
  conversion_factor : Field ℚ
  uom_type : Field UomConversionType

def CreateUomConversionFactorDTO.row (data : CreateUomConversionFactorDTO) (newId : String)
    (currentUser : Option String) : Except ServiceError UomConversionFactor := do
  let product_id ← uuidColumn data.product_id
  let uom_id ← uuidColumn data.uom_id
  let conversion_factor ← numericColumn data.conversion_factor
  return { BaseEntity.create newId currentUser with
    product_id, uom_id, conversion_factor, uom_type := data.uom_type }

def UpdateUomConversionFactorDTO.merge (data : UpdateUomConversionFactorDTO)
    (r : UomConversionFactor) : Except ServiceError UomConversionFactor := do
  let product_id ← uuidNotNull "product_id" r.product_id data.product_id
  let uom_id ← uuidNotNull "uom_id" r.uom_id data.uom_id
  let conversion_factor ← factorColumn r.conversion_factor data.conversion_factor
  let uom_type ← data.uom_type.notNull "uom_type" r.uom_type
  return { r with product_id, uom_id, conversion_factor, uom_type }

section Factors

-- How a number, or null, is printed.
variable (print : Option ℚ → String)

/-- `conversionFactor` is `none` for a null, which is no integer. -/
def assertWholeNumberRoundCheck (s : InventoryDb) (productId : String)
    (conversionFactor : Option ℚ) : Except ServiceError Unit :=
  match productEntity.findLive s.products (uuid productId) with
  | none => .error (.badRequest ("Product '" ++ productId ++ "' not found."))
  | some product =>
      match uomEntity.findLive s.uoms product.stock_uom_id with
      | none => .ok ()
      | some stockUom =>
          if stockUom.is_whole_number && !conversionFactor.any isInteger then
            .error (.badRequest ("Stock UOM '" ++ stockUom.name ++
              "' is whole-number-only; conversion_factor (" ++ print conversionFactor ++
              ") must be a whole number."))
          else .ok ()

def createFactor (s : InventoryDb) (newId : String) (data : CreateUomConversionFactorDTO)
    (currentUser : Option String) :
    Except ServiceError (factorEntity.Rows × UomConversionFactor) := do
  assertWholeNumberRoundCheck print s data.product_id (some data.conversion_factor)
  executeDbOperation do
    let row ← data.row newId currentUser
    let t' ← factorEntity.insert s.factors row
    return (t', row)

/-- The product that `update` checks a new factor against. -/
def checkedProduct (s : InventoryDb) (id : String) (productId : Field String) :
    Except ServiceError String :=
  match productId with
  | .value productId => .ok productId
  | _ =>
      match factorEntity.findLive s.factors (uuid id) with
      | none => .error (factorEntity.notFound id)
      | some factor => .ok factor.product_id

def checkFactorUpdate (s : InventoryDb) (id : String) (data : UpdateUomConversionFactorDTO) :
    Except ServiceError Unit :=
  if data.conversion_factor.isDefined then do
    let productId ← checkedProduct s id data.product_id
    assertWholeNumberRoundCheck print s productId (data.conversion_factor.nullable none)
  else .ok ()

def updateFactor (s : InventoryDb) (id : String) (data : UpdateUomConversionFactorDTO)
    (currentUser : Option String) :
    Except ServiceError (factorEntity.Rows × UomConversionFactor) := do
  checkFactorUpdate print s id data
  executeDbOperation (factorEntity.update s.factors id data.merge currentUser)

end Factors

end ErpApi.Inventory
