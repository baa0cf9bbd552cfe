import ErpApi.Basic.Json

set_option autoImplicit false

/-! # Entities and field paths

What the query builder reads of TypeORM's entity metadata, and how it resolves and checks a
field path: relations up to the last segment, which is a column, or a path into a JSONB column
of the root entity.
-/

namespace ErpApi.Query

inductive ColumnType where
  | timestamp
  | timestamptz
  | date
  | datetime
  | time
  | timeWithTimeZone
  | jsonb
  | json
  /-- An enum column, with its members if the metadata lists them. -/
  | enum (values : Option (List String))
  | other
  deriving DecidableEq

structure ColumnMetadata where
  propertyName : String
  type : ColumnType
  deriving DecidableEq

structure RelationMetadata where
  propertyPath : String
  /-- The entity at the other end. -/
  inverseEntity : String
  deriving DecidableEq

structure EntityMetadata where
  columns : List ColumnMetadata
  relations : List RelationMetadata
  primaryColumns : List String

def EntityMetadata.propertyNames (entity : EntityMetadata) : List String :=
  entity.columns.map ColumnMetadata.propertyName ++
    entity.relations.map RelationMetadata.propertyPath

/-- The properties by which the builder knows a find operator, and those that every object
inherits. -/
def reservedNames : List String :=
  ["_type", "_value", "_getSql", "__proto__", "constructor", "prototype", "hasOwnProperty",
    "isPrototypeOf", "propertyIsEnumerable", "toLocaleString", "toString", "valueOf",
    "__defineGetter__", "__defineSetter__", "__lookupGetter__", "__lookupSetter__"]

/-- The entities of a database. None has a property that a where object could not hold as
an ordinary key. -/
structure Schema where
  root : EntityMetadata
  entity : String → EntityMetadata
  root_names : ∀ name ∈ root.propertyNames, name ∉ reservedNames
  entity_names : ∀ e, ∀ name ∈ (entity e).propertyNames, name ∉ reservedNames

inductive QueryError where
  | invalidParameter (field message : String)
  | rangeError
  | typeError
  | syntaxError
  deriving DecidableEq

def EntityMetadata.findColumnWithPropertyName (entity : EntityMetadata) (name : String) :
    Option ColumnMetadata :=
  entity.columns.find? fun column => column.propertyName == name

def EntityMetadata.findRelationWithPropertyPath (entity : EntityMetadata) (path : String) :
    Option RelationMetadata :=
  entity.relations.find? fun relation => relation.propertyPath == path

/-- The segments of a field path. -/
def parts (fieldPath : String) : List String := Js.split '.' fieldPath

variable (schema : Schema)

/-! ## JSONB paths -/

def isJsonbColumn (propertyName : String) : Bool :=
  match schema.root.findColumnWithPropertyName propertyName with
  | none => false
  | some column => column.type = .jsonb || column.type = .json

def isJsonbPath (fieldPath : String) : Bool :=
  match parts fieldPath with
  | [] => false
  | firstSegment :: _ => firstSegment != "" && isJsonbColumn schema firstSegment

def extractJsonbColumnAndPath (fieldPath : String) : Option (String × List String) :=
  match parts fieldPath with
  | column :: segment :: jsonPath =>
      if isJsonbColumn schema column then some (column, segment :: jsonPath) else none
  | _ => none

/-! ## Columns -/

/-- The walk along the relations to the column at the end. -/
def resolveFrom : EntityMetadata → List String → Option ColumnMetadata
  | _, [] => none
  | entity, [part] => entity.findColumnWithPropertyName part
  | entity, part :: next :: rest =>
      match entity.findRelationWithPropertyPath part with
      | none => none
      | some relation => resolveFrom (schema.entity relation.inverseEntity) (next :: rest)

def resolveColumnMetadata (fieldPath : String) : Option ColumnMetadata :=
  resolveFrom schema schema.root (parts fieldPath)

def isDateColumnRecursive (fieldPath : String) : Bool :=
  match resolveColumnMetadata schema fieldPath with
  | none => false
  | some column => [.timestamp, .timestamptz, .date, .datetime, .time, .timeWithTimeZone].contains
      column.type

def getEnumValuesRecursive (fieldPath : String) : Option (List String) :=
  match resolveColumnMetadata schema fieldPath with
  | some ⟨_, .enum values⟩ => values
  | _ => none

/-! ## Checks -/

def joinNames (names : List String) : String := String.intercalate ", " names

def validateFrom (fieldPath : String) : EntityMetadata → List String → Except QueryError Unit
  | _, [] => pure ()
  | entity, [part] =>
      match entity.findColumnWithPropertyName part with
      | some _ => pure ()
      | none => throw (.invalidParameter fieldPath
          ("Invalid nested column: '" ++ part ++ "' in path '" ++ fieldPath ++
            "'. Allowed columns are: [" ++
            joinNames (entity.columns.map ColumnMetadata.propertyName) ++ "]"))
  | entity, part :: next :: rest =>
      match entity.findRelationWithPropertyPath part with
      | some relation =>
          validateFrom fieldPath (schema.entity relation.inverseEntity) (next :: rest)
      | none => throw (.invalidParameter fieldPath
          ("Invalid relation: '" ++ part ++ "' in path '" ++ fieldPath ++
            "'. Allowed relations are: [" ++
            joinNames (entity.relations.map RelationMetadata.propertyPath) ++ "]"))

def validateFieldName (fieldPath : String) : Except QueryError Unit :=
  if isJsonbPath schema fieldPath then pure ()
  else if !fieldPath.toList.contains '.' then
    let validFields := schema.root.columns.map ColumnMetadata.propertyName
    if validFields.contains fieldPath then pure ()
    else throw (.invalidParameter fieldPath
      ("Invalid filter field: '" ++ fieldPath ++ "'. Allowed fields are: [" ++
        joinNames validFields ++ "]"))
  else validateFrom schema fieldPath schema.root (parts fieldPath)

def validateFieldNamesRecursive (fields : List String) : Except QueryError Unit :=
  fields.forM (validateFieldName schema)

end ErpApi.Query
