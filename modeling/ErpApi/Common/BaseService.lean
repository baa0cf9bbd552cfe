import ErpApi.Basic.JsString

set_option autoImplicit false

/-! # What the services share

The errors that a service throws, the wrapper `executeDbOperation` of the base class that turns
an error of the database into one for the caller, and the fields of a request that may be left
out.
-/

namespace ErpApi

inductive ServiceError where
  | badRequest (message : String)
  | notFound (message : String)
  | conflict (message : String)
  | error (message : String)
  /-- The recursion is too deep. -/
  | rangeError
  /-- A property is not a function. -/
  | typeError
  /-- A `findOneOrFail` finds nothing. -/
  | entityNotFound
  /-- The database refuses a key that is taken. -/
  | uniqueViolation (column : String)
  /-- The database refuses a `null`. -/
  | notNullViolation (column : String)
  /-- The database refuses a reference to a row that does not exist. -/
  | foreignKeyViolation (constraint : String)
  /-- The database refuses a text longer than its column. -/
  | stringTooLong
  deriving DecidableEq

/-- The name of a constraint without its leading `fk_.._`, with blanks for the underscores. -/
def friendlyConstraint (constraint : String) : String :=
  match Js.split '_' constraint with
  | "fk" :: _ :: part :: parts => String.intercalate " " (part :: parts)
  | parts => String.intercalate " " parts

/-- An error of the database as the caller sees it. -/
def ServiceError.ofDb : ServiceError → ServiceError
  | .uniqueViolation column =>
      .conflict ("A record with this " ++ String.intercalate " " (Js.split '_' column) ++
        " already exists.")
  | .notNullViolation column => .badRequest ("Required field '" ++ column ++ "' cannot be empty.")
  | .foreignKeyViolation constraint =>
      .badRequest ("Invalid reference for '" ++ friendlyConstraint constraint ++
        "'. The referenced record does not exist.")
  | .stringTooLong =>
      .badRequest "The value provided for a field is too long. Please shorten the input."
  | e => e

def executeDbOperation {α : Type} (operation : Except ServiceError α) : Except ServiceError α :=
  operation.mapError ServiceError.ofDb

theorem executeDbOperation_eq_ok {α : Type} {operation : Except ServiceError α} {a : α} :
    executeDbOperation operation = .ok a ↔ operation = .ok a := by
  cases operation with
  | error e => exact iff_of_false (fun h => by cases h) (fun h => by cases h)
  | ok b => rfl

/-- The value of a `uuid` column: the database reads and compares it without regard to case. -/
def uuid (text : String) : String := String.ofList (text.toList.map Char.toLower)

theorem toLower_toLower (c : Char) : c.toLower.toLower = c.toLower := by
  by_cases h : c.val ≥ 'A'.val ∧ c.val ≤ 'Z'.val
  · have hval : c.toLower.val = c.val + ('a'.val - 'A'.val) :=
      congrArg Char.val (dif_pos h : c.toLower = _)
    have hlow : ¬ (c.toLower.val ≥ 'A'.val ∧ c.toLower.val ≤ 'Z'.val) := by
      rw [hval]
      grind [UInt32.toNat_add]
    exact dif_neg hlow
  · rw [show c.toLower = c from dif_neg h]
    exact dif_neg h

@[simp] theorem uuid_uuid (text : String) : uuid (uuid text) = uuid text := by
  unfold uuid
  rw [String.toList_ofList, List.map_map]
  congr 1
  apply List.map_congr_left
  intro c hc
  exact toLower_toLower c

/-- The field of a request: left out, `null`, or a value. -/
inductive Field (α : Type) where
  | undefined
  | null
  | value (a : α)
  deriving DecidableEq

namespace Field

variable {α : Type}

def isDefined : Field α → Bool
  | .undefined => false
  | _ => true

/-- Sets a column that is not nullable. -/
def notNull (column : String) (old : α) : Field α → Except ServiceError α
  | .undefined => pure old
  | .null => throw (.notNullViolation column)
  | .value a => pure a

/-- Sets a column that is nullable. -/
def nullable (old : Option α) : Field α → Option α
  | .undefined => old
  | .null => none
  | .value a => some a

/-- The value, where there is one, satisfies `p`. -/
def All (p : α → Prop) : Field α → Prop
  | .value a => p a
  | _ => True

instance (p : α → Prop) [DecidablePred p] : (f : Field α) → Decidable (f.All p)
  | .undefined => .isTrue trivial
  | .null => .isTrue trivial
  | .value a => inferInstanceAs (Decidable (p a))

/-- The text of a field that a condition takes for true. -/
def truthy : Field String → Option String
  | .value text => if text = "" then none else some text
  | _ => none

end Field

end ErpApi
