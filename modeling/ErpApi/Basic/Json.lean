import ErpApi.Basic.JsString

set_option autoImplicit false

/-! # Values of the source language

The values that JSON can write, and the operations on them that the modelled code uses:
`String(value)`, `Object.keys`, and the helpers on strings around them.
-/

namespace ErpApi

/-- A number is kept as the text that `String` gives for it. -/
inductive Json where
  | null
  | bool (b : Bool)
  | num (text : String)
  | str (text : String)
  | arr (items : List Json)
  | obj (entries : List (String × Json))

namespace Json

mutual

/-- The conversion `String(value)`. -/
def toText : Json → String
  | .null => "null"
  | .bool b => if b then "true" else "false"
  | .num text => text
  | .str text => text
  | .arr items => joinText items
  | .obj _ => "[object Object]"

/-- The text of an array: its members with commas between them, a null member as nothing. -/
def joinText : List Json → String
  | [] => ""
  | [v] => memberText v
  | v :: w :: rest => memberText v ++ "," ++ joinText (w :: rest)

def memberText : Json → String
  | .null => ""
  | .bool b => if b then "true" else "false"
  | .num text => text
  | .str text => text
  | .arr items => joinText items
  | .obj _ => "[object Object]"

end

mutual

/-- Whether two values are the same, member by member. -/
def beq : Json → Json → Bool
  | .null, .null => true
  | .bool a, .bool b => a == b
  | .num a, .num b => a == b
  | .str a, .str b => a == b
  | .arr a, .arr b => beqItems a b
  | .obj a, .obj b => beqEntries a b
  | _, _ => false

def beqItems : List Json → List Json → Bool
  | [], [] => true
  | v :: vs, w :: ws => beq v w && beqItems vs ws
  | _, _ => false

def beqEntries : List (String × Json) → List (String × Json) → Bool
  | [], [] => true
  | (k, v) :: vs, (l, w) :: ws => k == l && beq v w && beqEntries vs ws
  | _, _ => false

end

mutual

theorem beq_iff : ∀ v w : Json, beq v w = true ↔ v = w
  | .null, w => by cases w <;> simp [beq]
  | .bool _, w => by cases w <;> simp [beq]
  | .num _, w => by cases w <;> simp [beq]
  | .str _, w => by cases w <;> simp [beq]
  | .arr vs, w => by cases w <;> simp [beq, beqItems_iff vs]
  | .obj vs, w => by cases w <;> simp [beq, beqEntries_iff vs]

theorem beqItems_iff : ∀ vs ws : List Json, beqItems vs ws = true ↔ vs = ws
  | [], ws => by cases ws <;> simp [beqItems]
  | v :: vs, ws => by cases ws <;> simp [beqItems, beq_iff v, beqItems_iff vs]

theorem beqEntries_iff : ∀ vs ws : List (String × Json), beqEntries vs ws = true ↔ vs = ws
  | [], ws => by cases ws <;> simp [beqEntries]
  | (k, v) :: vs, ws => by
      cases ws <;> simp [beqEntries, beq_iff v, beqEntries_iff vs, Prod.ext_iff, and_assoc]

end

instance : DecidableEq Json := fun v w => decidable_of_iff (beq v w = true) (beq_iff v w)

/-- The test `typeof value === 'object' && value !== null && !Array.isArray(value)`. -/
def isPlainObject : Json → Bool
  | .obj _ => true
  | _ => false

def isNull : Json → Bool
  | .null => true
  | _ => false

/-- A text, a number or a boolean. -/
def isScalar : Json → Bool
  | .bool _ => true
  | .num _ => true
  | .str _ => true
  | _ => false

/-- What `Object.keys` lists, with the values: the members of an object, those of an array or
the characters of a string under their index, nothing of a number or a boolean. It throws
for `null`. -/
def entries : Json → Option (List (String × Json))
  | .null => none
  | .bool _ => some []
  | .num _ => some []
  | .str text => some (text.toList.mapIdx fun i c => (toString i, .str (String.singleton c)))
  | .arr items => some (items.mapIdx fun i v => (toString i, v))
  | .obj entries => some entries

/-- The assignment `object[key] = value`. -/
def assign : List (String × Json) → String → Json → List (String × Json)
  | [], key, value => [(key, value)]
  | (k, v) :: rest, key, value =>
      if k = key then (k, value) :: rest else (k, v) :: assign rest key value

theorem mem_keys_assign {key k : String} {value : Json} (entries : List (String × Json)) :
    k ∈ (assign entries key value).map Prod.fst ↔ k = key ∨ k ∈ entries.map Prod.fst := by
  induction entries with
  | nil => simp [assign]
  | cons entry rest ih =>
      obtain ⟨k', v⟩ := entry
      by_cases h : k' = key
      · simp [assign, h]
      · simp only [assign, h, if_false, List.map_cons, List.mem_cons, ih]
        tauto

/-- The keys of an object that is built by assignments are distinct. -/
theorem nodup_keys_assign {entries : List (String × Json)}
    (h : (entries.map Prod.fst).Nodup) (key : String) (value : Json) :
    ((assign entries key value).map Prod.fst).Nodup := by
  induction entries with
  | nil => simp [assign]
  | cons entry rest ih =>
      obtain ⟨k, v⟩ := entry
      rw [List.map_cons, List.nodup_cons] at h
      by_cases hk : k = key
      · simp only [assign, hk, if_true, List.map_cons, List.nodup_cons]
        exact ⟨hk ▸ h.1, h.2⟩
      · simp only [assign, hk, if_false, List.map_cons, List.nodup_cons]
        refine ⟨?_, ih h.2⟩
        rw [mem_keys_assign]
        rintro (hkey | hmem)
        · exact hk hkey
        · exact h.1 hmem

end Json

end ErpApi
