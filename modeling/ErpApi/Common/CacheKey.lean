import ErpApi.Basic.JsonText
import ErpApi.Basic.KeyOrder
import ErpApi.Common.MicroserviceClient

set_option autoImplicit false

/-! # The key of a cached answer

`generateCacheKey` names the answer to a request by its command and a hash of its payload. The
payload is normalized first, so that neither the order of keys nor members that are `undefined`
matter. The normalized copy is made of own members only, and a date has none; the command is
rewritten too. `cacheKey_iff` says when the keys tell requests apart as their texts do.
-/

namespace ErpApi.Rpc.CacheKey

open Json (Same)

structure Numeral where
  text : String
  isNumeral : Json.IsNumeral text

/-- A payload: what `JSON.stringify` can write. -/
inductive Payload where
  | undefined
  | null
  | bool (b : Bool)
  | num (n : Numeral)
  /-- `NaN` or an infinity. -/
  | nonFinite
  | str (text : String)
  /-- A symbol or a function. -/
  | unwritten
  | arr (items : List Payload)
  | obj (entries : List (String × Payload))
  /-- An object that is written as `json` and not by its own members: a date, and every object with a
  method `toJSON`. A date has no members, and is written as the text of its instant. -/
  | special (own : List (String × Payload)) (json : Json)

namespace Payload

def isUndefined : Payload → Bool
  | .undefined => true
  | _ => false

mutual

/-- What `JSON.stringify` writes; `none` is `undefined`. -/
def toJson : Payload → Option Json
  | .undefined => none
  | .null => some .null
  | .bool b => some (.bool b)
  | .num n => some (.num n.text)
  | .nonFinite => some .null
  | .str text => some (.str text)
  | .unwritten => none
  | .arr items => some (.arr (toItems items))
  | .obj entries => some (.obj (toEntries entries))
  | .special _ json => some json

def toItems : List Payload → List Json
  | [] => []
  | v :: items => (toJson v).getD .null :: toItems items

def toEntries : List (String × Payload) → List (String × Json)
  | [] => []
  | (key, v) :: entries => ((toJson v).toList.map fun json => (key, json)) ++ toEntries entries

end

mutual

def normalizePayload : Payload → Payload
  | .undefined => .null
  | .arr items => .arr (normalizeItems items)
  | .obj entries => .obj (Js.sortedMembers (normalizeEntries entries))
  | .special own _ => .obj (Js.sortedMembers (normalizeEntries own))
  | v => v

def normalizeItems : List Payload → List Payload
  | [] => []
  | v :: items => normalizePayload v :: normalizeItems items

/-- The assignment `normalized['__proto__'] = …` makes no member. -/
def normalizeEntries : List (String × Payload) → List (String × Payload)
  | [] => []
  | (key, v) :: entries =>
      if v.isUndefined || key == "__proto__" then normalizeEntries entries
      else (key, normalizePayload v) :: normalizeEntries entries

end

end Payload

/-- A hash cannot be updated with `undefined`: then there is no key. -/
def generateCacheKey (sha256 : String → String) (cmd : String) (payload : Payload)
    (keyPrefix : Option String) : Option String :=
  payload.normalizePayload.toJson.map fun json =>
    "microservice:" ++ keyPrefix.getD (Js.replaceAllChar cmd '.' ":") ++ ":" ++
      String.ofList ((sha256 json.write).toList.take 24)

/-! ## What the key tells of a payload -/

namespace Payload

mutual

def plainValue : Payload → Payload
  | .arr items => .arr (plainItems items)
  | .obj entries => .obj (plainEntries entries)
  | .special own _ => .obj (plainEntries own)
  | v => v

def plainItems : List Payload → List Payload
  | [] => []
  | v :: items => plainValue v :: plainItems items

def plainEntries : List (String × Payload) → List (String × Payload)
  | [] => []
  | (key, v) :: entries =>
      if key == "__proto__" then plainEntries entries
      else (key, plainValue v) :: plainEntries entries

end

/-- The payload with every object as its own members, so a date as `{}`; without members called
`__proto__`; and `null` if it is `undefined`. -/
def plain : Payload → Payload
  | .undefined => .null
  | v => v.plainValue

end Payload

/-- The two texts are the same up to the order of keys; or there is none for both. -/
def SameText : Option Json → Option Json → Prop
  | some a, some b => Same a b
  | none, none => True
  | _, _ => False

/-- A message of a call. -/
structure Request where
  cmd : String
  payload : Payload

/-- The commands are equal, and the payloads serialize to the same JSON. -/
def Request.Same (r s : Request) : Prop :=
  r.cmd = s.cmd ∧ SameText r.payload.toJson s.payload.toJson

def SameKey (sha256 : String → String) (r s : Request) : Prop :=
  ∃ key, generateCacheKey sha256 r.cmd r.payload none = some key ∧
    generateCacheKey sha256 s.cmd s.payload none = some key

/-- The requests are the same after each `.` of the command is read as `:` and the payloads are read
as plain ones, which have texts. -/
def Request.ReadSame (r s : Request) : Prop :=
  Js.replaceAllChar r.cmd '.' ":" = Js.replaceAllChar s.cmd '.' ":" ∧
    ∃ a b, r.payload.plain.toJson = some a ∧ s.payload.plain.toJson = some b ∧ Json.Same a b

/-- The keys tell the two requests apart exactly when they are different. -/
def Told (sha256 : String → String) (r s : Request) : Prop := SameKey sha256 r s ↔ r.Same s

/-! ## Payloads as values -/

namespace Payload

theorem payload_induction {P : Payload → Prop} (undefined : P .undefined) (null : P .null)
    (bool : ∀ b, P (.bool b)) (num : ∀ n, P (.num n)) (nonFinite : P .nonFinite)
    (str : ∀ text, P (.str text)) (unwritten : P .unwritten)
    (arr : ∀ items, (∀ v ∈ items, P v) → P (.arr items))
    (obj : ∀ entries, (∀ entry ∈ entries, P entry.2) → P (.obj entries))
    (special : ∀ own json, (∀ entry ∈ own, P entry.2) → P (.special own json)) :
    ∀ v : Payload, P v
  | .undefined => undefined
  | .null => null
  | .bool b => bool b
  | .num n => num n
  | .nonFinite => nonFinite
  | .str text => str text
  | .unwritten => unwritten
  | .arr items => arr items fun v _ =>
      payload_induction undefined null bool num nonFinite str unwritten arr obj special v
  | .obj entries => obj entries fun entry _ =>
      payload_induction undefined null bool num nonFinite str unwritten arr obj special entry.2
  | .special own json => special own json fun entry _ =>
      payload_induction undefined null bool num nonFinite str unwritten arr obj special entry.2
termination_by v => sizeOf v
decreasing_by
  · rename_i hmem
    have hlt := List.sizeOf_lt_of_mem hmem
    simp only [Payload.arr.sizeOf_spec]
    omega
  · rename_i hmem
    have hlt := List.sizeOf_lt_of_mem hmem
    have hpair : sizeOf entry = 1 + sizeOf entry.1 + sizeOf entry.2 := rfl
    simp only [Payload.obj.sizeOf_spec]
    omega
  · rename_i hmem
    have hlt := List.sizeOf_lt_of_mem hmem
    have hpair : sizeOf entry = 1 + sizeOf entry.1 + sizeOf entry.2 := rfl
    simp only [Payload.special.sizeOf_spec]
    omega

/-- No object has two members of one key. -/
inductive WellFormed : Payload → Prop
  | undefined : WellFormed .undefined
  | null : WellFormed .null
  | bool (b : Bool) : WellFormed (.bool b)
  | num (n : Numeral) : WellFormed (.num n)
  | nonFinite : WellFormed .nonFinite
  | str (text : String) : WellFormed (.str text)
  | unwritten : WellFormed .unwritten
  | arr {items : List Payload} (hitems : ∀ v ∈ items, WellFormed v) : WellFormed (.arr items)
  | obj {entries : List (String × Payload)} (hkeys : (entries.map Prod.fst).Nodup)
      (hvalues : ∀ entry ∈ entries, WellFormed entry.2) : WellFormed (.obj entries)
  | special {own : List (String × Payload)} (json : Json) (hkeys : (own.map Prod.fst).Nodup)
      (hvalues : ∀ entry ∈ own, WellFormed entry.2) : WellFormed (.special own json)

theorem toItems_eq_map (items : List Payload) :
    toItems items = items.map fun v => v.toJson.getD .null := by
  induction items with
  | nil => rfl
  | cons v items ih => rw [toItems, ih, List.map_cons]

theorem toEntries_eq_mapMembers (entries : List (String × Payload)) :
    toEntries entries = Js.mapMembers (fun _ v => v.toJson) entries := by
  induction entries with
  | nil => rfl
  | cons entry entries ih =>
      obtain ⟨key, v⟩ := entry
      rw [toEntries, ih, Js.mapMembers, Js.mapMembers, List.filterMap_cons]
      cases v.toJson <;> rfl

theorem normalizeItems_eq_map (items : List Payload) :
    normalizeItems items = items.map normalizePayload := by
  induction items with
  | nil => rfl
  | cons v items ih => rw [normalizeItems, ih, List.map_cons]

def normalizeMember (key : String) (v : Payload) : Option Payload :=
  if v.isUndefined || key == "__proto__" then none else some v.normalizePayload

theorem normalizeEntries_eq_mapMembers (entries : List (String × Payload)) :
    normalizeEntries entries = Js.mapMembers normalizeMember entries := by
  induction entries with
  | nil => rfl
  | cons entry entries ih =>
      obtain ⟨key, v⟩ := entry
      rw [normalizeEntries, ih, Js.mapMembers, Js.mapMembers, List.filterMap_cons, normalizeMember]
      split <;> rfl

theorem plainItems_eq_map (items : List Payload) : plainItems items = items.map plainValue := by
  induction items with
  | nil => rfl
  | cons v items ih => rw [plainItems, ih, List.map_cons]

def plainMember (key : String) (v : Payload) : Option Payload :=
  if key == "__proto__" then none else some v.plainValue

theorem plainEntries_eq_mapMembers (entries : List (String × Payload)) :
    plainEntries entries = Js.mapMembers plainMember entries := by
  induction entries with
  | nil => rfl
  | cons entry entries ih =>
      obtain ⟨key, v⟩ := entry
      rw [plainEntries, ih, Js.mapMembers, Js.mapMembers, List.filterMap_cons, plainMember]
      split <;> rfl

end Payload

/-! ## Texts up to the order of keys -/

namespace SameText

theorem refl (a : Option Json) : SameText a a := by
  cases a with
  | none => trivial
  | some a => exact Same.refl a

theorem symm {a b : Option Json} (h : SameText a b) : SameText b a := by
  cases a with
  | none =>
      cases b with
      | none => trivial
      | some b => exact h.elim
  | some a =>
      cases b with
      | none => exact h.elim
      | some b => exact Same.symm h

theorem getD {a b : Option Json} (h : SameText a b) : Same (a.getD .null) (b.getD .null) := by
  cases a with
  | none =>
      cases b with
      | none => exact Same.refl _
      | some b => exact h.elim
  | some a =>
      cases b with
      | none => exact h.elim
      | some b => exact h

end SameText

/-- Objects that hold the same under each key have the same text. -/
theorem same_obj {fields others : List (String × Json)}
    (h : ∀ key, SameText (fields.lookup key) (others.lookup key)) :
    Same (.obj fields) (.obj others) := by
  refine .obj ?_ ?_
  · intro key
    have hkey := h key
    cases ha : fields.lookup key with
    | none =>
        cases hb : others.lookup key with
        | none => rfl
        | some b =>
            rw [ha, hb] at hkey
            exact hkey.elim
    | some a =>
        cases hb : others.lookup key with
        | none =>
            rw [ha, hb] at hkey
            exact hkey.elim
        | some b => rfl
  · intro key v w hv hw
    have hkey := h key
    rw [hv, hw] at hkey
    exact hkey

/-! ## The normalized payload -/

namespace Payload

theorem plain_of_not_undefined {v : Payload} (h : v.isUndefined = false) :
    v.plain = v.plainValue := by
  cases v with
  | undefined => exact absurd h (by decide)
  | null | bool | num | nonFinite | str | unwritten | arr | obj | special => rfl

/-- The items of an array that are `undefined` are written as `null`. -/
theorem getD_plain (v : Payload) : v.plain.toJson.getD .null = v.plainValue.toJson.getD .null := by
  cases v with
  | undefined => rfl
  | null | bool | num | nonFinite | str | unwritten | arr | obj | special => rfl

theorem nodup_normalizeEntries {entries : List (String × Payload)}
    (h : (entries.map Prod.fst).Nodup) : ((normalizeEntries entries).map Prod.fst).Nodup := by
  rw [normalizeEntries_eq_mapMembers]
  exact h.sublist (Js.sublist_mapMembers _ _)

theorem nodup_sortedMembers {entries : List (String × Payload)}
    (h : (entries.map Prod.fst).Nodup) : ((Js.sortedMembers entries).map Prod.fst).Nodup :=
  ((Js.sortedMembers_perm entries).map Prod.fst).nodup_iff.mpr h

/-- The members of a normalized object have the texts of those of the plain one. -/
theorem same_members {entries : List (String × Payload)} (hkeys : (entries.map Prod.fst).Nodup)
    (ih : ∀ entry ∈ entries, SameText entry.2.normalizePayload.toJson entry.2.plain.toJson) :
    Same (.obj (toEntries (Js.sortedMembers (normalizeEntries entries))))
      (.obj (toEntries (plainEntries entries))) := by
  have hnormalized := nodup_normalizeEntries hkeys
  have hplain : ((plainEntries entries).map Prod.fst).Nodup := by
    rw [plainEntries_eq_mapMembers]
    exact hkeys.sublist (Js.sublist_mapMembers _ _)
  apply same_obj
  intro key
  rw [toEntries_eq_mapMembers, toEntries_eq_mapMembers,
    Js.lookup_mapMembers _ (nodup_sortedMembers hnormalized), Js.lookup_mapMembers _ hplain,
    Js.lookup_sortedMembers hnormalized, normalizeEntries_eq_mapMembers,
    plainEntries_eq_mapMembers, Js.lookup_mapMembers _ hkeys, Js.lookup_mapMembers _ hkeys]
  cases hv : entries.lookup key with
  | none => trivial
  | some v =>
      have hmember := ih (key, v) (Json.mem_of_lookup hv)
      simp only [Option.bind_some, normalizeMember, plainMember]
      by_cases hproto : (key == "__proto__") = true
      · rw [hproto, Bool.or_true]
        trivial
      · rw [Bool.not_eq_true] at hproto
        rw [hproto, Bool.or_false]
        cases hundefined : v.isUndefined with
        | false =>
            rw [plain_of_not_undefined hundefined] at hmember
            exact hmember
        | true =>
            cases v with
            | undefined => trivial
            | null | bool | num | nonFinite | str | unwritten | arr | obj | special =>
                exact absurd hundefined (by simp [isUndefined])

/-- Normalizing keeps the text of the plain payload up to the order of keys. -/
theorem sameText_normalizePayload {v : Payload} (h : v.WellFormed) :
    SameText v.normalizePayload.toJson v.plain.toJson := by
  induction v using payload_induction with
  | undefined | null | bool | num | nonFinite | str | unwritten => exact SameText.refl _
  | arr items ih =>
      cases h with
      | arr hitems =>
          show Same (.arr (toItems (normalizeItems items))) (.arr (toItems (plainItems items)))
          rw [toItems_eq_map, toItems_eq_map, normalizeItems_eq_map, plainItems_eq_map,
            List.map_map, List.map_map]
          refine .arr (by rw [List.length_map, List.length_map]) ?_
          intro i a b ha hb
          rw [List.getElem?_map, Option.map_eq_some_iff] at ha hb
          obtain ⟨v, hv, rfl⟩ := ha
          obtain ⟨w, hw, rfl⟩ := hb
          obtain rfl : v = w := Option.some.inj (hv.symm.trans hw)
          have hmem := List.mem_of_getElem? hv
          have hitem := (ih v hmem (hitems v hmem)).getD
          rw [getD_plain] at hitem
          exact hitem
  | obj entries ih =>
      cases h with
      | obj hkeys hvalues =>
          exact same_members hkeys fun entry hentry => ih entry hentry (hvalues entry hentry)
  | special own json ih =>
      cases h with
      | special _ hkeys hvalues =>
          exact same_members hkeys fun entry hentry => ih entry hentry (hvalues entry hentry)

theorem mem_sorted_normalizeEntries {entries : List (String × Payload)} {key : String}
    {w : Payload} (h : (key, w) ∈ Js.sortedMembers (normalizeEntries entries)) :
    ∃ v, (key, v) ∈ entries ∧ w = v.normalizePayload := by
  have hmem := (Js.sortedMembers_perm _).mem_iff.mp h
  rw [normalizeEntries_eq_mapMembers, Js.mem_mapMembers] at hmem
  obtain ⟨v, hv, hnormalized⟩ := hmem
  rw [normalizeMember] at hnormalized
  split at hnormalized
  · exact absurd hnormalized (by simp)
  · exact ⟨v, hv, (Option.some.inj hnormalized).symm⟩

theorem mem_toEntries_sorted {entries : List (String × Payload)} {key : String} {json : Json}
    (h : (key, json) ∈ toEntries (Js.sortedMembers (normalizeEntries entries))) :
    ∃ v, (key, v) ∈ entries ∧ v.normalizePayload.toJson = some json := by
  rw [toEntries_eq_mapMembers, Js.mem_mapMembers] at h
  obtain ⟨w, hw, hjson⟩ := h
  obtain ⟨v, hv, rfl⟩ := mem_sorted_normalizeEntries hw
  exact ⟨v, hv, hjson⟩

theorem pairwise_toEntries_sorted {entries : List (String × Payload)}
    (hkeys : (entries.map Prod.fst).Nodup) :
    (toEntries (Js.sortedMembers (normalizeEntries entries))).Pairwise
      fun a b => Js.keyRank a.1 < Js.keyRank b.1 := by
  rw [toEntries_eq_mapMembers]
  exact Js.pairwise_mapMembers _ (Js.pairwise_sortedMembers (nodup_normalizeEntries hkeys))

theorem text_members {entries : List (String × Payload)} (hkeys : (entries.map Prod.fst).Nodup)
    (ih : ∀ entry ∈ entries, ∀ json, entry.2.normalizePayload.toJson = some json →
      json.Sorted ∧ json.HasNumerals) :
    (Json.obj (toEntries (Js.sortedMembers (normalizeEntries entries)))).Sorted ∧
      (Json.obj (toEntries (Js.sortedMembers (normalizeEntries entries)))).HasNumerals := by
  have hparts : ∀ entry ∈ toEntries (Js.sortedMembers (normalizeEntries entries)),
      entry.2.Sorted ∧ entry.2.HasNumerals := by
    rintro ⟨key, json⟩ hentry
    obtain ⟨v, hv, htext⟩ := mem_toEntries_sorted hentry
    exact ih (key, v) hv json htext
  exact ⟨.obj (pairwise_toEntries_sorted hkeys) fun entry hentry => (hparts entry hentry).1,
    .obj fun entry hentry => (hparts entry hentry).2⟩

/-- The text of a normalized payload lists its keys in order, and its numbers are numbers. -/
theorem text_normalizePayload {v : Payload} (h : v.WellFormed) :
    ∀ json, v.normalizePayload.toJson = some json → json.Sorted ∧ json.HasNumerals := by
  induction v using payload_induction with
  | undefined | null | nonFinite =>
      rintro _ ⟨rfl⟩
      exact ⟨.atom trivial, .null⟩
  | bool b =>
      rintro _ ⟨rfl⟩
      exact ⟨.atom trivial, .bool b⟩
  | num n =>
      rintro _ ⟨rfl⟩
      exact ⟨.atom trivial, .num n.isNumeral⟩
  | str text =>
      rintro _ ⟨rfl⟩
      exact ⟨.atom trivial, .str text⟩
  | unwritten =>
      intro json hjson
      exact absurd hjson (by simp [normalizePayload, toJson])
  | arr items ih =>
      cases h with
      | arr hitems =>
          rintro _ ⟨rfl⟩
          have hparts : ∀ json ∈ toItems (normalizeItems items),
              json.Sorted ∧ json.HasNumerals := by
            intro json hjson
            rw [toItems_eq_map, normalizeItems_eq_map, List.map_map] at hjson
            obtain ⟨v, hv, rfl⟩ := List.mem_map.mp hjson
            show (v.normalizePayload.toJson.getD .null).Sorted ∧
              (v.normalizePayload.toJson.getD .null).HasNumerals
            cases htext : v.normalizePayload.toJson with
            | none => exact ⟨.atom trivial, .null⟩
            | some text => exact ih v hv (hitems v hv) text htext
          exact ⟨.arr fun json hjson => (hparts json hjson).1,
            .arr fun json hjson => (hparts json hjson).2⟩
  | obj entries ih =>
      cases h with
      | obj hkeys hvalues =>
          rintro _ ⟨rfl⟩
          exact text_members hkeys fun entry hentry => ih entry hentry (hvalues entry hentry)
  | special own json ih =>
      cases h with
      | special _ hkeys hvalues =>
          rintro _ ⟨rfl⟩
          exact text_members hkeys fun entry hentry => ih entry hentry (hvalues entry hentry)

end Payload

/-! ## The keys -/

/-- The texts of two normalized payloads are equal when those of the plain payloads are the same. -/
theorem text_eq_iff {v w : Payload} (hv : v.WellFormed) (hw : w.WellFormed) {a b c d : Json}
    (ha : v.normalizePayload.toJson = some a) (hb : w.normalizePayload.toJson = some b)
    (hc : v.plain.toJson = some c) (hd : w.plain.toJson = some d) :
    a.write = b.write ↔ Same c d := by
  obtain ⟨hasorted, hanumerals⟩ := Payload.text_normalizePayload hv a ha
  obtain ⟨hbsorted, hbnumerals⟩ := Payload.text_normalizePayload hw b hb
  have hac : Same a c := by
    have h := Payload.sameText_normalizePayload hv
    rwa [ha, hc] at h
  have hbd : Same b d := by
    have h := Payload.sameText_normalizePayload hw
    rwa [hb, hd] at h
  constructor
  · intro htext
    obtain rfl : a = b := Json.write_injective hanumerals hbnumerals htext
    exact hac.symm.trans hbd
  · intro hsame
    have hab : Same a b := hac.trans (hsame.trans hbd.symm)
    rw [hab.eq_of_sorted hasorted hbsorted]

theorem isSome_plain {v : Payload} (h : v.WellFormed) :
    v.normalizePayload.toJson.isSome = v.plain.toJson.isSome := by
  have hsame := Payload.sameText_normalizePayload h
  cases ha : v.normalizePayload.toJson with
  | none =>
      cases hb : v.plain.toJson with
      | none => rfl
      | some b =>
          rw [ha, hb] at hsame
          exact hsame.elim
  | some a =>
      cases hb : v.plain.toJson with
      | none =>
          rw [ha, hb] at hsame
          exact hsame.elim
      | some b => rfl

/-- The last characters of a key are the hash. -/
theorem key_inj {command other hash hash' : String}
    (hlength : hash.toList.length = hash'.toList.length)
    (h : "microservice:" ++ command ++ ":" ++ hash = "microservice:" ++ other ++ ":" ++ hash') :
    command = other ∧ hash = hash' := by
  have hlist : ("microservice:" ++ command ++ ":").toList ++ hash.toList =
      ("microservice:" ++ other ++ ":").toList ++ hash'.toList := by
    rw [← String.toList_append, ← String.toList_append, h]
  obtain ⟨hfront, hhash⟩ := List.append_inj' hlist hlength
  refine ⟨?_, String.toList_injective hhash⟩
  apply String.toList_injective
  simp only [String.toList_append, List.append_assoc] at hfront
  exact List.append_cancel_right (List.append_cancel_left hfront)

/-- What is documented of the hash, and that it tells two texts apart after it is cut. -/
structure Separates (sha256 : String → String) (r s : Request) : Prop where
  length_eq : ∀ text, (sha256 text).toList.length = 64
  injective : ∀ a b, r.payload.normalizePayload.toJson = some a →
    s.payload.normalizePayload.toJson = some b →
      (sha256 a.write).toList.take 24 = (sha256 b.write).toList.take 24 → a.write = b.write

theorem sameKey_iff {sha256 : String → String} {r s : Request} (hr : r.payload.WellFormed)
    (hs : s.payload.WellFormed) (hhash : Separates sha256 r s) :
    SameKey sha256 r s ↔ r.ReadSame s := by
  constructor
  · rintro ⟨key, hrkey, hskey⟩
    obtain ⟨a, ha, hakey⟩ := Option.map_eq_some_iff.mp hrkey
    obtain ⟨b, hb, hbkey⟩ := Option.map_eq_some_iff.mp hskey
    have hlength : (String.ofList ((sha256 a.write).toList.take 24)).toList.length =
        (String.ofList ((sha256 b.write).toList.take 24)).toList.length := by
      simp [hhash.length_eq]
    obtain ⟨hcommand, hdigest⟩ := key_inj hlength (hakey.trans hbkey.symm)
    have htext := hhash.injective a b ha hb (String.ofList_injective hdigest)
    obtain ⟨c, hc⟩ := Option.isSome_iff_exists.mp (by rw [← isSome_plain hr, ha]; rfl)
    obtain ⟨d, hd⟩ := Option.isSome_iff_exists.mp (by rw [← isSome_plain hs, hb]; rfl)
    exact ⟨hcommand, c, d, hc, hd, (text_eq_iff hr hs ha hb hc hd).mp htext⟩
  · rintro ⟨hcommand, c, d, hc, hd, hsame⟩
    obtain ⟨a, ha⟩ := Option.isSome_iff_exists.mp (by rw [isSome_plain hr, hc]; rfl)
    obtain ⟨b, hb⟩ := Option.isSome_iff_exists.mp (by rw [isSome_plain hs, hd]; rfl)
    have htext := (text_eq_iff hr hs ha hb hc hd).mpr hsame
    refine ⟨_, by rw [generateCacheKey, ha]; rfl, ?_⟩
    rw [generateCacheKey, hb, Option.map_some, Option.getD_none, ← htext, ← hcommand]
    rfl

/-- There are only plain objects in the payload, and no member is called `__proto__`. -/
inductive Payload.IsPlain : Payload → Prop
  | undefined : IsPlain .undefined
  | null : IsPlain .null
  | bool (b : Bool) : IsPlain (.bool b)
  | num (n : Numeral) : IsPlain (.num n)
  | nonFinite : IsPlain .nonFinite
  | str (text : String) : IsPlain (.str text)
  | unwritten : IsPlain .unwritten
  | arr {items : List Payload} (hitems : ∀ v ∈ items, IsPlain v) : IsPlain (.arr items)
  | obj {entries : List (String × Payload)} (hkeys : ∀ entry ∈ entries, entry.1 ≠ "__proto__")
      (hvalues : ∀ entry ∈ entries, IsPlain entry.2) : IsPlain (.obj entries)

theorem Payload.plainEntries_eq_self : ∀ {entries : List (String × Payload)},
    (∀ entry ∈ entries, entry.1 ≠ "__proto__") →
      (∀ entry ∈ entries, entry.2.plainValue = entry.2) → plainEntries entries = entries
  | [], _, _ => rfl
  | (key, v) :: entries, hkeys, hvalues => by
      have hkey : (key == "__proto__") = false :=
        beq_false_of_ne (hkeys (key, v) List.mem_cons_self)
      have hvalue : v.plainValue = v := hvalues (key, v) List.mem_cons_self
      rw [plainEntries, hkey, hvalue,
        plainEntries_eq_self (fun entry he => hkeys entry (List.mem_cons_of_mem _ he))
          (fun entry he => hvalues entry (List.mem_cons_of_mem _ he))]
      rfl

theorem Payload.IsPlain.plainValue_eq {v : Payload} (h : v.IsPlain) : v.plainValue = v := by
  induction h with
  | undefined | null | bool | num | nonFinite | str | unwritten => rfl
  | arr _ ih => rw [plainValue, plainItems_eq_map, List.map_congr_left ih, List.map_id']
  | obj hkeys _ ih => rw [plainValue, plainEntries_eq_self hkeys ih]

theorem Payload.IsPlain.plain_eq {v : Payload} (h : v.IsPlain) (htext : v.toJson.isSome = true) :
    v.plain = v := by
  rw [plain_of_not_undefined, h.plainValue_eq]
  cases h with
  | undefined => exact absurd htext (by decide)
  | null | bool | num | nonFinite | str | unwritten | arr | obj => rfl

/-- Reading the colons as points again gives a command back that has no colon. -/
theorem map_replaceAllChar {cmd : String} (h : ':' ∉ cmd.toList) :
    ((Js.replaceAllChar cmd '.' ":").toList.map fun c => if c = ':' then '.' else c) =
      cmd.toList := by
  rw [Js.replaceAllChar, String.toList_ofList]
  generalize cmd.toList = l at h
  induction l with
  | nil => rfl
  | cons c l ih =>
      rw [List.mem_cons, not_or] at h
      rw [List.flatMap_cons, List.map_append, ih h.2]
      by_cases hc : c = '.'
      · rw [if_pos hc, hc]
        rfl
      · rw [if_neg hc]
        simp [Ne.symm h.1]

/-- For plain payloads, and commands without colons, the keys tell all requests apart. -/
theorem told_of_isPlain {sha256 : String → String} {r s : Request} (hr : r.payload.WellFormed)
    (hs : s.payload.WellFormed) (hhash : Separates sha256 r s) (hrplain : r.payload.IsPlain)
    (hsplain : s.payload.IsPlain) (hrtext : r.payload.toJson.isSome = true)
    (hstext : s.payload.toJson.isSome = true) (hrcmd : ':' ∉ r.cmd.toList)
    (hscmd : ':' ∉ s.cmd.toList) : Told sha256 r s := by
  obtain ⟨a, ha⟩ := Option.isSome_iff_exists.mp hrtext
  obtain ⟨b, hb⟩ := Option.isSome_iff_exists.mp hstext
  rw [Told, sameKey_iff hr hs hhash, Request.ReadSame, Request.Same, hrplain.plain_eq hrtext,
    hsplain.plain_eq hstext, ha, hb]
  apply and_congr
  · constructor
    · intro h
      apply String.toList_injective
      rw [← map_replaceAllChar hrcmd, h, map_replaceAllChar hscmd]
    · intro h
      rw [h]
  · constructor
    · rintro ⟨c, d, ⟨rfl⟩, ⟨rfl⟩, hsame⟩
      exact hsame
    · intro hsame
      exact ⟨a, b, rfl, rfl, hsame⟩

/-! ## The client on plain payloads -/

namespace Payload

mutual

/-- The payload as a value of the client, where there are no dates. -/
def toValue : Payload → JsValue
  | .undefined => .undefined
  | .null => .null
  | .bool b => .bool b
  | .num n => .num n.text
  | .nonFinite => .nonFinite "NaN"
  | .str text => .str text
  | .unwritten => .symbol
  | .arr items => .arr (toValues items)
  | .obj entries => .obj (toMembers entries)
  | .special own _ => .obj (toMembers own)

def toValues : List Payload → List JsValue
  | [] => []
  | v :: items => toValue v :: toValues items

def toMembers : List (String × Payload) → List (String × JsValue)
  | [] => []
  | (key, v) :: entries => (key, toValue v) :: toMembers entries

end

theorem toMembers_eq_map (entries : List (String × Payload)) :
    toMembers entries = entries.map fun entry => (entry.1, entry.2.toValue) := by
  induction entries with
  | nil => rfl
  | cons entry entries ih =>
      obtain ⟨key, v⟩ := entry
      rw [toMembers, ih, List.map_cons]

theorem isUndefined_toValue (v : Payload) : v.toValue.isUndefined = v.isUndefined := by
  cases v <;> rfl

theorem sortKeys_toMembers (entries : List (String × Payload)) :
    sortKeys (toMembers entries) = toMembers (Js.sortedMembers entries) := by
  rw [toMembers_eq_map, toMembers_eq_map]
  exact Js.sortedMembers_map toValue entries

theorem normalizeItems_toValues : ∀ {items : List Payload},
    (∀ v ∈ items, Rpc.normalizePayload v.toValue = .ok v.normalizePayload.toValue) →
      Rpc.normalizeItems (toValues items) = .ok (toValues (normalizeItems items))
  | [], _ => rfl
  | v :: items, h => by
      rw [toValues, Rpc.normalizeItems, h v List.mem_cons_self,
        normalizeItems_toValues fun w hw => h w (List.mem_cons_of_mem _ hw)]
      rfl

theorem normalizeEntries_toMembers : ∀ {entries : List (String × Payload)},
    (∀ entry ∈ entries, entry.1 ≠ "__proto__") →
      (∀ entry ∈ entries,
        Rpc.normalizePayload entry.2.toValue = .ok entry.2.normalizePayload.toValue) →
        Rpc.normalizeEntries (toMembers entries) = .ok (toMembers (normalizeEntries entries))
  | [], _, _ => rfl
  | (key, v) :: entries, hkeys, h => by
      have hkey : (key == "__proto__") = false :=
        beq_false_of_ne (hkeys (key, v) List.mem_cons_self)
      have hvalue : Rpc.normalizePayload v.toValue = .ok v.normalizePayload.toValue :=
        h (key, v) List.mem_cons_self
      have hrest := normalizeEntries_toMembers
        (fun entry he => hkeys entry (List.mem_cons_of_mem _ he))
        (fun entry he => h entry (List.mem_cons_of_mem _ he))
      rw [toMembers, Rpc.normalizeEntries, normalizeEntries, isUndefined_toValue, hkey,
        Bool.or_false]
      cases v.isUndefined with
      | true => exact hrest
      | false =>
          rw [if_neg Bool.false_ne_true, if_neg Bool.false_ne_true, hvalue, hrest]
          rfl

/-- The client normalizes a plain payload as it is normalized here. -/
theorem normalizePayload_toValue {v : Payload} (h : v.IsPlain) :
    Rpc.normalizePayload v.toValue = .ok v.normalizePayload.toValue := by
  induction h with
  | undefined | null | bool | num | nonFinite | str | unwritten => rfl
  | arr _ ih =>
      rw [toValue, Rpc.normalizePayload, normalizeItems_toValues ih]
      rfl
  | obj hkeys _ ih =>
      rw [toValue, Rpc.normalizePayload, normalizeEntries_toMembers hkeys ih, normalizePayload,
        toValue, ← sortKeys_toMembers]
      rfl

theorem isPlain_normalizePayload {v : Payload} (h : v.IsPlain) : v.normalizePayload.IsPlain := by
  induction h with
  | undefined | null => exact .null
  | bool b => exact .bool b
  | num n => exact .num n
  | nonFinite => exact .nonFinite
  | str text => exact .str text
  | unwritten => exact .unwritten
  | arr _ ih =>
      rw [normalizePayload, normalizeItems_eq_map]
      refine .arr ?_
      intro w hw
      obtain ⟨v, hv, rfl⟩ := List.mem_map.mp hw
      exact ih v hv
  | obj hkeys _ ih =>
      rw [normalizePayload]
      refine .obj ?_ ?_
      · rintro ⟨key, w⟩ hentry
        obtain ⟨v, hv, _⟩ := mem_sorted_normalizeEntries hentry
        exact hkeys (key, v) hv
      · rintro ⟨key, w⟩ hentry
        obtain ⟨v, hv, rfl⟩ := mem_sorted_normalizeEntries hentry
        exact ih (key, v) hv

theorem toItems_toValues : ∀ {items : List Payload},
    (∀ v ∈ items, v.toValue.toJson = .ok v.toJson) →
      JsValue.toItems (toValues items) = .ok (toItems items)
  | [], _ => rfl
  | v :: items, h => by
      rw [toValues, JsValue.toItems, h v List.mem_cons_self,
        toItems_toValues fun w hw => h w (List.mem_cons_of_mem _ hw)]
      rfl

theorem toEntries_toMembers : ∀ {entries : List (String × Payload)},
    (∀ entry ∈ entries, entry.2.toValue.toJson = .ok entry.2.toJson) →
      JsValue.toEntries (toMembers entries) = .ok (toEntries entries)
  | [], _ => rfl
  | (key, v) :: entries, h => by
      have hvalue : v.toValue.toJson = .ok v.toJson := h (key, v) List.mem_cons_self
      rw [toMembers, JsValue.toEntries, hvalue,
        toEntries_toMembers fun entry he => h entry (List.mem_cons_of_mem _ he)]
      rfl

theorem toJson_toValue {v : Payload} (h : v.IsPlain) : v.toValue.toJson = .ok v.toJson := by
  induction h with
  | undefined | null | bool | num | nonFinite | str | unwritten => rfl
  | arr _ ih =>
      rw [toValue, JsValue.toJson, toItems_toValues ih]
      rfl
  | obj _ _ ih =>
      rw [toValue, JsValue.toJson, toEntries_toMembers ih]
      rfl

end Payload

/-- For a plain payload this is the key of the client. -/
theorem generateCacheKey_toValue (env : ClientEnv) (cmd : String) {payload : Payload}
    (h : payload.IsPlain) (keyPrefix : Option String) :
    Rpc.generateCacheKey env cmd payload.toValue keyPrefix =
      match generateCacheKey env.sha256 cmd payload keyPrefix with
      | some key => .ok key
      | none => .error .typeError := by
  have hnormal := Payload.normalizePayload_toValue h
  have htext := Payload.toJson_toValue (Payload.isPlain_normalizePayload h)
  rw [Rpc.generateCacheKey, hnormal, generateCacheKey]
  show (payload.normalizePayload.toValue.toJson >>= _) = _
  rw [htext]
  cases payload.normalizePayload.toJson with
  | none => rfl
  | some json => rfl

/-- The digests of two texts. -/
def sampleHash (text : String) : String :=
  if text = "\x7b\"id\":\"7\"\x7d" then
    "389bf6f649e1a6dca027ed7b7d5124457a00a16e130fe39e18474dccf85094b9"
  else if text = "\x7b\"id\":\"8\"\x7d" then
    "41a74a94ec853ee3e0b0672c85a724a99becd6f2750a9be8ab35ffe7ec128299"
  else String.ofList (List.replicate 64 '0')

def findById (id : String) : Request := ⟨"stock.find_by_id", .obj [("id", .str id)]⟩

theorem wellFormed_findById (id : String) : (findById id).payload.WellFormed := by
  refine .obj (by simp) ?_
  intro entry hentry
  obtain rfl := List.mem_singleton.mp hentry
  exact .str id

theorem normalize_findById (id : String) :
    (findById id).payload.normalizePayload.toJson = some (.obj [("id", .str id)]) := by
  have hsort : ∀ member : String × Payload, Js.sortedMembers [member] = [member] :=
    fun member => List.mergeSort_singleton member
  have hmember : Payload.normalizeEntries [("id", .str id)] = [("id", .str id)] := rfl
  rw [findById, Payload.normalizePayload, hmember, hsort]
  rfl

theorem separates_sampleHash : Separates sampleHash (findById "7") (findById "8") where
  length_eq text := by
    rw [sampleHash]
    split
    · decide +kernel
    · split
      · decide +kernel
      · rw [String.toList_ofList, List.length_replicate]
  injective a b ha hb h := by
    rw [normalize_findById] at ha hb
    obtain rfl := Option.some.inj ha
    obtain rfl := Option.some.inj hb
    exact absurd h (by decide +kernel)

theorem ne_of_member {key a b : String} (h : a ≠ b) :
    ¬ Same (.obj [(key, .str a)]) (.obj [(key, .str b)]) := by
  intro hsame
  have hmember : ∀ text : String, [(key, Json.str text)].lookup key = some (.str text) := by
    intro text
    simp
  generalize hfields : [(key, Json.str a)] = fields at hsame
  generalize hothers : [(key, Json.str b)] = others at hsame
  cases hsame with
  | atom h => exact absurd h id
  | obj _ hvalue =>
      exact h (Same.str_inj (hvalue key _ _ (hfields ▸ hmember a) (hothers ▸ hmember b)))

/-- A request whose payload holds a date. -/
def dayReport (day : String) : Request :=
  ⟨"stock.report", .obj [("day", .special [] (.str day))]⟩

theorem wellFormed_dayReport (day : String) : (dayReport day).payload.WellFormed := by
  refine .obj (by simp) ?_
  intro entry hentry
  obtain rfl := List.mem_singleton.mp hentry
  exact .special _ List.nodup_nil (by simp)

end ErpApi.Rpc.CacheKey
