import ErpApi.Basic.JsonOrder
import Mathlib.Data.List.Lex
import Mathlib.Data.List.Nodup

set_option autoImplicit false

/-! # The order in which an object lists its keys

`keys.sort()` compares code units. An object that is filled in this order lists the keys that are
array indices first, by their number, and then the others as they were assigned. Both together are
one order of the keys, that of `keyRank`. A value whose objects list their keys so is the only one
of its members: `Same.eq_of_sorted`.
-/

namespace ErpApi.Js

/-! ## Code units -/

theorem codeUnits_append_inj {c d : Char} {s t : List Nat}
    (h : codeUnits c ++ s = codeUnits d ++ t) : c = d ∧ s = t := by
  have valid : ∀ e : Char, e.toNat < 0xD800 ∨ (0xDFFF < e.toNat ∧ e.toNat < 0x110000) :=
    fun e => e.valid
  have hc := valid c
  have hd := valid d
  -- A character above the first plane starts with a unit that stands for no character.
  have hnat : c.toNat = d.toNat ∧ s = t := by
    rw [codeUnits, codeUnits] at h
    split at h
    · split at h
      · exact List.cons.inj h
      · have hhead : c.toNat = 0xD800 + (d.toNat - 0x10000) / 0x400 := (List.cons.inj h).1
        omega
    · split at h
      · have hhead : 0xD800 + (c.toNat - 0x10000) / 0x400 = d.toNat := (List.cons.inj h).1
        omega
      · obtain ⟨hhigh, hrest⟩ := List.cons.inj h
        obtain ⟨hlow, hend⟩ := List.cons.inj hrest
        exact ⟨by omega, hend⟩
  exact ⟨Char.toNat_inj.mp hnat.1, hnat.2⟩

theorem flatMap_codeUnits_inj : ∀ {a b : List Char},
    a.flatMap codeUnits = b.flatMap codeUnits → a = b
  | [], [], _ => rfl
  | [], d :: b, h => by
      rw [List.flatMap_cons, codeUnits] at h
      split at h <;> exact absurd h (by simp)
  | c :: a, [], h => by
      rw [List.flatMap_cons, codeUnits] at h
      split at h <;> exact absurd h (by simp)
  | c :: a, d :: b, h => by
      rw [List.flatMap_cons, List.flatMap_cons] at h
      obtain ⟨hchar, hrest⟩ := codeUnits_append_inj h
      rw [hchar, flatMap_codeUnits_inj hrest]

/-! ## The order -/

/-- The number of a key that is an array index. -/
def arrayIndex (key : String) : Option Nat :=
  let n := Nat.ofDigitChars 10 key.toList 0
  if toString n = key ∧ n < 4294967295 then some n else none

/-- Where a key stands among others, lexicographically. -/
def keyRank (key : String) : List Nat :=
  match arrayIndex key with
  | some n => [0, n]
  | none => 1 :: key.toList.flatMap codeUnits

theorem toString_arrayIndex {key : String} {n : Nat} (h : arrayIndex key = some n) :
    toString n = key := by
  rw [arrayIndex] at h
  split at h
  · rename_i hkey
    exact Option.some.inj h ▸ hkey.1
  · exact absurd h (by simp)

theorem keyRank_injective : Function.Injective keyRank := by
  intro a b h
  rw [keyRank, keyRank] at h
  cases ha : arrayIndex a with
  | some m =>
      rw [ha] at h
      cases hb : arrayIndex b with
      | some n =>
          rw [hb] at h
          have hmn : m = n := by simpa using h
          rw [← toString_arrayIndex ha, hmn, toString_arrayIndex hb]
      | none =>
          rw [hb] at h
          exact absurd (List.cons.inj h).1 (by decide)
  | none =>
      rw [ha] at h
      cases hb : arrayIndex b with
      | some n =>
          rw [hb] at h
          exact absurd (List.cons.inj h).1 (by decide)
      | none =>
          rw [hb] at h
          exact String.toList_injective (flatMap_codeUnits_inj (List.cons.inj h).2)

section Members

variable {α β : Type}

/-- The members in the order in which an object lists them that got them in the order of
`keys.sort()`. -/
def sortedMembers (members : List (String × α)) : List (String × α) :=
  members.mergeSort fun a b => decide (keyRank a.1 ≤ keyRank b.1)

theorem sortedMembers_perm (members : List (String × α)) :
    (sortedMembers members).Perm members := List.mergeSort_perm members _

theorem sortedMembers_map (f : α → β) (members : List (String × α)) :
    sortedMembers (members.map fun member => (member.1, f member.2)) =
      (sortedMembers members).map fun member => (member.1, f member.2) := by
  rw [sortedMembers, sortedMembers]
  exact (List.map_mergeSort (f := fun member : String × α => (member.1, f member.2))
    fun _ _ _ _ => rfl).symm

/-- Keys that are distinct stand in strict order. -/
theorem pairwise_sortedMembers {members : List (String × α)}
    (h : (members.map Prod.fst).Nodup) :
    (sortedMembers members).Pairwise fun a b => keyRank a.1 < keyRank b.1 := by
  have hdecide : (sortedMembers members).Pairwise fun a b =>
      decide (keyRank a.1 ≤ keyRank b.1) = true := by
    apply List.pairwise_mergeSort
    · intro a b c hab hbc
      rw [decide_eq_true_iff] at hab hbc ⊢
      exact hab.trans hbc
    · intro a b
      rw [Bool.or_eq_true, decide_eq_true_iff, decide_eq_true_iff]
      exact le_total _ _
  have hsorted : (sortedMembers members).Pairwise fun a b => keyRank a.1 ≤ keyRank b.1 :=
    hdecide.imp fun hle => of_decide_eq_true hle
  have hdistinct : ((sortedMembers members).map Prod.fst).Nodup :=
    ((sortedMembers_perm members).map Prod.fst).nodup_iff.mpr h
  have hne : (sortedMembers members).Pairwise fun a b => a.1 ≠ b.1 :=
    List.pairwise_map.mp hdistinct
  exact (hsorted.and hne).imp fun hab => lt_of_le_of_ne hab.1 (keyRank_injective.ne hab.2)

/-! ## Members that are rewritten one by one -/

/-- The members with new values; those without one are left out. -/
def mapMembers (f : String → α → Option β) (members : List (String × α)) : List (String × β) :=
  members.filterMap fun member => (f member.1 member.2).map fun value => (member.1, value)

theorem mem_mapMembers {f : String → α → Option β} {members : List (String × α)} {key : String}
    {value : β} : (key, value) ∈ mapMembers f members ↔
      ∃ v, (key, v) ∈ members ∧ f key v = some value := by
  rw [mapMembers, List.mem_filterMap]
  constructor
  · rintro ⟨⟨k, v⟩, hmem, hvalue⟩
    obtain ⟨w, hw, hpair⟩ := Option.map_eq_some_iff.mp hvalue
    obtain ⟨rfl, rfl⟩ := Prod.mk.inj hpair
    exact ⟨v, hmem, hw⟩
  · rintro ⟨v, hmem, hvalue⟩
    exact ⟨(key, v), hmem, by rw [hvalue]; rfl⟩

theorem sublist_mapMembers (f : String → α → Option β) (members : List (String × α)) :
    ((mapMembers f members).map Prod.fst).Sublist (members.map Prod.fst) := by
  induction members with
  | nil => exact List.Sublist.refl _
  | cons member members ih =>
      rw [mapMembers, List.filterMap_cons]
      cases f member.1 member.2 with
      | none => exact ih.cons _
      | some value => exact ih.cons_cons _

theorem pairwise_mapMembers (f : String → α → Option β) {members : List (String × α)}
    (h : members.Pairwise fun a b => keyRank a.1 < keyRank b.1) :
    (mapMembers f members).Pairwise fun a b => keyRank a.1 < keyRank b.1 := by
  have hkeys : (members.map Prod.fst).Pairwise fun a b => keyRank a < keyRank b :=
    List.pairwise_map.mpr h
  have hfewer := hkeys.sublist (sublist_mapMembers f members)
  rwa [List.pairwise_map] at hfewer

/-- What an object holds under a key, by its members. -/
theorem lookup_eq_some {members : List (String × α)} (h : (members.map Prod.fst).Nodup)
    {key : String} {value : α} : members.lookup key = some value ↔ (key, value) ∈ members :=
  ⟨Json.mem_of_lookup, Json.lookup_of_mem h⟩

theorem lookup_sortedMembers {members : List (String × α)} (h : (members.map Prod.fst).Nodup)
    (key : String) : (sortedMembers members).lookup key = members.lookup key := by
  have hdistinct : ((sortedMembers members).map Prod.fst).Nodup :=
    ((sortedMembers_perm members).map Prod.fst).nodup_iff.mpr h
  apply Option.ext
  intro value
  rw [lookup_eq_some hdistinct, lookup_eq_some h]
  exact (sortedMembers_perm members).mem_iff

theorem lookup_mapMembers (f : String → α → Option β) {members : List (String × α)}
    (h : (members.map Prod.fst).Nodup) (key : String) :
    (mapMembers f members).lookup key = (members.lookup key).bind (f key) := by
  apply Option.ext
  intro value
  rw [lookup_eq_some (h.sublist (sublist_mapMembers f members)), mem_mapMembers,
    Option.bind_eq_some_iff]
  exact exists_congr fun v => and_congr_left fun _ => (lookup_eq_some h).symm

end Members

end ErpApi.Js

namespace ErpApi.Json

/-! ## Values in the order of their keys -/

inductive Sorted : Json → Prop
  | atom {v : Json} (h : v.IsAtom) : Sorted v
  | arr {items : List Json} (hitems : ∀ v ∈ items, Sorted v) : Sorted (.arr items)
  | obj {fields : List (String × Json)}
      (hkeys : fields.Pairwise fun a b => Js.keyRank a.1 < Js.keyRank b.1)
      (hvalues : ∀ entry ∈ fields, Sorted entry.2) : Sorted (.obj fields)

theorem nodup_of_pairwise {fields : List (String × Json)}
    (h : fields.Pairwise fun a b => Js.keyRank a.1 < Js.keyRank b.1) :
    (fields.map Prod.fst).Nodup := by
  rw [List.Nodup, List.pairwise_map]
  exact h.imp fun hlt heq => absurd (heq ▸ hlt) (lt_irrefl _)

/-- Members in order are told by what each key holds. -/
theorem eq_of_lookup {fields others : List (String × Json)}
    (hfields : fields.Pairwise fun a b => Js.keyRank a.1 < Js.keyRank b.1)
    (hothers : others.Pairwise fun a b => Js.keyRank a.1 < Js.keyRank b.1)
    (h : ∀ key, fields.lookup key = others.lookup key) : fields = others := by
  have hnodup := nodup_of_pairwise hfields
  have hnodup' := nodup_of_pairwise hothers
  have hmem : ∀ entry, entry ∈ fields ↔ entry ∈ others := by
    rintro ⟨key, value⟩
    rw [← Js.lookup_eq_some hnodup, ← Js.lookup_eq_some hnodup', h]
  have hperm : fields.Perm others :=
    (List.perm_ext_iff_of_nodup hnodup.of_map hnodup'.of_map).mpr hmem
  refine hperm.eq_of_pairwise ?_ hfields hothers
  intro a b _ _ hab hba
  exact absurd (hab.trans hba) (lt_irrefl _)

theorem Same.eq_of_sorted {v w : Json} (h : Same v w) (hv : v.Sorted) (hw : w.Sorted) : v = w := by
  induction h with
  | atom _ => rfl
  | @arr items others hlength hitem ih =>
      cases hv with
      | atom h => exact absurd h id
      | arr hitems =>
          cases hw with
          | atom h => exact absurd h id
          | arr hothers =>
              congr 1
              apply List.ext_getElem hlength
              intro i hi hi'
              exact ih i _ _ (List.getElem?_eq_getElem hi) (List.getElem?_eq_getElem hi')
                (hitems _ (List.getElem_mem hi)) (hothers _ (List.getElem_mem hi'))
  | @obj fields others hkeys hvalue ih =>
      cases hv with
      | atom h => exact absurd h id
      | obj hfields hvalues =>
          cases hw with
          | atom h => exact absurd h id
          | obj hothers hvalues' =>
              congr 1
              apply eq_of_lookup hfields hothers
              intro key
              cases ha : fields.lookup key with
              | none =>
                  have hnone := hkeys key
                  rw [ha] at hnone
                  exact (Option.isSome_eq_false_iff.mp hnone.symm |> Option.isNone_iff_eq_none.mp).symm
              | some a =>
                  obtain ⟨b, hb⟩ := Same.exists_member hkeys ha
                  rw [hb, ih key a b ha hb (hvalues _ (mem_of_lookup ha))
                    (hvalues' _ (mem_of_lookup hb))]

end ErpApi.Json
