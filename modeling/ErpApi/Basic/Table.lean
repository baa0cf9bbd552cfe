import Mathlib.Data.List.Nodup

set_option autoImplicit false

/-! # Tables with a primary key

A database table as the list of its rows, with the primary-key constraint carried as a
field: `Table ρ key` is a list of rows whose keys are pairwise distinct. The writes below
keep the constraint by construction, so a table that violates it cannot be built.
-/

namespace ErpApi

/-- The rows of a table; the keys are pairwise distinct. -/
structure Table (ρ : Type) {κ : Type} (key : ρ → κ) where
  rows : List ρ
  pk : (rows.map key).Nodup

namespace Table

variable {ρ κ : Type} {key : ρ → κ}

/-- Two rows with one key are the same row. -/
theorem eq_of_key_eq (t : Table ρ key) {r r' : ρ} (hr : r ∈ t.rows) (hr' : r' ∈ t.rows)
    (hk : key r = key r') : r = r' :=
  List.inj_on_of_nodup_map t.pk hr hr' hk

/-- An insert; it fails on a key that is taken. -/
def insert [DecidableEq κ] (t : Table ρ key) (r : ρ) : Option (Table ρ key) :=
  if h : key r ∈ t.rows.map key then none
  else some ⟨t.rows ++ [r], by
    rw [List.map_append, List.map_singleton, List.nodup_append]
    refine ⟨t.pk, List.nodup_singleton _, ?_⟩
    rintro k hk k' hk' rfl
    rw [List.mem_singleton.mp hk'] at hk
    exact h hk⟩

theorem rows_of_insert [DecidableEq κ] {t t' : Table ρ key} {r : ρ} (h : t.insert r = some t') :
    t'.rows = t.rows ++ [r] := by
  unfold insert at h
  split at h
  · cases h
  · rw [← Option.some.inj h]

theorem rows_insert_getD [DecidableEq κ] {t : Table ρ key} {r : ρ} (h : key r ∉ t.rows.map key) :
    ((t.insert r).getD t).rows = t.rows ++ [r] := by
  rw [insert, dif_neg h]
  rfl

/-- An insert of several rows in one statement. -/
def insertMany [DecidableEq κ] (t : Table ρ key) (rows : List ρ) : Option (Table ρ key) :=
  if h : ((t.rows ++ rows).map key).Nodup then some ⟨t.rows ++ rows, h⟩ else none

theorem rows_of_insertMany [DecidableEq κ] {t t' : Table ρ key} {rows : List ρ}
    (h : t.insertMany rows = some t') : t'.rows = t.rows ++ rows := by
  unfold insertMany at h
  split at h
  · rw [← Option.some.inj h]
  · cases h

/-- An update of rows that leaves the keys as they are. -/
def update (t : Table ρ key) (f : ρ → ρ) (hf : ∀ r, key (f r) = key r) : Table ρ key :=
  ⟨t.rows.map f, by
    rw [List.map_map, show key ∘ f = key from funext hf]
    exact t.pk⟩

theorem rows_update (t : Table ρ key) (f : ρ → ρ) (hf : ∀ r, key (f r) = key r) :
    (t.update f hf).rows = t.rows.map f := rfl

theorem update_congr (t : Table ρ key) {f g : ρ → ρ} (hf : ∀ r, key (f r) = key r)
    (hg : ∀ r, key (g r) = key r) (h : ∀ r, f r = g r) : t.update f hf = t.update g hg := by
  obtain rfl : f = g := funext h
  rfl

/-- A delete of the rows that do not satisfy `p`. -/
def filter (t : Table ρ key) (p : ρ → Bool) : Table ρ key :=
  ⟨t.rows.filter p, t.pk.sublist (List.filter_sublist.map key)⟩

theorem filter_congr (t : Table ρ key) {p q : ρ → Bool} (h : ∀ r ∈ t.rows, p r = q r) :
    t.filter p = t.filter q := by
  simp only [filter, List.filter_congr h]

/-! ## Rows by their key -/

section Lookup

variable [DecidableEq κ]

/-- The row with the key. -/
def lookup (t : Table ρ key) (k : κ) : Option ρ := t.rows.find? fun r => key r = k

theorem lookup_eq_some {t : Table ρ key} {k : κ} {r : ρ} :
    t.lookup k = some r ↔ r ∈ t.rows ∧ key r = k := by
  constructor
  · intro h
    exact ⟨List.mem_of_find?_eq_some h, by simpa using List.find?_some h⟩
  · rintro ⟨hmem, hk⟩
    cases hfind : t.lookup k with
    | none =>
        have hno := List.find?_eq_none.mp hfind r hmem
        simp [hk] at hno
    | some r' =>
        have hk' : key r' = k := by simpa using List.find?_some hfind
        rw [t.eq_of_key_eq (List.mem_of_find?_eq_some hfind) hmem (hk'.trans hk.symm)]

theorem lookup_key {t : Table ρ key} {r : ρ} (h : r ∈ t.rows) : t.lookup (key r) = some r :=
  lookup_eq_some.mpr ⟨h, rfl⟩

theorem lookup_eq_none {t : Table ρ key} {k : κ} : t.lookup k = none ↔ k ∉ t.rows.map key := by
  rw [lookup, List.find?_eq_none]
  simp

/-- A key selects at most one row. -/
theorem filter_key (t : Table ρ key) (k : κ) :
    (t.rows.filter fun r => key r = k) = (t.lookup k).toList := by
  obtain ⟨rows, pk⟩ := t
  rw [lookup]
  induction rows with
  | nil => rfl
  | cons r rows ih =>
      obtain ⟨hno, hrest⟩ := List.nodup_cons.mp pk
      have htail : (rows.filter fun r' => key r' = k) =
          (rows.find? fun r' => key r' = k).toList := ih hrest
      show ((r :: rows).filter fun r' => key r' = k) =
        ((r :: rows).find? fun r' => key r' = k).toList
      by_cases hk : key r = k
      · have hnone : (rows.filter fun r' => key r' = k) = [] := by
          rw [List.filter_eq_nil_iff]
          intro r' hr' hk'
          refine hno (List.mem_map.mpr ⟨r', hr', ?_⟩)
          exact (of_decide_eq_true hk').trans hk.symm
        simp [hk, hnone]
      · simp [hk, htail]

theorem lookup_update (t : Table ρ key) (f : ρ → ρ) (hf : ∀ r, key (f r) = key r) (k : κ) :
    (t.update f hf).lookup k = (t.lookup k).map f := by
  cases h : t.lookup k with
  | none =>
      rw [Option.map_none, lookup_eq_none, rows_update, List.map_map,
        show key ∘ f = key from funext hf]
      exact lookup_eq_none.mp h
  | some r =>
      obtain ⟨hmem, hk⟩ := lookup_eq_some.mp h
      exact lookup_eq_some.mpr ⟨List.mem_map_of_mem hmem, (hf r).trans hk⟩

theorem insert_eq_none {t : Table ρ key} {r : ρ} :
    t.insert r = none ↔ ∃ r', t.lookup (key r) = some r' := by
  rw [insert]
  split
  · rename_i hmem
    obtain ⟨r', hr', hk⟩ := List.mem_map.mp hmem
    exact iff_of_true rfl ⟨r', lookup_eq_some.mpr ⟨hr', hk⟩⟩
  · rename_i hno
    refine iff_of_false (fun h => by cases h) ?_
    rintro ⟨r', hr'⟩
    rw [lookup_eq_none.mpr hno] at hr'
    cases hr'

theorem lookup_insert {t t' : Table ρ key} {r : ρ} (h : t.insert r = some t') (k : κ) :
    t'.lookup k = if key r = k then some r else t.lookup k := by
  rw [lookup, rows_of_insert h, List.find?_append]
  by_cases hk : key r = k
  · -- The key was not taken.
    have hnone : t.lookup k = none := by
      cases hfind : t.lookup k with
      | none => rfl
      | some r' =>
          rw [insert_eq_none.mpr ⟨r', hk ▸ hfind⟩] at h
          cases h
    rw [if_pos hk, show t.rows.find? (fun r' => key r' = k) = none from hnone]
    simp [hk]
  · rw [if_neg hk]
    simp [hk, lookup]

/-- The statement `INSERT .. ON CONFLICT (key) DO UPDATE`. -/
def upsert (t : Table ρ key) (r : ρ) (onConflict : ρ → ρ)
    (hf : ∀ r', key (onConflict r') = key r') : Table ρ key :=
  match t.insert r with
  | some t' => t'
  | none =>
      t.update (fun r' => if key r' = key r then onConflict r' else r') fun r' => by
        split
        · exact hf r'
        · rfl

theorem lookup_upsert (t : Table ρ key) (r : ρ) (onConflict : ρ → ρ)
    (hf : ∀ r', key (onConflict r') = key r') (k : κ) :
    (t.upsert r onConflict hf).lookup k =
      if key r = k then some (((t.lookup k).map onConflict).getD r) else t.lookup k := by
  rw [upsert]
  cases hinsert : t.insert r with
  | some t' =>
      rw [lookup_insert hinsert]
      by_cases hk : key r = k
      · cases hfind : t.lookup k with
        | none => simp
        | some r' =>
            rw [insert_eq_none.mpr ⟨r', hk ▸ hfind⟩] at hinsert
            cases hinsert
      · rw [if_neg hk, if_neg hk]
  | none =>
      rw [lookup_update]
      by_cases hk : key r = k
      · obtain ⟨r', hr'⟩ := insert_eq_none.mp hinsert
        have hkey : key r' = key r := (lookup_eq_some.mp hr').2
        rw [if_pos hk, ← hk, hr']
        simp [hkey]
      · rw [if_neg hk]
        cases hfind : t.lookup k with
        | none => rfl
        | some r' =>
            have hne : ¬ key r' = key r := fun h => hk (h ▸ (lookup_eq_some.mp hfind).2)
            simp [hne]

/-- The row is added, or replaces the one with its key. -/
def put (t : Table ρ key) (r : ρ) : Table ρ key :=
  t.upsert r (fun r' => if key r' = key r then r else r') fun r' => by
    split
    · rename_i hkey
      exact hkey.symm
    · rfl

theorem lookup_put (t : Table ρ key) (r : ρ) (k : κ) :
    (t.put r).lookup k = if key r = k then some r else t.lookup k := by
  rw [put, lookup_upsert]
  by_cases hk : key r = k
  · rw [if_pos hk, if_pos hk]
    cases hfind : t.lookup k with
    | none => rfl
    | some r' =>
        have hkey : key r' = key r := (lookup_eq_some.mp hfind).2.trans hk.symm
        rw [Option.map_some, Option.getD_some, if_pos hkey]
  · rw [if_neg hk, if_neg hk]

/-- The rows but the one with the key. -/
def drop (t : Table ρ key) (k : κ) : Table ρ key := t.filter fun r => key r ≠ k

theorem lookup_drop (t : Table ρ key) (k k' : κ) :
    (t.drop k).lookup k' = if k = k' then none else t.lookup k' := by
  rw [drop, filter, lookup, List.find?_filter]
  by_cases hk : k = k'
  · subst hk
    rw [if_pos rfl, List.find?_eq_none]
    intro r _ h
    simp at h
  · rw [if_neg hk, lookup]
    congr 1
    funext r
    by_cases hr : key r = k'
    · have hne : key r ≠ k := fun h => hk (h.symm.trans hr)
      simp [hr, Ne.symm hk]
    · simp [hr]

end Lookup

end Table

end ErpApi
