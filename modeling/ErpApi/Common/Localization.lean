import ErpApi.Basic.JsonOrder

set_option autoImplicit false

/-! # Bilingual fields of responses

A table keeps a text in two languages as two columns, `name_th` and `name_en`; a response has one
member `name` for both. `collapseLocalizedFields` rewrites the objects of a response so, at every
depth. The base of a pair can be the name of another member: then both are assigned to one name,
and the one whose key is listed later stays. `collapses_iff` says for which values the response has
every field.
-/

namespace ErpApi.Localization

open Json (Same)

def thSuffix : String := "_th"

def enSuffix : String := "_en"

def has (source : List (String × Json)) (key : String) : Bool := (source.lookup key).isSome

/-- What `key.slice(0, -suffix.length)` leaves of a key that ends with the suffix. -/
def cut (suffix key : String) : Option String :=
  if suffix.toList.isSuffixOf key.toList then
    some (String.ofList (key.toList.take (key.toList.length - suffix.toList.length)))
  else none

/-- The base of the pair that a key belongs to. -/
def pairBase (source : List (String × Json)) (key : String) : Option String :=
  let th := (cut thSuffix key).filter fun base => has source (base ++ enSuffix)
  let en := (cut enSuffix key).filter fun base => has source (base ++ thSuffix)
  th.or en

def localized (source : List (String × Json)) (base : String) : Json :=
  .obj [("th", (source.lookup (base ++ thSuffix)).getD .null),
    ("en", (source.lookup (base ++ enSuffix)).getD .null)]

/-- The assignment `result[name] = value`. That to `__proto__` makes no member. -/
def setMember (result : List (String × Json)) (name : String) (value : Json) :
    List (String × Json) :=
  if name = "__proto__" then result else Json.assign result name value

mutual

def collapseLocalizedFields : Json → Json
  | .arr items => .arr (collapseItems items)
  | .obj source => .obj (collapseKeys source [] [] source)
  | value => value

def collapseItems : List Json → List Json
  | [] => []
  | item :: items => collapseLocalizedFields item :: collapseItems items

/-- The loop over the keys of `source`. -/
def collapseKeys (source result : List (String × Json)) (handled : List String) :
    List (String × Json) → List (String × Json)
  | [] => result
  | (key, value) :: rest =>
      if handled.contains key then collapseKeys source result handled rest
      else
        match pairBase source key with
        | some base =>
            collapseKeys source (setMember result base (localized source base))
              ((base ++ enSuffix) :: (base ++ thSuffix) :: handled) rest
        | none =>
            collapseKeys source (setMember result key (collapseLocalizedFields value))
              (key :: handled) rest

end

/-! ## The localized form -/

/-- Both columns are there. -/
def IsPair (source : List (String × Json)) (base : String) : Prop :=
  has source (base ++ thSuffix) = true ∧ has source (base ++ enSuffix) = true

def IsPaired (source : List (String × Json)) (key : String) : Prop :=
  ∃ base, IsPair source base ∧ (key = base ++ thSuffix ∨ key = base ++ enSuffix)

/-- The second value holds every field of the first: a member that is in no pair under its own
name, in its localized form, and a pair under its base, as `th` and `en`. -/
inductive Localizes : Json → Json → Prop
  | atom {v : Json} (h : v.IsAtom) : Localizes v v
  | arr {items others : List Json} (hlength : items.length = others.length)
      (hitem : ∀ (i : Nat) (v w : Json), items[i]? = some v → others[i]? = some w →
        Localizes v w) :
      Localizes (.arr items) (.arr others)
  | obj {source out : List (String × Json)}
      (hnames : ∀ name, has out name = true ↔
        IsPair source name ∨ (has source name = true ∧ ¬ IsPaired source name))
      (hmember : ∀ (key : String) (v w : Json), ¬ IsPaired source key →
        source.lookup key = some v → out.lookup key = some w → Localizes v w)
      (hpair : ∀ (base : String) (w : Json), IsPair source base → out.lookup base = some w →
        Same (localized source base) w) :
      Localizes (.obj source) (.obj out)

/-- Nothing in the value is called `__proto__`, and where the base of a pair is also the name of a
member that is in no pair, the localized form of that member is the pair. -/
inductive IsClear : Json → Prop
  | atom {v : Json} (h : v.IsAtom) : IsClear v
  | arr {items : List Json} (hitems : ∀ v ∈ items, IsClear v) : IsClear (.arr items)
  | obj {source : List (String × Json)}
      (hproto : ¬ IsPair source "__proto__" ∧
        (has source "__proto__" = true → IsPaired source "__proto__"))
      (hmember : ∀ (key : String) (v : Json), ¬ IsPaired source key →
        source.lookup key = some v → IsClear v)
      (hclash : ∀ (base : String) (v : Json), IsPair source base → ¬ IsPaired source base →
        source.lookup base = some v → Localizes v (localized source base)) :
      IsClear (.obj source)

/-- The response loses no data, and does not depend on the order of keys. -/
def Collapses (v : Json) : Prop :=
  Localizes v (collapseLocalizedFields v) ∧
    ∀ w, w.WellFormed → Same v w →
      Same (collapseLocalizedFields v) (collapseLocalizedFields w)

/-! ## Localized forms up to the order of keys -/

theorem Localizes.congr {v r s : Json} (h : Localizes v r) (hs : Same r s) : Localizes v s := by
  induction h generalizing s with
  | atom h =>
      cases hs with
      | atom _ => exact .atom h
      | arr _ _ => exact absurd h id
      | obj _ _ => exact absurd h id
  | arr hlength _ ih =>
      cases hs with
      | atom h => exact absurd h id
      | arr hlength' hitem' =>
          refine .arr (hlength.trans hlength') ?_
          intro i a c ha hc
          obtain ⟨b, hb⟩ := Same.exists_item hlength ha
          exact ih i a b ha hb (hitem' i b c hb hc)
  | obj hnames _ hpair ih =>
      cases hs with
      | atom h => exact absurd h id
      | obj hkeys hvalue =>
          refine .obj ?_ ?_ ?_
          · intro name
            rw [has, ← hkeys name]
            exact hnames name
          · intro key a c hplain ha hc
            obtain ⟨b, hb⟩ := Same.exists_member (fun key => (hkeys key).symm) hc
            exact ih key a b hplain ha hb (hvalue key b c hb hc)
          · intro base c hbase hc
            obtain ⟨b, hb⟩ := Same.exists_member (fun key => (hkeys key).symm) hc
            exact (hpair base b hbase hb).trans (hvalue base b c hb hc)

theorem Localizes.item {items others : List Json} (h : Localizes (.arr items) (.arr others))
    {i : Nat} {v w : Json} (hv : items[i]? = some v) (hw : others[i]? = some w) :
    Localizes v w := by
  cases h with
  | atom h => exact absurd h id
  | arr _ hitem => exact hitem i v w hv hw

section Members

variable {source out : List (String × Json)} (h : Localizes (.obj source) (.obj out))

include h

theorem Localizes.has_iff (name : String) : has out name = true ↔
    IsPair source name ∨ (has source name = true ∧ ¬ IsPaired source name) := by
  cases h with
  | atom h => exact absurd h id
  | obj hnames _ _ => exact hnames name

theorem Localizes.member {key : String} {v w : Json} (hplain : ¬ IsPaired source key)
    (hv : source.lookup key = some v) (hw : out.lookup key = some w) : Localizes v w := by
  cases h with
  | atom h => exact absurd h id
  | obj _ hmember _ => exact hmember key v w hplain hv hw

theorem Localizes.pair {base : String} {w : Json} (hpair : IsPair source base)
    (hw : out.lookup base = some w) : Same (localized source base) w := by
  cases h with
  | atom h => exact absurd h id
  | obj _ _ hpairs => exact hpairs base w hpair hw

end Members

/-- A value has one localized form. -/
theorem Localizes.unique {v r s : Json} (h : Localizes v r) (hs : Localizes v s) : Same r s := by
  induction h generalizing s with
  | atom h =>
      cases hs with
      | atom _ => exact .atom h
      | arr _ _ => exact absurd h id
      | obj _ _ _ => exact absurd h id
  | arr hlength _ ih =>
      cases hs with
      | atom h => exact absurd h id
      | arr hlength' hitem' =>
          refine .arr (hlength.symm.trans hlength') ?_
          intro i b c hb hc
          obtain ⟨a, ha⟩ := Same.exists_item hlength.symm hb
          exact ih i a b ha hb (hitem' i a c ha hc)
  | @obj source out hnames _ hpair ih =>
      cases hs with
      | atom h => exact absurd h id
      | obj hnames' hmember' hpair' =>
          refine .obj ?_ ?_
          · intro name
            have hiff := (hnames name).trans (hnames' name).symm
            exact Bool.eq_iff_iff.mpr hiff
          · intro name b c hb hc
            have hhas : has out name = true := by rw [has, hb]; rfl
            rcases (hnames name).mp hhas with hbase | ⟨hsource, hplain⟩
            · exact (hpair name b hbase hb).symm.trans (hpair' name c hbase hc)
            · obtain ⟨a, ha⟩ := Option.isSome_iff_exists.mp hsource
              exact ih name a b hplain ha hb (hmember' name a c hplain ha hc)

/-! ## The keys of a pair -/

theorem cut_eq_some {suffix key base : String} :
    cut suffix key = some base ↔ key = base ++ suffix := by
  rw [cut]
  constructor
  · intro h
    split at h
    · rename_i hsuffix
      obtain ⟨front, hfront⟩ := List.isSuffixOf_iff_suffix.mp hsuffix
      apply String.toList_injective
      rw [← Option.some.inj h, String.toList_append, String.toList_ofList, ← hfront]
      simp
    · exact absurd h (by simp)
  · rintro rfl
    have hsuffix : suffix.toList.isSuffixOf (base ++ suffix).toList = true := by
      rw [List.isSuffixOf_iff_suffix, String.toList_append]
      exact List.suffix_append _ _
    rw [if_pos hsuffix]
    simp

theorem append_suffix_inj {a b suffix : String} (h : a ++ suffix = b ++ suffix) : a = b := by
  have hlist := congrArg String.toList h
  rw [String.toList_append, String.toList_append] at hlist
  exact String.toList_injective (List.append_cancel_right hlist)

theorem thKey_ne_enKey (a b : String) : a ++ thSuffix ≠ b ++ enSuffix := by
  intro h
  have hlast := congrArg (fun key => key.toList.getLast?) h
  simp [thSuffix, enSuffix] at hlast

theorem pairBase_of_isPair {source : List (String × Json)} {base key : String}
    (h : IsPair source base) (hkey : key = base ++ thSuffix ∨ key = base ++ enSuffix) :
    pairBase source key = some base := by
  rcases hkey with rfl | rfl
  · have hcut : cut thSuffix (base ++ thSuffix) = some base := cut_eq_some.mpr rfl
    simp [pairBase, hcut, h.2]
  · have hcut : cut enSuffix (base ++ enSuffix) = some base := cut_eq_some.mpr rfl
    have hth : cut thSuffix (base ++ enSuffix) = none := by
      apply Option.eq_none_iff_forall_ne_some.mpr
      intro other hother
      exact thKey_ne_enKey other base (cut_eq_some.mp hother).symm
    simp [pairBase, hcut, hth, h.1]

theorem isPair_of_pairBase {source : List (String × Json)} {base key : String}
    (hkey : has source key = true) (h : pairBase source key = some base) :
    IsPair source base ∧ (key = base ++ thSuffix ∨ key = base ++ enSuffix) := by
  rcases Option.or_eq_some_iff.mp h with hth | ⟨_, hen⟩
  · obtain ⟨hcut, hother⟩ := Option.filter_eq_some_iff.mp hth
    obtain rfl := cut_eq_some.mp hcut
    exact ⟨⟨hkey, hother⟩, Or.inl rfl⟩
  · obtain ⟨hcut, hother⟩ := Option.filter_eq_some_iff.mp hen
    obtain rfl := cut_eq_some.mp hcut
    exact ⟨⟨hother, hkey⟩, Or.inr rfl⟩

theorem pairBase_eq_none {source : List (String × Json)} {key : String}
    (h : ¬ IsPaired source key) (hkey : has source key = true) : pairBase source key = none := by
  apply Option.eq_none_iff_forall_ne_some.mpr
  intro base hbase
  exact h ⟨base, isPair_of_pairBase hkey hbase⟩

theorem not_isPaired_of_pairBase {source : List (String × Json)} {key : String}
    (h : pairBase source key = none) : ¬ IsPaired source key := by
  rintro ⟨base, hbase, hkey⟩
  rw [pairBase_of_isPair hbase hkey] at h
  exact absurd h (by simp)

/-- The name under which the value of a key is assigned. -/
def nameOf (source : List (String × Json)) (key : String) : String :=
  (pairBase source key).getD key

/-! ## What the loop assigns -/

/-- What is ever assigned to a name. -/
def Offered (source : List (String × Json)) (name : String) (value : Json) : Prop :=
  (IsPair source name ∧ value = localized source name) ∨
    (¬ IsPaired source name ∧ ∃ v, source.lookup name = some v ∧
      value = collapseLocalizedFields v)

structure Progress (source result : List (String × Json)) (keys : List String) : Prop where
  offered : ∀ name value, result.lookup name = some value →
    name ≠ "__proto__" ∧ Offered source name value
  done : ∀ key ∈ keys, nameOf source key ≠ "__proto__" → has result (nameOf source key) = true

theorem Progress.set {source result : List (String × Json)} {keys added : List String}
    (h : Progress source result keys) {name : String} {value : Json}
    (hvalue : Offered source name value) (hadded : ∀ key ∈ added, nameOf source key = name) :
    Progress source (setMember result name value) (added ++ keys) := by
  by_cases hproto : name = "__proto__"
  · rw [setMember, if_pos hproto]
    refine ⟨h.offered, ?_⟩
    intro key hkey hne
    rcases List.mem_append.mp hkey with hnew | hold
    · exact absurd ((hadded key hnew).trans hproto) hne
    · exact h.done key hold hne
  · rw [setMember, if_neg hproto]
    constructor
    · intro other w hw
      rw [Json.lookup_assign] at hw
      by_cases hother : other = name
      · rw [if_pos hother] at hw
        subst hother
        exact ⟨hproto, Option.some.inj hw ▸ hvalue⟩
      · rw [if_neg hother] at hw
        exact h.offered other w hw
    · intro key hkey hne
      rw [has, Json.lookup_assign]
      by_cases hname : nameOf source key = name
      · rw [if_pos hname]
        rfl
      · rw [if_neg hname]
        rcases List.mem_append.mp hkey with hnew | hold
        · exact absurd (hadded key hnew) hname
        · exact h.done key hold hne

theorem Progress.mono {source result : List (String × Json)} {keys fewer : List String}
    (h : Progress source result keys) (hsub : ∀ key ∈ fewer, key ∈ keys) :
    Progress source result fewer :=
  ⟨h.offered, fun key hkey => h.done key (hsub key hkey)⟩

theorem progress_collapseKeys {source : List (String × Json)} :
    ∀ {rest result : List (String × Json)} {handled : List String},
      (∀ entry ∈ rest, source.lookup entry.1 = some entry.2) → Progress source result handled →
        Progress source (collapseKeys source result handled rest) (rest.map Prod.fst ++ handled)
  | [], _, _, _, h => by
      rw [collapseKeys]
      exact h
  | (key, value) :: rest, result, handled, hrest, h => by
      have hkey : source.lookup key = some value := hrest (key, value) List.mem_cons_self
      have hhas : has source key = true := by rw [has, hkey]; rfl
      have htail : ∀ entry ∈ rest, source.lookup entry.1 = some entry.2 :=
        fun entry hentry => hrest entry (List.mem_cons_of_mem _ hentry)
      rw [collapseKeys]
      by_cases hhandled : handled.contains key = true
      · rw [if_pos hhandled]
        apply (progress_collapseKeys htail h).mono
        intro other hother
        rcases List.mem_cons.mp hother with rfl | hother
        · exact List.mem_append_right _ (List.contains_iff_mem.mp hhandled)
        · exact hother
      · rw [if_neg hhandled]
        cases hbase : pairBase source key with
        | some base =>
            obtain ⟨hpair, hends⟩ := isPair_of_pairBase hhas hbase
            have hnames : ∀ other ∈ [base ++ enSuffix, base ++ thSuffix],
                nameOf source other = base := by
              intro other hother
              have hor : other = base ++ thSuffix ∨ other = base ++ enSuffix := by
                rcases List.mem_cons.mp hother with hen | hth
                · exact Or.inr hen
                · exact Or.inl (List.mem_singleton.mp hth)
              rw [nameOf, pairBase_of_isPair hpair hor, Option.getD_some]
            have hstep := h.set (Or.inl ⟨hpair, rfl⟩) hnames
            apply (progress_collapseKeys htail hstep).mono
            intro other hother
            rcases List.mem_cons.mp hother with rfl | hother
            · apply List.mem_append_right
              rcases hends with rfl | rfl
              · simp
              · simp
            · rcases List.mem_append.mp hother with hlater | hold
              · exact List.mem_append_left _ hlater
              · simp [hold]
        | none =>
            have hname : ∀ other ∈ [key], nameOf source other = key := by
              intro other hother
              obtain rfl := List.mem_singleton.mp hother
              rw [nameOf, hbase, Option.getD_none]
            have hstep := h.set
              (Or.inr ⟨not_isPaired_of_pairBase hbase, value, hkey, rfl⟩) hname
            apply (progress_collapseKeys htail hstep).mono
            intro other hother
            rcases List.mem_cons.mp hother with rfl | hother
            · simp
            · rcases List.mem_append.mp hother with hlater | hold
              · exact List.mem_append_left _ hlater
              · simp [hold]

/-- Each name of an object holds something assigned to it, and none but `__proto__` is missing. -/
theorem progress_collapse {source : List (String × Json)} (hkeys : (source.map Prod.fst).Nodup) :
    Progress source (collapseKeys source [] [] source) (source.map Prod.fst) := by
  have hstart : Progress source [] [] :=
    ⟨fun _ _ h => absurd h (by simp), fun _ h => absurd h List.not_mem_nil⟩
  have hrun := progress_collapseKeys (fun _ hentry => Json.lookup_of_mem hkeys hentry) hstart
  rwa [List.append_nil] at hrun

/-- The names of a result, where nothing is called `__proto__`. -/
theorem has_collapse {source : List (String × Json)} (hkeys : (source.map Prod.fst).Nodup)
    (hpair : ¬ IsPair source "__proto__")
    (hplain : has source "__proto__" = true → IsPaired source "__proto__") (name : String) :
    has (collapseKeys source [] [] source) name = true ↔
      IsPair source name ∨ (has source name = true ∧ ¬ IsPaired source name) := by
  have hrun := progress_collapse hkeys
  constructor
  · intro hhas
    obtain ⟨value, hlookup⟩ := Option.isSome_iff_exists.mp hhas
    rcases (hrun.offered name value hlookup).2 with ⟨hname, _⟩ | ⟨hname, v, hv, _⟩
    · exact Or.inl hname
    · refine Or.inr ⟨?_, hname⟩
      rw [has, hv]
      rfl
  · rintro (hname | ⟨hhas, hname⟩)
    · obtain ⟨value, hth⟩ := Option.isSome_iff_exists.mp hname.1
      have hmem : name ++ thSuffix ∈ source.map Prod.fst :=
        List.mem_map.mpr ⟨_, Json.mem_of_lookup hth, rfl⟩
      have hdone := hrun.done _ hmem
      rw [nameOf, pairBase_of_isPair hname (Or.inl rfl), Option.getD_some] at hdone
      exact hdone fun hproto => hpair (hproto ▸ hname)
    · obtain ⟨value, hvalue⟩ := Option.isSome_iff_exists.mp hhas
      have hmem : name ∈ source.map Prod.fst :=
        List.mem_map.mpr ⟨_, Json.mem_of_lookup hvalue, rfl⟩
      have hdone := hrun.done _ hmem
      rw [nameOf, pairBase_eq_none hname hhas, Option.getD_none] at hdone
      exact hdone fun hproto => hname (hproto ▸ hplain (hproto ▸ hhas))

/-! ## Clear values -/

theorem has_congr {source others : List (String × Json)}
    (h : ∀ key, (source.lookup key).isSome = (others.lookup key).isSome) (key : String) :
    has source key = has others key := h key

theorem isPair_congr {source others : List (String × Json)}
    (h : ∀ key, (source.lookup key).isSome = (others.lookup key).isSome) (base : String) :
    IsPair source base ↔ IsPair others base := by
  rw [IsPair, IsPair, has, has, has, has, h, h]

theorem isPaired_congr {source others : List (String × Json)}
    (h : ∀ key, (source.lookup key).isSome = (others.lookup key).isSome) (key : String) :
    IsPaired source key ↔ IsPaired others key :=
  exists_congr fun base => and_congr_left fun _ => isPair_congr h base

theorem same_getD {a b : Option Json} (hsome : a.isSome = b.isSome)
    (h : ∀ v w, a = some v → b = some w → Same v w) : Same (a.getD .null) (b.getD .null) := by
  cases a with
  | none =>
      cases b with
      | none => exact Same.refl _
      | some w => exact absurd hsome (by simp)
  | some v =>
      cases b with
      | none => exact absurd hsome (by simp)
      | some w => exact h v w rfl rfl

theorem same_localized {source others : List (String × Json)}
    (hkeys : ∀ key, (source.lookup key).isSome = (others.lookup key).isSome)
    (hvalue : ∀ (key : String) (v w : Json), source.lookup key = some v →
      others.lookup key = some w → Same v w) (base : String) :
    Same (localized source base) (localized others base) := by
  have hth := same_getD (hkeys (base ++ thSuffix)) (hvalue (base ++ thSuffix))
  have hen := same_getD (hkeys (base ++ enSuffix)) (hvalue (base ++ enSuffix))
  refine .obj ?_ ?_
  · intro key
    simp only [List.lookup_cons]
    cases key == "th" <;> cases key == "en" <;> rfl
  · intro key v w hv hw
    simp only [List.lookup_cons] at hv hw
    cases hkth : key == "th" with
    | true =>
        rw [hkth] at hv hw
        exact Option.some.inj hv ▸ Option.some.inj hw ▸ hth
    | false =>
        rw [hkth] at hv hw
        cases hken : key == "en" with
        | true =>
            rw [hken] at hv hw
            exact Option.some.inj hv ▸ Option.some.inj hw ▸ hen
        | false =>
            rw [hken] at hv
            exact absurd hv (by simp)

theorem getElem?_collapseItems (i : Nat) :
    ∀ items : List Json, (collapseItems items)[i]? = items[i]?.map collapseLocalizedFields := by
  intro items
  induction items generalizing i with
  | nil => rfl
  | cons item items ih =>
      cases i with
      | zero => rfl
      | succ i => exact ih i

theorem length_collapseItems (items : List Json) :
    (collapseItems items).length = items.length := by
  induction items with
  | nil => rfl
  | cons item items ih => exact congrArg Nat.succ ih

theorem collapse_of_isAtom {v : Json} (h : v.IsAtom) : collapseLocalizedFields v = v := by
  cases v with
  | arr items => exact absurd h id
  | obj fields => exact absurd h id
  | null | bool | num | str => rfl

/-- All orders of a clear value collapse to its localized form. -/
theorem IsClear.localizes {v : Json} (h : IsClear v) :
    ∀ {w : Json}, w.WellFormed → Same v w → Localizes v (collapseLocalizedFields w) := by
  induction h with
  | atom h =>
      intro w _ hw
      cases hw with
      | atom _ =>
          rw [collapse_of_isAtom h]
          exact .atom h
      | arr _ _ => exact absurd h id
      | obj _ _ => exact absurd h id
  | arr _ ih =>
      intro w hwf hw
      cases hw with
      | atom h => exact absurd h id
      | @arr items others hlength hitem =>
          rw [collapseLocalizedFields]
          refine .arr (hlength.trans (length_collapseItems others).symm) ?_
          intro i a c ha hc
          rw [getElem?_collapseItems] at hc
          obtain ⟨b, hb, rfl⟩ := Option.map_eq_some_iff.mp hc
          cases hwf with
          | atom h => exact absurd h id
          | arr hitems =>
              exact ih a (List.mem_of_getElem? ha) (hitems b (List.mem_of_getElem? hb))
                (hitem i a b ha hb)
  | @obj source hproto _ hclash ih =>
      intro w hwf hw
      cases hw with
      | atom h => exact absurd h id
      | @obj _ others hkeys hvalue =>
          cases hwf with
          | atom h => exact absurd h id
          | obj hnodup hvalues =>
              have hrun := progress_collapse hnodup
              have hpaired := isPaired_congr hkeys
              -- A member collapses to its localized form, in the other order too.
              have hform : ∀ (name : String) (v w : Json), ¬ IsPaired source name →
                  source.lookup name = some v → others.lookup name = some w →
                    Localizes v (collapseLocalizedFields w) := fun name v w hplain hv hw =>
                ih name v hplain hv (hvalues _ (Json.mem_of_lookup hw)) (hvalue name v w hv hw)
              rw [collapseLocalizedFields]
              refine .obj ?_ ?_ ?_
              · intro name
                rw [isPair_congr hkeys, hpaired, has_congr hkeys]
                apply has_collapse hnodup
                · rw [← isPair_congr hkeys]
                  exact hproto.1
                · rw [← hpaired, ← has_congr hkeys]
                  exact hproto.2
              · intro key v r hplain hv hr
                rcases (hrun.offered key r hr).2 with ⟨hpair, rfl⟩ | ⟨_, w, hw, rfl⟩
                · have hbase := (isPair_congr hkeys key).mpr hpair
                  exact (hclash key v hbase hplain hv).congr (same_localized hkeys hvalue key)
                · exact hform key v w hplain hv hw
              · intro base r hpair hr
                rcases (hrun.offered base r hr).2 with ⟨_, rfl⟩ | ⟨hother, w, hw, rfl⟩
                · exact same_localized hkeys hvalue base
                · obtain ⟨v, hv⟩ := Same.exists_member (fun key => (hkeys key).symm) hw
                  have hplain : ¬ IsPaired source base := fun hp => hother ((hpaired base).mp hp)
                  exact (hclash base v hpair hplain hv).unique (hform base v w hplain hv hw)

/-! ## Moving a member to the end -/

theorem lookup_filter (source : List (String × Json)) (key other : String) :
    (source.filter (·.1 ≠ key)).lookup other =
      if other = key then none else source.lookup other := by
  induction source with
  | nil => simp
  | cons entry rest ih =>
      obtain ⟨k, v⟩ := entry
      by_cases hk : k = key
      · subst hk
        rw [List.filter_cons_of_neg (by simp), ih]
        by_cases hother : other = k
        · rw [if_pos hother, if_pos hother]
        · rw [if_neg hother, if_neg hother, List.lookup_cons, beq_false_of_ne hother]
      · rw [List.filter_cons_of_pos (by simpa using hk)]
        by_cases hother : other = k
        · subst hother
          simp [hk]
        · rw [List.lookup_cons, beq_false_of_ne hother, ih, List.lookup_cons, beq_false_of_ne hother]

/-- The object with the member of `key` at the end, as another value. -/
def moveLast (source : List (String × Json)) (key : String) (value : Json) :
    List (String × Json) :=
  source.filter (·.1 ≠ key) ++ [(key, value)]

theorem lookup_moveLast (source : List (String × Json)) (key : String) (value : Json)
    (other : String) : (moveLast source key value).lookup other =
      if other = key then some value else source.lookup other := by
  rw [moveLast, List.lookup_append, lookup_filter]
  by_cases h : other = key
  · simp [h]
  · simp [h, List.lookup_cons, beq_false_of_ne h]

theorem same_moveLast {source : List (String × Json)} {key : String} {v w : Json}
    (hv : source.lookup key = some v) (hsame : Same v w) :
    Same (.obj source) (.obj (moveLast source key w)) := by
  refine .obj ?_ ?_
  · intro other
    rw [lookup_moveLast]
    by_cases h : other = key
    · rw [if_pos h, h, hv]
      rfl
    · rw [if_neg h]
  · intro other a b ha hb
    rw [lookup_moveLast] at hb
    by_cases h : other = key
    · rw [if_pos h] at hb
      rw [h, hv] at ha
      exact Option.some.inj ha ▸ Option.some.inj hb ▸ hsame
    · rw [if_neg h, ha] at hb
      exact Option.some.inj hb ▸ Same.refl a

theorem notMem_filter (source : List (String × Json)) (key : String) :
    key ∉ (source.filter (·.1 ≠ key)).map Prod.fst := by
  intro hmem
  obtain ⟨entry, hentry, rfl⟩ := List.mem_map.mp hmem
  have hne := (List.mem_filter.mp hentry).2
  simp at hne

theorem wellFormed_moveLast {source : List (String × Json)} {key : String} {w : Json}
    (h : (Json.obj source).WellFormed) (hw : w.WellFormed) :
    (Json.obj (moveLast source key w)).WellFormed := by
  cases h with
  | atom h => exact absurd h id
  | obj hkeys hvalues =>
      refine .obj ?_ ?_
      · rw [moveLast, List.map_append]
        refine List.nodup_append.mpr ⟨?_, by simp, ?_⟩
        · exact hkeys.sublist (List.filter_sublist.map Prod.fst)
        · rintro a ha b hb rfl
          obtain rfl : a = key := by simpa using hb
          exact notMem_filter source a ha
      · intro entry hentry
        rcases List.mem_append.mp hentry with hold | hnew
        · exact hvalues entry (List.mem_filter.mp hold).1
        · obtain rfl := List.mem_singleton.mp hnew
          exact hw

/-- A member in no pair that is listed last is assigned last. -/
theorem collapseKeys_append {source : List (String × Json)} {key : String} {value : Json}
    (hkey : has source key = true) (hplain : ¬ IsPaired source key) :
    ∀ {front result : List (String × Json)} {handled : List String},
      (∀ entry ∈ front, has source entry.1 = true) → key ∉ front.map Prod.fst → key ∉ handled →
        collapseKeys source result handled (front ++ [(key, value)]) =
          setMember (collapseKeys source result handled front) key
            (collapseLocalizedFields value)
  | [], result, handled, _, _, hhandled => by
      have hcontains : ¬ handled.contains key = true :=
        fun h => hhandled (List.contains_iff_mem.mp h)
      have hend : ∀ result handled, collapseKeys source result handled [] = result := by
        intro result handled
        rw [collapseKeys]
      rw [hend, List.nil_append, collapseKeys, if_neg hcontains, pairBase_eq_none hplain hkey]
      exact hend _ _
  | (other, v) :: front, result, handled, hfront, hnotMem, hhandled => by
      have htail : ∀ entry ∈ front, has source entry.1 = true :=
        fun entry hentry => hfront entry (List.mem_cons_of_mem _ hentry)
      have hother : has source other = true := hfront (other, v) List.mem_cons_self
      rw [List.map_cons, List.mem_cons, not_or] at hnotMem
      rw [List.cons_append, collapseKeys, collapseKeys]
      by_cases hcontains : handled.contains other = true
      · rw [if_pos hcontains, if_pos hcontains]
        exact collapseKeys_append hkey hplain htail hnotMem.2 hhandled
      · rw [if_neg hcontains, if_neg hcontains]
        cases hbase : pairBase source other with
        | some base =>
            apply collapseKeys_append hkey hplain htail hnotMem.2
            have hpair := (isPair_of_pairBase hother hbase).1
            intro hmem
            rcases List.mem_cons.mp hmem with hen | hmem
            · exact hplain ⟨base, hpair, Or.inr hen⟩
            · rcases List.mem_cons.mp hmem with hth | hmem
              · exact hplain ⟨base, hpair, Or.inl hth⟩
              · exact hhandled hmem
        | none =>
            apply collapseKeys_append hkey hplain htail hnotMem.2
            intro hmem
            rcases List.mem_cons.mp hmem with rfl | hmem
            · exact hnotMem.1 rfl
            · exact hhandled hmem

theorem lookup_collapse_moveLast {source : List (String × Json)} {key : String} {v w : Json}
    (hv : source.lookup key = some v) (hplain : ¬ IsPaired source key) (hkey : key ≠ "__proto__") :
    (collapseKeys (moveLast source key w) [] [] (moveLast source key w)).lookup key =
      some (collapseLocalizedFields w) := by
  have hsome : ∀ other, (source.lookup other).isSome =
      ((moveLast source key w).lookup other).isSome := by
    intro other
    rw [lookup_moveLast]
    by_cases h : other = key
    · rw [if_pos h, h, hv]
      rfl
    · rw [if_neg h]
  have hmoved : has (moveLast source key w) key = true := by
    rw [has, lookup_moveLast, if_pos rfl]
    rfl
  have hfront : ∀ entry ∈ source.filter (·.1 ≠ key),
      has (moveLast source key w) entry.1 = true := by
    intro entry hentry
    rw [has, ← hsome, List.lookup_isSome_iff]
    exact ⟨entry, (List.mem_filter.mp hentry).1, by simp⟩
  have hlast : collapseKeys (moveLast source key w) [] []
      (source.filter (·.1 ≠ key) ++ [(key, w)]) =
        setMember (collapseKeys (moveLast source key w) [] [] (source.filter (·.1 ≠ key))) key
          (collapseLocalizedFields w) :=
    collapseKeys_append hmoved (fun hp => hplain ((isPaired_congr hsome key).mpr hp)) hfront
      (notMem_filter source key) List.not_mem_nil
  rw [moveLast] at hlast ⊢
  rw [hlast, setMember, if_neg hkey, Json.lookup_assign, if_pos rfl]

/-! ## The values that keep their data -/

/-- All orders of the value collapse to its localized form. -/
def Keeps (v : Json) : Prop :=
  ∀ w, w.WellFormed → Same v w → Localizes v (collapseLocalizedFields w)

theorem collapses_iff_keeps {v : Json} (hv : v.WellFormed) : Collapses v ↔ Keeps v := by
  constructor
  · intro h w hw hsame
    exact h.1.congr (h.2 w hw hsame)
  · intro h
    have hself := h v hv (Same.refl v)
    exact ⟨hself, fun w hw hsame => hself.unique (h w hw hsame)⟩

theorem Keeps.item {items : List Json} (hwf : (Json.arr items).WellFormed)
    (h : Keeps (.arr items)) {i : Nat} {v : Json} (hv : items[i]? = some v) : Keeps v := by
  intro w hw hsame
  obtain ⟨hi, _⟩ := List.getElem?_eq_some_iff.mp hv
  have hset : (Json.arr (items.set i w)).WellFormed := by
    cases hwf with
    | atom h => exact absurd h id
    | arr hitems =>
        refine .arr ?_
        intro x hx
        rcases List.mem_or_eq_of_mem_set hx with hold | rfl
        · exact hitems x hold
        · exact hw
  have harr : Same (.arr items) (.arr (items.set i w)) := by
    refine .arr List.length_set.symm ?_
    intro j a b ha hb
    by_cases hij : i = j
    · subst hij
      rw [List.getElem?_set_self hi] at hb
      rw [hv] at ha
      exact Option.some.inj ha ▸ Option.some.inj hb ▸ hsame
    · rw [List.getElem?_set_ne hij, ha] at hb
      exact Option.some.inj hb ▸ Same.refl a
  have hform := h _ hset harr
  rw [collapseLocalizedFields] at hform
  apply hform.item hv
  rw [getElem?_collapseItems, List.getElem?_set_self hi]
  rfl

/-- Without a member called `__proto__`, the localized form has no name `__proto__`. -/
theorem Keeps.proto {source : List (String × Json)} (hwf : (Json.obj source).WellFormed)
    (h : Keeps (.obj source)) :
    ¬ IsPair source "__proto__" ∧ (has source "__proto__" = true → IsPaired source "__proto__") := by
  have hform := h _ hwf (Same.refl _)
  rw [collapseLocalizedFields] at hform
  cases hwf with
  | atom h => exact absurd h id
  | obj hnodup _ =>
      have hrun := progress_collapse hnodup
      have hmissing : ¬ has (collapseKeys source [] [] source) "__proto__" = true := by
        intro hhas
        obtain ⟨value, hlookup⟩ := Option.isSome_iff_exists.mp hhas
        exact (hrun.offered _ value hlookup).1 rfl
      have hnot := fun hname => hmissing ((hform.has_iff "__proto__").mpr hname)
      refine ⟨fun hpair => hnot (Or.inl hpair), ?_⟩
      intro hhas
      by_contra hplain
      exact hnot (Or.inr ⟨hhas, hplain⟩)

theorem Keeps.member {source : List (String × Json)} (hwf : (Json.obj source).WellFormed)
    (h : Keeps (.obj source)) {key : String} {v : Json} (hplain : ¬ IsPaired source key)
    (hv : source.lookup key = some v) : Keeps v := by
  intro w hw hsame
  have hkey : key ≠ "__proto__" := by
    rintro rfl
    exact hplain ((h.proto hwf).2 (by rw [has, hv]; rfl))
  have hform := h _ (wellFormed_moveLast hwf hw) (same_moveLast hv hsame)
  rw [collapseLocalizedFields] at hform
  exact hform.member hplain hv (lookup_collapse_moveLast hv hplain hkey)

/-- A member with the name of a pair is assigned after it when it is listed last. -/
theorem Keeps.clash {source : List (String × Json)} (hwf : (Json.obj source).WellFormed)
    (h : Keeps (.obj source)) {base : String} {v : Json} (hpair : IsPair source base)
    (hplain : ¬ IsPaired source base) (hv : source.lookup base = some v) :
    Localizes v (localized source base) := by
  have hvalue : v.WellFormed := by
    cases hwf with
    | atom h => exact absurd h id
    | obj _ hvalues => exact hvalues _ (Json.mem_of_lookup hv)
  have hbase : base ≠ "__proto__" := fun hproto => (h.proto hwf).1 (hproto ▸ hpair)
  have hform := h _ (wellFormed_moveLast hwf hvalue) (same_moveLast hv (Same.refl v))
  rw [collapseLocalizedFields] at hform
  have hlast : (collapseKeys (moveLast source base v) [] [] (moveLast source base v)).lookup base =
      some (collapseLocalizedFields v) := lookup_collapse_moveLast hv hplain hbase
  exact (hform.member hplain hv hlast).congr (hform.pair hpair hlast).symm

theorem Keeps.isClear {v : Json} (hwf : v.WellFormed) (h : Keeps v) : IsClear v := by
  induction v using Json.parts_induction with
  | atom v hatom => exact .atom hatom
  | arr items ih =>
      refine .arr ?_
      intro item hitem
      obtain ⟨i, hi⟩ := List.getElem?_of_mem hitem
      cases hwf with
      | atom h => exact absurd h id
      | arr hitems => exact ih item hitem (hitems item hitem) (h.item (.arr hitems) hi)
  | obj source ih =>
      refine .obj (h.proto hwf) ?_ ?_
      · intro key v hplain hv
        have hmem := Json.mem_of_lookup hv
        have hkeeps := h.member hwf hplain hv
        cases hwf with
        | atom h => exact absurd h id
        | obj _ hvalues => exact ih (key, v) hmem (hvalues _ hmem) hkeeps
      · intro base v hpair hplain hv
        exact h.clash hwf hpair hplain hv

/-- The response keeps all data, whatever the order of keys, exactly for the clear values. -/
theorem collapses_iff (v : Json) (hv : v.WellFormed) : Collapses v ↔ IsClear v := by
  rw [collapses_iff_keeps hv]
  constructor
  · exact Keeps.isClear hv
  · intro h w hw hsame
    exact h.localizes hw hsame

/-- A unit with its names in two languages. -/
def unit : List (String × Json) :=
  [("code", .str "KG"), ("name_th", .str "กก."), ("name_en", .null)]

theorem wellFormed_of_atoms {source : List (String × Json)} (hkeys : (source.map Prod.fst).Nodup)
    (hatoms : ∀ entry ∈ source, entry.2.IsAtom) : (Json.obj source).WellFormed :=
  .obj hkeys fun entry hentry => .atom (hatoms entry hentry)

theorem unit_atoms : ∀ entry ∈ unit, entry.2.IsAtom := by
  intro entry hentry
  simp only [unit, List.mem_cons, List.not_mem_nil, or_false] at hentry
  rcases hentry with rfl | rfl | rfl <;> trivial

theorem unit_collapses : (Json.obj unit).WellFormed ∧ Collapses (.obj unit) := by
  have hwf : (Json.obj unit).WellFormed := wellFormed_of_atoms (by decide +kernel) unit_atoms
  refine ⟨hwf, (collapses_iff (.obj unit) hwf).mpr (.obj ⟨?_, ?_⟩ ?_ ?_)⟩
  · intro hpair
    exact absurd hpair.1 (by decide +kernel)
  · intro hhas
    exact absurd hhas (by decide +kernel)
  · intro key v _ hv
    exact .atom (unit_atoms _ (Json.mem_of_lookup hv))
  · intro base v hpair _ hv
    have hmem := Json.mem_of_lookup hv
    simp only [unit, List.mem_cons, List.not_mem_nil, or_false, Prod.mk.injEq] at hmem
    rcases hmem with ⟨rfl, _⟩ | ⟨rfl, _⟩ | ⟨rfl, _⟩
    · exact absurd hpair.1 (by decide +kernel)
    · exact absurd hpair.1 (by decide +kernel)
    · exact absurd hpair.1 (by decide +kernel)

/-- A unit that has a plain name as well. -/
def namedUnit : List (String × Json) :=
  [("name", .str "kilo"), ("name_th", .str "กก."), ("name_en", .str "kg")]

/-- The plain name is lost. With its key at the end, it is the pair that is lost. -/
theorem namedUnit_loses :
    (Json.obj namedUnit).WellFormed ∧ ¬ Collapses (.obj namedUnit) ∧
      collapseLocalizedFields (.obj namedUnit) =
        .obj [("name", .obj [("th", .str "กก."), ("en", .str "kg")])] ∧
      collapseLocalizedFields (.obj (moveLast namedUnit "name" (.str "kilo"))) =
        .obj [("name", .str "kilo")] := by
  have hresult : collapseLocalizedFields (.obj namedUnit) =
      .obj [("name", .obj [("th", .str "กก."), ("en", .str "kg")])] := by decide +kernel
  refine ⟨wellFormed_of_atoms (by decide +kernel) ?_, ?_, hresult, by decide +kernel⟩
  · intro entry hentry
    simp only [namedUnit, List.mem_cons, List.not_mem_nil, or_false] at hentry
    rcases hentry with rfl | rfl | rfl <;> trivial
  · intro h
    have hform := h.1
    rw [hresult] at hform
    have hplain : ¬ IsPaired namedUnit "name" := not_isPaired_of_pairBase (by decide +kernel)
    have hname : Localizes (.str "kilo") (.obj [("th", .str "กก."), ("en", .str "kg")]) :=
      hform.member hplain rfl rfl
    cases hname

end ErpApi.Localization
