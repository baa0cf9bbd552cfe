import ErpApi.Query.ConditionMeaning

set_option autoImplicit false

/-! # The where value selects the rows that satisfy the conditions

A where object represents a list of parts, each a leaf at its path: a property of leaves that a
collision of two settled leaves splits into the two holds throughout the object exactly when it
holds of every part (`Represents`). One part represents itself, and the merge of two objects
represents the parts of both, unless a part of one lies above a part of the other, or two parts
at one path are not both settled.

The conditions of a query that avoid this keep their meaning through all merges
(`applyFilters_selects_iff`). Others do not: an empty operator object is dropped when a filter
names the same column (`empty_condition_dropped`).
-/

namespace ErpApi.Query

open ErpApi.ObjectTree

/-! ## Objects that represent parts -/

structure Part where
  path : List String
  leaf : Leaf

/-- One path lies strictly above the other. -/
def Nested (p q : List String) : Prop := (p <+: q ∨ q <+: p) ∧ p ≠ q

instance (p q : List String) : Decidable (Nested p q) := inferInstanceAs (Decidable (_ ∧ _))

/-- Parts that can be merged: apart from each other, or settled at one path. -/
def Part.Compatible (p q : Part) : Prop :=
  (p.path = q.path → p.leaf.isSettled = true ∧ q.leaf.isSettled = true) ∧ ¬ Nested p.path q.path

/-- A property that the collision of settled leaves splits. -/
def Conjunctive (P : List String → Leaf → Prop) : Prop :=
  ∀ path a b, a.isSettled = true → b.isSettled = true →
    (P path (mergeRule.collide (.leaf a) (.leaf b)) ↔ P path a ∧ P path b)

/-- Where the leaves of an object lie, and what they still are. -/
def LeafOf (ps : List Part) (path : List String) (leaf : Leaf) : Prop :=
  (∃ p ∈ ps, p.path = path) ∧ leaf.isNull = false ∧
    (leaf.isSettled = true ∨ ∃ p ∈ ps, p.path = path ∧ p.leaf.isSettled = false)

/-- Where the objects inside an object lie. -/
def ObjectOf (ps : List Part) (path : List String) : Prop :=
  ∃ p ∈ ps, path <+: p.path ∧ path ≠ p.path

structure Represents (ps : List Part) (t : WhereObject) : Prop where
  distinct : t.Distinct
  places : t.All (LeafOf ps) (ObjectOf ps) []
  meaning : ∀ {P : List String → Leaf → Prop}, Conjunctive P →
    (t.All P (fun _ => True) [] ↔ ∀ p ∈ ps, P p.path p.leaf)

theorem LeafOf.mono {ps qs : List Part} (h : ps ⊆ qs) {path : List String} {leaf : Leaf}
    (hleaf : LeafOf ps path leaf) : LeafOf qs path leaf := by
  obtain ⟨⟨p, hp, hpath⟩, hnull, hsettled⟩ := hleaf
  refine ⟨⟨p, h hp, hpath⟩, hnull, ?_⟩
  rcases hsettled with hs | ⟨q, hq, hq'⟩
  · exact .inl hs
  · exact .inr ⟨q, h hq, hq'⟩

theorem ObjectOf.mono {ps qs : List Part} (h : ps ⊆ qs) {path : List String}
    (hobj : ObjectOf ps path) : ObjectOf qs path := by
  obtain ⟨p, hp, hpath⟩ := hobj
  exact ⟨p, h hp, hpath⟩

theorem Represents.nil : Represents [] .nil where
  distinct := trivial
  places := trivial
  meaning := by
    intro P _
    simp [Fields.All]

theorem Represents.single {p : Part} (hpath : p.path ≠ []) (hnull : p.leaf.isNull = false) :
    Represents [p] (Fields.single p.leaf p.path) where
  distinct := Fields.distinct_single p.leaf p.path
  places := by
    apply Fields.all_single
    · refine ⟨⟨p, by simp, rfl⟩, hnull, ?_⟩
      cases hs : p.leaf.isSettled with
      | true => exact .inl rfl
      | false => exact .inr ⟨p, by simp, rfl, hs⟩
    · intro path hpre hne
      exact ⟨p, by simp, hpre, hne⟩
  meaning := by
    intro P _
    rw [List.forall_mem_singleton]
    constructor
    · intro hall
      exact Fields.leaf_of_all_single [] p.path hpath hall
    · intro hp
      exact Fields.all_single [] p.path hp (fun _ _ _ => trivial)

section Merge

variable {ps qs : List Part} {t u : WhereObject}

/-- Settled leaves count as values. -/
theorem absent_of_isSettled {leaf : Leaf} (h : leaf.isSettled = true) :
    mergeRule.absent leaf = false := by
  cases leaf with
  | undefined => cases h
  | _ => rfl

theorem Represents.compat (ht : Represents ps t) (hu : Represents qs u)
    (h : ∀ p ∈ ps, ∀ q ∈ qs, p.Compatible q) :
    t.Compat (fun a b => a.isSettled = true ∧ b.isSettled = true) u := by
  refine Fields.compat_of_all ?_ ?_ ?_ [] t u ht.places hu.places hu.distinct
  · -- Two leaves at one path: an unsettled one would come from a part of that path.
    rintro path a b ⟨⟨p, hp, hpath⟩, -, ha⟩ ⟨⟨q, hq, hqpath⟩, -, hb⟩
    constructor
    · rcases ha with ha | ⟨p', hp', hp'path, hunsettled⟩
      · exact ha
      · have hsettled := ((h p' hp' q hq).1 (hp'path.trans hqpath.symm)).1
        rw [hunsettled] at hsettled
        cases hsettled
    · rcases hb with hb | ⟨q', hq', hq'path, hunsettled⟩
      · exact hb
      · have hsettled := ((h p hp q' hq').1 (hpath.trans hq'path.symm)).2
        rw [hunsettled] at hsettled
        cases hsettled
  · rintro path a ⟨⟨p, hp, rfl⟩, -⟩ ⟨q, hq, hpre, hne⟩
    exact (h p hp q hq).2 ⟨.inl hpre, hne⟩
  · rintro path b ⟨p, hp, hpre, hne⟩ ⟨⟨q, hq, rfl⟩, -⟩
    exact (h p hp q hq).2 ⟨.inr hpre, fun heq => hne heq.symm⟩

/-- **A merge represents the parts of both objects.** -/
theorem Represents.merge (ht : Represents ps t) (hu : Represents qs u)
    (h : ∀ p ∈ ps, ∀ q ∈ qs, p.Compatible q) : Represents (ps ++ qs) (deepMerge t u) := by
  have hcompat := ht.compat hu h
  constructor
  · exact Fields.distinct_merge mergeRule t u ht.distinct hu.distinct
  · rw [deepMerge, Fields.all_merge ?_ [] t u hcompat]
    · constructor
      · exact Fields.All.imp (fun _ _ => LeafOf.mono (List.subset_append_left ps qs))
          (fun _ => ObjectOf.mono (List.subset_append_left ps qs)) [] t ht.places
      · exact Fields.All.imp (fun _ _ => LeafOf.mono (List.subset_append_right ps qs))
          (fun _ => ObjectOf.mono (List.subset_append_right ps qs)) [] u hu.places
    · rintro path a b ⟨ha, hb⟩
      refine ⟨absent_of_isSettled ha, ?_⟩
      constructor
      · rintro ⟨hp, -, -⟩
        exact ⟨⟨hp, isNull_of_isSettled ha, .inl ha⟩, hp, isNull_of_isSettled hb, .inl hb⟩
      · rintro ⟨⟨hp, -⟩, -⟩
        exact ⟨hp, rfl, .inl rfl⟩
  · intro P hP
    rw [deepMerge, Fields.all_merge ?_ [] t u hcompat, ht.meaning hP, hu.meaning hP,
      List.forall_mem_append]
    rintro path a b ⟨ha, hb⟩
    exact ⟨absent_of_isSettled ha, hP path a b ha hb⟩

end Merge

/-! ## Normalising -/

def Part.transform (p : Part) : Part := ⟨p.path, transformNullValue p.leaf⟩

theorem Represents.transform {ps : List Part} {t : WhereObject} (h : Represents ps t) :
    Represents (ps.map Part.transform) (transformNullValues t) where
  distinct := Fields.distinct_map transformNullValue t h.distinct
  places := by
    rw [transformNullValues, Fields.all_map]
    refine Fields.All.imp ?_ ?_ [] t h.places
    · rintro path leaf ⟨⟨p, hp, hpath⟩, hnull, -⟩
      have hsettled := isSettled_transformNullValue hnull
      exact ⟨⟨p.transform, List.mem_map_of_mem hp, hpath⟩, isNull_of_isSettled hsettled,
        .inl hsettled⟩
    · rintro path ⟨p, hp, hpath⟩
      exact ⟨p.transform, List.mem_map_of_mem hp, hpath⟩
  meaning := by
    intro P hP
    have hPT : Conjunctive fun path leaf => P path (transformNullValue leaf) := by
      intro path a b ha hb
      show P path (mergeRule.collide (.leaf a) (.leaf b)) ↔
        P path (transformNullValue a) ∧ P path (transformNullValue b)
      rw [transformNullValue_of_isSettled ha, transformNullValue_of_isSettled hb]
      exact hP path a b ha hb
    rw [transformNullValues, Fields.all_map, h.meaning hPT, List.forall_mem_map]
    rfl

/-! ## The two properties that are used -/

theorem holds_iff_eval_ensure {V : Type} {sql : Sql V} {x : Option V} {leaf : Leaf}
    (h : leaf.isSettled = true) :
    leaf.holds sql x = true ↔ (ensureFindOperator (.leaf leaf)).eval sql x = some true := by
  cases leaf with
  | undefined => cases h
  | operator op => simp [Leaf.holds, ensureFindOperator]
  | value v =>
      cases v with
      | null => cases h
      | _ => simp [Leaf.holds, ensureFindOperator]

theorem conjunctive_holds {V : Type} (sql : Sql V) (row : Row V) :
    Conjunctive fun path leaf => leaf.holds sql (row path) = true := by
  intro path a b ha hb
  show Leaf.holds sql (row path)
      (.operator (.and [ensureFindOperator (.leaf a), ensureFindOperator (.leaf b)])) = true ↔
    a.holds sql (row path) = true ∧ b.holds sql (row path) = true
  rw [holds_iff_eval_ensure rfl, ensureFindOperator, FindOperator.eval_and,
    holds_iff_eval_ensure ha, holds_iff_eval_ensure hb]
  simp

theorem isSkipped_of_isSettled {leaf : Leaf} (h : leaf.isSettled = true) :
    leaf.isSkipped = false := by
  cases leaf with
  | undefined => cases h
  | operator op => rfl
  | value v =>
      cases v with
      | null => cases h
      | _ => rfl

theorem conjunctive_isSkipped : Conjunctive fun _ leaf => leaf.isSkipped = true := by
  intro path a b ha hb
  show Leaf.isSkipped (.operator _) = true ↔ a.isSkipped = true ∧ b.isSkipped = true
  rw [isSkipped_of_isSettled ha, isSkipped_of_isSettled hb]
  simp [Leaf.isSkipped]

theorem Represents.selects_iff {V : Type} {sql : Sql V} {row : Row V} {ps : List Part}
    {t : WhereObject} (h : Represents ps t) :
    t.selects sql row = true ↔ ∀ p ∈ ps, p.leaf.holds sql (row p.path) = true := by
  rw [WhereObject.selects_iff, h.meaning (conjunctive_holds sql row)]

/-- An object with a settled part has a condition. -/
theorem Represents.isBlank_eq_false {ps : List Part} {t : WhereObject} (h : Represents ps t)
    {p : Part} (hp : p ∈ ps) (hsettled : p.leaf.isSettled = true) : t.isBlank = false := by
  rw [Bool.eq_false_iff]
  intro hblank
  rw [WhereObject.isBlank_iff, h.meaning conjunctive_isSkipped] at hblank
  have hskipped := hblank p hp
  rw [isSkipped_of_isSettled hsettled] at hskipped
  cases hskipped

/-! ## The part of a condition -/

section Parts

variable {schema : Schema} {lib : Library} {timezone : String}

/-- A condition and the part that the builder makes of it. -/
def IsPart (schema : Schema) (lib : Library) (timezone : String) (c : Condition) (p : Part) :
    Prop :=
  p.path = wherePath schema c.field ∧ c.leaf schema lib timezone = .ok p.leaf

/-- Conditions that do not disturb each other. -/
def Condition.Apart (schema : Schema) (c d : Condition) : Prop :=
  (wherePath schema c.field = wherePath schema d.field →
    c.isEmptyEquality schema = false ∧ d.isEmptyEquality schema = false) ∧
  ¬ Nested (wherePath schema c.field) (wherePath schema d.field)

theorem IsPart.compatible {c d : Condition} {p q : Part} (hp : IsPart schema lib timezone c p)
    (hq : IsPart schema lib timezone d q) (h : c.Apart schema d) : p.Compatible q := by
  rw [Part.Compatible, hp.1, hq.1]
  refine ⟨?_, h.2⟩
  intro hpath
  obtain ⟨hc, hd⟩ := h.1 hpath
  exact ⟨Condition.leaf_isSettled hc hp.2, Condition.leaf_isSettled hd hq.2⟩

theorem parts_ne_nil (fieldPath : String) : parts fieldPath ≠ [] := by
  rw [parts, Js.split]
  simp [List.splitOn_ne_nil]

theorem parts_of_not_contains {fieldPath : String}
    (h : ¬ fieldPath.toList.contains '.' = true) : parts fieldPath = [fieldPath] := by
  have hmem : '.' ∉ fieldPath.toList := by simpa using h
  rw [parts, Js.split, List.splitOn_eq_singleton hmem]
  simp

theorem wherePath_ne_nil (schema : Schema) (fieldPath : String) :
    wherePath schema fieldPath ≠ [] := by
  rw [wherePath]
  split
  · simp
  · exact parts_ne_nil fieldPath

theorem wherePath_of_plain {fieldPath : String} (h : isJsonbPath schema fieldPath = false) :
    wherePath schema fieldPath = parts fieldPath := by
  simp [wherePath, jsonbTarget, h]

theorem jsonbTarget_eq_some {fieldPath column : String} {jsonPath : List String}
    (h : jsonbTarget schema fieldPath = some (column, jsonPath)) :
    isJsonbPath schema fieldPath = true ∧ parts fieldPath = column :: jsonPath := by
  rw [jsonbTarget] at h
  split at h
  · rename_i hpath
    refine ⟨hpath, ?_⟩
    rw [extractJsonbColumnAndPath] at h
    split at h
    · rename_i c segment rest hparts
      split at h
      · cases h
        exact hparts
      · cases h
    · cases h
  · cases h

/-- No other field shares the place of a field that is not a JSONB path. -/
theorem wherePath_ne {field key : String} (hne : field ≠ key)
    (hplain : isJsonbPath schema key = false) : wherePath schema field ≠ parts key := by
  rw [wherePath]
  split
  · rename_i column jsonPath htarget
    intro heq
    obtain ⟨hpath, hparts⟩ := jsonbTarget_eq_some htarget
    rw [isJsonbPath, hparts] at hpath
    rw [isJsonbPath, ← heq] at hplain
    rw [hplain] at hpath
    cases hpath
  · intro heq
    exact hne (Js.split_injective '.' heq)

/-! ## The loops represent their conditions -/

/-- A loop that adds one condition after the other to a where object. -/
theorem foldlM_represents {γ : Type} {add : WhereObject → γ → Except QueryError WhereObject}
    {cond : γ → Condition} {R : Condition → Condition → Prop}
    (hstep : ∀ {cs : List Condition} {ps : List Part} {t t' : WhereObject} {e : γ},
      List.Forall₂ (IsPart schema lib timezone) cs ps → Represents ps t →
      (∀ c ∈ cs, R c (cond e)) → (cond e).Clean schema → add t e = .ok t' →
      ∃ p, IsPart schema lib timezone (cond e) p ∧ Represents (ps ++ [p]) t') :
    ∀ (l : List γ) {cs : List Condition} {ps : List Part} {t t' : WhereObject},
      List.Forall₂ (IsPart schema lib timezone) cs ps → Represents ps t →
      (cs ++ l.map cond).Pairwise R → (∀ e ∈ l, (cond e).Clean schema) →
      l.foldlM add t = .ok t' →
      ∃ qs, List.Forall₂ (IsPart schema lib timezone) (cs ++ l.map cond) qs ∧
        Represents qs t'
  | [], cs, ps, t, t', hps, ht, _, _, h => by
      obtain rfl := Except.ok.inj h
      exact ⟨ps, by simpa using hps, ht⟩
  | e :: l, cs, ps, t, t', hps, ht, hR, hclean, h => by
      rw [List.foldlM_cons] at h
      obtain ⟨t₁, ht₁, h⟩ := bind_eq_ok.mp h
      have hassoc : cs ++ (e :: l).map cond = (cs ++ [cond e]) ++ l.map cond := by simp
      rw [hassoc] at hR ⊢
      have hRe : ∀ c ∈ cs, R c (cond e) := by
        intro c hc
        rw [List.append_assoc] at hR
        exact (List.pairwise_append.mp hR).2.2 c hc (cond e) (by simp)
      obtain ⟨p, hp, hrep⟩ := hstep hps ht hRe (hclean e List.mem_cons_self) ht₁
      exact foldlM_represents hstep l (List.rel_append hps (.cons hp .nil)) hrep hR
        (fun e' he' => hclean e' (List.mem_cons_of_mem _ he')) h

/-- The parts of conditions that one condition lies apart from. -/
theorem compatible_of_forall₂ {cs : List Condition} {ps : List Part} {d : Condition} {q : Part}
    (hps : List.Forall₂ (IsPart schema lib timezone) cs ps)
    (hq : IsPart schema lib timezone d q) (h : ∀ c ∈ cs, c.Apart schema d) :
    ∀ p ∈ ps, p.Compatible q := by
  intro p hp
  obtain ⟨c, hc, hcp⟩ := exists_of_mem_of_forall₂ hps hp
  exact hcp.compatible hq (h c hc)

theorem path_ne_of_forall₂ {cs : List Condition} {ps : List Part} {path : List String}
    (hps : List.Forall₂ (IsPart schema lib timezone) cs ps)
    (h : ∀ c ∈ cs, wherePath schema c.field ≠ path) : ∀ p ∈ ps, p.path ≠ path := by
  intro p hp
  obtain ⟨c, hc, hcp⟩ := exists_of_mem_of_forall₂ hps hp
  rw [hcp.1]
  exact h c hc

/-- A clean condition names no bare JSONB column. -/
theorem isJsonbPath_of_clean {c : Condition} (hclean : c.Clean schema)
    (h : jsonbTarget schema c.field = none) : isJsonbPath schema c.field = false := by
  rw [Condition.Clean.eq_def] at hclean
  simp only [h] at hclean
  exact hclean.1

/-- An assignment along a path that no part shares or crosses is a merge. -/
theorem Represents.setNestedValue {ps : List Part} {t : WhereObject} (ht : Represents ps t)
    {path : List String} (leaf : Leaf) (hpath : ∀ q ∈ ps, q.path ≠ path)
    (hnested : ∀ q ∈ ps, ¬ Nested q.path path) :
    setNestedValue t path leaf = deepMerge t (Fields.single leaf path) := by
  apply Fields.setPath_eq_merge
  have hsingle : (Fields.single leaf path).All (fun p _ => p = path)
      (fun p => p <+: path ∧ p ≠ path) [] :=
    Fields.all_single [] path rfl (fun _ hpre hne => ⟨hpre, hne⟩)
  refine Fields.compat_of_all ?_ ?_ ?_ [] t _ ht.places hsingle (Fields.distinct_single _ _)
  · rintro p a b ⟨⟨q, hq, hqpath⟩, -⟩ rfl
    exact hpath q hq hqpath
  · rintro p a ⟨⟨q, hq, rfl⟩, -⟩ ⟨hpre, hne⟩
    exact hnested q hq ⟨.inl hpre, hne⟩
  · rintro p b ⟨q, hq, hpre, hne⟩ rfl
    exact hnested q hq ⟨.inr hpre, fun heq => hne heq.symm⟩

theorem Represents.of_isPart {c : Condition} {p : Part} (hclean : c.Clean schema)
    (hp : IsPart schema lib timezone c p) : Represents [p] (Fields.single p.leaf p.path) := by
  refine Represents.single ?_ (Condition.leaf_isNull hclean hp.2)
  rw [hp.1]
  exact wherePath_ne_nil schema c.field

/-- The relation between the conditions of `s`, whose fields are distinct. -/
def SearchApart (schema : Schema) (c d : Condition) : Prop :=
  c.field ≠ d.field ∧ c.Apart schema d

theorem addSearchCondition_represents {cs : List Condition} {ps : List Part}
    {t t' : WhereObject} {entry : String × Json}
    (hps : List.Forall₂ (IsPart schema lib timezone) cs ps) (ht : Represents ps t)
    (hapart : ∀ c ∈ cs, SearchApart schema c (.search entry.1 entry.2))
    (hclean : (Condition.search entry.1 entry.2).Clean schema)
    (h : addSearchCondition schema lib timezone t entry = .ok t') :
    ∃ p, IsPart schema lib timezone (.search entry.1 entry.2) p ∧ Represents (ps ++ [p]) t' := by
  obtain ⟨key, condition⟩ := entry
  -- In both branches the new object is the merge with the part of the condition.
  suffices hmerge : ∃ p, IsPart schema lib timezone (.search key condition) p ∧
      t' = deepMerge t (Fields.single p.leaf p.path) by
    obtain ⟨p, hp, rfl⟩ := hmerge
    refine ⟨p, hp, ht.merge (Represents.of_isPart hclean hp) ?_⟩
    intro q hq p' hp'
    rw [List.mem_singleton] at hp'
    rw [hp']
    exact compatible_of_forall₂ hps hp (fun c hc => (hapart c hc).2) q hq
  cases htarget : jsonbTarget schema key with
  | some target =>
      obtain ⟨column, jsonPath⟩ := target
      have hpath := (jsonbTarget_eq_some htarget).1
      have hextract : extractJsonbColumnAndPath schema key = some (column, jsonPath) := by
        simpa [jsonbTarget, hpath] using htarget
      simp only [addSearchCondition, hpath, if_true, hextract] at h
      obtain ⟨op, hop, h⟩ := bind_eq_ok.mp h
      obtain rfl := Except.ok.inj h
      refine ⟨⟨[column], .operator op⟩, ⟨?_, ?_⟩, rfl⟩
      · simp [wherePath, Condition.field, htarget]
      · simp only [Condition.leaf, Condition.field, htarget, hop]
        rfl
  | none =>
      have hplain : isJsonbPath schema key = false := isJsonbPath_of_clean hclean htarget
      simp only [addSearchCondition, hplain, Bool.false_eq_true, if_false] at h
      obtain ⟨leaf, hleaf, h⟩ := bind_eq_ok.mp h
      have hp : IsPart schema lib timezone (.search key condition) ⟨parts key, leaf⟩ := by
        refine ⟨(wherePath_of_plain hplain).symm, ?_⟩
        simp only [Condition.leaf, Condition.field, htarget]
        exact hleaf
      refine ⟨⟨parts key, leaf⟩, hp, ?_⟩
      have hset : setNestedValue t (parts key) leaf =
          deepMerge t (Fields.single leaf (parts key)) := by
        have hpaths : ∀ q ∈ ps, q.path ≠ parts key :=
          path_ne_of_forall₂ hps fun c hc => wherePath_ne (hapart c hc).1 hplain
        have hnested : ∀ q ∈ ps, ¬ Nested q.path (parts key) := by
          intro q hq
          exact (compatible_of_forall₂ hps hp (fun c hc => (hapart c hc).2) q hq).2
        exact ht.setNestedValue leaf hpaths hnested
      rw [← hset]
      split at h
      · exact (Except.ok.inj h).symm
      · rename_i hdot
        rw [parts_of_not_contains hdot]
        exact (Except.ok.inj h).symm

/-- The object of one filter string has the part of its condition. -/
theorem singleCondition_eq {f : Filter} {w : WhereObject}
    (hclean : (Condition.filter f).Clean schema)
    (h : singleCondition schema lib timezone f = .ok w) :
    ∃ p, IsPart schema lib timezone (.filter f) p ∧ w = Fields.single p.leaf p.path := by
  cases htarget : jsonbTarget schema f.field with
  | some target =>
      obtain ⟨column, jsonPath⟩ := target
      have hpath := (jsonbTarget_eq_some htarget).1
      have hextract : extractJsonbColumnAndPath schema f.field = some (column, jsonPath) := by
        simpa [jsonbTarget, hpath] using htarget
      simp only [singleCondition, hpath, if_true, hextract] at h
      obtain ⟨op, hop, h⟩ := bind_eq_ok.mp h
      obtain rfl := Except.ok.inj h
      refine ⟨⟨[column], .operator (buildJsonbRawCondition jsonPath op f.value)⟩, ⟨?_, ?_⟩, rfl⟩
      · simp [wherePath, Condition.field, htarget]
      · simp only [Condition.leaf, Condition.field, htarget, hop]
        rfl
  | none =>
      have hplain : isJsonbPath schema f.field = false := isJsonbPath_of_clean hclean htarget
      simp only [singleCondition, hplain, Bool.false_eq_true, if_false] at h
      obtain ⟨u, hu, h⟩ := bind_eq_ok.mp h
      obtain ⟨value, hvalue, h⟩ := bind_eq_ok.mp h
      obtain ⟨leaf, hleaf, h⟩ := bind_eq_ok.mp h
      refine ⟨⟨parts f.field, leaf⟩, ⟨(wherePath_of_plain hplain).symm, ?_⟩, ?_⟩
      · simp only [Condition.leaf, Condition.field, htarget]
        exact bind_eq_ok.mpr ⟨u, hu, bind_eq_ok.mpr ⟨value, hvalue, hleaf⟩⟩
      · split at h
        · rw [← Except.ok.inj h]
          exact Fields.setPath_nil mergeRule leaf (parts f.field)
        · rename_i hdot
          rw [← Except.ok.inj h, parts_of_not_contains hdot]
          rfl

theorem addFilter_represents {cs : List Condition} {ps : List Part} {t t' : WhereObject}
    {f : Filter} (hps : List.Forall₂ (IsPart schema lib timezone) cs ps) (ht : Represents ps t)
    (hapart : ∀ c ∈ cs, c.Apart schema (.filter f)) (hclean : (Condition.filter f).Clean schema)
    (h : (do return deepMerge t (← singleCondition schema lib timezone f)) = Except.ok t') :
    ∃ p, IsPart schema lib timezone (.filter f) p ∧ Represents (ps ++ [p]) t' := by
  obtain ⟨w, hw, h⟩ := bind_eq_ok.mp h
  obtain rfl := Except.ok.inj h
  obtain ⟨p, hp, rfl⟩ := singleCondition_eq hclean hw
  refine ⟨p, hp, ht.merge (Represents.of_isPart hclean hp) ?_⟩
  intro q hq p' hp'
  rw [List.mem_singleton] at hp'
  rw [hp']
  exact compatible_of_forall₂ hps hp hapart q hq

end Parts

/-! ## The conditions of a query -/

structure Conditions where
  and : List Condition
  or : List Condition

/-- The conditions that a query states: those of `s` and `filter`, and the alternatives. -/
def QueryParams.conditions (lib : Library) (query : QueryParams) :
    Except QueryError Conditions := do
  let s ← searchConditionsOf lib query.s
  let filter ← parseFilterStrings (normalizeFilterInput query.filter)
  let or ← parseFilterStrings (normalizeOrInput query.or)
  return ⟨s.map (fun entry => .search entry.1 entry.2) ++ filter.map .filter, or.map .filter⟩

/-- Every condition keeps its meaning alone, and no two of them meet in a bad way. -/
structure Conditions.Clean (schema : Schema) (cs : Conditions) : Prop where
  and_clean : ∀ c ∈ cs.and, c.Clean schema
  or_clean : ∀ c ∈ cs.or, c.Clean schema
  and_apart : cs.and.Pairwise (Condition.Apart schema)
  or_apart : ∀ c ∈ cs.and, ∀ d ∈ cs.or,
    ¬ Nested (wherePath schema c.field) (wherePath schema d.field)

/-- Every condition holds, and one of the alternatives if there are any. -/
def Conditions.Satisfied (schema : Schema) (lib : Library) (timezone : String) {V : Type}
    (sql : Sql V) (row : Row V) (cs : Conditions) : Prop :=
  (∀ c ∈ cs.and, c.Holds schema lib timezone sql row) ∧
    (cs.or = [] ∨ ∃ c ∈ cs.or, c.Holds schema lib timezone sql row)

theorem nodup_keys_stripEntries : ∀ (entries : List (String × Json))
    {sanitized : List (String × Json)}, (sanitized.map Prod.fst).Nodup →
    ((stripEntries sanitized entries).map Prod.fst).Nodup
  | [], _, h => by rwa [stripEntries]
  | (key, value) :: rest, _, h => by
      rw [stripEntries]
      split
      · exact nodup_keys_stripEntries rest h
      · exact nodup_keys_stripEntries rest (Json.nodup_keys_assign h key (stripValue value))

theorem nodup_keys_searchConditionsOf {lib : Library} {s : Option Json}
    {entries : List (String × Json)} (h : searchConditionsOf lib s = .ok entries) :
    (entries.map Prod.fst).Nodup := by
  have hstrip : ∀ {obj : Json}, stripDangerousKeys obj = .ok entries →
      (entries.map Prod.fst).Nodup := by
    intro obj hobj
    rw [stripDangerousKeys] at hobj
    split at hobj
    · rw [← Except.ok.inj hobj]
      exact nodup_keys_stripEntries _ List.nodup_nil
    · cases hobj
  have hnil : (pure [] : Except QueryError _) = .ok entries → (entries.map Prod.fst).Nodup := by
    intro hpure
    rw [← Except.ok.inj hpure]
    exact List.nodup_nil
  rw [searchConditionsOf.eq_def] at h
  split at h
  · exact hnil h
  · exact hnil h
  · exact hnil h
  · exact hnil h
  · rw [parseSearchConditions.eq_def] at h
    split at h
    · split at h
      · exact hstrip h
      · cases h
    · exact hstrip h

/-! ## Correctness -/

section Correct

variable {schema : Schema} {lib : Library} {timezone : String}

/-- What the builder reads of `s`. -/
theorem parseSearchParameter_ok {s : Option Json} {t : WhereObject}
    (h : parseSearchParameter schema lib timezone s = .ok t) :
    ∃ entries, searchConditionsOf lib s = .ok entries ∧
      buildSearchWhereClause schema lib timezone entries = .ok t := by
  rw [parseSearchParameter] at h
  split at h
  · rename_i where_ heq
    rw [← Except.ok.inj h]
    exact bind_eq_ok.mp heq
  · cases h

/-- The object built from `s` represents its conditions. -/
theorem parseSearchParameter_represents {s : Option Json} {t : WhereObject}
    {entries : List (String × Json)} (hentries : searchConditionsOf lib s = .ok entries)
    (h : parseSearchParameter schema lib timezone s = .ok t)
    (hclean : ∀ entry ∈ entries, (Condition.search entry.1 entry.2).Clean schema)
    (hapart : (entries.map fun entry => Condition.search entry.1 entry.2).Pairwise
      (Condition.Apart schema)) :
    ∃ ps, List.Forall₂ (IsPart schema lib timezone)
      (entries.map fun entry => Condition.search entry.1 entry.2) ps ∧ Represents ps t := by
  obtain ⟨entries', hentries', hbuild⟩ := parseSearchParameter_ok h
  rw [hentries] at hentries'
  cases hentries'
  obtain ⟨-, -, hfold⟩ := bind_eq_ok.mp hbuild
  -- The keys of an object are distinct, so no assignment overwrites another.
  have hdistinct : (entries.map fun entry => Condition.search entry.1 entry.2).Pairwise
      (SearchApart schema) := by
    refine List.Pairwise.and ?_ hapart
    rw [List.pairwise_map]
    exact List.pairwise_map.mp (nodup_keys_searchConditionsOf hentries)
  exact foldlM_represents addSearchCondition_represents entries List.Forall₂.nil Represents.nil
    hdistinct hclean hfold

theorem buildFilterWhereClause_represents {filters : List Filter} {t : WhereObject}
    (h : buildFilterWhereClause schema lib timezone filters = .ok t)
    (hclean : ∀ f ∈ filters, (Condition.filter f).Clean schema)
    (hapart : (filters.map Condition.filter).Pairwise (Condition.Apart schema)) :
    ∃ ps, List.Forall₂ (IsPart schema lib timezone) (filters.map Condition.filter) ps ∧
      Represents ps t :=
  foldlM_represents addFilter_represents filters List.Forall₂.nil Represents.nil hapart hclean h

/-- What the builder reads of `filter`. -/
theorem parseFilterParameter_ok {filter : Option Json} {t : WhereObject}
    (h : parseFilterParameter schema lib timezone filter = .ok t) :
    ∃ filters, parseFilterStrings (normalizeFilterInput filter) = .ok filters ∧
      buildFilterWhereClause schema lib timezone filters = .ok t := by
  rw [parseFilterParameter] at h
  split at h
  · rename_i hlen
    rw [List.length_eq_zero_iff.mp hlen]
    exact ⟨[], rfl, h⟩
  · obtain ⟨filters, hfilters, h⟩ := bind_eq_ok.mp h
    obtain ⟨-, -, h⟩ := bind_eq_ok.mp h
    exact ⟨filters, hfilters, h⟩

theorem parseOrParameter_ok {or : Option Json} {ts : List WhereObject}
    (h : parseOrParameter schema lib timezone or = .ok ts) :
    ∃ filters, parseFilterStrings (normalizeOrInput or) = .ok filters ∧
      buildOrWhereClause schema lib timezone filters = .ok ts := by
  rw [parseOrParameter] at h
  split at h
  · rename_i hlen
    rw [List.length_eq_zero_iff.mp hlen]
    exact ⟨[], rfl, h⟩
  · obtain ⟨filters, hfilters, h⟩ := bind_eq_ok.mp h
    refine ⟨filters, hfilters, ?_⟩
    split at h
    · rename_i hlen
      rw [List.length_eq_zero_iff.mp hlen]
      exact h
    · obtain ⟨-, -, h⟩ := bind_eq_ok.mp h
      exact h

variable {V : Type} {sql : Sql V} {row : Row V}

/-- A part in place of its condition. -/
theorem IsPart.holds_iff {c : Condition} {p : Part} (hclean : c.Clean schema)
    (hp : IsPart schema lib timezone c p) :
    p.transform.leaf.holds sql (row p.transform.path) = true ↔
      c.Holds schema lib timezone sql row := by
  show (transformNullValue p.leaf).holds sql (row p.path) = true ↔ _
  rw [hp.1]
  exact Condition.holds_leaf hclean hp.2 row

theorem holds_iff_of_forall₂ {cs : List Condition} {ps : List Part}
    (hclean : ∀ c ∈ cs, c.Clean schema)
    (hps : List.Forall₂ (IsPart schema lib timezone) cs ps) :
    (∀ p ∈ ps.map Part.transform, p.leaf.holds sql (row p.path) = true) ↔
      ∀ c ∈ cs, c.Holds schema lib timezone sql row := by
  rw [List.forall_mem_map]
  symm
  apply forall_iff_of_forall₂ ((List.forall₂_and_left _ _).mpr ⟨hclean, hps⟩)
  rintro c p ⟨hc, hp⟩
  exact (hp.holds_iff hc).symm

/-- An alternative, merged into the conditions that hold in any case. -/
theorem alternative_selects {cs : List Condition} {ps : List Part} {t : WhereObject}
    {d : Condition} {q : Part} (hcs : ∀ c ∈ cs, c.Clean schema)
    (hps : List.Forall₂ (IsPart schema lib timezone) cs ps) (ht : Represents ps t)
    (hd : d.Clean schema) (hq : IsPart schema lib timezone d q)
    (hapart : ∀ c ∈ cs, ¬ Nested (wherePath schema c.field) (wherePath schema d.field)) :
    let alternative := deepMerge (transformNullValues t)
      (transformNullValues (Fields.single q.leaf q.path))
    alternative.isBlank = false ∧ (alternative.selects sql row = true ↔
      (∀ c ∈ cs, c.Holds schema lib timezone sql row) ∧
        d.Holds schema lib timezone sql row) := by
  intro alternative
  have hsettled : q.transform.leaf.isSettled = true :=
    isSettled_transformNullValue (Condition.leaf_isNull hd hq.2)
  have hcompat : ∀ p ∈ ps.map Part.transform, ∀ q' ∈ [q].map Part.transform,
      p.Compatible q' := by
    -- All leaves are normalised by now, so equal paths do no harm.
    intro p hp q' hq'
    obtain ⟨p₀, hp₀, rfl⟩ := List.mem_map.mp hp
    obtain rfl : q' = q.transform := by simpa using hq'
    obtain ⟨c, hc, hcp⟩ := exists_of_mem_of_forall₂ hps hp₀
    have hp₀settled : p₀.transform.leaf.isSettled = true :=
      isSettled_transformNullValue (Condition.leaf_isNull (hcs c hc) hcp.2)
    refine ⟨fun _ => ⟨hp₀settled, hsettled⟩, ?_⟩
    show ¬ Nested p₀.path q.path
    rw [hcp.1, hq.1]
    exact hapart c hc
  have hrep : Represents (ps.map Part.transform ++ [q].map Part.transform) alternative :=
    ht.transform.merge (Represents.of_isPart hd hq).transform hcompat
  refine ⟨hrep.isBlank_eq_false (List.mem_append_right _ (by simp)) hsettled, ?_⟩
  rw [hrep.selects_iff, List.forall_mem_append, holds_iff_of_forall₂ hcs hps]
  simp only [List.map_cons, List.map_nil, List.forall_mem_singleton]
  rw [hq.holds_iff hd]

/-- The alternatives, in the order of their conditions. -/
theorem buildOrWhereClause_ok {filters : List Filter} {ts : List WhereObject}
    (h : buildOrWhereClause schema lib timezone filters = .ok ts)
    (hclean : ∀ f ∈ filters, (Condition.filter f).Clean schema) :
    List.Forall₂ (fun d t => d ∈ filters.map Condition.filter ∧
      ∃ q, IsPart schema lib timezone d q ∧
        t = transformNullValues (Fields.single q.leaf q.path))
      (filters.map Condition.filter) ts := by
  rw [List.forall₂_map_left_iff]
  have hall := (List.forall₂_and_left _ _).mpr ⟨fun f hf => hf, mapM_eq_ok.mp h⟩
  refine hall.imp ?_
  rintro f t ⟨hf, ht⟩
  obtain ⟨w, hw, ht⟩ := bind_eq_ok.mp ht
  obtain ⟨q, hq, rfl⟩ := singleCondition_eq (hclean f hf) hw
  exact ⟨List.mem_map_of_mem hf, q, hq, (Except.ok.inj ht).symm⟩

theorem eq_nil_of_keys {t : WhereObject} (h : ¬ t.keys.length > 0) : t = .nil := by
  cases t with
  | nil => rfl
  | cons k v rest => exact absurd (Nat.succ_pos rest.keys.length) h

theorem combineAndOrConditions_nil (t : WhereObject) : combineAndOrConditions t [] = .one t := by
  by_cases hkeys : t.keys.length > 0
  · simp [combineAndOrConditions, hkeys]
  · rw [eq_nil_of_keys hkeys]
    rfl

/-- With alternatives, each is merged into the conditions, also when there are none. -/
theorem combineAndOrConditions_cons (t t' : WhereObject) (ts : List WhereObject)
    (h : ∀ u ∈ t' :: ts, deepMerge .nil u = u) :
    combineAndOrConditions t (t' :: ts) = .any ((t' :: ts).map (deepMerge t)) := by
  by_cases hkeys : t.keys.length > 0
  · simp [combineAndOrConditions, hkeys]
  · obtain rfl := eq_nil_of_keys hkeys
    rw [List.map_congr_left h, List.map_id']
    simp [combineAndOrConditions, Fields.keys]

theorem deepMerge_nil_single (q : Part) :
    deepMerge .nil (transformNullValues (Fields.single q.leaf q.path)) =
      transformNullValues (Fields.single q.leaf q.path) := by
  obtain ⟨path, leaf⟩ := q
  match path with
  | [] => rfl
  | [_] => rfl
  | _ :: _ :: _ => rfl

/-- The where value that is put together from the conditions and the alternatives. -/
theorem combineAndOrConditions_selects {cs ds : List Condition} {ps : List Part}
    {t : WhereObject} {ts : List WhereObject} (hcs : ∀ c ∈ cs, c.Clean schema)
    (hps : List.Forall₂ (IsPart schema lib timezone) cs ps) (ht : Represents ps t)
    (hds : ∀ d ∈ ds, d.Clean schema)
    (hts : List.Forall₂ (fun d t' => d ∈ ds ∧ ∃ q, IsPart schema lib timezone d q ∧
      t' = transformNullValues (Fields.single q.leaf q.path)) ds ts)
    (hapart : ∀ c ∈ cs, ∀ d ∈ ds,
      ¬ Nested (wherePath schema c.field) (wherePath schema d.field)) :
    (combineAndOrConditions (transformNullValues t) ts).selects sql row = true ↔
      Conditions.Satisfied schema lib timezone sql row ⟨cs, ds⟩ := by
  have hand : (transformNullValues t).selects sql row = true ↔
      ∀ c ∈ cs, c.Holds schema lib timezone sql row := by
    rw [ht.transform.selects_iff, holds_iff_of_forall₂ hcs hps]
  have hall := hts
  cases hts with
  | nil =>
      rw [combineAndOrConditions_nil, Where.selects, hand, Conditions.Satisfied]
      simp
  | @cons d t₁ ds ts _ _ =>
      have hsingle : ∀ t' ∈ t₁ :: ts, deepMerge .nil t' = t' := by
        intro t' ht'
        obtain ⟨d', -, -, q, -, rfl⟩ := exists_of_mem_of_forall₂ hall ht'
        exact deepMerge_nil_single q
      have halternative : ∀ d' t', d' ∈ d :: ds ∧ (∃ q, IsPart schema lib timezone d' q ∧
          t' = transformNullValues (Fields.single q.leaf q.path)) →
          (deepMerge (transformNullValues t) t').isBlank = false ∧
          ((deepMerge (transformNullValues t) t').selects sql row = true ↔
            (∀ c ∈ cs, c.Holds schema lib timezone sql row) ∧
              d'.Holds schema lib timezone sql row) := by
        rintro d' t' ⟨hd', q, hq, rfl⟩
        exact alternative_selects hcs hps ht (hds d' hd') hq (fun c hc => hapart c hc d' hd')
      rw [combineAndOrConditions_cons _ _ _ hsingle, Where.selects_any (by simp) ?_]
      · have hexists := exists_iff_of_forall₂ hall
          (fun d' t' h' => ((halternative d' t' h').2).symm)
        rw [Conditions.Satisfied]
        simp only [List.mem_map, exists_exists_and_eq_and, ← hexists, reduceCtorEq, false_or]
        constructor
        · rintro ⟨d', hd', hcs', hholds⟩
          exact ⟨hcs', d', hd', hholds⟩
        · rintro ⟨hcs', d', hd', hholds⟩
          exact ⟨d', hd', hcs', hholds⟩
      · intro fields hfields
        obtain ⟨t', ht', rfl⟩ := List.mem_map.mp hfields
        obtain ⟨d', -, h'⟩ := exists_of_mem_of_forall₂ hall ht'
        exact (halternative d' t' h').1

/-- **The where value selects the rows that satisfy the conditions**, if they are clean. The
parameters of an accepted query state conditions, and for every row of the joined tables the
where value is true exactly when the row satisfies them. -/
theorem applyFilters_selects_iff {query : QueryParams} {where_ : Where}
    (h : applyFilters schema lib query = .ok where_) :
    ∃ conditions, query.conditions lib = .ok conditions ∧ (conditions.Clean schema →
      ∀ {V : Type} (sql : Sql V) (row : Row V), where_.selects sql row = true ↔
        conditions.Satisfied schema lib query.timezoneOrDefault sql row) := by
  obtain ⟨searchObject, hsearch, h⟩ := bind_eq_ok.mp h
  obtain ⟨filterObject, hfilter, h⟩ := bind_eq_ok.mp h
  obtain ⟨alternatives, hor, h⟩ := bind_eq_ok.mp h
  obtain rfl := Except.ok.inj h
  obtain ⟨entries, hentries, -⟩ := parseSearchParameter_ok hsearch
  obtain ⟨filters, hfilters, hfilter⟩ := parseFilterParameter_ok hfilter
  obtain ⟨ors, hors, hor⟩ := parseOrParameter_ok hor
  refine ⟨⟨entries.map (fun entry => .search entry.1 entry.2) ++ filters.map .filter,
    ors.map .filter⟩, ?_, ?_⟩
  · rw [QueryParams.conditions, hentries, hfilters, hors]
    rfl
  · intro hclean V sql row
    obtain ⟨hcs, hds, hcc, hcd⟩ := hclean
    obtain ⟨hss, hff, hsf⟩ := List.pairwise_append.mp hcc
    obtain ⟨ps, hps, hs⟩ := parseSearchParameter_represents hentries hsearch
      (fun entry he => hcs _ (List.mem_append_left _ (List.mem_map_of_mem he))) hss
    obtain ⟨qs, hqs, hf⟩ := buildFilterWhereClause_represents hfilter
      (fun f hf => hcs _ (List.mem_append_right _ (List.mem_map_of_mem hf))) hff
    have hcompat : ∀ p ∈ ps, ∀ q ∈ qs, p.Compatible q := by
      intro p hp q hq
      obtain ⟨c, hc, hcp⟩ := exists_of_mem_of_forall₂ hps hp
      obtain ⟨d, hd, hdq⟩ := exists_of_mem_of_forall₂ hqs hq
      exact hcp.compatible hdq (hsf c hc d hd)
    have hts := buildOrWhereClause_ok hor
      (fun f hf => hds _ (List.mem_map_of_mem hf))
    exact combineAndOrConditions_selects hcs (List.rel_append hps hqs) (hs.merge hf hcompat) hds
      hts hcd

end Correct

/-! ## Two queries -/

/-- An entity with two text columns. -/
def itemEntity : EntityMetadata where
  columns := [⟨"name", .other⟩, ⟨"description", .other⟩]
  relations := []
  primaryColumns := ["name"]

def itemSchema : Schema where
  root := itemEntity
  entity _ := itemEntity
  root_names := by decide
  entity_names _ := by decide

/-- A library that parses nothing: the queries below need none of it. -/
def plainLibrary : Library where
  jsonParse _ := none
  isValid _ := false
  toISOString _ := none
  tzToISOString _ _ := none
  tzStartOfDay _ _ := none
  tzEndOfDay _ _ := none

/-- Text columns, compared as texts. -/
def textSql : Sql String where
  equal v value := some (v == value.toText)
  compare _ _ _ := none
  iLike v pattern := some (v == pattern)
  textAt _ _ := none
  textILike t pattern := t == pattern

/-- A name given twice, and an empty description as the alternative. -/
def cleanQuery : QueryParams where
  s := some (.obj [("name", .str "bolt")])
  filter := some (.arr [.str "name||$ne||nut"])
  or := some (.str "description||$eq||")
  exclude_ids := none
  timezone := none

theorem cleanQuery_conditions : cleanQuery.conditions plainLibrary =
    .ok ⟨[.search "name" (.str "bolt"), .filter ⟨"name", .ne, "nut"⟩],
      [.filter ⟨"description", .eq, ""⟩]⟩ := by
  have hs : searchConditionsOf plainLibrary cleanQuery.s = .ok [("name", .str "bolt")] := rfl
  have hfilter : parseFilterStrings (normalizeFilterInput cleanQuery.filter) =
      .ok [⟨"name", .ne, "nut"⟩] := by decide +kernel
  have hor : parseFilterStrings (normalizeOrInput cleanQuery.or) =
      .ok [⟨"description", .eq, ""⟩] := by decide +kernel
  rw [QueryParams.conditions, hs, hfilter, hor]
  rfl

theorem cleanQuery_clean : Conditions.Clean itemSchema
    ⟨[.search "name" (.str "bolt"), .filter ⟨"name", .ne, "nut"⟩],
      [.filter ⟨"description", .eq, ""⟩]⟩ := by
  have hname : isJsonbPath itemSchema "name" = false := by decide +kernel
  have hdesc : isJsonbPath itemSchema "description" = false := by decide +kernel
  have hparts : parts "name" = ["name"] := by decide +kernel
  have hparts' : parts "description" = ["description"] := by decide +kernel
  have hbolt : isEmptyValue (.str "bolt") = false := by decide +kernel
  constructor
  · simp [Condition.Clean, Condition.field, jsonbTarget, hname, Json.isNull]
  · simp [Condition.Clean, Condition.field, jsonbTarget, hdesc]
  · simp [Condition.Apart, Condition.field, Condition.isEmptyEquality, jsonbTarget, hname, hbolt,
      Nested]
  · simp [Condition.field, wherePath_of_plain hname, wherePath_of_plain hdesc, hparts, hparts',
      Nested]

theorem applyFilters_selects_bolt :
    ∃ where_ conditions, applyFilters itemSchema plainLibrary cleanQuery = .ok where_ ∧
      cleanQuery.conditions plainLibrary = .ok conditions ∧ conditions.Clean itemSchema ∧
      ∀ row : Row String, where_.selects textSql row = true ↔
        conditions.Satisfied itemSchema plainLibrary "Asia/Bangkok" textSql row := by
  have haccepted : (applyFilters itemSchema plainLibrary cleanQuery).toBool = true := by
    decide +kernel
  cases hrun : applyFilters itemSchema plainLibrary cleanQuery with
  | error e =>
      rw [hrun] at haccepted
      cases haccepted
  | ok where_ =>
      obtain ⟨conditions, hconditions, hselects⟩ := applyFilters_selects_iff hrun
      rw [cleanQuery_conditions] at hconditions
      cases hconditions
      exact ⟨where_, _, rfl, cleanQuery_conditions, cleanQuery_clean,
        fun row => hselects cleanQuery_clean textSql row⟩

/-- An empty operator object and a filter on the same column. -/
def emptyConditionQuery : QueryParams where
  s := some (.obj [("description", .obj [])])
  filter := some (.arr [.str "description||$ne||draft"])
  or := none
  exclude_ids := none
  timezone := none

/-- **A condition is dropped**: `{}` asks for `NULL`, but with a filter on the same column
the where value selects a row that has a description. -/
theorem empty_condition_dropped :
    ∃ where_ conditions, applyFilters itemSchema plainLibrary emptyConditionQuery = .ok where_ ∧
      emptyConditionQuery.conditions plainLibrary = .ok conditions ∧
      where_.selects textSql (fun _ => some "final") = true ∧
      ¬ conditions.Satisfied itemSchema plainLibrary "Asia/Bangkok" textSql
        (fun _ => some "final") := by
  have hfilter : parseFilterStrings (normalizeFilterInput emptyConditionQuery.filter) =
      .ok [⟨"description", .ne, "draft"⟩] := by decide +kernel
  have hselects : (match applyFilters itemSchema plainLibrary emptyConditionQuery with
      | .ok where_ => where_.selects textSql (fun _ => some "final")
      | .error _ => false) = true := by decide +kernel
  cases hrun : applyFilters itemSchema plainLibrary emptyConditionQuery with
  | error e =>
      rw [hrun] at hselects
      cases hselects
  | ok where_ =>
      rw [hrun] at hselects
      refine ⟨where_, ⟨[.search "description" (.obj []), .filter ⟨"description", .ne, "draft"⟩],
        []⟩, rfl, ?_, hselects, ?_⟩
      · rw [QueryParams.conditions, hfilter]
        rfl
      · rintro ⟨hand, -⟩
        have hnull := hand _ List.mem_cons_self
        cases hnull

end ErpApi.Query
