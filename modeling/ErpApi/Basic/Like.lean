import ErpApi.Basic.Wildcard

set_option autoImplicit false

/-! # The operator `LIKE`

A pattern of `LIKE` is a text in which `%` stands for any text, `_` for any character, and a
backslash takes the special meaning from the character after it. Searching for a text `v` means
to match the pattern that consists of `v` and of `%` at its open ends.

`exists_misread` says that this finds something else than the occurrences of `v` as soon as `v`
holds one of the three characters, wherever it stands. If `v` ends in an unpaired backslash the
search misses `v` itself. Otherwise it finds the sample of `v`, in which every `%` is left out,
every backslash too, and every `_` is another character: a text not longer than `v` that is
not `v`.
-/

namespace ErpApi.Like

open ErpApi.Wildcard

/-- The slots of a pattern. One that ends in its escape character has none: matching it is an
error or fails. -/
def slots : List Char → Option (List (Slot Char))
  | [] => some []
  | '%' :: rest => (slots rest).map (Slot.star :: ·)
  | '_' :: rest => (slots rest).map (Slot.one :: ·)
  | ['\\'] => none
  | '\\' :: c :: rest => (slots rest).map (Slot.lit c :: ·)
  | c :: rest => (slots rest).map (Slot.lit c :: ·)

def like (pattern text : List Char) : Bool :=
  match slots pattern with
  | some ps => accepts anything ps text
  | none => false

def isSpecial (c : Char) : Bool := c = '%' || c = '_' || c = '\\'

/-- No character has a special meaning. -/
def Literal (v : List Char) : Prop := ∀ c ∈ v, isSpecial c = false

/-! ## Searching for a text -/

/-- A `%` at an end of the pattern, if the text may go on there. -/
def gap (isOpen : Bool) : List Char := if isOpen then ['%'] else []

def searchPattern (front back : Bool) (v : List Char) : List Char := gap front ++ (v ++ gap back)

/-- The text holds `v`, with nothing around it at an end that is not open. -/
def Occurs (front back : Bool) (v text : List Char) : Prop :=
  ∃ a b, text = a ++ (v ++ b) ∧ (front = false → a = []) ∧ (back = false → b = [])

theorem occurs_self (front back : Bool) (v : List Char) : Occurs front back v v :=
  ⟨[], [], (List.append_nil v).symm, fun _ => rfl, fun _ => rfl⟩

theorem Occurs.length_le {front back : Bool} {v text : List Char} (h : Occurs front back v text) :
    v.length ≤ text.length := by
  obtain ⟨a, b, rfl, -, -⟩ := h
  simp only [List.length_append]
  omega

/-- A text that is not longer than what it holds is that. -/
theorem Occurs.eq_of_length_le {front back : Bool} {v text : List Char}
    (h : Occurs front back v text) (hle : text.length ≤ v.length) : text = v := by
  obtain ⟨a, b, rfl, -, -⟩ := h
  have hlen : a.length + (v.length + b.length) ≤ v.length := by
    simpa only [List.length_append] using hle
  have ha : a = [] := List.length_eq_zero_iff.mp (by omega)
  have hb : b = [] := List.length_eq_zero_iff.mp (by omega)
  rw [ha, hb, List.nil_append, List.append_nil]

theorem occurs_closed {v text : List Char} : Occurs false false v text ↔ text = v := by
  constructor
  · rintro ⟨a, b, rfl, ha, hb⟩
    rw [ha rfl, hb rfl, List.nil_append, List.append_nil]
  · rintro rfl
    exact occurs_self _ _ _

theorem occurs_infix {v text : List Char} : Occurs true true v text ↔ v <:+: text := by
  constructor
  · rintro ⟨a, b, rfl, -, -⟩
    exact ⟨a, b, List.append_assoc a v b⟩
  · rintro ⟨a, b, rfl⟩
    exact ⟨a, b, List.append_assoc a v b, nofun, nofun⟩

theorem occurs_prefix {v text : List Char} : Occurs false true v text ↔ v <+: text := by
  constructor
  · rintro ⟨a, b, rfl, ha, -⟩
    rw [ha rfl]
    exact ⟨b, rfl⟩
  · rintro ⟨b, rfl⟩
    exact ⟨[], b, rfl, fun _ => rfl, nofun⟩

theorem occurs_suffix {v text : List Char} : Occurs true false v text ↔ v <:+ text := by
  constructor
  · rintro ⟨a, b, rfl, -, hb⟩
    rw [hb rfl, List.append_nil]
    exact ⟨a, rfl⟩
  · rintro ⟨a, rfl⟩
    exact ⟨a, [], by rw [List.append_nil], nofun, fun _ => rfl⟩

/-! ## The slots of a pattern -/

theorem slots_percent (rest : List Char) :
    slots ('%' :: rest) = (slots rest).map (Slot.star :: ·) := by
  rw [slots]

theorem slots_underscore (rest : List Char) :
    slots ('_' :: rest) = (slots rest).map (Slot.one :: ·) := by
  rw [slots]

theorem slots_escape (c : Char) (rest : List Char) :
    slots ('\\' :: c :: rest) = (slots rest).map (Slot.lit c :: ·) := by
  rw [slots]

theorem slots_char {c : Char} (hc : isSpecial c = false) (rest : List Char) :
    slots (c :: rest) = (slots rest).map (Slot.lit c :: ·) := by
  simp only [isSpecial, Bool.or_eq_false_iff, decide_eq_false_iff_not] at hc
  obtain ⟨⟨hpercent, hunderscore⟩, hescape⟩ := hc
  rw [slots.eq_def]
  split
  · rename_i h
    cases h
  · rename_i h
    exact absurd (List.cons.inj h).1 hpercent
  · rename_i h
    exact absurd (List.cons.inj h).1 hunderscore
  · rename_i h
    exact absurd (List.cons.inj h).1 hescape
  · rename_i h
    exact absurd (List.cons.inj h).1 hescape
  · rename_i h
    obtain ⟨rfl, rfl⟩ := List.cons.inj h
    rfl

/-- Patterns are read from the front: a special character, an escaped one, any other one. -/
@[elab_as_elim]
theorem patternInduction {motive : List Char → Prop} (nil : motive [])
    (percent : ∀ rest, motive rest → motive ('%' :: rest))
    (underscore : ∀ rest, motive rest → motive ('_' :: rest))
    (dangling : motive ['\\'])
    (escape : ∀ c rest, motive rest → motive ('\\' :: c :: rest))
    (char : ∀ c rest, isSpecial c = false → motive rest → motive (c :: rest))
    (w : List Char) : motive w := by
  induction w using slots.induct with
  | case1 => exact nil
  | case2 rest ih => exact percent rest ih
  | case3 rest ih => exact underscore rest ih
  | case4 => exact dangling
  | case5 c rest ih => exact escape c rest ih
  | case6 c rest hpercent hunderscore hdangling hescape ih =>
      apply char c rest _ ih
      have hbackslash : c ≠ '\\' := by
        intro hc
        cases rest with
        | nil => exact hdangling hc rfl
        | cons d rest => exact hescape d rest hc rfl
      have hpercent' : c ≠ '%' := hpercent
      have hunderscore' : c ≠ '_' := hunderscore
      simp [isSpecial, hpercent', hunderscore', hbackslash]

theorem slots_append {w : List Char} {ps : List (Slot Char)} (hw : slots w = some ps)
    (rest : List Char) : slots (w ++ rest) = (slots rest).map (ps ++ ·) := by
  induction w using patternInduction generalizing ps with
  | nil =>
      obtain rfl : [] = ps := Option.some.inj hw
      simp
  | percent w ih =>
      rw [slots_percent] at hw
      obtain ⟨qs, hqs, rfl⟩ := Option.map_eq_some_iff.mp hw
      rw [List.cons_append, slots_percent, ih hqs, Option.map_map]
      rfl
  | underscore w ih =>
      rw [slots_underscore] at hw
      obtain ⟨qs, hqs, rfl⟩ := Option.map_eq_some_iff.mp hw
      rw [List.cons_append, slots_underscore, ih hqs, Option.map_map]
      rfl
  | dangling => cases hw
  | escape c w ih =>
      rw [slots_escape] at hw
      obtain ⟨qs, hqs, rfl⟩ := Option.map_eq_some_iff.mp hw
      rw [List.cons_append, List.cons_append, slots_escape, ih hqs, Option.map_map]
      rfl
  | char c w hc ih =>
      rw [slots_char hc] at hw
      obtain ⟨qs, hqs, rfl⟩ := Option.map_eq_some_iff.mp hw
      rw [List.cons_append, slots_char hc, ih hqs, Option.map_map]
      rfl

/-- A pattern without slots ends in a backslash, which escapes a `%` that follows it. -/
theorem slots_eq_none {w : List Char} (hw : slots w = none) :
    (∃ u, w = u ++ ['\\']) ∧ ∃ ps, slots (w ++ ['%']) = some (ps ++ [.lit '%']) := by
  induction w using patternInduction with
  | nil => cases hw
  | dangling => exact ⟨⟨[], rfl⟩, [], rfl⟩
  | percent w ih =>
      rw [slots_percent, Option.map_eq_none_iff] at hw
      obtain ⟨⟨u, rfl⟩, ps, hps⟩ := ih hw
      refine ⟨⟨'%' :: u, rfl⟩, .star :: ps, ?_⟩
      rw [List.cons_append, slots_percent, hps]
      rfl
  | underscore w ih =>
      rw [slots_underscore, Option.map_eq_none_iff] at hw
      obtain ⟨⟨u, rfl⟩, ps, hps⟩ := ih hw
      refine ⟨⟨'_' :: u, rfl⟩, .one :: ps, ?_⟩
      rw [List.cons_append, slots_underscore, hps]
      rfl
  | escape c w ih =>
      rw [slots_escape, Option.map_eq_none_iff] at hw
      obtain ⟨⟨u, rfl⟩, ps, hps⟩ := ih hw
      refine ⟨⟨'\\' :: c :: u, rfl⟩, .lit c :: ps, ?_⟩
      rw [List.cons_append, List.cons_append, slots_escape, hps]
      rfl
  | char c w hc ih =>
      rw [slots_char hc, Option.map_eq_none_iff] at hw
      obtain ⟨⟨u, rfl⟩, ps, hps⟩ := ih hw
      refine ⟨⟨c :: u, rfl⟩, .lit c :: ps, ?_⟩
      rw [List.cons_append, slots_char hc, hps]
      rfl

def gapSlots (isOpen : Bool) : List (Slot Char) := if isOpen then [.star] else []

theorem slots_gap (isOpen : Bool) : slots (gap isOpen) = some (gapSlots isOpen) := by
  cases isOpen <;> rfl

theorem accepts_gapSlots {isOpen : Bool} {text : List Char} :
    accepts anything (gapSlots isOpen) text = true ↔ (isOpen = false → text = []) := by
  cases isOpen with
  | false =>
      show accepts anything [] text = true ↔ _
      rw [accepts_nil]
      exact ⟨fun h _ => h, fun h => h rfl⟩
  | true =>
      refine iff_of_true ?_ nofun
      exact accepts_star.mpr ⟨text, [], (List.append_nil _).symm, fun _ _ => rfl, rfl⟩

theorem slots_searchPattern {w : List Char} {ps : List (Slot Char)} (hw : slots w = some ps)
    (front back : Bool) :
    slots (searchPattern front back w) = some (gapSlots front ++ (ps ++ gapSlots back)) := by
  rw [searchPattern, slots_append (slots_gap front), slots_append hw, slots_gap]
  rfl

theorem like_of_slots {pattern text : List Char} {ps : List (Slot Char)}
    (h : slots pattern = some ps) : like pattern text = accepts anything ps text := by
  rw [like, h]

/-! ## A literal text is found where it occurs -/

theorem slots_literal {v : List Char} (hv : Literal v) : slots v = some (v.map Slot.lit) := by
  induction v with
  | nil => rfl
  | cons c v ih =>
      have hc : isSpecial c = false := hv c List.mem_cons_self
      have hrest : Literal v := fun d hd => hv d (List.mem_cons_of_mem c hd)
      rw [slots_char hc, ih hrest]
      rfl

/-- **A literal text is found exactly where it occurs.** -/
theorem like_searchPattern {front back : Bool} {v : List Char} (hv : Literal v)
    (text : List Char) :
    like (searchPattern front back v) text = true ↔ Occurs front back v text := by
  rw [like_of_slots (slots_searchPattern (slots_literal hv) front back), accepts_append]
  constructor
  · rintro ⟨a, tail, rfl, ha, htail⟩
    obtain ⟨b, rfl, hb⟩ := accepts_lits.mp htail
    exact ⟨a, b, rfl, accepts_gapSlots.mp ha, accepts_gapSlots.mp hb⟩
  · rintro ⟨a, b, rfl, ha, hb⟩
    have htail : accepts anything (v.map Slot.lit ++ gapSlots back) (v ++ b) = true :=
      accepts_lits.mpr ⟨b, rfl, accepts_gapSlots.mpr hb⟩
    exact ⟨a, v ++ b, rfl, accepts_gapSlots.mpr ha, htail⟩

/-! ## A text with a special character is misread -/

/-- The shortest text that the slots accept, with `%` at the places for one character. -/
def sample : List (Slot Char) → List Char
  | [] => []
  | .lit a :: ps => a :: sample ps
  | .one :: ps => '%' :: sample ps
  | .star :: ps => sample ps

theorem accepts_sample (ps : List (Slot Char)) : accepts anything ps (sample ps) = true := by
  induction ps with
  | nil => rfl
  | cons p ps ih =>
      cases p with
      | lit a => exact accepts_lit.mpr ⟨_, rfl, ih⟩
      | one => exact accepts_one.mpr ⟨_, _, rfl, rfl, ih⟩
      | star => exact accepts_star.mpr ⟨[], _, rfl, nofun, ih⟩

theorem sample_append (ps qs : List (Slot Char)) : sample (ps ++ qs) = sample ps ++ sample qs := by
  induction ps with
  | nil => rfl
  | cons p ps ih => cases p <;> simp [sample, ih]

theorem sample_gapSlots (isOpen : Bool) : sample (gapSlots isOpen) = [] := by
  cases isOpen <;> rfl

/-- The sample is not longer than the pattern, and not the pattern if that has a special
character. -/
theorem sample_spec {w : List Char} {ps : List (Slot Char)} (hw : slots w = some ps) :
    (sample ps).length ≤ w.length ∧ (sample ps = w → Literal w) ∧
      ∀ c ∈ sample ps, c ∈ w ∨ c = '%' := by
  induction w using patternInduction generalizing ps with
  | nil =>
      obtain rfl : [] = ps := Option.some.inj hw
      exact ⟨Nat.le_refl 0, fun _ => nofun, nofun⟩
  | dangling => cases hw
  | percent w ih =>
      rw [slots_percent] at hw
      obtain ⟨qs, hqs, rfl⟩ := Option.map_eq_some_iff.mp hw
      obtain ⟨hlen, -, hmem⟩ := ih hqs
      refine ⟨Nat.le_succ_of_le hlen, ?_, ?_⟩
      · intro heq
        have hlen' : (sample qs).length = w.length + 1 := congrArg List.length heq
        omega
      · intro c hc
        rcases hmem c hc with h | h
        · exact .inl (List.mem_cons_of_mem _ h)
        · exact .inr h
  | underscore w ih =>
      rw [slots_underscore] at hw
      obtain ⟨qs, hqs, rfl⟩ := Option.map_eq_some_iff.mp hw
      obtain ⟨hlen, -, hmem⟩ := ih hqs
      refine ⟨Nat.succ_le_succ hlen, ?_, ?_⟩
      · intro heq
        have hhead : '%' = '_' := (List.cons.inj heq).1
        exact absurd hhead (by decide)
      · intro c hc
        rcases List.mem_cons.mp hc with rfl | hc
        · exact .inr rfl
        · rcases hmem c hc with h | h
          · exact .inl (List.mem_cons_of_mem _ h)
          · exact .inr h
  | escape d w ih =>
      rw [slots_escape] at hw
      obtain ⟨qs, hqs, rfl⟩ := Option.map_eq_some_iff.mp hw
      obtain ⟨hlen, -, hmem⟩ := ih hqs
      have hlen' : (sample (.lit d :: qs)).length = (sample qs).length + 1 := rfl
      have hlong : ('\\' :: d :: w).length = w.length + 2 := rfl
      refine ⟨by omega, ?_, ?_⟩
      · intro heq
        have hsame := congrArg List.length heq
        omega
      · intro c hc
        rcases List.mem_cons.mp hc with rfl | hc
        · exact .inl (List.mem_cons_of_mem _ List.mem_cons_self)
        · rcases hmem c hc with h | h
          · exact .inl (List.mem_cons_of_mem _ (List.mem_cons_of_mem _ h))
          · exact .inr h
  | char d w hd ih =>
      rw [slots_char hd] at hw
      obtain ⟨qs, hqs, rfl⟩ := Option.map_eq_some_iff.mp hw
      obtain ⟨hlen, hliteral, hmem⟩ := ih hqs
      refine ⟨Nat.succ_le_succ hlen, ?_, ?_⟩
      · intro heq c hc
        have htail : Literal w := hliteral (List.cons.inj heq).2
        rcases List.mem_cons.mp hc with rfl | hc
        · exact hd
        · exact htail c hc
      · intro c hc
        rcases List.mem_cons.mp hc with rfl | hc
        · exact .inl List.mem_cons_self
        · rcases hmem c hc with h | h
          · exact .inl (List.mem_cons_of_mem _ h)
          · exact .inr h

/-- The sample of a text is found when one searches for the text. -/
theorem like_sample {w : List Char} {ps : List (Slot Char)} (hw : slots w = some ps)
    (front back : Bool) : like (searchPattern front back w) (sample ps) = true := by
  have hslots := slots_searchPattern hw front back
  have hsample : sample (gapSlots front ++ (ps ++ gapSlots back)) = sample ps := by
    rw [sample_append, sample_append, sample_gapSlots, sample_gapSlots, List.nil_append,
      List.append_nil]
  calc like (searchPattern front back w) (sample ps)
      = accepts anything (gapSlots front ++ (ps ++ gapSlots back)) (sample ps) :=
        like_of_slots hslots
    _ = accepts anything (gapSlots front ++ (ps ++ gapSlots back))
          (sample (gapSlots front ++ (ps ++ gapSlots back))) := by rw [hsample]
    _ = true := accepts_sample _

/-- A text that ends in an unpaired backslash does not find itself. -/
theorem like_self_of_slots_eq_none {w : List Char} (hw : slots w = none) (front back : Bool) :
    like (searchPattern front back w) w = false := by
  obtain ⟨⟨u, hu⟩, ps, hps⟩ := slots_eq_none hw
  cases back with
  | false =>
      have hnone : slots (searchPattern front false w) = none := by
        rw [searchPattern, slots_append (slots_gap front)]
        show (slots (w ++ [])).map _ = none
        rw [List.append_nil, hw]
        rfl
      rw [like, hnone]
  | true =>
      have hslots : slots (searchPattern front true w) =
          some ((gapSlots front ++ ps) ++ [.lit '%']) := by
        rw [searchPattern, slots_append (slots_gap front)]
        show (slots (w ++ ['%'])).map _ = _
        rw [hps, List.append_assoc]
        rfl
      rw [like_of_slots hslots, Bool.eq_false_iff]
      intro hacc
      -- An accepted text ends in `%`, and this one in a backslash.
      obtain ⟨a, b, hab, -, hb⟩ := accepts_append.mp hacc
      obtain ⟨rest, rfl, hrest⟩ := accepts_lit.mp hb
      obtain rfl := accepts_nil.mp hrest
      have hlast : ['\\'] = ['%'] := List.append_inj_right' (hu.symm.trans hab) rfl
      exact absurd hlast (by decide)

/-- **A text with a special character is misread**, by a text of its own characters and `%`. -/
theorem exists_misread {w : List Char} (hw : ¬ Literal w) (front back : Bool) :
    ∃ text, (∀ c ∈ text, c ∈ w ∨ c = '%') ∧
      ¬ (like (searchPattern front back w) text = true ↔ Occurs front back w text) := by
  cases hslots : slots w with
  | none =>
      refine ⟨w, fun c hc => .inl hc, ?_⟩
      rw [like_self_of_slots_eq_none hslots]
      intro hiff
      exact Bool.false_ne_true (hiff.mpr (occurs_self front back w))
  | some ps =>
      obtain ⟨hlen, hliteral, hmem⟩ := sample_spec hslots
      refine ⟨sample ps, hmem, ?_⟩
      intro hiff
      have hoccurs := hiff.mp (like_sample hslots front back)
      exact hw (hliteral (hoccurs.eq_of_length_le hlen))

end ErpApi.Like
