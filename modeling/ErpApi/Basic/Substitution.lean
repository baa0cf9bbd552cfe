import Mathlib.Data.Set.Insert

set_option autoImplicit false

/-! # Words of a text that stand for values

A rule has words and a value. A text is substituted for a set of rules (`Substituted`) if every
word of a rule in it, wherever it stands, is replaced by the value of the rule, and every other
character is kept. That is only possible if no two words of the text share a place.

Replacing the words of one rule after the other gives the same text, in whatever order, if words
never share a place and no word of one rule shares a place with the value of another, unless that
word is its own value (`Substituted.foldl`). `separate_of_substituted` is the converse for words.
-/

namespace ErpApi.Substitution

structure Rules (α ι : Type) where
  word : ι → List α → Prop
  value : ι → List α
  word_ne_nil : ∀ {i w}, word i w → w ≠ []

variable {α ι : Type}

/-- Two stretches of one text have a place in common. Each is given by the text before it and the
stretch itself; an empty stretch has a place only inside the other. -/
def Share (p w p' w' : List α) : Prop :=
  p.length < p'.length + w'.length ∧ p'.length < p.length + w.length

/-- No two words share a place, in whatever text. -/
def Separate (r : Rules α ι) (S : Set ι) : Prop :=
  ∀ i ∈ S, ∀ j ∈ S, ∀ p w q p' w' q', r.word i w → r.word j w' →
    p ++ w ++ q = p' ++ w' ++ q' → Share p w p' w' → p = p' ∧ w = w' ∧ i = j

/-- A word that shares a place with the value of another rule is the text it is replaced by. -/
def Untouched (r : Rules α ι) (S : Set ι) : Prop :=
  ∀ i ∈ S, ∀ j ∈ S, i ≠ j → ∀ x y p w q, r.word j w →
    x ++ r.value i ++ y = p ++ w ++ q → Share x (r.value i) p w → w = r.value j

/-- No word of the rules is at the head of the text. -/
def NoneStarts (r : Rules α ι) (S : Set ι) (text : List α) : Prop :=
  ∀ i ∈ S, ∀ w rest, r.word i w → text ≠ w ++ rest

/-- The second text is the first with every word replaced by the value of its rule. -/
inductive Substituted (r : Rules α ι) (S : Set ι) : List α → List α → Prop
  | nil : Substituted r S [] []
  | keep {c : α} {text out : List α} :
      NoneStarts r S (c :: text) → Substituted r S text out →
      Substituted r S (c :: text) (c :: out)
  | word {i : ι} {w rest out : List α} :
      i ∈ S → r.word i w →
      (∀ j ∈ S, ∀ p w' q, r.word j w' → w ++ rest = p ++ w' ++ q → p.length < w.length →
        p = [] ∧ w = w' ∧ i = j) →
      Substituted r S rest out →
      Substituted r S (w ++ rest) (r.value i ++ out)

/-- The function replaces the words of one rule, from the left to the right. -/
structure Replaces (r : Rules α ι) (i : ι) (R : List α → List α) : Prop where
  nil : R [] = []
  miss : ∀ {c text}, NoneStarts r {i} (c :: text) → R (c :: text) = c :: R text
  hit : ∀ {w rest}, r.word i w → R (w ++ rest) = r.value i ++ R rest

theorem Separate.mono {r : Rules α ι} {S T : Set ι} (h : Separate r T) (hST : S ⊆ T) :
    Separate r S :=
  fun i hi j hj => h i (hST hi) j (hST hj)

/-! ## Two texts cut at different places -/

theorem append_cases {a b c d : List α} (h : a ++ b = c ++ d) :
    (∃ t, c = a ++ t ∧ b = t ++ d) ∨ ∃ t, t ≠ [] ∧ a = c ++ t ∧ d = t ++ b := by
  rcases List.append_eq_append_iff.mp h with ⟨t, hc, hb⟩ | ⟨t, ha, hd⟩
  · exact .inl ⟨t, hc, hb⟩
  · cases t with
    | nil => exact .inl ⟨[], by simpa using ha.symm, by simpa using hd.symm⟩
    | cons x t => exact .inr ⟨x :: t, List.cons_ne_nil x t, ha, hd⟩

/-! ## Replacing the words of one rule -/

section Replaces

variable {r : Rules α ι} {j : ι} {R : List α → List α}

/-- A stretch in which no word starts is copied. -/
theorem Replaces.copy (hR : Replaces r j R) (rest : List α) :
    ∀ y : List α, (∀ a b, y = a ++ b → b ≠ [] → NoneStarts r {j} (b ++ rest)) →
      R (y ++ rest) = y ++ R rest
  | [], _ => rfl
  | c :: y, h => by
      have hmiss : R (c :: (y ++ rest)) = c :: R (y ++ rest) :=
        hR.miss (h [] (c :: y) rfl (List.cons_ne_nil c y))
      have htail : R (y ++ rest) = y ++ R rest :=
        hR.copy rest y fun a b hab hb => h (c :: a) b (by rw [hab]; rfl) hb
      rw [List.cons_append, hmiss, htail, List.cons_append]

/-- A word leaves no place in it at which another one starts. -/
theorem Separate.noneStarts {S : Set ι} (hsep : Separate r S) {i k : ι} (hi : i ∈ S)
    (hk : k ∈ S) {w rest a b : List α} (hw : r.word i w) (hab : w = a ++ b) (ha : a ≠ [])
    (hb : b ≠ []) : NoneStarts r {k} (b ++ rest) := by
  rintro k' rfl w' q hw' heq
  have hw'pos : 0 < w'.length := List.length_pos_iff.mpr (r.word_ne_nil hw')
  have hbpos : 0 < b.length := List.length_pos_iff.mpr hb
  have hlen : w.length = a.length + b.length := by rw [hab, List.length_append]
  have htext : [] ++ w ++ rest = a ++ w' ++ q := by
    rw [List.nil_append, hab, List.append_assoc, List.append_assoc, heq]
  have hshare : Share [] w a w' := by
    constructor
    · exact Nat.lt_of_lt_of_le hw'pos (Nat.le_add_left _ _)
    · rw [List.length_nil, hlen]
      omega
  exact ha (hsep i hi k' hk [] w rest a w' q hw hw' htext hshare).1.symm

/-- **A stretch is kept** if every word that starts in it is the text it is replaced by. -/
theorem Replaces.keep {S : Set ι} (hsep : Separate r S) (hj : j ∈ S) (hR : Replaces r j R)
    (rest : List α) :
    ∀ y : List α, (∀ a b w q, y = a ++ b → b ≠ [] → r.word j w → b ++ rest = w ++ q →
      w = r.value j) → R (y ++ rest) = y ++ R rest
  | [], _ => rfl
  | c :: y, h => by
      have htail : R (y ++ rest) = y ++ R rest :=
        hR.keep hsep hj rest y fun a b w q hab hb hw heq =>
          h (c :: a) b w q (by rw [hab]; rfl) hb hw heq
      by_cases hstart : NoneStarts r {j} (c :: y ++ rest)
      · rw [List.cons_append] at hstart ⊢
        rw [hR.miss hstart, htail, List.cons_append]
      · -- A word at the head is replaced by itself, and no other word starts in it.
        simp only [NoneStarts, Set.mem_singleton_iff, forall_eq, not_forall, ne_eq,
          not_not] at hstart
        obtain ⟨w, q, hw, heq⟩ := hstart
        have hvalue : w = r.value j := h [] (c :: y) w q rfl (List.cons_ne_nil c y) hw heq
        obtain ⟨d, w', rfl⟩ := List.exists_cons_of_ne_nil (r.word_ne_nil hw)
        obtain ⟨rfl, hrest⟩ := List.cons.inj
          (show c :: (y ++ rest) = d :: (w' ++ q) by simpa using heq)
        have hinner : R (w' ++ q) = w' ++ R q := by
          refine hR.copy q w' fun a b hab hb => ?_
          exact hsep.noneStarts hj hj hw (by rw [hab]; rfl) (List.cons_ne_nil c a) hb
        calc R (c :: y ++ rest) = R (c :: w' ++ q) := by rw [heq]
          _ = c :: w' ++ R q := by rw [hR.hit hw, ← hvalue]
          _ = c :: R (w' ++ q) := by rw [hinner, List.cons_append]
          _ = c :: R (y ++ rest) := by rw [hrest]
          _ = c :: y ++ R rest := by rw [htail, List.cons_append]

/-- A text without words is its own replacement. -/
theorem Replaces.eq_self (hR : Replaces r j R) {text : List α}
    (h : ∀ p w q, r.word j w → text ≠ p ++ w ++ q) : R text = text := by
  have hcopy : R (text ++ []) = text ++ R [] := by
    refine hR.copy [] text ?_
    rintro a b hab - j' rfl w q hw heq
    rw [List.append_nil] at heq
    exact h a w q hw (by rw [hab, heq, List.append_assoc])
  rwa [List.append_nil, hR.nil, List.append_nil] at hcopy

end Replaces

/-! ## Texts cut at a word -/

section Substituted

variable {r : Rules α ι} {S : Set ι}

theorem Substituted.congr {T : Set ι} (hST : S = T) {text out : List α}
    (h : Substituted r S text out) : Substituted r T text out := hST ▸ h

/-- Without rules nothing is replaced. -/
theorem substituted_empty (text : List α) : Substituted r (∅ : Set ι) text text := by
  induction text with
  | nil => exact .nil
  | cons c text ih => exact .keep (fun i hi => hi.elim) ih

theorem Substituted.eq_nil {out : List α} (h : Substituted r S [] out) : out = [] := by
  generalize htext : ([] : List α) = text at h
  cases h with
  | nil => rfl
  | keep _ _ => cases htext
  | word _ hw _ _ => exact absurd (List.append_eq_nil_iff.mp htext.symm).1 (r.word_ne_nil hw)

/-- What follows a stretch in which no word starts is substituted on its own. -/
theorem Substituted.of_append {rest : List α} :
    ∀ {y out : List α}, (∀ a b, y = a ++ b → b ≠ [] → NoneStarts r S (b ++ rest)) →
      Substituted r S (y ++ rest) out → ∃ out', out = y ++ out' ∧ Substituted r S rest out'
  | [], out, _, h => ⟨out, rfl, h⟩
  | c :: y, out, hnone, h => by
      have hhead : NoneStarts r S (c :: (y ++ rest)) :=
        hnone [] (c :: y) rfl (List.cons_ne_nil c y)
      rw [List.cons_append] at h
      generalize htext : c :: (y ++ rest) = text at h hhead
      cases h with
      | nil => cases htext
      | keep _ h =>
          obtain ⟨rfl, rfl⟩ := List.cons.inj htext
          obtain ⟨out', rfl, h'⟩ := Substituted.of_append (y := y)
            (fun a b hab hb => hnone (c :: a) b (by rw [hab]; rfl) hb) h
          exact ⟨out', rfl, h'⟩
      | word hi hw _ _ => exact absurd rfl (hhead _ hi _ _ hw)

/-- What begins the output begins the text, unless a value begins within it. -/
theorem Substituted.front {text out : List α} (h : Substituted r S text out) :
    ∀ a q, out = a ++ q →
      (∃ q', text = a ++ q') ∨
        ∃ i ∈ S, ∃ x y, out = x ++ r.value i ++ y ∧ x.length < a.length := by
  induction h with
  | nil =>
      intro a q haq
      exact .inl ⟨q, haq⟩
  | @keep c text out _ _ ih =>
      intro a q haq
      cases a with
      | nil => exact .inl ⟨c :: text, rfl⟩
      | cons d a =>
          obtain ⟨rfl, hout⟩ := List.cons.inj haq
          rcases ih a q hout with ⟨q', rfl⟩ | ⟨i, hi, x, y, rfl, hx⟩
          · exact .inl ⟨q', rfl⟩
          · exact .inr ⟨i, hi, c :: x, y, rfl, by simpa using hx⟩
  | @word i w rest out hi _ _ _ _ =>
      intro a q _
      cases a with
      | nil => exact .inl ⟨w ++ rest, rfl⟩
      | cons d a => exact .inr ⟨i, hi, [], out, rfl, Nat.succ_pos _⟩

/-- A word at the head is replaced. -/
theorem Substituted.of_word {i : ι} (hi : i ∈ S) {w rest out : List α} (hw : r.word i w)
    (h : Substituted r S (w ++ rest) out) :
    ∃ out', out = r.value i ++ out' ∧ Substituted r S rest out' := by
  generalize htext : w ++ rest = text at h
  cases h with
  | nil => exact absurd (List.append_eq_nil_iff.mp htext).1 (r.word_ne_nil hw)
  | keep hnone _ => exact absurd htext.symm (hnone i hi w rest hw)
  | @word j w' rest' out' hj hw' honly h' =>
      have hpos : 0 < w'.length := List.length_pos_iff.mpr (r.word_ne_nil hw')
      obtain ⟨-, rfl, rfl⟩ := honly i hi [] w rest hw htext.symm hpos
      obtain rfl := List.append_cancel_left htext
      exact ⟨out', rfl, h'⟩

theorem Substituted.unique {text out : List α} (h : Substituted r S text out) :
    ∀ {out'}, Substituted r S text out' → out = out' := by
  induction h with
  | nil =>
      intro out' h'
      exact h'.eq_nil.symm
  | @keep c text out hnone _ ih =>
      intro out' h'
      have hcopy : ∀ a b, [c] = a ++ b → b ≠ [] → NoneStarts r S (b ++ text) := by
        intro a b hab hb
        cases a with
        | nil =>
            obtain rfl : [c] = b := hab
            exact hnone
        | cons d a => exact absurd (List.append_eq_nil_iff.mp (List.cons.inj hab).2.symm).2 hb
      obtain ⟨out'', rfl, h''⟩ := Substituted.of_append (y := [c]) hcopy h'
      rw [ih h'']
      rfl
  | @word i w rest out hi hw _ _ ih =>
      intro out' h'
      obtain ⟨out'', rfl, h''⟩ := h'.of_word hi hw
      rw [ih h'']

/-- A text that can be substituted has no two words that share a place. -/
theorem Substituted.disjoint {text out : List α} (h : Substituted r S text out) :
    ∀ {i j : ι}, i ∈ S → j ∈ S → ∀ {p w q p' w' q' : List α}, r.word i w → r.word j w' →
      text = p ++ w ++ q → text = p' ++ w' ++ q' → Share p w p' w' →
      p = p' ∧ w = w' ∧ i = j := by
  induction h with
  | nil =>
      intro i j _ _ p w q p' w' q' hw _ htext
      simp [r.word_ne_nil hw] at htext
  | @keep c text out hnone _ ih =>
      intro i j hi hj p w q p' w' q' hw hw' htext htext' hshare
      cases p with
      | nil => exact absurd htext (hnone i hi w q hw)
      | cons d p =>
          cases p' with
          | nil => exact absurd htext' (hnone j hj w' q' hw')
          | cons d' p' =>
              obtain ⟨rfl, h₁⟩ := List.cons.inj htext
              obtain ⟨rfl, h₂⟩ := List.cons.inj htext'
              have hshare' : Share p w p' w' := by
                obtain ⟨ha, hb⟩ := hshare
                rw [List.length_cons, List.length_cons] at ha hb
                exact ⟨by omega, by omega⟩
              obtain ⟨rfl, heq⟩ := ih hi hj hw hw' h₁ h₂ hshare'
              exact ⟨rfl, heq⟩
  | @word k w₀ rest out _ hw₀ honly _ ih =>
      intro i j hi hj p w q p' w' q' hw hw' htext htext' hshare
      obtain ⟨hpp', hp'p⟩ := hshare
      by_cases hp : p.length < w₀.length
      · obtain ⟨rfl, rfl, rfl⟩ := honly i hi p w q hw htext hp
        have hp' : p'.length < w₀.length := by simpa using hp'p
        obtain ⟨rfl, rfl, rfl⟩ := honly j hj p' w' q' hw' htext' hp'
        exact ⟨rfl, rfl, rfl⟩
      · by_cases hp' : p'.length < w₀.length
        · obtain ⟨rfl, rfl, -⟩ := honly j hj p' w' q' hw' htext' hp'
          simp only [List.length_nil, Nat.zero_add] at hpp'
          exact absurd hpp' hp
        · -- Both words are in the rest.
          have hcut : ∀ {p w q : List α}, w₀ ++ rest = p ++ w ++ q → ¬ p.length < w₀.length →
              ∃ t, p = w₀ ++ t ∧ rest = t ++ w ++ q := by
            intro p w q heq hlen
            rw [List.append_assoc] at heq
            rcases append_cases heq with ⟨t, rfl, hrest⟩ | ⟨t, ht, rfl, -⟩
            · exact ⟨t, rfl, by rw [hrest, List.append_assoc]⟩
            · have hpos : 0 < t.length := List.length_pos_iff.mpr ht
              rw [List.length_append] at hlen
              omega
          obtain ⟨t, rfl, h₁⟩ := hcut htext hp
          obtain ⟨t', rfl, h₂⟩ := hcut htext' hp'
          have hshare' : Share t w t' w' := by
            rw [List.length_append, List.length_append] at hpp' hp'p
            exact ⟨by omega, by omega⟩
          obtain ⟨rfl, heq⟩ := ih hi hj hw hw' h₁ h₂ hshare'
          exact ⟨rfl, heq⟩

/-- Words never share a place if every text can be substituted. -/
theorem separate_of_substituted (h : ∀ text, ∃ out, Substituted r S text out) :
    Separate r S := by
  intro i hi j hj p w q p' w' q' hw hw' heq hshare
  obtain ⟨out, hout⟩ := h (p ++ w ++ q)
  exact hout.disjoint hi hj hw hw' rfl heq hshare

end Substituted

/-! ## One rule after the other -/

section Run

variable {r : Rules α ι} {S : Set ι} {R : ι → List α → List α}

/-- Replacing the words of one more rule. -/
theorem Substituted.replace {done : Set ι} {j : ι} (hsep : Separate r S)
    (hfree : Untouched r S) (hdone : done ⊆ S) (hj : j ∈ S) (hjdone : j ∉ done)
    (hR : Replaces r j (R j)) {text mid : List α} (h : Substituted r done text mid) :
    Substituted r (insert j done) text (R j mid) := by
  have hall : insert j done ⊆ S := Set.insert_subset hj hdone
  have hother : ∀ i ∈ done, i ≠ j := by
    rintro i hi rfl
    exact hjdone hi
  -- After a word of the new rule the induction goes on with what follows the word.
  induction hn : text.length using Nat.strongRecOn generalizing text mid with
  | _ n ih =>
      have honly : ∀ {i w rest}, i ∈ insert j done → r.word i w →
          ∀ k ∈ insert j done, ∀ p w' q, r.word k w' → w ++ rest = p ++ w' ++ q →
            p.length < w.length → p = [] ∧ w = w' ∧ i = k := by
        intro i w rest hi hw k hk p w' q hw' heq hlen
        have hpos : 0 < w'.length := List.length_pos_iff.mpr (r.word_ne_nil hw')
        have hshare : Share [] w p w' := by
          refine ⟨?_, ?_⟩
          · rw [List.length_nil]
            omega
          · rw [List.length_nil]
            omega
        obtain ⟨hp, heq'⟩ := hsep i (hall hi) k (hall hk) [] w rest p w' q hw hw' heq hshare
        exact ⟨hp.symm, heq'⟩
      by_cases hstart : NoneStarts r {j} text
      · cases h with
        | nil =>
            rw [hR.nil]
            exact .nil
        | @keep c text mid hnone h =>
            have hrest : Substituted r (insert j done) text (R j mid) :=
              ih text.length (by rw [← hn, List.length_cons]; omega) h rfl
            -- A word that begins here reaches a value, so it is replaced by itself.
            have hkeep : R j ([c] ++ mid) = [c] ++ R j mid := by
              refine hR.keep hsep hj mid [c] ?_
              intro a b w q hab hb hw heq
              have hab' : a = [] ∧ b = [c] := by
                cases a with
                | nil => exact ⟨rfl, hab.symm⟩
                | cons d a =>
                    have hlen := congrArg List.length hab
                    have hbpos : 0 < b.length := List.length_pos_iff.mpr hb
                    simp only [List.length_cons, List.length_nil, List.length_append] at hlen
                    omega
              obtain ⟨rfl, rfl⟩ := hab'
              obtain ⟨d, w', rfl⟩ := List.exists_cons_of_ne_nil (r.word_ne_nil hw)
              obtain ⟨rfl, hmid⟩ := List.cons.inj (show c :: mid = d :: (w' ++ q) from heq)
              rcases h.front w' q hmid with ⟨q', rfl⟩ | ⟨i, hi, x, y, hxy, hlen⟩
              · exact absurd rfl (hstart j rfl (c :: w') q' hw)
              · refine hfree i (hdone hi) j hj (hother i hi) (c :: x) y [] (c :: w') q hw ?_
                  ⟨?_, ?_⟩
                · rw [List.cons_append, List.cons_append, ← hxy]
                  exact heq
                · simpa using hlen
                · simp only [List.length_nil, List.length_cons]
                  omega
            rw [List.cons_append, List.nil_append] at hkeep
            rw [hkeep]
            refine .keep ?_ hrest
            intro i hi w rest hw
            rcases Set.mem_insert_iff.mp hi with rfl | hi
            · exact hstart i rfl w rest hw
            · exact hnone i hi w rest hw
        | @word i w rest mid hi hw _ h =>
            have hrest : Substituted r (insert j done) rest (R j mid) := by
              have hpos : 0 < w.length := List.length_pos_iff.mpr (r.word_ne_nil hw)
              exact ih rest.length (by rw [← hn, List.length_append]; omega) h rfl
            have hkeep : R j (r.value i ++ mid) = r.value i ++ R j mid := by
              refine hR.keep hsep hj mid (r.value i) ?_
              intro a b w' q hab hb hw' heq
              have hpos : 0 < w'.length := List.length_pos_iff.mpr (r.word_ne_nil hw')
              have hbpos : 0 < b.length := List.length_pos_iff.mpr hb
              have hlen : (r.value i).length = a.length + b.length := by
                rw [hab, List.length_append]
              refine hfree i (hdone hi) j hj (hother i hi) [] mid a w' q hw' ?_ ⟨?_, ?_⟩
              · rw [List.nil_append, hab, List.append_assoc, heq, List.append_assoc]
              · rw [List.length_nil]
                omega
              · rw [List.length_nil]
                omega
            rw [hkeep]
            exact .word (Set.mem_insert_of_mem j hi) hw
              (honly (Set.mem_insert_of_mem j hi) hw) hrest
      · simp only [NoneStarts, Set.mem_singleton_iff, forall_eq, not_forall, ne_eq,
          not_not] at hstart
        obtain ⟨w, rest, hw, rfl⟩ := hstart
        have hnone : ∀ a b, w = a ++ b → b ≠ [] → NoneStarts r done (b ++ rest) := by
          intro a b hab hb i hi w' q hw' heq
          have hlen : a.length < w.length := by
            have hbpos : 0 < b.length := List.length_pos_iff.mpr hb
            rw [hab, List.length_append]
            omega
          have htext : w ++ rest = a ++ w' ++ q := by
            rw [hab, List.append_assoc, heq, List.append_assoc]
          obtain ⟨-, -, hij⟩ := honly (Set.mem_insert j done) hw i
            (Set.mem_insert_of_mem j hi) a w' q hw' htext hlen
          exact hother i hi hij.symm
        obtain ⟨mid', rfl, h'⟩ := Substituted.of_append hnone h
        have hpos : 0 < w.length := List.length_pos_iff.mpr (r.word_ne_nil hw)
        rw [hR.hit hw]
        exact .word (Set.mem_insert j done) hw (honly (Set.mem_insert j done) hw)
          (ih rest.length (by rw [← hn, List.length_append]; omega) h' rfl)

/-- **Successive replacement.** The rules may be applied one after the other. -/
theorem Substituted.foldl (hsep : Separate r S) (hfree : Untouched r S)
    (hR : ∀ i ∈ S, Replaces r i (R i)) :
    ∀ (order : List ι) {done : Set ι} {text mid : List α}, done ⊆ S → (∀ i ∈ order, i ∈ S) →
      order.Nodup → (∀ i ∈ order, i ∉ done) → Substituted r done text mid →
      Substituted r (done ∪ {i | i ∈ order}) text (order.foldl (fun acc i => R i acc) mid)
  | [], done, text, mid, _, _, _, _, h => by
      refine h.congr ?_
      simp
  | j :: order, done, text, mid, hdone, horder, hnodup, hfresh, h => by
      have hj : j ∈ S := horder j List.mem_cons_self
      obtain ⟨hjorder, hnodup'⟩ := List.nodup_cons.mp hnodup
      have hstep : Substituted r (insert j done) text (R j mid) :=
        h.replace hsep hfree hdone hj (hfresh j List.mem_cons_self) (hR j hj)
      have hfresh' : ∀ i ∈ order, i ∉ insert j done := by
        intro i hi hmem
        rcases Set.mem_insert_iff.mp hmem with rfl | hmem
        · exact hjorder hi
        · exact hfresh i (List.mem_cons_of_mem j hi) hmem
      have hrun := Substituted.foldl hsep hfree hR order (Set.insert_subset hj hdone)
        (fun i hi => horder i (List.mem_cons_of_mem j hi)) hnodup' hfresh' hstep
      refine hrun.congr ?_
      ext i
      show (i = j ∨ i ∈ done) ∨ i ∈ order ↔ i ∈ done ∨ i ∈ j :: order
      rw [List.mem_cons]
      exact or_assoc.trans or_left_comm

end Run

/-! ## Texts that a replacement leaves as they are -/

section Fixed

variable {r : Rules α ι} {j : ι} {R : List α → List α}

/-- Induction along a text: no word starts at its head, or one does. -/
theorem text_induction (r : Rules α ι) (j : ι) {motive : List α → Prop}
    (nil : motive [])
    (miss : ∀ c text, NoneStarts r {j} (c :: text) → motive text → motive (c :: text))
    (hit : ∀ w rest, r.word j w → motive rest → motive (w ++ rest))
    (text : List α) : motive text := by
  induction hn : text.length using Nat.strongRecOn generalizing text with
  | _ n ih =>
      cases text with
      | nil => exact nil
      | cons c text =>
          by_cases hstart : NoneStarts r {j} (c :: text)
          · exact miss c text hstart
              (ih text.length (by rw [← hn, List.length_cons]; omega) text rfl)
          · simp only [NoneStarts, Set.mem_singleton_iff, forall_eq, not_forall, ne_eq,
              not_not] at hstart
            obtain ⟨w, rest, hw, heq⟩ := hstart
            have hpos : 0 < w.length := List.length_pos_iff.mpr (r.word_ne_nil hw)
            rw [heq] at hn ⊢
            exact hit w rest hw
              (ih rest.length (by rw [← hn, List.length_append]; omega) rest rfl)

def total (weight : α → Nat) : List α → Nat
  | [] => 0
  | c :: w => weight c + total weight w

theorem total_append (weight : α → Nat) (u w : List α) :
    total weight (u ++ w) = total weight u + total weight w := by
  induction u with
  | nil => simp [total]
  | cons c u ih =>
      rw [List.cons_append, total, ih, total]
      omega

/-- All words of a rule weigh the same, and their last character weighs something. -/
structure SameWeight (r : Rules α ι) (j : ι) (weight : α → Nat) : Prop where
  total_eq : ∀ {w w'}, r.word j w → r.word j w' → total weight w = total weight w'
  last : ∀ {w}, r.word j w → ∃ u x, w = u ++ [x] ∧ 0 < weight x

theorem total_pos_of_last {weight : α → Nat} {a t u : List α} {x : α} (ht : t ≠ [])
    (hx : 0 < weight x) (h : a ++ t = u ++ [x]) : 0 < total weight t := by
  obtain ⟨t', y, rfl⟩ := (List.eq_nil_or_concat t).resolve_left ht
  rw [List.concat_eq_append, ← List.append_assoc] at h
  have hyx : [y] = [x] := (List.append_inj' h rfl).2
  obtain rfl : y = x := List.singleton_inj.mp hyx
  rw [List.concat_eq_append, total_append]
  have hlast : total weight [y] = weight y := by simp [total]
  omega

/-- Two words of a rule that begin at one place are the same. -/
theorem SameWeight.unique {weight : α → Nat} (hsame : SameWeight r j weight)
    {w w' rest rest' : List α} (hw : r.word j w) (hw' : r.word j w')
    (heq : w ++ rest = w' ++ rest') : w = w' := by
  have hshort : ∀ {u t : List α}, r.word j u → r.word j (u ++ t) → t = [] := by
    intro u t hu hut
    by_contra ht
    obtain ⟨v, x, hvx, hx⟩ := hsame.last hut
    have hpos := total_pos_of_last ht hx hvx
    have htotal := hsame.total_eq hu hut
    rw [total_append] at htotal
    omega
  rcases append_cases heq with ⟨t, ht, -⟩ | ⟨t, hne, ht, -⟩
  · have hnil := hshort hw (ht ▸ hw')
    rw [ht, hnil, List.append_nil]
  · exact absurd (hshort hw' (ht ▸ hw)) hne

/-- How a replacement changes the weight of a text. -/
theorem Replaces.exists_total (hR : Replaces r j R) {weight : α → Nat}
    (hsame : SameWeight r j weight) {w₀ : List α} (hw₀ : r.word j w₀) (text : List α) :
    ∃ n, total weight (R text) + n * total weight w₀ =
      total weight text + n * total weight (r.value j) := by
  induction text using text_induction r j with
  | nil => exact ⟨0, by rw [hR.nil, Nat.zero_mul, Nat.zero_mul]⟩
  | miss c text hnone ih =>
      obtain ⟨n, hn⟩ := ih
      refine ⟨n, ?_⟩
      rw [hR.miss hnone, total, total]
      omega
  | hit w rest hw ih =>
      obtain ⟨n, hn⟩ := ih
      refine ⟨n + 1, ?_⟩
      rw [hR.hit hw, total_append, total_append, hsame.total_eq hw hw₀, Nat.succ_mul,
        Nat.succ_mul]
      omega

/-- The last word of a text and the value in its place have the same text behind them. -/
theorem Replaces.exists_last (hR : Replaces r j R) (text : List α) :
    (∀ p w q, r.word j w → text ≠ p ++ w ++ q) ∨
      ∃ p w q p', r.word j w ∧ text = p ++ w ++ q ∧ R text = p' ++ r.value j ++ q := by
  induction text using text_induction r j with
  | nil =>
      refine .inl ?_
      intro p w q hw heq
      simp [r.word_ne_nil hw] at heq
  | miss c text hnone ih =>
      rcases ih with hno | ⟨p, w, q, p', hw, rfl, hR'⟩
      · refine .inl ?_
        intro p w q hw heq
        cases p with
        | nil => exact hnone j rfl w q hw heq
        | cons d p => exact hno p w q hw (List.cons.inj heq).2
      · refine .inr ⟨c :: p, w, q, c :: p', hw, rfl, ?_⟩
        rw [hR.miss hnone, hR']
        rfl
  | hit w rest hw ih =>
      rcases ih with hno | ⟨p, w', q, p', hw', rfl, hR'⟩
      · have hrest : R rest = rest := hR.eq_self hno
        exact .inr ⟨[], w, rest, [], hw, rfl, by rw [hR.hit hw, hrest]; rfl⟩
      · refine .inr ⟨w ++ p, w', q, r.value j ++ p', hw', by simp, ?_⟩
        rw [hR.hit hw, hR']
        simp

/-- **A text that a replacement leaves as it is** has no word but the value itself. -/
theorem Replaces.word_eq_value {S : Set ι} (hsep : Separate r S) (hj : j ∈ S)
    (hR : Replaces r j R) {weight : α → Nat} (hsame : SameWeight r j weight) (text : List α) :
    R text = text → ∀ p w q, r.word j w → text = p ++ w ++ q → w = r.value j := by
  induction text using text_induction r j with
  | nil =>
      intro _ p w q hw heq
      simp [r.word_ne_nil hw] at heq
  | miss c text hnone ih =>
      intro hfix p w q hw heq
      rw [hR.miss hnone] at hfix
      cases p with
      | nil => exact absurd heq (hnone j rfl w q hw)
      | cons d p => exact ih (List.cons.inj hfix).2 p w q hw (List.cons.inj heq).2
  | hit w₀ rest hw₀ ih =>
      intro hfix p w q hw heq
      have hcut : r.value j ++ R rest = w₀ ++ rest := by rw [← hR.hit hw₀, hfix]
      have hweight : total weight (r.value j) = total weight w₀ := by
        obtain ⟨n, hn⟩ := hR.exists_total hsame hw₀ rest
        have hboth := congrArg (total weight) hcut
        rw [total_append, total_append] at hboth
        have hmul : (n + 1) * total weight (r.value j) = (n + 1) * total weight w₀ := by
          rw [Nat.succ_mul, Nat.succ_mul]
          omega
        exact Nat.eq_of_mul_eq_mul_left (Nat.succ_pos n) hmul
      have hvalue : w₀ = r.value j := by
        rcases append_cases hcut with ⟨t, hw₀t, -⟩ | ⟨t, ht, hvt, -⟩
        · by_cases ht : t = []
          · rw [hw₀t, ht, List.append_nil]
          · obtain ⟨u, x, hux, hx⟩ := hsame.last hw₀
            have hpos := total_pos_of_last ht hx (hw₀t.symm.trans hux)
            rw [hw₀t, total_append] at hweight
            omega
        · -- The value ends like the last word of the text.
          rcases hR.exists_last (w₀ ++ rest) with hno | ⟨p', w', q', p'', hw', htext, hR'⟩
          · exact absurd rfl (hno [] w₀ rest hw₀)
          · obtain ⟨u, x, hux, hx⟩ := hsame.last hw'
            have hends : p'' ++ w₀ ++ t = p' ++ u ++ [x] := by
              have h := hfix.symm.trans hR'
              rw [htext, hvt, hux] at h
              simpa using (List.append_cancel_right h).symm
            have hpos := total_pos_of_last ht hx hends
            rw [hvt, total_append] at hweight
            omega
      have hrest : R rest = rest := by
        rw [← hvalue] at hcut
        exact List.append_cancel_left hcut
      rw [List.append_assoc] at heq
      rcases append_cases heq with ⟨t, rfl, hrest'⟩ | ⟨t, ht, hpt, -⟩
      · exact ih hrest t w q hw (by rw [hrest', List.append_assoc])
      · have hshare : Share [] w₀ p w := by
          have hpos : 0 < w.length := List.length_pos_iff.mpr (r.word_ne_nil hw)
          have htpos : 0 < t.length := List.length_pos_iff.mpr ht
          refine ⟨?_, ?_⟩
          · rw [List.length_nil]
            omega
          · rw [hpt, List.length_nil, List.length_append]
            omega
        have h := hsep j hj j hj [] w₀ rest p w q hw₀ hw (by rw [List.append_assoc p]; exact heq)
          hshare
        rw [← h.2.1, hvalue]

end Fixed

/-! ## A text with one word -/

section Alone

variable {r : Rules α ι} {S : Set ι}

/-- No word of the rules is in the text. -/
def Free (r : Rules α ι) (S : Set ι) (text : List α) : Prop :=
  ∀ i ∈ S, ∀ p w q, r.word i w → text ≠ p ++ w ++ q

theorem Free.mono {T : Set ι} (hST : S ⊆ T) {text : List α} (h : Free r T text) :
    Free r S text :=
  fun i hi => h i (hST hi)

theorem free_nil : Free r S [] := by
  intro i _ p w q hw heq
  simp [r.word_ne_nil hw] at heq

/-- A part of a word is free of words. -/
theorem Separate.free_of_word (hsep : Separate r S) {j : ι} (hj : j ∈ S) {w x a b : List α}
    (hw : r.word j w) (hx : w = a ++ x ++ b) (hab : a ≠ [] ∨ b ≠ []) : Free r S x := by
  intro k hk p z q hz heq
  have hpos : 0 < z.length := List.length_pos_iff.mpr (r.word_ne_nil hz)
  have hlen : w.length = a.length + (p.length + z.length + q.length) + b.length := by
    rw [hx, heq]
    simp only [List.length_append]
  have hshare : Share [] w (a ++ p) z := by
    refine ⟨?_, ?_⟩
    · rw [List.length_nil]
      omega
    · rw [List.length_nil, List.length_append, hlen]
      omega
  obtain ⟨hap, hwz, -⟩ := hsep j hj k hk [] w [] (a ++ p) z (q ++ b) hw hz
    (by rw [hx, heq]; simp) hshare
  have hlen' : w.length = z.length := by rw [hwz]
  have hlong : 0 < a.length + b.length := by
    rcases hab with ha | hb
    · have := List.length_pos_iff.mpr ha
      omega
    · have := List.length_pos_iff.mpr hb
      omega
  omega

/-- The words of a text are those of its parts, if no word reaches across. -/
theorem Separate.alone (hsep : Separate r S) {i : ι} (hi : i ∈ S) {x u y : List α}
    (hu : r.word i u) (hx : Free r S x) (hy : Free r S y) {k : ι} (hk : k ∈ S)
    {p z q : List α} (hz : r.word k z) (heq : x ++ u ++ y = p ++ z ++ q) :
    x = p ∧ u = z ∧ i = k := by
  by_cases hshare : Share x u p z
  · exact hsep i hi k hk x u y p z q hu hz heq hshare
  · exfalso
    have heq' : x ++ (u ++ y) = p ++ (z ++ q) := by
      rw [← List.append_assoc, heq, List.append_assoc]
    have hupos : 0 < u.length := List.length_pos_iff.mpr (r.word_ne_nil hu)
    have hzpos : 0 < z.length := List.length_pos_iff.mpr (r.word_ne_nil hz)
    by_cases hle : x.length < p.length + z.length
    · -- The other word is behind.
      have hbehind : x.length + u.length ≤ p.length := by
        by_contra hlt
        exact hshare ⟨hle, by omega⟩
      rcases append_cases (show x ++ u ++ y = p ++ (z ++ q) by
        rw [heq, List.append_assoc]) with ⟨t, -, hyt⟩ | ⟨t, ht, hxu, -⟩
      · exact hy k hk t z q hz (by rw [hyt, List.append_assoc])
      · have htpos : 0 < t.length := List.length_pos_iff.mpr ht
        have hlen := congrArg List.length hxu
        rw [List.length_append, List.length_append] at hlen
        omega
    · rcases append_cases (show p ++ z ++ q = x ++ (u ++ y) by
        rw [← heq, List.append_assoc]) with ⟨t, hxt, -⟩ | ⟨t, ht, hpz, -⟩
      · exact hx k hk p z t hz hxt
      · have htpos : 0 < t.length := List.length_pos_iff.mpr ht
        have hlen := congrArg List.length hpz
        rw [List.length_append, List.length_append] at hlen
        omega

/-- **A text with one word.** Its substitution has the value in the place of the word. -/
theorem Substituted.of_alone (hsep : Separate r S) {i : ι} (hi : i ∈ S) {x u y out : List α}
    (hu : r.word i u) (hx : Free r S x) (hy : Free r S y)
    (h : Substituted r S (x ++ u ++ y) out) : out = x ++ r.value i ++ y := by
  rw [List.append_assoc] at h
  have hfront : ∀ a b, x = a ++ b → b ≠ [] → NoneStarts r S (b ++ (u ++ y)) := by
    intro a b hab hb k hk z q hz heq
    have htext : x ++ u ++ y = a ++ z ++ q := by
      rw [hab, List.append_assoc, List.append_assoc, heq, List.append_assoc]
    have hxa := (hsep.alone hi hu hx hy hk hz htext).1
    rw [hxa] at hab
    exact hb (by simpa using hab)
  obtain ⟨out₁, rfl, h₁⟩ := Substituted.of_append hfront h
  obtain ⟨out₂, rfl, h₂⟩ := h₁.of_word hi hu
  have hback : ∀ a b, y = a ++ b → b ≠ [] → NoneStarts r S (b ++ []) := by
    intro a b hab _ k hk z q hz heq
    rw [List.append_nil] at heq
    exact hy k hk a z q hz (by rw [hab, heq, List.append_assoc])
  rw [← List.append_nil y] at h₂
  obtain ⟨out₃, rfl, h₃⟩ := Substituted.of_append hback h₂
  rw [h₃.eq_nil]
  simp

end Alone

/-! ## When rules may be applied one after the other -/

section Orders

variable {r : Rules α ι} {S : Set ι} {R : ι → List α → List α}

/-- Two stretches that share a place, with no more around them than they need. -/
theorem exists_minimal {v w x y p q : List α} (heq : x ++ v ++ y = p ++ w ++ q)
    (hshare : Share x v p w) :
    ∃ x' y' p' q', x' ++ v ++ y' = p' ++ w ++ q' ∧
      (x' = [] ∨ ∃ t, t ≠ [] ∧ w = x' ++ t) ∧ (y' = [] ∨ ∃ t, t ≠ [] ∧ w = t ++ y') := by
  obtain ⟨hxp, hpx⟩ := hshare
  -- What is before both stretches is dropped, then what is behind both.
  have hleft : ∃ x' p', x' ++ (v ++ y) = p' ++ (w ++ q) ∧ p'.length < x'.length + v.length ∧
      (x' = [] ∨ ∃ t, t ≠ [] ∧ w = x' ++ t) := by
    rw [List.append_assoc, List.append_assoc] at heq
    rcases append_cases heq with ⟨t, hp, hvy⟩ | ⟨t, _, hx, hwq⟩
    · refine ⟨[], t, hvy, ?_, .inl rfl⟩
      rw [hp, List.length_append] at hpx
      rw [List.length_nil]
      omega
    · refine ⟨t, [], by rw [← hwq]; rfl, ?_, .inr ?_⟩
      · rw [hx, List.length_append] at hpx
        rw [List.length_nil]
        omega
      · rcases append_cases hwq with ⟨s, ht, -⟩ | ⟨s, hs, hw, -⟩
        · have hlen := congrArg List.length hx
          rw [ht, List.length_append, List.length_append] at hlen
          omega
        · exact ⟨s, hs, hw⟩
  obtain ⟨x', p', heq', hp', hx'⟩ := hleft
  rw [← List.append_assoc, ← List.append_assoc] at heq'
  rcases append_cases heq' with ⟨t, hpw, hy⟩ | ⟨t, _, hxv, hq⟩
  · refine ⟨x', t, p', [], by rw [List.append_nil, hpw], hx', ?_⟩
    rcases append_cases hpw with ⟨s, hxvs, hw⟩ | ⟨s, hs, hp, ht⟩
    · refine .inr ⟨s, ?_, hw⟩
      rintro rfl
      have hlen := congrArg List.length hxvs
      simp only [List.length_append, List.length_nil] at hlen
      omega
    · have hlen := congrArg List.length hp
      simp only [List.length_append] at hlen
      omega
  · exact ⟨x', [], p', t, by rw [List.append_nil, hxv], hx', .inl rfl⟩

/-- One rule alone, on a text with one word of it. -/
theorem Replaces.of_alone (hsep : Separate r S) {i : ι} (hi : i ∈ S) (hR : Replaces r i (R i))
    {x u y : List α} (hu : r.word i u) (hx : Free r S x) (hy : Free r S y) :
    R i (x ++ u ++ y) = x ++ r.value i ++ y := by
  have hsub : ({i} : Set ι) ⊆ S := Set.singleton_subset_iff.mpr hi
  have hself : Untouched r ({i} : Set ι) := by
    rintro j rfl k rfl hne
    exact absurd rfl hne
  have hrun : Substituted r (insert i ∅) (x ++ u ++ y) (R i (x ++ u ++ y)) :=
    Substituted.replace (S := {i}) (hsep.mono hsub) hself (Set.empty_subset _) rfl
      (Set.notMem_empty i) hR (substituted_empty _)
  exact (hrun.congr (T := {i}) (by simp)).of_alone (hsep.mono hsub) rfl hu (hx.mono hsub)
    (hy.mono hsub)

theorem foldl_eq_self {text : List α} :
    ∀ order : List ι, (∀ i ∈ order, R i text = text) →
      order.foldl (fun acc i => R i acc) text = text
  | [], _ => rfl
  | i :: order, h => by
      rw [List.foldl_cons, h i List.mem_cons_self]
      exact foldl_eq_self order fun k hk => h k (List.mem_cons_of_mem i hk)

/-- Two elements of a list can stand at its end. -/
theorem exists_perm_end {l : List ι} (hnodup : l.Nodup) {i j : ι} (hi : i ∈ l) (hj : j ∈ l)
    (hij : i ≠ j) :
    ∃ others, (others ++ [i, j]).Perm l ∧ ∀ k ∈ others, k ∈ l ∧ k ≠ i ∧ k ≠ j := by
  obtain ⟨l₁, l₂, rfl⟩ := List.append_of_mem hi
  have hperm : (i :: (l₁ ++ l₂)).Perm (l₁ ++ i :: l₂) := List.perm_middle.symm
  have hrest : (i :: (l₁ ++ l₂)).Nodup := hperm.nodup_iff.mpr hnodup
  have hjrest : j ∈ l₁ ++ l₂ := by
    rcases List.mem_cons.mp (hperm.mem_iff.mpr hj) with rfl | h
    · exact absurd rfl hij
    · exact h
  obtain ⟨m₁, m₂, hm⟩ := List.append_of_mem hjrest
  rw [hm] at hperm hrest
  have hperm' : (m₁ ++ m₂ ++ [i, j]).Perm (l₁ ++ i :: l₂) :=
    calc (m₁ ++ m₂ ++ [i, j]).Perm ([i, j] ++ (m₁ ++ m₂)) := List.perm_append_comm
      List.Perm (i :: j :: (m₁ ++ m₂)) (i :: (m₁ ++ j :: m₂)) := List.perm_middle.symm.cons i
      List.Perm _ (l₁ ++ i :: l₂) := hperm
  refine ⟨m₁ ++ m₂, hperm', ?_⟩
  intro k hk
  have hnodup' : (m₁ ++ m₂ ++ [i, j]).Nodup := hperm'.nodup_iff.mpr hnodup
  refine ⟨hperm'.mem_iff.mp (List.mem_append_left _ hk), ?_, ?_⟩
  · rintro rfl
    exact (List.nodup_append.mp hnodup').2.2 k hk k (by simp) rfl
  · rintro rfl
    exact (List.nodup_append.mp hnodup').2.2 k hk k (by simp) rfl

/-- **Any order.** Applying the rules one after the other substitutes every text, and in every order
the same, if and only if words never share a place with each other nor with another value. -/
theorem orders_iff {l : List ι} (hnodup : l.Nodup) (hR : ∀ i ∈ l, Replaces r i (R i))
    {weight : α → Nat} (hsame : ∀ i ∈ l, SameWeight r i weight)
    (hword : ∀ i ∈ l, ∃ w, r.word i w) :
    (∀ text, ∃ out, Substituted r {i | i ∈ l} text out ∧
        ∀ order : List ι, order.Perm l → order.foldl (fun acc i => R i acc) text = out) ↔
      Separate r {i | i ∈ l} ∧ Untouched r {i | i ∈ l} := by
  constructor
  · intro h
    have hsep : Separate r {i | i ∈ l} := separate_of_substituted fun text => by
      obtain ⟨out, hout, -⟩ := h text
      exact ⟨out, hout⟩
    refine ⟨hsep, ?_⟩
    intro i hi j hj hij x₀ y₀ p₀ w q₀ hw heq₀ hshare
    obtain ⟨x, y, p, q, heq, hx, hy⟩ := exists_minimal heq₀ hshare
    have hxfree : Free r {i | i ∈ l} x := by
      rcases hx with rfl | ⟨t, ht, hwt⟩
      · exact free_nil
      · exact hsep.free_of_word hj hw (a := []) hwt (.inr ht)
    have hyfree : Free r {i | i ∈ l} y := by
      rcases hy with rfl | ⟨t, ht, hwt⟩
      · exact free_nil
      · exact hsep.free_of_word hj hw (b := []) (by rw [hwt, List.append_nil]) (.inl ht)
    obtain ⟨u, hu⟩ := hword i hi
    obtain ⟨others, hperm, hothers⟩ := exists_perm_end hnodup hi hj hij
    obtain ⟨out, hout, hruns⟩ := h (x ++ u ++ y)
    have hout' : out = x ++ r.value i ++ y := hout.of_alone hsep hi hu hxfree hyfree
    -- The other rules find nothing, then the value appears, then the last rule must keep it.
    have hidle : others.foldl (fun acc k => R k acc) (x ++ u ++ y) = x ++ u ++ y := by
      refine foldl_eq_self others fun k hk => ?_
      obtain ⟨hkl, hki, -⟩ := hothers k hk
      refine (hR k hkl).eq_self fun p z q hz heq => ?_
      exact hki (hsep.alone hi hu hxfree hyfree hkl hz heq).2.2.symm
    have hfix : R j (x ++ r.value i ++ y) = x ++ r.value i ++ y := by
      have hrun := hruns _ hperm
      rw [List.foldl_append, hidle, List.foldl_cons, List.foldl_cons, List.foldl_nil,
        Replaces.of_alone hsep hi (hR i hi) hu hxfree hyfree, hout'] at hrun
      exact hrun
    exact (hR j hj).word_eq_value hsep hj (hsame j hj) _ hfix p w q hw heq
  · rintro ⟨hsep, hfree⟩ text
    have hrun : ∀ order : List ι, order.Perm l →
        Substituted r {i | i ∈ l} text (order.foldl (fun acc i => R i acc) text) := by
      intro order hperm
      have hmem : ∀ i ∈ order, i ∈ l := fun i hi => hperm.mem_iff.mp hi
      have h := Substituted.foldl hsep hfree hR order (Set.empty_subset _) hmem
        (hperm.nodup_iff.mpr hnodup) (fun i _ => Set.notMem_empty i) (substituted_empty text)
      refine h.congr ?_
      ext i
      show i ∈ (∅ : Set ι) ∨ i ∈ order ↔ i ∈ l
      rw [hperm.mem_iff]
      exact or_iff_right (Set.notMem_empty i)
    refine ⟨_, hrun l (List.Perm.refl l), fun order hperm => ?_⟩
    exact (hrun order hperm).unique (hrun l (List.Perm.refl l))

end Orders

end ErpApi.Substitution
