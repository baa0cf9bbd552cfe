import Mathlib.Data.List.Basic
import Mathlib.Data.List.Forall2

set_option autoImplicit false

/-! # Loops under exceptions

`List.anyM` and `List.allM` in `Except` are the source language's `some` and `every` with a
predicate that may throw: the first decisive element ends the loop, and an exception raised
before it is passed on. The last section has the same for the sequences and loops that
build a result.
-/

namespace ErpApi

variable {ε α : Type} {f : α → Except ε Bool}

/-- The loop `every` answers `true` when every element does. -/
theorem allM_eq_ok_true {l : List α} : l.allM f = .ok true ↔ ∀ a ∈ l, f a = .ok true := by
  induction l with
  | nil => simp [List.allM, pure, Except.pure]
  | cons a l ih =>
      cases ha : f a with
      | error e => simp [List.allM, ha, bind, Except.bind]
      | ok b =>
          cases b
          · simp [List.allM, ha, bind, Except.bind, pure, Except.pure]
          · simpa [List.allM, ha, bind, Except.bind] using ih

/-- The loop `every` raises when an element does and every element before it holds. -/
theorem allM_eq_error {l : List α} :
    (∃ e, l.allM f = .error e) ↔
      ∃ before a rest, l = before ++ a :: rest ∧ (∀ b ∈ before, f b = .ok true) ∧
        ∃ e, f a = .error e := by
  induction l with
  | nil => simp [List.allM, pure, Except.pure]
  | cons c l ih =>
      have hsplit : (∃ before a rest, c :: l = before ++ a :: rest ∧
          (∀ b ∈ before, f b = .ok true) ∧ ∃ e, f a = .error e) ↔
          (∃ e, f c = .error e) ∨ f c = .ok true ∧ ∃ before a rest, l = before ++ a :: rest ∧
            (∀ b ∈ before, f b = .ok true) ∧ ∃ e, f a = .error e := by
        constructor
        · rintro ⟨before, a, rest, hl, hbefore, ha⟩
          cases before with
          | nil =>
              obtain ⟨rfl, -⟩ := List.cons.inj hl
              exact .inl ha
          | cons d before =>
              obtain ⟨rfl, rfl⟩ := List.cons.inj hl
              exact .inr ⟨hbefore c List.mem_cons_self, before, a, rest, rfl,
                fun b hb => hbefore b (List.mem_cons_of_mem _ hb), ha⟩
        · rintro (ha | ⟨hc, before, a, rest, rfl, hbefore, ha⟩)
          · exact ⟨[], c, l, rfl, by simp, ha⟩
          · refine ⟨c :: before, a, rest, rfl, ?_, ha⟩
            intro b hb
            rcases List.mem_cons.mp hb with rfl | hb
            · exact hc
            · exact hbefore b hb
      rw [hsplit, ← ih]
      cases hc : f c with
      | error e => simp [List.allM, hc, bind, Except.bind]
      | ok b => cases b <;> simp [List.allM, hc, bind, Except.bind, pure, Except.pure]

/-- The loop `some` answers `false` when every element does. -/
theorem anyM_eq_ok_false {l : List α} : l.anyM f = .ok false ↔ ∀ a ∈ l, f a = .ok false := by
  induction l with
  | nil => simp [List.anyM, pure, Except.pure]
  | cons a l ih =>
      cases ha : f a with
      | error e => simp [List.anyM, ha, bind, Except.bind]
      | ok b =>
          cases b
          · simpa [List.anyM, ha, bind, Except.bind] using ih
          · simp [List.anyM, ha, bind, Except.bind, pure, Except.pure]

/-- The loop `some` answers `true` when an element does and no element before it raises. -/
theorem anyM_eq_ok_true {l : List α} :
    l.anyM f = .ok true ↔
      ∃ before a rest, l = before ++ a :: rest ∧ f a = .ok true ∧
        ∀ b ∈ before, ∃ answer, f b = .ok answer := by
  induction l with
  | nil => simp [List.anyM, pure, Except.pure]
  | cons c l ih =>
      cases hc : f c with
      | error e =>
          simp only [List.anyM, hc, bind, Except.bind]
          constructor
          · rintro ⟨⟩
          · rintro ⟨before, a, rest, hl, ha, hbefore⟩
            cases before with
            | nil =>
                obtain ⟨rfl, -⟩ := List.cons.inj hl
                rw [hc] at ha
                cases ha
            | cons d before =>
                obtain ⟨rfl, -⟩ := List.cons.inj hl
                obtain ⟨answer, hanswer⟩ := hbefore c List.mem_cons_self
                rw [hc] at hanswer
                cases hanswer
      | ok b =>
          cases b with
          | true =>
              simp only [List.anyM, hc, bind, Except.bind, pure, Except.pure, true_iff]
              exact ⟨[], c, l, rfl, hc, by simp⟩
          | false =>
              simp only [List.anyM, hc, bind, Except.bind]
              rw [ih]
              constructor
              · rintro ⟨before, a, rest, rfl, ha, hbefore⟩
                refine ⟨c :: before, a, rest, rfl, ha, ?_⟩
                intro d hd
                rcases List.mem_cons.mp hd with rfl | hd
                · exact ⟨false, hc⟩
                · exact hbefore d hd
              · rintro ⟨before, a, rest, hl, ha, hbefore⟩
                cases before with
                | nil =>
                    obtain ⟨rfl, -⟩ := List.cons.inj hl
                    rw [hc] at ha
                    cases ha
                | cons d before =>
                    obtain ⟨rfl, rfl⟩ := List.cons.inj hl
                    exact ⟨before, a, rest, rfl, ha,
                      fun b hb => hbefore b (List.mem_cons_of_mem _ hb)⟩

/-- A check that overrides the rest: `true` when the check answers `false` and the rest
answers `true`. -/
theorem overrideM_eq_ok_true {check rest : Except ε Bool} :
    (do
      let overridden ← check
      if overridden then return false
      rest) = .ok true ↔ check = .ok false ∧ rest = .ok true := by
  cases check with
  | error e => simp [bind, Except.bind]
  | ok b => cases b <;> simp [bind, Except.bind, pure, Except.pure]

/-! ## Sequences and loops that build a result -/

theorem mapError_eq_ok {ε' : Type} {f : ε → ε'} {x : Except ε α} {a : α} :
    x.mapError f = .ok a ↔ x = .ok a := by
  cases x with
  | error e => exact iff_of_false (fun h => by cases h) (fun h => by cases h)
  | ok b =>
      show Except.ok b = Except.ok a ↔ Except.ok b = Except.ok a
      simp

theorem exists_of_isOk {x : Except ε α} (h : x.isOk = true) : ∃ a, x = .ok a := by
  cases x with
  | error e => cases h
  | ok a => exact ⟨a, rfl⟩

theorem bind_eq_ok {β : Type} {x : Except ε α} {g : α → Except ε β} {b : β} :
    x >>= g = .ok b ↔ ∃ a, x = .ok a ∧ g a = .ok b := by
  cases x with
  | error e => simp [bind, Except.bind]
  | ok a => simp [bind, Except.bind]

/-- An action, and then another one. -/
theorem andThen_eq_ok {β : Type} {action : Except ε Unit} {x : Except ε β} {b : β} :
    (action >>= fun _ => x) = .ok b ↔ action = .ok () ∧ x = .ok b := by
  rw [bind_eq_ok]
  constructor
  · rintro ⟨⟨⟩, haction, hx⟩
    exact ⟨haction, hx⟩
  · rintro ⟨haction, hx⟩
    exact ⟨(), haction, hx⟩

/-- A loop over a list returns when each element does, and lists the results. -/
theorem mapM_eq_ok {β : Type} {g : α → Except ε β} {l : List α} {r : List β} :
    l.mapM g = .ok r ↔ List.Forall₂ (fun a b => g a = .ok b) l r := by
  induction l generalizing r with
  | nil =>
      rw [List.mapM_nil, List.forall₂_nil_left_iff]
      simp [pure, Except.pure, eq_comm]
  | cons a l ih =>
      rw [List.mapM_cons, List.forall₂_cons_left_iff, bind_eq_ok]
      constructor
      · rintro ⟨b, hb, hrest⟩
        obtain ⟨bs, hbs, hr⟩ := bind_eq_ok.mp hrest
        cases hr
        exact ⟨b, bs, hb, ih.mp hbs, rfl⟩
      · rintro ⟨b, bs, hb, hbs, rfl⟩
        exact ⟨b, hb, bind_eq_ok.mpr ⟨bs, ih.mpr hbs, rfl⟩⟩

/-- Every result of a loop comes from an argument. -/
theorem exists_of_mem_of_forall₂ {β : Type} {R : α → β → Prop} {l : List α} {r : List β}
    (h : List.Forall₂ R l r) {b : β} (hb : b ∈ r) : ∃ a ∈ l, R a b := by
  induction h with
  | nil => cases hb
  | cons hab _ ih =>
      rcases List.mem_cons.mp hb with rfl | hb
      · exact ⟨_, List.mem_cons_self, hab⟩
      · obtain ⟨a, ha, hR⟩ := ih hb
        exact ⟨a, List.mem_cons_of_mem _ ha, hR⟩

/-- Every argument of a loop has a result. -/
theorem exists_of_mem_left_of_forall₂ {β : Type} {R : α → β → Prop} {l : List α} {r : List β}
    (h : List.Forall₂ R l r) {a : α} (ha : a ∈ l) : ∃ b ∈ r, R a b :=
  exists_of_mem_of_forall₂ h.flip ha

/-- What holds of all arguments of a loop holds of all its results. -/
theorem forall_iff_of_forall₂ {β : Type} {R : α → β → Prop} {P : α → Prop} {Q : β → Prop}
    {l : List α} {r : List β} (h : List.Forall₂ R l r) (hPQ : ∀ a b, R a b → (P a ↔ Q b)) :
    (∀ a ∈ l, P a) ↔ ∀ b ∈ r, Q b := by
  induction h with
  | nil => simp
  | cons hab _ ih => simp only [List.forall_mem_cons, hPQ _ _ hab, ih]

theorem exists_iff_of_forall₂ {β : Type} {R : α → β → Prop} {P : α → Prop} {Q : β → Prop}
    {l : List α} {r : List β} (h : List.Forall₂ R l r) (hPQ : ∀ a b, R a b → (P a ↔ Q b)) :
    (∃ a ∈ l, P a) ↔ ∃ b ∈ r, Q b := by
  induction h with
  | nil => simp
  | cons hab _ ih => simp only [List.exists_mem_cons_iff, hPQ _ _ hab, ih]

/-- What the steps of the elements of a list keep, the loop keeps. -/
theorem foldlM_keeps_of_mem {β : Type} {step : β → α → Except ε β} {I : β → Prop} :
    ∀ {l : List α} {b b' : β}, (∀ b, ∀ a ∈ l, ∀ b', I b → step b a = .ok b' → I b') → I b →
      l.foldlM step b = .ok b' → I b'
  | [], _, _, _, hb, h => Except.ok.inj h ▸ hb
  | a :: l, b, b', hstep, hb, h => by
      rw [List.foldlM_cons] at h
      obtain ⟨b₁, hb₁, hrest⟩ := bind_eq_ok.mp h
      have htail : ∀ b, ∀ c ∈ l, ∀ b', I b → step b c = .ok b' → I b' :=
        fun b c hc => hstep b c (List.mem_cons_of_mem a hc)
      exact foldlM_keeps_of_mem htail (hstep b a List.mem_cons_self b₁ hb hb₁) hrest

/-- A loop over actions ends well if each of them does. -/
theorem forM_eq_ok {action : α → Except ε Unit} :
    ∀ {l : List α}, l.forM action = .ok () → ∀ a ∈ l, action a = .ok ()
  | a :: l, h, c, hc => by
      have hrun : (action a >>= fun _ => l.forM action) = .ok () := h
      obtain ⟨_, ha, hrest⟩ := bind_eq_ok.mp hrun
      rcases List.mem_cons.mp hc with rfl | hc
      · exact ha
      · exact forM_eq_ok hrest c hc

theorem forM_of_forall {action : α → Except ε Unit} :
    ∀ {l : List α}, (∀ a ∈ l, action a = .ok ()) → l.forM action = .ok ()
  | [], _ => rfl
  | a :: l, h => by
      show (action a >>= fun _ => l.forM action) = .ok ()
      rw [h a List.mem_cons_self]
      exact forM_of_forall fun b hb => h b (List.mem_cons_of_mem a hb)

/-- What every step of a loop keeps, the loop keeps. -/
theorem foldlM_keeps {β : Type} {step : β → α → Except ε β} {I : β → Prop}
    (hstep : ∀ b a b', I b → step b a = .ok b' → I b') :
    ∀ {l : List α} {b b' : β}, I b → l.foldlM step b = .ok b' → I b'
  | [], _, _, hb, h => Except.ok.inj h ▸ hb
  | a :: l, b, b', hb, h => by
      rw [List.foldlM_cons] at h
      obtain ⟨b₁, hb₁, hrest⟩ := bind_eq_ok.mp h
      exact foldlM_keeps hstep (hstep b a b₁ hb hb₁) hrest

/-- What the step of one element brings about and every step keeps holds in the end. -/
theorem foldlM_establishes {β : Type} {step : β → α → Except ε β} {I : β → Prop} {a : α}
    (hstep : ∀ b c b', I b → step b c = .ok b' → I b')
    (ha : ∀ b b', step b a = .ok b' → I b') :
    ∀ {l : List α} {b b' : β}, a ∈ l → l.foldlM step b = .ok b' → I b'
  | c :: l, b, b', hmem, h => by
      rw [List.foldlM_cons] at h
      obtain ⟨b₁, hb₁, hrest⟩ := bind_eq_ok.mp h
      rcases List.mem_cons.mp hmem with rfl | hmem
      · exact foldlM_keeps hstep (ha b b₁ hb₁) hrest
      · exact foldlM_establishes hstep ha hmem hrest

end ErpApi
