import Mathlib.Data.List.Nodup
import Mathlib.Order.Basic

set_option autoImplicit false

/-! # Two printers that number one list

Two printers print numbers onto one list. The printer whose turn it is looks at the last entry
only: if it recognises it as one of its own numbers, it prints the next number, else it starts
at 1. When it starts although numbers of its own are on the list, it may print one of them
again.

The list stays free of repetitions as long as a printer starts only when the list has none of
its numbers (`Chain.next`, `Chain.nodup`): up to the point where the second printer starts, the
list has the first numbers of one printer, and after it every entry continues the one before
and is therefore larger.
-/

namespace ErpApi.NumberChain

variable {τ : Type} [Preorder τ]

/-- What the two printers print for a number. Below its limit a printer recognises its own
numbers, and they grow. -/
structure Printers (τ : Type) [Preorder τ] where
  print : Bool → Nat → τ
  limit : Bool → Nat
  mono : ∀ b i j, i < j → j < limit b → print b i < print b j

section Printers

variable (p : Printers τ)

/-- The entry is the number `j` of the printer. -/
def Printers.Recognizes (b : Bool) (j : Nat) (t : τ) : Prop :=
  0 < j ∧ j < p.limit b ∧ t = p.print b j

/-- The entry is what the printer prints for some number. -/
def Printers.Prints (b : Bool) (t : τ) : Prop := ∃ j, 0 < j ∧ t = p.print b j

/-- The printer continues the last entry, which is at the head of the list. -/
def Printers.Continues (b : Bool) (issued : List τ) (t : τ) : Prop :=
  ∃ j v rest, issued = v :: rest ∧ p.Recognizes b j v ∧ j + 1 < p.limit b ∧
    t = p.print b (j + 1)

/-- The printer starts on a list without numbers of its own. -/
def Printers.Starts (b : Bool) (issued : List τ) (t : τ) : Prop :=
  (∀ v ∈ issued, ¬ p.Prints b v) ∧ ∃ n, 0 < n ∧ t = p.print b n ∧ (issued = [] → n = 1)

/-- The first `k` numbers of a printer, the last of them at the head. -/
def Printers.firsts (b : Bool) (k : Nat) : List τ := ((List.range' 1 k).map (p.print b)).reverse

/-- The list: the first numbers of one printer, then entries that continue each other. The later
entries continue the first ones as well, or the second printer has started in between. -/
structure Chain (b : Bool) (k : Nat) (later issued : List τ) : Prop where
  eq : issued = later ++ p.firsts b k
  fits : 2 ≤ k → k < p.limit b
  grows : later.Pairwise fun newer older => older < newer
  both : later ≠ [] → ∀ b', ∃ t ∈ issued, p.Prints b' t
  link : (∀ t ∈ later, ∀ d ∈ p.firsts b k, d < t) ∨
    (∀ d ∈ p.firsts b k, ¬ p.Prints (!b) d) ∧
      ∀ t ∈ later, t ∉ p.firsts b k ∧ ∀ j, p.Recognizes b j t → k < j

variable {p} {b : Bool} {k : Nat} {later issued : List τ} {t : τ}

theorem Printers.print_inj {i j : Nat} (hi : i < p.limit b) (hj : j < p.limit b)
    (h : p.print b i = p.print b j) : i = j := by
  rcases Nat.lt_trichotomy i j with hlt | heq | hgt
  · have := p.mono b i j hlt hj
    rw [h] at this
    exact absurd this (lt_irrefl _)
  · exact heq
  · have := p.mono b j i hgt hi
    rw [h] at this
    exact absurd this (lt_irrefl _)

theorem Printers.Recognizes.prints {j : Nat} (h : p.Recognizes b j t) : p.Prints b t :=
  ⟨j, h.1, h.2.2⟩

theorem Printers.mem_firsts : t ∈ p.firsts b k ↔ ∃ i, 0 < i ∧ i ≤ k ∧ t = p.print b i := by
  rw [Printers.firsts, List.mem_reverse, List.mem_map]
  constructor
  · rintro ⟨i, hi, rfl⟩
    have := List.mem_range'_1.mp hi
    exact ⟨i, by omega, by omega, rfl⟩
  · rintro ⟨i, hpos, hle, rfl⟩
    exact ⟨i, List.mem_range'_1.mpr (by omega), rfl⟩

theorem Printers.firsts_succ (p : Printers τ) (b : Bool) (k : Nat) :
    p.firsts b (k + 1) = p.print b (k + 1) :: p.firsts b k := by
  rw [Printers.firsts, Printers.firsts, List.range'_concat, List.map_append, List.reverse_append,
    Nat.one_mul, Nat.add_comm 1 k]
  rfl

theorem Chain.nodup_firsts (h : Chain p b k later issued) : (p.firsts b k).Nodup := by
  rw [Printers.firsts, List.nodup_reverse]
  refine List.Nodup.map_on ?_ List.nodup_range'
  intro i hi j hj heq
  have hi' := List.mem_range'_1.mp hi
  have hj' := List.mem_range'_1.mp hj
  rcases Nat.lt_or_ge k 2 with hk | hk
  · omega
  · have hfits := h.fits hk
    exact Printers.print_inj (by omega) (by omega) heq

/-- A list of this form has no repetition. -/
theorem Chain.nodup (h : Chain p b k later issued) : issued.Nodup := by
  rw [h.eq, List.nodup_append]
  refine ⟨?_, h.nodup_firsts, ?_⟩
  · refine h.grows.imp ?_
    rintro newer older hlt rfl
    exact lt_irrefl _ hlt
  · rintro t ht d hd rfl
    rcases h.link with hlt | ⟨-, hnew⟩
    · exact lt_irrefl _ (hlt t ht t hd)
    · exact (hnew t ht).1 hd

theorem chain_nil (p : Printers τ) (b : Bool) : Chain p b 0 [] [] where
  eq := rfl
  fits := by omega
  grows := List.Pairwise.nil
  both := fun h => absurd rfl h
  link := Or.inl fun _ ht => by cases ht

/-- The entries before the last of the first numbers are smaller. -/
theorem Chain.firsts_le (h : Chain p b k later issued) {d : τ} (hd : d ∈ p.firsts b k) :
    d = p.print b k ∨ d < p.print b k := by
  obtain ⟨i, hpos, hle, rfl⟩ := Printers.mem_firsts.mp hd
  rcases Nat.lt_or_eq_of_le hle with hlt | rfl
  · exact Or.inr (p.mono b i k hlt (h.fits (by omega)))
  · exact Or.inl rfl

/-- The printer of the first numbers goes on with them. -/
theorem Chain.grow (h : Chain p b k [] issued) (hk : k + 1 < p.limit b) :
    Chain p b (k + 1) [] (p.print b (k + 1) :: issued) where
  eq := by rw [h.eq, Printers.firsts_succ]; rfl
  fits := fun _ => hk
  grows := List.Pairwise.nil
  both := fun hne => absurd rfl hne
  link := Or.inl fun _ ht => by cases ht

/-- The first later entry. -/
theorem Chain.second (h : Chain p b k [] issued) (hk : 0 < k) (ht : p.Prints (!b) t)
    (hlink : (∀ d ∈ p.firsts b k, d < t) ∨ ∀ d ∈ p.firsts b k, ¬ p.Prints (!b) d) :
    Chain p b k [t] (t :: issued) where
  eq := by rw [h.eq]; rfl
  fits := h.fits
  grows := List.pairwise_singleton _ _
  both := by
    have hfirst : p.print b k ∈ issued := by
      rw [h.eq]
      exact Printers.mem_firsts.mpr ⟨k, hk, Nat.le_refl k, rfl⟩
    intro _ b'
    by_cases hb : b' = b
    · exact ⟨_, List.mem_cons_of_mem _ hfirst, hb ▸ ⟨k, hk, rfl⟩⟩
    · have hb' : b' = !b := Bool.eq_not_of_ne hb
      exact ⟨t, List.mem_cons_self, hb' ▸ ht⟩
  link := by
    refine hlink.imp (fun hlt t' ht' => ?_) (fun hnone => ⟨hnone, fun t' ht' => ?_⟩)
    · obtain rfl := List.mem_singleton.mp ht'
      exact hlt
    · obtain rfl := List.mem_singleton.mp ht'
      refine ⟨fun hmem => hnone t' hmem ht, fun j hj => ?_⟩
      by_contra hle
      exact hnone t' (Printers.mem_firsts.mpr ⟨j, hj.1, by omega, hj.2.2⟩) ht

/-- One more entry that continues the last one. -/
theorem Chain.later_continues {v : τ} {rest : List τ} {b' : Bool} {j : Nat}
    (h : Chain p b k (v :: rest) issued) (hv : p.Recognizes b' j v)
    (hj : j + 1 < p.limit b') :
    Chain p b k (p.print b' (j + 1) :: v :: rest) (p.print b' (j + 1) :: issued) := by
  obtain ⟨hpos, hlt, rfl⟩ := hv
  have hless : p.print b' j < p.print b' (j + 1) := p.mono b' j (j + 1) (by omega) hj
  have hgrows := h.grows
  refine ⟨?_, h.fits, ?_, ?_, ?_⟩
  · rw [h.eq]
    rfl
  · refine List.pairwise_cons.mpr ⟨fun older holder => ?_, hgrows⟩
    rcases List.mem_cons.mp holder with rfl | hrest
    · exact hless
    · exact lt_trans (List.rel_of_pairwise_cons hgrows hrest) hless
  · intro _ b''
    obtain ⟨t, ht, hprints⟩ := h.both (List.cons_ne_nil _ _) b''
    exact ⟨t, List.mem_cons_of_mem _ ht, hprints⟩
  · refine h.link.imp (fun hall => ?_) (fun ⟨hnone, hnew⟩ => ⟨hnone, ?_⟩)
    · intro t ht d hd
      rcases List.mem_cons.mp ht with rfl | ht
      · exact lt_trans (hall _ List.mem_cons_self d hd) hless
      · exact hall t ht d hd
    · intro t ht
      rcases List.mem_cons.mp ht with rfl | ht
      · by_cases hb : b' = b
        · -- The printer of the first numbers goes on after the later entry `v`.
          subst hb
          have hk := (hnew _ List.mem_cons_self).2 j ⟨hpos, hlt, rfl⟩
          refine ⟨fun hmem => ?_, fun l hl => ?_⟩
          · obtain ⟨i, hi, hle, heq⟩ := Printers.mem_firsts.mp hmem
            have := Printers.print_inj (p := p) hj (by omega) heq
            omega
          · have := Printers.print_inj (p := p) hj hl.2.1 hl.2.2
            omega
        · have hb' : b' = !b := Bool.eq_not_of_ne hb
          have hprints : p.Prints (!b) (p.print b' (j + 1)) := ⟨j + 1, by omega, by rw [hb']⟩
          refine ⟨fun hmem => hnone _ hmem hprints, fun l hl => ?_⟩
          by_contra hle
          exact hnone _ (Printers.mem_firsts.mpr ⟨l, hl.1, by omega, hl.2.2⟩) hprints
      · exact hnew t ht

/-- **A printer that continues the last entry, or starts on a list without its numbers, keeps
the form of the list.** -/
theorem Chain.next (h : Chain p b k later issued) {b' : Bool}
    (ht : p.Continues b' issued t ∨ p.Starts b' issued t) :
    ∃ b k later, Chain p b k later (t :: issued) := by
  rcases ht with ⟨j, v, rest, hissued, hv, hj, rfl⟩ | ⟨hnone, n, hn, rfl, hfirst⟩
  · cases later with
    | cons v' later' =>
        obtain ⟨rfl, -⟩ := List.cons.inj (hissued.symm.trans h.eq)
        exact ⟨b, k, _, h.later_continues hv hj⟩
    | nil =>
        cases k with
        | zero =>
            rw [h.eq] at hissued
            cases hissued
        | succ k =>
            have hhead := h.eq
            rw [Printers.firsts_succ] at hhead
            obtain ⟨rfl, -⟩ := List.cons.inj (hissued.symm.trans hhead)
            by_cases hb : b' = b
            · subst hb
              obtain ⟨-, hlt, heq⟩ := hv
              have hsame : k + 1 = j := by
                rcases Nat.lt_or_ge (k + 1) 2 with hk | hk
                · have hone : k + 1 < p.limit b' := by omega
                  exact Printers.print_inj hone hlt heq
                · exact Printers.print_inj (h.fits hk) hlt heq
              subst hsame
              exact ⟨b', _, [], h.grow hj⟩
            · have hb' : b' = !b := Bool.eq_not_of_ne hb
              refine ⟨b, k + 1, _, h.second (by omega) ⟨j + 1, by omega, by rw [hb']⟩
                (Or.inl fun d hd => ?_)⟩
              have hless : p.print b (k + 1) < p.print b' (j + 1) := by
                rw [hv.2.2]
                exact p.mono b' j (j + 1) (by omega) hj
              rcases h.firsts_le hd with rfl | hd
              · exact hless
              · exact lt_trans hd hless
  · cases later with
    | cons v later' =>
        obtain ⟨t, hmem, hprints⟩ := h.both (List.cons_ne_nil _ _) b'
        exact absurd hprints (hnone t hmem)
    | nil =>
        cases k with
        | zero =>
            have hnil : issued = [] := h.eq
            obtain rfl := hfirst hnil
            subst hnil
            refine ⟨b', 1, [], rfl, by omega, List.Pairwise.nil, fun hne => absurd rfl hne, ?_⟩
            exact Or.inl fun _ ht => by cases ht
        | succ k =>
            have hmem : p.print b (k + 1) ∈ issued := by
              rw [h.eq, List.nil_append]
              exact Printers.mem_firsts.mpr ⟨k + 1, by omega, Nat.le_refl _, rfl⟩
            have hb : b' ≠ b := by
              rintro rfl
              exact hnone _ hmem ⟨k + 1, by omega, rfl⟩
            have hb' : b' = !b := Bool.eq_not_of_ne hb
            subst hb'
            refine ⟨b, k + 1, _, h.second (by omega) ⟨n, hn, rfl⟩ (Or.inr fun d hd => ?_)⟩
            refine hnone d ?_
            rw [h.eq]
            exact hd

end Printers

end ErpApi.NumberChain
