import Mathlib.Data.List.Basic
import Mathlib.Algebra.Order.Ring.Nat
import Mathlib.Tactic.Ring

set_option autoImplicit false

/-! # Decimal numbers of a fixed width

`digits width n` writes a number below `10 ^ width` with leading zeros. Such texts can be read
without a separator (`readDigits_digits`), and the code units order them as the numbers are
ordered (`digits_lt_iff`).
-/

namespace ErpApi.FixedWidth

def digits : Nat → Nat → List Char
  | 0, _ => []
  | width + 1, n => Nat.digitChar (n / 10 ^ width) :: digits width (n % 10 ^ width)

/-- The next `width` digits of a text, after `acc`, and the rest of the text. -/
def readDigits : Nat → Nat → List Char → Option (Nat × List Char)
  | 0, acc, text => some (acc, text)
  | _ + 1, _, [] => none
  | width + 1, acc, c :: text =>
      if c.isDigit then readDigits width (acc * 10 + (c.toNat - 48)) text else none

/-- The texts in the order of their code units. -/
def CodesLt (a b : List Char) : Prop := a.map Char.toNat < b.map Char.toNat

instance (a b : List Char) : Decidable (CodesLt a b) :=
  inferInstanceAs (Decidable (a.map Char.toNat < b.map Char.toNat))

theorem codesLt_cons {c d : Char} {s t : List Char} :
    CodesLt (c :: s) (d :: t) ↔ c.toNat < d.toNat ∨ c.toNat = d.toNat ∧ CodesLt s t :=
  List.cons_lt_cons_iff

theorem not_codesLt_nil (s : List Char) : ¬ CodesLt s [] := List.not_lt_nil _

theorem nil_codesLt_cons (c : Char) (s : List Char) : CodesLt [] (c :: s) := List.nil_lt_cons _ _

/-! ## Digits -/

theorem toNat_digitChar : ∀ {d : Nat}, d < 10 → (Nat.digitChar d).toNat = 48 + d := by
  decide

theorem isDigit_digitChar : ∀ {d : Nat}, d < 10 → (Nat.digitChar d).isDigit = true := by
  decide

theorem leading_lt {width n : Nat} (hn : n < 10 ^ (width + 1)) : n / 10 ^ width < 10 := by
  rw [Nat.div_lt_iff_lt_mul (Nat.pow_pos (by decide)), ← Nat.pow_succ']
  exact hn

theorem isDigit_of_mem_digits (width : Nat) {n : Nat} (hn : n < 10 ^ width) {c : Char}
    (hc : c ∈ digits width n) : c.isDigit = true := by
  induction width generalizing n with
  | zero => cases hc
  | succ width ih =>
      rcases List.mem_cons.mp hc with rfl | hc
      · exact isDigit_digitChar (leading_lt hn)
      · exact ih (Nat.mod_lt _ (Nat.pow_pos (by decide))) hc

/-- What was written is read back, and the rest of the text is left. -/
theorem readDigits_digits (width : Nat) {n : Nat} (hn : n < 10 ^ width) (acc : Nat) (rest : List Char) :
    readDigits width acc (digits width n ++ rest) = some (acc * 10 ^ width + n, rest) := by
  induction width generalizing n acc with
  | zero =>
      obtain rfl : n = 0 := by simpa using hn
      simp [readDigits, digits]
  | succ width ih =>
      have hlead : n / 10 ^ width < 10 := leading_lt hn
      have hdigit : (Nat.digitChar (n / 10 ^ width)).toNat - 48 = n / 10 ^ width := by
        rw [toNat_digitChar hlead, Nat.add_sub_cancel_left]
      have hvalue : (acc * 10 + n / 10 ^ width) * 10 ^ width + n % 10 ^ width =
          acc * 10 ^ (width + 1) + n := by
        calc (acc * 10 + n / 10 ^ width) * 10 ^ width + n % 10 ^ width
            = acc * 10 ^ (width + 1) + (10 ^ width * (n / 10 ^ width) + n % 10 ^ width) := by ring
          _ = acc * 10 ^ (width + 1) + n := by rw [Nat.div_add_mod]
      rw [digits, List.cons_append, readDigits, if_pos (isDigit_digitChar hlead), hdigit,
        ih (Nat.mod_lt _ (Nat.pow_pos (by decide))), hvalue]

/-- Too few digits before another character. -/
theorem readDigits_eq_none {width : Nat} {ds : List Char} (hds : ∀ c ∈ ds, c.isDigit = true)
    (hlen : ds.length < width) {c : Char} (hc : c.isDigit = false) (acc : Nat)
    (rest : List Char) : readDigits width acc (ds ++ c :: rest) = none := by
  induction ds generalizing width acc with
  | nil =>
      cases width with
      | zero => cases hlen
      | succ width => simp [readDigits, hc]
  | cons d ds ih =>
      cases width with
      | zero => cases hlen
      | succ width =>
          rw [List.cons_append, readDigits, if_pos (hds d List.mem_cons_self)]
          exact ih (fun e he => hds e (List.mem_cons_of_mem d he))
            (Nat.lt_of_succ_lt_succ hlen) _

/-- **Code units order fixed-width numbers as numbers.** -/
theorem digits_lt_iff (width : Nat) {a b : Nat} (ha : a < 10 ^ width) (hb : b < 10 ^ width)
    (s t : List Char) :
    CodesLt (digits width a ++ s) (digits width b ++ t) ↔ a < b ∨ a = b ∧ CodesLt s t := by
  induction width generalizing a b with
  | zero =>
      obtain rfl : a = 0 := by simpa using ha
      obtain rfl : b = 0 := by simpa using hb
      simp [digits]
  | succ width ih =>
      have hpos : 0 < 10 ^ width := Nat.pow_pos (by decide)
      have hmod := ih (Nat.mod_lt a hpos) (Nat.mod_lt b hpos)
      rw [digits, digits, List.cons_append, List.cons_append, codesLt_cons,
        toNat_digitChar (leading_lt ha), toNat_digitChar (leading_lt hb), hmod]
      have hda := Nat.div_add_mod a (10 ^ width)
      have hdb := Nat.div_add_mod b (10 ^ width)
      have hma : a % 10 ^ width < 10 ^ width := Nat.mod_lt a hpos
      have hmb : b % 10 ^ width < 10 ^ width := Nat.mod_lt b hpos
      rcases Nat.lt_trichotomy (a / 10 ^ width) (b / 10 ^ width) with hlt | heq | hgt
      · have hab : a < b := by
          have hmul : 10 ^ width * (a / 10 ^ width + 1) ≤ 10 ^ width * (b / 10 ^ width) :=
            Nat.mul_le_mul_left _ hlt
          rw [Nat.mul_add, Nat.mul_one] at hmul
          omega
        exact iff_of_true (Or.inl (by omega)) (Or.inl hab)
      · rw [heq] at hda ⊢
        constructor
        · rintro (h | ⟨-, h | ⟨h, hst⟩⟩)
          · omega
          · exact Or.inl (by omega)
          · exact Or.inr ⟨by omega, hst⟩
        · rintro (h | ⟨rfl, hst⟩)
          · exact Or.inr ⟨rfl, Or.inl (by omega)⟩
          · exact Or.inr ⟨rfl, Or.inr ⟨rfl, hst⟩⟩
      · have hba : b < a := by
          have hmul : 10 ^ width * (b / 10 ^ width + 1) ≤ 10 ^ width * (a / 10 ^ width) :=
            Nat.mul_le_mul_left _ hgt
          rw [Nat.mul_add, Nat.mul_one] at hmul
          omega
        refine iff_of_false ?_ ?_
        · rintro (h | ⟨h, -⟩) <;> omega
        · rintro (h | ⟨h, -⟩) <;> omega

end ErpApi.FixedWidth
