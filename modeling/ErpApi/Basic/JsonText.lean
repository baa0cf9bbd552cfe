import ErpApi.Basic.JsValue
import Mathlib.Tactic.IntervalCases

set_option autoImplicit false

/-! # The text of a value

The text that `JSON.stringify` writes says which value it is: `write_injective`. A number is kept as
a text, which has to be one: `Numeral`. Each form of value starts with characters of its own, and
the text of a value ends where it says, so that what follows it is told as well.
-/

namespace ErpApi.Json

/-! ## Texts in quotes -/

def quoteMark : Char := Char.ofNat 34

def hexValue (c : Char) : Nat :=
  if c.isDigit then c.toNat - 48 else c.toNat - 87

/-- The character after a backslash, and what follows it. -/
def unescape : List Char → Option (Char × List Char)
  | 'u' :: _ :: _ :: a :: b :: rest => some (Char.ofNat (hexValue a * 16 + hexValue b), rest)
  | 'b' :: rest => some (Char.ofNat 8, rest)
  | 't' :: rest => some (Char.ofNat 9, rest)
  | 'n' :: rest => some (Char.ofNat 10, rest)
  | 'f' :: rest => some (Char.ofNat 12, rest)
  | 'r' :: rest => some (Char.ofNat 13, rest)
  | c :: rest => some (c, rest)
  | [] => none

def unquoteChar : List Char → Option (Char × List Char)
  | c :: rest => if c = '\\' then unescape rest else some (c, rest)
  | [] => none

theorem unquoteChar_low (rest : List Char) {n : Nat} (hn : n < 32) :
    unquoteChar ((quoteChar (Char.ofNat n)).toList ++ rest) = some (Char.ofNat n, rest) := by
  interval_cases n <;> rfl

theorem unquoteChar_quoteChar (c : Char) (rest : List Char) :
    unquoteChar ((quoteChar c).toList ++ rest) = some (c, rest) := by
  have hc : Char.ofNat c.toNat = c := Char.ofNat_toNat c
  by_cases hlow : c.toNat < 32
  · rw [← hc]
    exact unquoteChar_low rest hlow
  by_cases hquote : c.toNat = 34
  · rw [← hc, hquote]
    rfl
  by_cases hslash : c.toNat = 92
  · rw [← hc, hslash]
    rfl
  have hplain : quoteChar c = String.singleton c := by
    unfold quoteChar
    split
    all_goals first | omega | rfl | skip
    rw [if_neg (by omega)]
  have hne : c ≠ '\\' := by
    rintro rfl
    exact hslash rfl
  rw [hplain, String.toList_singleton, List.singleton_append, unquoteChar, if_neg hne]

theorem quoteChar_append_inj {c d : Char} {s t : List Char}
    (h : (quoteChar c).toList ++ s = (quoteChar d).toList ++ t) : c = d ∧ s = t := by
  have hread := congrArg unquoteChar h
  rw [unquoteChar_quoteChar, unquoteChar_quoteChar] at hread
  exact Prod.mk.inj (Option.some.inj hread)

/-- No character is written with a quote in front. -/
theorem quoteChar_ne_quoteMark {c : Char} {s t : List Char} :
    (quoteChar c).toList ++ s ≠ quoteMark :: t := by
  intro h
  have hread := congrArg unquoteChar h
  rw [unquoteChar_quoteChar] at hread
  have hc : c = quoteMark := (Prod.mk.inj (Option.some.inj hread)).1
  subst hc
  have hquote : (quoteChar quoteMark).toList = ['\\', quoteMark] := rfl
  rw [hquote] at h
  exact absurd (List.cons.inj h).1 (by decide)

/-- The characters between the quotes. -/
def quoted (text : List Char) : List Char := text.flatMap fun c => (quoteChar c).toList

theorem toList_quote (text : String) :
    (quote text).toList = quoteMark :: (quoted text.toList ++ [quoteMark]) := by
  rw [quote, String.toList_append, String.toList_append, String.toList_join, List.flatMap_map]
  rfl

theorem quoted_append_inj : ∀ {a b s t : List Char},
    quoted a ++ quoteMark :: s = quoted b ++ quoteMark :: t → a = b ∧ s = t
  | [], [], _, _, h => ⟨rfl, (List.cons.inj h).2⟩
  | [], d :: b, s, t, h => by
      rw [quoted, quoted, List.flatMap_cons, List.append_assoc] at h
      exact absurd h.symm quoteChar_ne_quoteMark
  | c :: a, [], s, t, h => by
      rw [quoted, quoted, List.flatMap_cons, List.append_assoc] at h
      exact absurd h quoteChar_ne_quoteMark
  | c :: a, d :: b, s, t, h => by
      rw [quoted, quoted, List.flatMap_cons, List.flatMap_cons, List.append_assoc,
        List.append_assoc] at h
      obtain ⟨hchar, hrest⟩ := quoteChar_append_inj h
      obtain ⟨htext, hend⟩ := quoted_append_inj hrest
      exact ⟨by rw [hchar, htext], hend⟩

theorem quote_append_inj {a b : String} {s t : List Char}
    (h : (quote a).toList ++ s = (quote b).toList ++ t) : a = b ∧ s = t := by
  rw [toList_quote, toList_quote, List.cons_append, List.cons_append, List.append_assoc,
    List.append_assoc] at h
  obtain ⟨htext, hend⟩ := quoted_append_inj (List.cons.inj h).2
  exact ⟨String.toList_injective htext, hend⟩

/-! ## Numbers -/

def isNumeralChar (c : Char) : Bool := c.isDigit || c = '-' || c = '+' || c = '.' || c = 'e'

/-- What the text of every number is. -/
def IsNumeral (text : String) : Prop :=
  text.toList ≠ [] ∧ ∀ c ∈ text.toList, isNumeralChar c = true

/-- What follows a value in a text. -/
def Ends (rest : List Char) : Prop := ∀ c ∈ rest.head?, isNumeralChar c = false

theorem ends_cons {c : Char} (rest : List Char) (h : isNumeralChar c = false) :
    Ends (c :: rest) := by
  intro d hd
  obtain rfl : c = d := Option.some.inj hd
  exact h

theorem takeWhile_numeral {text : String} (htext : IsNumeral text) {rest : List Char}
    (hrest : Ends rest) : (text.toList ++ rest).takeWhile isNumeralChar = text.toList := by
  rw [List.takeWhile_append_of_pos htext.2]
  have hnil : rest.takeWhile isNumeralChar = [] := by
    cases rest with
    | nil => rfl
    | cons c rest =>
        have hc : isNumeralChar c = false := hrest c rfl
        rw [List.takeWhile_cons, hc]
        rfl
  rw [hnil, List.append_nil]

theorem numeral_append_inj {a b : String} {s t : List Char} (ha : IsNumeral a) (hb : IsNumeral b)
    (hs : Ends s) (ht : Ends t) (h : a.toList ++ s = b.toList ++ t) : a = b ∧ s = t := by
  have hlist : a.toList = b.toList := by
    rw [← takeWhile_numeral ha hs, h, takeWhile_numeral hb ht]
  rw [hlist] at h
  exact ⟨String.toList_injective hlist, List.append_cancel_left h⟩

/-- The numbers in a value are numbers. -/
inductive HasNumerals : Json → Prop
  | null : HasNumerals .null
  | bool (b : Bool) : HasNumerals (.bool b)
  | num {text : String} (h : IsNumeral text) : HasNumerals (.num text)
  | str (text : String) : HasNumerals (.str text)
  | arr {items : List Json} (hitems : ∀ v ∈ items, HasNumerals v) : HasNumerals (.arr items)
  | obj {entries : List (String × Json)} (hvalues : ∀ entry ∈ entries, HasNumerals entry.2) :
      HasNumerals (.obj entries)

/-! ## The first character -/

theorem toList_write_arr (items : List Json) :
    (write (.arr items)).toList =
      '[' :: ((String.intercalate "," (writeItems items)).toList ++ [']']) := by
  rw [write, String.toList_append, String.toList_append]
  rfl

theorem toList_write_obj (entries : List (String × Json)) :
    (write (.obj entries)).toList =
      Char.ofNat 123 :: ((String.intercalate "," (writeEntries entries)).toList ++
        [Char.ofNat 125]) := by
  rw [write, String.toList_append, String.toList_append]
  rfl

def form : Json → Nat
  | .null => 0
  | .bool _ => 1
  | .num _ => 2
  | .str _ => 3
  | .arr _ => 4
  | .obj _ => 5

def formOf (c : Char) : Nat :=
  if c = 'n' then 0 else if c = 't' ∨ c = 'f' then 1 else if c = quoteMark then 3
  else if c = '[' then 4 else if c = Char.ofNat 123 then 5
  else if c = ']' ∨ c = Char.ofNat 125 then 6 else 2

theorem formOf_numeral {c : Char} (h : isNumeralChar c = true) : formOf c = 2 := by
  have hne : ∀ d : Char, isNumeralChar d = false → c ≠ d := by
    rintro d hd rfl
    rw [h] at hd
    exact absurd hd (by decide)
  have hbool : ¬ (c = 't' ∨ c = 'f') := not_or.mpr ⟨hne _ (by decide), hne _ (by decide)⟩
  have hclose : ¬ (c = ']' ∨ c = Char.ofNat 125) :=
    not_or.mpr ⟨hne _ (by decide), hne _ (by decide)⟩
  rw [formOf, if_neg (hne _ (by decide)), if_neg hbool, if_neg (hne _ (by decide)),
    if_neg (hne _ (by decide)), if_neg (hne _ (by decide)), if_neg hclose]

/-- A text starts as its form does. -/
theorem formOf_head {v : Json} (h : HasNumerals v) :
    ∃ c rest, (write v).toList = c :: rest ∧ formOf c = form v := by
  cases h with
  | null => exact ⟨'n', _, rfl, by decide⟩
  | bool b =>
      cases b with
      | false => exact ⟨'f', _, rfl, by decide⟩
      | true => exact ⟨'t', _, rfl, by decide⟩
  | @num text htext =>
      obtain ⟨c, rest, hlist⟩ := List.exists_cons_of_ne_nil htext.1
      exact ⟨c, rest, by rw [write, hlist],
        formOf_numeral (htext.2 c (hlist ▸ List.mem_cons_self))⟩
  | str text => exact ⟨quoteMark, _, by rw [write, toList_quote],
      (by decide : formOf quoteMark = 3)⟩
  | arr _ => exact ⟨'[', _, toList_write_arr _, (by decide : formOf '[' = 4)⟩
  | obj _ =>
      exact ⟨Char.ofNat 123, _, toList_write_obj _, (by decide : formOf (Char.ofNat 123) = 5)⟩

theorem write_ne_bracket {v : Json} (h : HasNumerals v) {s t : List Char} :
    (write v).toList ++ s ≠ ']' :: t := by
  obtain ⟨c, rest, hc, hform⟩ := formOf_head h
  intro heq
  rw [hc] at heq
  rw [(List.cons.inj heq).1] at hform
  have hsix : formOf ']' = 6 := by decide
  rw [hsix] at hform
  cases v <;> exact absurd hform (by simp [form])

theorem form_eq {a b : Json} {s t : List Char} (ha : HasNumerals a) (hb : HasNumerals b)
    (h : (write a).toList ++ s = (write b).toList ++ t) : form a = form b := by
  obtain ⟨c, rest, hc, hca⟩ := formOf_head ha
  obtain ⟨d, rest', hd, hdb⟩ := formOf_head hb
  rw [hc, hd] at h
  rw [← hca, ← hdb, (List.cons.inj h).1]

/-! ## Texts of values -/

/-- The items of an array after the first, with what separates them. -/
def laterItems : List Json → List Char
  | [] => []
  | v :: items => ',' :: ((write v).toList ++ laterItems items)

def laterEntries : List (String × Json) → List Char
  | [] => []
  | (key, v) :: entries =>
      ',' :: ((quote key).toList ++ ':' :: ((write v).toList ++ laterEntries entries))

theorem toList_writeItems (v : Json) (items : List Json) :
    (String.intercalate "," (writeItems (v :: items))).toList =
      (write v).toList ++ laterItems items := by
  induction items generalizing v with
  | nil => simp [writeItems, laterItems]
  | cons w items ih =>
      rw [writeItems, writeItems, String.intercalate_cons_cons, ← writeItems,
        String.toList_append, String.toList_append, ih, laterItems, List.append_assoc]
      rfl

theorem toList_writeEntries (key : String) (v : Json) (entries : List (String × Json)) :
    (String.intercalate "," (writeEntries ((key, v) :: entries))).toList =
      (quote key).toList ++ ':' :: ((write v).toList ++ laterEntries entries) := by
  induction entries generalizing key v with
  | nil => simp [writeEntries, laterEntries]
  | cons entry entries ih =>
      obtain ⟨key', w⟩ := entry
      rw [writeEntries, writeEntries, String.intercalate_cons_cons, ← writeEntries,
        String.toList_append, String.toList_append, String.toList_append, String.toList_append, ih,
        laterEntries]
      simp

theorem ends_laterItems (items : List Json) (rest : List Char) :
    Ends (laterItems items ++ ']' :: rest) := by
  cases items with
  | nil => exact ends_cons _ (by decide)
  | cons v items => exact ends_cons _ (by decide)

theorem ends_laterEntries (entries : List (String × Json)) (rest : List Char) :
    Ends (laterEntries entries ++ Char.ofNat 125 :: rest) := by
  cases entries with
  | nil => exact ends_cons _ (by decide)
  | cons entry entries => exact ends_cons _ (by decide)

mutual

/-- The induction is on the first value; what follows it is given up by each form in its turn. -/
theorem write_append_inj : ∀ {a b : Json} {s t : List Char}, HasNumerals a → HasNumerals b →
    Ends s → Ends t → (write a).toList ++ s = (write b).toList ++ t → a = b ∧ s = t
  | .null, b, s, t, ha, hb, _, _, h => by
      have hform := form_eq ha hb h
      cases b with
      | null => exact ⟨rfl, List.append_cancel_left h⟩
      | bool | num | str | arr | obj => exact absurd hform (by simp [form])
  | .bool p, b, s, t, ha, hb, _, _, h => by
      have hform := form_eq ha hb h
      cases b with
      | bool q =>
          cases p <;> cases q
          · exact ⟨rfl, List.append_cancel_left h⟩
          · exact absurd (List.cons.inj h).1 (by decide)
          · exact absurd (List.cons.inj h).1 (by decide)
          · exact ⟨rfl, List.append_cancel_left h⟩
      | null | num | str | arr | obj => exact absurd hform (by simp [form])
  | .num text, b, s, t, ha, hb, hs, ht, h => by
      have hform := form_eq ha hb h
      cases b with
      | num other =>
          cases ha with
          | num hnumeral =>
              cases hb with
              | num hother =>
                  obtain ⟨htext, hend⟩ := numeral_append_inj hnumeral hother hs ht h
                  exact ⟨by rw [htext], hend⟩
      | null | bool | str | arr | obj => exact absurd hform (by simp [form])
  | .str text, b, s, t, ha, hb, _, _, h => by
      have hform := form_eq ha hb h
      cases b with
      | str other =>
          obtain ⟨htext, hend⟩ := quote_append_inj h
          exact ⟨by rw [htext], hend⟩
      | null | bool | num | arr | obj => exact absurd hform (by simp [form])
  | .arr items, b, s, t, ha, hb, _, _, h => by
      have hform := form_eq ha hb h
      cases b with
      | arr others =>
          rw [toList_write_arr, toList_write_arr, List.cons_append, List.cons_append,
            List.append_assoc, List.append_assoc] at h
          cases ha with
          | arr hitems =>
              cases hb with
              | arr hothers =>
                  obtain ⟨hlist, hend⟩ := writeItems_append_inj hitems hothers (List.cons.inj h).2
                  exact ⟨by rw [hlist], hend⟩
      | null | bool | num | str | obj => exact absurd hform (by simp [form])
  | .obj entries, b, s, t, ha, hb, _, _, h => by
      have hform := form_eq ha hb h
      cases b with
      | obj others =>
          rw [toList_write_obj, toList_write_obj, List.cons_append, List.cons_append,
            List.append_assoc, List.append_assoc] at h
          cases ha with
          | obj hvalues =>
              cases hb with
              | obj hothers =>
                  obtain ⟨hlist, hend⟩ :=
                    writeEntries_append_inj hvalues hothers (List.cons.inj h).2
                  exact ⟨by rw [hlist], hend⟩
      | null | bool | num | str | arr => exact absurd hform (by simp [form])

theorem writeItems_append_inj : ∀ {items others : List Json} {s t : List Char},
    (∀ v ∈ items, HasNumerals v) → (∀ v ∈ others, HasNumerals v) →
      (String.intercalate "," (writeItems items)).toList ++ ']' :: s =
        (String.intercalate "," (writeItems others)).toList ++ ']' :: t →
          items = others ∧ s = t
  | [], [], _, _, _, _, h => ⟨rfl, (List.cons.inj (List.append_cancel_left h)).2⟩
  | [], w :: others, s, t, _, hothers, h => by
      rw [toList_writeItems, List.append_assoc] at h
      exact absurd h.symm (write_ne_bracket (hothers w List.mem_cons_self))
  | v :: items, [], s, t, hitems, _, h => by
      rw [toList_writeItems, List.append_assoc] at h
      exact absurd h (write_ne_bracket (hitems v List.mem_cons_self))
  | v :: items, w :: others, s, t, hitems, hothers, h => by
      rw [toList_writeItems, toList_writeItems, List.append_assoc, List.append_assoc] at h
      obtain ⟨hvalue, hlater⟩ := write_append_inj (hitems v List.mem_cons_self)
        (hothers w List.mem_cons_self) (ends_laterItems _ _) (ends_laterItems _ _) h
      obtain ⟨hlist, hend⟩ := laterItems_append_inj
        (fun u hu => hitems u (List.mem_cons_of_mem _ hu))
        (fun u hu => hothers u (List.mem_cons_of_mem _ hu)) hlater
      exact ⟨by rw [hvalue, hlist], hend⟩

theorem laterItems_append_inj : ∀ {items others : List Json} {s t : List Char},
    (∀ v ∈ items, HasNumerals v) → (∀ v ∈ others, HasNumerals v) →
      laterItems items ++ ']' :: s = laterItems others ++ ']' :: t → items = others ∧ s = t
  | [], [], _, _, _, _, h => ⟨rfl, (List.cons.inj h).2⟩
  | [], w :: others, s, t, _, _, h => absurd (List.cons.inj h).1 (by decide)
  | v :: items, [], s, t, _, _, h => absurd (List.cons.inj h).1 (by decide)
  | v :: items, w :: others, s, t, hitems, hothers, h => by
      rw [laterItems, laterItems, List.cons_append, List.cons_append, List.append_assoc,
        List.append_assoc] at h
      obtain ⟨hvalue, hlater⟩ := write_append_inj (hitems v List.mem_cons_self)
        (hothers w List.mem_cons_self) (ends_laterItems _ _) (ends_laterItems _ _)
        (List.cons.inj h).2
      obtain ⟨hlist, hend⟩ := laterItems_append_inj
        (fun u hu => hitems u (List.mem_cons_of_mem _ hu))
        (fun u hu => hothers u (List.mem_cons_of_mem _ hu)) hlater
      exact ⟨by rw [hvalue, hlist], hend⟩

theorem writeEntries_append_inj : ∀ {entries others : List (String × Json)} {s t : List Char},
    (∀ entry ∈ entries, HasNumerals entry.2) → (∀ entry ∈ others, HasNumerals entry.2) →
      (String.intercalate "," (writeEntries entries)).toList ++ Char.ofNat 125 :: s =
        (String.intercalate "," (writeEntries others)).toList ++ Char.ofNat 125 :: t →
          entries = others ∧ s = t
  | [], [], _, _, _, _, h => ⟨rfl, (List.cons.inj (List.append_cancel_left h)).2⟩
  | [], (key, w) :: others, s, t, _, _, h => by
      rw [toList_writeEntries, toList_quote] at h
      exact absurd (List.cons.inj h).1 (by decide)
  | (key, v) :: entries, [], s, t, _, _, h => by
      rw [toList_writeEntries, toList_quote] at h
      exact absurd (List.cons.inj h).1 (by decide)
  | (key, v) :: entries, (key', w) :: others, s, t, hentries, hothers, h => by
      rw [toList_writeEntries, toList_writeEntries, List.append_assoc, List.append_assoc] at h
      obtain ⟨hkey, hrest⟩ := quote_append_inj h
      rw [List.cons_append, List.cons_append, List.append_assoc, List.append_assoc] at hrest
      obtain ⟨hvalue, hlater⟩ := write_append_inj (hentries (key, v) List.mem_cons_self)
        (hothers (key', w) List.mem_cons_self) (ends_laterEntries _ _) (ends_laterEntries _ _)
        (List.cons.inj hrest).2
      obtain ⟨hlist, hend⟩ := laterEntries_append_inj
        (fun u hu => hentries u (List.mem_cons_of_mem _ hu))
        (fun u hu => hothers u (List.mem_cons_of_mem _ hu)) hlater
      exact ⟨by rw [hkey, show v = w from hvalue, hlist], hend⟩

theorem laterEntries_append_inj : ∀ {entries others : List (String × Json)} {s t : List Char},
    (∀ entry ∈ entries, HasNumerals entry.2) → (∀ entry ∈ others, HasNumerals entry.2) →
      laterEntries entries ++ Char.ofNat 125 :: s = laterEntries others ++ Char.ofNat 125 :: t →
        entries = others ∧ s = t
  | [], [], _, _, _, _, h => ⟨rfl, (List.cons.inj h).2⟩
  | [], (key, w) :: others, s, t, _, _, h => absurd (List.cons.inj h).1 (by decide)
  | (key, v) :: entries, [], s, t, _, _, h => absurd (List.cons.inj h).1 (by decide)
  | (key, v) :: entries, (key', w) :: others, s, t, hentries, hothers, h => by
      rw [laterEntries, laterEntries, List.cons_append, List.cons_append, List.append_assoc,
        List.append_assoc] at h
      obtain ⟨hkey, hrest⟩ := quote_append_inj (List.cons.inj h).2
      rw [List.cons_append, List.cons_append, List.append_assoc, List.append_assoc] at hrest
      obtain ⟨hvalue, hlater⟩ := write_append_inj (hentries (key, v) List.mem_cons_self)
        (hothers (key', w) List.mem_cons_self) (ends_laterEntries _ _) (ends_laterEntries _ _)
        (List.cons.inj hrest).2
      obtain ⟨hlist, hend⟩ := laterEntries_append_inj
        (fun u hu => hentries u (List.mem_cons_of_mem _ hu))
        (fun u hu => hothers u (List.mem_cons_of_mem _ hu)) hlater
      exact ⟨by rw [hkey, show v = w from hvalue, hlist], hend⟩

end

/-- The text says which value was written. -/
theorem write_injective {a b : Json} (ha : HasNumerals a) (hb : HasNumerals b)
    (h : write a = write b) : a = b := by
  have hends : Ends [] := fun c hc => absurd hc (by simp)
  exact (write_append_inj ha hb hends hends (by rw [h])).1

end ErpApi.Json
