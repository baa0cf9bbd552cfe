import Mathlib.Data.List.DropRight

set_option autoImplicit false

/-! # Strings of the source language

The operations of JavaScript strings that the modelled code uses, with their documented
behaviour where it differs from that of `String`: `<` compares UTF-16 code units, and
`replace` with a string pattern replaces the first occurrence and reads `$`-patterns in the
replacement.
-/

namespace ErpApi.Js

/-- The UTF-16 code units of a character. -/
def codeUnits (c : Char) : List Nat :=
  if c.toNat < 0x10000 then [c.toNat]
  else [0xD800 + (c.toNat - 0x10000) / 0x400, 0xDC00 + (c.toNat - 0x10000) % 0x400]

/-- The comparison `a < b` on strings: lexicographic on UTF-16 code units. -/
def lt (a b : String) : Bool :=
  decide (a.toList.flatMap codeUnits < b.toList.flatMap codeUnits)

/-- The call `text.split(separator)` for a one-character separator. -/
def split (separator : Char) (text : String) : List String :=
  (text.toList.splitOn separator).map String.ofList

/-- A string with exactly one separator splits into the two parts around it. -/
theorem split_of_count_one {separator : Char} {text : String}
    (h : text.toList.count separator = 1) :
    ∃ a b : String, split separator text = [a, b] ∧
      a ++ String.singleton separator ++ b = text := by
  have hmem : separator ∈ text.toList := List.count_pos_iff.mp (by omega)
  obtain ⟨a, b, hab, ha⟩ := List.eq_append_cons_of_mem hmem
  have hb : separator ∉ b := by
    rw [hab, List.count_append, List.count_cons_self] at h
    exact List.count_eq_zero.mp (by omega)
  refine ⟨String.ofList a, String.ofList b, ?_, ?_⟩
  · rw [split, hab, List.splitOn_append_cons_self_of_not_mem ha, List.splitOn_eq_singleton hb]
    rfl
  · apply String.toList_injective
    rw [hab]
    simp

/-- The parts say what the text is. -/
theorem split_injective (separator : Char) : Function.Injective (split separator) := by
  intro a b h
  have hlists : a.toList.splitOn separator = b.toList.splitOn separator :=
    List.map_injective_iff.mpr (fun _ _ => String.ofList_injective) h
  apply String.toList_injective
  calc a.toList = [separator].intercalate (a.toList.splitOn separator) :=
        (List.intercalate_splitOn separator).symm
    _ = [separator].intercalate (b.toList.splitOn separator) := by rw [hlists]
    _ = b.toList := List.intercalate_splitOn separator

/-- The first part is the text before the first separator. -/
theorem split_headD (separator : Char) (text : String) :
    (split separator text).headD "" =
      String.ofList (text.toList.takeWhile (· != separator)) := by
  have h : ∀ l : List Char, (l.splitOn separator).headD [] = l.takeWhile (· != separator) := by
    intro l
    induction l with
    | nil => rfl
    | cons c l ih =>
        rw [List.splitOn_cons_eq_if_modifyHead]
        obtain ⟨part, parts, hl⟩ := List.exists_cons_of_ne_nil (List.splitOn_ne_nil separator l)
        rw [hl] at ih ⊢
        by_cases hc : c = separator
        · simp [hc]
        · simpa [hc] using ih
  obtain ⟨part, parts, hl⟩ :=
    List.exists_cons_of_ne_nil (List.splitOn_ne_nil separator text.toList)
  have hhead := h text.toList
  rw [hl] at hhead
  rw [split, hl, ← hhead]
  rfl

/-- No part holds the separator. -/
theorem not_mem_of_mem_splitOn {separator : Char} {part : List Char} :
    ∀ {l : List Char}, part ∈ l.splitOn separator → separator ∉ part
  | [], h => by
      obtain rfl : part = [] := by simpa using h
      exact List.not_mem_nil
  | c :: l, h => by
      rw [List.splitOn_cons_eq_if_modifyHead] at h
      split at h
      · rcases List.mem_cons.mp h with rfl | h
        · exact List.not_mem_nil
        · exact not_mem_of_mem_splitOn h
      · rename_i hc
        obtain ⟨first, rest, hl⟩ := List.exists_cons_of_ne_nil (List.splitOn_ne_nil separator l)
        rw [hl, List.modifyHead_cons] at h
        rcases List.mem_cons.mp h with rfl | h
        · have hfirst : separator ∉ first := not_mem_of_mem_splitOn (hl ▸ List.mem_cons_self)
          have hne : separator ≠ c := fun heq => hc (by simp [heq])
          simp [hne, hfirst]
        · exact not_mem_of_mem_splitOn (hl ▸ List.mem_cons_of_mem first h)

theorem not_mem_of_mem_split {separator : Char} {text part : String}
    (h : part ∈ split separator text) : separator ∉ part.toList := by
  obtain ⟨chars, hchars, rfl⟩ := List.mem_map.mp h
  rw [String.toList_ofList]
  exact not_mem_of_mem_splitOn hchars

theorem split_of_not_mem {separator : Char} {text : String} (h : separator ∉ text.toList) :
    split separator text = [text] := by
  rw [split, List.splitOn_eq_singleton h]
  simp

/-- A text with a separator splits on both sides of it. -/
theorem split_append (separator : Char) (a b : String) :
    split separator (a ++ String.singleton separator ++ b) =
      split separator a ++ split separator b := by
  have hlist : (a ++ String.singleton separator ++ b).toList =
      a.toList ++ separator :: b.toList := by simp
  rw [split, hlist, List.splitOn_append_cons_self, List.map_append]
  rfl

/-- The parts of `text.split(ab)` for a separator of two characters. -/
def splitPairList (a b : Char) : List Char → List (List Char)
  | [] => [[]]
  | [c] => [[c]]
  | c :: d :: rest =>
      if c = a ∧ d = b then [] :: splitPairList a b rest
      else
        match splitPairList a b (d :: rest) with
        | [] => [[c]]
        | part :: parts => (c :: part) :: parts

/-- The call `text.split(ab)` for a separator of two characters. -/
def splitPair (a b : Char) (text : String) : List String :=
  (splitPairList a b text.toList).map String.ofList

/-- The white space and line terminators that `trim` removes. -/
def isSpace (c : Char) : Bool :=
  [0x09, 0x0A, 0x0B, 0x0C, 0x0D, 0x20, 0xA0, 0x1680, 0x2028, 0x2029, 0x202F, 0x205F, 0x3000,
    0xFEFF].contains c.toNat || (0x2000 ≤ c.toNat && c.toNat ≤ 0x200A)

def trim (text : String) : String :=
  String.ofList (((text.toList.dropWhile isSpace).reverse.dropWhile isSpace).reverse)

theorem mem_dropWhile {p : Char → Bool} {c : Char} (hc : p c = false) :
    ∀ {l : List Char}, c ∈ l → c ∈ l.dropWhile p
  | d :: l, h => by
      by_cases hd : p d = true
      · rw [List.dropWhile_cons_of_pos hd]
        rcases List.mem_cons.mp h with rfl | h
        · rw [hc] at hd
          cases hd
        · exact mem_dropWhile hc h
      · rw [List.dropWhile_cons_of_neg hd]
        exact h

/-- A text with a character that is no space is not blank. -/
theorem trim_ne_empty {text : String} {c : Char} (hmem : c ∈ text.toList)
    (hc : isSpace c = false) : trim text ≠ "" := by
  have htrim : c ∈ (trim text).toList := by
    have hrev := mem_dropWhile hc (List.mem_reverse.mpr (mem_dropWhile hc hmem))
    simpa [trim] using hrev
  intro hempty
  rw [hempty] at htrim
  cases htrim

theorem dropWhile_eq_self {p : Char → Bool} {l : List Char} (h : ∀ c ∈ l, p c = false) :
    l.dropWhile p = l := by
  cases l with
  | nil => rfl
  | cons c l =>
      have hc := h c List.mem_cons_self
      simp [hc]

/-- A text without spaces is trimmed already. -/
theorem trim_eq_self {text : String} (h : ∀ c ∈ text.toList, isSpace c = false) :
    trim text = text := by
  have hrev : ∀ c ∈ text.toList.reverse, isSpace c = false := by
    intro c hc
    exact h c (List.mem_reverse.mp hc)
  rw [trim, dropWhile_eq_self h, dropWhile_eq_self hrev]
  simp

theorem mem_of_mem_trim {text : String} {c : Char} (h : c ∈ (trim text).toList) :
    c ∈ text.toList := by
  rw [trim, String.toList_ofList, List.mem_reverse] at h
  have hrev := (List.dropWhile_sublist isSpace).mem h
  exact (List.dropWhile_sublist isSpace).mem (List.mem_reverse.mp hrev)

/-- What begins like a text without leading spaces has none either. -/
theorem dropWhile_of_prefix {p : Char → Bool} {front l : List Char} (h : front <+: l)
    (hl : l.dropWhile p = l) : front.dropWhile p = front := by
  cases front with
  | nil => rfl
  | cons c front =>
      obtain ⟨back, rfl⟩ := h
      have hc : ¬ p c = true := by
        intro hc
        rw [List.cons_append, List.dropWhile_cons_of_pos hc] at hl
        have hle := (List.dropWhile_sublist p (l := front ++ back)).length_le
        have hlen := congrArg List.length hl
        rw [List.length_cons] at hlen
        omega
      exact List.dropWhile_cons_of_neg hc

theorem trim_trim (text : String) : trim (trim text) = trim text := by
  have hback : ((text.toList.dropWhile isSpace).rdropWhile isSpace).dropWhile isSpace =
      (text.toList.dropWhile isSpace).rdropWhile isSpace :=
    dropWhile_of_prefix (List.rdropWhile_prefix isSpace _) (List.dropWhile_idempotent _ _)
  have htrim : ∀ l : List Char, ((l.dropWhile isSpace).reverse.dropWhile isSpace).reverse =
      (l.dropWhile isSpace).rdropWhile isSpace := fun _ => rfl
  rw [trim, trim, String.toList_ofList, htrim, htrim, hback, List.rdropWhile_idempotent]

/-- A text without the first character of the separator has one part. -/
theorem splitPairList_of_not_mem {a b : Char} : ∀ {l : List Char}, a ∉ l →
    splitPairList a b l = [l]
  | [], _ => rfl
  | [_], _ => rfl
  | c :: d :: rest, h => by
      obtain ⟨hc, hrest⟩ : a ≠ c ∧ a ∉ d :: rest := by simpa using h
      rw [splitPairList, splitPairList_of_not_mem hrest]
      simp [Ne.symm hc]

/-- The part up to the first separator. -/
theorem splitPairList_append {a b : Char} {rest : List Char} : ∀ {l : List Char}, a ∉ l →
    splitPairList a b (l ++ a :: b :: rest) = l :: splitPairList a b rest
  | [], _ => by simp [splitPairList]
  | [c], h => by
      have hc : a ≠ c := by simpa using h
      simp [splitPairList, Ne.symm hc]
  | c :: d :: l, h => by
      obtain ⟨hc, hrest⟩ : a ≠ c ∧ a ∉ d :: l := by simpa using h
      rw [List.cons_append, List.cons_append, splitPairList, ← List.cons_append,
        splitPairList_append hrest]
      simp [Ne.symm hc]

theorem splitPairList_ne_nil (a b : Char) : ∀ l : List Char, splitPairList a b l ≠ []
  | [] => List.cons_ne_nil _ _
  | [_] => List.cons_ne_nil _ _
  | c :: d :: rest => by
      rw [splitPairList]
      split
      · exact List.cons_ne_nil _ _
      · split
        · exact List.cons_ne_nil _ _
        · exact List.cons_ne_nil _ _

theorem intercalate_cons_head (sep : List Char) (c : Char) (part : List Char)
    (parts : List (List Char)) :
    sep.intercalate ((c :: part) :: parts) = c :: sep.intercalate (part :: parts) := by
  cases parts with
  | nil => simp [List.intercalate]
  | cons next parts => simp [List.intercalate]

/-- The parts with the separator between them are the text again. -/
theorem intercalate_splitPairList (a b : Char) :
    ∀ l : List Char, [a, b].intercalate (splitPairList a b l) = l
  | [] => rfl
  | [_] => rfl
  | c :: d :: rest => by
      rw [splitPairList]
      by_cases hsep : c = a ∧ d = b
      · obtain ⟨part, parts, hparts⟩ :=
          List.exists_cons_of_ne_nil (splitPairList_ne_nil a b rest)
        have ih := intercalate_splitPairList a b rest
        rw [if_pos hsep, hsep.1, hsep.2]
        rw [hparts] at ih ⊢
        rw [← ih]
        simp [List.intercalate]
      · obtain ⟨part, parts, hparts⟩ :=
          List.exists_cons_of_ne_nil (splitPairList_ne_nil a b (d :: rest))
        have ih := intercalate_splitPairList a b (d :: rest)
        rw [hparts] at ih
        rw [if_neg hsep, hparts]
        show [a, b].intercalate ((c :: part) :: parts) = _
        rw [intercalate_cons_head, ih]

/-- The comparison `text.toLowerCase() === word` for a word of ASCII letters that no other
letter is lowered to. -/
def lowerEq (text word : String) : Bool :=
  text.toList.map Char.toLower = word.toList

/-- The comparison `text.toUpperCase() === word` for a word of ASCII letters; the long s and the
dotless i are raised to such letters. -/
def upperEq (text word : String) : Bool :=
  text.toList.map (fun c => if c = 'ſ' then 'S' else if c = 'ı' then 'I' else c.toUpper) =
    word.toList

/-- A letter in lower case is 32 codes behind the one in upper case. -/
theorem toLower_cases (c : Char) :
    c.toLower = c ∧ ¬ (65 ≤ c.toNat ∧ c.toNat ≤ 90) ∨
      c.toLower.toNat = c.toNat + 32 ∧ 65 ≤ c.toNat ∧ c.toNat ≤ 90 := by
  by_cases h : c.val ≥ 'A'.val ∧ c.val ≤ 'Z'.val
  · right
    have hlow : 65 ≤ c.toNat := h.1
    have hhigh : c.toNat ≤ 90 := h.2
    refine ⟨?_, hlow, hhigh⟩
    have hlower : c.toLower.val = c.val + 32 := congrArg Char.val (dif_pos h : c.toLower = _)
    have hval : c.val.toNat = c.toNat := rfl
    have hstep : (32 : UInt32).toNat = 32 := rfl
    show c.toLower.val.toNat = c.val.toNat + 32
    rw [hlower, UInt32.toNat_add]
    omega
  · left
    exact ⟨dif_neg h, h⟩

/-- Where `pattern` first occurs in `text`: the text before and the text after it. -/
def splitAtFirst (pattern : List Char) : List Char → Option (List Char × List Char)
  | [] => if pattern = [] then some ([], []) else none
  | c :: text =>
      if pattern <+: c :: text then some ([], (c :: text).drop pattern.length)
      else (splitAtFirst pattern text).map fun (before, rest) => (c :: before, rest)

/-- The replacement text of `replace`: `$$`, `$&`, `` $` `` and `$'` are read as a dollar
sign, the match, the text before it and the text after it; anything else is literal. -/
def getSubstitution (matched before rest : List Char) : List Char → List Char
  | [] => []
  | [c] => [c]
  | c :: d :: replacement =>
      if c = '$' ∧ d = '$' then '$' :: getSubstitution matched before rest replacement
      else if c = '$' ∧ d = '&' then
        matched ++ getSubstitution matched before rest replacement
      else if c = '$' ∧ d.toNat = 0x60 then
        before ++ getSubstitution matched before rest replacement
      else if c = '$' ∧ d.toNat = 0x27 then
        rest ++ getSubstitution matched before rest replacement
      else c :: getSubstitution matched before rest (d :: replacement)

/-- The replacement text holds a `$`-pattern: a dollar sign before `$`, `&`, `'` or a backtick. -/
def HasPattern (replacement : List Char) : Prop :=
  ∃ c, c.toNat ∈ [0x24, 0x26, 0x27, 0x60] ∧ ['$', c] <:+: replacement

theorem hasPattern_cons {c d : Char} {replacement : List Char} :
    HasPattern (c :: d :: replacement) ↔
      c = '$' ∧ d.toNat ∈ [0x24, 0x26, 0x27, 0x60] ∨ HasPattern (d :: replacement) := by
  constructor
  · rintro ⟨e, he, hpart⟩
    rcases List.infix_cons_iff.mp hpart with hfront | hpart
    · obtain ⟨rfl, hd⟩ := List.cons_prefix_cons.mp hfront
      obtain ⟨rfl, -⟩ := List.cons_prefix_cons.mp hd
      exact .inl ⟨rfl, he⟩
    · exact .inr ⟨e, he, hpart⟩
  · rintro (⟨rfl, hd⟩ | ⟨e, he, hpart⟩)
    · exact ⟨d, hd, ⟨[], replacement, rfl⟩⟩
    · exact ⟨e, he, List.infix_cons_iff.mpr (.inr hpart)⟩

/-- Without `$`-patterns a replacement text is literal. -/
theorem getSubstitution_eq_self {matched before rest : List Char} :
    ∀ {replacement : List Char}, ¬ HasPattern replacement →
      getSubstitution matched before rest replacement = replacement
  | [], _ => rfl
  | [_], _ => rfl
  | c :: d :: replacement, h => by
      rw [hasPattern_cons, not_or] at h
      obtain ⟨hhead, htail⟩ := h
      have hcode : c = '$' → d.toNat ≠ 0x24 ∧ d.toNat ≠ 0x26 ∧ d.toNat ≠ 0x27 ∧
          d.toNat ≠ 0x60 := by
        intro hc
        simpa [hc] using hhead
      have hdollar : ¬ (c = '$' ∧ d = '$') := by
        rintro ⟨hc, rfl⟩
        exact (hcode hc).1 rfl
      have hmatch : ¬ (c = '$' ∧ d = '&') := by
        rintro ⟨hc, rfl⟩
        exact (hcode hc).2.1 rfl
      rw [getSubstitution, if_neg hdollar, if_neg hmatch,
        if_neg (fun hd => (hcode hd.1).2.2.2 hd.2), if_neg (fun hd => (hcode hd.1).2.2.1 hd.2),
        getSubstitution_eq_self htail]

/-- With a `$`-pattern the replacement text gets shorter, or as long as what the pattern stands
for. -/
theorem length_getSubstitution {matched before rest : List Char} {n : Nat}
    (hmatched : n ≤ matched.length) (hbefore : n ≤ before.length) (hrest : n ≤ rest.length) :
    ∀ {replacement : List Char}, HasPattern replacement →
      (getSubstitution matched before rest replacement).length < replacement.length ∨
        n ≤ (getSubstitution matched before rest replacement).length
  | [], ⟨_, _, hpart⟩ => by simpa using hpart.length_le
  | [_], ⟨_, _, hpart⟩ => by simpa using hpart.length_le
  | c :: d :: replacement, h => by
      by_cases hdollar : c = '$' ∧ d = '$'
      · rw [getSubstitution, if_pos hdollar, List.length_cons, List.length_cons,
          List.length_cons]
        by_cases hmore : HasPattern replacement
        · have ih := length_getSubstitution hmatched hbefore hrest hmore
          omega
        · rw [getSubstitution_eq_self hmore]
          omega
      · rw [getSubstitution, if_neg hdollar]
        by_cases hmatch : c = '$' ∧ d = '&'
        · rw [if_pos hmatch, List.length_append]
          omega
        · rw [if_neg hmatch]
          by_cases hfront : c = '$' ∧ d.toNat = 0x60
          · rw [if_pos hfront, List.length_append]
            omega
          · rw [if_neg hfront]
            by_cases hback : c = '$' ∧ d.toNat = 0x27
            · rw [if_pos hback, List.length_append]
              omega
            · rw [if_neg hback]
              have htail : HasPattern (d :: replacement) := by
                refine (hasPattern_cons.mp h).resolve_left ?_
                rintro ⟨hc, hd⟩
                have hcode : d.toNat = 0x24 ∨ d.toNat = 0x26 ∨ d.toNat = 0x27 ∨
                    d.toNat = 0x60 := by simpa using hd
                rcases hcode with hd | hd | hd | hd
                · exact hdollar ⟨hc, Char.toNat_inj.mp hd⟩
                · exact hmatch ⟨hc, Char.toNat_inj.mp hd⟩
                · exact hback ⟨hc, hd⟩
                · exact hfront ⟨hc, hd⟩
              have ih := length_getSubstitution hmatched hbefore hrest htail
              rw [List.length_cons, List.length_cons]
              omega

/-- The call `text.replace(pattern, replacement)` for a string pattern. -/
def replace (text pattern replacement : String) : String :=
  match splitAtFirst pattern.toList text.toList with
  | none => text
  | some (before, rest) => String.ofList (before ++
      getSubstitution pattern.toList before rest replacement.toList ++ rest)

/-- The call `text.replace(/c/g, replacement)` for one character and a literal replacement. -/
def replaceAllChar (text : String) (c : Char) (replacement : String) : String :=
  String.ofList (text.toList.flatMap fun d => if d = c then replacement.toList else [d])

end ErpApi.Js
