import ErpApi.Basic.JsonText
import ErpApi.Basic.JsonOrder

set_option autoImplicit false

/-! # Literals of the source language

A text of JSON that stands in a script is a literal: an expression without blanks, whose strings may
hold an escaped slash. An object literal differs from the JSON text in two ways: of two members with
one key the later one counts, and `"__proto__"` sets the prototype and is no member.
-/

namespace ErpApi.JsLiteral

open Json (quoteMark isNumeralChar)

/-! ## Strings -/

def hexValue (c : Char) : Nat := if c.isDigit then c.toNat - 48 else c.toLower.toNat - 87

/-- The character after a backslash, and what follows it. Other escapes are not read. -/
def readEscape : List Char → Option (Char × List Char)
  | 'u' :: a :: b :: c :: d :: rest =>
      some (Char.ofNat (((hexValue a * 16 + hexValue b) * 16 + hexValue c) * 16 + hexValue d), rest)
  | 'b' :: rest => some (Char.ofNat 8, rest)
  | 't' :: rest => some (Char.ofNat 9, rest)
  | 'n' :: rest => some (Char.ofNat 10, rest)
  | 'f' :: rest => some (Char.ofNat 12, rest)
  | 'r' :: rest => some (Char.ofNat 13, rest)
  | c :: rest => if c = '/' ∨ c = '\\' ∨ c = quoteMark then some (c, rest) else none
  | [] => none

/-- The characters of a string up to the quotation mark, and what follows it. -/
def readString : Nat → List Char → Option (List Char × List Char)
  | 0, _ => none
  | _ + 1, [] => none
  | n + 1, c :: rest =>
      if c = quoteMark then some ([], rest)
      else if c = '\n' ∨ c = '\r' then none
      else if c = '\\' then
        match readEscape rest with
        | none => none
        | some (d, rest) => (readString n rest).map fun (text, rest) => (d :: text, rest)
      else (readString n rest).map fun (text, rest) => (c :: text, rest)

/-! ## Values -/

/-- The members of an object literal. The prototype is not kept. -/
def objectOf (members : List (String × Json)) : List (String × Json) :=
  members.foldl (fun fields member =>
    if member.1 = "__proto__" then fields else Json.assign fields member.1 member.2) []

mutual

/-- The value of the literal at the head of a text, and what follows it. -/
def read : Nat → List Char → Option (Json × List Char)
  | 0, _ => none
  | _ + 1, [] => none
  | n + 1, c :: rest =>
      if c = quoteMark then
        (readString n rest).map fun (text, rest) => (.str (String.ofList text), rest)
      else if c = '[' then
        if rest.head? = some ']' then some (.arr [], rest.tail)
        else (readItems n rest).map fun (items, rest) => (.arr items, rest)
      else if c = Char.ofNat 123 then
        if rest.head? = some (Char.ofNat 125) then some (.obj [], rest.tail)
        else (readMembers n rest).map fun (members, rest) => (.obj (objectOf members), rest)
      else if c = 'n' ∧ ['u', 'l', 'l'] <+: rest then some (.null, rest.drop 3)
      else if c = 't' ∧ ['r', 'u', 'e'] <+: rest then some (.bool true, rest.drop 3)
      else if c = 'f' ∧ ['a', 'l', 's', 'e'] <+: rest then some (.bool false, rest.drop 4)
      else if isNumeralChar c then
        some (.num (String.ofList ((c :: rest).takeWhile isNumeralChar)),
          (c :: rest).dropWhile isNumeralChar)
      else none

/-- The items up to the closing bracket. -/
def readItems : Nat → List Char → Option (List Json × List Char)
  | 0, _ => none
  | n + 1, text =>
      match read n text with
      | some (v, c :: rest) =>
          if c = ']' then some ([v], rest)
          else if c = ',' then (readItems n rest).map fun (items, rest) => (v :: items, rest)
          else none
      | _ => none

/-- The members up to the closing brace. -/
def readMembers : Nat → List Char → Option (List (String × Json) × List Char)
  | 0, _ => none
  | n + 1, text =>
      if text.head? = some quoteMark then
        match readString n text.tail with
        | some (key, d :: rest) =>
            if d = ':' then
              match read n rest with
              | some (v, c :: rest) =>
                  if c = Char.ofNat 125 then some ([(String.ofList key, v)], rest)
                  else if c = ',' then
                    (readMembers n rest).map fun (members, rest) =>
                      ((String.ofList key, v) :: members, rest)
                  else none
              | _ => none
            else none
        | _ => none
      else none

end

/-- What a statement that assigns a literal to `target` gives it. -/
def assigned (target : List Char) (source : List Char) : Option Json :=
  if target <+: source then
    match read (source.length + 1) (source.drop target.length) with
    | some (v, [c]) => if c = ';' then some v else none
    | _ => none
  else none

/-! ## Texts in quotes -/

/-- A character that stands for itself in a text in quotes. -/
def IsPlain (c : Char) : Prop := 32 ≤ c.toNat ∧ c ≠ '\\' ∧ c ≠ quoteMark

instance (c : Char) : Decidable (IsPlain c) := inferInstanceAs (Decidable (_ ∧ _ ∧ _))

theorem toList_quoteChar {c : Char} (h : IsPlain c) : (Json.quoteChar c).toList = [c] := by
  obtain ⟨hcode, hslash, hquote⟩ := h
  have h34 : c.toNat ≠ 34 := fun h => hquote (Char.toNat_inj.mp h)
  have h92 : c.toNat ≠ 92 := fun h => hslash (Char.toNat_inj.mp h)
  have hplain : Json.quoteChar c = String.singleton c := by
    unfold Json.quoteChar
    split
    all_goals first | omega | rfl | skip
    rw [if_neg (by omega)]
  rw [hplain, String.toList_singleton]

theorem quoteChar_low {n : Nat} (hn : n < 32) : ∃ tail,
    (Json.quoteChar (Char.ofNat n)).toList = '\\' :: tail ∧ '<' ∉ tail ∧
      ∀ rest, readEscape (tail ++ rest) = some (Char.ofNat n, rest) := by
  interval_cases n <;> exact ⟨_, rfl, by decide, fun _ => rfl⟩

/-- Every other character is written as an escape that is read again. -/
theorem quoteChar_escape {c : Char} (h : ¬ IsPlain c) : ∃ tail,
    (Json.quoteChar c).toList = '\\' :: tail ∧ '<' ∉ tail ∧
      ∀ rest, readEscape (tail ++ rest) = some (c, rest) := by
  by_cases hlow : c.toNat < 32
  · have hc : Char.ofNat c.toNat = c := Char.ofNat_toNat c
    rw [← hc]
    exact quoteChar_low hlow
  by_cases hslash : c = '\\'
  · subst hslash
    exact ⟨_, rfl, by decide, fun _ => rfl⟩
  by_cases hquote : c = quoteMark
  · subst hquote
    exact ⟨_, rfl, by decide, fun _ => rfl⟩
  · exact absurd ⟨by omega, hslash, hquote⟩ h

theorem quoted_cons (c : Char) (text : List Char) :
    Json.quoted (c :: text) = (Json.quoteChar c).toList ++ Json.quoted text :=
  List.flatMap_cons

theorem quoted_plain {m : List Char} (h : ∀ c ∈ m, IsPlain c) (text : List Char) :
    Json.quoted (m ++ text) = m ++ Json.quoted text := by
  induction m with
  | nil => rfl
  | cons c m ih =>
      rw [List.cons_append, quoted_cons, toList_quoteChar (h c List.mem_cons_self),
        ih fun d hd => h d (List.mem_cons_of_mem c hd)]
      rfl

/-- Plain characters at the head of a text in quotes are those of the text. -/
theorem plain_of_quoted : ∀ {m text later rest : List Char}, (∀ c ∈ m, IsPlain c) →
    Json.quoted text ++ quoteMark :: rest = m ++ later → ∃ back, text = m ++ back
  | [], text, _, _, _, _ => ⟨text, rfl⟩
  | c :: m, [], _, _, hm, h => absurd (List.cons.inj h).1.symm (hm c List.mem_cons_self).2.2
  | c :: m, d :: text, later, rest, hm, h => by
      rw [quoted_cons] at h
      by_cases hd : IsPlain d
      · rw [toList_quoteChar hd] at h
        obtain ⟨rfl, htail⟩ := List.cons.inj h
        obtain ⟨back, hend⟩ := plain_of_quoted (fun e he => hm e (List.mem_cons_of_mem d he)) htail
        exact ⟨back, by rw [hend, List.cons_append]⟩
      · obtain ⟨tail, hquote, -⟩ := quoteChar_escape hd
        rw [hquote] at h
        exact absurd (List.cons.inj h).1.symm (hm c List.mem_cons_self).2.1

theorem readString_plain {c : Char} (h : IsPlain c) (n : Nat) (rest : List Char) :
    readString (n + 1) (c :: rest) =
      (readString n rest).map fun (text, rest) => (c :: text, rest) := by
  have hline : ¬ (c = '\n' ∨ c = '\r') := by
    have hcode := h.1
    rintro (rfl | rfl)
    · exact absurd hcode (by decide)
    · exact absurd hcode (by decide)
  rw [readString, if_neg h.2.2, if_neg hline, if_neg h.2.1]

theorem readString_escape {c : Char} {tail : List Char}
    (h : ∀ rest, readEscape (tail ++ rest) = some (c, rest)) (n : Nat) (rest : List Char) :
    readString (n + 1) ('\\' :: (tail ++ rest)) =
      (readString n rest).map fun (text, rest) => (c :: text, rest) := by
  rw [readString, if_neg (by decide), if_neg (by decide), if_pos rfl, h]

/-- Plain characters are read one by one. -/
theorem readString_append {m : List Char} (h : ∀ c ∈ m, IsPlain c) (n : Nat) (rest : List Char) :
    readString (m.length + n) (m ++ rest) =
      (readString n rest).map fun (text, rest) => (m ++ text, rest) := by
  induction m with
  | nil =>
      rw [List.length_nil, Nat.zero_add, List.nil_append]
      cases readString n rest <;> rfl
  | cons c m ih =>
      have hlength : (c :: m).length + n = m.length + n + 1 := by
        rw [List.length_cons]
        omega
      rw [hlength, List.cons_append, readString_plain (h c List.mem_cons_self),
        ih fun d hd => h d (List.mem_cons_of_mem c hd)]
      cases readString n rest <;> rfl

theorem length_le_quoted (text : List Char) : text.length ≤ (Json.quoted text).length := by
  induction text with
  | nil => exact Nat.zero_le _
  | cons c text ih =>
      have hone : 1 ≤ (Json.quoteChar c).toList.length := by
        by_cases hc : IsPlain c
        · rw [toList_quoteChar hc, List.length_singleton]
        · obtain ⟨tail, hquote, -⟩ := quoteChar_escape hc
          rw [hquote, List.length_cons]
          omega
      rw [quoted_cons, List.length_append, List.length_cons]
      omega

/-! ## Reading by the first character -/

theorem read_null (n : Nat) (rest : List Char) :
    read (n + 1) ('n' :: 'u' :: 'l' :: 'l' :: rest) = some (.null, rest) := by
  simp [read, quoteMark]

theorem read_true (n : Nat) (rest : List Char) :
    read (n + 1) ('t' :: 'r' :: 'u' :: 'e' :: rest) = some (.bool true, rest) := by
  simp [read, quoteMark]

theorem read_false (n : Nat) (rest : List Char) :
    read (n + 1) ('f' :: 'a' :: 'l' :: 's' :: 'e' :: rest) = some (.bool false, rest) := by
  simp [read, quoteMark]

theorem read_string (n : Nat) (rest : List Char) :
    read (n + 1) (quoteMark :: rest) =
      (readString n rest).map fun (text, rest) => (.str (String.ofList text), rest) := by
  rw [read, if_pos rfl]

theorem read_items {rest : List Char} (h : rest.head? ≠ some ']') (n : Nat) :
    read (n + 1) ('[' :: rest) = (readItems n rest).map fun (items, rest) => (.arr items, rest) := by
  rw [read, if_neg (by decide), if_pos rfl, if_neg h]

theorem read_members {rest : List Char} (h : rest.head? ≠ some (Char.ofNat 125)) (n : Nat) :
    read (n + 1) (Char.ofNat 123 :: rest) =
      (readMembers n rest).map fun (members, rest) => (.obj (objectOf members), rest) := by
  rw [read, if_neg (by decide), if_neg (by decide), if_pos rfl, if_neg h]

theorem read_numeral {text : String} (h : Json.IsNumeral text) {rest : List Char}
    (hrest : Json.Ends rest) (n : Nat) :
    read (n + 1) (text.toList ++ rest) = some (.num text, rest) := by
  obtain ⟨c, tail, hlist⟩ := List.exists_cons_of_ne_nil h.1
  have hc : isNumeralChar c = true := h.2 c (hlist ▸ List.mem_cons_self)
  have hne : ∀ d : Char, isNumeralChar d = false → c ≠ d := by
    rintro d hd rfl
    rw [hc] at hd
    exact Bool.noConfusion hd
  have htake := Json.takeWhile_numeral h hrest
  have hdrop : (text.toList ++ rest).dropWhile isNumeralChar = rest := by
    have happend := List.takeWhile_append_dropWhile (p := isNumeralChar) (l := text.toList ++ rest)
    rw [htake] at happend
    exact List.append_cancel_left happend
  rw [hlist, List.cons_append] at htake hdrop ⊢
  rw [read, if_neg (hne _ (by decide)), if_neg (hne _ (by decide)), if_neg (hne _ (by decide)),
    if_neg fun h => hne _ (by decide) h.1, if_neg fun h => hne _ (by decide) h.1,
    if_neg fun h => hne _ (by decide) h.1, if_pos hc, htake, hdrop, ← hlist, String.ofList_toList]

/-! ## Objects -/

theorem mem_assign {fields : List (String × Json)} {key : String} {value : Json}
    {entry : String × Json} (h : entry ∈ Json.assign fields key value) :
    entry = (key, value) ∨ entry ∈ fields := by
  induction fields with
  | nil => exact .inl (by simpa [Json.assign] using h)
  | cons first rest ih =>
      obtain ⟨k, v⟩ := first
      by_cases hk : k = key
      · rw [Json.assign, if_pos hk, List.mem_cons] at h
        rcases h with h | h
        · exact .inl (by rw [h, hk])
        · exact .inr (List.mem_cons_of_mem _ h)
      · rw [Json.assign, if_neg hk, List.mem_cons] at h
        rcases h with h | h
        · exact .inr (h ▸ List.mem_cons_self)
        · exact (ih h).imp_right (List.mem_cons_of_mem _)

theorem assign_of_not_mem {fields : List (String × Json)} {key : String}
    (h : key ∉ fields.map Prod.fst) (value : Json) :
    Json.assign fields key value = fields ++ [(key, value)] := by
  induction fields with
  | nil => rfl
  | cons first rest ih =>
      obtain ⟨k, v⟩ := first
      rw [List.map_cons, List.mem_cons, not_or] at h
      rw [Json.assign, if_neg (Ne.symm h.1), ih h.2, List.cons_append]

/-- An object literal has no member beside the listed ones, and none for the prototype. -/
theorem mem_objectOf {members : List (String × Json)} {entry : String × Json}
    (h : entry ∈ objectOf members) : entry ∈ members ∧ entry.1 ≠ "__proto__" := by
  have hrun : ∀ (members fields : List (String × Json)),
      entry ∈ members.foldl (fun fields member =>
        if member.1 = "__proto__" then fields else Json.assign fields member.1 member.2) fields →
      entry ∈ fields ∨ entry ∈ members ∧ entry.1 ≠ "__proto__" := by
    intro members
    induction members with
    | nil => exact fun fields h => .inl h
    | cons member members ih =>
        intro fields h
        rcases ih _ h with h | ⟨hmem, hproto⟩
        · dsimp only at h
          by_cases hname : member.1 = "__proto__"
          · rw [if_pos hname] at h
            exact .inl h
          · rw [if_neg hname] at h
            rcases mem_assign h with rfl | h
            · exact .inr ⟨List.mem_cons_self, hname⟩
            · exact .inl h
        · exact .inr ⟨List.mem_cons_of_mem _ hmem, hproto⟩
  exact (hrun members [] h).resolve_left (List.not_mem_nil)

/-- Different keys, none of them the one of the prototype, are all members. -/
theorem objectOf_eq_self {members : List (String × Json)} (hkeys : (members.map Prod.fst).Nodup)
    (hproto : ∀ entry ∈ members, entry.1 ≠ "__proto__") :
    objectOf members = members := by
  have hrun : ∀ (members fields : List (String × Json)),
      ((fields ++ members).map Prod.fst).Nodup → (∀ entry ∈ members, entry.1 ≠ "__proto__") →
      members.foldl (fun fields member =>
        if member.1 = "__proto__" then fields else Json.assign fields member.1 member.2) fields =
        fields ++ members := by
    intro members
    induction members with
    | nil => exact fun fields _ _ => (List.append_nil fields).symm
    | cons member members ih =>
        intro fields hnodup hnames
        have hnew : member.1 ∉ fields.map Prod.fst := by
          intro h
          rw [List.map_append, List.map_cons] at hnodup
          exact (List.nodup_append.mp hnodup).2.2 member.1 h member.1 List.mem_cons_self rfl
        have hlist : fields ++ [(member.1, member.2)] ++ members = fields ++ member :: members := by
          simp
        rw [List.foldl_cons, if_neg (hnames member List.mem_cons_self), assign_of_not_mem hnew,
          ih _ (hlist ▸ hnodup) fun entry h => hnames entry (List.mem_cons_of_mem _ h), hlist]
  exact hrun members [] hkeys hproto

end ErpApi.JsLiteral
