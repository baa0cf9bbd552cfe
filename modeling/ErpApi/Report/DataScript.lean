import ErpApi.Basic.JsLiteral
import ErpApi.Basic.ScriptData

set_option autoImplicit false

/-! # The data script

A banded template gets its data from a script that the service writes into the document. Every
`</script` in the JSON text is written with an escaped slash, so that it does not end the script.
`assigned_dataSource` says which value the script assigns, and `endsAtTag_dataSource` when the
script ends where it should.
-/

namespace ErpApi.Report.Banded

open ScriptData Json

/-! ## End tags in a text -/

/-- `text.replace(/<\/script/gi, replacement)` after the first `skip` characters. -/
def replaceCloseFrom (replacement : List Char) : Nat → List Char → List Char
  | _, [] => []
  | 0, c :: text =>
      if StartsClose (c :: text) then replacement ++ replaceCloseFrom replacement 7 text
      else c :: replaceCloseFrom replacement 0 text
  | skip + 1, _ :: text => replaceCloseFrom replacement skip text

def replaceClose (replacement text : List Char) : List Char := replaceCloseFrom replacement 0 text

/-- The name of the end tag, in small letters. -/
def closeText : List Char := ['<', '/', 's', 'c', 'r', 'i', 'p', 't']

def escapedText : List Char := ['<', '\\', '/', 's', 'c', 'r', 'i', 'p', 't']

def IsClose (text : List Char) : Prop := text.map Char.toLower = closeText

theorem IsClose.length {m : List Char} (h : IsClose m) : m.length = 8 := by
  have hlength : (m.map Char.toLower).length = 8 := congrArg List.length h
  rwa [List.length_map] at hlength

theorem IsClose.startsClose {m : List Char} (h : IsClose m) (rest : List Char) :
    StartsClose (m ++ rest) := by
  rw [StartsClose, ← h.length, List.take_left]
  exact h

theorem startsClose_iff {text : List Char} :
    StartsClose text ↔ ∃ m rest, text = m ++ rest ∧ IsClose m := by
  constructor
  · intro h
    exact ⟨text.take 8, text.drop 8, (List.take_append_drop 8 text).symm, h⟩
  · rintro ⟨m, rest, rfl, hm⟩
    exact hm.startsClose rest

theorem replaceCloseFrom_length (replacement rest : List Char) :
    ∀ m : List Char, replaceCloseFrom replacement m.length (m ++ rest) =
      replaceClose replacement rest
  | [] => rfl
  | _ :: m => replaceCloseFrom_length replacement rest m

theorem replaceClose_close {replacement m : List Char} (h : IsClose m) (rest : List Char) :
    replaceClose replacement (m ++ rest) = replacement ++ replaceClose replacement rest := by
  obtain ⟨c, tail, rfl⟩ := List.exists_cons_of_ne_nil
    (List.ne_nil_of_length_eq_add_one h.length)
  have hlength : tail.length = 7 := by simpa using h.length
  have hstarts : StartsClose (c :: (tail ++ rest)) := h.startsClose rest
  rw [replaceClose, List.cons_append, replaceCloseFrom, if_pos hstarts, ← hlength,
    replaceCloseFrom_length]

theorem replaceClose_cons {replacement : List Char} {c : Char} {text : List Char}
    (h : ¬ StartsClose (c :: text)) :
    replaceClose replacement (c :: text) = c :: replaceClose replacement text := by
  rw [replaceClose, replaceCloseFrom, if_neg h]
  rfl

/-- A text is a text of end tags and of characters that start none. -/
theorem closeInduction {P : List Char → Prop} (nil : P [])
    (close : ∀ m rest, IsClose m → P rest → P (m ++ rest))
    (cons : ∀ c rest, ¬ StartsClose (c :: rest) → P rest → P (c :: rest)) (text : List Char) :
    P text := by
  induction hlength : text.length using Nat.strongRecOn generalizing text with
  | ind n ih =>
      cases text with
      | nil => exact nil
      | cons c rest =>
          by_cases h : StartsClose (c :: rest)
          · obtain ⟨m, later, htext, hm⟩ := startsClose_iff.mp h
            rw [htext]
            have hlater : later.length < n := by
              have hsum := congrArg List.length htext
              rw [List.length_append, hm.length] at hsum
              omega
            exact close m later hm (ih later.length hlater later rfl)
          · refine cons c rest h (ih rest.length ?_ rest rfl)
            rw [← hlength, List.length_cons]
            exact Nat.lt_succ_self _

theorem startsClose_cons {c : Char} {text : List Char} :
    StartsClose (c :: text) ↔ c = '<' ∧ ∃ m rest, text = m ++ rest ∧
      m.map Char.toLower = ['/', 's', 'c', 'r', 'i', 'p', 't'] := by
  rw [startsClose_iff]
  constructor
  · rintro ⟨m, rest, htext, hm⟩
    obtain ⟨d, tail, rfl⟩ := List.exists_cons_of_ne_nil
      (List.ne_nil_of_length_eq_add_one hm.length)
    obtain ⟨rfl, rfl⟩ := List.cons.inj htext
    obtain ⟨hhead, htail⟩ := List.cons.inj hm
    refine ⟨?_, tail, rest, rfl, htail⟩
    rcases Js.toLower_cases c with ⟨hsame, -⟩ | ⟨hcode, hlow, -⟩
    · exact hsame.symm.trans hhead
    · rw [hhead] at hcode
      have hless : ('<').toNat = 60 := rfl
      omega
  · rintro ⟨rfl, m, rest, rfl, hm⟩
    refine ⟨'<' :: m, rest, rfl, ?_⟩
    rw [IsClose, List.map_cons, hm]
    rfl

theorem not_startsClose {c : Char} (hc : c ≠ '<') (text : List Char) : ¬ StartsClose (c :: text) :=
  fun h => hc (startsClose_cons.mp h).1

theorem replaceClose_append {replacement a : List Char} (ha : '<' ∉ a) (b : List Char) :
    replaceClose replacement (a ++ b) = a ++ replaceClose replacement b := by
  induction a with
  | nil => rfl
  | cons c a ih =>
      have hc : c ≠ '<' := fun h => ha (h ▸ List.mem_cons_self)
      rw [List.cons_append, replaceClose_cons (not_startsClose hc _),
        ih fun h => ha (List.mem_cons_of_mem c h), List.cons_append]

/-! ## Strings of the data -/

theorem IsClose.plain {m : List Char} (h : IsClose m) : ∀ c ∈ m, JsLiteral.IsPlain c := by
  intro c hc
  have hlower : c.toLower ∈ closeText := h ▸ List.mem_map_of_mem hc
  have hcodes : c.toLower.toNat ∈ closeText.map Char.toNat := List.mem_map_of_mem hlower
  have hlist : closeText.map Char.toNat = [60, 47, 115, 99, 114, 105, 112, 116] := rfl
  rw [hlist] at hcodes
  simp only [List.mem_cons, List.not_mem_nil, or_false] at hcodes
  have hcode : c.toNat ≠ 92 ∧ c.toNat ≠ 34 ∧ 32 ≤ c.toNat := by
    rcases Js.toLower_cases c with ⟨hsame, -⟩ | ⟨hsum, hlow, hhigh⟩
    · rw [hsame] at hcodes
      omega
    · omega
  refine ⟨hcode.2.2, ?_, ?_⟩
  · rintro rfl
    exact hcode.1 rfl
  · rintro rfl
    exact hcode.2.1 rfl

/-- An end tag in a text in quotes is one of the text. -/
theorem startsClose_quoted {c : Char} {text rest : List Char}
    (h : StartsClose (c :: (quoted text ++ quoteMark :: rest))) : StartsClose (c :: text) := by
  obtain ⟨rfl, m, later, htext, hm⟩ := startsClose_cons.mp h
  have hclose : IsClose ('<' :: m) := by
    rw [IsClose, List.map_cons, hm]
    rfl
  obtain ⟨back, hback⟩ := JsLiteral.plain_of_quoted
    (fun c hc => hclose.plain c (List.mem_cons_of_mem '<' hc)) htext
  rw [hback]
  exact hclose.startsClose back

theorem readString_escaped (k : Nat) (rest : List Char) :
    JsLiteral.readString (k + 8) (escapedText ++ rest) =
      (JsLiteral.readString k rest).map fun (text, rest) => (closeText ++ text, rest) := by
  have hname : ∀ c ∈ ['s', 'c', 'r', 'i', 'p', 't'], JsLiteral.IsPlain c := fun c hc =>
    (show IsClose closeText from rfl).plain c (List.mem_cons_of_mem _ (List.mem_cons_of_mem _ hc))
  have hslash : ∀ rest, JsLiteral.readEscape (['/'] ++ rest) = some ('/', rest) := fun _ => rfl
  have htext : escapedText ++ rest =
      '<' :: '\\' :: (['/'] ++ (['s', 'c', 'r', 'i', 'p', 't'] ++ rest)) := rfl
  have hsix : k + 6 = ['s', 'c', 'r', 'i', 'p', 't'].length + k := Nat.add_comm k 6
  rw [htext, JsLiteral.readString_plain (by decide), JsLiteral.readString_escape hslash, hsix,
    JsLiteral.readString_append hname]
  cases JsLiteral.readString k rest <;> rfl

/-- A string is read with its end tags in small letters. -/
theorem readString_quoted (text rest : List Char) : ∀ n, text.length < n →
    JsLiteral.readString n (replaceClose escapedText (quoted text ++ quoteMark :: rest)) =
      some (replaceClose closeText text, replaceClose escapedText rest) := by
  have hquoteMark : quoteMark ≠ '<' := by decide
  induction text using closeInduction with
  | nil =>
      intro n hn
      obtain ⟨k, rfl⟩ := Nat.exists_eq_succ_of_ne_zero (Nat.ne_of_gt hn)
      rw [quoted, List.flatMap_nil, List.nil_append,
        replaceClose_cons (not_startsClose hquoteMark rest)]
      rfl
  | close m text hm ih =>
      intro n hn
      rw [List.length_append, hm.length] at hn
      obtain ⟨k, rfl⟩ : ∃ k, n = k + 8 := ⟨n - 8, by omega⟩
      have hread := ih k (by omega)
      rw [JsLiteral.quoted_plain hm.plain, List.append_assoc, replaceClose_close hm,
        replaceClose_close hm, readString_escaped, hread]
      rfl
  | cons c text hc ih =>
      intro n hn
      obtain ⟨k, rfl⟩ := Nat.exists_eq_succ_of_ne_zero (Nat.ne_of_gt (Nat.zero_lt_of_lt hn))
      have hread := ih k (by simpa using hn)
      rw [replaceClose_cons hc, JsLiteral.quoted_cons, List.append_assoc]
      by_cases hplain : JsLiteral.IsPlain c
      · have hno : ¬ StartsClose (c :: (quoted text ++ quoteMark :: rest)) := fun h =>
          hc (startsClose_quoted h)
        rw [JsLiteral.toList_quoteChar hplain, List.singleton_append, replaceClose_cons hno,
          JsLiteral.readString_plain hplain, hread]
        rfl
      · obtain ⟨tail, hquote, hless, hescape⟩ := JsLiteral.quoteChar_escape hplain
        have hfront : '<' ∉ '\\' :: tail := by
          simpa using hless
        rw [hquote, replaceClose_append hfront, List.cons_append,
          JsLiteral.readString_escape hescape, hread]
        rfl

/-! ## The value of the data -/

/-- A string as the script assigns it. -/
def smallTags (text : String) : String := String.ofList (replaceClose closeText text.toList)

mutual

/-- The value that the script assigns. -/
def evaluated : Json → Json
  | .null => .null
  | .bool b => .bool b
  | .num text => .num text
  | .str text => .str (smallTags text)
  | .arr items => .arr (evaluatedItems items)
  | .obj entries => .obj (JsLiteral.objectOf (evaluatedEntries entries))

def evaluatedItems : List Json → List Json
  | [] => []
  | v :: items => evaluated v :: evaluatedItems items

def evaluatedEntries : List (String × Json) → List (String × Json)
  | [] => []
  | (key, v) :: entries => (smallTags key, evaluated v) :: evaluatedEntries entries

end

theorem ends_replaceClose {rest : List Char} (h : Ends rest) :
    Ends (replaceClose escapedText rest) := by
  cases rest with
  | nil => exact h
  | cons c rest =>
      by_cases hc : StartsClose (c :: rest)
      · obtain ⟨m, later, htext, hm⟩ := startsClose_iff.mp hc
        rw [htext, replaceClose_close hm]
        exact ends_cons _ (by decide)
      · rw [replaceClose_cons hc]
        exact ends_cons _ (h c rfl)

/-- The escaped text starts with the same character, except before an end tag. -/
theorem head_replaceClose {text : List Char} {d : Char} (hd : d ≠ '<') :
    (replaceClose escapedText text).head? = some d → text.head? = some d := by
  cases text with
  | nil => exact fun h => h
  | cons c rest =>
      by_cases hc : StartsClose (c :: rest)
      · obtain ⟨m, later, htext, hm⟩ := startsClose_iff.mp hc
        rw [htext, replaceClose_close hm]
        intro h
        exact absurd (Option.some.inj h).symm hd
      · rw [replaceClose_cons hc]
        exact fun h => h

theorem replaceClose_plain {c : Char} (hc : c ≠ '<') (text : List Char) :
    replaceClose escapedText (c :: text) = c :: replaceClose escapedText text :=
  replaceClose_cons (not_startsClose hc text)

theorem readQuote (key : String) {rest : List Char} {n : Nat} (hn : key.toList.length < n) :
    JsLiteral.readString n (replaceClose escapedText ((quote key).toList ++ rest)).tail =
      some ((smallTags key).toList, replaceClose escapedText rest) := by
  have htext : (quote key).toList ++ rest =
      quoteMark :: (quoted key.toList ++ quoteMark :: rest) := by
    rw [toList_quote, List.cons_append, List.append_assoc]
    rfl
  rw [htext, replaceClose_plain (by decide), List.tail_cons, readString_quoted _ _ n hn, smallTags,
    String.toList_ofList]

theorem head_quote (key : String) (rest : List Char) :
    (replaceClose escapedText ((quote key).toList ++ rest)).head? = some quoteMark := by
  rw [toList_quote, List.cons_append, replaceClose_plain (by decide)]
  rfl

mutual

/-- The escaped text of a value is read as the value with its end tags in small letters. -/
theorem read_write : ∀ (v : Json) {n : Nat} {rest : List Char}, HasNumerals v → Ends rest →
    (write v).toList.length < n →
      JsLiteral.read n (replaceClose escapedText ((write v).toList ++ rest)) =
        some (evaluated v, replaceClose escapedText rest)
  | _, 0, _, _, _, hn => absurd hn (Nat.not_lt_zero _)
  | .null, n + 1, rest, _, _, _ => by
      have htext : (write .null).toList = ['n', 'u', 'l', 'l'] := rfl
      rw [htext, replaceClose_append (by decide)]
      exact JsLiteral.read_null n _
  | .bool b, n + 1, rest, _, _, _ => by
      cases b with
      | false =>
          have htext : (write (.bool false)).toList = ['f', 'a', 'l', 's', 'e'] := rfl
          rw [htext, replaceClose_append (by decide)]
          exact JsLiteral.read_false n _
      | true =>
          have htext : (write (.bool true)).toList = ['t', 'r', 'u', 'e'] := rfl
          rw [htext, replaceClose_append (by decide)]
          exact JsLiteral.read_true n _
  | .num text, n + 1, rest, hv, hrest, _ => by
      cases hv with
      | num htext =>
          have hless : '<' ∉ text.toList := fun h => absurd (htext.2 _ h) (by decide)
          rw [write, replaceClose_append hless]
          exact JsLiteral.read_numeral htext (ends_replaceClose hrest) n
  | .str text, n + 1, rest, _, _, hn => by
      have hlength : text.toList.length < n := by
        rw [write, toList_quote, List.length_cons, List.length_append] at hn
        have := JsLiteral.length_le_quoted text.toList
        omega
      have hstring : (write (.str text)).toList ++ rest =
          quoteMark :: (quoted text.toList ++ quoteMark :: rest) := by
        rw [write, toList_quote, List.cons_append, List.append_assoc]
        rfl
      rw [hstring, replaceClose_plain (by decide), JsLiteral.read_string,
        readString_quoted _ _ n hlength]
      rfl
  | .arr items, n + 1, rest, hv, _, hn => by
      rw [toList_write_arr] at hn ⊢
      cases items with
      | nil =>
          have htext : '[' :: ((String.intercalate "," (writeItems [])).toList ++ [']']) ++ rest =
              ['[', ']'] ++ rest := rfl
          rw [htext, replaceClose_append (by decide)]
          rfl
      | cons v items =>
          cases hv with
          | arr hitems =>
              rw [toList_writeItems] at hn ⊢
              have htext : '[' :: ((write v).toList ++ laterItems items ++ [']']) ++ rest =
                  '[' :: ((write v).toList ++ (laterItems items ++ ']' :: rest)) := by simp
              have hlength : (write v).toList.length + (laterItems items).length + 1 < n := by
                simp only [List.length_cons, List.length_append, List.length_nil] at hn
                omega
              have hread := @read_items v items n rest
                (hitems v List.mem_cons_self)
                (fun w hw => hitems w (List.mem_cons_of_mem v hw)) hlength
              have hhead : (replaceClose escapedText
                  ((write v).toList ++ (laterItems items ++ ']' :: rest))).head? ≠ some ']' := by
                intro h
                obtain ⟨tail, htail⟩ :=
                  List.head?_eq_some_iff.mp (head_replaceClose (by decide) h)
                exact write_ne_bracket (hitems v List.mem_cons_self) htail
              rw [htext, replaceClose_plain (by decide), JsLiteral.read_items hhead, hread]
              rfl
  | .obj entries, n + 1, rest, hv, _, hn => by
      rw [toList_write_obj] at hn ⊢
      cases entries with
      | nil =>
          have htext : Char.ofNat 123 :: ((String.intercalate "," (writeEntries [])).toList ++
              [Char.ofNat 125]) ++ rest = [Char.ofNat 123, Char.ofNat 125] ++ rest := rfl
          rw [htext, replaceClose_append (by decide)]
          rfl
      | cons entry entries =>
          obtain ⟨key, v⟩ := entry
          cases hv with
          | obj hvalues =>
              rw [toList_writeEntries] at hn ⊢
              have htext : Char.ofNat 123 :: ((quote key).toList ++ ':' :: ((write v).toList ++
                  laterEntries entries) ++ [Char.ofNat 125]) ++ rest =
                  Char.ofNat 123 :: ((quote key).toList ++ ':' :: ((write v).toList ++
                    (laterEntries entries ++ Char.ofNat 125 :: rest))) := by simp
              have hlength : (quote key).toList.length + (write v).toList.length +
                  (laterEntries entries).length + 1 < n := by
                simp only [List.length_cons, List.length_append, List.length_nil] at hn
                omega
              have hread := @read_entries key v entries n rest
                (hvalues _ List.mem_cons_self)
                (fun entry hentry => hvalues entry (List.mem_cons_of_mem _ hentry)) hlength
              have hhead : (replaceClose escapedText ((quote key).toList ++ ':' ::
                  ((write v).toList ++ (laterEntries entries ++ Char.ofNat 125 :: rest)))).head? ≠
                  some (Char.ofNat 125) := by
                rw [head_quote]
                decide
              rw [htext, replaceClose_plain (by decide), JsLiteral.read_members hhead, hread]
              rfl

theorem read_items : ∀ (v : Json) (items : List Json) {n : Nat} {rest : List Char},
    HasNumerals v → (∀ w ∈ items, HasNumerals w) →
    (write v).toList.length + (laterItems items).length + 1 < n →
      JsLiteral.readItems n (replaceClose escapedText
        ((write v).toList ++ (laterItems items ++ ']' :: rest))) =
        some (evaluatedItems (v :: items), replaceClose escapedText rest)
  | _, _, 0, _, _, _, hn => absurd hn (Nat.not_lt_zero _)
  | v, items, n + 1, rest, hv, hitems, hn => by
      have hread := read_write v (n := n) hv (ends_laterItems items rest) (by omega)
      rw [JsLiteral.readItems, hread]
      cases items with
      | nil =>
          have htext : replaceClose escapedText (laterItems [] ++ ']' :: rest) =
              ']' :: replaceClose escapedText rest := replaceClose_plain (by decide) rest
          rw [htext]
          rfl
      | cons w items =>
          have htext : replaceClose escapedText (laterItems (w :: items) ++ ']' :: rest) =
              ',' :: replaceClose escapedText
                ((write w).toList ++ (laterItems items ++ ']' :: rest)) := by
            rw [laterItems, List.cons_append, List.append_assoc]
            exact replaceClose_plain (by decide) _
          have hlength : (write w).toList.length + (laterItems items).length + 1 < n := by
            simp only [laterItems, List.length_cons, List.length_append] at hn
            omega
          have hlater := @read_items w items n rest (hitems w List.mem_cons_self)
            (fun u hu => hitems u (List.mem_cons_of_mem w hu)) hlength
          rw [htext]
          show Option.map _ (JsLiteral.readItems n _) = _
          rw [hlater]
          rfl

theorem read_entries : ∀ (key : String) (v : Json) (entries : List (String × Json)) {n : Nat}
    {rest : List Char}, HasNumerals v → (∀ entry ∈ entries, HasNumerals entry.2) →
    (quote key).toList.length + (write v).toList.length + (laterEntries entries).length + 1 < n →
      JsLiteral.readMembers n (replaceClose escapedText ((quote key).toList ++ ':' ::
        ((write v).toList ++ (laterEntries entries ++ Char.ofNat 125 :: rest)))) =
        some (evaluatedEntries ((key, v) :: entries), replaceClose escapedText rest)
  | _, _, _, 0, _, _, _, hn => absurd hn (Nat.not_lt_zero _)
  | key, v, entries, n + 1, rest, hv, hentries, hn => by
      have hkey : key.toList.length < n := by
        rw [toList_quote, List.length_cons, List.length_append] at hn
        have := JsLiteral.length_le_quoted key.toList
        omega
      have hread := read_write v (n := n) hv (ends_laterEntries entries rest) (by omega)
      rw [JsLiteral.readMembers, if_pos (head_quote key _), readQuote key hkey,
        replaceClose_plain (by decide)]
      dsimp only
      rw [if_pos rfl, hread]
      cases entries with
      | nil =>
          have htext : replaceClose escapedText (laterEntries [] ++ Char.ofNat 125 :: rest) =
              Char.ofNat 125 :: replaceClose escapedText rest := replaceClose_plain (by decide) rest
          rw [htext]
          dsimp only
          rw [if_pos rfl, String.ofList_toList]
          rfl
      | cons entry entries =>
          obtain ⟨other, w⟩ := entry
          have htext : replaceClose escapedText
              (laterEntries ((other, w) :: entries) ++ Char.ofNat 125 :: rest) =
              ',' :: replaceClose escapedText ((quote other).toList ++ ':' ::
                ((write w).toList ++ (laterEntries entries ++ Char.ofNat 125 :: rest))) := by
            rw [laterEntries, List.cons_append, List.append_assoc, List.cons_append,
              List.append_assoc]
            exact replaceClose_plain (by decide) _
          have hlength : (quote other).toList.length + (write w).toList.length +
              (laterEntries entries).length + 1 < n := by
            simp only [laterEntries, List.length_cons, List.length_append] at hn
            omega
          have hlater := @read_entries other w entries n rest (hentries _ List.mem_cons_self)
            (fun entry hentry => hentries entry (List.mem_cons_of_mem _ hentry)) hlength
          rw [htext]
          dsimp only
          rw [if_neg (by decide), if_pos rfl, hlater, String.ofList_toList]
          rfl

end

/-! ## The data that is kept -/

/-- Every end tag of a script in the text is in small letters. -/
def HasSmallTags (text : List Char) : Prop :=
  ∀ a b, text = a ++ b → StartsClose b → b.take 8 = closeText

/-- No end tag in the data has a capital letter, and no key is the one of the prototype. -/
inductive Kept : Json → Prop
  | null : Kept .null
  | bool (b : Bool) : Kept (.bool b)
  | num (text : String) : Kept (.num text)
  | str {text : String} (h : HasSmallTags text.toList) : Kept (.str text)
  | arr {items : List Json} (hitems : ∀ v ∈ items, Kept v) : Kept (.arr items)
  | obj {entries : List (String × Json)}
      (hkeys : ∀ entry ∈ entries, HasSmallTags entry.1.toList ∧ entry.1 ≠ "__proto__")
      (hvalues : ∀ entry ∈ entries, Kept entry.2) : Kept (.obj entries)

/-- The first character of an end tag is its only `<`. -/
theorem IsClose.exists_tail {m : List Char} (h : IsClose m) :
    ∃ tail, m = '<' :: tail ∧ '<' ∉ tail ∧
      tail.map Char.toLower = ['/', 's', 'c', 'r', 'i', 'p', 't'] := by
  obtain ⟨c, tail, rfl⟩ := List.exists_cons_of_ne_nil
    (List.ne_nil_of_length_eq_add_one h.length)
  have hstarts : StartsClose (c :: tail) := by
    have := h.startsClose []
    rwa [List.append_nil] at this
  obtain ⟨rfl, -⟩ := startsClose_cons.mp hstarts
  have htail : tail.map Char.toLower = ['/', 's', 'c', 'r', 'i', 'p', 't'] := (List.cons.inj h).2
  refine ⟨tail, rfl, ?_, htail⟩
  intro hless
  have hmem : Char.toLower '<' ∈ tail.map Char.toLower := List.mem_map_of_mem hless
  rw [htail] at hmem
  exact absurd hmem (by decide)

/-- An end tag starts in none of the characters before it. -/
theorem exists_suffix {a rest b : List Char} (ha : '<' ∉ a) (hb : StartsClose b) :
    ∀ x, a ++ rest = x ++ b → ∃ y, rest = y ++ b := by
  induction a with
  | nil => exact fun x h => ⟨x, h⟩
  | cons c a ih =>
      intro x h
      cases x with
      | nil =>
          rw [List.nil_append] at h
          rw [← h, List.cons_append] at hb
          obtain ⟨rfl, -⟩ := startsClose_cons.mp hb
          exact absurd List.mem_cons_self ha
      | cons d x =>
          exact ih (fun h => ha (List.mem_cons_of_mem c h)) x (List.cons.inj h).2

theorem hasSmallTags_close {m rest : List Char} (hm : IsClose m) :
    HasSmallTags (m ++ rest) ↔ m = closeText ∧ HasSmallTags rest := by
  have htake : (m ++ rest).take 8 = m := by
    rw [← hm.length, List.take_left]
  constructor
  · intro h
    constructor
    · rw [← htake]
      exact h [] _ rfl (hm.startsClose rest)
    · intro a b hab hb
      exact h (m ++ a) b (by rw [hab, List.append_assoc]) hb
  · rintro ⟨hclose, hrest⟩ a b hab hb
    cases a with
    | nil =>
        rw [List.nil_append] at hab
        rw [← hab, htake, hclose]
    | cons c a =>
        obtain ⟨tail, rfl, hless, -⟩ := hm.exists_tail
        obtain ⟨y, hy⟩ := exists_suffix hless hb a (List.cons.inj hab).2
        exact hrest y b hy hb

theorem hasSmallTags_cons {c : Char} {text : List Char} (hc : ¬ StartsClose (c :: text)) :
    HasSmallTags (c :: text) ↔ HasSmallTags text := by
  constructor
  · intro h a b hab hb
    exact h (c :: a) b (by rw [hab, List.cons_append]) hb
  · intro h a b hab hb
    cases a with
    | nil =>
        rw [List.nil_append] at hab
        exact absurd (hab ▸ hb) hc
    | cons d a => exact h a b (List.cons.inj hab).2 hb

/-- The script keeps exactly the texts whose end tags are in small letters. -/
theorem replaceClose_eq_iff (text : List Char) :
    replaceClose closeText text = text ↔ HasSmallTags text := by
  induction text using closeInduction with
  | nil =>
      refine iff_of_true rfl ?_
      intro a b hab hb
      have hnil : b = [] := (List.append_eq_nil_iff.mp hab.symm).2
      subst hnil
      exact absurd hb (by decide)
  | close m rest hm ih =>
      rw [replaceClose_close hm, hasSmallTags_close hm, ← ih]
      constructor
      · intro h
        obtain ⟨hclose, hrest⟩ := List.append_inj h (by rw [hm.length]; rfl)
        exact ⟨hclose.symm, hrest⟩
      · rintro ⟨hclose, hrest⟩
        rw [hrest, hclose]
  | cons c rest hc ih =>
      rw [replaceClose_cons hc, hasSmallTags_cons hc, ← ih]
      exact ⟨fun h => (List.cons.inj h).2, fun h => by rw [h]⟩

/-- Text without a `<` at the head of the replaced text is at the head of the text. -/
theorem exists_of_replaceClose {replacement : List Char} (hfirst : ∃ r, replacement = '<' :: r) :
    ∀ {m text later : List Char}, '<' ∉ m → replaceClose replacement text = m ++ later →
      ∃ back, text = m ++ back
  | [], text, _, _, _ => ⟨text, rfl⟩
  | c :: m, [], _, _, h => absurd h (by simp [replaceClose, replaceCloseFrom])
  | c :: m, d :: text, later, hm, h => by
      by_cases hd : StartsClose (d :: text)
      · obtain ⟨n, rest, htext, hn⟩ := startsClose_iff.mp hd
        obtain ⟨r, rfl⟩ := hfirst
        rw [htext, replaceClose_close hn] at h
        obtain ⟨rfl, -⟩ := List.cons.inj h
        exact absurd List.mem_cons_self hm
      · rw [replaceClose_cons hd] at h
        obtain ⟨rfl, htail⟩ := List.cons.inj h
        obtain ⟨back, hback⟩ :=
          exists_of_replaceClose hfirst (fun h => hm (List.mem_cons_of_mem d h)) htail
        exact ⟨back, by rw [hback, List.cons_append]⟩

/-- The replacement makes no end tag. -/
theorem not_startsClose_replaceClose {replacement : List Char}
    (hfirst : ∃ r, replacement = '<' :: r) {c : Char} {text : List Char}
    (h : ¬ StartsClose (c :: text)) : ¬ StartsClose (c :: replaceClose replacement text) := by
  intro hstarts
  obtain ⟨rfl, m, rest, htext, hm⟩ := startsClose_cons.mp hstarts
  have hclose : IsClose ('<' :: m) := by
    rw [IsClose, List.map_cons, hm]
    rfl
  obtain ⟨tail, htail, hless, -⟩ := hclose.exists_tail
  obtain rfl := (List.cons.inj htail).2
  obtain ⟨back, hback⟩ := exists_of_replaceClose hfirst hless htext
  rw [hback] at h
  exact h (hclose.startsClose back)

/-- What the script assigns has its end tags in small letters. -/
theorem hasSmallTags_replaceClose (text : List Char) :
    HasSmallTags (replaceClose closeText text) := by
  rw [← replaceClose_eq_iff]
  induction text using closeInduction with
  | nil => rfl
  | close m rest hm ih =>
      rw [replaceClose_close hm, replaceClose_close (show IsClose closeText from rfl), ih]
  | cons c rest hc ih =>
      have hno : ¬ StartsClose (c :: replaceClose closeText rest) :=
        not_startsClose_replaceClose ⟨_, rfl⟩ hc
      rw [replaceClose_cons hc, replaceClose_cons hno, ih]

/-! ## The assigned value -/

theorem evaluatedItems_eq (items : List Json) : evaluatedItems items = items.map evaluated := by
  induction items with
  | nil => rfl
  | cons v items ih => rw [evaluatedItems, ih, List.map_cons]

theorem evaluatedEntries_eq (entries : List (String × Json)) :
    evaluatedEntries entries = entries.map fun entry => (smallTags entry.1, evaluated entry.2) := by
  induction entries with
  | nil => rfl
  | cons entry entries ih => rw [evaluatedEntries, ih, List.map_cons]

theorem smallTags_eq {text : String} (h : HasSmallTags text.toList) : smallTags text = text := by
  rw [smallTags, (replaceClose_eq_iff _).mpr h, String.ofList_toList]

theorem hasSmallTags_smallTags (text : String) : HasSmallTags (smallTags text).toList := by
  rw [smallTags, String.toList_ofList]
  exact hasSmallTags_replaceClose _

theorem evaluated_eq_self {v : Json} (hv : WellFormed v) (h : Kept v) : evaluated v = v := by
  induction v using parts_induction with
  | atom v hatom =>
      cases h with
      | null | bool | num => rfl
      | str htext => rw [evaluated, smallTags_eq htext]
      | arr | obj => exact absurd hatom id
  | arr items ih =>
      cases h with
      | arr hkept =>
          cases hv with
          | atom h => exact absurd h id
          | arr hitems =>
              rw [evaluated, evaluatedItems_eq, List.map_congr_left
                (fun w hw => ih w hw (hitems w hw) (hkept w hw)), List.map_id']
  | obj entries ih =>
      cases h with
      | obj hkeys hkept =>
          cases hv with
          | atom h => exact absurd h id
          | obj hnodup hvalues =>
              have hsame : ∀ entry ∈ entries,
                  (smallTags entry.1, evaluated entry.2) = entry := by
                intro entry hentry
                rw [smallTags_eq (hkeys entry hentry).1,
                  ih entry hentry (hvalues entry hentry) (hkept entry hentry)]
              rw [evaluated, evaluatedEntries_eq, List.map_congr_left hsame, List.map_id',
                JsLiteral.objectOf_eq_self hnodup fun entry hentry => (hkeys entry hentry).2]

/-- Whatever the data are, what the script assigns is kept. -/
theorem kept_evaluated (v : Json) : Kept (evaluated v) := by
  induction v using parts_induction with
  | atom v hatom =>
      cases v with
      | null => exact .null
      | bool b => exact .bool b
      | num text => exact .num text
      | str text => exact .str (hasSmallTags_smallTags text)
      | arr | obj => exact absurd hatom id
  | arr items ih =>
      rw [evaluated, evaluatedItems_eq]
      refine .arr ?_
      intro w hw
      obtain ⟨v, hv, rfl⟩ := List.mem_map.mp hw
      exact ih v hv
  | obj entries ih =>
      rw [evaluated, evaluatedEntries_eq]
      refine .obj ?_ ?_
      · intro entry hentry
        obtain ⟨hmem, hproto⟩ := JsLiteral.mem_objectOf hentry
        obtain ⟨first, -, rfl⟩ := List.mem_map.mp hmem
        exact ⟨hasSmallTags_smallTags first.1, hproto⟩
      · intro entry hentry
        obtain ⟨hmem, -⟩ := JsLiteral.mem_objectOf hentry
        obtain ⟨first, hfirst, rfl⟩ := List.mem_map.mp hmem
        exact ih first hfirst

theorem Kept.of_same {v w : Json} (h : Same v w) (hv : Kept v) (hw : WellFormed w) : Kept w := by
  induction h with
  | atom _ => exact hv
  | arr hlength _ ih =>
      cases hv with
      | arr hkept =>
          cases hw with
          | atom h => exact absurd h id
          | arr hitems =>
              refine .arr ?_
              intro w hmem
              obtain ⟨i, hi⟩ := List.getElem?_of_mem hmem
              obtain ⟨v, hvi⟩ := Same.exists_item hlength.symm hi
              exact ih i v w hvi hi (hkept v (List.mem_of_getElem? hvi)) (hitems w hmem)
  | @obj fields others hkeys _ ih =>
      cases hv with
      | obj hnames hkept =>
          cases hw with
          | atom h => exact absurd h id
          | obj hnodup hvalues =>
              have hold : ∀ {key : String} {w : Json}, (key, w) ∈ others →
                  ∃ v, fields.lookup key = some v := fun hmem =>
                Same.exists_member (fun k => (hkeys k).symm) (lookup_of_mem hnodup hmem)
              refine .obj ?_ ?_
              · rintro ⟨key, w⟩ hmem
                obtain ⟨v, hlookup⟩ := hold hmem
                exact hnames (key, v) (mem_of_lookup hlookup)
              · rintro ⟨key, w⟩ hmem
                obtain ⟨v, hlookup⟩ := hold hmem
                exact ih key v w hlookup (lookup_of_mem hnodup hmem)
                  (hkept (key, v) (mem_of_lookup hlookup)) (hvalues (key, w) hmem)

/-- The script assigns the data exactly if they are kept. -/
theorem same_evaluated_iff {v : Json} (hv : WellFormed v) : Same (evaluated v) v ↔ Kept v := by
  constructor
  · intro h
    exact (kept_evaluated v).of_same h hv
  · intro h
    rw [evaluated_eq_self hv h]
    exact Same.refl v

/-! ## The source of the script -/

/-- The left side of the assignment. -/
def target : List Char := "window.__RP_DATA__ = ".toList

/-- The expression `params ?? {}`. -/
def orEmpty : Json → Json
  | .null => .obj []
  | v => v

def safeJson (params : Json) : List Char :=
  replaceClose escapedText (write (orEmpty params)).toList

/-- The text of the data script. -/
def dataSource (params : Json) : List Char := target ++ safeJson params ++ [';']

theorem startsClose_snoc {text : List Char} (h : StartsClose (text ++ [';'])) :
    StartsClose text := by
  by_cases hlength : 8 ≤ text.length
  · rwa [StartsClose, List.take_append_of_le_length hlength] at h
  · have hall : (text ++ [';']).take 8 = text ++ [';'] := by
      apply List.take_of_length_le
      rw [List.length_append, List.length_singleton]
      omega
    have hmem : Char.toLower ';' ∈ ((text ++ [';']).take 8).map Char.toLower := by
      rw [hall]
      exact List.mem_map_of_mem (by simp)
    rw [StartsClose] at h
    rw [h] at hmem
    exact absurd hmem (by decide)

theorem replaceClose_snoc (replacement text : List Char) :
    replaceClose replacement (text ++ [';']) = replaceClose replacement text ++ [';'] := by
  induction text using closeInduction with
  | nil =>
      rw [List.nil_append, replaceClose_cons (not_startsClose (by decide) [])]
      rfl
  | close m rest hm ih =>
      rw [List.append_assoc, replaceClose_close hm, replaceClose_close hm, ih, List.append_assoc]
  | cons c rest hc ih =>
      have hno : ¬ StartsClose (c :: (rest ++ [';'])) := fun h => hc (startsClose_snoc h)
      rw [List.cons_append, replaceClose_cons hno, replaceClose_cons hc, ih, List.cons_append]

theorem dataSource_eq (params : Json) :
    dataSource params =
      target ++ replaceClose escapedText ((write (orEmpty params)).toList ++ [';']) := by
  rw [dataSource, safeJson, replaceClose_snoc, List.append_assoc]

theorem length_le_replaceClose (text : List Char) :
    text.length ≤ (replaceClose escapedText text).length := by
  induction text using closeInduction with
  | nil => exact Nat.zero_le _
  | close m rest hm ih =>
      have hlength : escapedText.length = 9 := rfl
      rw [replaceClose_close hm, List.length_append, List.length_append, hm.length, hlength]
      omega
  | cons c rest hc ih =>
      rw [replaceClose_cons hc, List.length_cons, List.length_cons]
      omega

/-- The value that the data script assigns. -/
theorem assigned_dataSource {params : Json} (h : HasNumerals (orEmpty params)) :
    JsLiteral.assigned target (dataSource params) = some (evaluated (orEmpty params)) := by
  have hsource := dataSource_eq params
  have hends : Ends [';'] := ends_cons [] (by decide)
  have hlength : (write (orEmpty params)).toList.length < (dataSource params).length + 1 := by
    have := length_le_replaceClose ((write (orEmpty params)).toList ++ [';'])
    rw [hsource, List.length_append]
    rw [List.length_append] at this
    omega
  have hread := read_write (orEmpty params) h hends hlength
  have hrest : replaceClose escapedText [';'] = [';'] :=
    replaceClose_plain (by decide) []
  have hprefix : target <+: dataSource params := hsource ▸ List.prefix_append _ _
  have hdrop : (dataSource params).drop target.length =
      replaceClose escapedText ((write (orEmpty params)).toList ++ [';']) := by
    rw [hsource, List.drop_left]
  rw [JsLiteral.assigned, if_pos hprefix, hdrop, hread, hrest]
  rfl

/-- The escaped text holds no end tag. -/
theorem not_startsClose_suffix (text : List Char) : ∀ y b,
    replaceClose escapedText text = y ++ b → ¬ StartsClose b := by
  induction text using closeInduction with
  | nil =>
      intro y b h hb
      have hnil : b = [] := (List.append_eq_nil_iff.mp h.symm).2
      subst hnil
      exact absurd hb (by decide)
  | close m rest hm ih =>
      intro y b h hb
      rw [replaceClose_close hm] at h
      cases y with
      | nil =>
          rw [List.nil_append] at h
          rw [← h] at hb
          obtain ⟨-, n, later, htext, hn⟩ := startsClose_cons.mp hb
          cases n with
          | nil => exact absurd hn (by decide)
          | cons d n =>
              obtain ⟨rfl, -⟩ := List.cons.inj htext
              exact absurd (List.cons.inj hn).1 (by decide)
      | cons c y =>
          have hless : '<' ∉ ['\\', '/', 's', 'c', 'r', 'i', 'p', 't'] := by decide
          obtain ⟨z, hz⟩ := exists_suffix hless hb y (List.cons.inj h).2
          exact ih z b hz hb
  | cons c rest hc ih =>
      intro y b h hb
      rw [replaceClose_cons hc] at h
      cases y with
      | nil =>
          rw [List.nil_append] at h
          exact not_startsClose_replaceClose ⟨_, rfl⟩ hc (h ▸ hb)
      | cons d y => exact ih y b (List.cons.inj h).2 hb

theorem not_endsElement_dataSource (params : Json) :
    ¬ EndsElement (dataSource params).reverse := by
  intro h
  obtain ⟨a, b, hab, hb⟩ := exists_startsClose h
  rw [List.reverse_reverse, dataSource_eq] at hab
  obtain ⟨y, hy⟩ := exists_suffix (by decide : '<' ∉ target) hb a hab
  exact not_startsClose_suffix _ y b hy hb

/-! ## The end of the script -/

theorem isAlpha_of_toLower {c : Char}
    (h : c.toLower ∈ ['s', 'c', 'r', 'i', 'p', 't']) : c.isAlpha = true := by
  rcases Js.toLower_cases c with ⟨hsame, -⟩ | ⟨-, hlow, hhigh⟩
  · rw [hsame] at h
    simp only [List.mem_cons, List.not_mem_nil, or_false] at h
    rcases h with rfl | rfl | rfl | rfl | rfl | rfl <;> decide
  · have hupper : c.isUpper = true := decide_eq_true ⟨hlow, hhigh⟩
    exact Bool.or_eq_true_iff.mpr (.inl hupper)

/-- The letters of an end tag. -/
theorem IsClose.exists_letters {m : List Char} (h : IsClose m) : ∃ letters,
    m = '<' :: '/' :: letters ∧ letters ≠ [] ∧ ∀ c ∈ letters, c.isAlpha = true := by
  obtain ⟨tail, rfl, -, htail⟩ := h.exists_tail
  cases tail with
  | nil => exact absurd htail (by decide)
  | cons c letters =>
      obtain ⟨hslash, hname⟩ := List.cons.inj htail
      have hc : c = '/' := by
        rcases Js.toLower_cases c with ⟨hsame, -⟩ | ⟨hcode, hlow, -⟩
        · exact hsame.symm.trans hslash
        · rw [hslash] at hcode
          have hcodes : ('/').toNat = 47 := rfl
          omega
      refine ⟨letters, by rw [hc], ?_, ?_⟩
      · rintro rfl
        exact absurd hname (by decide)
      · intro d hd
        apply isAlpha_of_toLower
        rw [← hname]
        exact List.mem_map_of_mem hd

/-- The escaped text is like the text for a tokenizer. -/
theorem alike_replaceClose (text : List Char) : ∀ {past other : List Char}, Alike past other →
    Alike (text.reverse ++ past) ((replaceClose escapedText text).reverse ++ other) := by
  induction text using closeInduction with
  | nil => exact fun h => h
  | close m rest hm ih =>
      intro past other h
      obtain ⟨letters, hletters, hne, halpha⟩ := hm.exists_letters
      have hclose : Alike (m.reverse ++ past) (escapedText.reverse ++ other) := by
        have hname : escapedText.reverse ++ other =
            ['t', 'p', 'i', 'r', 'c', 's'] ++ '/' :: '\\' :: '<' :: other := rfl
        have htext : m.reverse ++ past = letters.reverse ++ '/' :: '<' :: past := by
          rw [hletters]
          simp
        have hsmall : ['t', 'p', 'i', 'r', 'c', 's'].all Char.isAlpha = true := rfl
        rw [hname, htext]
        refine h.close ?_ (List.all_eq_true.mp hsmall) (by simpa using hne) (by decide)
        exact fun c hc => halpha c (List.mem_reverse.mp hc)
      rw [replaceClose_close hm, List.reverse_append, List.reverse_append, List.append_assoc,
        List.append_assoc]
      exact ih hclose
  | cons c rest hc ih =>
      intro past other h
      rw [replaceClose_cons hc, List.reverse_cons, List.reverse_cons, List.append_assoc,
        List.append_assoc]
      exact ih (h.cons c)

theorem alike_target : Alike [] target.reverse := by
  have hcomment : ∀ past : List Char, '-' ∉ past → ¬ InComment past := by
    intro past hdash
    induction past with
    | nil => exact fun h => h
    | cons c past ih =>
        rintro (h | ⟨h, -⟩)
        · exact hdash (h.subset (by simp))
        · exact ih (fun h => hdash (List.mem_cons_of_mem c h)) h
  have hscript : ∀ past : List Char, '-' ∉ past → ¬ InScript past := by
    intro past hdash
    induction past with
    | nil => exact fun h => h
    | cons c past ih =>
        have hpast : '-' ∉ past := fun h => hdash (List.mem_cons_of_mem c h)
        rintro (⟨-, h, -⟩ | ⟨h, -⟩)
        · exact hcomment past hpast h
        · exact ih hpast h
  exact ⟨iff_of_false (fun h => h) (hcomment _ (by decide)),
    iff_of_false (fun h => h) (hscript _ (by decide)), by decide, by decide, by decide, by decide,
    by decide, by decide⟩

/-- The data of a template: a JSON value as the language has it. -/
structure PrintTemplateRenderParams where
  value : Json
  numerals : HasNumerals value
  wellFormed : WellFormed value

/-- The paginator gets the data it was sent, except for capital letters in an end tag and for a
member of the prototype's name, and except for no data at all. -/
theorem dataSource_assigns_iff (params : PrintTemplateRenderParams) :
    (∃ v, JsLiteral.assigned target (dataSource params.value) = some v ∧ Same v params.value) ↔
      params.value ≠ .null ∧ Kept params.value := by
  obtain ⟨value, hnumerals, hwellFormed⟩ := params
  show (∃ v, JsLiteral.assigned target (dataSource value) = some v ∧ Same v value) ↔ _
  by_cases hnull : value = .null
  · subst hnull
    have hempty : HasNumerals (orEmpty .null) := .obj (by simp)
    rw [assigned_dataSource hempty]
    refine iff_of_false ?_ fun h => h.1 rfl
    rintro ⟨v, hv, hsame⟩
    obtain rfl := Option.some.inj hv
    cases hsame
  · have hvalue : orEmpty value = value := by
      cases value with
      | null => exact absurd rfl hnull
      | bool | num | str | arr | obj => rfl
    rw [assigned_dataSource (hvalue.symm ▸ hnumerals), hvalue, ← same_evaluated_iff hwellFormed]
    constructor
    · rintro ⟨v, hv, hsame⟩
      obtain rfl := Option.some.inj hv
      exact ⟨hnull, hsame⟩
    · rintro ⟨-, hsame⟩
      exact ⟨_, rfl, hsame⟩

end ErpApi.Report.Banded
