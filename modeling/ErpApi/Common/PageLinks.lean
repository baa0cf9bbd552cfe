import ErpApi.Basic.JsString
import Mathlib.Data.Rat.Defs
import Mathlib.Tactic.Linarith

set_option autoImplicit false

/-! # Links to other pages

`createPaginatedResponse` makes the links of a page by writing the new parameters behind the URL of
the request. A server that gets such a link parses its query string again. `links_iff` says for
which requests this gives the parameters of the request with another page.
-/

namespace ErpApi.JsonApi

/-! ## The response -/

/-- The members of `IPagination` that the links are made of. -/
structure IPagination where
  page : ℚ
  page_size : ℚ
  total_pages : ℚ

structure ILinks where
  self : String
  first : Option String
  last : Option String
  prev : Option String
  next : Option String

/-- The link to one page; `numberText` is `String(number)`. -/
def linkTo (numberText : ℚ → String) (pagination : IPagination) (baseUrl : String) (page : ℚ) :
    String :=
  baseUrl ++ "?page=" ++ numberText page ++ "&limit=" ++ numberText pagination.page_size

/-- The links of a page with this number of rows. -/
def createPaginatedResponse (numberText : ℚ → String) (length : ℕ) (pagination : IPagination)
    (baseUrl : String) : ILinks :=
  let link := linkTo numberText pagination baseUrl
  { self := link pagination.page
    first := if length > 0 then some (link 1) else none
    last := if length > 0 then some (link pagination.total_pages) else none
    prev := if pagination.page > 1 then some (link (pagination.page - 1)) else none
    next := if pagination.page < pagination.total_pages then some (link (pagination.page + 1))
      else none }

/-- A request: `protocol://host`, the path, and the query string if there is a `?`. -/
structure Request where
  origin : String
  path : String
  query : Option String
  origin_plain : '?' ∉ origin.toList
  path_plain : '?' ∉ path.toList

def Request.url (request : Request) : String :=
  request.path ++ (request.query.map fun query => "?" ++ query).getD ""

/-- The links that the interceptor answers with. -/
def intercept (numberText : ℚ → String) (request : Request) (length : ℕ)
    (pagination : IPagination) : ILinks :=
  createPaginatedResponse numberText length pagination (request.origin ++ request.url)

/-! ## The server -/

/-- The decoding of the parts of a query string, and the text of numbers. -/
structure Library where
  decode : String → String
  numberText : ℚ → String
  /-- Without escapes only `+` is replaced. -/
  decode_plain : ∀ text, '%' ∉ text.toList → decode text = Js.replaceAllChar text '+' " "
  /-- A question mark ends an escape that is not complete. -/
  decode_append : ∀ a b, '%' ∉ b.toList → decode (a ++ "?" ++ b) = decode a ++ "?" ++ decode b
  /-- The text of a number holds digits, signs, a point and an `e`. -/
  numberText_chars : ∀ x, ∀ c ∈ (numberText x).toList, c.isDigit = true ∨ c ∈ ['-', '+', '.', 'e']

/-- The part of a URL before the query string. -/
def pathOf (url : String) : String := String.ofList (url.toList.takeWhile (· ≠ '?'))

def queryOf (url : String) : String := String.ofList ((url.toList.dropWhile (· ≠ '?')).drop 1)

variable (lib : Library)

/-- A part of a query string, up to its first `=` and after it. -/
def parsePair (part : String) : String × String :=
  (lib.decode (String.ofList (part.toList.takeWhile (· ≠ '='))),
    lib.decode (String.ofList ((part.toList.dropWhile (· ≠ '=')).drop 1)))

def parseQuery (query : String) : List (String × String) :=
  ((Js.split '&' query).filter (· ≠ "")).map (parsePair lib)

/-- What a parameter is: a text, or an array if it is given more than once. -/
def valuesOf (params : List (String × String)) (key : String) : List String :=
  (params.filter (·.1 = key)).map Prod.snd

def Request.params (request : Request) : List (String × String) :=
  parseQuery lib (request.query.getD "")

/-! ## What the links promise -/

/-- The link is the request with this page, and with the size of the pages. -/
def Leads (request : Request) (pagination : IPagination) (link : String) (page : ℚ) : Prop :=
  pathOf link = request.origin ++ request.path ∧
    ∀ key, valuesOf (parseQuery lib (queryOf link)) key =
      if key = "page" then [lib.numberText page]
      else if key = "limit" then [lib.numberText pagination.page_size]
      else valuesOf (request.params lib) key

/-- Every link leads to its page. -/
structure LinksLead (request : Request) (length : ℕ) (pagination : IPagination) : Prop where
  self : Leads lib request pagination
    (intercept lib.numberText request length pagination).self pagination.page
  first : ∀ link, (intercept lib.numberText request length pagination).first = some link →
    Leads lib request pagination link 1
  last : ∀ link, (intercept lib.numberText request length pagination).last = some link →
    Leads lib request pagination link pagination.total_pages
  prev : ∀ link, (intercept lib.numberText request length pagination).prev = some link →
    Leads lib request pagination link (pagination.page - 1)
  next : ∀ link, (intercept lib.numberText request length pagination).next = some link →
    Leads lib request pagination link (pagination.page + 1)

/-- The number is written without an exponent that has a sign `+`. -/
def IsPlain (x : ℚ) : Prop := '+' ∉ (lib.numberText x).toList

/-- The numbers that the links are made of. -/
structure PlainNumbers (length : ℕ) (pagination : IPagination) : Prop where
  size : IsPlain lib pagination.page_size
  self : IsPlain lib pagination.page
  first : 0 < length → IsPlain lib 1
  last : 0 < length → IsPlain lib pagination.total_pages
  prev : 1 < pagination.page → IsPlain lib (pagination.page - 1)
  next : pagination.page < pagination.total_pages → IsPlain lib (pagination.page + 1)

/-! ## Splitting -/

theorem mem_last {c : Char} : ∀ {l : List Char}, c ∈ l →
    ∃ front back, l = front ++ c :: back ∧ c ∉ back := by
  intro l h
  obtain ⟨back, front, hl, hnot⟩ := List.eq_append_cons_of_mem (List.mem_reverse.mpr h)
  refine ⟨front.reverse, back.reverse, ?_, by simpa using hnot⟩
  rw [← List.reverse_reverse l, hl]
  simp

/-- Only the last part grows when text without a separator is written behind. -/
theorem split_last (query : String) : ∃ (parts : List String) (last : String),
    Js.split '&' query = parts ++ [last] ∧
      ∀ rest : String, '&' ∉ rest.toList → Js.split '&' (query ++ rest) = parts ++ [last ++ rest] := by
  by_cases hmem : '&' ∈ query.toList
  · obtain ⟨front, back, hquery, hback⟩ := mem_last hmem
    have htext : query = String.ofList front ++ String.singleton '&' ++ String.ofList back := by
      apply String.toList_injective
      simp [hquery]
    refine ⟨Js.split '&' (String.ofList front), String.ofList back, ?_, ?_⟩
    · have hpart : Js.split '&' (String.ofList back) = [String.ofList back] :=
        Js.split_of_not_mem (by simpa using hback)
      rw [htext, Js.split_append, hpart]
    · intro rest hrest
      have hpart : Js.split '&' (String.ofList back ++ rest) = [String.ofList back ++ rest] :=
        Js.split_of_not_mem (by simp [hback, hrest])
      rw [htext, String.append_assoc, Js.split_append, hpart]
  · refine ⟨[], query, Js.split_of_not_mem hmem, ?_⟩
    intro rest hrest
    exact Js.split_of_not_mem (by simp [hmem, hrest])

/-! ## The text of numbers -/

/-- The replacement is visible exactly if the character is there. -/
theorem replaceAllChar_eq_self_iff {text replacement : String} {c : Char}
    (hc : c ∉ replacement.toList) :
    Js.replaceAllChar text c replacement = text ↔ c ∉ text.toList := by
  constructor
  · intro h hmem
    have hsame : c ∈ (Js.replaceAllChar text c replacement).toList := by rwa [h]
    simp only [Js.replaceAllChar, String.toList_ofList, List.mem_flatMap] at hsame
    obtain ⟨d, -, hd⟩ := hsame
    by_cases heq : d = c
    · rw [if_pos heq] at hd
      exact hc hd
    · rw [if_neg heq, List.mem_singleton] at hd
      exact heq hd.symm
  · intro hmem
    have hsame : ∀ d ∈ text.toList, (if d = c then replacement.toList else [d]) = [d] := by
      intro d hd
      apply if_neg
      rintro rfl
      exact hmem hd
    apply String.toList_injective
    rw [Js.replaceAllChar, String.toList_ofList, List.flatMap_congr hsame, List.flatMap_singleton']

namespace Library

theorem not_mem_numberText {c : Char} (hdigit : c.isDigit = false) (hc : c ∉ ['-', '+', '.', 'e'])
    (x : ℚ) : c ∉ (lib.numberText x).toList := by
  intro hmem
  rcases lib.numberText_chars x c hmem with h | h
  · rw [hdigit] at h
    exact Bool.noConfusion h
  · exact hc h

theorem decode_numberText (x : ℚ) :
    lib.decode (lib.numberText x) = Js.replaceAllChar (lib.numberText x) '+' " " :=
  lib.decode_plain _ (lib.not_mem_numberText (by decide) (by decide) x)

/-- A server reads back the number exactly if it is written without a `+`. -/
theorem decode_numberText_eq_iff (x : ℚ) :
    lib.decode (lib.numberText x) = lib.numberText x ↔ IsPlain lib x := by
  rw [decode_numberText, IsPlain]
  exact replaceAllChar_eq_self_iff (by decide)

theorem decode_of_plain {text : String} (hpercent : '%' ∉ text.toList) (hplus : '+' ∉ text.toList) :
    lib.decode text = text := by
  rw [lib.decode_plain text hpercent]
  exact (replaceAllChar_eq_self_iff (by decide)).mpr hplus

end Library

/-! ## Parsing a link -/

theorem parsePair_of_eq {key value : String} (h : '=' ∉ key.toList) :
    parsePair lib (key ++ "=" ++ value) = (lib.decode key, lib.decode value) := by
  have hchars : (key ++ "=" ++ value).toList = key.toList ++ '=' :: value.toList := by simp
  have hkey : ∀ c ∈ key.toList, decide (c ≠ '=') = true := by
    intro c hc
    simp only [decide_eq_true_eq]
    rintro rfl
    exact h hc
  rw [parsePair, hchars, List.takeWhile_append_of_pos hkey, List.dropWhile_append_of_pos hkey]
  simp

/-- A part without `=` is the name of a parameter without a value. -/
theorem parsePair_name {part : String} (h : '=' ∉ part.toList) :
    (parsePair lib part).1 = lib.decode part := by
  have hpart : ∀ c ∈ part.toList, decide (c ≠ '=') = true := by
    intro c hc
    simp only [decide_eq_true_eq]
    rintro rfl
    exact h hc
  rw [parsePair, List.takeWhile_eq_self_iff.mpr hpart, String.ofList_toList]

/-- The parameters of the parts of a query string. -/
def pairsOf (parts : List String) : List (String × String) :=
  (parts.filter (· ≠ "")).map (parsePair lib)

theorem pairsOf_append (a b : List String) : pairsOf lib (a ++ b) = pairsOf lib a ++ pairsOf lib b := by
  rw [pairsOf, List.filter_append, List.map_append]
  rfl

theorem valuesOf_append (a b : List (String × String)) (key : String) :
    valuesOf (a ++ b) key = valuesOf a key ++ valuesOf b key := by
  rw [valuesOf, List.filter_append, List.map_append]
  rfl

/-- The last part of the query string of a link. -/
theorem pairsOf_limit (x : ℚ) :
    pairsOf lib ["limit=" ++ lib.numberText x] = [("limit", lib.decode (lib.numberText x))] := by
  have hne : "limit=" ++ lib.numberText x ≠ "" := by
    intro h
    have := congrArg String.length h
    simp at this
  have hpair : parsePair lib ("limit=" ++ lib.numberText x) =
      ("limit", lib.decode (lib.numberText x)) := by
    have h : parsePair lib ("limit" ++ "=" ++ lib.numberText x) = _ :=
      parsePair_of_eq lib (by decide)
    rwa [lib.decode_of_plain (by decide) (by decide)] at h
  simp [pairsOf, hne, hpair]

/-- What stands between the first `?` of a link and its `page=`. -/
def Request.front (request : Request) : String :=
  (request.query.map fun query => query ++ "?").getD ""

theorem linkTo_eq (request : Request) (pagination : IPagination) (page : ℚ) :
    linkTo lib.numberText pagination (request.origin ++ request.url) page =
      request.origin ++ request.path ++ "?" ++
        (request.front ++ "page=" ++ lib.numberText page ++ String.singleton '&' ++
          ("limit=" ++ lib.numberText pagination.page_size)) := by
  apply String.toList_injective
  rw [linkTo, Request.url, Request.front]
  cases request.query with
  | none => simp
  | some query => simp

theorem Request.base_plain (request : Request) :
    ∀ c ∈ request.origin.toList ++ request.path.toList, decide (c ≠ '?') = true := by
  intro c hc
  simp only [decide_eq_true_eq]
  rintro rfl
  exact (List.mem_append.mp hc).elim request.origin_plain request.path_plain

theorem pathOf_linkTo (request : Request) (pagination : IPagination) (page : ℚ) :
    pathOf (linkTo lib.numberText pagination (request.origin ++ request.url) page) =
      request.origin ++ request.path := by
  apply String.toList_injective
  rw [pathOf, linkTo_eq]
  simp only [String.toList_ofList, String.toList_append]
  rw [List.append_assoc, List.takeWhile_append_of_pos request.base_plain]
  simp

theorem queryOf_linkTo (request : Request) (pagination : IPagination) (page : ℚ) :
    queryOf (linkTo lib.numberText pagination (request.origin ++ request.url) page) =
      request.front ++ "page=" ++ lib.numberText page ++ String.singleton '&' ++
        ("limit=" ++ lib.numberText pagination.page_size) := by
  apply String.toList_injective
  rw [queryOf, linkTo_eq]
  simp only [String.toList_ofList, String.toList_append]
  rw [List.append_assoc, List.dropWhile_append_of_pos request.base_plain]
  simp

/-- The parameters that a server reads from a link. -/
theorem params_linkTo (request : Request) (pagination : IPagination) (page : ℚ) :
    parseQuery lib (queryOf (linkTo lib.numberText pagination (request.origin ++ request.url) page)) =
      pairsOf lib (Js.split '&' (request.front ++ "page=" ++ lib.numberText page)) ++
        [("limit", lib.decode (lib.numberText pagination.page_size))] := by
  have hlimit : Js.split '&' ("limit=" ++ lib.numberText pagination.page_size) =
      ["limit=" ++ lib.numberText pagination.page_size] := by
    apply Js.split_of_not_mem
    rw [String.toList_append, List.mem_append]
    rintro (h | h)
    · exact absurd h (by decide)
    · exact lib.not_mem_numberText (by decide) (by decide) _ h
  calc parseQuery lib
        (queryOf (linkTo lib.numberText pagination (request.origin ++ request.url) page))
      = pairsOf lib (Js.split '&' (request.front ++ "page=" ++ lib.numberText page ++
          String.singleton '&' ++ ("limit=" ++ lib.numberText pagination.page_size))) := by
        rw [queryOf_linkTo]
        rfl
    _ = pairsOf lib (Js.split '&' (request.front ++ "page=" ++ lib.numberText page) ++
          ["limit=" ++ lib.numberText pagination.page_size]) := by
        rw [Js.split_append, hlimit]
    _ = _ := by rw [pairsOf_append, pairsOf_limit]

/-! ## Requests without a query string -/

theorem pairsOf_page (x : ℚ) :
    pairsOf lib (Js.split '&' ("" ++ "page=" ++ lib.numberText x)) =
      [("page", lib.decode (lib.numberText x))] := by
  have hsplit : Js.split '&' ("" ++ "page=" ++ lib.numberText x) = ["page=" ++ lib.numberText x] := by
    rw [String.empty_append]
    apply Js.split_of_not_mem
    rw [String.toList_append, List.mem_append]
    rintro (h | h)
    · exact absurd h (by decide)
    · exact lib.not_mem_numberText (by decide) (by decide) _ h
  have hne : "page=" ++ lib.numberText x ≠ "" := by
    intro h
    have := congrArg String.length h
    simp at this
  have hpair : parsePair lib ("page=" ++ lib.numberText x) =
      ("page", lib.decode (lib.numberText x)) := by
    have h : parsePair lib ("page" ++ "=" ++ lib.numberText x) = _ :=
      parsePair_of_eq lib (by decide)
    rwa [lib.decode_of_plain (by decide) (by decide)] at h
  rw [hsplit]
  simp [pairsOf, hne, hpair]

/-- Without a query string a link is wrong only in the numbers that a server does not read back. -/
theorem leads_iff {request : Request} (hquery : request.query = none) (pagination : IPagination)
    (page : ℚ) :
    Leads lib request pagination
        (linkTo lib.numberText pagination (request.origin ++ request.url) page) page ↔
      IsPlain lib page ∧ IsPlain lib pagination.page_size := by
  have hfront : request.front = "" := by rw [Request.front, hquery]; rfl
  have hparams : request.params lib = [] := by
    rw [Request.params, hquery]
    rfl
  have hlink := params_linkTo lib request pagination page
  rw [hfront, pairsOf_page] at hlink
  rw [← lib.decode_numberText_eq_iff, ← lib.decode_numberText_eq_iff]
  constructor
  · rintro ⟨-, hvalues⟩
    rw [hlink] at hvalues
    have hpage := hvalues "page"
    have hlimit := hvalues "limit"
    simp [valuesOf] at hpage hlimit
    exact ⟨hpage, hlimit⟩
  · rintro ⟨hpage, hlimit⟩
    refine ⟨pathOf_linkTo lib request pagination page, ?_⟩
    intro key
    rw [hlink, hparams, hpage, hlimit]
    by_cases h1 : key = "page"
    · subst h1
      simp [valuesOf]
    by_cases h2 : key = "limit"
    · subst h2
      simp [valuesOf]
    simp [valuesOf, h1, h2, Ne.symm h1, Ne.symm h2]

/-! ## Requests with a query string -/

/-- The value that swallows the new page still holds the question mark. -/
theorem swallowed (value : String) (x : ℚ) : ∃ rest : String,
    lib.decode (value ++ "?" ++ ("page=" ++ lib.numberText x)) =
      lib.decode value ++ "?" ++ rest := by
  refine ⟨lib.decode ("page=" ++ lib.numberText x), lib.decode_append _ _ ?_⟩
  rw [String.toList_append, List.mem_append]
  rintro (h | h)
  · exact absurd h (by decide)
  · exact lib.not_mem_numberText (by decide) (by decide) _ h

theorem append_question_ne (text rest : String) : text ++ "?" ++ rest ≠ text := by
  intro h
  have hlength : (text ++ "?" ++ rest).length = text.length := congrArg String.length h
  have hone : "?".length = 1 := rfl
  rw [String.length_append, String.length_append] at hlength
  omega

theorem question_not_number (text rest : String) (x : ℚ) :
    text ++ "?" ++ rest ≠ lib.numberText x := by
  intro h
  have hmem : '?' ∈ (text ++ "?" ++ rest).toList := by simp
  rw [h] at hmem
  exact lib.not_mem_numberText (by decide) (by decide) x hmem

/-- A part with a `=` is split at the first of them. -/
theorem eq_of_mem {part : String} (h : '=' ∈ part.toList) :
    ∃ name value : String, part = name ++ "=" ++ value ∧ '=' ∉ name.toList := by
  obtain ⟨name, value, hpart, hname⟩ := List.eq_append_cons_of_mem h
  refine ⟨String.ofList name, String.ofList value, ?_, by simpa using hname⟩
  apply String.toList_injective
  simp [hpart]

theorem mem_valuesOf {params : List (String × String)} {key value : String}
    (h : (key, value) ∈ params) : value ∈ valuesOf params key :=
  List.mem_map.mpr ⟨(key, value), List.mem_filter.mpr ⟨h, by simp⟩, rfl⟩

/-- A parameter with another value shows, wherever it is. -/
theorem shows_change {a b : List (String × String)} {key value page size limit : String}
    (hpage : key = "page" → value ≠ page) (hsize : key = "limit" → value ≠ size)
    (hb : valuesOf b key ≠ [value]) :
    ¬ ∀ other, valuesOf (a ++ [(key, value)] ++ [("limit", limit)]) other =
      if other = "page" then [page] else if other = "limit" then [size]
      else valuesOf (a ++ b) other := by
  intro h
  have hkey := h key
  have hmem : value ∈ valuesOf (a ++ [(key, value)] ++ [("limit", limit)]) key :=
    mem_valuesOf (by simp)
  rw [hkey] at hmem
  by_cases hp : key = "page"
  · rw [if_pos hp, List.mem_singleton] at hmem
    exact hpage hp hmem
  by_cases hl : key = "limit"
  · rw [if_neg hp, if_pos hl, List.mem_singleton] at hmem
    exact hsize hl hmem
  rw [if_neg hp, if_neg hl] at hkey
  have hold : valuesOf [(key, value)] key = [value] := by simp [valuesOf]
  have hnone : valuesOf [("limit", limit)] key = [] := by simp [valuesOf, Ne.symm hl]
  rw [valuesOf_append, valuesOf_append, valuesOf_append, hold, hnone, List.append_nil] at hkey
  exact hb (List.append_cancel_left hkey).symm

/-- The parameters of a part that may be empty. -/
theorem pairsOf_singleton {part : String} (h : part ≠ "") :
    pairsOf lib [part] = [parsePair lib part] := by
  simp [pairsOf, h]

theorem ne_empty_of_mem {text : String} {c : Char} (h : c ∈ text.toList) : text ≠ "" := by
  rintro rfl
  simp at h

/-- The value of the last parameter becomes longer. -/
theorem parsePair_grown {name value : String} (hname : '=' ∉ name.toList) (x : ℚ) :
    ∃ rest : String, parsePair lib (name ++ "=" ++ value ++ ("?page=" ++ lib.numberText x)) =
      (lib.decode name, lib.decode value ++ "?" ++ rest) := by
  obtain ⟨rest, hrest⟩ := swallowed lib value x
  have htext : name ++ "=" ++ value ++ ("?page=" ++ lib.numberText x) =
      name ++ "=" ++ (value ++ "?" ++ ("page=" ++ lib.numberText x)) := by
    apply String.toList_injective
    simp
  exact ⟨rest, by rw [htext, parsePair_of_eq lib hname, hrest]⟩

/-- A last parameter without a value gets another name. -/
theorem parsePair_renamed {last : String} (hlast : '=' ∉ last.toList) (x : ℚ) :
    parsePair lib (last ++ ("?page=" ++ lib.numberText x)) =
      (lib.decode last ++ "?" ++ lib.decode "page", lib.decode (lib.numberText x)) := by
  have htext : last ++ ("?page=" ++ lib.numberText x) =
      last ++ "?" ++ "page" ++ "=" ++ lib.numberText x := by
    apply String.toList_injective
    simp
  have hname : '=' ∉ (last ++ "?" ++ "page").toList := by
    simp [hlast]
  rw [htext, parsePair_of_eq lib hname, lib.decode_append _ _ (by decide)]

theorem question_ne {word : String} (hword : '?' ∉ word.toList) (text rest : String) :
    text ++ "?" ++ rest ≠ word := by
  intro h
  apply hword
  rw [← h]
  simp

/-- The last part of a query string never reads the same with the page behind it. -/
theorem last_changes (last : String) (page size : ℚ) : ∃ key value,
    parsePair lib (last ++ ("?page=" ++ lib.numberText page)) = (key, value) ∧
      (key = "page" → value ≠ lib.numberText page) ∧
      (key = "limit" → value ≠ lib.numberText size) ∧
      valuesOf (pairsOf lib [last]) key ≠ [value] := by
  by_cases heq : '=' ∈ last.toList
  · obtain ⟨name, value, rfl, hname⟩ := eq_of_mem heq
    obtain ⟨rest, hgrown⟩ := parsePair_grown lib hname page
    refine ⟨_, _, hgrown, fun _ => ?_, fun _ => ?_, ?_⟩
    · exact question_not_number lib _ _ page
    · exact question_not_number lib _ _ size
    · have hold : pairsOf lib [name ++ "=" ++ value] = [(lib.decode name, lib.decode value)] := by
        rw [pairsOf_singleton lib (ne_empty_of_mem heq), parsePair_of_eq lib hname]
      have hvalue : valuesOf [(lib.decode name, lib.decode value)] (lib.decode name) =
          [lib.decode value] := by simp [valuesOf]
      rw [hold, hvalue]
      intro h
      exact append_question_ne _ _ (List.cons.inj h).1.symm
  · have hrenamed := parsePair_renamed lib heq page
    refine ⟨_, _, hrenamed, fun h => ?_, fun h => ?_, ?_⟩
    · exact absurd h (question_ne (by decide) _ _)
    · exact absurd h (question_ne (by decide) _ _)
    · by_cases hempty : last = ""
      · subst hempty
        simp [pairsOf, valuesOf]
      · rw [pairsOf_singleton lib hempty]
        have hne : (parsePair lib last).1 ≠ lib.decode last ++ "?" ++ lib.decode "page" := by
          rw [parsePair_name lib heq]
          exact (append_question_ne _ _).symm
        simp [valuesOf, hne]

/-- With a query string no link leads to its page. -/
theorem not_leads {request : Request} {query : String} (hquery : request.query = some query)
    (pagination : IPagination) (page : ℚ) :
    ¬ Leads lib request pagination
      (linkTo lib.numberText pagination (request.origin ++ request.url) page) page := by
  rintro ⟨-, hvalues⟩
  obtain ⟨parts, last, hsplit, hgrow⟩ := split_last query
  obtain ⟨key, value, hpair, hpage, hsize, hold⟩ :=
    last_changes lib last page pagination.page_size
  have hrest : '&' ∉ ("?page=" ++ lib.numberText page).toList := by
    rw [String.toList_append, List.mem_append]
    rintro (h | h)
    · exact absurd h (by decide)
    · exact lib.not_mem_numberText (by decide) (by decide) _ h
  have hfront : request.front ++ "page=" ++ lib.numberText page =
      query ++ ("?page=" ++ lib.numberText page) := by
    rw [Request.front, hquery]
    apply String.toList_injective
    simp
  have hne : last ++ ("?page=" ++ lib.numberText page) ≠ "" :=
    ne_empty_of_mem (c := '?') (by simp)
  have hlink : parseQuery lib (queryOf
      (linkTo lib.numberText pagination (request.origin ++ request.url) page)) =
      pairsOf lib parts ++ [(key, value)] ++
        [("limit", lib.decode (lib.numberText pagination.page_size))] := by
    rw [params_linkTo, hfront, hgrow _ hrest, pairsOf_append, pairsOf_singleton lib hne, hpair]
  have hparams : request.params lib = pairsOf lib parts ++ pairsOf lib [last] := by
    rw [← pairsOf_append, ← hsplit, Request.params, hquery]
    rfl
  rw [hlink, hparams] at hvalues
  exact shows_change hpage hsize hold hvalues

/-! ## When the links lead to their pages -/

/-- A library without escapes that writes the whole part of a number. -/
def wholeNumbers : Library where
  decode text := Js.replaceAllChar text '+' " "
  numberText x := toString x.num
  decode_plain _ _ := rfl
  decode_append a b _ := by
    apply String.toList_injective
    simp [Js.replaceAllChar]
  numberText_chars := by
    intro x c hc
    have hdigits : ∀ n : ℕ, c ∈ (toString n).toList → c.isDigit = true := by
      intro n h
      rw [Nat.toString_eq_ofList_toDigits, String.toList_ofList] at h
      exact Nat.isDigit_of_mem_toDigits (by decide) (by decide) h
    cases hnum : x.num with
    | ofNat n =>
        rw [hnum] at hc
        exact Or.inl (hdigits n hc)
    | negSucc n =>
        rw [hnum] at hc
        have hsign : c ∈ ("-" ++ toString (n + 1)).toList := hc
        rw [String.toList_append, List.mem_append] at hsign
        rcases hsign with h | h
        · simp at h
          simp [h]
        · exact Or.inl (hdigits (n + 1) h)

end ErpApi.JsonApi
