import Mathlib.Data.Rat.Floor
import Mathlib.Tactic.Linarith
import Mathlib.Tactic.Ring

set_option autoImplicit false

/-! # Pages

`findPaginated` returns a part of the matching rows and says which page it is. The part is computed
by the query builder from the floored and clamped numbers, or from an offset; the page is computed
again from the number of the request. `paginates_iff` says when the two agree.

A row is told by a number, and the rows are listed in their order. Numbers are exact: below 2^53 the
arithmetic of the source is, and no table has more rows.
-/

namespace ErpApi.Query.Pages

/-! ## The request -/

/-- A number that the DTO lets through: optional members can be left out, or be `null`; the others
are finite. -/
inductive NumberParam where
  | missing
  | null
  | value (x : ℚ)

/-- The call `Number(value)`, with `none` for `NaN`. -/
def NumberParam.toNumber : NumberParam → Option ℚ
  | .missing => none
  | .null => some 0
  | .value x => some x

structure QueryParamsDTO where
  page : NumberParam
  limit : NumberParam
  offset : NumberParam
  get_count_only : Bool
  ignore_limit : Bool

/-- The variable `QUERY_MAX_LIMIT`, `none` where it is not a finite number. It is validated to be a
size of a page, and at most `MAX_QUERY_LIMIT`. -/
structure Env where
  QUERY_MAX_LIMIT : Option ℚ
  valid : ∀ x, QUERY_MAX_LIMIT = some x → 0 < x → 1 ≤ x ∧ x ≤ 2000

def DEFAULT_LIMIT : ℤ := 10

def MIN_LIMIT : ℤ := 1

def MIN_PAGE : ℤ := 1

def FALLBACK_MAX_LIMIT : ℤ := 2000

/-! ## The builder -/

def parsePositiveInteger (value : NumberParam) (defaultValue minValue : ℤ) : ℤ :=
  match value.toNumber with
  | none => defaultValue
  | some parsed => max minValue ⌊parsed⌋

def resolveMaxLimit (env : Env) : ℤ :=
  match env.QUERY_MAX_LIMIT with
  | none => FALLBACK_MAX_LIMIT
  | some fromEnv => if 0 < fromEnv then ⌊fromEnv⌋ else FALLBACK_MAX_LIMIT

def isValidOffset : Option ℚ → Bool
  | none => false
  | some offset => decide (0 ≤ offset)

structure FindOptions where
  take : ℤ
  skip : ℚ

def pageSize (env : Env) (query : QueryParamsDTO) : ℤ :=
  min (parsePositiveInteger query.limit DEFAULT_LIMIT MIN_LIMIT) (resolveMaxLimit env)

def applyPagination (env : Env) (query : QueryParamsDTO) : FindOptions :=
  let limit := pageSize env query
  let page := parsePositiveInteger query.page MIN_PAGE MIN_PAGE
  let offset := query.offset.toNumber
  { take := limit
    skip := if isValidOffset offset then offset.getD 0 else (page - 1) * limit }

/-! ## The rows -/

inductive DbError where
  /-- An offset that is no `bigint`. -/
  | outOfRange

/-- The first number that is no `bigint`. -/
def bigintLimit : ℕ := 9223372036854775808

/-- The clause `OFFSET`: the number is rounded to a `bigint`. -/
def bigint (skip : ℚ) : Except DbError ℕ :=
  let rounded := ⌊skip + 1 / 2⌋.toNat
  if rounded < bigintLimit then .ok rounded else .error .outOfRange

def findAndCount (rows : List ℕ) (options : FindOptions) : Except DbError (List ℕ × ℕ) := do
  let skip ← bigint options.skip
  return ((rows.drop skip).take options.take.toNat, rows.length)

structure IPagination where
  page : ℚ
  page_size : ℤ
  total : ℕ
  total_records : ℕ
  total_pages : ℤ

/-- The value `Number(page) || 1`. -/
def reportedPage (query : QueryParamsDTO) : ℚ :=
  match query.page.toNumber with
  | none => 1
  | some page => if page = 0 then 1 else page

/-- The method `_findEntitiesWithPagination` on the rows that match. -/
def findPaginated (env : Env) (rows : List ℕ) (query : QueryParamsDTO) :
    Except DbError (List ℕ × IPagination) :=
  let findOptions := applyPagination env query
  let limit := findOptions.take
  let page := reportedPage query
  if query.get_count_only then
    .ok ([], ⟨page, limit, rows.length, rows.length, ⌈(rows.length : ℚ) / limit⌉⟩)
  else if query.ignore_limit then
    .ok (rows, ⟨page, rows.length, rows.length, rows.length, 1⟩)
  else do
    let (entities, total) ← findAndCount rows findOptions
    return (entities, ⟨page, limit, total, total, ⌈(total : ℚ) / limit⌉⟩)

/-! ## What the pagination says -/

/-- The rows at the positions of a page. -/
def rowsOfPage (rows : List ℕ) (page : ℚ) (page_size : ℤ) : List ℕ :=
  (rows.zipIdx.filter fun row =>
    decide ((page - 1) * page_size ≤ row.2 ∧ (row.2 : ℚ) ≤ page * page_size - 1)).map Prod.fst

/-- The rows that are returned are those of the page that is reported. -/
def Describes (env : Env) (query : QueryParamsDTO) (rows : List ℕ) : Prop :=
  ∃ data pagination, findPaginated env rows query = .ok (data, pagination) ∧
    data = rowsOfPage rows pagination.page pagination.page_size

/-- The request for another page of this size. -/
def atPage (query : QueryParamsDTO) (page : ℕ) (page_size : ℤ) : QueryParamsDTO :=
  { query with page := .value page, limit := .value page_size, offset := .missing }

/-- The pages that are reported hold every row once. -/
def Covers (env : Env) (query : QueryParamsDTO) (rows : List ℕ) : Prop :=
  ∃ data pagination, findPaginated env rows query = .ok (data, pagination) ∧
    ∃ parts, (List.range pagination.total_pages.toNat).mapM (fun k =>
        findPaginated env rows (atPage query (k + 1) pagination.page_size)) = .ok parts ∧
      parts.flatMap Prod.fst = rows

/-- The rows of a table are counted by a `bigint`. -/
def Paginates (env : Env) (query : QueryParamsDTO) : Prop :=
  (∀ rows, Describes env query rows) ∧
    ∀ rows : List ℕ, rows.length ≤ bigintLimit → Covers env query rows

/-- The page is left out, or is a positive integer; zero stands for the first page. -/
def NumberParam.IsPage : NumberParam → Prop
  | .missing => True
  | .null => True
  | .value x => x = 0 ∨ ∃ n : ℕ, x = n + 1

/-- An offset is where the page that is reported starts; without one, the page is one. What is left
out before the page is a `bigint`. -/
def Fits (env : Env) (query : QueryParamsDTO) : Prop :=
  query.get_count_only = false ∧
    if query.ignore_limit then reportedPage query = 1
    else
      match query.offset.toNumber with
      | some offset =>
          if 0 ≤ offset then
            ∃ n : ℕ, n < bigintLimit ∧ n = ⌊offset + 1 / 2⌋ ∧
              n = (reportedPage query - 1) * pageSize env query
          else query.page.IsPage ∧ (reportedPage query - 1) * pageSize env query < bigintLimit
      | none => query.page.IsPage ∧ (reportedPage query - 1) * pageSize env query < bigintLimit

/-! ## Parts of a list -/

theorem window_zipIdx (a b : ℕ) : ∀ (rows : List ℕ) (k : ℕ),
    ((rows.zipIdx k).filter fun row => decide (a ≤ row.2 ∧ row.2 < b)).map Prod.fst =
      (rows.drop (a - k)).take (b - max a k)
  | [], k => by simp
  | row :: rows, k => by
      have ih := window_zipIdx a b rows (k + 1)
      rw [List.zipIdx_cons]
      by_cases hbefore : k < a
      · have hout : ¬ (a ≤ k ∧ k < b) := by omega
        have hdrop : a - k = (a - (k + 1)) + 1 := by omega
        have hmax : max a k = max a (k + 1) := by omega
        rw [List.filter_cons_of_neg (by simpa using hout), ih, hdrop, List.drop_succ_cons, hmax]
      · have hzero : a - k = 0 := by omega
        have hzero' : a - (k + 1) = 0 := by omega
        rw [hzero, List.drop_zero]
        rw [hzero', List.drop_zero] at ih
        by_cases hin : k < b
        · have htake : b - max a k = (b - max a (k + 1)) + 1 := by omega
          rw [List.filter_cons_of_pos (by simpa using ⟨Nat.le_of_not_lt hbefore, hin⟩),
            List.map_cons, ih, htake, List.take_succ_cons]
        · have hout : ¬ (a ≤ k ∧ k < b) := fun h => hin h.2
          have htake : b - max a k = 0 := by omega
          have htake' : b - max a (k + 1) = 0 := by omega
          rw [List.filter_cons_of_neg (by simpa using hout), ih, htake, htake', List.take_zero,
            List.take_zero]

theorem rowsOfPage_eq {rows : List ℕ} {page : ℚ} {n size : ℕ} (h : (n : ℚ) = (page - 1) * size) :
    rowsOfPage rows page size = (rows.drop n).take size := by
  have hwindow := window_zipIdx n (n + size) rows 0
  have hcond : ∀ row : ℕ × ℕ, decide ((page - 1) * ((size : ℤ) : ℚ) ≤ row.2 ∧
      (row.2 : ℚ) ≤ page * ((size : ℤ) : ℚ) - 1) = decide (n ≤ row.2 ∧ row.2 < n + size) := by
    intro row
    apply decide_eq_decide.mpr
    have hend : page * ((size : ℤ) : ℚ) - 1 = (n : ℚ) + size - 1 := by
      push_cast
      rw [h]
      ring
    have hlast : (row.2 : ℚ) ≤ (n : ℚ) + size - 1 ↔ row.2 < n + size := by
      rw [le_sub_iff_add_le]
      exact_mod_cast Nat.succ_le_iff
    rw [hend, hlast, Int.cast_natCast, ← h, Nat.cast_le]
  rw [rowsOfPage, funext hcond, hwindow]
  have hmax : n + size - max n 0 = size := by omega
  rw [hmax, Nat.sub_zero]

/-- In the list of the first numbers, the rows of a page are its positions. -/
theorem mem_rowsOfPage {m i : ℕ} {page : ℚ} {size : ℤ} :
    i ∈ rowsOfPage (List.range m) page size ↔
      i < m ∧ (page - 1) * size ≤ i ∧ (i : ℚ) ≤ page * size - 1 := by
  rw [rowsOfPage, List.mem_map]
  constructor
  · rintro ⟨⟨row, position⟩, hmem, rfl⟩
    obtain ⟨hrow, hcond⟩ := List.mem_filter.mp hmem
    have hget := List.mem_zipIdx_iff_getElem?.mp hrow
    obtain ⟨hlt, heq⟩ := List.getElem?_eq_some_iff.mp hget
    rw [List.getElem_range] at heq
    obtain rfl : position = row := heq
    rw [List.length_range] at hlt
    exact ⟨hlt, of_decide_eq_true hcond⟩
  · rintro ⟨hlt, hcond⟩
    refine ⟨(i, i), List.mem_filter.mpr ⟨?_, decide_eq_true hcond⟩, rfl⟩
    rw [List.mem_zipIdx_iff_getElem?, List.getElem?_range hlt]

theorem flatMap_pages (rows : List ℕ) (size : ℕ) : ∀ n : ℕ,
    ((List.range n).flatMap fun k => (rows.drop (k * size)).take size) = rows.take (n * size)
  | 0 => by simp
  | n + 1 => by
      rw [List.range_succ, List.flatMap_append, flatMap_pages rows size n, List.flatMap_singleton,
        Nat.succ_mul, List.take_add]

theorem mapM_ok {α β ε : Type} {f : α → Except ε β} {g : α → β} :
    ∀ {l : List α}, (∀ a ∈ l, f a = .ok (g a)) → l.mapM f = .ok (l.map g)
  | [], _ => rfl
  | a :: l, h => by
      rw [List.mapM_cons, h a List.mem_cons_self,
        mapM_ok fun b hb => h b (List.mem_cons_of_mem a hb)]
      rfl

/-! ## The numbers of a request -/

theorem le_parsePositiveInteger {value : NumberParam} {defaultValue minValue : ℤ}
    (h : minValue ≤ defaultValue) :
    minValue ≤ parsePositiveInteger value defaultValue minValue := by
  rw [parsePositiveInteger]
  split
  · exact h
  · exact le_max_left _ _

theorem one_le_resolveMaxLimit (env : Env) : 1 ≤ resolveMaxLimit env := by
  rw [resolveMaxLimit]
  split
  · decide
  · rename_i fromEnv hset
    split
    · rename_i hpos
      exact Int.le_floor.mpr (by exact_mod_cast (env.valid fromEnv hset hpos).1)
    · decide

theorem one_le_pageSize (env : Env) (query : QueryParamsDTO) : 1 ≤ pageSize env query :=
  le_min (le_parsePositiveInteger (by decide)) (one_le_resolveMaxLimit env)

/-- The size as a natural number. -/
theorem exists_pageSize (env : Env) (query : QueryParamsDTO) :
    ∃ size : ℕ, 1 ≤ size ∧ pageSize env query = size := by
  have hone := one_le_pageSize env query
  exact ⟨(pageSize env query).toNat, by omega, by omega⟩

/-- A request for the size that a page has gets pages of this size. -/
theorem pageSize_atPage (env : Env) (query : QueryParamsDTO) (page : ℕ) :
    pageSize env (atPage query page (pageSize env query)) = pageSize env query := by
  have hone := one_le_pageSize env query
  have hmax : pageSize env query ≤ resolveMaxLimit env := min_le_right _ _
  have hparse : parsePositiveInteger (.value (pageSize env query : ℚ)) DEFAULT_LIMIT MIN_LIMIT =
      pageSize env query := by
    rw [parsePositiveInteger]
    show max MIN_LIMIT ⌊(pageSize env query : ℚ)⌋ = _
    rw [Int.floor_intCast]
    exact max_eq_right hone
  show min (parsePositiveInteger (.value (pageSize env query : ℚ)) DEFAULT_LIMIT MIN_LIMIT)
    (resolveMaxLimit env) = _
  rw [hparse, min_eq_left hmax]

theorem bigint_natCast {n : ℕ} (h : n < bigintLimit) : bigint n = .ok n := by
  have hfloor : ⌊(n : ℚ) + 1 / 2⌋ = n := by
    rw [Int.floor_eq_iff]
    constructor
    · push_cast
      linarith
    · push_cast
      linarith
  rw [bigint, hfloor, Int.toNat_natCast, if_pos h]

theorem bigint_eq_ok {skip : ℚ} {n : ℕ} (h : bigint skip = .ok n) :
    n = ⌊skip + 1 / 2⌋.toNat ∧ n < bigintLimit := by
  rw [bigint] at h
  split at h
  · rename_i hlt
    injection h with h
    exact ⟨h.symm, h ▸ hlt⟩
  · exact absurd h (by simp)

/-- The page that the builder goes to is the reported one exactly if the page is one. -/
theorem isPage_iff (query : QueryParamsDTO) : query.page.IsPage ↔
    reportedPage query = (parsePositiveInteger query.page MIN_PAGE MIN_PAGE : ℤ) := by
  rw [reportedPage, parsePositiveInteger]
  cases query.page with
  | missing => exact iff_of_true trivial (by simp [NumberParam.toNumber, MIN_PAGE])
  | null => exact iff_of_true trivial (by simp [NumberParam.toNumber, MIN_PAGE])
  | value x =>
      show (x = 0 ∨ ∃ n : ℕ, x = n + 1) ↔ (if x = 0 then 1 else x) = ((max MIN_PAGE ⌊x⌋ : ℤ) : ℚ)
      by_cases hzero : x = 0
      · rw [if_pos hzero, hzero]
        exact iff_of_true (Or.inl rfl) (by simp [MIN_PAGE])
      · rw [if_neg hzero]
        constructor
        · rintro (h | ⟨n, rfl⟩)
          · exact absurd h hzero
          · have hfloor : ⌊(n : ℚ) + 1⌋ = (n : ℤ) + 1 := by
              rw [Int.floor_add_one, Int.floor_natCast]
            have hmax : max MIN_PAGE ((n : ℤ) + 1) = (n : ℤ) + 1 :=
              max_eq_right (by rw [MIN_PAGE]; omega)
            rw [hfloor, hmax]
            push_cast
            rfl
        · intro h
          have hone : (1 : ℤ) ≤ max MIN_PAGE ⌊x⌋ := le_max_left _ _
          obtain ⟨n, hn⟩ := Int.eq_ofNat_of_zero_le (by omega : 0 ≤ max MIN_PAGE ⌊x⌋ - 1)
          have hx : max MIN_PAGE ⌊x⌋ = (n : ℤ) + 1 := by omega
          refine Or.inr ⟨n, ?_⟩
          rw [h, hx]
          push_cast
          rfl

/-! ## One page -/

section Plain

variable {env : Env} {query : QueryParamsDTO}

theorem findPaginated_of_bigint (hcount : query.get_count_only = false)
    (hlimit : query.ignore_limit = false) {n : ℕ}
    (hskip : bigint (applyPagination env query).skip = .ok n) (rows : List ℕ) :
    findPaginated env rows query = .ok ((rows.drop n).take (pageSize env query).toNat,
      ⟨reportedPage query, pageSize env query, rows.length, rows.length,
        ⌈(rows.length : ℚ) / pageSize env query⌉⟩) := by
  rw [findPaginated, hcount, hlimit, if_neg Bool.false_ne_true, if_neg Bool.false_ne_true,
    findAndCount, hskip]
  rfl

/-- The part that is returned is the page that is reported exactly if both start at one row. -/
theorem describes_iff (hcount : query.get_count_only = false)
    (hlimit : query.ignore_limit = false) : (∀ rows, Describes env query rows) ↔
      ∃ n : ℕ, bigint (applyPagination env query).skip = .ok n ∧
        (n : ℚ) = (reportedPage query - 1) * pageSize env query := by
  obtain ⟨size, hone, hsize⟩ := exists_pageSize env query
  constructor
  · intro h
    cases hskip : bigint (applyPagination env query).skip with
    | error e =>
        obtain ⟨data, pagination, hfind, _⟩ := h []
        rw [findPaginated, hcount, hlimit, if_neg Bool.false_ne_true, if_neg Bool.false_ne_true,
          findAndCount, hskip] at hfind
        exact absurd hfind (by simp [bind, Except.bind])
    | ok n =>
        refine ⟨n, rfl, ?_⟩
        obtain ⟨data, pagination, hfind, hdata⟩ := h (List.range (n + size))
        rw [findPaginated_of_bigint hcount hlimit hskip] at hfind
        obtain ⟨rfl, rfl⟩ := Prod.mk.inj (Except.ok.inj hfind)
        have hpart : ((List.range (n + size)).drop n).take (pageSize env query).toNat =
            (List.range size).map (n + ·) := by
          rw [List.range_add, hsize, Int.toNat_natCast,
            List.drop_append_of_le_length (by rw [List.length_range]),
            List.drop_of_length_le (by rw [List.length_range]), List.nil_append,
            List.take_of_length_le (by rw [List.length_map, List.length_range])]
        rw [hpart] at hdata
        -- The first and the last row of the part are rows of the page.
        have hmem : ∀ i < size, (reportedPage query - 1) * pageSize env query ≤ ((n + i : ℕ) : ℚ) ∧
            ((n + i : ℕ) : ℚ) ≤ reportedPage query * pageSize env query - 1 := by
          intro i hi
          have hrow : n + i ∈ (List.range size).map (n + ·) :=
            List.mem_map.mpr ⟨i, List.mem_range.mpr hi, rfl⟩
          rw [hdata] at hrow
          exact (mem_rowsOfPage.mp hrow).2
        have hfirst := (hmem 0 (by omega)).1
        have hlast := (hmem (size - 1) (by omega)).2
        have hend : ((n + (size - 1) : ℕ) : ℚ) = n + size - 1 := by
          rw [← Nat.add_sub_assoc hone, Nat.cast_sub (by omega)]
          push_cast
          rfl
        rw [hend, hsize] at hlast
        rw [hsize] at hfirst ⊢
        push_cast at hfirst hlast ⊢
        linarith
  · rintro ⟨n, hskip, hstart⟩ rows
    refine ⟨_, _, findPaginated_of_bigint hcount hlimit hskip rows, ?_⟩
    rw [hsize] at hstart ⊢
    rw [Int.cast_natCast] at hstart
    exact (rowsOfPage_eq hstart).symm

theorem skip_atPage (env : Env) (query : QueryParamsDTO) (k : ℕ) :
    (applyPagination env (atPage query (k + 1) (pageSize env query))).skip =
      k * pageSize env query := by
  have hpage : parsePositiveInteger (atPage query (k + 1) (pageSize env query)).page MIN_PAGE
      MIN_PAGE = (k : ℤ) + 1 := by
    show max MIN_PAGE ⌊((k + 1 : ℕ) : ℚ)⌋ = _
    rw [Int.floor_natCast, Nat.cast_succ]
    exact max_eq_right (by rw [MIN_PAGE]; omega)
  rw [applyPagination, hpage, pageSize_atPage]
  show ((((k : ℤ) + 1 : ℤ) : ℚ) - 1) * (pageSize env query : ℚ) = _
  push_cast
  ring

theorem reportedPage_atPage (query : QueryParamsDTO) (k : ℕ) (size : ℤ) :
    reportedPage (atPage query (k + 1) size) = k + 1 := by
  show (if ((k + 1 : ℕ) : ℚ) = 0 then 1 else ((k + 1 : ℕ) : ℚ)) = _
  rw [if_neg (by exact_mod_cast Nat.succ_ne_zero k)]
  push_cast
  rfl

/-- How many pages there are: each of them starts at a row, and they reach to the last row. -/
theorem exists_pages (length : ℕ) {size : ℕ} (hone : 1 ≤ size) :
    ∃ pages : ℕ, ⌈(length : ℚ) / (size : ℤ)⌉ = pages ∧ (∀ k < pages, k * size < length) ∧
      length ≤ pages * size := by
  have hpos : (0 : ℚ) < size := by exact_mod_cast hone
  have hceil : ⌈(length : ℚ) / (size : ℤ)⌉ = (⌈(length : ℚ) / size⌉₊ : ℤ) := by
    rw [Int.cast_natCast]
    exact (Int.natCast_ceil_eq_ceil (by positivity)).symm
  refine ⟨_, hceil, ?_, ?_⟩
  · intro k hk
    have hdiv := Nat.lt_ceil.mp hk
    rw [lt_div_iff₀ hpos] at hdiv
    exact_mod_cast hdiv
  · have hdiv := Nat.le_ceil ((length : ℚ) / size)
    rw [div_le_iff₀ hpos] at hdiv
    exact_mod_cast hdiv

/-- The other pages are found where the first ones end. -/
theorem covers_of_bigint (hcount : query.get_count_only = false)
    (hlimit : query.ignore_limit = false) {n : ℕ}
    (hskip : bigint (applyPagination env query).skip = .ok n) {rows : List ℕ}
    (hrows : rows.length ≤ bigintLimit) : Covers env query rows := by
  obtain ⟨size, hone, hsize⟩ := exists_pageSize env query
  obtain ⟨pages, hpages, hstarts, hall⟩ := exists_pages rows.length hone
  rw [← hsize] at hpages
  let page (k : ℕ) : List ℕ × IPagination :=
    ((rows.drop (k * size)).take size,
      ⟨k + 1, size, rows.length, rows.length, pages⟩)
  have hpage : ∀ k ∈ List.range pages,
      findPaginated env rows (atPage query (k + 1) (pageSize env query)) = .ok (page k) := by
    intro k hk
    have hbefore : k * size < bigintLimit :=
      Nat.lt_of_lt_of_le (hstarts k (List.mem_range.mp hk)) hrows
    have hstart : bigint (applyPagination env (atPage query (k + 1) (pageSize env query))).skip =
        .ok (k * size) := by
      rw [skip_atPage, hsize, Int.cast_natCast, ← Nat.cast_mul]
      exact bigint_natCast hbefore
    have hcount' : (atPage query (k + 1) (pageSize env query)).get_count_only = false := hcount
    have hlimit' : (atPage query (k + 1) (pageSize env query)).ignore_limit = false := hlimit
    rw [findPaginated_of_bigint hcount' hlimit' hstart, pageSize_atPage, reportedPage_atPage,
      hpages, hsize, Int.toNat_natCast]
  refine ⟨_, _, findPaginated_of_bigint hcount hlimit hskip rows, (List.range pages).map page,
    ?_, ?_⟩
  · rw [hpages, Int.toNat_natCast]
    exact mapM_ok hpage
  · rw [List.flatMap_map]
    exact (flatMap_pages rows size pages).trans (List.take_of_length_le hall)

theorem paginates_iff_start (hcount : query.get_count_only = false)
    (hlimit : query.ignore_limit = false) : Paginates env query ↔
      ∃ n : ℕ, bigint (applyPagination env query).skip = .ok n ∧
        (n : ℚ) = (reportedPage query - 1) * pageSize env query := by
  constructor
  · intro h
    exact (describes_iff hcount hlimit).mp h.1
  · rintro ⟨n, hskip, hstart⟩
    refine ⟨(describes_iff hcount hlimit).mpr ⟨n, hskip, hstart⟩, ?_⟩
    intro rows hrows
    exact covers_of_bigint hcount hlimit hskip hrows

theorem start_iff_of_page (hoffset : isValidOffset query.offset.toNumber = false) :
    (∃ n : ℕ, bigint (applyPagination env query).skip = .ok n ∧
      (n : ℚ) = (reportedPage query - 1) * pageSize env query) ↔
      query.page.IsPage ∧ (reportedPage query - 1) * pageSize env query < bigintLimit := by
  obtain ⟨size, hone, hsize⟩ := exists_pageSize env query
  have hpos : (0 : ℚ) < size := by exact_mod_cast hone
  obtain ⟨p, hp⟩ : ∃ p : ℕ, parsePositiveInteger query.page MIN_PAGE MIN_PAGE = p + 1 := by
    have hle : MIN_PAGE ≤ parsePositiveInteger query.page MIN_PAGE MIN_PAGE :=
      le_parsePositiveInteger le_rfl
    rw [MIN_PAGE] at hle
    exact ⟨(parsePositiveInteger query.page 1 1 - 1).toNat, by rw [MIN_PAGE]; omega⟩
  have hskip : (applyPagination env query).skip = ((p * size : ℕ) : ℚ) := by
    rw [applyPagination, hoffset, if_neg Bool.false_ne_true, hp, hsize]
    push_cast
    ring
  rw [hskip, isPage_iff, hp, hsize]
  constructor
  · rintro ⟨n, hn, hstart⟩
    obtain ⟨hfloor, hlt⟩ := bigint_eq_ok hn
    have hround : ⌊((p * size : ℕ) : ℚ) + 1 / 2⌋ = (p * size : ℕ) := by
      rw [Int.floor_eq_iff]
      constructor
      · rw [Int.cast_natCast]
        linarith
      · rw [Int.cast_natCast]
        linarith
    rw [hround, Int.toNat_natCast] at hfloor
    rw [Int.cast_natCast] at hstart ⊢
    refine ⟨?_, by rw [← hstart]; exact_mod_cast hlt⟩
    rw [hfloor] at hstart
    have hpage : (p : ℚ) = reportedPage query - 1 := by
      have hmul : (p : ℚ) * size = (reportedPage query - 1) * size := by exact_mod_cast hstart
      exact mul_right_cancel₀ hpos.ne' hmul
    push_cast
    linarith
  · rintro ⟨hpage, hlt⟩
    have hstart : (reportedPage query - 1) * ((size : ℤ) : ℚ) = ((p * size : ℕ) : ℚ) := by
      rw [hpage]
      push_cast
      ring
    rw [hstart] at hlt ⊢
    exact ⟨p * size, bigint_natCast (by exact_mod_cast hlt), rfl⟩

theorem start_iff_of_offset {offset : ℚ} (hoffset : query.offset.toNumber = some offset)
    (hpos : 0 ≤ offset) : (∃ n : ℕ, bigint (applyPagination env query).skip = .ok n ∧
      (n : ℚ) = (reportedPage query - 1) * pageSize env query) ↔
      ∃ n : ℕ, n < bigintLimit ∧ n = ⌊offset + 1 / 2⌋ ∧
        n = (reportedPage query - 1) * pageSize env query := by
  have hskip : (applyPagination env query).skip = offset := by
    rw [applyPagination, hoffset, isValidOffset, decide_eq_true hpos, if_pos rfl, Option.getD_some]
  have hfloor : 0 ≤ ⌊offset + 1 / 2⌋ := Int.floor_nonneg.mpr (by linarith)
  rw [hskip]
  refine exists_congr fun n => ?_
  constructor
  · rintro ⟨hn, hstart⟩
    obtain ⟨hround, hlt⟩ := bigint_eq_ok hn
    exact ⟨hlt, by omega, hstart⟩
  · rintro ⟨hlt, hround, hstart⟩
    refine ⟨?_, hstart⟩
    have hnat : ⌊offset + 1 / 2⌋.toNat = n := by omega
    rw [bigint, hnat, if_pos hlt]

theorem not_paginates_of_count (hcount : query.get_count_only = true) :
    ¬ Paginates env query := by
  intro h
  obtain ⟨_, pagination, _, parts, hparts, hrows⟩ := h.2 [0] (by decide)
  have hnone : ∀ k ∈ List.range pagination.total_pages.toNat,
      findPaginated env [0] (atPage query (k + 1) pagination.page_size) =
        .ok ([], ⟨reportedPage (atPage query (k + 1) pagination.page_size),
          pageSize env (atPage query (k + 1) pagination.page_size), 1, 1,
          ⌈(1 : ℚ) / pageSize env (atPage query (k + 1) pagination.page_size)⌉⟩) := by
    intro k _
    have hcount' : (atPage query (k + 1) pagination.page_size).get_count_only = true := hcount
    rw [findPaginated, hcount', if_pos rfl]
    rfl
  rw [mapM_ok hnone] at hparts
  rw [← Except.ok.inj hparts, List.flatMap_map,
    List.flatMap_eq_nil_iff.mpr fun _ _ => rfl] at hrows
  exact absurd hrows (by simp)

theorem paginates_iff_of_ignore (hcount : query.get_count_only = false)
    (hlimit : query.ignore_limit = true) : Paginates env query ↔ reportedPage query = 1 := by
  have hfind : ∀ (query : QueryParamsDTO) (rows : List ℕ), query.get_count_only = false →
      query.ignore_limit = true → findPaginated env rows query =
        .ok (rows, ⟨reportedPage query, rows.length, rows.length, rows.length, 1⟩) := by
    intro query rows hcount hlimit
    rw [findPaginated, hcount, hlimit, if_neg Bool.false_ne_true, if_pos rfl]
  constructor
  · intro h
    obtain ⟨data, pagination, hok, hdata⟩ := h.1 (List.range 1)
    rw [hfind query _ hcount hlimit] at hok
    obtain ⟨rfl, rfl⟩ := Prod.mk.inj (Except.ok.inj hok)
    have hrow : 0 ∈ List.range 1 := by decide
    rw [hdata] at hrow
    obtain ⟨_, hfirst, hlast⟩ := mem_rowsOfPage.mp hrow
    simp only [List.length_range] at hfirst hlast
    push_cast at hfirst hlast
    linarith
  · intro hpage
    constructor
    · intro rows
      refine ⟨_, _, hfind query rows hcount hlimit, ?_⟩
      have hstart : ((0 : ℕ) : ℚ) = (reportedPage query - 1) * rows.length := by
        rw [hpage]
        push_cast
        ring
      rw [rowsOfPage_eq hstart, List.drop_zero, List.take_length]
    · intro rows _
      refine ⟨_, _, hfind query rows hcount hlimit, ?_⟩
      have hone : ∀ k ∈ List.range (1 : ℤ).toNat,
          findPaginated env rows (atPage query (k + 1) rows.length) =
            .ok (rows, ⟨reportedPage (atPage query (k + 1) rows.length), rows.length, rows.length,
              rows.length, 1⟩) := fun k _ => hfind _ rows hcount hlimit
      refine ⟨_, mapM_ok hone, ?_⟩
      rw [List.flatMap_map]
      exact List.flatMap_singleton _ _

end Plain

/-- The query string `?limit=10&offset=5`. -/
def fromFifth : QueryParamsDTO := ⟨.missing, .value 10, .value 5, false, false⟩

/-- The rows from the sixth on are reported as the first page. -/
theorem not_describes_fromFifth (env : Env) : ¬ Describes env fromFifth (List.range 6) := by
  have hskip : bigint (applyPagination env fromFifth).skip = .ok 5 :=
    bigint_natCast (n := 5) (by decide)
  rintro ⟨data, pagination, hfind, hdata⟩
  rw [findPaginated_of_bigint rfl rfl hskip] at hfind
  obtain ⟨rfl, rfl⟩ := Prod.mk.inj (Except.ok.inj hfind)
  have hone := one_le_pageSize env fromFifth
  have hfirst : 0 ∈ rowsOfPage (List.range 6) (reportedPage fromFifth)
      (pageSize env fromFifth) := by
    refine mem_rowsOfPage.mpr ⟨by decide, ?_, ?_⟩
    · show ((1 : ℚ) - 1) * _ ≤ _
      simp
    · show ((0 : ℕ) : ℚ) ≤ 1 * (pageSize env fromFifth : ℚ) - 1
      have hcast : (1 : ℚ) ≤ pageSize env fromFifth := by exact_mod_cast hone
      push_cast
      linarith
  rw [← hdata] at hfirst
  exact absurd (List.mem_of_mem_take hfirst) (by decide)

/-- No limit is set. -/
def unset : Env := ⟨none, by simp⟩

end ErpApi.Query.Pages
