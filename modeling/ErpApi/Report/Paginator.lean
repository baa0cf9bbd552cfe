import ErpApi.Basic.Json

set_option autoImplicit false

/-! # The paginator of a banded report

`paginator.inline.js` lays a report out on pages, in the browser that prints it. It appends the
rows of an item to the current page, asks the browser whether the page overflows, and if so takes
the rows back and puts them on a new page. The trailing block and the summary follow in the same
manner; then every page is filled up with empty rows.

Whatever the browser answers, the detail rows come out in the order of the items, each of them
once, and the trailing block and the summary are placed once (`paginate_places`).

The template engine (`renderBand`) and the browser are parameters: how it parses the HTML of
rows, and what it answers when a page is measured. A measurement may depend on the whole document
and on how many were taken before it.
-/

namespace ErpApi.Report.Paginator

/-! ## The document -/

/-- An object whose entries are in reach of a template. -/
abbrev Scope := List (String × Json)

/-- The band that a node was rendered from. The page does not record it, and nothing reads it. -/
inductive Source where
  | detail (rowNo : Nat)
  | extra
  | filler
  deriving DecidableEq

/-- A child of a table body. -/
structure Node where
  id : Nat
  source : Source
  html : String
  isElement : Bool
  deriving DecidableEq

structure Page where
  hdr : String
  thead : String
  tbody : List Node
  sum : String
  ftr : String
  scope : Scope

structure Document where
  pages : List Page
  /-- The next node that the browser creates. -/
  nextId : Nat
  /-- How often a page was measured. -/
  measured : Nat
  /-- The number of pages as shown in the document, once it is known. -/
  pageCount : Option Nat

/-- What the file leaves to the browser. -/
structure Browser where
  /-- The child nodes of a table body with this `innerHTML`, and which of them are elements. -/
  parse : String → List (String × Bool)
  /-- The test `scrollHeight > clientHeight` on the box of a page. -/
  overflows : Document → Nat → Bool
  /-- The last row ends less than `FILLER_SAFETY_PX` above the end of the box. -/
  touchesEnd : Document → Nat → Bool

section Paginate

variable (browser : Browser) (renderBand : String → Scope → String)
  (bands : String → Option String) (D : Scope)

/-- The expression `bands[name] || ''`; an empty band counts as missing. -/
def band (name : String) : String := (bands name).getD ""

def newPage (doc : Document) : Document :=
  let scope := Json.assign (Json.assign D "__page" (.num (toString (doc.pages.length + 1))))
    "__next_page" (.num (toString (doc.pages.length + 2)))
  { doc with
    pages := doc.pages ++ [{
      hdr := renderBand (band bands "page-header") scope
      thead := renderBand (band bands "detail-header") scope
      tbody := []
      sum := ""
      ftr := renderBand (band bands "page-footer:continuation") scope
      scope }] }

/-- The nodes that the browser creates for the HTML of rows. -/
def createNodes (source : Source) (html : String) (nextId : Nat) : List Node :=
  (browser.parse html).mapIdx fun i node => ⟨nextId + i, source, node.1, node.2⟩

/-- Appends rows to a page; the ids of the nodes that were added. -/
def appendRows (doc : Document) (page : Nat) (source : Source) (html : String) :
    Document × List Nat :=
  let added := createNodes browser source html doc.nextId
  ({ doc with
      pages := doc.pages.modify page fun p => { p with tbody := p.tbody ++ added }
      nextId := doc.nextId + added.length },
    added.map Node.id)

/-- Takes nodes out of whatever page they are on. -/
def removeNodes (doc : Document) (nodes : List Nat) : Document :=
  { doc with
    pages := doc.pages.map fun p =>
      { p with tbody := p.tbody.filter fun n => !nodes.contains n.id } }

def overflows (doc : Document) (page : Nat) : Document × Bool :=
  ({ doc with measured := doc.measured + 1 }, browser.overflows doc page)

def fillerWouldOverflow (doc : Document) (page : Nat) : Document × Bool :=
  let (doc', exceeds) := overflows browser doc page
  if exceeds then (doc', true)
  else
    match doc'.pages[page]? with
    | some p =>
        -- A page without a row has no last row to compare.
        if p.tbody.any Node.isElement then
          ({ doc' with measured := doc'.measured + 1 }, browser.touchesEnd doc' page)
        else (doc', false)
    | none => (doc', false)

/-! ## The passes -/

/-- Rows go on the current page if it does not overflow then, else on a new one. -/
def placeRows (source : Source) (html : String) (doc : Document) (current : Nat) :
    Document × Nat :=
  let (doc₁, added) := appendRows browser doc current source html
  let (doc₂, exceeds) := overflows browser doc₁ current
  if exceeds then
    let doc₃ := removeNodes doc₂ added
    let doc₄ := newPage renderBand bands D doc₃
    ((appendRows browser doc₄ doc₃.pages.length source html).1, doc₃.pages.length)
  else (doc₂, current)

/-- The HTML of the rows of an item. -/
def rowHtml (item : Json) (rowNo : Nat) : String :=
  renderBand (band bands "detail-row")
    (Json.assign (Json.assign D "row" item) "__row_no" (.num (toString rowNo)))

/-- PASS 1: the rows of the items, the first of which has the number `rowNo`. -/
def pass1 (rowNo : Nat) (doc : Document) (current : Nat) : List Json → Document × Nat
  | [] => (doc, current)
  | item :: items =>
      let (doc', current') := placeRows browser renderBand bands D (.detail rowNo)
        (rowHtml renderBand bands D item rowNo) doc current
      pass1 (rowNo + 1) doc' current' items

/-- PASS 2: the trailing block. -/
def pass2 (doc : Document) (current : Nat) : Document × Nat :=
  if band bands "detail-extra" = "" then (doc, current)
  else
    placeRows browser renderBand bands D .extra (renderBand (band bands "detail-extra") D) doc
      current

/-- Renders the summary into a page. -/
def putSummary (doc : Document) (page : Nat) : Document :=
  { doc with pages := doc.pages.modify page fun p =>
      { p with sum := renderBand (band bands "summary") p.scope } }

def clearSummary (doc : Document) (page : Nat) : Document :=
  { doc with pages := doc.pages.modify page fun p => { p with sum := "" } }

/-- PASS 3: the summary, on the last page if it fits there. -/
def pass3 (doc : Document) : Document :=
  if band bands "summary" = "" then doc
  else
    let last := doc.pages.length - 1
    let (doc₁, exceeds) := overflows browser (putSummary renderBand bands doc last) last
    if exceeds then
      let doc₂ := clearSummary doc₁ last
      putSummary renderBand bands (newPage renderBand bands D doc₂) doc₂.pages.length
    else doc₁

/-- Appends filler rows until one more would overflow. -/
def fill (html : String) (page : Nat) : Nat → Document → Document
  | 0, doc => doc
  | guard + 1, doc =>
      let (doc₁, filler) := appendRows browser doc page .filler html
      let (doc₂, exceeds) := fillerWouldOverflow browser doc₁ page
      if exceeds then removeNodes doc₂ filler else fill html page guard doc₂

def putFooter (doc : Document) (page : Nat) (name : String) : Document :=
  { doc with pages := doc.pages.modify page fun p =>
      { p with ftr := renderBand (band bands name) p.scope } }

/-- PASS 4 on one page. -/
def finishPage (total : Nat) (doc : Document) (page : Nat) : Document :=
  let scope := (doc.pages[page]?.map Page.scope).getD []
  let filled :=
    if band bands "filler-row" = "" then doc
    else fill browser (renderBand (band bands "filler-row") scope) page 500 doc
  putFooter renderBand bands filled page
    (if page = total - 1 then "page-footer:last" else "page-footer:continuation")

/-- PASS 4: filler rows and footers, page by page. -/
def pass4 (doc : Document) : Document :=
  (List.range doc.pages.length).foldl
    (finishPage browser renderBand bands doc.pages.length) doc

/-- The whole file, for the data `D` and its list `D.items`. -/
def paginate (items : List Json) : Document :=
  let doc := newPage renderBand bands D ⟨[], 0, 0, none⟩
  let (doc₁, current) := pass1 browser renderBand bands D 1 doc 0 items
  let (doc₂, _) := pass2 browser renderBand bands D doc₁ current
  let doc₄ := pass4 browser renderBand bands (pass3 browser renderBand bands D doc₂)
  { doc₄ with pageCount := some doc₄.pages.length }

end Paginate

/-! ## Appending and taking back -/

theorem modify_concat {α : Type} (l : List α) (a : α) (f : α → α) :
    (l ++ [a]).modify l.length f = l ++ [f a] := by
  induction l with
  | nil => rfl
  | cons b l ih => simp [ih]

theorem map_modify_eq {α β : Type} {f : α → α} {g : α → β} (h : ∀ a, g (f a) = g a)
    (l : List α) (i : Nat) : (l.modify i f).map g = l.map g := by
  induction l generalizing i with
  | nil => simp
  | cons a l ih =>
      cases i with
      | zero => simp [h]
      | succ i => simp [ih]

theorem mem_modify {α : Type} {f : α → α} {l : List α} {i : Nat} {a : α}
    (h : a ∈ l.modify i f) : a ∈ l ∨ ∃ b ∈ l, a = f b := by
  obtain ⟨j, hj⟩ := List.mem_iff_getElem?.mp h
  rw [List.getElem?_modify] at hj
  cases hb : l[j]? with
  | none => simp [hb] at hj
  | some b =>
      have hmem : b ∈ l := List.mem_of_getElem? hb
      rw [hb] at hj
      by_cases hij : i = j
      · right
        exact ⟨b, hmem, by simpa [hij] using hj.symm⟩
      · left
        have hab : b = a := by simpa [hij] using hj
        exact hab ▸ hmem

/-- Undoing a change of one element in all of them. -/
theorem map_modify_cancel {α : Type} {f g : α → α} {l : List α} (hf : ∀ a ∈ l, g (f a) = a)
    (hg : ∀ a ∈ l, g a = a) (i : Nat) : (l.modify i f).map g = l := by
  induction l generalizing i with
  | nil => simp
  | cons a l ih =>
      have hmap : l.map g = l :=
        (List.map_congr_left fun b hb => hg b (List.mem_cons_of_mem _ hb)).trans (List.map_id _)
      cases i with
      | zero => simp [hf a List.mem_cons_self, hmap]
      | succ i =>
          have ih' := ih (fun b hb => hf b (List.mem_cons_of_mem _ hb))
            (fun b hb => hg b (List.mem_cons_of_mem _ hb)) i
          simp [hg a List.mem_cons_self, ih']

/-- What a node shows, and where it comes from. -/
structure Content where
  source : Source
  html : String
  isElement : Bool
  deriving DecidableEq

def Node.content (n : Node) : Content := ⟨n.source, n.html, n.isElement⟩

/-- The contents of the rows that the browser makes of the HTML. -/
def contents (browser : Browser) (source : Source) (html : String) : List Content :=
  (browser.parse html).map fun node => ⟨source, node.1, node.2⟩

/-- The table bodies of all pages, in the order of the pages. -/
def Document.rows (doc : Document) : List Content :=
  doc.pages.flatMap fun p => p.tbody.map Node.content

/-- The nodes of the document were created before. -/
def Document.Fresh (doc : Document) : Prop :=
  ∀ p ∈ doc.pages, ∀ n ∈ p.tbody, n.id < doc.nextId

section Nodes

variable (browser : Browser)

theorem createNodes_content (source : Source) (html : String) (nextId : Nat) :
    (createNodes browser source html nextId).map Node.content = contents browser source html := by
  apply List.ext_getElem
  · simp [createNodes, contents]
  · intro i hi hi'
    simp [createNodes, contents, Node.content]

theorem createNodes_id {source : Source} {html : String} {nextId : Nat} {n : Node}
    (h : n ∈ createNodes browser source html nextId) :
    nextId ≤ n.id ∧ n.id < nextId + (createNodes browser source html nextId).length := by
  obtain ⟨i, hi, rfl⟩ := List.mem_mapIdx.mp h
  rw [createNodes, List.length_mapIdx]
  show nextId ≤ nextId + i ∧ nextId + i < nextId + _
  omega

theorem appendRows_fresh {doc : Document} (h : doc.Fresh) (page : Nat) (source : Source)
    (html : String) : (appendRows browser doc page source html).1.Fresh := by
  intro p hp n hn
  show n.id < doc.nextId + (createNodes browser source html doc.nextId).length
  rcases mem_modify hp with hp | ⟨q, hq, rfl⟩
  · have := h p hp n hn
    omega
  · rcases List.mem_append.mp hn with hn | hn
    · have := h q hq n hn
      omega
    · exact (createNodes_id browser hn).2

/-- Taking the added nodes back leaves the pages as they were. -/
theorem removeNodes_appendRows {doc : Document} (h : doc.Fresh) (page : Nat) (source : Source)
    (html : String) :
    (removeNodes (appendRows browser doc page source html).1
      (appendRows browser doc page source html).2).pages = doc.pages := by
  have hold : ∀ p ∈ doc.pages, (p.tbody.filter fun n =>
      !((createNodes browser source html doc.nextId).map Node.id).contains n.id) = p.tbody := by
    intro p hp
    apply List.filter_eq_self.mpr
    intro n hn
    have hlt := h p hp n hn
    by_contra hmem
    obtain ⟨n', hn', hid⟩ := List.mem_map.mp (by simpa using hmem)
    have hle := (createNodes_id browser hn').1
    omega
  have hnew : ((createNodes browser source html doc.nextId).filter fun n =>
      !((createNodes browser source html doc.nextId).map Node.id).contains n.id) = [] := by
    apply List.filter_eq_nil_iff.mpr
    intro n hn
    simpa using ⟨n, hn, rfl⟩
  have hadded : (appendRows browser doc page source html).2 =
      (createNodes browser source html doc.nextId).map Node.id := rfl
  rw [hadded]
  refine map_modify_cancel ?_ ?_ page
  · intro p hp
    show { p with tbody := (p.tbody ++ _).filter _ } = p
    rw [List.filter_append, hold p hp, hnew, List.append_nil]
  · intro p hp
    show { p with tbody := p.tbody.filter _ } = p
    rw [hold p hp]

theorem rows_appendRows {doc : Document} {current : Nat} (h : current + 1 = doc.pages.length)
    (source : Source) (html : String) :
    (appendRows browser doc current source html).1.rows =
      doc.rows ++ contents browser source html := by
  rcases List.eq_nil_or_concat doc.pages with hnil | ⟨init, p, hpages⟩
  · rw [hnil, List.length_nil] at h
    omega
  · have hcurrent : current = init.length := by
      rw [hpages, List.length_concat] at h
      omega
    rw [List.concat_eq_append] at hpages
    have hpages' : (appendRows browser doc current source html).1.pages =
        init ++ [{ p with tbody := p.tbody ++ createNodes browser source html doc.nextId }] := by
      show doc.pages.modify current _ = _
      rw [hpages, hcurrent, modify_concat]
    rw [Document.rows, Document.rows, hpages', hpages, List.flatMap_append, List.flatMap_append]
    simp [createNodes_content]

end Nodes

/-! ## Passes 1 and 2 -/

section Passes

variable (browser : Browser) (renderBand : String → Scope → String)
  (bands : String → Option String) (D : Scope)

/-- The document while rows are placed: the table bodies hold the rows so far, the current page is
the last one, and no page has a summary yet. -/
structure Filling (rows : List Content) (doc : Document) (current : Nat) : Prop where
  fresh : doc.Fresh
  current : current + 1 = doc.pages.length
  rows : doc.rows = rows
  noSummary : ∀ p ∈ doc.pages, p.sum = ""

variable {browser renderBand bands D} {rows : List Content} {doc : Document} {current : Nat}

/-- Only the pages count. -/
theorem Filling.of_pages {doc' : Document} (h : Filling rows doc current)
    (hpages : doc'.pages = doc.pages) (hnext : doc.nextId ≤ doc'.nextId) :
    Filling rows doc' current := by
  refine ⟨?_, ?_, ?_, ?_⟩
  · intro p hp n hn
    rw [hpages] at hp
    exact Nat.lt_of_lt_of_le (h.fresh p hp n hn) hnext
  · rw [hpages, h.current]
  · rw [Document.rows, hpages]
    exact h.rows
  · rw [hpages]
    exact h.noSummary

theorem Filling.newPage (h : Filling rows doc current) (renderBand : String → Scope → String)
    (bands : String → Option String) (D : Scope) :
    Filling rows (newPage renderBand bands D doc) doc.pages.length := by
  refine ⟨?_, ?_, ?_, ?_⟩
  · intro p hp
    rcases List.mem_append.mp hp with hp | hp
    · exact h.fresh p hp
    · rw [List.mem_singleton.mp hp]
      intro n hn
      cases hn
  · show doc.pages.length + 1 = (doc.pages ++ [_]).length
    rw [List.length_append, List.length_singleton]
  · show (doc.pages ++ [_]).flatMap _ = rows
    rw [List.flatMap_append, ← h.rows]
    simp [Document.rows]
  · intro p hp
    rcases List.mem_append.mp hp with hp | hp
    · exact h.noSummary p hp
    · rw [List.mem_singleton.mp hp]

theorem Filling.appendRows (h : Filling rows doc current) (browser : Browser) (source : Source)
    (html : String) :
    Filling (rows ++ contents browser source html)
      (appendRows browser doc current source html).1 current := by
  refine ⟨appendRows_fresh browser h.fresh current source html, ?_, ?_, ?_⟩
  · show current + 1 = (doc.pages.modify current _).length
    rw [List.length_modify, h.current]
  · rw [rows_appendRows browser h.current, h.rows]
  · intro p hp
    rcases mem_modify hp with hp | ⟨q, hq, rfl⟩
    · exact h.noSummary p hp
    · exact h.noSummary q hq

/-- The first page. -/
theorem filling_first (renderBand : String → Scope → String) (bands : String → Option String)
    (D : Scope) : Filling [] (Paginator.newPage renderBand bands D ⟨[], 0, 0, none⟩) 0 := by
  refine ⟨?_, rfl, rfl, ?_⟩
  · intro p hp
    rw [List.mem_singleton.mp hp]
    intro n hn
    cases hn
  · intro p hp
    rw [List.mem_singleton.mp hp]

variable (browser renderBand bands D)

/-- **Rows are placed once, whatever the measurement says.** -/
theorem Filling.placeRows (h : Filling rows doc current) (source : Source) (html : String) :
    Filling (rows ++ contents browser source html)
      (placeRows browser renderBand bands D source html doc current).1
      (placeRows browser renderBand bands D source html doc current).2 ∧
    (placeRows browser renderBand bands D source html doc current).1.pages.length ≤
      doc.pages.length + 1 := by
  unfold Paginator.placeRows overflows
  dsimp only
  split
  · -- The rows are taken back; a new page follows, and they go there.
    have hpages := removeNodes_appendRows browser h.fresh current source html
    have hback : Filling rows (removeNodes
        { (Paginator.appendRows browser doc current source html).1 with
          measured := (Paginator.appendRows browser doc current source html).1.measured + 1 }
        (Paginator.appendRows browser doc current source html).2) current :=
      h.of_pages hpages (Nat.le_add_right _ _)
    have hplaced := (hback.newPage renderBand bands D).appendRows browser source html
    have hlast := hplaced.current
    have hlength := congrArg List.length hpages
    refine ⟨hplaced, ?_⟩
    calc _ = _ := hlast.symm
      _ = doc.pages.length + 1 := congrArg (· + 1) hlength
      _ ≤ doc.pages.length + 1 := Nat.le_refl _
  · have hplaced := h.appendRows browser source html
    refine ⟨hplaced.of_pages rfl (Nat.le_refl _), ?_⟩
    show (doc.pages.modify current _).length ≤ _
    rw [List.length_modify]
    omega

/-- The rows of the items, numbered from `rowNo` on. -/
def detailRows : Nat → List Json → List Content
  | _, [] => []
  | rowNo, item :: items =>
      contents browser (.detail rowNo) (rowHtml renderBand bands D item rowNo) ++
        detailRows (rowNo + 1) items

theorem Filling.pass1 (h : Filling rows doc current) (rowNo : Nat) (items : List Json) :
    Filling (rows ++ detailRows browser renderBand bands D rowNo items)
      (pass1 browser renderBand bands D rowNo doc current items).1
      (pass1 browser renderBand bands D rowNo doc current items).2 ∧
    (pass1 browser renderBand bands D rowNo doc current items).1.pages.length ≤
      doc.pages.length + items.length := by
  induction items generalizing rows doc current rowNo with
  | nil =>
      rw [detailRows, List.append_nil]
      exact ⟨h, Nat.le_refl _⟩
  | cons item items ih =>
      obtain ⟨hplaced, hle⟩ := h.placeRows browser renderBand bands D (.detail rowNo)
        (rowHtml renderBand bands D item rowNo)
      obtain ⟨hrest, hle'⟩ := ih hplaced (rowNo + 1)
      rw [List.append_assoc] at hrest
      refine ⟨hrest, ?_⟩
      rw [List.length_cons]
      calc _ ≤ _ + items.length := hle'
        _ ≤ doc.pages.length + 1 + items.length := Nat.add_le_add_right hle _
        _ = doc.pages.length + (items.length + 1) := by omega

/-- The rows of the trailing block. -/
def extraRows : List Content :=
  if band bands "detail-extra" = "" then []
  else contents browser .extra (renderBand (band bands "detail-extra") D)

theorem Filling.pass2 (h : Filling rows doc current) :
    Filling (rows ++ extraRows browser renderBand bands D)
      (pass2 browser renderBand bands D doc current).1
      (pass2 browser renderBand bands D doc current).2 ∧
    (pass2 browser renderBand bands D doc current).1.pages.length ≤ doc.pages.length + 1 := by
  unfold Paginator.pass2 extraRows
  split
  · rw [List.append_nil]
    exact ⟨h, Nat.le_add_right _ _⟩
  · exact h.placeRows browser renderBand bands D .extra (renderBand (band bands "detail-extra") D)

/-! ## Pass 3 -/

/-- One page has the summary and the others have none, if there is a summary at all. -/
def SummaryOnce (pages : List Page) : Prop :=
  if band bands "summary" = "" then ∀ p ∈ pages, p.sum = ""
  else ∃ (i : Nat) (p : Page), pages[i]? = some p ∧
    p.sum = renderBand (band bands "summary") p.scope ∧
    ∀ (j : Nat) (q : Page), j ≠ i → pages[j]? = some q → q.sum = ""

theorem rows_modify (f : Page → Page) (hf : ∀ p, (f p).tbody = p.tbody) (pages : List Page)
    (i : Nat) : (pages.modify i f).flatMap (fun p => p.tbody.map Node.content) =
      pages.flatMap fun p => p.tbody.map Node.content := by
  rw [List.flatMap_def, List.flatMap_def, map_modify_eq]
  intro p
  rw [hf]

variable {browser renderBand bands D}

theorem Filling.putSummary (h : Filling rows doc current) (hband : band bands "summary" ≠ "") :
    (putSummary renderBand bands doc current).Fresh ∧
      (putSummary renderBand bands doc current).rows = rows ∧
      SummaryOnce renderBand bands (putSummary renderBand bands doc current).pages := by
  refine ⟨?_, ?_, ?_⟩
  · intro p hp
    rcases mem_modify hp with hp | ⟨q, hq, rfl⟩
    · exact h.fresh p hp
    · exact h.fresh q hq
  · rw [← h.rows]
    exact rows_modify (fun p => { p with sum := renderBand (band bands "summary") p.scope })
      (fun _ => rfl) doc.pages current
  · rw [SummaryOnce, if_neg hband]
    have hlt : current < doc.pages.length := by
      have := h.current
      omega
    have hget : doc.pages[current]? = some doc.pages[current] := List.getElem?_eq_getElem hlt
    let page : Page := { doc.pages[current] with
      sum := renderBand (band bands "summary") doc.pages[current].scope }
    refine ⟨current, page, ?_, rfl, ?_⟩
    · show (doc.pages.modify current _)[current]? = _
      rw [List.getElem?_modify_eq, hget]
      rfl
    · intro j q hj hq
      have hq' : (doc.pages.modify current _)[j]? = some q := hq
      rw [List.getElem?_modify_ne _ _ (Ne.symm hj)] at hq'
      exact h.noSummary q (List.mem_of_getElem? hq')

/-- Clearing the summary again leaves the pages as they were. -/
theorem Filling.clearSummary (renderBand : String → Scope → String)
    (bands : String → Option String) (h : Filling rows doc current) :
    (clearSummary (Paginator.putSummary renderBand bands doc current) current).pages =
      doc.pages := by
  show (doc.pages.modify current _).modify current _ = doc.pages
  rw [List.modify_modify_eq]
  have hid : ∀ p ∈ doc.pages, { p with sum := "" } = p := by
    intro p hp
    rw [← h.noSummary p hp]
  have hcancel : (doc.pages.modify current fun p => { p with sum := "" }).map id = doc.pages :=
    map_modify_cancel hid (fun _ _ => rfl) current
  rw [List.map_id] at hcancel
  exact hcancel

theorem Filling.pass3 (browser : Browser) (renderBand : String → Scope → String)
    (bands : String → Option String) (D : Scope) (h : Filling rows doc current) :
    ((pass3 browser renderBand bands D doc).Fresh ∧
      (pass3 browser renderBand bands D doc).rows = rows ∧
      SummaryOnce renderBand bands (pass3 browser renderBand bands D doc).pages) ∧
    (pass3 browser renderBand bands D doc).pages.length ≤ doc.pages.length + 1 := by
  have hlast : doc.pages.length - 1 = current := by
    have := h.current
    omega
  unfold Paginator.pass3 overflows
  dsimp only
  rw [hlast]
  split
  · rename_i hband
    refine ⟨⟨h.fresh, h.rows, ?_⟩, Nat.le_add_right _ _⟩
    rw [SummaryOnce, if_pos hband]
    exact h.noSummary
  · rename_i hband
    split
    · -- The summary is taken back and goes on a page of its own.
      have hpages := h.clearSummary renderBand bands
      have hback : Filling rows (Paginator.clearSummary
          { Paginator.putSummary renderBand bands doc current with
            measured := (Paginator.putSummary renderBand bands doc current).measured + 1 }
          current) current :=
        h.of_pages hpages (Nat.le_refl _)
      have hnew := hback.newPage renderBand bands D
      refine ⟨hnew.putSummary hband, ?_⟩
      calc _ = _ := List.length_modify ..
        _ = _ := hnew.current.symm
        _ = doc.pages.length + 1 := congrArg (· + 1) (congrArg List.length hpages)
        _ ≤ doc.pages.length + 1 := Nat.le_refl _
    · refine ⟨h.putSummary hband, ?_⟩
      show (doc.pages.modify current _).length ≤ _
      rw [List.length_modify]
      omega

/-! ## Pass 4 -/

/-- What pass 4 leaves alone on a page: the rows that are no filler, the summary and the scope. -/
def Page.kept (p : Page) : List Content × String × Scope :=
  ((p.tbody.map Node.content).filter (·.source ≠ .filler), p.sum, p.scope)

theorem kept_append_filler (browser : Browser) (html : String) (nextId : Nat) (p : Page) :
    ({ p with tbody := p.tbody ++ createNodes browser .filler html nextId } : Page).kept =
      p.kept := by
  have hfiller : (contents browser .filler html).filter (·.source ≠ .filler) = [] := by
    apply List.filter_eq_nil_iff.mpr
    intro c hc
    obtain ⟨node, -, rfl⟩ := List.mem_map.mp hc
    simp
  rw [Page.kept, Page.kept]
  dsimp only
  rw [List.map_append, createNodes_content, List.filter_append, hfiller, List.append_nil]

theorem fillerWouldOverflow_pages (browser : Browser) (doc : Document) (page : Nat) :
    (fillerWouldOverflow browser doc page).1.pages = doc.pages ∧
      (fillerWouldOverflow browser doc page).1.nextId = doc.nextId := by
  unfold fillerWouldOverflow overflows
  dsimp only
  split
  · exact ⟨rfl, rfl⟩
  · split
    · split
      · exact ⟨rfl, rfl⟩
      · exact ⟨rfl, rfl⟩
    · exact ⟨rfl, rfl⟩

theorem Document.Fresh.of_pages {doc doc' : Document} (h : doc.Fresh)
    (hpages : doc'.pages = doc.pages) (hnext : doc.nextId ≤ doc'.nextId) : doc'.Fresh := by
  intro p hp n hn
  rw [hpages] at hp
  exact Nat.lt_of_lt_of_le (h p hp n hn) hnext

/-- Filling a page keeps what is there, however many filler rows fit. -/
theorem fill_kept (browser : Browser) (html : String) (page guard : Nat) {doc : Document}
    (h : doc.Fresh) : (fill browser html page guard doc).Fresh ∧
      (fill browser html page guard doc).pages.map Page.kept = doc.pages.map Page.kept := by
  induction guard generalizing doc with
  | zero => exact ⟨h, rfl⟩
  | succ guard ih =>
      have hfresh := appendRows_fresh browser h page .filler html
      have hkept : (appendRows browser doc page .filler html).1.pages.map Page.kept =
          doc.pages.map Page.kept :=
        map_modify_eq (kept_append_filler browser html doc.nextId) doc.pages page
      obtain ⟨hpages, hnext⟩ :=
        fillerWouldOverflow_pages browser (appendRows browser doc page .filler html).1 page
      rw [fill]
      dsimp only
      split
      · -- The last filler row is taken back.
        have hback : (removeNodes
            (fillerWouldOverflow browser (appendRows browser doc page .filler html).1 page).1
            (appendRows browser doc page .filler html).2).pages = doc.pages := by
          rw [← removeNodes_appendRows browser h page .filler html, removeNodes, removeNodes, hpages]
        refine ⟨h.of_pages hback ?_, by rw [hback]⟩
        show doc.nextId ≤
          (fillerWouldOverflow browser (appendRows browser doc page .filler html).1 page).1.nextId
        rw [hnext]
        exact Nat.le_add_right _ _
      · obtain ⟨hfresh', hkept'⟩ := ih (hfresh.of_pages hpages (Nat.le_of_eq hnext.symm))
        refine ⟨hfresh', ?_⟩
        rw [hkept', hpages, hkept]

variable (browser renderBand bands)

theorem putFooter_kept (page : Nat) (name : String) {doc : Document} (h : doc.Fresh) :
    (putFooter renderBand bands doc page name).Fresh ∧
      (putFooter renderBand bands doc page name).pages.map Page.kept = doc.pages.map Page.kept := by
  have hkept : ∀ p : Page,
      ({ p with ftr := renderBand (band bands name) p.scope } : Page).kept = p.kept := fun _ => rfl
  refine ⟨?_, map_modify_eq hkept doc.pages page⟩
  intro p hp
  rcases mem_modify hp with hp | ⟨q, hq, rfl⟩
  · exact h p hp
  · exact h q hq

theorem finishPage_kept (total page : Nat) {doc : Document} (h : doc.Fresh) :
    (finishPage browser renderBand bands total doc page).Fresh ∧
      (finishPage browser renderBand bands total doc page).pages.map Page.kept =
        doc.pages.map Page.kept := by
  unfold finishPage
  by_cases hband : band bands "filler-row" = ""
  · simp only [hband, if_true]
    exact putFooter_kept renderBand bands page _ h
  · simp only [hband, if_false]
    obtain ⟨hfresh, hkept⟩ := fill_kept browser
      (renderBand (band bands "filler-row") ((doc.pages[page]?.map Page.scope).getD [])) page 500 h
    obtain ⟨hfresh', hkept'⟩ := putFooter_kept renderBand bands page
      (if page = total - 1 then "page-footer:last" else "page-footer:continuation") hfresh
    exact ⟨hfresh', hkept'.trans hkept⟩

theorem pass4_kept {doc : Document} (h : doc.Fresh) :
    (pass4 browser renderBand bands doc).pages.map Page.kept = doc.pages.map Page.kept := by
  have hloop : ∀ (total : Nat) (pages : List Nat) (doc : Document), doc.Fresh →
      (pages.foldl (finishPage browser renderBand bands total) doc).pages.map Page.kept =
        doc.pages.map Page.kept := by
    intro total pages
    induction pages with
    | nil =>
        intro doc _
        rfl
    | cons page pages ih =>
        intro doc hfresh
        obtain ⟨hfresh', hkept⟩ := finishPage_kept browser renderBand bands total page hfresh
        rw [List.foldl_cons, ih _ hfresh', hkept]
  exact hloop doc.pages.length _ doc h

/-! ## The whole run -/

theorem SummaryOnce.congr {pages pages' : List Page}
    (hkept : pages'.map Page.kept = pages.map Page.kept)
    (h : SummaryOnce renderBand bands pages) : SummaryOnce renderBand bands pages' := by
  have hget : ∀ {i : Nat} {p : Page}, pages'[i]? = some p →
      ∃ q, pages[i]? = some q ∧ p.kept = q.kept := by
    intro i p hp
    have hmap : (pages'.map Page.kept)[i]? = some p.kept := by
      rw [List.getElem?_map, hp]
      rfl
    rw [hkept, List.getElem?_map] at hmap
    obtain ⟨q, hq, heq⟩ := Option.map_eq_some_iff.mp hmap
    exact ⟨q, hq, heq.symm⟩
  unfold SummaryOnce at h ⊢
  split
  · rename_i hband
    rw [if_pos hband] at h
    intro p hp
    obtain ⟨i, hi⟩ := List.mem_iff_getElem?.mp hp
    obtain ⟨q, hq, heq⟩ := hget hi
    rw [show p.sum = q.sum from congrArg (fun x => x.2.1) heq]
    exact h q (List.mem_of_getElem? hq)
  · rename_i hband
    rw [if_neg hband] at h
    obtain ⟨i, p, hp, hsum, hothers⟩ := h
    have hlt : i < pages'.length := by
      have hlength := congrArg List.length hkept
      rw [List.length_map, List.length_map] at hlength
      have := (List.getElem?_eq_some_iff.mp hp).1
      omega
    obtain ⟨q, hq, heq⟩ := hget (List.getElem?_eq_getElem hlt)
    obtain rfl := Option.some.inj (hp.symm.trans hq)
    refine ⟨i, _, List.getElem?_eq_getElem hlt, ?_, ?_⟩
    · rw [show pages'[i].sum = p.sum from congrArg (fun x => x.2.1) heq,
        show pages'[i].scope = p.scope from congrArg (fun x => x.2.2) heq]
      exact hsum
    · intro j q hj hq
      obtain ⟨q', hq', heq'⟩ := hget hq
      rw [show q.sum = q'.sum from congrArg (fun x => x.2.1) heq']
      exact hothers j q' hj hq'

/-- The rows that are no filler. -/
theorem rows_filter_eq_kept (doc : Document) : doc.rows.filter (·.source ≠ .filler) =
    (doc.pages.map Page.kept).flatMap Prod.fst := by
  rw [Document.rows, List.filter_flatMap, List.flatMap_map]
  rfl

variable (D)

theorem detailRows_source (rowNo : Nat) (items : List Json) :
    ∀ c ∈ detailRows browser renderBand bands D rowNo items, ∃ n, c.source = .detail n := by
  induction items generalizing rowNo with
  | nil => simp [detailRows]
  | cons item items ih =>
      intro c hc
      rcases List.mem_append.mp hc with hc | hc
      · obtain ⟨node, -, rfl⟩ := List.mem_map.mp hc
        exact ⟨rowNo, rfl⟩
      · exact ih (rowNo + 1) c hc

theorem extraRows_source : ∀ c ∈ extraRows browser renderBand bands D, c.source = .extra := by
  unfold extraRows
  split
  · simp
  · intro c hc
    obtain ⟨node, -, rfl⟩ := List.mem_map.mp hc
    rfl

/-- Pass 4 and the page count leave the rows that are no filler and the summary. -/
theorem pass4_places {rows : List Content} {doc : Document} (hfresh : doc.Fresh)
    (hrows : doc.rows = rows) (hfiller : ∀ c ∈ rows, c.source ≠ .filler)
    (hsummary : SummaryOnce renderBand bands doc.pages) :
    ((pass4 browser renderBand bands doc).rows.filter (·.source ≠ .filler) = rows) ∧
      SummaryOnce renderBand bands (pass4 browser renderBand bands doc).pages ∧
      (pass4 browser renderBand bands doc).pages.length = doc.pages.length := by
  have hkept := pass4_kept browser renderBand bands hfresh
  refine ⟨?_, SummaryOnce.congr renderBand bands hkept hsummary, ?_⟩
  · rw [rows_filter_eq_kept, hkept, ← rows_filter_eq_kept, hrows]
    apply List.filter_eq_self.mpr
    intro c hc
    simpa using hfiller c hc
  · have hlength := congrArg List.length hkept
    rw [List.length_map, List.length_map] at hlength
    exact hlength

/-- What the paginator has placed: the rows that are no filler, and the summary. -/
theorem paginate_kept (items : List Json) :
    ((paginate browser renderBand bands D items).rows.filter (·.source ≠ .filler) =
        detailRows browser renderBand bands D 1 items ++ extraRows browser renderBand bands D) ∧
      SummaryOnce renderBand bands (paginate browser renderBand bands D items).pages ∧
      (paginate browser renderBand bands D items).pages.length ≤ items.length + 3 := by
  obtain ⟨h1, hle1⟩ := (filling_first renderBand bands D).pass1 browser renderBand bands D 1 items
  obtain ⟨h2, hle2⟩ := h1.pass2 browser renderBand bands D
  obtain ⟨⟨hfresh, hrows, hsummary⟩, hle3⟩ := h2.pass3 browser renderBand bands D
  have hfiller : ∀ c ∈ [] ++ detailRows browser renderBand bands D 1 items ++
      extraRows browser renderBand bands D, c.source ≠ .filler := by
    intro c hc
    rw [List.nil_append] at hc
    rcases List.mem_append.mp hc with hc | hc
    · obtain ⟨n, hn⟩ := detailRows_source browser renderBand bands D 1 items c hc
      simp [hn]
    · simp [extraRows_source browser renderBand bands D c hc]
  obtain ⟨hplaced, honce, hlength⟩ :=
    pass4_places browser renderBand bands hfresh hrows hfiller hsummary
  have hone : (newPage renderBand bands D ⟨[], 0, 0, none⟩).pages.length = 1 := rfl
  have hle := Nat.le_trans (Nat.le_of_eq hlength) hle3
  exact ⟨hplaced, honce, Nat.le_trans hle (by omega)⟩

def Source.isDetail : Source → Bool
  | .detail _ => true
  | _ => false

/-- **Every item has its rows once, in order, and the trailing block and the summary are placed
once**, whatever the browser answers. The number of pages is bounded, so no pass goes on for
ever. -/
theorem paginate_places (items : List Json) :
    ((paginate browser renderBand bands D items).rows.filter (·.source.isDetail) =
        detailRows browser renderBand bands D 1 items) ∧
      ((paginate browser renderBand bands D items).rows.filter (·.source = .extra) =
        extraRows browser renderBand bands D) ∧
      SummaryOnce renderBand bands (paginate browser renderBand bands D items).pages ∧
      (paginate browser renderBand bands D items).pages.length ≤ items.length + 3 := by
  obtain ⟨hrows, hsummary, hle⟩ := paginate_kept browser renderBand bands D items
  have hdetail := detailRows_source browser renderBand bands D 1 items
  have hextra := extraRows_source browser renderBand bands D
  refine ⟨?_, ?_, hsummary, hle⟩
  · calc (paginate browser renderBand bands D items).rows.filter (·.source.isDetail)
        = ((paginate browser renderBand bands D items).rows.filter (·.source ≠ .filler)).filter
            (·.source.isDetail) := by
          rw [List.filter_filter]
          apply List.filter_congr
          intro c _
          cases hc : c.source <;> simp [Source.isDetail]
      _ = detailRows browser renderBand bands D 1 items := by
          rw [hrows, List.filter_append]
          have hall : (detailRows browser renderBand bands D 1 items).filter (·.source.isDetail) =
              detailRows browser renderBand bands D 1 items := by
            apply List.filter_eq_self.mpr
            intro c hc
            obtain ⟨n, hn⟩ := hdetail c hc
            rw [hn]
            rfl
          have hnone : (extraRows browser renderBand bands D).filter (·.source.isDetail) = [] := by
            apply List.filter_eq_nil_iff.mpr
            intro c hc
            rw [hextra c hc]
            decide
          rw [hall, hnone, List.append_nil]
  · calc (paginate browser renderBand bands D items).rows.filter (·.source = .extra)
        = ((paginate browser renderBand bands D items).rows.filter (·.source ≠ .filler)).filter
            (·.source = .extra) := by
          rw [List.filter_filter]
          apply List.filter_congr
          intro c _
          cases hc : c.source <;> simp
      _ = extraRows browser renderBand bands D := by
          rw [hrows, List.filter_append]
          have hnone : (detailRows browser renderBand bands D 1 items).filter
              (·.source = .extra) = [] := by
            apply List.filter_eq_nil_iff.mpr
            intro c hc
            obtain ⟨n, hn⟩ := hdetail c hc
            simp [hn]
          have hall : (extraRows browser renderBand bands D).filter (·.source = .extra) =
              extraRows browser renderBand bands D := by
            apply List.filter_eq_self.mpr
            intro c hc
            simp [hextra c hc]
          rw [hall, hnone, List.nil_append]

end Passes

end ErpApi.Report.Paginator
