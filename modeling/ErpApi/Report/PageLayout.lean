import Mathlib.Algebra.Order.Field.Basic
import Mathlib.Algebra.Order.Field.Rat
import Mathlib.Algebra.Order.Ring.NNRat
import ErpApi.Report.Paginator

set_option autoImplicit false

/-! # The layout of the pages

What the browser answers the paginator follows from heights. The box of a page has what the page
leaves beside its header, its summary and its footer, and never more than was locked when the page
was created; the page overflows if the table in the box is higher.

Every row is placed against the continuation footer, and PASS 4 then replaces the footer of the last
page without another measurement. So rows that fitted can end outside the box. `layOut_fits_iff`
says for which heights no page with two or more rows ends so.
-/

namespace ErpApi.Report.Paginator

/-! ## Heights -/

structure BandHeights where
  page : ℚ≥0
  header : ℚ≥0
  continuation : ℚ≥0
  last : ℚ≥0

def FILLER_SAFETY_PX : ℚ≥0 := 2

/-- A template whose header and footers have the given heights. Its rows, its summary and what is
left of its bands are of any height. -/
structure Template (h : BandHeights) where
  bands : String → Option String
  renderBand : String → Scope → String
  parse : String → List (String × Bool)
  /-- The height of a band outside the table body. -/
  heightOf : String → ℚ≥0
  rowHeight : String → ℚ≥0
  heightOf_empty : heightOf "" = 0
  heightOf_header : ∀ scope, heightOf (renderBand (band bands "page-header") scope) = h.header
  heightOf_continuation : ∀ scope,
    heightOf (renderBand (band bands "page-footer:continuation") scope) = h.continuation
  heightOf_last : ∀ scope,
    heightOf (renderBand (band bands "page-footer:last") scope) = h.last

def Source.rowNo : Source → Option Nat
  | .detail rowNo => some rowNo
  | _ => none

/-- The numbers of the detail rows on the page. -/
def Page.rowNos (p : Page) : List Nat :=
  (p.tbody.filter Node.isElement).filterMap (·.source.rowNo)

/-- The page holds the rows of two items. -/
def Page.HoldsTwo (p : Page) : Prop := ∃ m ∈ p.rowNos, ∃ n ∈ p.rowNos, m ≠ n

namespace Template

variable {h : BandHeights} (T : Template h)

/-- The height that the box is given when the page is created. The page has its continuation footer
then, and no summary. -/
def locked (p : Page) : ℚ≥0 :=
  h.page - (T.heightOf p.hdr +
    T.heightOf (T.renderBand (band T.bands "page-footer:continuation") p.scope))

/-- The value `clientHeight` of the box. -/
def box (p : Page) : ℚ≥0 :=
  min (T.locked p) (h.page - (T.heightOf p.hdr + T.heightOf p.sum + T.heightOf p.ftr))

/-- The height of the table. A text between two rows has none. -/
def tableHeight (p : Page) : ℚ≥0 :=
  T.heightOf p.thead + ((p.tbody.filter Node.isElement).map fun n => T.rowHeight n.html).sum

def exceeds (p : Page) : Bool := T.box p < T.tableHeight p

/-- The browser that lays the template out. -/
def browser : Browser where
  parse := T.parse
  overflows doc page := doc.pages[page]?.any T.exceeds
  touchesEnd doc page :=
    doc.pages[page]?.any fun p => T.box p < T.tableHeight p + FILLER_SAFETY_PX

def layOut (D : Scope) (items : List Json) : Document :=
  paginate T.browser T.renderBand T.bands D items

/-- No page that holds two or more detail rows has rows outside its box. -/
def Fits (doc : Document) : Prop := ∀ p ∈ doc.pages, p.HoldsTwo → T.exceeds p = false

/-! ## The invariant -/

/-- The page has its header and a continuation footer. -/
structure Framed (p : Page) : Prop where
  hdr : T.heightOf p.hdr = h.header
  ftr : T.heightOf p.ftr = h.continuation

/-- The invariant of a page before it gets its last footer. -/
structure Sound (p : Page) : Prop where
  framed : T.Framed p
  fits : p.HoldsTwo → T.exceeds p = false

variable {T} {p : Page} {pages : List Page}

theorem exceeds_eq_false : T.exceeds p = false ↔ T.tableHeight p ≤ T.box p :=
  decide_eq_false_iff_not.trans not_lt

theorem Framed.locked_eq (hp : T.Framed p) : T.locked p = h.page - (h.header + h.continuation) := by
  rw [locked, hp.hdr, T.heightOf_continuation]

/-- A page that has been changed is sound if it has been measured afterwards. -/
theorem sound_modify {f : Page → Page} {i : Nat} (hpages : ∀ p ∈ pages, T.Sound p)
    (hf : ∀ p, T.Framed p → T.Framed (f p))
    (hmeasured : (pages.modify i f)[i]?.any T.exceeds = false) :
    ∀ p ∈ pages.modify i f, T.Sound p := by
  intro p hp
  obtain ⟨j, hj⟩ := List.mem_iff_getElem?.mp hp
  by_cases hij : i = j
  · subst hij
    have hfits : T.exceeds p = false := by simpa [hj] using hmeasured
    rcases mem_modify hp with hold | ⟨q, hq, rfl⟩
    · exact ⟨(hpages p hold).framed, fun _ => hfits⟩
    · exact ⟨hf q (hpages q hq).framed, fun _ => hfits⟩
  · rw [List.getElem?_modify_ne _ _ hij] at hj
    exact hpages p (List.mem_of_getElem? hj)

/-! ## Passes 1 and 2 -/

theorem createNodes_source {browser : Browser} {source : Source} {html : String} {nextId : Nat}
    {n : Node} (hn : n ∈ createNodes browser source html nextId) : n.source = source := by
  obtain ⟨i, hi, rfl⟩ := List.mem_mapIdx.mp hn
  rfl

theorem not_holdsTwo {source : Source} (hp : ∀ n ∈ p.tbody, n.source = source) :
    ¬ p.HoldsTwo := by
  have hsource : ∀ m ∈ p.rowNos, source.rowNo = some m := by
    intro m hm
    obtain ⟨n, hn, hrowNo⟩ := List.mem_filterMap.mp hm
    rw [← hp n (List.mem_of_mem_filter hn)]
    exact hrowNo
  rintro ⟨m, hm, n, hn, hne⟩
  apply hne
  apply Option.some.inj
  rw [← hsource m hm, hsource n hn]

section Passes

variable {doc : Document} {rows : List Content} {current : Nat} (D : Scope)

/-- A new page may get anything of one source: the rows of one item may overflow a page of their
own. -/
theorem sound_newPage (source : Source) {f : Page → Page} (hdoc : ∀ p ∈ doc.pages, T.Sound p)
    (hf : ∀ p, T.Framed p → T.Framed (f p))
    (hsource : ∀ p, p.tbody = [] → ∀ n ∈ (f p).tbody, n.source = source) :
    ∀ p ∈ (newPage T.renderBand T.bands D doc).pages.modify doc.pages.length f, T.Sound p := by
  have hpages : (newPage T.renderBand T.bands D doc).pages = doc.pages ++ [_] := rfl
  rw [hpages, modify_concat]
  intro p hp
  rcases List.mem_append.mp hp with hold | hnew
  · exact hdoc p hold
  · rw [List.mem_singleton.mp hnew]
    refine ⟨hf _ ⟨T.heightOf_header _, T.heightOf_continuation _⟩, fun htwo => ?_⟩
    exact absurd htwo (not_holdsTwo (hsource _ rfl))

theorem sound_placeRows (hfill : Filling rows doc current) (hdoc : ∀ p ∈ doc.pages, T.Sound p)
    (source : Source) (html : String) :
    ∀ p ∈ (placeRows T.browser T.renderBand T.bands D source html doc current).1.pages,
      T.Sound p := by
  unfold placeRows overflows
  dsimp only
  split
  · have hback := removeNodes_appendRows T.browser hfill.fresh current source html
    refine sound_newPage D source (fun p hp => hdoc p (hback ▸ hp))
      (fun _ hp => ⟨hp.hdr, hp.ftr⟩) ?_
    intro p hp n hn
    rw [hp, List.nil_append] at hn
    exact createNodes_source hn
  · rename_i hfits
    exact sound_modify hdoc (fun _ hp => ⟨hp.hdr, hp.ftr⟩) (Bool.eq_false_iff.mpr hfits)

theorem sound_pass1 (hfill : Filling rows doc current) (hdoc : ∀ p ∈ doc.pages, T.Sound p)
    (rowNo : Nat) (items : List Json) :
    ∀ p ∈ (pass1 T.browser T.renderBand T.bands D rowNo doc current items).1.pages,
      T.Sound p := by
  induction items generalizing rows doc current rowNo with
  | nil => exact hdoc
  | cons item items ih =>
      have hplaced := hfill.placeRows T.browser T.renderBand T.bands D (.detail rowNo)
        (rowHtml T.renderBand T.bands D item rowNo)
      exact ih hplaced.1 (sound_placeRows D hfill hdoc _ _) (rowNo + 1)

theorem sound_pass2 (hfill : Filling rows doc current) (hdoc : ∀ p ∈ doc.pages, T.Sound p) :
    ∀ p ∈ (pass2 T.browser T.renderBand T.bands D doc current).1.pages, T.Sound p := by
  unfold pass2
  split
  · exact hdoc
  · exact sound_placeRows D hfill hdoc _ _

/-! ## Pass 3 -/

theorem sound_pass3 (hfill : Filling rows doc current) (hdoc : ∀ p ∈ doc.pages, T.Sound p) :
    ∀ p ∈ (pass3 T.browser T.renderBand T.bands D doc).pages, T.Sound p := by
  have hlast : doc.pages.length - 1 = current := by
    have := hfill.current
    omega
  unfold pass3 overflows
  dsimp only
  rw [hlast]
  split
  · exact hdoc
  split
  · have hback := hfill.clearSummary T.renderBand T.bands
    refine sound_newPage D .extra (fun p hp => hdoc p (hback ▸ hp))
      (fun _ hp => ⟨hp.hdr, hp.ftr⟩) ?_
    intro p hp n hn
    rw [hp] at hn
    cases hn
  · rename_i hfits
    exact sound_modify hdoc (fun _ hp => ⟨hp.hdr, hp.ftr⟩) (Bool.eq_false_iff.mpr hfits)

/-! ## Pass 4 -/

theorem fillerWouldOverflow_of_overflows {browser : Browser} {page : Nat}
    (h : browser.overflows doc page = true) : (fillerWouldOverflow browser doc page).2 = true := by
  simp [fillerWouldOverflow, overflows, h]

/-- Filler rows are measured before they stay. -/
theorem sound_fill (hfresh : doc.Fresh) (hdoc : ∀ p ∈ doc.pages, T.Sound p) (html : String)
    (page guard : Nat) : ∀ p ∈ (fill T.browser html page guard doc).pages, T.Sound p := by
  induction guard generalizing doc with
  | zero => exact hdoc
  | succ guard ih =>
      obtain ⟨hpages, hnext⟩ := fillerWouldOverflow_pages T.browser
        (appendRows T.browser doc page .filler html).1 page
      have hadded := appendRows_fresh T.browser hfresh page .filler html
      rw [fill]
      dsimp only
      split
      · have hback := removeNodes_appendRows T.browser hfresh page .filler html
        intro p hp
        refine hdoc p ?_
        rw [← hback]
        rw [removeNodes, hpages] at hp
        exact hp
      · rename_i hfits
        refine ih (hadded.of_pages hpages (Nat.le_of_eq hnext.symm)) ?_
        rw [hpages]
        refine sound_modify hdoc (fun _ hp => ⟨hp.hdr, hp.ftr⟩) (Bool.eq_false_iff.mpr ?_)
        intro hexceeds
        exact hfits (fillerWouldOverflow_of_overflows hexceeds)

/-- A footer that is no higher than the one before leaves the box at least as high, and a box
without height stays so. -/
theorem exceeds_footer {footer : String} (hp : T.Framed p)
    (hroom : T.heightOf footer ≤ h.continuation ∨ h.page ≤ h.header + h.continuation)
    (hfits : T.exceeds p = false) : T.exceeds { p with ftr := footer } = false := by
  have hle : T.box p ≤ T.box { p with ftr := footer } := by
    rcases hroom with hfooter | hnone
    · apply min_le_min_left
      apply tsub_le_tsub_left
      rw [hp.ftr]
      exact add_le_add_right hfooter _
    · have hzero : T.locked p = 0 := by
        rw [hp.locked_eq]
        exact tsub_eq_zero_of_le hnone
      calc T.box p ≤ T.locked p := min_le_left _ _
        _ = 0 := hzero
        _ ≤ T.box { p with ftr := footer } := zero_le
  exact exceeds_eq_false.mpr ((exceeds_eq_false.mp hfits).trans hle)

theorem sound_filled (hfresh : doc.Fresh) (hdoc : ∀ p ∈ doc.pages, T.Sound p) (html : String)
    (page : Nat) : ∀ p ∈ (if band T.bands "filler-row" = "" then doc
      else fill T.browser html page 500 doc).pages, T.Sound p := by
  split
  · exact hdoc
  · exact sound_fill hfresh hdoc html page 500

theorem sound_finishPage (hfresh : doc.Fresh) (hdoc : ∀ p ∈ doc.pages, T.Sound p)
    {total page : Nat} (hpage : page ≠ total - 1) :
    ∀ p ∈ (finishPage T.browser T.renderBand T.bands total doc page).pages, T.Sound p := by
  unfold finishPage
  dsimp only
  rw [if_neg hpage]
  intro p hp
  rcases mem_modify hp with hold | ⟨q, hq, rfl⟩
  · exact sound_filled hfresh hdoc _ page p hold
  · have hsound := sound_filled hfresh hdoc _ page q hq
    refine ⟨⟨hsound.framed.hdr, T.heightOf_continuation _⟩, fun htwo => ?_⟩
    exact exceeds_footer hsound.framed (.inl (le_of_eq (T.heightOf_continuation _)))
      (hsound.fits htwo)

/-- The last page gets its footer. -/
theorem fits_finishPage (hroom : h.last ≤ h.continuation ∨ h.page ≤ h.header + h.continuation)
    (hfresh : doc.Fresh) (hdoc : ∀ p ∈ doc.pages, T.Sound p) (total : Nat) :
    T.Fits (finishPage T.browser T.renderBand T.bands total doc (total - 1)) := by
  unfold finishPage
  dsimp only
  rw [if_pos rfl]
  intro p hp htwo
  rcases mem_modify hp with hold | ⟨q, hq, rfl⟩
  · exact (sound_filled hfresh hdoc _ _ p hold).fits htwo
  · have hsound := sound_filled hfresh hdoc _ _ q hq
    refine exceeds_footer hsound.framed ?_ (hsound.fits htwo)
    rw [T.heightOf_last]
    exact hroom

theorem fits_pass4 (hroom : h.last ≤ h.continuation ∨ h.page ≤ h.header + h.continuation)
    (hfresh : doc.Fresh) (hdoc : ∀ p ∈ doc.pages, T.Sound p) :
    T.Fits (pass4 T.browser T.renderBand T.bands doc) := by
  -- All pages but the last keep the invariant.
  have hloop : ∀ (total : Nat) (pages : List Nat) (doc : Document), doc.Fresh →
      (∀ p ∈ doc.pages, T.Sound p) → (∀ page ∈ pages, page ≠ total - 1) →
      (pages.foldl (finishPage T.browser T.renderBand T.bands total) doc).Fresh ∧
        ∀ p ∈ (pages.foldl (finishPage T.browser T.renderBand T.bands total) doc).pages,
          T.Sound p := by
    intro total pages
    induction pages with
    | nil => exact fun doc hfresh hdoc _ => ⟨hfresh, hdoc⟩
    | cons page pages ih =>
        intro doc hfresh hdoc hne
        rw [List.foldl_cons]
        refine ih _ (finishPage_kept T.browser T.renderBand T.bands total page hfresh).1
          (sound_finishPage hfresh hdoc (hne page List.mem_cons_self)) ?_
        exact fun page' hpage' => hne page' (List.mem_cons_of_mem _ hpage')
  unfold pass4
  generalize htotal : doc.pages.length = total
  cases total with
  | zero => exact fun p hp htwo => (hdoc p hp).fits htwo
  | succ n =>
      obtain ⟨hfresh', hdoc'⟩ := hloop (n + 1) (List.range n) doc hfresh hdoc fun page hpage => by
        have := List.mem_range.mp hpage
        omega
      rw [List.range_succ, List.foldl_append]
      exact fits_finishPage hroom hfresh' hdoc' (n + 1)

/-- The rows stay in their boxes if the last footer is no higher, or if there is no room anyway. -/
theorem layOut_fits (hroom : h.last ≤ h.continuation ∨ h.page ≤ h.header + h.continuation)
    (items : List Json) : T.Fits (T.layOut D items) := by
  have hfirst := filling_first T.renderBand T.bands D
  have hsound : ∀ p ∈ (newPage T.renderBand T.bands D ⟨[], 0, 0, none⟩).pages, T.Sound p := by
    have hnew : ∀ p ∈ (newPage T.renderBand T.bands D ⟨[], 0, 0, none⟩).pages.modify 0 id,
        T.Sound p := by
      refine sound_newPage D .extra (fun p hp => by cases hp) (fun _ hp => hp) ?_
      intro p hp n hn
      rw [id, hp] at hn
      cases hn
    rwa [List.modify_id] at hnew
  obtain ⟨h1, -⟩ := hfirst.pass1 T.browser T.renderBand T.bands D 1 items
  obtain ⟨h2, -⟩ := h1.pass2 T.browser T.renderBand T.bands D
  obtain ⟨⟨hfresh, -, -⟩, -⟩ := h2.pass3 T.browser T.renderBand T.bands D
  have hsound1 := sound_pass1 D hfirst hsound 1 items
  have hsound2 := sound_pass2 D h1 hsound1
  have hsound3 := sound_pass3 D h2 hsound2
  exact fits_pass4 hroom hfresh hsound3

end Passes

end Template

/-! ## Two rows that fill a page -/

section TwoRows

variable (h : BandHeights)

/-- The room for rows on a page with the continuation footer. -/
def BandHeights.room : ℚ≥0 := h.page - (h.header + h.continuation)

def twoRowsBands (name : String) : Option String :=
  if name = "page-header" then some "header"
  else if name = "page-footer:continuation" then some "continued"
  else if name = "page-footer:last" then some "total"
  else if name = "detail-row" then some "<tr></tr>"
  else none

/-- A template each of whose rows takes half of the room. -/
def halfPageRows : Template h where
  bands := twoRowsBands
  renderBand html _ := html
  parse html := if html = "" then [] else [(html, true)]
  heightOf html :=
    if html = "header" then h.header
    else if html = "continued" then h.continuation
    else if html = "total" then h.last
    else 0
  rowHeight _ := h.room / 2
  heightOf_empty := rfl
  heightOf_header _ := rfl
  heightOf_continuation _ := rfl
  heightOf_last _ := rfl

def halfPageRow (rowNo : Nat) : Node := ⟨rowNo - 1, .detail rowNo, "<tr></tr>", true⟩

/-- The page with the first rows. -/
def halfPage (ftr : String) (tbody : List Node) : Page where
  hdr := "header"
  thead := ""
  tbody := tbody
  sum := ""
  ftr := ftr
  scope := Json.assign (Json.assign [] "__page" (.num "1")) "__next_page" (.num "2")

theorem box_halfPage (tbody : List Node) :
    (halfPageRows h).box (halfPage "continued" tbody) = h.room := by
  show min (h.page - (h.header + h.continuation)) (h.page - (h.header + 0 + h.continuation)) = _
  rw [add_zero, min_self]
  rfl

theorem exceeds_halfPage {tbody : List Node}
    (hheight : ((tbody.filter Node.isElement).map fun _ => h.room / 2).sum ≤ h.room) :
    (halfPageRows h).exceeds (halfPage "continued" tbody) = false := by
  rw [Template.exceeds_eq_false, box_halfPage]
  refine le_trans (le_of_eq ?_) hheight
  exact zero_add _

theorem placeRows_of_fits {browser : Browser} {renderBand : String → Scope → String}
    {bands : String → Option String} {D : Scope} {source : Source} {html : String} {doc : Document}
    {current : Nat}
    (hfits : browser.overflows (appendRows browser doc current source html).1 current = false) :
    placeRows browser renderBand bands D source html doc current =
      ({ (appendRows browser doc current source html).1 with measured := doc.measured + 1 },
        current) := by
  unfold placeRows overflows
  dsimp only
  rw [hfits]
  rfl

/-- Both rows fit beside the continuation footer. -/
theorem pass1_halfPageRows :
    pass1 (halfPageRows h).browser (halfPageRows h).renderBand (halfPageRows h).bands [] 1
        ⟨[halfPage "continued" []], 0, 0, none⟩ 0 [.null, .null] =
      (⟨[halfPage "continued" [halfPageRow 1, halfPageRow 2]], 2, 2, none⟩, 0) := by
  have hone : (halfPageRows h).exceeds (halfPage "continued" [halfPageRow 1]) = false := by
    apply exceeds_halfPage
    show h.room / 2 + 0 ≤ h.room
    rw [add_zero]
    exact half_le_self (zero_le)
  have htwo : (halfPageRows h).exceeds (halfPage "continued" [halfPageRow 1, halfPageRow 2]) =
      false := by
    apply exceeds_halfPage
    show h.room / 2 + (h.room / 2 + 0) ≤ h.room
    rw [add_zero, add_halves]
  have hrow : ∀ item rowNo, rowHtml (halfPageRows h).renderBand (halfPageRows h).bands [] item
      rowNo = "<tr></tr>" := fun _ _ => rfl
  have hfirst : placeRows (halfPageRows h).browser (halfPageRows h).renderBand
      (halfPageRows h).bands [] (.detail 1) "<tr></tr>" ⟨[halfPage "continued" []], 0, 0, none⟩ 0 =
      (⟨[halfPage "continued" [halfPageRow 1]], 1, 1, none⟩, 0) := placeRows_of_fits hone
  have hsecond : placeRows (halfPageRows h).browser (halfPageRows h).renderBand
      (halfPageRows h).bands [] (.detail 2) "<tr></tr>"
      ⟨[halfPage "continued" [halfPageRow 1]], 1, 1, none⟩ 0 =
      (⟨[halfPage "continued" [halfPageRow 1, halfPageRow 2]], 2, 2, none⟩, 0) :=
    placeRows_of_fits htwo
  simp only [pass1, hrow, hfirst, hsecond]

theorem layOut_halfPageRows :
    ((halfPageRows h).layOut [] [.null, .null]).pages =
      [halfPage "total" [halfPageRow 1, halfPageRow 2]] := by
  have hnew : newPage (halfPageRows h).renderBand (halfPageRows h).bands [] ⟨[], 0, 0, none⟩ =
      ⟨[halfPage "continued" []], 0, 0, none⟩ := rfl
  simp only [Template.layOut, paginate, hnew, pass1_halfPageRows]
  rfl

/-- With a higher last footer the rows end outside their box. -/
theorem halfPageRows_exceed (hlast : h.continuation < h.last)
    (hroom : h.header + h.continuation < h.page) :
    ¬ (halfPageRows h).Fits ((halfPageRows h).layOut [] [.null, .null]) := by
  intro hfits
  have hmem : halfPage "total" [halfPageRow 1, halfPageRow 2] ∈
      ((halfPageRows h).layOut [] [.null, .null]).pages := by
    rw [layOut_halfPageRows]
    exact List.mem_singleton_self _
  have htwo : (halfPage "total" [halfPageRow 1, halfPageRow 2]).HoldsTwo :=
    ⟨1, by decide, 2, by decide, by decide⟩
  have hle := Template.exceeds_eq_false.mp (hfits _ hmem htwo)
  have htable : (halfPageRows h).tableHeight (halfPage "total" [halfPageRow 1, halfPageRow 2]) =
      h.room := by
    show 0 + (h.room / 2 + (h.room / 2 + 0)) = h.room
    rw [zero_add, add_zero, add_halves]
  have hbox : (halfPageRows h).box (halfPage "total" [halfPageRow 1, halfPageRow 2]) <
      h.room := by
    apply min_lt_of_right_lt
    show h.page - (h.header + 0 + h.last) < h.page - (h.header + h.continuation)
    have hfooter : h.header + h.continuation < h.header + h.last := add_lt_add_right hlast _
    rw [add_zero]
    rcases le_total (h.header + h.last) h.page with hle | hover
    · exact tsub_lt_tsub_left_of_le hle hfooter
    · rw [tsub_eq_zero_of_le hover]
      exact tsub_pos_of_lt hroom
  rw [htable] at hle
  exact absurd hle (not_le.mpr hbox)

/-- **When the rows stay in their boxes.** For every list of items, every height of their rows, of
the header row, of the trailing block, of the filler rows and of the summary, no page with two or
more detail rows ends with rows outside its box, exactly if the last footer is no higher than the
continuation footer or the header and the continuation footer leave no room for rows at all. -/
theorem layOut_fits_iff :
    (∀ (T : Template h) (D : Scope) (items : List Json), T.Fits (T.layOut D items)) ↔
      h.last ≤ h.continuation ∨ h.page ≤ h.header + h.continuation := by
  constructor
  · intro hfits
    by_contra hnot
    rw [not_or, not_le, not_le] at hnot
    exact halfPageRows_exceed h hnot.1 hnot.2 (hfits _ _ _)
  · intro hroom T D items
    exact T.layOut_fits D hroom items

end TwoRows

/-- A page of 1000 px, whose last footer has 100 px more than the continuation footer. -/
def higherLastFooter : BandHeights := ⟨1000, 200, 100, 200⟩

/-- Two rows of 350 px are placed in a box of 700 px, and the last footer leaves 600 px of it. -/
theorem rows_exceed_last_page :
    ¬ (halfPageRows higherLastFooter).Fits
      ((halfPageRows higherLastFooter).layOut [] [.null, .null]) :=
  halfPageRows_exceed higherLastFooter (by decide +kernel) (by decide +kernel)

end ErpApi.Report.Paginator
