import ErpApi.Report.DataScript

set_option autoImplicit false

/-! # The document of a banded template

`BandedRenderService.render` writes the data script and the paginator into the template. The
insertion is a `replace` whose replacement text holds data, so a `$` of the data may be read as a
pattern.
-/

namespace ErpApi.Report.Banded

open Json

structure BandedRenderService where
  /-- The text of `paginator.inline.js`. -/
  paginatorScript : String

def bodyEnd : String := "</body>"

def dataScript (params : Json) : String :=
  "<script>" ++ String.ofList (dataSource params) ++ "</script>"

def BandedRenderService.paginatorSource (service : BandedRenderService)
    (customPaginatorScript : Option String) : String :=
  match customPaginatorScript with
  | some script => if Js.trim script = "" then service.paginatorScript else script
  | none => service.paginatorScript

/-- The two scripts that a document gets. -/
def BandedRenderService.injected (service : BandedRenderService) (params : Json)
    (customPaginatorScript : Option String) : String :=
  dataScript params ++ "\n" ++
    ("<script>" ++ service.paginatorSource customPaginatorScript ++ "</script>")

def BandedRenderService.render (service : BandedRenderService) (htmlContent : String)
    (params : Json) (customPaginatorScript : Option String) : String :=
  let injected := service.injected params customPaginatorScript
  if (Js.splitAtFirst bodyEnd.toList htmlContent.toList).isSome then
    Js.replace htmlContent bodyEnd (injected ++ "\n" ++ bodyEnd)
  else htmlContent ++ "\n" ++ injected

/-- The document with the scripts before the first `</body>`, or behind it if there is none. -/
def insertScripts (htmlContent scripts : String) : String :=
  match Js.splitAtFirst bodyEnd.toList htmlContent.toList with
  | none => htmlContent ++ "\n" ++ scripts
  | some (before, rest) =>
      String.ofList before ++ (scripts ++ "\n" ++ bodyEnd) ++ String.ofList rest

/-! ## Replacement patterns -/

/-- One of the characters of which replacement patterns are made. -/
def isSign (c : Char) : Bool := [0x24, 0x26, 0x27, 0x60].contains c.toNat

def weight (text : List Char) : Nat := text.countP fun c => !isSign c

theorem weight_append (a b : List Char) : weight (a ++ b) = weight a + weight b :=
  List.countP_append

theorem weight_cons (c : Char) (text : List Char) :
    weight (c :: text) = weight text + if isSign c then 0 else 1 := by
  rw [weight, List.countP_cons, ← weight]
  cases isSign c <;> rfl

theorem weight_sign {c : Char} (h : isSign c = true) (text : List Char) :
    weight (c :: text) = weight text := by
  rw [weight_cons, if_pos h]
  rfl

/-- A text is empty or holds a character that belongs to no pattern. -/
def Ordinary (text : List Char) : Prop := text = [] ∨ 0 < weight text

/-- What a replacement text becomes: never lighter, and if it is as heavy as before, a pattern
has made it shorter. -/
structure Expands (replacement result : List Char) : Prop where
  heavier : weight replacement ≤ weight result
  short : weight result = weight replacement → result.length ≤ replacement.length
  shorter : weight result = weight replacement → Js.HasPattern replacement →
    result.length < replacement.length

/-- A pattern of two signs that stands for an ordinary text. -/
theorem Expands.pattern {c d : Char} {text replacement result : List Char}
    (hc : isSign c = true) (hd : isSign d = true) (htext : Ordinary text)
    (h : Expands replacement result) : Expands (c :: d :: replacement) (text ++ result) := by
  have hweight : weight (c :: d :: replacement) = weight replacement := by
    rw [weight_sign hc, weight_sign hd]
  have hsum := weight_append text result
  have hheavier := h.heavier
  have hshorter : weight (text ++ result) = weight (c :: d :: replacement) →
      (text ++ result).length < (c :: d :: replacement).length := by
    intro heq
    rcases htext with rfl | hpos
    · have hshort := h.short (by rw [hweight] at heq; exact heq)
      rw [List.nil_append, List.length_cons, List.length_cons]
      omega
    · omega
  exact ⟨by omega, fun heq => (hshorter heq).le, fun heq _ => hshorter heq⟩

/-- Expanding the patterns, in a text whose parts are ordinary. -/
theorem expands_getSubstitution {matched before rest : List Char} (hmatched : Ordinary matched)
    (hbefore : Ordinary before) (hrest : Ordinary rest) : ∀ replacement : List Char,
      Expands replacement (Js.getSubstitution matched before rest replacement)
  | [] => ⟨Nat.le_refl _, fun _ => Nat.le_refl _, fun _ ⟨_, _, hpart⟩ => by
      simpa using hpart.length_le⟩
  | [_] => ⟨Nat.le_refl _, fun _ => Nat.le_refl _, fun _ ⟨_, _, hpart⟩ => by
      simpa using hpart.length_le⟩
  | c :: d :: replacement => by
      have ih := expands_getSubstitution hmatched hbefore hrest replacement
      have hsign : isSign '$' = true := by decide
      by_cases hdollar : c = '$' ∧ d = '$'
      · rw [Js.getSubstitution, if_pos hdollar, hdollar.1, hdollar.2]
        have hweight := weight_sign hsign (Js.getSubstitution matched before rest replacement)
        have hold : weight ('$' :: '$' :: replacement) = weight replacement := by
          rw [weight_sign hsign, weight_sign hsign]
        have hheavier := ih.heavier
        have hshorter : weight ('$' :: Js.getSubstitution matched before rest replacement) =
            weight ('$' :: '$' :: replacement) →
            ('$' :: Js.getSubstitution matched before rest replacement).length <
              ('$' :: '$' :: replacement).length := by
          intro heq
          have hshort := ih.short (by omega)
          rw [List.length_cons, List.length_cons, List.length_cons]
          omega
        exact ⟨by omega, fun heq => (hshorter heq).le, fun heq _ => hshorter heq⟩
      rw [Js.getSubstitution, if_neg hdollar]
      by_cases hmatch : c = '$' ∧ d = '&'
      · rw [if_pos hmatch, hmatch.1, hmatch.2]
        exact ih.pattern hsign (by decide) hmatched
      rw [if_neg hmatch]
      by_cases hfront : c = '$' ∧ d.toNat = 0x60
      · rw [if_pos hfront, hfront.1]
        exact ih.pattern hsign (by rw [isSign, hfront.2]; rfl) hbefore
      rw [if_neg hfront]
      by_cases hback : c = '$' ∧ d.toNat = 0x27
      · rw [if_pos hback, hback.1]
        exact ih.pattern hsign (by rw [isSign, hback.2]; rfl) hrest
      rw [if_neg hback]
      -- the first character stands for itself
      have hnext := expands_getSubstitution hmatched hbefore hrest (d :: replacement)
      have hweight := weight_cons c (Js.getSubstitution matched before rest (d :: replacement))
      have hold := weight_cons c (d :: replacement)
      have hheavier := hnext.heavier
      refine ⟨by omega, fun heq => ?_, fun heq hpattern => ?_⟩
      · have hshort := hnext.short (by omega)
        rw [List.length_cons, List.length_cons]
        omega
      · have htail : Js.HasPattern (d :: replacement) := by
          refine (Js.hasPattern_cons.mp hpattern).resolve_left ?_
          rintro ⟨hc, hd⟩
          have hcode : d.toNat = 0x24 ∨ d.toNat = 0x26 ∨ d.toNat = 0x27 ∨ d.toNat = 0x60 := by
            simpa using hd
          rcases hcode with hd | hd | hd | hd
          · exact hdollar ⟨hc, Char.toNat_inj.mp hd⟩
          · exact hmatch ⟨hc, Char.toNat_inj.mp hd⟩
          · exact hback ⟨hc, hd⟩
          · exact hfront ⟨hc, hd⟩
        have hshorter := hnext.shorter (by omega) htail
        rw [List.length_cons, List.length_cons]
        omega

/-- A replacement text is taken as it is exactly if it holds no pattern. -/
theorem getSubstitution_eq_iff {matched before rest : List Char} (hmatched : Ordinary matched)
    (hbefore : Ordinary before) (hrest : Ordinary rest) (replacement : List Char) :
    Js.getSubstitution matched before rest replacement = replacement ↔
      ¬ Js.HasPattern replacement := by
  constructor
  · intro h hpattern
    have hshorter :=
      (expands_getSubstitution hmatched hbefore hrest replacement).shorter (by rw [h]) hpattern
    rw [h] at hshorter
    exact Nat.lt_irrefl _ hshorter
  · exact Js.getSubstitution_eq_self

/-! ## The document -/

/-- The scripts stand in the document as they are exactly if no replacement pattern is in them,
in a template that has text on both sides of its first `</body>`. -/
theorem render_eq_insertScripts_iff (service : BandedRenderService) {htmlContent : String}
    (params : Json) (customPaginatorScript : Option String) {before rest : List Char}
    (hbody : Js.splitAtFirst bodyEnd.toList htmlContent.toList = some (before, rest))
    (hbefore : Ordinary before) (hrest : Ordinary rest) :
    service.render htmlContent params customPaginatorScript =
        insertScripts htmlContent (service.injected params customPaginatorScript) ↔
      ¬ Js.HasPattern
        (service.injected params customPaginatorScript ++ "\n" ++ bodyEnd).toList := by
  have hmatched : Ordinary bodyEnd.toList := .inr (by decide)
  rw [← getSubstitution_eq_iff hmatched hbefore hrest]
  have hdocument : service.render htmlContent params customPaginatorScript =
      String.ofList (before ++ Js.getSubstitution bodyEnd.toList before rest
        (service.injected params customPaginatorScript ++ "\n" ++ bodyEnd).toList ++ rest) := by
    rw [BandedRenderService.render, hbody]
    show Js.replace htmlContent bodyEnd _ = _
    rw [Js.replace, hbody]
  have hintended : insertScripts htmlContent (service.injected params customPaginatorScript) =
      String.ofList (before ++
        (service.injected params customPaginatorScript ++ "\n" ++ bodyEnd).toList ++ rest) := by
    rw [insertScripts, hbody]
    apply String.toList_injective
    simp
  rw [hdocument, hintended]
  constructor
  · intro h
    have hlists := String.ofList_injective h
    exact List.append_cancel_left (List.append_cancel_right hlists)
  · intro h
    rw [h]

/-- A note with a price of `$$5`. -/
theorem render_note :
    (⟨"paginate();"⟩ : BandedRenderService).render "<p></p></body></html>"
        (.obj [("note", .str "$$5")]) none =
      insertScripts "<p></p></body></html>" ((⟨"paginate();"⟩ : BandedRenderService).injected
        (.obj [("note", .str "$$5")]) none) ↔
    ¬ Js.HasPattern ((⟨"paginate();"⟩ : BandedRenderService).injected
      (.obj [("note", .str "$$5")]) none ++ "\n" ++ bodyEnd).toList :=
  render_eq_insertScripts_iff ⟨"paginate();"⟩ (.obj [("note", .str "$$5")]) none
    (by decide : Js.splitAtFirst bodyEnd.toList "<p></p></body></html>".toList =
      some ("<p></p>".toList, "</html>".toList)) (.inr (by decide)) (.inr (by decide))

end ErpApi.Report.Banded
