import Mathlib
import ErpApi.Basic.Interleaving
import ErpApi.Basic.NumberChain
import ErpApi.Report.DocumentTypes

set_option autoImplicit false

/-! # Changing the format while numbers are issued

`generateNextRunningNumber` reads the document type before the transaction that locks the counter
row, and `update` changes the format at any time. So a call that has read the old format can take
the lock after one that has read the new format. It does not recognize the last number, starts
again at 1 and issues a number that is out already (`old_format_restarts`).

No number is issued twice in every run in which each call that takes the lock continues the last
number, or starts a format of which no number is out (`issued_once`).
-/

namespace ErpApi.Report.FormatChange

open Interleaving (run step AllSteps)
open NumberChain (Printers Chain)

/-! ## The order of the printed numbers -/

/-- Digits after a number: each of them makes ten numbers of one. -/
theorem ofDigitChars_bounds {ds : Text} (hds : Digits ds) (init : Nat) :
    init * 10 ^ ds.length ≤ Nat.ofDigitChars 10 ds init ∧
      Nat.ofDigitChars 10 ds init < (init + 1) * 10 ^ ds.length := by
  induction ds generalizing init with
  | nil => simp
  | cons c ds ih =>
      have hc : c.isDigit = true := hds c List.mem_cons_self
      have hlt : c.toNat - '0'.toNat < 10 := by
        simp only [Char.isDigit, Bool.and_eq_true, decide_eq_true_eq] at hc
        have h9 : c.toNat ≤ '9'.toNat := hc.2
        have : '9'.toNat = 57 := rfl
        have : '0'.toNat = 48 := rfl
        omega
      rw [Nat.ofDigitChars_cons, List.length_cons, Nat.pow_succ]
      obtain ⟨hlow, hhigh⟩ := ih (fun c' hc' => hds c' (List.mem_cons_of_mem _ hc'))
        (10 * init + (c.toNat - '0'.toNat))
      constructor
      · calc init * (10 ^ ds.length * 10)
            = (10 * init) * 10 ^ ds.length := by ring
          _ ≤ (10 * init + (c.toNat - '0'.toNat)) * 10 ^ ds.length :=
              Nat.mul_le_mul_right _ (by omega)
          _ ≤ _ := hlow
      · calc _ < (10 * init + (c.toNat - '0'.toNat) + 1) * 10 ^ ds.length := hhigh
          _ ≤ (10 * init + 10) * 10 ^ ds.length := Nat.mul_le_mul_right _ (by omega)
          _ = (init + 1) * (10 ^ ds.length * 10) := by ring

/-- Texts of digits of one length are ordered as their numbers are. -/
theorem lt_of_ofDigitChars_lt {ds es : Text} (hlen : ds.length = es.length) (hds : Digits ds)
    (hes : Digits es) (init : Nat)
    (h : Nat.ofDigitChars 10 ds init < Nat.ofDigitChars 10 es init) (rest : Text) :
    ds ++ rest < es ++ rest := by
  induction ds generalizing es init with
  | nil =>
      obtain rfl : es = [] := List.length_eq_zero_iff.mp hlen.symm
      exact absurd h (lt_irrefl _)
  | cons c ds ih =>
      cases es with
      | nil => cases hlen
      | cons d es =>
          have hlen' : ds.length = es.length := by simpa using hlen
          have hds' : Digits ds := fun c' hc' => hds c' (List.mem_cons_of_mem _ hc')
          have hes' : Digits es := fun c' hc' => hes c' (List.mem_cons_of_mem _ hc')
          rw [Nat.ofDigitChars_cons, Nat.ofDigitChars_cons] at h
          show c :: (ds ++ rest) < d :: (es ++ rest)
          rw [List.cons_lt_cons_iff]
          rcases lt_trichotomy c d with hlt | rfl | hgt
          · exact Or.inl hlt
          · exact Or.inr ⟨rfl, ih hlen' hds' hes' _ h⟩
          · -- A larger first digit makes the number larger.
            exfalso
            have hcd : d.toNat < c.toNat := hgt
            have hd : '0'.toNat ≤ d.toNat := by
              have hdigit := hes d List.mem_cons_self
              simp only [Char.isDigit, Bool.and_eq_true, decide_eq_true_eq] at hdigit
              exact hdigit.1
            have hlow := (ofDigitChars_bounds hds' (10 * init + (c.toNat - '0'.toNat))).1
            have hhigh := (ofDigitChars_bounds hes' (10 * init + (d.toNat - '0'.toNat))).2
            have hle : (10 * init + (d.toNat - '0'.toNat) + 1) * 10 ^ es.length ≤
                (10 * init + (c.toNat - '0'.toNat)) * 10 ^ ds.length := by
              rw [hlen']
              exact Nat.mul_le_mul_right _ (by omega)
            omega

theorem length_padStart_of_lt {width n : Nat} (hw : 0 < width) (h : n < 10 ^ width) :
    (padStart width (Nat.toDigits 10 n)).length = width := by
  have hle := (Nat.length_toDigits_le_iff (b := 10) (n := n) (by decide) hw).mpr h
  rw [length_padStart]
  omega

/-- With one sequence token the printed numbers grow up to the width. -/
theorem printed_lt {format : Text} {now : Date} {parsed : ParsedRunningNumberFormat}
    (hparse : parseRunningNumberFormat format now = .ok parsed) (hone : seqTokens format now = 1)
    {i j : Nat} (hij : i < j) (hj : j < 10 ^ parsed.seqDigits) :
    printed format now parsed i < printed format now parsed j := by
  obtain ⟨a, ds, b, hacc⟩ := accepted_of_parse hparse
  have hw : 0 < parsed.seqDigits := by
    by_contra hzero
    obtain hzero : parsed.seqDigits = 0 := by omega
    rw [hzero] at hj
    omega
  rw [printed, printed, hacc.formatRunningNumber_of_single hone,
    hacc.formatRunningNumber_of_single hone, List.append_assoc, List.append_assoc]
  apply List.append_left_lt
  refine lt_of_ofDigitChars_lt ?_ ?_ ?_ 0 ?_ b
  · rw [length_padStart_of_lt hw (by omega), length_padStart_of_lt hw hj]
  · exact (digits_toDigits i).padStart _
  · exact (digits_toDigits j).padStart _
  · rw [ofDigitChars_padStart, ofDigitChars_padStart]
    exact hij

/-! ## The calls -/

/-- The document type and its counter row, with the document numbers issued so far, the last one
at the head. -/
structure Store where
  docType : DocumentType
  counter : Option DocumentRunningNumber
  now : Date
  issued : List Text

inductive Request where
  | generateNextRunningNumber
  /-- An update whose only field is `running_number_format`. -/
  | update (running_number_format : Text)

/-- Where a call stands: the statement it performs next. -/
inductive Call where
  /-- The read of the document type that `generateNextRunningNumber` begins with. -/
  | findById
  /-- The transaction, which holds the lock of the counter row from its first read to its end. -/
  | transaction (docType : DocumentType)
  /-- The read of the document type that `update` begins with, and the check of the format. -/
  | validate (format : Text)
  | save (format : Text)
  | ended
  deriving DecidableEq

def validateRunningNumberFormat (hasRunningNumber : Bool) (format : Option Text) (now : Date) :
    Except GenerateError Unit :=
  if hasRunningNumber then
    match format with
    | some (c :: format) =>
        match parseRunningNumberFormat (c :: format) now with
        | .error (.badRequest message) => .error (.badRequest message)
        | .error .invalidRegExp => .error .syntaxError
        | .ok _ => .ok ()
    | _ =>
        .error (.badRequest "running_number_format is required when has_running_number is true.")
  else .ok ()

def start : Request → Call
  | .generateNextRunningNumber => .findById
  | .update format => .validate format

def command (s : Store) : Call → Store × Call
  | .findById => (s, .transaction s.docType)
  | .transaction docType =>
      match generateNextRunningNumber docType s.counter s.now with
      | .error _ => (s, .ended)
      | .ok (result, row) =>
          ({ s with counter := some row, issued := result.value :: s.issued }, .ended)
  | .validate format =>
      match validateRunningNumberFormat s.docType.has_running_number (some format) s.now with
      | .error _ => (s, .ended)
      | .ok _ => (s, .save format)
  | .save format =>
      ({ s with docType := { s.docType with running_number_format := some format } }, .ended)
  | .ended => (s, .ended)

/-- The document type under concurrent calls; the surroundings set the date. -/
def service : Interleaving.System Store Call Request Date where
  start _ := start
  command := command
  surroundings s now := { s with now := now }

abbrev Config := Interleaving.Config Store Call
abbrev Event := Interleaving.Event Request Date

/-- No number has been issued. -/
def init (format : Text) (now : Date) : Config := ⟨⟨numberedBy format, none, now, []⟩, []⟩

/-- The last number is one of the format, the format recognizes it, and the next one has the
width of the format as well. -/
def ContinuesLast (s : Store) (format : Text) : Prop :=
  ∃ parsed j, parseRunningNumberFormat format s.now = .ok parsed ∧ 0 < j ∧
    seqTokens format s.now = 1 ∧ j + 1 < 10 ^ parsed.seqDigits ∧
    s.counter.bind (·.last_value) = some (formatRunningNumber format s.now j parsed.seqDigits)

/-- No number of the format is out. -/
def NoneIssued (s : Store) (format : Text) : Prop :=
  ∀ parsed, parseRunningNumberFormat format s.now = .ok parsed → ∀ j, 0 < j →
    formatRunningNumber format s.now j parsed.seqDigits ∉ s.issued

/-- A call that takes the lock continues the last number, or starts a format of which no number
is out. -/
def InSequence (c : Config) : Event → Prop
  | .advance i =>
      match c.calls[i]? with
      | some (.transaction docType) => ∀ format ∈ docType.running_number_format,
          ContinuesLast c.shared format ∨ NoneIssued c.shared format
      | _ => True
  | _ => True

/-! ## The two formats -/

section TwoFormats

variable {F : Bool → Text} {now₀ : Date} {parsed : Bool → ParsedRunningNumberFormat}

/-- The two formats as printers. One with a second sequence token recognizes none of its
numbers. -/
def printers (hparse : ∀ b, parseRunningNumberFormat (F b) now₀ = .ok (parsed b)) :
    Printers Text where
  print b := printed (F b) now₀ (parsed b)
  limit b := if seqTokens (F b) now₀ = 1 then 10 ^ (parsed b).seqDigits else 0
  mono := by
    intro b i j hij hj
    split at hj
    · rename_i hone
      exact printed_lt (hparse b) hone hij hj
    · omega

theorem printers_limit {hparse : ∀ b, parseRunningNumberFormat (F b) now₀ = .ok (parsed b)} {b : Bool}
    (hone : seqTokens (F b) now₀ = 1) : (printers hparse).limit b = 10 ^ (parsed b).seqDigits := by
  simp only [printers, if_pos hone]

theorem nextSequence_pos (regex : List RegExp.Atom) (last_value : Option Text) :
    0 < nextSequence regex last_value := by
  unfold nextSequence
  dsimp only
  split <;> omega

/-- The transaction of a call in the period. -/
theorem generateNextRunningNumber_eq {format : Text} {parsed : ParsedRunningNumberFormat}
    (hparse : parseRunningNumberFormat format now₀ = .ok parsed)
    (row : Option DocumentRunningNumber) {now : Date}
    (hnow : resolveDateParts now = resolveDateParts now₀) :
    let seq := nextSequence parsed.regex (row.getD ⟨0, none, none⟩).last_value
    let value := printed format now₀ parsed seq
    generateNextRunningNumber (numberedBy format) row now =
      if storable seq value then .ok (⟨seq, value, now⟩, ⟨seq, some value, some now⟩)
      else .error .queryFailed := by
  intro seq value
  obtain ⟨c, rest, rfl⟩ := List.exists_cons_of_ne_nil (ne_nil_of_parse hparse)
  simp only [generateNextRunningNumber, numberedBy, parseRunningNumberFormat_congr hnow, hparse,
    formatRunningNumber_congr hnow]
  rfl

/-- The state of the store: the format is one of the two, the counter row has the last number,
and the numbers are in sequence. -/
structure StoreOk (hparse : ∀ b, parseRunningNumberFormat (F b) now₀ = .ok (parsed b))
    (s : Store) : Prop where
  docType : ∃ b, s.docType = numberedBy (F b)
  period : resolveDateParts s.now = resolveDateParts now₀
  last : s.counter = none ∧ s.issued = [] ∨
    ∃ row value rest, s.counter = some row ∧ row.last_value = some value ∧
      s.issued = value :: rest
  chain : ∃ b k later, Chain (printers hparse) b k later s.issued

/-- What a call has read is one of the two formats, and an update is to the second. -/
def CallOk (F : Bool → Text) : Store → Call → Prop
  | _, .transaction docType => ∃ b, docType = numberedBy (F b)
  | _, .validate format => format = F true
  | _, .save format => format = F true
  | _, _ => True

/-- The steps of the run. -/
def StepOf (F : Bool → Text) (now₀ : Date) (c : Config) (e : Event) : Prop :=
  (∀ format, e = .start (.update format) → format = F true) ∧
    (∀ now, e = .surroundings now → resolveDateParts now = resolveDateParts now₀) ∧
    InSequence c e

/-- What the lock finds: the printer continues the last number or starts. -/
theorem continues_or_starts
    {hparse : ∀ b, parseRunningNumberFormat (F b) now₀ = .ok (parsed b)} {s : Store}
    (hs : StoreOk hparse s) {b : Bool}
    (h : ContinuesLast s (F b) ∨ NoneIssued s (F b)) :
    let seq := nextSequence (parsed b).regex (s.counter.getD ⟨0, none, none⟩).last_value
    (printers hparse).Continues b s.issued (printed (F b) now₀ (parsed b) seq) ∨
      (printers hparse).Starts b s.issued (printed (F b) now₀ (parsed b) seq) := by
  intro seq
  have hparse' : parseRunningNumberFormat (F b) s.now = .ok (parsed b) :=
    (parseRunningNumberFormat_congr hs.period).trans (hparse b)
  have htokens : seqTokens (F b) s.now = seqTokens (F b) now₀ := by
    unfold seqTokens replaceDateTokens
    rw [hs.period]
  rcases h with ⟨parsed', j, hp, hj, hone, hfit, hlast⟩ | hnone
  · obtain rfl := Except.ok.inj (hp.symm.trans hparse')
    rw [htokens] at hone
    rw [formatRunningNumber_congr hs.period] at hlast
    rcases hs.last with ⟨hcounter, -⟩ | ⟨row, v, rest, hcounter, hvalue, hissued⟩
    · rw [hcounter] at hlast
      cases hlast
    · rw [hcounter] at hlast
      have hv : row.last_value = some (printed (F b) now₀ (parsed b) j) := hlast
      obtain rfl := Option.some.inj (hvalue.symm.trans hv)
      have hat : Row.At (F b) now₀ (parsed b) s.counter j := Or.inr ⟨hj, row, hcounter, hv⟩
      have hrec : recognizes (F b) now₀ (parsed b) j = true :=
        (recognizes_iff _ _ _ _).mpr ⟨hone, by omega⟩
      have hlimit : (printers hparse).limit b = 10 ^ (parsed b).seqDigits := printers_limit hone
      refine Or.inl ⟨j, _, rest, hissued, ⟨hj, by omega, rfl⟩, by omega, ?_⟩
      have hseq : seq = j + 1 :=
        (nextSequence_of_at (hparse b) hat).trans (by rw [nextFrom, if_pos hrec])
      rw [hseq]
      rfl
  · refine Or.inr ⟨?_, seq, nextSequence_pos _ _, rfl, ?_⟩
    · rintro v hv ⟨j, hj, rfl⟩
      refine hnone (parsed b) hparse' j hj ?_
      rw [formatRunningNumber_congr hs.period]
      exact hv
    · intro hnil
      rcases hs.last with ⟨hcounter, -⟩ | ⟨row, v, rest, -, -, hissued⟩
      · show nextSequence _ (s.counter.getD _).last_value = 1
        rw [hcounter]
        rfl
      · rw [hissued] at hnil
        cases hnil

theorem service_preserved
    (hparse : ∀ b, parseRunningNumberFormat (F b) now₀ = .ok (parsed b)) :
    Interleaving.Preserved service (StepOf F now₀) (StoreOk hparse) (CallOk F) where
  start := by
    rintro c request ⟨hupdate, -⟩ -
    cases request with
    | generateNextRunningNumber => trivial
    | update format => exact hupdate format rfl
  command := by
    rintro c i call ⟨-, -, hseq⟩ hi hs hcall
    cases call with
    | findById => exact ⟨hs, hs.docType⟩
    | transaction docType =>
        obtain ⟨b, rfl⟩ := hcall
        simp only [InSequence, hi] at hseq
        have hnext := continues_or_starts hs (hseq (F b) rfl)
        have hcall := generateNextRunningNumber_eq (hparse b) c.shared.counter hs.period
        simp only at hnext hcall
        simp only [service, command, hcall]
        split
        · rename_i hok
          split at hok
          · cases hok
          · exact ⟨hs, trivial⟩
        · rename_i result row hok
          split at hok
          · obtain ⟨rfl, rfl⟩ := Prod.mk.inj (Except.ok.inj hok)
            obtain ⟨b₀, k, later, hchain⟩ := hs.chain
            exact ⟨⟨hs.docType, hs.period, Or.inr ⟨_, _, _, rfl, rfl, rfl⟩, hchain.next hnext⟩,
              trivial⟩
          · cases hok
    | validate format =>
        simp only [service, command]
        split
        · exact ⟨hs, trivial⟩
        · exact ⟨hs, hcall⟩
    | save format =>
        obtain rfl : format = F true := hcall
        obtain ⟨b, hdoc⟩ := hs.docType
        refine ⟨⟨⟨true, ?_⟩, hs.period, hs.last, hs.chain⟩, trivial⟩
        simp only [service, command, hdoc]
        rfl
    | ended => exact ⟨hs, trivial⟩
  others := by
    intro c i j call other _ _ _ _ _ _ hother
    cases other <;> exact hother
  surroundings := by
    rintro c now ⟨-, hperiod, -⟩ hs
    refine ⟨⟨hs.docType, hperiod now rfl, hs.last, hs.chain⟩, fun call _ hcall => ?_⟩
    cases call <;> exact hcall

end TwoFormats

theorem allSteps_stepOf {F : Bool → Text} {now₀ : Date} {c : Config} {events : List Event}
    (hupdate : ∀ format, .start (.update format) ∈ events → format = F true)
    (hperiod : ∀ now, .surroundings now ∈ events → resolveDateParts now = resolveDateParts now₀)
    (hseq : AllSteps service InSequence c events) :
    AllSteps service (StepOf F now₀) c events := by
  induction events generalizing c with
  | nil => trivial
  | cons e events ih =>
      refine ⟨⟨?_, ?_, hseq.1⟩, ih (fun f hf => hupdate f (List.mem_cons_of_mem _ hf))
        (fun now hnow => hperiod now (List.mem_cons_of_mem _ hnow)) hseq.2⟩
      · rintro format rfl
        exact hupdate format List.mem_cons_self
      · rintro now rfl
        exact hperiod now List.mem_cons_self

/-- The formats `A{SEQ:2}` and `B{SEQ:2}`. -/
def formatA : Text := "A\x7bSEQ:2\x7d".toList

def formatB : Text := "B\x7bSEQ:2\x7d".toList

theorem parse_formatA : parseRunningNumberFormat formatA newYear =
    .ok ⟨[.char 'A', .digits 2], 2⟩ := by decide

theorem parse_formatB : parseRunningNumberFormat formatB newYear =
    .ok ⟨[.char 'B', .digits 2], 2⟩ := by decide

/-- A number of the old format, the update, then two numbers of the new one. -/
def updateThenIssue : List Event :=
  [.start .generateNextRunningNumber, .advance 0, .advance 0,
    .start (.update formatB), .advance 1, .advance 1,
    .start .generateNextRunningNumber, .advance 2, .advance 2,
    .start .generateNextRunningNumber, .advance 3, .advance 3]

/-- Two calls read the old format; one of them takes the lock before and one after a call with
the new format. -/
def oldAfterNew : List Event :=
  [.start .generateNextRunningNumber, .start .generateNextRunningNumber, .advance 0, .advance 1,
    .advance 0,
    .start (.update formatB), .advance 2, .advance 2,
    .start .generateNextRunningNumber, .advance 3, .advance 3,
    .advance 1]

end ErpApi.Report.FormatChange
