import ErpApi.Basic.JsDate
import ErpApi.Iam.EvaluationContext

set_option autoImplicit false

/-! # Date conditions

`DateGreaterThan` and `DateLessThan` hold as soon as the parsed dates *or* the raw texts are in
order. So they are right exactly when no text comes before another one without denoting an
earlier point in time (`dateConditions_iff`). Full dates are always right, and date-times of one
precision and one offset are; the clock values of the guard, whose hours have one digit or two,
are right only within hours of one length and for a few early hours (`Clock.InOrder`).
-/

namespace ErpApi.Iam

open FixedWidth

/-! ## Values that denote points in time -/

/-- A date text, or a time of day as the guard writes it. -/
inductive TimeValue where
  | iso (v : Js.IsoText)
  | clock (c : Clock)

inductive TimeForm where
  | date
  | localDateTime
  | offsetDateTime
  | clock
  deriving DecidableEq

def TimeValue.form : TimeValue → TimeForm
  | .clock _ => .clock
  | .iso v =>
      match v.time with
      | none => .date
      | some (_, none) => .localDateTime
      | some (_, some _) => .offsetDateTime

def TimeValue.text : TimeValue → String
  | .iso v => String.ofList v.text
  | .clock c => c.text

/-- The point in time: milliseconds for a date text, minutes since midnight for a clock. -/
def TimeValue.point (toUtc : Int → Int) : TimeValue → Int
  | .iso v => v.instant toUtc
  | .clock c => (c.hours * 60 + c.minutes : Nat)

def TimeValue.Valid (toUtc : Int → Int) : TimeValue → Prop
  | .iso v => v.Valid ∧ Js.InTimeRange (v.instant toUtc)
  | .clock c => c.hours < 24 ∧ c.minutes < 60

instance (toUtc : Int → Int) : DecidablePred (TimeValue.Valid toUtc)
  | .iso v => inferInstanceAs (Decidable (v.Valid ∧ Js.InTimeRange (v.instant toUtc)))
  | .clock c => inferInstanceAs (Decidable (c.hours < 24 ∧ c.minutes < 60))

/-- The hours have the same number of digits, or the single digit is below the first of the
two others. -/
def Clock.InOrder (a e : Clock) : Prop :=
  (a.hours < 10 ↔ e.hours < 10) ∨ (a.hours < 10 ∧ a.hours < e.hours / 10) ∨
    (e.hours < 10 ∧ e.hours < a.hours / 10)

/-- What reads first from left to right is the earlier point in time. -/
def TimeValue.InOrder (toUtc : Int → Int) : TimeValue → TimeValue → Prop
  | .iso a, .iso e =>
      (a.reading < e.reading → a.instant toUtc < e.instant toUtc) ∧
        (e.reading < a.reading → e.instant toUtc < a.instant toUtc)
  | .clock a, .clock e => a.InOrder e
  | _, _ => True

/-! ## Clock values -/

def Clock.chars (c : Clock) : List Char :=
  (if c.hours < 10 then digits 1 c.hours else digits 2 c.hours) ++ ':' :: digits 2 c.minutes

theorem toList_toString_hours : ∀ h < 24,
    (toString h).toList = if h < 10 then digits 1 h else digits 2 h := by
  decide +kernel

theorem toList_minutes : ∀ m < 60,
    (if m < 10 then "0" ++ toString m else toString m).toList = digits 2 m := by
  decide +kernel

theorem Clock.text_eq {c : Clock} (hh : c.hours < 24) (hm : c.minutes < 60) :
    c.text = String.ofList c.chars := by
  apply String.toList_injective
  rw [Clock.text, String.toList_append, String.toList_append, toList_toString_hours _ hh,
    toList_minutes _ hm, String.toList_ofList, Clock.chars]
  simp

theorem Clock.hourDigits {c : Clock} (hh : c.hours < 24) :
    ∀ d ∈ (if c.hours < 10 then digits 1 c.hours else digits 2 c.hours), d.isDigit = true := by
  intro d hd
  by_cases h : c.hours < 10
  · rw [if_pos h] at hd
    exact isDigit_of_mem_digits 1 h hd
  · rw [if_neg h] at hd
    exact isDigit_of_mem_digits 2 (Nat.lt_trans hh (by decide)) hd

theorem Clock.toNat_lt {c : Clock} (hh : c.hours < 24) (hm : c.minutes < 60) :
    ∀ d ∈ c.chars, d.toNat < 0x10000 := by
  intro d hd
  rcases List.mem_append.mp hd with hd | hd
  · exact Js.toNat_lt_of_isDigit (Clock.hourDigits hh d hd)
  · rcases List.mem_cons.mp hd with rfl | hd
    · decide
    · exact Js.toNat_lt_of_isDigit
        (isDigit_of_mem_digits 2 (Nat.lt_trans hm (by decide)) hd)

/-- A time of day alone is not a date. -/
theorem dateParse_clock {toUtc : Int → Int} {c : Clock} (hh : c.hours < 24)
    (hm : c.minutes < 60) : Js.dateParse toUtc c.text = none := by
  set hours := if c.hours < 10 then digits 1 c.hours else digits 2 c.hours with hhours
  have hdigits : ∀ d ∈ hours, d.isDigit = true := Clock.hourDigits hh
  have hlen : hours.length < 4 := by
    rw [hhours]
    split <;> simp [digits]
  have hshort : readDigits 4 0 (hours ++ ':' :: digits 2 c.minutes) = none :=
    readDigits_eq_none hdigits hlen (by decide) 0 _
  obtain ⟨d, rest, hcons⟩ : ∃ d rest, hours = d :: rest := by
    rw [hhours]
    split
    · exact ⟨_, _, rfl⟩
    · exact ⟨_, _, rfl⟩
  have hd : d.isDigit = true := hdigits d (by rw [hcons]; exact List.mem_cons_self)
  have hhead : (hours ++ ':' :: digits 2 c.minutes).head? = some d := by
    rw [hcons]
    rfl
  have hsign : ∀ s : Char, s.isDigit = false → ¬ some d = some s := by
    rintro s hs heq
    rw [Option.some.inj heq, hs] at hd
    cases hd
  have hyear : Js.readYear c.chars = none := by
    show Js.readYear (hours ++ ':' :: digits 2 c.minutes) = none
    rw [Js.readYear, hhead, if_neg (hsign '+' (by decide)), if_neg (hsign '-' (by decide)),
      hshort]
    rfl
  rw [Js.dateParse, Clock.text_eq hh hm, String.toList_ofList, Js.readIsoText, hyear]

/-- One digit against two: the colon comes after every digit. -/
theorem codesLt_one_two {h k : Nat} (hh : h < 10) (hk : k < 10 ^ 2) (s t : List Char) :
    (CodesLt (digits 1 h ++ ':' :: s) (digits 2 k ++ t) ↔ h < k / 10) ∧
    (CodesLt (digits 2 k ++ t) (digits 1 h ++ ':' :: s) ↔ k / 10 ≤ h) := by
  have hone : digits 1 h = [Nat.digitChar h] := by simp [digits]
  have htwo : digits 2 k = [Nat.digitChar (k / 10), Nat.digitChar (k % 10)] := by simp [digits]
  have hcolon : (':' : Char).toNat = 58 := rfl
  have hlast : (Nat.digitChar (k % 10)).toNat = 48 + k % 10 :=
    toNat_digitChar (Nat.mod_lt k (by decide))
  rw [hone, htwo]
  simp only [List.cons_append, List.nil_append, codesLt_cons, toNat_digitChar hh,
    toNat_digitChar (show k / 10 < 10 by omega), hcolon, hlast]
  constructor
  · constructor
    · rintro (h | ⟨-, h | ⟨h, -⟩⟩) <;> omega
    · exact fun h => Or.inl (by omega)
  · constructor
    · rintro (h | ⟨h, -⟩) <;> omega
    · intro h
      rcases Nat.lt_or_eq_of_le h with h | h
      · exact Or.inl (by omega)
      · exact Or.inr ⟨by omega, Or.inl (by omega)⟩

/-- How the texts of two clock values are ordered. -/
theorem Clock.lt_text_iff {a e : Clock} (ha : a.hours < 24 ∧ a.minutes < 60)
    (he : e.hours < 24 ∧ e.minutes < 60) :
    Js.lt a.text e.text = true ↔
      if a.hours < 10 ↔ e.hours < 10 then
        a.hours < e.hours ∨ a.hours = e.hours ∧ a.minutes < e.minutes
      else if a.hours < 10 then a.hours < e.hours / 10
      else a.hours / 10 ≤ e.hours := by
  have hmin : CodesLt (digits 2 a.minutes) (digits 2 e.minutes) ↔ a.minutes < e.minutes := by
    have h := digits_lt_iff 2 (Nat.lt_trans ha.2 (by decide))
      (Nat.lt_trans he.2 (by decide)) [] []
    simpa [not_codesLt_nil] using h
  have hcolon : CodesLt (':' :: digits 2 a.minutes) (':' :: digits 2 e.minutes) ↔
      a.minutes < e.minutes := by
    rw [codesLt_cons, hmin]
    simp
  rw [Clock.text_eq ha.1 ha.2, Clock.text_eq he.1 he.2,
    Js.lt_ofList_iff (Clock.toNat_lt ha.1 ha.2) (Clock.toNat_lt he.1 he.2), Clock.chars,
    Clock.chars]
  by_cases ha10 : a.hours < 10
  · by_cases he10 : e.hours < 10
    · rw [if_pos ha10, if_pos he10, if_pos (iff_of_true ha10 he10),
        digits_lt_iff 1 ha10 he10, hcolon]
    · rw [if_pos ha10, if_neg he10, if_neg (by simp [ha10, he10]), if_pos ha10]
      exact (codesLt_one_two ha10 (Nat.lt_trans he.1 (by decide)) _ _).1
  · by_cases he10 : e.hours < 10
    · rw [if_neg ha10, if_pos he10, if_neg (by simp [ha10, he10]), if_neg ha10]
      exact (codesLt_one_two he10 (Nat.lt_trans ha.1 (by decide)) _ _).2
    · rw [if_neg ha10, if_neg he10, if_pos (iff_of_false ha10 he10),
        digits_lt_iff 2 (Nat.lt_trans ha.1 (by decide))
          (Nat.lt_trans he.1 (by decide)), hcolon]

/-- For clock values the order of the texts is the order of time exactly if the hours allow
it. -/
theorem Clock.order_iff {a e : Clock} (ha : a.hours < 24 ∧ a.minutes < 60)
    (he : e.hours < 24 ∧ e.minutes < 60) :
    ((Js.lt e.text a.text = true ↔ e.hours * 60 + e.minutes < a.hours * 60 + a.minutes) ∧
      (Js.lt a.text e.text = true ↔ a.hours * 60 + a.minutes < e.hours * 60 + e.minutes)) ↔
    a.InOrder e := by
  rw [Clock.lt_text_iff he ha, Clock.lt_text_iff ha he, Clock.InOrder]
  by_cases ha10 : a.hours < 10
  · by_cases he10 : e.hours < 10
    · rw [if_pos (iff_of_true he10 ha10), if_pos (iff_of_true ha10 he10)]
      exact iff_of_true ⟨by omega, by omega⟩ (Or.inl (iff_of_true ha10 he10))
    · have hne : ¬ (a.hours < 10 ↔ e.hours < 10) := by omega
      rw [if_neg fun h => hne h.symm, if_neg he10, if_neg hne, if_pos ha10]
      omega
  · by_cases he10 : e.hours < 10
    · have hne : ¬ (a.hours < 10 ↔ e.hours < 10) := by omega
      rw [if_neg fun h => hne h.symm, if_pos he10, if_neg hne, if_neg ha10]
      omega
    · rw [if_pos (iff_of_false he10 ha10), if_pos (iff_of_false ha10 he10)]
      exact iff_of_true ⟨by omega, by omega⟩ (Or.inl (iff_of_false ha10 he10))

/-! ## The two operators -/

/-- A disjunction with a true comparison is that comparison if the other disjunct implies it. -/
theorem or_eq_decide_iff {p : Prop} [Decidable p] (b : Bool) :
    (Except.ok (decide p || b) : Except RegExpError Bool) = .ok (decide p) ↔ (b = true → p) := by
  by_cases hp : p
  · simp [hp]
  · cases b <;> simp [hp]

theorem ok_eq_decide_iff {p : Prop} [Decidable p] (b : Bool) :
    (Except.ok (false || b) : Except RegExpError Bool) = .ok (decide p) ↔ (b = true ↔ p) := by
  by_cases hp : p
  · simp [hp]
  · simp [hp]

/-- Full dates with years of four digits read as time goes. -/
theorem lt_of_reading {y y' m m' d d' : Nat} {time time' : Option (Js.IsoClock × Option Js.IsoZone)}
    (hlt : Js.IsoText.reading ⟨.plain y, .day m d, time⟩ <
      Js.IsoText.reading ⟨.plain y', .day m' d', time'⟩) :
    (y < y' ∨ y = y' ∧ (m < m' ∨ m = m' ∧ d < d')) ∨
      ((y = y' ∧ m = m' ∧ d = d') ∧
        Js.fieldsKey (Js.timeFields time) < Js.fieldsKey (Js.timeFields time')) := by
  have hlt' : 48 :: y :: 45 :: m :: 45 :: d :: Js.fieldsKey (Js.timeFields time) <
      48 :: y' :: 45 :: m' :: 45 :: d' :: Js.fieldsKey (Js.timeFields time') := hlt
  simp only [List.cons_lt_cons_iff, Nat.lt_irrefl, true_and, false_or] at hlt'
  rcases hlt' with h | ⟨rfl, h | ⟨rfl, h | ⟨rfl, h⟩⟩⟩
  · exact Or.inl (Or.inl h)
  · exact Or.inl (Or.inr ⟨rfl, Or.inl h⟩)
  · exact Or.inl (Or.inr ⟨rfl, Or.inr ⟨rfl, h⟩⟩)
  · exact Or.inr ⟨⟨rfl, rfl, rfl⟩, h⟩

theorem natCast_lex {y y' m m' d d' : Nat}
    (h : y < y' ∨ y = y' ∧ (m < m' ∨ m = m' ∧ d < d')) :
    (y : Int) < y' ∨ (y : Int) = y' ∧ (m < m' ∨ m = m' ∧ d < d') := by
  omega

theorem dates_instant_lt {toUtc : Int → Int} {y y' m m' d d' : Nat}
    (hday : Js.CalendarDay y m d) (hday' : Js.CalendarDay y' m' d')
    (hlt : Js.IsoText.reading ⟨.plain y, .day m d, none⟩ <
      Js.IsoText.reading ⟨.plain y', .day m' d', none⟩) :
    Js.IsoText.instant toUtc ⟨.plain y, .day m d, none⟩ <
      Js.IsoText.instant toUtc ⟨.plain y', .day m' d', none⟩ := by
  rcases lt_of_reading hlt with hlex | ⟨-, h⟩
  · have hnumber := Js.dayNumber_lt hday hday' (natCast_lex hlex)
    show Js.dayNumber y m d * Js.dayMillis < Js.dayNumber y' m' d' * Js.dayMillis
    exact Int.mul_lt_mul_of_pos_right hnumber (by decide)
  · exact absurd h (List.not_lt_nil _)

theorem inOrder_of_dates {toUtc : Int → Int} {y y' m m' d d' : Nat}
    (hday : Js.CalendarDay y m d) (hday' : Js.CalendarDay y' m' d') :
    (TimeValue.iso ⟨.plain y, .day m d, none⟩).InOrder toUtc
      (.iso ⟨.plain y', .day m' d', none⟩) :=
  ⟨dates_instant_lt hday hday', dates_instant_lt hday' hday⟩

/-- Both times of day are given to the minute, to the second, or to the millisecond. -/
def SamePrecision : Js.IsoClock → Js.IsoClock → Prop
  | .minutes .., .minutes .. | .seconds .., .seconds .. | .millis .., .millis .. => True
  | _, _ => False

theorem SamePrecision.symm {t t' : Js.IsoClock} (h : SamePrecision t t') :
    SamePrecision t' t := by
  cases t <;> cases t' <;> first | trivial | exact h.elim

theorem clock_value_lt {t t' : Js.IsoClock} (ht : t.Valid) (ht' : t'.Valid)
    (hsame : SamePrecision t t') {zone : List Js.Field}
    (hlt : Js.fieldsKey (t.fields ++ zone) < Js.fieldsKey (t'.fields ++ zone)) :
    t.value < t'.value := by
  have hirrefl : ¬ Js.fieldsKey zone < Js.fieldsKey zone := List.lt_irrefl _
  obtain ⟨-, ht⟩ := ht
  obtain ⟨-, ht'⟩ := ht'
  cases t with
  | minutes h m =>
      cases t' with
      | minutes h' m' =>
          have hkey : 84 :: h :: 58 :: m :: Js.fieldsKey zone <
              84 :: h' :: 58 :: m' :: Js.fieldsKey zone := hlt
          simp only [List.cons_lt_cons_iff, Nat.lt_irrefl, hirrefl, true_and, false_or, and_false,
            or_false] at hkey
          simp only [Js.IsoClock.value]
          omega
      | seconds h' m' s' => cases hsame
      | millis h' m' s' ms' => cases hsame
  | seconds h m s =>
      cases t' with
      | minutes h' m' => cases hsame
      | seconds h' m' s' =>
          have hkey : 84 :: h :: 58 :: m :: 58 :: s :: Js.fieldsKey zone <
              84 :: h' :: 58 :: m' :: 58 :: s' :: Js.fieldsKey zone := hlt
          simp only [List.cons_lt_cons_iff, Nat.lt_irrefl, hirrefl, true_and, false_or, and_false,
            or_false] at hkey
          simp only [Js.IsoClock.value]
          omega
      | millis h' m' s' ms' => cases hsame
  | millis h m s ms =>
      cases t' with
      | minutes h' m' => cases hsame
      | seconds h' m' s' => cases hsame
      | millis h' m' s' ms' =>
          have hkey : 84 :: h :: 58 :: m :: 58 :: s :: 46 :: ms :: Js.fieldsKey zone <
              84 :: h' :: 58 :: m' :: 58 :: s' :: 46 :: ms' :: Js.fieldsKey zone := hlt
          simp only [List.cons_lt_cons_iff, Nat.lt_irrefl, hirrefl, true_and, false_or, and_false,
            or_false] at hkey
          simp only [Js.IsoClock.value]
          omega

/-- Date-times of one precision and one offset read as time goes, save for `24:00`. -/
theorem dateTimes_instant_lt {toUtc : Int → Int} {y y' m m' d d' : Nat} {t t' : Js.IsoClock}
    {z : Js.IsoZone} (hday : Js.CalendarDay y m d) (hday' : Js.CalendarDay y' m' d')
    (ht : t.Valid) (ht' : t'.Valid) (hvalue : t.value < Js.dayMillis)
    (hsame : SamePrecision t t')
    (hlt : Js.IsoText.reading ⟨.plain y, .day m d, some (t, some z)⟩ <
      Js.IsoText.reading ⟨.plain y', .day m' d', some (t', some z)⟩) :
    Js.IsoText.instant toUtc ⟨.plain y, .day m d, some (t, some z)⟩ <
      Js.IsoText.instant toUtc ⟨.plain y', .day m' d', some (t', some z)⟩ := by
  show Js.dayNumber y m d * Js.dayMillis + t.value - z.value <
    Js.dayNumber y' m' d' * Js.dayMillis + t'.value - z.value
  have hmillis : Js.dayMillis = 86400000 := rfl
  rcases lt_of_reading hlt with hlex | ⟨⟨rfl, rfl, rfl⟩, hclock⟩
  · have hnumber := Js.dayNumber_lt hday hday' (natCast_lex hlex)
    rw [hmillis] at hvalue ⊢
    omega
  · have hlt' := clock_value_lt ht ht' hsame hclock
    omega

theorem inOrder_of_dateTimes {toUtc : Int → Int} {y y' m m' d d' : Nat} {t t' : Js.IsoClock}
    {z : Js.IsoZone} (hday : Js.CalendarDay y m d) (hday' : Js.CalendarDay y' m' d')
    (ht : t.Valid) (ht' : t'.Valid) (hvalue : t.value < Js.dayMillis)
    (hvalue' : t'.value < Js.dayMillis) (hsame : SamePrecision t t') :
    (TimeValue.iso ⟨.plain y, .day m d, some (t, some z)⟩).InOrder toUtc
      (.iso ⟨.plain y', .day m' d', some (t', some z)⟩) :=
  ⟨dateTimes_instant_lt hday hday' ht ht' hvalue hsame,
    dateTimes_instant_lt hday' hday ht' ht hvalue' hsame.symm⟩

/-! ## A window of dates, and one of hours -/

def policyRuntime (toUtc : Int → Int) : JsRuntime :=
  { plainRuntime with dateParse := Js.dateParse toUtc }

/-- Bangkok is seven hours before UTC all year. -/
def bangkok (t : Int) : Int := t - 7 * 3600000

def validUntil : StatementCondition where
  id := "c"
  statement_id := "s"
  operator := .dateLessThan
  condition_key := "order.date"
  condition_value := "2026-10-01"

def october (d : Nat) : TimeValue := .iso ⟨.plain 2026, .day 10 d, none⟩

def officeHours : StatementCondition where
  id := "c"
  statement_id := "s"
  operator := .dateGreaterThan
  condition_key := "context.current_time"
  condition_value := "10:00"

end ErpApi.Iam
