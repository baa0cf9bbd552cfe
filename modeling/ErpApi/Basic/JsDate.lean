import ErpApi.Basic.FixedWidth
import ErpApi.Basic.JsString

set_option autoImplicit false

/-! # Date texts of the source language

`Js.dateParse` reads the date-time format of ECMAScript: a year of four digits, or a sign and
six digits; a month and a day, which may be missing; a time of day with an optional number of
seconds and milliseconds; and a zone. Dates alone are in UTC, a time without zone is local.
For any other text it gives `NaN`, as engines do for the texts of a clock.

A date text after its year is a list of fields, a separator and a number of a fixed width each.
So texts are read field by field (`readFields_fieldsText`), and code units order them field by
field as well (`codesLt_fieldsText_iff`).
-/

namespace ErpApi.Js

open FixedWidth

/-! ## The parts of a date text -/

inductive IsoYear where
  | plain (n : Nat)
  | expanded (negative : Bool) (n : Nat)
  deriving DecidableEq

inductive IsoDate where
  | year
  | month (m : Nat)
  | day (m d : Nat)
  deriving DecidableEq

inductive IsoClock where
  | minutes (h m : Nat)
  | seconds (h m s : Nat)
  | millis (h m s ms : Nat)
  deriving DecidableEq

/-- `Z` or an offset from UTC in hours and minutes. -/
inductive IsoZone where
  | utc
  | offset (negative : Bool) (h m : Nat)
  deriving DecidableEq

structure IsoText where
  year : IsoYear
  date : IsoDate
  time : Option (IsoClock × Option IsoZone)
  deriving DecidableEq

/-! ## Fields -/

/-- A separator and a number. -/
abbrev Field := Char × Nat

def fieldWidth (separator : Char) : Nat :=
  if separator = '.' then 3 else if separator = 'Z' then 0 else 2

def fieldsText (fields : List Field) : List Char :=
  fields.flatMap fun f => f.1 :: digits (fieldWidth f.1) f.2

/-- The fields of a text; `fuel` bounds the recursion. -/
def readFields : Nat → List Char → Option (List Field)
  | _, [] => some []
  | 0, _ :: _ => none
  | fuel + 1, separator :: text =>
      match readDigits (fieldWidth separator) 0 text with
      | none => none
      | some (n, rest) => (readFields fuel rest).map ((separator, n) :: ·)

/-- What the fields say, for a comparison field by field. -/
def fieldsKey (fields : List Field) : List Nat :=
  fields.flatMap fun f => [f.1.toNat, f.2]

/-- Every number fits its width; the separators are characters of one code unit. -/
def FieldsFit (fields : List Field) : Prop :=
  ∀ f ∈ fields, f.2 < 10 ^ fieldWidth f.1 ∧ f.1.toNat < 0x10000

theorem FieldsFit.tail {f : Field} {fields : List Field} (h : FieldsFit (f :: fields)) :
    FieldsFit fields := fun g hg => h g (List.mem_cons_of_mem f hg)

theorem readFields_fieldsText {fields : List Field} (hfit : FieldsFit fields) {fuel : Nat}
    (hfuel : fields.length ≤ fuel) : readFields fuel (fieldsText fields) = some fields := by
  induction fields generalizing fuel with
  | nil => cases fuel <;> rfl
  | cons f fields ih =>
      cases fuel with
      | zero => cases hfuel
      | succ fuel =>
          have hread := readDigits_digits _ (hfit f List.mem_cons_self).1 0 (fieldsText fields)
          show readFields (fuel + 1)
            (f.1 :: (digits (fieldWidth f.1) f.2 ++ fieldsText fields)) = _
          rw [readFields, hread]
          show (readFields fuel (fieldsText fields)).map _ = _
          rw [ih hfit.tail (Nat.le_of_succ_le_succ hfuel), Nat.zero_mul, Nat.zero_add]
          rfl

theorem length_le_length_fieldsText (fields : List Field) :
    fields.length ≤ (fieldsText fields).length := by
  induction fields with
  | nil => exact Nat.le_refl _
  | cons f fields ih =>
      simp only [fieldsText, List.flatMap_cons, List.cons_append, List.length_cons,
        List.length_append] at ih ⊢
      omega

/-- **Code units order date texts field by field.** A missing field comes first. -/
theorem codesLt_fieldsText_iff {fs gs : List Field} (hfs : FieldsFit fs) (hgs : FieldsFit gs) :
    CodesLt (fieldsText fs) (fieldsText gs) ↔ fieldsKey fs < fieldsKey gs := by
  induction fs generalizing gs with
  | nil =>
      cases gs with
      | nil => exact iff_of_false (not_codesLt_nil _) (List.not_lt_nil _)
      | cons g gs => exact iff_of_true (nil_codesLt_cons _ _) (List.nil_lt_cons _ _)
  | cons f fs ih =>
      cases gs with
      | nil => exact iff_of_false (not_codesLt_nil _) (List.not_lt_nil _)
      | cons g gs =>
          show CodesLt (f.1 :: (digits (fieldWidth f.1) f.2 ++ fieldsText fs))
              (g.1 :: (digits (fieldWidth g.1) g.2 ++ fieldsText gs)) ↔
            f.1.toNat :: f.2 :: fieldsKey fs < g.1.toNat :: g.2 :: fieldsKey gs
          rw [codesLt_cons, List.cons_lt_cons_iff, List.cons_lt_cons_iff]
          refine or_congr_right (and_congr_right fun hsep => ?_)
          have hf := (hfs f List.mem_cons_self).1
          have hg := (hgs g List.mem_cons_self).1
          rw [← Char.toNat_inj.mp hsep] at hg ⊢
          rw [digits_lt_iff _ hf hg, ih hfs.tail hgs.tail]

/-! ## Texts -/

def sign (negative : Bool) : Char := if negative then '-' else '+'

def IsoYear.text : IsoYear → List Char
  | .plain n => digits 4 n
  | .expanded negative n => sign negative :: digits 6 n

def IsoYear.value : IsoYear → Int
  | .plain n => n
  | .expanded negative n => if negative then -n else n

/-- The year minus zero is not written. -/
def IsoYear.Valid : IsoYear → Prop
  | .plain n => n < 10 ^ 4
  | .expanded negative n => n < 10 ^ 6 ∧ (negative = true → n ≠ 0)

def IsoDate.fields : IsoDate → List Field
  | .year => []
  | .month m => [('-', m)]
  | .day m d => [('-', m), ('-', d)]

def IsoDate.Valid : IsoDate → Prop
  | .year => True
  | .month m => 1 ≤ m ∧ m ≤ 12
  | .day m d => (1 ≤ m ∧ m ≤ 12) ∧ 1 ≤ d ∧ d ≤ 31

def IsoClock.fields : IsoClock → List Field
  | .minutes h m => [('T', h), (':', m)]
  | .seconds h m s => [('T', h), (':', m), (':', s)]
  | .millis h m s ms => [('T', h), (':', m), (':', s), ('.', ms)]

/-- The time since midnight in milliseconds. -/
def IsoClock.value : IsoClock → Nat
  | .minutes h m => (h * 60 + m) * 60000
  | .seconds h m s => (h * 60 + m) * 60000 + s * 1000
  | .millis h m s ms => (h * 60 + m) * 60000 + s * 1000 + ms

def dayMillis : Nat := 86400000

/-- Midnight at the end of a day is written `24:00`. -/
def IsoClock.Valid (t : IsoClock) : Prop :=
  t.value ≤ dayMillis ∧ match t with
    | .minutes _ m => m < 60
    | .seconds _ m s => m < 60 ∧ s < 60
    | .millis _ m s ms => m < 60 ∧ s < 60 ∧ ms < 1000

def IsoZone.fields : IsoZone → List Field
  | .utc => [('Z', 0)]
  | .offset negative h m => [(sign negative, h), (':', m)]

/-- What is added to UTC, in milliseconds. -/
def IsoZone.value : IsoZone → Int
  | .utc => 0
  | .offset negative h m => if negative then -((h * 60 + m) * 60000) else (h * 60 + m) * 60000

def IsoZone.Valid : IsoZone → Prop
  | .utc => True
  | .offset _ h m => h < 24 ∧ m < 60

def timeFields : Option (IsoClock × Option IsoZone) → List Field
  | none => []
  | some (t, none) => t.fields
  | some (t, some z) => t.fields ++ z.fields

def IsoText.fields (v : IsoText) : List Field := v.date.fields ++ timeFields v.time

def IsoText.text (v : IsoText) : List Char := v.year.text ++ fieldsText v.fields

def TimeValid : Option (IsoClock × Option IsoZone) → Prop
  | none => True
  | some (t, none) => t.Valid
  | some (t, some z) => t.Valid ∧ z.Valid

def IsoText.Valid (v : IsoText) : Prop := v.year.Valid ∧ v.date.Valid ∧ TimeValid v.time

instance : DecidablePred IsoYear.Valid
  | .plain n => inferInstanceAs (Decidable (n < 10 ^ 4))
  | .expanded negative n => inferInstanceAs (Decidable (n < 10 ^ 6 ∧ (negative = true → n ≠ 0)))

instance : DecidablePred IsoDate.Valid
  | .year => inferInstanceAs (Decidable True)
  | .month m => inferInstanceAs (Decidable (1 ≤ m ∧ m ≤ 12))
  | .day m d => inferInstanceAs (Decidable ((1 ≤ m ∧ m ≤ 12) ∧ 1 ≤ d ∧ d ≤ 31))

instance : DecidablePred IsoClock.Valid
  | .minutes h m => inferInstanceAs (Decidable ((h * 60 + m) * 60000 ≤ dayMillis ∧ m < 60))
  | .seconds h m s => inferInstanceAs
      (Decidable ((h * 60 + m) * 60000 + s * 1000 ≤ dayMillis ∧ m < 60 ∧ s < 60))
  | .millis h m s ms => inferInstanceAs
      (Decidable ((h * 60 + m) * 60000 + s * 1000 + ms ≤ dayMillis ∧
        m < 60 ∧ s < 60 ∧ ms < 1000))

instance : DecidablePred IsoZone.Valid
  | .utc => inferInstanceAs (Decidable True)
  | .offset _ h m => inferInstanceAs (Decidable (h < 24 ∧ m < 60))

instance : DecidablePred TimeValid
  | none => inferInstanceAs (Decidable True)
  | some (t, none) => inferInstanceAs (Decidable t.Valid)
  | some (t, some z) => inferInstanceAs (Decidable (t.Valid ∧ z.Valid))

instance (v : IsoText) : Decidable v.Valid :=
  inferInstanceAs (Decidable (v.year.Valid ∧ v.date.Valid ∧ TimeValid v.time))

/-! ## Points in time -/

def isLeapYear (y : Int) : Bool := y % 4 = 0 && (y % 100 ≠ 0 || y % 400 = 0)

/-- The day number of the first day of a year; day 0 is the first of January 1970. -/
def dayFromYear (y : Int) : Int :=
  365 * (y - 1970) + (y - 1969) / 4 - (y - 1901) / 100 + (y - 1601) / 400

/-- The number of days before a month of a year that is not a leap year. -/
def daysBeforeMonth : Nat → Nat
  | 0 | 1 => 0
  | 2 => 31
  | 3 => 59
  | 4 => 90
  | 5 => 120
  | 6 => 151
  | 7 => 181
  | 8 => 212
  | 9 => 243
  | 10 => 273
  | 11 => 304
  | _ => 334

def dayNumber (y : Int) (m d : Nat) : Int :=
  dayFromYear y + daysBeforeMonth m + (if isLeapYear y && 2 < m then 1 else 0) + d - 1

def IsoText.days (v : IsoText) : Int :=
  match v.date with
  | .year => dayNumber v.year.value 1 1
  | .month m => dayNumber v.year.value m 1
  | .day m d => dayNumber v.year.value m d

/-- The point in time, in milliseconds; `toUtc` takes the reading of the local clock to UTC. -/
def IsoText.instant (toUtc : Int → Int) (v : IsoText) : Int :=
  match v.time with
  | none => v.days * dayMillis
  | some (t, none) => toUtc (v.days * dayMillis + t.value)
  | some (t, some z) => v.days * dayMillis + t.value - z.value

/-- Points in time reach `8.64e15` milliseconds to both sides. -/
def InTimeRange (t : Int) : Prop := t.natAbs ≤ 8640000000000000

instance (t : Int) : Decidable (InTimeRange t) :=
  inferInstanceAs (Decidable (t.natAbs ≤ 8640000000000000))

/-! ## Reading a text -/

def readYear (text : List Char) : Option (IsoYear × List Char) :=
  if text.head? = some '+' then
    (readDigits 6 0 text.tail).map fun r => (.expanded false r.1, r.2)
  else if text.head? = some '-' then
    (readDigits 6 0 text.tail).map fun r => (.expanded true r.1, r.2)
  else (readDigits 4 0 text).map fun r => (.plain r.1, r.2)

def readDate : List Field → IsoDate × List Field
  | ('-', m) :: ('-', d) :: rest => (.day m d, rest)
  | ('-', m) :: rest => (.month m, rest)
  | rest => (.year, rest)

def readClock : List Field → Option (IsoClock × List Field)
  | ('T', h) :: (':', m) :: (':', s) :: ('.', ms) :: rest => some (.millis h m s ms, rest)
  | ('T', h) :: (':', m) :: (':', s) :: rest => some (.seconds h m s, rest)
  | ('T', h) :: (':', m) :: rest => some (.minutes h m, rest)
  | _ => none

def readZone : List Field → Option (Option IsoZone)
  | [] => some none
  | [('Z', _)] => some (some .utc)
  | [('+', h), (':', m)] => some (some (.offset false h m))
  | [('-', h), (':', m)] => some (some (.offset true h m))
  | _ => none

def readTime (fields : List Field) : Option (Option (IsoClock × Option IsoZone)) :=
  if fields = [] then some none
  else
    match readClock fields with
    | none => none
    | some (t, rest) => (readZone rest).map fun z => some (t, z)

def readIsoText (text : List Char) : Option IsoText :=
  match readYear text with
  | none => none
  | some (year, rest) =>
      match readFields rest.length rest with
      | none => none
      | some fields =>
          (readTime (readDate fields).2).map fun time => ⟨year, (readDate fields).1, time⟩

/-- The call `Date.parse(text)`, with `none` for `NaN`. -/
def dateParse (toUtc : Int → Int) (text : String) : Option Int :=
  match readIsoText text.toList with
  | none => none
  | some v =>
      if v.Valid ∧ InTimeRange (v.instant toUtc) then some (v.instant toUtc) else none

theorem readYear_text {y : IsoYear} (hy : y.Valid) (rest : List Char) :
    readYear (y.text ++ rest) = some (y, rest) := by
  cases y with
  | plain n =>
      have hread := readDigits_digits 4 hy 0 rest
      have hdigit : (Nat.digitChar (n / 10 ^ 3)).isDigit = true :=
        isDigit_digitChar (leading_lt hy)
      have hhead : (IsoYear.text (.plain n) ++ rest).head? = some (Nat.digitChar (n / 10 ^ 3)) :=
        rfl
      have hplus : ¬ some (Nat.digitChar (n / 10 ^ 3)) = some '+' := by
        intro h
        rw [Option.some.inj h] at hdigit
        exact absurd hdigit (by decide)
      have hminus : ¬ some (Nat.digitChar (n / 10 ^ 3)) = some '-' := by
        intro h
        rw [Option.some.inj h] at hdigit
        exact absurd hdigit (by decide)
      rw [readYear, hhead, if_neg hplus, if_neg hminus, IsoYear.text, hread]
      simp
  | expanded negative n =>
      have hread := readDigits_digits 6 hy.1 0 rest
      cases negative with
      | false =>
          show (readDigits 6 0 (digits 6 n ++ rest)).map _ = _
          rw [hread]
          simp
      | true =>
          show (readDigits 6 0 (digits 6 n ++ rest)).map _ = _
          rw [hread]
          simp

theorem readDate_fields (d : IsoDate) (time : Option (IsoClock × Option IsoZone)) :
    readDate (d.fields ++ timeFields time) = (d, timeFields time) := by
  cases d with
  | day m d => rfl
  | month m =>
      rcases time with - | ⟨t, - | z⟩
      · rfl
      · cases t <;> rfl
      · cases t <;> rfl
  | year =>
      rcases time with - | ⟨t, - | z⟩
      · rfl
      · cases t <;> rfl
      · cases t <;> rfl

theorem readZone_fields (z : IsoZone) : readZone z.fields = some (some z) := by
  rcases z with - | ⟨- | -, h, m⟩ <;> rfl

theorem readTime_fields (time : Option (IsoClock × Option IsoZone)) :
    readTime (timeFields time) = some time := by
  rcases time with - | ⟨t, - | z⟩
  · rfl
  · cases t <;> rfl
  · have hclock : readClock (t.fields ++ z.fields) = some (t, z.fields) := by
      rcases z with - | ⟨- | -, h, m⟩ <;> cases t <;> rfl
    have hne : ¬ t.fields ++ z.fields = [] := by cases t <;> simp [IsoClock.fields]
    rw [timeFields, readTime, if_neg hne, hclock]
    show (readZone z.fields).map _ = _
    rw [readZone_fields]
    rfl

theorem FieldsFit.append {fs gs : List Field} (hfs : FieldsFit fs) (hgs : FieldsFit gs) :
    FieldsFit (fs ++ gs) := by
  intro f hf
  rcases List.mem_append.mp hf with h | h
  · exact hfs f h
  · exact hgs f h

theorem IsoDate.Valid.fieldsFit {d : IsoDate} (h : d.Valid) : FieldsFit d.fields := by
  cases d with
  | year => exact fun f hf => absurd hf List.not_mem_nil
  | month m =>
      have hm : m < 10 ^ 2 := Nat.lt_of_le_of_lt h.2 (by decide)
      simpa [FieldsFit, IsoDate.fields, fieldWidth] using hm
  | day m d =>
      have hm : m < 10 ^ 2 := Nat.lt_of_le_of_lt h.1.2 (by decide)
      have hd : d < 10 ^ 2 := Nat.lt_of_le_of_lt h.2.2 (by decide)
      simpa [FieldsFit, IsoDate.fields, fieldWidth] using ⟨hm, hd⟩

theorem IsoClock.Valid.fieldsFit {t : IsoClock} (h : t.Valid) : FieldsFit t.fields := by
  obtain ⟨hvalue, h⟩ := h
  cases t with
  | minutes hh m =>
      simp only [IsoClock.value, dayMillis] at hvalue
      have : hh < 100 ∧ m < 100 := by omega
      simpa [FieldsFit, IsoClock.fields, fieldWidth] using this
  | seconds hh m sec =>
      simp only [IsoClock.value, dayMillis] at hvalue
      have : hh < 100 ∧ m < 100 ∧ sec < 100 := by omega
      simpa [FieldsFit, IsoClock.fields, fieldWidth] using this
  | millis hh m sec ms =>
      simp only [IsoClock.value, dayMillis] at hvalue
      have : hh < 100 ∧ m < 100 ∧ sec < 100 ∧ ms < 1000 := by omega
      simpa [FieldsFit, IsoClock.fields, fieldWidth] using this

theorem IsoZone.Valid.fieldsFit {z : IsoZone} (h : z.Valid) : FieldsFit z.fields := by
  cases z with
  | utc => simp [FieldsFit, IsoZone.fields, fieldWidth]
  | offset negative hh m =>
      have : hh < 100 ∧ m < 100 := ⟨Nat.lt_trans h.1 (by decide), Nat.lt_trans h.2 (by decide)⟩
      cases negative <;> simpa [FieldsFit, IsoZone.fields, fieldWidth, sign] using this

theorem IsoText.Valid.fieldsFit {v : IsoText} (hv : v.Valid) : FieldsFit v.fields := by
  obtain ⟨year, date, time⟩ := v
  obtain ⟨-, hdate, htime⟩ := hv
  refine hdate.fieldsFit.append ?_
  rcases time with - | ⟨t, - | z⟩
  · exact fun f hf => absurd hf List.not_mem_nil
  · exact IsoClock.Valid.fieldsFit htime
  · exact htime.1.fieldsFit.append htime.2.fieldsFit

theorem readIsoText_text {v : IsoText} (hv : v.Valid) : readIsoText v.text = some v := by
  have hfields := readFields_fieldsText hv.fieldsFit
    (length_le_length_fieldsText v.fields)
  rw [readIsoText, IsoText.text, readYear_text hv.1]
  show (match readFields (fieldsText v.fields).length (fieldsText v.fields) with
    | none => none
    | some fields =>
        (readTime (readDate fields).2).map
          fun time => IsoText.mk v.year (readDate fields).1 time) = some v
  rw [hfields, IsoText.fields]
  show (readTime (readDate (v.date.fields ++ timeFields v.time)).2).map _ = _
  rw [readDate_fields, readTime_fields]
  rfl

/-- **A date text is read as the point in time that it denotes.** -/
theorem dateParse_text {toUtc : Int → Int} {v : IsoText} (hv : v.Valid)
    (hrange : InTimeRange (v.instant toUtc)) :
    dateParse toUtc (String.ofList v.text) = some (v.instant toUtc) := by
  rw [dateParse, String.toList_ofList, readIsoText_text hv]
  exact if_pos ⟨hv, hrange⟩

/-! ## The order of the texts -/

/-- Four digits count as a sign after both signs. -/
def IsoYear.key : IsoYear → List Nat
  | .plain n => [48, n]
  | .expanded negative n => [(sign negative).toNat, n]

/-- The numbers of a date text from left to right, each after the code of its separator. -/
def IsoText.reading (v : IsoText) : List Nat := v.year.key ++ fieldsKey v.fields

theorem sign_toNat_lt (negative : Bool) (d : Nat) : (sign negative).toNat < 48 + d := by
  have h : (sign negative).toNat < 48 := by cases negative <;> decide
  omega

theorem codesLt_year_iff {y z : IsoYear} (hy : y.Valid) (hz : z.Valid) {s t : List Char}
    {ks kt : List Nat} (htail : CodesLt s t ↔ ks < kt) :
    CodesLt (y.text ++ s) (z.text ++ t) ↔ y.key ++ ks < z.key ++ kt := by
  cases y with
  | plain n =>
      cases z with
      | plain k =>
          show _ ↔ 48 :: n :: ks < 48 :: k :: kt
          rw [IsoYear.text, IsoYear.text, digits_lt_iff 4 hy hz, htail, List.cons_lt_cons_iff,
            List.cons_lt_cons_iff]
          simp
      | expanded negative k =>
          show CodesLt (Nat.digitChar (n / 10 ^ 3) :: (digits 3 (n % 10 ^ 3) ++ s))
            (sign negative :: (digits 6 k ++ t)) ↔ 48 :: n :: ks < (sign negative).toNat :: k :: kt
          rw [codesLt_cons, List.cons_lt_cons_iff, toNat_digitChar (leading_lt hy)]
          have hlt := sign_toNat_lt negative (n / 10 ^ 3)
          have hlt' := sign_toNat_lt negative 0
          refine iff_of_false ?_ ?_
          · rintro (h | ⟨h, -⟩) <;> omega
          · rintro (h | ⟨h, -⟩) <;> omega
  | expanded negative n =>
      cases z with
      | plain k =>
          show CodesLt (sign negative :: (digits 6 n ++ s))
            (Nat.digitChar (k / 10 ^ 3) :: (digits 3 (k % 10 ^ 3) ++ t)) ↔
            (sign negative).toNat :: n :: ks < 48 :: k :: kt
          rw [codesLt_cons, List.cons_lt_cons_iff, toNat_digitChar (leading_lt hz)]
          exact iff_of_true (Or.inl (sign_toNat_lt negative _)) (Or.inl (sign_toNat_lt negative 0))
      | expanded negative' k =>
          show CodesLt (sign negative :: (digits 6 n ++ s)) (sign negative' :: (digits 6 k ++ t)) ↔
            (sign negative).toNat :: n :: ks < (sign negative').toNat :: k :: kt
          rw [codesLt_cons, List.cons_lt_cons_iff, List.cons_lt_cons_iff, digits_lt_iff 6 hy.1 hz.1,
            htail]

theorem codeUnits_eq_map {text : List Char} (h : ∀ c ∈ text, c.toNat < 0x10000) :
    text.flatMap codeUnits = text.map Char.toNat := by
  induction text with
  | nil => rfl
  | cons c text ih =>
      have hc : codeUnits c = [c.toNat] := if_pos (h c List.mem_cons_self)
      rw [List.flatMap_cons, hc, ih fun d hd => h d (List.mem_cons_of_mem c hd)]
      rfl

/-- Strings of characters of one code unit are ordered by these. -/
theorem lt_ofList_iff {a b : List Char} (ha : ∀ c ∈ a, c.toNat < 0x10000)
    (hb : ∀ c ∈ b, c.toNat < 0x10000) :
    lt (String.ofList a) (String.ofList b) = true ↔ CodesLt a b := by
  rw [lt, decide_eq_true_iff, String.toList_ofList, String.toList_ofList, codeUnits_eq_map ha,
    codeUnits_eq_map hb]
  exact Iff.rfl

theorem toNat_lt_of_isDigit {c : Char} (h : c.isDigit = true) : c.toNat < 0x10000 := by
  have hle : c.toNat ≤ 57 := by
    simp only [Char.isDigit, Bool.and_eq_true, decide_eq_true_eq] at h
    exact h.2
  omega

theorem IsoText.Valid.toNat_lt {v : IsoText} (hv : v.Valid) :
    ∀ c ∈ v.text, c.toNat < 0x10000 := by
  intro c hc
  rcases List.mem_append.mp hc with hyear | hfields
  · have hvalid := hv.1
    cases hy : v.year with
    | plain n =>
        rw [hy] at hyear hvalid
        exact toNat_lt_of_isDigit (isDigit_of_mem_digits 4 hvalid hyear)
    | expanded negative n =>
        rw [hy] at hyear hvalid
        rcases List.mem_cons.mp hyear with rfl | hdigit
        · exact Nat.lt_trans (sign_toNat_lt negative 0) (by decide)
        · exact toNat_lt_of_isDigit (isDigit_of_mem_digits 6 hvalid.1 hdigit)
  · obtain ⟨f, hf, hmem⟩ := List.mem_flatMap.mp hfields
    obtain ⟨hfit, hsep⟩ := hv.fieldsFit f hf
    rcases List.mem_cons.mp hmem with rfl | hdigit
    · exact hsep
    · exact toNat_lt_of_isDigit (isDigit_of_mem_digits _ hfit hdigit)

/-- **Date texts are ordered as they read from left to right.** -/
theorem lt_text_iff {v w : IsoText} (hv : v.Valid) (hw : w.Valid) :
    lt (String.ofList v.text) (String.ofList w.text) = true ↔ v.reading < w.reading := by
  rw [lt_ofList_iff hv.toNat_lt hw.toNat_lt]
  exact codesLt_year_iff hv.1 hw.1 (codesLt_fieldsText_iff hv.fieldsFit hw.fieldsFit)

/-! ## The calendar -/

def daysInMonth (leap : Bool) (m : Nat) : Nat :=
  if m = 2 then (if leap then 29 else 28) else if m ∈ [4, 6, 9, 11] then 30 else 31

/-- A day that the calendar has. -/
def CalendarDay (y : Int) (m d : Nat) : Prop :=
  (1 ≤ m ∧ m ≤ 12) ∧ 1 ≤ d ∧ d ≤ daysInMonth (isLeapYear y) m

instance (y : Int) (m d : Nat) : Decidable (CalendarDay y m d) :=
  inferInstanceAs (Decidable ((1 ≤ m ∧ m ≤ 12) ∧ 1 ≤ d ∧ d ≤ daysInMonth (isLeapYear y) m))

/-- The days of the year before a month. -/
def daysBefore (leap : Bool) (m : Nat) : Nat :=
  daysBeforeMonth m + if leap && 2 < m then 1 else 0

theorem daysBefore_add_daysInMonth_le : ∀ leap, ∀ m' ≤ 12, ∀ m < m', 1 ≤ m →
    daysBefore leap m + daysInMonth leap m ≤ daysBefore leap m' := by
  decide

theorem daysBefore_add_daysInMonth_le_year : ∀ leap : Bool, ∀ m ≤ 12, 1 ≤ m →
    daysBefore leap m + daysInMonth leap m ≤ if leap then 366 else 365 := by
  decide

theorem dayNumber_eq (y : Int) (m d : Nat) :
    dayNumber y m d = dayFromYear y + daysBefore (isLeapYear y) m + d - 1 := by
  simp only [dayNumber, daysBefore]
  split <;> simp [Int.add_assoc]

theorem dayFromYear_add_one (y : Int) :
    dayFromYear (y + 1) = dayFromYear y + if isLeapYear y then 366 else 365 := by
  unfold dayFromYear isLeapYear
  simp only [Bool.and_eq_true, Bool.or_eq_true, decide_eq_true_eq]
  split <;> omega

theorem dayFromYear_le {y y' : Int} (h : y ≤ y') : dayFromYear y ≤ dayFromYear y' := by
  obtain ⟨k, rfl⟩ := Int.le.dest h
  clear h
  induction k with
  | zero => exact Int.le_of_eq (by simp)
  | succ k ih =>
      have hstep := dayFromYear_add_one (y + k)
      rw [Int.add_assoc] at hstep
      rw [Int.natCast_succ, hstep]
      split <;> omega

/-- A day of an earlier year, month or number has a smaller day number. -/
theorem dayNumber_lt {y y' : Int} {m m' d d' : Nat} (h : CalendarDay y m d)
    (h' : CalendarDay y' m' d') (hlt : y < y' ∨ y = y' ∧ (m < m' ∨ m = m' ∧ d < d')) :
    dayNumber y m d < dayNumber y' m' d' := by
  rw [dayNumber_eq, dayNumber_eq]
  rcases hlt with hy | ⟨rfl, hm | ⟨rfl, hd⟩⟩
  · have hend := daysBefore_add_daysInMonth_le_year (isLeapYear y) m h.1.2 h.1.1
    have hnext := dayFromYear_add_one y
    have hle : dayFromYear (y + 1) ≤ dayFromYear y' := dayFromYear_le hy
    have hd := h.2.2
    have hd' := h'.2.1
    split at hend <;> rename_i hleap <;> simp only [hleap] at hnext <;> simp at hnext <;> omega
  · have hbefore := daysBefore_add_daysInMonth_le (isLeapYear y) m' h'.1.2 m hm h.1.1
    have hd := h.2.2
    have hd' := h'.2.1
    omega
  · omega

end ErpApi.Js
