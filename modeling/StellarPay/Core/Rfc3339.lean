import StellarPay.Core.Numerals

/-!
# Instants as text

The texts of RFC 3339 for instants in nanoseconds since 1970, in UTC: a date of the Gregorian
calendar, a time of the day, and as many digits of the second as it has, three, six or nine. A year
of more than four digits has a sign. An instant is read back from its text.
-/

namespace StellarPay.Rfc3339

/-- A date, with the first month and the first day of a month as one. -/
structure Civil where
  year : Int
  month : Nat
  day : Nat

namespace Civil

/-- The number of days before a year of an era. -/
def daysBefore (year : Nat) : Nat :=
  365 * year + year / 4 - year / 100

/-- The year of an era that has this day. -/
def yearOfEra (day : Nat) : Nat :=
  let century := min (day / 36524) 3
  let dayOfCentury := day - 36524 * century
  let dayOfCycle := dayOfCentury % 1461
  100 * century + 4 * (dayOfCentury / 1461) + min (dayOfCycle / 365) 3

/-- The date a number of days after the first of January 1970. -/
def ofDays (days : Int) : Civil :=
  -- Years begin in March, with the leap day as their last one, and 400 of them are an era.
  let shifted := days + 719468
  let dayOfEra := (shifted % 146097).toNat
  let year := yearOfEra dayOfEra
  let dayOfYear := dayOfEra - daysBefore year
  let month := (5 * dayOfYear + 2) / 153
  { year := 400 * (shifted / 146097) + year + if month < 10 then 0 else 1
    month := if month < 10 then month + 3 else month - 9
    day := dayOfYear - (153 * month + 2) / 5 + 1 }

/-- The number of days from the first of January 1970 to a date. -/
def toDays (date : Civil) : Int :=
  let year := if date.month ≤ 2 then date.year - 1 else date.year
  let month := if date.month ≤ 2 then date.month + 9 else date.month - 3
  146097 * (year / 400) + daysBefore (year % 400).toNat + ((153 * month + 2) / 5 : Nat) +
    date.day - 719469

/-- The days before a year, by its century and its cycle of four years. -/
theorem days_before_eq {century cycle year : Nat} (hcycle : cycle ≤ 24) (hyear : year ≤ 3) :
    daysBefore (100 * century + 4 * cycle + year) =
      36524 * century + 1461 * cycle + 365 * year := by
  have hfour : (100 * century + 4 * cycle + year) / 4 = 25 * century + cycle := by omega
  have hhundred : (100 * century + 4 * cycle + year) / 100 = century := by omega
  rw [daysBefore, hfour, hhundred]
  omega

/-- A day of an era lies in its year. -/
theorem year_of_era_bounds {day : Nat} (h : day < 146097) :
    yearOfEra day < 400 ∧ daysBefore (yearOfEra day) ≤ day ∧
      day ≤ daysBefore (yearOfEra day) + 365 := by
  obtain ⟨century, hcentury⟩ : ∃ century, century = min (day / 36524) 3 := ⟨_, rfl⟩
  obtain ⟨cycle, hcycle⟩ : ∃ cycle, cycle = (day - 36524 * century) / 1461 := ⟨_, rfl⟩
  obtain ⟨year, hyear⟩ : ∃ year, year = min ((day - 36524 * century) % 1461 / 365) 3 := ⟨_, rfl⟩
  have hera : yearOfEra day = 100 * century + 4 * cycle + year := by
    rw [hyear, hcycle, hcentury, yearOfEra]
  have hbound : cycle ≤ 24 := by omega
  rw [hera, days_before_eq hbound (by omega)]
  omega

/-- A date is as many days away as it was made of. -/
theorem to_days_of_days (days : Int) : (ofDays days).toDays = days := by
  obtain ⟨day, hday⟩ : ∃ day : Nat, (days + 719468) % 146097 = day :=
    ⟨((days + 719468) % 146097).toNat, by omega⟩
  obtain ⟨hyear, hbefore, hafter⟩ := @year_of_era_bounds day (by omega)
  simp only [ofDays, toDays, hday, Int.toNat_natCast]
  generalize yearOfEra day = year at *
  obtain ⟨month, hmonth⟩ : ∃ month, month = (5 * (day - daysBefore year) + 2) / 153 := ⟨_, rfl⟩
  rw [← hmonth]
  by_cases hlate : month < 10
  · have hsame : ¬ month + 3 ≤ 2 := by omega
    have hrest : ((400 * ((days + 719468) / 146097) + year + 0) % 400).toNat = year := by omega
    simp only [hlate, if_true, hsame, if_false, hrest]
    omega
  · have hsame : month - 9 ≤ 2 := by omega
    have hrest : ((400 * ((days + 719468) / 146097) + year + 1 - 1) % 400).toNat = year := by omega
    simp only [hlate, if_false, hsame, if_true, hrest]
    omega

end Civil

/-- A year, with a sign unless it has four digits. -/
def yearDigits (year : Int) : List Char :=
  let digits :=
    if year.natAbs < 10000 then fixedDigits 4 year.natAbs else Nat.toDigits 10 year.natAbs
  if year < 0 then '-' :: digits else if year < 10000 then digits else '+' :: digits

/-- The digits behind the second, as many as it takes. -/
def fraction (nanos : Nat) : List Char :=
  if nanos = 0 then []
  else if nanos % 10 ^ 6 = 0 then '.' :: fixedDigits 3 (nanos / 10 ^ 6)
  else if nanos % 10 ^ 3 = 0 then '.' :: fixedDigits 6 (nanos / 10 ^ 3)
  else '.' :: fixedDigits 9 nanos

/-- The text of a date. -/
def dateDigits (date : Civil) : List Char :=
  yearDigits date.year ++ '-' :: (fixedDigits 2 date.month ++ '-' :: fixedDigits 2 date.day)

/-- The text of a second of the day. -/
def timeDigits (second : Nat) : List Char :=
  fixedDigits 2 (second / 3600) ++ ':' :: (fixedDigits 2 (second / 60 % 60) ++
    ':' :: fixedDigits 2 (second % 60))

/-- The text of an instant. -/
def text (time : Int) : String :=
  let second := time / 10 ^ 9
  String.ofList (dateDigits (Civil.ofDays (second / 86400)) ++
    'T' :: (timeDigits (second % 86400).toNat ++ (fraction (time % 10 ^ 9).toNat ++ ['Z'])))

/-- The number that digits stand for. -/
def number (digits : List Char) : Nat :=
  Nat.ofDigitChars 10 digits 0

/-- Read a year. -/
def readYear : List Char → Int
  | '-' :: digits => -number digits
  | '+' :: digits => number digits
  | digits => number digits

/-- Read the digits behind the second. -/
def readFraction : List Char → Nat
  | [] => 0
  | _ :: digits => number digits * 10 ^ (9 - digits.length)

/-- Read a date. -/
def readDate (chars : List Char) : Civil where
  year := readYear (chars.take (chars.length - 6))
  month := number ((chars.drop (chars.length - 5)).take 2)
  day := number (chars.drop (chars.length - 2))

/-- Read a second of the day. -/
def readTime (chars : List Char) : Nat :=
  3600 * number (chars.take 2) + 60 * number ((chars.drop 3).take 2) +
    number ((chars.drop 6).take 2)

/-- The instant of a text, if it is one. -/
def parse (chars : List Char) : Int :=
  let date := chars.takeWhile (· ≠ 'T')
  let time := chars.drop (date.length + 1)
  ((readDate date).toDays * 86400 + readTime time) * 10 ^ 9 + readFraction (time.drop 8).dropLast

/-- Read a text of this form. -/
def read (chars : String) : Option Int :=
  if text (parse chars.toList) = chars then some (parse chars.toList) else none

@[simp]
theorem number_fixed_digits {width value : Nat} (h : value < 10 ^ width) :
    number (fixedDigits width value) = value := by
  rw [number, of_digit_chars_fixed, Nat.zero_mul, Nat.zero_add, Nat.mod_eq_of_lt h]

/-- Digits without a sign are read as a number. -/
theorem read_year_plain {digits : List Char} (h : ∀ char ∈ digits, char.isDigit = true) :
    readYear digits = number digits := by
  unfold readYear
  split
  · cases h '-' List.mem_cons_self
  · cases h '+' List.mem_cons_self
  · rfl

/-- A year is read back. -/
theorem read_year_digits (year : Int) : readYear (yearDigits year) = year := by
  have hdigits : number (if year.natAbs < 10000 then fixedDigits 4 year.natAbs
      else Nat.toDigits 10 year.natAbs) = year.natAbs := by
    split
    · exact number_fixed_digits (by omega)
    · exact Nat.ofDigitChars_ten_toDigits
  unfold yearDigits
  dsimp only
  split
  · rw [readYear, hdigits]
    omega
  · split
    · rw [if_pos (by omega)] at hdigits ⊢
      rw [read_year_plain fun _ => is_digit_of_mem_fixed_digits, hdigits]
      omega
    · rw [readYear, hdigits]
      omega

/-- So are the digits behind the second. -/
theorem read_fraction {nanos : Nat} (h : nanos < 10 ^ 9) :
    readFraction (fraction nanos) = nanos := by
  unfold fraction
  split
  · rename_i hzero
    exact hzero.symm
  · split
    · rename_i hmilli
      rw [readFraction, number_fixed_digits (by omega), fixed_digits_length]
      omega
    · split
      · rename_i hmicro
        rw [readFraction, number_fixed_digits (by omega), fixed_digits_length]
        omega
      · rw [readFraction, number_fixed_digits h, fixed_digits_length, Nat.pow_zero, Nat.mul_one]

/-- A date is read back. -/
theorem read_date_digits {date : Civil} (hmonth : date.month < 100) (hday : date.day < 100) :
    readDate (dateDigits date) = date := by
  have hlength : (dateDigits date).length = (yearDigits date.year).length + 6 := by
    simp [dateDigits]
  have hyear : (dateDigits date).take ((dateDigits date).length - 6) = yearDigits date.year := by
    rw [hlength, Nat.add_sub_cancel, dateDigits, List.take_left]
  have hrest : ∀ count, (dateDigits date).drop ((yearDigits date.year).length + count) =
      ('-' :: (fixedDigits 2 date.month ++ '-' :: fixedDigits 2 date.day)).drop count := by
    intro count
    rw [dateDigits, List.drop_append, Nat.add_sub_cancel_left,
      List.drop_of_length_le (Nat.le_add_right _ _), List.nil_append]
  rw [readDate, hyear, hlength, read_year_digits, Nat.add_sub_assoc (by decide) _,
    Nat.add_sub_assoc (by decide) _, hrest, hrest]
  simp [List.drop_append, List.drop_of_length_le, hmonth, hday]

/-- A second of the day is read back, whatever comes behind it. -/
theorem read_time_digits {second : Nat} (h : second < 86400) (rest : List Char) :
    readTime (timeDigits second ++ rest) = second ∧ (timeDigits second ++ rest).drop 8 = rest := by
  have hhour : second / 3600 < 10 ^ 2 := by omega
  have hminute : second / 60 % 60 < 10 ^ 2 := by omega
  have hsecond : second % 60 < 10 ^ 2 := by omega
  constructor
  · simp [readTime, timeDigits, List.drop_append, List.drop_of_length_le,
      number_fixed_digits hhour, number_fixed_digits hminute, number_fixed_digits hsecond]
    omega
  · simp [timeDigits, List.drop_append, List.drop_of_length_le]

/-- A date has no `T`. -/
theorem date_digits_plain (date : Civil) : ∀ char ∈ dateDigits date, char ≠ 'T' := by
  have hdigit : ∀ char : Char, char.isDigit = true → char ≠ 'T' := by
    rintro _ hdigit rfl
    cases hdigit
  have hfixed : ∀ width value, ∀ char ∈ fixedDigits width value, char ≠ 'T' :=
    fun _ _ char hchar => hdigit char (is_digit_of_mem_fixed_digits hchar)
  have hyear : ∀ char ∈ yearDigits date.year, char ≠ 'T' := by
    have habs : ∀ char ∈ (if date.year.natAbs < 10000 then fixedDigits 4 date.year.natAbs
        else Nat.toDigits 10 date.year.natAbs), char ≠ 'T' := by
      split
      · exact hfixed _ _
      · exact fun char hchar =>
          hdigit char (Nat.isDigit_of_mem_toDigits (by decide) (by decide) hchar)
    unfold yearDigits
    dsimp only
    split
    · exact List.forall_mem_cons.mpr ⟨by decide, habs⟩
    · split
      · exact habs
      · exact List.forall_mem_cons.mpr ⟨by decide, habs⟩
  exact List.forall_mem_append.mpr ⟨hyear, List.forall_mem_cons.mpr ⟨by decide,
    List.forall_mem_append.mpr ⟨hfixed _ _, List.forall_mem_cons.mpr ⟨by decide, hfixed _ _⟩⟩⟩⟩

/-- The month and the day of a date have two digits. -/
theorem Civil.of_days_bounds (days : Int) :
    (ofDays days).month < 100 ∧ (ofDays days).day < 100 := by
  obtain ⟨-, -, hafter⟩ := @year_of_era_bounds ((days + 719468) % 146097).toNat (by omega)
  simp only [ofDays]
  split <;> omega

/-- An instant is read back from its text. -/
theorem parse_text (time : Int) : parse (text time).toList = time := by
  obtain ⟨second, hsecond⟩ : ∃ second : Nat, time / 10 ^ 9 % 86400 = second :=
    ⟨(time / 10 ^ 9 % 86400).toNat, by omega⟩
  obtain ⟨nanos, hnanos⟩ : ∃ nanos : Nat, time % 10 ^ 9 = nanos :=
    ⟨(time % 10 ^ 9).toNat, by omega⟩
  obtain ⟨hmonth, hday⟩ := Civil.of_days_bounds (time / 10 ^ 9 / 86400)
  have hplain := date_digits_plain (Civil.ofDays (time / 10 ^ 9 / 86400))
  obtain ⟨htime, hrest⟩ := @read_time_digits second (by omega) (fraction nanos ++ ['Z'])
  rw [text, String.toList_ofList, parse, hsecond, hnanos, Int.toNat_natCast, Int.toNat_natCast]
  rw [List.takeWhile_append_of_pos (by simpa using hplain)]
  simp only [List.takeWhile_cons, ne_eq, not_true_eq_false, decide_false, Bool.false_eq_true,
    if_false, List.append_nil]
  rw [List.drop_append, List.drop_of_length_le (by omega), List.nil_append, Nat.add_sub_cancel_left,
    List.drop_one, List.tail_cons, htime, hrest, List.dropLast_concat,
    read_date_digits hmonth hday, Civil.to_days_of_days, read_fraction (by omega)]
  omega

/-- An instant is read from its text. -/
theorem read_text (time : Int) : read (text time) = some time := by
  rw [read, parse_text, if_pos rfl]

end StellarPay.Rfc3339
