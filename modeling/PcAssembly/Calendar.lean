import PcAssembly.Number.Integer
import PcAssembly.Text.Blank

/-! # Dates

    A date is a day of the calendar that is extended without end in both
    directions, counted from the first of January 1970.  The calendar of the
    library begins with the year -262143; no date lies before it. -/

namespace PcAssembly

/-- A day, counted from the first of January 1970. -/
structure Date where
  day : Int
  deriving DecidableEq, Repr

namespace Date

open PcAssembly.Number

/-- Days of four hundred years. -/
def daysPerEra : Int := 146097

/-- The day with this year, month and day of month.  Years are counted from
    March, so that a leap day ends a year. -/
def ofCivil (year month day : Int) : Date :=
  let year' := if month ≤ 2 then year - 1 else year
  let era := year' / 400
  let yearOfEra := year' % 400
  let monthFromMarch := (month + 9) % 12
  let dayOfYear := (153 * monthFromMarch + 2) / 5 + day - 1
  let dayOfEra := yearOfEra * 365 + yearOfEra / 4 - yearOfEra / 100 + dayOfYear
  ⟨era * daysPerEra + dayOfEra - 719468⟩

/-- Year, month and day of month of a date. -/
def civil (date : Date) : Int × Int × Int :=
  let shifted := date.day + 719468
  let era := shifted / daysPerEra
  let dayOfEra := shifted % daysPerEra
  let yearOfEra :=
    (dayOfEra - dayOfEra / 1460 + dayOfEra / 36524 - dayOfEra / 146096) / 365
  let dayOfYear := dayOfEra - (365 * yearOfEra + yearOfEra / 4 - yearOfEra / 100)
  let monthFromMarch := (5 * dayOfYear + 2) / 153
  let day := dayOfYear - (153 * monthFromMarch + 2) / 5 + 1
  let month := if monthFromMarch < 10 then monthFromMarch + 3 else monthFromMarch - 9
  let year := yearOfEra + era * 400
  (if month ≤ 2 then year + 1 else year, month, day)

/-- The first date of the calendar. -/
def first : Date := ofCivil (-262143) 1 1

/-- The date this many days earlier, if the calendar has one. -/
def daysBefore? (date : Date) (days : Nat) : Option Date :=
  if first.day ≤ date.day - days then some ⟨date.day - days⟩ else none

/-- The number of days from one date to another. -/
def daysUntil (start stop : Date) : Int := stop.day - start.day

/-- A number with at least this many digits. -/
def padded (width n : Nat) : List Char :=
  let digits := natDigits n
  List.replicate (width - digits.length) '0' ++ digits

/-- Year, month and day with hyphens.  A year outside 0 to 9999 has its
    sign. -/
def toText (date : Date) : String :=
  let (year, month, day) := date.civil
  let sign := if year < 0 then ['-'] else if 9999 < year then ['+'] else []
  String.ofList <|
    sign ++ padded 4 year.natAbs ++ '-' :: padded 2 month.natAbs ++ '-' :: padded 2 day.natAbs

/-- The date of a text with year, month and day between hyphens. -/
def ofText? (text : String) : Option Date :=
  match (Text.split '-' text.toList).mapM natOfDigits? with
  | some [year, month, day] => some (ofCivil year month day)
  | _ => none

end Date

end PcAssembly
