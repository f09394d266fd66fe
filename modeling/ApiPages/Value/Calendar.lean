import ApiPages.Text.Basic

/-! Dates and times of the proleptic Gregorian calendar, as settings may hold them. -/
namespace ApiPages

/-- A day of the calendar. -/
structure Date where
  year : Nat
  month : Nat
  day : Nat
  deriving DecidableEq

/-- A day with a time, and the distance to universal time in seconds where it is known. -/
structure Instant where
  date : Date
  hour : Nat
  minute : Nat
  second : Nat
  microsecond : Nat
  offset : Option Int
  deriving DecidableEq

/-- A part of a date or time that lies outside its range. -/
inductive CalendarError where
  | year (value : Nat)
  | month
  | day
  | hour
  | minute
  | second
  /-- A whole day or more away from universal time. -/
  | offset (seconds : Int)
  deriving DecidableEq

namespace Calendar

def padded (width n : Nat) : Text :=
  let digits := Text.ofNat n
  List.replicate (width - digits.length) '0' ++ digits

def isLeap (year : Nat) : Bool := year % 4 == 0 && (year % 100 != 0 || year % 400 == 0)

def daysIn (year month : Nat) : Nat :=
  if month = 2 then if isLeap year then 29 else 28
  else if [4, 6, 9, 11].contains month then 30
  else 31

/-- Days and seconds of a span of time, the seconds never negative. -/
def spanText (seconds : Int) : Text :=
  let days := seconds / 86400
  let rest := seconds % 86400
  let parts : List Text :=
    (if days = 0 then [] else ["days=".toList ++ Text.ofInt days]) ++
      (if rest = 0 then [] else ["seconds=".toList ++ Text.ofInt rest])
  "datetime.timedelta(".toList ++
    (if parts.isEmpty then ['0'] else Text.join ", ".toList parts) ++ [')']

end Calendar

open Calendar

def CalendarError.message : CalendarError → Text
  | .year value => "year ".toList ++ Text.ofNat value ++ " is out of range".toList
  | .month => "month must be in 1..12".toList
  | .day => "day is out of range for month".toList
  | .hour => "hour must be in 0..23".toList
  | .minute => "minute must be in 0..59".toList
  | .second => "second must be in 0..59".toList
  | .offset seconds =>
    "offset must be a timedelta strictly between -timedelta(hours=24) and ".toList ++
      "timedelta(hours=24), not ".toList ++ spanText seconds ++ ".".toList

namespace Date

def of (year month day : Nat) : Except CalendarError Date :=
  if year < 1 || 9999 < year then .error (.year year)
  else if month < 1 || 12 < month then .error .month
  else if day < 1 || daysIn year month < day then .error .day
  else .ok ⟨year, month, day⟩

/-- The number of a day, from the first day of the first year on. -/
def ordinal (d : Date) : Nat :=
  let years := d.year - 1
  let months := (List.range (d.month - 1)).map fun month => daysIn d.year (month + 1)
  365 * years + years / 4 - years / 100 + years / 400 + months.foldl (· + ·) 0 + d.day

def text (d : Date) : Text :=
  padded 4 d.year ++ '-' :: padded 2 d.month ++ '-' :: padded 2 d.day

def shown (d : Date) : Text :=
  "datetime.date(".toList ++
    Text.join ", ".toList [Text.ofNat d.year, Text.ofNat d.month, Text.ofNat d.day] ++ [')']

end Date

namespace Instant

def of (year month day hour minute second microsecond : Nat) (offset : Option Int) :
    Except CalendarError Instant := do
  if let some seconds := offset then
    if 86400 ≤ seconds.natAbs then throw (.offset seconds)
  let date ← Date.of year month day
  if 23 < hour then throw .hour
  if 59 < minute then throw .minute
  if 59 < second then throw .second
  return ⟨date, hour, minute, second, microsecond, offset⟩

/-- The microseconds up to a time, by its own clock. -/
def microseconds (i : Instant) : Int :=
  (((i.date.ordinal * 24 + i.hour) * 60 + i.minute) * 60 + i.second) * 1000000 + i.microsecond

/-- Hours and minutes away from universal time, with a sign, and seconds if there are any. -/
def offsetText (seconds : Int) : Text :=
  let size := seconds.natAbs
  (if seconds < 0 then '-' else '+') :: padded 2 (size / 3600) ++ ':' ::
    padded 2 (size / 60 % 60) ++ (if size % 60 = 0 then [] else ':' :: padded 2 (size % 60))

/-- Date and time with a space between them, and fractions of a second only where there are any. -/
def text (i : Instant) : Text :=
  i.date.text ++ ' ' :: padded 2 i.hour ++ ':' :: padded 2 i.minute ++ ':' :: padded 2 i.second ++
    (if i.microsecond = 0 then [] else '.' :: padded 6 i.microsecond) ++
    (match i.offset with
    | none => []
    | some seconds => offsetText seconds)

def shownZone (seconds : Int) : Text :=
  if seconds = 0 then "datetime.timezone.utc".toList
  else "datetime.timezone(".toList ++ spanText seconds ++ [')']

/-- The time as messages show it, without seconds and their fractions when they are 0. -/
def shown (i : Instant) : Text :=
  let seconds :=
    if i.microsecond ≠ 0 then [i.second, i.microsecond]
    else if i.second ≠ 0 then [i.second]
    else []
  let parts := [i.date.year, i.date.month, i.date.day, i.hour, i.minute] ++ seconds
  let zone : List Text :=
    match i.offset with
    | none => []
    | some s => ["tzinfo=".toList ++ shownZone s]
  "datetime.datetime(".toList ++ Text.join ", ".toList (parts.map Text.ofNat ++ zone) ++ [')']

end Instant
end ApiPages
