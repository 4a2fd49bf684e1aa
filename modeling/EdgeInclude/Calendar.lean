import EdgeInclude.Text.Basic

/-!
# Moments and dates

A moment is a number of seconds since the beginning of 1970, with the distance of the
local time from universal time.

* `Moment.date` — year, month and day of the local time.
* `Moment.stamp` — the local time as in `02/Jan/2006:15:04:05 -0700`.
-/

namespace EdgeInclude

/-- A point in time. -/
structure Moment where
  seconds : Nat
  /-- Minutes by which the local time is ahead of universal time. -/
  offset : Int
  deriving DecidableEq, Repr

/-- A day of the calendar. -/
structure Date where
  year : Int
  month : Nat
  day : Nat
  deriving DecidableEq, Repr

/-- The date that comes `days` days after the first of January 1970. Years are counted from
March here, so that a leap day is the last day of its year. -/
def Date.ofDays (days : Int) : Date :=
  let z := days + 719468
  let era := z.fdiv 146097
  let doe := (z - era * 146097).toNat
  let yoe := (doe - doe / 1460 + doe / 36524 - doe / 146096) / 365
  let doy := doe - (365 * yoe + yoe / 4 - yoe / 100)
  let mp := (5 * doy + 2) / 153
  let month := if mp < 10 then mp + 3 else mp - 9
  { year := era * 400 + yoe + (if month ≤ 2 then 1 else 0), month := month,
    day := doy - (153 * mp + 2) / 5 + 1 }

namespace Moment

/-- Seconds of the local time. -/
def localSeconds (m : Moment) : Int := m.seconds + 60 * m.offset

/-- The day of the local time. -/
def date (m : Moment) : Date := Date.ofDays (m.localSeconds.fdiv 86400)

/-- Seconds since the local midnight. -/
def secondOfDay (m : Moment) : Nat := (m.localSeconds.fmod 86400).toNat

/-- The short names of the months. -/
def months : List String :=
  ["Jan", "Feb", "Mar", "Apr", "May", "Jun", "Jul", "Aug", "Sep", "Oct", "Nov", "Dec"]

/-- A number with at least `width` digits. -/
def padded (width n : Nat) : Text := List.leftpad width '0' (Nat.toDigits 10 n)

/-- Day, month, year, time of day and distance from universal time. -/
def stamp (m : Moment) : Text :=
  let d := m.date
  let s := m.secondOfDay
  let off := m.offset.natAbs
  padded 2 d.day ++ '/' :: ((months[d.month - 1]?).getD "").toList ++ '/' ::
    padded 4 d.year.toNat ++ ':' :: padded 2 (s / 3600) ++ ':' :: padded 2 (s / 60 % 60) ++
    ':' :: padded 2 (s % 60) ++ ' ' ::
    (if m.offset < 0 then '-' else '+') :: padded 2 (off / 60) ++ padded 2 (off % 60)

end Moment

end EdgeInclude
