/-! The proleptic Gregorian calendar, counted in days from 1 January 1970. -/
namespace CheckedLock

structure Date where
  year : Int
  month : Nat
  day : Nat
  deriving DecidableEq, Repr

namespace Date

/-- Days in 400 years: the calendar repeats after as many. -/
def cycleDays : Int := 146097

/-- Days from 1 March of year 0 to 1 January 1970. -/
def epochShift : Int := 719468

/-- Year within a cycle of 400 that holds the day `d`, years counted from 1 March. -/
def yearOfCycle (d : Nat) : Nat :=
  (d - d / 1460 + d / 36524 - d / 146096) / 365

/-- Days of a cycle before its year `y`, counted from 1 March. -/
def daysBefore (y : Nat) : Nat :=
  365 * y + y / 4 - y / 100

/-- Month counted from March (0 to 11) that holds the day `d` of a year begun in March. -/
def monthOfYear (d : Nat) : Nat :=
  (5 * d + 2) / 153

def daysBeforeMonth (m : Nat) : Nat :=
  (153 * m + 2) / 5

def ofDays (days : Int) : Date :=
  let shifted := days + epochShift
  let cycle := shifted.fdiv cycleDays
  let d := (shifted.fmod cycleDays).toNat
  let y := yearOfCycle d
  let ofYear := d - daysBefore y
  let m := monthOfYear ofYear
  let year := (y : Int) + 400 * cycle
  { year := if m < 10 then year else year + 1
    month := if m < 10 then m + 3 else m - 9
    day := ofYear - daysBeforeMonth m + 1 }

end Date
end CheckedLock
