import CheckedLock.Text.Column
import CheckedLock.Time.Calendar
/-! Instants in nanoseconds since the epoch, and their text with microseconds. -/
namespace CheckedLock

/-- Nanoseconds since 1 January 1970, UTC. -/
structure Timestamp where
  nanos : Int
  deriving DecidableEq, Repr

/-- Date and time of day as a clock on the wall shows them. -/
structure WallTime where
  date : Date
  hour : Nat
  minute : Nat
  second : Nat
  micro : Nat
  deriving DecidableEq, Repr

namespace WallTime

def secondsPerDay : Int := 86400

/-- The wall time `seconds` after the epoch on the clock's own time scale. -/
def ofSeconds (seconds : Int) (micro : Nat) : WallTime :=
  let ofDay := (seconds.fmod secondsPerDay).toNat
  { date := Date.ofDays (seconds.fdiv secondsPerDay)
    hour := ofDay / 3600
    minute := ofDay / 60 % 60
    second := ofDay % 60
    micro := micro }

def render (w : WallTime) : String :=
  Column.number 4 w.date.year.toNat ++ "-" ++ Column.number 2 w.date.month ++ "-" ++
    Column.number 2 w.date.day ++ " " ++ Column.number 2 w.hour ++ ":" ++
    Column.number 2 w.minute ++ ":" ++ Column.number 2 w.second ++ "." ++
    Column.number 6 w.micro

end WallTime

namespace Timestamp

/-- Whole microseconds, cut toward zero. -/
def micros (t : Timestamp) : Int := t.nanos.tdiv 1000

/-- Whole seconds, cut toward zero: an instant before the epoch gets the second after it. -/
def seconds (t : Timestamp) : Int := t.micros.tdiv 1000000

/-- Microseconds within the second, brought into `0 … 999999` on their own. -/
def fraction (t : Timestamp) : Nat :=
  let rest := (t.micros - t.seconds * 1000000).tmod 1000000
  (if rest < 0 then rest + 1000000 else rest).toNat

def wallTime (offsetMinutes : Int) (t : Timestamp) : WallTime :=
  WallTime.ofSeconds (t.seconds + 60 * offsetMinutes) t.fraction

/-- Local time with six decimals of a second, `offsetMinutes` east of UTC. -/
def render (offsetMinutes : Int) (t : Timestamp) : String :=
  (t.wallTime offsetMinutes).render

end Timestamp
end CheckedLock
