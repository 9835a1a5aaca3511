import CheckedLock.Proofs.Text.Columns
import CheckedLock.Proofs.Time.Civil
import CheckedLock.Time.Timestamp
import Mathlib.Algebra.Order.Group.Unbundled.Abs
/-! What a timestamp's text says, read back: exact from 1970 on, a second late before. -/
namespace CheckedLock
namespace WallTime

/-- `YYYY-MM-DD HH:MM:SS.uuuuuu` -/
def layout : List (Nat × String) :=
  [(4, "-"), (2, "-"), (2, " "), (2, ":"), (2, ":"), (2, "."), (6, "")]

def columns (w : WallTime) : List Nat :=
  [w.date.year.toNat, w.date.month, w.date.day, w.hour, w.minute, w.second, w.micro]

def ofColumns? : List Nat → Option WallTime
  | [year, month, day, hour, minute, second, micro] =>
    some { date := { year, month, day }, hour, minute, second, micro }
  | _ => none

def read? (text : String) : Option WallTime :=
  (Column.readRow layout text.toList).bind ofColumns?

structure IsValid (w : WallTime) : Prop where
  civil : w.date.IsCivil
  year_nonneg : 0 ≤ w.date.year
  year_lt : w.date.year < 10000
  hour_lt : w.hour < 24
  minute_lt : w.minute < 60
  second_lt : w.second < 60
  micro_lt : w.micro < 1000000

/-- Seconds since the epoch, both on the clock's own time scale. -/
def clockSeconds (w : WallTime) : Int :=
  w.date.dayNumber * 86400 + w.hour * 3600 + w.minute * 60 + w.second

/-- Microseconds since the epoch, on a clock `offsetMinutes` east of UTC. -/
def instant (offsetMinutes : Int) (w : WallTime) : Int :=
  (w.clockSeconds - 60 * offsetMinutes) * 1000000 + w.micro

theorem toList_render (w : WallTime) : w.render.toList = Column.row layout w.columns := by
  simp [render, columns, layout, Column.row, Column.number, String.toList_append]

theorem IsValid.fits {w : WallTime} (h : w.IsValid) : Column.Fits layout w.columns := by
  have hmonth := h.civil.month_le
  have hday := h.civil.day_le.trans (Date.monthLength_le _ _)
  have hyear := h.year_lt
  have hhour := h.hour_lt
  have hminute := h.minute_lt
  have hsecond := h.second_lt
  have hmicro := h.micro_lt
  simp only [Column.Fits, layout, columns, List.forall₂_cons, List.Forall₂.nil, and_true]
  omega

theorem IsValid.ofColumns?_columns {w : WallTime} (h : w.IsValid) :
    ofColumns? w.columns = some w := by
  have := Int.toNat_of_nonneg h.year_nonneg
  simp [ofColumns?, columns, this]

theorem IsValid.read?_render {w : WallTime} (h : w.IsValid) : read? w.render = some w := by
  rw [read?, toList_render, Column.readRow_row h.fits]
  exact h.ofColumns?_columns

theorem fdiv_secondsPerDay (seconds : Int) :
    seconds.fdiv secondsPerDay = seconds / secondsPerDay :=
  Int.fdiv_eq_ediv_of_nonneg _ (by decide)

theorem fmod_secondsPerDay (seconds : Int) :
    seconds.fmod secondsPerDay = seconds % secondsPerDay :=
  Int.fmod_eq_emod_of_nonneg _ (by decide)

theorem clockSeconds_ofSeconds (seconds : Int) (micro : Nat) :
    (ofSeconds seconds micro).clockSeconds = seconds := by
  simp only [clockSeconds, ofSeconds, Date.dayNumber_ofDays, fdiv_secondsPerDay,
    fmod_secondsPerDay]
  unfold secondsPerDay
  omega

theorem isValid_ofSeconds (seconds : Int) (micro : Nat) (hmicro : micro < 1000000)
    (hlo : Date.yearStart 0 * secondsPerDay ≤ seconds)
    (hhi : seconds < Date.yearStart 10000 * secondsPerDay) :
    (ofSeconds seconds micro).IsValid where
  civil := Date.isCivil_ofDays _
  year_nonneg := by
    simp only [ofSeconds]
    rw [← not_lt, Date.year_ofDays_lt_iff, fdiv_secondsPerDay]
    unfold secondsPerDay at *
    omega
  year_lt := by
    simp only [ofSeconds]
    rw [Date.year_ofDays_lt_iff, fdiv_secondsPerDay]
    unfold secondsPerDay at *
    omega
  hour_lt := by
    simp only [ofSeconds, fmod_secondsPerDay]
    unfold secondsPerDay
    omega
  minute_lt := Nat.mod_lt _ (by decide)
  second_lt := Nat.mod_lt _ (by decide)
  micro_lt := hmicro

end WallTime

namespace Timestamp

/-- A 64-bit count of nanoseconds. -/
def Fits64 (t : Timestamp) : Prop := -2 ^ 63 ≤ t.nanos ∧ t.nanos < 2 ^ 63

/-- The offsets at which the year of every 64-bit timestamp has four digits. -/
def FourDigitYears (offsetMinutes : Int) : Prop :=
  -882397452 ≤ offsetMinutes ∧ offsetMinutes ≤ 4069648812

instance (t : Timestamp) : Decidable t.Fits64 := inferInstanceAs (Decidable (_ ∧ _))

instance (offsetMinutes : Int) : Decidable (FourDigitYears offsetMinutes) :=
  inferInstanceAs (Decidable (_ ∧ _))

theorem micros_eq (t : Timestamp) :
    t.micros = t.nanos / 1000 + (if 0 ≤ t.nanos ∨ 1000 ∣ t.nanos then 0 else 1) :=
  Int.tdiv_eq_ediv

/-- Cut toward zero, the second is the one before the instant or, before 1970, the one after. -/
theorem seconds_eq (t : Timestamp) :
    t.seconds = t.micros / 1000000 + (if 0 ≤ t.micros ∨ 1000000 ∣ t.micros then 0 else 1) :=
  Int.tdiv_eq_ediv

/-- The microseconds count from the second before the instant, on either side of 1970. -/
theorem fraction_eq (t : Timestamp) : (t.fraction : Int) = t.micros % 1000000 := by
  have hrest : t.micros - t.seconds * 1000000 = t.micros.tmod 1000000 := by
    have := Int.tmod_def t.micros 1000000
    unfold seconds
    omega
  simp only [fraction, hrest, Int.tmod_eq_emod]
  split <;> split <;> omega

theorem fraction_lt (t : Timestamp) : t.fraction < 1000000 := by
  have := t.fraction_eq
  omega

theorem seconds_bounds (t : Timestamp) (ht : t.Fits64) :
    -9223372036 ≤ t.seconds ∧ t.seconds ≤ 9223372036 := by
  obtain ⟨hlo, hhi⟩ := ht
  have hmicros := t.micros_eq
  have hseconds := t.seconds_eq
  split at hmicros <;> split at hseconds <;> omega

theorem isValid_wallTime (t : Timestamp) (offsetMinutes : Int) (ht : t.Fits64)
    (ho : FourDigitYears offsetMinutes) : (t.wallTime offsetMinutes).IsValid := by
  obtain ⟨hlo, hhi⟩ := t.seconds_bounds ht
  obtain ⟨hwest, heast⟩ := ho
  have hfirst : Date.yearStart 0 * WallTime.secondsPerDay = -62167219200 := by decide
  have hlast : Date.yearStart 10000 * WallTime.secondsPerDay = 253402300800 := by decide
  apply WallTime.isValid_ofSeconds
  · exact t.fraction_lt
  · omega
  · omega

/-- The bounds on the offset are the ones that the four digits of the year call for. -/
theorem fourDigitYears_iff (offsetMinutes : Int) : FourDigitYears offsetMinutes ↔
    ∀ t : Timestamp, t.Fits64 → (t.wallTime offsetMinutes).IsValid := by
  constructor
  · intro ho t ht
    exact t.isValid_wallTime offsetMinutes ht ho
  · intro h
    have hfirst := (h ⟨-2 ^ 63⟩ (by decide)).year_nonneg
    have hlast := (h ⟨2 ^ 63 - 1⟩ (by decide)).year_lt
    have hlo : (⟨-2 ^ 63⟩ : Timestamp).seconds = -9223372036 := by decide
    have hhi : (⟨2 ^ 63 - 1⟩ : Timestamp).seconds = 9223372036 := by decide
    simp only [wallTime, WallTime.ofSeconds, hlo, hhi, WallTime.fdiv_secondsPerDay] at hfirst hlast
    rw [← not_lt, Date.year_ofDays_lt_iff] at hfirst
    rw [Date.year_ofDays_lt_iff] at hlast
    have hstart : Date.yearStart 0 = -719528 := by decide
    have hend : Date.yearStart 10000 = 2932897 := by decide
    unfold WallTime.secondsPerDay at hfirst hlast
    unfold FourDigitYears
    omega

/-- What the text of a timestamp stands for, in microseconds. -/
theorem instant_wallTime (t : Timestamp) (offsetMinutes : Int) :
    (t.wallTime offsetMinutes).instant offsetMinutes =
      t.micros + (if 0 ≤ t.micros ∨ 1000000 ∣ t.micros then 0 else 1000000) := by
  have hclock := WallTime.clockSeconds_ofSeconds (t.seconds + 60 * offsetMinutes) t.fraction
  have hmicro : (t.wallTime offsetMinutes).micro = t.fraction := rfl
  have hfraction := t.fraction_eq
  have hseconds := t.seconds_eq
  rw [WallTime.instant, hmicro, wallTime, hclock]
  split at hseconds <;> simp only [*, if_true, if_false] <;> omega

theorem read?_render (t : Timestamp) (offsetMinutes : Int) (ht : t.Fits64)
    (ho : FourDigitYears offsetMinutes) :
    WallTime.read? (t.render offsetMinutes) = some (t.wallTime offsetMinutes) :=
  (t.isValid_wallTime offsetMinutes ht ho).read?_render

/-- Before 1970 an instant within a second is shown with the second after it. -/
theorem render_read_back (t : Timestamp) (offsetMinutes : Int) (ht : t.Fits64)
    (ho : FourDigitYears offsetMinutes) :
    ∃ w, WallTime.read? (t.render offsetMinutes) = some w ∧ w.IsValid ∧
      w.instant offsetMinutes = t.nanos.tdiv 1000 +
        (if 0 ≤ t.nanos ∨ 1000000 ∣ t.nanos.tdiv 1000 then 0 else 1000000) ∧
      (|1000 * w.instant offsetMinutes - t.nanos| < 1000 ↔
        0 ≤ t.nanos ∨ 1000000 ∣ t.nanos.tdiv 1000) := by
  have hmicros : t.micros = t.nanos.tdiv 1000 := rfl
  have hcut := t.micros_eq
  have hinstant := t.instant_wallTime offsetMinutes
  have hside : 0 ≤ t.micros ∨ 1000000 ∣ t.micros ↔ 0 ≤ t.nanos ∨ 1000000 ∣ t.micros := by
    split at hcut <;> omega
  simp only [hside] at hinstant
  refine ⟨t.wallTime offsetMinutes, t.read?_render offsetMinutes ht ho,
    t.isValid_wallTime offsetMinutes ht ho, ?_, ?_⟩
  · rw [hinstant, hmicros]
  · rw [← hmicros, hinstant, abs_lt]
    split at hcut <;> split <;> omega

theorem render_read_back_before_epoch :
    (⟨-1500000000⟩ : Timestamp).Fits64 ∧ FourDigitYears (-90) ∧
      ∃ w, WallTime.read? ((⟨-1500000000⟩ : Timestamp).render (-90)) = some w ∧ w.IsValid ∧
        w.instant (-90) = -500000 := by
  obtain ⟨w, hread, hvalid, hinstant, -⟩ :=
    render_read_back ⟨-1500000000⟩ (-90) (by decide) (by decide)
  exact ⟨by decide, by decide, w, hread, hvalid, hinstant⟩

/-- A microsecond before 1970 is shown as the last one of the second after it. -/
theorem not_read_back_before_epoch :
    (⟨-1000⟩ : Timestamp).Fits64 ∧ FourDigitYears 0 ∧
      (⟨-1000⟩ : Timestamp).render 0 = "1970-01-01 00:00:00.999999" ∧
      ¬∃ w, WallTime.read? ((⟨-1000⟩ : Timestamp).render 0) = some w ∧
        |1000 * w.instant 0 - (-1000)| < 1000 := by
  refine ⟨by decide, by decide, by decide, ?_⟩
  rintro ⟨w, hread, hlt⟩
  rw [read?_render _ _ (by decide) (by decide), Option.some_inj] at hread
  subst hread
  rw [instant_wallTime] at hlt
  revert hlt
  decide

end Timestamp
end CheckedLock
