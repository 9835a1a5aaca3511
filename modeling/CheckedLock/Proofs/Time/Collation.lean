import CheckedLock.Proofs.Time.Reading
/-! From 1970 on, texts of timestamps are in the order of their microseconds. -/
namespace CheckedLock
namespace WallTime

variable {a b : WallTime}

theorem IsValid.clockSeconds_of_day (hb : b.IsValid) :
    b.date.dayNumber * 86400 ≤ b.clockSeconds ∧
      b.clockSeconds < (b.date.dayNumber + 1) * 86400 := by
  have := hb.hour_lt
  have := hb.minute_lt
  have := hb.second_lt
  unfold clockSeconds
  omega

theorem instant_lt_of_clockSeconds (offsetMinutes : Int) (ha : a.IsValid)
    (h : a.clockSeconds < b.clockSeconds) : a.instant offsetMinutes < b.instant offsetMinutes := by
  have := ha.micro_lt
  unfold instant
  omega

theorem instant_lt_of_day (offsetMinutes : Int) (ha : a.IsValid) (hb : b.IsValid)
    (h : a.date.dayNumber < b.date.dayNumber) :
    a.instant offsetMinutes < b.instant offsetMinutes := by
  apply instant_lt_of_clockSeconds offsetMinutes ha
  have hfirst := ha.clockSeconds_of_day
  have hsecond := hb.clockSeconds_of_day
  omega

/-- One case for each column that can be the first to differ. -/
theorem instant_lt_of_columns_lt (offsetMinutes : Int) (ha : a.IsValid) (hb : b.IsValid)
    (h : a.columns < b.columns) : a.instant offsetMinutes < b.instant offsetMinutes := by
  have hya := Int.toNat_of_nonneg ha.year_nonneg
  have hyb := Int.toNat_of_nonneg hb.year_nonneg
  simp only [columns, List.cons_lt_cons_iff, List.lt_irrefl, and_false, or_false] at h
  rcases h with hyear | ⟨hyear, hmonth | ⟨hmonth, h⟩⟩
  · exact instant_lt_of_day _ ha hb (Date.dayNumber_lt_of_year ha.civil hb.civil (by omega))
  · exact instant_lt_of_day _ ha hb
      (Date.dayNumber_lt_of_month ha.civil hb.civil (by omega) hmonth)
  have hyear : a.date.year = b.date.year := by omega
  rcases h with hday | ⟨hday, h⟩
  · apply instant_lt_of_day _ ha hb
    rw [Date.dayNumber, Date.dayNumber, hyear, hmonth]
    omega
  have hdate : a.date.dayNumber = b.date.dayNumber := by
    rw [Date.dayNumber, Date.dayNumber, hyear, hmonth, hday]
  have := ha.minute_lt
  have := ha.second_lt
  have := ha.micro_lt
  unfold instant clockSeconds
  omega

theorem columns_inj (ha : a.IsValid) (hb : b.IsValid) (h : a.columns = b.columns) : a = b := by
  have hcolumns := ha.ofColumns?_columns
  rw [h, hb.ofColumns?_columns] at hcolumns
  exact (Option.some.inj hcolumns).symm

theorem columns_lt_iff (offsetMinutes : Int) (ha : a.IsValid) (hb : b.IsValid) :
    a.columns < b.columns ↔ a.instant offsetMinutes < b.instant offsetMinutes := by
  constructor
  · exact instant_lt_of_columns_lt offsetMinutes ha hb
  · intro h
    rcases lt_trichotomy a.columns b.columns with hlt | heq | hgt
    · exact hlt
    · rw [columns_inj ha hb heq] at h
      exact absurd h (lt_irrefl _)
    · exact absurd h (lt_asymm (instant_lt_of_columns_lt offsetMinutes hb ha hgt))

theorem render_lt_iff (offsetMinutes : Int) (ha : a.IsValid) (hb : b.IsValid) :
    a.render < b.render ↔ a.instant offsetMinutes < b.instant offsetMinutes := by
  rw [String.lt_iff_toList_lt, toList_render, toList_render, Column.row_lt_iff ha.fits hb.fits]
  exact columns_lt_iff offsetMinutes ha hb

theorem render_eq_iff (offsetMinutes : Int) (ha : a.IsValid) (hb : b.IsValid) :
    a.render = b.render ↔ a.instant offsetMinutes = b.instant offsetMinutes := by
  rw [le_antisymm_iff, ← not_lt, ← not_lt, render_lt_iff offsetMinutes ha hb,
    render_lt_iff offsetMinutes hb ha]
  omega

end WallTime

namespace Timestamp

theorem instant_of_nonneg (t : Timestamp) (offsetMinutes : Int) (h : 0 ≤ t.nanos) :
    (t.wallTime offsetMinutes).instant offsetMinutes = t.nanos / 1000 := by
  have hmicros : t.micros = t.nanos / 1000 := Int.tdiv_eq_ediv_of_nonneg h
  rw [instant_wallTime, hmicros]
  split <;> omega

theorem ordered_as_text (t u : Timestamp) (offsetMinutes : Int) (ht : t.Fits64) (hu : u.Fits64)
    (ho : FourDigitYears offsetMinutes) (ht0 : 0 ≤ t.nanos) (hu0 : 0 ≤ u.nanos) :
    (t.render offsetMinutes < u.render offsetMinutes ↔ t.nanos / 1000 < u.nanos / 1000) ∧
      (t.render offsetMinutes = u.render offsetMinutes ↔ t.nanos / 1000 = u.nanos / 1000) := by
  have hvt := t.isValid_wallTime offsetMinutes ht ho
  have hvu := u.isValid_wallTime offsetMinutes hu ho
  rw [← t.instant_of_nonneg offsetMinutes ht0, ← u.instant_of_nonneg offsetMinutes hu0]
  constructor
  · exact WallTime.render_lt_iff offsetMinutes hvt hvu
  · exact WallTime.render_eq_iff offsetMinutes hvt hvu

/-- The last microsecond of a leap day and the first one of the day after. -/
theorem ordered_over_leap_day :
    (⟨951868799999999999⟩ : Timestamp).render 0 < (⟨951868800000000000⟩ : Timestamp).render 0 := by
  have h := ordered_as_text ⟨951868799999999999⟩ ⟨951868800000000000⟩ 0 (by decide) (by decide)
    (by decide) (by decide) (by decide)
  exact h.1.2 (by decide)

end Timestamp
end CheckedLock
