import CheckedLock.Time.Calendar
import Mathlib.Order.Monotone.Basic
import Mathlib.Tactic.IntervalCases
/-! The civil calendar, and that the count of days follows it. -/
namespace CheckedLock
namespace Date

def IsLeap (y : Int) : Prop := 4 ∣ y ∧ (¬100 ∣ y ∨ 400 ∣ y)

instance (y : Int) : Decidable (IsLeap y) := inferInstanceAs (Decidable (_ ∧ _))

def yearLength (y : Int) : Nat := if IsLeap y then 366 else 365

/-- Days of the month `m` of the year `y`, January being 1. -/
def monthLength (y : Int) (m : Nat) : Nat :=
  if m = 2 then (if IsLeap y then 29 else 28)
  else if m ∈ [4, 6, 9, 11] then 30 else 31

/-- Days of the year `y` before its month `m`. -/
def monthStart (y : Int) (m : Nat) : Nat :=
  ((List.range' 1 (m - 1)).map (monthLength y)).sum

/-- Days from 1 January 1970 to the first day of the year `y`. -/
def yearStart (y : Int) : Int :=
  365 * (y - 1970) + ((y - 1) / 4 - (y - 1) / 100 + (y - 1) / 400 - 477)

/-- Days from 1 January 1970 to a date. -/
def dayNumber (date : Date) : Int :=
  yearStart date.year + monthStart date.year date.month + date.day - 1

theorem monthLength_le (y : Int) (m : Nat) : monthLength y m ≤ 31 := by
  unfold monthLength
  split
  · split <;> omega
  · split <;> omega

structure IsCivil (date : Date) : Prop where
  month_pos : 1 ≤ date.month
  month_le : date.month ≤ 12
  day_pos : 1 ≤ date.day
  day_le : date.day ≤ monthLength date.year date.month

theorem yearStart_succ (y : Int) : yearStart (y + 1) = yearStart y + yearLength y := by
  by_cases h : IsLeap y
  all_goals
    simp only [yearStart, yearLength, h, if_true, if_false]
    unfold IsLeap at h
    omega

theorem yearStart_mono {y z : Int} (h : y ≤ z) : yearStart y ≤ yearStart z := by
  obtain ⟨n, rfl⟩ := Int.le.dest h
  clear h
  induction n with
  | zero => simp
  | succ n ih =>
    have hsucc := yearStart_succ (y + n)
    rw [Int.add_assoc] at hsucc
    push_cast
    omega

theorem monthStart_succ (y : Int) (m : Nat) (hm : 1 ≤ m) :
    monthStart y (m + 1) = monthStart y m + monthLength y m := by
  obtain ⟨k, rfl⟩ := Nat.exists_eq_add_of_le' hm
  simp [monthStart, List.range'_concat, Nat.add_comm 1 k]

theorem monthStart_year (y : Int) : monthStart y 13 = yearLength y := by
  by_cases h : IsLeap y
  all_goals simp [monthStart, monthLength, yearLength, h, List.range'_succ]

theorem monthStart_mono (y : Int) : Monotone (monthStart y) := by
  apply monotone_nat_of_le_succ
  intro m
  by_cases hm : 1 ≤ m
  · rw [monthStart_succ y m hm]
    omega
  · have : m = 0 := by omega
    subst this
    exact le_rfl

/-- The day `r` of the year that begins on 1 March of `y`, both counted from 0. -/
def ofMarch (y : Int) (r : Nat) : Date :=
  { year := if monthOfYear r < 10 then y else y + 1
    month := if monthOfYear r < 10 then monthOfYear r + 3 else monthOfYear r - 9
    day := r - daysBeforeMonth (monthOfYear r) + 1 }

theorem monthOfYear_le (r : Nat) (hr : r ≤ 365) : monthOfYear r ≤ 11 := by
  unfold monthOfYear
  omega

theorem daysBeforeMonth_le (r : Nat) : daysBeforeMonth (monthOfYear r) ≤ r := by
  unfold daysBeforeMonth monthOfYear
  omega

theorem lt_daysBeforeMonth (r : Nat) : r < daysBeforeMonth (monthOfYear r + 1) := by
  unfold daysBeforeMonth monthOfYear
  omega

/-- January and February belong to the year begun in the March before. -/
theorem yearStart_march (y : Int) :
    yearStart (y + 1) - 306 = yearStart y + monthStart y 3 := by
  rw [yearStart_succ]
  by_cases h : IsLeap y
  all_goals
    simp [yearLength, monthStart, monthLength, h, List.range'_succ]
    omega

theorem monthStart_of_march (y : Int) (m : Nat) (hm : m < 10) :
    monthStart y (m + 3) = monthStart y 3 + daysBeforeMonth m := by
  by_cases h : IsLeap y
  all_goals
    interval_cases m
    all_goals simp [monthStart, monthLength, daysBeforeMonth, h, List.range'_succ]

theorem monthLength_of_march (y : Int) (m : Nat) (hm : m < 10) :
    daysBeforeMonth (m + 1) = daysBeforeMonth m + monthLength y (m + 3) := by
  interval_cases m
  all_goals simp [monthLength, daysBeforeMonth]

theorem dayNumber_ofMarch (y : Int) (r : Nat) (hr : r ≤ 365) :
    (ofMarch y r).dayNumber = yearStart (y + 1) - 306 + r := by
  have hm := monthOfYear_le r hr
  have hb := daysBeforeMonth_le r
  generalize hk : monthOfYear r = m at hm hb
  simp only [ofMarch, dayNumber, hk]
  by_cases h : m < 10
  · simp only [h, if_true]
    rw [monthStart_of_march y m h, yearStart_march]
    omega
  · simp only [h, if_false]
    obtain rfl | rfl : m = 10 ∨ m = 11 := by omega
    · have : monthStart (y + 1) (10 - 9) = 0 := rfl
      simp only [daysBeforeMonth] at hb ⊢
      omega
    · have : monthStart (y + 1) (11 - 9) = 31 := rfl
      simp only [daysBeforeMonth] at hb ⊢
      omega

theorem isCivil_ofMarch (y : Int) (r : Nat) (hr : r < yearLength (y + 1)) :
    (ofMarch y r).IsCivil := by
  have hle : r ≤ 365 := by
    unfold yearLength at hr
    split at hr <;> omega
  have hm := monthOfYear_le r hle
  have hb := daysBeforeMonth_le r
  have hlt := lt_daysBeforeMonth r
  generalize hk : monthOfYear r = m at hm hb hlt
  by_cases h : m < 10
  · have := monthLength_of_march y m h
    constructor
    all_goals
      simp only [ofMarch, hk, h, if_true]
      omega
  · obtain rfl | rfl : m = 10 ∨ m = 11 := by omega
    · simp only [daysBeforeMonth] at hb hlt
      constructor
      all_goals simp [ofMarch, hk, monthLength, daysBeforeMonth]
      omega
    · simp only [daysBeforeMonth] at hb
      constructor
      all_goals simp [ofMarch, hk, monthLength, daysBeforeMonth]
      unfold yearLength at hr
      split at hr
      all_goals
        rename_i h
        simp only [h, if_true, if_false]
        omega

/-- The four nested periods of a cycle: centuries, leap periods, years, days. -/
theorem exists_periods (n : Nat) (hn : n < 146097) :
    ∃ c q s r, c < 4 ∧ q < 25 ∧ s < 4 ∧ r ≤ 365 ∧ (r = 365 → s = 3 ∧ (q = 24 → c = 3)) ∧
      n = 36524 * c + 1461 * q + 365 * s + r := by
  refine ⟨min (n / 36524) 3, (n - 36524 * min (n / 36524) 3) / 1461, ?_⟩
  generalize hc : min (n / 36524) 3 = c
  refine ⟨min ((n - 36524 * c) % 1461 / 365) 3,
    (n - 36524 * c) % 1461 - 365 * min ((n - 36524 * c) % 1461 / 365) 3, ?_⟩
  generalize hs : min ((n - 36524 * c) % 1461 / 365) 3 = s
  omega

theorem yearOfCycle_periods (c q s r : Nat) (hc : c < 4) (hq : q < 25) (hs : s < 4)
    (hr : r ≤ 365) (hl : r = 365 → s = 3 ∧ (q = 24 → c = 3)) :
    yearOfCycle (36524 * c + 1461 * q + 365 * s + r) = 100 * c + 4 * q + s := by
  unfold yearOfCycle
  generalize hn : 36524 * c + 1461 * q + 365 * s + r = n
  have hcent : n / 36524 - n / 146096 = c := by omega
  have hleap : n / 1460 = 25 * c + q + (if 1460 ≤ 24 * c + q + 365 * s + r then 1 else 0) := by
    split <;> omega
  split at hleap <;> omega

theorem daysBefore_periods (c q s : Nat) (hq : q < 25) (hs : s < 4) :
    daysBefore (100 * c + 4 * q + s) = 36524 * c + 1461 * q + 365 * s := by
  unfold daysBefore
  omega

theorem yearOfCycle_lt (n : Nat) (hn : n < 146097) : yearOfCycle n < 400 := by
  rcases exists_periods n hn with ⟨c, q, s, r, hc, hq, hs, hr, hl, rfl⟩
  rw [yearOfCycle_periods c q s r hc hq hs hr hl]
  omega

theorem daysBefore_le (n : Nat) (hn : n < 146097) : daysBefore (yearOfCycle n) ≤ n := by
  rcases exists_periods n hn with ⟨c, q, s, r, hc, hq, hs, hr, hl, rfl⟩
  rw [yearOfCycle_periods c q s r hc hq hs hr hl, daysBefore_periods c q s hq hs]
  omega

theorem ofYear_lt (n : Nat) (hn : n < 146097) :
    n - daysBefore (yearOfCycle n) < yearLength (yearOfCycle n + 1) := by
  rcases exists_periods n hn with ⟨c, q, s, r, hc, hq, hs, hr, hl, rfl⟩
  rw [yearOfCycle_periods c q s r hc hq hs hr hl, daysBefore_periods c q s hq hs]
  by_cases h : IsLeap ((100 * c + 4 * q + s : Nat) + 1)
  · simp only [yearLength, h, if_true]
    omega
  · simp only [yearLength, h, if_false]
    have : r ≠ 365 := by
      intro hr365
      apply h
      unfold IsLeap
      omega
    omega

@[simp] theorem yearLength_cycles (y c : Int) : yearLength (y + 400 * c) = yearLength y := by
  have : IsLeap (y + 400 * c) ↔ IsLeap y := by
    unfold IsLeap
    omega
  simp only [yearLength, this]

theorem yearStart_cycles (c : Int) (y : Nat) (hy : y < 400) :
    yearStart (y + 400 * c + 1) = cycleDays * c + daysBefore y - 719162 := by
  unfold yearStart daysBefore cycleDays
  omega

theorem ofDays_cases (days : Int) :
    ∃ (c : Int) (n : Nat), n < 146097 ∧ days = cycleDays * c + n - epochShift ∧
      ofDays days = ofMarch (yearOfCycle n + 400 * c) (n - daysBefore (yearOfCycle n)) := by
  have hdiv : (days + epochShift).fdiv cycleDays = (days + epochShift) / cycleDays :=
    Int.fdiv_eq_ediv_of_nonneg _ (by decide)
  have hmod : (days + epochShift).fmod cycleDays = (days + epochShift) % cycleDays :=
    Int.fmod_eq_emod_of_nonneg _ (by decide)
  refine ⟨(days + epochShift).fdiv cycleDays, ((days + epochShift).fmod cycleDays).toNat,
    ?_, ?_, rfl⟩
  · rw [hmod]
    unfold cycleDays
    omega
  · rw [hdiv, hmod]
    unfold cycleDays
    omega

theorem dayNumber_ofDays (days : Int) : (ofDays days).dayNumber = days := by
  rcases ofDays_cases days with ⟨c, n, hn, rfl, hof⟩
  have hle := daysBefore_le n hn
  have hlt := ofYear_lt n hn
  have hlen : yearLength (yearOfCycle n + 1) ≤ 366 := by
    unfold yearLength
    split <;> omega
  rw [hof, dayNumber_ofMarch _ _ (by omega), yearStart_cycles c _ (yearOfCycle_lt n hn)]
  unfold epochShift
  omega

theorem isCivil_ofDays (days : Int) : (ofDays days).IsCivil := by
  rcases ofDays_cases days with ⟨c, n, hn, -, hof⟩
  rw [hof]
  apply isCivil_ofMarch
  have hy : (yearOfCycle n + 400 * c + 1 : Int) = yearOfCycle n + 1 + 400 * c := by omega
  rw [hy, yearLength_cycles]
  exact ofYear_lt n hn

theorem IsCivil.start_le {date : Date} (h : date.IsCivil) :
    yearStart date.year + monthStart date.year date.month ≤ date.dayNumber := by
  have := h.day_pos
  unfold dayNumber
  omega

theorem IsCivil.lt_start_succ {date : Date} (h : date.IsCivil) :
    date.dayNumber < yearStart date.year + monthStart date.year (date.month + 1) := by
  rw [monthStart_succ _ _ h.month_pos]
  have := h.day_le
  unfold dayNumber
  omega

theorem IsCivil.lt_yearStart_succ {date : Date} (h : date.IsCivil) :
    date.dayNumber < yearStart (date.year + 1) := by
  have hlt := h.lt_start_succ
  have hmono : monthStart date.year (date.month + 1) ≤ monthStart date.year 13 :=
    monthStart_mono _ (Nat.succ_le_succ h.month_le)
  rw [monthStart_year] at hmono
  rw [yearStart_succ]
  omega

theorem dayNumber_lt_of_year {a b : Date} (ha : a.IsCivil) (hb : b.IsCivil)
    (h : a.year < b.year) : a.dayNumber < b.dayNumber :=
  calc a.dayNumber < yearStart (a.year + 1) := ha.lt_yearStart_succ
    _ ≤ yearStart b.year := yearStart_mono h
    _ ≤ b.dayNumber := by
      have := hb.start_le
      omega

theorem dayNumber_lt_of_month {a b : Date} (ha : a.IsCivil) (hb : b.IsCivil)
    (hy : a.year = b.year) (h : a.month < b.month) : a.dayNumber < b.dayNumber := by
  have hmono : monthStart b.year (a.month + 1) ≤ monthStart b.year b.month :=
    monthStart_mono _ h
  calc a.dayNumber < yearStart a.year + monthStart a.year (a.month + 1) := ha.lt_start_succ
    _ ≤ yearStart b.year + monthStart b.year b.month := by rw [hy]; omega
    _ ≤ b.dayNumber := hb.start_le

theorem year_ofDays_lt_iff (days y : Int) : (ofDays days).year < y ↔ days < yearStart y := by
  have hcivil := isCivil_ofDays days
  have hstart := hcivil.start_le
  have hend := hcivil.lt_yearStart_succ
  rw [dayNumber_ofDays] at hstart hend
  constructor
  · intro h
    exact hend.trans_le (yearStart_mono h)
  · intro h
    by_contra hle
    have := yearStart_mono (not_lt.1 hle)
    omega

end Date
end CheckedLock
