import Mathlib.Data.Int.Basic
import Mathlib.Tactic.IntervalCases

/-!
# The Gregorian Calendar

A date is a year, a month and a day, and a moment is a date with a time of day. The days are
counted from the start of the year 1970 (`Date.number`), and the seconds from there as well
(`Moment.epoch`), in the calendar of today for all years.

The count is the one in which every year follows the one before it (`yearStart_succ`) and every
month the one before it (`monthStart_succ`). Moments that are in the calendar are counted in their
order (`epoch_lt_iff`), so that the count determines the moment (`epoch_injective`), and every
number of seconds belongs to one (`ofEpoch_spec`).
-/

namespace Calendar

/-! ### Years and months -/

/-- A leap year. -/
def IsLeap (y : ℤ) : Prop := y % 4 = 0 ∧ y % 100 ≠ 0 ∨ y % 400 = 0

instance (y : ℤ) : Decidable (IsLeap y) := inferInstanceAs (Decidable (_ ∨ _))

/-- The days of a year. -/
def yearDays (y : ℤ) : ℤ := if IsLeap y then 366 else 365

/-- The days in front of a year, from 1970 on. -/
def yearStart (y : ℤ) : ℤ :=
  365 * (y - 1970) + ((y - 1) / 4 - (y - 1) / 100 + (y - 1) / 400) - 477

/-- The days of a month, the first month being 1. -/
def monthDays (y : ℤ) (m : ℕ) : ℕ :=
  if m = 2 then (if IsLeap y then 29 else 28)
  else if m = 4 ∨ m = 6 ∨ m = 9 ∨ m = 11 then 30 else 31

/-- The days of a year in front of a month. -/
def monthStart (y : ℤ) (m : ℕ) : ℕ :=
  [0, 0, 31, 59, 90, 120, 151, 181, 212, 243, 273, 304, 334, 365].getD m 365 +
    if 2 < m ∧ IsLeap y then 1 else 0

theorem yearStart_epoch : yearStart 1970 = 0 := rfl

/-- Every year starts behind the one before it. -/
theorem yearStart_succ (y : ℤ) : yearStart (y + 1) = yearStart y + yearDays y := by
  rw [yearStart, yearStart, yearDays]
  split_ifs with hleap
  · rw [IsLeap] at hleap
    omega
  · rw [IsLeap] at hleap
    omega

theorem yearStart_mono {y z : ℤ} (h : y ≤ z) : yearStart y ≤ yearStart z := by
  rw [yearStart, yearStart]
  omega

theorem monthStart_one (y : ℤ) : monthStart y 1 = 0 := by
  simp [monthStart]

/-- Every month starts behind the one before it. -/
theorem monthStart_succ (y : ℤ) {m : ℕ} (hm : 1 ≤ m) (hm' : m ≤ 12) :
    monthStart y (m + 1) = monthStart y m + monthDays y m := by
  by_cases hleap : IsLeap y
  · interval_cases m <;> simp [monthStart, monthDays, hleap]
  · interval_cases m <;> simp [monthStart, monthDays, hleap]

/-- A month ends before a later one starts. -/
theorem monthStart_add_le (y : ℤ) {m n : ℕ} (hm : 1 ≤ m) (hn : n ≤ 13) (h : m < n) :
    monthStart y m + monthDays y m ≤ monthStart y n := by
  rw [← monthStart_succ y hm (by omega)]
  induction n, h using Nat.le_induction with
  | base => exact le_rfl
  | succ n hmn ih =>
      have hstep := monthStart_succ y (show 1 ≤ n by omega) (by omega)
      have hle := ih (by omega)
      omega

/-- Twelve months make a year. -/
theorem monthStart_thirteen (y : ℤ) : (monthStart y 13 : ℤ) = yearDays y := by
  rw [yearDays, monthStart]
  split_ifs with h₁ h₂ h₂
  · rfl
  · exact absurd h₁.2 h₂
  · exact absurd ⟨by decide, h₂⟩ h₁
  · rfl

theorem monthDays_pos (y : ℤ) (m : ℕ) : 0 < monthDays y m := by
  rw [monthDays]
  split_ifs
  all_goals omega

/-! ### Dates -/

/-- A date. -/
structure Date where
  year : ℤ
  month : ℕ
  day : ℕ
  deriving DecidableEq, Repr

namespace Date

/-- A date is in the calendar. -/
structure Valid (d : Date) : Prop where
  month_pos : 1 ≤ d.month
  month_le : d.month ≤ 12
  day_pos : 1 ≤ d.day
  day_le : d.day ≤ monthDays d.year d.month

/-- The days from the start of 1970 to a date. -/
def number (d : Date) : ℤ := yearStart d.year + monthStart d.year d.month + d.day - 1

/-- The date behind a date. -/
def next (d : Date) : Date :=
  if d.day < monthDays d.year d.month then { d with day := d.day + 1 }
  else if d.month < 12 then ⟨d.year, d.month + 1, 1⟩
  else ⟨d.year + 1, 1, 1⟩

/-- The date in front of a date. -/
def prev (d : Date) : Date :=
  if 1 < d.day then { d with day := d.day - 1 }
  else if 1 < d.month then ⟨d.year, d.month - 1, monthDays d.year (d.month - 1)⟩
  else ⟨d.year - 1, 12, monthDays (d.year - 1) 12⟩

variable {d : Date}

/-- The year of a date ends behind it. -/
theorem Valid.number_lt (hd : d.Valid) : d.number < yearStart (d.year + 1) := by
  have hend := monthStart_add_le d.year hd.month_pos le_rfl (Nat.lt_succ_of_le hd.month_le)
  have hyear := monthStart_thirteen d.year
  have hlast := hd.day_le
  rw [number, yearStart_succ]
  omega

theorem Valid.le_number (hd : d.Valid) : yearStart d.year ≤ d.number := by
  have hpos := hd.day_pos
  rw [number]
  omega

theorem Valid.next (hd : d.Valid) : d.next.Valid ∧ d.next.number = d.number + 1 := by
  obtain ⟨hm, hm', hday, hday'⟩ := hd
  have hmonth := monthStart_succ d.year hm hm'
  rw [Date.next]
  split_ifs with h₁ h₂
  · refine ⟨⟨hm, hm', Nat.succ_pos _, h₁⟩, ?_⟩
    rw [number, number]
    push_cast
    omega
  · refine ⟨⟨Nat.succ_pos _, h₂, le_rfl, monthDays_pos _ _⟩, ?_⟩
    rw [number, number]
    simp only [hmonth]
    omega
  · have hlast := monthDays_pos (d.year + 1) 1
    refine ⟨⟨le_rfl, Nat.succ_le_of_lt (Nat.succ_pos _), le_rfl, hlast⟩, ?_⟩
    have htwelve : d.month = 12 := by omega
    have hyear := monthStart_thirteen d.year
    rw [htwelve] at hmonth h₁ hday'
    have hthirteen : monthStart d.year 13 = monthStart d.year 12 + monthDays d.year 12 := hmonth
    rw [number, number]
    simp only [htwelve, yearStart_succ, monthStart_one]
    omega

theorem Valid.prev (hd : d.Valid) : d.prev.Valid ∧ d.prev.number = d.number - 1 := by
  obtain ⟨hm, hm', hday, hday'⟩ := hd
  rw [Date.prev]
  split_ifs with h₁ h₂
  · have hpos : 1 ≤ d.day - 1 := by omega
    have hle : d.day - 1 ≤ monthDays d.year d.month := by omega
    refine ⟨⟨hm, hm', hpos, hle⟩, ?_⟩
    rw [number, number]
    simp only
    omega
  · have hpos : 1 ≤ d.month - 1 := by omega
    have hle : d.month - 1 ≤ 12 := by omega
    have hmonth := monthStart_succ d.year hpos hle
    rw [Nat.sub_add_cancel hm] at hmonth
    refine ⟨⟨hpos, hle, monthDays_pos _ _, le_rfl⟩, ?_⟩
    rw [number, number]
    simp only
    omega
  · have hlast := monthDays_pos (d.year - 1) 12
    refine ⟨⟨Nat.succ_pos _, le_rfl, hlast, le_rfl⟩, ?_⟩
    have hone : d.month = 1 := by omega
    have hyear := monthStart_thirteen (d.year - 1)
    have hmonth : monthStart (d.year - 1) 13 =
        monthStart (d.year - 1) 12 + monthDays (d.year - 1) 12 :=
      monthStart_succ (d.year - 1) (by omega) le_rfl
    have hsucc := yearStart_succ (d.year - 1)
    rw [Int.sub_add_cancel] at hsucc
    rw [number, number]
    simp only [hone, monthStart_one]
    omega

/-- The date with a number. -/
def ofNumber : ℤ → Date
  | .ofNat n => Date.next^[n] ⟨1970, 1, 1⟩
  | .negSucc n => Date.prev^[n + 1] ⟨1970, 1, 1⟩

theorem ofNumber_spec (n : ℤ) : (ofNumber n).Valid ∧ (ofNumber n).number = n := by
  have hstart : Valid ⟨1970, 1, 1⟩ ∧ number ⟨1970, 1, 1⟩ = 0 := by
    refine ⟨⟨le_rfl, Nat.succ_pos _, le_rfl, monthDays_pos _ _⟩, ?_⟩
    rw [number, yearStart_epoch, monthStart_one]
    rfl
  rcases n with n | n
  · induction n with
    | zero => exact hstart
    | succ n ih =>
        obtain ⟨hvalid, hnumber⟩ := ih
        obtain ⟨hnext, hnext'⟩ := hvalid.next
        have hiter : ofNumber (.ofNat (n + 1)) = (ofNumber (.ofNat n)).next :=
          Function.iterate_succ_apply' _ _ _
        rw [hiter]
        exact ⟨hnext, hnext'.trans (by rw [hnumber]; rfl)⟩
  · induction n with
    | zero =>
        obtain ⟨hprev, hprev'⟩ := hstart.1.prev
        exact ⟨hprev, hprev'.trans (by rw [hstart.2]; rfl)⟩
    | succ n ih =>
        obtain ⟨hvalid, hnumber⟩ := ih
        obtain ⟨hprev, hprev'⟩ := hvalid.prev
        have hiter : ofNumber (.negSucc (n + 1)) = (ofNumber (.negSucc n)).prev :=
          Function.iterate_succ_apply' _ _ _
        rw [hiter]
        exact ⟨hprev, hprev'.trans (by rw [hnumber]; omega)⟩

end Date

/-! ### Moments -/

/-- A date and a time of day. -/
structure Moment where
  date : Date
  hour : ℕ
  min : ℕ
  sec : ℕ
  deriving DecidableEq, Repr

namespace Moment

/-- A moment is in the calendar. -/
structure Valid (t : Moment) : Prop where
  date : t.date.Valid
  hour : t.hour < 24
  min : t.min < 60
  sec : t.sec < 60

/-- The seconds from the start of 1970 to a moment. -/
def epoch (t : Moment) : ℤ := t.date.number * 86400 + t.hour * 3600 + t.min * 60 + t.sec

/-- The order of moments by their fields. -/
def Before (t u : Moment) : Prop :=
  t.date.year < u.date.year ∨ t.date.year = u.date.year ∧
    (t.date.month < u.date.month ∨ t.date.month = u.date.month ∧
      (t.date.day < u.date.day ∨ t.date.day = u.date.day ∧
        (t.hour < u.hour ∨ t.hour = u.hour ∧
          (t.min < u.min ∨ t.min = u.min ∧ t.sec < u.sec))))

variable {t u : Moment}

/-- **What is before by its fields is before in the count.** -/
theorem epoch_lt_of_before (ht : t.Valid) (hu : u.Valid) (h : t.Before u) : t.epoch < u.epoch := by
  obtain ⟨⟨hm, hm', hd, hd'⟩, hh, hmin, hs⟩ := ht
  obtain ⟨⟨gm, gm', gd, gd'⟩, gh, gmin, gs⟩ := hu
  rw [epoch, epoch]
  rcases h with hy | ⟨hy, hmo | ⟨hmo, h⟩⟩
  · have hlt := Date.Valid.number_lt ⟨hm, hm', hd, hd'⟩
    have hle := Date.Valid.le_number ⟨gm, gm', gd, gd'⟩
    have hmono := yearStart_mono (show t.date.year + 1 ≤ u.date.year by omega)
    omega
  · have hstart := monthStart_add_le t.date.year hm (by omega) hmo
    rw [Date.number, Date.number, ← hy]
    omega
  · rw [Date.number, Date.number, ← hy, ← hmo]
    omega

/-- Moments that are not equal are before one another. -/
theorem before_or_before (h : t ≠ u) : t.Before u ∨ u.Before t := by
  rw [Before, Before]
  by_contra hno
  refine h ?_
  obtain ⟨⟨y, m, d⟩, hh, mi, s⟩ := t
  obtain ⟨⟨y', m', d'⟩, hh', mi', s'⟩ := u
  simp only at hno
  obtain rfl : y = y' := by omega
  obtain rfl : m = m' := by omega
  obtain rfl : d = d' := by omega
  obtain rfl : hh = hh' := by omega
  obtain rfl : mi = mi' := by omega
  obtain rfl : s = s' := by omega
  rfl

/-- The count determines the moment. -/
theorem epoch_injective (ht : t.Valid) (hu : u.Valid) (h : t.epoch = u.epoch) : t = u := by
  by_contra hne
  rcases before_or_before hne with hlt | hlt
  · exact absurd h (epoch_lt_of_before ht hu hlt).ne
  · exact absurd h.symm (epoch_lt_of_before hu ht hlt).ne

/-- The order in the count is the order by the fields. -/
theorem epoch_lt_iff (ht : t.Valid) (hu : u.Valid) : t.epoch < u.epoch ↔ t.Before u := by
  refine ⟨fun h => ?_, epoch_lt_of_before ht hu⟩
  have hne : t ≠ u := by
    rintro rfl
    exact lt_irrefl _ h
  exact (before_or_before hne).resolve_right
    fun hback => lt_asymm h (epoch_lt_of_before hu ht hback)

/-- The moment with a number of seconds. -/
def ofEpoch (n : ℤ) : Moment :=
  ⟨Date.ofNumber (n / 86400), (n % 86400 / 3600).toNat, (n % 3600 / 60).toNat, (n % 60).toNat⟩

/-- Every number of seconds belongs to a moment. -/
theorem ofEpoch_spec (n : ℤ) : (ofEpoch n).Valid ∧ (ofEpoch n).epoch = n := by
  obtain ⟨hvalid, hnumber⟩ := Date.ofNumber_spec (n / 86400)
  refine ⟨⟨hvalid, ?_, ?_, ?_⟩, ?_⟩
  · change (n % 86400 / 3600).toNat < 24
    omega
  · change (n % 3600 / 60).toNat < 60
    omega
  · change (n % 60).toNat < 60
    omega
  · rw [epoch, ofEpoch]
    simp only [hnumber]
    omega

end Moment

end Calendar
