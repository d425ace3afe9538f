import Mathlib.Order.Nat
import Mathlib.Algebra.Order.Ring.Int

/-!
The Gregorian calendar: the days counted from the first of January of the year one, and that the
dates of the calendar are ordered by their days.
-/

namespace Zambesii.Calendar

def IsLeap (year : ℤ) : Prop := year % 4 = 0 ∧ (year % 100 ≠ 0 ∨ year % 400 = 0)

instance (year : ℤ) : Decidable (IsLeap year) := inferInstanceAs (Decidable (_ ∧ _))

def daysInMonth (year : ℤ) (month : ℕ) : ℕ :=
  if month = 2 then if IsLeap year then 29 else 28
  else if month = 4 ∨ month = 6 ∨ month = 9 ∨ month = 11 then 30 else 31

def daysInYear (year : ℤ) : ℕ := if IsLeap year then 366 else 365

def daysBeforeYear (year : ℤ) : ℤ :=
  365 * (year - 1) + (year - 1) / 4 - (year - 1) / 100 + (year - 1) / 400

def daysBeforeMonth (year : ℤ) : ℕ → ℕ
  | 0 => 0
  | 1 => 0
  | month + 2 => daysBeforeMonth year (month + 1) + daysInMonth year (month + 1)

def dayNumber (year : ℤ) (month day : ℕ) : ℤ :=
  daysBeforeYear year + daysBeforeMonth year month + day

structure IsDate (year : ℤ) (month day : ℕ) : Prop where
  month_pos : 1 ≤ month
  month_le : month ≤ 12
  day_pos : 1 ≤ day
  day_le : day ≤ daysInMonth year month

theorem daysBeforeYear_succ (year : ℤ) :
    daysBeforeYear (year + 1) = daysBeforeYear year + daysInYear year := by
  rw [daysInYear]
  rcases Decidable.em (IsLeap year) with hleap | hleap
  · rw [if_pos hleap]
    unfold IsLeap at hleap
    unfold daysBeforeYear
    omega
  · rw [if_neg hleap]
    unfold IsLeap at hleap
    unfold daysBeforeYear
    omega

variable {year year' : ℤ} {month month' day day' : ℕ}

theorem daysBeforeYear_mono (h : year < year') :
    daysBeforeYear year + daysInYear year ≤ daysBeforeYear year' := by
  rw [← daysBeforeYear_succ]
  unfold daysBeforeYear
  omega

theorem daysBeforeMonth_mono (year : ℤ) (hpos : 1 ≤ month) (h : month < month') :
    daysBeforeMonth year month + daysInMonth year month ≤ daysBeforeMonth year month' := by
  induction month', h using Nat.le_induction with
  | base =>
    obtain ⟨month, rfl⟩ := Nat.exists_eq_add_of_le' hpos
    exact le_refl _
  | succ month' hle ih =>
    obtain ⟨earlier, rfl⟩ := Nat.exists_eq_add_of_le' (le_trans hpos (le_of_lt hle))
    exact Nat.le_trans ih (Nat.le_add_right _ _)

theorem daysBeforeMonth_twelve (year : ℤ) :
    daysBeforeMonth year 12 + daysInMonth year 12 = daysInYear year := by
  rcases Decidable.em (IsLeap year) with hleap | hleap
  · simp [daysBeforeMonth, daysInMonth, daysInYear, hleap]
  · simp [daysBeforeMonth, daysInMonth, daysInYear, hleap]

variable (h : IsDate year month day)

include h

theorem IsDate.le_daysInYear : daysBeforeMonth year month + day ≤ daysInYear year := by
  have hday := h.day_le
  rw [← daysBeforeMonth_twelve]
  rcases Nat.eq_or_lt_of_le h.month_le with rfl | hlt
  · omega
  · have hmonth := daysBeforeMonth_mono year h.month_pos hlt
    omega

theorem dayNumber_lt_of_year (h' : IsDate year' month' day')
    (hlt : year < year') : dayNumber year month day < dayNumber year' month' day' := by
  have hyear := daysBeforeYear_mono hlt
  have hle := h.le_daysInYear
  have hpos := h'.day_pos
  unfold dayNumber
  omega

theorem dayNumber_lt_of_month (h' : IsDate year month' day')
    (hlt : month < month') : dayNumber year month day < dayNumber year month' day' := by
  have hmonth := daysBeforeMonth_mono year h.month_pos hlt
  have hle := h.day_le
  have hpos := h'.day_pos
  unfold dayNumber
  omega

theorem dayNumber_lt_iff (h' : IsDate year' month' day') :
    dayNumber year month day < dayNumber year' month' day' ↔
      year < year' ∨ (year = year' ∧ month < month') ∨
        (year = year' ∧ month = month' ∧ day < day') := by
  rcases lt_trichotomy year year' with hlt | rfl | hgt
  · exact iff_of_true (dayNumber_lt_of_year h h' hlt) (.inl hlt)
  · rcases lt_trichotomy month month' with hlt | rfl | hgt
    · exact iff_of_true (dayNumber_lt_of_month h h' hlt) (.inr (.inl ⟨rfl, hlt⟩))
    · unfold dayNumber
      omega
    · have hback := dayNumber_lt_of_month h' h hgt
      refine iff_of_false (lt_asymm hback) ?_
      omega
  · have hback := dayNumber_lt_of_year h' h hgt
    refine iff_of_false (lt_asymm hback) ?_
    omega

theorem dayNumber_inj (h' : IsDate year' month' day')
    (heq : dayNumber year month day = dayNumber year' month' day') :
    year = year' ∧ month = month' ∧ day = day' := by
  have hlt := (not_congr (dayNumber_lt_iff h h')).mp (lt_irrefl _ <| heq ▸ ·)
  have hgt := (not_congr (dayNumber_lt_iff h' h)).mp (lt_irrefl _ <| heq ▸ ·)
  omega

omit h

end Zambesii.Calendar
