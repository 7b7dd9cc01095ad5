/-
  The Gregorian calendar, extended without end in both directions.

  * `Date.next`: the day after a date, as a permutation of all dates, so that
    `date n` is the date `n` days after 1 January 1970 for every integer `n`;
  * `Date.number`: the closed form, a bijection onto the integers;
  * `date_eq`: a date is found by its number;
  * `weekday`: the day of the week, counted off from a Thursday.
-/
import Mathlib.Algebra.BigOperators.Intervals
import Mathlib.Algebra.Group.End
import Mathlib.Algebra.Order.BigOperators.Group.Finset
import Mathlib.Data.Int.ConditionallyCompleteOrder
import Mathlib.Data.Int.SuccPred

namespace Calendar

/-! ## Dates -/

/-- Every fourth year, but of the full centuries only every fourth. -/
def IsLeap (year : ℤ) : Prop := 4 ∣ year ∧ (100 ∣ year → 400 ∣ year)

instance {year : ℤ} : Decidable (IsLeap year) := inferInstanceAs (Decidable (_ ∧ _))

/-- The days of a month; January is month 1. -/
def monthLength (year : ℤ) : ℕ → ℕ
  | 2 => if IsLeap year then 29 else 28
  | 4 | 6 | 9 | 11 => 30
  | _ => 31

theorem monthLength_pos (year : ℤ) (month : ℕ) : 1 ≤ monthLength year month := by
  unfold monthLength
  split <;> try split_ifs
  all_goals decide

@[ext]
structure Date where
  year : ℤ
  month : ℕ
  day : ℕ
  month_mem : 1 ≤ month ∧ month ≤ 12
  day_mem : 1 ≤ day ∧ day ≤ monthLength year month

namespace Date

/-- The day after. -/
def tomorrow (d : Date) : Date :=
  if hday : d.day < monthLength d.year d.month then
    { d with day := d.day + 1, day_mem := ⟨by omega, hday⟩ }
  else if hmonth : d.month < 12 then
    { year := d.year, month := d.month + 1, day := 1
      month_mem := ⟨by omega, hmonth⟩, day_mem := ⟨le_rfl, monthLength_pos ..⟩ }
  else
    { year := d.year + 1, month := 1, day := 1
      month_mem := ⟨le_rfl, by decide⟩, day_mem := ⟨le_rfl, monthLength_pos ..⟩ }

/-- The day before. -/
def yesterday (d : Date) : Date :=
  if hday : 1 < d.day then
    { d with day := d.day - 1, day_mem := ⟨by omega, (Nat.sub_le ..).trans d.day_mem.2⟩ }
  else if hmonth : 1 < d.month then
    { year := d.year, month := d.month - 1, day := monthLength d.year (d.month - 1)
      month_mem := ⟨by omega, (Nat.sub_le ..).trans d.month_mem.2⟩
      day_mem := ⟨monthLength_pos .., le_rfl⟩ }
  else
    { year := d.year - 1, month := 12, day := 31
      month_mem := ⟨by decide, le_rfl⟩, day_mem := ⟨by decide, le_rfl⟩ }

theorem yesterday_tomorrow (d : Date) : d.tomorrow.yesterday = d := by
  obtain ⟨year, month, day, hmonth, hday⟩ := d
  unfold tomorrow
  split_ifs with hd hm
  · have hlt : 1 < day + 1 := by omega
    simp [yesterday, hlt]
  · have hlt : 1 < month + 1 := by omega
    have hlast : monthLength year month = day := by
      dsimp only at hd
      omega
    simp [yesterday, hlt, hlast]
  · have hdec : month = 12 := by
      dsimp only at hm
      omega
    subst hdec
    have hlast : day = 31 := le_antisymm hday.2 (not_lt.1 hd)
    simp [yesterday, hlast]

theorem tomorrow_yesterday (d : Date) : d.yesterday.tomorrow = d := by
  obtain ⟨year, month, day, hmonth, hday⟩ := d
  unfold yesterday
  split_ifs with hd hm
  · dsimp only at hd
    have hlt : day - 1 < monthLength year month := by omega
    have hday' : day - 1 + 1 = day := by omega
    simp [tomorrow, hlt, hday']
  · dsimp only at hd hm
    have hlt : month - 1 < 12 := by omega
    have hmonth' : month - 1 + 1 = month := by omega
    have hday' : day = 1 := by omega
    simp [tomorrow, hlt, hmonth', hday']
  · dsimp only at hd hm
    have hmonth' : month = 1 := by omega
    have hday' : day = 1 := by omega
    simp [tomorrow, monthLength, hmonth', hday']

def next : Equiv.Perm Date where
  toFun := tomorrow
  invFun := yesterday
  left_inv := yesterday_tomorrow
  right_inv := tomorrow_yesterday

/-- 1 January. -/
def newYear (year : ℤ) : Date := ⟨year, 1, 1, by decide, ⟨le_rfl, monthLength_pos ..⟩⟩

/-- The first day of the count. -/
def epoch : Date := newYear 1970

end Date

/-- The date `n` days after 1 January 1970. -/
def date (n : ℤ) : Date := (Date.next ^ n) Date.epoch

/-! ## Numbers of dates -/

/-- The days before a year, counted from the year 1. -/
def daysBeforeYear (year : ℤ) : ℤ :=
  365 * (year - 1) + (year - 1) / 4 - (year - 1) / 100 + (year - 1) / 400

theorem daysBeforeYear_succ (year : ℤ) :
    daysBeforeYear (year + 1) = daysBeforeYear year + if IsLeap year then 366 else 365 := by
  unfold daysBeforeYear IsLeap
  split_ifs with h <;> omega

/-- The days before a month within its year. -/
def daysBeforeMonth (year : ℤ) (month : ℕ) : ℕ := ∑ m ∈ Finset.Ico 1 month, monthLength year m

theorem daysBeforeMonth_succ (year : ℤ) {month : ℕ} (h : 1 ≤ month) :
    daysBeforeMonth year (month + 1) = daysBeforeMonth year month + monthLength year month :=
  Finset.sum_Ico_succ_top h _

/-- A year is as long as its months. -/
theorem daysBeforeMonth_end (year : ℤ) :
    daysBeforeMonth year 13 = if IsLeap year then 366 else 365 := by
  simp only [daysBeforeMonth, monthLength]
  split_ifs <;> rfl

theorem daysBeforeMonth_mono (year : ℤ) {m n : ℕ} (h : m ≤ n) :
    daysBeforeMonth year m ≤ daysBeforeMonth year n :=
  Finset.sum_le_sum_of_subset (Finset.Ico_subset_Ico_right h)

theorem daysBeforeYear_strictMono : StrictMono daysBeforeYear := by
  refine strictMono_int_of_lt_succ fun year => ?_
  rw [daysBeforeYear_succ]
  split_ifs <;> omega

namespace Date

/-- The days since 1 January 1970. -/
def number (d : Date) : ℤ :=
  daysBeforeYear d.year + daysBeforeMonth d.year d.month + (d.day - 1) - 719162

theorem number_tomorrow (d : Date) : d.tomorrow.number = d.number + 1 := by
  obtain ⟨year, month, day, hmonth, hday⟩ := d
  unfold tomorrow
  split_ifs with hd hm
  · simp only [number]
    push_cast
    omega
  · dsimp only at hd
    have hsum := daysBeforeMonth_succ year hmonth.1
    simp only [number]
    omega
  · dsimp only at hd hm
    have hdec : month = 12 := by omega
    subst hdec
    have hsum := daysBeforeMonth_succ year hmonth.1
    rw [daysBeforeMonth_end] at hsum
    have hyear := daysBeforeYear_succ year
    have hjan : daysBeforeMonth (year + 1) 1 = 0 := rfl
    simp only [number, hyear, hjan]
    split_ifs at hsum ⊢ <;> push_cast <;> omega

theorem number_next_zpow (n : ℤ) (d : Date) : ((next ^ n) d).number = d.number + n := by
  induction n generalizing d with
  | zero => simp
  | succ n ih =>
    rw [zpow_add_one, Equiv.Perm.mul_apply, ih, show (next d).number = d.number + 1 from number_tomorrow d]
    omega
  | pred n ih =>
    have hprev := number_tomorrow (next⁻¹ d)
    rw [show (next⁻¹ d).tomorrow = d from next.apply_symm_apply d] at hprev
    rw [zpow_sub_one, Equiv.Perm.mul_apply, ih]
    omega

/-- The days of a date within its year. -/
theorem dayOfYear_lt (d : Date) :
    daysBeforeYear d.year + daysBeforeMonth d.year d.month + (d.day - 1) < daysBeforeYear (d.year + 1) := by
  have hsum := daysBeforeMonth_succ d.year d.month_mem.1
  have hle := daysBeforeMonth_mono d.year (show d.month + 1 ≤ 13 by have := d.month_mem.2; omega)
  have hday := d.day_mem
  rw [daysBeforeMonth_end] at hle
  rw [daysBeforeYear_succ]
  split_ifs at hle ⊢ <;> omega

theorem year_le_of_number_eq {d e : Date} (h : d.number = e.number) : e.year ≤ d.year := by
  by_contra hlt
  have hd := d.dayOfYear_lt
  have hle := daysBeforeYear_strictMono.monotone (show d.year + 1 ≤ e.year by omega)
  have hday := e.day_mem
  unfold number at h
  omega

theorem month_le_of_number_eq {d e : Date} (h : d.number = e.number) (hyear : d.year = e.year) :
    e.month ≤ d.month := by
  by_contra hlt
  have hsum := daysBeforeMonth_succ d.year d.month_mem.1
  have hle := daysBeforeMonth_mono d.year (show d.month + 1 ≤ e.month by omega)
  have hd := d.day_mem
  have he := e.day_mem
  unfold number at h
  rw [← hyear] at h
  omega

theorem number_injective : Function.Injective number := by
  intro d e h
  have hyear := le_antisymm (year_le_of_number_eq h.symm) (year_le_of_number_eq h)
  have hmonth := le_antisymm (month_le_of_number_eq h.symm hyear.symm) (month_le_of_number_eq h hyear)
  refine Date.ext hyear hmonth ?_
  unfold number at h
  rw [hyear, hmonth] at h
  omega

end Date

theorem number_date (n : ℤ) : (date n).number = n := by
  rw [date, Date.number_next_zpow, show Date.epoch.number = 0 from by decide, zero_add]

/-- **A date is found by its number.** -/
theorem date_eq {d : Date} {n : ℤ} (h : d.number = n) : date n = d :=
  Date.number_injective ((number_date n).trans h.symm)

/-! ## Days of the week -/

inductive Weekday where
  | monday | tuesday | wednesday | thursday | friday | saturday | sunday
deriving DecidableEq, Repr

namespace Weekday

def tomorrow : Weekday → Weekday
  | monday => tuesday
  | tuesday => wednesday
  | wednesday => thursday
  | thursday => friday
  | friday => saturday
  | saturday => sunday
  | sunday => monday

def yesterday : Weekday → Weekday
  | monday => sunday
  | tuesday => monday
  | wednesday => tuesday
  | thursday => wednesday
  | friday => thursday
  | saturday => friday
  | sunday => saturday

def next : Equiv.Perm Weekday where
  toFun := tomorrow
  invFun := yesterday
  left_inv w := by cases w <;> rfl
  right_inv w := by cases w <;> rfl

theorem next_pow_seven : next ^ 7 = 1 := by
  ext w
  cases w <;> rfl

end Weekday

/-- The day of the week `n` days after 1 January 1970, a Thursday. -/
def weekday (n : ℤ) : Weekday := (Weekday.next ^ n) .thursday

theorem weekday_emod (n : ℤ) : weekday n = weekday (n % 7) := by
  unfold weekday
  rw [zpow_eq_zpow_emod n (n := 7) Weekday.next_pow_seven]

end Calendar
