/-
  The date of an HTTP header (`http_date`, `http/wellknown.rs`).

  * `httpDate`: the civil-from-days arithmetic on `i64`, with the two tables;
  * `DateTime`: an instant by its day and its time of day, with the text an
    IMF-fixdate has for it;
  * `exists_civil`: the arithmetic finds the date with the right number;
  * `http_date_calendar`: the text is that of the instant, and no table is
    missed.
-/
import SessionBroker.Lib.Calendar
import SessionBroker.Lib.Signed
import Mathlib.Tactic.IntervalCases

namespace SessionBroker.HttpDate

open Calendar Signed

/-! ## The arithmetic -/

variable (build : Build)

/-- The value of an `i64` operation. -/
def i64 (x : ℤ) : Option ℤ := result build (2 ^ 63) x

/-- `xs[i as usize]`. -/
def index (xs : List String) (i : ℤ) : Option String := if i < 0 then none else xs[i.toNat]?

def days : List String := ["Sun", "Mon", "Tue", "Wed", "Thu", "Fri", "Sat"]

def months : List String :=
  ["Jan", "Feb", "Mar", "Apr", "May", "Jun", "Jul", "Aug", "Sep", "Oct", "Nov", "Dec"]

/-- Zeros in front of digits, up to a width. -/
def zeroPad (width : ℕ) (digits : String) : String :=
  .ofList (List.replicate (width - digits.length) '0') ++ digits

/-- `{x:02}`. -/
def twoDigits (x : ℤ) : String :=
  if x < 0 then "-" ++ zeroPad 1 (toString x.natAbs) else zeroPad 2 (toString x.natAbs)

/-- Year, month and day from the days since 1970-01-01. -/
def civilFromDays (days : ℤ) : Option (ℤ × ℤ × ℤ) := do
  let z ← i64 build (days + 719468)
  let era := z / 146097
  let doe := z % 146097
  let yoe ← i64 build (doe - doe.tdiv 1460)
  let yoe ← i64 build (yoe + doe.tdiv 36524)
  let yoe ← i64 build (yoe - doe.tdiv 146096)
  let yoe := yoe.tdiv 365
  let start ← i64 build (365 * yoe)
  let start ← i64 build (start + yoe.tdiv 4)
  let start ← i64 build (start - yoe.tdiv 100)
  let doy ← i64 build (doe - start)
  let mp ← i64 build (5 * doy)
  let mp ← i64 build (mp + 2)
  let mp := mp.tdiv 153
  let first ← i64 build (153 * mp)
  let first ← i64 build (first + 2)
  let day ← i64 build (doy - first.tdiv 5)
  let day ← i64 build (day + 1)
  let month ← i64 build (if mp < 10 then mp + 3 else mp - 9)
  let years ← i64 build (era * 400)
  let year ← i64 build (yoe + years)
  let year ← i64 build (year + if month ≤ 2 then 1 else 0)
  return (year, month, day)

/-- `http_date`; `none` is a panic. -/
def httpDate (epochSecs : ℤ) : Option String := do
  let day := epochSecs / 86400
  let secs := epochSecs % 86400
  let (year, month, dayOfMonth) ← civilFromDays build day
  let weekday ← i64 build (day + 4)
  let weekday ← index days (weekday % 7)
  let month ← i64 build (month - 1)
  let month ← index months month
  return weekday ++ ", " ++ twoDigits dayOfMonth ++ " " ++ month ++ " " ++ toString year ++ " " ++
    twoDigits (secs.tdiv 3600) ++ ":" ++ twoDigits ((secs.tmod 3600).tdiv 60) ++ ":" ++
    twoDigits (secs.tmod 60) ++ " GMT"

/-! ## The calendar's text -/

/-- The day name of an IMF-fixdate. -/
def dayName : Weekday → String
  | .monday => "Mon"
  | .tuesday => "Tue"
  | .wednesday => "Wed"
  | .thursday => "Thu"
  | .friday => "Fri"
  | .saturday => "Sat"
  | .sunday => "Sun"

/-- The name of a month, January being month 1. -/
def monthName : ℕ → String
  | 1 => "Jan"
  | 2 => "Feb"
  | 3 => "Mar"
  | 4 => "Apr"
  | 5 => "May"
  | 6 => "Jun"
  | 7 => "Jul"
  | 8 => "Aug"
  | 9 => "Sep"
  | 10 => "Oct"
  | 11 => "Nov"
  | _ => "Dec"

/-- A second of history: the days since 1970-01-01 and the time of day. -/
structure DateTime where
  day : ℤ
  hour : Fin 24
  minute : Fin 60
  second : Fin 60

namespace DateTime

def epochSecs (d : DateTime) : ℤ := 86400 * d.day + 3600 * d.hour + 60 * d.minute + d.second

theorem exists_epochSecs (t : ℤ) : ∃ d : DateTime, d.epochSecs = t := by
  refine ⟨⟨t / 86400, ⟨(t % 86400 / 3600).toNat, by omega⟩, ⟨(t % 3600 / 60).toNat, by omega⟩,
    ⟨(t % 60).toNat, by omega⟩⟩, ?_⟩
  simp only [epochSecs]
  omega

/-- The IMF-fixdate, with the digits of the year up to a width. -/
def fixdate (yearWidth : ℕ) (d : DateTime) : String :=
  dayName (weekday d.day) ++ ", " ++ zeroPad 2 (toString (date d.day).day) ++ " " ++
    monthName (date d.day).month ++ " " ++ zeroPad yearWidth (toString (date d.day).year) ++ " " ++
    zeroPad 2 (toString d.hour.val) ++ ":" ++ zeroPad 2 (toString d.minute.val) ++ ":" ++
    zeroPad 2 (toString d.second.val) ++ " GMT"

end DateTime

/-! ## Years, months and days -/

section Civil

variable {doe yoe doy mp : ℤ}

/-- The four-hundred-year cycle has three centuries of 36524 days and a longer
    one. -/
theorem century (h0 : 0 ≤ doe) (h1 : doe < 146097)
    (hyoe : yoe = (doe - doe / 1460 + doe / 36524 - doe / 146096) / 365) :
    yoe / 100 = doe / 36524 - doe / 146096 := by
  have hcentury : doe / 36524 = 0 ∨ doe / 36524 = 1 ∨ doe / 36524 = 2 ∨ doe / 36524 = 3 ∨
    doe / 36524 = 4 := by omega
  have hlast : doe / 146096 = 0 ∨ doe / 146096 = 1 := by omega
  rcases hcentury with h | h | h | h | h <;> rcases hlast with h' | h' <;> rw [h, h'] at hyoe ⊢ <;> omega

theorem fourYears (h0 : 0 ≤ doe) (h1 : doe < 146097)
    (hyoe : yoe = (doe - doe / 1460 + doe / 36524 - doe / 146096) / 365) :
    yoe / 4 ≤ doe / 1460 ∧ doe / 1460 ≤ yoe / 4 + 1 := by
  have hcentury := century h0 h1 hyoe
  omega

/-- The year of the cycle is found, and a day 366 only in a year before a leap
    year's end. -/
theorem yearOfEra (h0 : 0 ≤ doe) (h1 : doe < 146097)
    (hyoe : yoe = (doe - doe / 1460 + doe / 36524 - doe / 146096) / 365)
    (hdoy : doy = doe - (365 * yoe + yoe / 4 - yoe / 100)) :
    0 ≤ yoe ∧ yoe ≤ 399 ∧ 0 ≤ doy ∧ doy ≤ 365 ∧
      (doy = 365 → yoe % 4 = 3 ∧ (yoe % 100 = 99 → yoe = 399)) := by
  have hcentury := century h0 h1 hyoe
  have hfour := fourYears h0 h1 hyoe
  refine ⟨by omega, by omega, by omega, by omega, fun hlast => ?_⟩
  have hleap : doe / 1460 = yoe / 4 + 1 := by omega
  have hthree : 3 ≤ yoe % 4 := by omega
  refine ⟨by omega, fun h99 => ?_⟩
  have hq : yoe / 100 = 0 ∨ yoe / 100 = 1 ∨ yoe / 100 = 2 ∨ yoe / 100 = 3 := by omega
  rcases hq with hq | hq | hq | hq <;> omega

/-- The days before a year from March on are those before it in its cycle and
    those of the cycles before. -/
theorem daysBefore_cycles (hy0 : 0 ≤ yoe) (hy1 : yoe ≤ 399) (era : ℤ) :
    365 * (yoe + era * 400) + (yoe + era * 400) / 4 - (yoe + era * 400) / 100 +
      (yoe + era * 400) / 400 = 146097 * era + (365 * yoe + yoe / 4 - yoe / 100) := by
  have h4 : (yoe + era * 400) / 4 = yoe / 4 + 100 * era := by omega
  have h100 : (yoe + era * 400) / 100 = yoe / 100 + 4 * era := by omega
  have h400 : (yoe + era * 400) / 400 = era := by omega
  rw [h4, h100, h400]
  omega

theorem isLeap_next (h4 : yoe % 4 = 3) (h100 : yoe % 100 = 99 → yoe = 399) (era : ℤ) :
    IsLeap (yoe + era * 400 + 1) :=
  ⟨by omega, fun h => by omega⟩

/-- The months from March on, by the day of the year from March on. -/
theorem daysBeforeMonth_march (year : ℤ) {m : ℕ} (hm : m ≤ 10) :
    (daysBeforeMonth year (m + 3) : ℤ) = (if IsLeap year then 60 else 59) + (153 * m + 2) / 5 := by
  interval_cases m <;> simp only [daysBeforeMonth, monthLength] <;> split_ifs <;> rfl

/-- The months from March on are of the year that starts there. -/
theorem exists_march {n march day : ℤ} {m : ℕ} (hm : m < 10)
    (hmarch : n + 719468 = 365 * march + march / 4 - march / 100 + march / 400 + doy)
    (hmp : (m : ℤ) = (5 * doy + 2) / 153) (hday : day = doy - (153 * m + 2) / 5 + 1) :
    ∃ d : Date, d.number = n ∧ d.year = march ∧ (d.month : ℤ) = m + 3 ∧ d.day = day := by
  obtain ⟨dayOfMonth, rfl⟩ := Int.eq_ofNat_of_zero_le (show 0 ≤ day by omega)
  have hbefore := daysBeforeMonth_march march (m := m) (by omega)
  have hafter := daysBeforeMonth_march march (m := m + 1) (by omega)
  rw [show m + 1 + 3 = m + 3 + 1 by rfl, daysBeforeMonth_succ march (by omega)] at hafter
  push_cast at hafter
  refine ⟨⟨march, m + 3, dayOfMonth, by omega, by omega⟩, ?_, rfl, by push_cast; rfl, rfl⟩
  have hyear := daysBeforeYear_succ march
  simp only [Date.number, daysBeforeYear]
  unfold daysBeforeYear at hyear
  split_ifs at hbefore hyear <;> omega

/-- January and February are of the next one. -/
theorem exists_january {n march day : ℤ} (hm : 10 ≤ mp) (hd1 : doy ≤ 365)
    (hmarch : n + 719468 = 365 * march + march / 4 - march / 100 + march / 400 + doy)
    (hmp : mp = (5 * doy + 2) / 153) (hday : day = doy - (153 * mp + 2) / 5 + 1)
    (hfeb : doy = 365 → IsLeap (march + 1)) :
    ∃ d : Date, d.number = n ∧ d.year = march + 1 ∧ (d.month : ℤ) = mp - 9 ∧ d.day = day := by
  obtain ⟨dayOfMonth, rfl⟩ := Int.eq_ofNat_of_zero_le (show 0 ≤ day by omega)
  have hmonth : mp = 10 ∨ mp = 11 := by omega
  rcases hmonth with rfl | rfl
  · refine ⟨⟨march + 1, 1, dayOfMonth, by decide, by simp only [monthLength]; omega⟩, ?_, rfl, rfl, rfl⟩
    have hjan : daysBeforeMonth (march + 1) 1 = 0 := rfl
    simp only [Date.number, hjan]
    unfold daysBeforeYear
    omega
  · refine ⟨⟨march + 1, 2, dayOfMonth, by decide, ?_⟩, ?_, rfl, rfl, rfl⟩
    · simp only [monthLength]
      split_ifs with hl
      · omega
      · have := mt hfeb hl
        omega
    · have hjan : daysBeforeMonth (march + 1) 2 = 31 := rfl
      simp only [Date.number, hjan]
      unfold daysBeforeYear
      omega

/-- **Civil from days.**  The date with a number is where the arithmetic says. -/
theorem exists_civil {n era year month day : ℤ} (hera : era = (n + 719468) / 146097)
    (hdoe : doe = (n + 719468) % 146097)
    (hyoe : yoe = (doe - doe / 1460 + doe / 36524 - doe / 146096) / 365)
    (hdoy : doy = doe - (365 * yoe + yoe / 4 - yoe / 100)) (hmp : mp = (5 * doy + 2) / 153)
    (hday : day = doy - (153 * mp + 2) / 5 + 1) (hmonth : month = if mp < 10 then mp + 3 else mp - 9)
    (hyear : year = yoe + era * 400 + if month ≤ 2 then 1 else 0) :
    ∃ d : Date, d.number = n ∧ d.year = year ∧ d.month = month ∧ d.day = day := by
  obtain ⟨hy0, hy1, hd0, hd1, hleap⟩ := yearOfEra (by omega) (by omega) hyoe hdoy
  have hmarch : n + 719468 = 365 * (yoe + era * 400) + (yoe + era * 400) / 4 -
      (yoe + era * 400) / 100 + (yoe + era * 400) / 400 + doy := by
    have hsplit : n + 719468 = 146097 * era + doe := by
      rw [hera, hdoe, Int.mul_ediv_add_emod]
    rw [daysBefore_cycles hy0 hy1, hsplit, hdoy, add_assoc, add_sub_cancel]
  by_cases hm : mp < 10
  · rw [if_pos hm] at hmonth
    rw [if_neg (by omega), add_zero] at hyear
    obtain ⟨m, rfl⟩ := Int.eq_ofNat_of_zero_le (show 0 ≤ mp by omega)
    rw [hyear, hmonth]
    exact exists_march (by omega) hmarch hmp hday
  · have hfeb : doy = 365 → IsLeap (yoe + era * 400 + 1) := by
      intro hlast
      exact isLeap_next (hleap hlast).1 (hleap hlast).2 era
    rw [if_neg hm] at hmonth
    rw [if_pos (by omega)] at hyear
    rw [hyear, hmonth]
    exact exists_january (not_lt.1 hm) hd1 hmarch hmp hday hfeb

theorem i64_eq {x : ℤ} (hlo : -2 ^ 63 ≤ x) (hhi : x < 2 ^ 63) : i64 build x = some x :=
  result_of_fits ⟨by omega, by omega⟩

/-- A step of the arithmetic that does not overflow. -/
theorem i64_bind {α : Type} {x : ℤ} {f : ℤ → Option α} {a : α} (hlo : -2 ^ 63 ≤ x) (hhi : x < 2 ^ 63)
    (h : f x = some a) : (i64 build x >>= f) = some a := by
  rw [i64_eq build hlo hhi]
  exact h

/-- **The arithmetic finds the date.** -/
theorem civilFromDays_eq {n : ℤ} (hlo : -2 ^ 62 ≤ n) (hhi : n ≤ 2 ^ 62) :
    civilFromDays build n = some ((date n).year, ((date n).month : ℤ), ((date n).day : ℤ)) := by
  obtain ⟨era, hera⟩ : ∃ era, era = (n + 719468) / 146097 := ⟨_, rfl⟩
  obtain ⟨doe, hdoe⟩ : ∃ doe, doe = (n + 719468) % 146097 := ⟨_, rfl⟩
  obtain ⟨yoe, hyoe⟩ : ∃ yoe, yoe = (doe - doe / 1460 + doe / 36524 - doe / 146096) / 365 := ⟨_, rfl⟩
  obtain ⟨doy, hdoy⟩ : ∃ doy, doy = doe - (365 * yoe + yoe / 4 - yoe / 100) := ⟨_, rfl⟩
  obtain ⟨mp, hmp⟩ : ∃ mp, mp = (5 * doy + 2) / 153 := ⟨_, rfl⟩
  obtain ⟨day, hday⟩ : ∃ day, day = doy - (153 * mp + 2) / 5 + 1 := ⟨_, rfl⟩
  obtain ⟨month, hmonth⟩ : ∃ month, month = if mp < 10 then mp + 3 else mp - 9 := ⟨_, rfl⟩
  obtain ⟨year, hyear⟩ : ∃ year, year = yoe + era * 400 + if month ≤ 2 then 1 else 0 := ⟨_, rfl⟩
  obtain ⟨d, hnumber, rfl, rfl, rfl⟩ := exists_civil hera hdoe hyoe hdoy hmp hday hmonth hyear
  obtain ⟨hy0, hy1, hd0, hd1, -⟩ := yearOfEra (by omega) (by omega) hyoe hdoy
  have hdoe0 : 0 ≤ doe := by omega
  have hdoe1 : doe < 146097 := by omega
  have hmp0 : 0 ≤ mp := by omega
  have hmp1 : mp ≤ 11 := by omega
  have hera0 : -2 ^ 62 ≤ era * 400 := by omega
  have hera1 : era * 400 ≤ 2 ^ 62 := by omega
  rw [date_eq hnumber]
  clear hnumber
  unfold civilFromDays
  refine i64_bind build (by omega) (by omega) ?_
  -- the cycle and its day
  simp only [← hera, ← hdoe, Int.tdiv_eq_ediv_of_nonneg hdoe0]
  clear hera hdoe hlo hhi
  refine i64_bind build (by omega) (by omega) ?_
  refine i64_bind build (by omega) (by omega) ?_
  refine i64_bind build (by omega) (by omega) ?_
  -- the year of the cycle
  simp only [Int.tdiv_eq_ediv_of_nonneg (show 0 ≤ doe - doe / 1460 + doe / 36524 - doe / 146096 by omega),
    ← hyoe, Int.tdiv_eq_ediv_of_nonneg hy0]
  clear hyoe
  refine i64_bind build (by omega) (by omega) ?_
  refine i64_bind build (by omega) (by omega) ?_
  refine i64_bind build (by omega) (by omega) ?_
  refine i64_bind build (by omega) (by omega) ?_
  -- the day of the year
  rw [← hdoy]
  clear hdoy
  refine i64_bind build (by omega) (by omega) ?_
  refine i64_bind build (by omega) (by omega) ?_
  simp only [Int.tdiv_eq_ediv_of_nonneg (show 0 ≤ 5 * doy + 2 by omega), ← hmp]
  clear hmp
  refine i64_bind build (by omega) (by omega) ?_
  refine i64_bind build (by omega) (by omega) ?_
  simp only [Int.tdiv_eq_ediv_of_nonneg (show 0 ≤ 153 * mp + 2 by omega)]
  refine i64_bind build (by omega) (by omega) ?_
  refine i64_bind build (by omega) (by omega) ?_
  rw [← hday, ← hmonth]
  clear hday
  have hmonth' := d.month_mem
  refine i64_bind build (by omega) (by omega) ?_
  refine i64_bind build (by omega) (by omega) ?_
  refine i64_bind build (by omega) (by omega) ?_
  refine i64_bind build ?_ ?_ ?_
  · split_ifs <;> omega
  · split_ifs <;> omega
  · rw [hyear]
    rfl

end Civil

/-! ## The text -/

theorem index_days (n : ℤ) : index days ((n + 4) % 7) = some (dayName (weekday n)) := by
  rw [weekday_emod]
  have hday : n % 7 = 0 ∨ n % 7 = 1 ∨ n % 7 = 2 ∨ n % 7 = 3 ∨ n % 7 = 4 ∨ n % 7 = 5 ∨ n % 7 = 6 := by omega
  have hshift : (n + 4) % 7 = (n % 7 + 4) % 7 := by omega
  rw [hshift]
  rcases hday with h | h | h | h | h | h | h <;> rw [h] <;> rfl

theorem index_months {month : ℕ} (h : 1 ≤ month ∧ month ≤ 12) :
    index months (month - 1) = some (monthName month) := by
  obtain ⟨hlo, hhi⟩ := h
  interval_cases month <;> rfl

theorem twoDigits_natCast (n : ℕ) : twoDigits n = zeroPad 2 (toString n) := by
  rw [twoDigits, if_neg (by omega), Int.natAbs_natCast]

theorem zeroPad_of_le {width : ℕ} {digits : String} (h : width ≤ digits.length) :
    zeroPad width digits = digits := by
  rw [zeroPad, Nat.sub_eq_zero_of_le h]
  rfl

theorem httpDate_eq (d : DateTime) (h : |d.epochSecs| < 2 ^ 62) :
    httpDate build d.epochSecs = some (d.fixdate 0) := by
  obtain ⟨hlo, hhi⟩ := abs_lt.1 h
  have hday : d.epochSecs / 86400 = d.day := by
    unfold DateTime.epochSecs
    omega
  have hsecs : d.epochSecs % 86400 = 3600 * d.hour + 60 * d.minute + d.second := by
    unfold DateTime.epochSecs
    omega
  have hhour : (d.epochSecs % 86400).tdiv 3600 = d.hour := by
    rw [Int.tdiv_eq_ediv_of_nonneg (by omega), hsecs]
    omega
  have hminute : ((d.epochSecs % 86400).tmod 3600).tdiv 60 = d.minute := by
    rw [Int.tmod_eq_emod_of_nonneg (by omega), Int.tdiv_eq_ediv_of_nonneg (by omega), hsecs]
    omega
  have hsecond : (d.epochSecs % 86400).tmod 60 = d.second := by
    rw [Int.tmod_eq_emod_of_nonneg (by omega), hsecs]
    omega
  have hmonth := (date d.day).month_mem
  have hrange : -2 ^ 62 ≤ d.day ∧ d.day < 2 ^ 62 := by omega
  unfold httpDate
  simp only [hhour, hminute, hsecond, hday, civilFromDays_eq build hrange.1 hrange.2.le]
  refine i64_bind build (by omega) (by omega) ?_
  rw [index_days]
  refine i64_bind build (x := (date d.day).month - 1) (by omega) (by omega) ?_
  rw [index_months hmonth, twoDigits_natCast, twoDigits_natCast, twoDigits_natCast, twoDigits_natCast,
    DateTime.fixdate, zeroPad_of_le (Nat.zero_le _)]
  rfl

namespace DateTime

/-- 0001-01-01. -/
def firstDay : Date := .newYear 1

/-- 9999-12-31. -/
def lastDay : Date := (Date.newYear 10000).yesterday

theorem year_range {d : DateTime} (hfirst : firstDay.number ≤ d.day) (hlast : d.day ≤ lastDay.number) :
    1 ≤ (date d.day).year ∧ (date d.day).year ≤ 9999 := by
  have hnumber := number_date d.day
  have hbefore := (date d.day).dayOfYear_lt
  have hday := (date d.day).day_mem
  unfold Date.number at hnumber
  have h1 : firstDay.number = daysBeforeYear 1 - 719162 := by decide
  have h2 : lastDay.number + 1 = daysBeforeYear 10000 - 719162 := by decide +kernel
  constructor
  · by_contra hlt
    have := daysBeforeYear_strictMono.monotone (show (date d.day).year + 1 ≤ 1 by omega)
    omega
  · by_contra hlt
    have := daysBeforeYear_strictMono.monotone (show 10000 ≤ (date d.day).year by omega)
    omega

/-- A year of four digits needs no zeros. -/
theorem fixdate_four {d : DateTime} (h : 1000 ≤ (date d.day).year) : d.fixdate 4 = d.fixdate 0 := by
  obtain ⟨year, hyear⟩ := Int.eq_ofNat_of_zero_le (show 0 ≤ (date d.day).year by omega)
  have hlen : 4 ≤ (toString (year : ℤ)).length := by
    by_contra hlt
    have hle := (Nat.length_repr_le_iff (n := year) (k := 3) (by decide)).1 (by
      change ¬ 4 ≤ year.repr.length at hlt
      omega)
    omega
  rw [fixdate, fixdate, hyear, zeroPad_of_le hlen, zeroPad_of_le (Nat.zero_le (toString (year : ℤ)).length)]

end DateTime

/-- **The date is the calendar's.**  The texts of the years 1 to 9999 are those of
    their instants, up to the zeros of a year before 1000, and no second of the
    range panics. -/
theorem http_date_calendar (build : Build) (t : ℤ) :
    (86400 * DateTime.firstDay.number ≤ t → t < 86400 * (DateTime.lastDay.number + 1) →
      ∃ d : DateTime, d.epochSecs = t ∧ 1 ≤ (date d.day).year ∧ (date d.day).year ≤ 9999 ∧
        httpDate build t = some (d.fixdate (if (date d.day).year < 1000 then 0 else 4))) ∧
    (|t| < 2 ^ 62 → (httpDate build t).isSome) := by
  obtain ⟨d, rfl⟩ := DateTime.exists_epochSecs t
  refine ⟨fun hfirst hlast => ⟨d, rfl, ?_⟩, fun h => ?_⟩
  · have hday : DateTime.firstDay.number ≤ d.day ∧ d.day ≤ DateTime.lastDay.number := by
      unfold DateTime.epochSecs at hfirst hlast
      omega
    obtain ⟨hlo, hhi⟩ := DateTime.year_range hday.1 hday.2
    have hnumbers : DateTime.firstDay.number = -719162 ∧ DateTime.lastDay.number = 2932896 := by decide +kernel
    refine ⟨hlo, hhi, ?_⟩
    rw [httpDate_eq build d (abs_lt.2 ⟨by omega, by omega⟩)]
    split_ifs with hyear
    · rfl
    · rw [DateTime.fixdate_four (not_lt.1 hyear)]
  · rw [httpDate_eq build d h]
    rfl

theorem http_date_2023 : ∃ d : DateTime, d.epochSecs = 1700000000 ∧ 1 ≤ (date d.day).year ∧
    (date d.day).year ≤ 9999 ∧ httpDate .checked 1700000000 =
      some (d.fixdate (if (date d.day).year < 1000 then 0 else 4)) :=
  (http_date_calendar .checked 1700000000).1 (by decide +kernel) (by decide +kernel)

/-- A leap day. -/
example : httpDate .checked 951782400 = some "Tue, 29 Feb 2000 00:00:00 GMT" := by decide +kernel

end SessionBroker.HttpDate
