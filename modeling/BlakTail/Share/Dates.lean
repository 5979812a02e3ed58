import BlakTail.Share.Pages

/-!
# Dates

`civil_from_unix_days` counts years from March, so that the leap day is the last of its year.
A day is placed by the 400, 100, 4 and 1 years before it (`InYear`), and the next day is placed by
counting on; `httpDateSecs_names` follows the calendar from 1970-01-01.
-/

namespace BlakTail.Share

/-! ## The calendar -/

/-- A date of the proleptic Gregorian calendar. -/
structure Date where
  year : Nat
  month : Nat
  day : Nat
  deriving DecidableEq

def isLeap (year : Nat) : Bool := year % 4 = 0 && (year % 100 ≠ 0 || year % 400 = 0)

def monthLength (year month : Nat) : Nat :=
  if month = 2 then if isLeap year then 29 else 28
  else if month ∈ [4, 6, 9, 11] then 30 else 31

def Date.next (date : Date) : Date :=
  if date.day < monthLength date.year date.month then { date with day := date.day + 1 }
  else if date.month < 12 then ⟨date.year, date.month + 1, 1⟩
  else ⟨date.year + 1, 1, 1⟩

/-- The date some days after 1970-01-01. -/
def dateAfter : Nat → Date
  | 0 => ⟨1970, 1, 1⟩
  | days + 1 => (dateAfter days).next

/-- The weekday some days after 1970-01-01, a Thursday. -/
def weekdayAfter (days : Nat) : String :=
  ["Mon", "Tue", "Wed", "Thu", "Fri", "Sat", "Sun"].getD ((days + 3) % 7) ""

def monthName (month : Nat) : String :=
  ["Jan", "Feb", "Mar", "Apr", "May", "Jun", "Jul", "Aug", "Sep", "Oct", "Nov", "Dec"].getD
    (month - 1) ""

/-! ## Years from March -/

/-- The date of a day of a year that is counted from March. -/
def marchDate (year day : Nat) : Date :=
  let mp := (5 * day + 2) / 153
  ⟨if mp < 10 then year else year + 1, if mp < 10 then mp + 3 else mp - 9,
    day - (153 * mp + 2) / 5 + 1⟩

def marchYearLength (year : Nat) : Nat := if isLeap (year + 1) then 366 else 365

/-- The day `z`, counted from March of the year 0, is a day of this year. -/
def InYear (z year day : Nat) : Prop :=
  ∃ e c q k, c < 4 ∧ q < 25 ∧ k < 4 ∧ (day < 365 ∨ day = 365 ∧ k = 3 ∧ (q < 24 ∨ c = 3)) ∧
    year = e * 400 + c * 100 + q * 4 + k ∧ z = e * 146097 + c * 36524 + q * 1461 + k * 365 + day

variable {year day : Nat}

theorem InYear.next {z : Nat} (h : InYear z year day) :
    day + 1 < marchYearLength year ∧ InYear (z + 1) year (day + 1) ∨
      day + 1 = marchYearLength year ∧ InYear (z + 1) (year + 1) 0 := by
  obtain ⟨e, c, q, k, hc, hq, hk, hday, rfl, rfl⟩ := h
  have hlength : marchYearLength (e * 400 + c * 100 + q * 4 + k) =
      if k = 3 ∧ (q < 24 ∨ c = 3) then 366 else 365 := by
    unfold marchYearLength
    refine if_congr ?_ rfl rfl
    simp only [isLeap, Bool.and_eq_true, Bool.or_eq_true, decide_eq_true_eq]
    omega
  rw [hlength]
  by_cases hstay : day + 1 < if k = 3 ∧ (q < 24 ∨ c = 3) then 366 else 365
  · exact .inl ⟨hstay, e, c, q, k, hc, hq, hk, by split at hstay <;> omega, rfl, by omega⟩
  · refine .inr ⟨by split at hstay <;> split <;> omega, ?_⟩
    have hlast : day = 364 ∧ ¬ (k = 3 ∧ (q < 24 ∨ c = 3)) ∨
        day = 365 ∧ k = 3 ∧ (q < 24 ∨ c = 3) := by
      split at hstay <;> omega
    -- the year, the four years, the century or the era is over
    by_cases hk3 : k < 3
    · exact ⟨e, c, q, k + 1, hc, hq, by omega, by omega, by omega, by omega⟩
    by_cases hq24 : q < 24
    · exact ⟨e, c, q + 1, 0, hc, by omega, by omega, by omega, by omega, by omega⟩
    by_cases hc3 : c < 3
    · exact ⟨e, c + 1, 0, 0, by omega, by omega, by omega, by omega, by omega, by omega⟩
    · exact ⟨e + 1, 0, 0, 0, by omega, by omega, by omega, by omega, by omega, by omega⟩

/-- Months from March are as long as the days between them; the last ends with the year. -/
theorem monthLength_march {mp : Nat} (hmp : mp < 12) (year : Nat) :
    monthLength (if mp < 10 then year else year + 1) (if mp < 10 then mp + 3 else mp - 9) =
      if mp = 11 then marchYearLength year - 337
      else (153 * mp + 155) / 5 - (153 * mp + 2) / 5 := by
  unfold monthLength marchYearLength
  interval_cases mp <;> simp
  split <;> rfl

theorem marchDate_next (h : day + 1 < marchYearLength year) :
    (marchDate year day).next = marchDate year (day + 1) := by
  have hlong : marchYearLength year ≤ 366 := by
    unfold marchYearLength
    split <;> decide
  have hmp : (5 * day + 2) / 153 < 12 := by omega
  have hlength := monthLength_march hmp year
  unfold marchDate Date.next
  rw [hlength]
  clear hlength
  generalize hm : (5 * day + 2) / 153 = mp at hmp ⊢
  have hnext : (5 * (day + 1) + 2) / 153 = mp ∨ (5 * (day + 1) + 2) / 153 = mp + 1 := by omega
  rcases hnext with hnext | hnext <;> rw [hnext] <;> interval_cases mp <;>
    simp only [Nat.reduceMul, Nat.reduceAdd, Nat.reduceDiv, Nat.reduceLT, Nat.reduceEqDiff, if_true,
      if_false, Nat.reduceSub] <;>
    split_ifs <;> simp only [Date.mk.injEq, true_and] <;> omega

theorem marchDate_last (h : day + 1 = marchYearLength year) :
    (marchDate year day).next = marchDate (year + 1) 0 := by
  have hlong : marchYearLength year = 365 ∨ marchYearLength year = 366 := by
    unfold marchYearLength
    split <;> simp
  have hmp : (5 * day + 2) / 153 = 11 := by omega
  have hlength := monthLength_march (show 11 < 12 by decide) year
  unfold marchDate Date.next
  simp only [hmp] at hlength ⊢
  rw [hlength, if_neg (by simp; omega)]
  rfl

/-- The calendar counted on from 1970-01-01 is where the count from March has it. -/
theorem dateAfter_inYear (days : Nat) :
    ∃ year day, InYear (days + 719468) year day ∧ dateAfter days = marchDate year day := by
  induction days with
  | zero => exact ⟨1969, 306, ⟨4, 3, 17, 1, by norm_num⟩, rfl⟩
  | succ days ih =>
    obtain ⟨year, day, hin, hdate⟩ := ih
    have hz : days + 1 + 719468 = days + 719468 + 1 := by omega
    rw [hz, dateAfter, hdate]
    rcases hin.next with ⟨hmore, hin⟩ | ⟨hlast, hin⟩
    · exact ⟨year, day + 1, hin, marchDate_next hmore⟩
    · exact ⟨year + 1, 0, hin, marchDate_last hlast⟩

/-- The year within the era, by the divisions that correct for leap days. -/
theorem yoe_eq {c q k day doe : Nat} (hc : c < 4) (hq : q < 25) (hk : k < 4)
    (hday : day < 365 ∨ day = 365 ∧ k = 3 ∧ (q < 24 ∨ c = 3))
    (hdoe : doe = c * 36524 + q * 1461 + k * 365 + day) :
    (doe - doe / 1460 + doe / 36524 - doe / 146096) / 365 = c * 100 + q * 4 + k := by
  have hcentury : doe / 36524 - doe / 146096 = c ∧ doe / 146096 ≤ doe / 36524 := by
    have hbounds : c * 36524 ≤ doe ∧ (doe < c * 36524 + 36524 ∨ doe = 146096 ∧ c = 3) := by omega
    clear hdoe hday
    omega
  have hleap : doe / 1460 = c * 25 + q ∨ doe / 1460 = c * 25 + q + 1 := by omega
  omega

theorem civilFromUnixDays_eq {days : Nat} (h : InYear (days + 719468) year day) :
    civilFromUnixDays days = (Int.bmod (marchDate year day).year (2 ^ 32),
      (marchDate year day).month, (marchDate year day).day) := by
  unfold civilFromUnixDays
  extract_lets z era doe yoe y doy mp d m y'
  change InYear z year day at h
  clear_value z
  obtain ⟨e, c, q, k, hc, hq, hk, hday, rfl, hz⟩ := h
  have hera : era = e := by
    have hrest : c * 36524 + q * 1461 + k * 365 + day < 146097 := by omega
    show z / 146097 = e
    clear hday
    omega
  have hdoe : doe = c * 36524 + q * 1461 + k * 365 + day := by
    show z - era * 146097 = _
    omega
  have hyoe : yoe = c * 100 + q * 4 + k := yoe_eq hc hq hk hday hdoe
  have hdoy : doy = day := by
    have hfours : yoe / 4 = c * 25 + q := by omega
    have hcenturies : yoe / 100 = c := by omega
    show doe - (365 * yoe + yoe / 4 - yoe / 100) = day
    omega
  have hy : y = e * 400 + c * 100 + q * 4 + k := by
    show yoe + era * 400 = _
    omega
  have hmp : mp = (5 * day + 2) / 153 := by
    show (5 * doy + 2) / 153 = _
    rw [hdoy]
  have hm : m ≤ 2 ↔ ¬ mp < 10 := by
    show (if mp < 10 then mp + 3 else mp - 9) ≤ 2 ↔ _
    split <;> omega
  have hy' : y' = if mp < 10 then y else y + 1 := by
    show (if m ≤ 2 then y + 1 else y) = _
    rw [if_congr hm rfl rfl, ite_not]
  show (Int.bmod y' (2 ^ 32), (if mp < 10 then mp + 3 else mp - 9),
      doy - (153 * mp + 2) / 5 + 1) = _
  rw [hy', hmp, hdoy, hy]
  rfl

/-- **Dates are those of the calendar.** -/
theorem httpDateSecs_names (secs : Nat) (hyear : (dateAfter (secs / 86400)).year < 2 ^ 31) :
    let date := dateAfter (secs / 86400)
    civilFromUnixDays (secs / 86400) = ((date.year : Int), date.month, date.day) ∧
      ∃ hour minute second, hour < 24 ∧ minute < 60 ∧ second < 60 ∧
        secs = secs / 86400 * 86400 + hour * 3600 + minute * 60 + second ∧
        httpDateSecs secs = weekdayAfter (secs / 86400) ++ ", " ++ twoDigits date.day ++ " " ++
          monthName date.month ++ " " ++ toString date.year ++ " " ++ twoDigits hour ++ ":" ++
          twoDigits minute ++ ":" ++ twoDigits second ++ " GMT" := by
  obtain ⟨year, day, hin, hdate⟩ := dateAfter_inYear (secs / 86400)
  have hcivil := civilFromUnixDays_eq hin
  rw [← hdate, Int.bmod_eq_of_le (by omega) (by omega)] at hcivil
  refine ⟨hcivil, secs % 86400 / 3600, secs % 86400 % 3600 / 60, secs % 86400 % 60, by omega,
    by omega, by omega, by omega, ?_⟩
  have hweekday : ["Thu", "Fri", "Sat", "Sun", "Mon", "Tue", "Wed"].getD (secs / 86400 % 7) "" =
      weekdayAfter (secs / 86400) := by
    have hall : ∀ r < 7, ["Thu", "Fri", "Sat", "Sun", "Mon", "Tue", "Wed"].getD r "" =
        weekdayAfter r := by decide
    rw [hall _ (Nat.mod_lt _ (by decide)), weekdayAfter, weekdayAfter, Nat.mod_add_mod]
  unfold httpDateSecs
  dsimp only
  rw [hcivil, hweekday]
  rfl

/-- The day after the February of a year that is not a leap year. -/
theorem httpDateSecs_names_march :
    (dateAfter (5101323 / 86400)).year < 2 ^ 31 ∧
      httpDateSecs 5101323 = "Sun, 01 Mar 1970 01:02:03 GMT" := by
  refine ⟨by decide +kernel, ?_⟩
  obtain ⟨-, hour, minute, second, hhour, hminute, hsecond, hsecs, htext⟩ :=
    httpDateSecs_names 5101323 (by decide +kernel)
  obtain ⟨rfl, rfl, rfl⟩ : hour = 1 ∧ minute = 2 ∧ second = 3 := by omega
  exact htext.trans (by decide +kernel)

end BlakTail.Share
