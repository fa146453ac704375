import Mathlib.Data.Int.Notation
import Mathlib.Data.Nat.Notation
import Mathlib.Order.Basic
import Mathlib.Tactic.IntervalCases

/-!
# Dates and instants

The proleptic Gregorian calendar of Python's `datetime`: dates from 0001-01-01 to 9999-12-31,
instants in UTC to the microsecond, and their ISO 8601 texts.
-/

namespace Calendar

set_option autoImplicit false

/-! ## Dates -/

def isLeap (year : ℕ) : Bool := year % 4 == 0 && (year % 100 != 0 || year % 400 == 0)

def daysInMonth (year month : ℕ) : ℕ :=
  if month = 2 ∧ isLeap year = true then 29
  else [31, 28, 31, 30, 31, 30, 31, 31, 30, 31, 30, 31].getD (month - 1) 0

def daysBeforeMonth (year month : ℕ) : ℕ :=
  ((List.range (month - 1)).map fun m => daysInMonth year (m + 1)).sum

def daysBeforeYear (year : ℕ) : ℕ :=
  (year - 1) * 365 + (year - 1) / 4 - (year - 1) / 100 + (year - 1) / 400

structure Date where
  year : ℕ
  month : ℕ
  day : ℕ
  year_valid : 1 ≤ year ∧ year ≤ 9999
  month_valid : 1 ≤ month ∧ month ≤ 12
  day_valid : 1 ≤ day ∧ day ≤ daysInMonth year month
  deriving DecidableEq

namespace Date

def of? (year month day : ℕ) : Option Date :=
  if h : (1 ≤ year ∧ year ≤ 9999) ∧ (1 ≤ month ∧ month ≤ 12) ∧
      (1 ≤ day ∧ day ≤ daysInMonth year month) then
    some ⟨year, month, day, h.1, h.2.1, h.2.2⟩
  else none

theorem of?_self (d : Date) : of? d.year d.month d.day = some d :=
  dif_pos ⟨d.year_valid, d.month_valid, d.day_valid⟩

theorem day_lt (d : Date) : d.day < 100 := by
  have hday := d.day_valid.2
  have hmonth : daysInMonth d.year d.month ≤ 31 := by
    unfold daysInMonth
    split
    · omega
    · obtain ⟨hlow, hhigh⟩ := d.month_valid
      generalize d.month = month at hlow hhigh ⊢
      interval_cases month <;> simp
  omega

/-- The day's number, 0001-01-01 being day 1. -/
def toordinal (d : Date) : ℕ := daysBeforeYear d.year + daysBeforeMonth d.year d.month + d.day

/-- One date is before another if and only if its number is. -/
instance : Preorder Date := Preorder.lift toordinal

theorem le_iff {d e : Date} : d ≤ e ↔ d.toordinal ≤ e.toordinal := Iff.rfl

theorem lt_iff {d e : Date} : d < e ↔ d.toordinal < e.toordinal := Iff.rfl

instance (d e : Date) : Decidable (d ≤ e) := decidable_of_iff _ le_iff.symm

instance (d e : Date) : Decidable (d < e) := decidable_of_iff _ lt_iff.symm

theorem le_of_not_lt {d e : Date} (h : ¬ d < e) : e ≤ d := by
  rw [lt_iff] at h
  rw [le_iff]
  omega

theorem daysInMonth_bounds (year : ℕ) {month : ℕ} (h : 1 ≤ month ∧ month ≤ 12) :
    28 ≤ daysInMonth year month ∧ daysInMonth year month ≤ 31 := by
  obtain ⟨hlow, hhigh⟩ := h
  unfold daysInMonth
  split
  · omega
  · interval_cases month <;> simp

theorem daysBeforeMonth_succ (year : ℕ) {month : ℕ} (h : 1 ≤ month) :
    daysBeforeMonth year (month + 1) = daysBeforeMonth year month + daysInMonth year month := by
  obtain ⟨m, rfl⟩ : ∃ m, month = m + 1 := ⟨month - 1, by omega⟩
  unfold daysBeforeMonth
  rw [Nat.add_sub_cancel, Nat.add_sub_cancel, List.range_succ, List.map_append, List.sum_append]
  rfl

/-- The middle of the next month but one is 40 to 80 days from any day of this one. -/
theorem exists_middle (year : ℕ) (hyear : 1 ≤ year ∧ year ≤ 9999) {month : ℕ} (h : 1 ≤ month)
    (hmonth : month ≤ 10) :
    (∃ d : Date, d.toordinal = daysBeforeYear year + daysBeforeMonth year (month + 2) + 15) ∧
      (∃ d : Date, d.toordinal = daysBeforeYear year + daysBeforeMonth year month + 15) ∧
      daysBeforeMonth year month + 56 ≤ daysBeforeMonth year (month + 2) ∧
      daysBeforeMonth year (month + 2) ≤ daysBeforeMonth year month + 62 := by
  have hfirst := daysInMonth_bounds year ⟨h, by omega⟩
  have hsecond : 28 ≤ daysInMonth year (month + 1) ∧ daysInMonth year (month + 1) ≤ 31 :=
    daysInMonth_bounds year ⟨by omega, by omega⟩
  have hthird : 28 ≤ daysInMonth year (month + 2) ∧ daysInMonth year (month + 2) ≤ 31 :=
    daysInMonth_bounds year ⟨by omega, by omega⟩
  have hone := daysBeforeMonth_succ year h
  have htwo : daysBeforeMonth year (month + 2)
      = daysBeforeMonth year (month + 1) + daysInMonth year (month + 1) :=
    daysBeforeMonth_succ year (by omega)
  exact ⟨⟨⟨year, month + 2, 15, hyear, by omega, by omega⟩, rfl⟩,
    ⟨⟨year, month, 15, hyear, by omega, by omega⟩, rfl⟩, by omega, by omega⟩

/-- Around every day there is a span of more than 30 days and at most 90. -/
theorem exists_span (d : Date) : ∃ first last : Date, first ≤ d ∧ d ≤ last ∧
    first.toordinal + 30 < last.toordinal ∧ last.toordinal ≤ first.toordinal + 90 := by
  have hday := d.day_valid
  have hmonth := d.month_valid
  have hlength := daysInMonth_bounds d.year hmonth
  have hself : d.toordinal = daysBeforeYear d.year + daysBeforeMonth d.year d.month + d.day := rfl
  rcases Nat.lt_or_ge d.month 7 with hearly | hlate
  · obtain ⟨⟨last, hlast⟩, -, hlow, hhigh⟩ := exists_middle d.year d.year_valid hmonth.1 (by omega)
    exact ⟨d, last, le_iff.mpr (by omega), le_iff.mpr (by omega), by omega, by omega⟩
  · obtain ⟨m, hm⟩ : ∃ m, d.month = m + 2 := ⟨d.month - 2, by omega⟩
    obtain ⟨-, ⟨first, hfirst⟩, hlow, hhigh⟩ :=
      exists_middle d.year d.year_valid (show 1 ≤ m by omega) (by omega)
    rw [← hm] at hlow hhigh
    exact ⟨first, d, le_iff.mpr (by omega), le_iff.mpr (by omega), by omega, by omega⟩

/-- `_ord2ymd`: whole cycles of 400, 100, 4 and 1 years first, then the month. -/
def fromordinal? (n : ℕ) : Option Date :=
  let n := n - 1
  let n400 := n / 146097
  let n := n % 146097
  let n100 := n / 36524
  let n := n % 36524
  let n4 := n / 1461
  let n := n % 1461
  let n1 := n / 365
  let n := n % 365
  let year := n400 * 400 + n100 * 100 + n4 * 4 + n1 + 1
  if n1 = 4 ∨ n100 = 4 then of? (year - 1) 12 31
  else
    let month := ((List.range 12).filter fun m => daysBeforeMonth year (m + 1) ≤ n).length
    of? year month (n - daysBeforeMonth year month + 1)

/-- The dates next to this one; none outside the calendar. -/
def next? (d : Date) : Option Date :=
  if d.day < daysInMonth d.year d.month then of? d.year d.month (d.day + 1)
  else if d.month < 12 then of? d.year (d.month + 1) 1
  else of? (d.year + 1) 1 1

def previous? (d : Date) : Option Date :=
  if 1 < d.day then of? d.year d.month (d.day - 1)
  else if 1 < d.month then of? d.year (d.month - 1) (daysInMonth d.year (d.month - 1))
  else of? (d.year - 1) 12 31

/-- The day of an ISO week. Week 53 is for long years only. -/
def fromisocalendar? (year week day : ℕ) : Option Date :=
  let first := daysBeforeYear year + 1
  let weekday := (first + 6) % 7
  let monday := if weekday ≤ 3 then first - weekday else first - weekday + 7
  let isLong : Bool := weekday == 3 || (weekday == 2 && isLeap year)
  if (1 ≤ year ∧ year ≤ 9999) ∧ 1 ≤ week ∧ (week ≤ 52 ∨ week = 53 ∧ isLong = true) ∧
      1 ≤ day ∧ day ≤ 7 then
    fromordinal? (monday + (week - 1) * 7 + (day - 1))
  else none

/-- The first of the earliest dates. -/
def earliest : List Date → Option Date
  | [] => none
  | d :: rest =>
    match earliest rest with
    | none => some d
    | some e => if e < d then some e else some d

theorem earliest_le {ds : List Date} {e : Date} (h : earliest ds = some e) {d : Date}
    (hd : d ∈ ds) : e ≤ d := by
  induction ds generalizing e with
  | nil => cases hd
  | cons x rest ih =>
    unfold earliest at h
    split at h
    · rename_i hrest
      have hnil : rest = [] := by
        cases rest with
        | nil => rfl
        | cons y ys =>
          unfold earliest at hrest
          repeat' split at hrest
          all_goals cases hrest
      subst hnil
      cases h
      rw [List.mem_singleton.mp hd]
    · rename_i f hrest
      have hle : e ≤ x ∧ e ≤ f := by
        split at h
        · rename_i hlt
          cases h
          exact ⟨le_of_lt hlt, le_refl e⟩
        · rename_i hlt
          cases h
          exact ⟨le_refl _, le_of_not_lt hlt⟩
      rcases List.mem_cons.mp hd with rfl | hmem
      · exact hle.1
      · exact le_trans hle.2 (ih hrest hmem)

end Date

/-! ## Digits -/

def digitVal (c : Char) : Option ℕ := if '0' ≤ c ∧ c ≤ '9' then some (c.toNat - 48) else none

def number (s : List Char) : Option ℕ :=
  s.foldlM (fun n c => (digitVal c).map fun v => 10 * n + v) 0

def twoDigits (n : ℕ) : List Char := [Nat.digitChar (n / 10), Nat.digitChar (n % 10)]

def fourDigits (n : ℕ) : List Char := twoDigits (n / 100) ++ twoDigits (n % 100)

theorem digitVal_digitChar {n : ℕ} (h : n < 10) : digitVal (Nat.digitChar n) = some n := by
  interval_cases n <;> rfl

theorem number_append (s t : List Char) :
    number (s ++ t) = (number s).bind fun n =>
      t.foldlM (fun n c => (digitVal c).map fun v => 10 * n + v) n := by
  simp [number, List.foldlM_append]

theorem foldlM_twoDigits {n m : ℕ} (h : n < 100) :
    (twoDigits n).foldlM (fun n c => (digitVal c).map fun v => 10 * n + v) m = some (100 * m + n) := by
  have htens : n / 10 < 10 := by omega
  have hunits : n % 10 < 10 := by omega
  simp only [twoDigits, List.foldlM_cons, List.foldlM_nil, digitVal_digitChar htens,
    digitVal_digitChar hunits, Option.map_some, Option.bind_eq_bind, Option.bind_some,
    Option.pure_def, Option.some.injEq]
  omega

theorem number_twoDigits {n : ℕ} (h : n < 100) : number (twoDigits n) = some n := by
  have htwo := foldlM_twoDigits (m := 0) h
  simpa [number] using htwo

theorem number_fourDigits {n : ℕ} (h : n < 10000) : number (fourDigits n) = some n := by
  unfold fourDigits
  rw [number_append, number_twoDigits (by omega), Option.bind_some, foldlM_twoDigits (by omega)]
  congr 1
  omega

/-! ## ISO 8601 texts of dates -/

namespace Date

def isoformat (d : Date) : List Char :=
  fourDigits d.year ++ '-' :: (twoDigits d.month ++ '-' :: twoDigits d.day)

/-- `YYYY-MM-DD`, and since Python 3.11 `YYYYMMDD` and the weeks `YYYY-Www-D` too. -/
def fromisoformat? : List Char → Option Date
  | [y1, y2, y3, y4, 'W', w1, w2] => do
    fromisocalendar? (← number [y1, y2, y3, y4]) (← number [w1, w2]) 1
  | [y1, y2, y3, y4, '-', 'W', w1, w2] => do
    fromisocalendar? (← number [y1, y2, y3, y4]) (← number [w1, w2]) 1
  | [y1, y2, y3, y4, 'W', w1, w2, d] => do
    fromisocalendar? (← number [y1, y2, y3, y4]) (← number [w1, w2]) (← number [d])
  | [y1, y2, y3, y4, m1, m2, d1, d2] => do
    of? (← number [y1, y2, y3, y4]) (← number [m1, m2]) (← number [d1, d2])
  | [y1, y2, y3, y4, '-', 'W', w1, w2, '-', d] => do
    fromisocalendar? (← number [y1, y2, y3, y4]) (← number [w1, w2]) (← number [d])
  | [y1, y2, y3, y4, '-', m1, m2, '-', d1, d2] => do
    of? (← number [y1, y2, y3, y4]) (← number [m1, m2]) (← number [d1, d2])
  | _ => none

/-- Reading back what was written. -/
theorem fromisoformat?_isoformat (d : Date) : fromisoformat? d.isoformat = some d := by
  have hyear : number (fourDigits d.year) = some d.year :=
    number_fourDigits (by have h := d.year_valid.2; omega)
  have hmonth : number (twoDigits d.month) = some d.month :=
    number_twoDigits (by have h := d.month_valid.2; omega)
  have hday : number (twoDigits d.day) = some d.day := number_twoDigits d.day_lt
  have htens : d.month / 10 = 0 ∨ d.month / 10 = 1 := by
    have h := d.month_valid.2
    omega
  have hread : fromisoformat? d.isoformat = (do
      of? (← number (fourDigits d.year)) (← number (twoDigits d.month))
        (← number (twoDigits d.day))) := by
    unfold isoformat twoDigits
    rcases htens with h | h <;> rw [h] <;> rfl
  rw [hread, hyear, hmonth, hday]
  exact of?_self d

end Date

/-! ## Instants -/

def dayMicros : ℕ := 86400000000

/-- An aware `datetime` in UTC: the day and the microseconds into it. -/
structure Instant where
  date : Date
  micro : ℕ
  micro_lt : micro < dayMicros
  deriving DecidableEq

namespace Instant

def total (t : Instant) : ℕ := t.date.toordinal * dayMicros + t.micro

instance : Preorder Instant := Preorder.lift total

theorem le_iff {t u : Instant} : t ≤ u ↔ t.total ≤ u.total := Iff.rfl

theorem lt_iff {t u : Instant} : t < u ↔ t.total < u.total := Iff.rfl

instance (t u : Instant) : Decidable (t ≤ u) := decidable_of_iff _ le_iff.symm

instance (t u : Instant) : Decidable (t < u) := decidable_of_iff _ lt_iff.symm

theorem le_of_not_lt {t u : Instant} (h : ¬ t < u) : u ≤ t := by
  rw [lt_iff] at h
  rw [le_iff]
  omega

/-- A later instant is on no earlier day. -/
theorem date_le_date {t u : Instant} (h : t ≤ u) : t.date ≤ u.date := by
  rw [le_iff] at h
  rw [Date.le_iff]
  have ht := t.micro_lt
  have hu := u.micro_lt
  unfold total dayMicros at *
  omega

/-- `t - u` in microseconds. -/
def since (t u : Instant) : ℤ := t.total - u.total

def of? (date : Date) (hour minute second micro : ℕ) : Option Instant :=
  if h : hour < 24 ∧ minute < 60 ∧ second < 60 ∧ micro < 1000000 then
    some ⟨date, (hour * 3600 + minute * 60 + second) * 1000000 + micro, by
      unfold dayMicros
      omega⟩
  else none

def hour (t : Instant) : ℕ := t.micro / 3600000000
def minute (t : Instant) : ℕ := t.micro / 60000000 % 60
def second (t : Instant) : ℕ := t.micro / 1000000 % 60

/-- The instant without its fraction of a second. -/
def floor (t : Instant) : Instant :=
  ⟨t.date, t.micro / 1000000 * 1000000, by have h := t.micro_lt; omega⟩

theorem floor_le (t : Instant) : t.floor ≤ t := by
  rw [le_iff]
  unfold total floor
  dsimp only
  omega

/-- The instant at an offset of less than a day before or after. -/
def shift? (t : Instant) (offset : ℤ) : Option Instant :=
  let micro := (t.micro : ℤ) + offset
  if h : 0 ≤ micro ∧ micro < dayMicros then some ⟨t.date, micro.toNat, by omega⟩
  else if h : dayMicros ≤ micro ∧ micro < 2 * dayMicros then
    t.date.next?.map fun date => ⟨date, (micro - dayMicros).toNat, by omega⟩
  else if h : micro < 0 ∧ -dayMicros ≤ micro then
    t.date.previous?.map fun date => ⟨date, (micro + dayMicros).toNat, by omega⟩
  else none

theorem shift?_zero (t : Instant) : t.shift? 0 = some t := by
  have hin : 0 ≤ (t.micro : ℤ) + 0 ∧ (t.micro : ℤ) + 0 < dayMicros := by
    have h := t.micro_lt
    omega
  unfold shift?
  dsimp only
  rw [dif_pos hin]
  simp

/-- `%H:%M:%S` -/
def clock (t : Instant) : List Char :=
  twoDigits t.hour ++ ':' :: (twoDigits t.minute ++ ':' :: twoDigits t.second)

theorem hour_lt (t : Instant) : t.hour < 24 := by
  have h := t.micro_lt
  unfold hour dayMicros at *
  omega

theorem minute_lt (t : Instant) : t.minute < 60 := Nat.mod_lt _ (by decide)

theorem second_lt (t : Instant) : t.second < 60 := Nat.mod_lt _ (by decide)

theorem of?_clock (t : Instant) :
    of? t.date t.hour t.minute t.second 0 = some t.floor := by
  have h : t.hour < 24 ∧ t.minute < 60 ∧ t.second < 60 ∧ 0 < 1000000 :=
    ⟨t.hour_lt, t.minute_lt, t.second_lt, by decide⟩
  rw [of?, dif_pos h]
  have hmicro : (t.hour * 3600 + t.minute * 60 + t.second) * 1000000 + 0
      = t.micro / 1000000 * 1000000 := by
    unfold hour minute second
    omega
  simp only [floor, hmicro]

end Instant
end Calendar
