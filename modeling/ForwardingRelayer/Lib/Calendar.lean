import Mathlib.Algebra.Group.Nat.Defs
import Mathlib.Data.List.Lex

/-!
# Instants of the Gregorian calendar

An instant of a year from 0 to 9999, by its fields and as the nanoseconds since the first of these
years. Months are consecutive blocks of days, and so are years; so of two instants the earlier one
is the one whose fields come first, as words do in a dictionary.
-/

namespace Calendar

/-- What comes before the block `n`, of consecutive blocks. -/
def offset (size : ℕ → ℕ) : ℕ → ℕ
  | 0 => 0
  | n + 1 => offset size n + size n

section Offset

variable {size : ℕ → ℕ} {m n r s k : ℕ}

theorem offset_mono (h : m ≤ n) : offset size m ≤ offset size n := by
  induction n, h using Nat.le_induction with
  | base => exact le_rfl
  | succ n _ ih => exact ih.trans (Nat.le_add_right _ _)

theorem offset_add_lt (hr : r < size m) (h : m < n) : offset size m + r < offset size n :=
  calc offset size m + r < offset size m + size m := Nat.add_lt_add_left hr _
    _ = offset size (m + 1) := rfl
    _ ≤ offset size n := offset_mono h

/-- Places in blocks are ordered by the block, and within one block by the place. -/
theorem offset_add_lt_iff (hr : r < size m) (hs : s < size n) :
    offset size m + r < offset size n + s ↔ m < n ∨ (m = n ∧ r < s) := by
  rcases lt_trichotomy m n with h | rfl | h
  · have hlt := offset_add_lt hr h
    exact ⟨fun _ => .inl h, fun _ => hlt.trans_le (Nat.le_add_right _ _)⟩
  · simp
  · have hlt := offset_add_lt hs h
    constructor
    · intro hle
      omega
    · rintro (hm | ⟨hm, -⟩) <;> omega

theorem mul_add_lt_iff (hr : r < k) (hs : s < k) :
    m * k + r < n * k + s ↔ m < n ∨ (m = n ∧ r < s) := by
  have hmul : ∀ n, offset (fun _ => k) n = n * k := fun n => by
    induction n with
    | zero => rw [Nat.zero_mul]; rfl
    | succ n ih => rw [offset, ih, Nat.succ_mul]
  have h : offset (fun _ => k) m + r < offset (fun _ => k) n + s ↔ m < n ∨ (m = n ∧ r < s) :=
    offset_add_lt_iff hr hs
  rwa [hmul, hmul] at h

/-- A field of several parts in front of another one. -/
theorem lex_assoc {a e b f c : Prop} :
    ((a ∨ (e ∧ b)) ∨ ((e ∧ f) ∧ c)) ↔ a ∨ (e ∧ (b ∨ (f ∧ c))) := by
  tauto

end Offset

def isLeapYear (year : ℕ) : Bool := year % 4 = 0 && (year % 100 ≠ 0 || year % 400 = 0)

def daysInMonth (year : ℕ) : ℕ → ℕ
  | 2 => if isLeapYear year then 29 else 28
  | 4 | 6 | 9 | 11 => 30
  | 1 | 3 | 5 | 7 | 8 | 10 | 12 => 31
  | _ => 0

def daysInYear (year : ℕ) : ℕ := offset (daysInMonth year) 13

example : daysInYear 1900 = 365 ∧ daysInYear 2000 = 366 ∧ daysInYear 2024 = 366 := by decide

theorem daysInMonth_le (year month : ℕ) : daysInMonth year month ≤ 31 := by
  unfold daysInMonth
  split <;> try split
  all_goals omega

/-- An instant in UTC, outside the leap seconds. -/
structure DateTime where
  year : ℕ
  month : ℕ
  day : ℕ
  hour : ℕ
  minute : ℕ
  second : ℕ
  nanosecond : ℕ
  year_lt : year < 10000
  month_le : month ≤ 12
  one_le_day : 1 ≤ day
  day_le : day ≤ daysInMonth year month
  hour_lt : hour < 24
  minute_lt : minute < 60
  second_lt : second < 60
  nanosecond_lt : nanosecond < 10 ^ 9

namespace DateTime

variable (t u : DateTime)

def dayOfYear : ℕ := offset (daysInMonth t.year) t.month + (t.day - 1)

/-- The days since the first of January of the year 0. -/
def dayNumber : ℕ := offset daysInYear t.year + t.dayOfYear

def secondOfDay : ℕ := (t.hour * 60 + t.minute) * 60 + t.second

/-- In nanoseconds. -/
def instant : ℕ := (t.dayNumber * 86400 + t.secondOfDay) * 10 ^ 9 + t.nanosecond

/-- From the largest to the smallest. -/
def fields : List ℕ :=
  [t.year, t.month, t.day, t.hour, t.minute, t.second, t.nanosecond]

theorem dayOfYear_lt : t.dayOfYear < daysInYear t.year := by
  have := t.one_le_day
  have := t.day_le
  exact offset_add_lt (by omega) (Nat.lt_succ_of_le t.month_le)

theorem secondOfDay_lt : t.secondOfDay < 86400 := by
  have := t.hour_lt
  have := t.minute_lt
  have := t.second_lt
  unfold secondOfDay
  omega

variable {t u}

theorem dayOfYear_lt_iff (h : t.year = u.year) :
    t.dayOfYear < u.dayOfYear ↔ t.month < u.month ∨ (t.month = u.month ∧ t.day < u.day) := by
  have := t.one_le_day
  have := t.day_le
  have := u.one_le_day
  have := u.day_le
  unfold dayOfYear
  rw [h, offset_add_lt_iff (by rw [← h]; omega) (by omega)]
  omega

theorem dayNumber_lt_iff : t.dayNumber < u.dayNumber ↔ t.year < u.year
    ∨ (t.year = u.year ∧ (t.month < u.month ∨ (t.month = u.month ∧ t.day < u.day))) := by
  unfold dayNumber
  rw [offset_add_lt_iff t.dayOfYear_lt u.dayOfYear_lt]
  exact or_congr_right (and_congr_right dayOfYear_lt_iff)

theorem secondOfDay_lt_iff : t.secondOfDay < u.secondOfDay ↔ t.hour < u.hour
    ∨ (t.hour = u.hour ∧ (t.minute < u.minute ∨ (t.minute = u.minute ∧ t.second < u.second))) := by
  have := t.minute_lt
  have := u.minute_lt
  have := t.second_lt
  have := u.second_lt
  unfold secondOfDay
  omega

theorem dayNumber_eq_iff : t.dayNumber = u.dayNumber
    ↔ t.year = u.year ∧ t.month = u.month ∧ t.day = u.day := by
  have hlt := dayNumber_lt_iff (t := t) (u := u)
  have hgt := dayNumber_lt_iff (t := u) (u := t)
  omega

theorem secondOfDay_eq_iff : t.secondOfDay = u.secondOfDay
    ↔ t.hour = u.hour ∧ t.minute = u.minute ∧ t.second = u.second := by
  have hlt := secondOfDay_lt_iff (t := t) (u := u)
  have hgt := secondOfDay_lt_iff (t := u) (u := t)
  omega

/-- The instants are ordered as their fields are, the larger ones first. -/
theorem instant_lt_iff : t.instant < u.instant ↔ t.fields < u.fields := by
  have hsec := t.secondOfDay_lt
  have hsec' := u.secondOfDay_lt
  have heq : t.dayNumber * 86400 + t.secondOfDay = u.dayNumber * 86400 + u.secondOfDay
      ↔ t.dayNumber = u.dayNumber ∧ t.secondOfDay = u.secondOfDay := by omega
  unfold instant
  rw [mul_add_lt_iff t.nanosecond_lt u.nanosecond_lt, mul_add_lt_iff hsec hsec', heq, lex_assoc,
    dayNumber_lt_iff, dayNumber_eq_iff, secondOfDay_lt_iff, secondOfDay_eq_iff]
  simp only [lex_assoc, fields, List.cons_lt_cons_iff, List.not_lt_nil, and_false, or_false]

end DateTime

end Calendar
