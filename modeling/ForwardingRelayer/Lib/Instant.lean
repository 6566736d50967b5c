import Mathlib.Data.Int.Notation
import ForwardingRelayer.Lib.Calendar

/-!
# The calendar fields of an instant

The block an offset falls in is found by going through the blocks. An instant's day falls in a year
and then in a month of it, and so every instant of the years 0 to 9999 has its fields.
-/

namespace Calendar

/-- The block from `b` on that `r` falls in, and what is left of `r` there. -/
def locate (size : ℕ → ℕ) : ℕ → ℕ → ℕ → ℕ × ℕ
  | 0, b, r => (b, r)
  | fuel + 1, b, r => if r < size b then (b, r) else locate size fuel (b + 1) (r - size b)

theorem locate_spec {size : ℕ → ℕ} : ∀ {fuel b r : ℕ},
    offset size b + r < offset size (b + fuel) →
      (locate size fuel b r).2 < size (locate size fuel b r).1
        ∧ offset size (locate size fuel b r).1 + (locate size fuel b r).2 = offset size b + r
        ∧ (locate size fuel b r).1 < b + fuel
  | 0, b, r, h => by
    rw [Nat.add_zero] at h
    omega
  | fuel + 1, b, r, h => by
    rw [locate]
    split
    · rename_i hr
      exact ⟨hr, rfl, Nat.lt_add_of_pos_right (Nat.succ_pos fuel)⟩
    · have hoff : offset size (b + 1) = offset size b + size b := rfl
      have hrest : offset size (b + 1) + (r - size b) = offset size b + r := by omega
      have hrec := @locate_spec size fuel (b + 1) (r - size b)
        (by rwa [hrest, Nat.add_assoc, Nat.add_comm 1 fuel])
      exact ⟨hrec.1, hrec.2.1.trans hrest, by omega⟩

theorem locate_lt {size : ℕ → ℕ} {n r : ℕ} (h : r < offset size n) :
    (locate size n 0 r).2 < size (locate size n 0 r).1
      ∧ offset size (locate size n 0 r).1 + (locate size n 0 r).2 = r
      ∧ (locate size n 0 r).1 < n := by
  have hzero : offset size 0 + r = r := Nat.zero_add r
  have hspec := @locate_spec size n 0 r (by rwa [hzero, Nat.zero_add])
  rwa [hzero, Nat.zero_add] at hspec

def yearLength (year : ℕ) : ℕ := if isLeapYear year then 366 else 365

theorem daysInYear_eq : daysInYear = yearLength := by
  funext year
  simp only [daysInYear, offset, daysInMonth, yearLength]
  split <;> rfl

theorem offset_daysInYear : ∀ year : ℕ,
    offset daysInYear year + (year + 99) / 100 = 365 * year + (year + 3) / 4 + (year + 399) / 400
  | 0 => rfl
  | year + 1 => by
    have ih := offset_daysInYear year
    rw [offset, congrFun daysInYear_eq year, yearLength]
    simp only [isLeapYear, Bool.and_eq_true, Bool.or_eq_true, decide_eq_true_eq, ne_eq]
    split <;> omega

/-- In nanoseconds. -/
def dayLength : ℕ := 86400 * 10 ^ 9

/-- The instant after the year 9999. -/
def lastInstant : ℕ := 3652425 * dayLength

/-- The first of January 1970. -/
def epoch : ℕ := 719528 * dayLength

theorem lastInstant_eq : lastInstant = offset daysInYear 10000 * dayLength := by
  have h := offset_daysInYear 10000
  generalize offset daysInYear 10000 = days at h ⊢
  rw [lastInstant, show days = 3652425 by omega]

namespace DateTime

/-- The nanoseconds since the epoch. -/
def timestamp (t : DateTime) : ℤ := t.instant - epoch

section OfInstant

variable {n : ℕ}

theorem year_spec (h : n < lastInstant) :
    (locate yearLength 10000 0 (n / dayLength)).2
        < daysInYear (locate yearLength 10000 0 (n / dayLength)).1
      ∧ offset daysInYear (locate yearLength 10000 0 (n / dayLength)).1
          + (locate yearLength 10000 0 (n / dayLength)).2 = n / dayLength
      ∧ (locate yearLength 10000 0 (n / dayLength)).1 < 10000 := by
  rw [lastInstant_eq, Nat.mul_comm] at h
  rw [← daysInYear_eq]
  exact locate_lt (Nat.div_lt_of_lt_mul h)

theorem month_spec {year r : ℕ} (h : r < daysInYear year) :
    (locate (daysInMonth year) 13 0 r).2 < daysInMonth year (locate (daysInMonth year) 13 0 r).1
      ∧ offset (daysInMonth year) (locate (daysInMonth year) 13 0 r).1
          + (locate (daysInMonth year) 13 0 r).2 = r
      ∧ (locate (daysInMonth year) 13 0 r).1 < 13 :=
  locate_lt h

/-- The fields of an instant. -/
def ofInstant (n : ℕ) (h : n < lastInstant) : DateTime :=
  let year := locate yearLength 10000 0 (n / dayLength)
  let month := locate (daysInMonth year.1) 13 0 year.2
  let second := n % dayLength / 10 ^ 9
  { year := year.1
    month := month.1
    day := month.2 + 1
    hour := second / 3600
    minute := second / 60 % 60
    second := second % 60
    nanosecond := n % 10 ^ 9
    year_lt := (year_spec h).2.2
    month_le := Nat.le_of_lt_succ (month_spec (year_spec h).1).2.2
    one_le_day := Nat.succ_pos _
    day_le := (month_spec (year_spec h).1).1
    hour_lt := by
      have hsec : second < 86400 :=
        Nat.div_lt_of_lt_mul ((Nat.mod_lt n (by decide)).trans_eq (Nat.mul_comm _ _))
      omega
    minute_lt := Nat.mod_lt _ (by decide)
    second_lt := Nat.mod_lt _ (by decide)
    nanosecond_lt := Nat.mod_lt _ (by decide) }

theorem instant_ofInstant (h : n < lastInstant) : (ofInstant n h).instant = n := by
  have hday : (ofInstant n h).dayNumber = n / dayLength := by
    unfold dayNumber dayOfYear ofInstant
    dsimp only
    rw [Nat.add_sub_cancel, (month_spec (year_spec h).1).2.1, (year_spec h).2.1]
  have hsec : (ofInstant n h).secondOfDay = n % dayLength / 10 ^ 9 := by
    unfold secondOfDay ofInstant
    dsimp only
    omega
  have hnano : (ofInstant n h).nanosecond = n % 10 ^ 9 := rfl
  unfold instant
  rw [hday, hsec, hnano, dayLength]
  omega

end OfInstant

/-- The fields of a time, if it is of one of these years. -/
def ofTimestamp (ts : ℤ) : Option DateTime :=
  if h : (ts + epoch).toNat < lastInstant then
    if 0 ≤ ts + epoch then some (ofInstant (ts + epoch).toNat h) else none
  else none

theorem timestamp_of_ofTimestamp {ts : ℤ} {t : DateTime} (h : ofTimestamp ts = some t) :
    t.timestamp = ts := by
  unfold ofTimestamp at h
  split at h
  · rename_i hlt
    rw [Option.ite_none_right_eq_some, Option.some.injEq] at h
    obtain ⟨hpos, rfl⟩ := h
    rw [timestamp, instant_ofInstant]
    omega
  · cases h

end DateTime

end Calendar
