import Mathlib.Algebra.Group.Int.Defs
import ForwardingRelayer.Lib.Instant
import ForwardingRelayer.Lib.Rfc3339

/-!
# Reading timestamps

`readRfc3339` is what `chrono` accepts as an instant of RFC 3339, down to its liberties: the date
and the time may be set apart by a `t` or a space, digits past the nanoseconds are passed over, and
an offset may have a minus sign of its own. What `toRfc3339` writes is read back as the instant.
-/

namespace Calendar

def digitVal (c : Char) : ℕ := c.toNat - '0'.toNat

/-- The number of some digits, put behind the digits of `acc`. -/
def numberOf (acc : ℕ) (digits : List Char) : ℕ :=
  digits.foldl (fun n c => n * 10 + digitVal c) acc

/-- The number of the next `w` digits, and the rest. -/
def readNumber : ℕ → ℕ → List Char → Option (ℕ × List Char)
  | 0, acc, s => some (acc, s)
  | _ + 1, _, [] => none
  | w + 1, acc, c :: s => if c.isDigit then readNumber w (acc * 10 + digitVal c) s else none

def readChar (c : Char) : List Char → Option (List Char)
  | [] => none
  | d :: s => if d = c then some s else none

def readSeparator : List Char → Option (List Char)
  | [] => none
  | d :: s => if d = 'T' ∨ d = 't' ∨ d = ' ' then some s else none

/-- In nanoseconds. -/
def readFraction : List Char → Option (ℕ × List Char)
  | '.' :: s =>
    let used := (s.takeWhile Char.isDigit).take 9
    if used = [] then none
    else some (numberOf 0 used * 10 ^ (9 - used.length), s.dropWhile Char.isDigit)
  | s => some (0, s)

def readSign : List Char → Option (ℤ × List Char)
  | [] => none
  | d :: s =>
    if d = '+' then some (1, s)
    else if d = '-' ∨ d = '\u2212' then some (-1, s)
    else none

def readHourMinute (s : List Char) : Option (ℤ × List Char) := do
  let (sign, s) ← readSign s
  let (hour, s) ← readNumber 2 0 s
  let s ← readChar ':' s
  let (minute, s) ← readNumber 2 0 s
  if hour < 24 ∧ minute < 60 then some (sign * ((hour * 60 + minute) * 60 : ℕ), s) else none

/-- In seconds. -/
def readZone : List Char → Option (ℤ × List Char)
  | [] => none
  | d :: s => if d = 'Z' ∨ d = 'z' then some (0, s) else readHourMinute (d :: s)

/-- The time of these fields; a second of 60 is a leap second. -/
def resolve (year month day hour minute second nanosecond : ℕ) (zone : ℤ) : Option ℤ :=
  if 1 ≤ day ∧ month ≤ 12 ∧ day ≤ daysInMonth year month ∧ hour < 24 ∧ minute < 60
      ∧ second ≤ 60 then
    let days := offset yearLength year + (offset (daysInMonth year) month + (day - 1))
    let seconds := days * 86400 + ((hour * 60 + minute) * 60 + second)
    some ((seconds - zone) * 10 ^ 9 + nanosecond - epoch)
  else none

def readDateTime (s : List Char) : Option ℤ := do
  let (year, s) ← readNumber 4 0 s
  let s ← readChar '-' s
  let (month, s) ← readNumber 2 0 s
  let s ← readChar '-' s
  let (day, s) ← readNumber 2 0 s
  let s ← readSeparator s
  let (hour, s) ← readNumber 2 0 s
  let s ← readChar ':' s
  let (minute, s) ← readNumber 2 0 s
  let s ← readChar ':' s
  let (second, s) ← readNumber 2 0 s
  let (nanosecond, s) ← readFraction s
  let (zone, s) ← readZone s
  if s = [] then resolve year month day hour minute second nanosecond zone else none

def readRfc3339 (s : String) : Option ℤ := readDateTime s.toList

section Read

variable {s : List Char} {w acc n : ℕ}

theorem digitVal_digitChar (h : n < 10) : digitVal n.digitChar = n := by
  rw [digitVal, Nat.toNat_digitChar_of_lt_ten h]
  exact Nat.add_sub_cancel_left ..

theorem isDigit_digitChar (h : n < 10) : n.digitChar.isDigit = true := by
  have hall : ∀ n ∈ List.range 10, n.digitChar.isDigit = true := by decide
  exact hall n (List.mem_range.2 h)

theorem isDigit_of_mem_digits : ∀ {w n : ℕ}, ∀ c ∈ digits w n, c.isDigit = true
  | 0, _ => nofun
  | w + 1, n => by
    intro c hc
    rcases List.mem_append.1 hc with hc | hc
    · exact isDigit_of_mem_digits c hc
    · rw [List.mem_singleton.1 hc]
      exact isDigit_digitChar (Nat.mod_lt n (by decide))

theorem readNumber_append : ∀ {ds : List Char} {acc : ℕ}, (∀ c ∈ ds, c.isDigit = true) →
    readNumber ds.length acc (ds ++ s) = some (numberOf acc ds, s)
  | [], _, _ => rfl
  | c :: ds, acc, h => by
    rw [List.forall_mem_cons] at h
    rw [List.length_cons, List.cons_append, readNumber, if_pos h.1, readNumber_append h.2]
    rfl

theorem numberOf_digits : ∀ (w : ℕ) {acc n : ℕ},
    numberOf acc (digits w n) = acc * 10 ^ w + n % 10 ^ w
  | 0, acc, n => by simp [digits, numberOf, Nat.mod_one]
  | w + 1, acc, n => by
    have hlast : n % 10 ^ (w + 1) = n / 10 % 10 ^ w * 10 + n % 10 := by
      rw [pow_succ, Nat.mul_comm, Nat.mod_mul, Nat.add_comm, Nat.mul_comm]
    rw [digits, numberOf, List.foldl_append, List.foldl_cons, List.foldl_nil,
      digitVal_digitChar (Nat.mod_lt n (by decide)), ← numberOf, numberOf_digits w, hlast, pow_succ,
      Nat.add_mul, Nat.mul_assoc, Nat.add_assoc]

/-- A number that was written in `w` digits. -/
theorem readNumber_digits (h : n < 10 ^ w) : readNumber w 0 (digits w n ++ s) = some (n, s) := by
  have hread := @readNumber_append s (digits w n) 0 isDigit_of_mem_digits
  rwa [length_digits, numberOf_digits, Nat.zero_mul, Nat.zero_add, Nat.mod_eq_of_lt h] at hread

@[simp] theorem readChar_self (c : Char) : readChar c (c :: s) = some s := if_pos rfl

theorem takeWhile_isDigit {ds : List Char} {c : Char} (h : ∀ c ∈ ds, c.isDigit = true)
    (hc : c.isDigit = false) : (ds ++ c :: s).takeWhile Char.isDigit = ds
      ∧ (ds ++ c :: s).dropWhile Char.isDigit = c :: s := by
  rw [List.takeWhile_append_of_pos h, List.dropWhile_append_of_pos h,
    List.takeWhile_cons_of_neg (by simp [hc]), List.dropWhile_cons_of_neg (by simp [hc]),
    List.append_nil]
  exact ⟨rfl, rfl⟩

theorem readFraction_digits {c : Char} (hw : 0 < w) (hw' : w ≤ 9) (h : n < 10 ^ w)
    (hc : c.isDigit = false) :
    readFraction ('.' :: (digits w n ++ c :: s)) = some (n * 10 ^ (9 - w), c :: s) := by
  obtain ⟨htake, hdrop⟩ := @takeWhile_isDigit s (digits w n) c isDigit_of_mem_digits hc
  have hall : (digits w n).take 9 = digits w n :=
    List.take_of_length_le (by rwa [length_digits])
  have hne : digits w n ≠ [] := by
    rw [← List.length_pos_iff, length_digits]
    exact hw
  simp only [readFraction, htake, hdrop, hall, hne, if_false, length_digits]
  rw [numberOf_digits, Nat.zero_mul, Nat.zero_add, Nat.mod_eq_of_lt h]

/-- The groups of zeros that a fraction leaves out do not count. -/
theorem readFraction_fraction (h : n < 10 ^ 9) :
    readFraction (fraction n ++ zone) = some (n, zone) := by
  have hzone : zone = '+' :: "00:00".toList := rfl
  rw [hzone]
  unfold fraction
  split
  · rename_i h₀
    rw [h₀]
    rfl
  split
  · rename_i h₆
    have hback : n / 10 ^ 6 * 10 ^ 6 = n := by omega
    have hread := @readFraction_digits "00:00".toList 3 (n / 10 ^ 6) '+' (by decide) (by decide)
      (by omega) (by decide)
    rwa [show 9 - 3 = 6 from rfl, hback] at hread
  split
  · rename_i h₃
    have hback : n / 10 ^ 3 * 10 ^ 3 = n := by omega
    have hread := @readFraction_digits "00:00".toList 6 (n / 10 ^ 3) '+' (by decide) (by decide)
      (by omega) (by decide)
    rwa [show 9 - 6 = 3 from rfl, hback] at hread
  · have hread := @readFraction_digits "00:00".toList 9 n '+' (by decide) (by decide) h (by decide)
    rwa [show 9 - 9 = 0 from rfl, pow_zero, Nat.mul_one] at hread

theorem readZone_zone : readZone zone = some (0, []) := by decide

end Read

namespace DateTime

variable {t : DateTime}

theorem resolve_fields : resolve t.year t.month t.day t.hour t.minute t.second t.nanosecond 0
    = some t.timestamp := by
  have hfields : 1 ≤ t.day ∧ t.month ≤ 12 ∧ t.day ≤ daysInMonth t.year t.month ∧ t.hour < 24
      ∧ t.minute < 60 ∧ t.second ≤ 60 :=
    ⟨t.one_le_day, t.month_le, t.day_le, t.hour_lt, t.minute_lt, t.second_lt.le⟩
  have hcast : (t.instant : ℤ)
      = ((t.dayNumber * 86400 + t.secondOfDay : ℕ) : ℤ) * 10 ^ 9 + t.nanosecond := by
    rw [instant, Int.natCast_add, Int.natCast_mul]
    rfl
  rw [resolve, if_pos hfields, timestamp, hcast, ← daysInYear_eq]
  dsimp only
  rw [sub_zero]
  rfl

/-- What is written for an instant is read as that instant. -/
theorem readRfc3339_toRfc3339 (t : DateTime) : readRfc3339 t.toRfc3339 = some t.timestamp := by
  have hmonth : t.month < 10 ^ 2 := t.month_le.trans_lt (by decide)
  have hhour : t.hour < 10 ^ 2 := t.hour_lt.trans (by decide)
  have hminute : t.minute < 10 ^ 2 := t.minute_lt.trans (by decide)
  have hsecond : t.second < 10 ^ 2 := t.second_lt.trans (by decide)
  have hsep : ∀ s, readSeparator ('T' :: s) = some s := fun s => rfl
  rw [readRfc3339, toRfc3339, String.toList_ofList, readDateTime,
    readNumber_digits t.year_lt]
  simp only [Option.bind_eq_bind, Option.bind_some, readChar_self, readNumber_digits hmonth,
    readNumber_digits t.day_lt, hsep, readNumber_digits hhour, readNumber_digits hminute,
    readNumber_digits hsecond, readFraction_fraction t.nanosecond_lt, readZone_zone, if_true]
  exact resolve_fields

end DateTime

/-- The text of a time, if it is of one of the years 0 to 9999. -/
def toRfc3339 (ts : ℤ) : Option String := (DateTime.ofTimestamp ts).map DateTime.toRfc3339

theorem readRfc3339_of_toRfc3339 {ts : ℤ} {text : String} (h : toRfc3339 ts = some text) :
    readRfc3339 text = some ts := by
  obtain ⟨t, ht, rfl⟩ := Option.map_eq_some_iff.1 h
  rw [DateTime.readRfc3339_toRfc3339, DateTime.timestamp_of_ofTimestamp ht]

end Calendar
