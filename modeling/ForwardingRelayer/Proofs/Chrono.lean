import ForwardingRelayer.Chrono
import ForwardingRelayer.Lib.ReadRfc3339

/-!
# What is asked of the texts of instants

For the years 0 to 9999 `chrono` documents the format of its texts, and that it reads what it
writes. `Chrono.standard` is such a pair, by the calendar.
-/

namespace ForwardingRelayer

open Calendar

/-- A reading of the clock in the years 0 to 9999. -/
def InYears (n : ℤ) : Prop := -62167219200000000000 ≤ n ∧ n < 253402300800000000000

instance (n : ℤ) : Decidable (InYears n) := inferInstanceAs (Decidable (_ ∧ _))

theorem isSome_ofTimestamp_iff {n : ℤ} : (DateTime.ofTimestamp n).isSome ↔ InYears n := by
  have hepoch : epoch = 62167219200000000000 := by decide
  have hlast : lastInstant = 315569520000000000000 := by decide
  unfold DateTime.ofTimestamp InYears
  by_cases hlt : (n + epoch).toNat < lastInstant
  · by_cases hpos : 0 ≤ n + epoch
    · rw [dif_pos hlt, if_pos hpos]
      simp only [Option.isSome_some, true_iff]
      omega
    · rw [dif_pos hlt, if_neg hpos]
      simp only [Option.isSome_none, Bool.false_eq_true, false_iff]
      omega
  · rw [dif_neg hlt]
    simp only [Option.isSome_none, Bool.false_eq_true, false_iff]
    omega

/-- Each of these readings is the time of a date of the calendar. -/
theorem exists_timestamp_eq {n : ℤ} (h : InYears n) : ∃ t : DateTime, t.timestamp = n := by
  obtain ⟨t, ht⟩ := Option.isSome_iff_exists.1 (isSome_ofTimestamp_iff.2 h)
  exact ⟨t, DateTime.timestamp_of_ofTimestamp ht⟩

theorem inYears_timestamp (t : DateTime) : InYears t.timestamp := by
  have hlast : t.instant < lastInstant := by
    have hday : t.dayNumber < offset daysInYear 10000 := offset_add_lt t.dayOfYear_lt t.year_lt
    have := t.secondOfDay_lt
    have := t.nanosecond_lt
    rw [lastInstant_eq, dayLength]
    unfold DateTime.instant
    omega
  unfold lastInstant dayLength at hlast
  unfold InYears DateTime.timestamp epoch dayLength
  omega

theorem UtcTime.toNanos_ofNanos (n : ℤ) : (ofNanos n).toNanos = n := by
  unfold toNanos ofNanos
  dsimp only
  omega

/-- Between readings of the clock there is no leap second. -/
theorem signedDurationSince_ofNanos (t now : ℤ) :
    (UtcTime.ofNanos now).signedDurationSince (.ofNanos t) = now - t := by
  have hfrac : ∀ n : ℤ, ((n % 1000000000).toNat : ℤ) = n % 1000000000 :=
    fun n => Int.toNat_of_nonneg (Int.emod_nonneg n (by decide))
  have hlt : ∀ n : ℤ, ¬ (n % 1000000000).toNat ≥ 1000000000 := fun n => by omega
  simp only [UtcTime.signedDurationSince, UtcTime.ofNanos, hfrac, hlt, and_false, if_false]
  omega

theorem secondsSince_ofNanos (t now : ℤ) :
    secondsSince (.ofNanos t) (.ofNanos now) = max ((now - t).tdiv 1000000000) 0 := by
  rw [secondsSince, signedDurationSince_ofNanos]

namespace Chrono

/-- What is written for a reading of the clock is read as that reading. -/
def RoundTrips (chrono : Chrono) : Prop :=
  ∀ n, InYears n → chrono.parseFromRfc3339 (chrono.toRfc3339 (.ofNanos n)) = some (.ofNanos n)

/-- A date is written in the format of RFC 3339, with as many groups of three digits of the second's
fraction as it has. -/
def Formats (chrono : Chrono) : Prop :=
  ∀ t : DateTime, chrono.toRfc3339 (.ofNanos t.timestamp) = t.toRfc3339

/-- Exact for the clock's readings in the years 0 to 9999, and for their texts. -/
def standard : Chrono where
  toRfc3339 t := (Calendar.toRfc3339 t.toNanos).getD ""
  parseFromRfc3339 text := (readRfc3339 text).map UtcTime.ofNanos

theorem standard_toRfc3339 {n : ℤ} (h : InYears n) :
    Calendar.toRfc3339 n = some (standard.toRfc3339 (.ofNanos n)) := by
  obtain ⟨t, ht⟩ := Option.isSome_iff_exists.1 (isSome_ofTimestamp_iff.2 h)
  simp [standard, UtcTime.toNanos_ofNanos, Calendar.toRfc3339, ht]

theorem standard_roundTrips : standard.RoundTrips := fun n hn => by
  have hread := readRfc3339_of_toRfc3339 (standard_toRfc3339 hn)
  change (readRfc3339 (standard.toRfc3339 (.ofNanos n))).map UtcTime.ofNanos = _
  rw [hread, Option.map_some]

theorem standard_formats : standard.Formats := fun t => by
  have hn := inYears_timestamp t
  obtain ⟨u, hu, htext⟩ := Option.map_eq_some_iff.1 (standard_toRfc3339 hn)
  have heq : u.instant = t.instant := by
    have htime := DateTime.timestamp_of_ofTimestamp hu
    unfold DateTime.timestamp at htime
    omega
  rw [← htext]
  exact String.le_antisymm (DateTime.toRfc3339_le_iff.2 heq.le) (DateTime.toRfc3339_le_iff.2 heq.ge)

end Chrono

end ForwardingRelayer
